import Mathlib.Data.List.Perm.Subperm
import Ridux.Futex.Table

/-!
# The lists of futex waiters

* `Entry`, `FutexTable.view`: what the entries of the table hold, their links left out;
* `FutexTable.Threaded`: every entry hangs in the list of its own bucket, and in no other;
* `FutexTable.removeIdx_spec`, `removeTaskUaddr_spec`, `waiterAdd_spec`, `wakeN_exact`, `wakeN_any`,
  `requeue_spec`: each operation on the table as one on the view.
-/

namespace Ridux

open Lib Function List Option

/-- What an entry holds. -/
structure Entry where
  uaddr : BitVec 64
  mmKey : BitVec 64
  bitset : BitVec 32
  task : Option ℕ
  seq : BitVec 32

/-- What an entry in use holds. -/
def Waiter.entry (w : Waiter) : Option Entry :=
  if w.used then some ⟨w.uaddr, w.mmKey, w.bitset, w.task, w.seq⟩ else none

variable {w : Waiter}

theorem Waiter.entry_eq_some {e : Entry} (h : w.entry = some e) :
    w.used = true ∧ e = ⟨w.uaddr, w.mmKey, w.bitset, w.task, w.seq⟩ := by
  unfold entry at h
  split_ifs at h with hu
  exact ⟨hu, (some.inj h).symm⟩

@[simp] theorem Waiter.entry_next (w : Waiter) (n : Option ℕ) :
    ({ w with next := n } : Waiter).entry = w.entry := rfl

theorem Waiter.entry_used (h : w.used = true) :
    w.entry = some ⟨w.uaddr, w.mmKey, w.bitset, w.task, w.seq⟩ := if_pos h

namespace Entry

/-- The entry is one of the task, as `c3_futex_waiter_remove_task_uaddr` looks for them. -/
def ofTask (task : ℕ) (uaddr mmKey : BitVec 64) (exactKey : Bool) (e : Entry) : Bool :=
  e.task = some task ∧ (uaddr ≠ 0 → e.uaddr = uaddr) ∧ (exactKey → e.mmKey = mmKey)

/-- The entry is one of a wake with the key `mmKey`. -/
def hit (uaddr mmKey : BitVec 64) (bitset : BitVec 32) (e : Entry) : Bool :=
  e.uaddr = uaddr ∧ e.mmKey = mmKey ∧ e.bitset &&& bitset ≠ 0

/-- The entry is one of a wake that does not look at the keys. -/
def hitAny (uaddr : BitVec 64) (bitset : BitVec 32) (e : Entry) : Bool :=
  e.uaddr = uaddr ∧ e.bitset &&& bitset ≠ 0

/-- The entry is one that a requeue moves. -/
def moves (src oldKey : BitVec 64) (exactKey : Bool) (e : Entry) : Bool :=
  e.uaddr = src ∧ (!exactKey ∨ e.mmKey = oldKey)

end Entry

namespace FutexTable

/-- The entry `i`, when it is in use. -/
def view (t : FutexTable) (i : ℕ) : Option Entry :=
  if i < c3FutexWaitMax then (t.waiters i).entry else none

/-- The links between the entries. -/
def next (t : FutexTable) (i : ℕ) : Option ℕ := (t.waiters i).next

/-- The lists are those of the entries. -/
structure Hangs (t : FutexTable) (L : ℕ → List ℕ) : Prop where
  buckets : Buckets t.next t.heads L
  mem : ∀ {b i}, i ∈ L b ↔ ∃ e, t.view i = some e ∧ c3FutexHash e.uaddr e.mmKey = b

/-- Every entry is in exactly one list, that of its own bucket, and the lists end. -/
def Threaded (t : FutexTable) : Prop := ∃ L, t.Hangs L

variable {t : FutexTable} {L : ℕ → List ℕ} {b i fuel : ℕ} {pre post l : List ℕ} {prev : Option ℕ}
  {v : ℕ → Option Entry}

theorem view_eq_some {e : Entry} (h : t.view i = some e) :
    i < c3FutexWaitMax ∧ (t.waiters i).entry = some e := by
  unfold view at h
  split_ifs at h with hi
  exact ⟨hi, h⟩

theorem view_congr {t' : FutexTable} (h : (t'.waiters i).entry = (t.waiters i).entry) :
    t'.view i = t.view i := by
  unfold view
  rw [h]

theorem view_of_lt (hi : i < c3FutexWaitMax) : t.view i = (t.waiters i).entry := if_pos hi

/-! ### Taking out and putting in -/

theorem unlink_waiters (t : FutexTable) (b : ℕ) (prev : Option ℕ) (i j : ℕ) :
    (t.unlink b prev i).waiters j = { t.waiters j with next := cutNext t.next prev i j } := by
  cases prev with
  | none => rfl
  | some p =>
    show update t.waiters p { t.waiters p with next := (t.waiters i).next } j = _
    unfold cutNext
    by_cases hj : j = p
    · subst hj
      rw [update_self]
      dsimp only
      rw [update_self]
      rfl
    · rw [update_of_ne hj]
      dsimp only
      rw [update_of_ne hj]
      rfl

theorem unlink_heads (t : FutexTable) (b : ℕ) (prev : Option ℕ) (i : ℕ) :
    (t.unlink b prev i).heads = cutHead t.next t.heads b prev i := by
  cases prev <;> rfl

theorem unlink_seq (t : FutexTable) (b : ℕ) (prev : Option ℕ) (i : ℕ) :
    (t.unlink b prev i).seq = t.seq := by
  cases prev <;> rfl

/-- The entry `i` is taken out and given back. -/
def takeOut (t : FutexTable) (b : ℕ) (prev : Option ℕ) (i : ℕ) : FutexTable :=
  (t.unlink b prev i).setWaiter i .cleared

theorem takeOut_view (t : FutexTable) (b : ℕ) (prev : Option ℕ) (i : ℕ) :
    (t.takeOut b prev i).view = update t.view i none := by
  funext j
  unfold takeOut
  by_cases hj : j = i
  · subst hj
    have hw : ((t.unlink b prev j).setWaiter j .cleared).waiters j = .cleared :=
      update_self ..
    rw [update_self, view, hw]
    exact ite_self _
  · have hw : ((t.unlink b prev i).setWaiter i .cleared).waiters j =
        { t.waiters j with next := cutNext t.next prev i j } := by
      rw [← unlink_waiters t b prev i j]
      exact update_of_ne hj _ _
    rw [update_of_ne hj]
    refine view_congr ?_
    rw [hw, Waiter.entry_next]

/-- **An entry is taken out of its list.** -/
theorem Hangs.takeOut (h : t.Hangs L) (hb : L b = pre ++ i :: post) (hprev : prev = pre.getLast?) :
    (t.takeOut b prev i).Hangs (update L b (pre ++ post)) := by
  have hcut := h.buckets.cut hb hprev
  have hmem : ∀ {b' j}, j ∈ update L b (pre ++ post) b' ↔ j ∈ L b' ∧ j ≠ i :=
    h.buckets.mem_cut hb
  refine ⟨?_, fun {b' j} => ?_⟩
  · have hheads : (t.takeOut b prev i).heads = cutHead t.next t.heads b prev i := unlink_heads ..
    rw [hheads]
    refine hcut.congr fun b' j hj => ?_
    have hne : j ≠ i := (hmem.1 hj).2
    show (update (t.unlink b prev i).waiters i .cleared j).next = _
    rw [update_of_ne hne, unlink_waiters]
  · rw [hmem, h.mem, takeOut_view]
    by_cases hj : j = i
    · rw [hj, update_self]
      simp
    · rw [update_of_ne hj]
      simp [hj]

/-- The entry `i` is put in front of the list of `b`, as `w` says. -/
def putFront (t : FutexTable) (b i : ℕ) (w : Waiter) : FutexTable :=
  { t with
    waiters := update t.waiters i { w with next := t.heads b }
    heads := update t.heads b (some i) }

theorem putFront_view (t : FutexTable) (b : ℕ) (hi : i < c3FutexWaitMax) (hw : w.used = true) :
    (t.putFront b i w).view =
      update t.view i (some ⟨w.uaddr, w.mmKey, w.bitset, w.task, w.seq⟩) := by
  funext j
  by_cases hj : j = i
  · subst hj
    have hself : (t.putFront b j w).waiters j = { w with next := t.heads b } :=
      update_self ..
    rw [update_self, view_of_lt hi, hself, Waiter.entry_next, Waiter.entry_used hw]
  · have hsame : (t.putFront b i w).waiters j = t.waiters j := update_of_ne hj _ _
    rw [update_of_ne hj]
    exact view_congr (by rw [hsame])

/-- **A free entry is put in front of the list of its bucket.** -/
theorem Hangs.putFront (h : t.Hangs L) (hi : i < c3FutexWaitMax) (hfree : t.view i = none)
    (hw : w.used = true) (hb : c3FutexHash w.uaddr w.mmKey = b) :
    (t.putFront b i w).Hangs (update L b (i :: L b)) := by
  have hno : ∀ b', i ∉ L b' := by
    intro b' hmem
    obtain ⟨e, he, -⟩ := h.mem.1 hmem
    rw [hfree] at he
    cases he
  refine ⟨?_, fun {b' j} => ?_⟩
  · refine (h.buckets.push hno b).congr fun b' j hj => ?_
    show (update t.waiters i { w with next := t.heads b } j).next = _
    by_cases hji : j = i
    · rw [hji, update_self, update_self]
    · rw [update_of_ne hji, update_of_ne hji]
      rfl
  · rw [putFront_view t b hi hw]
    have hold := h.mem (b := b') (i := j)
    by_cases hji : j = i
    · subst hji
      rw [update_self]
      by_cases hbb : b' = b
      · rw [hbb, update_self]
        exact iff_of_true (mem_cons_self ..) ⟨_, rfl, hb⟩
      · rw [update_of_ne hbb]
        refine iff_of_false (hno b') ?_
        rintro ⟨e, he, hhash⟩
        obtain rfl := some.inj he
        exact hbb (hhash.symm.trans hb)
    · rw [update_of_ne hji, ← hold]
      by_cases hbb : b' = b
      · rw [hbb, update_self]
        simp [hji]
      · rw [update_of_ne hbb]

/-! ### The operations -/

theorem Hangs.length_le (h : t.Hangs L) (b : ℕ) : (L b).length ≤ c3FutexWaitMax := by
  have hsub : L b ⊆ List.range c3FutexWaitMax := by
    intro i hi
    obtain ⟨e, he, -⟩ := h.mem.1 hi
    exact mem_range.2 (view_eq_some he).1
  have hle := (subperm_of_subset (h.buckets.nodup b) hsub).length_le
  rwa [length_range] at hle

theorem getLast?_next (pre : List ℕ) (i : ℕ) : some i = (pre ++ [i]).getLast? :=
  (List.getLast?_concat ..).symm

theorem removeWalk_spec {rest : List ℕ} (h : t.Hangs L) (hb : L b = pre ++ rest) (hi : i ∈ rest)
    (hfuel : rest.length ≤ fuel) :
    (removeWalk i b fuel pre.getLast? rest.head? t).Threaded ∧
      (removeWalk i b fuel pre.getLast? rest.head? t).view = update t.view i none ∧
      (removeWalk i b fuel pre.getLast? rest.head? t).seq = t.seq := by
  induction rest generalizing pre fuel with
  | nil => cases hi
  | cons j rest ih =>
    cases fuel with
    | zero => cases hfuel
    | succ fuel =>
      rw [List.head?_cons, removeWalk]
      by_cases hj : j = i
      · subst hj
        rw [if_pos rfl]
        exact ⟨⟨_, h.takeOut hb rfl⟩, takeOut_view t b _ j, unlink_seq t b _ j⟩
      · have hnext : (t.waiters j).next = rest.head? := h.buckets.next_eq hb
        rw [if_neg hj, hnext, getLast?_next pre j]
        refine ih (by rw [hb, append_assoc]; rfl) ?_ (Nat.le_of_succ_le_succ hfuel)
        rcases mem_cons.1 hi with rfl | hi
        · exact absurd rfl hj
        · exact hi

theorem removeIdx_spec (h : t.Threaded) (i : ℕ) :
    (t.removeIdx i).Threaded ∧ (t.removeIdx i).view = update t.view i none ∧
      (t.removeIdx i).seq = t.seq := by
  obtain ⟨L, hL⟩ := h
  unfold removeIdx
  by_cases hbad : c3FutexWaitMax ≤ i ∨ (!(t.waiters i).used) = true
  · have hnone : t.view i = none := by
      unfold view
      split_ifs with hlt
      · rcases hbad with hle | hu
        · exact absurd hlt (not_lt.2 hle)
        · exact if_neg fun h => by rw [h] at hu; cases hu
      · rfl
    rw [if_pos hbad]
    refine ⟨⟨L, hL⟩, ?_, rfl⟩
    rw [← hnone, update_eq_self]
  · rw [if_neg hbad]
    obtain ⟨hlt, hu⟩ := not_or.1 hbad
    have hu : (t.waiters i).used = true := by simpa using hu
    have hmem : i ∈ L (t.bucket i) :=
      hL.mem.2 ⟨_, (view_of_lt (not_le.1 hlt)).trans (Waiter.entry_used hu), rfl⟩
    have hpos : L (t.bucket i) = [] ++ L (t.bucket i) := rfl
    have hwalk := removeWalk_spec hL hpos hmem (hL.length_le _)
    rw [hL.buckets.head_eq]
    exact hwalk

theorem removeTaskUaddr_spec (h : t.Threaded) (task : ℕ) (uaddr mmKey : BitVec 64)
    (exactKey : Bool) :
    (t.removeTaskUaddr task uaddr mmKey exactKey).Threaded ∧
      (∀ i, (t.removeTaskUaddr task uaddr mmKey exactKey).view i =
        (t.view i).filter fun e => !e.ofTask task uaddr mmKey exactKey) ∧
      (t.removeTaskUaddr task uaddr mmKey exactKey).seq = t.seq := by
  have hloop : ∀ n ≤ c3FutexWaitMax,
      let u := (List.range n).foldl (fun t i =>
        if FutexTable.ofTask task uaddr mmKey exactKey (t.waiters i) then t.removeIdx i else t) t
      u.Threaded ∧ (∀ i, u.view i = if i < n then
        (t.view i).filter fun e => !e.ofTask task uaddr mmKey exactKey else t.view i) ∧
      u.seq = t.seq := by
    intro n hn
    induction n with
    | zero => exact ⟨h, fun i => (if_neg (Nat.not_lt_zero i)).symm, rfl⟩
    | succ n ih =>
      obtain ⟨hu, hview, hseq⟩ := ih (Nat.le_of_succ_le hn)
      dsimp only
      rw [range_succ, foldl_append, foldl_cons, foldl_nil]
      generalize (List.range n).foldl (fun t i =>
        if FutexTable.ofTask task uaddr mmKey exactKey (t.waiters i) then t.removeIdx i else t) t = u
        at hu hview hseq ⊢
      have hn' : u.view n = t.view n := by rw [hview, if_neg (lt_irrefl n)]
      have hof : FutexTable.ofTask task uaddr mmKey exactKey (u.waiters n) =
          (t.view n).any (Entry.ofTask task uaddr mmKey exactKey) := by
        rw [← hn', view_of_lt (Nat.lt_of_succ_le hn), Waiter.entry]
        unfold FutexTable.ofTask
        cases (u.waiters n).used <;> simp [Entry.ofTask]
      have hlt : ∀ {i}, i ≠ n → (i < n + 1 ↔ i < n) := fun hne => by omega
      cases hv : t.view n with
      | none =>
        rw [hv] at hof
        rw [if_neg (by rw [hof]; exact Bool.false_ne_true)]
        refine ⟨hu, fun i => ?_, hseq⟩
        by_cases hi : i = n
        · rw [hi, hn', hv, if_pos (Nat.lt_succ_self n)]
          rfl
        · rw [hview]
          simp only [hlt hi]
      | some e =>
        rw [hv] at hof
        cases ho : e.ofTask task uaddr mmKey exactKey with
        | true =>
          rw [if_pos (by rw [hof]; exact ho)]
          obtain ⟨hthr, hview', hseq'⟩ := removeIdx_spec hu n
          refine ⟨hthr, fun i => ?_, hseq'.trans hseq⟩
          rw [hview']
          by_cases hi : i = n
          · rw [hi, update_self, if_pos (Nat.lt_succ_self n), hv]
            rw [filter_some, ho]
            rfl
          · rw [update_of_ne hi, hview]
            simp only [hlt hi]
        | false =>
          rw [if_neg (by rw [hof]; simp [ho])]
          refine ⟨hu, fun i => ?_, hseq⟩
          by_cases hi : i = n
          · rw [hi, hn', hv, if_pos (Nat.lt_succ_self n)]
            rw [filter_some, ho]
            rfl
          · rw [hview]
            simp only [hlt hi]
  obtain ⟨hthr, hview, hseq⟩ := hloop c3FutexWaitMax le_rfl
  refine ⟨hthr, fun i => (hview i).trans ?_, hseq⟩
  split_ifs with hi
  · rfl
  · rw [view, if_neg hi]
    rfl

theorem waiterAdd_spec (h : t.Threaded) (uaddr : BitVec 64) (task : ℕ) (mmKey : BitVec 64)
    (bitset : BitVec 32) :
    match t.waiterAdd uaddr task mmKey bitset with
    | (none, t') => t' = t
    | (some i, t') => t.view i = none ∧ t'.Threaded ∧
        t'.seq = (if t.seq + 1 = 0 then 1 else t.seq + 1) ∧
        t'.view = update t.view i (some ⟨uaddr, mmKey, bitset, some task, t'.seq⟩) := by
  unfold waiterAdd
  cases ha : t.waiterAlloc with
  | none => rfl
  | some i =>
    obtain ⟨hi, hfree⟩ := firstSlot_eq_some ha
    have hfree : t.view i = none := by
      rw [view_of_lt hi, Waiter.entry, if_neg]
      simpa using hfree
    obtain ⟨L, hL⟩ := h
    generalize hseq : (if t.seq + 1 = 0 then 1 else t.seq + 1) = seq
    let w : Waiter := ⟨true, uaddr, mmKey, bitset, some task, none, seq⟩
    have hhangs := hL.putFront hi hfree (w := w) rfl rfl
    have hview := putFront_view t (c3FutexHash uaddr mmKey) hi (w := w) rfl
    exact ⟨hfree, ⟨_, hhangs.buckets, hhangs.mem⟩, rfl, hview⟩

/-- The entries that a list of indices stands for. -/
def tasksOf (v : ℕ → Option Entry) (l : List ℕ) : List (Option ℕ) :=
  l.map fun i => (v i).bind Entry.task

/-- The entries but those of a list of indices. -/
def without (v : ℕ → Option Entry) (l : List ℕ) (i : ℕ) : Option Entry :=
  if i ∈ l then none else v i

theorem without_cons (v : ℕ → Option Entry) (i : ℕ) (l : List ℕ) :
    without (update v i none) l = without v (i :: l) := by
  funext j
  unfold without
  by_cases hj : j = i
  · subst hj
    rw [update_self, if_pos (mem_cons_self ..)]
    exact ite_self _
  · rw [update_of_ne hj]
    simp only [mem_cons, hj, false_or]

theorem without_nil (v : ℕ → Option Entry) : without v [] = v := by
  funext i
  exact if_neg (not_mem_nil)

theorem wakeWalk_spec (uaddr mmKey : BitVec 64) (bitset : BitVec 32) (want : ℕ) {rest : List ℕ}
    (h : t.Hangs L) (hb : L b = pre ++ rest) (hfuel : rest.length ≤ fuel)
    (hv : ∀ i ∈ rest, t.view i = v i) :
    let hits := (rest.filter fun i => (v i).any (Entry.hit uaddr mmKey bitset)).take want
    let r := wakeWalk uaddr mmKey bitset b fuel want pre.getLast? rest.head? t
    r.2.Threaded ∧ r.1 = tasksOf v hits ∧ r.2.view = without t.view hits ∧ r.2.seq = t.seq := by
  induction rest generalizing pre fuel want t L with
  | nil =>
    dsimp only
    rw [filter_nil, take_nil, without_nil]
    cases fuel <;> cases want <;> exact ⟨⟨L, h⟩, rfl, rfl, rfl⟩
  | cons j rest ih =>
    cases want with
    | zero =>
      dsimp only
      rw [take_zero, without_nil]
      cases fuel <;> exact ⟨⟨L, h⟩, rfl, rfl, rfl⟩
    | succ want =>
      cases fuel with
      | zero => cases hfuel
      | succ fuel =>
        have hnext : (t.waiters j).next = rest.head? := h.buckets.next_eq hb
        have hfuel := Nat.le_of_succ_le_succ hfuel
        have hjb : j ∈ L b := by
          rw [hb]
          exact mem_append_right _ (mem_cons_self ..)
        obtain ⟨e, he, -⟩ := h.mem.1 hjb
        have hvj : v j = some e := (hv j (mem_cons_self ..)).symm.trans he
        obtain ⟨-, hentry⟩ := view_eq_some he
        obtain ⟨hused, hfields⟩ := Waiter.entry_eq_some hentry
        have hhit : FutexTable.hit uaddr mmKey bitset (t.waiters j) =
            (v j).any (Entry.hit uaddr mmKey bitset) := by
          rw [hvj, hfields]
          rfl
        have hnd : j ∉ rest := by
          have := h.buckets.nodup b
          rw [hb] at this
          exact (nodup_cons.1 (nodup_append.1 this).2.1).1
        let hits : ℕ → Bool := fun i => (v i).any (Entry.hit uaddr mmKey bitset)
        dsimp only
        rw [List.head?_cons, wakeWalk, hnext, hhit]
        dsimp only
        by_cases hp : (v j).any (Entry.hit uaddr mmKey bitset) = true
        · rw [if_pos hp, filter_cons_of_pos (p := hits) hp,
            take_succ_cons]
          have hstep := h.takeOut hb rfl
          have hview := takeOut_view t b pre.getLast? j
          have hrest : ∀ i ∈ rest, (t.takeOut b pre.getLast? j).view i = v i := by
            intro i hi
            have hne : i ≠ j := by
              rintro rfl
              exact hnd hi
            rw [hview, update_of_ne hne]
            exact hv i (mem_cons_of_mem _ hi)
          obtain ⟨hthr, htasks, hwithout, hseq⟩ :=
            ih want hstep (update_self ..) hfuel hrest
          refine ⟨hthr, ?_, ?_, hseq.trans (unlink_seq t b _ j)⟩
          · show (t.waiters j).task :: _ = _
            rw [tasksOf, map_cons, hvj, hfields]
            exact congrArg _ htasks
          · rw [← without_cons, ← hview]
            exact hwithout
        · rw [if_neg hp, filter_cons_of_neg (p := hits) hp, getLast?_next pre j]
          exact ih (want + 1) h (by rw [hb, append_assoc]; rfl) hfuel
            fun i hi => hv i (mem_cons_of_mem _ hi)

theorem wakeScan_spec {uaddr : BitVec 64} {bitset : BitVec 32} (want : ℕ) (h : t.Threaded)
    (hlt : ∀ i ∈ l, i < c3FutexWaitMax) (hnd : l.Nodup) (hv : ∀ i ∈ l, t.view i = v i) :
    let hits := (l.filter fun i => (v i).any (Entry.hitAny uaddr bitset)).take want
    let r := wakeScan uaddr bitset l want t
    r.2.Threaded ∧ r.1 = tasksOf v hits ∧ r.2.view = without t.view hits ∧ r.2.seq = t.seq := by
  induction l generalizing want t with
  | nil =>
    dsimp only
    rw [filter_nil, take_nil, without_nil]
    exact ⟨h, rfl, rfl, rfl⟩
  | cons j l ih =>
    obtain ⟨hj, hnd⟩ := nodup_cons.1 hnd
    have hltl : ∀ i ∈ l, i < c3FutexWaitMax := fun i hi => hlt i (mem_cons_of_mem _ hi)
    have hvl : ∀ i ∈ l, t.view i = v i := fun i hi => hv i (mem_cons_of_mem _ hi)
    cases want with
    | zero =>
      dsimp only
      rw [take_zero, without_nil]
      exact ⟨h, rfl, rfl, rfl⟩
    | succ want =>
      let hits : ℕ → Bool := fun i => (v i).any (Entry.hitAny uaddr bitset)
      have hvj : v j = (t.waiters j).entry := by
        rw [← hv j (mem_cons_self ..), view_of_lt (hlt j (mem_cons_self ..))]
      have hhit : FutexTable.hitAny uaddr bitset (t.waiters j) = hits j := by
        show _ = (v j).any (Entry.hitAny uaddr bitset)
        rw [hvj, Waiter.entry]
        unfold FutexTable.hitAny
        cases (t.waiters j).used <;> simp [Entry.hitAny]
      dsimp only
      rw [wakeScan, hhit]
      dsimp only
      by_cases hp : hits j = true
      · rw [if_pos hp, filter_cons_of_pos (p := hits) hp, take_succ_cons]
        obtain ⟨hthr, hview, hseq⟩ := removeIdx_spec h j
        have hrest : ∀ i ∈ l, (t.removeIdx j).view i = v i := by
          intro i hi
          have hne : i ≠ j := by
            rintro rfl
            exact hj hi
          rw [hview, update_of_ne hne]
          exact hvl i hi
        obtain ⟨hthr', htasks, hwithout, hseq'⟩ := ih want hthr hltl hnd hrest
        refine ⟨hthr', ?_, ?_, hseq'.trans hseq⟩
        · have htask : (v j).bind Entry.task = (t.waiters j).task := by
            have hp : (v j).any (Entry.hitAny uaddr bitset) = true := hp
            rw [hvj, Waiter.entry] at hp ⊢
            split_ifs at hp ⊢
            · rfl
            · cases hp
          rw [tasksOf, map_cons, htask]
          exact congrArg _ htasks
        · rw [← without_cons, ← hview]
          exact hwithout
      · rw [if_neg hp, filter_cons_of_neg (p := hits) hp]
        exact ih (want + 1) h hltl hnd hvl

/-- A wake takes out the entries `l`, which are among those that `p` wants. -/
structure Wakes (t : FutexTable) (p : Entry → Bool) (want : ℕ) (r : List (Option ℕ) × FutexTable)
    (l : List ℕ) : Prop where
  threaded : r.2.Threaded
  tasks : r.1 = tasksOf t.view l
  view : r.2.view = without t.view l
  seq : r.2.seq = t.seq
  nodup : l.Nodup
  le : l.length ≤ want
  hits : ∀ i ∈ l, (t.view i).any p = true
  all : l.length < want → ∀ i, (t.view i).any p = true → i ∈ l

theorem wakes_of_take {p : Entry → Bool} {want : ℕ} {r : List (Option ℕ) × FutexTable} {m : List ℕ}
    (hm : m.Nodup) (hall : ∀ i, (t.view i).any p = true → i ∈ m)
    (h : let hits := (m.filter fun i => (t.view i).any p).take want
      r.2.Threaded ∧ r.1 = tasksOf t.view hits ∧ r.2.view = without t.view hits ∧
        r.2.seq = t.seq) :
    t.Wakes p want r ((m.filter fun i => (t.view i).any p).take want) := by
  obtain ⟨hthr, htasks, hview, hseq⟩ := h
  refine ⟨hthr, htasks, hview, hseq, (hm.filter _).sublist (take_sublist ..), ?_, ?_, ?_⟩
  · rw [length_take]
    exact Nat.min_le_left _ _
  · exact fun i hi => (mem_filter.1 (mem_of_mem_take hi)).2
  · intro hlt i hi
    rw [length_take] at hlt
    rw [take_of_length_le (by omega)]
    exact mem_filter.2 ⟨hall i hi, hi⟩

theorem wakeN_exact (h : t.Threaded) (uaddr mmKey : BitVec 64) (bitset : BitVec 32) (want : ℕ) :
    ∃ l, t.Wakes (Entry.hit uaddr mmKey bitset) want (t.wakeN uaddr want mmKey true bitset) l := by
  obtain ⟨L, hL⟩ := h
  have hpos : L (c3FutexHash uaddr mmKey) = [] ++ L (c3FutexHash uaddr mmKey) := rfl
  have hwalk := wakeWalk_spec uaddr mmKey bitset want hL hpos (hL.length_le _) fun _ _ => rfl
  rw [← hL.buckets.head_eq] at hwalk
  refine ⟨_, wakes_of_take (hL.buckets.nodup (c3FutexHash uaddr mmKey)) (fun i hi => ?_) hwalk⟩
  cases hv : t.view i with
  | none =>
    rw [hv] at hi
    cases hi
  | some e =>
    rw [hv] at hi
    obtain ⟨hu, hk, -⟩ := of_decide_eq_true hi
    exact hL.mem.2 ⟨e, hv, by rw [hu, hk]⟩

/-- The entries that `c3_futex_wake_n` takes out without a key: the first ones of the table. -/
def firstHits (t : FutexTable) (uaddr : BitVec 64) (bitset : BitVec 32) (want : ℕ) : List ℕ :=
  ((List.range c3FutexWaitMax).filter fun i =>
    (t.view i).any (Entry.hitAny uaddr bitset)).take want

theorem wakeN_any (h : t.Threaded) (uaddr mmKey : BitVec 64) (bitset : BitVec 32) (want : ℕ) :
    t.Wakes (Entry.hitAny uaddr bitset) want (t.wakeN uaddr want mmKey false bitset)
      (t.firstHits uaddr bitset want) := by
  refine wakes_of_take nodup_range (fun i hi => ?_)
    (wakeScan_spec want h (fun i hi => mem_range.1 hi) nodup_range fun _ _ => rfl)
  refine mem_range.2 ?_
  by_contra hlt
  rw [view, if_neg hlt] at hi
  cases hi

/-- The entries of a list of indices go to another address. -/
def movedTo (v : ℕ → Option Entry) (dst newKey : BitVec 64) (l : List ℕ) (i : ℕ) : Option Entry :=
  if i ∈ l then (v i).map fun e => { e with uaddr := dst, mmKey := newKey } else v i

theorem movedTo_nil (v : ℕ → Option Entry) (dst newKey : BitVec 64) : movedTo v dst newKey [] = v := by
  funext i
  exact if_neg not_mem_nil

theorem movedTo_cons {dst newKey : BitVec 64} {e : Entry} (he : v i = some e) (hi : i ∉ l) :
    movedTo (update v i (some { e with uaddr := dst, mmKey := newKey })) dst newKey l =
      movedTo v dst newKey (i :: l) := by
  funext j
  unfold movedTo
  by_cases hj : j = i
  · subst hj
    rw [if_neg hi, update_self, if_pos (mem_cons_self ..), he]
    rfl
  · rw [update_of_ne hj]
    simp only [mem_cons, hj, false_or]

/-- What a requeue makes of the table: the entries `l` are moved. -/
structure Requeued (t : FutexTable) (dst newKey : BitVec 64) (r : ℕ × FutexTable) (l : List ℕ) :
    Prop where
  threaded : r.2.Threaded
  moved : r.1 = l.length
  view : r.2.view = movedTo t.view dst newKey l
  seq : r.2.seq = t.seq

variable {src dst oldKey newKey : BitVec 64} {exactKey : Bool} {maxMove : ℕ}

theorem Requeued.nil (h : t.Threaded) : t.Requeued dst newKey (0, t) [] :=
  ⟨h, rfl, (movedTo_nil ..).symm, rfl⟩

theorem Requeued.cons {t' : FutexTable} {r : ℕ × FutexTable} {l : List ℕ} {e : Entry}
    (h : t'.Requeued dst newKey r l) (he : t.view i = some e) (hi : i ∉ l)
    (hview : t'.view = update t.view i (some { e with uaddr := dst, mmKey := newKey }))
    (hseq : t'.seq = t.seq) : t.Requeued dst newKey (r.1 + 1, r.2) (i :: l) := by
  refine ⟨h.threaded, ?_, ?_, h.seq.trans hseq⟩
  · rw [h.moved, length_cons]
  · rw [h.view, hview]
    exact movedTo_cons he hi

/-- An entry moves to the front of another list. -/
def relink (t : FutexTable) (dst newKey : BitVec 64) (b : ℕ) (prev : Option ℕ) (i : ℕ) : FutexTable :=
  (t.takeOut b prev i).putFront (c3FutexHash dst newKey) i
    { (t.unlink b prev i).waiters i with uaddr := dst, mmKey := newKey }

theorem requeueWalk_hit (hm : FutexTable.moves src oldKey exactKey (t.waiters i) = true) :
    requeueWalk src dst oldKey newKey exactKey b (fuel + 1) (maxMove + 1) prev (some i) t =
      let r := requeueWalk src dst oldKey newKey exactKey b fuel maxMove prev (t.waiters i).next
        (t.relink dst newKey b prev i)
      (r.1 + 1, r.2) := by
  rw [requeueWalk, if_pos hm]
  have hrelink : t.relink dst newKey b prev i =
      { (t.unlink b prev i).setWaiter i { (t.unlink b prev i).waiters i with
          uaddr := dst, mmKey := newKey
          next := (t.unlink b prev i).heads (c3FutexHash dst newKey) } with
        heads := update (t.unlink b prev i).heads (c3FutexHash dst newKey) (some i) } := by
    unfold relink putFront takeOut setWaiter
    dsimp only
    rw [update_idem]
  rw [hrelink]
  rfl

/-- **An entry that moves hangs in the list of its new bucket.** -/
theorem Hangs.relink (h : t.Hangs L) (hb : L b = pre ++ i :: post) {e : Entry}
    (he : t.view i = some e) (dst newKey : BitVec 64) :
    ∃ L', (t.relink dst newKey b pre.getLast? i).Hangs L' ∧
      L' b = (if c3FutexHash dst newKey = b then i :: pre else pre) ++ post ∧
      (t.relink dst newKey b pre.getLast? i).view =
        update t.view i (some { e with uaddr := dst, mmKey := newKey }) := by
  obtain ⟨hi, hentry⟩ := view_eq_some he
  obtain ⟨hused, hfields⟩ := Waiter.entry_eq_some hentry
  have hw : (t.unlink b pre.getLast? i).waiters i =
      { t.waiters i with next := cutNext t.next pre.getLast? i i } := unlink_waiters ..
  have hout := h.takeOut hb rfl
  have hview := takeOut_view t b pre.getLast? i
  have hfree : (t.takeOut b pre.getLast? i).view i = none := by
    rw [hview, update_self]
  have hput := hout.putFront hi hfree
    (w := { (t.unlink b pre.getLast? i).waiters i with uaddr := dst, mmKey := newKey })
    (by rw [hw]; exact hused) rfl
  refine ⟨_, hput, ?_, ?_⟩
  · by_cases hbb : c3FutexHash dst newKey = b
    · rw [if_pos hbb, hbb, update_self, update_self]
      rfl
    · rw [if_neg hbb, update_of_ne (Ne.symm hbb), update_self]
  · have hputView := putFront_view (t.takeOut b pre.getLast? i) (c3FutexHash dst newKey) hi
      (w := { (t.unlink b pre.getLast? i).waiters i with uaddr := dst, mmKey := newKey })
      (by rw [hw]; exact hused)
    refine hputView.trans ?_
    rw [hview, update_idem, hw, hfields]

theorem requeueWalk_spec (maxMove : ℕ) {rest : List ℕ} (h : t.Hangs L) (hb : L b = pre ++ rest)
    (hfuel : rest.length ≤ fuel) (hapart : c3FutexHash dst newKey ≠ b ∨ pre ≠ [])
    (hv : ∀ i ∈ rest, t.view i = v i) :
    t.Requeued dst newKey
      (requeueWalk src dst oldKey newKey exactKey b fuel maxMove pre.getLast? rest.head? t)
      ((rest.filter fun i => (v i).any (Entry.moves src oldKey exactKey)).take maxMove) := by
  induction rest generalizing pre fuel maxMove t L with
  | nil =>
    rw [filter_nil, take_nil]
    have hdone : requeueWalk src dst oldKey newKey exactKey b fuel maxMove pre.getLast? none t =
        (0, t) := by
      cases fuel <;> cases maxMove <;> rfl
    rw [List.head?_nil, hdone]
    exact .nil ⟨L, h⟩
  | cons j rest ih =>
    cases maxMove with
    | zero =>
      have hdone : requeueWalk src dst oldKey newKey exactKey b fuel 0 pre.getLast?
          (j :: rest).head? t = (0, t) := by
        cases fuel <;> rfl
      rw [take_zero, hdone]
      exact .nil ⟨L, h⟩
    | succ maxMove =>
      cases fuel with
      | zero => cases hfuel
      | succ fuel =>
        have hnext : (t.waiters j).next = rest.head? := h.buckets.next_eq hb
        have hfuel := Nat.le_of_succ_le_succ hfuel
        have hjb : j ∈ L b := by
          rw [hb]
          exact mem_append_right _ (mem_cons_self ..)
        obtain ⟨e, he, -⟩ := h.mem.1 hjb
        have hvj : v j = some e := (hv j (mem_cons_self ..)).symm.trans he
        obtain ⟨-, hentry⟩ := view_eq_some he
        obtain ⟨-, hfields⟩ := Waiter.entry_eq_some hentry
        let hits : ℕ → Bool := fun i => (v i).any (Entry.moves src oldKey exactKey)
        have hhit : FutexTable.moves src oldKey exactKey (t.waiters j) = hits j := by
          show _ = (v j).any (Entry.moves src oldKey exactKey)
          rw [hvj, hfields]
          rfl
        have hnd : j ∉ rest := by
          have := h.buckets.nodup b
          rw [hb] at this
          exact (nodup_cons.1 (nodup_append.1 this).2.1).1
        rw [List.head?_cons]
        by_cases hp : hits j = true
        · rw [requeueWalk_hit (hhit.trans hp), hnext,
            filter_cons_of_pos (p := hits) hp, take_succ_cons]
          obtain ⟨L', hL', hb', hview⟩ := h.relink hb he dst newKey
          have hprev : pre.getLast? =
              (if c3FutexHash dst newKey = b then j :: pre else pre).getLast? := by
            split_ifs with hbb
            · rcases hapart with hne | hne
              · exact absurd hbb hne
              · exact (List.getLast?_cons_of_ne_nil hne).symm
            · rfl
          have hapart' : c3FutexHash dst newKey ≠ b ∨
              (if c3FutexHash dst newKey = b then j :: pre else pre) ≠ [] := by
            split_ifs with hbb
            · exact .inr (cons_ne_nil _ _)
            · exact .inl hbb
          have hrest : ∀ i ∈ rest, (t.relink dst newKey b pre.getLast? j).view i = v i := by
            intro i hi
            have hne : i ≠ j := by
              rintro rfl
              exact hnd hi
            rw [hview, update_of_ne hne]
            exact hv i (mem_cons_of_mem _ hi)
          have hih := ih maxMove hL' hb' hfuel hapart' hrest
          rw [← hprev] at hih
          exact hih.cons he (fun hmem => hnd (mem_filter.1 (mem_of_mem_take hmem)).1)
            hview (unlink_seq t b _ j)
        · rw [requeueWalk, if_neg (by rw [hhit]; exact hp), hnext,
            filter_cons_of_neg (p := hits) hp, getLast?_next pre j]
          exact ih (maxMove + 1) h (by rw [hb, append_assoc]; rfl) hfuel
            (.inr (by simp)) fun i hi => hv i (mem_cons_of_mem _ hi)

/-- A requeue within one bucket that moves the first two entries of its list. -/
def Entangled (t : FutexTable) (src dst : BitVec 64) (maxMove : ℕ) (oldKey newKey : BitVec 64)
    (exactKey : Bool) : Prop :=
  c3FutexHash dst newKey = c3FutexHash src oldKey ∧ 2 ≤ maxMove ∧
    ∃ i j, t.heads (c3FutexHash src oldKey) = some i ∧ t.next i = some j ∧
      FutexTable.moves src oldKey exactKey (t.waiters i) = true ∧
      FutexTable.moves src oldKey exactKey (t.waiters j) = true

theorem requeueWalk_none (fuel maxMove : ℕ) (prev : Option ℕ) :
    requeueWalk src dst oldKey newKey exactKey b fuel maxMove prev none t = (0, t) := by
  cases fuel <;> cases maxMove <;> rfl

theorem requeueWalk_zero (fuel : ℕ) (prev it : Option ℕ) :
    requeueWalk src dst oldKey newKey exactKey b fuel 0 prev it t = (0, t) := by
  cases fuel <;> rfl

theorem requeueWalk_miss (hm : FutexTable.moves src oldKey exactKey (t.waiters i) ≠ true) :
    requeueWalk src dst oldKey newKey exactKey b (fuel + 1) (maxMove + 1) prev (some i) t =
      requeueWalk src dst oldKey newKey exactKey b fuel (maxMove + 1) (some i) (t.waiters i).next
        t := by
  rw [requeueWalk, if_neg hm]

/-- What a requeue moves is what it looks for, and no more than it may. -/
def Allowed (t : FutexTable) (src oldKey : BitVec 64) (exactKey : Bool) (maxMove : ℕ) (l : List ℕ) :
    Prop :=
  l.length ≤ maxMove ∧ ∀ i ∈ l, (t.view i).any (Entry.moves src oldKey exactKey) = true

theorem allowed_take (m : List ℕ) (maxMove : ℕ) : t.Allowed src oldKey exactKey maxMove
    ((m.filter fun i => (t.view i).any (Entry.moves src oldKey exactKey)).take maxMove) := by
  refine ⟨?_, fun i hi => (mem_filter.1 (mem_of_mem_take hi)).2⟩
  rw [length_take]
  exact Nat.min_le_left _ _

theorem requeueWalk_same (h : t.Hangs L) (hlen : (L b).length ≤ fuel)
    (hsame : c3FutexHash dst newKey = b) (hclear : ∀ i j rest, L b = i :: j :: rest → 2 ≤ maxMove →
      FutexTable.moves src oldKey exactKey (t.waiters i) = true →
        FutexTable.moves src oldKey exactKey (t.waiters j) ≠ true) :
    ∃ l, t.Requeued dst newKey
        (requeueWalk src dst oldKey newKey exactKey b fuel maxMove none (L b).head? t) l ∧
      t.Allowed src oldKey exactKey maxMove l := by
  have hnone : t.Allowed src oldKey exactKey maxMove [] :=
    ⟨Nat.zero_le _, fun i hi => by cases hi⟩
  cases hLb : L b with
  | nil =>
    rw [List.head?_nil, requeueWalk_none]
    exact ⟨[], .nil ⟨L, h⟩, hnone⟩
  | cons i rest =>
    rw [List.head?_cons]
    have hib : i ∈ L b := by
      rw [hLb]
      exact mem_cons_self ..
    obtain ⟨e, he, -⟩ := h.mem.1 hib
    obtain ⟨-, hentry⟩ := view_eq_some he
    obtain ⟨-, hfields⟩ := Waiter.entry_eq_some hentry
    have hnext : (t.waiters i).next = rest.head? :=
      h.buckets.next_eq (show L b = [] ++ i :: rest from hLb)
    rw [hLb] at hlen
    cases maxMove with
    | zero =>
      rw [requeueWalk_zero]
      exact ⟨[], .nil ⟨L, h⟩, hnone⟩
    | succ maxMove =>
      cases fuel with
      | zero => cases hlen
      | succ fuel =>
        have hlen := Nat.le_of_succ_le_succ hlen
        by_cases hm : FutexTable.moves src oldKey exactKey (t.waiters i) = true
        · have hmoves : (t.view i).any (Entry.moves src oldKey exactKey) = true := by
            rw [he, hfields]
            exact hm
          obtain ⟨L', hL', hb', hview⟩ :=
            h.relink (show L b = [] ++ i :: rest from hLb) he dst newKey
          rw [if_pos hsame] at hb'
          have hseq : (t.relink dst newKey b none i).seq = t.seq := unlink_seq t b none i
          have hview : (t.relink dst newKey b none i).view = _ := hview
          have hL' : (t.relink dst newKey b none i).Hangs L' := hL'
          rw [requeueWalk_hit hm, hnext]
          generalize t.relink dst newKey b none i = u at hview hL' hseq ⊢
          have hone : ∃ l, t.Requeued dst newKey (0 + 1, u) l ∧
              t.Allowed src oldKey exactKey (maxMove + 1) l := by
            refine ⟨[i], (Requeued.nil ⟨L', hL'⟩).cons he not_mem_nil hview hseq,
              Nat.succ_le_succ (Nat.zero_le _), fun k hk => ?_⟩
            rw [mem_singleton.1 hk]
            exact hmoves
          cases rest with
          | nil =>
            rw [List.head?_nil, requeueWalk_none]
            exact hone
          | cons j rest =>
            cases maxMove with
            | zero =>
              rw [requeueWalk_zero]
              exact hone
            | succ maxMove =>
              cases fuel with
              | zero => cases hlen
              | succ fuel =>
                -- the next entry stays, and the walk is behind an entry again
                have hnd := h.buckets.nodup b
                rw [hLb] at hnd
                have hji : j ≠ i := by
                  rintro rfl
                  exact (nodup_cons.1 hnd).1 (mem_cons_self ..)
                have hjb : j ∈ L b := by
                  rw [hLb]
                  exact mem_cons_of_mem _ (mem_cons_self ..)
                obtain ⟨e', he', -⟩ := h.mem.1 hjb
                have hju : u.view j = some e' := by
                  rw [hview, update_of_ne hji, he']
                have hstay : FutexTable.moves src oldKey exactKey (u.waiters j) ≠ true := by
                  have hold := hclear i j rest hLb (by omega) hm
                  obtain ⟨-, hentry'⟩ := view_eq_some he'
                  obtain ⟨-, hfields'⟩ := Waiter.entry_eq_some hentry'
                  obtain ⟨-, hentryu⟩ := view_eq_some hju
                  obtain ⟨-, hfieldsu⟩ := Waiter.entry_eq_some hentryu
                  have haddr : (u.waiters j).uaddr = (t.waiters j).uaddr :=
                    congrArg Entry.uaddr (hfieldsu.symm.trans hfields')
                  have hkey : (u.waiters j).mmKey = (t.waiters j).mmKey :=
                    congrArg Entry.mmKey (hfieldsu.symm.trans hfields')
                  unfold FutexTable.moves at hold ⊢
                  rwa [haddr, hkey]
                have hb' : L' b = [i, j] ++ rest := hb'
                have hnextj : (u.waiters j).next = rest.head? :=
                  hL'.buckets.next_eq (show L' b = [i] ++ j :: rest from hb')
                rw [List.head?_cons, requeueWalk_miss hstay, hnextj]
                have hrest : ∀ k ∈ rest, u.view k = t.view k := by
                  intro k hk
                  rw [hview, update_of_ne]
                  rintro rfl
                  exact (nodup_cons.1 hnd).1 (mem_cons_of_mem _ hk)
                have hallowed : t.Allowed src oldKey exactKey (maxMove + 1) _ :=
                  allowed_take rest (maxMove + 1)
                refine ⟨_, (requeueWalk_spec (maxMove + 1) hL' hb' (Nat.le_of_succ_le_succ hlen)
                  (.inr (cons_ne_nil _ _)) hrest).cons he ?_ hview hseq,
                  Nat.succ_le_succ hallowed.1, fun k hk => ?_⟩
                · exact fun hmem => (nodup_cons.1 hnd).1
                    (mem_cons_of_mem _ (mem_filter.1 (mem_of_mem_take hmem)).1)
                · rcases mem_cons.1 hk with rfl | hk
                  · exact hmoves
                  · exact hallowed.2 k hk
        · rw [requeueWalk_miss hm, hnext]
          have hpos : L b = [i] ++ rest := hLb
          exact ⟨_, requeueWalk_spec (maxMove + 1) h hpos hlen (.inr (cons_ne_nil _ _))
            fun _ _ => rfl, allowed_take rest (maxMove + 1)⟩

theorem requeue_spec (h : t.Threaded) (hclear : ¬t.Entangled src dst maxMove oldKey newKey exactKey) :
    ∃ l, t.Requeued dst newKey (t.requeue src dst maxMove oldKey newKey exactKey) l ∧
      t.Allowed src oldKey exactKey maxMove l := by
  obtain ⟨L, hL⟩ := h
  have hlen := hL.length_le (c3FutexHash src oldKey)
  unfold requeue
  dsimp only
  rw [hL.buckets.head_eq]
  by_cases hsame : c3FutexHash dst newKey = c3FutexHash src oldKey
  · refine requeueWalk_same hL hlen hsame fun i j rest hLb hmax hi hj => hclear ?_
    refine ⟨hsame, hmax, i, j, ?_, ?_, hi, hj⟩
    · rw [hL.buckets.head_eq, hLb]
      rfl
    · exact hL.buckets.next_eq (show _ = [] ++ i :: j :: rest from hLb)
  · have hpos : L (c3FutexHash src oldKey) = [] ++ L (c3FutexHash src oldKey) := rfl
    exact ⟨_, requeueWalk_spec maxMove hL hpos hlen (.inl hsame) fun _ _ => rfl,
      allowed_take _ maxMove⟩

end FutexTable

end Ridux
