import Ridux.Futex.Waits

/-!
# Waking and moving the waiters of a futex

* `Futex.Woken`: the entries that a wake takes out; `Futex.Woken.wakesTasks`;
* `Futex.Moved`: the entries that a requeue moves;
* `futexRun_safe`: no waiter is lost and none is left behind, as long as the steps are such that
  the address that a call remembers is that of its entry, and the fall-backs are not needed.
-/

namespace Ridux

open Lib

namespace Futex

variable {s s' : Futex} {task other i want : ℕ} {e : Entry} {w : Wait} {p : Entry → Bool}
  {l : List ℕ} {uaddr : BitVec 64} {bitset : BitVec 32} {priv : Bool}

/-! ### Wakes -/

/-- The task of an entry. -/
def taskAt (s : Futex) (i : ℕ) : ℕ := ((s.table.view i).bind Entry.task).getD 0

/-- The entries that a wake takes out. -/
structure Woken (s s' : Futex) (p : Entry → Bool) (want : ℕ) (l : List ℕ) : Prop where
  space : s'.space = s.space
  threaded : s'.table.Threaded
  view : s'.table.view = FutexTable.without s.table.view l
  waits : s'.waits = s.waits
  asleep : s'.asleep = fun task =>
    s.asleep task && !(FutexTable.tasksOf s.table.view l).contains (some task)
  nodup : l.Nodup
  le : l.length ≤ want
  hits : ∀ i ∈ l, (s.table.view i).any p = true
  all : l.length < want → ∀ i, (s.table.view i).any p = true → i ∈ l


theorem woken_of_wakes {r : List (Option ℕ) × FutexTable} (hw : s.table.Wakes p want r l) :
    s.Woken ({ s with table := r.2 }.rouse r.1) p want l where
  space := rfl
  threaded := hw.threaded
  view := hw.view
  waits := rfl
  asleep := by
    unfold rouse
    rw [hw.tasks]
  nodup := hw.nodup
  le := hw.le
  hits := hw.hits
  all := hw.all

theorem Woken.holds_iff (hw : s.Woken s' p want l) :
    s'.Holds task e ↔ s.Holds task e ∧ ∀ w, s.waits task = some w → w.idx ∉ l := by
  unfold Holds
  rw [hw.waits, hw.view]
  unfold FutexTable.without
  constructor
  · rintro ⟨w, hwait, he, hseq⟩
    by_cases hmem : w.idx ∈ l
    · rw [if_pos hmem] at he
      cases he
    · rw [if_neg hmem] at he
      refine ⟨⟨w, hwait, he, hseq⟩, fun w' hw' => ?_⟩
      obtain rfl := Option.some.inj (hwait.symm.trans hw')
      exact hmem
  · rintro ⟨⟨w, hwait, he, hseq⟩, hno⟩
    refine ⟨w, hwait, ?_, hseq⟩
    rw [if_neg (hno w hwait), he]

theorem taskAt_eq (h : s.Inv) (he : s.table.view i = some e) : e.task = some (s.taskAt i) := by
  obtain ⟨task, w, -, -, -, htask⟩ := h.holder he
  unfold taskAt
  rw [he, Option.bind_some, htask, Option.getD_some]

theorem Woken.tasks_eq (hw : s.Woken s' p want l) (h : s.Inv) :
    FutexTable.tasksOf s.table.view l = (l.map s.taskAt).map some := by
  unfold FutexTable.tasksOf
  rw [List.map_map]
  apply List.map_congr_left
  intro i hi
  obtain ⟨e, he, -⟩ := (Option.any_eq_true ..).1 (hw.hits i hi)
  rw [he, Option.bind_some]
  exact taskAt_eq h he

theorem Woken.mem_iff (hw : s.Woken s' p want l) (h : s.Inv) :
    task ∈ l.map s.taskAt ↔ ∃ e w, s.waits task = some w ∧ w.idx ∈ l ∧ s.Holds task e := by
  rw [List.mem_map]
  constructor
  · rintro ⟨i, hi, rfl⟩
    obtain ⟨e, he, -⟩ := (Option.any_eq_true ..).1 (hw.hits i hi)
    obtain ⟨task, w, hwait, hidx, hholds, htask⟩ := h.holder he
    obtain rfl := Option.some.inj (htask.symm.trans (taskAt_eq h he))
    rw [← hidx] at hi
    exact ⟨e, w, hwait, hi, hholds⟩
  · rintro ⟨e, w, hwait, hi, hholds⟩
    have hmine := h.mine task e hholds
    obtain ⟨w', hw', he, -⟩ := hholds
    obtain rfl := Option.some.inj (hwait.symm.trans hw')
    exact ⟨_, hi, (Option.some.inj (hmine.symm.trans (taskAt_eq h he))).symm⟩

theorem Woken.inv (hw : s.Woken s' p want l) (h : s.Inv) : s'.Inv := by
  refine h.shrink ⟨hw.space, hw.threaded, fun i e he => ?_, fun task => .inl (by rw [hw.waits])⟩
    fun task hsome hnot => ?_
  · rw [hw.view, FutexTable.without] at he
    by_cases hmem : i ∈ l
    · rw [if_pos hmem] at he
      cases he
    · rwa [if_neg hmem] at he
  · rw [hw.asleep]
    dsimp only
    rw [hw.waits] at hsome
    by_cases hold : s.Waiting task
    · obtain ⟨e, he⟩ := Futex.waiting_iff.1 hold
      have hmem : task ∈ l.map s.taskAt := by
        by_contra hno
        refine hnot (Futex.waiting_iff.2 ⟨e, hw.holds_iff.2 ⟨he, fun w hwait hmem => hno ?_⟩⟩)
        exact (hw.mem_iff h).2 ⟨e, w, hwait, hmem, he⟩
      have hcontains : (FutexTable.tasksOf s.table.view l).contains (some task) = true := by
        rw [hw.tasks_eq h, List.contains_iff_mem]
        exact List.mem_map_of_mem hmem
      rw [hcontains]
      simp
    · rw [h.awake task hsome hold]
      rfl

/-- **A wake wakes the tasks of the entries that it takes out**, also when what is left moves. -/
theorem Woken.wakesTasks (hw : s.Woken s' p want l) (h : s.Inv) {s'' : Futex}
    (hsame : ∀ task, s''.Waiting task ↔ s'.Waiting task) :
    s.WakesTasks s'' p want (l.map s.taskAt) := by
  refine ⟨?_, fun {task} => ?_, fun task hmem => ?_, ?_, fun hlt task e he hp => ?_⟩
  · apply List.Nodup.map_on _ hw.nodup
    intro i hi j hj hij
    obtain ⟨e, he, -⟩ := (Option.any_eq_true ..).1 (hw.hits i hi)
    obtain ⟨e', he', -⟩ := (Option.any_eq_true ..).1 (hw.hits j hj)
    obtain ⟨task, w, hwait, hidx, -, htask⟩ := h.holder he
    obtain ⟨task', w', hwait', hidx', -, htask'⟩ := h.holder he'
    have hi' := Option.some.inj (htask.symm.trans (taskAt_eq h he))
    have hj' := Option.some.inj (htask'.symm.trans (taskAt_eq h he'))
    obtain rfl : task = task' := by rw [hi', hj', hij]
    obtain rfl := Option.some.inj (hwait.symm.trans hwait')
    exact hidx.symm.trans hidx'
  · rw [hw.mem_iff h, hsame, Futex.waiting_iff, Futex.waiting_iff]
    constructor
    · rintro ⟨e, w, hwait, hmem, he⟩
      refine ⟨⟨e, he⟩, ?_⟩
      rintro ⟨e', he'⟩
      exact (hw.holds_iff.1 he').2 w hwait hmem
    · rintro ⟨⟨e, he⟩, hnot⟩
      by_contra hno
      refine hnot ⟨e, hw.holds_iff.2 ⟨he, fun w hwait hmem => hno ⟨e, w, hwait, hmem, he⟩⟩⟩
  · obtain ⟨e, w, hwait, hi, hholds⟩ := (hw.mem_iff h).1 hmem
    refine ⟨e, hholds, ?_⟩
    obtain ⟨w', hwait', he, -⟩ := hholds
    obtain rfl := Option.some.inj (hwait.symm.trans hwait')
    have hp := hw.hits _ hi
    rwa [he] at hp
  · rw [List.length_map]
    exact hw.le
  · rw [List.length_map] at hlt
    have hholds := he
    obtain ⟨w, hwait, hview, -⟩ := he
    have hany : (s.table.view w.idx).any p = true := by
      rw [hview]
      exact hp
    exact (hw.mem_iff h).2 ⟨e, w, hwait, hw.all hlt _ hany, hholds⟩

theorem space_of_hit (h : s.Inv)
    (hw : s.WakesTasks s' (Entry.hit uaddr (s.key task true) bitset) want l) :
    ∀ other ∈ l, s.space other = s.space task := by
  intro other hmem
  obtain ⟨e, he, hp⟩ := hw.hits other hmem
  obtain ⟨-, hkey, -⟩ := of_decide_eq_true hp
  rcases h.kinds other e he with h0 | hspace
  · exact absurd (hkey.symm.trans h0) (h.space task)
  · exact hspace.symm.trans hkey

theorem wakes_shared (h : s.Inv) (hs : s.Sorted uaddr want bitset) :
    s.table.Wakes (Entry.hit uaddr 0 bitset) want (s.table.wakeN uaddr want 0 false bitset)
      (s.table.firstHits uaddr bitset want) := by
  obtain ⟨hthr, htasks, hview, hseq, hnd, hle, hhits, hall⟩ :=
    FutexTable.wakeN_any h.threaded uaddr 0 bitset want
  refine ⟨hthr, htasks, hview, hseq, hnd, hle, fun i hi => ?_, fun hlt i hi => hall hlt i ?_⟩
  · obtain ⟨e, he, hp⟩ := (Option.any_eq_true ..).1 (hhits i hi)
    obtain ⟨haddr, hbits⟩ := of_decide_eq_true hp
    rw [he]
    exact decide_eq_true ⟨haddr, hs i hi e he, hbits⟩
  · obtain ⟨e, he, hp⟩ := (Option.any_eq_true ..).1 hi
    obtain ⟨haddr, -, hbits⟩ := of_decide_eq_true hp
    rw [he]
    exact decide_eq_true ⟨haddr, hbits⟩

theorem wakes_private (h : s.Inv) {mmKey : BitVec 64} (he : s.Enough uaddr want mmKey bitset) :
    ∃ l, s.table.Wakes (Entry.hit uaddr mmKey bitset) want
      (wakeTable s.table uaddr want mmKey true bitset) l := by
  obtain ⟨l, hl⟩ := FutexTable.wakeN_exact h.threaded uaddr mmKey bitset want
  have hlen : (s.table.wakeN uaddr want mmKey true bitset).1.length = l.length := by
    rw [hl.tasks, FutexTable.tasksOf, List.length_map]
  refine ⟨l, ?_⟩
  unfold wakeTable
  dsimp only
  rw [hlen]
  by_cases hlt : l.length < want
  · rw [if_pos ⟨rfl, hlt⟩]
    have hno : ∀ i e, s.table.view i = some e → e.hitAny uaddr bitset = true →
        e.mmKey = mmKey := by
      rcases he with hle | hno
      · have hsub : (List.range c3FutexWaitMax).filter (fun i =>
            (s.table.view i).any (Entry.hit uaddr mmKey bitset)) ⊆ l :=
          fun i hi => hl.all hlt i (List.mem_filter.1 hi).2
        have := (List.subperm_of_subset (List.nodup_range.filter _) hsub).length_le
        omega
      · exact hno
    have h2 := FutexTable.wakeN_any hl.threaded uaddr 0 bitset (want - l.length)
    generalize (s.table.wakeN uaddr want mmKey true bitset).2.firstHits uaddr bitset
      (want - l.length) = l2 at h2
    have hnil : l2 = [] := by
      apply List.eq_nil_iff_forall_not_mem.2
      intro i hi
      have hany := h2.hits i hi
      rw [hl.view, FutexTable.without] at hany
      by_cases hmem : i ∈ l
      · rw [if_pos hmem] at hany
        cases hany
      · rw [if_neg hmem] at hany
        obtain ⟨e, hv, hp⟩ := (Option.any_eq_true ..).1 hany
        have hkey := hno i e hv hp
        obtain ⟨haddr, hbits⟩ := of_decide_eq_true hp
        refine hmem (hl.all hlt i ?_)
        rw [hv]
        exact decide_eq_true ⟨haddr, hkey, hbits⟩
    rw [hnil] at h2
    refine ⟨h2.threaded, ?_, ?_, h2.seq.trans hl.seq, hl.nodup, hl.le, hl.hits, hl.all⟩
    · show _ ++ _ = _
      rw [h2.tasks, hl.tasks]
      exact List.append_nil _
    · rw [h2.view, FutexTable.without_nil, hl.view]
  · rw [if_neg fun hand => hlt hand.2]
    exact hl

theorem wakeTable_wakes (h : s.Inv) (hm : s.Meets (.wake task uaddr want priv bitset)) :
    ∃ l, s.table.Wakes (Entry.hit uaddr (s.key task priv) bitset) want
      (wakeTable s.table uaddr want (s.key task priv) priv bitset) l := by
  cases priv with
  | true => exact wakes_private h hm
  | false => exact ⟨_, wakes_shared h hm⟩

theorem wake_cases (h : s.Inv) (hm : s.Meets (.wake task uaddr want priv bitset)) :
    (∃ err, s.wake task uaddr want priv bitset = (.error err, s)) ∨
      ∃ l, (s.wake task uaddr want priv bitset).1 = .ok l.length ∧
        s.Woken (s.wake task uaddr want priv bitset).2
          (Entry.hit uaddr (s.key task priv) bitset) want l := by
  unfold wake
  cases checkAddr uaddr with
  | error err => exact .inl ⟨err, rfl⟩
  | ok =>
    dsimp only
    by_cases hb : bitset = 0
    · rw [if_pos hb]
      exact .inl ⟨_, rfl⟩
    · rw [if_neg hb]
      obtain ⟨l, hl⟩ := wakeTable_wakes h hm
      refine .inr ⟨l, ?_, woken_of_wakes hl⟩
      rw [hl.tasks, FutexTable.tasksOf, List.length_map]

/-! ### Requeues -/

/-- Entries of `l` go to another address. -/
structure Moved (s s' : Futex) (dst newKey : BitVec 64) (l : List ℕ) : Prop where
  space : s'.space = s.space
  threaded : s'.table.Threaded
  view : s'.table.view = FutexTable.movedTo s.table.view dst newKey l
  waits : s'.waits = s.waits
  asleep : s'.asleep = s.asleep

variable {dst newKey src : BitVec 64} {maxMove : ℕ}

theorem Moved.view_eq_some (hmv : s.Moved s' dst newKey l) :
    s'.table.view i = some e ↔ i ∉ l ∧ s.table.view i = some e ∨
      i ∈ l ∧ ∃ e', s.table.view i = some e' ∧ e = { e' with uaddr := dst, mmKey := newKey } := by
  rw [hmv.view, FutexTable.movedTo]
  by_cases hmem : i ∈ l
  · rw [if_pos hmem, Option.map_eq_some_iff]
    simp [hmem, eq_comm]
  · rw [if_neg hmem]
    simp [hmem]

theorem Moved.holds (hmv : s.Moved s' dst newKey l) (he : s'.Holds task e) :
    s.Holds task e ∨ ∃ w e', s.waits task = some w ∧ w.idx ∈ l ∧ s.Holds task e' ∧
      e = { e' with uaddr := dst, mmKey := newKey } := by
  obtain ⟨w, hw, hview, hseq⟩ := he
  rw [hmv.waits] at hw
  rcases hmv.view_eq_some.1 hview with ⟨-, hsame⟩ | ⟨hmem, e', he', rfl⟩
  · exact .inl ⟨w, hw, hsame, hseq⟩
  · exact .inr ⟨w, e', hw, hmem, ⟨w, hw, he', hseq⟩, rfl⟩

theorem Moved.waiting_iff (hmv : s.Moved s' dst newKey l) : s'.Waiting task ↔ s.Waiting task := by
  rw [Futex.waiting_iff, Futex.waiting_iff]
  constructor
  · rintro ⟨e, he⟩
    rcases hmv.holds he with hsame | ⟨-, e', -, -, he', -⟩
    · exact ⟨e, hsame⟩
    · exact ⟨e', he'⟩
  · rintro ⟨e, w, hw, hview, hseq⟩
    rw [← hmv.waits] at hw
    by_cases hmem : w.idx ∈ l
    · exact ⟨_, w, hw, hmv.view_eq_some.2 (.inr ⟨hmem, e, hview, rfl⟩), hseq⟩
    · exact ⟨e, w, hw, hmv.view_eq_some.2 (.inl ⟨hmem, hview⟩), hseq⟩

theorem Moved.inv (hmv : s.Moved s' dst newKey l) (h : s.Inv)
    (hkinds : ∀ i ∈ l, ∀ e, s.table.view i = some e → newKey = 0 ∨ newKey = e.mmKey) : s'.Inv := by
  refine ⟨hmv.threaded, fun i e he => ?_, fun task e he => ?_, fun task e he => ?_, fun task => ?_,
    fun task hsome hnot => ?_⟩
  · rw [hmv.waits]
    rcases hmv.view_eq_some.1 he with ⟨-, hsame⟩ | ⟨-, e', he', rfl⟩
    · exact h.owner i e hsame
    · exact h.owner i e' he'
  · rcases hmv.holds he with hsame | ⟨-, e', -, -, he', rfl⟩
    · exact h.mine task e hsame
    · exact h.mine task e' he'
  · rw [hmv.space]
    rcases hmv.holds he with hsame | ⟨w, e', hw, hmem, he', rfl⟩
    · exact h.kinds task e hsame
    · have hview : s.table.view w.idx = some e' := by
        obtain ⟨w', hw', hview, -⟩ := he'
        obtain rfl := Option.some.inj (hw.symm.trans hw')
        exact hview
      rcases hkinds _ hmem e' hview with h0 | hkey
      · exact .inl h0
      · rcases h.kinds task e' he' with h0 | hspace
        · exact .inl (hkey.trans h0)
        · exact .inr (hkey.trans hspace)
  · rw [hmv.space]
    exact h.space task
  · rw [hmv.waits] at hsome
    rw [hmv.asleep]
    exact h.awake task hsome fun hw => hnot (hmv.waiting_iff.2 hw)

theorem requeue_wakes (h : s.Inv) {agrees : Bool}
    (hm : s.Meets (.requeue task src dst want maxMove priv agrees)) :
    ∃ l, s.table.Wakes (Entry.hit src (s.key task priv) c3FutexBitsetMatchAny) want
      (s.table.wakeN src want (s.key task priv) priv c3FutexBitsetMatchAny) l := by
  cases priv with
  | true => exact FutexTable.wakeN_exact h.threaded ..
  | false => exact ⟨_, wakes_shared h (hm.1 rfl)⟩

/-- What `FUTEX_REQUEUE` does: nothing, or it takes out entries and moves others. -/
theorem requeue_cases (h : s.Inv) {agrees : Bool}
    (hm : s.Meets (.requeue task src dst want maxMove priv agrees)) :
    (∃ err, s.requeue task src dst want maxMove priv agrees = (.error err, s)) ∨
      ∃ l m s₁, s.Woken s₁ (Entry.hit src (s.key task priv) c3FutexBitsetMatchAny) want l ∧
        s₁.Moved (s.requeue task src dst want maxMove priv agrees).2 dst (s.key task priv) m ∧
        (s.requeue task src dst want maxMove priv agrees).1 = .ok (l.length + m.length) ∧
        s₁.table.Allowed src (s.key task priv) priv maxMove m := by
  unfold requeue
  cases checkAddr src with
  | error err => exact .inl ⟨err, rfl⟩
  | ok =>
    cases checkAddr dst with
    | error err => exact .inl ⟨err, rfl⟩
    | ok =>
      dsimp only
      by_cases ha : (!agrees) = true
      · rw [if_pos ha]
        exact .inl ⟨_, rfl⟩
      · rw [if_neg ha]
        obtain ⟨l, hl⟩ := requeue_wakes h hm
        obtain ⟨m, hreq, hallowed⟩ := FutexTable.requeue_spec hl.threaded hm.2
        refine .inr ⟨l, m, _, woken_of_wakes hl, ⟨rfl, hreq.threaded, hreq.view, rfl, rfl⟩, ?_,
          hallowed⟩
        rw [hl.tasks, FutexTable.tasksOf, List.length_map, hreq.moved]

theorem kinds_of_allowed {s₁ : Futex} {m : List ℕ}
    (hallowed : s₁.table.Allowed src (s.key task priv) priv maxMove m) :
    ∀ i ∈ m, ∀ e, s₁.table.view i = some e → s.key task priv = 0 ∨ s.key task priv = e.mmKey := by
  intro i hi e he
  cases priv with
  | false => exact .inl rfl
  | true =>
    have hmoves := hallowed.2 i hi
    rw [he] at hmoves
    obtain ⟨-, hkey⟩ := of_decide_eq_true hmoves
    rcases hkey with hkey | hkey
    · cases hkey
    · exact .inr hkey.symm

/-! ### Runs -/

theorem Inv.exec (h : s.Inv) {op : Op} (hm : s.Meets op) : (s.exec op).Inv := by
  cases op with
  | wait task uaddr priv bitset agrees =>
    show (s.wait task uaddr priv bitset agrees).2.Inv
    rcases wait_cases h hm with hsame | ⟨i, e, w, hj⟩
    · rwa [hsame]
    · exact hj.inv h
  | turn task changed signal expired stalled =>
    show (s.turn task changed signal expired stalled).2.Inv
    rcases turn_cases h hm with hsame | hr | ⟨hw, hsleep⟩
    · rwa [hsame]
    · exact hr.inv h
    · rw [hsleep]
      exact h.sleep hw
  | wake task uaddr want priv bitset =>
    show (s.wake task uaddr want priv bitset).2.Inv
    rcases wake_cases h hm with ⟨err, herr⟩ | ⟨l, -, hw⟩
    · rwa [herr]
    · exact hw.inv h
  | requeue task src dst want maxMove priv agrees =>
    show (s.requeue task src dst want maxMove priv agrees).2.Inv
    rcases requeue_cases h hm with ⟨err, herr⟩ | ⟨l, m, s₁, hw, hmv, -, hallowed⟩
    · rwa [herr]
    · exact hmv.inv (hw.inv h) (kinds_of_allowed hallowed)
  | exit task => exact (exit_returns h task).inv h

theorem Inv.keeps (h : s.Inv) {op : Op} (hm : s.Meets op) : s.Keeps op := by
  cases op with
  | wait task uaddr priv bitset agrees =>
    intro other hne
    show (s.wait task uaddr priv bitset agrees).2.Waiting other ↔ _
    rcases wait_cases h hm with hsame | ⟨i, e, w, hj⟩
    · rw [hsame]
    · exact hj.waiting_iff hne
  | turn task changed signal expired stalled =>
    intro other hne
    show (s.turn task changed signal expired stalled).2.Waiting other ↔ _
    rcases turn_cases h hm with hsame | hr | ⟨-, hsleep⟩
    · rw [hsame]
    · exact hr.waiting_iff h hne
    · rw [hsleep]
      exact Iff.rfl
  | wake task uaddr want priv bitset =>
    intro n hn
    show ∃ l, s.WakesTasks (s.wake task uaddr want priv bitset).2 _ want l ∧ _
    rcases wake_cases h hm with ⟨err, herr⟩ | ⟨l, hlen, hw⟩
    · rw [herr] at hn
      cases hn
    · have hwakes := hw.wakesTasks h fun task => Iff.rfl
      refine ⟨_, hwakes, ?_, ?_⟩
      · rw [List.length_map]
        exact Except.ok.inj (hn.symm.trans hlen)
      · rintro rfl
        exact space_of_hit h hwakes
  | requeue task src dst want maxMove priv agrees =>
    intro n hn
    show ∃ l m, s.WakesTasks (s.requeue task src dst want maxMove priv agrees).2 _ want l ∧ _
    rcases requeue_cases h hm with ⟨err, herr⟩ | ⟨l, m, s₁, hw, hmv, hlen, hallowed⟩
    · rw [herr] at hn
      cases hn
    · have hwakes := hw.wakesTasks h fun task => hmv.waiting_iff
      refine ⟨_, m.length, hwakes, ?_, hallowed.1, ?_, fun other e he => ?_⟩
      · rw [List.length_map]
        exact Except.ok.inj (hn.symm.trans hlen)
      · rintro rfl
        exact space_of_hit h hwakes
      · rcases hmv.holds he with hsame | ⟨w, e', hwait, hmem, he', rfl⟩
        · exact .inl (hw.holds_iff.1 hsame).1
        · refine .inr ⟨e', (hw.holds_iff.1 he').1, ?_, rfl⟩
          obtain ⟨w', hwait', hview, -⟩ := he'
          obtain rfl := Option.some.inj (hwait.symm.trans hwait')
          have hmoves := hallowed.2 _ hmem
          rw [hview] at hmoves
          exact (of_decide_eq_true hmoves).1
  | exit task =>
    intro other hne
    exact (exit_returns h task).waiting_iff h hne

/-- **In a run of steps that keep the waiters, no waiter is lost and none is left behind, and a step
that keeps them wakes the tasks that it says.** -/
theorem futexRun_safe {s₀ s : Futex} (h₀ : s₀.Start) (h : MeetingRun s₀ s) :
    s.Safe ∧ ∀ op, s.Meets op → s.StepLawful op := by
  have hinv : s.Inv := Runs.invariant (fun _ _ hi hm => hi.exec hm) h h₀.inv
  exact ⟨hinv.safe, fun op hm => ⟨(hinv.exec hm).safe, hinv.keeps hm⟩⟩

/-! ### Two runs -/

/-- Nobody waits, in one address space. -/
def empty : Futex := ⟨⟨fun _ => .cleared, fun _ => none, 0⟩, fun _ => none, fun _ => false, fun _ => 64⟩

/-- Task 1 waits. -/
def oneWaits : Futex := empty.exec (.wait 1 4096 true c3FutexBitsetMatchAny true)

/-- Task 1 waits, another moves it, and the word of its wait changes. -/
def oneMoves : Futex :=
  (oneWaits.exec (.requeue 2 4096 8192 0 1 true true)).exec (.turn 1 true false false false)

theorem empty_start : empty.Start where
  heads _ := rfl
  free _ := ite_self _
  waits _ := rfl
  space _ := by
    show (64 : BitVec 64) ≠ 0
    decide

theorem oneWaits_run : MeetingRun empty oneWaits := by
  apply (Runs.refl empty).tail
  intro i hi other w hw
  cases hw

theorem oneMoves_run : Run empty oneMoves :=
  (((Runs.refl empty).tail _ trivial).tail _ trivial).tail _ trivial

theorem oneWaits_safe : oneWaits.Safe ∧
    oneWaits.StepLawful (.wake 2 4096 1 true c3FutexBitsetMatchAny) := by
  obtain ⟨hsafe, hlawful⟩ := futexRun_safe empty_start oneWaits_run
  exact ⟨hsafe, hlawful _ (.inl (by decide +kernel))⟩

/-- The entry of a task that was moved stays when the task returns. -/
theorem moved_waiter_left : ¬∀ s₀ s : Futex, s₀.Start → Run s₀ s → s.Safe := by
  intro h
  have hsafe := h empty oneMoves empty_start oneMoves_run
  have hleft : (oneMoves.table.view 0).map Entry.task = some (some 1) := by decide +kernel
  obtain ⟨e, he, htask⟩ := Option.map_eq_some_iff.1 hleft
  exact hsafe.gone 1 rfl 0 e he htask

end Futex

end Ridux
