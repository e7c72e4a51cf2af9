import Ridux.Futex.Pi
import Ridux.Futex.Wakes
import Ridux.Lib.Cells
import Ridux.Proc.Table
import Ridux.User.Memory

/-!
# The robust list of a task that exits

* `c3RobustListExit`: the walk along the list that a task has left in its memory;
* `c3RobustWakeOne`: what it does with one entry, `robustCell` with which word;
* `RobustHandled`: the entries that are found, the words that are marked, and the waiters that are woken;
* `robust_list_handled`: an exit does that, whatever the list is.

The other task of `c3_exit_thread_group_peers` is in the same address space.
-/

namespace Ridux

open Lib

def c3FutexOwnerDiedBit : BitVec 32 := 0x40000000

/-- The turns of the loop of `c3_robust_list_exit`. -/
def c3RobustLimit : ℕ := 2048

/-- `sizeof(c3_robust_list_head64_t)`. -/
def robustHeadSize : ℕ := 24

/-- The memory of the task, and the waiters. -/
structure RobustState where
  mem : UserMem
  futex : Futex

/-- `c3_robust_list_head64_t`, as it was read. -/
structure RobustHead where
  listNext : BitVec 64
  futexOffset : BitVec 64
  listOpPending : BitVec 64
  deriving DecidableEq

/-! ### The memory of a task that exits -/

def c3ExitUserRangeOk (as : Space) (s : Paging) (va len : ℕ) (write : Bool) : Bool :=
  len ≠ 0 ∧ c2UserRange va len ∧
    (List.range ((pageDown (va + len - 1) - pageDown va) / pageSize + 1)).all fun i =>
      let entry := pagingGetEntry as (pageDown va + i * pageSize) s
      entry.present && entry.user && (!write || entry.writable)

/-- The bytes that the task sees at an address. -/
def userBytes (as : Space) (m : UserMem) (va len : ℕ) : Bytes :=
  (List.range' va len).map fun a => m.bytes (pagingTranslate as a m.paging)

def c3ExitUserRead64 (as : Option Space) (m : UserMem) (va : BitVec 64) : Option (BitVec 64) :=
  as.bind fun as =>
    if c3ExitUserRangeOk as m.paging va.toNat 8 false then
      some (BitVec.ofNat 64 (leNat (userBytes as m va.toNat 8)))
    else none

def c3ExitUserRead32 (as : Option Space) (m : UserMem) (va : BitVec 64) : Option (BitVec 32) :=
  as.bind fun as =>
    if c3ExitUserRangeOk as m.paging va.toNat 4 false then
      some (BitVec.ofNat 32 (leNat (userBytes as m va.toNat 4)))
    else none

def c3ExitUserWrite32 (as : Option Space) (m : UserMem) (va : BitVec 64) (value : BitVec 32) : Option UserMem :=
  as.bind fun as =>
    if c3ExitUserRangeOk as m.paging va.toNat 4 true then
      some { m with
        bytes := storeAll m.bytes ((List.range' va.toNat 4).map fun a => pagingTranslate as a m.paging)
          (leBytes 4 value.toNat) }
    else none

/-! ### The walk -/

/-- The word names the task as its owner. -/
def robustOwned (cur : Proc.Task) (word : BitVec 32) : Bool := word &&& c3FutexTidMask = BitVec.ofInt 32 cur.pid

/-- The word of an owner that died. -/
def robustDied (word : BitVec 32) : BitVec 32 := word &&& c3FutexWaitersBit ||| c3FutexOwnerDiedBit

/-- The two wakes of `c3_robust_wake_one`. -/
def robustWake (task : ℕ) (uaddr : BitVec 64) (s : Futex) : Futex :=
  let r := s.table.wakeN uaddr 1 (s.space task) true c3FutexBitsetMatchAny
  let s' := { s with table := r.2 }.rouse r.1
  if r.1 = [] then
    let r' := s'.table.wakeN uaddr (2 ^ 32 - 1) 0 false c3FutexBitsetMatchAny
    { s' with table := r'.2 }.rouse r'.1
  else s'

def c3RobustWakeOne (task : ℕ) (cur : Proc.Task) (futexOffset : BitVec 64) (s : RobustState) (node : BitVec 64) :
    RobustState :=
  let faddr := node + futexOffset
  if node = 0 ∨ faddr = 0 ∨ faddr &&& 3 ≠ 0 then s
  else
    match c3ExitUserRead32 cur.addrSpace s.mem faddr with
    | none => s
    | some oldv =>
      if !robustOwned cur oldv then s
      else
        match c3ExitUserWrite32 cur.addrSpace s.mem faddr (robustDied oldv) with
        | none => s
        | some mem => ⟨mem, robustWake task faddr s.futex⟩

/-- The loop of `c3_robust_list_exit`, with so many turns left. -/
def robustWalk (task : ℕ) (cur : Proc.Task) (futexOffset : BitVec 64) :
    ℕ → BitVec 64 → RobustState → RobustState
  | 0, _, s => s
  | guard + 1, next, s =>
    if next = 0 ∨ next = BitVec.ofNat 64 cur.robustListHead then s
    else
      match c3ExitUserRead64 cur.addrSpace s.mem next with
      | none => s
      | some next' => robustWalk task cur futexOffset guard next' (c3RobustWakeOne task cur futexOffset s next)

/-- The head of the list, when the task has one and it can be read. -/
def robustHead (cur : Proc.Task) (m : UserMem) : Option RobustHead :=
  if cur.robustListHead = 0 then none
  else if cur.robustListLen ≠ 0 ∧ cur.robustListLen < robustHeadSize then none
  else
    let headAddr := BitVec.ofNat 64 cur.robustListHead
    match c3ExitUserRead64 cur.addrSpace m headAddr, c3ExitUserRead64 cur.addrSpace m (headAddr + 8),
      c3ExitUserRead64 cur.addrSpace m (headAddr + 16) with
    | some next, some offset, some pending => some ⟨next, offset, pending⟩
    | _, _, _ => none

/-- The pending entry, when it is not the head. -/
def RobustHead.pending (cur : Proc.Task) (hd : RobustHead) : List (BitVec 64) :=
  if hd.listOpPending ≠ 0 ∧ hd.listOpPending ≠ BitVec.ofNat 64 cur.robustListHead then [hd.listOpPending] else []

def c3RobustListExit (task : ℕ) (cur : Proc.Task) (s : RobustState) : RobustState :=
  match robustHead cur s.mem with
  | none => s
  | some hd =>
    (hd.pending cur).foldl (c3RobustWakeOne task cur hd.futexOffset)
      (robustWalk task cur hd.futexOffset c3RobustLimit hd.listNext s)

/-! ### What is promised -/

/-- The word that an entry points at, by its place in physical memory: there is one when its address is
aligned and the task may write there. -/
def robustCell (cur : Proc.Task) (s : Paging) (futexOffset node : BitVec 64) : Option ℕ :=
  let faddr := node + futexOffset
  if node = 0 ∨ faddr = 0 ∨ faddr &&& 3 ≠ 0 then none
  else
    cur.addrSpace.bind fun as =>
      if c3ExitUserRangeOk as s faddr.toNat 4 true then some (pagingTranslate as faddr.toNat s / 4) else none

/-- The links lead from `next` along `nodes` to `last`; each link is read when the entries before it are
done. -/
def RobustLinked (task : ℕ) (cur : Proc.Task) (futexOffset : BitVec 64) :
    RobustState → BitVec 64 → List (BitVec 64) → BitVec 64 → Prop
  | _, next, [], last => last = next
  | s, next, node :: nodes, last =>
    node = next ∧ next ≠ 0 ∧ next ≠ BitVec.ofNat 64 cur.robustListHead ∧
      ∃ next', c3ExitUserRead64 cur.addrSpace s.mem next = some next' ∧
        RobustLinked task cur futexOffset (c3RobustWakeOne task cur futexOffset s node) next' nodes last

/-- The waiters that one word has are woken: one that waits in the task's own address space, or else all that
wait at the address. -/
def RobustWoken (task : ℕ) (uaddr : BitVec 64) (s s' : Futex) : Prop :=
  ∃ l : List ℕ, l.Nodup ∧ s'.table.view = FutexTable.without s.table.view l ∧
    s'.asleep = (s.rouse (FutexTable.tasksOf s.table.view l)).asleep ∧
    ((∃ i, l = [i] ∧ (s.table.view i).any (Entry.hit uaddr (s.space task) c3FutexBitsetMatchAny) = true) ∨
      (∀ i, (s.table.view i).any (Entry.hit uaddr (s.space task) c3FutexBitsetMatchAny) = false) ∧
        ∀ i, i ∈ l ↔ (s.table.view i).any (Entry.hitAny uaddr c3FutexBitsetMatchAny) = true)

/-- The waiters of several words are woken, one word after the other. -/
def RobustWakes (task : ℕ) : List (BitVec 64) → Futex → Futex → Prop
  | [], s, s' => s' = s
  | uaddr :: l, s, s' => ∃ t, RobustWoken task uaddr s t ∧ RobustWakes task l t s'

/-- What an exit does with the entries `nodes` of its list and the pending one. -/
structure RobustHandled (task : ℕ) (cur : Proc.Task) (hd : RobustHead) (s s' : RobustState)
    (nodes : List (BitVec 64)) : Prop where
  /-- the list is walked to its end, to the first entry that cannot be read, or to the limit -/
  linked : ∃ last, RobustLinked task cur hd.futexOffset s hd.listNext nodes last ∧
    (last = 0 ∨ last = BitVec.ofNat 64 cur.robustListHead ∨ nodes.length = c3RobustLimit ∨
      c3ExitUserRead64 cur.addrSpace (nodes.foldl (c3RobustWakeOne task cur hd.futexOffset) s).mem last = none)
  length_le : nodes.length ≤ c3RobustLimit
  paging : s'.mem.paging = s.mem.paging
  /-- the words of the entries that the task owns are marked, and no other word changes -/
  words : ∀ k, cell s'.mem.bytes k =
    if some k ∈ (nodes ++ hd.pending cur).map (robustCell cur s.mem.paging hd.futexOffset) ∧
        robustOwned cur (cell s.mem.bytes k) = true then robustDied (cell s.mem.bytes k)
    else cell s.mem.bytes k
  /-- the waiters of just these words are woken, of each once -/
  wakes : ∃ dead : List (BitVec 64), dead.Sublist (nodes ++ hd.pending cur) ∧
    (∀ k, some k ∈ dead.map (robustCell cur s.mem.paging hd.futexOffset) ↔
      some k ∈ (nodes ++ hd.pending cur).map (robustCell cur s.mem.paging hd.futexOffset) ∧
        robustOwned cur (cell s.mem.bytes k) = true) ∧
    (BitVec.ofInt 32 cur.pid ≠ 0 → (dead.map (robustCell cur s.mem.paging hd.futexOffset)).Nodup) ∧
    RobustWakes task (dead.map (· + hd.futexOffset)) s.futex s'.futex

/-! ### One word -/

variable {task : ℕ} {cur : Proc.Task} {as : Space} {m : UserMem} {pg : Paging} {va len : ℕ} {write : Bool}
  {offset node : BitVec 64} {s s' : RobustState} {t : Futex}

theorem pagingTranslate_word (hva : 4 ∣ va) (hp : (pagingGetEntry as va pg).present = true) :
    4 ∣ pagingTranslate as va pg ∧
      ∀ i < 4, pagingTranslate as (va + i) pg = pagingTranslate as va pg + i := by
  have hwalk : ∀ i < 4, pagingWalk as (va + i) pg = pagingWalk as va pg :=
    fun i hi => pagingWalk_congr (by omega)
  unfold pagingGetEntry at hp
  unfold pagingTranslate
  have hsize := pageSize_eq
  cases hw : pagingWalk as va pg with
  | fault =>
    rw [hw] at hp
    have hz : Pte.present 0 = true := hp
    exact absurd hz (by decide)
  | huge1g e =>
    refine ⟨by dsimp only; omega, fun i hi => ?_⟩
    rw [hwalk i hi, hw]
    dsimp only
    omega
  | huge2m e =>
    refine ⟨by dsimp only; omega, fun i hi => ?_⟩
    rw [hwalk i hi, hw]
    dsimp only
    omega
  | slot pt pti =>
    rw [hw] at hp
    dsimp only at hp ⊢
    refine ⟨by rw [if_pos hp, hsize]; omega, fun i hi => ?_⟩
    rw [hwalk i hi, hw]
    dsimp only
    rw [if_pos hp, if_pos hp]
    omega

theorem present_of_rangeOk (h : c3ExitUserRangeOk as pg va len write = true) :
    (pagingGetEntry as va pg).present = true := by
  unfold c3ExitUserRangeOk at h
  obtain ⟨-, -, hall⟩ := of_decide_eq_true h
  have hfirst := List.all_eq_true.1 hall 0 (by simp)
  rw [Nat.zero_mul, Nat.add_zero, pagingGetEntry_congr (pageDown_page va)] at hfirst
  simp only [Bool.and_eq_true] at hfirst
  exact hfirst.1.1

theorem rangeOk_read (h : c3ExitUserRangeOk as pg va len true = true) :
    c3ExitUserRangeOk as pg va len false = true := by
  unfold c3ExitUserRangeOk at h ⊢
  obtain ⟨hlen, hrange, hall⟩ := of_decide_eq_true h
  refine decide_eq_true ⟨hlen, hrange, ?_⟩
  rw [List.all_eq_true] at hall ⊢
  intro i hi
  have := hall i hi
  simp only [Bool.and_eq_true] at this ⊢
  exact ⟨this.1, rfl⟩

theorem range'_word (hva : 4 ∣ va) (hp : (pagingGetEntry as va pg).present = true) :
    (List.range' va 4).map (fun a => pagingTranslate as a pg) =
      List.range' (4 * (pagingTranslate as va pg / 4)) 4 := by
  obtain ⟨hdvd, hnext⟩ := pagingTranslate_word hva hp
  have hone := hnext 1 (by omega)
  have htwo := hnext 2 (by omega)
  have hthree := hnext 3 (by omega)
  rw [Nat.mul_div_cancel' hdvd]
  simp [List.range', hone, htwo, hthree, Nat.add_assoc]

theorem leNat_userBytes (hva : 4 ∣ va) (hp : (pagingGetEntry as va m.paging).present = true) :
    BitVec.ofNat 32 (leNat (userBytes as m va 4)) = cell m.bytes (pagingTranslate as va m.paging / 4) := by
  unfold userBytes cell
  rw [← range'_word hva hp, List.map_map]
  rfl

theorem four_dvd_of_and {x : BitVec 64} (h : x &&& 3 = 0) : 4 ∣ x.toNat := by
  have hmod : x.toNat % 4 = (x &&& 3).toNat := by
    rw [BitVec.toNat_and]
    exact (Nat.and_two_pow_sub_one_eq_mod x.toNat 2).symm
  rw [h] at hmod
  exact Nat.dvd_of_mod_eq_zero hmod

theorem wakeOne_none (h : robustCell cur s.mem.paging offset node = none) :
    c3RobustWakeOne task cur offset s node = s := by
  unfold robustCell at h
  unfold c3RobustWakeOne
  dsimp only at h ⊢
  split_ifs at h ⊢ with haddr
  · rfl
  cases has : cur.addrSpace with
  | none => simp [c3ExitUserRead32]
  | some as =>
    rw [has, Option.bind_some] at h
    split_ifs at h with hok
    have hwrite : ∀ value, c3ExitUserWrite32 (some as) s.mem (node + offset) value = none :=
      fun value => if_neg hok
    cases c3ExitUserRead32 (some as) s.mem (node + offset) with
    | none => rfl
    | some oldv => simp [hwrite]

/-- **One entry**: its word is marked, if the task owns it, and the waiters are woken. -/
theorem wakeOne_some {k : ℕ} (h : robustCell cur s.mem.paging offset node = some k) :
    c3RobustWakeOne task cur offset s node =
      if robustOwned cur (cell s.mem.bytes k) then
        ⟨{ s.mem with bytes := setCell s.mem.bytes k (robustDied (cell s.mem.bytes k)) },
          robustWake task (node + offset) s.futex⟩
      else s := by
  unfold robustCell at h
  unfold c3RobustWakeOne
  dsimp only at h ⊢
  split_ifs at h with haddr
  rw [if_neg haddr]
  obtain ⟨as, has, h⟩ := Option.bind_eq_some_iff.1 h
  split_ifs at h with hok
  have hk := Option.some.inj h
  have hp := present_of_rangeOk hok
  have hva : 4 ∣ (node + offset).toNat := four_dvd_of_and (by simpa using (not_or.1 (not_or.1 haddr).2).2)
  have hread : c3ExitUserRead32 cur.addrSpace s.mem (node + offset) = some (cell s.mem.bytes k) := by
    rw [has, c3ExitUserRead32, Option.bind_some, if_pos (rangeOk_read hok), leNat_userBytes hva hp, hk]
  have hwrite : ∀ value, c3ExitUserWrite32 cur.addrSpace s.mem (node + offset) value =
      some { s.mem with bytes := setCell s.mem.bytes k value } := by
    intro value
    rw [has, c3ExitUserWrite32, Option.bind_some, if_pos hok, range'_word hva hp, hk, setCell, storeAt_eq,
      length_leBytes]
  rw [hread]
  cases hown : robustOwned cur (cell s.mem.bytes k) with
  | false => simp [hown]
  | true => simp [hown, hwrite]

/-! ### Several words -/

theorem robustDied_owner (word : BitVec 32) : robustDied word &&& c3FutexTidMask = 0 := by
  unfold robustDied
  rw [BitVec.and_comm, BitVec.and_or_distrib_left, ← BitVec.and_assoc, BitVec.and_comm c3FutexTidMask word,
    BitVec.and_assoc]
  simp [c3FutexTidMask, c3FutexWaitersBit, c3FutexOwnerDiedBit]

theorem robustDied_robustDied (word : BitVec 32) : robustDied (robustDied word) = robustDied word := by
  have hmark : robustDied word &&& c3FutexWaitersBit = word &&& c3FutexWaitersBit := by
    unfold robustDied
    rw [BitVec.and_comm, BitVec.and_or_distrib_left, ← BitVec.and_assoc,
      BitVec.and_comm c3FutexWaitersBit word, BitVec.and_assoc]
    simp [c3FutexWaitersBit, c3FutexOwnerDiedBit]
  unfold robustDied at hmark ⊢
  rw [hmark]

theorem robustOwned_robustDied (hpid : BitVec.ofInt 32 cur.pid ≠ 0) (word : BitVec 32) :
    robustOwned cur (robustDied word) = false := by
  unfold robustOwned
  rw [robustDied_owner]
  exact decide_eq_false (Ne.symm hpid)

/-- **The entries of a list** are visited: the words that the task owns are marked, the waiters of those
words are woken. -/
theorem foldl_wakeOne (task : ℕ) (cur : Proc.Task) (offset : BitVec 64) (l : List (BitVec 64)) (s : RobustState) :
    (l.foldl (c3RobustWakeOne task cur offset) s).mem.paging = s.mem.paging ∧
      cell (l.foldl (c3RobustWakeOne task cur offset) s).mem.bytes =
        (visit (robustCell cur s.mem.paging offset) (robustOwned cur) robustDied l (cell s.mem.bytes)).2 ∧
      (l.foldl (c3RobustWakeOne task cur offset) s).futex =
        (visit (robustCell cur s.mem.paging offset) (robustOwned cur) robustDied l (cell s.mem.bytes)).1.foldl
          (fun t node => robustWake task (node + offset) t) s.futex := by
  induction l generalizing s with
  | nil => exact ⟨rfl, rfl, rfl⟩
  | cons node l ih =>
    rw [List.foldl_cons]
    cases hcell : robustCell cur s.mem.paging offset node with
    | none =>
      rw [wakeOne_none hcell, visit_none hcell]
      exact ih s
    | some k =>
      rw [wakeOne_some hcell]
      cases hown : robustOwned cur (cell s.mem.bytes k) with
      | false =>
        rw [if_neg (by decide), visit_other hcell hown]
        exact ih s
      | true =>
        obtain ⟨hpg, hcells, hfutex⟩ := ih ⟨{ s.mem with
          bytes := setCell s.mem.bytes k (robustDied (cell s.mem.bytes k)) }, robustWake task (node + offset) s.futex⟩
        rw [cell_setCell] at hcells hfutex
        rw [if_pos rfl, visit_own hcell hown]
        exact ⟨hpg, hcells, hfutex⟩

theorem rouse_nil (t : Futex) : t.rouse [] = t := by
  simp [Futex.rouse]

theorem length_firstHits (t : FutexTable) (uaddr : BitVec 64) (bitset : BitVec 32) (want : ℕ) :
    (t.firstHits uaddr bitset want).length ≤ c3FutexWaitMax := by
  unfold FutexTable.firstHits
  rw [List.length_take]
  have hfilter := List.length_filter_le (fun i => (t.view i).any (Entry.hitAny uaddr bitset))
    (List.range c3FutexWaitMax)
  rw [List.length_range] at hfilter
  omega

/-- **A wake of one word** wakes one waiter of the task's own address space, or else all that wait there. -/
theorem robustWake_spec (h : t.table.Threaded) (task : ℕ) (uaddr : BitVec 64) :
    (robustWake task uaddr t).table.Threaded ∧ RobustWoken task uaddr t (robustWake task uaddr t) := by
  obtain ⟨l, hl⟩ := FutexTable.wakeN_exact h uaddr (t.space task) c3FutexBitsetMatchAny 1
  unfold robustWake
  dsimp only
  split_ifs with hnone
  -- nobody waits in the task's own address space
  · have hlnil : l = [] := by
      have htasks := hl.tasks.symm.trans hnone
      simpa [FutexTable.tasksOf] using htasks
    subst hlnil
    have hview := hl.view
    rw [FutexTable.without_nil] at hview
    have hany := FutexTable.wakeN_any hl.threaded uaddr 0 c3FutexBitsetMatchAny (2 ^ 32 - 1)
    have hlen := length_firstHits (t.table.wakeN uaddr 1 (t.space task) true c3FutexBitsetMatchAny).2 uaddr
      c3FutexBitsetMatchAny (2 ^ 32 - 1)
    have hmem : ∀ i, i ∈ _ ↔ _ := fun i => ⟨hany.hits i, hany.all (hlen.trans_lt (by decide)) i⟩
    rw [hnone, rouse_nil]
    refine ⟨hany.threaded, _, hany.nodup, ?_, ?_, .inr ⟨fun i => ?_, fun i => ?_⟩⟩
    · rw [← hview]
      exact hany.view
    · rw [← hview, ← hany.tasks]
      rfl
    · rw [← Bool.not_eq_true]
      exact fun hi => List.not_mem_nil (hl.all (by decide) i hi)
    · rw [← hview]
      exact hmem i
  · obtain ⟨i, rfl⟩ : ∃ i, l = [i] := by
      have hle := hl.le
      have hne : l ≠ [] := by
        rintro rfl
        exact hnone hl.tasks
      have hpos := List.length_pos_iff.2 hne
      exact List.length_eq_one_iff.1 (by omega)
    refine ⟨hl.threaded, [i], hl.nodup, hl.view, ?_, .inl ⟨i, rfl, hl.hits i (List.mem_singleton_self i)⟩⟩
    rw [← hl.tasks]
    rfl

theorem robustWakes_foldl (h : t.table.Threaded) (l : List (BitVec 64)) :
    RobustWakes task (l.map (· + offset)) t
      (l.foldl (fun t node => robustWake task (node + offset) t) t) := by
  induction l generalizing t with
  | nil => rfl
  | cons node l ih =>
    obtain ⟨hthr, hwoken⟩ := robustWake_spec h task (node + offset)
    exact ⟨_, hwoken, ih hthr⟩

/-! ### The whole list -/

theorem robustWalk_spec (task : ℕ) (cur : Proc.Task) (offset : BitVec 64) (guard : ℕ) (next : BitVec 64)
    (s : RobustState) :
    ∃ nodes last, nodes.length ≤ guard ∧ RobustLinked task cur offset s next nodes last ∧
      robustWalk task cur offset guard next s = nodes.foldl (c3RobustWakeOne task cur offset) s ∧
      (last = 0 ∨ last = BitVec.ofNat 64 cur.robustListHead ∨ nodes.length = guard ∨
        c3ExitUserRead64 cur.addrSpace (nodes.foldl (c3RobustWakeOne task cur offset) s).mem last = none) := by
  induction guard generalizing next s with
  | zero => exact ⟨[], next, le_rfl, rfl, rfl, .inr (.inr (.inl rfl))⟩
  | succ guard ih =>
    unfold robustWalk
    split_ifs with hstop
    · exact ⟨[], next, Nat.zero_le _, rfl, rfl, hstop.imp_right .inl⟩
    rw [not_or] at hstop
    cases hread : c3ExitUserRead64 cur.addrSpace s.mem next with
    | none => exact ⟨[], next, Nat.zero_le _, rfl, rfl, .inr (.inr (.inr hread))⟩
    | some next' =>
      obtain ⟨nodes, last, hlen, hlinked, hwalk, hend⟩ := ih next' (c3RobustWakeOne task cur offset s next)
      refine ⟨next :: nodes, last, ?_, ⟨rfl, hstop.1, hstop.2, next', hread, hlinked⟩, hwalk, ?_⟩
      · rw [List.length_cons]
        omega
      · rw [List.length_cons, Nat.add_right_cancel_iff]
        exact hend

/-- **The robust list of a task that exits.**  Whatever the memory holds, the exit ends; it marks just the
words that the task owns among those of the entries that the walk finds, and of the pending entry, and wakes
for each of them one waiter of the own address space or else all; without a head that can be read it does
nothing. -/
theorem robust_list_handled (task : ℕ) (cur : Proc.Task) (s : RobustState) (h : s.futex.table.Threaded) :
    match robustHead cur s.mem with
    | none => c3RobustListExit task cur s = s
    | some hd => ∃ nodes, RobustHandled task cur hd s (c3RobustListExit task cur s) nodes := by
  unfold c3RobustListExit
  cases robustHead cur s.mem with
  | none => rfl
  | some hd =>
    obtain ⟨nodes, last, hlen, hlinked, hwalk, hend⟩ :=
      robustWalk_spec task cur hd.futexOffset c3RobustLimit hd.listNext s
    dsimp only
    rw [hwalk, ← List.foldl_append]
    obtain ⟨hpg, hcells, hfutex⟩ := foldl_wakeOne task cur hd.futexOffset (nodes ++ hd.pending cur) s
    refine ⟨nodes, ⟨last, hlinked, hend⟩, hlen, hpg, fun k => ?_, _, visit_sublist (f := robustDied) _ _,
      visit_marked _ _, ?_, ?_⟩
    · rw [hcells]
      exact visit_cells (fun x _ => robustDied_robustDied x) _ _ k
    · exact fun hpid => visit_nodup (fun x _ => robustOwned_robustDied hpid x) _ _
    · rw [hfutex]
      exact robustWakes_foldl h _

/-! ### A list with one entry -/

/-- The task 7, with the head of its list at 0x1000. -/
def robustTask : Proc.Task := { Proc.Task.zero with
  used := true, pid := 7, addrSpace := some (.user 0), robustListHead := 0x1000, robustListLen := 24 }

/-- The entry at 0x1020 and its word at 0x1028, that the task owns and that has waiters. -/
def robustBytes (p : ℕ) : UInt8 :=
  if p = 0x6000 then 0x20
  else if p = 0x6001 ∨ p = 0x6021 then 0x10
  else if p = 0x6008 then 8
  else if p = 0x6028 then 7
  else if p = 0x602b then 0x80
  else 0

/-- Two tasks sleep on the word, as on one that processes share. -/
def robustWaits : Futex :=
  { (Futex.empty.exec (.wait 1 0x1028 false c3FutexBitsetMatchAny true)).exec
      (.wait 2 0x1028 false c3FutexBitsetMatchAny true) with asleep := fun t => t = 1 ∨ t = 2 }

def robustState : RobustState := ⟨⟨samplePages, robustBytes⟩, robustWaits⟩

theorem threaded_wait (h : t.table.Threaded) (task : ℕ) (uaddr : BitVec 64) (priv : Bool)
    (bitset : BitVec 32) (agrees : Bool) : (t.wait task uaddr priv bitset agrees).2.table.Threaded := by
  have hadd := FutexTable.waiterAdd_spec h uaddr task (t.key task priv) bitset
  unfold Futex.wait
  split <;> try assumption
  split_ifs <;> try assumption
  split
  · assumption
  next hsome =>
    rw [hsome] at hadd
    exact hadd.2.1

theorem robustState_threaded : robustState.futex.table.Threaded :=
  threaded_wait (threaded_wait Futex.empty_start.inv.threaded 1 0x1028 false c3FutexBitsetMatchAny true)
    2 0x1028 false c3FutexBitsetMatchAny true

theorem robust_list_handled_one : robustHead robustTask robustState.mem = some ⟨0x1020, 8, 0⟩ ∧
    ∃ nodes, RobustHandled 0 robustTask ⟨0x1020, 8, 0⟩ robustState
      (c3RobustListExit 0 robustTask robustState) nodes := by
  have hhead : robustHead robustTask robustState.mem = some ⟨0x1020, 8, 0⟩ := by decide +kernel
  have hhandled := robust_list_handled 0 robustTask robustState robustState_threaded
  rw [hhead] at hhandled
  exact ⟨hhead, hhandled⟩

/-- Both waiters of the one word are woken. -/
theorem robust_list_wakes_two : robustState.futex.asleep 1 = true ∧ robustState.futex.asleep 2 = true ∧
    (c3RobustListExit 0 robustTask robustState).futex.asleep 1 = false ∧
    (c3RobustListExit 0 robustTask robustState).futex.asleep 2 = false := by
  decide +kernel

end Ridux
