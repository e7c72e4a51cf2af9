import Ridux.Futex.Waits

/-!
# Locks with an owner on a futex

* `PiFutex`: the word of a lock, and the calls of `FUTEX_LOCK_PI` that wait for it;
* `PiFutex.exec`: the calls of `real_sys_futex`, and the compare-and-swap of user space;
* `PiFutex.Safe`: one holder, named in the word, with the bit for those that wait;
* `ownedRun_exclusive`: one holder, as long as only the holder unlocks;
* `piRun_safe`: the bit too, as long as nobody waits when the kernel unlocks.
-/

namespace Ridux

open Lib Function

def c3FutexWaitersBit : BitVec 32 := 0x80000000
def c3FutexTidMask : BitVec 32 := 0x3fffffff

/-- The turns of the loop of `FUTEX_LOCK_PI`. -/
def c3FutexPiSpins : ℕ := 256

/-- A lock: its word and address, the calls that wait for it with the turns they made, and the tasks
that took it and did not give it back. -/
structure PiFutex where
  futex : Futex
  pid : ℕ → BitVec 32
  uaddr : BitVec 64
  priv : Bool
  word : BitVec 32
  spins : ℕ → Option ℕ
  held : ℕ → Bool

namespace PiFutex

def tid (s : PiFutex) (task : ℕ) : BitVec 32 := s.pid task &&& c3FutexTidMask

/-- The thread that the word names. -/
def owner (s : PiFutex) : BitVec 32 := s.word &&& c3FutexTidMask

/-- The lock is taken. -/
def take (task : ℕ) (s : PiFutex) : PiFutex :=
  { s with
    word := s.tid task
    spins := update s.spins task none
    held := update s.held task true }

/-- The call returns without the lock. -/
def giveUp (task : ℕ) (s : PiFutex) : PiFutex :=
  { s with spins := update s.spins task none }

/-- The bit for those that wait. -/
def mark (s : PiFutex) : PiFutex := { s with word := s.word ||| c3FutexWaitersBit }

/-- A turn of the loop of `FUTEX_LOCK_PI`, or the one of `FUTEX_TRYLOCK_PI`.  The result is there when
the call returns. -/
def lockTurn (task : ℕ) (once : Bool) (spins : ℕ) (s : PiFutex) :
    Option (Except FutexErr Unit) × PiFutex :=
  if s.owner = 0 then (some (.ok ()), s.take task)
  else if s.owner = s.tid task then (some (.error .eagain), s.giveUp task)
  else if once then (some (.error .eagain), s.mark.giveUp task)
  else if c3FutexPiSpins < spins + 1 then (some (.error .eagain), s.mark.giveUp task)
  else (none, { s.mark with spins := update s.spins task (some (spins + 1)) })

/-- `FUTEX_LOCK_PI` and `FUTEX_TRYLOCK_PI`, the first turn; a task that waits makes no other call. -/
def lock (task : ℕ) (once : Bool) (s : PiFutex) : Option (Except FutexErr Unit) × PiFutex :=
  match s.spins task, Futex.checkAddr s.uaddr with
  | some _, _ => (none, s)
  | none, .error e => (some (.error e), s)
  | none, .ok () => s.lockTurn task once 0

/-- A turn after the first. -/
def turn (task : ℕ) (s : PiFutex) : Option (Except FutexErr Unit) × PiFutex :=
  match s.spins task with
  | none => (none, s)
  | some n => s.lockTurn task false n

/-- `FUTEX_UNLOCK_PI`. -/
def unlock (task : ℕ) (s : PiFutex) : Option (Except FutexErr ℕ) × PiFutex :=
  match s.spins task, Futex.checkAddr s.uaddr with
  | some _, _ => (none, s)
  | none, .error e => (some (.error e), s)
  | none, .ok () =>
    let r := Futex.wakeTable s.futex.table s.uaddr 1 (s.futex.key task s.priv) s.priv
      c3FutexBitsetMatchAny
    (some (.ok r.1.length), { s with
      futex := { s.futex with table := r.2 }.rouse r.1
      word := 0
      held := update s.held task false })

/-- User space takes a lock that is free. -/
def userLock (task : ℕ) (s : PiFutex) : PiFutex :=
  if s.spins task = none ∧ s.word = 0 then s.take task else s

/-- User space gives back a lock that nobody waits for. -/
def userUnlock (task : ℕ) (s : PiFutex) : PiFutex :=
  if s.spins task = none ∧ s.word = s.tid task then
    { s with word := 0, held := update s.held task false }
  else s

/-- What happens. -/
inductive Op
  | lock (task : ℕ) (once : Bool)
  | turn (task : ℕ)
  | unlock (task : ℕ)
  | userLock (task : ℕ)
  | userUnlock (task : ℕ)

/-- Who does it. -/
def Op.task : Op → ℕ
  | .lock task _ | .turn task | .unlock task | .userLock task | .userUnlock task => task

/-- One step. -/
def exec (s : PiFutex) : Op → PiFutex
  | .lock task once => (s.lock task once).2
  | .turn task => (s.turn task).2
  | .unlock task => (s.unlock task).2
  | .userLock task => s.userLock task
  | .userUnlock task => s.userUnlock task

/-! ### What is promised -/

/-- There is one holder, and the word names it. -/
structure Exclusive (s : PiFutex) : Prop where
  one : ∀ task other, s.held task = true → s.held other = true → task = other
  named : ∀ task, s.held task = true → s.owner = s.tid task
  free : (∀ task, s.held task = false) → s.owner = 0

/-- And the bit is there for those that wait. -/
structure Safe (s : PiFutex) : Prop extends Exclusive s where
  waiters : ∀ task, (s.spins task).isSome → s.word &&& c3FutexWaitersBit ≠ 0

/-- A task that does not hold the lock cannot give it back. -/
def Refuses (s : PiFutex) (task : ℕ) : Prop :=
  s.held task = false → ∃ err, s.unlock task = (some (.error err), s)

/-! ### The condition -/

/-- The thread has an identity of its own within the mask. -/
def Known (s : PiFutex) (task : ℕ) : Prop :=
  s.tid task ≠ 0 ∧ ∀ other, s.tid other = s.tid task → other = task

/-- Only the holder unlocks. -/
def Owned (s : PiFutex) (op : Op) : Prop :=
  s.Known op.task ∧ ∀ task, op = .unlock task → s.held task = true

/-- And nobody waits then. -/
def Meets (s : PiFutex) (op : Op) : Prop :=
  s.Owned op ∧ ∀ task, op = .unlock task → ∀ other, s.spins other = none

/-- The word is 0, and nobody has the lock or waits for it. -/
structure Start (s : PiFutex) : Prop where
  word : s.word = 0
  spins : ∀ task, s.spins task = none
  held : ∀ task, s.held task = false

/-- Any run. -/
def Run : PiFutex → PiFutex → Prop := Runs (fun _ _ => True) exec

/-- A run where only the holder unlocks. -/
def OwnedRun : PiFutex → PiFutex → Prop := Runs Owned exec

/-- And nobody waits when it does. -/
def MeetingRun : PiFutex → PiFutex → Prop := Runs Meets exec

/-! ### One holder -/

variable {s s' : PiFutex} {task : ℕ}

theorem mask_tid (s : PiFutex) (task : ℕ) : s.tid task &&& c3FutexTidMask = s.tid task := by
  unfold tid
  rw [BitVec.and_assoc, BitVec.and_self]

theorem take_owner (s : PiFutex) (task : ℕ) : (s.take task).owner = s.tid task := mask_tid s task

theorem mark_owner (s : PiFutex) : s.mark.owner = s.owner := by
  have hapart : c3FutexWaitersBit &&& c3FutexTidMask = 0#32 := by decide
  unfold owner mark
  dsimp only
  rw [BitVec.and_or_distrib_right, hapart, BitVec.or_zero]

/-- What a step keeps while only the holder unlocks. -/
structure Inv (s : PiFutex) : Prop extends Exclusive s where
  known : ∀ task, s.held task = true → s.Known task

theorem Start.inv (h : s.Start) : s.Inv where
  one task other htask := by
    rw [h.held task] at htask
    cases htask
  named task htask := by
    rw [h.held task] at htask
    cases htask
  free _ := by
    unfold owner
    rw [h.word]
    exact BitVec.zero_and
  known task htask := by
    rw [h.held task] at htask
    cases htask

theorem Inv.nobody (h : s.Inv) (hfree : s.owner = 0) (other : ℕ) : s.held other = false := by
  by_contra hheld
  have hheld := Bool.eq_true_of_not_eq_false hheld
  exact (h.known other hheld).1 ((h.named other hheld).symm.trans hfree)

theorem Inv.take (h : s.Inv) (hknown : s.Known task) (hfree : s.owner = 0) : (s.take task).Inv := by
  have honly : ∀ other, (s.take task).held other = true → other = task := by
    intro other hheld
    by_contra hne
    have hold : (s.take task).held other = s.held other := update_of_ne hne ..
    rw [hold, h.nobody hfree other] at hheld
    cases hheld
  constructor
  case known =>
    intro other hheld
    rw [honly other hheld]
    exact hknown
  constructor
  case one =>
    intro other other' hheld hheld'
    rw [honly other hheld, honly other' hheld']
  case named =>
    intro other hheld
    rw [honly other hheld]
    exact take_owner s task
  case free =>
    intro hnone
    have hself : (s.take task).held task = true := update_self ..
    rw [hnone task] at hself
    cases hself

theorem Inv.congr (h : s.Inv) (hheld : s'.held = s.held) (howner : s'.owner = s.owner)
    (hpid : s'.pid = s.pid) : s'.Inv := by
  have htid : s'.tid = s.tid := by
    funext t
    unfold tid
    rw [hpid]
  constructor
  case known =>
    intro other hother
    rw [hheld] at hother
    unfold Known
    rw [htid]
    exact h.known other hother
  constructor
  case one =>
    rw [hheld]
    exact h.one
  case named =>
    rw [hheld, howner, htid]
    exact h.named
  case free =>
    rw [hheld, howner]
    exact h.free

theorem Inv.of_released (s : PiFutex) (task : ℕ) (hword : s'.word = 0)
    (hheld : s'.held = update s.held task false) (honly : ∀ other, s.held other = true → other = task) :
    s'.Inv := by
  have hnone : ∀ other, s'.held other = false := by
    intro other
    rw [hheld]
    by_cases hne : other = task
    · subst hne
      exact update_self ..
    · rw [update_of_ne hne]
      by_contra hother
      exact hne (honly other (Bool.eq_true_of_not_eq_false hother))
  constructor
  case known =>
    intro other hother
    rw [hnone other] at hother
    cases hother
  constructor
  case one =>
    intro other _ hother
    rw [hnone other] at hother
    cases hother
  case named =>
    intro other hother
    rw [hnone other] at hother
    cases hother
  case free =>
    intro _
    unfold owner
    rw [hword]
    exact BitVec.zero_and

theorem lockTurn_cases (s : PiFutex) (task : ℕ) (once : Bool) (n : ℕ) :
    s.owner = 0 ∧ (s.lockTurn task once n).2 = s.take task ∨
      s.owner ≠ 0 ∧ ∃ spins, (∀ other ≠ task, spins other = s.spins other) ∧
        ((s.lockTurn task once n).2 = { s.mark with spins := spins } ∨
          spins task = none ∧ (s.lockTurn task once n).2 = { s with spins := spins }) := by
  have hother : ∀ v, ∀ other ≠ task, update s.spins task v other = s.spins other :=
    fun v other hne => update_of_ne hne ..
  unfold lockTurn
  by_cases hfree : s.owner = 0
  · rw [if_pos hfree]
    exact .inl ⟨hfree, rfl⟩
  rw [if_neg hfree]
  refine .inr ⟨hfree, ?_⟩
  by_cases hself : s.owner = s.tid task
  · rw [if_pos hself]
    exact ⟨_, hother none, .inr ⟨update_self .., rfl⟩⟩
  rw [if_neg hself]
  by_cases honce : once = true
  · rw [if_pos honce]
    exact ⟨_, hother none, .inl rfl⟩
  rw [if_neg honce]
  by_cases hend : c3FutexPiSpins < n + 1
  · rw [if_pos hend]
    exact ⟨_, hother none, .inl rfl⟩
  · rw [if_neg hend]
    exact ⟨_, hother _, .inl rfl⟩

theorem Inv.lockTurn (h : s.Inv) (hknown : s.Known task) (once : Bool) (n : ℕ) :
    (s.lockTurn task once n).2.Inv := by
  rcases s.lockTurn_cases task once n with ⟨hfree, htake⟩ | ⟨-, spins, -, hmark | ⟨-, hgive⟩⟩
  · rw [htake]
    exact h.take hknown hfree
  · rw [hmark]
    exact h.congr rfl s.mark_owner rfl
  · rw [hgive]
    exact h.congr rfl rfl rfl

theorem lock_cases (s : PiFutex) (task : ℕ) (once : Bool) :
    (s.lock task once).2 = s ∨
      s.spins task = none ∧ (s.lock task once).2 = (s.lockTurn task once 0).2 := by
  unfold lock
  cases hspins : s.spins task with
  | some n => exact .inl rfl
  | none =>
    cases Futex.checkAddr s.uaddr with
    | error e => exact .inl rfl
    | ok => exact .inr ⟨rfl, rfl⟩

theorem turn_cases (s : PiFutex) (task : ℕ) :
    (s.turn task).2 = s ∨
      ∃ n, s.spins task = some n ∧ (s.turn task).2 = (s.lockTurn task false n).2 := by
  unfold turn
  cases hspins : s.spins task with
  | none => exact .inl rfl
  | some n => exact .inr ⟨n, rfl, rfl⟩

theorem unlock_cases (s : PiFutex) (task : ℕ) :
    (s.unlock task).2 = s ∨
      (∃ n, (s.unlock task).1 = some (.ok n)) ∧ ∃ futex, (s.unlock task).2 =
        { s with futex := futex, word := 0, held := update s.held task false } := by
  unfold unlock
  cases s.spins task with
  | some n => exact .inl rfl
  | none =>
    cases Futex.checkAddr s.uaddr with
    | error e => exact .inl rfl
    | ok => exact .inr ⟨⟨_, rfl⟩, _, rfl⟩

theorem zero_owner (h : s.word = 0) : s.owner = 0 := by
  unfold owner
  rw [h]
  exact BitVec.zero_and

theorem Inv.only (h : s.Inv) (hknown : s.Known task) (hword : s.word = s.tid task) {other : ℕ}
    (hother : s.held other = true) : other = task := by
  apply hknown.2
  rw [← h.named other hother, owner, hword, mask_tid]

theorem Inv.exec (h : s.Inv) {op : Op} (hop : s.Owned op) : (s.exec op).Inv := by
  obtain ⟨hknown, hheld⟩ := hop
  cases op with
  | lock task once =>
    show (s.lock task once).2.Inv
    rcases s.lock_cases task once with hsame | ⟨-, hturn⟩
    · rwa [hsame]
    · rw [hturn]
      exact h.lockTurn hknown once 0
  | turn task =>
    show (s.turn task).2.Inv
    rcases s.turn_cases task with hsame | ⟨n, -, hturn⟩
    · rwa [hsame]
    · rw [hturn]
      exact h.lockTurn hknown false n
  | unlock task =>
    show (s.unlock task).2.Inv
    rcases s.unlock_cases task with hsame | ⟨-, futex, hfree⟩
    · rwa [hsame]
    · rw [hfree]
      have hholder := hheld task rfl
      apply Inv.of_released s task rfl rfl
      intro other hother
      exact h.one other task hother hholder
  | userLock task =>
    show (s.userLock task).Inv
    unfold userLock
    split_ifs with hc
    · exact h.take hknown (zero_owner hc.2)
    · exact h
  | userUnlock task =>
    show (s.userUnlock task).Inv
    unfold userUnlock
    split_ifs with hc
    · apply Inv.of_released s task rfl rfl
      intro other hother
      exact h.only hknown hc.2 hother
    · exact h

/-- **While only the holder calls `FUTEX_UNLOCK_PI` there is one holder, and the word names it.** -/
theorem ownedRun_exclusive {s₀ : PiFutex} (h₀ : s₀.Start) (h : OwnedRun s₀ s) : s.Exclusive := by
  have hinv : s.Inv := Runs.invariant (fun _ _ hi hop => hi.exec hop) h h₀.inv
  exact hinv.toExclusive

/-! ### Those that wait -/

/-- A lock that is waited for has a holder, and the bit. -/
structure Marked (s : PiFutex) : Prop extends Inv s where
  taken : ∀ task, (s.spins task).isSome → s.owner ≠ 0
  waiters : ∀ task, (s.spins task).isSome → s.word &&& c3FutexWaitersBit ≠ 0

theorem Marked.safe (h : s.Marked) : s.Safe := ⟨h.toExclusive, h.waiters⟩

theorem Start.marked (h : s.Start) : s.Marked := by
  refine ⟨h.inv, fun task hsome => ?_, fun task hsome => ?_⟩
  · rw [h.spins task] at hsome
    cases hsome
  · rw [h.spins task] at hsome
    cases hsome

theorem Marked.idle (h : s.Marked) (hfree : s.owner = 0) (other : ℕ) : s.spins other = none := by
  cases hother : s.spins other with
  | none => rfl
  | some n => exact absurd hfree (h.taken other (by rw [hother]; rfl))

theorem mark_bit (s : PiFutex) : s.mark.word &&& c3FutexWaitersBit ≠ 0 := by
  have hbit : s.mark.word &&& c3FutexWaitersBit = (s.word &&& c3FutexWaitersBit) ||| c3FutexWaitersBit := by
    unfold mark
    rw [BitVec.and_or_distrib_right, BitVec.and_self]
  rw [hbit]
  intro hzero
  obtain ⟨-, habsurd⟩ := BitVec.or_eq_zero_iff.1 hzero
  exact absurd habsurd (by decide)

theorem Marked.of_idle (hinv : s'.Inv) (hidle : ∀ other, s'.spins other = none) : s'.Marked := by
  refine ⟨hinv, fun other hsome => ?_, fun other hsome => ?_⟩
  · rw [hidle other] at hsome
    cases hsome
  · rw [hidle other] at hsome
    cases hsome

theorem Marked.lockTurn (h : s.Marked) (hknown : s.Known task) {once : Bool} {n : ℕ} :
    (s.lockTurn task once n).2.Marked := by
  have hinv := h.toInv.lockTurn hknown once n
  rcases s.lockTurn_cases task once n with ⟨hfree, htake⟩ | ⟨htaken, spins, hsame, hmark | ⟨hnone, hgive⟩⟩
  · rw [htake] at hinv ⊢
    refine .of_idle hinv fun other => ?_
    by_cases hne : other = task
    · subst hne
      exact update_self ..
    · exact (update_of_ne hne ..).trans (h.idle hfree other)
  · rw [hmark] at hinv ⊢
    refine ⟨hinv, fun other _ => ?_, fun other _ => s.mark_bit⟩
    show s.mark.owner ≠ 0
    rwa [s.mark_owner]
  · rw [hgive] at hinv ⊢
    have hold : ∀ other, (spins other).isSome → (s.spins other).isSome := by
      intro other hsome
      by_cases hne : other = task
      · subst hne
        rw [hnone] at hsome
        cases hsome
      · rwa [← hsame other hne]
    exact ⟨hinv, fun other hsome => htaken, fun other hsome => h.waiters other (hold other hsome)⟩

theorem Marked.exec (h : s.Marked) {op : Op} (hop : s.Meets op) : (s.exec op).Marked := by
  have hinv := h.toInv.exec hop.1
  obtain ⟨⟨hknown, -⟩, hidle⟩ := hop
  cases op with
  | lock task once =>
    show (s.lock task once).2.Marked
    rcases s.lock_cases task once with hsame | ⟨-, hturn⟩
    · rwa [hsame]
    · rw [hturn]
      exact h.lockTurn hknown
  | turn task =>
    show (s.turn task).2.Marked
    rcases s.turn_cases task with hsame | ⟨n, -, hturn⟩
    · rwa [hsame]
    · rw [hturn]
      exact h.lockTurn hknown
  | unlock task =>
    refine .of_idle hinv fun other => ?_
    show (s.unlock task).2.spins other = none
    rcases s.unlock_cases task with hsame | ⟨-, futex, hfree⟩
    · rw [hsame]
      exact hidle task rfl other
    · rw [hfree]
      exact hidle task rfl other
  | userLock task =>
    show (s.userLock task).Marked
    have hinv : (s.userLock task).Inv := hinv
    unfold userLock at hinv ⊢
    by_cases hc : s.spins task = none ∧ s.word = 0
    · rw [if_pos hc] at hinv ⊢
      refine .of_idle hinv fun other => ?_
      by_cases hne : other = task
      · subst hne
        exact update_self ..
      · exact (update_of_ne hne ..).trans (h.idle (zero_owner hc.2) other)
    · rwa [if_neg hc]
  | userUnlock task =>
    show (s.userUnlock task).Marked
    have hinv : (s.userUnlock task).Inv := hinv
    unfold userUnlock at hinv ⊢
    by_cases hc : s.spins task = none ∧ s.word = s.tid task
    · rw [if_pos hc] at hinv ⊢
      refine .of_idle hinv fun other => ?_
      -- a word that is only an identity has no bit
      cases hother : s.spins other with
      | none => rfl
      | some n =>
        have hbit := h.waiters other (by rw [hother]; rfl)
        have hapart : c3FutexTidMask &&& c3FutexWaitersBit = 0 := by decide
        rw [hc.2, tid, BitVec.and_assoc, hapart] at hbit
        exact absurd BitVec.and_zero hbit
    · rwa [if_neg hc]

theorem refuses_iff (hspins : s.spins task = none) (haddr : Futex.checkAddr s.uaddr = .ok ()) :
    s.Refuses task ↔ s.held task = true := by
  constructor
  · intro h
    by_contra hno
    obtain ⟨err, herr⟩ := h (Bool.eq_false_of_not_eq_true hno)
    have hok := congrArg Prod.fst herr
    unfold unlock at hok
    rw [hspins, haddr] at hok
    cases hok
  · intro hheld hno
    rw [hheld] at hno
    cases hno

/-- **In a run where only the holder calls `FUTEX_UNLOCK_PI`, and only when nobody waits, the lock has
one holder and the word is right; a task that is not the holder is never refused.** -/
theorem piRun_safe {s₀ s : PiFutex} (h₀ : s₀.Start) (h : MeetingRun s₀ s) :
    s.Safe ∧ (∀ op, s.Meets op → (s.exec op).Safe) ∧
      ∀ task, s.spins task = none → Futex.checkAddr s.uaddr = .ok () →
        (s.Refuses task ↔ s.held task = true) := by
  have hmarked : s.Marked := Runs.invariant (fun _ _ hi hop => hi.exec hop) h h₀.marked
  exact ⟨hmarked.safe, fun op hop => (hmarked.exec hop).safe, fun task => refuses_iff⟩

/-! ### Two runs -/

/-- A free lock, and threads 1 and 2. -/
def free : PiFutex :=
  ⟨⟨⟨fun _ => .cleared, fun _ => none, 0⟩, fun _ => none, fun _ => false, fun _ => 64⟩,
    fun t => if t = 1 then 1 else if t = 2 then 2 else 0, 4096, true, 0, fun _ => none, fun _ => false⟩

/-- Task 1 has the lock, and task 2 waits. -/
def oneBlocked : PiFutex := (free.exec (.userLock 1)).exec (.lock 2 false)

/-- Task 1 has the lock, task 2 gives it back, and takes it. -/
def stolen : PiFutex := ((free.exec (.userLock 1)).exec (.unlock 2)).exec (.userLock 2)

theorem free_start : free.Start := ⟨rfl, fun _ => rfl, fun _ => rfl⟩

theorem known_of_pid (hpid : s.pid = free.pid) : s.Known 1 ∧ s.Known 2 := by
  have htid : s.tid = free.tid := by
    funext t
    unfold tid
    rw [hpid]
  unfold Known
  rw [htid]
  refine ⟨⟨by decide, fun other h => ?_⟩, ⟨by decide, fun other h => ?_⟩⟩
  · by_contra hne
    have h : (if other = 1 then 1 else if other = 2 then 2 else 0) &&& c3FutexTidMask = _ := h
    rw [if_neg hne] at h
    split_ifs at h <;> exact absurd h (by decide)
  · by_contra hne
    have h : (if other = 1 then 1 else if other = 2 then 2 else 0) &&& c3FutexTidMask = _ := h
    rw [if_neg hne] at h
    split_ifs at h <;> exact absurd h (by decide)

theorem oneBlocked_run : MeetingRun free oneBlocked := by
  have hlock : Meets free (.userLock 1) :=
    ⟨⟨(known_of_pid rfl).1, fun _ h => by cases h⟩, fun _ h => by cases h⟩
  have hwait : Meets (free.exec (.userLock 1)) (.lock 2 false) :=
    ⟨⟨(known_of_pid rfl).2, fun _ h => by cases h⟩, fun _ h => by cases h⟩
  exact ((Runs.refl free).tail _ hlock).tail _ hwait

theorem stolen_run : Run free stolen :=
  (((Runs.refl free).tail _ trivial).tail _ trivial).tail _ trivial

theorem oneBlocked_safe : oneBlocked.Safe ∧ (oneBlocked.exec (.turn 2)).Safe := by
  obtain ⟨hsafe, hnext, -⟩ := piRun_safe free_start oneBlocked_run
  refine ⟨hsafe, hnext _ ⟨⟨(known_of_pid rfl).2, fun _ h => by cases h⟩, fun _ h => by cases h⟩⟩

/-- A lock that another task gave back has two holders. -/
theorem stolen_not_safe : ¬∀ s₀ s : PiFutex, s₀.Start → Run s₀ s → s.Safe := by
  intro h
  have hone := (h free stolen free_start stolen_run).one 1 2 (by decide +kernel) (by decide +kernel)
  cases hone

end PiFutex

end Ridux
