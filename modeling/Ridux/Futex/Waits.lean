import Ridux.Futex.Lists
import Ridux.Lib.Run

/-!
# Waiting on a futex

* `Futex`: the table, and for each task what its call of `real_sys_futex` remembers while it waits;
* `Futex.exec`: `FUTEX_WAIT`, a turn of the loop of a wait, `FUTEX_WAKE`, `FUTEX_REQUEUE` with their
  variants, and the end of a task;
* `Futex.Safe`, `Futex.StepLawful`: no entry is left behind, no waiter is lost, and a wake wakes what
  it says;
* `Futex.Meets`: the steps that keep that;
* `Futex.Inv`: what they keep; waits that begin and waits that return.
-/

namespace Ridux

open Lib Function Option

def c3FutexBitsetMatchAny : BitVec 32 := 0xFFFFFFFF

inductive FutexErr
  | efault | einval | eagain | eintr | etimedout
  deriving DecidableEq

/-- The variables of a call that waits. -/
structure Wait where
  idx : ℕ
  seq : BitVec 32
  uaddr : BitVec 64
  mmKey : BitVec 64
  exactKey : Bool

/-- The table, the calls that wait, the tasks that sleep, and the address space of each task. -/
structure Futex where
  table : FutexTable
  waits : ℕ → Option Wait
  asleep : ℕ → Bool
  space : ℕ → BitVec 64

namespace Futex

/-- `mm_key`. -/
def key (s : Futex) (task : ℕ) (priv : Bool) : BitVec 64 := if priv then s.space task else 0

/-- The address of a futex, when it is one. -/
def checkAddr (uaddr : BitVec 64) : Except FutexErr Unit :=
  if uaddr = 0 then .error .efault else if uaddr &&& 3 ≠ 0 then .error .einval else .ok ()

/-- The tasks of the entries that were taken out are made runnable. -/
def rouse (l : List (Option ℕ)) (s : Futex) : Futex :=
  { s with asleep := fun t => s.asleep t && !l.contains (some t) }

/-- `FUTEX_WAIT` and `FUTEX_WAIT_BITSET`, up to the loop; `agrees` says that the word has the value
expected. -/
def wait (task : ℕ) (uaddr : BitVec 64) (priv : Bool) (bitset : BitVec 32) (agrees : Bool)
    (s : Futex) : Except FutexErr Unit × Futex :=
  match s.waits task, checkAddr uaddr with
  | some _, _ => (.ok (), s)
  | none, .error e => (.error e, s)
  | none, .ok () =>
    if bitset = 0 then (.error .einval, s)
    else if !agrees then (.error .eagain, s)
    else
      match s.table.waiterAdd uaddr task (s.key task priv) bitset with
      | (none, _) => (.error .eagain, s)
      | (some i, table) =>
        (.ok (), { s with
          table := table
          waits := update s.waits task
            (some ⟨i, table.seq, uaddr, s.key task priv, priv⟩) })

/-- A wait that returns, and gives back the entries at the address it remembers. -/
def leave (task : ℕ) (w : Wait) (s : Futex) : Futex :=
  { s with
    table := s.table.removeTaskUaddr task w.uaddr w.mmKey w.exactKey
    waits := update s.waits task none
    asleep := update s.asleep task false }

/-- A turn of the loop of a wait: the word has changed, there is a signal, the time is over, or the
loop has turned too often.  The result is there when the call returns. -/
def turn (task : ℕ) (changed signal expired stalled : Bool) (s : Futex) :
    Option (Except FutexErr ℕ) × Futex :=
  match s.waits task with
  | none => (none, s)
  | some w =>
    if !s.table.waiterActive w.idx w.seq then (some (.ok 0), s.leave task w)
    else if changed then (some (.ok 0), s.leave task w)
    else if stalled then
      (some (.ok 0), { s with
        table := s.table.removeIdx w.idx
        waits := update s.waits task none
        asleep := update s.asleep task false })
    else if signal then (some (.error .eintr), s.leave task w)
    else if expired then (some (.error .etimedout), s.leave task w)
    else (none, { s with asleep := update s.asleep task true })

/-- The two tries of a wake: the waiters of the key, and then, for a private one, all others. -/
def wakeTable (t : FutexTable) (uaddr : BitVec 64) (want : ℕ) (mmKey : BitVec 64) (priv : Bool)
    (bitset : BitVec 32) : List (Option ℕ) × FutexTable :=
  let r := t.wakeN uaddr want mmKey priv bitset
  if priv ∧ r.1.length < want then
    let r' := r.2.wakeN uaddr (want - r.1.length) 0 false bitset
    (r.1 ++ r'.1, r'.2)
  else r

/-- `FUTEX_WAKE` and `FUTEX_WAKE_BITSET`. -/
def wake (task : ℕ) (uaddr : BitVec 64) (want : ℕ) (priv : Bool) (bitset : BitVec 32) (s : Futex) :
    Except FutexErr ℕ × Futex :=
  match checkAddr uaddr with
  | .error e => (.error e, s)
  | .ok () =>
    if bitset = 0 then (.error .einval, s)
    else
      let r := wakeTable s.table uaddr want (s.key task priv) priv bitset
      (.ok r.1.length, { s with table := r.2 }.rouse r.1)

/-- `FUTEX_REQUEUE` and `FUTEX_CMP_REQUEUE`; `agrees` says that the word has the value expected. -/
def requeue (task : ℕ) (src dst : BitVec 64) (want maxMove : ℕ) (priv agrees : Bool) (s : Futex) :
    Except FutexErr ℕ × Futex :=
  match checkAddr src, checkAddr dst with
  | .error e, _ => (.error e, s)
  | .ok (), .error e => (.error e, s)
  | .ok (), .ok () =>
    if !agrees then (.error .eagain, s)
    else
      let r := s.table.wakeN src want (s.key task priv) priv c3FutexBitsetMatchAny
      let m := r.2.requeue src dst maxMove (s.key task priv) (s.key task priv) priv
      (.ok (r.1.length + m.1), { s with table := m.2 }.rouse r.1)

/-- The end of a task. -/
def exit (task : ℕ) (s : Futex) : Futex :=
  { s with
    table := s.table.removeTaskUaddr task 0 0 false
    waits := update s.waits task none
    asleep := update s.asleep task false }

/-- What happens. -/
inductive Op
  | wait (task : ℕ) (uaddr : BitVec 64) (priv : Bool) (bitset : BitVec 32) (agrees : Bool)
  | turn (task : ℕ) (changed signal expired stalled : Bool)
  | wake (task : ℕ) (uaddr : BitVec 64) (want : ℕ) (priv : Bool) (bitset : BitVec 32)
  | requeue (task : ℕ) (src dst : BitVec 64) (want maxMove : ℕ) (priv agrees : Bool)
  | exit (task : ℕ)

/-- One step. -/
def exec (s : Futex) : Op → Futex
  | .wait task uaddr priv bitset agrees => (s.wait task uaddr priv bitset agrees).2
  | .turn task changed signal expired stalled => (s.turn task changed signal expired stalled).2
  | .wake task uaddr want priv bitset => (s.wake task uaddr want priv bitset).2
  | .requeue task src dst want maxMove priv agrees =>
    (s.requeue task src dst want maxMove priv agrees).2
  | .exit task => s.exit task

/-! ### What is promised -/

/-- The entry of a task that waits and has not been woken. -/
def Holds (s : Futex) (task : ℕ) (e : Entry) : Prop :=
  ∃ w, s.waits task = some w ∧ s.table.view w.idx = some e ∧ e.seq = w.seq

/-- The task waits, and its next turn does not find it woken. -/
def Waiting (s : Futex) (task : ℕ) : Prop :=
  ∃ w, s.waits task = some w ∧ s.table.waiterActive w.idx w.seq = true

/-- The entries hang in their lists, a task that has returned has none, one that waits has its own,
and one that was woken does not sleep. -/
structure Safe (s : Futex) : Prop where
  threaded : s.table.Threaded
  gone : ∀ task, s.waits task = none → ∀ i e, s.table.view i = some e → e.task ≠ some task
  own : ∀ task, s.Waiting task → ∃ e, s.Holds task e ∧ e.task = some task
  woken : ∀ task, (s.waits task).isSome → ¬s.Waiting task → s.asleep task = false

/-- The tasks `l` are woken between the two states: all of them wait for `p`, there are no more than
`want`, and fewer only when no other waits for it. -/
structure WakesTasks (s s' : Futex) (p : Entry → Bool) (want : ℕ) (l : List ℕ) : Prop where
  nodup : l.Nodup
  mem : ∀ {task}, task ∈ l ↔ s.Waiting task ∧ ¬s'.Waiting task
  hits : ∀ task ∈ l, ∃ e, s.Holds task e ∧ p e = true
  le : l.length ≤ want
  all : l.length < want → ∀ task e, s.Holds task e → p e = true → task ∈ l

/-- What a step promises of the tasks that wait. -/
def Keeps (s : Futex) (op : Op) : Prop :=
  match op with
  | .wait task .. | .turn task .. | .exit task =>
    ∀ other ≠ task, (s.exec op).Waiting other ↔ s.Waiting other
  | .wake task uaddr want priv bitset => ∀ n, (s.wake task uaddr want priv bitset).1 = .ok n →
    ∃ l, s.WakesTasks (s.exec op) (Entry.hit uaddr (s.key task priv) bitset) want l ∧
      n = l.length ∧ (priv = true → ∀ other ∈ l, s.space other = s.space task)
  | .requeue task src dst want maxMove priv agrees =>
    ∀ n, (s.requeue task src dst want maxMove priv agrees).1 = .ok n →
      ∃ l m, s.WakesTasks (s.exec op) (Entry.hit src (s.key task priv) c3FutexBitsetMatchAny) want l ∧
        n = l.length + m ∧ m ≤ maxMove ∧
        (priv = true → ∀ other ∈ l, s.space other = s.space task) ∧
        ∀ other e, (s.exec op).Holds other e → s.Holds other e ∨
          ∃ e', s.Holds other e' ∧ e'.uaddr = src ∧
            e = { e' with uaddr := dst, mmKey := s.key task priv }

/-- A step keeps everything. -/
structure StepLawful (s : Futex) (op : Op) : Prop where
  safe : (s.exec op).Safe
  keeps : s.Keeps op

/-! ### The condition -/

/-- The waiters that a wake takes first are of its key. -/
def Sorted (s : Futex) (uaddr : BitVec 64) (want : ℕ) (bitset : BitVec 32) : Prop :=
  ∀ i ∈ s.table.firstHits uaddr bitset want, ∀ e, s.table.view i = some e → e.mmKey = 0

/-- A private wake has enough waiters of its key, or there are no others at the address. -/
def Enough (s : Futex) (uaddr : BitVec 64) (want : ℕ) (mmKey : BitVec 64) (bitset : BitVec 32) :
    Prop :=
  want ≤ ((List.range c3FutexWaitMax).filter fun i =>
      (s.table.view i).any (Entry.hit uaddr mmKey bitset)).length ∨
    ∀ i e, s.table.view i = some e → e.hitAny uaddr bitset = true → e.mmKey = mmKey

/-- The step keeps the waiters. -/
def Meets (s : Futex) : Op → Prop
  | .wait .. => ∀ i, s.table.waiterAlloc = some i → ∀ other w, s.waits other = some w →
      w.idx = i → w.seq ≠ if s.table.seq + 1 = 0 then 1 else s.table.seq + 1
  | .turn task changed signal expired stalled => ∀ w e, s.waits task = some w →
      s.Holds task e → changed = true ∨ stalled = false ∧ (signal = true ∨ expired = true) →
        e.uaddr = w.uaddr ∧ (w.exactKey = true → e.mmKey = w.mmKey)
  | .wake task uaddr want priv bitset =>
      if priv then s.Enough uaddr want (s.key task priv) bitset else s.Sorted uaddr want bitset
  | .requeue task src dst want maxMove priv _ =>
      (priv = false → s.Sorted src want c3FutexBitsetMatchAny) ∧
        ¬(s.table.wakeN src want (s.key task priv) priv c3FutexBitsetMatchAny).2.Entangled src dst
          maxMove (s.key task priv) (s.key task priv) priv
  | .exit _ => True

/-- Nobody waits. -/
structure Start (s : Futex) : Prop where
  heads : ∀ b, s.table.heads b = none
  free : ∀ i, s.table.view i = none
  waits : ∀ task, s.waits task = none
  space : ∀ task, s.space task ≠ 0

/-- Any run. -/
def Run : Futex → Futex → Prop := Runs (fun _ _ => True) exec

/-- A run of steps that keep the waiters. -/
def MeetingRun : Futex → Futex → Prop := Runs Meets exec

/-! ### The invariant -/

variable {s s' : Futex} {task other : ℕ} {e : Entry}

theorem active_iff {t : FutexTable} {i : ℕ} {seq : BitVec 32} :
    t.waiterActive i seq = true ↔ ∃ e, t.view i = some e ∧ e.seq = seq := by
  unfold FutexTable.waiterActive
  rw [decide_eq_true_iff]
  constructor
  · rintro ⟨hi, hu, hseq⟩
    exact ⟨_, (FutexTable.view_of_lt hi).trans (Waiter.entry_used hu), hseq⟩
  · rintro ⟨e, he, hseq⟩
    obtain ⟨hi, hentry⟩ := FutexTable.view_eq_some he
    obtain ⟨hu, rfl⟩ := Waiter.entry_eq_some hentry
    exact ⟨hi, hu, hseq⟩

theorem waiting_iff : s.Waiting task ↔ ∃ e, s.Holds task e := by
  constructor
  · rintro ⟨w, hw, hactive⟩
    obtain ⟨e, he, hseq⟩ := active_iff.1 hactive
    exact ⟨e, w, hw, he, hseq⟩
  · rintro ⟨e, w, hw, he, hseq⟩
    exact ⟨w, hw, active_iff.2 ⟨e, he, hseq⟩⟩

/-- What every step keeps. -/
structure Inv (s : Futex) : Prop where
  threaded : s.table.Threaded
  owner : ∀ i e, s.table.view i = some e →
    ∃ task w, s.waits task = some w ∧ w.idx = i ∧ e.seq = w.seq
  mine : ∀ task e, s.Holds task e → e.task = some task
  kinds : ∀ task e, s.Holds task e → e.mmKey = 0 ∨ e.mmKey = s.space task
  space : ∀ task, s.space task ≠ 0
  awake : ∀ task, (s.waits task).isSome → ¬s.Waiting task → s.asleep task = false

theorem Inv.holder (h : s.Inv) {i : ℕ} (he : s.table.view i = some e) :
    ∃ task w, s.waits task = some w ∧ w.idx = i ∧ s.Holds task e ∧ e.task = some task := by
  obtain ⟨task, w, hw, rfl, hseq⟩ := h.owner i e he
  have hholds : s.Holds task e := ⟨w, hw, he, hseq⟩
  exact ⟨task, w, hw, rfl, hholds, h.mine task e hholds⟩

theorem Inv.safe (h : s.Inv) : s.Safe := by
  refine ⟨h.threaded, fun task hnone i e he htask => ?_, fun task hw => ?_, h.awake⟩
  · obtain ⟨task', w, hw, -, -, htask'⟩ := h.holder he
    obtain rfl := some.inj (htask.symm.trans htask')
    rw [hnone] at hw
    cases hw
  · obtain ⟨e, he⟩ := waiting_iff.1 hw
    exact ⟨e, he, h.mine task e he⟩

theorem Start.inv (h : s.Start) : s.Inv := by
  refine ⟨⟨fun _ => [], ⟨⟨fun b => ?_, fun b => List.nodup_nil, fun hb => by cases hb⟩, fun {b i} => ?_⟩⟩,
    fun i e he => ?_, fun task e he => ?_, fun task e he => ?_, h.space, fun task hsome => ?_⟩
  · exact h.heads b
  · constructor
    · intro hi
      cases hi
    · rintro ⟨e, he, -⟩
      rw [h.free i] at he
      cases he
  · rw [h.free i] at he
    cases he
  · obtain ⟨w, hw, -⟩ := he
    rw [h.waits task] at hw
    cases hw
  · obtain ⟨w, hw, -⟩ := he
    rw [h.waits task] at hw
    cases hw
  · rw [h.waits task] at hsome
    cases hsome

/-- Fewer entries and fewer waits. -/
structure Shrinks (s s' : Futex) : Prop where
  space : s'.space = s.space
  threaded : s'.table.Threaded
  view : ∀ i e, s'.table.view i = some e → s.table.view i = some e
  waits : ∀ task, s'.waits task = s.waits task ∨
    s'.waits task = none ∧ ∀ i e, s'.table.view i = some e → e.task ≠ some task

theorem Shrinks.holds (h : s.Shrinks s') (he : s'.Holds task e) : s.Holds task e := by
  obtain ⟨w, hw, hview, hseq⟩ := he
  refine ⟨w, ?_, h.view _ _ hview, hseq⟩
  rcases h.waits task with hsame | ⟨hnone, -⟩
  · rwa [hsame] at hw
  · rw [hnone] at hw
    cases hw

theorem Inv.shrink (h : s.Inv) (hs : s.Shrinks s')
    (hawake : ∀ task, (s'.waits task).isSome → ¬s'.Waiting task → s'.asleep task = false) :
    s'.Inv := by
  refine ⟨hs.threaded, fun i e he => ?_, fun task e he => h.mine task e (hs.holds he),
    fun task e he => ?_, fun task => ?_, hawake⟩
  · obtain ⟨task, w, hw, hidx, ⟨w', hw', -, hseq⟩, htask⟩ := h.holder (hs.view i e he)
    obtain rfl := some.inj (hw.symm.trans hw')
    rcases hs.waits task with hsame | ⟨-, hgone⟩
    · exact ⟨task, w, hsame.trans hw, hidx, hseq⟩
    · exact absurd htask (hgone i e he)
  · rw [hs.space]
    exact h.kinds task e (hs.holds he)
  · rw [hs.space]
    exact h.space task

/-- A call of `task` that returns: its entries are gone, and nothing else. -/
structure Returns (s s' : Futex) (task : ℕ) : Prop where
  space : s'.space = s.space
  threaded : s'.table.Threaded
  view : ∀ i e, s'.table.view i = some e ↔ s.table.view i = some e ∧ e.task ≠ some task
  waits : s'.waits = update s.waits task none
  asleep : s'.asleep = update s.asleep task false

theorem Returns.holds_iff (hr : s.Returns s' task) (h : s.Inv) (hne : other ≠ task) :
    s'.Holds other e ↔ s.Holds other e := by
  have hw : s'.waits other = s.waits other := by rw [hr.waits, update_of_ne hne]
  unfold Holds
  rw [hw]
  constructor
  · rintro ⟨w, hwait, he, hseq⟩
    exact ⟨w, hwait, ((hr.view _ _).1 he).1, hseq⟩
  · rintro ⟨w, hwait, he, hseq⟩
    refine ⟨w, hwait, (hr.view _ _).2 ⟨he, fun htask => hne ?_⟩, hseq⟩
    have hmine := h.mine other e ⟨w, hwait, he, hseq⟩
    exact some.inj (hmine.symm.trans htask)

theorem Returns.waiting_iff (hr : s.Returns s' task) (h : s.Inv) (hne : other ≠ task) :
    s'.Waiting other ↔ s.Waiting other := by
  rw [Futex.waiting_iff, Futex.waiting_iff]
  exact exists_congr fun e => hr.holds_iff h hne

theorem Returns.inv (hr : s.Returns s' task) (h : s.Inv) : s'.Inv := by
  refine h.shrink ⟨hr.space, hr.threaded, fun i e he => ((hr.view i e).1 he).1, fun other => ?_⟩
    fun other hsome hnot => ?_
  · rw [hr.waits]
    by_cases hne : other = task
    · subst hne
      exact .inr ⟨update_self .., fun i e he => ((hr.view i e).1 he).2⟩
    · exact .inl (update_of_ne hne ..)
  · rw [hr.asleep]
    rw [hr.waits] at hsome
    by_cases hne : other = task
    · subst hne
      exact update_self ..
    · rw [update_of_ne hne] at hsome ⊢
      exact h.awake other hsome fun hw => hnot ((hr.waiting_iff h hne).2 hw)

theorem leave_returns (h : s.Inv) {w : Wait}
    (hown : ∀ i e, s.table.view i = some e → e.task = some task →
      e.uaddr = w.uaddr ∧ (w.exactKey = true → e.mmKey = w.mmKey)) :
    s.Returns (s.leave task w) task := by
  obtain ⟨hthr, hview, -⟩ :=
    FutexTable.removeTaskUaddr_spec h.threaded task w.uaddr w.mmKey w.exactKey
  unfold leave
  constructor <;> dsimp only
  case threaded => exact hthr
  intro i e
  rw [hview, filter_eq_some_iff]
  refine and_congr_right fun he => ?_
  unfold Entry.ofTask
  constructor
  · intro hno htask
    obtain ⟨haddr, hkey⟩ := hown i e he htask
    simp [htask, haddr] at hno
    exact hno.2 (hkey hno.1)
  · intro htask
    simp [htask]

theorem exit_returns (h : s.Inv) (task : ℕ) : s.Returns (s.exit task) task := by
  obtain ⟨hthr, hview, -⟩ := FutexTable.removeTaskUaddr_spec h.threaded task 0 0 false
  unfold exit
  constructor <;> dsimp only
  case threaded => exact hthr
  intro i e
  rw [hview, filter_eq_some_iff]
  refine and_congr_right fun he => ?_
  simp [Entry.ofTask]

theorem stalled_returns (h : s.Inv) {w : Wait} (hw : s.waits task = some w)
    (hactive : s.table.waiterActive w.idx w.seq = true) :
    s.Returns { s with
      table := s.table.removeIdx w.idx
      waits := update s.waits task none
      asleep := update s.asleep task false } task := by
  obtain ⟨hthr, hview, -⟩ := FutexTable.removeIdx_spec h.threaded w.idx
  obtain ⟨e₀, he₀, hseq⟩ := active_iff.1 hactive
  have htask₀ := h.mine task e₀ ⟨w, hw, he₀, hseq⟩
  refine ⟨rfl, hthr, fun i e => ?_, rfl, rfl⟩
  dsimp only
  rw [hview]
  by_cases hi : i = w.idx
  · subst hi
    rw [update_self]
    constructor
    · intro hnone
      cases hnone
    · rintro ⟨he, hne⟩
      obtain rfl := some.inj (he₀.symm.trans he)
      exact absurd htask₀ hne
  · rw [update_of_ne hi]
    refine (and_iff_left_of_imp fun he htask => hi ?_).symm
    obtain ⟨task', w', hw', hidx, -, htask'⟩ := h.holder he
    obtain rfl := some.inj (htask.symm.trans htask')
    obtain rfl := some.inj (hw.symm.trans hw')
    exact hidx.symm

/-- A new entry of `task`, at the index `i` that was free. -/
structure Joins (s s' : Futex) (task i : ℕ) (e : Entry) (w : Wait) : Prop where
  free : s.table.view i = none
  idle : s.waits task = none
  fresh : ∀ other w', s.waits other = some w' → w'.idx = i → w'.seq ≠ e.seq
  space : s'.space = s.space
  threaded : s'.table.Threaded
  view : s'.table.view = update s.table.view i (some e)
  waits : s'.waits = update s.waits task (some w)
  asleep : s'.asleep = s.asleep
  idx : w.idx = i
  seq : e.seq = w.seq
  kind : e.mmKey = 0 ∨ e.mmKey = s.space task
  task : e.task = some task

variable {i : ℕ} {w : Wait} {e' : Entry}

theorem Joins.holds_iff (hj : s.Joins s' task i e w) (hne : other ≠ task) :
    s'.Holds other e' ↔ s.Holds other e' := by
  unfold Holds
  rw [hj.waits, update_of_ne hne]
  refine exists_congr fun w' => and_congr_right fun hw' => ?_
  rw [hj.view]
  by_cases hidx : w'.idx = i
  · rw [hidx, update_self, hj.free]
    constructor
    · rintro ⟨he, hseq⟩
      obtain rfl := some.inj he
      exact absurd hseq.symm (hj.fresh other w' hw' hidx)
    · rintro ⟨he, -⟩
      cases he
  · rw [update_of_ne hidx]

theorem Joins.holds_self (hj : s.Joins s' task i e w) : s'.Holds task e' ↔ e' = e := by
  unfold Holds
  rw [hj.waits, update_self, hj.view]
  constructor
  · rintro ⟨w', hw', he, -⟩
    obtain rfl := some.inj hw'
    rw [hj.idx, update_self] at he
    exact (some.inj he).symm
  · rintro rfl
    refine ⟨w, rfl, ?_, hj.seq⟩
    rw [hj.idx, update_self]

theorem Joins.waiting_iff (hj : s.Joins s' task i e w) (hne : other ≠ task) :
    s'.Waiting other ↔ s.Waiting other := by
  rw [Futex.waiting_iff, Futex.waiting_iff]
  exact exists_congr fun e' => hj.holds_iff hne

theorem Joins.inv (hj : s.Joins s' task i e w) (h : s.Inv) : s'.Inv := by
  refine ⟨hj.threaded, fun j e' he' => ?_, fun other e' he' => ?_, fun other e' he' => ?_,
    fun other => ?_, fun other hsome hnot => ?_⟩
  · rw [hj.view] at he'
    rw [hj.waits]
    rcases update_some_cases he' with ⟨rfl, rfl⟩ | ⟨-, he'⟩
    · exact ⟨task, w, update_self .., hj.idx, hj.seq⟩
    · obtain ⟨other, w', hw', hidx, hseq⟩ := h.owner j e' he'
      refine ⟨other, w', ?_, hidx, hseq⟩
      rw [update_of_ne, hw']
      rintro rfl
      rw [hj.idle] at hw'
      cases hw'
  · by_cases hne : other = task
    · subst hne
      rw [hj.holds_self.1 he']
      exact hj.task
    · exact h.mine other e' ((hj.holds_iff hne).1 he')
  · rw [hj.space]
    by_cases hne : other = task
    · subst hne
      rw [hj.holds_self.1 he']
      exact hj.kind
    · exact h.kinds other e' ((hj.holds_iff hne).1 he')
  · rw [hj.space]
    exact h.space other
  · rw [hj.asleep]
    by_cases hne : other = task
    · subst hne
      exact absurd (Futex.waiting_iff.2 ⟨e, hj.holds_self.2 rfl⟩) hnot
    · rw [hj.waits, update_of_ne hne] at hsome
      exact h.awake other hsome fun hw => hnot ((hj.waiting_iff hne).2 hw)

theorem key_kind (s : Futex) (task : ℕ) (priv : Bool) :
    s.key task priv = 0 ∨ s.key task priv = s.space task := by
  cases priv
  · exact .inl rfl
  · exact .inr rfl

theorem wait_cases (h : s.Inv) {uaddr : BitVec 64} {priv agrees : Bool} {bitset : BitVec 32}
    (hm : s.Meets (.wait task uaddr priv bitset agrees)) :
    (s.wait task uaddr priv bitset agrees).2 = s ∨
      ∃ i e w, s.Joins (s.wait task uaddr priv bitset agrees).2 task i e w := by
  unfold wait
  cases hw : s.waits task with
  | some w => exact .inl rfl
  | none =>
    cases checkAddr uaddr with
    | error e => exact .inl rfl
    | ok =>
      dsimp only
      split_ifs
      · exact .inl rfl
      · exact .inl rfl
      have hadd := FutexTable.waiterAdd_spec h.threaded uaddr task (s.key task priv) bitset
      have halloc : ∀ i, (s.table.waiterAdd uaddr task (s.key task priv) bitset).1 = some i →
          s.table.waiterAlloc = some i := by
        intro i
        unfold FutexTable.waiterAdd
        cases s.table.waiterAlloc with
        | none => exact id
        | some j => exact id
      generalize s.table.waiterAdd uaddr task (s.key task priv) bitset = r at hadd halloc ⊢
      obtain ⟨_ | i, table⟩ := r
      · exact .inl rfl
      · obtain ⟨hfree, hthr, hseq, hview⟩ := hadd
        refine .inr ⟨i, _, _, hfree, hw, fun other w' hw' hidx => ?_, rfl, hthr, hview, rfl, rfl, rfl, rfl,
          s.key_kind task priv, rfl⟩
        rw [hseq]
        exact hm i (halloc i rfl) other w' hw' hidx

theorem leave_of_holds (h : s.Inv)
    (hown : ∀ e, s.Holds task e → e.uaddr = w.uaddr ∧ (w.exactKey = true → e.mmKey = w.mmKey)) :
    s.Returns (s.leave task w) task := by
  apply leave_returns h
  intro i e he htask
  obtain ⟨task', w', -, -, hholds, htask'⟩ := h.holder he
  obtain rfl := some.inj (htask.symm.trans htask')
  exact hown e hholds

theorem turn_cases (h : s.Inv) {changed signal expired stalled : Bool}
    (hm : s.Meets (.turn task changed signal expired stalled)) :
    (s.turn task changed signal expired stalled).2 = s ∨
      s.Returns (s.turn task changed signal expired stalled).2 task ∨
        s.Waiting task ∧ (s.turn task changed signal expired stalled).2 =
          { s with asleep := update s.asleep task true } := by
  unfold turn
  cases hw : s.waits task with
  | none => exact .inl rfl
  | some w =>
    refine .inr ?_
    dsimp only
    by_cases hactive : s.table.waiterActive w.idx w.seq = true
    · rw [hactive, Bool.not_true, if_neg Bool.false_ne_true]
      by_cases hc : changed = true
      · rw [if_pos hc]
        exact .inl (leave_of_holds h fun e he => hm w e hw he (.inl hc))
      rw [if_neg hc]
      by_cases hst : stalled = true
      · rw [if_pos hst]
        exact .inl (stalled_returns h hw hactive)
      rw [if_neg hst]
      have hst := Bool.eq_false_of_not_eq_true hst
      by_cases hsig : signal = true
      · rw [if_pos hsig]
        exact .inl (leave_of_holds h fun e he => hm w e hw he (.inr ⟨hst, .inl hsig⟩))
      rw [if_neg hsig]
      by_cases hex : expired = true
      · rw [if_pos hex]
        exact .inl (leave_of_holds h fun e he => hm w e hw he (.inr ⟨hst, .inr hex⟩))
      rw [if_neg hex]
      exact .inr ⟨⟨w, hw, hactive⟩, rfl⟩
    · -- the entry is gone, and the task has no other
      rw [Bool.eq_false_of_not_eq_true hactive, Bool.not_false, if_pos rfl]
      refine .inl (leave_of_holds h fun e he => absurd ?_ hactive)
      obtain ⟨w', hw', hview, hseq⟩ := he
      obtain rfl := some.inj (hw.symm.trans hw')
      exact active_iff.2 ⟨e, hview, hseq⟩

theorem Inv.sleep (h : s.Inv) (hw : s.Waiting task) :
    Inv { s with asleep := update s.asleep task true } := by
  refine ⟨h.threaded, h.owner, h.mine, h.kinds, h.space, fun other hsome hnot => ?_⟩
  have hne : other ≠ task := by
    rintro rfl
    exact hnot hw
  show update s.asleep task true other = false
  rw [update_of_ne hne]
  exact h.awake other hsome hnot

end Futex

end Ridux
