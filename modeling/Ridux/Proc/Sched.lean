import Ridux.Lib.Scan
import Ridux.Proc.Table

/-!
# The scheduler

* `frameValid`: may the kernel's stack of a task be switched to?
* `taskMakeRunnable`, `taskSchedule`;
* `Wf`: the tables that the scheduler keeps; in them no task is ever rejected for its stack;
* `Woken`, `Scheduled`: what waking tasks and a call of the scheduler do.
-/

namespace Ridux.Proc

open Lib Function

namespace Machine

/-- The word that a switch to task `i` returns to. -/
def frameRet (m : Machine) (i : ℕ) : BitVec 64 := m.stackWord ((m.task i).kernelRspSaved + 56)

def taskKernelTextRet (ret : BitVec 64) : Bool :=
  decide (0x100000 ≤ ret.toNat ∧ ret.toNat < 0x4000000)

/-- `task_kernel_rsp_frame_valid`. -/
def frameValid (m : Machine) (i : ℕ) : Bool :=
  let t := m.task i
  if ¬ t.used ∨ t.kernelStack = 0 then false
  else if t.kernelRspSaved < t.kernelStack ∨ t.kernelStackTop < u64 (t.kernelRspSaved + 64) then
    false
  else if t.needsFirstLaunch then decide (m.frameRet i = m.trampoline)
  else taskKernelTextRet (m.frameRet i)

/-- `task_make_runnable`, with its result. -/
def taskMakeRunnable (i : ℕ) (m : Machine) : Bool × Machine :=
  let t := m.task i
  if taskMax ≤ i ∨ ¬ t.used ∨ t.state = .zombie ∨ t.state = .free then (false, m)
  else if t.ring3 ∧ ¬ m.frameValid i then (false, m)
  else (true, m.setTask i { t with sleepUntil := 0, state := .runnable })

/-! ### `task_schedule` -/

/-- `task_current_index_usable`. -/
def usable (t : Task) : Bool := t.used && t.state != .free && t.state != .zombie

/-- `task_recover_current_index`, on a stack at `sp`. -/
def recoverCurrent (sp : ℕ) (m : Machine) : Machine :=
  if usable m.cur then m
  else
    let onStack := firstSlot (fun i => (m.task i).used && decide ((m.task i).kernelStack ≠ 0 ∧
      (m.task i).kernelStack ≤ sp ∧ sp < (m.task i).kernelStackTop)) taskMax
    let running := firstSlot (fun i => (m.task i).used && decide ((m.task i).state = .running)) taskMax
    let idx := (onStack.or running).getD 0
    let m := { m with current := idx }
    let t := m.task idx
    if t.used ∧ t.state ≠ .running ∧ t.state ≠ .zombie ∧ t.state ≠ .free then
      m.setTask idx { t with state := .running }
    else m

/-- One round of `task_wake_due_sleepers`. -/
def wakeIfDue (now : ℕ) (m : Machine) (i : ℕ) : Machine :=
  let t := m.task i
  if t.used ∧ t.state = .sleeping ∧ t.sleepUntil ≠ 0 ∧ t.sleepUntil ≤ now then
    (m.taskMakeRunnable i).2
  else m

/-- `task_wake_due_sleepers`. -/
def wakeDueSleepers (now : ℕ) (m : Machine) : Machine :=
  (List.range taskMax).foldl (wakeIfDue now) m

/-- A task of ring 3 that can be picked. -/
def ready (m : Machine) (i : ℕ) : Bool :=
  (m.task i).used && (m.task i).ring3 && decide ((m.task i).state = .runnable)

/-- The first two searches: a task that was never launched comes first. -/
def nextReady (m : Machine) (start : ℕ) : Option ℕ :=
  (firstFrom (fun i => m.ready i && (m.task i).needsFirstLaunch) start taskMax).or
    (firstFrom m.ready start taskMax)

/-- The third search: a task that is marked as running although it is not the current one. -/
def stale (m : Machine) (i : ℕ) : Bool :=
  decide (i ≠ m.current) && (m.task i).ring3 && (m.task i).used &&
    decide ((m.task i).state = .running) && (m.taskMakeRunnable i).1

/-- The task to be switched to. -/
def pick (m : Machine) (start : ℕ) : Option ℕ × Machine :=
  match m.nextReady start with
  | some next => (some next, m)
  | none =>
    if m.cur.state = .running then (none, m)
    else
      match firstFrom m.stale start taskMax with
      | some next => (some next, (m.taskMakeRunnable next).2)
      | none => (none, m)

def taskRejectBadKstack (m : Machine) (i : ℕ) : Machine :=
  m.setTask i { m.task i with state := .zombie, exitCode := 0x7F }

/-- The loop at `select_next`.  Each round but the last rejects a task, so `TASK_MAX` and one more
rounds are enough. -/
def selectNext : ℕ → Machine → ℕ → Option ℕ × Machine
  | 0, m, _ => (none, m)
  | fuel + 1, m, start =>
    match m.pick start with
    | (none, m) => (none, m)
    | (some next, m) =>
      if next = m.current then (none, m)
      else if m.frameValid next then (some next, m)
      else selectNext fuel (m.taskRejectBadKstack next) start

/-- The switch from the current task to `next`: the frame of the current one is saved at `sp`, with
`ret` to return to.  A task that was never launched enters ring 3 (`clone3_enter_user`). -/
def switchTo (next sp : ℕ) (ret : BitVec 64) (m : Machine) : Machine :=
  let prev := m.cur
  let state := if prev.state = .running then (if prev.ring3 then .runnable else .sleeping)
    else prev.state
  let m := m.setTask m.current { prev with state := state, kernelRspSaved := sp }
  let m := m.setTask next { m.task next with state := .running, needsFirstLaunch := false }
  { m with current := next, stackWord := update m.stackWord (sp + 56) ret }

/-- `task_schedule`, at the time `now`, called on the stack at `sp` to return to `ret`. -/
def taskSchedule (now sp : ℕ) (ret : BitVec 64) (m : Machine) : Machine :=
  let m := m.recoverCurrent sp
  let start := (m.current + 1) % taskMax
  match selectNext (taskMax + 1) (m.wakeDueSleepers now) start with
  | (none, m) => m
  | (some next, m) => m.switchTo next sp ret

/-! ### Well-formed tables -/

/-- Task `i` is in the table. -/
def Has (m : Machine) (i : ℕ) : Prop := i < taskMax ∧ (m.task i).used = true

/-- The tables that `fork`, `exit`, `waitpid` and the scheduler keep. -/
structure Wf (m : Machine) : Prop where
  cur : m.Has m.current
  unique : ∀ i j, m.Has i → m.Has j → (m.task i).pid = (m.task j).pid → i = j
  pos : ∀ i, m.Has i → 0 < (m.task i).pid
  below : ∀ i, m.Has i → (m.task i).pid < m.nextPid
  /-- no task of ring 3 is a thread of another -/
  leader : ∀ i, m.Has i → (m.task i).ring3 = true → (m.task i).tgid = (m.task i).pid
  single : ∀ i, m.Has i → (m.task i).state = .running → i = m.current
  launched : m.cur.needsFirstLaunch = false
  stack : ∀ i, m.Has i → (m.task i).kernelStack = m.kstack i ∧
    (m.task i).kernelStackTop = m.kstack i + taskKernelStack
  frames : ∀ i, m.Has i → i ≠ m.current → m.frameValid i = true
  kstacks_pos : 0 < m.kstacks
  kstacks_end : m.kstacks + taskMax * taskKernelStack + 64 ≤ 2 ^ 64

/-- What waking, exiting and waiting leave as it is in a task. -/
structure SameTask (t t' : Task) : Prop where
  pid : t'.pid = t.pid
  tgid : t'.tgid = t.tgid
  ctx : t'.ctx = t.ctx
  kernelStack : t'.kernelStack = t.kernelStack
  kernelStackTop : t'.kernelStackTop = t.kernelStackTop
  kernelRspSaved : t'.kernelRspSaved = t.kernelRspSaved
  needsFirstLaunch : t'.needsFirstLaunch = t.needsFirstLaunch

/-- And in a machine; no task is new. -/
structure Keeps (m m' : Machine) : Prop where
  task : ∀ i, SameTask (m.task i) (m'.task i)
  used : ∀ i, (m'.task i).used = true → (m.task i).used = true
  nextPid : m'.nextPid = m.nextPid
  current : m'.current = m.current
  kstacks : m'.kstacks = m.kstacks
  trampoline : m'.trampoline = m.trampoline
  stackWord : m'.stackWord = m.stackWord

theorem SameTask.refl (t : Task) : SameTask t t := ⟨rfl, rfl, rfl, rfl, rfl, rfl, rfl⟩

variable {t : Task}

theorem SameTask.trans {u v : Task} (h : SameTask t u) (h' : SameTask u v) : SameTask t v :=
  ⟨h'.pid.trans h.pid, h'.tgid.trans h.tgid, h'.ctx.trans h.ctx, h'.kernelStack.trans h.kernelStack,
    h'.kernelStackTop.trans h.kernelStackTop, h'.kernelRspSaved.trans h.kernelRspSaved,
    h'.needsFirstLaunch.trans h.needsFirstLaunch⟩

theorem Keeps.trans {m u v : Machine} (h : Keeps m u) (h' : Keeps u v) : Keeps m v :=
  ⟨fun i => (h.task i).trans (h'.task i), fun i hi => h.used i (h'.used i hi),
    h'.nextPid.trans h.nextPid, h'.current.trans h.current, h'.kstacks.trans h.kstacks,
    h'.trampoline.trans h.trampoline, h'.stackWord.trans h.stackWord⟩

variable {m m' : Machine} {i sp : ℕ} {ret : BitVec 64} {t' : Task}

theorem Keeps.setTask (ht : SameTask (m.task i) t) (hused : t.used = true → (m.task i).used = true) :
    Keeps m (m.setTask i t) := by
  refine ⟨fun j => ?_, fun j hj => ?_, rfl, rfl, rfl, rfl, rfl⟩
  · by_cases hji : j = i
    · rw [hji, setTask_task, update_self]
      exact ht
    · rw [setTask_task, update_of_ne hji]
      exact .refl _
  · by_cases hji : j = i
    · rw [hji, setTask_task, update_self] at hj
      rw [hji]
      exact hused hj
    · rwa [setTask_task, update_of_ne hji] at hj

theorem Keeps.has (h : Keeps m m') (hi : m'.Has i) : m.Has i := ⟨hi.1, h.used i hi.2⟩

theorem Keeps.ring3 (h : Keeps m m') (i : ℕ) : (m'.task i).ring3 = (m.task i).ring3 := by
  unfold Task.ring3
  rw [(h.task i).ctx]

theorem Keeps.frameValid (h : Keeps m m') (hi : (m'.task i).used = true) :
    m'.frameValid i = m.frameValid i := by
  have ht := h.task i
  unfold Machine.frameValid frameRet
  simp only [hi, h.used i hi, ht.kernelStack, ht.kernelStackTop, ht.kernelRspSaved,
    ht.needsFirstLaunch, h.trampoline, h.stackWord]

/-- Such a change keeps the table well formed, if the current task stays and no other is marked as
running. -/
theorem Wf.keeps (h : m.Wf) (hk : Keeps m m') (hcur : m'.cur.used = true)
    (hsingle : ∀ i, m'.Has i → (m'.task i).state = .running → i = m.current) : m'.Wf where
  cur := by
    rw [hk.current]
    refine ⟨h.cur.1, ?_⟩
    rw [← hk.current]
    exact hcur
  unique i j hi hj hpid := by
    rw [(hk.task i).pid, (hk.task j).pid] at hpid
    exact h.unique i j (hk.has hi) (hk.has hj) hpid
  pos i hi := (hk.task i).pid ▸ h.pos i (hk.has hi)
  below i hi := by
    rw [(hk.task i).pid, hk.nextPid]
    exact h.below i (hk.has hi)
  leader i hi hring := by
    rw [(hk.task i).pid, (hk.task i).tgid]
    rw [hk.ring3] at hring
    exact h.leader i (hk.has hi) hring
  single i hi hrun := by
    rw [hk.current]
    exact hsingle i hi hrun
  launched := by
    unfold Machine.cur
    rw [hk.current, (hk.task _).needsFirstLaunch]
    exact h.launched
  stack i hi := by
    have hbase : m'.kstack i = m.kstack i := congrArg (· + i * taskKernelStack) hk.kstacks
    rw [(hk.task i).kernelStack, (hk.task i).kernelStackTop, hbase]
    exact h.stack i (hk.has hi)
  frames i hi hne := by
    rw [hk.frameValid hi.2]
    rw [hk.current] at hne
    exact h.frames i (hk.has hi) hne
  kstacks_pos := hk.kstacks ▸ h.kstacks_pos
  kstacks_end := hk.kstacks ▸ h.kstacks_end

/-! ### Waking -/

/-- A task is left alone, or made runnable. -/
inductive WokenTask (t : Task) : Task → Prop
  | same : WokenTask t t
  | woken (sleepUntil : ℕ) (waitPid : ℤ) : t.used = true → t.state ≠ .zombie →
      WokenTask t
        { t with sleepUntil := sleepUntil, state := .runnable, waitPid := waitPid }

/-- Some tasks are made runnable. -/
structure Woken (m m' : Machine) : Prop where
  task : ∀ i, WokenTask (m.task i) (m'.task i)
  nextPid : m'.nextPid = m.nextPid
  current : m'.current = m.current
  kstacks : m'.kstacks = m.kstacks
  trampoline : m'.trampoline = m.trampoline
  stackWord : m'.stackWord = m.stackWord

theorem WokenTask.trans {u v : Task} (h : WokenTask t u) (h' : WokenTask u v) : WokenTask t v := by
  cases h with
  | same => exact h'
  | woken su wp hused hz =>
    cases h' with
    | same => exact .woken su wp hused hz
    | woken su' wp' _ _ => exact .woken su' wp' hused hz

theorem Woken.refl (m : Machine) : Woken m m := ⟨fun _ => .same, rfl, rfl, rfl, rfl, rfl⟩

theorem Woken.trans {u v : Machine} (h : Woken m u) (h' : Woken u v) : Woken m v :=
  ⟨fun i => (h.task i).trans (h'.task i), h'.nextPid.trans h.nextPid, h'.current.trans h.current,
    h'.kstacks.trans h.kstacks, h'.trampoline.trans h.trampoline, h'.stackWord.trans h.stackWord⟩

theorem Woken.setTask (ht : WokenTask (m.task i) t) : Woken m (m.setTask i t) := by
  refine ⟨fun j => ?_, rfl, rfl, rfl, rfl, rfl⟩
  by_cases hji : j = i
  · rw [hji, setTask_task, update_self]
    exact ht
  · rw [setTask_task, update_of_ne hji]
    exact .same

theorem WokenTask.sameTask (h : WokenTask t t') : SameTask t t' ∧ t'.used = t.used := by
  cases h with
  | same => exact ⟨.refl _, rfl⟩
  | woken => exact ⟨⟨rfl, rfl, rfl, rfl, rfl, rfl, rfl⟩, rfl⟩

theorem Woken.keeps (h : Woken m m') : Keeps m m' :=
  ⟨fun i => (h.task i).sameTask.1, fun i hi => (h.task i).sameTask.2 ▸ hi, h.nextPid, h.current,
    h.kstacks, h.trampoline, h.stackWord⟩

theorem Woken.running (h : Woken m m') (hi : (m'.task i).state = .running) :
    (m.task i).state = .running := by
  have ht := h.task i
  generalize m'.task i = t at ht hi
  cases ht with
  | same => exact hi
  | woken => cases hi

theorem Wf.woken (h : m.Wf) (hw : Woken m m') : m'.Wf := by
  refine h.keeps hw.keeps ?_ fun i hi hrun => h.single i (hw.keeps.has hi) (hw.running hrun)
  unfold Machine.cur
  rw [hw.current, (hw.task _).sameTask.2]
  exact h.cur.2

theorem taskMakeRunnable_woken (i : ℕ) (m : Machine) : Woken m (m.taskMakeRunnable i).2 := by
  unfold taskMakeRunnable
  dsimp only
  split_ifs with hrefused hframe
  · exact .refl m
  · exact .refl m
  · rw [not_or, not_or, not_or, not_not] at hrefused
    exact .setTask (.woken 0 (m.task i).waitPid hrefused.2.1 hrefused.2.2.1)

theorem wakeDueSleepers_woken (now : ℕ) (m : Machine) : Woken m (m.wakeDueSleepers now) := by
  have hround : ∀ (m : Machine) (i : ℕ), Woken m (m.wakeIfDue now i) := by
    intro m i
    unfold wakeIfDue
    dsimp only
    split_ifs
    · exact taskMakeRunnable_woken i m
    · exact .refl m
  have hfold : ∀ (l : List ℕ) (m : Machine), Woken m (l.foldl (wakeIfDue now) m) := by
    intro l
    induction l with
    | nil => exact fun m => .refl m
    | cons i l ih => exact fun m => (hround m i).trans (ih _)
  rw [wakeDueSleepers]
  exact hfold _ m

theorem pick_woken (m : Machine) (start : ℕ) : Woken m (m.pick start).2 := by
  unfold pick
  cases m.nextReady start with
  | some next => exact .refl m
  | none =>
    dsimp only
    split_ifs
    · exact .refl m
    · cases firstFrom m.stale start taskMax with
      | some next => exact taskMakeRunnable_woken next m
      | none => exact .refl m

/-! ### Switching -/

/-- The kernel runs on the stack of the current task: there is room for a frame at `sp`, and it
returns to the text of the kernel. -/
structure OnStack (m : Machine) (sp : ℕ) (ret : BitVec 64) : Prop where
  above : m.kstack m.current ≤ sp
  below : sp + 64 ≤ m.kstack m.current + taskKernelStack
  ret : taskKernelTextRet ret = true

theorem kstack_disjoint {j a : ℕ} (hi : m.kstack i ≤ a ∧ a < m.kstack i + taskKernelStack)
    (hj : m.kstack j ≤ a ∧ a < m.kstack j + taskKernelStack) : i = j := by
  simp only [kstack, taskKernelStack] at hi hj
  omega

theorem kstack_end (h : m.Wf) (hi : i < taskMax) : m.kstack i + taskKernelStack + 64 ≤ 2 ^ 64 := by
  have hend := h.kstacks_end
  simp only [kstack, taskKernelStack, taskMax] at *
  omega

theorem recoverCurrent_eq (h : m.Wf) (hsp : m.OnStack sp ret) : m.recoverCurrent sp = m := by
  unfold recoverCurrent
  split_ifs with husable
  · rfl
  · have hstack : ∀ i, m.Has i → (((m.task i).kernelStack ≠ 0 ∧ (m.task i).kernelStack ≤ sp ∧
        sp < (m.task i).kernelStackTop) ↔ i = m.current) := by
      intro i hi
      obtain ⟨hbase, htop⟩ := h.stack i hi
      rw [hbase, htop]
      have := hsp.above
      have := hsp.below
      have := h.kstacks_pos
      constructor
      · exact fun hin => kstack_disjoint hin.2 ⟨hsp.above, by omega⟩
      · rintro rfl
        refine ⟨?_, hsp.above, by omega⟩
        simp only [kstack]
        omega
    have hfound : firstSlot (fun i => (m.task i).used && decide ((m.task i).kernelStack ≠ 0 ∧
        (m.task i).kernelStack ≤ sp ∧ sp < (m.task i).kernelStackTop)) taskMax =
        some m.current := by
      cases hf : firstSlot (fun i => (m.task i).used && decide ((m.task i).kernelStack ≠ 0 ∧
        (m.task i).kernelStack ≤ sp ∧ sp < (m.task i).kernelStackTop)) taskMax with
      | none =>
        have hnone := firstSlot_eq_none hf m.current h.cur.1
        rw [h.cur.2, Bool.true_and] at hnone
        exact absurd ((hstack m.current h.cur).2 rfl) (of_decide_eq_false hnone)
      | some i =>
        obtain ⟨hi, hp⟩ := firstSlot_eq_some hf
        rw [Bool.and_eq_true] at hp
        rw [(hstack i ⟨hi, hp.1⟩).1 (of_decide_eq_true hp.2)]
    dsimp only
    rw [hfound]
    -- the current task is not usable, so its mark is not touched
    refine if_neg fun hmark => husable ?_
    unfold usable
    simp only [Bool.and_eq_true, bne_iff_ne]
    exact ⟨⟨hmark.1, hmark.2.2.2⟩, hmark.2.2.1⟩

theorem selectNext_cases (h : m.Wf) {start : ℕ} (hstart : start ≤ taskMax) (fuel : ℕ) :
    ∃ u, Woken m u ∧ (selectNext (fuel + 1) m start = (none, u) ∨
      ∃ next, selectNext (fuel + 1) m start = (some next, u) ∧ u.Has next ∧ next ≠ u.current ∧
        (u.task next).state = .runnable) := by
  have hwoken := pick_woken m start
  have hpicked : ∀ next, (m.pick start).1 = some next → (m.pick start).2.Has next ∧
      ((m.pick start).2.task next).state = .runnable := by
    intro next
    have hready : ∀ {p : ℕ → Bool}, (∀ i, p i = true → m.ready i = true) →
        firstFrom p start taskMax = some next → m.Has next ∧ (m.task next).state = .runnable := by
      intro p hp hf
      obtain ⟨hlt, hnext⟩ := firstFrom_eq_some hstart hf
      have hready := hp next hnext
      unfold ready at hready
      simp only [Bool.and_eq_true, decide_eq_true_eq] at hready
      exact ⟨⟨hlt, hready.1.1⟩, hready.2⟩
    unfold pick
    cases hn : m.nextReady start with
    | some n =>
      intro he
      obtain rfl := Option.some.inj he
      rcases Option.or_eq_some_iff.1 hn with hf | ⟨-, hf⟩
      · exact hready (fun i hi => (Bool.and_eq_true _ _ ▸ hi : _ ∧ _).1) hf
      · exact hready (fun _ hi => hi) hf
    | none =>
      dsimp only
      split_ifs with hrun
      · intro he
        cases he
      · cases hf : firstFrom m.stale start taskMax with
        | none =>
          intro he
          cases he
        | some n =>
          -- no task but the current one is marked as running
          obtain ⟨hlt, hstale⟩ := firstFrom_eq_some hstart hf
          unfold stale at hstale
          simp only [Bool.and_eq_true, decide_eq_true_eq] at hstale
          obtain ⟨⟨⟨⟨hne, -⟩, hused⟩, hrunning⟩, -⟩ := hstale
          exact absurd (h.single n ⟨hlt, hused⟩ hrunning) hne
  rw [selectNext]
  generalize m.pick start = r at hwoken hpicked
  obtain ⟨next, u⟩ := r
  cases next with
  | none => exact ⟨u, hwoken, .inl rfl⟩
  | some next =>
    obtain ⟨hhas, hrunnable⟩ := hpicked next rfl
    refine ⟨u, hwoken, ?_⟩
    dsimp only
    split_ifs with hcur hframe
    · exact .inl rfl
    · exact .inr ⟨next, rfl, hhas, hcur, hrunnable⟩
    · exact absurd ((h.woken hwoken).frames next hhas hcur) hframe

theorem switchTo_task {next : ℕ} (hne : next ≠ m.current) (sp : ℕ) (ret : BitVec 64) (i : ℕ) :
    (m.switchTo next sp ret).task i =
      if i = next then { m.task next with state := .running, needsFirstLaunch := false }
      else if i = m.current then
        { m.cur with
          state := if m.cur.state = .running then (if m.cur.ring3 then .runnable else .sleeping)
            else m.cur.state
          kernelRspSaved := sp }
      else m.task i := by
  unfold switchTo
  simp only [setTask_task, update_of_ne hne]
  by_cases hin : i = next
  · rw [if_pos hin, hin, update_self]
  · rw [if_neg hin, update_of_ne hin]
    by_cases hic : i = m.current
    · rw [if_pos hic, hic, update_self]
    · rw [if_neg hic, update_of_ne hic]

/-- What a call of the scheduler leaves of a task; `isCur` says that it is the current one. -/
structure TurnedTask (isCur : Prop) (t t' : Task) : Prop where
  used : t'.used = t.used
  pid : t'.pid = t.pid
  ppid : t'.ppid = t.ppid
  pgid : t'.pgid = t.pgid
  exitCode : t'.exitCode = t.exitCode
  zombie : t'.state = .zombie ↔ t.state = .zombie
  /-- only the current task can fall asleep, and it was running -/
  asleep : t'.state = .sleeping →
    t.state = .sleeping ∧ t'.waitPid = t.waitPid ∨ isCur ∧ t.state = .running

/-- What a call of the scheduler leaves of task `i`. -/
def Turned (m m' : Machine) (i : ℕ) : Prop := TurnedTask (i = m.current) (m.task i) (m'.task i)

theorem TurnedTask.refl (isCur : Prop) (t : Task) : TurnedTask isCur t t :=
  ⟨rfl, rfl, rfl, rfl, rfl, Iff.rfl, fun hs => .inl ⟨hs, rfl⟩⟩

theorem WokenTask.turned (h : WokenTask t t') (isCur : Prop) : TurnedTask isCur t t' := by
  cases h with
  | same => exact .refl isCur t
  | woken su wp hused hz =>
    exact ⟨rfl, rfl, rfl, rfl, rfl, iff_of_false TaskState.noConfusion hz, fun hs => by cases hs⟩

theorem Woken.turned (h : Woken m m') (i : ℕ) : Turned m m' i := (h.task i).turned _

theorem turned_next (ht : t.state = .runnable) (isCur : Prop) :
    TurnedTask isCur t { t with state := .running, needsFirstLaunch := false } := by
  refine ⟨rfl, rfl, rfl, rfl, rfl, iff_of_false TaskState.noConfusion ?_, fun hs => by cases hs⟩
  rw [ht]
  exact TaskState.noConfusion

theorem turned_prev (t : Task) (sp : ℕ) {isCur : Prop} (hcur : isCur) :
    TurnedTask isCur t { t with
      state := if t.state = .running then (if t.ring3 then .runnable else .sleeping) else t.state
      kernelRspSaved := sp } := by
  refine ⟨rfl, rfl, rfl, rfl, rfl, ?_, fun hs => ?_⟩
  · dsimp only
    by_cases hrun : t.state = .running
    · rw [if_pos hrun, hrun]
      cases t.ring3 <;> decide
    · rw [if_neg hrun]
  · by_cases hrun : t.state = .running
    · exact .inr ⟨hcur, hrun⟩
    · dsimp only at hs
      rw [if_neg hrun] at hs
      exact .inl ⟨hs, rfl⟩

theorem switchTo_turned {next : ℕ} (hne : next ≠ m.current)
    (hrunnable : (m.task next).state = .runnable) (sp : ℕ) (ret : BitVec 64) (i : ℕ) :
    Turned m (m.switchTo next sp ret) i := by
  unfold Turned
  rw [switchTo_task hne]
  by_cases hin : i = next
  · rw [if_pos hin, hin]
    exact turned_next hrunnable _
  · rw [if_neg hin]
    by_cases hic : i = m.current
    · rw [if_pos hic, hic]
      exact turned_prev m.cur sp rfl
    · rw [if_neg hic]
      exact .refl _ _

theorem frameValid_iff : m.frameValid i = true ↔
    (m.task i).used = true ∧ (m.task i).kernelStack ≠ 0 ∧
      (m.task i).kernelStack ≤ (m.task i).kernelRspSaved ∧
      u64 ((m.task i).kernelRspSaved + 64) ≤ (m.task i).kernelStackTop ∧
      if (m.task i).needsFirstLaunch then m.frameRet i = m.trampoline
      else taskKernelTextRet (m.frameRet i) = true := by
  unfold frameValid
  dsimp only
  by_cases h1 : ¬(m.task i).used = true ∨ (m.task i).kernelStack = 0
  · rw [if_pos h1]
    exact iff_of_false Bool.false_ne_true fun h => h1.elim (fun hu => hu h.1) h.2.1
  · rw [if_neg h1]
    rw [not_or, not_not] at h1
    by_cases h2 : (m.task i).kernelRspSaved < (m.task i).kernelStack ∨
        (m.task i).kernelStackTop < u64 ((m.task i).kernelRspSaved + 64)
    · rw [if_pos h2]
      exact iff_of_false Bool.false_ne_true fun h =>
        h2.elim (fun hl => absurd h.2.2.1 (not_le.2 hl)) fun hl => absurd h.2.2.2.1 (not_le.2 hl)
    · rw [if_neg h2]
      rw [not_or, not_lt, not_lt] at h2
      cases (m.task i).needsFirstLaunch with
      | true =>
        rw [if_pos rfl, if_pos rfl, decide_eq_true_iff]
        exact ⟨fun h => ⟨h1.1, h1.2, h2.1, h2.2, h⟩, fun h => h.2.2.2.2⟩
      | false =>
        rw [if_neg Bool.false_ne_true, if_neg Bool.false_ne_true]
        exact ⟨fun h => ⟨h1.1, h1.2, h2.1, h2.2, h⟩, fun h => h.2.2.2.2⟩

theorem frame_onStack (h : m.Wf) (hi : m.Has i) (hframe : m.frameValid i = true)
    (hlt : (m.task i).kernelRspSaved + 64 < 2 ^ 64) :
    m.kstack i ≤ (m.task i).kernelRspSaved ∧
      (m.task i).kernelRspSaved + 64 ≤ m.kstack i + taskKernelStack := by
  obtain ⟨-, -, hbase, htop, -⟩ := frameValid_iff.1 hframe
  rw [(h.stack i hi).1] at hbase
  rw [(h.stack i hi).2, u64, Nat.mod_eq_of_lt hlt] at htop
  exact ⟨hbase, htop⟩

theorem Wf.switchTo (h : m.Wf) {next : ℕ} (hnext : m.Has next) (hne : next ≠ m.current)
    (hrunnable : (m.task next).state = .runnable) (hsp : m.OnStack sp ret) : (m.switchTo next sp ret).Wf := by
  have hturn := switchTo_turned hne hrunnable sp ret
  have htask := switchTo_task hne sp ret
  have hhas : ∀ i, (m.switchTo next sp ret).Has i → m.Has i := fun i hi =>
    ⟨hi.1, (hturn i).used ▸ hi.2⟩
  have hsame : ∀ i, ((m.switchTo next sp ret).task i).tgid = (m.task i).tgid ∧
      ((m.switchTo next sp ret).task i).ctx = (m.task i).ctx ∧
      ((m.switchTo next sp ret).task i).kernelStack = (m.task i).kernelStack ∧
      ((m.switchTo next sp ret).task i).kernelStackTop = (m.task i).kernelStackTop := by
    intro i
    rw [htask]
    by_cases hin : i = next
    · rw [if_pos hin, hin]
      exact ⟨rfl, rfl, rfl, rfl⟩
    · rw [if_neg hin]
      by_cases hic : i = m.current
      · rw [if_pos hic, hic]
        exact ⟨rfl, rfl, rfl, rfl⟩
      · rw [if_neg hic]
        exact ⟨rfl, rfl, rfl, rfl⟩
  refine ⟨⟨hnext.1, (hturn next).used ▸ hnext.2⟩, fun i j hi hj hpid => ?_, fun i hi => ?_,
    fun i hi => ?_, fun i hi hring => ?_, fun i hi hrun => ?_, ?_, fun i hi => ?_,
    fun i hi hin => ?_, h.kstacks_pos, h.kstacks_end⟩
  · rw [(hturn i).pid, (hturn j).pid] at hpid
    exact h.unique i j (hhas i hi) (hhas j hj) hpid
  · exact (hturn i).pid ▸ h.pos i (hhas i hi)
  · exact (hturn i).pid ▸ h.below i (hhas i hi)
  · rw [(hturn i).pid, (hsame i).1]
    refine h.leader i (hhas i hi) ?_
    unfold Task.ring3 at hring ⊢
    rwa [(hsame i).2.1] at hring
  · by_contra hin
    have hin : i ≠ next := hin
    rw [htask, if_neg hin] at hrun
    by_cases hic : i = m.current
    · rw [if_pos hic] at hrun
      dsimp only at hrun
      split_ifs at hrun with hprev hring
      exact hprev hrun
    · rw [if_neg hic] at hrun
      exact hic (h.single i (hhas i hi) hrun)
  · show ((m.switchTo next sp ret).task next).needsFirstLaunch = false
    rw [htask, if_pos rfl]
  · rw [(hsame i).2.2.1, (hsame i).2.2.2]
    exact h.stack i (hhas i hi)
  · have hin : i ≠ next := hin
    have hend := kstack_end h h.cur.1
    have hword : (m.switchTo next sp ret).stackWord = update m.stackWord (sp + 56) ret := rfl
    have htramp : (m.switchTo next sp ret).trampoline = m.trampoline := rfl
    rw [frameValid_iff]
    unfold frameRet
    rw [hword, htramp, htask, if_neg hin]
    by_cases hic : i = m.current
    · subst hic
      rw [if_pos rfl]
      obtain ⟨hbase, htop⟩ := h.stack m.current h.cur
      have hpos := h.kstacks_pos
      refine ⟨h.cur.2, ?_, ?_, ?_, ?_⟩
      · show (m.task m.current).kernelStack ≠ 0
        rw [hbase]
        simp only [kstack]
        omega
      · show (m.task m.current).kernelStack ≤ sp
        rw [hbase]
        exact hsp.above
      · show u64 (sp + 64) ≤ (m.task m.current).kernelStackTop
        have := hsp.below
        rw [htop, u64, Nat.mod_eq_of_lt (by omega)]
        exact hsp.below
      · have hlaunched : m.cur.needsFirstLaunch = false := h.launched
        dsimp only
        rw [hlaunched, update_self]
        exact hsp.ret
    · rw [if_neg hic]
      have hframe := h.frames i (hhas i hi) hic
      -- the frame of another task is not on the stack of the current one
      have haddr : (m.task i).kernelRspSaved + 56 ≠ sp + 56 := by
        intro heq
        have hrsp : (m.task i).kernelRspSaved = sp := by omega
        have := hsp.below
        have hin := frame_onStack h (hhas i hi) hframe (by omega)
        rw [hrsp] at hin
        exact hic (kstack_disjoint ⟨hin.1, by omega⟩ ⟨hsp.above, by omega⟩)
      rw [update_of_ne haddr]
      exact frameValid_iff.1 hframe

/-- **What the scheduler does to a well-formed table.** -/
theorem taskSchedule_spec (h : m.Wf) (hsp : m.OnStack sp ret) (now : ℕ) :
    (m.taskSchedule now sp ret).Wf ∧ (∀ i, Turned m (m.taskSchedule now sp ret) i) ∧
      (m.taskSchedule now sp ret).nextPid = m.nextPid ∧
      ((m.taskSchedule now sp ret).current = m.current ∨
        (m.taskSchedule now sp ret).cur.state = .running) := by
  unfold taskSchedule
  rw [recoverCurrent_eq h hsp]
  have hdue := wakeDueSleepers_woken now m
  have hstart : (m.current + 1) % taskMax ≤ taskMax := le_of_lt (Nat.mod_lt _ (by decide))
  obtain ⟨u, hu, hsel⟩ := selectNext_cases (h.woken hdue) hstart taskMax
  have hw := hdue.trans hu
  have hwf := h.woken hw
  dsimp only
  rcases hsel with he | ⟨next, he, hhas, hne, hrunnable⟩
  · rw [he]
    exact ⟨hwf, hw.turned, hw.nextPid, .inl hw.current⟩
  · rw [he]
    have hsp' : u.OnStack sp ret := by
      refine ⟨?_, ?_, hsp.ret⟩ <;> rw [kstack, hw.kstacks, hw.current]
      · exact hsp.above
      · exact hsp.below
    have hlaunched : (u.switchTo next sp ret).cur.state = .running := by
      show ((u.switchTo next sp ret).task next).state = .running
      rw [switchTo_task hne, if_pos rfl]
    refine ⟨hwf.switchTo hhas hne hrunnable hsp', fun i => ?_, hw.nextPid, .inr hlaunched⟩
    have hwi := hw.turned i
    have hsi := switchTo_turned hne hrunnable sp ret i
    refine ⟨hsi.used.trans hwi.used, hsi.pid.trans hwi.pid, hsi.ppid.trans hwi.ppid,
      hsi.pgid.trans hwi.pgid, hsi.exitCode.trans hwi.exitCode, hsi.zombie.trans hwi.zombie,
      fun hs => ?_⟩
    rcases hsi.asleep hs with ⟨hs', hwp⟩ | ⟨hic, hrun⟩
    · rcases hwi.asleep hs' with ⟨hs'', hwp'⟩ | hcur
      · exact .inl ⟨hs'', hwp.trans hwp'⟩
      · exact .inr hcur
    · refine .inr ⟨hic.trans hw.current, hw.running hrun⟩

end Machine

end Ridux.Proc
