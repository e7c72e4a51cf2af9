import Ridux.Proc.Sched

/-!
# Fork, exit and wait

* `realSysFork`: `task_fork`, and the frame from which the child is launched;
* `taskExit`: the task becomes a zombie, its parent is woken, its children go to task 1;
* `waitTurn`: one turn of the loop of `task_waitpid`;
* what each of them does to a well-formed table.
-/

namespace Ridux.Proc

open Lib Function

namespace Machine

/-! ### `fork` -/

/-- `clone3_setup_kstack`; of the frame only the word that the switch returns to is ever read. -/
def clone3SetupKstack (i : ℕ) (m : Machine) : Machine :=
  let t := m.task i
  { m.setTask i { t with
      kernelRspSaved := t.kernelStackTop - 72, needsFirstLaunch := true } with
    stackWord := update m.stackWord (t.kernelStackTop - 16) m.trampoline }

/-- The registers that the child starts with: those of the system call, or the parent's context. -/
def childCtx (frame : Option Ctx) (parent : Task) : Ctx :=
  match frame with
  | some f => { f with cs := ring3Cs, ss := 0x30, rax := 0 }
  | none => { parent.ctx with rax := 0 }

def realSysFork (frame : Option Ctx) (m : Machine) : ℤ × Machine :=
  let r := m.taskFork m.cur.pid
  if 0 < r.1 then
    match r.2.taskOfPid r.1 with
    | some c =>
      (r.1, (r.2.setTask c { r.2.task c with ctx := childCtx frame m.cur }).clone3SetupKstack c)
    | none => r
  else r

/-! ### `exit` -/

/-- What the search for the other tasks of an address space has found. -/
structure Survivors where
  m : Machine
  shared : Bool
  runnable : Bool
  sleeping : Option ℕ

/-- One round of the search, for the task `i` that exits. -/
def Survivors.look (i : ℕ) (r : Survivors) (si : ℕ) : Survivors :=
  let t := r.m.task si
  if si = i ∨ ¬ t.used ∨ t.state = .zombie ∨ t.state = .free then r
  else if t.addrSpace = (r.m.task i).addrSpace ∧ t.ring3 then
    let ok := r.m.frameValid si
    match t.state with
    | .running =>
      if ok then ⟨r.m.setTask si { t with state := .runnable }, true, true, r.sleeping⟩
      else { r with shared := true }
    | .runnable => { r with shared := true, runnable := r.runnable || ok }
    | .sleeping => { r with shared := true, sleeping := r.sleeping.or (if ok then some si else none) }
    | _ => { r with shared := true }
  else r

/-- When none of them can run, the first one that sleeps is woken. -/
def Survivors.wake (r : Survivors) : Machine :=
  match r.sleeping with
  | some j => if r.shared ∧ ¬ r.runnable then (r.m.taskMakeRunnable j).2 else r.m
  | none => r.m

/-- What `task_exit` does first when the current task exits: another task of its address space takes
over. -/
def exitSurvivors (m : Machine) (i : ℕ) : Machine :=
  let r := (List.range taskMax).foldl (Survivors.look i) ⟨m, false, false, none⟩
  if r.shared then r.wake else { r.wake with foreground := false }

/-- Does the pid that a sleeping parent waits for ask for the child `t`? -/
def wants (want : ℤ) (t : Task) : Bool :=
  want = -1 ∨ want = 0 ∨ want = t.pid ∨ (want < -1 ∧ t.pgid = -want)

/-- Wake the parent of task `i`. -/
def wakeParent (parentPid : ℤ) (i : ℕ) (m : Machine) : Machine :=
  match m.taskOfPid parentPid with
  | none => m
  | some j =>
    if (m.task j).state = .sleeping ∧ wants (m.task j).waitPid (m.task i) then
      let woken := m.taskMakeRunnable j
      if woken.1 then woken.2.setTask j { woken.2.task j with waitPid := 0 } else woken.2
    else m

/-- Give the children of `pid` to task 1. -/
def reparent (pid : ℤ) (m : Machine) : Machine :=
  { m with task := fun j =>
      if j < taskMax ∧ (m.task j).used ∧ (m.task j).ppid = pid then { m.task j with ppid := 1 }
      else m.task j }

/-- Is the task a thread of another, that no parent waits for? -/
def autoReap (t : Task) : Bool := t.ring3 && decide (t.tgid ≠ 0 ∧ t.tgid ≠ t.pid)

/-- `task_exit`.  What closing the descriptors does is modelled with the descriptors. -/
def taskExit (pid code : ℤ) (m : Machine) : Machine :=
  match m.taskOfPid pid with
  | none => m
  | some i =>
    let parentPid := (m.task i).ppid
    let thread := autoReap (m.task i)
    let m := if i = m.current then m.exitSurvivors i else m
    let m := m.setTask i { m.task i with state := .zombie, exitCode := code }
    let m := (m.wakeParent parentPid i).reparent pid
    if thread then m.setTask i { m.task i with state := .free, used := false } else m

/-! ### `waitpid` -/

/-- Does the task `t` wait for `u` when it waits for `pid`? -/
def waitsFor (t : Task) (pid : ℤ) (u : Task) : Bool :=
  decide (u.ppid = t.pid) &&
    (if 0 < pid then decide (u.pid = pid)
    else if pid = -1 then true
    else if pid = 0 then decide (u.pgid = t.pgid)
    else decide (u.pgid = -pid))

/-- How a turn of the loop ends: a child is reported, there is no child to wait for, none has exited
and the caller does not want to wait, or the task goes to sleep. -/
inductive Waited
  | reported (pid status : ℤ)
  | noChild
  | nothing
  | blocked
  deriving DecidableEq

/-- `(exit_code & 0xFF) << 8`. -/
def statusWord (code : ℤ) : ℤ := code % 256 * 256

def setWaitPid (m : Machine) (pid : ℤ) : Machine :=
  m.setTask m.current { m.cur with waitPid := pid }

/-- The zombie that a turn finds. -/
def exitedChild (m : Machine) (pid : ℤ) : Option ℕ :=
  firstSlot (fun i => (m.task i).used && waitsFor m.cur pid (m.task i) &&
    decide ((m.task i).state = .zombie)) taskMax

/-- Is there a child to wait for? -/
def haveMatch (m : Machine) (pid : ℤ) : Bool :=
  (firstSlot (fun i => (m.task i).used && waitsFor m.cur pid (m.task i)) taskMax).isSome

/-- The loop of `task_waitpid` up to the call of the scheduler. -/
def waitTurn (pid : ℤ) (nohang : Bool) (m : Machine) : Waited × Machine :=
  match m.exitedChild pid with
  | some i =>
    (.reported (m.task i).pid (statusWord (m.task i).exitCode),
      (m.setTask i { m.task i with used := false }).setWaitPid 0)
  | none =>
    if ¬ m.haveMatch pid then (.noChild, m.setWaitPid 0)
    else if nohang then (.nothing, m.setWaitPid 0)
    else (.blocked, m.setTask m.current { m.cur with waitPid := pid, state := .sleeping })

/-- The loop from the return of the scheduler to the next turn. -/
def waitAgain (m : Machine) : Machine :=
  if m.cur.state = .sleeping then m.setTask m.current { m.cur with state := .running } else m

/-! ### What `exit` does -/

variable {m m' v : Machine} {i j c : ℕ} {t : Task} {pid : ℤ}

theorem taskOfPid_eq (h : m.Wf) (hi : m.Has i) : m.taskOfPid (m.task i).pid = some i := by
  cases hf : m.taskOfPid (m.task i).pid with
  | none =>
    have := firstSlot_eq_none hf i hi.1
    simp [hi.2] at this
  | some j =>
    obtain ⟨hj, hp⟩ := firstSlot_eq_some hf
    simp only [Bool.and_eq_true, decide_eq_true_eq] at hp
    rw [h.unique j i ⟨hj, hp.1⟩ hi hp.2]

theorem Survivors.look_woken (i : ℕ) (r : Survivors) (si : ℕ) : Woken r.m (r.look i si).m := by
  unfold Survivors.look
  dsimp only
  by_cases hskip : si = i ∨ ¬(r.m.task si).used = true ∨ (r.m.task si).state = .zombie ∨
      (r.m.task si).state = .free
  · rw [if_pos hskip]
    exact .refl _
  · rw [if_neg hskip]
    rw [not_or, not_or, not_or, not_not] at hskip
    by_cases hshare : (r.m.task si).addrSpace = (r.m.task i).addrSpace ∧ (r.m.task si).ring3 = true
    · rw [if_pos hshare]
      cases hstate : (r.m.task si).state with
      | running =>
        dsimp only
        split_ifs
        · exact .setTask (.woken (r.m.task si).sleepUntil (r.m.task si).waitPid hskip.2.1 hskip.2.2.1)
        · exact .refl _
      | _ => exact .refl _
    · rw [if_neg hshare]
      exact .refl _

theorem Survivors.wake_woken (r : Survivors) : Woken r.m r.wake := by
  unfold Survivors.wake
  cases r.sleeping with
  | none => exact .refl _
  | some j =>
    dsimp only
    split_ifs
    · exact taskMakeRunnable_woken j _
    · exact .refl _

theorem exitSurvivors_woken (m : Machine) (i : ℕ) : Woken m (m.exitSurvivors i) := by
  have hfold : ∀ (l : List ℕ) (r : Survivors), Woken r.m (l.foldl (Survivors.look i) r).m := by
    intro l
    induction l with
    | nil => exact fun r => .refl _
    | cons si l ih => exact fun r => (Survivors.look_woken i r si).trans (ih _)
  have hsearch := hfold (List.range taskMax) ⟨m, false, false, none⟩
  unfold exitSurvivors
  generalize (List.range taskMax).foldl (Survivors.look i) ⟨m, false, false, none⟩ = r at hsearch ⊢
  have hwake : Woken m r.wake := hsearch.trans r.wake_woken
  dsimp only
  split_ifs
  · exact hwake
  · exact ⟨hwake.task, hwake.nextPid, hwake.current, hwake.kstacks, hwake.trampoline,
      hwake.stackWord⟩

theorem taskMakeRunnable_eq (h : m.Wf) (hj : m.Has j) (hne : j ≠ m.current)
    (hstate : (m.task j).state = .sleeping) : m.taskMakeRunnable j =
      (true, m.setTask j { m.task j with sleepUntil := 0, state := .runnable }) := by
  unfold taskMakeRunnable
  dsimp only
  rw [if_neg, if_neg]
  · exact fun hframe => hframe.2 (h.frames j hj hne)
  · rw [hstate]
    have := hj.1
    rintro (hlt | hused | hz | hf)
    · omega
    · exact hused hj.2
    · cases hz
    · cases hf

theorem wakeParent_woken (parentPid : ℤ) (i : ℕ) (m : Machine) :
    Woken m (m.wakeParent parentPid i) := by
  unfold wakeParent
  cases hp : m.taskOfPid parentPid with
  | none => exact .refl m
  | some j =>
    dsimp only
    split_ifs with hwants hwoken
    · have hw := taskMakeRunnable_woken j m
      refine hw.trans (.setTask ?_)
      unfold taskMakeRunnable at hwoken ⊢
      dsimp only at hwoken ⊢
      split_ifs at hwoken ⊢ with hrefused hframe
      rw [not_or, not_or, not_or, not_not] at hrefused
      rw [setTask_task, update_self]
      exact .woken 0 0 hrefused.2.1 TaskState.noConfusion
    · exact taskMakeRunnable_woken j m
    · exact .refl m

theorem wakeParent_awake (h : m.Wf) (hj : m.Has j) (hne : j ≠ m.current)
    (hwants : wants (m.task j).waitPid (m.task i) = true) :
    ((m.wakeParent (m.task j).pid i).task j).state ≠ .sleeping := by
  unfold wakeParent
  rw [taskOfPid_eq h hj]
  dsimp only
  by_cases hs : (m.task j).state = .sleeping
  · rw [if_pos ⟨hs, hwants⟩, taskMakeRunnable_eq h hj hne hs, if_pos rfl, setTask_task,
      update_self]
    dsimp only
    rw [setTask_task, update_self]
    exact TaskState.noConfusion
  · rw [if_neg fun hc => hs hc.1]
    exact hs

/-- What the exit of task `i` with `code` does to a table. -/
structure Exited (m m' : Machine) (i : ℕ) (code : ℤ) : Prop where
  wf : m'.Wf
  nextPid : m'.nextPid = m.nextPid
  current : m'.current = m.current
  used : ∀ j, (m'.task j).used = (m.task j).used
  pid : ∀ j, (m'.task j).pid = (m.task j).pid
  pgid : ∀ j, (m'.task j).pgid = (m.task j).pgid
  ppid : ∀ j, m.Has j → (m'.task j).ppid =
    if (m.task j).ppid = (m.task i).pid then 1 else (m.task j).ppid
  exitCode : ∀ j, (m'.task j).exitCode = if j = i then code else (m.task j).exitCode
  zombie : ∀ j, (m'.task j).state = .zombie ↔ (m.task j).state = .zombie ∨ j = i
  /-- who sleeps on did not wait for it as its parent -/
  asleep : ∀ j, m.Has j → j ≠ m.current → (m'.task j).state = .sleeping →
    (m.task j).state = .sleeping ∧ (m'.task j).waitPid = (m.task j).waitPid ∧
      ¬((m.task i).ppid = (m.task j).pid ∧ wants (m.task j).waitPid (m.task i) = true)

theorem wants_congr {u : Task} (hpid : u.pid = t.pid) (hpgid : u.pgid = t.pgid) (want : ℤ) :
    wants want u = wants want t := by
  unfold wants
  rw [hpid, hpgid]

theorem Keeps.reparent (pid : ℤ) (m : Machine) : Keeps m (m.reparent pid) := by
  refine ⟨fun i => ?_, fun i hi => ?_, rfl, rfl, rfl, rfl, rfl⟩
  · unfold Machine.reparent
    dsimp only
    split_ifs
    · exact ⟨rfl, rfl, rfl, rfl, rfl, rfl, rfl⟩
    · exact .refl _
  · unfold Machine.reparent at hi
    dsimp only at hi
    split_ifs at hi <;> exact hi

theorem reparent_task (pid : ℤ) (m : Machine) (j : ℕ) : ∃ ppid : ℤ,
    (m.reparent pid).task j = { m.task j with ppid := ppid } ∧
      (m.Has j → ppid = if (m.task j).ppid = pid then 1 else (m.task j).ppid) := by
  unfold Machine.reparent
  dsimp only
  by_cases hc : j < taskMax ∧ (m.task j).used = true ∧ (m.task j).ppid = pid
  · rw [if_pos hc]
    exact ⟨1, rfl, fun _ => (if_pos hc.2.2).symm⟩
  · rw [if_neg hc]
    refine ⟨(m.task j).ppid, rfl, fun hj => ?_⟩
    rw [if_neg fun hp => hc ⟨hj.1, hj.2, hp⟩]

/-- A task is marked as a zombie, and some others are woken. -/
structure Marked (m m' : Machine) (i : ℕ) (code : ℤ) : Prop where
  wf : m'.Wf
  keeps : Keeps m m'
  used : ∀ j, (m'.task j).used = (m.task j).used
  ppid : ∀ j, (m'.task j).ppid = (m.task j).ppid
  pgid : ∀ j, (m'.task j).pgid = (m.task j).pgid
  exitCode : ∀ j, (m'.task j).exitCode = if j = i then code else (m.task j).exitCode
  zombie : ∀ j, (m'.task j).state = .zombie ↔ (m.task j).state = .zombie ∨ j = i
  asleep : ∀ j, (m'.task j).state = .sleeping →
    (m.task j).state = .sleeping ∧ (m'.task j).waitPid = (m.task j).waitPid

theorem Marked.mark (h : m.Wf) (i : ℕ) (code : ℤ) :
    Marked m (m.setTask i { m.task i with state := .zombie, exitCode := code }) i code := by
  have hkeeps : Keeps m (m.setTask i { m.task i with state := .zombie, exitCode := code }) :=
    .setTask ⟨rfl, rfl, rfl, rfl, rfl, rfl, rfl⟩ fun hused => hused
  have hcases : ∀ j, (m.setTask i { m.task i with state := .zombie, exitCode := code }).task j =
      if j = i then { m.task i with state := .zombie, exitCode := code } else m.task j := by
    intro j
    rw [setTask_task]
    by_cases hj : j = i
    · rw [hj, update_self, if_pos rfl]
    · rw [update_of_ne hj, if_neg hj]
  have hused : ∀ j, ((m.setTask i { m.task i with state := .zombie, exitCode := code }).task
      j).used = (m.task j).used := by
    intro j
    rw [hcases]
    by_cases hj : j = i
    · rw [if_pos hj, hj]
    · rw [if_neg hj]
  refine ⟨h.keeps hkeeps ((hused _).trans h.cur.2) fun j hj hrun => ?_, hkeeps, hused, fun j => ?_,
    fun j => ?_, fun j => ?_, fun j => ?_, fun j hs => ?_⟩
  · by_cases hji : j = i
    · rw [hcases, if_pos hji] at hrun
      cases hrun
    · rw [hcases, if_neg hji] at hrun
      exact h.single j (hkeeps.has hj) hrun
  · by_cases hj : j = i
    · rw [hcases, if_pos hj, hj]
    · rw [hcases, if_neg hj]
  · by_cases hj : j = i
    · rw [hcases, if_pos hj, hj]
    · rw [hcases, if_neg hj]
  · by_cases hj : j = i
    · rw [hcases, if_pos hj, if_pos hj]
    · rw [hcases, if_neg hj, if_neg hj]
  · by_cases hj : j = i
    · rw [hcases, if_pos hj]
      exact iff_of_true rfl (.inr hj)
    · rw [hcases, if_neg hj]
      exact ⟨.inl, fun h => h.resolve_right hj⟩
  · by_cases hj : j = i
    · rw [hcases, if_pos hj] at hs
      cases hs
    · rw [hcases, if_neg hj] at hs ⊢
      exact ⟨hs, rfl⟩

theorem Woken.marked {u : Machine} {code : ℤ} (h : Woken m u) (hv : Marked u v i code) :
    Marked m v i code := by
  have hturn := fun j => (h.task j).turned False
  refine ⟨hv.wf, h.keeps.trans hv.keeps, fun j => (hv.used j).trans (hturn j).used,
    fun j => (hv.ppid j).trans (hturn j).ppid, fun j => (hv.pgid j).trans (hturn j).pgid,
    fun j => ?_, fun j => ?_, fun j hs => ?_⟩
  · rw [hv.exitCode, (hturn j).exitCode]
  · rw [hv.zombie, (hturn j).zombie]
  · obtain ⟨hs', hw⟩ := hv.asleep j hs
    rcases (hturn j).asleep hs' with ⟨hs'', hw'⟩ | ⟨hf, -⟩
    · exact ⟨hs'', hw.trans hw'⟩
    · exact hf.elim

theorem Marked.woken {u : Machine} {code : ℤ} (h : Marked m u i code) (hv : Woken u v) :
    Marked m v i code := by
  have hturn := fun j => (hv.task j).turned False
  refine ⟨h.wf.woken hv, h.keeps.trans hv.keeps, fun j => (hturn j).used.trans (h.used j),
    fun j => (hturn j).ppid.trans (h.ppid j), fun j => (hturn j).pgid.trans (h.pgid j),
    fun j => ?_, fun j => ?_, fun j hs => ?_⟩
  · rw [(hturn j).exitCode, h.exitCode]
  · rw [(hturn j).zombie, h.zombie]
  · rcases (hturn j).asleep hs with ⟨hs', hw⟩ | ⟨hf, -⟩
    · obtain ⟨hs'', hw'⟩ := h.asleep j hs'
      exact ⟨hs'', hw.trans hw'⟩
    · exact hf.elim

/-- **What `task_exit` does to a well-formed table.** -/
theorem taskExit_spec (h : m.Wf) (hi : m.Has i) (code : ℤ) :
    Exited m (m.taskExit (m.task i).pid code) i code := by
  have hthread : autoReap (m.task i) = false := by
    unfold autoReap
    cases hring : (m.task i).ring3 with
    | false => rfl
    | true => simp [h.leader i hi hring]
  obtain ⟨u, hu, hsurvivors⟩ : ∃ u, Woken m u ∧
      (if i = m.current then m.exitSurvivors i else m) = u := by
    refine ⟨_, ?_, rfl⟩
    split_ifs
    · exact exitSurvivors_woken m i
    · exact .refl m
  -- the zombie, its parent and its children
  have hz := hu.marked (.mark (h.woken hu) i code)
  generalize hzdef : u.setTask i { u.task i with state := .zombie, exitCode := code } = z at hz
  have hw := hz.woken (wakeParent_woken (m.task i).ppid i z)
  have hexit : m.taskExit (m.task i).pid code =
      (z.wakeParent (m.task i).ppid i).reparent (m.task i).pid := by
    unfold taskExit
    rw [taskOfPid_eq h hi]
    dsimp only
    rw [hthread, hsurvivors, hzdef, if_neg Bool.false_ne_true]
  have hkeeps := Keeps.reparent (m.task i).pid (z.wakeParent (m.task i).ppid i)
  have hend := reparent_task (m.task i).pid (z.wakeParent (m.task i).ppid i)
  have hused : ∀ j, ((m.taskExit (m.task i).pid code).task j).used = (m.task j).used := by
    intro j
    obtain ⟨ppid, he, -⟩ := hend j
    rw [hexit, he]
    exact hw.used j
  have hstate : ∀ j, ((m.taskExit (m.task i).pid code).task j).state =
      ((z.wakeParent (m.task i).ppid i).task j).state := by
    intro j
    obtain ⟨ppid, he, -⟩ := hend j
    rw [hexit, he]
  refine
    { wf := ?_, nextPid := ?_, current := ?_, used := hused, pid := fun j => ?_, pgid := fun j => ?_
      ppid := fun j hj => ?_, exitCode := fun j => ?_, zombie := fun j => ?_
      asleep := fun j hj hcur hs => ?_ }
  · have hcur := (hw.used m.current).trans h.cur.2
    rw [hexit]
    refine hw.wf.keeps hkeeps ?_ fun j hj hrun => ?_
    · unfold Machine.cur
      rw [hkeeps.current, hw.keeps.current, ← hexit, hused]
      exact h.cur.2
    · rw [← hexit, hstate] at hrun
      exact hw.wf.single j (hkeeps.has hj) hrun
  · rw [hexit, hkeeps.nextPid, hw.keeps.nextPid]
  · rw [hexit, hkeeps.current, hw.keeps.current]
  · rw [hexit, (hkeeps.task j).pid, (hw.keeps.task j).pid]
  · obtain ⟨ppid, he, -⟩ := hend j
    rw [hexit, he]
    exact hw.pgid j
  · obtain ⟨ppid, he, hp⟩ := hend j
    rw [hexit, he]
    dsimp only
    rw [hp ⟨hj.1, (hw.used j).trans hj.2⟩, hw.ppid]
  · obtain ⟨ppid, he, -⟩ := hend j
    rw [hexit, he]
    exact hw.exitCode j
  · rw [hstate]
    exact hw.zombie j
  · rw [hstate] at hs
    obtain ⟨hs', hwait⟩ := hw.asleep j hs
    have hwait' : ((m.taskExit (m.task i).pid code).task j).waitPid =
        ((z.wakeParent (m.task i).ppid i).task j).waitPid := by
      obtain ⟨ppid, he, -⟩ := hend j
      rw [hexit, he]
    refine ⟨hs', hwait'.trans hwait, fun hparent => ?_⟩
    -- a parent that wants the task has been woken
    have hpid : (z.task j).pid = (m.task i).ppid := by
      rw [(hz.keeps.task j).pid, hparent.1]
    have hzs : (z.task j).state = .sleeping ∧ (z.task j).waitPid = (m.task j).waitPid := by
      rcases ((wakeParent_woken (m.task i).ppid i z).task j).turned False |>.asleep hs with
        ⟨hs'', -⟩ | ⟨hf, -⟩
      · exact ⟨hs'', (hz.asleep j hs'').2⟩
      · exact hf.elim
    have hwants : wants (z.task j).waitPid (z.task i) = true := by
      rw [hzs.2, wants_congr (hz.keeps.task i).pid (hz.pgid i)]
      exact hparent.2
    have hne : j ≠ z.current := by
      rw [hz.keeps.current]
      exact hcur
    have hawake := wakeParent_awake hz.wf ⟨hj.1, (hz.used j).trans hj.2⟩ hne hwants
    rw [hpid] at hawake
    exact hawake hs

/-! ### What `fork` does -/

/-- A child was made in slot `c`. -/
structure Forked (m m' : Machine) (c : ℕ) : Prop where
  wf : m'.Wf
  fresh : (m.task c).used = false
  has : m'.Has c
  pid : (m'.task c).pid = m.nextPid
  state : (m'.task c).state = .runnable
  others : ∀ j, j ≠ c → m'.task j = m.task j
  nextPid : m'.nextPid = m.nextPid + 1
  current : m'.current = m.current

theorem frameValid_others (h : m.Wf) (hc : c < taskMax) (hi : m.Has i) (hic : i ≠ c)
    (hframe : m.frameValid i = true) (htask : m'.task i = m.task i)
    (htramp : m'.trampoline = m.trampoline)
    (hword : ∀ a, ¬(m.kstack c ≤ a ∧ a < m.kstack c + taskKernelStack) →
      m'.stackWord a = m.stackWord a) : m'.frameValid i = true := by
  have hend := kstack_end h hc
  have haway : ¬(m.kstack c ≤ (m.task i).kernelRspSaved + 56 ∧
      (m.task i).kernelRspSaved + 56 < m.kstack c + taskKernelStack) := by
    intro hin
    have hon := frame_onStack h hi hframe (by omega)
    exact hic (kstack_disjoint (a := (m.task i).kernelRspSaved + 56)
      ⟨by omega, by omega⟩ hin)
  rw [frameValid_iff] at hframe ⊢
  unfold frameRet at hframe ⊢
  rw [htask, htramp, hword _ haway]
  exact hframe

/-- A new task that is ready to be launched joins a well-formed table. -/
theorem Forked.launch (h : m.Wf) (hc : m.freeTask = some c) (htask : m'.task = update m.task c t)
    (hused : t.used = true) (hpid : t.pid = m.nextPid) (htgid : t.tgid = m.nextPid)
    (hstate : t.state = .runnable) (hstack : t.kernelStack = m.kstack c)
    (htop : t.kernelStackTop = m.kstack c + taskKernelStack)
    (hrsp : t.kernelRspSaved = t.kernelStackTop - 72) (hlaunch : t.needsFirstLaunch = true)
    (hret : m'.stackWord (t.kernelStackTop - 16) = m.trampoline)
    (hword : ∀ a, ¬(m.kstack c ≤ a ∧ a < m.kstack c + taskKernelStack) →
      m'.stackWord a = m.stackWord a) (hnext : m'.nextPid = m.nextPid + 1)
    (hcurrent : m'.current = m.current) (hbase : m'.kstacks = m.kstacks)
    (htramp : m'.trampoline = m.trampoline) : Forked m m' c := by
  obtain ⟨hlt, hfree⟩ := firstSlot_eq_some hc
  simp only [Bool.and_eq_true, decide_eq_true_eq, Bool.not_eq_true'] at hfree
  have hself : m'.task c = t := by rw [htask, update_self]
  have hothers : ∀ j, j ≠ c → m'.task j = m.task j := fun j hj => by
    rw [htask, update_of_ne hj]
  have hhas : ∀ j, j ≠ c → m'.Has j → m.Has j := fun j hj hm => ⟨hm.1, hothers j hj ▸ hm.2⟩
  have hcur : m.current ≠ c := by
    intro he
    have := h.cur.2
    rw [he, hfree.2] at this
    cases this
  have hkstack : ∀ j, m'.kstack j = m.kstack j := fun j => congrArg (· + j * taskKernelStack) hbase
  have hpids : ∀ j, j ≠ c → m'.Has j → (m'.task j).pid < m.nextPid := fun j hj hm => by
    rw [hothers j hj]
    exact h.below j (hhas j hj hm)
  have hcurtask : m'.cur = m.cur := by
    unfold Machine.cur
    rw [hcurrent, hothers _ hcur]
  refine
    { fresh := hfree.2, has := ⟨hlt, hself ▸ hused⟩, pid := hself ▸ hpid, state := hself ▸ hstate
      others := hothers, nextPid := hnext, current := hcurrent, wf := ?_ }
  refine
    { cur := ?_, unique := fun i j hi hj hp => ?_, pos := fun i hi => ?_, below := fun i hi => ?_
      leader := fun i hi hring => ?_, single := fun i hi hrun => ?_, launched := ?_
      stack := fun i hi => ?_, frames := fun i hi hne => ?_, kstacks_pos := hbase ▸ h.kstacks_pos
      kstacks_end := hbase ▸ h.kstacks_end }
  · rw [hcurrent]
    exact ⟨h.cur.1, (congrArg Task.used (hothers _ hcur)).trans h.cur.2⟩
  · by_cases hic : i = c <;> by_cases hjc : j = c
    · rw [hic, hjc]
    · have := hpids j hjc hj
      rw [← hp, hic, hself, hpid] at this
      exact absurd this (lt_irrefl _)
    · have := hpids i hic hi
      rw [hp, hjc, hself, hpid] at this
      exact absurd this (lt_irrefl _)
    · rw [hothers i hic, hothers j hjc] at hp
      exact h.unique i j (hhas i hic hi) (hhas j hjc hj) hp
  · by_cases hic : i = c
    · rw [hic, hself, hpid]
      have := h.below _ h.cur
      have := h.pos _ h.cur
      omega
    · rw [hothers i hic]
      exact h.pos i (hhas i hic hi)
  · rw [hnext]
    by_cases hic : i = c
    · rw [hic, hself, hpid]
      omega
    · have := hpids i hic hi
      omega
  · by_cases hic : i = c
    · rw [hic, hself, htgid, hpid]
    · rw [hothers i hic] at hring ⊢
      exact h.leader i (hhas i hic hi) hring
  · by_cases hic : i = c
    · rw [hic, hself, hstate] at hrun
      cases hrun
    · rw [hothers i hic] at hrun
      rw [hcurrent]
      exact h.single i (hhas i hic hi) hrun
  · rw [hcurtask]
    exact h.launched
  · rw [hkstack]
    by_cases hic : i = c
    · rw [hic, hself]
      exact ⟨hstack, htop⟩
    · rw [hothers i hic]
      exact h.stack i (hhas i hic hi)
  · by_cases hic : i = c
    · -- the child is launched from the top of its own stack
      have hend := kstack_end h hlt
      have hpos := h.kstacks_pos
      rw [hic, frameValid_iff, frameRet, hself, hrsp, hlaunch, if_pos rfl, htramp]
      have haddr : t.kernelStackTop - 72 + 56 = t.kernelStackTop - 16 := by
        rw [htop, taskKernelStack]
        omega
      refine ⟨hused, ?_, ?_, ?_, ?_⟩
      · rw [hstack, kstack]
        omega
      · rw [hstack, htop, taskKernelStack]
        omega
      · rw [htop, u64, taskKernelStack]
        rw [taskKernelStack] at hend
        rw [Nat.mod_eq_of_lt] <;> omega
      · rw [haddr]
        exact hret
    · have hi' := hhas i hic hi
      rw [hcurrent] at hne
      exact frameValid_others h hlt hi' hic (h.frames i hi' hne) (hothers i hic) htramp hword

/-- **What `fork` does to a well-formed table.** -/
theorem realSysFork_spec (h : m.Wf) (frame : Option Ctx) :
    (∃ r, m.realSysFork frame = (r, m)) ∨
      ∃ m' c, m.realSysFork frame = (m.nextPid, m') ∧ Forked m m' c := by
  have hcur : m.taskOfPid m.cur.pid = some m.current := taskOfPid_eq h h.cur
  unfold realSysFork
  cases hc : m.freeTask with
  | none =>
    have hfull : m.taskFork m.cur.pid = (-eagain, m) := by
      unfold taskFork
      rw [hcur, hc]
    rw [hfull]
    exact .inl ⟨-eagain, if_neg (show ¬(0 : ℤ) < -eagain by decide)⟩
  | some c =>
    right
    obtain ⟨hlt, hfree⟩ := firstSlot_eq_some hc
    simp only [Bool.and_eq_true, decide_eq_true_eq, Bool.not_eq_true'] at hfree
    obtain ⟨u, hu, htask, hword, hrest⟩ : ∃ u, m.taskFork m.cur.pid = (m.nextPid, u) ∧
        u.task = update m.task c (m.childTask m.cur c (forkSpace m.cur m.mm).1) ∧
        (∀ a, ¬(m.kstack c ≤ a ∧ a < m.kstack c + taskKernelStack) →
          u.stackWord a = m.stackWord a) ∧
        u.nextPid = m.nextPid + 1 ∧ u.current = m.current ∧ u.kstacks = m.kstacks ∧
        u.trampoline = m.trampoline := by
      unfold taskFork
      rw [hcur, hc]
      exact ⟨_, rfl, rfl, fun a ha => if_neg ha, rfl, rfl, rfl, rfl⟩
    have hpos : 0 < m.nextPid := by
      have := h.below _ h.cur
      have := h.pos _ h.cur
      omega
    have hchild : u.taskOfPid m.nextPid = some c := by
      have hslot : (u.task c).used = true ∧ (u.task c).pid = m.nextPid := by
        rw [htask, update_self]
        exact ⟨h.cur.2, rfl⟩
      cases hf : u.taskOfPid m.nextPid with
      | none =>
        have := firstSlot_eq_none hf c hlt
        simp [hslot] at this
      | some j =>
        obtain ⟨hj, hp⟩ := firstSlot_eq_some hf
        simp only [Bool.and_eq_true, decide_eq_true_eq] at hp
        by_cases hjc : j = c
        · rw [hjc]
        · rw [htask, update_of_ne hjc] at hp
          have := h.below j ⟨hj, hp.1⟩
          omega
    rw [hu]
    dsimp only
    rw [if_pos hpos, hchild]
    refine ⟨_, c, rfl, ?_⟩
    obtain ⟨hnext, hcurrent, hbase, htramp⟩ := hrest
    have hself : u.task c = m.childTask m.cur c (forkSpace m.cur m.mm).1 := by
      rw [htask, update_self]
    generalize hchild' : m.childTask m.cur c (forkSpace m.cur m.mm).1 = child at htask hself
    have htop : child.kernelStackTop = m.kstack c + taskKernelStack := hchild' ▸ rfl
    unfold clone3SetupKstack
    simp only [setTask_task, update_self, update_idem, hself, htask]
    refine Forked.launch (t := { child with
      ctx := childCtx frame m.cur, kernelRspSaved := child.kernelStackTop - 72
      needsFirstLaunch := true }) h hc rfl ?_ ?_ ?_ ?_ ?_ htop rfl rfl ?_ (fun a ha => ?_) hnext
      hcurrent hbase htramp
    · exact hchild' ▸ h.cur.2
    · exact hchild' ▸ rfl
    · exact hchild' ▸ rfl
    · exact hchild' ▸ rfl
    · exact hchild' ▸ rfl
    · exact (update_self ..).trans htramp
    · -- only the stack of the child has changed
      refine (update_of_ne ?_ _ _).trans (hword a ha)
      rintro rfl
      refine ha ⟨?_, ?_⟩ <;> rw [htop, taskKernelStack] <;> omega

/-! ### What a turn of `waitpid` does -/

theorem waitsFor_child {u : Task} (h : waitsFor t pid u = true) : u.ppid = t.pid := by
  unfold waitsFor at h
  rw [Bool.and_eq_true] at h
  exact of_decide_eq_true h.1

theorem wants_of_waitsFor {u : Task} (h : waitsFor t pid u = true) : wants pid u = true := by
  unfold waitsFor at h
  rw [Bool.and_eq_true] at h
  have h := h.2
  unfold wants
  rw [decide_eq_true_iff]
  split_ifs at h with hpos hany hgroup
  · exact .inr (.inr (.inl (of_decide_eq_true h).symm))
  · exact .inl hany
  · exact .inr (.inl hgroup)
  · exact .inr (.inr (.inr ⟨by omega, of_decide_eq_true h⟩))

theorem waitsFor_congr {t' u u' : Task} (ht : t'.pid = t.pid) (htg : t'.pgid = t.pgid)
    (hu : u'.pid = u.pid) (hug : u'.pgid = u.pgid) (hup : u'.ppid = u.ppid) :
    waitsFor t' pid u' = waitsFor t pid u := by
  unfold waitsFor
  rw [ht, htg, hu, hug, hup]

/-- A used zombie. -/
def Dead (m : Machine) (i : ℕ) : Prop := m.Has i ∧ (m.task i).state = .zombie

theorem exitedChild_eq_some (h : m.exitedChild pid = some i) :
    m.Dead i ∧ waitsFor m.cur pid (m.task i) = true := by
  obtain ⟨hlt, hp⟩ := firstSlot_eq_some h
  simp only [Bool.and_eq_true, decide_eq_true_eq] at hp
  exact ⟨⟨⟨hlt, hp.1.1⟩, hp.2⟩, hp.1.2⟩

theorem exitedChild_eq_none (h : m.exitedChild pid = none) (hi : m.Dead i) :
    waitsFor m.cur pid (m.task i) = false := by
  have := firstSlot_eq_none h i hi.1.1
  simpa [hi.1.2, hi.2] using this

/-- **What a turn does.** -/
theorem waitTurn_spec (m : Machine) (pid : ℤ) (nohang : Bool) :
    (∃ i, m.exitedChild pid = some i ∧ m.waitTurn pid nohang =
      (.reported (m.task i).pid (statusWord (m.task i).exitCode),
        (m.setTask i { m.task i with used := false }).setWaitPid 0)) ∨
    m.exitedChild pid = none ∧
      ((∃ w, (∀ p st, w ≠ .reported p st) ∧ w ≠ .blocked ∧
        m.waitTurn pid nohang = (w, m.setWaitPid 0)) ∨
      m.waitTurn pid nohang =
        (.blocked, m.setTask m.current { m.cur with waitPid := pid, state := .sleeping })) := by
  unfold waitTurn
  cases hf : m.exitedChild pid with
  | some i => exact .inl ⟨i, rfl, rfl⟩
  | none =>
    refine .inr ⟨rfl, ?_⟩
    dsimp only
    by_cases hmatch : m.haveMatch pid = true
    · rw [if_neg (not_not.2 hmatch)]
      cases nohang with
      | true =>
        rw [if_pos rfl]
        exact .inl ⟨.nothing, fun _ _ => Waited.noConfusion, Waited.noConfusion, rfl⟩
      | false =>
        rw [if_neg Bool.false_ne_true]
        exact .inr rfl
    · rw [if_pos hmatch]
      exact .inl ⟨.noChild, fun _ _ => Waited.noConfusion, Waited.noConfusion, rfl⟩

theorem waitTurn_reports (h : m.Wf) (hi : m.Dead i) (hchild : (m.task i).ppid = m.cur.pid)
    (nohang : Bool) : (m.waitTurn (m.task i).pid nohang).1 =
      .reported (m.task i).pid (statusWord (m.task i).exitCode) := by
  have hpos := h.pos i hi.1
  have hwaits : waitsFor m.cur (m.task i).pid (m.task i) = true := by
    unfold waitsFor
    rw [if_pos hpos, decide_eq_true hchild, decide_eq_true rfl]
    rfl
  rcases waitTurn_spec m (m.task i).pid nohang with ⟨j, hj, he⟩ | ⟨hnone, -⟩
  · obtain ⟨hdead, hw⟩ := exitedChild_eq_some hj
    unfold waitsFor at hw
    rw [if_pos hpos, Bool.and_eq_true] at hw
    obtain rfl := h.unique j i hdead.1 hi.1 (of_decide_eq_true hw.2)
    rw [he]
  · exact absurd (exitedChild_eq_none hnone hi) (by rw [hwaits]; exact Bool.noConfusion)

theorem Wf.remark (h : m.Wf) (ht : SameTask (m.task i) t)
    (hused : t.used = true → (m.task i).used = true) (hcur : i = m.current → t.used = true)
    (hrun : t.state = .running → (m.task i).state = .running ∨ i = m.current) :
    (m.setTask i t).Wf := by
  have hkeeps : Keeps m (m.setTask i t) := .setTask ht hused
  refine h.keeps hkeeps ?_ fun j hj hstate => ?_
  · show ((m.setTask i t).task m.current).used = true
    by_cases hi : m.current = i
    · rw [hi, setTask_task, update_self]
      exact hcur hi.symm
    · rw [setTask_task, update_of_ne hi]
      exact h.cur.2
  · have hj' := hkeeps.has hj
    by_cases hji : j = i
    · rw [hji, setTask_task, update_self] at hstate
      rcases hrun hstate with hs | hs
      · exact h.single j hj' (hji ▸ hs)
      · exact hji.trans hs
    · rw [setTask_task, update_of_ne hji] at hstate
      exact h.single j hj' hstate

end Machine

end Ridux.Proc
