import Ridux.Fd.Coherent

/-!
# Descriptor tables over whole runs

* `realSysFork_eq`, `cloneThreadTask_eq`, `cloneProcess_eq`: the task that a call makes;
* `taskExit_tasks`: what is left of a task;
* `World`, `World.exec`: the kernel with the table of each task;
* `Change`, `World.change`: what one operation does to tasks and tables;
* `fdTables_coherent`: coherence in every run whose steps satisfy `World.Meets`.
-/

namespace Ridux

open Lib Tasks Function

/-! ### The tasks that calls make -/

namespace Tasks

variable {ts : Tasks} {table : ℕ → ℕ} {cur i j T : ℕ} {t : Task} {sharedOk : Bool}

theorem freeTask_eq_some (h : ts.freeTask = some i) :
    i < taskMax ∧ (ts.task i).used = false := by
  obtain ⟨hlt, hp⟩ := firstSlot_eq_some h
  simp only [Bool.and_eq_true, Bool.not_eq_true'] at hp
  exact ⟨hlt, hp.2⟩

theorem addTask_self (t : Task) : (ts.addTask i t).task i = t := update_self _ _ _

theorem addTask_other (t : Task) (h : j ≠ i) : (ts.addTask i t).task j = ts.task j :=
  update_of_ne h _ _

theorem setTask_addTask (t u : Task) : (ts.addTask i t).setTask i u = ts.addTask i u := by
  refine ext_task rfl fun j => ?_
  show update (update ts.task i t) i u j = update ts.task i u j
  rw [update_idem]

theorem taskIndexByPid_self (h : Coherent ts table) (hu : (ts.task cur).used = true) :
    ts.taskIndexByPid (ts.task cur).pid = some cur := by
  cases hf : ts.taskIndexByPid (ts.task cur).pid with
  | some j =>
    obtain ⟨-, hp⟩ := firstSlot_eq_some hf
    simp only [Bool.and_eq_true, decide_eq_true_eq] at hp
    rw [h.pid_inj j cur hp.1 hu hp.2]
  | none =>
    have := firstSlot_eq_none hf cur (h.small cur hu)
    simp [hu] at this

theorem taskIndexByPid_new (h : Coherent ts table) (hi : ts.freeTask = some i) (hu : t.used = true)
    (hpid : t.pid = ts.nextPid) : (ts.addTask i t).taskIndexByPid ts.nextPid = some i := by
  cases hf : (ts.addTask i t).taskIndexByPid ts.nextPid with
  | some j =>
    obtain ⟨-, hp⟩ := firstSlot_eq_some hf
    simp only [Bool.and_eq_true, decide_eq_true_eq] at hp
    by_cases hj : j = i
    · rw [hj]
    · rw [addTask_other t hj] at hp
      have := h.pid j hp.1
      omega
  | none =>
    have := firstSlot_eq_none hf i (freeTask_eq_some hi).1
    rw [addTask_self, hu, hpid] at this
    simp at this

theorem taskCreate_eq (hi : ts.freeTask = some i) (isUser : Bool) :
    ts.taskCreate cur isUser = (some ts.nextPid,
      ts.addTask i (ts.freshTask .runnable isUser (ts.task cur).fds)) := by
  rw [taskCreate, hi]

theorem realSysFork_eq (h : Coherent ts table) (hc : (ts.task cur).live = true)
    (hi : ts.freeTask = some i) :
    ts.realSysFork cur = (some ts.nextPid,
      ts.addTask i (ts.freshTask .runnable (ts.task cur).user (ts.task cur).fds)) := by
  rw [realSysFork, taskFork, taskIndexByPid_self h (used_of_live hc), hi]

/-- The group of a new task. -/
def childGroup (ts : Tasks) (cur : ℕ) (flags : BitVec 64) : ℕ :=
  if hasFlag flags cloneFiles then (ts.task cur).fdtGroup else ts.nextPid

theorem joinGroup_addTask (h : Coherent ts table) (hc : (ts.task cur).live = true)
    (hi : ts.freeTask = some i) (hpid : t.pid = ts.nextPid) (flags : BitVec 64) :
    (ts.addTask i t).joinGroup cur i flags =
      ts.addTask i { t with fdtGroup := ts.childGroup cur flags } := by
  have hci : cur ≠ i := by
    rintro rfl
    have := (freeTask_eq_some hi).2
    rw [used_of_live hc] at this
    cases this
  have hgroup := h.fdtGroup cur (used_of_live hc)
  have hfound : (ts.addTask i t).foundGroup cur = ts.addTask i t := by
    rw [foundGroup, addTask_other t hci, if_neg (by omega)]
  rw [joinGroup, childGroup]
  split_ifs
  · rw [hfound, setGroup, addTask_self, addTask_other t hci, setTask_addTask]
  · rw [setGroup, addTask_self, setTask_addTask]
    exact congrArg (fun g => ts.addTask i { t with fdtGroup := g }) hpid

/-- The thread group of a new thread. -/
def childTgid (ts : Tasks) (cur : ℕ) (flags : BitVec 64) : ℕ :=
  if hasFlag flags cloneVm then (ts.task cur).tgid else ts.nextPid

theorem joinThreads_addTask (h : Coherent ts table) (hc : (ts.task cur).live = true)
    (hi : ts.freeTask = some i) (htgid : t.tgid = ts.nextPid) {flags : BitVec 64}
    (hthread : hasFlag flags cloneThread = true) :
    (ts.addTask i t).joinThreads cur i flags =
      ts.addTask i { t with tgid := ts.childTgid cur flags } := by
  have hci : cur ≠ i := by
    rintro rfl
    have := (freeTask_eq_some hi).2
    rw [used_of_live hc] at this
    cases this
  rw [joinThreads, childTgid, hthread]
  split_ifs with hvm hno
  · simp at hno
  · rw [setTgid, addTask_self, addTask_other t hci, setTask_addTask,
      h.threadGroup (used_of_live hc)]
  · rw [← htgid]

/-- The thread that `clone` makes. -/
def clonedThread (ts : Tasks) (cur : ℕ) (flags : BitVec 64) : Task :=
  { ts.freshTask .runnable true (ts.task cur).fds with
    tgid := ts.childTgid cur flags, fdtGroup := ts.childGroup cur flags }

theorem cloneThreadTask_eq (h : Coherent ts table) (hc : (ts.task cur).live = true)
    (hi : ts.freeTask = some i) {flags : BitVec 64} (hthread : hasFlag flags cloneThread = true)
    (hok : hasFlag flags cloneVm = true → sharedOk = true) :
    ts.cloneThreadTask cur flags sharedOk =
      (some ts.nextPid, ts.addTask i (ts.clonedThread cur flags)) := by
  have hcreate : ts.createThread cur flags sharedOk = (some ts.nextPid,
      ts.addTask i (ts.freshTask .runnable true (ts.task cur).fds)) := by
    rw [createThread]
    split_ifs with hvm
    · rw [taskCreateUserThread, if_pos (hok hvm), taskCreate_eq hi]
    · rw [taskCreate_eq hi]
  rw [cloneThreadTask, hcreate]
  dsimp only
  rw [taskIndexByPid_new h hi (t := ts.freshTask .runnable true (ts.task cur).fds) rfl rfl]
  dsimp only
  rw [joinThreads_addTask h hc hi rfl hthread]
  rw [joinGroup_addTask h hc hi
    (t := { ts.freshTask .runnable true (ts.task cur).fds with tgid := ts.childTgid cur flags }) rfl]
  rfl

theorem cloneThreadTask_none {flags : BitVec 64}
    (h : ts.freeTask = none ∨ hasFlag flags cloneVm = true ∧ sharedOk = false) :
    ts.cloneThreadTask cur flags sharedOk = (none, ts) := by
  have hcreate : ts.createThread cur flags sharedOk = (none, ts) := by
    rcases h with h | ⟨hvm, hok⟩
    · rw [createThread, taskCreateUserThread]
      simp [taskCreate, h]
    · rw [createThread, if_pos hvm, taskCreateUserThread, hok]
      rfl
  rw [cloneThreadTask, hcreate]

/-- The process that `clone` makes. -/
def clonedProcess (ts : Tasks) (cur : ℕ) (flags : BitVec 64) : Task :=
  { ts.freshTask .runnable (ts.task cur).user (ts.task cur).fds with
    fdtGroup := ts.childGroup cur flags }

theorem cloneProcess_eq (h : Coherent ts table) (hc : (ts.task cur).live = true)
    (hi : ts.freeTask = some i) (flags : BitVec 64) :
    ts.cloneProcess cur flags =
      (some ts.nextPid, ts.addTask i (ts.clonedProcess cur flags)) := by
  rw [cloneProcess, realSysFork_eq h hc hi]
  dsimp only
  rw [taskIndexByPid_new h hi
    (t := ts.freshTask .runnable (ts.task cur).user (ts.task cur).fds) rfl rfl]
  dsimp only
  rw [setTgid, addTask_self, setTask_addTask]
  exact congrArg (Prod.mk _) (joinGroup_addTask h hc hi
    (t := ts.freshTask .runnable (ts.task cur).user (ts.task cur).fds) rfl flags)

theorem realSysFork_none (h : Coherent ts table) (hc : (ts.task cur).live = true)
    (hi : ts.freeTask = none) : ts.realSysFork cur = (none, ts) := by
  rw [realSysFork, taskFork, taskIndexByPid_self h (used_of_live hc), hi]

theorem cloneProcess_none (h : Coherent ts table) (hc : (ts.task cur).live = true)
    (hi : ts.freeTask = none) (flags : BitVec 64) : ts.cloneProcess cur flags = (none, ts) := by
  rw [cloneProcess, realSysFork_none h hc hi]

/-! ### They may enter the table -/

theorem newTask_process (h : Coherent ts table) (hc : (ts.task cur).live = true) (user : Bool)
    (flags : BitVec 64) (hT : T = if hasFlag flags cloneFiles then table cur else ts.nextPid) :
    NewTask ts table T { ts.freshTask .runnable user (ts.task cur).fds with
      fdtGroup := ts.childGroup cur flags } := by
  have hpid := h.pid cur (used_of_live hc)
  have hgroup := h.fdtGroup cur (used_of_live hc)
  refine ⟨rfl, ⟨by show 0 < ts.nextPid; omega, le_refl _⟩, ?_, fun _ => ?_, fun _ j hj ht => ?_,
    fun _ j hj ht => ?_, fun hl => ?_⟩
  · show 0 < ts.childGroup cur flags ∧ ts.childGroup cur flags ≤ ts.nextPid
    rw [childGroup]
    split_ifs <;> omega
  · show ts.childGroup cur flags = T
    rw [childGroup, hT, h.group cur hc]
  · have := h.tgid j (used_of_live hj)
    have htg : ts.nextPid = (ts.task j).tgid := ht
    omega
  · show (ts.task cur).fds = (ts.task j).fds
    rw [hT] at ht
    split_ifs at ht
    · exact h.agree cur j hc hj ht.symm
    · have h1 := h.fdtGroup j (used_of_live hj)
      rw [h.group j hj] at h1
      omega
  · cases hl

theorem newTask_thread (h : Coherent ts table) (hc : (ts.task cur).live = true) {flags : BitVec 64}
    (hfiles : hasFlag flags cloneVm = true → hasFlag flags cloneFiles = true)
    (hT : T = if hasFlag flags cloneFiles then table cur else ts.nextPid) :
    NewTask ts table T (ts.clonedThread cur flags) := by
  by_cases hvm : hasFlag flags cloneVm = true
  · have hf := hfiles hvm
    rw [if_pos hf] at hT
    have hpid := h.pid cur (used_of_live hc)
    have hgroup := h.fdtGroup cur (used_of_live hc)
    have htgid := h.tgid cur (used_of_live hc)
    have htg : ts.childTgid cur flags = (ts.task cur).tgid := by rw [childTgid, if_pos hvm]
    have hg : ts.childGroup cur flags = (ts.task cur).fdtGroup := by rw [childGroup, if_pos hf]
    refine ⟨rfl, ?_, ?_, fun _ => ?_, fun _ j hj ht => ?_, fun _ j hj ht => ?_, fun hl => ?_⟩
    · show 0 < ts.childTgid cur flags ∧ ts.childTgid cur flags ≤ ts.nextPid
      omega
    · show 0 < ts.childGroup cur flags ∧ ts.childGroup cur flags ≤ ts.nextPid
      omega
    · show ts.childGroup cur flags = T
      rw [hg, hT, h.group cur hc]
    · rw [hT]
      exact h.thread cur j hc hj (htg.symm.trans ht)
    · exact h.agree cur j hc hj (hT.symm.trans ht.symm)
    · cases hl
  · have htg : ts.childTgid cur flags = ts.nextPid := by rw [childTgid, if_neg hvm]
    have := newTask_process h hc true flags hT
    rw [clonedThread, htg]
    exact this

theorem newTask_zombie (h : Coherent ts table) (hc : (ts.task cur).live = true) (T : ℕ) :
    NewTask ts table T (ts.freshTask .zombie false fun _ => .empty) := by
  have hpid := h.pid cur (used_of_live hc)
  have hnext : 0 < ts.nextPid ∧ ts.nextPid ≤ ts.nextPid := ⟨by omega, le_refl _⟩
  refine ⟨rfl, hnext, hnext, fun hl => ?_, fun hl => ?_, fun hl => ?_, fun _ _ _ => rfl⟩
  · cases hl
  · cases hl
  · cases hl

theorem setTask_self (t : Task) : (ts.setTask i t).task i = t := update_self _ _ _

theorem setTask_other (t : Task) (h : j ≠ i) : (ts.setTask i t).task j = ts.task j :=
  update_of_ne h _ _

@[simp] theorem setTask_setTask (t u : Task) : (ts.setTask i t).setTask i u = ts.setTask i u := by
  refine ext_task rfl fun j => ?_
  show update (update ts.task i t) i u j = update ts.task i u j
  rw [update_idem]

theorem setTable_alone {g : ℕ → Fd} (halone : ts.c3FdGroupHasLivePeer i = false) :
    ts.setTable i g = ts.setTask i ((ts.task i).withFds g) := by
  have hnone : firstSlot (ts.groupPeer i) taskMax = none := by
    simpa [c3FdGroupHasLivePeer] using halone
  refine ext_task rfl fun j => ?_
  by_cases hj : j = i
  · rw [hj, Tasks.setTable, put_self, setTask_self]
  · rw [setTask_other _ hj, Tasks.setTable, put_other hj]
    rintro ⟨hlt, hp⟩
    rw [firstSlot_eq_none hnone j hlt] at hp
    cases hp

end Tasks

/-! ### The end of a task -/

section

variable {s : Sys} {table : ℕ → ℕ} {i : ℕ}

theorem grouped_zombie (h : Coherent s.tasks table) (hl : (s.tasks.task i).live = true)
    (halone : (s.setState i .zombie true).tasks.c3FdGroupHasLivePeer i = false) :
    Grouped (s.setState i .zombie true).tasks i (s.tasks.task i).fds where
  lt := h.small i (used_of_live hl)
  used := by rw [Sys.setState, setTask_self]
  own := by rw [Sys.setState, setTask_self]
  peers := by
    intro j hj hp
    have hnone : firstSlot ((s.setState i .zombie true).tasks.groupPeer i) taskMax = none := by
      simpa [c3FdGroupHasLivePeer] using halone
    rw [firstSlot_eq_none hnone j hj] at hp
    cases hp
  dead := by
    intro j hj hu hd
    rw [Sys.setState, setTask_other _ hj] at hu hd ⊢
    exact h.dead j hu hd

theorem closeAllFds_tasks (h : Coherent s.tasks table) (hl : (s.tasks.task i).live = true) :
    ∃ g : ℕ → Fd, (∀ fd < taskFdMax, (g fd).kind = .none) ∧
      ((s.setState i .zombie true).compat3TaskCloseAllFds i).tasks = s.tasks.setTask i
        { s.tasks.task i with state := .zombie, used := true, fds := g } := by
  rw [Sys.compat3TaskCloseAllFds]
  by_cases hpeer : (s.setState i .zombie true).tasks.c3FdGroupHasLivePeer i = true
  · rw [if_pos hpeer]
    refine ⟨fun fd => if fd < taskFdMax then .empty else (s.tasks.task i).fds fd, ?_, ?_⟩
    · intro fd hfd
      dsimp only
      rw [if_pos hfd]
      rfl
    · rw [Sys.dropOwnFds, Sys.setState, setTask_self, setTask_setTask]
  · rw [if_neg hpeer]
    have halone := Bool.not_eq_true _ ▸ hpeer
    have hg := grouped_zombie h hl halone
    obtain ⟨g, ht, -, hnone⟩ := closeAll_tasks (List.range' 0 taskFdMax)
      (fun fd hfd => mem_slots.1 hfd) hg
    refine ⟨g, fun fd hfd => hnone fd (mem_slots.2 hfd), ?_⟩
    rw [ht, setTable_alone halone, Sys.setState, setTask_self, setTask_setTask]
    rfl

theorem taskExit_tasks (h : Coherent s.tasks table) (hl : (s.tasks.task i).live = true) :
    ∃ t, (s.taskExit i).tasks = s.tasks.setTask i t ∧ Ended (s.tasks.task i) t := by
  obtain ⟨g, hnone, ht⟩ := closeAllFds_tasks h hl
  have hu := used_of_live hl
  rw [Sys.taskExit]
  split_ifs
  · refine ⟨{ s.tasks.task i with state := .free, used := false, fds := g }, ?_, ?_⟩
    · rw [Sys.setState, ht, setTask_self, setTask_setTask]
    · exact ⟨rfl, fun _ => hu, rfl, rfl, rfl, fun _ => hnone⟩
  · exact ⟨_, ht, rfl, fun _ => hu, rfl, rfl, rfl, fun _ => hnone⟩

theorem reap_tasks (hz : (s.tasks.task i).used = true) :
    ∃ t, (s.reap i).tasks = s.tasks.setTask i t ∧ Ended (s.tasks.task i) t := by
  refine ⟨_, rfl, rfl, fun _ => hz, rfl, rfl, rfl, fun hu => ?_⟩
  cases hu

end

/-! ### Runs -/

/-- The kernel with the descriptor table of each task. -/
structure World where
  sys : Sys
  table : ℕ → ℕ

namespace World

/-- The table of the task that an operation makes. -/
def childTable (w : World) : Sys.Op → Option ℕ
  | .call _ .fork => some w.sys.tasks.nextPid
  | .call cur (.clone flags _ _) =>
    some (if hasFlag flags cloneFiles then w.table cur else w.sys.tasks.nextPid)
  | _ => none

def exec (w : World) (op : Sys.Op) : World where
  sys := w.sys.exec op
  table :=
    match w.childTable op, w.sys.tasks.freeTask with
    | some T, some i => update w.table i T
    | _, _ => w.table

/-- After `task_init`: the kernel task has the first table. -/
def init : World := ⟨.init, fun _ => 1⟩

def enabled (w : World) (op : Sys.Op) : Prop := w.sys.enabled op

instance (w : World) (op : Sys.Op) : Decidable (w.enabled op) :=
  inferInstanceAs (Decidable (w.sys.enabled op))

def live (w : World) (i : ℕ) : Prop := (w.sys.tasks.task i).live = true

instance (w : World) (i : ℕ) : Decidable (w.live i) :=
  inferInstanceAs (Decidable (_ = true))

/-- Can the task use the descriptor, with an entry of its own or of a peer? -/
def usable (w : World) (i fd : ℕ) : Bool := w.sys.tasks.c3FdGroupSlotUsed i fd

/-- The task whose call or exit an operation is. -/
def actor : Sys.Op → Option ℕ
  | .call cur _ => some cur
  | .exit i => some i
  | _ => none

/-- The operation hands out the descriptor `fd` in the table `T`. -/
def Reopens (T fd : ℕ) (w : World) (op : Sys.Op) : Prop :=
  ∃ cur c, op = .call cur c ∧ w.table cur = T ∧ fd ∈ handed (w.sys.call cur c).1

/-- A thread of the caller's thread group that is made shares the caller's descriptors. -/
def SharesFiles (w : World) (flags : BitVec 64) (sharedOk : Bool) : Prop :=
  hasFlag flags cloneThread = true → hasFlag flags cloneVm = true → sharedOk = true →
    w.sys.tasks.freeTask.isSome = true → hasFlag flags cloneFiles = true

/-- The condition on one operation. -/
def Meets (w : World) (op : Sys.Op) : Prop :=
  w.enabled op ∧
    match op with
    | .call _ (.clone flags _ sharedOk) => w.SharesFiles flags sharedOk
    | .call cur c => CallRoom w.sys cur c
    | _ => True

end World

/-- What a call of `cur` that makes tasks does: a new task enters with the descriptors of `cur`, or
nothing changes. -/
inductive Birth (w : World) (cur : ℕ) (w' : World) : Prop
  | child (i T : ℕ) (t : Task) (hfree : w.sys.tasks.freeTask = some i)
      (htasks : w'.sys.tasks = w.sys.tasks.addTask i t)
      (htable : w'.table = update w.table i T)
      (hnew : NewTask w.sys.tasks w.table T t)
      (hfds : t.live = true → t.fds = (w.sys.tasks.task cur).fds ∧
        (T = w.table cur ∨ T = w.sys.tasks.nextPid))
  | same (htasks : w'.sys.tasks = w.sys.tasks)
      (htable : ∀ i, (w.sys.tasks.task i).used = true → w'.table i = w.table i)

/-- What one operation does to the tasks and the tables: a call rewrites its caller's table, a new
task enters, a task ends, or nothing changes. -/
inductive Change (w : World) (op : Sys.Op) (w' : World) : Prop
  | table (cur : ℕ) (c : Sys.Syscall) (g : ℕ → Fd) (hop : op = .call cur c) (hcur : w.live cur)
      (htasks : w'.sys.tasks = w.sys.tasks.setTable cur g) (htable : w'.table = w.table)
      (hnew : ∀ fd < taskFdMax, (g fd).kind ≠ .none →
        (w.sys.entry cur fd).kind ≠ .none ∨ fd ∈ handed (w.sys.call cur c).1)
  | birth (cur : ℕ) (hcur : w.live cur) (hbirth : Birth w cur w')
  | ended (i : ℕ) (t : Task) (htasks : w'.sys.tasks = w.sys.tasks.setTask i t)
      (htable : w'.table = w.table) (hended : Ended (w.sys.tasks.task i) t)
      (hwho : w.live i → World.actor op = some i)
  | same (htasks : w'.sys.tasks = w.sys.tasks)
      (htable : ∀ i, (w.sys.tasks.task i).used = true → w'.table i = w.table i)

namespace World

variable {w : World} {op : Sys.Op} {i : ℕ}

theorem exec_table_of_none (h : w.childTable op = none) : (w.exec op).table = w.table := by
  simp only [exec, h]

theorem exec_table_of_full (h : w.sys.tasks.freeTask = none) : (w.exec op).table = w.table := by
  simp only [exec, h]
  split <;> simp_all

theorem exec_table_of_some {T : ℕ} (hT : w.childTable op = some T)
    (hi : w.sys.tasks.freeTask = some i) : (w.exec op).table = update w.table i T := by
  simp only [exec, hT, hi]

theorem exec_table_used (hu : (w.sys.tasks.task i).used = true) :
    (w.exec op).table i = w.table i := by
  cases hT : w.childTable op with
  | none => rw [exec_table_of_none hT]
  | some T =>
    cases hi : w.sys.tasks.freeTask with
    | none => rw [exec_table_of_full hi]
    | some j =>
      rw [exec_table_of_some hT hi]
      refine update_of_ne ?_ _ _
      rintro rfl
      rw [(freeTask_eq_some hi).2] at hu
      cases hu

/-- The descriptor table of the task that `clone` makes. -/
def clonedTable (w : World) (cur : ℕ) (flags : BitVec 64) : ℕ :=
  if hasFlag flags cloneFiles then w.table cur else w.sys.tasks.nextPid

theorem clonedTable_cases (cur : ℕ) (flags : BitVec 64) :
    w.clonedTable cur flags = w.table cur ∨ w.clonedTable cur flags = w.sys.tasks.nextPid := by
  rw [clonedTable]
  split_ifs
  · exact .inl rfl
  · exact .inr rfl

theorem birth_fork {cur : ℕ} (h : Coherent w.sys.tasks w.table) (hcur : w.live cur) :
    Birth w cur (w.exec (.call cur .fork)) := by
  have htasks : (w.exec (.call cur .fork)).sys.tasks =
      (w.sys.taskOutcome (w.sys.tasks.realSysFork cur)).2.tasks := rfl
  cases hi : w.sys.tasks.freeTask with
  | none =>
    rw [realSysFork_none h hcur hi] at htasks
    exact .same htasks fun i hu => exec_table_used hu
  | some i =>
    rw [realSysFork_eq h hcur hi] at htasks
    have hnew := newTask_process h hcur (w.sys.tasks.task cur).user 0
      (T := w.sys.tasks.nextPid) (by simp [hasFlag])
    have hgroup : w.sys.tasks.childGroup cur 0 = w.sys.tasks.nextPid := by simp [childGroup, hasFlag]
    rw [hgroup] at hnew
    exact .child i w.sys.tasks.nextPid _ hi htasks (exec_table_of_some rfl hi) hnew
      fun _ => ⟨rfl, .inr rfl⟩

theorem birth_clone {cur : ℕ} {flags st : BitVec 64} {ok : Bool}
    (h : Coherent w.sys.tasks w.table) (hcur : w.live cur) (hfiles : w.SharesFiles flags ok) :
    Birth w cur (w.exec (.call cur (.clone flags st ok))) := by
  have htasks : (w.exec (.call cur (.clone flags st ok))).sys.tasks =
      (w.sys.taskOutcome (w.sys.tasks.realSysClone cur flags st ok)).2.tasks := rfl
  rw [realSysClone] at htasks
  cases hi : w.sys.tasks.freeTask with
  | none =>
    -- no task can be made
    refine .same ?_ fun i hu => exec_table_used hu
    rw [htasks, cloneThreadTask_none (.inl hi), cloneProcess_none h hcur hi, c3MakeZombieChild, hi]
    split_ifs <;> rfl
  | some i =>
    have htable : (w.exec (.call cur (.clone flags st ok))).table =
        update w.table i (w.clonedTable cur flags) := exec_table_of_some rfl hi
    by_cases hprobe : namespaceProbe flags st = true
    · rw [if_pos hprobe, c3MakeZombieChild, hi] at htasks
      refine .child i (w.clonedTable cur flags) _ hi htasks htable
        (newTask_zombie h hcur _) fun hl => ?_
      cases hl
    · rw [if_neg hprobe] at htasks
      by_cases hthread : hasFlag flags cloneThread = true
      · rw [if_pos hthread] at htasks
        by_cases hok : hasFlag flags cloneVm = true ∧ ok = false
        · rw [cloneThreadTask_none (.inr hok)] at htasks
          exact .same htasks fun i hu => exec_table_used hu
        · have hok' : hasFlag flags cloneVm = true → ok = true := by
            intro hvm
            by_contra hno
            exact hok ⟨hvm, by simpa using hno⟩
          rw [cloneThreadTask_eq h hcur hi hthread hok'] at htasks
          have hshare : hasFlag flags cloneVm = true → hasFlag flags cloneFiles = true :=
            fun hvm => hfiles hthread hvm (hok' hvm) (by rw [hi]; rfl)
          exact .child i (w.clonedTable cur flags) _ hi htasks htable
            (newTask_thread h hcur hshare rfl) fun _ => ⟨rfl, clonedTable_cases cur flags⟩
      · rw [if_neg hthread, cloneProcess_eq h hcur hi] at htasks
        exact .child i (w.clonedTable cur flags) _ hi htasks htable
          (newTask_process h hcur _ flags rfl) fun _ => ⟨rfl, clonedTable_cases cur flags⟩

/-- **What one operation does**, in a coherent world and under the condition. -/
theorem change (h : Coherent w.sys.tasks w.table) (hop : w.Meets op) :
    Change w op (w.exec op) := by
  obtain ⟨hen, hcond⟩ := hop
  cases op with
  | call cur c =>
    have hcur : w.live cur := hen.2
    have hcall : ∀ (hfork : c ≠ .fork) (hclone : ∀ flags st ok, c ≠ .clone flags st ok)
        (hroom : CallRoom w.sys cur c), Change w (.call cur c) (w.exec (.call cur c)) := by
      intro hfork hclone hroom
      obtain ⟨g, ht, hnew⟩ := call_step (h.grouped hcur) c hfork hclone hroom
      refine .table cur c g rfl hcur ht (exec_table_of_none ?_) hnew
      cases c with
      | fork => exact absurd rfl hfork
      | clone flags st ok => exact absurd rfl (hclone flags st ok)
      | _ => rfl
    cases c with
    | fork => exact .birth cur hcur (birth_fork h hcur)
    | clone flags st ok => exact .birth cur hcur (birth_clone h hcur hcond)
    | _ => exact hcall (by simp) (by simp) hcond
  | exit i =>
    obtain ⟨t, ht, hended⟩ := taskExit_tasks h hen.2
    exact .ended i t ht (exec_table_of_none rfl) hended fun _ => rfl
  | reap i =>
    obtain ⟨t, ht, hended⟩ := reap_tasks hen.2.1
    refine .ended i t ht (exec_table_of_none rfl) hended fun hl => ?_
    have hz : (w.sys.tasks.task i).state = .zombie := hen.2.2
    rw [live, Task.live, hz] at hl
    simp at hl
  | stream i rxHead rxTail => exact .same rfl fun i hu => exec_table_used hu
  | mapping n b => exact .same rfl fun i hu => exec_table_used hu

end World

theorem Change.coherent {w w' : World} {op : Sys.Op} (h : Coherent w.sys.tasks w.table)
    (hc : Change w op w') : Coherent w'.sys.tasks w'.table := by
  cases hc with
  | table cur c g hop hcur htasks htable hnew =>
    rw [htasks, htable]
    exact h.setTable hcur g
  | birth cur hcur hbirth =>
    cases hbirth with
    | child i T t hfree htasks htable hnew hfds =>
      rw [htasks, htable]
      exact h.addTask (freeTask_eq_some hfree).1 hnew
    | same htasks htable =>
      rw [htasks]
      exact h.congr htable
  | ended i t htasks htable hended hwho =>
    rw [htasks, htable]
    exact h.setEnded hended
  | same htasks htable =>
    rw [htasks]
    exact h.congr htable

theorem coherent_init : Coherent World.init.sys.tasks World.init.table := by
  have hself : World.init.sys.tasks.task 0 = Tasks.init.task 0 := rfl
  have hused : ∀ i, (World.init.sys.tasks.task i).used = true → i = 0 := by
    intro i hu
    by_contra hi
    have hunused : Tasks.init.task i = Task.unused := by
      show update (fun _ => Task.unused) 0 _ i = Task.unused
      rw [update_of_ne hi]
    have hu' : (Tasks.init.task i).used = true := hu
    rw [hunused] at hu'
    cases hu'
  constructor
  · intro i hu
    rw [hused i hu]
    decide
  · intro i hu
    rw [hused i hu]
    decide
  · intro i hu
    rw [hused i hu]
    decide
  · intro i hu
    rw [hused i hu]
    decide
  · intro i j hi hj _
    rw [hused i hi, hused j hj]
  · intro i hl
    rw [hused i (used_of_live hl)]
    rfl
  · intro i j hi hj _
    rfl
  · intro i j hi hj _
    rw [hused i (used_of_live hi), hused j (used_of_live hj)]
  · intro i hu hl
    rw [hused i hu] at hl
    cases hl

theorem coherent_run {w : World} (h : Runs World.Meets World.exec World.init w) :
    Coherent w.sys.tasks w.table :=
  Runs.invariant (P := fun w => Coherent w.sys.tasks w.table)
    (fun _ _ hw hop => (World.change hw hop).coherent hw) h coherent_init

/-! ### The property -/

/-- Tasks that share a table have equal arrays; tasks that do not share one never see each other's
changes; and what was closed in a table is not usable there until it is handed out again.  `ok`
says which operations a run may contain. -/
structure TablesCoherent (ok : World → Sys.Op → Prop) (w : World) : Prop where
  shared : ∀ a b, w.live a → w.live b → w.table a = w.table b →
    ∀ fd, w.sys.entry a fd = w.sys.entry b fd
  separate : ∀ op, ok w op → ∀ b, w.live b →
    (∀ a, World.actor op = some a → w.table a ≠ w.table b) →
    ∀ fd, (w.exec op).sys.entry b fd = w.sys.entry b fd ∧
      (w.exec op).usable b fd = w.usable b fd
  closed : ∀ cur fd, ok w (.call cur (.close fd)) → ∀ v,
    Runs (fun u op => ok u op ∧ ¬ World.Reopens (w.table cur) fd u op) World.exec
      (w.exec (.call cur (.close fd))) v →
    ∀ b, v.live b → v.table b = w.table cur → v.usable b fd = false

namespace World

variable {w : World} {op : Sys.Op} {fd b T : ℕ}

theorem usable_iff (h : Coherent w.sys.tasks w.table) (hb : w.live b) :
    w.usable b fd = true ↔ fd < taskFdMax ∧ (w.sys.entry b fd).kind ≠ .none := by
  by_cases hfd : fd < taskFdMax
  · rw [usable, (h.grouped hb).slotUsed hfd]
    simp [hfd, Sys.entry]
  · rw [usable, c3FdGroupSlotUsed]
    simp [hfd]

theorem entry_other (h : Coherent w.sys.tasks w.table) (hop : w.Meets op) (hb : w.live b)
    (hne : ∀ a, actor op = some a → w.table a ≠ w.table b) :
    (w.exec op).live b ∧ ∀ fd, (w.exec op).sys.entry b fd = w.sys.entry b fd := by
  have hsame : (w.exec op).sys.tasks.task b = w.sys.tasks.task b → (w.exec op).live b ∧
      ∀ fd, (w.exec op).sys.entry b fd = w.sys.entry b fd := by
    intro heq
    refine ⟨?_, fun fd => ?_⟩
    · rw [live, heq]
      exact hb
    · rw [Sys.entry, Sys.entry, heq]
  cases change h hop with
  | table cur c g hop' hcur htasks htable hnew =>
    have ht : w.table b ≠ w.table cur := (hne cur (by rw [hop']; rfl)).symm
    refine ⟨?_, fun fd => ?_⟩
    · rw [live, htasks, Tasks.setTable, live_put]
      exact hb
    · rw [Sys.entry, htasks, h.setTable_fds hcur g hb, if_neg ht, Sys.entry]
  | birth cur hcur hbirth =>
    cases hbirth with
    | child i T t hfree htasks htable hnew hfds =>
      have hbi : b ≠ i := by
        rintro rfl
        have := (freeTask_eq_some hfree).2
        rw [used_of_live hb] at this
        cases this
      exact hsame (by rw [htasks, addTask_other _ hbi])
    | same htasks htable => exact hsame (by rw [htasks])
  | ended i t htasks htable hended hwho =>
    have hbi : b ≠ i := by
      rintro rfl
      exact hne b (hwho hb) rfl
    exact hsame (by rw [htasks, setTask_other _ hbi])
  | same htasks htable => exact hsame (by rw [htasks])

/-- No task with the table `T` can use the descriptor, and no table of that name is still to
come. -/
structure Shut (T fd : ℕ) (w : World) : Prop where
  old : T < w.sys.tasks.nextPid
  none : ∀ b, w.live b → w.table b = T → fd < taskFdMax → (w.sys.entry b fd).kind = .none

theorem Shut.exec (hs : Shut T fd w) (h : Coherent w.sys.tasks w.table) (hop : w.Meets op)
    (hno : ¬ Reopens T fd w op) : Shut T fd (w.exec op) := by
  cases change h hop with
  | table cur c g hop' hcur htasks htable hnew =>
    have hlive : ∀ b, (w.exec op).live b → w.live b := by
      intro b hb
      rwa [live, htasks, Tasks.setTable, live_put] at hb
    refine ⟨by rw [htasks]; exact hs.old, fun b hb ht hfd => ?_⟩
    rw [htable] at ht
    rw [Sys.entry, htasks, h.setTable_fds hcur g (hlive b hb)]
    split_ifs with hbc
    · -- the caller shares the table: its new array has the entry only if it was handed out
      by_contra hk
      rcases hnew fd hfd hk with hold | hout
      · exact hold (hs.none cur hcur (by rw [← hbc, ht]) hfd)
      · exact hno ⟨cur, c, hop', by rw [← hbc, ht], hout⟩
    · exact hs.none b (hlive b hb) ht hfd
  | birth cur hcur hbirth =>
    cases hbirth with
    | child i T' t hfree htasks htable hnew hfds =>
      refine ⟨?_, fun b hb ht hfd => ?_⟩
      · rw [htasks]
        exact Nat.lt_succ_of_lt hs.old
      · by_cases hbi : b = i
        · subst hbi
          rw [live, htasks, addTask_self] at hb
          rw [htable, update_self] at ht
          rw [Sys.entry, htasks, addTask_self]
          obtain ⟨hf, hT | hT⟩ := hfds hb
          · rw [hf]
            exact hs.none cur hcur (by rw [← hT, ht]) hfd
          · have := hs.old
            omega
        · rw [live, htasks, addTask_other _ hbi] at hb
          rw [htable, update_of_ne hbi] at ht
          rw [Sys.entry, htasks, addTask_other _ hbi]
          exact hs.none b hb ht hfd
    | same htasks htable =>
      refine ⟨by rw [htasks]; exact hs.old, fun b hb ht hfd => ?_⟩
      rw [live, htasks] at hb
      rw [htable b (used_of_live hb)] at ht
      rw [Sys.entry, htasks]
      exact hs.none b hb ht hfd
  | ended i t htasks htable hended hwho =>
    refine ⟨by rw [htasks]; exact hs.old, fun b hb ht hfd => ?_⟩
    have hbi : b ≠ i := by
      rintro rfl
      rw [live, htasks, setTask_self, hended.notLive] at hb
      cases hb
    rw [live, htasks, setTask_other _ hbi] at hb
    rw [htable] at ht
    rw [Sys.entry, htasks, setTask_other _ hbi]
    exact hs.none b hb ht hfd
  | same htasks htable =>
    refine ⟨by rw [htasks]; exact hs.old, fun b hb ht hfd => ?_⟩
    rw [live, htasks] at hb
    rw [htable b (used_of_live hb)] at ht
    rw [Sys.entry, htasks]
    exact hs.none b hb ht hfd

theorem shut_close {cur : ℕ} (fd : ℕ) (h : Coherent w.sys.tasks w.table) (hcur : w.live cur) :
    Shut (w.table cur) fd (w.exec (.call cur (.close fd))) := by
  obtain ⟨g, ht, hnone, -⟩ := (h.grouped hcur).close_gone fd
  have htasks : (w.exec (.call cur (.close fd))).sys.tasks = w.sys.tasks.setTable cur g := ht
  have htable : (w.exec (.call cur (.close fd))).table = w.table := exec_table_of_none rfl
  refine ⟨?_, fun b hb htb hfd => ?_⟩
  · have := h.fdtGroup cur (used_of_live hcur)
    rw [h.group cur hcur] at this
    rw [htasks]
    exact this.2
  · rw [live, htasks, Tasks.setTable, live_put] at hb
    rw [htable] at htb
    rw [Sys.entry, htasks, h.setTable_fds hcur g hb, if_pos htb]
    exact hnone hfd

theorem Shut.run {v : World} (hs : Shut T fd w) (h : Coherent w.sys.tasks w.table)
    (hrun : Runs (fun u op => Meets u op ∧ ¬ Reopens T fd u op) World.exec w v) :
    Shut T fd v ∧ Coherent v.sys.tasks v.table := by
  refine Runs.invariant (P := fun u => Shut T fd u ∧ Coherent u.sys.tasks u.table) ?_ hrun ⟨hs, h⟩
  rintro u op ⟨hu, hc⟩ ⟨hop, hno⟩
  exact ⟨hu.exec hc hop hno, (change hc hop).coherent hc⟩

end World

/-- **Shared descriptor tables stay coherent** in every run whose steps meet the condition. -/
theorem fdTables_coherent {w : World} (hrun : Runs World.Meets World.exec World.init w) :
    TablesCoherent World.Meets w := by
  have h := coherent_run hrun
  constructor
  · intro a b ha hb ht fd
    rw [Sys.entry, Sys.entry, h.agree a b ha hb ht]
  · intro op hop b hb hne fd
    obtain ⟨hb', hentry⟩ := World.entry_other h hop hb hne
    refine ⟨hentry fd, ?_⟩
    rw [Bool.eq_iff_iff, World.usable_iff ((World.change h hop).coherent h) hb',
      World.usable_iff h hb, hentry]
  · intro cur fd hop v hv b hb ht
    have hcur : w.live cur := hop.1.2
    have hclosed := (World.change h hop).coherent h
    obtain ⟨hshut, hcoh⟩ := (World.shut_close fd h hcur).run hclosed hv
    by_contra hu
    rw [Bool.not_eq_false, World.usable_iff hcoh hb] at hu
    exact hu.2 (hshut.none b hb ht hu.1)

/-- A process, made by a fork, makes a thread that shares its descriptors. -/
theorem fdTables_coherent_sample : TablesCoherent World.Meets
    ((World.init.exec (.call 0 .fork)).exec
      (.call 1 (.clone (cloneThread ||| cloneVm ||| cloneFiles) 1 true))) := by
  have h0 : World.Meets .init (.call 0 .fork) := ⟨by decide, trivial⟩
  have h1 : World.Meets (World.init.exec (.call 0 .fork))
      (.call 1 (.clone (cloneThread ||| cloneVm ||| cloneFiles) 1 true)) :=
    ⟨by decide, fun _ _ _ _ => by decide⟩
  exact fdTables_coherent (((Runs.refl _).tail _ h0).tail _ h1)

/-- The same with a thread that does not share them. -/
def lonelyThread : World :=
  (World.init.exec (.call 0 .fork)).exec (.call 1 (.clone (cloneThread ||| cloneVm) 1 true))

/-- When the thread closes descriptor 0, the process loses it too. -/
theorem fdTables_not_coherent :
    ¬ ∀ w, Runs World.enabled World.exec World.init w → TablesCoherent World.enabled w := by
  intro hall
  have h0 : World.enabled .init (.call 0 .fork) := by decide
  have h1 : World.enabled (World.init.exec (.call 0 .fork))
      (.call 1 (.clone (cloneThread ||| cloneVm) 1 true)) := by decide
  have hrun : Runs World.enabled World.exec World.init lonelyThread :=
    ((Runs.refl _).tail _ h0).tail _ h1
  have hother : ∀ a, World.actor (.call 2 (.close 0)) = some a →
      lonelyThread.table a ≠ lonelyThread.table 1 := by
    intro a ha
    obtain rfl := Option.some.inj ha
    decide
  have hkeep := ((hall _ hrun).separate (.call 2 (.close 0)) (by decide) 1 (by decide) hother 0).1
  have hclear : (lonelyThread.exec (.call 2 (.close 0))).sys.tasks =
      lonelyThread.sys.tasks.c3FdGroupClearFd 2 0 := Sys.close_clears (by decide)
  rw [Sys.entry, hclear] at hkeep
  exact absurd hkeep (by decide)

end Ridux
