import Ridux.Fd.Tasks
import Ridux.Mm.Fork
import Ridux.Signal.Frame

/-!
# The table of tasks

* `Proc.Task`: what `fork`, `exit`, `waitpid` and the scheduler read and write of a task; its
  descriptors, its identifiers and its signals are modelled where they are used;
* `Machine`: the table, the kernel's stacks and the memory;
* `taskCreate`, `taskFork`: new tasks.
-/

namespace Ridux.Proc

open Lib Function

def taskKernelStack : ℕ := 32768

def taskUserStack : ℕ := 8 * 1024 * 1024

/-- The code segment of ring 3, as the scheduler tests it. -/
def ring3Cs : BitVec 64 := 0x28

/-- `task_t`. -/
structure Task where
  used : Bool
  pid : ℤ
  tgid : ℤ
  ppid : ℤ
  pgid : ℤ
  sid : ℤ
  fdtGroup : ℤ
  state : TaskState
  exitCode : ℤ
  ctx : Ctx
  kernelStack : ℕ
  kernelStackTop : ℕ
  kernelRspSaved : ℕ
  needsFirstLaunch : Bool
  addrSpace : Option Space
  brkStart : ℕ
  brkCurrent : ℕ
  mmapBase : ℕ
  sleepUntil : ℕ
  waitPid : ℤ
  clearChildTid : ℕ
  robustListHead : ℕ
  robustListLen : ℕ

namespace Task

/-- A task after `memset`. -/
def zero : Task where
  used := false
  pid := 0
  tgid := 0
  ppid := 0
  pgid := 0
  sid := 0
  fdtGroup := 0
  state := .free
  exitCode := 0
  ctx := ⟨⟨0, 0, 0, 0, 0, 0, 0, 0, 0, 0, 0, 0, 0, 0, 0⟩, 0, 0, 0, 0, 0⟩
  kernelStack := 0
  kernelStackTop := 0
  kernelRspSaved := 0
  needsFirstLaunch := false
  addrSpace := none
  brkStart := 0
  brkCurrent := 0
  mmapBase := 0
  sleepUntil := 0
  waitPid := 0
  clearChildTid := 0
  robustListHead := 0
  robustListLen := 0

/-- Does the task run in ring 3? -/
def ring3 (t : Task) : Bool := decide (t.ctx.cs = ring3Cs)

end Task

/-- The machine. -/
structure Machine where
  mm : Mm
  /-- `g_tasks` -/
  task : ℕ → Task
  /-- `g_task_next_pid` -/
  nextPid : ℤ
  /-- `g_current_task` -/
  current : ℕ
  /-- `g_user_foreground_active` -/
  foreground : Bool
  /-- the address of `g_kstacks` -/
  kstacks : ℕ
  /-- the address of `clone3_entry_trampoline` -/
  trampoline : BitVec 64
  /-- the word at each address of the kernel's stacks -/
  stackWord : ℕ → BitVec 64

namespace Machine

/-- `g_kstacks[i]`. -/
def kstack (m : Machine) (i : ℕ) : ℕ := m.kstacks + i * taskKernelStack

/-- The current task. -/
def cur (m : Machine) : Task := m.task m.current

def setTask (m : Machine) (i : ℕ) (t : Task) : Machine :=
  { m with task := update m.task i t }

def setPaging (m : Machine) (p : Paging) : Machine := { m with mm := { m.mm with paging := p } }

@[simp] theorem setTask_mm (m : Machine) (i : ℕ) (t : Task) : (m.setTask i t).mm = m.mm := rfl

@[simp] theorem setTask_task (m : Machine) (i : ℕ) (t : Task) :
    (m.setTask i t).task = update m.task i t := rfl

@[simp] theorem setPaging_paging (m : Machine) (p : Paging) : (m.setPaging p).mm.paging = p := rfl

@[simp] theorem setPaging_task (m : Machine) (p : Paging) : (m.setPaging p).task = m.task := rfl

/-- The first used task with a pid. -/
def taskOfPid (m : Machine) (pid : ℤ) : Option ℕ :=
  firstSlot (fun i => (m.task i).used && decide ((m.task i).pid = pid)) taskMax

/-- The first free task; task 0 is the kernel's. -/
def freeTask (m : Machine) : Option ℕ :=
  firstSlot (fun i => decide (1 ≤ i) && !(m.task i).used) taskMax

/-- `g_task_next_pid++`. -/
def countPid (m : Machine) : Machine := { m with nextPid := m.nextPid + 1 }

@[simp] theorem countPid_task (m : Machine) : m.countPid.task = m.task := rfl

/-! ### `task_create` -/

/-- One page of a new user stack: a frame, if there is one, and its mapping, if that works. -/
def mapStackPage (as : Option Space) (m : Machine) (virt : ℕ) : Machine :=
  let (f, pmm) := pmmAllocFrame m.mm.paging.pmm
  let m := m.setPaging { m.mm.paging with pmm := pmm }
  match as with
  | some as =>
    if f ≠ 0 then
      m.setPaging (pagingMap as virt f (pagePresent ||| pageWritable ||| pageUser) m.mm.paging).2
    else m
  -- `paging_map` turns a null pointer down
  | none => m

/-- The top of a user stack. -/
def userStackTop : ℕ := 0x7FFFFFFFE000

/-- The loop over the pages of a user stack. -/
def mapUserStack (as : Option Space) (m : Machine) : Machine :=
  (List.range (taskUserStack / pageSize)).foldl
    (fun m pg => m.mapStackPage as (userStackTop - taskUserStack + pg * pageSize)) m

/-- What `task_create` sets before it asks for whom the task is. -/
def newTask (m : Machine) (i : ℕ) : Task :=
  { Task.zero with
    used := true
    pid := m.nextPid
    tgid := m.nextPid
    ppid := m.cur.pid
    fdtGroup := m.nextPid
    pgid := m.nextPid
    sid := m.cur.sid
    state := .runnable
    kernelStack := m.kstack i
    kernelStackTop := m.kstack i + taskKernelStack
    brkStart := 0x800000
    brkCurrent := 0x800000
    mmapBase := 0x40000000 }

/-- A new task of ring 3 in the address space `as`. -/
def newUserTask (m : Machine) (i : ℕ) (entry : BitVec 64) (as : Option Space) : Task :=
  let t := m.newTask i
  { t with
    addrSpace := as
    ctx := { t.ctx with
      cs := ring3Cs, ss := 0x30, rflags := 0x200, rsp := BitVec.ofNat 64 (userStackTop - 16)
      rip := entry } }

/-- A new task of the kernel. -/
def newKernelTask (m : Machine) (i : ℕ) (entry : BitVec 64) : Task :=
  let t := m.newTask i
  { t with
    addrSpace := some .kernel
    ctx := { t.ctx with
      cs := 0x08, ss := 0x10, rflags := 0x200, rsp := BitVec.ofNat 64 (t.kernelStackTop - 16)
      rip := entry } }

def taskCreate (entry : BitVec 64) (isUser : Bool) (m : Machine) : ℤ × Machine :=
  match m.freeTask with
  | none => (-eagain, m)
  | some i =>
    if isUser then
      let created := pagingCreateAddressSpace m.mm.paging
      let as := created.1.map Space.user
      (m.nextPid, ((m.countPid.setPaging created.2).mapUserStack as).setTask i
        (m.newUserTask i entry as))
    else (m.nextPid, m.countPid.setTask i (m.newKernelTask i entry))

/-! ### `task_fork` -/

/-- Copy the stack at `src` to `dst`. -/
def copyStack (m : Machine) (dst src : ℕ) : Machine :=
  { m with stackWord := fun a =>
      if dst ≤ a ∧ a < dst + taskKernelStack then m.stackWord (a - dst + src) else m.stackWord a }

/-- Where the saved stack pointer of a parent is on the stack of its child. -/
def childRsp (p : Task) (base : ℕ) : ℕ :=
  if p.kernelStack ≤ p.kernelRspSaved ∧ p.kernelRspSaved < p.kernelStack + taskKernelStack then
    base + (p.kernelRspSaved - p.kernelStack)
  else base + taskKernelStack

/-- The child of `p` in slot `c`, in the address space `as`. -/
def childTask (m : Machine) (p : Task) (c : ℕ) (as : Space) : Task :=
  { p with
    pid := m.nextPid
    tgid := m.nextPid
    ppid := p.pid
    fdtGroup := m.nextPid
    state := .runnable
    kernelStack := m.kstack c
    kernelStackTop := m.kstack c + taskKernelStack
    kernelRspSaved := childRsp p (m.kstack c)
    addrSpace := some as
    ctx := { p.ctx with rax := 0 }
    clearChildTid := 0
    robustListHead := 0
    robustListLen := 0 }

/-- The address space of a child: a new one with the pages of the parent, as far as they could be
copied; the kernel's when no new one could be had. -/
def forkSpace (p : Task) (mm : Mm) : Space × Mm :=
  match pagingCreateAddressSpace mm.paging with
  | (none, paging) => (.kernel, { mm with paging := paging })
  | (some n, paging) =>
    (.user n, (compat3ForkAddressSpace p.addrSpace (some (.user n)) { mm with paging := paging }).2)

def taskFork (parentPid : ℤ) (m : Machine) : ℤ × Machine :=
  match m.taskOfPid parentPid with
  | none => (-esrch, m)
  | some pi =>
    match m.freeTask with
    | none => (-eagain, m)
    | some ci =>
      let p := m.task pi
      let (as, mm) := forkSpace p m.mm
      (m.nextPid, { (m.countPid.copyStack (m.kstack ci) p.kernelStack) with
        mm := mm, task := update m.task ci (m.childTask p ci as) })

end Machine

end Ridux.Proc
