import Ridux.Lib.Slots
import Ridux.Limits
import Mathlib.Data.BitVec

/-!
# Tasks and their descriptor arrays

Each task has an array of descriptors of its own.  Tasks that share a descriptor table are in one
group (`c3_fd_same_group`), and the operations here keep their arrays equal by copying an entry
from one array to the others.

* `Fd`, `Task`, `Tasks`: the data (`g_tasks` and `g_task_next_pid`);
* `c3FdGroupSyncFd`, `c3FdGroupSlotUsed`, `c3FdGroupCopyFd`, `c3FdGroupClearFd`,
  `c3FdAllocForTask`: the group operations on one descriptor number;
* `taskCreate`, `taskCreateUserThread`, `taskFork`, `realSysClone`: new tasks.

A descriptor number is a natural number: the source rejects a negative one at the same checks as
one from `TASK_FD_MAX` on.
-/

namespace Ridux

open Lib Function

def taskFdMax : ℕ := 512

/-- What a descriptor refers to (`FDKIND_*`). -/
inductive FdKind
  | none | vfsfile | socket | pipeR | pipeW | devnull | devzero | devrandom | devfb | devtty
  | devptmx | proc | epoll | eventfd | timerfd | signalfd | dir | inotify | devinput | devsnd
  | symlink | devfuse | pidfd
  deriving DecidableEq

/-- One descriptor (`real_fd_t`, without the field `refcount`, which nothing reads). -/
structure Fd where
  kind : FdKind
  ref : ℕ
  flags : BitVec 16
  offset : BitVec 64
  deriving DecidableEq

/-- A free entry, as `memset` leaves it. -/
def Fd.empty : Fd := ⟨.none, 0, 0, 0⟩

def fdflReadable : BitVec 16 := 0x01
def fdflWritable : BitVec 16 := 0x02
def fdflAppend : BitVec 16 := 0x04
def fdflNonblock : BitVec 16 := 0x08
def fdflCloexec : BitVec 16 := 0x10

inductive TaskState
  | free | runnable | running | sleeping | stopped | zombie
  deriving DecidableEq

/-- The fields of `task_t` that decide who shares descriptors; `user` says that the task runs in
ring 3 (`ctx.cs == 0x28`). -/
structure Task where
  used : Bool
  state : TaskState
  pid : ℕ
  tgid : ℕ
  fdtGroup : ℕ
  user : Bool
  fds : ℕ → Fd

namespace Task

/-- An entry of `g_tasks` that was never used. -/
def unused : Task := ⟨false, .free, 0, 0, 0, false, fun _ => .empty⟩

/-- The tasks that the group operations look at. -/
def live (t : Task) : Bool := t.used && t.state != .zombie && t.state != .free

def setFd (t : Task) (fd : ℕ) (e : Fd) : Task := { t with fds := update t.fds fd e }

end Task

def fdValid (t : Task) (fd : ℕ) : Bool := decide (fd < taskFdMax) && (t.fds fd).kind != .none

def fdClose (t : Task) (fd : ℕ) : Task :=
  if fdValid t fd then t.setFd fd .empty else t

def c3FdGroupId (t : Task) : ℕ := if t.fdtGroup ≠ 0 then t.fdtGroup else t.pid

/-- The thread group of a task. -/
def threadGroup (t : Task) : ℕ := if t.tgid ≠ 0 then t.tgid else t.pid

def c3FdSameGroup (a b : Task) : Bool :=
  decide (c3FdGroupId a = c3FdGroupId b) ||
    (decide (0 < threadGroup a) && decide (threadGroup a = threadGroup b))

structure Tasks where
  task : ℕ → Task
  nextPid : ℕ

namespace Tasks

def setTask (ts : Tasks) (i : ℕ) (t : Task) : Tasks :=
  { ts with task := update ts.task i t }

def setFd (ts : Tasks) (owner fd : ℕ) (e : Fd) : Tasks :=
  ts.setTask owner ((ts.task owner).setFd fd e)

/-- A loop over the task table whose body changes only the task it is at. -/
def forTasks (ts : Tasks) (p : ℕ → Bool) (body : Task → Task) : Tasks :=
  { ts with task := fun i => if i < taskMax ∧ p i then body (ts.task i) else ts.task i }

/-- A live task other than `owner` in the group of `owner`. -/
def groupPeer (ts : Tasks) (owner i : ℕ) : Bool :=
  decide (i ≠ owner) && (ts.task i).live && c3FdSameGroup (ts.task i) (ts.task owner)

/-- The first peer in which the descriptor is valid. -/
def peerWith (ts : Tasks) (owner fd : ℕ) : Option ℕ :=
  firstSlot (fun i => ts.groupPeer owner i && fdValid (ts.task i) fd) taskMax

def c3FdGroupSyncFd (ts : Tasks) (owner fd : ℕ) : Tasks :=
  if taskFdMax ≤ fd then ts
  else if fdValid (ts.task owner) fd then ts
  else
    match ts.peerWith owner fd with
    | some i => ts.setFd owner fd ((ts.task i).fds fd)
    | none => ts

def c3FdGroupSlotUsed (ts : Tasks) (owner fd : ℕ) : Bool :=
  decide (fd < taskFdMax) && (fdValid (ts.task owner) fd || (ts.peerWith owner fd).isSome)

def c3FdGroupCopyFd (ts : Tasks) (owner fd : ℕ) : Tasks :=
  if taskFdMax ≤ fd then ts
  else ts.forTasks (ts.groupPeer owner) fun t => t.setFd fd ((ts.task owner).fds fd)

def c3FdGroupClearFd (ts : Tasks) (owner fd : ℕ) : Tasks :=
  if taskFdMax ≤ fd then ts
  else
    ts.forTasks (fun i => (ts.task i).used && c3FdSameGroup (ts.task i) (ts.task owner))
      fun t => fdClose t fd

def c3FdGroupHasLivePeer (ts : Tasks) (owner : ℕ) : Bool :=
  (firstSlot (ts.groupPeer owner) taskMax).isSome

/-- The first free descriptor from `minfd` on. -/
def freeFd (ts : Tasks) (owner minfd : ℕ) : Option ℕ :=
  firstSlot (fun fd => decide (minfd ≤ fd) && !ts.c3FdGroupSlotUsed owner fd) taskFdMax

/-- Put an entry at a descriptor of the owner and of its peers. -/
def installFd (ts : Tasks) (owner fd : ℕ) (e : Fd) : Tasks :=
  (ts.setFd owner fd e).c3FdGroupCopyFd owner fd

/-- The new descriptor, or nothing for `-EMFILE`. -/
def c3FdAllocForTask (ts : Tasks) (owner : ℕ) (kind : FdKind) (ref : ℕ) (flags : BitVec 16) :
    Option ℕ × Tasks :=
  match ts.freeFd owner 0 with
  | some fd => (some fd, ts.installFd owner fd ⟨kind, ref, flags, 0⟩)
  | none => (none, ts)

/-! ### New tasks -/

/-- The state after `task_init`: the kernel task with its three terminal descriptors. -/
def init : Tasks where
  task := update (fun _ => Task.unused) 0
    { used := true, state := .running, pid := 1, tgid := 1, fdtGroup := 1, user := false
      fds := fun fd =>
        if fd = 0 then ⟨.devtty, 0, fdflReadable, 0⟩
        else if fd = 1 ∨ fd = 2 then ⟨.devtty, 0, fdflWritable, 0⟩
        else .empty }
  nextPid := 2

/-- The entry of `g_tasks` that a new task takes. -/
def freeTask (ts : Tasks) : Option ℕ :=
  firstSlot (fun i => decide (i ≠ 0) && !(ts.task i).used) taskMax

/-- Enter a new task under the next pid. -/
def addTask (ts : Tasks) (i : ℕ) (t : Task) : Tasks :=
  { ts.setTask i t with nextPid := ts.nextPid + 1 }

/-- A task of its own group and thread group. -/
def freshTask (ts : Tasks) (state : TaskState) (user : Bool) (fds : ℕ → Fd) : Task :=
  { used := true, state := state, pid := ts.nextPid, tgid := ts.nextPid, fdtGroup := ts.nextPid
    user := user, fds := fds }

/-- The new task's pid, or nothing when the table is full. -/
def taskCreate (ts : Tasks) (cur : ℕ) (isUser : Bool) : Option ℕ × Tasks :=
  match ts.freeTask with
  | some i =>
    (some ts.nextPid, ts.addTask i (ts.freshTask .runnable isUser (ts.task cur).fds))
  | none => (none, ts)

/-- `sharedOk` says that the caller has an address space of its own to share. -/
def taskCreateUserThread (ts : Tasks) (cur : ℕ) (sharedOk : Bool) : Option ℕ × Tasks :=
  if sharedOk then ts.taskCreate cur true else (none, ts)

/-- The child of `c3_make_zombie_child`: it has exited already and holds no descriptor. -/
def c3MakeZombieChild (ts : Tasks) : Option ℕ × Tasks :=
  match ts.freeTask with
  | some i => (some ts.nextPid, ts.addTask i (ts.freshTask .zombie false fun _ => .empty))
  | none => (none, ts)

def taskIndexByPid (ts : Tasks) (pid : ℕ) : Option ℕ :=
  firstSlot (fun i => (ts.task i).used && decide ((ts.task i).pid = pid)) taskMax

def taskFork (ts : Tasks) (parentPid : ℕ) : Option ℕ × Tasks :=
  match ts.taskIndexByPid parentPid with
  | none => (none, ts)
  | some p =>
    match ts.freeTask with
    | some i =>
      (some ts.nextPid,
        ts.addTask i (ts.freshTask .runnable (ts.task p).user (ts.task p).fds))
    | none => (none, ts)

def realSysFork (ts : Tasks) (cur : ℕ) : Option ℕ × Tasks := ts.taskFork (ts.task cur).pid

def cloneVm : BitVec 64 := 0x00000100
def cloneFiles : BitVec 64 := 0x00000400
def cloneVfork : BitVec 64 := 0x00004000
def cloneThread : BitVec 64 := 0x00010000
def cloneNamespaceMask : BitVec 64 := 0x7E020000

/-- Is a flag set? -/
def hasFlag (flags f : BitVec 64) : Bool := flags &&& f != 0

def setTgid (ts : Tasks) (i tgid : ℕ) : Tasks :=
  ts.setTask i { ts.task i with tgid := tgid }

def setGroup (ts : Tasks) (i group : ℕ) : Tasks :=
  ts.setTask i { ts.task i with fdtGroup := group }

/-- A caller without a group founds one under its own pid. -/
def foundGroup (ts : Tasks) (cur : ℕ) : Tasks :=
  if (ts.task cur).fdtGroup = 0 then ts.setGroup cur (ts.task cur).pid else ts

/-- With `CLONE_FILES` the child joins the group of the caller. -/
def joinGroup (ts : Tasks) (cur child : ℕ) (flags : BitVec 64) : Tasks :=
  if hasFlag flags cloneFiles then
    (ts.foundGroup cur).setGroup child ((ts.foundGroup cur).task cur).fdtGroup
  else ts.setGroup child (ts.task child).pid

/-- With `CLONE_VM` the new thread joins the thread group of the caller. -/
def joinThreads (ts : Tasks) (cur child : ℕ) (flags : BitVec 64) : Tasks :=
  if hasFlag flags cloneVm then
    ts.setTgid child
      (if hasFlag flags cloneVfork && hasFlag flags cloneVm && !hasFlag flags cloneThread then
        (ts.task child).pid
      else threadGroup (ts.task cur))
  else ts

/-- The task of a new thread, before it joins any group. -/
def createThread (ts : Tasks) (cur : ℕ) (flags : BitVec 64) (sharedOk : Bool) : Option ℕ × Tasks :=
  if hasFlag flags cloneVm then ts.taskCreateUserThread cur sharedOk else ts.taskCreate cur true

/-- The thread path of `real_sys_clone`. -/
def cloneThreadTask (ts : Tasks) (cur : ℕ) (flags : BitVec 64) (sharedOk : Bool) :
    Option ℕ × Tasks :=
  match ts.createThread cur flags sharedOk with
  | (none, ts) => (none, ts)
  | (some pid, ts) =>
    match ts.taskIndexByPid pid with
    | none => (none, ts)
    | some child => (some pid, (ts.joinThreads cur child flags).joinGroup cur child flags)

/-- The process path of `real_sys_clone`. -/
def cloneProcess (ts : Tasks) (cur : ℕ) (flags : BitVec 64) : Option ℕ × Tasks :=
  match ts.realSysFork cur with
  | (none, ts) => (none, ts)
  | (some pid, ts) =>
    match ts.taskIndexByPid pid with
    | none => (some pid, ts)
    | some child =>
      (some pid, (ts.setTgid child (ts.task child).pid).joinGroup cur child flags)

/-- A clone that only asks for namespaces, answered with a child that has exited already. -/
def namespaceProbe (flags childStack : BitVec 64) : Bool :=
  hasFlag flags cloneNamespaceMask && !hasFlag flags (cloneVm ||| cloneThread ||| cloneVfork) &&
    flags &&& ~~~(cloneNamespaceMask ||| 0xFF) == 0 && childStack == 0

/-- The pid of the new task, or nothing for an error. -/
def realSysClone (ts : Tasks) (cur : ℕ) (flags childStack : BitVec 64) (sharedOk : Bool) :
    Option ℕ × Tasks :=
  if namespaceProbe flags childStack then ts.c3MakeZombieChild
  else if hasFlag flags cloneThread then ts.cloneThreadTask cur flags sharedOk
  else ts.cloneProcess cur flags

end Tasks

end Ridux
