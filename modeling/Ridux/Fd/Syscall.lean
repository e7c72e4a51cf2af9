import Ridux.Fd.Object

/-!
# The descriptor system calls

* `Sys`: the tasks, the objects and the rights in flight;
* `c3CloseFdForTask`: the end of a descriptor, and of its object with the last one;
* one definition per system call, each a function of the state and of the calling task;
* `Op`, `exec`: the operations of a run.

A call ends with an error or with the numbers of the descriptors it hands out.  Path resolution
and the contents of `/proc` files are decided elsewhere: an `open` carries what its path turned
out to be (`OpenTarget`).
-/

namespace Ridux

open Lib Function

inductive Errno
  | ebadf | einval | emfile | enfile | enomem | enoent | eacces | eagain | eisdir | enotsock | esrch
  deriving DecidableEq

/-- An error, or the descriptors handed out. -/
abbrev Outcome := Except Errno (List ℕ)

structure Sys where
  tasks : Tasks
  objs : Objects
  /-- `g_c3_scm_rights` -/
  rights : ℕ → Option Fd
  rightsNext : ℕ

/-- The kinds whose objects are open slots of files. -/
def FdKind.isFile (k : FdKind) : Bool := k = .vfsfile || k = .dir || k = .symlink

def oNonblock : BitVec 32 := 0x800
def oCloexec : BitVec 32 := 0x80000

/-- Is a flag of an open mode set? -/
def hasMode (flags f : BitVec 32) : Bool := flags &&& f != 0

namespace Tasks

/-- Does the entry refer to the object `ref` of this kind? -/
def holds (ts : Tasks) (kind : FdKind) (ref i fd : ℕ) : Bool :=
  decide (((ts.task i).fds fd).kind = kind) && decide (((ts.task i).fds fd).ref = ref)

/-- Has the entry been counted already, in an earlier live task of the same group? -/
def seen (ts : Tasks) (kind : FdKind) (ref i fd : ℕ) : Bool :=
  (firstSlot (fun j => (ts.task j).live && c3FdSameGroup (ts.task j) (ts.task i) &&
    ts.holds kind ref j fd) i).isSome

def counted (ts : Tasks) (kind : FdKind) (ref : ℕ) (p : ℕ × ℕ) : Bool :=
  (ts.task p.1).used && ts.holds kind ref p.1 p.2 && !ts.seen kind ref p.1 p.2

def c3FdRefCount (ts : Tasks) (kind : FdKind) (ref : ℕ) : ℕ :=
  if kind = .none then 0
  else ((List.range' 0 taskMax ×ˢ List.range' 0 taskFdMax).filter (ts.counted kind ref)).length

/-- Add flags to a descriptor of one task. -/
def addFlags (ts : Tasks) (cur fd : ℕ) (f : BitVec 16) : Tasks :=
  ts.setFd cur fd { (ts.task cur).fds fd with flags := ((ts.task cur).fds fd).flags ||| f }

end Tasks

namespace Sys

def init : Sys := ⟨.init, .init, fun _ => none, 0⟩

/-- Replace the objects. -/
def setObjs (s : Sys) (o : Objects) : Sys := { s with objs := o }

def entry (s : Sys) (cur fd : ℕ) : Fd := (s.tasks.task cur).fds fd

def valid (s : Sys) (cur fd : ℕ) : Bool := fdValid (s.tasks.task cur) fd

def syncFd (s : Sys) (cur fd : ℕ) : Sys := { s with tasks := s.tasks.c3FdGroupSyncFd cur fd }

def installFd (s : Sys) (cur fd : ℕ) (e : Fd) : Sys :=
  { s with tasks := s.tasks.installFd cur fd e }

/-! ### Closing -/

def c3VfsOpenSlotRefUsedAnywhere (s : Sys) (ref : ℕ) : Bool :=
  decide (∃ t < c3ScmRightsMax, ∃ e ∈ s.rights t,
    (e.kind = .vfsfile ∨ e.kind = .dir) ∧ e.ref = ref) ||
  decide (∃ i < taskMax, (s.tasks.task i).live = true ∧ ∃ fd < taskFdMax,
    s.tasks.holds .vfsfile ref i fd = true ∨ s.tasks.holds .dir ref i fd = true)

/-- A hidden file goes with its slot, unless it backs a mapping. -/
def c3VfsOpenSlotTryFree (s : Sys) (ref : ℕ) : Sys :=
  if openMaxFiles ≤ ref then s
  else if s.c3VfsOpenSlotRefUsedAnywhere ref then s
  else
    match s.objs.opened ref with
    | some (.deleted n) =>
      if s.objs.mapped n then s
      else s.setObjs ((s.objs.setAnon (.deleted n) false).setOpened ref none)
    | _ => s.setObjs (s.objs.setOpened ref none)

/-- Close a valid descriptor; `last` says that no other entry refers to its object. -/
def closeEntry (s : Sys) (owner fd : ℕ) (e : Fd) (last : Bool) : Sys :=
  let objs := if last then s.objs.destroy e.kind e.ref else s.objs
  let s : Sys := { s with objs := objs, tasks := s.tasks.c3FdGroupClearFd owner fd }
  if last && e.kind.isFile then s.c3VfsOpenSlotTryFree e.ref else s

/-- `c3_close_fd_for_task`, after its call of `c3_fd_group_sync_fd`. -/
def closeSynced (s : Sys) (owner fd : ℕ) : Outcome × Sys :=
  if s.valid owner fd then
    (.ok [], s.closeEntry owner fd (s.entry owner fd)
      (s.tasks.c3FdRefCount (s.entry owner fd).kind (s.entry owner fd).ref ≤ 1))
  else (.error .ebadf, s)

def c3CloseFdForTask (s : Sys) (owner fd : ℕ) : Outcome × Sys :=
  (s.syncFd owner fd).closeSynced owner fd

def realSysClose (s : Sys) (cur fd : ℕ) : Outcome × Sys := s.c3CloseFdForTask cur fd

/-- Close the descriptors of a list that satisfy `p` when their turn comes. -/
def closeWhere (p : Fd → Bool) (owner : ℕ) : List ℕ → Sys → Sys
  | [], s => s
  | fd :: rest, s =>
    closeWhere p owner rest
      (if p (s.entry owner fd) then (s.c3CloseFdForTask owner fd).2 else s)

/-- `c3_exec_close_cloexec_fds` -/
def c3ExecCloseCloexecFds (s : Sys) (cur : ℕ) : Sys :=
  closeWhere (fun e => e.kind != .none && e.flags &&& fdflCloexec != 0) cur
    (List.range' 0 taskFdMax) s

/-- Drop every entry of one task's own array. -/
def dropOwnFds (s : Sys) (i : ℕ) : Sys :=
  { s with tasks := s.tasks.setTask i { s.tasks.task i with
      fds := fun fd => if fd < taskFdMax then .empty else (s.tasks.task i).fds fd } }

def compat3TaskCloseAllFds (s : Sys) (i : ℕ) : Sys :=
  if s.tasks.c3FdGroupHasLivePeer i then s.dropOwnFds i
  else closeWhere (fun e => e.kind != .none) i (List.range' 0 taskFdMax) s

def setState (s : Sys) (i : ℕ) (st : TaskState) (used : Bool) : Sys :=
  { s with tasks := s.tasks.setTask i { s.tasks.task i with state := st, used := used } }

/-- A thread other than the first of its group leaves no zombie. -/
def autoReap (t : Task) : Bool := t.user && t.tgid != 0 && t.tgid != t.pid

def taskExit (s : Sys) (i : ℕ) : Sys :=
  let closed := (s.setState i .zombie true).compat3TaskCloseAllFds i
  if autoReap (s.tasks.task i) then closed.setState i .free false else closed

/-- The part of `task_waitpid` that frees a zombie's entry. -/
def reap (s : Sys) (i : ℕ) : Sys := s.setState i .zombie false

/-! ### New descriptors -/

/-- Enter an object in the caller's table; the new number, or nothing for `-EMFILE`. -/
def allocFd (s : Sys) (cur : ℕ) (kind : FdKind) (ref : ℕ) (flags : BitVec 16) : Option ℕ × Sys :=
  ((s.tasks.c3FdAllocForTask cur kind ref flags).1,
    { s with tasks := (s.tasks.c3FdAllocForTask cur kind ref flags).2 })

/-- The end of most calls that make a descriptor: the number, or `-EMFILE` and a clean-up. -/
def handOut (cleanup : Objects → Objects) : Option ℕ × Sys → Outcome × Sys
  | (some fd, s) => (.ok [fd], s)
  | (none, s) => (.error .emfile, s.setObjs (cleanup s.objs))

/-- The body of `c3_dup_fd_min` once the old descriptor is there. -/
def dupFrom (s : Sys) (cur oldfd minfd : ℕ) (cloexec : Bool) : Outcome × Sys :=
  match s.tasks.freeFd cur minfd with
  | some nfd =>
    (.ok [nfd], s.installFd cur nfd
      { s.entry cur oldfd with
        flags := ((s.entry cur oldfd).flags &&& ~~~fdflCloexec) |||
          (if cloexec then fdflCloexec else 0) })
  | none => (.error .emfile, s)

def c3DupFdMin (s : Sys) (cur oldfd minfd : ℕ) (cloexec : Bool) : Outcome × Sys :=
  let s := s.syncFd cur oldfd
  if !s.valid cur oldfd then (.error .ebadf, s)
  else if taskFdMax ≤ minfd then (.error .einval, s)
  else s.dupFrom cur oldfd minfd cloexec

def realSysDup (s : Sys) (cur oldfd : ℕ) : Outcome × Sys := s.c3DupFdMin cur oldfd 0 false

/-- The last part of `real_sys_dup2`. -/
def dup2Copy (s : Sys) (cur oldfd newfd : ℕ) : Sys :=
  s.installFd cur newfd
    { s.entry cur oldfd with flags := (s.entry cur oldfd).flags &&& ~~~fdflCloexec }

/-- `real_sys_dup2` once both numbers are accepted and differ. -/
def dup2Onto (s : Sys) (cur oldfd newfd : ℕ) : Outcome × Sys :=
  let s := s.syncFd cur newfd
  if s.valid cur newfd then
    match s.c3CloseFdForTask cur newfd with
    | (.error e, s) => (.error e, s)
    | (.ok _, s) => (.ok [newfd], s.dup2Copy cur oldfd newfd)
  else (.ok [newfd], s.dup2Copy cur oldfd newfd)

def realSysDup2 (s : Sys) (cur oldfd newfd : ℕ) : Outcome × Sys :=
  let s := s.syncFd cur oldfd
  if !s.valid cur oldfd then (.error .ebadf, s)
  else if taskFdMax ≤ newfd then (.error .ebadf, s)
  else if oldfd = newfd then (.ok [newfd], s)
  else s.dup2Onto cur oldfd newfd

def realSysDup3 (s : Sys) (cur oldfd newfd : ℕ) (flags : BitVec 32) : Outcome × Sys :=
  if hasMode flags (~~~oCloexec) then (.error .einval, s)
  else if oldfd = newfd then (.error .einval, s)
  else
    match s.realSysDup2 cur oldfd newfd with
    | (.ok l, s) =>
      if hasMode flags oCloexec then
        (.ok l, { s with tasks :=
          (s.tasks.addFlags cur newfd fdflCloexec).c3FdGroupCopyFd cur newfd })
      else (.ok l, s)
    | (.error e, s) => (.error e, s)

/-- The commands of `fcntl`; the commands of `other` change no descriptor. -/
inductive Fcntl
  | dupfd (arg : ℕ)
  | dupfdCloexec (arg : ℕ)
  | setfd (arg : BitVec 64)
  | setfl (arg : BitVec 64)
  | other

def setFlags (s : Sys) (cur fd : ℕ) (flags : BitVec 16) : Sys :=
  s.installFd cur fd { s.entry cur fd with flags := flags }

def flIf (b : Bool) (f : BitVec 16) : BitVec 16 := if b then f else 0

def realSysFcntl (s : Sys) (cur fd : ℕ) (cmd : Fcntl) : Outcome × Sys :=
  let s := s.syncFd cur fd
  if !s.valid cur fd then (.error .ebadf, s)
  else
    match cmd with
    | .dupfd arg =>
      if taskFdMax ≤ arg then (.error .einval, s) else s.c3DupFdMin cur fd arg false
    | .dupfdCloexec arg =>
      if taskFdMax ≤ arg then (.error .einval, s) else s.c3DupFdMin cur fd arg true
    | .setfd arg =>
      (.ok [], s.setFlags cur fd
        (if Tasks.hasFlag arg 1 then (s.entry cur fd).flags ||| fdflCloexec
        else (s.entry cur fd).flags &&& ~~~fdflCloexec))
    | .setfl arg =>
      (.ok [], s.setFlags cur fd
        (((s.entry cur fd).flags &&& ~~~(fdflAppend ||| fdflNonblock)) |||
          flIf (Tasks.hasFlag arg 0x08 || Tasks.hasFlag arg 0x800) fdflNonblock |||
          flIf (Tasks.hasFlag arg 0x04 || Tasks.hasFlag arg 0x400) fdflAppend))
    | .other => (.ok [], s)

/-! ### Open -/

/-- The descriptor flags of an open mode. -/
def openFlags (flags : BitVec 32) : BitVec 16 :=
  (if flags &&& 2 = 2 then fdflReadable ||| fdflWritable
    else if hasMode flags 1 then fdflWritable else fdflReadable) |||
  flIf (hasMode flags 0x400) fdflAppend ||| flIf (hasMode flags oNonblock) fdflNonblock |||
  flIf (hasMode flags oCloexec) fdflCloexec

/-- The device kinds, which have no object of their own. -/
inductive DevKind
  | null | zero | random | fb | tty | ptmx | input | snd | fuse

def DevKind.fdKind : DevKind → FdKind
  | .null => .devnull
  | .zero => .devzero
  | .random => .devrandom
  | .fb => .devfb
  | .tty => .devtty
  | .ptmx => .devptmx
  | .input => .devinput
  | .snd => .devsnd
  | .fuse => .devfuse

/-- What the path of an `open` turned out to be. -/
inductive OpenTarget
  /-- `/proc/…/fd/N` of the caller or of the task with a pid -/
  | procFd (pid : Option ℕ) (fdn : ℕ)
  /-- a directory, opened with `O_TMPFILE` -/
  | tmpfile
  /-- an existing memfd or hidden file -/
  | anon (path : OpenPath)
  /-- a symlink, opened with `O_NOFOLLOW` -/
  | symlink
  | dir
  | dev (kind : DevKind) (ref : ℕ)
  /-- a file of `/proc` or `/sys`; `generated` says that its contents could be made -/
  | proc (generated : Bool)
  /-- a file with a name, present or created -/
  | file
  | refused (e : Errno)

/-- Open a slot on a file and enter it. -/
def openSlot (s : Sys) (cur : ℕ) (kind : FdKind) (path : OpenPath) (fl : BitVec 16) :
    Outcome × Sys :=
  match s.objs.c3VfsOpenSlotAlloc path with
  | (none, _) => (.error .emfile, s)
  | (some slot, objs) => handOut id ((s.setObjs objs).allocFd cur kind slot fl)

/-- Open what another descriptor refers to. -/
def openProcFd (s : Sys) (cur owner fdn : ℕ) (flags : BitVec 32) : Outcome × Sys :=
  if !s.valid owner fdn then (.error .ebadf, s)
  else if openFlags flags &&& fdflWritable != 0 &&
      (s.entry owner fdn).flags &&& fdflWritable == 0 then (.error .eacces, s)
  else if openFlags flags &&& fdflReadable != 0 &&
      (s.entry owner fdn).flags &&& fdflReadable == 0 then (.error .eacces, s)
  else
    handOut id (s.allocFd cur (s.entry owner fdn).kind (s.entry owner fdn).ref
      (((s.entry owner fdn).flags ||| flIf (hasMode flags oNonblock) fdflNonblock) &&&
          ~~~fdflCloexec ||| flIf (hasMode flags oCloexec) fdflCloexec))

/-- The index of the task named by `/proc/self` or `/proc/<pid>`. -/
def procOwner (s : Sys) (cur : ℕ) : Option ℕ → Option ℕ
  | none => some cur
  | some pid => s.tasks.taskIndexByPid pid

/-- Fill a buffer for a `/proc` file that has a descriptor already: only the entry of the caller
learns the buffer's index. -/
def attachProc (s : Sys) (cur fd : ℕ) (generated : Bool) : Outcome × Sys :=
  match s.objs.poolAlloc .procBuf with
  | (none, _) => (.error .emfile, { s with tasks := s.tasks.c3FdGroupClearFd cur fd })
  | (some i, objs) =>
    if generated then
      (.ok [fd],
        { s with objs := objs, tasks := s.tasks.setFd cur fd { s.entry cur fd with ref := i } })
    else (.error .enoent, { s with tasks := s.tasks.c3FdGroupClearFd cur fd })

def openProc (s : Sys) (cur : ℕ) (flags : BitVec 32) (generated : Bool) : Outcome × Sys :=
  match s.allocFd cur .proc 0 (openFlags flags) with
  | (none, s) => (.error .emfile, s)
  | (some fd, s) => s.attachProc cur fd generated

/-- Make a hidden file and open it. -/
def openTmpfile (s : Sys) (cur : ℕ) (flags : BitVec 32) : Outcome × Sys :=
  (s.setObjs s.objs.newHidden).openSlot cur .vfsfile (.deleted s.objs.deletedSeq)
    (openFlags flags ||| fdflReadable ||| fdflWritable)

def realSysOpen (s : Sys) (cur : ℕ) (flags : BitVec 32) : OpenTarget → Outcome × Sys
  | .procFd pid fdn =>
    match s.procOwner cur pid with
    | some owner => s.openProcFd cur owner fdn flags
    | none => (.error .esrch, s)
  | .tmpfile => s.openTmpfile cur flags
  | .anon path =>
    if s.objs.anon path then s.openSlot cur .vfsfile path (openFlags flags)
    else (.error .enoent, s)
  | .symlink => s.openSlot cur .symlink .named (openFlags flags)
  | .dir =>
    if openFlags flags &&& fdflWritable != 0 || hasMode flags 0x200 then (.error .eisdir, s)
    else s.openSlot cur .dir .named (openFlags flags ||| fdflReadable)
  | .dev kind ref => handOut id (s.allocFd cur kind.fdKind ref (openFlags flags))
  | .proc generated => s.openProc cur flags generated
  | .file => s.openSlot cur .vfsfile .named (openFlags flags)
  | .refused e => (.error e, s)

def realSysMemfdCreate (s : Sys) (cur : ℕ) (cloexec : Bool) : Outcome × Sys :=
  (s.setObjs s.objs.newMemfd).openSlot cur .vfsfile (.memfd s.objs.memfdSeq)
    (fdflReadable ||| fdflWritable ||| flIf cloexec fdflCloexec)

/-! ### Pipes, sockets and pooled objects -/

/-- The two ends of a new pipe are entered one after the other. -/
def pipeFds (s : Sys) (cur i : ℕ) : Outcome × Sys :=
  match s.allocFd cur .pipeR i fdflReadable with
  | (r, s) =>
    match s.allocFd cur .pipeW i fdflWritable with
    | (w, s) =>
      match r, w with
      | some r, some w => (.ok [r, w], s)
      | _, _ => (.error .emfile, s)

def realSysPipe (s : Sys) (cur : ℕ) : Outcome × Sys :=
  match s.objs.pipeCreate with
  | (none, _) => (.error .enomem, s)
  | (some i, objs) => (s.setObjs objs).pipeFds cur i

/-- `pipe2` sets its flags on both ends before it copies them to the peers. -/
def pipe2Flags (ts : Tasks) (cur r w : ℕ) (flags : BitVec 32) : Tasks :=
  let ts := if hasMode flags oNonblock then
    (ts.addFlags cur r fdflNonblock).addFlags cur w fdflNonblock else ts
  let ts := if hasMode flags oCloexec then
    (ts.addFlags cur r fdflCloexec).addFlags cur w fdflCloexec else ts
  (ts.c3FdGroupCopyFd cur r).c3FdGroupCopyFd cur w

def realSysPipe2 (s : Sys) (cur : ℕ) (flags : BitVec 32) : Outcome × Sys :=
  if hasMode flags (~~~(oNonblock ||| oCloexec)) then (.error .einval, s)
  else
    match s.realSysPipe cur with
    | (.ok [r, w], s) => (.ok [r, w], { s with tasks := pipe2Flags s.tasks cur r w flags })
    | (rc, s) => (rc, s)

/-- The descriptor flags that `socket` and the other calls below take from their mode. -/
def modeFlags (base : BitVec 16) (flags : BitVec 32) : BitVec 16 :=
  base ||| flIf (hasMode flags oNonblock) fdflNonblock ||| flIf (hasMode flags oCloexec) fdflCloexec

/-- The types that `socket` accepts; the last one is raw netlink. -/
def socketType (domain type : BitVec 32) : Bool :=
  type &&& 0xF == 1 || type &&& 0xF == 5 || type &&& 0xF == 2 || (type &&& 0xF == 3 && domain == 16)

/-- A new socket for one of the domains that `sock_create` knows. -/
def sockCreateIn (o : Objects) (domain : BitVec 32) : Option ℕ × Objects :=
  if domain == 1 || domain == 2 || domain == 16 then o.sockCreate else (none, o)

def realSysSocket (s : Sys) (cur : ℕ) (domain type : BitVec 32) : Outcome × Sys :=
  if !socketType domain type then (.error .einval, s)
  else
    match sockCreateIn s.objs domain with
    | (none, _) => (.error .enomem, s)
    | (some i, objs) =>
      handOut (fun o => o.sockClose i) ((s.setObjs objs).allocFd cur .socket i
        (modeFlags (fdflReadable ||| fdflWritable) type))

/-- The ends of a socket pair; a failure takes back what was entered. -/
def socketpairFds (s : Sys) (cur a b : ℕ) (fl : BitVec 16) : Outcome × Sys :=
  match s.allocFd cur .socket a fl with
  | (none, s) => (.error .emfile, s.setObjs ((s.objs.sockClose a).sockClose b))
  | (some fd0, s) =>
    match s.allocFd cur .socket b fl with
    | (none, s) => (.error .emfile, { s with
        objs := (s.objs.sockClose a).sockClose b, tasks := s.tasks.c3FdGroupClearFd cur fd0 })
    | (some fd1, s) => (.ok [fd0, fd1], s)

def realSysSocketpair (s : Sys) (cur : ℕ) (domain type : BitVec 32) : Outcome × Sys :=
  if !(domain == 1 || domain == 2) then (.error .einval, s)
  else if !(type &&& 0xF == 1 || type &&& 0xF == 5 || type &&& 0xF == 2) then (.error .einval, s)
  else
    match s.objs.sockPairCreate with
    | (none, objs) => (.error .enomem, s.setObjs objs)
    | (some (a, b), objs) =>
      (s.setObjs objs).socketpairFds cur a b
        (modeFlags (fdflReadable ||| fdflWritable) type)

/-- A new object of a pool with a descriptor. -/
def createPooled (s : Sys) (cur : ℕ) (p : Pool) (kind : FdKind) (fl : BitVec 16) (full : Errno) :
    Outcome × Sys :=
  match s.objs.poolAlloc p with
  | (none, _) => (.error full, s)
  | (some i, objs) =>
    handOut (fun o => o.poolFree p i) ((s.setObjs objs).allocFd cur kind i fl)

def realSysEventfd2 (s : Sys) (cur : ℕ) (flags : BitVec 32) : Outcome × Sys :=
  if hasMode flags (~~~(1 ||| oNonblock ||| oCloexec)) then (.error .einval, s)
  else s.createPooled cur .eventfd .eventfd
    (modeFlags (fdflReadable ||| fdflWritable) flags) .emfile

def realSysEpollCreate1 (s : Sys) (cur : ℕ) (flags : BitVec 32) : Outcome × Sys :=
  if hasMode flags (~~~oCloexec) then (.error .einval, s)
  else s.createPooled cur .epoll .epoll (modeFlags (fdflReadable ||| fdflWritable) flags) .enomem

def realSysTimerfdCreate (s : Sys) (cur : ℕ) (flags : BitVec 32) : Outcome × Sys :=
  if hasMode flags (~~~(oNonblock ||| oCloexec)) then (.error .einval, s)
  else s.createPooled cur .timerfd .timerfd (modeFlags fdflReadable flags) .emfile

def realSysInotifyInit1 (s : Sys) (cur : ℕ) (flags : BitVec 32) : Outcome × Sys :=
  if hasMode flags (~~~(oNonblock ||| oCloexec)) then (.error .einval, s)
  else s.createPooled cur .inotify .inotify (modeFlags fdflReadable flags) .enomem

/-! ### Rights -/

/-- The entry of `g_c3_scm_rights` that the search from `g_c3_scm_rights_next` finds. -/
def freeRight (s : Sys) : Option ℕ :=
  (firstSlot (fun n => (s.rights ((s.rightsNext + n) % c3ScmRightsMax)).isNone)
    c3ScmRightsMax).map fun n => (s.rightsNext + n) % c3ScmRightsMax

def c3ScmRightStore (s : Sys) (cur passFd : ℕ) : Except Errno ℕ × Sys :=
  if !s.valid cur passFd then (.error .ebadf, s)
  else
    match s.freeRight with
    | some t =>
      (.ok t, { s with
        rights := update s.rights t
          (some { s.entry cur passFd with flags := (s.entry cur passFd).flags &&& ~~~fdflCloexec })
        rightsNext := (t + 1) % c3ScmRightsMax })
    | none => (.error .enfile, s)

def c3ScmRightDiscard (s : Sys) (t : ℕ) : Sys :=
  { s with rights := update s.rights t none }

/-- Queue a stored right; one that cannot be queued is discarded. -/
def queueRight (s : Sys) (ref t : ℕ) : Outcome × Sys :=
  match s.objs.sockSendRight ref t with
  | (true, objs) => (.ok [], s.setObjs objs)
  | (false, _) => (.error .eagain, s.c3ScmRightDiscard t)

/-- One round of `c3_sendmsg_queue_rights`, for the socket of descriptor `sockFd`. -/
def sendRight (s : Sys) (cur sockFd passFd : ℕ) : Outcome × Sys :=
  if !s.valid cur sockFd || (s.entry cur sockFd).kind != .socket then (.error .enotsock, s)
  else
    match s.c3ScmRightStore cur passFd with
    | (.ok t, s) => s.queueRight (s.entry cur sockFd).ref t
    | (.error e, s) => (.error e, s)

/-- A right becomes a descriptor of the receiver, with the offset of the descriptor sent. -/
def enterRight (s : Sys) (cur : ℕ) (e : Fd) (cloexec : Bool) : Option ℕ × Sys :=
  match s.allocFd cur e.kind e.ref (e.flags &&& ~~~fdflCloexec ||| flIf cloexec fdflCloexec) with
  | (none, s) => (none, s)
  | (some nfd, s) => (some nfd, s.installFd cur nfd { s.entry cur nfd with offset := e.offset })

def c3ScmRightTake (s : Sys) (cur t : ℕ) (cloexec : Bool) : Outcome × Sys :=
  match s.rights t with
  | none => (.error .ebadf, s)
  | some e =>
    match s.enterRight cur e cloexec with
    | (none, s) => (.error .emfile, s)
    | (some nfd, s) => (.ok [nfd], s.c3ScmRightDiscard t)

/-- One round of `c3_recvmsg_drain_rights`.  The rights for which the caller left no room are
closed by `c3_close_fd_for_task` after the rounds. -/
def recvRight (s : Sys) (cur sockFd : ℕ) (cloexec : Bool) : Outcome × Sys :=
  if !s.valid cur sockFd || (s.entry cur sockFd).kind != .socket then (.error .enotsock, s)
  else
    match s.objs.sockRecvRight (s.entry cur sockFd).ref with
    | (none, _) => (.error .eagain, s)
    | (some t, objs) => (s.setObjs objs).c3ScmRightTake cur t cloexec

/-! ### Runs -/

inductive Syscall
  | fork
  | clone (flags childStack : BitVec 64) (sharedOk : Bool)
  | open (flags : BitVec 32) (target : OpenTarget)
  | memfdCreate (cloexec : Bool)
  | dup (oldfd : ℕ)
  | dup2 (oldfd newfd : ℕ)
  | dup3 (oldfd newfd : ℕ) (flags : BitVec 32)
  | fcntl (fd : ℕ) (cmd : Fcntl)
  | pipe
  | pipe2 (flags : BitVec 32)
  | socket (domain type : BitVec 32)
  | socketpair (domain type : BitVec 32)
  | eventfd2 (flags : BitVec 32)
  | epollCreate1 (flags : BitVec 32)
  | timerfdCreate (flags : BitVec 32)
  | inotifyInit1 (flags : BitVec 32)
  | close (fd : ℕ)
  | exec
  | sendRight (sockFd passFd : ℕ)
  | recvRight (sockFd : ℕ) (cloexec : Bool)

/-- Outcome of the calls that make a task. -/
def taskOutcome (s : Sys) : Option ℕ × Tasks → Outcome × Sys
  | (some _, ts) => (.ok [], { s with tasks := ts })
  | (none, ts) => (.error .eagain, { s with tasks := ts })

def call (s : Sys) (cur : ℕ) : Syscall → Outcome × Sys
  | .fork => s.taskOutcome (s.tasks.realSysFork cur)
  | .clone flags childStack sharedOk =>
    s.taskOutcome (s.tasks.realSysClone cur flags childStack sharedOk)
  | .open flags target => s.realSysOpen cur flags target
  | .memfdCreate cloexec => s.realSysMemfdCreate cur cloexec
  | .dup oldfd => s.realSysDup cur oldfd
  | .dup2 oldfd newfd => s.realSysDup2 cur oldfd newfd
  | .dup3 oldfd newfd flags => s.realSysDup3 cur oldfd newfd flags
  | .fcntl fd cmd => s.realSysFcntl cur fd cmd
  | .pipe => s.realSysPipe cur
  | .pipe2 flags => s.realSysPipe2 cur flags
  | .socket domain type => s.realSysSocket cur domain type
  | .socketpair domain type => s.realSysSocketpair cur domain type
  | .eventfd2 flags => s.realSysEventfd2 cur flags
  | .epollCreate1 flags => s.realSysEpollCreate1 cur flags
  | .timerfdCreate flags => s.realSysTimerfdCreate cur flags
  | .inotifyInit1 flags => s.realSysInotifyInit1 cur flags
  | .close fd => s.realSysClose cur fd
  | .exec => (.ok [], s.c3ExecCloseCloexecFds cur)
  | .sendRight sockFd passFd => s.sendRight cur sockFd passFd
  | .recvRight sockFd cloexec => s.recvRight cur sockFd cloexec

/-- The operations of a run: a call of a task, its end, the end of its zombie, and what the rest
of the kernel does meanwhile: data moves through a socket, a hidden file is mapped or unmapped. -/
inductive Op
  | call (cur : ℕ) (c : Syscall)
  | exit (i : ℕ)
  | reap (i : ℕ)
  | stream (i : ℕ) (rxHead rxTail : BitVec 32)
  | mapping (n : ℕ) (b : Bool)

def exec (s : Sys) : Op → Sys
  | .call cur c => (s.call cur c).2
  | .exit i => s.taskExit i
  | .reap i => s.reap i
  | .stream i rxHead rxTail =>
    s.setObjs (s.objs.setSock i { s.objs.sock i with rxHead := rxHead, rxTail := rxTail })
  | .mapping n b => s.setObjs { s.objs with mapped := update s.objs.mapped n b }

/-- A call and an exit need a live task, and only a zombie is reaped. -/
def enabled (s : Sys) : Op → Prop
  | .call cur _ => cur < taskMax ∧ (s.tasks.task cur).live = true
  | .exit i => i < taskMax ∧ (s.tasks.task i).live = true
  | .reap i => i < taskMax ∧ (s.tasks.task i).used = true ∧ (s.tasks.task i).state = .zombie
  | .stream _ _ _ => True
  | .mapping _ _ => True

instance (s : Sys) (op : Op) : Decidable (s.enabled op) :=
  match op with
  | .call _ _ => inferInstanceAs (Decidable (_ ∧ _))
  | .exit _ => inferInstanceAs (Decidable (_ ∧ _))
  | .reap _ => inferInstanceAs (Decidable (_ ∧ _ ∧ _))
  | .stream _ _ _ => inferInstanceAs (Decidable True)
  | .mapping _ _ => inferInstanceAs (Decidable True)

end Sys

end Ridux
