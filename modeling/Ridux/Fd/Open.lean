import Ridux.Fd.Syscall
import Ridux.Vfs.Dirents
import Ridux.Vfs.Extent
import Ridux.Vfs.Symlink

/-!
# What `open` and `pipe` take on their way

`real_sys_open` first finds out what its path is, without a change to any table, and then takes what this
kind of file needs, one thing after the other.  `real_sys_pipe` takes a pipe and two descriptors.

* `OpenTables`: the tables that the calls take from;
* `openCase`: what the path is, or the error;
* `openSlot`, `openTmpfile`, `openSparse`, `openDev`: how each kind of file is opened;
* `realSysOpen`, `realSysPipe`: the calls.

The modes of paths, the bytes in pipes, and what is told to `inotify` are left out.  A path is a C string in
a buffer of the size that the tables have for it, so that a copy keeps it.
-/

namespace Ridux

open Lib Function

inductive OpenErrno
  | efault | einval | esrch | ebadf | eacces | enomem | emfile | enotdir | eexist | eisdir | enoent | enospc
  | eloop | enametoolong
  deriving DecidableEq

/-- The error of a symlink. -/
def SymlinkErr.openErrno : SymlinkErr → OpenErrno
  | .efault => .efault
  | .einval => .einval
  | .eloop => .eloop
  | .enametoolong => .enametoolong

def oCreat : BitVec 32 := 0x40
def oExcl : BitVec 32 := 0x80
def oTrunc : BitVec 32 := 0x200
def oDirectory : BitVec 32 := 0x10000
def oNofollow : BitVec 32 := 0x20000
def oTmpfile : BitVec 32 := 0x410000

def procBufMax : ℕ := 16

/-- The tables that `open` and `pipe` take from. -/
structure OpenTables where
  tasks : Tasks
  /-- `g_c3_vfs_open`, with the paths of the used slots -/
  slots : ℕ → Option Bytes
  vfs : Vfs
  /-- `g_c3_memfds` -/
  memfds : ℕ → MemfdTrack
  /-- the `used` bits of `g_proc_bufs` -/
  procBufs : ℕ → Bool
  pipes : ℕ → Pipe
  /-- `g_c3_deleted_seq` -/
  deletedSeq : BitVec 32

/-- What a call reads besides the tables.  `isDir` is `c3_path_is_dir`, `procGenerate` the error of
`proc_generate` if it fails, and `ok₁` and `ok₂` answer the calls of `kmalloc`. -/
structure OpenEnv where
  user : PathEnv
  path : PathArg
  links : SymlinkEnv
  isDir : Bytes → Bool
  procGenerate : Bytes → Option OpenErrno
  flags : BitVec 32
  ok₁ : Bool
  ok₂ : Bool

/-- What the path of an `open` turned out to be. -/
inductive OpenCase
  /-- `/proc/…/fd/N`: the descriptor of a task -/
  | share (owner fdn : ℕ)
  /-- a directory, opened with `O_TMPFILE` -/
  | tmpfile
  /-- a file that has a size of its own -/
  | memfd (path : Bytes)
  /-- a symlink that is not followed, or a directory -/
  | slot (kind : FdKind) (path : Bytes) (fl : BitVec 16)
  | dev (kind : FdKind) (path : Bytes)
  /-- a file of the node table -/
  | file (path : Bytes)
  /-- a new file that gets a size of its own -/
  | sparse (path : Bytes)
  /-- a new file of the node table -/
  | create (path : Bytes)

/-! ### Paths -/

def resolveDevKind (path : Bytes) : FdKind :=
  let isAny (names : List String) : Bool := names.any fun name => path == ascii name
  let under (name : String) : Bool := startsWith path (ascii name)
  if isAny ["/dev/null"] then .devnull
  else if isAny ["/dev/zero"] then .devzero
  else if isAny ["/dev/random", "/dev/urandom"] then .devrandom
  else if isAny ["/dev/fuse"] then .devfuse
  else if isAny ["/dev/fb0"] then .devfb
  else if isAny ["/dev/dri/card0", "/dev/dri/renderD128"] then .devfb
  else if isAny ["/dev/input/event0", "/dev/input/event1", "/dev/input/mice"] then .devinput
  else if isAny ["/dev/snd/timer", "/dev/snd/controlC0", "/dev/snd/pcmC0D0p"] then .devsnd
  else if isAny ["/dev/tty", "/dev/tty0", "/dev/tty1", "/dev/console"] then .devtty
  else if isAny ["/dev/ptmx"] || under "/dev/pts/" then .devptmx
  else if under "/dev/stdin" then .devtty
  else if under "/dev/stdout" then .devtty
  else if under "/dev/stderr" then .devtty
  else if under "/proc/" then .proc
  else if under "/sys/" then .proc
  else .none

/-- `c3_dev_ref_from_path`. -/
def devRefFromPath (path : Bytes) : FdKind → ℕ
  | .devfb => if path = ascii "/dev/dri/card0" then 1 else if path = ascii "/dev/dri/renderD128" then 2 else 0
  | .devinput =>
    if path = ascii "/dev/input/event0" then 0
    else if path = ascii "/dev/input/event1" then 1
    else if path = ascii "/dev/input/mice" then 2
    else 0
  | .devsnd =>
    if path = ascii "/dev/snd/controlC0" then 0
    else if path = ascii "/dev/snd/pcmC0D0p" then 1
    else if path = ascii "/dev/snd/timer" then 2
    else 0
  | .devtty =>
    if path = ascii "/dev/tty0" then 1
    else if path = ascii "/dev/tty1" then 2
    else if path = ascii "/dev/console" then 3
    else 0
  | _ => 0

/-- `c3_sparse_tmpfs_path`. -/
def sparseTmpfsPath (path : Bytes) : Bool :=
  startsWith path (ascii "/dev/shm/") || startsWith path (ascii "/tmp/ridux-visible-shell-") ||
    startsWith path (ascii "/tmp/wlroots-")

/-- The loop of `c3_parse_fd_number_tail`; `any` says that it has read a digit. -/
def fdNumberFrom (any : Bool) (fd : ℕ) : Bytes → Except OpenErrno ℕ
  | [] => if any then .ok fd else .error .einval
  | c :: s =>
    if 0x30 ≤ c ∧ c ≤ 0x39 then
      let fd := fd * 10 + (c - 0x30).toNat
      if taskFdMax ≤ fd then .error .ebadf else fdNumberFrom true fd s
    else .error .einval

/-- `c3_parse_fd_number_tail`. -/
def parseFdNumberTail (s : Bytes) : Except OpenErrno ℕ := fdNumberFrom false 0 s

namespace OpenEnv

variable (env : OpenEnv)

/-- `npath`: the path that the call works on. -/
def npath : Except OpenErrno Bytes :=
  match env.path with
  | .null => .error .efault
  | path => (env.user.resolveUserPath atFdcwd path vfsPathMax).mapError fun _ => .einval

/-- The path is a symlink, of the kernel or in a file. -/
def isLink (path : Bytes) : Bool :=
  (builtinSymlinkTarget env.links.vboxGpu path).isSome || (env.links.kvfsSymlinkTarget path).isSome

/-- `fl & FDFL_WRITABLE`. -/
def writable : Bool := Sys.openFlags env.flags &&& fdflWritable != 0

end OpenEnv

namespace OpenTables

variable (s : OpenTables)

/-- `c3_memfd_track_find`. -/
def memfdTrackFind (path : Bytes) : Option ℕ :=
  if path = [] then none
  else firstSlot (fun i => (s.memfds i).used && (s.memfds i).path = path) c3MemfdTrackMax

/-- `c3_proc_fd_target`. -/
def procFdTarget (cur : ℕ) (path : Bytes) : Except OpenErrno (Option (ℕ × ℕ)) :=
  let target (owner : ℕ) (tail : Bytes) : Except OpenErrno (Option (ℕ × ℕ)) :=
    match parseFdNumberTail tail with
    | .error e => .error e
    | .ok fdn => if fdValid (s.tasks.task owner) fdn then .ok (some (owner, fdn)) else .error .ebadf
  if startsWith path (ascii "/proc/self/fd/") then target cur (path.drop 14)
  else
    match parseProcPidPath path with
    | none => .ok none
    | some (pid, tail) =>
      if startsWith tail (ascii "/fd/") then
        match s.tasks.taskIndexByPid pid.toNat with
        | none => .error .esrch
        | some owner => target owner (tail.drop 4)
      else .ok none

/-- The path of a `/proc/…/fd/N`: the new descriptor may do no more than the old one. -/
def shareCase (env : OpenEnv) (owner fdn : ℕ) : Except OpenErrno OpenCase :=
  let old := (s.tasks.task owner).fds fdn
  if env.writable ∧ old.flags &&& fdflWritable = 0 then .error .eacces
  else if Sys.openFlags env.flags &&& fdflReadable ≠ 0 ∧ old.flags &&& fdflReadable = 0 then .error .eacces
  else .ok (.share owner fdn)

/-- What a path is that is no symlink any more. -/
def followedCase (env : OpenEnv) (path : Bytes) : Except OpenErrno OpenCase :=
  if env.isDir path then
    if env.writable ∨ hasMode env.flags oTrunc then .error .eisdir
    else .ok (.slot .dir path (Sys.openFlags env.flags ||| fdflReadable))
  else if resolveDevKind path ≠ .none then
    if hasMode env.flags oDirectory then .error .enotdir else .ok (.dev (resolveDevKind path) path)
  else if (vfsFind s.vfs path).isSome then
    if hasMode env.flags oDirectory then .error .enotdir
    else if hasMode env.flags oCreat ∧ hasMode env.flags oExcl then .error .eexist
    else .ok (.file path)
  else if hasMode env.flags oDirectory then .error .enoent
  else if hasMode env.flags oCreat then
    if sparseTmpfsPath path then .ok (.sparse path) else .ok (.create path)
  else .error .enoent

/-- What a path is that names no descriptor. -/
def pathCase (env : OpenEnv) (path : Bytes) : Except OpenErrno OpenCase :=
  if env.flags &&& oTmpfile = oTmpfile ∧ env.isDir path then .ok .tmpfile
  else if (s.memfdTrackFind path).isSome then
    if hasMode env.flags oDirectory then .error .enotdir
    else if hasMode env.flags oCreat ∧ hasMode env.flags oExcl then .error .eexist
    else .ok (.memfd path)
  else if hasMode env.flags oNofollow ∧ env.isLink path then
    .ok (.slot .symlink path (Sys.openFlags env.flags))
  else
    match env.links.resolvePath path vfsPathMax with
    | .error e => .error e.openErrno
    | .ok path => s.followedCase env path

/-- What the path of the call is, or the error of the call. -/
def openCase (env : OpenEnv) (cur : ℕ) : Except OpenErrno OpenCase :=
  match env.npath with
  | .error e => .error e
  | .ok path =>
    match s.procFdTarget cur path with
    | .error e => .error e
    | .ok (some (owner, fdn)) => s.shareCase env owner fdn
    | .ok none => s.pathCase env path

/-! ### Entries of the tables -/

/-- `c3_fd_alloc_for_task`, as a call ends with it. -/
def openFd (cur : ℕ) (kind : FdKind) (ref : ℕ) (fl : BitVec 16) : Except OpenErrno ℕ × OpenTables :=
  match s.tasks.c3FdAllocForTask cur kind ref fl with
  | (none, tasks) => (.error .emfile, { s with tasks := tasks })
  | (some fd, tasks) => (.ok fd, { s with tasks := tasks })

def c3VfsOpenSlotAlloc (path : Bytes) : Option ℕ × OpenTables :=
  match freeSlot s.slots openMaxFiles with
  | some i => (some i, { s with slots := update s.slots i (some path) })
  | none => (none, s)

/-- A slot for a path, and a descriptor for the slot. -/
def openSlot (cur : ℕ) (kind : FdKind) (path : Bytes) (fl : BitVec 16) : Except OpenErrno ℕ × OpenTables :=
  match s.c3VfsOpenSlotAlloc path with
  | (none, s) => (.error .emfile, s)
  | (some slot, s) => s.openFd cur kind slot fl

/-- `c3_memfd_track_set`. -/
def memfdTrackSet (path : Bytes) (seals : BitVec 32) : Bool × OpenTables :=
  if path = [] then (false, s)
  else
    match s.memfdTrackFind path with
    | some i => (true, { s with memfds := update s.memfds i { s.memfds i with seals := seals } })
    | none =>
      match firstSlot (fun i => !(s.memfds i).used) c3MemfdTrackMax with
      | some i =>
        (true, { s with memfds := update s.memfds i ⟨true, path, seals, 0⟩ })
      | none => (false, s)

/-- `c3_memfd_path_set_size`. -/
def memfdPathSetSize (path : Bytes) (size : BitVec 64) : OpenTables :=
  match s.memfdTrackFind path with
  | some i => { s with memfds := update s.memfds i { s.memfds i with size := size } }
  | none => s

/-- `kvfs_write(path, "")`. -/
def kvfsEmpty (env : OpenEnv) (path : Bytes) : Bool × OpenTables :=
  ((vfsWrite env.ok₁ env.ok₂ path [] s.vfs).1,
    { s with vfs := (vfsWrite env.ok₁ env.ok₂ path [] s.vfs).2 })

/-! ### The kinds of files -/

/-- Open what another descriptor refers to. -/
def openShare (env : OpenEnv) (cur owner fdn : ℕ) : Except OpenErrno ℕ × OpenTables :=
  let old := (s.tasks.task owner).fds fdn
  let fl := old.flags ||| Sys.flIf (hasMode env.flags oNonblock) fdflNonblock
  s.openFd cur old.kind old.ref
    (if hasMode env.flags oCloexec then fl ||| fdflCloexec else fl &&& ~~~fdflCloexec)

/-- `hidden`: the name of the file of `O_TMPFILE`. -/
def tmpfileName (cur : ℕ) : Bytes :=
  hiddenName (BitVec.ofNat 32 (s.tasks.task cur).pid) (nextSeq s.deletedSeq)

/-- `O_TMPFILE`: a file in the node table, a size of its own, a slot and a descriptor. -/
def openTmpfile (env : OpenEnv) (cur : ℕ) : Except OpenErrno ℕ × OpenTables :=
  let hidden := s.tmpfileName cur
  let s := { s with deletedSeq := nextSeq s.deletedSeq + 1 }
  match s.kvfsEmpty env hidden with
  | (false, s) => (.error .enomem, s)
  | (true, s) =>
    match s.memfdTrackSet hidden 0 with
    | (false, s) => (.error .enomem, s)
    | (true, s) => s.openSlot cur .vfsfile hidden (Sys.openFlags env.flags ||| fdflReadable ||| fdflWritable)

/-- A file that has a size of its own. -/
def openMemfd (env : OpenEnv) (cur : ℕ) (path : Bytes) : Except OpenErrno ℕ × OpenTables :=
  match s.openSlot cur .vfsfile path (Sys.openFlags env.flags) with
  | (.error e, s) => (.error e, s)
  | (.ok fd, s) =>
    (.ok fd, if hasMode env.flags oTrunc && env.writable then s.memfdPathSetSize path 0 else s)

/-- A device; a file of `/proc` or `/sys` gets a buffer with its text. -/
def openDev (env : OpenEnv) (cur : ℕ) (kind : FdKind) (path : Bytes) : Except OpenErrno ℕ × OpenTables :=
  match s.openFd cur kind (devRefFromPath path kind) (Sys.openFlags env.flags) with
  | (.error e, s) => (.error e, s)
  | (.ok fd, s) =>
    let cleared := { s with tasks := s.tasks.c3FdGroupClearFd cur fd }
    if kind ≠ .proc then (.ok fd, s)
    else
      match firstSlot (fun i => !s.procBufs i) procBufMax with
      | none => (.error .emfile, cleared)
      | some i =>
        match env.procGenerate path with
        | some e => (.error e, cleared)
        | none =>
          (.ok fd,
            { s with
              procBufs := update s.procBufs i true
              tasks := s.tasks.setFd cur fd { (s.tasks.task cur).fds fd with ref := i } })

/-- A file of the node table. -/
def openFile (env : OpenEnv) (cur : ℕ) (path : Bytes) : Except OpenErrno ℕ × OpenTables :=
  match s.openSlot cur .vfsfile path (Sys.openFlags env.flags) with
  | (.error e, s) => (.error e, s)
  | (.ok fd, s) =>
    (.ok fd, if hasMode env.flags oTrunc && env.writable then (s.kvfsEmpty env path).2 else s)

/-- A new file that gets a size of its own. -/
def openSparse (env : OpenEnv) (cur : ℕ) (path : Bytes) : Except OpenErrno ℕ × OpenTables :=
  match s.memfdTrackSet path 0 with
  | (false, s) => (.error .enomem, s)
  | (true, s) => s.openSlot cur .vfsfile path (Sys.openFlags env.flags)

/-- Open a path of each kind. -/
def openAs (env : OpenEnv) (cur : ℕ) : OpenCase → Except OpenErrno ℕ × OpenTables
  | .share owner fdn => s.openShare env cur owner fdn
  | .tmpfile => s.openTmpfile env cur
  | .memfd path => s.openMemfd env cur path
  | .slot kind path fl => s.openSlot cur kind path fl
  | .dev kind path => s.openDev env cur kind path
  | .file path => s.openFile env cur path
  | .sparse path => s.openSparse env cur path
  -- the answer of `kvfs_write` is not looked at
  | .create path => (s.kvfsEmpty env path).2.openSlot cur .vfsfile path (Sys.openFlags env.flags)

def realSysOpen (env : OpenEnv) (cur : ℕ) : Except OpenErrno ℕ × OpenTables :=
  match s.openCase env cur with
  | .error e => (.error e, s)
  | .ok c => s.openAs env cur c

def pipeCreate : Option ℕ × OpenTables :=
  match firstSlot (fun i => !(s.pipes i).used) pipeMax with
  | some i => (some i, { s with pipes := update s.pipes i ⟨true, 1, 1⟩ })
  | none => (none, s)

/-- The two ends of a new pipe: the second one is asked for also when there is no first one. -/
def pipeFds (cur i : ℕ) : Except OpenErrno (ℕ × ℕ) × OpenTables :=
  let r := s.openFd cur .pipeR i fdflReadable
  let w := r.2.openFd cur .pipeW i fdflWritable
  match r.1, w.1 with
  | .ok rfd, .ok wfd => (.ok (rfd, wfd), w.2)
  | _, _ => (.error .emfile, w.2)

def realSysPipe (cur : ℕ) : Except OpenErrno (ℕ × ℕ) × OpenTables :=
  match s.pipeCreate with
  | (none, s) => (.error .enomem, s)
  | (some i, s) => s.pipeFds cur i

end OpenTables

end Ridux
