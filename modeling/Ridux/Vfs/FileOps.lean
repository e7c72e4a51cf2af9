import Ridux.Mm.FileCache
import Ridux.Vfs.Node

/-!
# File calls beside the page cache

The calls of `linux_syscalls.c` that change files of the node table or ask for their pages.  A call
that fails before it changes anything is no step here, and the files that are kept outside the node
table (`memfd`) are left out.

* `VfsName`: the resolved path of a call;
* `writtenBytes`, `pwrittenBytes`, `truncatedBytes`, `allocatedBytes`: what the calls write;
* `FileSys`: the node table, the page cache and the counter of hidden names;
* `FileOp`, `FileSys.exec`: the calls, one at a time.
-/

namespace Ridux

def c3VfsFileMax : ℕ := 65536

/-- A path as `c3_resolve_user_path` leaves it. -/
structure VfsName where
  path : Bytes
  normal : vfsNormalizePath path = path

/-- The first `n` bytes of a file, with zeros behind its end. -/
def padTo (n : ℕ) (old : Bytes) : Bytes := old.take n ++ List.replicate (n - old.length) 0

/-- What `real_sys_write` writes: the bytes before its place, and what fits of the buffer. -/
def writtenBytes (append : Bool) (offset : ℕ) (buf old : Bytes) : Bytes :=
  let base := min (if append ∧ old ≠ [] then old.length else offset) (c3VfsFileMax - 1)
  padTo base old ++ buf.take (c3VfsFileMax - 1 - base)

/-- What `real_sys_pwrite64` writes at an offset that is not too large. -/
def pwrittenBytes (offset : ℕ) (buf old : Bytes) : Bytes :=
  padTo offset old ++ buf.take (c3VfsFileMax - 1 - offset)

/-- What `real_sys_truncate` and `real_sys_ftruncate` write. -/
def truncatedBytes (length : ℕ) (old : Bytes) : Bytes := padTo (min length (c3VfsFileMax - 1)) old

/-- What `real_sys_fallocate` writes. -/
def allocatedBytes (offset len : ℕ) (old : Bytes) : Bytes :=
  padTo (min (offset + len) (c3VfsFileMax - 1)) (old.take (c3VfsFileMax - 1))

/-- The name that a file gets when it is unlinked while it is open. -/
def hiddenName (pid seq : BitVec 32) : Bytes :=
  appendStr vfsMaxPath (appendCh vfsMaxPath
    (appendStr vfsMaxPath (appendStr vfsMaxPath [] deletedPrefix) (decimal pid.toNat)) 45) (decimal seq.toNat)

/-- The files and their cached pages. -/
structure FileSys where
  vfs : Vfs
  cache : FileCache
  /-- `g_c3_deleted_seq` -/
  deletedSeq : BitVec 32

/-- The next number that is not zero. -/
def nextSeq (seq : BitVec 32) : BitVec 32 := if seq = 0 then 1 else seq

/-- A call that takes a step.  The flags `ok₁` and `ok₂` answer the calls of `kmalloc` it makes. -/
inductive FileOp
  /-- a fault on a private mapping that shares the pages of the file -/
  | fault (n : VfsName) (pageOff : ℕ)
  /-- a fault on an anonymous mapping -/
  | anon
  /-- a frame leaves a mapping -/
  | release (phys : ℕ)
  | reclaim (maxPages : ℕ)
  | write (n : VfsName) (append : Bool) (offset : ℕ) (buf : Bytes) (ok₁ ok₂ : Bool)
  | pwrite (n : VfsName) (offset : ℕ) (buf : Bytes) (ok₁ ok₂ : Bool)
  | truncate (n : VfsName) (length : ℕ) (ok₁ ok₂ : Bool)
  | fallocate (n : VfsName) (offset len : ℕ) (ok₁ ok₂ : Bool)
  /-- an `open` that gets its descriptor, with `O_TRUNC` of a writable one and `O_CREAT` -/
  | openFile (n : VfsName) (trunc creat ok₁ ok₂ : Bool)
  /-- `symlinkat` and `link`, which make a new file -/
  | link (n : VfsName) (bytes : Bytes) (ok₁ ok₂ : Bool)
  | rename (o n : VfsName)
  /-- `isOpen` says whether a descriptor has the file -/
  | unlink (n : VfsName) (pid : BitVec 32) (isOpen : Bool)
  /-- the last descriptor of a file goes, and no mapping has it -/
  | close (n : VfsName)

namespace FileSys

variable (s : FileSys)

/-- The bytes of a file before a write, none if there is no file. -/
def oldBytes (n : VfsName) : Bytes := (vfsRead n.path s.vfs).getD []

/-- Drop the cached pages of a file and write it. -/
def writeFile (n : VfsName) (bytes : Bytes) (ok₁ ok₂ : Bool) : FileSys :=
  { s with
    cache := s.cache.invalidatePath n.path
    vfs := (vfsWriteBytes ok₁ ok₂ n.path (some bytes) bytes.length s.vfs).2 }

/-- The end of `real_sys_open`. -/
def realSysOpen (n : VfsName) (trunc creat ok₁ ok₂ : Bool) : FileSys :=
  if (if (vfsFind s.vfs n.path).isSome then trunc else creat) then
    { s with vfs := (vfsWrite ok₁ ok₂ n.path [] s.vfs).2 }
  else s

def realSysRename (o n : VfsName) : FileSys :=
  if o.path = n.path ∨ vfsFind s.vfs o.path = none then s
  else
    let s := if (vfsFind s.vfs n.path).isSome then
      { s with cache := s.cache.invalidatePath n.path, vfs := (vfsRemove n.path s.vfs).2 }
    else s
    { s with cache := s.cache.invalidatePath o.path, vfs := (vfsRename o.path n.path s.vfs).2 }

def realSysUnlink (n : VfsName) (pid : BitVec 32) (isOpen : Bool) : FileSys :=
  if vfsFind s.vfs n.path = none then s
  else if isOpen then
    let seq := nextSeq s.deletedSeq
    let hidden := hiddenName pid seq
    let r := vfsRename n.path hidden s.vfs
    { s with
      vfs := r.2
      cache := if r.1 then s.cache.renamePath n.path hidden else s.cache
      deletedSeq := seq + 1 }
  else { s with cache := s.cache.invalidatePath n.path, vfs := (vfsRemove n.path s.vfs).2 }

/-- `c3_vfs_open_slot_try_free`: a file that was unlinked before goes. -/
def openSlotTryFree (n : VfsName) : FileSys :=
  if startsWith n.path deletedPrefix then
    { s with cache := s.cache.invalidatePath n.path, vfs := (vfsRemove n.path s.vfs).2 }
  else s

/-- `c3_file_page_get_frame` for a fault. -/
def fault (n : VfsName) (pageOff : ℕ) : FileSys :=
  match vfsRead n.path s.vfs with
  | none => s
  | some data => { s with cache := (s.cache.getFrame ⟨n.path, pageOff⟩ data).2 }

/-- A frame of zeros for an anonymous page. -/
def anonFault : FileSys :=
  let r := s.cache.allocUserFrame
  { s with cache := if r.1 = 0 then r.2 else r.2.fill r.1 (List.replicate pageSize 0) }

/-- One call. -/
def exec : FileOp → FileSys
  | .fault n pageOff => s.fault n pageOff
  | .anon => s.anonFault
  | .release phys => { s with cache := { s.cache with mm := s.cache.mm.c3PhysRefRelease phys } }
  | .reclaim maxPages => { s with cache := s.cache.reclaim maxPages }
  | .write n append offset buf ok₁ ok₂ =>
    s.writeFile n (writtenBytes append offset buf (s.oldBytes n)) ok₁ ok₂
  | .pwrite n offset buf ok₁ ok₂ =>
    if c3VfsFileMax - 1 ≤ offset then s
    else s.writeFile n (pwrittenBytes offset buf (s.oldBytes n)) ok₁ ok₂
  | .truncate n length ok₁ ok₂ =>
    if vfsFind s.vfs n.path = none then s
    else s.writeFile n (truncatedBytes length (s.oldBytes n)) ok₁ ok₂
  | .fallocate n offset len ok₁ ok₂ => s.writeFile n (allocatedBytes offset len (s.oldBytes n)) ok₁ ok₂
  | .openFile n trunc creat ok₁ ok₂ => s.realSysOpen n trunc creat ok₁ ok₂
  | .link n bytes ok₁ ok₂ =>
    if (vfsFind s.vfs n.path).isSome then s
    else { s with vfs := (vfsWriteBytes ok₁ ok₂ n.path (some bytes) bytes.length s.vfs).2 }
  | .rename o n => s.realSysRename o n
  | .unlink n pid isOpen => s.realSysUnlink n pid isOpen
  | .close n => s.openSlotTryFree n

/-- The machine after `vfs_mount_initrd`: nothing is cached, counted or in the quarantine. -/
def boot (vfs : Vfs) (paging : Paging) : FileSys where
  vfs := vfs
  deletedSeq := 1
  cache :=
    { mm :=
        { paging := paging, refcnt := fun _ => 0
          quarantine := fun _ => 0, quarantineHead := 0, quarantineCount := 0
          filePages := fun _ => none
          mmapTable := fun _ => ⟨false, .kernel, 0, 0, 0, false⟩ }
      key := fun _ => ⟨[], 0⟩
      hash := fun _ => 0
      lookup := fun _ => 0
      page := fun _ => [] }

end FileSys

/-- The files of the initrd, mounted one after another. -/
def mountFiles (initrd : List (Bytes × Bytes)) : Vfs :=
  initrd.foldl (fun s f => (vfsMountFile f.1 f.2 s).2) vfsInit

end Ridux
