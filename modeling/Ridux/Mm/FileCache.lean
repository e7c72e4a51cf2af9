import Ridux.Lib.Slots
import Ridux.Mm.PhysRef
import Ridux.Text

/-!
# The page cache of files

`g_c3_file_pages` of `linux_syscalls.c`: an array of pages, each for a path and an offset, with a
table of hints by hash.

* `FileCache`: the array, its hints, and what the frames hold;
* `findSlot`, `allocSlot`, `invalidatePath`, `renamePath`: the operations on the array;
* `reclaim`, `allocUserFrame`, `getFrame`: how frames come and go.
-/

namespace Ridux

open Lib Function

def c3FilepageMax : ℕ := 65536
def c3FilepageLookupMax : ℕ := 8192

/-- `path` and `page_off` of a cached page. -/
structure FileKey where
  path : Bytes
  pageOff : ℕ
  deriving DecidableEq

/-- The cache.  An element of `g_c3_file_pages` is used when `mm.filePages` has a frame for it, and
its key and its hash are read only then; `page` is what a frame holds. -/
structure FileCache where
  mm : Mm
  key : ℕ → FileKey
  hash : ℕ → BitVec 64
  /-- `g_c3_file_page_lookup` -/
  lookup : ℕ → ℕ
  page : ℕ → Bytes

/-- `c3_file_page_hash_for`. -/
def filePageHashFor (path : Bytes) (pageOff : ℕ) : BitVec 64 :=
  let h : BitVec 64 := path.foldl (fun h c => (h ^^^ c.toBitVec.setWidth 64) * 1099511628211)
    1469598103934665603
  (h ^^^ BitVec.ofNat 64 pageOff) * 1099511628211

/-- The bucket of a hash. -/
def filePageBucket (h : BitVec 64) : ℕ := h.toNat % c3FilepageLookupMax

/-- `C3_DELETED_PREFIX`. -/
def deletedPrefix : Bytes := ascii "/tmp/.ridux-deleted-"

/-- `c3_file_page_must_keep`. -/
def filePageMustKeep (path : Bytes) : Bool :=
  startsWith path (ascii "/memfd/") || startsWith path deletedPrefix || startsWith path (ascii "/dev/shm/")

/-- The bytes of a page of a file, with zeros behind its end. -/
def pageOf (data : Bytes) (pageOff : ℕ) : Bytes :=
  let bytes := (data.drop pageOff).take pageSize
  bytes ++ List.replicate (pageSize - bytes.length) 0

namespace FileCache

/-- `g_c3_file_pages[i].used`. -/
def used (c : FileCache) (i : ℕ) : Bool := (c.mm.filePages i).isSome

/-- Element `i` is used for a key. -/
def isFor (c : FileCache) (k : FileKey) (i : ℕ) : Bool := c.used i && c.key i = k

/-- Clear one element. -/
def clear (i : ℕ) (c : FileCache) : FileCache :=
  { c with mm := { c.mm with filePages := update c.mm.filePages i none } }

/-- `c3_file_page_cache_slot`. -/
def cacheSlot (i : ℕ) (c : FileCache) : FileCache :=
  if c.used i ∧ c.hash i ≠ 0 then
    { c with lookup := update c.lookup (filePageBucket (c.hash i)) (i + 1) }
  else c

/-- `c3_file_page_find_slot`, with the hint that it leaves. -/
def findSlot (k : FileKey) (c : FileCache) : Option ℕ × FileCache :=
  if k.path = [] then (none, c)
  else
    let h := filePageHashFor k.path k.pageOff
    let bucket := filePageBucket h
    let slot := c.lookup bucket - 1
    if c.lookup bucket ≠ 0 ∧ slot < c3FilepageMax ∧ c.hash slot = h ∧ c.isFor k slot then (some slot, c)
    else
      match firstSlot (c.isFor k) c3FilepageMax with
      | some i => (some i, { c with lookup := update c.lookup bucket (i + 1) })
      | none => (none, c)

/-- What a scan of the whole cache finds. -/
def scan (k : FileKey) (c : FileCache) : Option ℕ := firstSlot (c.isFor k) c3FilepageMax

/-- Drop the reference of an element to its frame, and clear it. -/
def dropSlot (i : ℕ) (c : FileCache) : FileCache :=
  match c.mm.filePages i with
  | none => c
  | some phys =>
    let counted := (c3PhysRefIndex phys).any fun idx => 0 < c.mm.refcnt idx
    ({ c with mm := if counted then c.mm.c3PhysRefRelease (pageBase phys) else c.mm }).clear i

/-- `c3_file_page_invalidate_path`. -/
def invalidatePath (path : Bytes) (c : FileCache) : FileCache :=
  if path = [] then c
  else (List.range c3FilepageMax).foldl
    (fun c i => if c.used i ∧ (c.key i).path = path then c.dropSlot i else c) c

/-- `c3_file_page_rename_path`. -/
def renamePath (oldPath newPath : Bytes) (c : FileCache) : FileCache :=
  if oldPath = [] ∨ newPath = [] then c
  else (List.range c3FilepageMax).foldl
    (fun c i =>
      if c.used i ∧ (c.key i).path = oldPath then
        cacheSlot i { c with
          key := update c.key i ⟨newPath, (c.key i).pageOff⟩
          hash := update c.hash i (filePageHashFor newPath (c.key i).pageOff) }
      else c) c

/-- `c3_file_page_alloc_slot`. -/
def allocSlot (path : Bytes) (c : FileCache) : Option ℕ × FileCache :=
  match firstSlot (fun i => !c.used i) c3FilepageMax with
  | some i => (some i, c)
  | none =>
    if filePageMustKeep path then
      match firstSlot (fun i => c.used i && !filePageMustKeep (c.key i).path) c3FilepageMax with
      | some i => (some i, c.dropSlot i)
      | none => (none, c)
    else (none, c)

/-- An element whose frame only the cache holds, and that need not be kept. -/
def reclaimable (c : FileCache) (i : ℕ) : Bool :=
  match c.mm.filePages i with
  | none => false
  | some phys => !filePageMustKeep (c.key i).path &&
      (c3PhysRefIndex (pageBase phys)).any fun idx => c.mm.refcnt idx = 1

/-- `c3_file_page_reclaim_one`. -/
def reclaimOne (c : FileCache) : Bool × FileCache :=
  match firstSlot c.reclaimable c3FilepageMax with
  | none => (false, c)
  | some i =>
    match c.mm.filePages i with
    | none => (false, c)
    | some phys =>
      let c' := c.clear i
      let mm := match c3PhysRefIndex (pageBase phys) with
        | some idx => { c'.mm with refcnt := update c'.mm.refcnt idx 0 }
        | none => c'.mm
      (true, { c' with mm := mm.freeFrame phys })

/-- `c3_file_page_reclaim`. -/
def reclaim : ℕ → FileCache → FileCache
  | 0, c => c
  | n + 1, c => let r := c.reclaimOne; if r.1 then reclaim n r.2 else r.2

/-- `c3_phys_quarantine_drain`. -/
def drain (n : ℕ) (c : FileCache) : FileCache := { c with mm := Mm.c3PhysQuarantineDrain n c.mm }

/-- `pmm_alloc_frame`. -/
def allocFrame (c : FileCache) : ℕ × FileCache :=
  let r := pmmAllocFrame c.mm.paging.pmm
  (r.1, { c with mm := { c.mm with paging := { c.mm.paging with pmm := r.2 } } })

/-- `c3_alloc_user_frame`. -/
def allocUserFrame (c : FileCache) : ℕ × FileCache :=
  let c := if pmmFreeCount c.mm.paging.pmm < 256 then (c.reclaim 128).drain 128 else c
  let r := c.allocFrame
  if r.1 ≠ 0 then r
  else
    let r := ((r.2.reclaim 512).drain 512).allocFrame
    if r.1 ≠ 0 then r else ((r.2.reclaim 2048).drain 2048).allocFrame

/-- A frame of the user with its bytes: what a fault does with a frame that is new. -/
def fill (frame : ℕ) (bytes : Bytes) (c : FileCache) : FileCache :=
  { c with mm := c.mm.c3PhysRefSetInitial frame, page := update c.page frame bytes }

/-- Use element `i` for a key and a frame. -/
def setSlot (i : ℕ) (k : FileKey) (frame : ℕ) (c : FileCache) : FileCache :=
  let c := cacheSlot i { c with
    mm := { c.mm with filePages := update c.mm.filePages i (some frame) }
    key := update c.key i k
    hash := update c.hash i (filePageHashFor k.path k.pageOff) }
  { c with mm := c.mm.c3PhysRefRetain frame }

/-- `c3_file_page_get_frame` for a page that is not cached. -/
def newFrame (k : FileKey) (data : Bytes) (c : FileCache) : ℕ × FileCache :=
  let r := c.allocUserFrame
  if r.1 = 0 then (0, r.2)
  else
    let s := (r.2.fill r.1 (pageOf data k.pageOff)).allocSlot k.path
    match s.1 with
    | some i => (r.1, s.2.setSlot i k r.1)
    | none =>
      if filePageMustKeep k.path then (0, { s.2 with mm := s.2.mm.c3PhysRefRelease r.1 }) else (r.1, s.2)

/-- `c3_file_page_get_frame`: a frame with the page of a file, `0` for failure. -/
def getFrame (k : FileKey) (data : Bytes) (c : FileCache) : ℕ × FileCache :=
  let f := c.findSlot k
  match f.1 with
  | none => f.2.newFrame k data
  | some i =>
    let frame := pageBase ((f.2.mm.filePages i).getD 0)
    if frame ≠ 0 then (frame, { f.2 with mm := f.2.mm.c3PhysRefRetain frame })
    else (f.2.clear i).newFrame k data

end FileCache

end Ridux
