import Ridux.Fd.Tasks
import Ridux.Vfs.Cached

/-!
# Calls that replace a whole file

`fallocate` and the writeback of a shared mapping read a file, compute how long it is to be, and write it
anew.  A memfd has no bytes in the node table: it has a size of its own, and pages of the cache.

* `FileStore`: the files, the memfds and the open slots; `fileSize` and `fileByte` say what is in a file;
* `realSysFallocate`, `c3MmapWritebackVfsRange`: the two calls, with their result;
* `Grows`, `OnlyWithin`: what a call may do to the files;
* `frees_invalidatePath`, `writebackPages_spec`: what the parts of the calls leave alone.

The queues of `inotify` are left out.
-/

namespace Ridux

open Lib Function List

def c3MemfdTrackMax : ℕ := 256
def c3FSealGrow : BitVec 32 := 0x4
def c3FallocFlKeepSize : BitVec 32 := 0x01
def c3FallocFlZeroRange : BitVec 32 := 0x10
def c3ProtWrite : BitVec 32 := 0x2
def c3MapShared : BitVec 32 := 0x01

inductive FileErrno
  | ebadf | einval | eperm | eio
  deriving DecidableEq

/-- `c3_memfd_track_t`. -/
structure MemfdTrack where
  used : Bool
  path : Bytes
  seals : BitVec 32
  size : BitVec 64

/-! ### The cache -/

namespace FileCache

/-- No frame is in two elements of the cache. -/
def Apart (c : FileCache) : Prop :=
  ∀ i j p q, c.mm.filePages i = some p → c.mm.filePages j = some q → pageBase p = pageBase q → i = j

/-- A step that lets only pages of one path go. -/
structure Frees (path : Bytes) (c c' : FileCache) : Prop where
  key : c'.key = c.key
  hash : c'.hash = c.hash
  lookup : c'.lookup = c.lookup
  page : c'.page = c.page
  files : ∀ i, c'.mm.filePages i = c.mm.filePages i ∨ c'.mm.filePages i = none ∧ (c.key i).path = path

variable {c c' c'' : FileCache} {path : Bytes}

theorem Frees.refl (c : FileCache) : Frees path c c := ⟨rfl, rfl, rfl, rfl, fun _ => .inl rfl⟩

theorem Frees.trans (h : Frees path c c') (h' : Frees path c' c'') : Frees path c c'' where
  key := h'.key.trans h.key
  hash := h'.hash.trans h.hash
  lookup := h'.lookup.trans h.lookup
  page := h'.page.trans h.page
  files i := by
    rcases h'.files i with hsame | ⟨hnone, hpath⟩
    · rw [hsame]
      exact h.files i
    · rw [h.key] at hpath
      exact .inr ⟨hnone, hpath⟩

theorem Frees.apart (h : Frees path c c') (hc : c.Apart) : c'.Apart := by
  have hfiles : ∀ i p, c'.mm.filePages i = some p → c.mm.filePages i = some p := by
    intro i p hp
    rcases h.files i with hsame | ⟨hnone, -⟩
    · rwa [hsame] at hp
    · rw [hnone] at hp
      cases hp
  intro i j p q hp hq
  exact hc i j p q (hfiles i p hp) (hfiles j q hq)

theorem pageBase_pageBase (p : ℕ) : pageBase (pageBase p) = pageBase p := by
  unfold pageBase
  rw [Nat.mul_div_cancel _ (by decide)]

theorem filePages_drain (n : ℕ) (m : Mm) : (Mm.c3PhysQuarantineDrain n m).filePages = m.filePages := by
  induction n generalizing m with
  | zero => rfl
  | succ n ih =>
    rw [Mm.c3PhysQuarantineDrain]
    split_ifs
    · rfl
    · rw [ih]
      unfold Mm.quarantineTake
      split_ifs <;> rfl

theorem filePages_quarantineFrame (phys : ℕ) (m : Mm) :
    (Mm.c3PhysQuarantineFrame phys m).filePages = m.filePages := by
  have hput : ∀ m : Mm, (Mm.quarantinePut phys m).filePages = m.filePages := by
    intro m
    unfold Mm.quarantinePut
    split_ifs <;> rfl
  unfold Mm.c3PhysQuarantineFrame
  split_ifs
  · rfl
  · rw [hput, filePages_drain]
  · exact hput m

theorem filePages_release (phys : ℕ) (m : Mm) :
    (m.c3PhysRefRelease phys).filePages = m.filePages ∨
      (m.c3PhysRefRelease phys).filePages =
        fun i => (m.filePages i).filter fun p => pageBase p ≠ pageBase phys := by
  unfold Mm.c3PhysRefRelease
  cases c3PhysRefIndex phys with
  | none => exact .inl rfl
  | some idx =>
    simp only
    split_ifs
    · exact .inl rfl
    · exact .inl rfl
    · rw [filePages_quarantineFrame]
      exact .inr rfl

theorem frees_dropSlot (hc : c.Apart) (i : ℕ) : Frees (c.key i).path c (c.dropSlot i) := by
  unfold dropSlot
  cases hp : c.mm.filePages i with
  | none => exact Frees.refl c
  | some phys =>
    refine ⟨rfl, rfl, rfl, rfl, fun j => ?_⟩
    by_cases hj : j = i
    · rw [hj]
      exact .inr ⟨update_self .., rfl⟩
    -- the frame is in no other element
    have hfilter : (c.mm.filePages j).filter (fun p => pageBase p ≠ pageBase (pageBase phys)) =
        c.mm.filePages j := by
      cases hpj : c.mm.filePages j with
      | none => rfl
      | some p =>
        rw [Option.filter_some, if_pos]
        rw [decide_eq_true_eq, pageBase_pageBase]
        exact fun he => hj (hc j i p phys hpj hp he)
    left
    refine (update_of_ne hj ..).trans ?_
    split_ifs
    · rcases filePages_release (pageBase phys) c.mm with h | h
      · exact congrFun h j
      · exact (congrFun h j).trans hfilter
    · rfl

theorem findSlot_key {k : FileKey} {j : ℕ} (h : (c.findSlot k).1 = some j) : c.key j = k := by
  unfold findSlot at h
  split_ifs at h
  simp only at h
  split_ifs at h with hhint
  · rw [← Option.some.inj h]
    exact (isFor_iff.1 hhint.2.2.2).2
  · cases hs : firstSlot (c.isFor k) c3FilepageMax with
    | none =>
      rw [hs] at h
      cases h
    | some i =>
      rw [hs] at h
      rw [← Option.some.inj h]
      exact (isFor_iff.1 (firstSlot_eq_some hs).2).2

theorem frees_invalidatePath (hc : c.Apart) (path : Bytes) : Frees path c (c.invalidatePath path) := by
  unfold invalidatePath
  split_ifs
  · exact Frees.refl c
  · refine foldl_range_invariant (P := fun _ c' => Frees path c c') (Frees.refl c) fun i _ c' h => ?_
    split_ifs with hi
    · have hdrop := frees_dropSlot (h.apart hc) i
      rw [hi.2] at hdrop
      exact h.trans hdrop
    · exact h

end FileCache

/-- The files, the files that live in the page cache alone, and the open slots. -/
structure FileStore extends FileSys where
  /-- `g_c3_memfds` -/
  memfds : ℕ → MemfdTrack
  /-- `g_c3_vfs_open` -/
  opened : ℕ → Option VfsName
  good : vfs.Inv
  apart : cache.Apart

/-- The fields of `mmap_entry_t` that a writeback reads; a mapping without a file has no path. -/
structure FileMapping where
  used : Bool
  virt : BitVec 64
  size : BitVec 64
  prot : BitVec 32
  flags : BitVec 32
  offset : BitVec 64
  backingKind : FdKind
  backingPath : Option VfsName

/-- The memory of a task: the pages that are present, by address, and the bytes. -/
structure UserBytes where
  present : BitVec 64 → Bool
  byte : BitVec 64 → UInt8

/-- `c3_memcpy` into a buffer. -/
def copyInto (out : Bytes) (i : ℕ) (xs : Bytes) : Bytes := out.take i ++ xs ++ out.drop (i + xs.length)

/-- The bytes from an address on. -/
def UserBytes.read (u : UserBytes) (va : BitVec 64) (n : ℕ) : Bytes :=
  (List.range n).map fun i => u.byte (va + BitVec.ofNat 64 i)

/-- The loop of `c3_mmap_writeback_vfs_range`, up to the address `stop`. -/
def writebackPages (u : UserBytes) (stop : BitVec 64) (fileEnd : ℕ) (out : Bytes) (va : BitVec 64)
    (fileStart len : ℕ) : Bytes :=
  if va < stop ∧ fileStart < fileEnd ∧ 0 < len then
    let inPg := va.toNat % pageSize
    let chunk := min (min (pageSize - inPg) len) (fileEnd - fileStart)
    let out := if u.present (va - BitVec.ofNat 64 inPg) then copyInto out fileStart (u.read va chunk) else out
    writebackPages u stop fileEnd out (va + BitVec.ofNat 64 chunk) (fileStart + chunk) (len - chunk)
  else out
termination_by fileEnd - fileStart
decreasing_by
  have hpage : va.toNat % pageSize < pageSize := Nat.mod_lt _ (by decide)
  omega

/-- The bytes of a file that a mapping has at the `len` addresses from `va` on. -/
def FileMapping.Covers (m : FileMapping) (va len : BitVec 64) (n : VfsName) (i : ℕ) : Prop :=
  m.backingPath = some n ∧ (m.offset + (va - m.virt)).toNat ≤ i ∧
    i < (m.offset + (va - m.virt)).toNat + len.toNat

namespace FileStore

variable (s : FileStore)

/-- `c3_memfd_track_find`. -/
def memfdTrackFind (path : Bytes) : Option ℕ :=
  if path = [] then none
  else firstSlot (fun i => (s.memfds i).used && (s.memfds i).path = path) c3MemfdTrackMax

/-- `c3_memfd_path_set_size` of the memfd in slot `i`. -/
def memfdSetSize (i : ℕ) (size : BitVec 64) : FileStore :=
  { s with memfds := update s.memfds i { s.memfds i with size := size } }

/-- Drop the cached pages of a file and write it, with the answer of `kvfs_write_bytes`. -/
def replaceFile (n : VfsName) (bytes : Bytes) (ok₁ ok₂ : Bool) : Bool × FileStore :=
  ((vfsWriteBytes ok₁ ok₂ n.path (some bytes) bytes.length s.vfs).1,
    { s with
      toFileSys := s.writeFile n bytes ok₁ ok₂
      good := (vfsStore_touches s.good ok₁ ok₂ n _).inv
      apart := (FileCache.frees_invalidatePath s.apart n.path).apart s.apart })

/-- The files of a state that keeps the invariant, beside memfds and open slots. -/
def ofInv {files : FileSys} (h : files.Inv) (memfds : ℕ → MemfdTrack) (opened : ℕ → Option VfsName) :
    FileStore where
  toFileSys := files
  memfds := memfds
  opened := opened
  good := h.vfs
  apart i j p q hp hq he := by
    rw [h.sound.base i p hp, h.sound.base j q hq] at he
    exact h.sound.single i j p hp (he ▸ hq)

/-! ### The calls -/

/-- The checks of `real_sys_fallocate`: the file that it works on. -/
def fallocateFile (cur : Option Task) (fd : ℕ) (mode : BitVec 32) (offset len : BitVec 64) :
    Except FileErrno VfsName :=
  match cur with
  | none => .error .ebadf
  | some t =>
    if !fdValid t fd then .error .ebadf
    else if (t.fds fd).kind ≠ .vfsfile then .error .ebadf
    else if offset.toInt < 0 ∨ len.toInt ≤ 0 then .error .einval
    else if mode &&& ~~~(c3FallocFlKeepSize ||| c3FallocFlZeroRange) ≠ 0 then .error .einval
    else
      match s.opened (t.fds fd).ref with
      | none => .error .ebadf
      | some n => .ok n

/-- `real_sys_fallocate` on a memfd. -/
def fallocateMemfd (i : ℕ) (mode : BitVec 32) (offset len : BitVec 64) : Except FileErrno Unit × FileStore :=
  let mend := offset + len
  if mend < offset then (.error .einval, s)
  else if mode &&& c3FallocFlKeepSize = 0 ∧ (s.memfds i).size < mend then
    if (s.memfds i).seals &&& c3FSealGrow ≠ 0 then (.error .eperm, s) else (.ok (), s.memfdSetSize i mend)
  else (.ok (), s)

def realSysFallocate (cur : Option Task) (fd : ℕ) (mode : BitVec 32) (offset len : BitVec 64)
    (ok₁ ok₂ : Bool) : Except FileErrno Unit × FileStore :=
  match s.fallocateFile cur fd mode offset len with
  | .error e => (.error e, s)
  | .ok n =>
    match s.memfdTrackFind n.path with
    | some i => s.fallocateMemfd i mode offset len
    | none =>
      if mode &&& c3FallocFlKeepSize ≠ 0 then (.ok (), s)
      else if offset + len < offset then (.error .einval, s)
      else (.ok (), (s.replaceFile n (allocatedBytes offset.toNat len.toNat (s.oldBytes n)) ok₁ ok₂).2)

/-- The checks of `c3_mmap_writeback_vfs_range`: the result of a call that has nothing to write, or the
file, the place in it where the range starts, and the length of what is to be written. -/
def writebackFile (m : FileMapping) (va len : BitVec 64) :
    Except (Except FileErrno Unit) (VfsName × ℕ × ℕ) :=
  match m.backingPath with
  | none => .error (.ok ())
  | some n =>
    if !m.used then .error (.ok ())
    else if m.flags &&& c3MapShared = 0 ∨ m.prot &&& c3ProtWrite = 0 then .error (.ok ())
    else if m.backingKind ≠ .vfsfile then .error (.ok ())
    else if (s.memfdTrackFind n.path).isSome then .error (.ok ())
    else if va < m.virt then .error (.error .einval)
    else
      let fileStart := m.offset + (va - m.virt)
      let fileEnd := fileStart + len
      if fileEnd < fileStart then .error (.error .einval)
      else if c3VfsFileMax - 1 ≤ fileStart.toNat then .error (.ok ())
      else .ok (n, fileStart.toNat, min fileEnd.toNat (c3VfsFileMax - 1))

def c3MmapWritebackVfsRange (u : UserBytes) (m : FileMapping) (va len : BitVec 64) (ok₁ ok₂ : Bool) :
    Except FileErrno Unit × FileStore :=
  match s.writebackFile m va len with
  | .error r => (r, s)
  | .ok (n, fileStart, want) =>
    let out := writebackPages u (m.virt + m.size) want (padTo want (s.oldBytes n)) va fileStart len.toNat
    match s.replaceFile n out ok₁ ok₂ with
    | (false, s) => (.error .eio, s)
    | (true, s) => (.ok (), s)

/-! ### What is in a file -/

/-- The byte of a page of the cache, zero if the page is not there: what `c3_memfd_sparse_read` reads. -/
def sparseByte (c : FileCache) (path : Bytes) (i : ℕ) : UInt8 :=
  match (c.findSlot ⟨path, i / pageSize * pageSize⟩).1 with
  | none => 0
  | some j => (c.mm.filePages j).elim 0 fun phys => (c.page (pageBase phys)).getD (i % pageSize) 0

/-- The size of a file. -/
def fileSize (n : VfsName) : Option ℕ :=
  match s.memfdTrackFind n.path with
  | some i => some (s.memfds i).size.toNat
  | none => (vfsRead n.path s.vfs).map List.length

/-- A byte of a file. -/
def fileByte (n : VfsName) (i : ℕ) : UInt8 :=
  match s.memfdTrackFind n.path with
  | some _ => sparseByte s.cache n.path i
  | none => (s.oldBytes n).getD i 0

/-- No file gets shorter, and the bytes it had stay. -/
def Grows (s s' : FileStore) : Prop :=
  ∀ n size, s.fileSize n = some size →
    (∃ size', s'.fileSize n = some size' ∧ size ≤ size') ∧ ∀ i < size, s'.fileByte n i = s.fileByte n i

/-- Every file keeps its size, and its bytes where `covered` does not hold. -/
def OnlyWithin (covered : VfsName → ℕ → Prop) (s s' : FileStore) : Prop :=
  ∀ n, s'.fileSize n = s.fileSize n ∧
    ∀ size, s.fileSize n = some size → ∀ i < size, ¬ covered n i → s'.fileByte n i = s.fileByte n i


theorem sparseByte_frees {c c' : FileCache} {path : Bytes} (h : FileCache.Frees path c c') {p : Bytes}
    (hp : p ≠ path) (i : ℕ) : sparseByte c' p i = sparseByte c p i := by
  unfold sparseByte
  generalize hk : (⟨p, i / pageSize * pageSize⟩ : FileKey) = k
  have hkp : k.path ≠ path := by
    rw [← hk]
    exact hp
  have hkept : ∀ j, c.key j = k → c'.mm.filePages j = c.mm.filePages j := fun j hj =>
    (h.files j).resolve_right fun hgone => hkp (hj ▸ hgone.2)
  have hfor : c'.isFor k = c.isFor k := by
    funext j
    rw [FileCache.isFor, FileCache.isFor, h.key]
    by_cases hj : c.key j = k
    · rw [FileCache.used, FileCache.used, hkept j hj]
    · rw [decide_eq_false hj, Bool.and_false, Bool.and_false]
  have hfind : (c'.findSlot k).1 = (c.findSlot k).1 := by
    unfold FileCache.findSlot
    rw [h.lookup, h.hash, hfor]
    split_ifs
    · rfl
    · simp only
      split_ifs
      · rfl
      · cases firstSlot (c.isFor k) c3FilepageMax <;> rfl
  rw [hfind]
  cases hj : (c.findSlot k).1 with
  | none => rfl
  | some j =>
    simp only
    rw [hkept j (FileCache.findSlot_key hj), h.page]

end FileStore

/-! ### The bytes that are written -/

@[simp] theorem length_padTo (n : ℕ) (old : Bytes) : (padTo n old).length = n := by
  rw [padTo, length_append, length_take, length_replicate]
  omega

theorem padTo_getD {n i : ℕ} (hi : i < n) (old : Bytes) : (padTo n old).getD i 0 = old.getD i 0 := by
  simp only [padTo, getD_eq_getElem?_getD, List.getElem?_append, length_take, List.getElem?_take,
    List.getElem?_replicate]
  by_cases hold : i < old.length
  · rw [if_pos (by omega), if_pos hi]
  · rw [if_neg (by omega), if_pos (by omega), List.getElem?_eq_none (by omega)]
    rfl

@[simp] theorem padTo_length (old : Bytes) : padTo old.length old = old := by
  rw [padTo, take_length, Nat.sub_self, replicate_zero, append_nil]

theorem length_copyInto {out xs : Bytes} {i : ℕ} (h : i + xs.length ≤ out.length) :
    (copyInto out i xs).length = out.length := by
  rw [copyInto, length_append, length_append, length_take, length_drop]
  omega

theorem copyInto_getD {out xs : Bytes} {i j : ℕ} (h : i + xs.length ≤ out.length)
    (hj : j < i ∨ i + xs.length ≤ j) : (copyInto out i xs).getD j 0 = out.getD j 0 := by
  simp only [copyInto, getD_eq_getElem?_getD, List.getElem?_append, length_append, length_take,
    List.getElem?_take, List.getElem?_drop]
  rcases hj with hj | hj
  · rw [if_pos (by omega), if_pos (by omega), if_pos hj]
  · rw [if_neg (by omega)]
    congr 2
    omega

@[simp] theorem UserBytes.length_read (u : UserBytes) (va : BitVec 64) (n : ℕ) :
    (u.read va n).length = n := by
  rw [UserBytes.read, length_map, length_range]

theorem writebackPages_spec (u : UserBytes) (stop : BitVec 64) {fileEnd : ℕ} {out : Bytes} (va : BitVec 64)
    (fileStart len : ℕ) (hout : out.length = fileEnd) :
    (writebackPages u stop fileEnd out va fileStart len).length = fileEnd ∧
      ∀ i, i < fileStart ∨ fileStart + len ≤ i →
        (writebackPages u stop fileEnd out va fileStart len).getD i 0 = out.getD i 0 := by
  fun_induction writebackPages u stop fileEnd out va fileStart len with
  | case1 out va fileStart len hgo inPg chunk out' ih =>
    have hchunk : chunk ≤ len ∧ fileStart + chunk ≤ fileEnd := by omega
    have hxs : (u.read va chunk).length = chunk := u.length_read va chunk
    have hfits : fileStart + (u.read va chunk).length ≤ out.length := by omega
    have hlen : out'.length = fileEnd := by
      simp only [out']
      split_ifs
      · rw [length_copyInto hfits, hout]
      · exact hout
    obtain ⟨hlen', hrest⟩ := ih hlen
    refine ⟨hlen', fun i hi => ?_⟩
    rw [hrest i (by omega)]
    simp only [out']
    split_ifs
    · exact copyInto_getD hfits (by omega)
    · rfl
  | case2 out va fileStart len hgo => exact ⟨hout, fun _ _ => rfl⟩

end Ridux
