import Mathlib.Algebra.Ring.Nat
import Mathlib.Data.List.TakeDrop
import Ridux.Lib.Slots
import Ridux.Text

/-!
# Nodes of the kernel file system

The node table of `vfs_sched.c`: slots that hold a path and the bytes of a file, either read-only
data of the initrd or a buffer of the kernel heap that grows on demand.  Strings are lists of
bytes without the closing zero.  Whether a call of `kmalloc` succeeds is a parameter of the
operation that makes it.

* `vfsNormalizePath`: the bounded normal form of a path, `fullPath` the unbounded one;
* `vfsWrite`, `vfsWriteBytes`, `vfsRemove`, `vfsRename`, `vfsRead`.
-/

namespace Ridux

open Lib List

def vfsMaxFiles : ℕ := 32768
def vfsMaxPath : ℕ := 256
def vfsRwMax : ℕ := 65536

/-- `vfs_file_t`.  The sizes `ro_size` and `rw_cap` are the lengths of the data. -/
structure VfsFile where
  used : Bool
  writable : Bool
  path : Bytes
  roData : Bytes
  /-- none for a null pointer -/
  rwData : Option Bytes
  rwSize : ℕ
  deriving DecidableEq

/-- `g_vfs_files` and `g_vfs_count`. -/
structure Vfs where
  files : ℕ → VfsFile
  count : ℕ

/-- A node after `k_memset(.., 0, ..)`. -/
def VfsFile.zero : VfsFile := ⟨false, false, [], [], none, 0⟩

def vfsInit : Vfs := ⟨fun _ => .zero, 0⟩

/-! ### Paths -/

def kIsSpace (c : UInt8) : Bool := c = 32 ∨ c = 9 ∨ c = 10 ∨ c = 13

/-- The copying loop of `vfs_normalize_path`, with `out` written so far. -/
def copyPath (outSize : ℕ) : Bytes → Bytes → Bytes
  | out, [] => out
  | out, c :: cs => if out.length + 1 < outSize then copyPath outSize (out ++ [c]) cs else out

/-- `vfs_normalize_path` into a buffer of `VFS_MAX_PATH` bytes. -/
def vfsNormalizePath (input : Bytes) : Bytes :=
  let input := input.dropWhile kIsSpace
  let out := if input.head? = some slash then [] else [slash]
  let out := copyPath vfsMaxPath out input
  if out = [] then [slash] else out

/-- The normal form that a path has before it is cut to the buffer. -/
def fullPath (input : Bytes) : Bytes :=
  let input := input.dropWhile kIsSpace
  if input.head? = some slash then input else slash :: input

theorem copyPath_eq (outSize : ℕ) (input : Bytes) {out : Bytes} (h : out.length < outSize) :
    copyPath outSize out input = (out ++ input).take (outSize - 1) := by
  induction input generalizing out with
  | nil =>
    rw [copyPath, append_nil, take_of_length_le (by omega)]
  | cons c cs ih =>
    rw [copyPath]
    split_ifs with hlt
    · rw [ih (by rw [length_append]; simpa using hlt), append_assoc]
      rfl
    · rw [take_append_of_le_length (by omega), take_of_length_le (by omega)]

theorem fullPath_head (input : Bytes) : (fullPath input).head? = some slash := by
  simp only [fullPath]
  split_ifs with h
  · exact h
  · rfl

theorem vfsNormalizePath_eq (input : Bytes) :
    vfsNormalizePath input = (fullPath input).take (vfsMaxPath - 1) := by
  have hne : (fullPath input).take (vfsMaxPath - 1) ≠ [] := by
    have hh := fullPath_head input
    cases hf : fullPath input with
    | nil => rw [hf] at hh; cases hh
    | cons c cs => simp [vfsMaxPath]
  have hcopy : copyPath vfsMaxPath
      (if (input.dropWhile kIsSpace).head? = some slash then [] else [slash])
      (input.dropWhile kIsSpace) = (fullPath input).take (vfsMaxPath - 1) := by
    rw [copyPath_eq]
    · simp only [fullPath]
      split_ifs <;> rfl
    · split_ifs <;> decide
  simp only [vfsNormalizePath, hcopy]
  rw [if_neg hne]

theorem vfsNormalizePath_of_short {input : Bytes} (h : (fullPath input).length < vfsMaxPath) :
    vfsNormalizePath input = fullPath input := by
  rw [vfsNormalizePath_eq, take_of_length_le (by omega)]

theorem length_vfsNormalizePath (input : Bytes) :
    (vfsNormalizePath input).length < vfsMaxPath := by
  rw [vfsNormalizePath_eq, length_take]
  have : 0 < vfsMaxPath := by decide
  omega

theorem fullPath_of_head {p : Bytes} (h : p.head? = some slash) : fullPath p = p := by
  have hdrop : p.dropWhile kIsSpace = p := by
    cases p with
    | nil => rfl
    | cons c cs =>
      obtain rfl : c = slash := by simpa using h
      rw [dropWhile_cons_of_neg (by decide)]
  simp only [fullPath, hdrop, if_pos h]

theorem head_vfsNormalizePath (input : Bytes) :
    (vfsNormalizePath input).head? = some slash := by
  have hh := fullPath_head input
  rw [vfsNormalizePath_eq]
  cases hf : fullPath input with
  | nil => rw [hf] at hh; cases hh
  | cons c cs => rw [hf] at hh; simpa [vfsMaxPath] using hh

@[simp] theorem vfsNormalizePath_idem (input : Bytes) :
    vfsNormalizePath (vfsNormalizePath input) = vfsNormalizePath input := by
  have hfull := fullPath_of_head (head_vfsNormalizePath input)
  rw [vfsNormalizePath_of_short, hfull]
  rw [hfull]
  exact length_vfsNormalizePath input

/-! ### The node table -/

/-- The loop of `vfs_find`. -/
def vfsSlotOf (s : Vfs) (norm : Bytes) : Option ℕ :=
  firstSlot (fun i => (s.files i).used && (s.files i).path = norm) vfsMaxFiles

/-- `vfs_find`: the slot of a path. -/
def vfsFind (s : Vfs) (path : Bytes) : Option ℕ := vfsSlotOf s (vfsNormalizePath path)

/-- Replace the node in one slot. -/
def Vfs.set (s : Vfs) (i : ℕ) (f : VfsFile) : Vfs :=
  { s with files := Function.update s.files i f }

/-- `vfs_alloc`: the slot of a path, a free one if the path has none. -/
def vfsAlloc (s : Vfs) (path : Bytes) : Option ℕ × Vfs :=
  match vfsFind s (vfsNormalizePath path) with
  | some i => (some i, s)
  | none =>
    match firstSlot (fun i => !(s.files i).used) vfsMaxFiles with
    | some i =>
      (some i, { s.set i ⟨true, true, vfsNormalizePath path, [], none, 0⟩ with
        count := s.count + 1 })
    | none => (none, s)

/-- The doubling loop of `vfs_ensure_rw_capacity`, at capacity `256 << k`. -/
def growCap (need k : ℕ) : ℕ :=
  if 256 * 2 ^ k < need ∧ 256 * 2 ^ k < vfsRwMax then growCap need (k + 1) else 256 * 2 ^ k
termination_by vfsRwMax - 256 * 2 ^ k
decreasing_by
  have := Nat.two_pow_pos k
  rw [Nat.pow_succ]
  omega

/-- `k_memcpy(buf, src, ..)`. -/
def kMemcpy (buf src : Bytes) : Bytes := src ++ buf.drop src.length

/-- The bytes of the buffer of a node. -/
def VfsFile.buf (f : VfsFile) : Bytes := f.rwData.getD []

/-- A new buffer of `cap` bytes, with what the node holds copied into it. -/
def VfsFile.grown (f : VfsFile) (cap : ℕ) : Bytes :=
  let next := List.replicate cap (0 : UInt8)
  let n := if f.rwSize ≥ cap then cap - 1 else f.rwSize
  if f.rwData.isSome ∧ f.rwSize ≠ 0 then (kMemcpy next (f.buf.take n)).set n 0 else next

/-- `vfs_ensure_rw_capacity`: none for `false`, where nothing was changed. -/
def vfsEnsureRwCapacity (kmallocOk : Bool) (f : VfsFile) (need : ℕ) : Option VfsFile :=
  let need := if need = 0 then 1 else need
  if need > vfsRwMax then none
  else if (f.rwData.any fun buf => buf.length ≥ need) then some f
  else
    let cap := growCap need 0
    let cap := if cap > vfsRwMax then vfsRwMax else cap
    if cap < need then none
    else if ¬ kmallocOk then none
    else
      some { f with rwData := some (f.grown cap) }

/-- Copy `bytes` to the start of the buffer of a node and close them with a zero. -/
def VfsFile.store (f : VfsFile) (bytes : Bytes) : VfsFile :=
  { f with
    rwData := some ((kMemcpy f.buf bytes).set bytes.length 0)
    rwSize := bytes.length }

/-- `vfs_promote_writable`: none for `false`, where nothing was changed. -/
def vfsPromoteWritable (kmallocOk : Bool) (f : VfsFile) : Option VfsFile :=
  if f.writable then
    if f.rwData.isSome then some f else vfsEnsureRwCapacity kmallocOk f (f.rwSize + 1)
  else if f.roData.length ≥ vfsRwMax then none
  else
    match vfsEnsureRwCapacity kmallocOk f (f.roData.length + 1) with
    | none => none
    | some f => some { f.store f.roData with writable := true }

/-- The number of bytes that a write stores. -/
def storeLen (payload : Bytes) : ℕ :=
  if payload.length ≥ vfsRwMax then vfsRwMax - 1 else payload.length

/-- What `vfs_write` and `vfs_write_bytes` do with the node in slot `i`.  The two flags answer
the calls of `kmalloc` that the promotion and the growth of the buffer make. -/
def vfsStoreAt (kmalloc₁ kmalloc₂ : Bool) (payload : Bytes) (i : ℕ) (s : Vfs) : Bool × Vfs :=
  match vfsPromoteWritable kmalloc₁ (s.files i) with
  | none => (false, s)
  | some f =>
    let s := s.set i f
    match vfsEnsureRwCapacity kmalloc₂ f (storeLen payload + 1) with
    | none => (false, s)
    | some f => (true, s.set i (f.store (payload.take (storeLen payload))))

/-- The body of `vfs_write` and `vfs_write_bytes`. -/
def vfsStore (kmalloc₁ kmalloc₂ : Bool) (p payload : Bytes) (s : Vfs) : Bool × Vfs :=
  match vfsAlloc s p with
  | (none, s) => (false, s)
  | (some i, s) => vfsStoreAt kmalloc₁ kmalloc₂ payload i s

def vfsWrite (kmalloc₁ kmalloc₂ : Bool) (p text : Bytes) : Vfs → Bool × Vfs :=
  vfsStore kmalloc₁ kmalloc₂ p text

/-- The bytes that a call `vfs_write_bytes(p, data, size)` is to write, zeros for a null
pointer. -/
def writePayload (data : Option Bytes) (size : ℕ) : Bytes :=
  match data with
  | some d => d.take size
  | none => List.replicate size 0

def vfsWriteBytes (kmalloc₁ kmalloc₂ : Bool) (p : Bytes) (data : Option Bytes) (size : ℕ) :
    Vfs → Bool × Vfs :=
  vfsStore kmalloc₁ kmalloc₂ p (writePayload data size)

def vfsRemove (p : Bytes) (s : Vfs) : Bool × Vfs :=
  match vfsFind s p with
  | none => (false, s)
  | some i => (true, { s.set i .zero with count := s.count - 1 })

/-- The middle of `vfs_rename`: a file at the target, in another slot than `i`, is removed. -/
def vfsDropTarget (dstNorm : Bytes) (i : ℕ) (s : Vfs) : Bool × Vfs :=
  match vfsFind s dstNorm with
  | none => (true, s)
  | some j => if j = i then (true, s) else vfsRemove dstNorm s

def vfsRename (src dst : Bytes) (s : Vfs) : Bool × Vfs :=
  let srcNorm := vfsNormalizePath src
  let dstNorm := vfsNormalizePath dst
  if srcNorm = dstNorm then (true, s)
  else
    match vfsFind s srcNorm with
    | none => (false, s)
    | some i =>
      match vfsDropTarget dstNorm i s with
      | (false, s) => (false, s)
      | (true, s) => (true, s.set i { s.files i with path := dstNorm })

/-- What `vfs_read` returns for a node. -/
def VfsFile.contents (f : VfsFile) : Bytes :=
  if f.writable then f.buf.take f.rwSize else f.roData

/-- `vfs_read`: none for `false`. -/
def vfsRead (p : Bytes) (s : Vfs) : Option Bytes :=
  (vfsFind s p).map fun i => (s.files i).contents

/-- The node of a file of the initrd. -/
def VfsFile.mounted (f : VfsFile) (data : Bytes) : VfsFile :=
  { f with writable := false, roData := data, rwData := none, rwSize := 0 }

/-- One file of `vfs_mount_initrd`, whose path was found to fit. -/
def vfsMountFile (path data : Bytes) (s : Vfs) : Bool × Vfs :=
  match vfsAlloc s path with
  | (none, s) => (false, s)
  | (some i, s) => (true, s.set i ((s.files i).mounted data))

end Ridux
