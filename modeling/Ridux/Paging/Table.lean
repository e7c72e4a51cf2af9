import Mathlib.Data.Nat.Bitwise
import Ridux.Lib.Code
import Ridux.Limits
import Ridux.Pmm.Basic

/-!
# Page tables

The four-level paging code of `memory_tasks.c`.  A table is named by the index of its frame; the
words of the tables are the part `mem` of physical memory that this code reads and writes.

* `Pte`: the 64-bit entries, their flags and their frame;
* `Paging`: the state, with the roots of the kernel space and of the user spaces;
* `pagingMap`, `pagingUnmap`, `pagingSetEntry`, `pagingCreateAddressSpace`: the operations;
* `pagingTranslate`, `pagingGetEntry`: the queries.
-/

namespace Ridux

open Lib Function

/-! ### Entries -/

/-- An entry of a page table. -/
abbrev Pte := BitVec 64

def pagePresent : Pte := 0x001
def pageWritable : Pte := 0x002
def pageUser : Pte := 0x004
def pageHuge : Pte := 0x080
def pageNx : Pte := 0x8000000000000000

/-- `C2_PTE_ADDR_MASK`. -/
def pteAddrMask : Pte := 0x000FFFFFFFFFF000

namespace Pte

/-- `entry & PAGE_PRESENT`. -/
def present (e : Pte) : Bool := e.getLsbD 0
/-- `entry & PAGE_WRITABLE`. -/
def writable (e : Pte) : Bool := e.getLsbD 1
/-- `entry & PAGE_USER`. -/
def user (e : Pte) : Bool := e.getLsbD 2
/-- `entry & PAGE_HUGE`. -/
def huge (e : Pte) : Bool := e.getLsbD 7

/-- The frame an entry points to: `(entry & C2_PTE_ADDR_MASK) / PAGE_SIZE`. -/
def frame (e : Pte) : ℕ := (e.extractLsb' 12 40).toNat

/-- The entry `DMAP_TO_PHYS(pt) | flags` that links the table in frame `f`. -/
def link (f : ℕ) (flags : Pte) : Pte := BitVec.ofNat 64 (f * pageSize) ||| flags

@[simp] theorem present_or (a b : Pte) : present (a ||| b) = (present a || present b) := by
  simp [present]

@[simp] theorem user_or (a b : Pte) : user (a ||| b) = (user a || user b) := by simp [user]

@[simp] theorem huge_or (a b : Pte) : huge (a ||| b) = (huge a || huge b) := by simp [huge]

@[simp] theorem present_zero : present 0#64 = false := by decide

theorem getLsbD_ofNat_page (f : ℕ) {i : ℕ} (hi : i < 12) :
    (BitVec.ofNat 64 (f * pageSize)).getLsbD i = false := by
  have hshift : f * pageSize = f <<< 12 := by rw [Nat.shiftLeft_eq]; rfl
  rw [BitVec.getLsbD_ofNat, hshift, Nat.testBit_shiftLeft]
  simp [hi]

@[simp] theorem present_link (f : ℕ) (flags : Pte) : present (link f flags) = present flags := by
  rw [link, present_or, present, getLsbD_ofNat_page f (by decide), Bool.false_or]

@[simp] theorem huge_link (f : ℕ) (flags : Pte) : huge (link f flags) = huge flags := by
  rw [link, huge_or, huge, getLsbD_ofNat_page f (by decide), Bool.false_or]

theorem extractLsb'_or (a b : Pte) :
    (a ||| b).extractLsb' 12 40 = a.extractLsb' 12 40 ||| b.extractLsb' 12 40 := by
  ext i hi
  simp

theorem frame_or_of_low {a flags : Pte} (h : flags.extractLsb' 12 40 = 0) :
    frame (a ||| flags) = frame a := by
  rw [frame, extractLsb'_or, h, frame]
  simp

theorem frame_link {f : ℕ} (hf : f < 2 ^ 40) {flags : Pte} (h : flags.extractLsb' 12 40 = 0) :
    frame (link f flags) = f := by
  rw [link, frame_or_of_low h, frame, BitVec.extractLsb'_toNat, BitVec.toNat_ofNat,
    Nat.shiftRight_eq_div_pow, pageSize_eq]
  omega

theorem extractLsb'_low (e : Pte) : ((e &&& 0xFFF) ||| pageUser).extractLsb' 12 40 = 0 := by
  rw [extractLsb'_or, show pageUser.extractLsb' 12 40 = 0 by decide]
  ext i hi
  have hmask : (0xFFF#64).getLsbD (12 + i) = false := by
    have h : 0xFFF#64 = BitVec.ofNat 64 (2 ^ 12 - 1) := by decide
    rw [h, BitVec.getLsbD_ofNat, Nat.testBit_two_pow_sub_one]
    simp
  simp [hmask]

end Pte

def c2SanitizePageFlags (nxEnabled : Bool) (flags : Pte) : Pte :=
  if nxEnabled then flags else flags &&& ~~~pageNx

/-! ### The state -/

def dmapBase : ℕ := 0xFFFF800000000000

def riduxUserLowSafe : ℕ := 0x40000000

def riduxUserLowMapMin : ℕ := 0x400000

/-- An address space: the kernel's own or an element of the static array `spaces`. -/
inductive Space
  | kernel
  | user (n : ℕ)
  deriving DecidableEq

/-- The state of the paging code. -/
structure Paging where
  pmm : Pmm
  /-- the word at each frame and index, for the frames that hold tables -/
  mem : ℕ → ℕ → Pte
  /-- the root of `g_kernel_as` -/
  kernelPml4 : ℕ
  /-- the root of each element of `spaces`, none while the pointer is null -/
  spaces : ℕ → Option ℕ
  /-- `next_space` -/
  nextSpace : ℕ
  /-- `g_paging_nx_enabled` -/
  nxEnabled : Bool

namespace Paging

/-- `as->pml4`. -/
def pml4 (s : Paging) : Space → Option ℕ
  | .kernel => some s.kernelPml4
  | .user n => s.spaces n

/-- Write one word of a table. -/
def write (s : Paging) (f i : ℕ) (e : Pte) : Paging :=
  { s with mem := update s.mem f (update (s.mem f) i e) }

/-- Write the 512 words of a table. -/
def fill (s : Paging) (f : ℕ) (entries : ℕ → Pte) : Paging :=
  { s with mem := update s.mem f entries }

@[simp] theorem fill_pmm (s : Paging) (f : ℕ) (entries : ℕ → Pte) :
    (s.fill f entries).pmm = s.pmm := rfl

@[simp] theorem fill_pml4 (s : Paging) (f : ℕ) (entries : ℕ → Pte) :
    (s.fill f entries).pml4 = s.pml4 := by
  funext as
  cases as <;> rfl

@[simp] theorem fill_mem_self (s : Paging) (f : ℕ) (entries : ℕ → Pte) :
    (s.fill f entries).mem f = entries := by simp [fill]

@[simp] theorem fill_mem_of_ne (s : Paging) {f g : ℕ} (h : g ≠ f) (entries : ℕ → Pte) :
    (s.fill f entries).mem g = s.mem g := by simp [fill, h]

end Paging

def c2PhysFrameInRange (s : Paging) (phys : ℕ) : Bool :=
  s.pmm.total = 0 ∨ phys < s.pmm.total * pageSize

/-- `c2_dmap_page_table_ptr_valid`, for a pointer given as an address. -/
def c2DmapPageTablePtrValid (s : Paging) (va : ℕ) : Bool :=
  va ≠ 0 ∧ va % pageSize = 0 ∧ dmapBase ≤ va ∧ c2PhysFrameInRange s (va - dmapBase)

/-- The pointer `PHYS_TO_DMAP` of a frame. -/
def physToDmap (f : ℕ) : ℕ := u64 (f * pageSize + dmapBase)

def c2PageTableFromEntry (s : Paging) (e : Pte) : Option ℕ :=
  if ¬ e.present then none
  else if e.huge then none
  else if ¬ c2PhysFrameInRange s (e.frame * pageSize) then none
  else if ¬ c2DmapPageTablePtrValid s (physToDmap e.frame) then none
  else some e.frame

def c2AddressSpaceReady (as : Space) (s : Paging) : Bool :=
  match s.pml4 as with
  | none => false
  | some root => c2DmapPageTablePtrValid s (physToDmap root)

def c2UserPagingEditAllowed (as : Space) (virt : ℕ) : Bool :=
  as = .kernel ∨ virt ≥ riduxUserLowSafe ∨ virt ≥ riduxUserLowMapMin

/-! ### The queries -/

/-- `(virt >> 39) & 0x1FF`. -/
def pml4Index (virt : ℕ) : ℕ := virt / 2 ^ 39 % 512
/-- `(virt >> 30) & 0x1FF`. -/
def pdptIndex (virt : ℕ) : ℕ := virt / 2 ^ 30 % 512
/-- `(virt >> 21) & 0x1FF`. -/
def pdIndex (virt : ℕ) : ℕ := virt / 2 ^ 21 % 512
/-- `(virt >> 12) & 0x1FF`. -/
def ptIndex (virt : ℕ) : ℕ := virt / 2 ^ 12 % 512

/-- Where the walk of an address ends: nowhere, at a huge entry, or at the slot of a page in a
last-level table. -/
inductive Walk
  | fault
  | huge1g (e : Pte)
  | huge2m (e : Pte)
  | slot (pt pti : ℕ)

/-- The walk that the queries, `paging_unmap` and `paging_set_entry` all make. -/
def pagingWalk (as : Space) (virt : ℕ) (s : Paging) : Walk :=
  if ¬ c2AddressSpaceReady as s then .fault
  else
    match s.pml4 as with
    | none => .fault
    | some pml4 =>
      match c2PageTableFromEntry s (s.mem pml4 (pml4Index virt)) with
      | none => .fault
      | some pdpt =>
        let pdpte := s.mem pdpt (pdptIndex virt)
        if pdpte.huge then .huge1g pdpte
        else
          match c2PageTableFromEntry s pdpte with
          | none => .fault
          | some pd =>
            let pde := s.mem pd (pdIndex virt)
            if pde.huge then .huge2m pde
            else
              match c2PageTableFromEntry s pde with
              | none => .fault
              | some pt => .slot pt (ptIndex virt)

/-- `paging_translate`, `0` for failure.  The two parts joined by `|` in the source have no bit
in common. -/
def pagingTranslate (as : Space) (virt : ℕ) (s : Paging) : ℕ :=
  match pagingWalk as virt s with
  | .fault => 0
  | .huge1g e => e.frame * pageSize / 2 ^ 30 * 2 ^ 30 + virt % 2 ^ 30
  | .huge2m e => e.frame * pageSize / 2 ^ 21 * 2 ^ 21 + virt % 2 ^ 21
  | .slot pt pti =>
    if (s.mem pt pti).present then (s.mem pt pti).frame * pageSize + virt % 2 ^ 12 else 0

/-- `paging_get_entry`, `0` for failure. -/
def pagingGetEntry (as : Space) (virt : ℕ) (s : Paging) : Pte :=
  match pagingWalk as virt s with
  | .fault => 0
  | .huge1g e => e
  | .huge2m e => e
  | .slot pt pti => s.mem pt pti

/-! ### The operations -/

/-- `alloc_page_table`: a zeroed frame, marked as a page table. -/
def allocPageTable : Code Paging ℕ := fun s =>
  match pmmAllocPageTable s.pmm with
  | (0, pmm) => (none, { s with pmm := pmm })
  | (phys, pmm) => (some (phys / pageSize), { s with pmm := pmm }.fill (phys / pageSize) fun _ => 0)

/-- Read one word of a table. -/
def readEntry (f i : ℕ) : Code Paging Pte := .read fun s => s.mem f i

/-- Write one word of a table. -/
def writeEntry (f i : ℕ) (e : Pte) : Code Paging Unit := .change fun s => s.write f i e

/-- The table an entry points to, or an early return. -/
def follow (e : Pte) : Code Paging ℕ := .find fun s => c2PageTableFromEntry s e

/-- The child of an entry in the tree to be cloned: a new table, filled by `cloneInto` from the
old one and linked at index `i` of `dst`. -/
def cloneChild (cloneInto : ℕ → ℕ → Code Paging Unit) (dst i : ℕ) (entry : Pte) :
    Code Paging Unit := do
  let dstTable ← allocPageTable
  let srcTable ← follow entry
  cloneInto dstTable srcTable
  writeEntry dst i (Pte.link dstTable ((entry &&& 0xFFF) ||| pageUser))

/-- The innermost loop of `deep_clone_pd`: the present entries of a last-level table. -/
def clonePt (dst src : ℕ) : Code Paging Unit :=
  .change fun s => s.fill dst fun i => if (s.mem src i).present then s.mem src i else 0

/-- The loop that `deep_clone_pd` and `deep_clone_pdpt` share: huge entries are kept as they
are, the other present entries get a cloned child. -/
def deepCloneTable (cloneInto : ℕ → ℕ → Code Paging Unit) (dst src : ℕ) : Code Paging Unit :=
  .forEach (fun i => do
    let entry ← readEntry src i
    if ¬ entry.present then writeEntry dst i 0
    else if entry.huge then writeEntry dst i entry
    else cloneChild cloneInto dst i entry) (List.range 512)

def deepClonePd : ℕ → ℕ → Code Paging Unit := deepCloneTable clonePt

def deepClonePdpt : ℕ → ℕ → Code Paging Unit := deepCloneTable deepClonePd

/-- One entry of the new root: the low half is cloned, the high half copied. -/
def clonePml4Entry (dst src i : ℕ) : Code Paging Unit := do
  let entry ← readEntry src i
  if ¬ entry.present then writeEntry dst i 0
  else if i < 256 then cloneChild deepClonePdpt dst i entry
  else writeEntry dst i entry

/-- `paging_create_address_space`: the number of the new space.  A failure after the space was
taken from the array does not give it back. -/
def pagingCreateAddressSpace : Code Paging ℕ := do
  let n ← .read Paging.nextSpace
  .check fun s => s.nextSpace < taskMax
  .check (c2AddressSpaceReady .kernel)
  .change fun s => { s with nextSpace := n + 1 }
  let pml4 ← allocPageTable
  let kernelPml4 ← .read Paging.kernelPml4
  .forEach (clonePml4Entry pml4 kernelPml4) (List.range 512)
  .change fun s => { s with spaces := update s.spaces n (some pml4) }
  pure n

/-- `paging_destroy_address_space`: the frame of the root is given back to the allocator, which
refuses it as a page table. -/
def pagingDestroyAddressSpace (n : ℕ) (s : Paging) : Paging :=
  match s.spaces n with
  | none => s
  | some pml4 =>
    let pmm := if c2DmapPageTablePtrValid s (physToDmap pml4)
      then pmmFreeFrame (pml4 * pageSize) s.pmm else s.pmm
    { s with pmm := pmm, spaces := update s.spaces n none }

/-- The entries that replace a 2 MiB entry. -/
def child2m (nxEnabled : Bool) (old : Pte) (i : ℕ) : Pte :=
  ((old &&& pteAddrMask &&& ~~~pageHuge) + BitVec.ofNat 64 (i * 2 ^ 12)) |||
    c2SanitizePageFlags nxEnabled (old &&& 0xFFF &&& ~~~pageHuge)

/-- The entries that replace a 1 GiB entry. -/
def child1g (_nxEnabled : Bool) (old : Pte) (i : ℕ) : Pte :=
  ((old &&& pteAddrMask &&& ~~~pageHuge) + BitVec.ofNat 64 (i * 2 ^ 21)) ||| (old &&& 0xFFF)

/-- The shape of `paging_split_2m_huge` and `paging_split_1g_huge`: the huge entry at index `i`
gives way to a new table of `child` entries. -/
def pagingSplitHuge (child : Bool → Pte → ℕ → Pte) (tbl i : ℕ) (userAccess : Bool) :
    Code Paging Unit := do
  let old ← readEntry tbl i
  if ¬ old.huge then pure ()
  else do
    .check fun s => c2PhysFrameInRange s (old.frame * pageSize)
    let f ← allocPageTable
    .change fun s => s.fill f (child s.nxEnabled old)
    writeEntry tbl i
      (Pte.link f (pagePresent ||| pageWritable ||| if userAccess then pageUser else 0))

def pagingSplit2mHuge : ℕ → ℕ → Bool → Code Paging Unit := pagingSplitHuge child2m

def pagingSplit1gHuge : ℕ → ℕ → Bool → Code Paging Unit := pagingSplitHuge child1g

/-- The first half of a level of `paging_map`: an absent entry gets a new table, a present one
gets `PAGE_USER` when a user page is mapped below it. -/
def ensureTable (tbl i : ℕ) (wantUser : Bool) : Code Paging Unit := do
  let e ← readEntry tbl i
  if ¬ e.present then do
    let f ← allocPageTable
    writeEntry tbl i (Pte.link f (pagePresent ||| pageWritable ||| pageUser))
  else if wantUser ∧ ¬ e.user then writeEntry tbl i (e ||| pageUser)
  else pure ()

/-- A level of `paging_map`: the table below index `i` of `tbl`. -/
def descend (tbl i : ℕ) (wantUser : Bool) : Code Paging ℕ := do
  ensureTable tbl i wantUser
  let e ← readEntry tbl i
  follow e

def pagingMap (as : Space) (virt phys : ℕ) (flags : Pte) : Code Paging Unit := do
  .check (c2AddressSpaceReady as)
  .check fun _ => c2UserPagingEditAllowed as virt
  let pml4 ← .find fun s => s.pml4 as
  let pdpt ← descend pml4 (pml4Index virt) flags.user
  pagingSplit1gHuge pdpt (pdptIndex virt) flags.user
  let pd ← descend pdpt (pdptIndex virt) flags.user
  pagingSplit2mHuge pd (pdIndex virt) flags.user
  let pt ← descend pd (pdIndex virt) flags.user
  .change fun s => s.write pt (ptIndex virt)
    (BitVec.ofNat 64 phys ||| c2SanitizePageFlags s.nxEnabled flags)

/-- The body that `paging_unmap` and `paging_set_entry` share: write the slot of a page. -/
def writeSlot (as : Space) (virt : ℕ) (e : Pte) : Code Paging Unit := fun s =>
  if ¬ c2UserPagingEditAllowed as virt then (none, s)
  else
    match pagingWalk as virt s with
    | .slot pt pti => (some (), s.write pt pti e)
    | _ => (none, s)

def pagingUnmap (as : Space) (virt : ℕ) : Code Paging Unit := writeSlot as virt 0

def pagingSetEntry (as : Space) (virt : ℕ) (entry : Pte) : Code Paging Unit := fun s =>
  writeSlot as virt (c2SanitizePageFlags s.nxEnabled entry) s

end Ridux
