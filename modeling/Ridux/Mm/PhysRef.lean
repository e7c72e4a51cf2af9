import Ridux.Paging.Table

/-!
# Counted frames

User frames are shared between address spaces and counted in `g_c3_phys_refcnt`.  A frame that is
no longer counted waits in a quarantine before it goes back to the allocator.

* `Mm`: the page tables, the counts, the quarantine, the cached pages of files and the mapped
  regions;
* `c3PhysRefSetInitial`, `c3PhysRefRetain`, `c3PhysRefRelease`: the operations on one count.
-/

namespace Ridux

open Lib Function

def c3PhysQuarantineMax : ℕ := 4096

def c3PmmBase : ℕ := 0x200000

/-- A mapped region (`mmap_entry_t`), with the fields that the code here reads. -/
structure MmapEntry where
  used : Bool
  as : Space
  virt : ℕ
  size : ℕ
  flags : BitVec 32
  noFreePhys : Bool
  deriving DecidableEq

/-- The memory of the machine: the page tables and what is known of the user frames. -/
structure Mm where
  paging : Paging
  /-- `g_c3_phys_refcnt` -/
  refcnt : ℕ → ℕ
  /-- `g_c3_phys_quarantine`, its head and its count -/
  quarantine : ℕ → ℕ
  quarantineHead : ℕ
  quarantineCount : ℕ
  /-- the frame of each used element of `g_c3_file_pages` -/
  filePages : ℕ → Option ℕ
  /-- `g_mmap_table` -/
  mmapTable : ℕ → MmapEntry

/-- `phys & ~0xFFF`. -/
def pageBase (phys : ℕ) : ℕ := phys / pageSize * pageSize

def c3PhysRefIndex (phys : ℕ) : Option ℕ :=
  if phys = 0 then none
  else if pageBase phys < c3PmmBase then none
  else if pmmMaxPages ≤ (pageBase phys - c3PmmBase) / pageSize then none
  else some ((pageBase phys - c3PmmBase) / pageSize)

namespace Mm

/-- Give back a frame to the allocator. -/
def freeFrame (m : Mm) (phys : ℕ) : Mm :=
  { m with paging := { m.paging with pmm := pmmFreeFrame (pageBase phys) m.paging.pmm } }

def c3PhysRefSetInitial (phys : ℕ) (m : Mm) : Mm :=
  match c3PhysRefIndex phys with
  | none => m
  | some idx =>
    if m.refcnt idx = 0 then { m with refcnt := update m.refcnt idx 1 } else m

def c3PhysRefRetain (phys : ℕ) (m : Mm) : Mm :=
  match c3PhysRefIndex phys with
  | none => m
  | some idx =>
    if m.refcnt idx = 0 then { m with refcnt := update m.refcnt idx 1 }
    else if m.refcnt idx < 0xFFFF then
      { m with refcnt := update m.refcnt idx (m.refcnt idx + 1) }
    else m

/-- One round of `c3_phys_quarantine_drain`: the oldest frame leaves the quarantine. -/
def quarantineTake (m : Mm) : Mm :=
  { if m.quarantine m.quarantineHead ≠ 0 then m.freeFrame (m.quarantine m.quarantineHead) else m with
    quarantine := update m.quarantine m.quarantineHead 0
    quarantineHead := (m.quarantineHead + 1) % c3PhysQuarantineMax
    quarantineCount := m.quarantineCount - 1 }

def c3PhysQuarantineDrain : ℕ → Mm → Mm
  | 0, m => m
  | maxPages + 1, m =>
    if m.quarantineCount = 0 then m
    else c3PhysQuarantineDrain maxPages m.quarantineTake

/-- The second half of `c3_phys_quarantine_frame`: when the quarantine is full its oldest frame makes
room. -/
def quarantinePut (phys : ℕ) (m : Mm) : Mm :=
  if m.quarantineCount < c3PhysQuarantineMax then
    { m with
      quarantine := update m.quarantine
        ((m.quarantineHead + m.quarantineCount) % c3PhysQuarantineMax) (pageBase phys)
      quarantineCount := m.quarantineCount + 1 }
  else
    { if m.quarantine m.quarantineHead ≠ 0 then m.freeFrame (m.quarantine m.quarantineHead) else m with
      quarantine := update m.quarantine m.quarantineHead (pageBase phys)
      quarantineHead := (m.quarantineHead + 1) % c3PhysQuarantineMax }

def c3PhysQuarantineFrame (phys : ℕ) (m : Mm) : Mm :=
  if phys = 0 then m
  else quarantinePut phys
    (if pmmFreeCount m.paging.pmm < 256 then c3PhysQuarantineDrain 256 m else m)

/-- `c3_file_page_invalidate_phys`, as `c3_phys_ref_release` calls it: the count of the frame is
zero, so nothing is released again. -/
def c3FilePageInvalidatePhys (phys : ℕ) (m : Mm) : Mm :=
  { m with filePages := fun i => (m.filePages i).filter fun p => pageBase p ≠ pageBase phys }

def c3PhysRefRelease (phys : ℕ) (m : Mm) : Mm :=
  match c3PhysRefIndex phys with
  | none => m
  | some idx =>
    if m.refcnt idx = 0 then m
    else if 1 < m.refcnt idx then
      { m with refcnt := update m.refcnt idx (m.refcnt idx - 1) }
    else
      c3PhysQuarantineFrame (pageBase phys)
        (c3FilePageInvalidatePhys phys { m with refcnt := update m.refcnt idx 0 })

end Mm

end Ridux
