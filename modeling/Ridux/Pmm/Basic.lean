import Ridux.Lib.Scan

/-!
# The physical memory manager

The bitmap allocator of `memory_tasks.c`.  A frame is named by its index (physical address
divided by the page size); the two arrays of 32-bit words `g_pmm_bitmap` and `g_pmm_pt_bitmap`
are functions from the index to the bit (`word = idx / 32`, `bit = idx % 32`).  Physical
addresses are natural numbers; the casts to `uint32_t` that the source makes are explicit.

* `pmmInit`: the state after `pmm_init`, from what the boot code handed over before it;
* `pmmAllocFrame`, `pmmAllocContiguousFrames`, `pmmFreeFrame`, `pmmMarkPageTableFrame`;
* `Pmm.Inv`: the invariant of the allocator, kept by every operation.
-/

namespace Ridux

open Lib Function

def pageSize : ℕ := 4096

@[simp] theorem pageSize_eq : pageSize = 4096 := rfl

/-- A value cast to `uint32_t`. -/
def u32 (n : ℕ) : ℕ := n % 2 ^ 32

/-- A value of type `uint64_t`, after wrap-around. -/
def u64 (n : ℕ) : ℕ := n % 2 ^ 64

theorem u32_of_lt {n : ℕ} (h : n < 2 ^ 32) : u32 n = n := Nat.mod_eq_of_lt h

theorem u64_of_lt {n : ℕ} (h : n < 2 ^ 64) : u64 n = n := Nat.mod_eq_of_lt h

/-- `x & ~(PAGE_SIZE - 1)`. -/
def pageDown (n : ℕ) : ℕ := n / pageSize * pageSize

@[simp] theorem pageDown_div (n : ℕ) : pageDown n / pageSize = n / pageSize := by
  simp [pageDown]

/-- `PMM_MAX_PAGES`: the bitmap covers 8 GiB. -/
def pmmMaxPages : ℕ := 2 * 1024 * 1024

/-- The state of the allocator: `g_pmm_bitmap`, `g_pmm_pt_bitmap`, `g_pmm_total`, `g_pmm_free`,
`g_pmm_hint` and `g_pmm_base`. -/
structure Pmm where
  bitmap : ℕ → Bool
  ptBitmap : ℕ → Bool
  total : ℕ
  free : ℕ
  hint : ℕ
  base : ℕ

/-- What the boot code has set before `pmm_init(mem_bytes)`. -/
structure PmmBoot where
  /-- the argument of `pmm_set_alloc_base` -/
  allocBase : ℕ
  /-- the argument of `pmm_set_memory_limit`, `0` when it was never called -/
  memoryLimit : ℕ
  /-- `g_pmm_usable_ranges`, as pairs of start and end -/
  usableRanges : List (ℕ × ℕ)
  memBytes : ℕ

/-- `pmm_set_alloc_base`: the lowest address the allocator hands out. -/
def pmmSetAllocBase (physBase : ℕ) : ℕ :=
  pageDown (if physBase < 0x200000 then 0x200000 else physBase)

def pmmSetMemoryLimit (memBytes : ℕ) : ℕ :=
  if memBytes < pageSize then 0 else pageDown memBytes

/-- One index of the loop that makes a usable range free. -/
def releaseBit (st : (ℕ → Bool) × ℕ) (idx : ℕ) : (ℕ → Bool) × ℕ :=
  if st.1 idx then (update st.1 idx false, st.2 + 1) else st

/-- One usable range of `pmm_init`, clipped to the `pages` that the bitmap covers. -/
def releaseRange (pages : ℕ) (st : (ℕ → Bool) × ℕ) (r : ℕ × ℕ) : (ℕ → Bool) × ℕ :=
  let limit := pages * pageSize
  let s := pageDown (u64 (r.1 + pageSize - 1))
  let e := pageDown r.2
  if e ≤ s ∨ s ≥ limit then st
  else
    let e := if e > limit then limit else e
    let first := u32 (s / pageSize)
    let last := if u32 (e / pageSize) > pages then pages else u32 (e / pageSize)
    (List.range' first (last - first)).foldl releaseBit st

/-- One index of the loop that reserves the frames below the allocation base. -/
def reserveBit (st : (ℕ → Bool) × ℕ) (idx : ℕ) : (ℕ → Bool) × ℕ :=
  if st.1 idx then st else (update st.1 idx true, st.2 - 1)

/-- The number of pages managed, as `pmm_init` computes it. -/
def pmmPages (boot : PmmBoot) : ℕ :=
  let limit := pmmSetMemoryLimit boot.memoryLimit
  let memBytes := if limit ≠ 0 ∧ boot.memBytes > limit then limit else boot.memBytes
  let pages := u32 (memBytes / pageSize)
  if pages > pmmMaxPages then pmmMaxPages else pages

def pmmInit (boot : PmmBoot) : Pmm :=
  let pages := pmmPages boot
  let base := pmmSetAllocBase boot.allocBase
  let usable : (ℕ → Bool) × ℕ :=
    if boot.usableRanges = [] then (fun _ => false, pages)
    else boot.usableRanges.foldl (releaseRange pages) (fun _ => true, 0)
  let reserve := if u32 (base / pageSize) > pages then pages else u32 (base / pageSize)
  let reserved := (List.range reserve).foldl reserveBit usable
  { bitmap := reserved.1
    ptBitmap := fun _ => false
    total := pages
    free := reserved.2
    hint := if reserve < pages then reserve else 0
    base := base }

/-- `pmm_frame_index`.  The index is cast to 32 bits before it is compared with the total. -/
def pmmFrameIndex (s : Pmm) (phys : ℕ) : Option ℕ :=
  if phys < s.base then none
  else
    let idx := u32 (pageDown phys / pageSize)
    if idx ≥ s.total then none else some idx

def pmmMarkPageTableFrame (s : Pmm) (phys : ℕ) : Pmm :=
  match pmmFrameIndex s phys with
  | none => s
  | some idx => { s with ptBitmap := update s.ptBitmap idx true }

def pmmIsPageTableFrame (s : Pmm) (phys : ℕ) : Bool :=
  match pmmFrameIndex s phys with
  | none => false
  | some idx => s.ptBitmap idx

/-- The test both searches make: neither bitmap has the bit. -/
def Pmm.isFree (s : Pmm) (idx : ℕ) : Bool := !s.bitmap idx && !s.ptBitmap idx

/-- Take the frames `[a, a + k)`: set their bits, count them off (saturating at zero) and move
the search hint past them. -/
def Pmm.claim (s : Pmm) (a k : ℕ) : Pmm :=
  { s with
    bitmap := setBlock s.bitmap a k
    free := s.free - k
    hint := if a + k < s.total then a + k else 0 }

/-- `pmm_alloc_frame`: two passes, from the hint to the end and then from the start to the
hint.  The result is a physical address, `0` for failure. -/
def pmmAllocFrame (s : Pmm) : ℕ × Pmm :=
  if s.total = 0 then (0, s)
  else
    let start := if s.hint < s.total then s.hint else 0
    match firstFrom s.isFree start s.total with
    | some idx => (idx * pageSize, s.claim idx 1)
    | none => (0, s)

def pmmAllocContiguousFrames (pages : ℕ) (s : Pmm) : ℕ × Pmm :=
  if pages = 0 ∨ pages > s.total then (0, s)
  else
    match scanRun s.isFree pages (List.range s.total) 0 0 with
    | some start => (start * pageSize, s.claim start pages)
    | none => (0, s)

/-- `pmm_free_frame`.  The release of a page-table frame is refused. -/
def pmmFreeFrame (phys : ℕ) (s : Pmm) : Pmm :=
  match pmmFrameIndex s (pageDown phys) with
  | none => s
  | some idx =>
    if pmmIsPageTableFrame s (pageDown phys) then s
    else if s.bitmap idx then
      { s with
        bitmap := update s.bitmap idx false
        free := s.free + 1
        hint := if idx < s.hint then idx else s.hint }
    else s

/-- What `alloc_page_table` does to the allocator: a frame is taken and marked. -/
def pmmAllocPageTable (s : Pmm) : ℕ × Pmm :=
  match pmmAllocFrame s with
  | (0, s') => (0, s')
  | (f, s') => (f, pmmMarkPageTableFrame s' f)

def pmmFreeCount (s : Pmm) : ℕ := s.free

/-! ### The invariant -/

/-- The invariant of the allocator: the counter is exact, every frame below the base and every
page-table frame is taken, and the base is a page address of at least 2 MiB. -/
structure Pmm.Inv (s : Pmm) : Prop where
  free_eq : s.free = (clearSet s.bitmap s.total).card
  pt_taken : ∀ i, s.ptBitmap i = true → s.bitmap i = true
  base_taken : ∀ i < s.total, i * pageSize < s.base → s.bitmap i = true
  base_ge : 0x200000 ≤ s.base
  base_aligned : pageSize ∣ s.base
  total_le : s.total ≤ pmmMaxPages

namespace Pmm

variable {s : Pmm} {i : ℕ}

theorem isFree_iff (h : s.Inv) (i : ℕ) : s.isFree i = true ↔ s.bitmap i = false := by
  simp only [isFree, Bool.and_eq_true, Bool.not_eq_true', and_iff_left_iff_imp]
  intro hb
  by_contra hpt
  have := h.pt_taken i (by simpa using hpt)
  simp [hb] at this

theorem base_le_of_free (h : s.Inv) (hi : i < s.total) (hf : s.isFree i = true) :
    s.base ≤ i * pageSize := by
  by_contra hlt
  have := h.base_taken i hi (not_le.1 hlt)
  rw [(isFree_iff h i).1 hf] at this
  cases this

theorem pos_of_base_le (h : s.Inv) (hi : s.base ≤ i * pageSize) : 0 < i := by
  have := h.base_ge
  rcases Nat.eq_zero_or_pos i with rfl | hpos
  · simp at hi; omega
  · exact hpos

@[simp] theorem claim_total (s : Pmm) (a k : ℕ) : (s.claim a k).total = s.total := rfl
@[simp] theorem claim_base (s : Pmm) (a k : ℕ) : (s.claim a k).base = s.base := rfl
@[simp] theorem claim_ptBitmap (s : Pmm) (a k : ℕ) : (s.claim a k).ptBitmap = s.ptBitmap := rfl
@[simp] theorem claim_bitmap (s : Pmm) (a k : ℕ) :
    (s.claim a k).bitmap = setBlock s.bitmap a k := rfl

theorem setBlock_eq_true_of {b : ℕ → Bool} (a k : ℕ) (h : b i = true) :
    setBlock b a k i = true := by
  simp [setBlock, h]

theorem Inv.claim (h : s.Inv) {a k : ℕ} (hend : a + k ≤ s.total)
    (hfree : ∀ i, a ≤ i → i < a + k → s.isFree i = true) : (s.claim a k).Inv where
  free_eq := by
    have hsub : Finset.Ico a (a + k) ⊆ clearSet s.bitmap s.total := by
      intro i hi
      rw [Finset.mem_Ico] at hi
      exact mem_clearSet.2 ⟨by omega, (isFree_iff h i).1 (hfree i hi.1 hi.2)⟩
    show s.free - k = _
    rw [claim_total, claim_bitmap, clearSet_setBlock, Finset.card_sdiff_of_subset hsub, h.free_eq]
    simp
  pt_taken i hi := setBlock_eq_true_of a k (h.pt_taken i hi)
  base_taken i hi hlt := setBlock_eq_true_of a k (h.base_taken i hi hlt)
  base_ge := h.base_ge
  base_aligned := h.base_aligned
  total_le := h.total_le

end Pmm

/-- **What `pmm_alloc_frame` does**: it takes one free frame, or there is none. -/
theorem pmmAllocFrame_cases (s : Pmm) :
    (∃ idx, idx < s.total ∧ s.isFree idx = true ∧
      pmmAllocFrame s = (idx * pageSize, s.claim idx 1)) ∨
    ((∀ i < s.total, s.isFree i = false) ∧ pmmAllocFrame s = (0, s)) := by
  unfold pmmAllocFrame
  by_cases h0 : s.total = 0
  · exact .inr ⟨fun i hi => by omega, if_pos h0⟩
  · rw [if_neg h0]
    have hstart : (if s.hint < s.total then s.hint else 0) ≤ s.total := by split_ifs <;> omega
    cases hf : firstFrom s.isFree (if s.hint < s.total then s.hint else 0) s.total with
    | some idx =>
      obtain ⟨hlt, hfree⟩ := firstFrom_eq_some hstart hf
      exact .inl ⟨idx, hlt, hfree, by simp only [hf]⟩
    | none => exact .inr ⟨firstFrom_eq_none hf, by simp only [hf]⟩

/-- **What `pmm_alloc_contiguous_frames` does**: it takes a block of free frames, or there is
no block of that length. -/
theorem pmmAllocContiguousFrames_cases (pages : ℕ) (s : Pmm) :
    (∃ a, 0 < pages ∧ a + pages ≤ s.total ∧
      (∀ i, a ≤ i → i < a + pages → s.isFree i = true) ∧
      pmmAllocContiguousFrames pages s = (a * pageSize, s.claim a pages)) ∨
    ((0 < pages → ∀ a, a + pages ≤ s.total →
      ∃ i, a ≤ i ∧ i < a + pages ∧ s.isFree i = false) ∧
      pmmAllocContiguousFrames pages s = (0, s)) := by
  unfold pmmAllocContiguousFrames
  by_cases h0 : pages = 0 ∨ pages > s.total
  · exact .inr ⟨fun hpos a ha => by omega, if_pos h0⟩
  · rw [if_neg h0]
    have hpos : 0 < pages := by omega
    cases hf : scanRun s.isFree pages (List.range s.total) 0 0 with
    | some a =>
      obtain ⟨hend, hfree⟩ := scanRun_eq_some hf
      exact .inl ⟨a, hpos, hend, hfree, rfl⟩
    | none => exact .inr ⟨fun _ a ha => scanRun_eq_none hpos hf ha, rfl⟩

theorem pmmFrameIndex_eq_some {s : Pmm} {phys idx : ℕ} (h : pmmFrameIndex s phys = some idx) :
    s.base ≤ phys ∧ idx < s.total ∧ idx = u32 (phys / pageSize) := by
  unfold pmmFrameIndex at h
  by_cases hb : phys < s.base
  · rw [if_pos hb] at h; cases h
  · rw [if_neg hb] at h
    by_cases ht : u32 (pageDown phys / pageSize) ≥ s.total
    · rw [if_pos ht] at h; cases h
    · rw [if_neg ht] at h
      obtain rfl := Option.some.inj h
      exact ⟨not_lt.1 hb, not_le.1 ht, by rw [pageDown_div]⟩

theorem pmmFrameIndex_mul {s : Pmm} (h : s.Inv) {idx : ℕ} (hi : idx < s.total)
    (hb : s.base ≤ idx * pageSize) : pmmFrameIndex s (idx * pageSize) = some idx := by
  have ht := h.total_le
  unfold pmmFrameIndex
  rw [if_neg (not_lt.2 hb)]
  have hidx : u32 (pageDown (idx * pageSize) / pageSize) = idx := by
    rw [pageDown_div, Nat.mul_div_cancel _ (by decide)]
    exact u32_of_lt (by simp only [pmmMaxPages] at ht; omega)
  simp only [hidx]
  rw [if_neg (not_le.2 hi)]

/-- **What `pmm_free_frame` does**: it clears the bit of a taken frame of the pool that is no
page table, or nothing. -/
theorem pmmFreeFrame_cases (phys : ℕ) (s : Pmm) :
    (∃ idx, pmmFrameIndex s (pageDown phys) = some idx ∧ s.ptBitmap idx = false ∧
      s.bitmap idx = true ∧
      pmmFreeFrame phys s = { s with
        bitmap := update s.bitmap idx false
        free := s.free + 1
        hint := if idx < s.hint then idx else s.hint }) ∨
    pmmFreeFrame phys s = s := by
  unfold pmmFreeFrame
  cases hidx : pmmFrameIndex s (pageDown phys) with
  | none => exact .inr rfl
  | some idx =>
    have hpt : pmmIsPageTableFrame s (pageDown phys) = s.ptBitmap idx := by
      simp only [pmmIsPageTableFrame, hidx]
    simp only [hpt]
    by_cases h1 : s.ptBitmap idx = true
    · exact .inr (if_pos h1)
    · rw [if_neg h1]
      by_cases h2 : s.bitmap idx = true
      · exact .inl ⟨idx, rfl, by simpa using h1, h2, if_pos h2⟩
      · exact .inr (if_neg h2)

namespace Pmm

variable {s : Pmm}

theorem Inv.allocFrame (h : s.Inv) : (pmmAllocFrame s).2.Inv := by
  rcases pmmAllocFrame_cases s with ⟨idx, hlt, hfree, he⟩ | ⟨-, he⟩
  · rw [he]
    refine h.claim (by omega) fun i h1 h2 => ?_
    obtain rfl : i = idx := by omega
    exact hfree
  · rw [he]; exact h

theorem Inv.allocContiguous (h : s.Inv) (pages : ℕ) :
    (pmmAllocContiguousFrames pages s).2.Inv := by
  rcases pmmAllocContiguousFrames_cases pages s with ⟨a, -, hend, hfree, he⟩ | ⟨-, he⟩
  · rw [he]; exact h.claim hend hfree
  · rw [he]; exact h

theorem Inv.mark (h : s.Inv) {idx : ℕ} (hi : s.bitmap idx = true) :
    Inv { s with ptBitmap := update s.ptBitmap idx true } :=
  { h with
    pt_taken := fun i hpt => by
      by_cases hii : i = idx
      · rw [hii]; exact hi
      · exact h.pt_taken i (by simpa [update, hii] using hpt) }

/-- **What `alloc_page_table` does to the allocator.** -/
theorem allocPageTable_cases (h : s.Inv) :
    (∃ idx, idx < s.total ∧ s.isFree idx = true ∧
      pmmAllocPageTable s = (idx * pageSize,
        { s.claim idx 1 with ptBitmap := update s.ptBitmap idx true })) ∨
    ((∀ i < s.total, s.isFree i = false) ∧ pmmAllocPageTable s = (0, s)) := by
  rcases pmmAllocFrame_cases s with ⟨idx, hlt, hfree, he⟩ | ⟨hnone, he⟩
  · have hb := base_le_of_free h hlt hfree
    have hpos : idx * pageSize ≠ 0 := by
      have := pos_of_base_le h hb
      simp only [pageSize_eq]; omega
    have hinv : (s.claim idx 1).Inv := by simpa [he] using h.allocFrame
    refine .inl ⟨idx, hlt, hfree, ?_⟩
    unfold pmmAllocPageTable
    rw [he]
    cases hn : idx * pageSize with
    | zero => exact absurd hn hpos
    | succ n =>
      rw [← hn]
      simp only [pmmMarkPageTableFrame, pmmFrameIndex_mul hinv hlt hb, claim_ptBitmap]
  · refine .inr ⟨hnone, ?_⟩
    unfold pmmAllocPageTable
    rw [he]
    rfl

theorem Inv.allocPageTable (h : s.Inv) : (pmmAllocPageTable s).2.Inv := by
  rcases allocPageTable_cases h with ⟨idx, hlt, hfree, he⟩ | ⟨-, he⟩
  · rw [he]
    refine (h.claim (a := idx) (k := 1) (by omega) fun i h1 h2 => ?_).mark ?_
    · obtain rfl : i = idx := by omega
      exact hfree
    · simp [setBlock]
  · rw [he]; exact h

/-- The release of a frame keeps the invariant, as long as the address fits the 32-bit index:
a higher one is cut off and can name a frame below the base. -/
theorem Inv.freeFrame (h : s.Inv) {phys : ℕ} (hphys : phys < 2 ^ 44) :
    (pmmFreeFrame phys s).Inv := by
  rcases pmmFreeFrame_cases phys s with ⟨idx, hidx, hpt, hbit, he⟩ | he
  · obtain ⟨hbase, hlt, hidx⟩ := pmmFrameIndex_eq_some hidx
    rw [pageDown_div, u32_of_lt (by simp only [pageSize_eq]; omega)] at hidx
    rw [he]
    refine ⟨?_, fun i hi => ?_, fun i hi hib => ?_, h.base_ge, h.base_aligned, h.total_le⟩
    · show s.free + 1 = _
      rw [clearSet_clear hlt, Finset.card_insert_of_notMem (by simp [hbit]), h.free_eq]
    · show update s.bitmap idx false i = true
      have hne : i ≠ idx := by rintro rfl; rw [hpt] at hi; cases hi
      rw [update_of_ne hne]
      exact h.pt_taken i hi
    · show update s.bitmap idx false i = true
      have hne : i ≠ idx := by
        rintro rfl
        have : s.base ≤ i * pageSize := by rw [hidx]; exact hbase
        exact absurd hib (not_lt.2 this)
      rw [update_of_ne hne]
      exact h.base_taken i hi hib
  · rw [he]; exact h

end Pmm

end Ridux
