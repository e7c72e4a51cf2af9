import Ridux.Pmm.History

/-!
# From the firmware's memory map to the pool

`parse_multiboot_info` hands the usable entries of the memory map to `pmm_add_usable_range`, and
`pmm_init` makes their pages free.

* `parseMmap`, `pmmAddUsableRange`, `Firmware.boot`: what the boot code sets before `pmm_init`;
* `pmmInit_clear`: the bitmap after `pmm_init`;
* `Firmware.exact_iff`: when the free frames are the pages of the usable entries;
* `Pmm.free_frames_iff`: when the release of an address makes no other frame free.
-/

namespace Ridux

open Lib Function List

def pmmUsableRangeMax : ℕ := 32

/-- `mb2_mmap_entry_t`, with two 64-bit fields. -/
structure Mb2MmapEntry where
  addr : ℕ
  len : ℕ
  type : ℕ
  addr_lt : addr < 2 ^ 64
  len_lt : len < 2 ^ 64

/-- The test of `parse_multiboot_info`; the sum wraps around. -/
def Mb2MmapEntry.accepted (e : Mb2MmapEntry) : Bool :=
  e.type = 1 ∧ e.len ≠ 0 ∧ u64 (e.addr + e.len) > e.addr

def pmmAddUsableRange (ranges : List (ℕ × ℕ)) (physBase bytes : ℕ) : List (ℕ × ℕ) :=
  if bytes = 0 ∨ ranges.length ≥ pmmUsableRangeMax then ranges
  else
    let stop := u64 (physBase + bytes)
    ranges ++ [(physBase, if stop ≤ physBase then 2 ^ 64 - 1 else stop)]

/-- One entry of the memory map: `g_phys_mem_top` and `g_pmm_usable_ranges` after it. -/
def parseMmapEntry (st : ℕ × List (ℕ × ℕ)) (e : Mb2MmapEntry) : ℕ × List (ℕ × ℕ) :=
  if e.accepted then
    let top := u64 (e.addr + e.len)
    (if top > st.1 then top else st.1, pmmAddUsableRange st.2 e.addr e.len)
  else st

/-- The memory map part of `parse_multiboot_info`. -/
def parseMmap (entries : List Mb2MmapEntry) : ℕ × List (ℕ × ℕ) := entries.foldl parseMmapEntry (0, [])

/-- What the loader reports: the memory map, and the ends of the kernel and of the two ramdisks
(`0` when there is none), which are 32-bit addresses. -/
structure Firmware where
  entries : List Mb2MmapEntry
  kernelEnd : UInt32
  initrdEnd : UInt32
  initrdOverlayEnd : UInt32

namespace Firmware

/-- `kernel_phys_reserve_end`. -/
def reserveEnd (fw : Firmware) : ℕ :=
  pageDown (max (max fw.kernelEnd.toNat fw.initrdEnd.toNat) fw.initrdOverlayEnd.toNat + pageSize - 1)

/-- What `kernel_main` has set when it calls `pmm_init`. -/
def boot (fw : Firmware) : PmmBoot where
  allocBase := fw.reserveEnd
  memoryLimit := (parseMmap fw.entries).1
  usableRanges := (parseMmap fw.entries).2
  memBytes := pmmMaxPages * pageSize

end Firmware

/-! ### What the parser keeps -/

namespace Mb2MmapEntry

/-- The range that `pmm_add_usable_range` stores. -/
def range (e : Mb2MmapEntry) : ℕ × ℕ := (e.addr, e.addr + e.len)

/-- The entry is usable memory and holds the whole page `i`. -/
def holds (e : Mb2MmapEntry) (i : ℕ) : Bool :=
  e.type = 1 ∧ e.addr ≤ i * pageSize ∧ (i + 1) * pageSize ≤ e.addr + e.len

theorem accepted_iff (e : Mb2MmapEntry) :
    e.accepted = true ↔ e.type = 1 ∧ e.len ≠ 0 ∧ e.addr + e.len < 2 ^ 64 := by
  have h1 := e.addr_lt
  have h2 := e.len_lt
  unfold accepted u64
  rw [decide_eq_true_iff]
  constructor
  · rintro ⟨ht, hl, hw⟩
    exact ⟨ht, hl, by omega⟩
  · rintro ⟨ht, hl, hw⟩
    exact ⟨ht, hl, by omega⟩

theorem pmmAddUsableRange_of_accepted {e : Mb2MmapEntry} (h : e.accepted = true)
    (ranges : List (ℕ × ℕ)) :
    pmmAddUsableRange ranges e.addr e.len =
      if ranges.length ≥ pmmUsableRangeMax then ranges else ranges ++ [e.range] := by
  obtain ⟨-, hl, hend⟩ := (accepted_iff e).1 h
  unfold pmmAddUsableRange
  by_cases hm : ranges.length ≥ pmmUsableRangeMax
  · rw [if_pos (.inr hm), if_pos hm]
  · rw [if_neg (by simp [hl, hm]), if_neg hm]
    simp only [u64_of_lt hend, range]
    rw [if_neg (by omega)]

end Mb2MmapEntry

namespace Firmware

/-- The entries that have a slot in `g_pmm_usable_ranges`: the first 32 that were accepted. -/
def kept (fw : Firmware) : List Mb2MmapEntry :=
  (fw.entries.filter Mb2MmapEntry.accepted).take pmmUsableRangeMax

theorem parseMmap_ranges (entries : List Mb2MmapEntry) :
    (parseMmap entries).2 =
      ((entries.filter Mb2MmapEntry.accepted).take pmmUsableRangeMax).map Mb2MmapEntry.range := by
  induction entries using List.reverseRecOn with
  | nil => rfl
  | append_singleton l e ih =>
    have hstep : parseMmap (l ++ [e]) = parseMmapEntry (parseMmap l) e := by simp [parseMmap]
    rw [hstep, filter_append]
    unfold parseMmapEntry
    by_cases he : e.accepted = true
    · rw [if_pos he, filter_cons_of_pos he, filter_nil]
      simp only [Mb2MmapEntry.pmmAddUsableRange_of_accepted he, ih, length_map, length_take]
      by_cases hm : pmmUsableRangeMax ≤ (l.filter Mb2MmapEntry.accepted).length
      · rw [if_pos (by omega), take_append_of_le_length hm]
      · have hlen : (l.filter Mb2MmapEntry.accepted ++ [e]).length ≤ pmmUsableRangeMax := by
          rw [length_append, length_singleton]
          omega
        rw [if_neg (by omega), take_of_length_le (by omega), take_of_length_le hlen]
        simp
    · rw [if_neg he, filter_cons_of_neg he, filter_nil, append_nil, ih]

@[simp] theorem boot_usableRanges (fw : Firmware) :
    fw.boot.usableRanges = fw.kept.map Mb2MmapEntry.range := parseMmap_ranges fw.entries

theorem accepted_of_kept {fw : Firmware} {e : Mb2MmapEntry} (h : e ∈ fw.kept) :
    e ∈ fw.entries ∧ e.accepted = true := mem_filter.1 (mem_of_mem_take h)

theorem boot_allocBase_lt (fw : Firmware) : fw.boot.allocBase < 2 ^ 44 := by
  have h1 := fw.kernelEnd.toNat_lt
  have h2 := fw.initrdEnd.toNat_lt
  have h3 := fw.initrdOverlayEnd.toNat_lt
  simp only [boot, reserveEnd, pageDown, pageSize_eq]
  omega

end Firmware

/-! ### The bitmap after `pmm_init` -/

theorem foldl_releaseBit_clear (l : List ℕ) (st : (ℕ → Bool) × ℕ) (i : ℕ) :
    (l.foldl releaseBit st).1 i = false ↔ i ∈ l ∨ st.1 i = false := by
  induction l generalizing st with
  | nil => simp
  | cons j l ih =>
    rw [foldl_cons, ih, mem_cons]
    have hbit : (releaseBit st j).1 i = false ↔ i = j ∨ st.1 i = false := by
      unfold releaseBit
      by_cases hj : st.1 j = true
      · rw [if_pos hj]
        by_cases hij : i = j
        · simp [hij]
        · simp [update, hij]
      · rw [if_neg hj]
        constructor
        · exact .inr
        · rintro (rfl | h)
          · simpa using hj
          · exact h
    rw [hbit]
    tauto

/-- The pages that `pmm_init` takes a stored range to hold.  The start is rounded up in 64 bits:
in the last page of the address space it becomes `0`. -/
def releases (r : ℕ × ℕ) (i : ℕ) : Prop :=
  (r.1 + pageSize ≤ 2 ^ 64 → r.1 ≤ i * pageSize) ∧ (i + 1) * pageSize ≤ r.2

variable {i : ℕ}

theorem releaseRange_clear {pages : ℕ} (hpages : pages ≤ pmmMaxPages) {r : ℕ × ℕ} (h1 : r.1 < 2 ^ 64)
    (hi : i < pages) (st : (ℕ → Bool) × ℕ) :
    (releaseRange pages st r).1 i = false ↔ releases r i ∨ st.1 i = false := by
  have hmax : pages ≤ 2097152 := hpages
  have hs : pageDown (u64 (r.1 + pageSize - 1)) ≤ i * pageSize ↔
      (r.1 + pageSize ≤ 2 ^ 64 → r.1 ≤ i * pageSize) := by
    simp only [pageDown, u64, pageSize_eq]
    omega
  have he : (i + 1) * pageSize ≤ pageDown r.2 ↔ (i + 1) * pageSize ≤ r.2 := by
    simp only [pageDown, pageSize_eq]
    omega
  rw [releases, ← hs, ← he]
  have hsd : pageSize ∣ pageDown (u64 (r.1 + pageSize - 1)) := ⟨_, Nat.mul_comm _ _⟩
  have hed : pageSize ∣ pageDown r.2 := ⟨_, Nat.mul_comm _ _⟩
  simp only [releaseRange]
  generalize pageDown (u64 (r.1 + pageSize - 1)) = s at *
  generalize pageDown r.2 = e at *
  by_cases hout : e ≤ s ∨ s ≥ pages * pageSize
  · rw [if_pos hout]
    constructor
    · exact .inr
    · rintro (⟨_, _⟩ | h)
      · simp only [pageSize_eq] at *
        omega
      · exact h
  · rw [if_neg hout, foldl_releaseBit_clear, mem_range'_1]
    refine or_congr_left ?_
    have hlimit : pages * pageSize / pageSize = pages := Nat.mul_div_cancel _ (by decide)
    have hfirst : u32 (s / pageSize) = s / pageSize := by
      refine u32_of_lt ?_
      simp only [pageSize_eq] at *
      omega
    have hlast : (if u32 ((if e > pages * pageSize then pages * pageSize else e) / pageSize) > pages
        then pages
        else u32 ((if e > pages * pageSize then pages * pageSize else e) / pageSize)) =
        if e > pages * pageSize then pages else e / pageSize := by
      by_cases hel : e > pages * pageSize
      · rw [if_pos hel, if_pos hel, hlimit, u32_of_lt (by omega), if_neg (lt_irrefl pages)]
      · have hle : e / pageSize ≤ pages := by
          simp only [pageSize_eq] at *
          omega
        rw [if_neg hel, if_neg hel, u32_of_lt (by omega), if_neg (by omega)]
    rw [hfirst, hlast]
    by_cases hel : e > pages * pageSize
    · rw [if_pos hel]
      simp only [pageSize_eq] at *
      omega
    · rw [if_neg hel]
      simp only [pageSize_eq] at *
      omega

theorem releaseRanges_clear {pages : ℕ} (hpages : pages ≤ pmmMaxPages) {l : List (ℕ × ℕ)}
    (hl : ∀ r ∈ l, r.1 < 2 ^ 64) (hi : i < pages) (st : (ℕ → Bool) × ℕ) :
    (l.foldl (releaseRange pages) st).1 i = false ↔ (∃ r ∈ l, releases r i) ∨ st.1 i = false := by
  induction l generalizing st with
  | nil => simp
  | cons r l ih =>
    rw [foldl_cons, ih (fun q hq => hl q (mem_cons_of_mem r hq)),
      releaseRange_clear hpages (hl r mem_cons_self) hi, exists_mem_cons_iff, or_assoc]
    exact or_left_comm

theorem foldl_reserveBit_of_not_mem {l : List ℕ} (hi : i ∉ l) (st : (ℕ → Bool) × ℕ) :
    (l.foldl reserveBit st).1 i = st.1 i := by
  induction l generalizing st with
  | nil => rfl
  | cons j l ih =>
    rw [mem_cons, not_or] at hi
    rw [foldl_cons, ih hi.2]
    unfold reserveBit
    split_ifs
    · rfl
    · exact update_of_ne hi.1 _ _

/-- **The bitmap after `pmm_init`.**  A frame of the pool is free when it lies at or above the
base and in a stored range; without any stored range every such frame is free. -/
theorem pmmInit_clear {boot : PmmBoot} (hbase : boot.allocBase < 2 ^ 44)
    (hranges : ∀ r ∈ boot.usableRanges, r.1 < 2 ^ 64) (hi : i < pmmPages boot) :
    (pmmInit boot).bitmap i = false ↔
      pmmSetAllocBase boot.allocBase ≤ i * pageSize ∧
        (boot.usableRanges = [] ∨ ∃ r ∈ boot.usableRanges, releases r i) := by
  by_cases hb : pmmSetAllocBase boot.allocBase ≤ i * pageSize
  · have hlt : pmmSetAllocBase boot.allocBase / pageSize ≤ i := by
      simp only [pageSize_eq] at hb ⊢
      omega
    simp only [pmmInit]
    rw [foldl_reserveBit_of_not_mem]
    · by_cases hr : boot.usableRanges = []
      · rw [if_pos hr]
        exact ⟨fun _ => ⟨hb, .inl hr⟩, fun _ => rfl⟩
      · rw [if_neg hr, releaseRanges_clear (pmmPages_le boot) hranges hi]
        constructor
        · rintro (h | h)
          · exact ⟨hb, .inr h⟩
          · cases h
        · rintro ⟨-, h | h⟩
          · exact absurd h hr
          · exact .inl h
    · have hle := Nat.mod_le (pmmSetAllocBase boot.allocBase / pageSize) (2 ^ 32)
      rw [mem_range, u32]
      split_ifs <;> omega
  · rw [(pmmInit_inv hbase).base_taken i hi (not_le.1 hb)]
    constructor
    · intro h
      cases h
    · rintro ⟨h, -⟩
      exact absurd h hb

/-! ### The free frames and the usable memory -/

/-- The allocator can hand out frame `i`. -/
def Pmm.Allocatable (s : Pmm) (i : ℕ) : Prop := i < s.total ∧ s.isFree i = true

namespace Firmware

/-- Frame `i` is tracked and lies at or above the reserve. -/
def InPool (fw : Firmware) (i : ℕ) : Prop :=
  pmmSetAllocBase fw.boot.allocBase ≤ i * pageSize ∧ i < pmmPages fw.boot

/-- The pages of the pool that lie in a usable entry. -/
def usablePages (fw : Firmware) : Finset ℕ :=
  (Finset.range (pmmPages fw.boot)).filter fun i =>
    pmmSetAllocBase fw.boot.allocBase ≤ i * pageSize ∧ ∃ e ∈ fw.entries, e.holds i = true

/-- `pmm_init` frees exactly the usable memory. -/
def Exact (fw : Firmware) : Prop :=
  (∀ i, (pmmInit fw.boot).Allocatable i ↔ i ∈ fw.usablePages) ∧
    pmmFreeCount (pmmInit fw.boot) = fw.usablePages.card

/-- Nothing was stored, or a stored range starts in the last page of the address space: every
page of the pool becomes free. -/
def FreesAll (fw : Firmware) : Prop :=
  fw.kept = [] ∨ ∃ e ∈ fw.kept, 2 ^ 64 < e.addr + pageSize

/-- The memory maps that `pmm_init` takes in exactly.  When everything becomes free, everything
is usable; otherwise the usable entries that found no slot, or that end at `2 ^ 64` or beyond,
hold no page of the pool that a stored one does not hold. -/
def WellMapped (fw : Firmware) : Prop :=
  (fw.FreesAll → ∀ i, fw.InPool i → ∃ e ∈ fw.entries, e.holds i = true) ∧
    (¬ fw.FreesAll → ∀ i, fw.InPool i → ∀ e ∈ fw.entries, e.holds i = true →
      ∃ e' ∈ fw.kept, e'.holds i = true)

variable {fw : Firmware}

theorem mem_usablePages :
    i ∈ fw.usablePages ↔ fw.InPool i ∧ ∃ e ∈ fw.entries, e.holds i = true := by
  rw [usablePages, Finset.mem_filter, Finset.mem_range]
  constructor
  · rintro ⟨hi, hb, he⟩
    exact ⟨⟨hb, hi⟩, he⟩
  · rintro ⟨⟨hb, hi⟩, he⟩
    exact ⟨hi, hb, he⟩

theorem isFree_init (fw : Firmware) (i : ℕ) :
    (pmmInit fw.boot).isFree i = true ↔ (pmmInit fw.boot).bitmap i = false :=
  Pmm.isFree_iff (pmmInit_inv fw.boot_allocBase_lt) i

/-- A stored range releases page `i`: its entry holds the page, or it starts in the last page of
the address space (and then ends above the pool). -/
theorem releases_range {e : Mb2MmapEntry} (h : e ∈ fw.kept) (hi : i < pmmPages fw.boot) :
    releases e.range i ↔ 2 ^ 64 < e.addr + pageSize ∨ e.holds i = true := by
  obtain ⟨-, hacc⟩ := accepted_of_kept h
  obtain ⟨ht, -, hend⟩ := (Mb2MmapEntry.accepted_iff e).1 hacc
  have hmax : pmmPages fw.boot ≤ 2097152 := pmmPages_le fw.boot
  simp only [releases, Mb2MmapEntry.range, Mb2MmapEntry.holds, ht, true_and, pageSize_eq,
    decide_eq_true_eq]
  constructor
  · rintro ⟨h1, h2⟩
    by_cases hlast : 2 ^ 64 < e.addr + 4096
    · exact .inl hlast
    · exact .inr ⟨h1 (by omega), h2⟩
  · rintro (hlast | ⟨h1, h2⟩)
    · exact ⟨fun h => by omega, by omega⟩
    · exact ⟨fun _ => h1, h2⟩

theorem allocatable_init_iff (fw : Firmware) (i : ℕ) :
    (pmmInit fw.boot).Allocatable i ↔
      fw.InPool i ∧ (fw.FreesAll ∨ ∃ e ∈ fw.kept, e.holds i = true) := by
  have hranges : ∀ r ∈ fw.boot.usableRanges, r.1 < 2 ^ 64 := by
    intro r hr
    rw [boot_usableRanges, mem_map] at hr
    obtain ⟨e, -, rfl⟩ := hr
    exact e.addr_lt
  rw [Pmm.Allocatable, isFree_init]
  constructor
  · rintro ⟨hi, hclear⟩
    obtain ⟨hb, hr⟩ := (pmmInit_clear fw.boot_allocBase_lt hranges hi).1 hclear
    refine ⟨⟨hb, hi⟩, ?_⟩
    rw [boot_usableRanges, map_eq_nil_iff] at hr
    rcases hr with hnone | ⟨r, hr, hrel⟩
    · exact .inl (.inl hnone)
    · obtain ⟨e, he, rfl⟩ := mem_map.1 hr
      rcases (releases_range he hi).1 hrel with hlast | hholds
      · exact .inl (.inr ⟨e, he, hlast⟩)
      · exact .inr ⟨e, he, hholds⟩
  · rintro ⟨⟨hb, hi⟩, hr⟩
    refine ⟨hi, (pmmInit_clear fw.boot_allocBase_lt hranges hi).2 ⟨hb, ?_⟩⟩
    rw [boot_usableRanges, map_eq_nil_iff]
    have hmem : ∀ e ∈ fw.kept, 2 ^ 64 < e.addr + pageSize ∨ e.holds i = true →
        ∃ r ∈ fw.kept.map Mb2MmapEntry.range, releases r i := fun e he h =>
      ⟨e.range, mem_map_of_mem he, (releases_range he hi).2 h⟩
    rcases hr with (hnone | ⟨e, he, hlast⟩) | ⟨e, he, hholds⟩
    · exact .inl hnone
    · exact .inr (hmem e he (.inl hlast))
    · exact .inr (hmem e he (.inr hholds))

theorem exact_of_allocatable (h : ∀ i, (pmmInit fw.boot).Allocatable i ↔ i ∈ fw.usablePages) :
    fw.Exact := by
  refine ⟨h, ?_⟩
  rw [pmmFreeCount, (pmmInit_inv fw.boot_allocBase_lt).free_eq]
  congr 1
  ext i
  rw [← h, mem_clearSet, Pmm.Allocatable, isFree_init]

/-- **`pmm_init` frees exactly the usable memory of the well-mapped machines.** -/
theorem exact_iff (fw : Firmware) : fw.Exact ↔ fw.WellMapped := by
  constructor
  · rintro ⟨h, -⟩
    refine ⟨fun hall i hi => ?_, fun hall i hi e he hholds => ?_⟩
    · exact (mem_usablePages.1 ((h i).1 ((allocatable_init_iff fw i).2 ⟨hi, .inl hall⟩))).2
    · have hfree := (h i).2 (mem_usablePages.2 ⟨hi, e, he, hholds⟩)
      exact ((allocatable_init_iff fw i).1 hfree).2.resolve_left hall
  · rintro ⟨hall, hsome⟩
    refine exact_of_allocatable fun i => ?_
    rw [allocatable_init_iff, mem_usablePages]
    refine and_congr_right fun hi => ?_
    constructor
    · rintro (h | ⟨e, he, hholds⟩)
      · exact hall h i hi
      · exact ⟨e, (accepted_of_kept he).1, hholds⟩
    · rintro ⟨e, he, hholds⟩
      by_cases h : fw.FreesAll
      · exact .inl h
      · exact .inr (hsome h i hi e he hholds)

end Firmware

/-! ### The release of a foreign address -/

/-- A release of `phys` makes no frame free but the one it names. -/
def Pmm.FreesOnly (s : Pmm) (phys : ℕ) : Prop :=
  ∀ i, i ≠ phys / pageSize → (pmmFreeFrame phys s).Allocatable i → s.Allocatable i

/-- The address is too high for a 32-bit index, and what is left of its index names a taken
frame. -/
def Pmm.Aliased (s : Pmm) (phys : ℕ) : Prop :=
  2 ^ 44 ≤ phys ∧ u32 (phys / pageSize) < s.total ∧ s.bitmap (u32 (phys / pageSize)) = true ∧
    s.ptBitmap (u32 (phys / pageSize)) = false

theorem PmmTrace.exec_base (t : PmmTrace) (op : PmmOp) : (t.exec op).pmm.base = t.pmm.base := by
  have htable : (pmmAllocPageTable t.pmm).2.base = t.pmm.base := by
    have hmark : ∀ (s : Pmm) f, (pmmMarkPageTableFrame s f).base = s.base := by
      intro s f
      unfold pmmMarkPageTableFrame
      split <;> rfl
    rcases pmmAllocFrame_cases t.pmm with ⟨idx, -, -, he⟩ | ⟨-, he⟩
    · simp only [pmmAllocPageTable, he]
      split
      case h_1 heq =>
        obtain ⟨-, rfl⟩ := Prod.mk.inj heq
        rfl
      case h_2 heq =>
        obtain ⟨-, rfl⟩ := Prod.mk.inj heq
        exact hmark _ _
    · simp only [pmmAllocPageTable, he]
  cases op with
  | allocFrame =>
    rcases pmmAllocFrame_cases t.pmm with ⟨idx, -, -, he⟩ | ⟨-, he⟩ <;> simp [exec, he]
  | allocContiguous pages =>
    rcases pmmAllocContiguousFrames_cases pages t.pmm with ⟨a, -, -, -, he⟩ | ⟨-, he⟩ <;>
      simp [exec, he]
  | allocPageTable => exact htable
  | freeFrame phys =>
    rcases pmmFreeFrame_cases phys t.pmm with ⟨idx, -, -, -, he⟩ | he <;> simp [exec, he]

/-- A run of any calls whatever, releases of addresses never handed out included. -/
def PmmAnyRun (boot : PmmBoot) (t : PmmTrace) : Prop :=
  Runs (fun _ _ => True) PmmTrace.exec ⟨pmmInit boot, []⟩ t

theorem PmmAnyRun.base_eq {boot : PmmBoot} {t : PmmTrace} (h : PmmAnyRun boot t) :
    t.pmm.base = pmmSetAllocBase boot.allocBase :=
  Runs.invariant (P := fun t => t.pmm.base = pmmSetAllocBase boot.allocBase)
    (fun t op ht _ => (t.exec_base op).trans ht) h rfl

theorem Pmm.freesOnly_iff {s : Pmm} (hb : s.base < 2 ^ 44) (phys : ℕ) :
    s.FreesOnly phys ↔ ¬ s.Aliased phys := by
  constructor
  · rintro h ⟨hfar, hlt, hbit, hpt⟩
    have hne : u32 (phys / pageSize) ≠ phys / pageSize := by
      simp only [u32, pageSize_eq]
      omega
    have hge : ¬ pageDown phys < s.base := by
      simp only [pageDown, pageSize_eq]
      omega
    have hindex : pmmFrameIndex s (pageDown phys) = some (u32 (phys / pageSize)) := by
      unfold pmmFrameIndex
      rw [if_neg hge, pageDown_div, pageDown_div, if_neg (not_le.2 hlt)]
    generalize u32 (phys / pageSize) = idx at *
    have hclear : (pmmFreeFrame phys s).Allocatable idx := by
      simp [pmmFreeFrame, hindex, pmmIsPageTableFrame, hpt, hbit, Allocatable, isFree, hlt]
    have hfree := (h idx hne hclear).2
    simp [isFree, hbit] at hfree
  · intro hal i hi hfree
    rcases pmmFreeFrame_cases phys s with ⟨idx, hidx, hpt, hbit, he⟩ | he
    · obtain ⟨-, hlt, hidx⟩ := pmmFrameIndex_eq_some hidx
      rw [pageDown_div] at hidx
      have hne : i ≠ idx := by
        rintro rfl
        refine hal ⟨?_, hidx ▸ hlt, hidx ▸ hbit, hidx ▸ hpt⟩
        by_contra hnear
        exact hi (hidx.trans (u32_of_lt (by simp only [pageSize_eq]; omega)))
      rw [he] at hfree
      obtain ⟨h1, h2⟩ := hfree
      refine ⟨h1, ?_⟩
      simpa [isFree, update_of_ne hne] using h2
    · rwa [he] at hfree

/-- **The pool and the firmware's memory map.**  `pmm_init` frees exactly the usable memory
of the well-mapped machines; and in every state that any calls lead to, a release of an address
that was never handed out makes no other frame free unless the address is aliased. -/
theorem firmware_pool_exact (fw : Firmware) :
    (fw.Exact ↔ fw.WellMapped) ∧
      ∀ t, PmmAnyRun fw.boot t → ∀ phys, ¬ wasReturned t.log (phys / pageSize) →
        (t.pmm.FreesOnly phys ↔ ¬ t.pmm.Aliased phys) := by
  refine ⟨fw.exact_iff, fun t ht phys _ => Pmm.freesOnly_iff ?_ phys⟩
  have hlt := fw.boot_allocBase_lt
  rw [ht.base_eq]
  simp only [pmmSetAllocBase, pageDown, pageSize_eq]
  split_ifs <;> omega

/-- Sixteen KiB of memory above 2 MiB. -/
def plainFirmware : Firmware where
  entries := [⟨0x200000, 0x4000, 1, by decide, by decide⟩]
  kernelEnd := 0x180000
  initrdEnd := 0
  initrdOverlayEnd := 0

/-- A page of low memory. -/
def lowEntry (i : Fin 32) : Mb2MmapEntry := ⟨0x2000 * (i + 1), 0x1000, 1, by omega, by decide⟩

/-- A map of 33 usable ranges: 32 pages of low memory and 1 MiB above 2 MiB. -/
def crowdedFirmware : Firmware where
  entries := (List.finRange 32).map lowEntry ++ [⟨0x200000, 0x100000, 1, by decide, by decide⟩]
  kernelEnd := 0x180000
  initrdEnd := 0
  initrdOverlayEnd := 0

/-- One frame is allocated. -/
def plainTrace : PmmTrace := (PmmTrace.mk (pmmInit plainFirmware.boot) []).exec .allocFrame

theorem plainTrace_run : PmmAnyRun plainFirmware.boot plainTrace := by
  have h0 : PmmAnyRun plainFirmware.boot ⟨pmmInit plainFirmware.boot, []⟩ := Runs.refl _
  exact Runs.tail h0 .allocFrame True.intro

theorem plainTrace_log : plainTrace.log = [.handed 512 1] := by decide +kernel

theorem plainTrace_returned (h : wasReturned plainTrace.log i) : i = 512 := by
  rw [plainTrace_log] at h
  rcases h with h | ⟨a, k, hm, h1, h2⟩
  · simp [wasTable] at h
  · obtain ⟨rfl, rfl⟩ : a = 512 ∧ k = 1 := by simpa using hm
    omega

theorem plainFirmware_wellMapped : plainFirmware.WellMapped := by
  have hkept : plainFirmware.kept = plainFirmware.entries := by
    have hacc : ∀ e ∈ plainFirmware.entries, e.accepted = true := by decide +kernel
    rw [Firmware.kept, filter_eq_self.2 hacc]
    rfl
  have hsome : ¬ plainFirmware.FreesAll := by
    rw [Firmware.FreesAll, hkept]
    decide +kernel
  exact ⟨fun hall => absurd hall hsome, fun _ i _ e he hi => ⟨e, hkept ▸ he, hi⟩⟩

theorem firmware_pool_exact_plain :
    plainFirmware.Exact ∧ PmmAnyRun plainFirmware.boot plainTrace ∧
      ¬ wasReturned plainTrace.log (0x201000 / pageSize) ∧ plainTrace.pmm.FreesOnly 0x201000 := by
  have hret : ¬ wasReturned plainTrace.log (0x201000 / pageSize) := fun h =>
    absurd (plainTrace_returned h) (by decide)
  refine ⟨(firmware_pool_exact plainFirmware).1.2 plainFirmware_wellMapped, plainTrace_run, hret,
    ((firmware_pool_exact plainFirmware).2 _ plainTrace_run _ hret).2 ?_⟩
  rintro ⟨h, -⟩
  exact absurd h (by decide)

/-- The 33rd usable range finds no slot: its memory is never handed out.  And the release of an
address that is 16 TiB above a frame in use makes that frame free. -/
theorem firmware_pool_not_exact :
    ¬ crowdedFirmware.Exact ∧ PmmAnyRun plainFirmware.boot plainTrace ∧
      ¬ wasReturned plainTrace.log ((2 ^ 44 + 0x200000) / pageSize) ∧
      ¬ plainTrace.pmm.FreesOnly (2 ^ 44 + 0x200000) := by
  refine ⟨fun h => ?_, plainTrace_run, fun h => ?_, fun h => ?_⟩
  · have husable : 512 ∈ crowdedFirmware.usablePages := by
      refine Firmware.mem_usablePages.2 ⟨⟨?_, ?_⟩, _, mem_append_right _ mem_cons_self, ?_⟩
      · decide +kernel
      · decide +kernel
      · decide +kernel
    have hfree := ((h.1 512).2 husable).2
    revert hfree
    decide +kernel
  · have hframe := plainTrace_returned h
    simp at hframe
  · have hfree : (pmmFreeFrame (2 ^ 44 + 0x200000) plainTrace.pmm).Allocatable 512 :=
      ⟨by decide +kernel, by decide +kernel⟩
    have hbefore := (h 512 (by decide) hfree).2
    revert hbefore
    decide +kernel

end Ridux
