import Ridux.Lib.Run
import Ridux.Pmm.Basic

/-!
# The history of the frame allocator

A run of the allocator from `pmm_init`, with a log of what it handed out and took back:

* `Pmm.Inv` holds after `pmm_init` (`pmmInit_inv`);
* `Kept`: every frame that the log says is handed out has its bit set, and every frame that
  was ever a page table is marked;
* the answers of the allocator in any state of any run: what it returns is fresh, and it
  returns `0` only when there is nothing left to return.
-/

namespace Ridux

open Lib Function List

/-! ### The state after `pmm_init` -/

/-- The counter of a bitmap and its number of clear bits below `n` agree. -/
def Counted (n : ℕ) (st : (ℕ → Bool) × ℕ) : Prop := st.2 = (clearSet st.1 n).card

variable {st : (ℕ → Bool) × ℕ} {n idx : ℕ}

theorem counted_releaseBit (h : Counted n st) (hi : idx < n) : Counted n (releaseBit st idx) := by
  unfold releaseBit
  split_ifs with hb
  · show st.2 + 1 = _
    rw [clearSet_clear hi, Finset.card_insert_of_notMem (by simp [hb]), h]
  · exact h

theorem counted_reserveBit (h : Counted n st) (hi : idx < n) : Counted n (reserveBit st idx) := by
  unfold reserveBit
  split_ifs with hb
  · exact h
  · show st.2 - 1 = _
    rw [clearSet_set, Finset.card_erase_of_mem (by simp [hi, hb]), h]

theorem counted_foldl {f : (ℕ → Bool) × ℕ → ℕ → (ℕ → Bool) × ℕ}
    (hf : ∀ st idx, Counted n st → idx < n → Counted n (f st idx)) (l : List ℕ) (hl : ∀ i ∈ l, i < n)
    (h : Counted n st) : Counted n (l.foldl f st) := by
  induction l generalizing st with
  | nil => exact h
  | cons i l ih =>
    exact ih (fun j hj => hl j (mem_cons_of_mem i hj)) (hf st i h (hl i mem_cons_self))

theorem counted_releaseRange {pages : ℕ} (h : Counted pages st) (r : ℕ × ℕ) :
    Counted pages (releaseRange pages st r) := by
  simp only [releaseRange]
  split_ifs
  all_goals first
    | exact h
    | refine counted_foldl (fun _ _ => counted_releaseBit) _ (fun i hi => ?_) h
      rw [mem_range'_1] at hi
      omega

theorem counted_releaseRanges {pages : ℕ} (l : List (ℕ × ℕ)) (h : Counted pages st) :
    Counted pages (l.foldl (releaseRange pages) st) := by
  induction l generalizing st with
  | nil => exact h
  | cons r l ih => exact ih (counted_releaseRange h r)

variable {i : ℕ}

theorem reserveBit_keeps (idx : ℕ) (h : st.1 i = true) : (reserveBit st idx).1 i = true := by
  unfold reserveBit
  split_ifs
  · exact h
  · by_cases hii : i = idx
    · simp [hii]
    · simpa [update, hii] using h

theorem reserveBit_self (st : (ℕ → Bool) × ℕ) (idx : ℕ) : (reserveBit st idx).1 idx = true := by
  unfold reserveBit
  split_ifs with hb
  · exact hb
  · simp

theorem foldl_reserveBit_keeps (l : List ℕ) (h : st.1 i = true) :
    (l.foldl reserveBit st).1 i = true := by
  induction l generalizing st with
  | nil => exact h
  | cons j l ih => exact ih (reserveBit_keeps j h)

theorem foldl_reserveBit_mem {l : List ℕ} (hi : i ∈ l) (st : (ℕ → Bool) × ℕ) :
    (l.foldl reserveBit st).1 i = true := by
  induction l generalizing st with
  | nil => cases hi
  | cons j l ih =>
    rcases mem_cons.1 hi with rfl | hmem
    · exact foldl_reserveBit_keeps l (reserveBit_self st i)
    · exact ih hmem (reserveBit st j)

theorem pmmPages_le (boot : PmmBoot) : pmmPages boot ≤ pmmMaxPages := by
  simp only [pmmPages]
  split_ifs <;> omega

theorem pmmSetAllocBase_ge (physBase : ℕ) : 0x200000 ≤ pmmSetAllocBase physBase := by
  simp only [pmmSetAllocBase, pageDown, pageSize_eq]
  split_ifs <;> omega

/-- **`pmm_init` establishes the invariant**, for an allocation base whose page number fits the
32-bit loop bound of the reservation. -/
theorem pmmInit_inv {boot : PmmBoot} (hbase : boot.allocBase < 2 ^ 44) : (pmmInit boot).Inv := by
  have hb : pmmSetAllocBase boot.allocBase / pageSize < 2 ^ 32 := by
    simp only [pmmSetAllocBase, pageDown, pageSize_eq]
    split_ifs <;> omega
  refine ⟨?_, fun i hi => Bool.noConfusion hi, fun i hi hlt => ?_, pmmSetAllocBase_ge _,
    ⟨_, Nat.mul_comm _ _⟩, pmmPages_le boot⟩
  · simp only [pmmInit]
    refine counted_foldl (fun _ _ => counted_reserveBit) _ (fun i hi => ?_) ?_
    · rw [mem_range] at hi
      split_ifs at hi <;> omega
    · split_ifs
      · simp [Counted, clearSet]
      · exact counted_releaseRanges _ (by simp [Counted, clearSet])
  · simp only [pmmInit] at hi hlt ⊢
    refine foldl_reserveBit_mem (mem_range.2 ?_) _
    rw [u32_of_lt hb]
    have hlt' : i < pmmSetAllocBase boot.allocBase / pageSize := by
      simp only [pmmSetAllocBase, pageDown, pageSize_eq] at hlt ⊢
      omega
    split_ifs <;> omega

/-! ### The log -/

/-- What happened to the frames, as the callers of the allocator see it. -/
inductive PmmEvent
  /-- the frames `[a, a + k)` were returned to a caller -/
  | handed (a k : ℕ)
  /-- frame `f` was returned as a page table -/
  | table (f : ℕ)
  /-- frame `f` was given back -/
  | freed (f : ℕ)
  deriving DecidableEq

/-- Frame `i` is handed out: the last event about it (the log is newest first) hands it out. -/
def handedOut : List PmmEvent → ℕ → Prop
  | [], _ => False
  | .handed a k :: log, i => (a ≤ i ∧ i < a + k) ∨ handedOut log i
  | .table f :: log, i => i = f ∨ handedOut log i
  | .freed f :: log, i => i ≠ f ∧ handedOut log i

/-- Frame `i` was at some time returned as a page table. -/
def wasTable (log : List PmmEvent) (i : ℕ) : Prop := PmmEvent.table i ∈ log

/-- Frame `i` was at some time returned. -/
def wasReturned (log : List PmmEvent) (i : ℕ) : Prop :=
  wasTable log i ∨ ∃ a k, PmmEvent.handed a k ∈ log ∧ a ≤ i ∧ i < a + k

/-- The allocator with the log of its run. -/
structure PmmTrace where
  pmm : Pmm
  log : List PmmEvent

/-- A call to the allocator. -/
inductive PmmOp
  | allocFrame
  | allocContiguous (pages : ℕ)
  | allocPageTable
  | freeFrame (phys : ℕ)

/-- A frame may be given back, also more than once, when it was returned before. -/
def PmmTrace.enabled (t : PmmTrace) : PmmOp → Prop
  | .freeFrame phys => wasReturned t.log (phys / pageSize)
  | _ => True

/-- The log after a call that returned `phys`, which is `0` for failure. -/
def logReturn (event : ℕ → PmmEvent) (phys : ℕ) (log : List PmmEvent) : List PmmEvent :=
  if phys = 0 then log else event (phys / pageSize) :: log

/-- One call, with its entry in the log. -/
def PmmTrace.exec (t : PmmTrace) : PmmOp → PmmTrace
  | .allocFrame =>
    let (phys, s) := pmmAllocFrame t.pmm
    ⟨s, logReturn (.handed · 1) phys t.log⟩
  | .allocContiguous pages =>
    let (phys, s) := pmmAllocContiguousFrames pages t.pmm
    ⟨s, logReturn (.handed · pages) phys t.log⟩
  | .allocPageTable =>
    let (phys, s) := pmmAllocPageTable t.pmm
    ⟨s, logReturn .table phys t.log⟩
  | .freeFrame phys => ⟨pmmFreeFrame phys t.pmm, .freed (phys / pageSize) :: t.log⟩

/-- A run of calls from `pmm_init`. -/
def PmmRun (boot : PmmBoot) (t : PmmTrace) : Prop :=
  Runs PmmTrace.enabled PmmTrace.exec ⟨pmmInit boot, []⟩ t

/-- The allocator keeps what its log says: frames handed out are taken, page tables are marked,
and nothing outside the pool was ever returned. -/
structure PmmTrace.Kept (t : PmmTrace) : Prop where
  inv : t.pmm.Inv
  handed : ∀ i, handedOut t.log i → t.pmm.bitmap i = true
  table : ∀ i, wasTable t.log i → t.pmm.ptBitmap i = true
  returned : ∀ i, wasReturned t.log i → i < t.pmm.total

/-- The block `[a, a + k)` can be returned: it lies in the pool at or above the base, and none
of its frames is handed out or was ever a page table. -/
structure PmmTrace.Fresh (t : PmmTrace) (a k : ℕ) : Prop where
  lt_total : a + k ≤ t.pmm.total
  base_le : t.pmm.base ≤ a * pageSize
  not_handed : ∀ i, a ≤ i → i < a + k → ¬ handedOut t.log i
  not_table : ∀ i, a ≤ i → i < a + k → ¬ wasTable t.log i

namespace PmmTrace

variable {t : PmmTrace} {a k : ℕ}

theorem Kept.fresh (h : t.Kept) (hpos : 0 < k) (hend : a + k ≤ t.pmm.total)
    (hfree : ∀ i, a ≤ i → i < a + k → t.pmm.isFree i = true) : t.Fresh a k where
  lt_total := hend
  base_le := Pmm.base_le_of_free h.inv (by omega) (hfree a le_rfl (by omega))
  not_handed i h1 h2 hh := by
    have hb := (Pmm.isFree_iff h.inv i).1 (hfree i h1 h2)
    rw [h.handed i hh] at hb
    cases hb
  not_table i h1 h2 ht := by
    have hb := (Pmm.isFree_iff h.inv i).1 (hfree i h1 h2)
    rw [h.inv.pt_taken i (h.table i ht)] at hb
    cases hb

theorem Fresh.pos (h : t.Kept) (hf : t.Fresh a k) : a * pageSize ≠ 0 := by
  have := Pmm.pos_of_base_le h.inv hf.base_le
  simp only [pageSize_eq]
  omega

theorem logReturn_mul {event : ℕ → PmmEvent} (h : a * pageSize ≠ 0) (log : List PmmEvent) :
    logReturn event (a * pageSize) log = event a :: log := by
  rw [logReturn, if_neg h, Nat.mul_div_cancel _ (by decide)]

theorem Kept.claim (h : t.Kept) (hend : a + k ≤ t.pmm.total)
    (hfree : ∀ i, a ≤ i → i < a + k → t.pmm.isFree i = true) :
    Kept ⟨t.pmm.claim a k, .handed a k :: t.log⟩ where
  inv := h.inv.claim hend hfree
  handed i hi := by
    rcases hi with hin | hi
    · simp [setBlock, hin]
    · exact Pmm.setBlock_eq_true_of a k (h.handed i hi)
  table i hi := h.table i (by simpa [wasTable] using hi)
  returned i hi := by
    rcases hi with hi | ⟨b, m, hm, h1, h2⟩
    · exact h.returned i (.inl (by simpa [wasTable] using hi))
    · rcases mem_cons.1 hm with he | hm
      · obtain ⟨rfl, rfl⟩ := PmmEvent.handed.inj he
        show i < t.pmm.total
        omega
      · exact h.returned i (.inr ⟨b, m, hm, h1, h2⟩)

theorem Kept.claimTable (h : t.Kept) {f : ℕ} (hlt : f < t.pmm.total)
    (hfree : t.pmm.isFree f = true) :
    Kept ⟨{ t.pmm.claim f 1 with ptBitmap := update t.pmm.ptBitmap f true },
      .table f :: t.log⟩ where
  inv := by
    refine (h.inv.claim (by omega) fun i h1 h2 => ?_).mark ?_
    · obtain rfl : i = f := by omega
      exact hfree
    · simp [setBlock]
  handed i hi := by
    rcases hi with rfl | hi
    · simp [setBlock]
    · exact Pmm.setBlock_eq_true_of f 1 (h.handed i hi)
  table i hi := by
    rcases mem_cons.1 hi with he | hi
    · obtain rfl := PmmEvent.table.inj he
      simp
    · by_cases hif : i = f
      · simp [hif]
      · simpa [update, hif] using h.table i hi
  returned i hi := by
    rcases hi with hi | ⟨b, m, hm, h1, h2⟩
    · rcases mem_cons.1 hi with he | hi
      · obtain rfl := PmmEvent.table.inj he
        exact hlt
      · exact h.returned i (.inl hi)
    · rcases mem_cons.1 hm with he | hm
      · cases he
      · exact h.returned i (.inr ⟨b, m, hm, h1, h2⟩)

/-- Giving back a frame that was returned keeps the log true, whether or not the frame is
handed out at the time. -/
theorem Kept.free (h : t.Kept) {phys : ℕ} (hret : wasReturned t.log (phys / pageSize)) :
    Kept ⟨pmmFreeFrame phys t.pmm, .freed (phys / pageSize) :: t.log⟩ := by
  have hlt := h.returned _ hret
  have htot := h.inv.total_le
  have hphys : phys < 2 ^ 44 := by
    simp only [pmmMaxPages, pageSize_eq] at htot hlt
    omega
  have hwas : ∀ i, wasTable (.freed (phys / pageSize) :: t.log) i → wasTable t.log i := by
    intro i hi
    simpa [wasTable] using hi
  have hback : ∀ i, wasReturned (.freed (phys / pageSize) :: t.log) i → wasReturned t.log i := by
    rintro i (hi | ⟨b, m, hm, h1, h2⟩)
    · exact .inl (hwas i hi)
    · exact .inr ⟨b, m, by simpa using hm, h1, h2⟩
  have hinv := h.inv.freeFrame hphys
  rcases pmmFreeFrame_cases phys t.pmm with ⟨idx, hidx, -, -, he⟩ | he
  · obtain ⟨-, -, hidx⟩ := pmmFrameIndex_eq_some hidx
    rw [pageDown_div, u32_of_lt (by simp only [pageSize_eq]; omega)] at hidx
    subst hidx
    rw [he] at hinv ⊢
    refine ⟨hinv, fun i hi => ?_, fun i hi => h.table i (hwas i hi),
      fun i hi => h.returned i (hback i hi)⟩
    obtain ⟨hne, hi⟩ := hi
    show update t.pmm.bitmap (phys / pageSize) false i = true
    rw [update_of_ne hne]
    exact h.handed i hi
  · rw [he]
    exact ⟨h.inv, fun i hi => h.handed i hi.2, fun i hi => h.table i (hwas i hi),
      fun i hi => h.returned i (hback i hi)⟩

theorem Kept.exec (h : t.Kept) {op : PmmOp} (hop : t.enabled op) : (t.exec op).Kept := by
  cases op with
  | allocFrame =>
    simp only [PmmTrace.exec]
    rcases pmmAllocFrame_cases t.pmm with ⟨idx, hlt, hfree, he⟩ | ⟨-, he⟩
    · have hblock : ∀ i, idx ≤ i → i < idx + 1 → t.pmm.isFree i = true := by
        intro i h1 h2
        obtain rfl : i = idx := by omega
        exact hfree
      rw [he]
      simp only [logReturn_mul ((h.fresh one_pos (by omega) hblock).pos h)]
      exact h.claim (by omega) hblock
    · rw [he]; exact h
  | allocContiguous pages =>
    simp only [PmmTrace.exec]
    rcases pmmAllocContiguousFrames_cases pages t.pmm with ⟨a, hpos, hend, hfree, he⟩ | ⟨-, he⟩
    · rw [he]
      simp only [logReturn_mul ((h.fresh hpos hend hfree).pos h)]
      exact h.claim hend hfree
    · rw [he]; exact h
  | allocPageTable =>
    simp only [PmmTrace.exec]
    rcases Pmm.allocPageTable_cases h.inv with ⟨f, hlt, hfree, he⟩ | ⟨-, he⟩
    · have hblock : ∀ i, f ≤ i → i < f + 1 → t.pmm.isFree i = true := by
        intro i h1 h2
        obtain rfl : i = f := by omega
        exact hfree
      rw [he]
      simp only [logReturn_mul ((h.fresh one_pos (by omega) hblock).pos h)]
      exact h.claimTable hlt hfree
    · rw [he]; exact h
  | freeFrame phys => exact h.free hop

end PmmTrace

theorem PmmRun.kept {boot : PmmBoot} (hbase : boot.allocBase < 2 ^ 44) {t : PmmTrace}
    (hrun : PmmRun boot t) : t.Kept := by
  refine Runs.invariant (P := PmmTrace.Kept) (fun t op hk hop => hk.exec hop) hrun ?_
  refine ⟨pmmInit_inv hbase, fun i hi => hi.elim, fun i hi => ?_, fun i hi => ?_⟩
  · cases hi
  · rcases hi with hi | ⟨_, _, hi, -⟩ <;> cases hi

/-! ### The answers of the allocator -/

/-- An address that the allocator may return for `k` frames. -/
def PmmTrace.Returnable (t : PmmTrace) (phys k : ℕ) : Prop :=
  pageSize ∣ phys ∧ t.pmm.base ≤ phys ∧ t.Fresh (phys / pageSize) k

namespace PmmTrace

variable {t : PmmTrace}

theorem Kept.returnable (h : t.Kept) {a k : ℕ} (hpos : 0 < k) (hend : a + k ≤ t.pmm.total)
    (hfree : ∀ i, a ≤ i → i < a + k → t.pmm.isFree i = true) :
    t.Returnable (a * pageSize) k := by
  have hfresh := h.fresh hpos hend hfree
  refine ⟨⟨a, Nat.mul_comm _ _⟩, hfresh.base_le, ?_⟩
  rwa [Nat.mul_div_cancel _ (by decide)]

theorem Kept.taken_of_not_free (h : t.Kept) (hi : t.pmm.isFree i = false) :
    t.pmm.bitmap i = true := by
  by_contra hb
  rw [(Pmm.isFree_iff h.inv i).2 (by simpa using hb)] at hi
  cases hi

theorem Kept.allocFrame_answer (h : t.Kept) :
    ((pmmAllocFrame t.pmm).1 ≠ 0 → t.Returnable (pmmAllocFrame t.pmm).1 1) ∧
    ((pmmAllocFrame t.pmm).1 = 0 → ∀ i < t.pmm.total, t.pmm.bitmap i = true) := by
  rcases pmmAllocFrame_cases t.pmm with ⟨idx, hlt, hfree, he⟩ | ⟨hnone, he⟩
  · have hret : t.Returnable (idx * pageSize) 1 := by
      refine h.returnable one_pos (by omega) fun i h1 h2 => ?_
      obtain rfl : i = idx := by omega
      exact hfree
    rw [he]
    refine ⟨fun _ => hret, fun h0 => ?_⟩
    have hb := hret.2.1
    have := h.inv.base_ge
    simp only at h0
    omega
  · rw [he]
    exact ⟨fun h0 => absurd rfl h0, fun _ i hi => h.taken_of_not_free (hnone i hi)⟩

theorem Kept.allocContiguous_answer (h : t.Kept) (pages : ℕ) :
    ((pmmAllocContiguousFrames pages t.pmm).1 ≠ 0 →
      t.Returnable (pmmAllocContiguousFrames pages t.pmm).1 pages) ∧
    (0 < pages → (pmmAllocContiguousFrames pages t.pmm).1 = 0 →
      ∀ a, a + pages ≤ t.pmm.total → ∃ i, a ≤ i ∧ i < a + pages ∧ t.pmm.bitmap i = true) := by
  rcases pmmAllocContiguousFrames_cases pages t.pmm with ⟨a, hpos, hend, hfree, he⟩ | ⟨hnone, he⟩
  · have hret := h.returnable hpos hend hfree
    rw [he]
    refine ⟨fun _ => hret, fun _ h0 => ?_⟩
    have hb := hret.2.1
    have := h.inv.base_ge
    simp only at h0
    omega
  · rw [he]
    refine ⟨fun h0 => absurd rfl h0, fun hpos _ a ha => ?_⟩
    obtain ⟨i, h1, h2, hi⟩ := hnone hpos a ha
    exact ⟨i, h1, h2, h.taken_of_not_free hi⟩

theorem Kept.allocPageTable_answer (h : t.Kept) (hne : (pmmAllocPageTable t.pmm).1 ≠ 0) :
    t.Returnable (pmmAllocPageTable t.pmm).1 1 := by
  rcases Pmm.allocPageTable_cases h.inv with ⟨f, hlt, hfree, he⟩ | ⟨-, he⟩
  · rw [he]
    refine h.returnable one_pos (by omega) fun i h1 h2 => ?_
    obtain rfl : i = f := by omega
    exact hfree
  · rw [he] at hne
    exact absurd rfl hne

end PmmTrace

/-- **The frame allocator over whole runs.**  After any run from `pmm_init` the free count is
the number of clear bits; an address that any of the three calls returns next is page aligned,
at or above the base and fresh; and `0` is returned only when there is nothing to return.  The
boot code sets the base from 32-bit addresses, far below the bound of the hypothesis. -/
theorem pmm_run_correct {boot : PmmBoot} (hbase : boot.allocBase < 2 ^ 44) {t : PmmTrace}
    (hrun : PmmRun boot t) :
    pmmFreeCount t.pmm = (clearSet t.pmm.bitmap t.pmm.total).card ∧
    (((pmmAllocFrame t.pmm).1 ≠ 0 → t.Returnable (pmmAllocFrame t.pmm).1 1) ∧
      (∀ pages, (pmmAllocContiguousFrames pages t.pmm).1 ≠ 0 →
        t.Returnable (pmmAllocContiguousFrames pages t.pmm).1 pages) ∧
      ((pmmAllocPageTable t.pmm).1 ≠ 0 → t.Returnable (pmmAllocPageTable t.pmm).1 1)) ∧
    ((pmmAllocFrame t.pmm).1 = 0 → ∀ i < t.pmm.total, t.pmm.bitmap i = true) ∧
    (∀ pages, 0 < pages → (pmmAllocContiguousFrames pages t.pmm).1 = 0 →
      ∀ a, a + pages ≤ t.pmm.total → ∃ i, a ≤ i ∧ i < a + pages ∧ t.pmm.bitmap i = true) := by
  have h := hrun.kept hbase
  refine ⟨h.inv.free_eq, ⟨h.allocFrame_answer.1, fun pages => ?_, h.allocPageTable_answer⟩,
    h.allocFrame_answer.2, fun pages => ?_⟩
  · exact (h.allocContiguous_answer pages).1
  · exact (h.allocContiguous_answer pages).2

/-- A machine with four usable frames above 2 MiB. -/
def sampleBoot : PmmBoot where
  allocBase := 0
  memoryLimit := 0
  usableRanges := [(0x200000, 0x204000)]
  memBytes := 0x400000

/-- Allocate a frame and free it twice. -/
def sampleTrace : PmmTrace :=
  (((PmmTrace.mk (pmmInit sampleBoot) []).exec .allocFrame).exec (.freeFrame 0x200000)).exec
    (.freeFrame 0x200000)

theorem sampleTrace_run : PmmRun sampleBoot sampleTrace := by
  have hlog : ((PmmTrace.mk (pmmInit sampleBoot) []).exec .allocFrame).log =
      [.handed 512 1] := by decide +kernel
  have h0 : PmmRun sampleBoot ⟨pmmInit sampleBoot, []⟩ := Runs.refl _
  have h1 := h0.tail .allocFrame trivial
  have h2 := h1.tail (.freeFrame 0x200000) (by
    refine .inr ⟨512, 1, ?_, by decide, by decide⟩
    rw [hlog]
    exact mem_cons_self)
  refine h2.tail (.freeFrame 0x200000) (.inr ⟨512, 1, ?_, by decide, by decide⟩)
  show PmmEvent.handed 512 1 ∈ PmmEvent.freed _ :: PmmTrace.log _
  rw [hlog]
  exact mem_cons_of_mem _ mem_cons_self

theorem pmm_run_correct_sample :
    sampleBoot.allocBase < 2 ^ 44 ∧ PmmRun sampleBoot sampleTrace ∧
      pmmFreeCount sampleTrace.pmm =
        (clearSet sampleTrace.pmm.bitmap sampleTrace.pmm.total).card :=
  ⟨by decide, sampleTrace_run, (pmm_run_correct (by decide) sampleTrace_run).1⟩

end Ridux
