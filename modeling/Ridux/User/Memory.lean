import Ridux.Lib.Chunks
import Ridux.Paging.Table
import Ridux.Text

/-!
# The memory of a task

Copies between the kernel and the memory that a task sees through its page tables.

* `UserMem`: the page tables and the bytes of physical memory behind them;
* `c2UserPhys`: where a user address leads, if the task may use it;
* `c2UserCopyIn`, `c2UserCopyOut`: the copies of `memory_tasks.c`;
* `linear_c2UserPhys`: the addresses of a page lead to one frame;
* `c2UserCopyIn_eq_some`, `c2UserCopyOut_true`: a copy that succeeds, byte by byte.
-/

namespace Ridux

open Lib Option

/-- The page tables and the bytes of physical memory. -/
structure UserMem where
  paging : Paging
  bytes : ℕ → UInt8

def c2UserTop : ℕ := 0x0000800000000000

/-- The test of a range: it does not wrap, and stays in the user half. -/
def c2UserRange (base len : ℕ) : Bool :=
  let last := u64 (base + len - 1)
  ¬(last < base ∨ base ≥ c2UserTop ∨ last ≥ c2UserTop)

/-- The test of an entry before a read or a write. -/
def c2EntryOk (write : Bool) (e : Pte) : Bool :=
  e.present ∧ e.user ∧ (write → e.writable) ∧ ¬e.huge

/-- Where a user address leads: the tests that the loops make for each page. -/
def c2UserPhys (as : Space) (s : Paging) (write : Bool) (va : ℕ) : Option ℕ :=
  if !c2EntryOk write (pagingGetEntry as (pageDown va) s) then none
  else if pagingTranslate as va s = 0 then none
  else some (pagingTranslate as va s)

/-- `c2_user_copy_in_task`. -/
def c2UserCopyIn (m : UserMem) (as : Option Space) (src len : ℕ) : Option Bytes :=
  if len = 0 then some []
  else
    match as with
    | none => none
    | some as =>
      if src = 0 ∨ !c2UserRange src len then none
      else gather (c2UserPhys as m.paging false) m.bytes (chunks pageSize len src len)

/-- `c2_user_copy_out_task`. -/
def c2UserCopyOut (m : UserMem) (as : Option Space) (dst : ℕ) (src : Bytes) : Bool × UserMem :=
  if src = [] then (true, m)
  else
    match as with
    | none => (false, m)
    | some as =>
      if dst = 0 ∨ !c2UserRange dst src.length then (false, m)
      else
        let r := scatter (c2UserPhys as m.paging true) (chunks pageSize src.length dst src.length)
          src m.bytes
        (r.1, { m with bytes := r.2 })

/-! ### Addresses of one page -/

variable {as : Space} {s : Paging} {va va' p : ℕ}

theorem pml4Index_congr (h : va / 4096 = va' / 4096) : pml4Index va = pml4Index va' := by
  unfold pml4Index
  omega

theorem pdptIndex_congr (h : va / 4096 = va' / 4096) : pdptIndex va = pdptIndex va' := by
  unfold pdptIndex
  omega

theorem pdIndex_congr (h : va / 4096 = va' / 4096) : pdIndex va = pdIndex va' := by
  unfold pdIndex
  omega

theorem ptIndex_congr (h : va / 4096 = va' / 4096) : ptIndex va = ptIndex va' := by
  unfold ptIndex
  omega

theorem pagingWalk_congr (h : va / 4096 = va' / 4096) : pagingWalk as va s = pagingWalk as va' s := by
  unfold pagingWalk
  rw [pml4Index_congr h, pdptIndex_congr h, pdIndex_congr h, ptIndex_congr h]

theorem pagingGetEntry_congr (h : va / 4096 = va' / 4096) :
    pagingGetEntry as va s = pagingGetEntry as va' s := by
  unfold pagingGetEntry
  rw [pagingWalk_congr h]

theorem pageDown_page (va : ℕ) : pageDown va / 4096 = va / 4096 := pageDown_div va

theorem pagingTranslate_of_entry (hp : (pagingGetEntry as va s).present = true)
    (hh : (pagingGetEntry as va s).huge = false) :
    pagingTranslate as va s = (pagingGetEntry as va s).frame * pageSize + va % 2 ^ 12 := by
  have hlarge : ∀ {e : Pte}, (pagingWalk as va s = .huge1g e ∨ pagingWalk as va s = .huge2m e) →
      e.huge = true := by
    intro e he
    unfold pagingWalk at he
    dsimp only at he
    by_cases hr : c2AddressSpaceReady as s = true
    · rw [if_neg (by simp [hr])] at he
      repeat' split at he
      all_goals rcases he with he | he <;> cases he <;> assumption
    · rw [if_pos hr] at he
      rcases he with he | he <;> cases he
  unfold pagingGetEntry at hp hh ⊢
  unfold pagingTranslate
  cases hw : pagingWalk as va s with
  | fault =>
    rw [hw] at hp
    have hz : Pte.present 0 = true := hp
    exact absurd hz (by decide)
  | huge1g e =>
    rw [hw] at hh
    exact absurd (hlarge (.inl hw)) (by simpa using hh)
  | huge2m e =>
    rw [hw] at hh
    exact absurd (hlarge (.inr hw)) (by simpa using hh)
  | slot pt i =>
    rw [hw] at hp
    dsimp only at hp ⊢
    rw [if_pos hp]

theorem c2EntryOk_iff {write : Bool} {e : Pte} : c2EntryOk write e = true ↔
    e.present = true ∧ e.user = true ∧ (write = true → e.writable = true) ∧ e.huge = false := by
  unfold c2EntryOk
  rw [decide_eq_true_iff, Bool.not_eq_true]

theorem c2UserPhys_eq_some {write : Bool} :
    c2UserPhys as s write va = some p ↔ c2EntryOk write (pagingGetEntry as va s) = true ∧
      p = (pagingGetEntry as va s).frame * pageSize + va % 2 ^ 12 ∧ p ≠ 0 := by
  have hpage : pagingGetEntry as (pageDown va) s = pagingGetEntry as va s :=
    pagingGetEntry_congr (pageDown_page va)
  unfold c2UserPhys
  rw [hpage]
  by_cases hok : c2EntryOk write (pagingGetEntry as va s) = true
  · obtain ⟨hp, -, -, hh⟩ := c2EntryOk_iff.1 hok
    rw [if_neg (by simp [hok]), pagingTranslate_of_entry hp hh]
    by_cases h0 : (pagingGetEntry as va s).frame * pageSize + va % 2 ^ 12 = 0
    · rw [if_pos h0]
      refine ⟨fun h => absurd h (some_ne_none p).symm, ?_⟩
      rintro ⟨-, rfl, hne⟩
      exact absurd h0 hne
    · rw [if_neg h0]
      refine ⟨fun h => ?_, fun h => by rw [h.2.1]⟩
      obtain rfl := some.inj h
      exact ⟨hok, rfl, h0⟩
  · rw [if_pos (by simpa using hok)]
    exact ⟨fun h => absurd h (some_ne_none p).symm, fun h => absurd h.1 hok⟩

theorem linear_c2UserPhys (as : Space) (s : Paging) (write : Bool) :
    Linear pageSize (c2UserPhys as s write) := by
  intro va p i h hi
  rw [pageSize_eq] at hi
  obtain ⟨hok, rfl, hne⟩ := c2UserPhys_eq_some.1 h
  have hpage : pagingGetEntry as (va + i) s = pagingGetEntry as va s :=
    pagingGetEntry_congr (by omega)
  refine c2UserPhys_eq_some.2 ⟨by rw [hpage]; exact hok, ?_, by omega⟩
  rw [hpage]
  omega

theorem c2UserPhys_ne {write : Bool} {q : ℕ} (hp : c2UserPhys as s write va = some p)
    (hq : c2UserPhys as s write va' = some q) (hlt : va < va') (hlen : va' < va + pageSize) :
    p ≠ q := by
  obtain ⟨-, rfl, -⟩ := c2UserPhys_eq_some.1 hp
  obtain ⟨-, rfl, -⟩ := c2UserPhys_eq_some.1 hq
  rw [pageSize_eq] at hlen ⊢
  omega

theorem c2UserPhys_read {write : Bool} (h : c2UserPhys as s write va = some p) :
    c2UserPhys as s false va = some p := by
  obtain ⟨hok, hp, hne⟩ := c2UserPhys_eq_some.1 h
  obtain ⟨h1, h2, -, h4⟩ := c2EntryOk_iff.1 hok
  exact c2UserPhys_eq_some.2 ⟨c2EntryOk_iff.2 ⟨h1, h2, Bool.false_ne_true.elim, h4⟩, hp, hne⟩

/-! ### Copies that succeed -/

variable {m m' : UserMem} {space : Option Space} {len : ℕ}

theorem c2UserCopyIn_eq_some {src : ℕ} (hlen : len ≠ 0) {bs : Bytes} :
    c2UserCopyIn m space src len = some bs ↔
      ∃ as, space = some as ∧ src ≠ 0 ∧ c2UserRange src len = true ∧
        List.Forall₂ (ReadsAt (c2UserPhys as m.paging false) m.bytes) (List.range' src len) bs := by
  have hpos : 0 < pageSize := by decide
  unfold c2UserCopyIn
  rw [if_neg hlen]
  cases space with
  | none => simp
  | some as =>
    dsimp only
    by_cases hg : src = 0 ∨ !c2UserRange src len
    · rw [if_pos hg]
      refine ⟨fun h => absurd h (some_ne_none bs).symm, ?_⟩
      rintro ⟨as, -, h0, hr, -⟩
      rcases hg with hg | hg
      · exact absurd hg h0
      · simp [hr] at hg
    · rw [if_neg hg, gather_eq_some (linear_c2UserPhys as m.paging false) m.bytes
        (chunks_inPage hpos _ _ _), flatMap_chunks hpos _ _ _ le_rfl]
      rw [not_or] at hg
      exact ⟨fun h => ⟨as, rfl, hg.1, by simpa using hg.2, h⟩, fun ⟨_, h, _, _, hf⟩ => by
        obtain rfl := some.inj h
        exact hf⟩

/-- A copy to the user that succeeds stores the bytes in the range, in order, and changes nothing
else. -/
theorem c2UserCopyOut_true {dst : ℕ} {src : Bytes} (hne : src ≠ [])
    (h : c2UserCopyOut m space dst src = (true, m')) :
    ∃ as ps, space = some as ∧ dst ≠ 0 ∧ c2UserRange dst src.length = true ∧
      List.Forall₂ (fun va p => c2UserPhys as m.paging true va = some p)
        (List.range' dst src.length) ps ∧
      m' = { m with bytes := storeAll m.bytes ps src } := by
  have hpos : 0 < pageSize := by decide
  unfold c2UserCopyOut at h
  rw [if_neg hne] at h
  cases space with
  | none => cases h
  | some as =>
    dsimp only at h
    by_cases hg : dst = 0 ∨ !c2UserRange dst src.length
    · rw [if_pos hg] at h
      cases h
    · rw [if_neg hg] at h
      obtain ⟨h1, h2⟩ := Prod.mk.inj h
      have hcover := flatMap_chunks hpos src.length dst src.length le_rfl
      obtain ⟨ps, hps, hm⟩ := scatter_true (linear_c2UserPhys as m.paging true)
        (chunks_inPage hpos src.length dst src.length) src m.bytes _ (by rw [hcover]; simp)
        (Prod.ext h1 rfl)
      rw [hcover] at hps
      rw [not_or] at hg
      exact ⟨as, ps, rfl, hg.1, by simpa using hg.2, hps, by rw [← hm]; exact h2.symm⟩

/-- A machine with one task, whose first 512 pages are the frames from 5 on. -/
def samplePages : Paging where
  pmm := ⟨fun _ => true, fun i => i < 5, 0x400, 0, 0, 0x200000⟩
  mem f i :=
    if f < 4 then if i = 0 then BitVec.ofNat 64 ((f + 1) * pageSize + 7) else 0
    else if f = 4 then BitVec.ofNat 64 ((i + 5) * pageSize + 7)
    else 0
  kernelPml4 := 1
  spaces n := if n = 0 then some 1 else none
  nextSpace := 1
  nxEnabled := true

end Ridux
