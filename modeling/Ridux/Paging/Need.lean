import Ridux.Lib.Spend
import Ridux.Paging.Isolation

/-!
# What the creation of an address space needs

`paging_create_address_space` clones the low half of the kernel's tables.  How many frames that
takes is a property of those tables, and it succeeds exactly when that many are free.

* `spaceNeed`: the frames that a new space takes, `⊤` if the kernel's tables hold a broken link;
* `Cloning`: what holds while a space is being cloned;
* `createAddressSpace_cases`: what a creation does.
-/

namespace Ridux

open Lib Function

/-! ### Needs -/

/-- A child for an entry: its table, and what fills it; a broken link cannot be cloned. -/
def entryNeed (s : Paging) (sub : ℕ → ℕ∞) (e : Pte) : ℕ∞ :=
  match c2PageTableFromEntry s e with
  | none => ⊤
  | some t => 1 + sub t

/-- The need of `deepCloneTable`. -/
def tableNeed (s : Paging) (sub : ℕ → ℕ∞) (src : ℕ) : ℕ∞ :=
  ((List.range 512).map fun i =>
    if ¬(s.mem src i).present then 0
    else if (s.mem src i).huge then 0
    else entryNeed s sub (s.mem src i)).sum

/-- The need of `clonePml4Entry`. -/
def rootEntryNeed (s : Paging) (src i : ℕ) : ℕ∞ :=
  if ¬(s.mem src i).present then 0
  else if i < 256 then entryNeed s (tableNeed s (tableNeed s fun _ => 0)) (s.mem src i)
  else 0

/-- The need of a new space: the root, and the clones of the low half. -/
def spaceNeed (s : Paging) : ℕ∞ := 1 + ((List.range 512).map (rootEntryNeed s s.kernelPml4)).sum

/-- The free frames are enough for a new space. -/
def Fits (s : Paging) : Prop := spaceNeed s ≤ s.pmm.free

/-! ### The state during a creation -/

/-- A frame of the pool that was free at the start. -/
def Spare (s₀ : Paging) (f : ℕ) : Prop := f < s₀.pmm.total ∧ s₀.pmm.isFree f = true

/-- While a space is being cloned only frames that were free at the start are taken and written. -/
structure Cloning (s₀ s : Paging) : Prop where
  pmm : s.pmm.Inv
  total : s.pmm.total = s₀.pmm.total
  spare : ∀ f, Spare s f → Spare s₀ f
  kept : ∀ f, ¬Spare s₀ f → s.mem f = s₀.mem f
  kernelPml4 : s.kernelPml4 = s₀.kernelPml4
  spaces : s.spaces = s₀.spaces
  nextSpace : s.nextSpace = s₀.nextSpace

theorem Cloning.refl {s : Paging} (h : s.pmm.Inv) : Cloning s s :=
  ⟨h, rfl, fun _ h => h, fun _ _ => rfl, rfl, rfl, rfl⟩

variable {s₀ s : Paging} {own : Owners} {f dst i k src : ℕ} {p : Pmm} {cloneInto : ℕ → ℕ → Code Paging Unit}
  {sub : ℕ → ℕ∞}

theorem Cloning.fill (h : Cloning s₀ s) (hf : Spare s₀ f) (entries : ℕ → Pte) :
    Cloning s₀ (s.fill f entries) := by
  refine ⟨h.pmm, h.total, h.spare, fun g hg => ?_, h.kernelPml4, h.spaces, h.nextSpace⟩
  have hgf : g ≠ f := by
    rintro rfl
    exact hg hf
  rw [Paging.fill_mem_of_ne _ hgf]
  exact h.kept g hg

theorem Pmm.free_pos (h : p.Inv) (hf : f < p.total) (hfree : p.isFree f = true) : 0 < p.free := by
  rw [h.free_eq, Finset.card_pos]
  exact ⟨f, mem_clearSet.2 ⟨hf, (Pmm.isFree_iff h f).1 hfree⟩⟩

theorem Pmm.free_eq_zero (h : p.Inv) (hnone : ∀ f < p.total, p.isFree f = false) : p.free = 0 := by
  rw [h.free_eq, Finset.card_eq_zero, Finset.eq_empty_iff_forall_notMem]
  intro f hf
  obtain ⟨hlt, hclear⟩ := mem_clearSet.1 hf
  have := hnone f hlt
  rw [(Pmm.isFree_iff h f).2 hclear] at this
  cases this

theorem allocPageTable_cases (h : s.pmm.Inv) :
    (∃ f, Spare s f ∧ allocPageTable s =
      (some f, { s with pmm := { s.pmm.claim f 1 with
        ptBitmap := update s.pmm.ptBitmap f true } }.fill f fun _ => 0)) ∨
    (∀ f < s.pmm.total, s.pmm.isFree f = false) ∧ allocPageTable s = (none, s) := by
  rcases Pmm.allocPageTable_cases h with ⟨f, hlt, hfree, he⟩ | ⟨hnone, he⟩
  · refine .inl ⟨f, ⟨hlt, hfree⟩, ?_⟩
    have hne : f * pageSize ≠ 0 := by
      have := Pmm.pos_of_base_le h (Pmm.base_le_of_free h hlt hfree)
      simp only [pageSize_eq]
      omega
    have hdiv : f * pageSize / pageSize = f := Nat.mul_div_cancel _ (by decide)
    rw [allocPageTable, he]
    cases hn : f * pageSize with
    | zero => exact absurd hn hne
    | succ n =>
      rw [hn] at hdiv
      simp only [hdiv]
  · refine .inr ⟨hnone, ?_⟩
    rw [allocPageTable, he]
    rfl

/-- The stock of free frames. -/
def stock (s : Paging) : ℕ := s.pmm.free

/-- Whatever a creation that fails leaves behind. -/
def SameSlots (s₀ s : Paging) : Prop := s.spaces = s₀.spaces ∧ s.nextSpace = s₀.nextSpace

theorem Cloning.sameSlots (h : Cloning s₀ s) : SameSlots s₀ s := ⟨h.spaces, h.nextSpace⟩

theorem allocPageTable_spends : Spends stock (Cloning s₀) allocPageTable 1
    (fun f s => Spare s₀ f ∧ Cloning s₀ s) (SameSlots s₀) := by
  intro s hs
  rcases allocPageTable_cases hs.pmm with ⟨f, hspare, he⟩ | ⟨hnone, he⟩
  · have hpos := Pmm.free_pos hs.pmm hspare.1 hspare.2
    have hinv : (pmmAllocPageTable s.pmm).2.Inv := hs.pmm.allocPageTable
    have hpmm : (pmmAllocPageTable s.pmm).2 = { s.pmm.claim f 1 with
        ptBitmap := update s.pmm.ptBitmap f true } := by
      have hsnd := congrArg (fun r => r.2.pmm) he
      unfold allocPageTable at hsnd
      rcases hp : pmmAllocPageTable s.pmm with ⟨phys, p⟩
      rw [hp] at hsnd
      cases phys <;> exact hsnd
    rw [hpmm] at hinv
    refine .inl ⟨?_, f, _, he, ⟨hs.spare f hspare, ?_⟩, ?_⟩
    · exact_mod_cast hpos
    · have htaken : Cloning s₀ { s with pmm := { s.pmm.claim f 1 with
          ptBitmap := update s.pmm.ptBitmap f true } } := by
        refine ⟨hinv, hs.total, ?_, hs.kept, hs.kernelPml4, hs.spaces, hs.nextSpace⟩
        rintro g ⟨hg, hfree⟩
        refine hs.spare g ⟨hg, ?_⟩
        -- a frame that is free after the allocation was free before it
        unfold Pmm.isFree at hfree ⊢
        simp only [Bool.and_eq_true, Bool.not_eq_true'] at hfree ⊢
        obtain ⟨hbit, hpt⟩ := hfree
        by_cases hgf : g = f
        · rw [hgf, update_self] at hpt
          cases hpt
        · rw [update_of_ne hgf] at hpt
          refine ⟨?_, hpt⟩
          by_contra hset
          have := Pmm.setBlock_eq_true_of f 1 (show s.pmm.bitmap g = true by simpa using hset)
          rw [Pmm.claim_bitmap] at hbit
          rw [this] at hbit
          cases hbit
      exact htaken.fill (hs.spare f hspare) _
    · show ((s.pmm.free - 1 : ℕ) : ℕ∞) + 1 = s.pmm.free
      have : s.pmm.free - 1 + 1 = s.pmm.free := by omega
      exact_mod_cast this
  · refine .inr ⟨?_, s, he, hs.sameSlots⟩
    unfold stock
    rw [Pmm.free_eq_zero hs.pmm hnone]
    exact_mod_cast Nat.one_pos

theorem writeEntry_spends {e : Pte} (hdst : Spare s₀ dst) :
    Spends stock (Cloning s₀) (writeEntry dst i e) 0 (fun _ => Cloning s₀) (SameSlots s₀) :=
  Spends.change (fun _ _ => rfl) fun _ hs => hs.fill hdst _

/-! ### Cloning -/

theorem Owned.not_spare (h : Owned own s₀) {x : Space × ℕ} (hf : own f = some x) : ¬Spare s₀ f := by
  rintro ⟨hlt, hfree⟩
  rw [(h.pinned f x hf).not_free h.pmm hlt] at hfree
  cases hfree

theorem Owned.kernelLink (h : Owned own s₀) {t : ℕ} (hsrc : own src = some (.kernel, k + 2))
    (hi : i < 512) (ht : c2PageTableFromEntry s₀ (s₀.mem src i) = some t) :
    own t = some (.kernel, k + 1) := by
  rcases h.links src .kernel (k + 2) i hsrc hi k t rfl ht with ht | ⟨-, -, ht⟩
  · exact ht
  · exact ht

/-- What a cloning loop for tables of the kernel at level `l` needs. -/
def Needs (own : Owners) (s₀ : Paging) (l : ℕ) (cloneInto : ℕ → ℕ → Code Paging Unit)
    (need : ℕ → ℕ∞) : Prop :=
  ∀ dst src, Spare s₀ dst → own src = some (.kernel, l) →
    Spends stock (Cloning s₀) (cloneInto dst src) (need src) (fun _ => Cloning s₀) (SameSlots s₀)

theorem clonePt_needs : Needs own s₀ 1 clonePt fun _ => 0 := by
  intro dst src hdst _
  exact Spends.change (fun _ _ => rfl) fun _ hs => hs.fill hdst _

theorem cloneChild_spends {entry : Pte} (hclone : Needs own s₀ (k + 1) cloneInto sub)
    (hdst : Spare s₀ dst)
    (hlink : ∀ t, c2PageTableFromEntry s₀ entry = some t → own t = some (.kernel, k + 1)) :
    Spends stock (Cloning s₀) (cloneChild cloneInto dst i entry) (entryNeed s₀ sub entry)
      (fun _ => Cloning s₀) (SameSlots s₀) := by
  have hneed : entryNeed s₀ sub entry = 1 + match c2PageTableFromEntry s₀ entry with
      | none => ⊤
      | some t => sub t + 0 := by
    unfold entryNeed
    cases c2PageTableFromEntry s₀ entry <;> simp
  rw [hneed]
  unfold cloneChild
  apply Spends.bind allocPageTable_spends
  intro dstTable
  apply Spends.of_and
  intro hnew
  apply Spends.bind_find (fun s hs => c2PageTableFromEntry_congr hs.total entry)
    (fun _ hs => hs.sameSlots)
  · intro t ht
    rw [ht]
    exact Spends.bind (hclone dstTable t hnew (hlink t ht)) fun _ => writeEntry_spends hdst
  · intro hnone
    rw [hnone]

theorem deepCloneTable_needs (h : Owned own s₀) (hclone : Needs own s₀ (k + 1) cloneInto sub) :
    Needs own s₀ (k + 2) (deepCloneTable cloneInto) (tableNeed s₀ sub) := by
  intro dst src hdst hsrc
  unfold deepCloneTable tableNeed
  refine Spends.forEach _ fun i hi => ?_
  refine Spends.bind_read (fun s hs => congrFun (hs.kept src (h.not_spare hsrc)) i) ?_
  split_ifs
  · exact writeEntry_spends hdst
  · exact cloneChild_spends hclone hdst fun t ht => h.kernelLink hsrc (List.mem_range.1 hi) ht
  · exact writeEntry_spends hdst

theorem clonePml4Entry_spends (h : Owned own s₀) (hdst : Spare s₀ dst)
    (hsrc : own src = some (.kernel, 4)) (hi : i < 512) :
    Spends stock (Cloning s₀) (clonePml4Entry dst src i) (rootEntryNeed s₀ src i)
      (fun _ => Cloning s₀) (SameSlots s₀) := by
  have hpdpt : Needs own s₀ 3 deepClonePdpt (tableNeed s₀ (tableNeed s₀ fun _ => 0)) :=
    deepCloneTable_needs h (deepCloneTable_needs h clonePt_needs)
  unfold clonePml4Entry rootEntryNeed
  refine Spends.bind_read (fun s hs => congrFun (hs.kept src (h.not_spare hsrc)) i) ?_
  split_ifs
  · exact cloneChild_spends hpdpt hdst fun t ht => h.kernelLink hsrc hi ht
  · exact writeEntry_spends hdst
  · exact writeEntry_spends hdst

/-! ### Creation -/

/-- The guards of `paging_create_address_space`. -/
def Admits (s : Paging) : Prop := s.nextSpace < taskMax ∧ c2AddressSpaceReady .kernel s = true

instance (s : Paging) : Decidable (Admits s) := inferInstanceAs (Decidable (_ ∧ _))

/-- The state with a slot of the array taken. -/
def Paging.takeSlot (s : Paging) : Paging := { s with nextSpace := s.nextSpace + 1 }

/-- What a creation does in slot `n`, after its guards. -/
def fillSlot (n : ℕ) : Code Paging ℕ := do
  let pml4 ← allocPageTable
  let kernelPml4 ← .read Paging.kernelPml4
  .forEach (clonePml4Entry pml4 kernelPml4) (List.range 512)
  .change fun s => { s with spaces := update s.spaces n (some pml4) }
  pure n

theorem createAddressSpace_eq (s : Paging) : pagingCreateAddressSpace s =
    if Admits s then fillSlot s.nextSpace s.takeSlot else (none, s) := by
  unfold pagingCreateAddressSpace fillSlot Paging.takeSlot
  rw [Code.read_bind_run, Code.check_bind_run, Code.check_bind_run, Code.change_bind_run]
  by_cases hn : s.nextSpace < taskMax
  · rw [if_pos (decide_eq_true hn)]
    by_cases hr : c2AddressSpaceReady .kernel s = true
    · rw [if_pos hr, if_pos (show Admits s from ⟨hn, hr⟩)]
    · rw [if_neg hr, if_neg (show ¬Admits s from fun h => hr h.2)]
  · rw [if_neg (mt of_decide_eq_true hn), if_neg (show ¬Admits s from fun h => hn h.1)]

theorem create_of_not_admits (h : ¬Admits s) : pagingCreateAddressSpace s = (none, s) := by
  rw [createAddressSpace_eq, if_neg h]

theorem create_of_admits (h : Admits s) :
    pagingCreateAddressSpace s = fillSlot s.nextSpace s.takeSlot := by
  rw [createAddressSpace_eq, if_pos h]

/-- A creation that passes the guards takes what the space needs and hands out the next slot, or it
fails for want of that, and the slot stays taken. -/
theorem createAddressSpace_cases (h : Owned own s) (hadm : Admits s) :
    Fits s ∧ (∃ pml4 t, pagingCreateAddressSpace s = (some s.nextSpace, t) ∧
      t.spaces = update s.spaces s.nextSpace (some pml4) ∧
      t.nextSpace = s.nextSpace + 1 ∧ t.pmm.free + spaceNeed s = s.pmm.free) ∨
    ¬Fits s ∧ ∃ t, pagingCreateAddressSpace s = (none, t) ∧ t.spaces = s.spaces ∧
      t.nextSpace = s.nextSpace + 1 := by
  have h' : Owned own s.takeSlot := by
    refine ⟨h.pmm, h.pinned, h.low, fun as f hf => h.root as f ?_, fun f as l i hf hi =>
      (h.links f as l i hf hi).mono (Grows.refl own) rfl⟩
    cases as <;> exact hf
  have hroot : own s.kernelPml4 = some (.kernel, 4) := h.root .kernel _ rfl
  have hspends : Spends stock (Cloning s.takeSlot) (fillSlot s.nextSpace)
      (1 + (((List.range 512).map (rootEntryNeed s.takeSlot s.kernelPml4)).sum + (0 + 0)))
      (fun n t => n = s.nextSpace ∧ (∃ pml4, t.spaces =
        update s.spaces s.nextSpace (some pml4)) ∧ t.nextSpace = s.nextSpace + 1)
      (SameSlots s.takeSlot) := by
    unfold fillSlot
    refine Spends.bind allocPageTable_spends fun pml4 => Spends.of_and fun hpml4 => ?_
    refine Spends.bind_read (fun t ht => ht.kernelPml4) ?_
    refine Spends.bind (Spends.forEach _ fun i hi =>
      clonePml4Entry_spends h' hpml4 hroot (List.mem_range.1 hi)) fun _ => ?_
    refine Spends.bind (R := fun _ t => (∃ pml4, t.spaces =
        update s.spaces s.nextSpace (some pml4)) ∧ t.nextSpace = s.nextSpace + 1)
      (Spends.change (fun _ _ => rfl) fun t ht => ?_) fun _ => Spends.pure fun t ht => ⟨rfl, ht⟩
    refine ⟨⟨pml4, ?_⟩, ht.nextSpace⟩
    show update t.spaces s.nextSpace (some pml4) = _
    rw [ht.spaces]
    rfl
  have hneed : 1 + (((List.range 512).map (rootEntryNeed s.takeSlot s.kernelPml4)).sum + (0 + 0)) =
      spaceNeed s := by
    have hcongr : rootEntryNeed s.takeSlot = rootEntryNeed s := rfl
    rw [add_zero, add_zero, hcongr, spaceNeed]
  rw [hneed] at hspends
  rw [create_of_admits hadm]
  rcases hspends s.takeSlot (.refl h'.pmm) with ⟨hfits, n, t, he, ⟨rfl, ⟨pml4, hsp⟩, hnext⟩, hfree⟩ |
    ⟨hshort, t, he, hfail⟩
  · exact .inl ⟨hfits, pml4, t, he, hsp, hnext, hfree⟩
  · exact .inr ⟨not_le.2 hshort, t, he, hfail.1, hfail.2⟩

end Ridux
