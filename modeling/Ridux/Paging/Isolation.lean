import Ridux.Paging.Ownership
import Ridux.Pmm.History

/-!
# Address spaces do not reach into each other

Runs of the paging code and of the frame allocator below it, from a kernel tree that lies outside
the pool.  The ownership of tables holds in every state of every run, so an edit of a user space
in the low half changes no table that a walk in another space passes.
-/

namespace Ridux

open Lib

/-! ### Runs -/

/-- An operation on the page tables or on the frames below them. -/
inductive PagingOp
  | createAddressSpace
  | destroyAddressSpace (n : ℕ)
  | map (as : Space) (virt phys : ℕ) (flags : Pte)
  | unmap (as : Space) (virt : ℕ)
  | setEntry (as : Space) (virt : ℕ) (entry : Pte)
  | allocFrame
  | allocContiguous (pages : ℕ)
  | freeFrame (phys : ℕ)

/-- Callers of `pmm_free_frame` pass frames that `c3_phys_ref_index` found below the 8 GiB that
the bitmap covers; an address from `2 ^ 44` on would be cut off by the 32-bit index. -/
def Paging.enabled (_ : Paging) : PagingOp → Prop
  | .freeFrame phys => phys < 2 ^ 44
  | _ => True

/-- The state after an operation, whether or not it succeeded. -/
def Paging.exec (s : Paging) : PagingOp → Paging
  | .createAddressSpace => (pagingCreateAddressSpace s).2
  | .destroyAddressSpace n => pagingDestroyAddressSpace n s
  | .map as virt phys flags => (pagingMap as virt phys flags s).2
  | .unmap as virt => (pagingUnmap as virt s).2
  | .setEntry as virt entry => (pagingSetEntry as virt entry s).2
  | .allocFrame => { s with pmm := (pmmAllocFrame s.pmm).2 }
  | .allocContiguous pages => { s with pmm := (pmmAllocContiguousFrames pages s.pmm).2 }
  | .freeFrame phys => { s with pmm := pmmFreeFrame phys s.pmm }

/-- The tables of the kernel, found from its root. -/
inductive KernelTable (s : Paging) : ℕ → ℕ → Prop
  | root : KernelTable s 4 s.kernelPml4
  | link {l f i g : ℕ} : KernelTable s (l + 2) f → i < 512 →
      c2PageTableFromEntry s (s.mem f i) = some g → KernelTable s (l + 1) g

/-- The state the runs start from: no user space exists, and the tables of the kernel form a
tree whose frames lie outside the pool of the allocator. -/
structure Paging.Boot (s : Paging) : Prop where
  pmm : s.pmm.Inv
  spaces : ∀ n, s.spaces n = none
  outside : ∀ l f, KernelTable s l f → s.pmm.total ≤ f ∨ f * pageSize < s.pmm.base
  tree : ∀ l m f, KernelTable s l f → KernelTable s m f → l = m

/-! ### Ownership over runs -/

open Classical in
/-- At the start the kernel owns its tables. -/
noncomputable def bootOwners (s : Paging) : Owners := fun f =>
  if h : ∃ l, KernelTable s l f then some (.kernel, h.choose) else none

variable {s s₀ : Paging} {f virt : ℕ}

theorem bootOwners_eq_some (h : s.Boot) {x : Space × ℕ} :
    bootOwners s f = some x ↔ x.1 = .kernel ∧ KernelTable s x.2 f := by
  unfold bootOwners
  split_ifs with hex
  · have hl := hex.choose_spec
    constructor
    · intro hx
      obtain rfl := Option.some.inj hx
      exact ⟨rfl, hl⟩
    · rintro ⟨hx, ht⟩
      have := h.tree _ _ f hl ht
      rw [this, ← hx]
  · constructor
    · intro hx
      cases hx
    · exact fun hx => absurd ⟨_, hx.2⟩ hex

theorem Paging.Boot.owned (h : s.Boot) : Owned (bootOwners s) s where
  pmm := h.pmm
  pinned f x hf := by
    rcases h.outside _ f ((bootOwners_eq_some h).1 hf).2 with ht | hb
    · exact .inl ht
    · exact .inr (.inl hb)
  low f n l hf := by
    have := ((bootOwners_eq_some h).1 hf).1
    cases this
  root as f hf := by
    cases as with
    | kernel =>
      obtain rfl := Option.some.inj hf
      exact (bootOwners_eq_some h).2 ⟨rfl, .root⟩
    | user n =>
      rw [Paging.pml4, h.spaces n] at hf
      cases hf
  links f as l i hf hi k g hk hg := by
    obtain ⟨has, ht⟩ := (bootOwners_eq_some h).1 hf
    simp only at has ht
    subst has hk
    exact .inl ((bootOwners_eq_some h).2 ⟨rfl, .link ht hi hg⟩)

theorem Owned.setPmm {own : Owners} (h : Owned own s) {p : Pmm} (hp : p.Inv)
    (htotal : p.total = s.pmm.total) (hbase : p.base = s.pmm.base) (hpt : p.ptBitmap = s.pmm.ptBitmap) :
    Owned own { s with pmm := p } where
  pmm := hp
  pinned f x hf := by
    have := h.pinned f x hf
    rw [Pinned] at this ⊢
    simpa only [htotal, hbase, hpt] using this
  low := h.low
  root := h.root
  links f as l i hf hi := (h.links f as l i hf hi).mono (Grows.refl own) htotal

theorem pmmAllocFrame_frame (p : Pmm) :
    (pmmAllocFrame p).2.total = p.total ∧ (pmmAllocFrame p).2.base = p.base ∧
      (pmmAllocFrame p).2.ptBitmap = p.ptBitmap := by
  rcases pmmAllocFrame_cases p with ⟨_, _, _, he⟩ | ⟨-, he⟩ <;> rw [he] <;> exact ⟨rfl, rfl, rfl⟩

theorem pmmAllocContiguousFrames_frame (pages : ℕ) (p : Pmm) :
    (pmmAllocContiguousFrames pages p).2.total = p.total ∧
      (pmmAllocContiguousFrames pages p).2.base = p.base ∧
      (pmmAllocContiguousFrames pages p).2.ptBitmap = p.ptBitmap := by
  rcases pmmAllocContiguousFrames_cases pages p with ⟨_, _, _, _, he⟩ | ⟨-, he⟩ <;> rw [he] <;>
    exact ⟨rfl, rfl, rfl⟩

theorem pmmFreeFrame_frame (phys : ℕ) (p : Pmm) :
    (pmmFreeFrame phys p).total = p.total ∧ (pmmFreeFrame phys p).base = p.base ∧
      (pmmFreeFrame phys p).ptBitmap = p.ptBitmap := by
  rcases pmmFreeFrame_cases phys p with ⟨_, _, _, _, he⟩ | he <;> rw [he] <;> exact ⟨rfl, rfl, rfl⟩

theorem Owned.freeFrame {own : Owners} (h : Owned own s) {phys : ℕ} (hphys : phys < 2 ^ 44) :
    Owned own { s with pmm := pmmFreeFrame phys s.pmm } := by
  obtain ⟨htotal, hbase, hpt⟩ := pmmFreeFrame_frame phys s.pmm
  exact h.setPmm (h.pmm.freeFrame hphys) htotal hbase hpt

theorem Owned.dropRoot {own : Owners} (h : Owned own s) (n : ℕ) :
    Owned own { s with spaces := Function.update s.spaces n none } := by
  refine ⟨h.pmm, h.pinned, h.low, fun as f hf => ?_, fun f as l i hf hi =>
    (h.links f as l i hf hi).mono (Grows.refl own) rfl⟩
  cases as with
  | kernel => exact h.root .kernel f hf
  | user m =>
    by_cases hmn : m = n
    · simp [Paging.pml4, hmn] at hf
    · exact h.root (.user m) f (by simpa [Paging.pml4, hmn] using hf)

theorem Owned.destroyAddressSpace {own : Owners} (h : Owned own s) (n : ℕ) :
    Owned own (pagingDestroyAddressSpace n s) := by
  unfold pagingDestroyAddressSpace
  cases hroot : s.spaces n with
  | none => exact h
  | some pml4 =>
    have hlow := h.low pml4 n 4 (h.root (.user n) pml4 hroot)
    have hphys : pml4 * pageSize < 2 ^ 44 := by
      rw [pageSize_eq]
      omega
    simp only
    split_ifs
    · exact (h.freeFrame hphys).dropRoot n
    · exact h.dropRoot n

/-- Some ownership describes the tables. -/
def Paging.Sound (s : Paging) : Prop := ∃ own, Owned own s

theorem Holds.sound {touch : Space → Prop} {own₀ : Owners} {facts : Set (ℕ × Space × ℕ)}
    (h : Holds touch own₀ s₀ facts s) : s.Sound := by
  obtain ⟨own, hw, -⟩ := h
  exact ⟨own, hw.owned⟩

theorem Owned.holds {own : Owners} (h : Owned own s) (touch : Space → Prop) :
    Holds touch own s ∅ s :=
  ⟨own, Within.refl h, fun t ht => absurd ht (Set.notMem_empty t)⟩

theorem createAddressSpace_sound :
    Triple Paging.Sound pagingCreateAddressSpace (fun _ => Paging.Sound) Paging.Sound := by
  unfold pagingCreateAddressSpace
  apply Triple.bind (Triple.read (Q := fun _ => Paging.Sound) fun _ h => h)
  intro n
  apply Triple.bind (Triple.check (Q := fun _ => Paging.Sound) (fun _ h _ => h) fun _ h _ => h)
  intro _
  apply Triple.bind (Triple.check (Q := fun _ => Paging.Sound) (fun _ h _ => h) fun _ h _ => h)
  intro _
  apply Triple.bind (Triple.change (Q := fun _ => Paging.Sound) ?_)
  · rintro _ s₀ ⟨own₀, h₀⟩
    refine Triple.conseq (P := Holds (· = .user n) own₀ s₀ ∅) (E := Holds (· = .user n) own₀ s₀ ∅)
      ?_ (fun _ h => h) (fun _ _ h => h) (fun _ h => h.sound) s₀ (h₀.holds _)
    apply Triple.bind (allocPageTable_triple (.user n) 4)
    intro pml4
    apply Triple.of_and
    intro _
    apply Triple.bind (Triple.read (Q := fun f => Holds (· = .user n) own₀ s₀
      (insert (f, Space.kernel, 4) (insert (pml4, Space.user n, 4) ∅))) ?_)
    · intro kernelPml4
      have hclone : Triple (Holds (· = .user n) own₀ s₀
          (insert (kernelPml4, Space.kernel, 4) (insert (pml4, Space.user n, 4) ∅)))
          (.forEach (clonePml4Entry pml4 kernelPml4) (List.range 512))
          (fun _ => Holds (· = .user n) own₀ s₀
            (insert (kernelPml4, Space.kernel, 4) (insert (pml4, Space.user n, 4) ∅)))
          (Holds (· = .user n) own₀ s₀ ∅) :=
        clonePml4_triple rfl (Set.mem_insert_of_mem _ (Set.mem_insert _ _)) (Set.mem_insert _ _)
      apply Triple.bind hclone
      intro _
      apply Triple.bind (R := fun _ => Paging.Sound) (Triple.change ?_) fun _ =>
        Triple.pure fun _ h => h
      rintro s ⟨own, hw, hfacts⟩
      refine ⟨own, hw.owned.pmm, hw.owned.pinned, hw.owned.low, ?_, fun f as l i hf hi =>
        (hw.owned.links f as l i hf hi).mono (Grows.refl own) rfl⟩
      intro as f hf
      cases as with
      | kernel => exact hw.owned.root .kernel f hf
      | user m =>
        by_cases hmn : m = n
        · subst hmn
          obtain rfl : pml4 = f := by simpa [Paging.pml4] using hf
          exact hfacts _ (Set.mem_insert_of_mem _ (Set.mem_insert _ _))
        · exact hw.owned.root (.user m) f (by simpa [Paging.pml4, hmn] using hf)
    · rintro s ⟨own, hw, hfacts⟩
      refine ⟨own, hw, ?_⟩
      rintro t (rfl | ht)
      · exact hw.owned.root .kernel _ rfl
      · exact hfacts t ht
  · rintro s ⟨own, h⟩
    refine ⟨own, h.pmm, h.pinned, h.low, ?_, fun f as l i hf hi =>
      (h.links f as l i hf hi).mono (Grows.refl own) rfl⟩
    intro as f hf
    refine h.root as f ?_
    cases as <;> exact hf

theorem Paging.Sound.exec (h : s.Sound) {op : PagingOp} (hop : s.enabled op) :
    (s.exec op).Sound := by
  obtain ⟨own, ho⟩ := h
  cases op with
  | createAddressSpace => exact createAddressSpace_sound.after ⟨own, ho⟩
  | destroyAddressSpace n =>
    exact ⟨own, ho.destroyAddressSpace n⟩
  | map as virt phys flags =>
    exact ((pagingMap_triple as virt phys flags).after (ho.holds _)).sound
  | unmap as virt => exact ((writeSlot_triple as virt 0).after (ho.holds _)).sound
  | setEntry as virt entry => exact ((writeSlot_triple as virt _).after (ho.holds _)).sound
  | allocFrame =>
    obtain ⟨htotal, hbase, hpt⟩ := pmmAllocFrame_frame s.pmm
    exact ⟨own, ho.setPmm ho.pmm.allocFrame htotal hbase hpt⟩
  | allocContiguous pages =>
    obtain ⟨htotal, hbase, hpt⟩ := pmmAllocContiguousFrames_frame pages s.pmm
    exact ⟨own, ho.setPmm (ho.pmm.allocContiguous pages) htotal hbase hpt⟩
  | freeFrame phys => exact ⟨own, ho.freeFrame hop⟩

/-- **Every state of every run has its tables owned.** -/
theorem pagingRun_sound (hboot : s₀.Boot) (hrun : Runs Paging.enabled Paging.exec s₀ s) : s.Sound :=
  Runs.invariant (P := Paging.Sound) (fun _ _ h hop => h.exec hop) hrun ⟨_, hboot.owned⟩

/-! ### Isolation -/

/-- The operations that edit the mapping of the space `as` at `virt`. -/
inductive Edits (as : Space) (virt : ℕ) : PagingOp → Prop
  | map (phys : ℕ) (flags : Pte) : Edits as virt (.map as virt phys flags)
  | unmap : Edits as virt (.unmap as virt)
  | setEntry (entry : Pte) : Edits as virt (.setEntry as virt entry)

theorem pml4Index_low (h : virt < 2 ^ 47) : pml4Index virt < 256 := by
  unfold pml4Index
  omega

theorem Edits.holds {as : Space} {op : PagingOp} (hop : Edits as virt op) {own : Owners}
    (h : Owned own s) : Holds (touched as virt) own s ∅ (s.exec op) := by
  cases hop with
  | map phys flags => exact (pagingMap_triple as virt phys flags).after (h.holds _)
  | unmap => exact (writeSlot_triple as virt 0).after (h.holds _)
  | setEntry entry => exact (writeSlot_triple as virt _).after (h.holds _)

/-- **Address-space isolation.**  In any state of any run, an edit of a user space at an address
of the low half leaves every query in every other space, the kernel's included, as it was. -/
theorem paging_isolation {s₀ s : Paging} (hboot : s₀.Boot)
    (hrun : Runs Paging.enabled Paging.exec s₀ s) {n virt : ℕ} (hvirt : virt < 2 ^ 47)
    {op : PagingOp} (hop : Edits (.user n) virt op) {as : Space} (has : as ≠ .user n) (v : ℕ) :
    pagingTranslate as v (s.exec op) = pagingTranslate as v s ∧
      pagingGetEntry as v (s.exec op) = pagingGetEntry as v s := by
  obtain ⟨own, ho⟩ := pagingRun_sound hboot hrun
  obtain ⟨own', hw, -⟩ := hop.holds ho
  have hlow := pml4Index_low hvirt
  apply hw.queries ho
  · rintro (h | ⟨h, -⟩)
    · exact has h
    · omega
  · rintro (h | ⟨h, -⟩)
    · cases h
    · omega


/-- A machine whose kernel maps its first GiB with one huge page, in tables below 2 MiB. -/
def samplePaging : Paging where
  pmm := pmmInit sampleBoot
  mem f i := if f = 1 ∧ i = 0 then 0x2003 else if f = 2 ∧ i = 0 then 0x83 else 0
  kernelPml4 := 1
  spaces _ := none
  nextSpace := 0
  nxEnabled := true

theorem samplePaging_tables {l : ℕ} (h : KernelTable samplePaging l f) :
    l = 4 ∧ f = 1 ∨ l = 3 ∧ f = 2 := by
  induction h with
  | root => exact .inl ⟨rfl, rfl⟩
  | @link l f i g _ _ hg ih =>
    obtain ⟨hp, hh, hf⟩ := c2PageTableFromEntry_eq_some hg
    rcases ih with ⟨hl, rfl⟩ | ⟨hl, rfl⟩
    · by_cases hi : i = 0
      · subst hi
        have : g = 2 := by rw [← hf]; decide
        exact .inr ⟨by omega, this⟩
      · simp [samplePaging, hi] at hp
    · by_cases hi : i = 0
      · subst hi
        exact absurd hh (by decide)
      · simp [samplePaging, hi] at hp

theorem samplePaging_boot : samplePaging.Boot where
  pmm := pmmInit_inv (by decide)
  spaces _ := rfl
  outside l f h := by
    have hbase : samplePaging.pmm.base = 0x200000 := rfl
    rw [hbase, pageSize_eq]
    rcases samplePaging_tables h with ⟨-, rfl⟩ | ⟨-, rfl⟩ <;> omega
  tree l m f h h' := by
    rcases samplePaging_tables h with ⟨rfl, rfl⟩ | ⟨rfl, rfl⟩ <;>
      rcases samplePaging_tables h' with ⟨rfl, hf⟩ | ⟨rfl, hf⟩ <;> omega

/-- The sample machine after the creation of a user space. -/
def sampleSpaces : Paging := samplePaging.exec .createAddressSpace

theorem sampleSpaces_run : Runs Paging.enabled Paging.exec samplePaging sampleSpaces := by
  have h : Runs Paging.enabled Paging.exec samplePaging samplePaging := Runs.refl samplePaging
  exact h.tail .createAddressSpace trivial

theorem paging_isolation_sample :
    pagingTranslate .kernel 0x400000 (sampleSpaces.exec (.map (.user 0) 0x400000 0x201000 0x7)) =
      pagingTranslate .kernel 0x400000 sampleSpaces := by
  have hop : Edits (.user 0) 0x400000 (.map (.user 0) 0x400000 0x201000 0x7) := .map _ _
  have hne : Space.kernel ≠ .user 0 := by decide
  have h := paging_isolation samplePaging_boot sampleSpaces_run (by decide) hop hne 0x400000
  exact h.1

end Ridux
