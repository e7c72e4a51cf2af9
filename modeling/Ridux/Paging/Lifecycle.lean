import Ridux.Paging.Need

/-!
# The life of address spaces

* `SpaceTable`: the tables of a user space;
* `Available`: a slot that can still be handed out;
* `Conserves`: a creation that fails leaves the free frames and the slots as they were, a
  destruction gives back the tables and the slot;
* `PagingOp.Meets`: the steps that do; `conserves_iff`;
* `live`: the spaces that exist.

The frames of page tables are marked, and `pmm_free_frame` refuses them; slots are handed out in
order and never again.
-/

namespace Ridux

open Lib Function

/-- The tables of the space in slot `n`: its root, and what is linked below its low half. -/
inductive SpaceTable (s : Paging) (n : ℕ) : ℕ → ℕ → Prop
  | root {f : ℕ} : s.spaces n = some f → SpaceTable s n 4 f
  | link {l f i g : ℕ} : SpaceTable s n (l + 2) f → i < 512 → (l = 2 → i < 256) →
      c2PageTableFromEntry s (s.mem f i) = some g → SpaceTable s n (l + 1) g

/-- Some run hands out slot `n`. -/
def Available (s : Paging) (n : ℕ) : Prop :=
  ∃ t, Runs Paging.enabled Paging.exec s t ∧ (pagingCreateAddressSpace t).1 = some n

/-- A step loses neither frames nor slots. -/
def Conserves (s : Paging) : PagingOp → Prop
  | .createAddressSpace => (pagingCreateAddressSpace s).1 = none →
      (pagingCreateAddressSpace s).2.pmm.free = s.pmm.free ∧
        SameSlots s (pagingCreateAddressSpace s).2
  | .destroyAddressSpace n => s.spaces n ≠ none →
      (∀ l f, SpaceTable s n l f → Spare (pagingDestroyAddressSpace n s) f) ∧
        Available (pagingDestroyAddressSpace n s) n
  | _ => True

/-- The steps that lose nothing: a creation that its guards refuse or for which the free frames
are enough, and a destruction of a space that does not exist. -/
def PagingOp.Meets (s : Paging) : PagingOp → Prop
  | .createAddressSpace => Admits s → Fits s
  | .destroyAddressSpace n => s.spaces n = none
  | _ => True

/-! ### Slots -/

variable {s₀ s t : Paging} {own : Owners} {n root : ℕ}

theorem allocPageTable_slots :
    Triple (SameSlots s₀) allocPageTable (fun _ => SameSlots s₀) (SameSlots s₀) := by
  intro s hs
  unfold allocPageTable
  rcases pmmAllocPageTable s.pmm with ⟨phys, p⟩
  cases phys with
  | zero => exact .inr ⟨_, rfl, hs⟩
  | succ n => exact .inl ⟨_, _, rfl, hs⟩

theorem writeEntry_slots (f i : ℕ) (e : Pte) :
    Triple (SameSlots s₀) (writeEntry f i e) (fun _ => SameSlots s₀) (SameSlots s₀) :=
  Triple.change fun _ hs => hs

theorem readEntry_slots (f i : ℕ) :
    Triple (SameSlots s₀) (readEntry f i) (fun _ => SameSlots s₀) (SameSlots s₀) :=
  Triple.read fun _ hs => hs

theorem ensureTable_slots (tbl i : ℕ) (wantUser : Bool) :
    Triple (SameSlots s₀) (ensureTable tbl i wantUser) (fun _ => SameSlots s₀) (SameSlots s₀) := by
  refine Triple.bind (readEntry_slots tbl i) fun e => ?_
  refine Triple.ite (fun _ => ?_) fun _ => Triple.ite (fun _ => writeEntry_slots _ _ _)
    fun _ => Triple.pure fun _ hs => hs
  exact Triple.bind allocPageTable_slots fun f => writeEntry_slots _ _ _

theorem descend_slots (tbl i : ℕ) (wantUser : Bool) :
    Triple (SameSlots s₀) (descend tbl i wantUser) (fun _ => SameSlots s₀) (SameSlots s₀) := by
  refine Triple.bind (ensureTable_slots tbl i wantUser) fun _ => ?_
  refine Triple.bind (readEntry_slots tbl i) fun e => ?_
  exact Triple.find (fun _ _ hs _ => hs) fun _ hs _ => hs

theorem pagingSplitHuge_slots (child : Bool → Pte → ℕ → Pte) (tbl i : ℕ) (userAccess : Bool) :
    Triple (SameSlots s₀) (pagingSplitHuge child tbl i userAccess) (fun _ => SameSlots s₀)
      (SameSlots s₀) := by
  refine Triple.bind (readEntry_slots tbl i) fun old => ?_
  refine Triple.ite (fun _ => Triple.pure fun _ hs => hs) fun _ => ?_
  refine Triple.bind (Triple.check (Q := fun _ => SameSlots s₀) (fun _ hs _ => hs)
    fun _ hs _ => hs) fun _ => ?_
  refine Triple.bind allocPageTable_slots fun f => ?_
  refine Triple.bind (Triple.change (Q := fun _ => SameSlots s₀) fun _ hs => hs) fun _ => ?_
  exact writeEntry_slots _ _ _

theorem pagingMap_slots (as : Space) (virt phys : ℕ) (flags : Pte) :
    Triple (SameSlots s₀) (pagingMap as virt phys flags) (fun _ => SameSlots s₀)
      (SameSlots s₀) := by
  refine Triple.bind (Triple.check (Q := fun _ => SameSlots s₀) (fun _ hs _ => hs)
    fun _ hs _ => hs) fun _ => ?_
  refine Triple.bind (Triple.check (Q := fun _ => SameSlots s₀) (fun _ hs _ => hs)
    fun _ hs _ => hs) fun _ => ?_
  refine Triple.bind (Triple.find (Q := fun _ => SameSlots s₀) (fun _ _ hs _ => hs)
    fun _ hs _ => hs) fun pml4 => ?_
  refine Triple.bind (descend_slots _ _ _) fun pdpt => ?_
  refine Triple.bind (pagingSplitHuge_slots _ _ _ _) fun _ => ?_
  refine Triple.bind (descend_slots _ _ _) fun pd => ?_
  refine Triple.bind (pagingSplitHuge_slots _ _ _ _) fun _ => ?_
  refine Triple.bind (descend_slots _ _ _) fun pt => ?_
  exact Triple.change fun _ hs => hs

theorem writeSlot_slots (as : Space) (virt : ℕ) (e : Pte) (s : Paging) :
    SameSlots s (writeSlot as virt e s).2 := by
  unfold writeSlot
  split_ifs
  · split <;> exact ⟨rfl, rfl⟩
  · exact ⟨rfl, rfl⟩

theorem destroy_of_none (h : s.spaces n = none) : pagingDestroyAddressSpace n s = s := by
  unfold pagingDestroyAddressSpace
  rw [h]

theorem destroy_of_some (h : s.spaces n = some root) :
    pagingDestroyAddressSpace n s =
      { s with
        pmm := if c2DmapPageTablePtrValid s (physToDmap root)
          then pmmFreeFrame (root * pageSize) s.pmm else s.pmm
        spaces := update s.spaces n none } := by
  unfold pagingDestroyAddressSpace
  rw [h]

/-- What a step can do to the slots. -/
inductive SlotsStep (s : Paging) : PagingOp → Paging → Prop
  | same {op : PagingOp} {t : Paging} : SameSlots s t → SlotsStep s op t
  | created {t : Paging} (root : ℕ) : Admits s → Fits s →
      t.spaces = update s.spaces s.nextSpace (some root) →
      t.nextSpace = s.nextSpace + 1 → SlotsStep s .createAddressSpace t
  | failed {t : Paging} : Admits s → ¬Fits s → t.spaces = s.spaces →
      t.nextSpace = s.nextSpace + 1 → SlotsStep s .createAddressSpace t
  | destroyed {n : ℕ} {t : Paging} : s.spaces n ≠ none → t.spaces = update s.spaces n none →
      t.nextSpace = s.nextSpace → SlotsStep s (.destroyAddressSpace n) t

theorem Paging.Sound.slotsStep (h : s.Sound) (op : PagingOp) : SlotsStep s op (s.exec op) := by
  obtain ⟨own, h⟩ := h
  cases op with
  | createAddressSpace =>
    show SlotsStep s .createAddressSpace (pagingCreateAddressSpace s).2
    by_cases hadm : Admits s
    · rcases createAddressSpace_cases h hadm with ⟨hfits, root, t, he, hsp, hnext, -⟩ |
        ⟨hshort, t, he, hsp, hnext⟩
      · rw [he]
        exact .created root hadm hfits hsp hnext
      · rw [he]
        exact .failed hadm hshort hsp hnext
    · rw [create_of_not_admits hadm]
      exact .same ⟨rfl, rfl⟩
  | destroyAddressSpace n =>
    show SlotsStep s (.destroyAddressSpace n) (pagingDestroyAddressSpace n s)
    cases hn : s.spaces n with
    | none =>
      rw [destroy_of_none hn]
      exact .same ⟨rfl, rfl⟩
    | some root =>
      rw [destroy_of_some hn]
      exact .destroyed (by rw [hn]; exact Option.some_ne_none root) rfl rfl
  | map as virt phys flags =>
    exact .same ((pagingMap_slots as virt phys flags).after ⟨rfl, rfl⟩)
  | unmap as virt => exact .same (writeSlot_slots as virt 0 s)
  | setEntry as virt entry => exact .same (writeSlot_slots as virt _ s)
  | allocFrame => exact .same ⟨rfl, rfl⟩
  | allocContiguous pages => exact .same ⟨rfl, rfl⟩
  | freeFrame phys => exact .same ⟨rfl, rfl⟩

theorem SlotsStep.nextSpace_le {op : PagingOp} (h : SlotsStep s op t) :
    s.nextSpace ≤ t.nextSpace := by
  cases h with
  | same h => exact le_of_eq h.2.symm
  | created _ _ _ _ hnext => exact hnext ▸ Nat.le_succ _
  | failed _ _ _ hnext => exact hnext ▸ Nat.le_succ _
  | destroyed _ _ hnext => exact le_of_eq hnext.symm

theorem not_available (h : s.Sound) (hn : n < s.nextSpace) : ¬Available s n := by
  rintro ⟨t, hrun, hc⟩
  have hkeep := Runs.invariant (P := fun t => t.Sound ∧ n < t.nextSpace)
    (fun u op hu hop => ⟨hu.1.exec hop, lt_of_lt_of_le hu.2 (hu.1.slotsStep op).nextSpace_le⟩) hrun ⟨h, hn⟩
  obtain ⟨⟨own, ht⟩, hlt⟩ := hkeep
  by_cases hadm : Admits t
  · rcases createAddressSpace_cases ht hadm with ⟨-, -, u, he, -⟩ | ⟨-, u, he, -⟩
    · rw [he] at hc
      exact absurd (Option.some.inj hc) (by omega)
    · rw [he] at hc
      cases hc
  · rw [create_of_not_admits hadm] at hc
    cases hc

/-! ### Steps -/

theorem conserves_create_iff (h : Owned own s) :
    Conserves s .createAddressSpace ↔ PagingOp.Meets s .createAddressSpace := by
  show ((pagingCreateAddressSpace s).1 = none → _) ↔ (Admits s → Fits s)
  by_cases hadm : Admits s
  · rcases createAddressSpace_cases h hadm with ⟨hfits, root, t, he, -⟩ | ⟨hshort, t, he, -, hnext⟩
    · rw [he]
      exact iff_of_true (fun hnone => absurd hnone (Option.some_ne_none _)) fun _ => hfits
    · rw [he]
      refine iff_of_false (fun hcons => ?_) fun hfits => hshort (hfits hadm)
      have hsame : t.nextSpace = s.nextSpace := (hcons rfl).2.2
      omega
  · rw [create_of_not_admits hadm]
    exact iff_of_true (fun _ => ⟨rfl, rfl, rfl⟩) fun hadm' => absurd hadm' hadm

/-- The spaces that exist are in slots that have been handed out. -/
def Handed (s : Paging) : Prop := ∀ n, s.spaces n ≠ none → n < s.nextSpace

theorem conserves_destroy_iff (h : Owned own s) (hh : Handed s) (n : ℕ) :
    Conserves s (.destroyAddressSpace n) ↔ PagingOp.Meets s (.destroyAddressSpace n) := by
  show (s.spaces n ≠ none → _) ↔ s.spaces n = none
  constructor
  · intro hcons
    by_contra hlive
    have hsound : (pagingDestroyAddressSpace n s).Sound := ⟨own, h.destroyAddressSpace n⟩
    have hstep : SlotsStep s _ (s.exec (.destroyAddressSpace n)) := Paging.Sound.slotsStep ⟨own, h⟩ _
    exact not_available hsound (lt_of_lt_of_le (hh n hlive) hstep.nextSpace_le) (hcons hlive).2
  · exact fun hnone hlive => absurd hnone hlive

theorem destroy_not_spare (h : Owned own s) (hroot : s.spaces n = some root) :
    SpaceTable s n 4 root ∧ ¬Spare (pagingDestroyAddressSpace n s) root :=
  ⟨.root hroot, (h.destroyAddressSpace n).not_spare (h.root (.user n) root hroot)⟩

theorem destroy_loses (h : s.Sound) (hroot : s.spaces n = some root) :
    ¬Conserves s (.destroyAddressSpace n) := by
  obtain ⟨own, h⟩ := h
  obtain ⟨htable, hlost⟩ := destroy_not_spare h hroot
  intro hcons
  exact hlost ((hcons (by rw [hroot]; exact Option.some_ne_none root)).1 4 root htable)

theorem create_slot (h : Owned own s) (hadm : Admits s) (hfits : Fits s) :
    ∃ root, (s.exec .createAddressSpace).spaces s.nextSpace = some root := by
  show ∃ root, (pagingCreateAddressSpace s).2.spaces s.nextSpace = some root
  rcases createAddressSpace_cases h hadm with ⟨-, root, t, he, hsp, -⟩ | ⟨hshort, -⟩
  · exact ⟨root, by rw [he, hsp]; exact update_self _ _ _⟩
  · exact absurd hfits hshort

theorem conserves_iff (h : s.Sound) (hh : Handed s) (op : PagingOp) :
    Conserves s op ↔ op.Meets s := by
  obtain ⟨own, h⟩ := h
  cases op with
  | createAddressSpace => exact conserves_create_iff h
  | destroyAddressSpace n => exact conserves_destroy_iff h hh n
  | _ => exact iff_of_true trivial trivial

theorem SlotsStep.handed {op : PagingOp} (h : SlotsStep s op t) (hh : Handed s) : Handed t := by
  intro n hn
  cases h with
  | same h =>
    rw [h.1] at hn
    rw [h.2]
    exact hh n hn
  | created root _ _ hsp hnext =>
    rw [hsp] at hn
    rw [hnext]
    by_cases hns : n = s.nextSpace
    · omega
    · rw [update_of_ne hns] at hn
      exact Nat.lt_succ_of_lt (hh n hn)
  | failed _ _ hsp hnext =>
    rw [hsp] at hn
    rw [hnext]
    exact Nat.lt_succ_of_lt (hh n hn)
  | @destroyed k _ _ hsp hnext =>
    rw [hsp] at hn
    rw [hnext]
    by_cases hnk : n = k
    · rw [hnk, update_self] at hn
      exact absurd rfl hn
    · rw [update_of_ne hnk] at hn
      exact hh n hn

/-! ### Runs -/

/-- The number of spaces that exist. -/
def live (s : Paging) : ℕ := ((Finset.range taskMax).filter fun n => s.spaces n ≠ none).card

/-- Every slot that has been handed out holds a space. -/
structure Dense (s : Paging) : Prop where
  next : s.nextSpace ≤ taskMax
  spaces : ∀ n, s.spaces n ≠ none ↔ n < s.nextSpace

theorem Dense.live_eq (h : Dense s) : live s = s.nextSpace := by
  have hfilter : ((Finset.range taskMax).filter fun n => s.spaces n ≠ none) =
      Finset.range s.nextSpace := by
    ext n
    have := h.next
    rw [Finset.mem_filter, Finset.mem_range, Finset.mem_range, h.spaces]
    omega
  rw [live, hfilter, Finset.card_range]

theorem SlotsStep.dense {op : PagingOp} (h : SlotsStep s op t) (hd : Dense s) (hop : op.Meets s) :
    Dense t := by
  cases h with
  | same h => exact ⟨h.2 ▸ hd.next, fun n => by rw [h.1, h.2]; exact hd.spaces n⟩
  | created root hadm _ hsp hnext =>
    refine ⟨hnext ▸ hadm.1, fun n => ?_⟩
    rw [hsp, hnext]
    by_cases hns : n = s.nextSpace
    · rw [hns, update_self]
      exact iff_of_true (Option.some_ne_none root) (Nat.lt_succ_self _)
    · rw [update_of_ne hns, hd.spaces]
      omega
  | failed hadm hshort _ _ => exact absurd (hop hadm) hshort
  | destroyed hlive _ _ => exact absurd hop hlive

/-- The creation of a space succeeds if and only if its guards let it and the free frames are
enough. -/
theorem create_isSome_iff (h : s.Sound) :
    (pagingCreateAddressSpace s).1.isSome = true ↔ Admits s ∧ Fits s := by
  obtain ⟨own, h⟩ := h
  by_cases hadm : Admits s
  · rcases createAddressSpace_cases h hadm with ⟨hfits, root, t, he, -⟩ | ⟨hshort, t, he, -⟩
    · rw [he]
      exact iff_of_true rfl ⟨hadm, hfits⟩
    · rw [he]
      exact iff_of_false Bool.false_ne_true fun h => hshort h.2
  · rw [create_of_not_admits hadm]
    exact iff_of_false Bool.false_ne_true fun h => hadm h.1

/-- In every run from the start, a step loses nothing if and only if it meets its condition; and in
a run of steps that meet theirs, a space can be created whenever fewer than the most exist and the
free frames are enough, however many were created before. -/
theorem pagingRun_conserves {s₀ : Paging} (hboot : s₀.Boot) (hnext : s₀.nextSpace = 0) :
    (∀ s, Runs Paging.enabled Paging.exec s₀ s → ∀ op : PagingOp, Conserves s op ↔ op.Meets s) ∧
      ∀ s, Runs (fun s op => s.enabled op ∧ op.Meets s) Paging.exec s₀ s →
        ((pagingCreateAddressSpace s).1.isSome = true ↔
          live s < taskMax ∧ c2AddressSpaceReady .kernel s = true ∧ Fits s) := by
  have hstart : Dense s₀ := by
    refine ⟨by rw [hnext]; exact Nat.zero_le _, fun n => ?_⟩
    rw [hboot.spaces, hnext]
    exact iff_of_false (fun h => h rfl) (Nat.not_lt_zero n)
  constructor
  · intro s hrun op
    have hkeep := Runs.invariant (P := fun t => t.Sound ∧ Handed t)
      (fun u op hu hop => ⟨hu.1.exec hop, (hu.1.slotsStep op).handed hu.2⟩) hrun
      ⟨⟨_, hboot.owned⟩, fun n hn => absurd (hboot.spaces n) hn⟩
    exact conserves_iff hkeep.1 hkeep.2 op
  · intro s hrun
    have hkeep := Runs.invariant (P := fun t => t.Sound ∧ Dense t)
      (fun u op hu hop => ⟨hu.1.exec hop.1, (hu.1.slotsStep op).dense hu.2 hop.2⟩) hrun
      ⟨⟨_, hboot.owned⟩, hstart⟩
    rw [create_isSome_iff hkeep.1, hkeep.2.live_eq, Admits, and_assoc]

/-! ### A sample -/

theorem sum_range_of_zero {f : ℕ → ℕ∞} (hn : n ≠ 0) (h : ∀ i, f (i + 1) = 0) :
    ((List.range n).map f).sum = f 0 := by
  obtain ⟨n, rfl⟩ := Nat.exists_eq_succ_of_ne_zero hn
  rw [List.range_succ_eq_map, List.map_cons, List.sum_cons, List.map_map, List.sum_eq_zero, add_zero]
  intro x hx
  obtain ⟨i, -, rfl⟩ := List.mem_map.1 hx
  exact h i

theorem samplePaging_need : spaceNeed samplePaging = 2 := by
  have hmem : ∀ f i, samplePaging.mem f (i + 1) = 0 := by
    intro f i
    simp [samplePaging]
  have habsent : ∀ f i, (samplePaging.mem f (i + 1)).present = false := by
    intro f i
    rw [hmem]
    exact Pte.present_zero
  have hroot : c2PageTableFromEntry samplePaging (samplePaging.mem 1 0) = some 2 := by
    decide +kernel
  have hpdpt : ∀ sub, tableNeed samplePaging sub 2 = 0 := by
    intro sub
    have hp : (samplePaging.mem 2 0).present = true := by decide +kernel
    have hh : (samplePaging.mem 2 0).huge = true := by decide +kernel
    have hzero : ∀ i, (if ¬(samplePaging.mem 2 (i + 1)).present then 0
        else if (samplePaging.mem 2 (i + 1)).huge then 0
        else entryNeed samplePaging sub (samplePaging.mem 2 (i + 1))) = 0 :=
      fun i => if_pos (by rw [habsent]; exact Bool.false_ne_true)
    unfold tableNeed
    rw [sum_range_of_zero (by decide) hzero, if_neg (not_not.2 hp), if_pos hh]
  have hentry : rootEntryNeed samplePaging 1 0 = 1 := by
    have hp : (samplePaging.mem 1 0).present = true := by decide +kernel
    unfold rootEntryNeed entryNeed
    rw [if_neg (by simp [hp]), if_pos (by decide), hroot]
    dsimp only
    rw [hpdpt, add_zero]
  have hzero : ∀ i, rootEntryNeed samplePaging 1 (i + 1) = 0 :=
    fun i => if_pos (by rw [habsent]; exact Bool.false_ne_true)
  have hk : samplePaging.kernelPml4 = 1 := rfl
  rw [spaceNeed, hk, sum_range_of_zero (by decide) hzero, hentry]
  rfl

theorem samplePaging_fits : Fits samplePaging := by
  have hfree : samplePaging.pmm.free = 4 := by decide +kernel
  rw [Fits, samplePaging_need, hfree]
  decide

theorem samplePaging_admits : Admits samplePaging := ⟨by decide, by decide +kernel⟩

theorem pagingRun_conserves_sample : (pagingCreateAddressSpace samplePaging).1.isSome = true ↔
    live samplePaging < taskMax ∧ c2AddressSpaceReady .kernel samplePaging = true ∧
      Fits samplePaging :=
  (pagingRun_conserves samplePaging_boot rfl).2 samplePaging (Runs.refl _)

theorem sampleSpaces_eq : sampleSpaces = samplePaging.exec .createAddressSpace := rfl

/-- The space of the sample machine is destroyed: its root stays taken. -/
theorem sampleSpaces_not_conserved : ¬ ∀ s₀ s op, s₀.Boot → s₀.nextSpace = 0 →
    Runs Paging.enabled Paging.exec s₀ s → Conserves s op := by
  intro h
  obtain ⟨root, hroot⟩ := create_slot samplePaging_boot.owned samplePaging_admits samplePaging_fits
  have hsound : sampleSpaces.Sound := pagingRun_sound samplePaging_boot sampleSpaces_run
  have hcons := h samplePaging sampleSpaces (.destroyAddressSpace 0) samplePaging_boot rfl
    sampleSpaces_run
  rw [← sampleSpaces_eq] at hroot
  exact destroy_loses hsound hroot hcons

end Ridux
