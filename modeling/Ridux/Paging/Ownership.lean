import Mathlib.Data.Set.Insert
import Ridux.Paging.Table

/-!
# Who owns a page table

Every frame that holds a table has an owner, a space and a level, and a table links only tables
of its own space one level down; the one exception is the high half of a root, which may link
tables of the kernel.  Owned frames are outside the pool of the allocator or marked in it, so no
call hands them out again.

* `Owned`: the invariant;
* `Holds`: what is known in the middle of an operation that started in a given state and may
  change only the tables of the spaces in `touch`;
* one triple for each piece of the paging code.
-/

namespace Ridux

open Lib Function

/-- The space and the level (4 for a root, 1 for a last-level table) of each table. -/
abbrev Owners := ℕ → Option (Space × ℕ)

/-- The allocator never hands out frame `f`: it is outside the pool, or marked. -/
def Pinned (p : Pmm) (f : ℕ) : Prop :=
  p.total ≤ f ∨ f * pageSize < p.base ∨ p.ptBitmap f = true

variable {f : ℕ} {p : Pmm}

theorem Pinned.not_free (h : p.Inv) (hp : Pinned p f) (hf : f < p.total) : p.isFree f = false := by
  by_contra hfree
  have hfree : p.isFree f = true := by simpa using hfree
  rcases hp with hp | hp | hp
  · omega
  · have := Pmm.base_le_of_free h hf hfree
    omega
  · rw [Pmm.isFree, hp] at hfree
    simp at hfree

/-- The entry `e` at index `i` of a table of the space `as` at level `l` may be there: what it
links is owned by the same space, or by the kernel if the table is a root and `i` is in the high
half. -/
def EntryOk (own : Owners) (s : Paging) (as : Space) (l i : ℕ) (e : Pte) : Prop :=
  ∀ k g, l = k + 2 → c2PageTableFromEntry s e = some g →
    own g = some (as, k + 1) ∨ (l = 4 ∧ 256 ≤ i ∧ own g = some (.kernel, k + 1))

/-- The invariant: `own` describes the tables of `s`. -/
structure Owned (own : Owners) (s : Paging) : Prop where
  pmm : s.pmm.Inv
  pinned : ∀ f x, own f = some x → Pinned s.pmm f
  low : ∀ f n l, own f = some (.user n, l) → f < 2 ^ 32
  root : ∀ as f, s.pml4 as = some f → own f = some (as, 4)
  links : ∀ f as l i, own f = some (as, l) → i < 512 → EntryOk own s as l i (s.mem f i)

/-! ### Entries and their tables -/

variable {s : Paging} {g : ℕ}

theorem c2PageTableFromEntry_eq_some {e : Pte} (h : c2PageTableFromEntry s e = some g) :
    e.present = true ∧ e.huge = false ∧ e.frame = g := by
  simp only [c2PageTableFromEntry] at h
  split_ifs at h with h1 h2
  exact ⟨by simpa using h1, by simpa using h2, Option.some.inj h⟩

variable {t : Paging}

theorem c2PhysFrameInRange_congr (h : s.pmm.total = t.pmm.total) :
    c2PhysFrameInRange s = c2PhysFrameInRange t := by
  funext phys
  simp only [c2PhysFrameInRange, h]

theorem c2DmapPageTablePtrValid_congr (h : s.pmm.total = t.pmm.total) :
    c2DmapPageTablePtrValid s = c2DmapPageTablePtrValid t := by
  funext va
  simp only [c2DmapPageTablePtrValid, c2PhysFrameInRange_congr h]

theorem c2PageTableFromEntry_congr (h : s.pmm.total = t.pmm.total) (e : Pte) :
    c2PageTableFromEntry s e = c2PageTableFromEntry t e := by
  simp only [c2PageTableFromEntry, c2PhysFrameInRange_congr h, c2DmapPageTablePtrValid_congr h]

theorem c2PageTableFromEntry_user (s : Paging) (e : Pte) :
    c2PageTableFromEntry s (e ||| pageUser) = c2PageTableFromEntry s e := by
  have hf : (e ||| pageUser).frame = e.frame := Pte.frame_or_of_low (by decide)
  have hp : Pte.present pageUser = false := by decide
  have hh : Pte.huge pageUser = false := by decide
  simp only [c2PageTableFromEntry, Pte.present_or, Pte.huge_or, hf, hp, hh, Bool.or_false]

variable {as : Space} {l i : ℕ}

theorem entryOk_of_none {own : Owners} {e : Pte} (h : ∀ g, c2PageTableFromEntry s e ≠ some g) :
    EntryOk own s as l i e :=
  fun _ g _ he => absurd he (h g)

theorem entryOk_of_huge {own : Owners} {e : Pte} (h : e.huge = true) : EntryOk own s as l i e := by
  apply entryOk_of_none
  intro g he
  have := (c2PageTableFromEntry_eq_some he).2.1
  rw [h] at this
  cases this

theorem entryOk_of_absent {own : Owners} {e : Pte} (h : e.present = false) : EntryOk own s as l i e := by
  apply entryOk_of_none
  intro g he
  have := (c2PageTableFromEntry_eq_some he).1
  rw [h] at this
  cases this

theorem entryOk_last {own : Owners} (e : Pte) : EntryOk own s as 1 i e := by
  intro k g hk
  omega

variable {k : ℕ}

theorem entryOk_link {own : Owners} {flags : Pte} (hown : own f = some (as, k + 1)) (hf : f < 2 ^ 40)
    (hlow : flags.extractLsb' 12 40 = 0) : EntryOk own s as (k + 2) i (Pte.link f flags) := by
  intro j g hj he
  obtain ⟨-, -, hg⟩ := c2PageTableFromEntry_eq_some he
  rw [Pte.frame_link hf hlow] at hg
  obtain rfl : j = k := by omega
  exact .inl (hg ▸ hown)

/-- What is owned stays owned. -/
def Grows (own own' : Owners) : Prop := ∀ f x, own f = some x → own' f = some x

theorem Grows.refl (own : Owners) : Grows own own := fun _ _ h => h

theorem EntryOk.mono {own own' : Owners} {e : Pte} (h : EntryOk own s as l i e)
    (hown : Grows own own') (ht : t.pmm.total = s.pmm.total) : EntryOk own' t as l i e := by
  intro k g hk he
  rw [c2PageTableFromEntry_congr ht] at he
  rcases h k g hk he with h | ⟨h4, hi, h⟩
  · exact .inl (hown g _ h)
  · exact .inr ⟨h4, hi, hown g _ h⟩

/-! ### In the middle of an operation -/

/-- `own` and `s` come from `own₀` and `s₀` by changes to the tables of the spaces in `touch`. -/
structure Within (touch : Space → Prop) (own₀ : Owners) (s₀ : Paging) (own : Owners) (s : Paging) :
    Prop where
  owned : Owned own s
  grows : Grows own₀ own
  same : ∀ f x, own₀ f = some x → ¬ touch x.1 → s.mem f = s₀.mem f
  total : s.pmm.total = s₀.pmm.total
  pml4 : s.pml4 = s₀.pml4

theorem Within.refl {touch : Space → Prop} {own : Owners} (h : Owned own s) :
    Within touch own s own s :=
  ⟨h, fun _ _ hf => hf, fun _ _ _ _ => rfl, rfl, rfl⟩

/-- The operation is on its way, and the tables in `facts` have the owners given there. -/
def Holds (touch : Space → Prop) (own₀ : Owners) (s₀ : Paging) (facts : Set (ℕ × Space × ℕ))
    (s : Paging) : Prop :=
  ∃ own, Within touch own₀ s₀ own s ∧ ∀ t ∈ facts, own t.1 = some t.2

section

variable {touch : Space → Prop} {own₀ : Owners} {s₀ : Paging} {facts : Set (ℕ × Space × ℕ)} {dst tbl : ℕ}
  {cloneInto : ℕ → ℕ → Code Paging Unit} {src virt pt : ℕ} {wantUser userAccess : Bool}

theorem Holds.mono {facts' : Set (ℕ × Space × ℕ)} (hsub : facts' ⊆ facts)
    (h : Holds touch own₀ s₀ facts s) : Holds touch own₀ s₀ facts' s := by
  obtain ⟨own, hw, hf⟩ := h
  exact ⟨own, hw, fun t ht => hf t (hsub ht)⟩

theorem Holds.giveUp (h : Holds touch own₀ s₀ facts s) : Holds touch own₀ s₀ ∅ s :=
  h.mono (Set.empty_subset _)

theorem Within.fill {own : Owners} (h : Within touch own₀ s₀ own s) (hf : own f = some (as, l))
    (ht : touch as) {entries : ℕ → Pte} (hok : ∀ i < 512, EntryOk own s as l i (entries i)) :
    Within touch own₀ s₀ own (s.fill f entries) where
  owned :=
    { pmm := h.owned.pmm
      pinned := h.owned.pinned
      low := h.owned.low
      root := h.owned.root
      links := by
        intro g bs m i hg hi
        by_cases hgf : g = f
        · subst hgf
          obtain ⟨rfl, rfl⟩ := Prod.mk.inj (Option.some.inj (hg.symm.trans hf))
          rw [Paging.fill_mem_self]
          exact (hok i hi).mono (Grows.refl own) rfl
        · rw [Paging.fill_mem_of_ne s hgf]
          exact (h.owned.links g bs m i hg hi).mono (Grows.refl own) rfl }
  grows := h.grows
  same := by
    intro g x hg hx
    have hgf : g ≠ f := by
      rintro rfl
      obtain rfl := Option.some.inj ((h.grows g x hg).symm.trans hf)
      exact hx ht
    rw [Paging.fill_mem_of_ne s hgf]
    exact h.same g x hg hx
  total := h.total
  pml4 := (s.fill_pml4 f entries).trans h.pml4

theorem Within.write {own : Owners} (h : Within touch own₀ s₀ own s) (hf : own f = some (as, l))
    (ht : touch as) {e : Pte} (hok : EntryOk own s as l i e) : Within touch own₀ s₀ own (s.write f i e) := by
  refine h.fill hf ht fun j hj => ?_
  by_cases hji : j = i
  · subst hji
    simpa using hok
  · simpa [hji] using h.owned.links f as l j hf hj

theorem writeEntry_triple {e : Pte} (hf : (f, as, l) ∈ facts) (ht : touch as)
    (hok : ∀ own s, Within touch own₀ s₀ own s → (∀ t ∈ facts, own t.1 = some t.2) →
      EntryOk own s as l i e) :
    Triple (Holds touch own₀ s₀ facts) (writeEntry f i e) (fun _ => Holds touch own₀ s₀ facts)
      (Holds touch own₀ s₀ ∅) := by
  apply Triple.change
  rintro s ⟨own, hw, hfacts⟩
  exact ⟨own, hw.write (hfacts _ hf) ht (hok own s hw hfacts), hfacts⟩

theorem Within.own_eq_none {own : Owners} (h : Within touch own₀ s₀ own s) (hlt : f < s.pmm.total)
    (hfree : s.pmm.isFree f = true) : own f = none := by
  cases hf : own f with
  | none => rfl
  | some x =>
    have := (h.owned.pinned f x hf).not_free h.owned.pmm hlt
    rw [hfree] at this
    cases this

theorem grows_update {own : Owners} (hnone : own f = none) (x : Space × ℕ) :
    Grows own (update own f (some x)) := by
  intro g y hg
  have hgf : g ≠ f := by
    rintro rfl
    rw [hnone] at hg
    cases hg
  rw [update_of_ne hgf, hg]

theorem Within.newTable {own : Owners} (h : Within touch own₀ s₀ own s) (hnone : own f = none)
    (hlow : f < 2 ^ 32) (hp : p.Inv) (htotal : p.total = s.pmm.total) (hbase : p.base = s.pmm.base)
    (hpt : p.ptBitmap = update s.pmm.ptBitmap f true) (as : Space) (l : ℕ) :
    Within touch own₀ s₀ (update own f (some (as, l)))
      ({ s with pmm := p }.fill f fun _ => 0) where
  owned :=
    { pmm := hp
      pinned := by
        intro g x hg
        rw [Paging.fill_pmm]
        by_cases hgf : g = f
        · subst hgf
          exact .inr (.inr (by simp [hpt]))
        · rw [update_of_ne hgf] at hg
          have := h.owned.pinned g x hg
          rw [Pinned] at this ⊢
          simpa only [htotal, hbase, hpt, update_of_ne hgf] using this
      low := by
        intro g n m hg
        by_cases hgf : g = f
        · rw [hgf]
          exact hlow
        · rw [update_of_ne hgf] at hg
          exact h.owned.low g n m hg
      root := fun bs g hg => grows_update hnone _ g _ (h.owned.root bs g hg)
      links := by
        intro g bs m i hg hi
        by_cases hgf : g = f
        · subst hgf
          rw [Paging.fill_mem_self]
          exact entryOk_of_absent Pte.present_zero
        · rw [update_of_ne hgf] at hg
          rw [Paging.fill_mem_of_ne _ hgf]
          exact (h.owned.links g bs m i hg hi).mono (grows_update hnone _) htotal }
  grows := fun g x hg => grows_update hnone _ g x (h.grows g x hg)
  same := by
    intro g x hg hx
    have hgf : g ≠ f := by
      rintro rfl
      have := h.grows g x hg
      rw [hnone] at this
      cases this
    rw [Paging.fill_mem_of_ne _ hgf]
    exact h.same g x hg hx
  total := htotal.trans h.total
  pml4 := by
    rw [Paging.fill_pml4]
    exact h.pml4

theorem allocPageTable_triple (as : Space) (l : ℕ) :
    Triple (Holds touch own₀ s₀ facts) allocPageTable
      (fun f s => f < 2 ^ 40 ∧ Holds touch own₀ s₀ (insert (f, as, l) facts) s)
      (Holds touch own₀ s₀ ∅) := by
  rintro s ⟨own, hw, hfacts⟩
  have hinv := hw.owned.pmm
  rcases Pmm.allocPageTable_cases hinv with ⟨f, hlt, hfree, he⟩ | ⟨-, he⟩
  · left
    have hnone := hw.own_eq_none hlt hfree
    have hpinv := hinv.allocPageTable
    rw [he] at hpinv
    have hlow : f < 2 ^ 32 := by
      have := hinv.total_le
      simp only [pmmMaxPages] at this
      omega
    refine ⟨f, { s with pmm := (pmmAllocPageTable s.pmm).2 }.fill f fun _ => 0, ?_, ?_, ?_⟩
    · have hne : f * pageSize ≠ 0 := by
        have := Pmm.pos_of_base_le hinv (Pmm.base_le_of_free hinv hlt hfree)
        simp only [pageSize_eq]
        omega
      have hdiv : f * pageSize / pageSize = f := Nat.mul_div_cancel _ (by decide)
      rw [allocPageTable, he]
      cases hn : f * pageSize with
      | zero => exact absurd hn hne
      | succ n =>
        rw [hn] at hdiv
        simp only [hdiv]
    · omega
    · refine ⟨update own f (some (as, l)), ?_, ?_⟩
      · rw [he]
        exact hw.newTable hnone hlow hpinv rfl rfl rfl as l
      · rintro t (rfl | ht)
        · simp
        · exact grows_update hnone _ _ _ (hfacts t ht)
  · right
    refine ⟨s, ?_, own, hw, fun t ht => absurd ht (Set.notMem_empty t)⟩
    rw [allocPageTable, he]
    rfl

/-- The entries of a kernel table link kernel tables. -/
def kernelLinks (s₀ : Paging) (e : Pte) (k : ℕ) : Set (ℕ × Space × ℕ) :=
  {t | c2PageTableFromEntry s₀ e = some t.1 ∧ t.2 = (Space.kernel, k + 1)}

theorem readEntry_triple (hf : (f, Space.kernel, k + 2) ∈ facts) (hi : i < 512) :
    Triple (Holds touch own₀ s₀ facts) (readEntry f i)
      (fun e => Holds touch own₀ s₀ (kernelLinks s₀ e k ∪ facts)) (Holds touch own₀ s₀ ∅) := by
  apply Triple.read
  rintro s ⟨own, hw, hfacts⟩
  refine ⟨own, hw, ?_⟩
  rintro ⟨g, x⟩ (⟨hg, hx⟩ | ht)
  · rw [← c2PageTableFromEntry_congr hw.total] at hg
    simp only at hx
    subst hx
    rcases hw.owned.links f _ _ i (hfacts _ hf) hi k g rfl hg with h | ⟨-, -, h⟩
    · exact h
    · exact h
  · exact hfacts _ ht

theorem follow_triple {e : Pte} (hsub : kernelLinks s₀ e k ⊆ facts) :
    Triple (Holds touch own₀ s₀ facts) (follow e)
      (fun g s => (g, Space.kernel, k + 1) ∈ facts ∧ Holds touch own₀ s₀ facts s)
      (Holds touch own₀ s₀ ∅) := by
  apply Triple.find
  · rintro s g h hg
    obtain ⟨own, hw, hfacts⟩ := h
    rw [c2PageTableFromEntry_congr hw.total] at hg
    exact ⟨hsub ⟨hg, rfl⟩, own, hw, hfacts⟩
  · exact fun s h _ => h.giveUp

/-! ### Cloning -/

/-- What a cloning loop does: it fills the table `dst` of the space `as` from the kernel table
`src`, at level `l`. -/
def Clones (as : Space) (l : ℕ) (cloneInto : ℕ → ℕ → Code Paging Unit) : Prop :=
  ∀ (touch : Space → Prop) (own₀ : Owners) (s₀ : Paging) (facts : Set (ℕ × Space × ℕ)) (dst src : ℕ),
    touch as → (dst, as, l) ∈ facts → (src, Space.kernel, l) ∈ facts →
    Triple (Holds touch own₀ s₀ facts) (cloneInto dst src) (fun _ => Holds touch own₀ s₀ facts)
      (Holds touch own₀ s₀ ∅)

theorem clonePt_clones (as : Space) : Clones as 1 clonePt := by
  intro touch own₀ s₀ facts dst src ht hdst _
  apply Triple.change
  rintro s ⟨own, hw, hfacts⟩
  exact ⟨own, hw.fill (hfacts _ hdst) ht fun i _ => entryOk_last _, hfacts⟩

theorem cloneChild_triple {entry : Pte} (hclone : Clones as (k + 1) cloneInto) (ht : touch as)
    (hdst : (dst, as, k + 2) ∈ facts) (hlinks : kernelLinks s₀ entry k ⊆ facts) :
    Triple (Holds touch own₀ s₀ facts) (cloneChild cloneInto dst i entry)
      (fun _ => Holds touch own₀ s₀ facts) (Holds touch own₀ s₀ ∅) := by
  unfold cloneChild
  apply Triple.bind (allocPageTable_triple as (k + 1))
  intro dstTable
  apply Triple.of_and
  intro hlt
  apply Triple.bind (follow_triple (hlinks.trans (Set.subset_insert _ _)))
  intro srcTable
  apply Triple.of_and
  intro hsrc
  apply Triple.bind (hclone _ _ _ _ dstTable srcTable ht (Set.mem_insert _ _) hsrc)
  intro _
  apply Triple.conseq (P := Holds touch own₀ s₀ (insert (dstTable, as, k + 1) facts))
    (writeEntry_triple (Set.mem_insert_of_mem _ hdst) ht ?_) (fun _ h => h)
    (fun _ _ h => h.mono (Set.subset_insert _ _)) (fun _ h => h)
  intro own s _ hfacts
  exact entryOk_link (hfacts _ (Set.mem_insert _ _)) hlt (Pte.extractLsb'_low entry)

theorem deepCloneTable_clones (hclone : Clones as (k + 1) cloneInto) :
    Clones as (k + 2) (deepCloneTable cloneInto) := by
  intro touch own₀ s₀ facts dst src ht hdst hsrc
  apply Triple.forEach
  intro i hi
  apply Triple.bind (readEntry_triple hsrc (List.mem_range.1 hi))
  intro entry
  have hback : ∀ (a : Unit) (s : Paging), Holds touch own₀ s₀ (kernelLinks s₀ entry k ∪ facts) s →
      Holds touch own₀ s₀ facts s := fun _ _ h => h.mono Set.subset_union_right
  have hdst' : (dst, as, k + 2) ∈ kernelLinks s₀ entry k ∪ facts := .inr hdst
  apply Triple.ite
  · intro _
    refine (writeEntry_triple hdst' ht ?_).conseq (fun _ h => h) hback (fun _ h => h)
    exact fun _ _ _ _ => entryOk_of_absent Pte.present_zero
  · intro _
    apply Triple.ite
    · intro hhuge
      refine (writeEntry_triple hdst' ht ?_).conseq (fun _ h => h) hback (fun _ h => h)
      exact fun _ _ _ _ => entryOk_of_huge hhuge
    · intro _
      exact (cloneChild_triple hclone ht hdst' Set.subset_union_left).conseq (fun _ h => h) hback
        (fun _ h => h)

theorem deepClonePdpt_clones (as : Space) : Clones as 3 deepClonePdpt :=
  deepCloneTable_clones (deepCloneTable_clones (clonePt_clones as))

theorem clonePml4Entry_triple (ht : touch as) (hdst : (dst, as, 4) ∈ facts)
    (hsrc : (src, Space.kernel, 4) ∈ facts) (hi : i < 512) :
    Triple (Holds touch own₀ s₀ facts) (clonePml4Entry dst src i)
      (fun _ => Holds touch own₀ s₀ facts) (Holds touch own₀ s₀ ∅) := by
  apply Triple.bind (readEntry_triple (k := 2) hsrc hi)
  intro entry
  have hback : ∀ (a : Unit) (s : Paging), Holds touch own₀ s₀ (kernelLinks s₀ entry 2 ∪ facts) s →
      Holds touch own₀ s₀ facts s := fun _ _ h => h.mono Set.subset_union_right
  have hdst' : (dst, as, 4) ∈ kernelLinks s₀ entry 2 ∪ facts := .inr hdst
  apply Triple.ite
  · intro _
    refine (writeEntry_triple hdst' ht ?_).conseq (fun _ h => h) hback (fun _ h => h)
    exact fun _ _ _ _ => entryOk_of_absent Pte.present_zero
  · intro _
    apply Triple.ite
    · intro _
      exact (cloneChild_triple (deepClonePdpt_clones as) ht hdst' Set.subset_union_left).conseq
        (fun _ h => h) hback (fun _ h => h)
    · intro hhigh
      refine (writeEntry_triple hdst' ht ?_).conseq (fun _ h => h) hback (fun _ h => h)
      -- a copied entry of the high half links a table of the kernel
      intro own s hw hfacts k g hk hg
      obtain rfl : k = 2 := by omega
      rw [c2PageTableFromEntry_congr hw.total] at hg
      exact .inr ⟨rfl, by omega, hfacts (g, Space.kernel, 3) (.inl ⟨hg, rfl⟩)⟩

theorem clonePml4_triple (ht : touch as) (hdst : (dst, as, 4) ∈ facts)
    (hsrc : (src, Space.kernel, 4) ∈ facts) :
    Triple (Holds touch own₀ s₀ facts) (.forEach (clonePml4Entry dst src) (List.range 512))
      (fun _ => Holds touch own₀ s₀ facts) (Holds touch own₀ s₀ ∅) :=
  Triple.forEach _ fun _ hi => clonePml4Entry_triple ht hdst hsrc (List.mem_range.1 hi)

/-! ### Mapping -/

theorem ensureTable_triple (ht : touch as) (hi : i < 512) (htbl : (tbl, as, k + 2) ∈ facts) :
    Triple (Holds touch own₀ s₀ facts) (ensureTable tbl i wantUser)
      (fun _ => Holds touch own₀ s₀ facts) (Holds touch own₀ s₀ ∅) := by
  rintro s ⟨own, hw, hfacts⟩
  have hentry := hw.owned.links tbl as (k + 2) i (hfacts _ htbl) hi
  have hrun : ensureTable tbl i wantUser s =
      (if ¬ (s.mem tbl i).present then (do
          let f ← allocPageTable
          writeEntry tbl i (Pte.link f (pagePresent ||| pageWritable ||| pageUser)))
        else if wantUser ∧ ¬ (s.mem tbl i).user then writeEntry tbl i (s.mem tbl i ||| pageUser)
        else pure () : Code Paging Unit) s := rfl
  rw [hrun]
  by_cases hp : (s.mem tbl i).present = true
  · rw [if_neg (not_not.2 hp)]
    by_cases hu : wantUser ∧ ¬ (s.mem tbl i).user
    · rw [if_pos hu]
      refine .inl ⟨(), _, rfl, own, hw.write (hfacts _ htbl) ht ?_, hfacts⟩
      intro j g hj hg
      rw [c2PageTableFromEntry_user] at hg
      exact hentry j g hj hg
    · rw [if_neg hu]
      exact .inl ⟨(), s, rfl, own, hw, hfacts⟩
  · rw [if_pos hp]
    refine Triple.bind (allocPageTable_triple as (k + 1)) (fun f => ?_) s ⟨own, hw, hfacts⟩
    apply Triple.of_and
    intro hlt
    refine (writeEntry_triple (Set.mem_insert_of_mem _ htbl) ht ?_).conseq (fun _ h => h)
      (fun _ _ h => h.mono (Set.subset_insert _ _)) (fun _ h => h)
    intro own s _ hfacts
    exact entryOk_link (hfacts _ (Set.mem_insert _ _)) hlt (by decide)

theorem descend_triple (ht : touch as) (hi : i < 512) (htbl : (tbl, as, k + 2) ∈ facts)
    (hkernel : k + 2 = 4 → 256 ≤ i → touch .kernel) :
    Triple (Holds touch own₀ s₀ facts) (descend tbl i wantUser)
      (fun g s => ∃ bs, touch bs ∧ Holds touch own₀ s₀ (insert (g, bs, k + 1) facts) s)
      (Holds touch own₀ s₀ ∅) := by
  apply Triple.bind (ensureTable_triple ht hi htbl)
  rintro _ s ⟨own, hw, hfacts⟩
  have hinsert : ∀ g x, own g = some x → ∀ t ∈ insert (g, x) facts, own t.1 = some t.2 := by
    rintro g x hg t (rfl | hmem)
    · exact hg
    · exact hfacts t hmem
  have hrun : (do let e ← readEntry tbl i; follow e : Code Paging ℕ) s =
      (c2PageTableFromEntry s (s.mem tbl i), s) := rfl
  rw [hrun]
  cases hg : c2PageTableFromEntry s (s.mem tbl i) with
  | none => exact .inr ⟨s, rfl, own, hw, fun t h => absurd h (Set.notMem_empty t)⟩
  | some g =>
    refine .inl ⟨g, s, rfl, ?_⟩
    rcases hw.owned.links tbl as (k + 2) i (hfacts _ htbl) hi k g rfl hg with h | ⟨h4, h256, h⟩
    · exact ⟨as, ht, own, hw, hinsert g _ h⟩
    · exact ⟨.kernel, hkernel h4 h256, own, hw, hinsert g _ h⟩

theorem pagingSplitHuge_triple {child : Bool → Pte → ℕ → Pte} (ht : touch as)
    (htbl : (tbl, as, k + 2) ∈ facts)
    (hchild : k = 0 ∨ ∀ nx old j, old.huge = true → (child nx old j).huge = true) :
    Triple (Holds touch own₀ s₀ facts) (pagingSplitHuge child tbl i userAccess)
      (fun _ => Holds touch own₀ s₀ facts) (Holds touch own₀ s₀ ∅) := by
  apply Triple.bind (Triple.read (Q := fun _ => Holds touch own₀ s₀ facts) fun _ h => h)
  intro old
  apply Triple.ite
  · exact fun _ => Triple.pure fun _ h => h
  · intro hhuge
    have hhuge : old.huge = true := by simpa using hhuge
    apply Triple.bind (Triple.check (Q := fun _ => Holds touch own₀ s₀ facts) (fun _ h _ => h)
      (fun _ h _ => h.giveUp))
    intro _
    apply Triple.bind (allocPageTable_triple as (k + 1))
    intro f
    apply Triple.of_and
    intro hlt
    apply Triple.bind (R := fun _ => Holds touch own₀ s₀ (insert (f, as, k + 1) facts))
    · apply Triple.change
      rintro s ⟨own, hw, hfacts⟩
      refine ⟨own, hw.fill (hfacts _ (Set.mem_insert _ _)) ht fun j _ => ?_, hfacts⟩
      rcases hchild with rfl | hchild
      · exact entryOk_last _
      · exact entryOk_of_huge (hchild _ _ _ hhuge)
    · intro _
      refine (writeEntry_triple (Set.mem_insert_of_mem _ htbl) ht ?_).conseq (fun _ h => h)
        (fun _ _ h => h.mono (Set.subset_insert _ _)) (fun _ h => h)
      intro own s _ hfacts
      refine entryOk_link (hfacts _ (Set.mem_insert _ _)) hlt ?_
      cases userAccess <;> decide

theorem child1g_huge (nx : Bool) (old : Pte) (i : ℕ) (h : old.huge = true) :
    (child1g nx old i).huge = true := by
  have hlow : Pte.huge (old &&& 0xFFF) = old.huge := by simp [Pte.huge]
  rw [child1g, Pte.huge_or, hlow, h, Bool.or_true]

theorem pml4Index_lt (virt : ℕ) : pml4Index virt < 512 := Nat.mod_lt _ (by decide)
theorem pdptIndex_lt (virt : ℕ) : pdptIndex virt < 512 := Nat.mod_lt _ (by decide)
theorem pdIndex_lt (virt : ℕ) : pdIndex virt < 512 := Nat.mod_lt _ (by decide)
theorem ptIndex_lt (virt : ℕ) : ptIndex virt < 512 := Nat.mod_lt _ (by decide)

/-- The spaces whose tables an operation on `as` at `virt` may change: in the high half it can
reach the tables of the kernel. -/
def touched (as : Space) (virt : ℕ) (bs : Space) : Prop :=
  bs = as ∨ (256 ≤ pml4Index virt ∧ bs = .kernel)

theorem findPml4_triple (as : Space) :
    Triple (Holds touch own₀ s₀ ∅) (Code.find fun s => s.pml4 as)
      (fun f => Holds touch own₀ s₀ {(f, as, 4)}) (Holds touch own₀ s₀ ∅) := by
  apply Triple.find
  · rintro s f ⟨own, hw, -⟩ hf
    refine ⟨own, hw, ?_⟩
    rintro t rfl
    exact hw.owned.root as f hf
  · exact fun _ h _ => h

/-- A level below the root: the huge entry is split, then the table below is entered. -/
theorem splitDescend_triple {α : Type} {child : Bool → Pte → ℕ → Pte} {rest : ℕ → Code Paging α}
    {Q : α → Paging → Prop} (hk : k ≤ 1) (hi : i < 512)
    (hchild : k = 0 ∨ ∀ nx old j, old.huge = true → (child nx old j).huge = true)
    (hrest : ∀ g bs, touch bs →
      Triple (Holds touch own₀ s₀ {(g, bs, k + 1)}) (rest g) Q (Holds touch own₀ s₀ ∅))
    (ht : touch as) :
    Triple (Holds touch own₀ s₀ {(tbl, as, k + 2)})
      (do pagingSplitHuge child tbl i userAccess; let g ← descend tbl i userAccess; rest g) Q
      (Holds touch own₀ s₀ ∅) := by
  apply Triple.bind (pagingSplitHuge_triple ht (Set.mem_singleton _) hchild)
  intro _
  apply Triple.bind (descend_triple ht hi (Set.mem_singleton _) fun h => absurd h (by omega))
  intro g s h
  obtain ⟨bs, hbs, h⟩ := h
  exact hrest g bs hbs s (h.mono (Set.singleton_subset_iff.2 (Set.mem_insert _ _)))

theorem pagingMap_triple (as : Space) (virt phys : ℕ) (flags : Pte) :
    Triple (Holds (touched as virt) own₀ s₀ ∅) (pagingMap as virt phys flags)
      (fun _ => Holds (touched as virt) own₀ s₀ ∅) (Holds (touched as virt) own₀ s₀ ∅) := by
  unfold pagingMap
  apply Triple.bind (Triple.check (Q := fun _ => Holds (touched as virt) own₀ s₀ ∅)
    (fun _ h _ => h) (fun _ h _ => h))
  intro _
  apply Triple.bind (Triple.check (Q := fun _ => Holds (touched as virt) own₀ s₀ ∅)
    (fun _ h _ => h) (fun _ h _ => h))
  intro _
  apply Triple.bind (findPml4_triple as)
  intro pml4
  apply Triple.bind (descend_triple (k := 2) (.inl rfl) (pml4Index_lt virt)
    (Set.mem_singleton _) fun _ h => .inr ⟨h, rfl⟩)
  rintro pdpt s ⟨as₃, h₃, h⟩
  refine splitDescend_triple (k := 1) le_rfl (pdptIndex_lt virt) (.inr child1g_huge)
    (fun pd as₂ h₂ => ?_) h₃ s (h.mono (Set.singleton_subset_iff.2 (Set.mem_insert _ _)))
  refine splitDescend_triple (k := 0) (by omega) (pdIndex_lt virt) (.inl rfl)
    (fun pt as₁ h₁ => ?_) h₂
  apply Triple.change
  rintro s ⟨own, hw, hfacts⟩
  exact ⟨own, hw.write (hfacts _ (Set.mem_singleton _)) h₁ (entryOk_last _),
    fun t h => absurd h (Set.notMem_empty t)⟩

/-! ### The walk -/

theorem Owned.child {own : Owners} (h : Owned own s) (hf : own f = some (as, k + 2)) (hi : i < 512)
    (hg : c2PageTableFromEntry s (s.mem f i) = some g) :
    ∃ bs, (bs = as ∨ (k = 2 ∧ 256 ≤ i ∧ bs = .kernel)) ∧ own g = some (bs, k + 1) := by
  rcases h.links f as (k + 2) i hf hi k g rfl hg with h | ⟨h4, h256, h⟩
  · exact ⟨as, .inl rfl, h⟩
  · exact ⟨.kernel, .inr ⟨by omega, h256, rfl⟩, h⟩

theorem pagingWalk_eq_slot (h : pagingWalk as virt s = .slot pt i) :
    i = ptIndex virt ∧ ∃ pml4 pdpt pd, s.pml4 as = some pml4 ∧
      c2PageTableFromEntry s (s.mem pml4 (pml4Index virt)) = some pdpt ∧
      c2PageTableFromEntry s (s.mem pdpt (pdptIndex virt)) = some pd ∧
      c2PageTableFromEntry s (s.mem pd (pdIndex virt)) = some pt := by
  unfold pagingWalk at h
  split_ifs at h
  cases hroot : s.pml4 as with
  | none => rw [hroot] at h; cases h
  | some pml4 =>
    rw [hroot] at h
    simp only at h
    cases hpdpt : c2PageTableFromEntry s (s.mem pml4 (pml4Index virt)) with
    | none => rw [hpdpt] at h; cases h
    | some pdpt =>
      rw [hpdpt] at h
      simp only at h
      split_ifs at h
      cases hpd : c2PageTableFromEntry s (s.mem pdpt (pdptIndex virt)) with
      | none => rw [hpd] at h; cases h
      | some pd =>
        rw [hpd] at h
        simp only at h
        split_ifs at h
        cases hpt : c2PageTableFromEntry s (s.mem pd (pdIndex virt)) with
        | none => rw [hpt] at h; cases h
        | some pt' =>
          rw [hpt] at h
          obtain ⟨rfl, rfl⟩ := Walk.slot.inj h
          exact ⟨rfl, pml4, pdpt, pd, rfl, hpdpt, hpd, hpt⟩

theorem Owned.slot {own : Owners} (h : Owned own s) (hwalk : pagingWalk as virt s = .slot pt i) :
    i < 512 ∧ ∃ bs, touched as virt bs ∧ own pt = some (bs, 1) := by
  obtain ⟨rfl, pml4, pdpt, pd, hroot, hpdpt, hpd, hpt⟩ := pagingWalk_eq_slot hwalk
  obtain ⟨b₃, h₃, ho₃⟩ := h.child (k := 2) (h.root as pml4 hroot) (pml4Index_lt virt) hpdpt
  obtain ⟨b₂, h₂, ho₂⟩ := h.child (k := 1) ho₃ (pdptIndex_lt virt) hpd
  obtain ⟨b₁, h₁, ho₁⟩ := h.child (k := 0) ho₂ (pdIndex_lt virt) hpt
  have h₂ : b₂ = b₃ := by rcases h₂ with h | ⟨h, -⟩ <;> [exact h; omega]
  have h₁ : b₁ = b₂ := by rcases h₁ with h | ⟨h, -⟩ <;> [exact h; omega]
  refine ⟨ptIndex_lt virt, b₁, ?_, ho₁⟩
  rw [h₁, h₂]
  rcases h₃ with h | ⟨-, h256, h⟩
  · exact .inl h
  · exact .inr ⟨h256, h⟩

theorem writeSlot_triple (as : Space) (virt : ℕ) (e : Pte) :
    Triple (Holds (touched as virt) own₀ s₀ ∅) (writeSlot as virt e)
      (fun _ => Holds (touched as virt) own₀ s₀ ∅) (Holds (touched as virt) own₀ s₀ ∅) := by
  rintro s ⟨own, hw, hfacts⟩
  unfold writeSlot
  by_cases ha : c2UserPagingEditAllowed as virt = true
  · rw [if_neg (not_not.2 ha)]
    cases hwalk : pagingWalk as virt s with
    | fault => exact .inr ⟨s, rfl, own, hw, hfacts⟩
    | huge1g e => exact .inr ⟨s, rfl, own, hw, hfacts⟩
    | huge2m e => exact .inr ⟨s, rfl, own, hw, hfacts⟩
    | slot pt pti =>
      obtain ⟨hi, bs, hbs, hown⟩ := hw.owned.slot hwalk
      exact .inl ⟨(), _, rfl, own, hw.write hown hbs (entryOk_last e), hfacts⟩
  · rw [if_pos ha]
    exact .inr ⟨s, rfl, own, hw, hfacts⟩

theorem c2AddressSpaceReady_congr (htotal : s.pmm.total = t.pmm.total) (hroot : s.pml4 = t.pml4)
    (as : Space) : c2AddressSpaceReady as s = c2AddressSpaceReady as t := by
  simp only [c2AddressSpaceReady, hroot, c2DmapPageTablePtrValid_congr htotal]

theorem Within.walk {own : Owners} (hw : Within touch own₀ s₀ own s) (h₀ : Owned own₀ s₀)
    (has : ¬ touch as) (hkernel : ¬ touch .kernel) (virt : ℕ) :
    pagingWalk as virt s = pagingWalk as virt s₀ ∧
      ∀ pt i, pagingWalk as virt s₀ = .slot pt i → s.mem pt = s₀.mem pt := by
  have hfollow := c2PageTableFromEntry_congr hw.total
  have hnext : ∀ {f k i g bs}, own₀ f = some (bs, k + 2) → ¬ touch bs → i < 512 →
      c2PageTableFromEntry s₀ (s₀.mem f i) = some g →
      ∃ cs, ¬ touch cs ∧ own₀ g = some (cs, k + 1) := by
    intro f k i g bs hf hbs hi hg
    obtain ⟨cs, rfl | ⟨-, -, rfl⟩, hown⟩ := h₀.child hf hi hg
    · exact ⟨cs, hbs, hown⟩
    · exact ⟨_, hkernel, hown⟩
  constructor
  · unfold pagingWalk
    rw [c2AddressSpaceReady_congr hw.total hw.pml4, hw.pml4]
    refine if_congr Iff.rfl rfl ?_
    cases hroot : s₀.pml4 as with
    | none => rfl
    | some pml4 =>
      have ho₄ := h₀.root as pml4 hroot
      simp only [hw.same pml4 _ ho₄ has, hfollow]
      cases hpdpt : c2PageTableFromEntry s₀ (s₀.mem pml4 (pml4Index virt)) with
      | none => rfl
      | some pdpt =>
        obtain ⟨b₃, hb₃, ho₃⟩ := hnext (k := 2) ho₄ has (pml4Index_lt virt) hpdpt
        simp only [hw.same pdpt _ ho₃ hb₃]
        refine if_congr Iff.rfl rfl ?_
        cases hpd : c2PageTableFromEntry s₀ (s₀.mem pdpt (pdptIndex virt)) with
        | none => rfl
        | some pd =>
          obtain ⟨b₂, hb₂, ho₂⟩ := hnext (k := 1) ho₃ hb₃ (pdptIndex_lt virt) hpd
          simp only [hw.same pd _ ho₂ hb₂]
  · intro pt i hwalk
    obtain ⟨-, pml4, pdpt, pd, hroot, hpdpt, hpd, hpt⟩ := pagingWalk_eq_slot hwalk
    obtain ⟨b₃, hb₃, ho₃⟩ := hnext (k := 2) (h₀.root as pml4 hroot) has (pml4Index_lt virt) hpdpt
    obtain ⟨b₂, hb₂, ho₂⟩ := hnext (k := 1) ho₃ hb₃ (pdptIndex_lt virt) hpd
    obtain ⟨b₁, hb₁, ho₁⟩ := hnext (k := 0) ho₂ hb₂ (pdIndex_lt virt) hpt
    exact hw.same pt _ ho₁ hb₁

theorem Within.queries {own : Owners} (hw : Within touch own₀ s₀ own s) (h₀ : Owned own₀ s₀)
    (has : ¬ touch as) (hkernel : ¬ touch .kernel) (virt : ℕ) :
    pagingTranslate as virt s = pagingTranslate as virt s₀ ∧
      pagingGetEntry as virt s = pagingGetEntry as virt s₀ := by
  obtain ⟨hwalk, hslot⟩ := hw.walk h₀ has hkernel virt
  unfold pagingTranslate pagingGetEntry
  rw [hwalk]
  cases h : pagingWalk as virt s₀ with
  | fault => exact ⟨rfl, rfl⟩
  | huge1g e => exact ⟨rfl, rfl⟩
  | huge2m e => exact ⟨rfl, rfl⟩
  | slot pt i => simp only [hslot pt i h, and_self]

end

end Ridux
