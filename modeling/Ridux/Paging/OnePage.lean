import Ridux.Paging.Exact

/-!
# One page is mapped

`paging_map` maps the page of `virt`, and it is to leave every other page of the space alone.

* `MapsOnePage`: a call maps its page and no other;
* `MapExact`: the condition on the space before the call;
* `paging_map_one_page`: the two agree;
* `paging_map_changes_pages`: a call that splits a huge page and makes its other pages executable.
-/

namespace Ridux

open Lib Option

variable {q : MapArgs} {l n : ℕ} {t : PageTree}

/-! ### The page itself -/

theorem mapTree_page (hp : q.entry.present = true) (hd : (mapTree q l n t).done = true) :
    (∃ r, pageIn q.virt (mapTree q l n t).tree l = some ⟨leafPhys 0 q.entry q.virt, r⟩) ∧
      entryIn q.virt (mapTree q l n t).tree l = some q.entry := by
  induction l generalizing n t with
  | zero =>
    have htree : (mapTree q 0 n t).tree = .leaf q.entry := if_pos hp
    rw [htree]
    exact ⟨⟨_, rfl⟩, rfl⟩
  | succ l ih =>
    have hwithin : ∀ {m : Mapped} {r : Rights} {sub : Fin 512 → PageTree},
        ((∃ r, pageIn q.virt m.tree l = some ⟨leafPhys 0 q.entry q.virt, r⟩) ∧
          entryIn q.virt m.tree l = some q.entry) →
        (∃ r', pageIn q.virt (m.within r sub (tableIndex l q.virt)).tree (l + 1) =
          some ⟨leafPhys 0 q.entry q.virt, r'⟩) ∧
        entryIn q.virt (m.within r sub (tableIndex l q.virt)).tree (l + 1) = some q.entry := by
      rintro m r sub ⟨⟨r', hpage⟩, hentry⟩
      refine ⟨⟨r'.under r, ?_⟩, ?_⟩
      · rw [pageIn_within_of_eq rfl, hpage]
        rfl
      · simp only [Mapped.within, entryIn, Function.update_self, hentry]
    cases t with
    | invalid => cases hd
    | absent =>
      by_cases hn : n = 0
      · simp only [mapTree, if_pos hn] at hd
        cases hd
      · simp only [mapTree, if_neg hn] at hd ⊢
        exact hwithin (ih hd)
    | leaf e =>
      by_cases hstop : n = 0 ∨ ¬ q.inRange e = true
      · simp only [mapTree, if_pos hstop] at hd
        cases hd
      · simp only [mapTree, if_neg hstop] at hd ⊢
        exact hwithin (ih hd)
    | table r sub => exact hwithin (ih hd)

/-! ### The space -/

/-- The rights of the root. -/
def Rights.full : Rights := ⟨true, true, false⟩

theorem Rights.under_full (r : Rights) : r.under .full = r :=
  Rights.ext (Bool.true_and _) (Bool.true_and _) (Bool.false_or _)

theorem Page.map_under_full (o : Option Page) : o.map (Page.under .full) = o := by
  cases o with
  | none => rfl
  | some p => exact congrArg some (Page.ext rfl (Rights.under_full _))

theorem Rights.promote_full (u : Bool) : Rights.full.promote u = .full := rfl

/-- The tree of a space. -/
def rootTree (s : Paging) (root : ℕ) : PageTree := .table .full (treeAt s 3 root)

theorem pagingPage_eq {as : Space} {s : Paging} {root : ℕ} (hready : c2AddressSpaceReady as s = true)
    (hroot : s.pml4 as = some root) (v : ℕ) : pagingPage as v s = pageIn v (rootTree s root) 4 := by
  unfold pagingPage rootTree
  rw [if_pos hready, hroot]
  exact (Page.map_under_full _).symm

theorem elsewhere_iff (virt v : ℕ) :
    Elsewhere virt 4 v ↔ v / pageSize % 2 ^ 36 ≠ virt / pageSize % 2 ^ 36 := by
  have hidx : ∀ k, tableIndex k v = tableIndex k virt ↔
      v / 2 ^ (12 + 9 * k) % 512 = virt / 2 ^ (12 + 9 * k) % 512 :=
    fun k => Fin.ext_iff
  have hsize : pageSize = 2 ^ 12 := rfl
  rw [hsize]
  constructor
  · rintro ⟨k, hk, hne⟩ h
    rw [Ne, hidx] at hne
    obtain rfl | rfl | rfl | rfl : k = 0 ∨ k = 1 ∨ k = 2 ∨ k = 3 := by omega
    · omega
    · omega
    · omega
    · omega
  · intro h
    by_contra hall
    have hsame : ∀ k < 4, v / 2 ^ (12 + 9 * k) % 512 = virt / 2 ^ (12 + 9 * k) % 512 := by
      intro k hk
      by_contra hne
      exact hall ⟨k, hk, fun h => hne ((hidx k).1 h)⟩
    have h0 := hsame 0 (by decide)
    have h1 := hsame 1 (by decide)
    have h2 := hsame 2 (by decide)
    have h3 := hsame 3 (by decide)
    omega

/-! ### The call -/

/-- The space is well formed around `virt`: the tables that the address passes are linked once, and no
table of the space is free in the allocator. -/
def WellFormed (as : Space) (virt : ℕ) (s : Paging) : Prop :=
  ∀ root, s.pml4 as = some root → Shape virt s 3 root

/-- A page to map: its address and flags fit in an entry, and it is present. -/
structure PageArgs (phys : ℕ) (flags : Pte) : Prop where
  aligned : phys % pageSize = 0
  phys_lt : phys < 2 ^ 52
  flags_apart : flags.extractLsb' 12 40 = 0
  present : flags.present = true

/-- The call maps the page of `virt` and leaves every other page as it is; a call that fails leaves all. -/
def MapsOnePage (as : Space) (virt phys : ℕ) (flags : Pte) (s : Paging) : Prop :=
  let res := pagingMap as virt phys flags s
  (res.1.isSome = true → pagingTranslate as virt res.2 = phys + virt % pageSize ∧
    pagingGetEntry as virt res.2 = BitVec.ofNat 64 phys ||| c2SanitizePageFlags s.nxEnabled flags) ∧
  ∀ v, (res.1.isSome = true → v / pageSize % 2 ^ 36 ≠ virt / pageSize % 2 ^ 36) →
    pagingPage as v res.2 = pagingPage as v s

/-- The call fails its first checks, or the tree of the space is as a mapping needs it. -/
def MapExact (as : Space) (virt phys : ℕ) (flags : Pte) (s : Paging) : Prop :=
  c2AddressSpaceReady as s = true → c2UserPagingEditAllowed as virt = true → ∀ root, s.pml4 as = some root →
    Exact (mapArgs s virt phys flags) 3 .full s.pmm.free (treeAt s 3 root (tableIndex 3 virt))

section Call

variable {as : Space} {virt phys root : ℕ} {flags : Pte} {s : Paging}

theorem PageArgs.entry_present (ha : PageArgs phys flags) (s : Paging) :
    (mapArgs s virt phys flags).entry.present = true := by
  have hp : (c2SanitizePageFlags s.nxEnabled flags).present = true := by
    rw [Pte.present, getLsbD_sanitize _ _ (by decide)]
    exact ha.present
  show Pte.present (_ ||| _) = true
  rw [Pte.present_or, hp, Bool.or_true]

theorem PageArgs.leafPhys (ha : PageArgs phys flags) (s : Paging) :
    leafPhys 0 (mapArgs s virt phys flags).entry virt = phys + virt % pageSize := by
  have hlow : (c2SanitizePageFlags s.nxEnabled flags).extractLsb' 12 40 = 0 := by
    apply BitVec.eq_of_getLsbD_eq
    intro k hk
    have hflags := congrArg (fun x => BitVec.getLsbD x k) ha.flags_apart
    simp only [BitVec.getLsbD_extractLsb', BitVec.ofNat_eq_ofNat, BitVec.getLsbD_zero] at hflags ⊢
    rw [getLsbD_sanitize _ _ (by omega)]
    exact hflags
  have hframe : (mapArgs s virt phys flags).entry.frame = phys / pageSize := by
    have hphys := ha.phys_lt
    show Pte.frame (_ ||| _) = _
    rw [Pte.frame_or_of_low hlow, Pte.frame, BitVec.extractLsb'_toNat, BitVec.toNat_ofNat,
      Nat.shiftRight_eq_div_pow, pageSize_eq]
    omega
  have hback := Nat.div_mul_cancel (Nat.dvd_of_mod_eq_zero ha.aligned)
  rw [leafPhys_zero, hframe, hback]
  rfl

theorem root_of_ready (hready : c2AddressSpaceReady as s = true) : ∃ root, s.pml4 as = some root := by
  unfold c2AddressSpaceReady at hready
  cases hroot : s.pml4 as with
  | none =>
    rw [hroot] at hready
    cases hready
  | some root => exact ⟨root, rfl⟩

theorem pagingMap_of_refused
    (h : ¬(c2AddressSpaceReady as s = true ∧ c2UserPagingEditAllowed as virt = true)) :
    pagingMap as virt phys flags s = (none, s) := by
  rw [pagingMap_eq, Code.check_bind_run]
  by_cases hready : c2AddressSpaceReady as s = true
  · rw [if_pos hready, Code.check_bind_run, if_neg fun hallowed => h ⟨hready, hallowed⟩]
  · rw [if_neg hready]

theorem pagingMap_of_root (hready : c2AddressSpaceReady as s = true)
    (hallowed : c2UserPagingEditAllowed as virt = true) (hroot : s.pml4 as = some root) :
    pagingMap as virt phys flags s = mapFrom virt phys flags 3 root s := by
  rw [pagingMap_eq, Code.check_bind_run, if_pos hready, Code.check_bind_run, if_pos hallowed, Code.bind_run]
  simp only [Code.find, hroot]

theorem rootTree_maps {res : Option Unit × Paging} (h : Maps q s 3 root res) :
    rootTree res.2 root = (mapTree q 4 s.pmm.free (rootTree s root)).tree ∧
      res.1.isSome = (mapTree q 4 s.pmm.free (rootTree s root)).done := by
  have hmap : mapTree q 4 s.pmm.free (rootTree s root) =
      (mapTree q 3 s.pmm.free (treeAt s 3 root (tableIndex 3 q.virt))).within .full (treeAt s 3 root)
        (tableIndex 3 q.virt) := rfl
  rw [hmap, h.done]
  refine ⟨?_, rfl⟩
  rw [rootTree, h.tree]
  rfl

theorem ready_of_wrote {on : ℕ → Prop} {s' : Paging} (h : s.Wrote s' on) :
    c2AddressSpaceReady as s' = c2AddressSpaceReady as s := by
  unfold c2AddressSpaceReady
  rw [h.pml4]
  cases s.pml4 as with
  | none => rfl
  | some root => exact congrFun (c2DmapPageTablePtrValid_congr h.total) _

theorem pagingEntry_eq (hready : c2AddressSpaceReady as s = true) (hroot : s.pml4 as = some root) (v : ℕ) :
    pagingEntry as v s = entryIn v (rootTree s root) 4 := by
  unfold pagingEntry rootTree
  rw [if_pos hready, hroot]
  rfl

theorem exact_root :
    Exact q 4 .full n (rootTree s root) ↔ Exact q 3 .full n (treeAt s 3 root (tableIndex 3 q.virt)) := by
  constructor
  · exact fun h => h.2
  · intro h
    refine ⟨fun _ _ _ _ _ hc => ?_, h⟩
    cases hc

/-- `paging_map` maps one page and leaves every other page alone exactly under `MapExact`. -/
theorem paging_map_one_page (hwf : WellFormed as virt s) (ha : PageArgs phys flags) :
    MapsOnePage as virt phys flags s ↔ MapExact as virt phys flags s := by
  by_cases hgo : c2AddressSpaceReady as s = true ∧ c2UserPagingEditAllowed as virt = true
  swap
  · -- the call is refused
    unfold MapsOnePage
    rw [pagingMap_of_refused hgo]
    refine iff_of_true ⟨fun h => absurd h Bool.false_ne_true, fun _ _ => rfl⟩ fun hready hallowed => ?_
    exact absurd ⟨hready, hallowed⟩ hgo
  obtain ⟨hready, hallowed⟩ := hgo
  obtain ⟨root, hroot⟩ := root_of_ready hready
  have hmaps := mapFrom_maps phys flags (hwf root hroot)
  rw [← pagingMap_of_root hready hallowed hroot] at hmaps
  obtain ⟨htree, hdone⟩ := rootTree_maps hmaps
  have hready' := hready
  rw [← ready_of_wrote hmaps.wrote] at hready'
  have hroot' := hroot
  rw [← hmaps.wrote.pml4] at hroot'
  have hexact : MapExact as virt phys flags s ↔
      Unchanged (mapArgs s virt phys flags) 4 .full (rootTree s root)
        (mapTree (mapArgs s virt phys flags) 4 s.pmm.free (rootTree s root)) := by
    have hproper : (rootTree s root).Proper 4 := treeAt_proper s 3 root
    rw [unchanged_iff hproper, exact_root]
    constructor
    · exact fun h => h hready hallowed root hroot
    · intro h _ _ root' hr
      obtain rfl := some.inj (hroot.symm.trans hr)
      exact h
  have hpage : (pagingMap as virt phys flags s).1.isSome = true →
      pagingTranslate as virt (pagingMap as virt phys flags s).2 = phys + virt % pageSize ∧
      pagingGetEntry as virt (pagingMap as virt phys flags s).2 =
        BitVec.ofNat 64 phys ||| c2SanitizePageFlags s.nxEnabled flags := by
    intro hok
    rw [hdone] at hok
    obtain ⟨⟨r, hr⟩, he⟩ := mapTree_page (ha.entry_present s) hok
    constructor
    · rw [pagingTranslate_eq, pagingPage_eq hready' hroot', htree]
      exact (congrArg (fun o => (Option.map Page.phys o).getD 0) hr).trans (ha.leafPhys s)
    · apply pagingGetEntry_eq
      rw [pagingEntry_eq hready' hroot', htree]
      exact he
  rw [hexact]
  unfold MapsOnePage Unchanged
  rw [and_iff_right hpage]
  refine forall_congr' fun v => ?_
  rw [pagingPage_eq hready hroot, pagingPage_eq hready' hroot', htree, Rights.promote_full,
    Page.map_under_full, Page.map_under_full, hdone]
  exact imp_congr_left (imp_congr_right fun _ => (elsewhere_iff virt v).symm)

end Call

/-! ### A sample -/

/-- The sample machine with the entry `e` for its first GiB. -/
def sampleHuge (e : Pte) : Paging :=
  { samplePaging with mem := fun f i => if f = 1 ∧ i = 0 then 0x2003 else if f = 2 ∧ i = 0 then e else 0 }

theorem sampleHuge_links {e : Pte} (he : e.huge = true) (f : ℕ) (i : Fin 512) :
    (sampleHuge e).links f i = if f = 1 ∧ i = 0 then some 2 else none := by
  have hzero : c2PageTableFromEntry (sampleHuge e) 0 = none := c2PageTableFromEntry_of_absent rfl
  have hmem : (sampleHuge e).mem f i =
      if f = 1 ∧ (i : ℕ) = 0 then 0x2003 else if f = 2 ∧ (i : ℕ) = 0 then e else 0 := rfl
  have hi : (i : ℕ) = 0 ↔ i = 0 := Fin.val_eq_zero_iff
  rw [Paging.links, hmem]
  simp only [hi]
  split_ifs with h1 h2
  · have htotal : (sampleHuge e).pmm.total = samplePaging.pmm.total := rfl
    rw [c2PageTableFromEntry_congr htotal]
    decide +kernel
  · exact c2PageTableFromEntry_of_huge he
  · exact hzero

theorem sampleHuge_wellFormed {e : Pte} (he : e.huge = true) (virt : ℕ) :
    WellFormed .kernel virt (sampleHuge e) := by
  intro root hroot
  obtain rfl : 1 = root := some.inj hroot
  have hlinks := sampleHuge_links he
  have hleaf : ∀ i, (sampleHuge e).links 2 i = none := by
    intro i
    rw [hlinks, if_neg fun h => absurd h.1 (by decide)]
  have hroot : ∀ i g, (sampleHuge e).links 1 i = some g → i = 0 ∧ g = 2 := by
    intro i g hg
    rw [hlinks] at hg
    split_ifs at hg with h
    exact ⟨h.2, (some.inj hg).symm⟩
  have hbelow : ∀ h, Under (sampleHuge e).links 2 2 h → h = 2 := by
    rintro h (hh | ⟨i, g, hg, -⟩)
    · exact hh
    · rw [hleaf] at hg
      cases hg
  have hinv : (sampleHuge e).pmm.Inv := pmmInit_inv (by decide)
  refine ⟨hinv, fun h hh hspare => ?_, fun i g hg hh => ?_, fun g hg => ?_⟩
  · have hbase := Pmm.base_le_of_free hinv hspare.1 hspare.2
    have hlow : h = 1 ∨ h = 2 := by
      rcases hh with hh | ⟨i, g, hg, hh⟩
      · exact .inl hh
      · obtain ⟨-, rfl⟩ := hroot i g hg
        exact .inr (hbelow h hh)
    have hstart : (sampleHuge e).pmm.base = 0x200000 := rfl
    have hsize : h * pageSize = h * 2 ^ 12 := rfl
    omega
  · obtain ⟨-, rfl⟩ := hroot i g hg
    exact absurd (hbelow 1 hh) (by decide)
  · obtain ⟨hpath, rfl⟩ := hroot _ g hg
    refine ⟨⟨fun i k hk => ?_, fun k hk => ?_⟩, fun j k hj hk => ?_⟩
    · rw [hleaf] at hk
      cases hk
    · rw [hleaf] at hk
      cases hk
    · exact absurd ((hroot j k hk).1.trans hpath.symm) hj

theorem paging_map_one_page_sample : MapsOnePage .kernel 0x200000 0x201000 0x3 (sampleHuge 0x83) := by
  have hargs : PageArgs 0x201000 0x3 := ⟨by decide, by decide, by decide, by decide⟩
  refine (paging_map_one_page (sampleHuge_wellFormed (by decide) _) hargs).2 fun _ _ root hroot => ?_
  obtain rfl : 1 = root := some.inj hroot
  have hlink : (sampleHuge 0x83).links 1 (tableIndex 3 0x200000) = some 2 := sampleHuge_links (by decide) _ _
  have hleaf : treeAt (sampleHuge 0x83) 2 2 (tableIndex 2 0x200000) = .leaf 0x83 :=
    treeAt_of_huge (by decide) (by decide)
  rw [treeAt_of_link hlink]
  have hvirt : (mapArgs (sampleHuge 0x83) 0x200000 0x201000 0x3).virt = 0x200000 := rfl
  refine ⟨fun _ _ _ _ hu => absurd hu Bool.false_ne_true, ?_⟩
  rw [hvirt, hleaf]
  generalize (sampleHuge 0x83).pmm.free = n
  have huser : (mapArgs (sampleHuge 0x83) 0x200000 0x201000 0x3).user = false := rfl
  refine exact_leaf huser ⟨fun h => absurd h Nat.one_ne_zero, ?_, ?_, ?_⟩ ?_
  · decide
  · decide
  · decide
  · have hsplit : splitInto (mapArgs (sampleHuge 0x83) 0x200000 0x201000 0x3).nxEnabled 1 0x83
        (tableIndex 1 0x200000) = .leaf (child1g true 0x83 1) := rfl
    rw [hvirt, hsplit]
    refine exact_leaf huser ⟨fun _ => ?_, ?_, ?_, ?_⟩ trivial
    · decide
    · decide
    · decide
    · decide

/-- The other pages of a split page without `PAGE_NX` are executable. -/
theorem paging_map_changes_pages : ¬ ∀ as virt phys flags s, WellFormed as virt s → PageArgs phys flags →
    MapsOnePage as virt phys flags s := by
  intro h
  have hargs : PageArgs 0x201000 0x3 := ⟨by decide, by decide, by decide, by decide⟩
  have hmap := h .kernel 0x200000 0x201000 0x3 (sampleHuge 0x8000000000000083)
    (sampleHuge_wellFormed (by decide) _) hargs
  have hkept := hmap.2 0x1000 fun _ => by decide
  revert hkept
  decide +kernel

end Ridux
