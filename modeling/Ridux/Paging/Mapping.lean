import Ridux.Lib.Radix
import Ridux.Paging.Need
import Ridux.Paging.Tree

/-!
# What `paging_map` does to the tree

* `Shape`: the tables that a mapping passes are linked once, and no table of the space is spare;
* `mapFrom`: `paging_map` from a table on, and `pagingMap_eq`;
* `Enters`: a level was entered, `promote_enters` for a table that was there, `linkNew_enters` for a new one;
* `mapFrom_maps`: the tree ends up as `mapTree` says.
-/

namespace Ridux

open Lib

/-- The path of an address. -/
abbrev pathOf (virt l : ℕ) : Fin 512 := tableIndex l virt

/-- The tables below `f` are in order for a mapping of `virt`. -/
structure Shape (virt : ℕ) (s : Paging) (l f : ℕ) : Prop where
  pmm : s.pmm.Inv
  kept : ∀ h, Under s.links l f h → ¬ Spare s h
  apart : Apart s.links (pathOf virt) l f

/-! ### Trees and memory -/

variable {s s' s₁ : Paging} {virt l f g h k : ℕ} {i j : Fin 512}

theorem links_congr (htotal : s'.pmm.total = s.pmm.total) (hmem : s'.mem f = s.mem f) :
    s'.links f = s.links f := by
  funext i
  unfold Paging.links
  rw [hmem, c2PageTableFromEntry_congr htotal]

theorem treeAt_congr (htotal : s'.pmm.total = s.pmm.total)
    (hmem : ∀ h, Under s.links l f h → s'.mem h = s.mem h) : treeAt s' l f = treeAt s l f := by
  induction l generalizing f with
  | zero =>
    funext i
    simp only [treeAt, hmem f rfl]
  | succ l ih =>
    have hf := hmem f (Under.self _ _ f)
    funext i
    simp only [treeAt, hf, links_congr htotal hf]
    cases hg : s.links f i with
    | none => rfl
    | some g => simp only [ih fun h hh => hmem h (.inr ⟨i, g, hg, hh⟩)]

theorem treeAt_entry_congr (htotal : s'.pmm.total = s.pmm.total) (hentry : s'.mem f i = s.mem f i)
    (hbelow : ∀ g, s.links f i = some g → ∀ h, Under s.links l g h → s'.mem h = s.mem h) :
    treeAt s' (l + 1) f i = treeAt s (l + 1) f i := by
  have hlink : s'.links f i = s.links f i := by
    unfold Paging.links
    rw [hentry, c2PageTableFromEntry_congr htotal]
  simp only [treeAt, hentry, hlink]
  cases hg : s.links f i with
  | none => rfl
  | some g => simp only [treeAt_congr htotal (hbelow g hg)]

theorem Spare.lt_bitmap (hs : Spare s f) (hinv : s.pmm.Inv) : f < 2 ^ 21 := by
  have := hinv.total_le
  have hlt := hs.1
  have hmax : pmmMaxPages = 2 ^ 21 := rfl
  omega

theorem c2PageTableFromEntry_link (hinv : s.pmm.Inv) (hg : g < s.pmm.total) {flags : Pte}
    (hp : flags.present = true) (hh : flags.huge = false) (hlow : flags.extractLsb' 12 40 = 0) :
    c2PageTableFromEntry s (Pte.link g flags) = some g := by
  have hmax : pmmMaxPages = 2 ^ 21 := rfl
  have hle := hinv.total_le
  have hframe : (Pte.link g flags).frame = g := Pte.frame_link (by omega) hlow
  have hbase : dmapBase = 0xFFFF8 * 2 ^ 44 := rfl
  have hsize : g * pageSize = g * 2 ^ 12 := rfl
  have hptr : physToDmap g = g * pageSize + dmapBase := u64_of_lt (by omega)
  have haligned : (g * 2 ^ 12 + dmapBase) % 2 ^ 12 = 0 := by omega
  have hrange : c2PhysFrameInRange s (g * pageSize) = true := by
    unfold c2PhysFrameInRange
    rw [decide_eq_true_eq]
    exact .inr (Nat.mul_lt_mul_of_pos_right hg (by decide))
  have hvalid : c2DmapPageTablePtrValid s (physToDmap g) = true := by
    unfold c2DmapPageTablePtrValid
    rw [decide_eq_true_eq, hptr, Nat.add_sub_cancel]
    exact ⟨by omega, haligned, by omega, hrange⟩
  unfold c2PageTableFromEntry
  rw [Pte.present_link, Pte.huge_link, hframe, hp, hh, hrange, hvalid]
  rfl

/-! ### New tables -/

/-- Take a frame from the pool for a table of `entries`. -/
def Paging.newTable (s : Paging) (g : ℕ) (entries : ℕ → Pte) : Paging :=
  { s with pmm := { s.pmm.claim g 1 with ptBitmap := Function.update s.pmm.ptBitmap g true } }.fill g entries

theorem newTable_inv (hinv : s.pmm.Inv) (hg : Spare s g) (entries : ℕ → Pte) :
    (s.newTable g entries).pmm.Inv := by
  refine (hinv.claim (a := g) (k := 1) (by have := hg.1; omega) fun i h1 h2 => ?_).mark ?_
  · obtain rfl : i = g := by omega
    exact hg.2
  · simp [setBlock]

theorem newTable_spare (entries : ℕ → Pte) (hh : Spare (s.newTable g entries) h) :
    Spare s h ∧ h ≠ g := by
  obtain ⟨hlt, hfree⟩ := hh
  have hfree : (Function.update s.pmm.ptBitmap g true) h = false ∧ setBlock s.pmm.bitmap g 1 h = false := by
    simpa [Pmm.isFree, Paging.newTable, and_comm] using hfree
  obtain ⟨hpt, hbit⟩ := hfree
  have hne : h ≠ g := by
    rintro rfl
    rw [Function.update_self] at hpt
    cases hpt
  rw [Function.update_of_ne hne] at hpt
  refine ⟨⟨hlt, ?_⟩, hne⟩
  unfold Pmm.isFree
  rw [hpt]
  cases hb : s.pmm.bitmap h with
  | false => rfl
  | true =>
    rw [Pmm.setBlock_eq_true_of g 1 hb] at hbit
    cases hbit

theorem newTable_fill (s : Paging) (g : ℕ) (a b : ℕ → Pte) : (s.newTable g a).fill g b = s.newTable g b := by
  simp only [Paging.newTable, Paging.fill, Function.update_idem]

theorem allocPageTable_eq (hinv : s.pmm.Inv) :
    (∃ g, Spare s g ∧ 0 < s.pmm.free ∧ allocPageTable s = (some g, s.newTable g fun _ => 0)) ∨
      s.pmm.free = 0 ∧ allocPageTable s = (none, s) := by
  rcases allocPageTable_cases hinv with ⟨g, hg, he⟩ | ⟨hnone, he⟩
  · exact .inl ⟨g, hg, Pmm.free_pos hinv hg.1 hg.2, he⟩
  · exact .inr ⟨Pmm.free_eq_zero hinv hnone, he⟩

/-! ### Entering a level -/

/-- The entry for a table that `paging_map` makes. -/
def newLink (g : ℕ) (user : Bool) : Pte :=
  Pte.link g (pagePresent ||| pageWritable ||| if user then pageUser else 0)

/-- A new table of `entries` is linked. -/
def Paging.linkNew (s : Paging) (f i g : ℕ) (user : Bool) (entries : ℕ → Pte) : Paging :=
  (s.newTable g entries).write f i (newLink g user)

/-- The entry that an existing table gets. -/
def promoted (e : Pte) (user : Bool) : Pte := if user ∧ ¬ e.user then e ||| pageUser else e

/-- How `paging_map` enters the table below an entry. -/
def enter (l f i : ℕ) (user : Bool) : Code Paging ℕ :=
  if l < 2 then do
    pagingSplitHuge (if l = 0 then child2m else child1g) f i user
    descend f i user
  else descend f i user

/-- `paging_map`, from a table at level `l` on. -/
def mapFrom (virt phys : ℕ) (flags : Pte) : ℕ → ℕ → Code Paging Unit
  | 0, f => .change fun s => s.write f (tableIndex 0 virt)
      (BitVec.ofNat 64 phys ||| c2SanitizePageFlags s.nxEnabled flags)
  | l + 1, f => do
    let g ← enter l f (tableIndex (l + 1) virt) flags.user
    mapFrom virt phys flags l g

theorem Code.bind_assoc {σ α β γ : Type} (c : Code σ α) (f : α → Code σ β) (g : β → Code σ γ) :
    ((c >>= f) >>= g) = (c >>= fun a => f a >>= g) := by
  funext s
  simp only [Code.bind_run]
  rcases c s with ⟨_ | a, s'⟩ <;> rfl

theorem pagingMap_eq (as : Space) (virt phys : ℕ) (flags : Pte) : pagingMap as virt phys flags = (do
    .check (c2AddressSpaceReady as)
    .check fun _ => c2UserPagingEditAllowed as virt
    let pml4 ← .find fun s => s.pml4 as
    mapFrom virt phys flags 3 pml4) := by
  have hlast : ∀ pt, mapFrom virt phys flags 0 pt = .change fun s => s.write pt (ptIndex virt)
      (BitVec.ofNat 64 phys ||| c2SanitizePageFlags s.nxEnabled flags) := fun _ => rfl
  have h₁ : ∀ pd, mapFrom virt phys flags 1 pd = (do
      pagingSplit2mHuge pd (pdIndex virt) flags.user
      let pt ← descend pd (pdIndex virt) flags.user
      mapFrom virt phys flags 0 pt) := fun _ => Code.bind_assoc ..
  have h₂ : ∀ pdpt, mapFrom virt phys flags 2 pdpt = (do
      pagingSplit1gHuge pdpt (pdptIndex virt) flags.user
      let pd ← descend pdpt (pdptIndex virt) flags.user
      mapFrom virt phys flags 1 pd) := fun _ => Code.bind_assoc ..
  have h₃ : ∀ pml4, mapFrom virt phys flags 3 pml4 = (do
      let pdpt ← descend pml4 (pml4Index virt) flags.user
      mapFrom virt phys flags 2 pdpt) := fun _ => rfl
  simp only [h₃, h₂, h₁, hlast]
  rfl

/-! ### The entries for tables -/

theorem getLsbD_ofNat_high {i : ℕ} (hf : f < 2 ^ 21) (hi : 33 ≤ i) :
    (BitVec.ofNat 64 (f * pageSize)).getLsbD i = false := by
  have hsize : f * pageSize = f * 2 ^ 12 := rfl
  have hlt : f * pageSize < 2 ^ i := by
    calc
      f * pageSize < 2 ^ 33 := by omega
      _ ≤ 2 ^ i := Nat.pow_le_pow_right (by decide) hi
  rw [BitVec.getLsbD_ofNat, Nat.testBit_lt_two_pow hlt, Bool.and_false]

theorem newLink_present (g : ℕ) (user : Bool) : (newLink g user).present = true := by
  rw [newLink, Pte.present_link]
  cases user <;> decide

theorem newLink_user (g : ℕ) (user : Bool) : (newLink g user).user = user := by
  rw [newLink, Pte.link, Pte.user_or, Pte.user, Pte.getLsbD_ofNat_page g (by decide), Bool.false_or]
  cases user <;> decide

theorem rights_newLink (hg : g < 2 ^ 21) (user : Bool) :
    Rights.of (newLink g user) = .table user := by
  have hw : (newLink g user).writable = true := by
    rw [newLink, Pte.link, Pte.writable, BitVec.getLsbD_or, Pte.getLsbD_ofNat_page g (by decide),
      Bool.false_or]
    cases user <;> decide
  have hx : (newLink g user).noExec = false := by
    rw [newLink, Pte.link, Pte.noExec, BitVec.getLsbD_or, getLsbD_ofNat_high hg (by decide), Bool.false_or]
    cases user <;> decide
  rw [Rights.of, hw, newLink_user, hx]
  rfl

theorem links_newLink (hinv : s.pmm.Inv) (hg : g < s.pmm.total) (user : Bool) :
    c2PageTableFromEntry s (newLink g user) = some g := by
  refine c2PageTableFromEntry_link hinv hg ?_ ?_ ?_
  · cases user <;> decide
  · cases user <;> decide
  · cases user <;> decide

theorem promoted_links (s : Paging) (e : Pte) (user : Bool) :
    c2PageTableFromEntry s (promoted e user) = c2PageTableFromEntry s e := by
  unfold promoted
  split_ifs
  · exact c2PageTableFromEntry_user s e
  · rfl

theorem promoted_present (e : Pte) (user : Bool) : (promoted e user).present = e.present := by
  unfold promoted
  split_ifs
  · rw [Pte.present_or, show Pte.present pageUser = false by decide, Bool.or_false]
  · rfl

theorem promoted_huge (e : Pte) (user : Bool) : (promoted e user).huge = e.huge := by
  unfold promoted
  split_ifs
  · rw [Pte.huge_or, show Pte.huge pageUser = false by decide, Bool.or_false]
  · rfl

theorem rights_promoted (e : Pte) (user : Bool) :
    Rights.of (promoted e user) = (Rights.of e).promote user := by
  unfold promoted
  by_cases h : user = true ∧ ¬ e.user = true
  · rw [if_pos h]
    have hw : (e ||| pageUser).writable = e.writable := by simp [Pte.writable, pageUser]
    have hx : (e ||| pageUser).noExec = e.noExec := by simp [Pte.noExec, pageUser]
    have hu : (e ||| pageUser).user = true := by
      rw [Pte.user_or, show Pte.user pageUser = true by decide, Bool.or_true]
    rw [Rights.of, hw, hu, hx, h.1, Rights.promote, Bool.or_true]
    rfl
  · rw [if_neg h]
    have hu : (e.user || user) = e.user := by
      cases hue : e.user with
      | true => rfl
      | false =>
        cases hus : user with
        | false => rfl
        | true => exact absurd ⟨hus, by rw [hue]; decide⟩ h
    rw [Rights.promote, Rights.of, hu]

/-! ### The runs -/

/-- The state after an entry was promoted. -/
def Paging.promote (s : Paging) (f i : ℕ) (user : Bool) : Paging :=
  if user ∧ ¬ (s.mem f i).user then s.write f i (s.mem f i ||| pageUser) else s

theorem descend_of_present {i : ℕ} (user : Bool) (hp : (s.mem f i).present = true) :
    descend f i user s = (c2PageTableFromEntry s (s.mem f i), s.promote f i user) := by
  have hrun : descend f i user s = (do
      (if user ∧ ¬ (s.mem f i).user then writeEntry f i (s.mem f i ||| pageUser) else pure ())
      let e ← readEntry f i
      follow e : Code Paging ℕ) s := by
    unfold descend ensureTable
    simp only [Code.bind_run, readEntry, Code.read, hp, not_true_eq_false, if_false]
  rw [hrun]
  unfold Paging.promote
  split_ifs
  · have hentry : (s.write f i (s.mem f i ||| pageUser)).mem f i = s.mem f i ||| pageUser := by
      simp [Paging.write]
    show (c2PageTableFromEntry (s.write f i (s.mem f i ||| pageUser))
      ((s.write f i (s.mem f i ||| pageUser)).mem f i), _) = _
    rw [hentry, c2PageTableFromEntry_user]
    rfl
  · rfl

theorem linkNew_entry (s : Paging) (f i g : ℕ) (user : Bool) (entries : ℕ → Pte) :
    (s.linkNew f i g user entries).mem f i = newLink g user := by
  simp [Paging.linkNew, Paging.write]

theorem linkNew_linked (hinv : s.pmm.Inv) (hg : Spare s g) (f i : ℕ) (user : Bool) (entries : ℕ → Pte) :
    c2PageTableFromEntry (s.linkNew f i g user entries) (newLink g user) = some g :=
  @links_newLink (s.newTable g entries) g (newTable_inv hinv hg entries) hg.1 user

theorem descend_of_absent {i : ℕ} (user : Bool) (hinv : s.pmm.Inv) (hp : (s.mem f i).present = false) :
    (∃ g, Spare s g ∧ 0 < s.pmm.free ∧
      descend f i user s = (some g, s.linkNew f i g true fun _ => 0)) ∨
    s.pmm.free = 0 ∧ descend f i user s = (none, s) := by
  have hrun : descend f i user s = (do
      let g ← allocPageTable
      writeEntry f i (Pte.link g (pagePresent ||| pageWritable ||| pageUser))
      let e ← readEntry f i
      follow e : Code Paging ℕ) s := by
    unfold descend ensureTable
    simp only [Code.bind_run, readEntry, Code.read, hp, Bool.false_eq_true, not_false_eq_true, if_true]
    rcases allocPageTable s with ⟨_ | g, s'⟩ <;> rfl
  rcases allocPageTable_eq hinv with ⟨g, hg, hpos, he⟩ | ⟨hzero, he⟩
  · refine .inl ⟨g, hg, hpos, ?_⟩
    have hlink : c2PageTableFromEntry (s.linkNew f i g true fun _ => 0)
        ((s.linkNew f i g true fun _ => 0).mem f i) = some g := by
      rw [linkNew_entry]
      exact linkNew_linked hinv hg f i true _
    rw [hrun, Code.bind_run, he]
    exact Prod.ext hlink rfl
  · refine .inr ⟨hzero, ?_⟩
    rw [hrun, Code.bind_run, he]

theorem split_of_huge {i : ℕ} (child : Bool → Pte → ℕ → Pte) (user : Bool) (hinv : s.pmm.Inv)
    (hh : (s.mem f i).huge = true) :
    (∃ g, Spare s g ∧ 0 < s.pmm.free ∧ c2PhysFrameInRange s ((s.mem f i).frame * pageSize) = true ∧
      pagingSplitHuge child f i user s = (some (), s.linkNew f i g user (child s.nxEnabled (s.mem f i)))) ∨
    (s.pmm.free = 0 ∨ ¬ c2PhysFrameInRange s ((s.mem f i).frame * pageSize) = true) ∧
      pagingSplitHuge child f i user s = (none, s) := by
  have hrun : pagingSplitHuge child f i user s = (do
      .check fun s' => c2PhysFrameInRange s' ((s.mem f i).frame * pageSize)
      let g ← allocPageTable
      .change fun s' => s'.fill g (child s'.nxEnabled (s.mem f i))
      writeEntry f i (newLink g user) : Code Paging Unit) s := by
    unfold pagingSplitHuge
    simp only [Code.bind_run, readEntry, Code.read, hh, not_true_eq_false, if_false]
    rfl
  rw [hrun, Code.check_bind_run]
  cases hrange : c2PhysFrameInRange s ((s.mem f i).frame * pageSize) with
  | false => exact .inr ⟨.inr (by decide), rfl⟩
  | true =>
    rw [if_pos rfl]
    rcases allocPageTable_eq hinv with ⟨g, hg, hpos, he⟩ | ⟨hzero, he⟩
    · refine .inl ⟨g, hg, hpos, rfl, ?_⟩
      rw [Code.bind_run, he]
      show (some (), ((s.newTable g fun _ => 0).fill g (child s.nxEnabled (s.mem f i))).write f i _) = _
      rw [newTable_fill]
      rfl
    · refine .inr ⟨.inl hzero, ?_⟩
      rw [Code.bind_run, he]

/-- The entries that a huge entry at level `l + 1` is split into. -/
def splitEntries (nxEnabled : Bool) (l : ℕ) (e : Pte) : ℕ → Pte :=
  (if l = 0 then child2m else child1g) nxEnabled e

theorem enter_of_huge {i : ℕ} (user : Bool) (hinv : s.pmm.Inv) (hl : l < 2) (hh : (s.mem f i).huge = true) :
    (∃ g, Spare s g ∧ 0 < s.pmm.free ∧ c2PhysFrameInRange s ((s.mem f i).frame * pageSize) = true ∧
      enter l f i user s = (some g, s.linkNew f i g user (splitEntries s.nxEnabled l (s.mem f i)))) ∨
    (s.pmm.free = 0 ∨ ¬ c2PhysFrameInRange s ((s.mem f i).frame * pageSize) = true) ∧
      enter l f i user s = (none, s) := by
  unfold enter
  rw [if_pos hl, Code.bind_run]
  rcases split_of_huge (if l = 0 then child2m else child1g) user hinv hh with
    ⟨g, hg, hpos, hrange, he⟩ | ⟨hfail, he⟩
  · refine .inl ⟨g, hg, hpos, hrange, ?_⟩
    rw [he]
    have hentry := linkNew_entry s f i g user (splitEntries s.nxEnabled l (s.mem f i))
    have hp : ((s.linkNew f i g user (splitEntries s.nxEnabled l (s.mem f i))).mem f i).present = true := by
      rw [hentry, newLink_present]
    have hsame : (s.linkNew f i g user (splitEntries s.nxEnabled l (s.mem f i))).promote f i user =
        s.linkNew f i g user (splitEntries s.nxEnabled l (s.mem f i)) := by
      unfold Paging.promote
      rw [hentry, newLink_user, if_neg fun h => h.2 h.1]
    show descend f i user (s.linkNew f i g user (splitEntries s.nxEnabled l (s.mem f i))) = _
    rw [descend_of_present user hp, hsame, hentry, linkNew_linked hinv hg]
  · exact .inr ⟨hfail, by rw [he]⟩

theorem enter_of_not_huge {i : ℕ} (user : Bool) (hh : (s.mem f i).huge = false ∨ 2 ≤ l) :
    enter l f i user s = descend f i user s := by
  unfold enter
  by_cases hl : l < 2
  · have hh := hh.resolve_right (by omega)
    rw [if_pos hl, Code.bind_run]
    have hrun : pagingSplitHuge (if l = 0 then child2m else child1g) f i user s = (some (), s) := by
      unfold pagingSplitHuge
      simp only [Code.bind_run, readEntry, Code.read, hh, Bool.false_eq_true, not_false_eq_true, if_true]
      rfl
    rw [hrun]
  · rw [if_neg hl]

/-! ### A level entered -/

/-- Between two states only spare frames and the tables of `on` were written. -/
structure Paging.Wrote (s s₁ : Paging) (on : ℕ → Prop) : Prop where
  total : s₁.pmm.total = s.pmm.total
  pml4 : s₁.pml4 = s.pml4
  nxEnabled : s₁.nxEnabled = s.nxEnabled
  pmm : s₁.pmm.Inv
  spare : ∀ h, Spare s₁ h → Spare s h
  mem : ∀ h, ¬ on h → ¬ Spare s h → s₁.mem h = s.mem h

/-- From `s` to `s₁` the entry of `f` on the path was made to link `g`, with rights `r` and the tree `sub`. -/
structure Enters (virt : ℕ) (s s₁ : Paging) (l f g : ℕ) (r : Rights) (sub : Fin 512 → PageTree) : Prop where
  wrote : s.Wrote s₁ (· = f)
  shape : Shape virt s₁ (l + 1) f
  link : s₁.links f (tableIndex (l + 1) virt) = some g
  rights : Rights.of (s₁.mem f (tableIndex (l + 1) virt)) = r
  below : treeAt s₁ l g = sub
  others : ∀ j, j ≠ tableIndex (l + 1) virt → treeAt s₁ (l + 1) f j = treeAt s (l + 1) f j
  path : ∀ h, OnPath s₁.links (pathOf virt) (l + 1) f h → OnPath s.links (pathOf virt) (l + 1) f h ∨ Spare s h

theorem Shape.below (hs : Shape virt s (l + 1) f) (hg : s.links f (tableIndex (l + 1) virt) = some g) :
    Shape virt s l g :=
  ⟨hs.pmm, fun h hh => hs.kept h (.inr ⟨_, g, hg, hh⟩), (hs.apart.2 g hg).1⟩

theorem write_mem_of_ne {e : Pte} (hne : h ≠ f) : (s.write f k e).mem h = s.mem h := by
  simp [Paging.write, hne]

theorem write_mem_entry {e : Pte} {m : ℕ} (hne : m ≠ k) : (s.write f k e).mem f m = s.mem f m := by
  simp [Paging.write, hne]

theorem promote_eq (s : Paging) (f i : ℕ) (user : Bool) :
    s.promote f i user = s.write f i (promoted (s.mem f i) user) := by
  unfold Paging.promote promoted
  split_ifs with h
  · rfl
  · simp only [Paging.write, Function.update_eq_self]

theorem promote_links (s : Paging) (f : ℕ) (i : Fin 512) (user : Bool) :
    (s.promote f i user).links = s.links := by
  rw [promote_eq]
  funext h j
  unfold Paging.links
  by_cases hh : h = f
  · subst hh
    by_cases hj : j = i
    · subst hj
      have hentry : (s.write h j (promoted (s.mem h j) user)).mem h j = promoted (s.mem h j) user := by
        simp [Paging.write]
      rw [hentry]
      exact promoted_links s _ user
    · rw [write_mem_entry fun hk => hj (Fin.ext hk)]
      rfl
  · rw [write_mem_of_ne hh]
    rfl

theorem promote_mem_of_ne {i : ℕ} (user : Bool) (hne : h ≠ f) : (s.promote f i user).mem h = s.mem h := by
  rw [promote_eq, write_mem_of_ne hne]

theorem promote_pmm (s : Paging) (f i : ℕ) (user : Bool) : (s.promote f i user).pmm = s.pmm := by
  rw [promote_eq]
  rfl

theorem promote_entry (s : Paging) (f i : ℕ) (user : Bool) :
    (s.promote f i user).mem f i = promoted (s.mem f i) user := by
  rw [promote_eq]
  simp [Paging.write]

theorem promote_wrote (hs : Shape virt s l f) (i : ℕ) (user : Bool) :
    s.Wrote (s.promote f i user) (· = f) := by
  have hpmm := promote_pmm s f i user
  refine ⟨by rw [hpmm], ?_, ?_, ?_, fun h hh => ?_, fun h hne _ => promote_mem_of_ne user hne⟩
  · rw [promote_eq]
    funext as
    cases as <;> rfl
  · rw [promote_eq]
    rfl
  · rw [hpmm]
    exact hs.pmm
  · unfold Spare at hh ⊢
    rw [hpmm] at hh
    exact hh

theorem promote_below (hs : Shape virt s (l + 1) f) (i : ℕ) (user : Bool) {g' : ℕ}
    (hj : s.links f j = some g') (hh : Under s.links l g' h) : (s.promote f i user).mem h = s.mem h := by
  apply promote_mem_of_ne
  rintro rfl
  exact hs.apart.1 j g' hj hh

theorem promote_others (hs : Shape virt s (l + 1) f) (i : Fin 512) (user : Bool) (hj : j ≠ i) :
    treeAt (s.promote f i user) (l + 1) f j = treeAt s (l + 1) f j := by
  refine treeAt_entry_congr (by rw [promote_pmm]) ?_ fun g' hg' h => promote_below hs i user hg'
  rw [promote_eq]
  exact write_mem_entry fun hk => hj (Fin.ext hk)

theorem promote_enters (hs : Shape virt s (l + 1) f) (hg : s.links f (tableIndex (l + 1) virt) = some g)
    (user : Bool) : Enters virt s (s.promote f (tableIndex (l + 1) virt) user) l f g
      ((Rights.of (s.mem f (tableIndex (l + 1) virt))).promote user) (treeAt s l g) := by
  have hlinks := promote_links s f (tableIndex (l + 1) virt) user
  have hwrote := promote_wrote hs (tableIndex (l + 1) virt) user
  refine ⟨hwrote, ⟨hwrote.pmm, fun h hh => ?_, ?_⟩, ?_, ?_, ?_, fun j hj => promote_others hs _ user hj,
    fun h hh => .inl ?_⟩
  · rw [hlinks] at hh
    exact fun hsp => hs.kept h hh (hwrote.spare h hsp)
  · rw [hlinks]
    exact hs.apart
  · rw [hlinks]
    exact hg
  · rw [promote_entry, rights_promoted]
  · exact treeAt_congr (by rw [promote_pmm]) fun h => promote_below hs _ user hg
  · rw [hlinks] at hh
    exact hh

theorem promote_invalid (hs : Shape virt s (l + 1) f) (user : Bool) (hp : (s.mem f i).present = true)
    (hh : (s.mem f i).huge = false ∨ 2 ≤ l) (hg : s.links f i = none) :
    treeAt (s.promote f i user) (l + 1) f = treeAt s (l + 1) f := by
  funext j
  by_cases hj : j = i
  · subst hj
    rw [treeAt_of_invalid hp hh hg]
    refine treeAt_of_invalid ?_ ?_ ?_
    · rw [promote_entry, promoted_present, hp]
    · rw [promote_entry, promoted_huge]
      exact hh
    · rw [promote_links]
      exact hg
  · exact promote_others hs i user hj

theorem linkNew_mem_of_ne {i : ℕ} {user : Bool} {entries : ℕ → Pte} (hf : h ≠ f) (hg : h ≠ g) :
    (s.linkNew f i g user entries).mem h = s.mem h := by
  rw [Paging.linkNew, write_mem_of_ne hf, Paging.newTable, Paging.fill_mem_of_ne _ hg]

theorem linkNew_mem_table {i : ℕ} {user : Bool} {entries : ℕ → Pte} (hgf : g ≠ f) :
    (s.linkNew f i g user entries).mem g = entries := by
  rw [Paging.linkNew, write_mem_of_ne hgf, Paging.newTable, Paging.fill_mem_self]

theorem linkNew_enters (hs : Shape virt s (l + 1) f) (hg : Spare s g)
    (habsent : s.links f (tableIndex (l + 1) virt) = none) {user : Bool} {entries : ℕ → Pte}
    (hempty : 0 < l → ∀ j : Fin 512, c2PageTableFromEntry s (entries j) = none) :
    Enters virt s (s.linkNew f (tableIndex (l + 1) virt) g user entries) l f g (.table user)
      (treeAt (s.linkNew f (tableIndex (l + 1) virt) g user entries) l g) := by
  have hentry := linkNew_entry s f (tableIndex (l + 1) virt) g user entries
  have hlink := linkNew_linked hs.pmm hg f (tableIndex (l + 1) virt) user entries
  have hkept : ∀ h, Under s.links (l + 1) f h → h ≠ g := by
    rintro h hh rfl
    exact hs.kept h hh hg
  have hgf : g ≠ f := (hkept f (Under.self _ _ _)).symm
  generalize hi : tableIndex (l + 1) virt = i at *
  have hpath : pathOf virt (l + 1) = i := hi
  have htotal : (s.linkNew f i g user entries).pmm.total = s.pmm.total := rfl
  have hother : ∀ j, j ≠ i → (s.linkNew f i g user entries).mem f j = s.mem f j := by
    intro j hj
    rw [Paging.linkNew, write_mem_entry fun hk => hj (Fin.ext hk), Paging.newTable,
      Paging.fill_mem_of_ne _ hgf.symm]
  have hlinked : Linked s.links (s.linkNew f i g user entries).links l f i g := by
    refine ⟨habsent, ?_, fun hpos j => ?_, fun k hk hkg => ?_⟩
    · funext j
      by_cases hj : j = i
      · subst hj
        rw [Function.update_self, Paging.links, hentry]
        exact hlink
      · rw [Function.update_of_ne hj, Paging.links, hother j hj, c2PageTableFromEntry_congr htotal]
        rfl
    · rw [Paging.links, linkNew_mem_table hgf, c2PageTableFromEntry_congr htotal]
      exact hempty hpos j
    · exact links_congr htotal (linkNew_mem_of_ne hk hkg)
  have honPath : Linked s.links (s.linkNew f i g user entries).links l f (pathOf virt (l + 1)) g := by
    rw [hpath]
    exact hlinked
  obtain ⟨hapart, hunder⟩ := Apart.fresh honPath (fun hu => hkept g hu rfl) hs.apart
  have hspare : ∀ h, Spare (s.linkNew f i g user entries) h → Spare s h ∧ h ≠ g :=
    fun h => newTable_spare entries
  have hinv : (s.linkNew f i g user entries).pmm.Inv := newTable_inv hs.pmm hg entries
  have hmem : ∀ h, h ≠ f → ¬ Spare s h → (s.linkNew f i g user entries).mem h = s.mem h := by
    intro h hf hh
    refine linkNew_mem_of_ne hf ?_
    rintro rfl
    exact hh hg
  refine ⟨⟨htotal, ?_, rfl, hinv, fun h hh => (hspare h hh).1, hmem⟩,
    ⟨hinv, fun h hh hsp => ?_, hapart⟩, ?_, ?_, rfl, fun j hj => ?_, fun h hh => ?_⟩
  · funext as
    cases as <;> rfl
  · rcases (hunder h).1 hh with hh | rfl
    · exact hs.kept h hh (hspare h hsp).1
    · exact (hspare h hsp).2 rfl
  · rw [hi, Paging.links, hentry]
    exact hlink
  · rw [hi, hentry, rights_newLink (hg.lt_bitmap hs.pmm)]
  · rw [hi] at hj
    refine treeAt_entry_congr htotal (hother j hj) fun g' hj' h hh => hmem h ?_ ?_
    · rintro rfl
      exact hs.apart.1 j g' hj' hh
    · exact hs.kept h (.inr ⟨j, g', hj', hh⟩)
  · rcases hh with hh | ⟨g', hg', hh⟩
    · exact .inl (.inl hh)
    · rw [hpath, Paging.links, hentry, hlink] at hg'
      obtain rfl := Option.some.inj hg'
      exact .inr (hlinked.under_fresh.1 hh.under ▸ hg)

/-! ### What the new tables hold -/

theorem treeAt_of_zero (h : s.mem f = fun _ => 0) : treeAt s l f = fun _ => .absent := by
  funext i
  have hzero : s.mem f i = 0#64 := by rw [h]; rfl
  cases l with
  | zero =>
    rw [treeAt, hzero]
    rfl
  | succ l => exact treeAt_of_absent (by rw [hzero]; rfl) (.inl (by rw [hzero]; rfl))

theorem huge_child1g {nx : Bool} {e : Pte} (hh : e.huge = true) (i : ℕ) : (child1g nx e i).huge = true := by
  have hlow : (e &&& 0xFFF).huge = e.huge := by simp [Pte.huge]
  rw [child1g, Pte.huge_or, hlow, hh, Bool.or_true]

theorem c2PageTableFromEntry_of_huge {e : Pte} (hh : e.huge = true) : c2PageTableFromEntry s e = none := by
  unfold c2PageTableFromEntry
  rw [if_pos hh, ite_self]

theorem c2PageTableFromEntry_of_absent {e : Pte} (hp : e.present = false) :
    c2PageTableFromEntry s e = none := by
  unfold c2PageTableFromEntry
  rw [if_pos (by rw [hp]; decide)]

theorem treeAt_of_split {nx : Bool} {e : Pte} (hl : l < 2) (hh : e.huge = true)
    (h : s.mem f = splitEntries nx l e) : treeAt s l f = splitInto nx l e := by
  funext i
  cases l with
  | zero =>
    rw [treeAt, h]
    rfl
  | succ l =>
    obtain rfl : l = 0 := by omega
    have hentry : s.mem f i = child1g nx e i := by rw [h]; rfl
    have hchild : (s.mem f i).huge = true := by rw [hentry, huge_child1g hh]
    rw [treeAt_of_huge (by decide) hchild, hentry]
    rfl

/-! ### `paging_map` and `mapTree` -/

/-- What a call of `paging_map` is to do. -/
def mapArgs (s : Paging) (virt phys : ℕ) (flags : Pte) : MapArgs where
  virt := virt
  entry := BitVec.ofNat 64 phys ||| c2SanitizePageFlags s.nxEnabled flags
  user := flags.user
  nxEnabled := s.nxEnabled
  inRange e := c2PhysFrameInRange s (e.frame * pageSize)

theorem Paging.Wrote.mapArgs_eq {on : ℕ → Prop} (h : s.Wrote s₁ on) (virt phys : ℕ) (flags : Pte) :
    mapArgs s₁ virt phys flags = mapArgs s virt phys flags := by
  unfold mapArgs
  simp only [h.nxEnabled, c2PhysFrameInRange_congr h.total]

theorem Paging.Wrote.refl (hs : Shape virt s l f) (on : ℕ → Prop) : s.Wrote s on :=
  ⟨rfl, rfl, rfl, hs.pmm, fun _ h => h, fun _ _ _ => rfl⟩

/-- Entering a level, or failing to, does what `mapTree` says. -/
theorem enter_cases (hs : Shape virt s (l + 1) f) (phys : ℕ) (flags : Pte) :
    (∃ g s₁ r sub, enter l f (tableIndex (l + 1) virt) flags.user s = (some g, s₁) ∧
      Enters virt s s₁ l f g r sub ∧
      mapTree (mapArgs s virt phys flags) (l + 1) s.pmm.free (treeAt s (l + 1) f (tableIndex (l + 1) virt)) =
        (mapTree (mapArgs s virt phys flags) l s₁.pmm.free (sub (tableIndex l virt))).within r sub
          (tableIndex l virt)) ∨
    ∃ s₁, enter l f (tableIndex (l + 1) virt) flags.user s = (none, s₁) ∧ s.Wrote s₁ (· = f) ∧
      s₁.pmm.free = s.pmm.free ∧ treeAt s₁ (l + 1) f = treeAt s (l + 1) f ∧
      mapTree (mapArgs s virt phys flags) (l + 1) s.pmm.free (treeAt s (l + 1) f (tableIndex (l + 1) virt)) =
        ⟨false, s.pmm.free, treeAt s (l + 1) f (tableIndex (l + 1) virt)⟩ := by
  by_cases hleaf : (s.mem f (tableIndex (l + 1) virt)).huge = true ∧ l < 2
  · -- a huge entry is split
    obtain ⟨hh, hl⟩ := hleaf
    rw [treeAt_of_huge hl hh]
    rcases enter_of_huge flags.user hs.pmm hl hh with ⟨g, hg, hpos, hrange, he⟩ | ⟨hfail, he⟩
    · have hnone : s.links f (tableIndex (l + 1) virt) = none := c2PageTableFromEntry_of_huge hh
      have henters := @linkNew_enters _ _ _ _ _ hs hg hnone flags.user
        (splitEntries s.nxEnabled l (s.mem f (tableIndex (l + 1) virt))) fun hpos j => by
          obtain rfl : l = 1 := by omega
          exact c2PageTableFromEntry_of_huge (@huge_child1g s.nxEnabled _ hh j)
      rw [treeAt_of_split hl hh (linkNew_mem_table ?_)] at henters
      · refine .inl ⟨g, _, _, _, he, henters, ?_⟩
        have hgo : ¬(s.pmm.free = 0 ∨ ¬ (mapArgs s virt phys flags).inRange
            (s.mem f (tableIndex (l + 1) virt)) = true) := by
          rintro (hzero | hout)
          · omega
          · exact hout hrange
        simp only [mapTree]
        rw [if_neg hgo]
        rfl
      · rintro rfl
        exact hs.kept _ (Under.self _ _ _) hg
    · refine .inr ⟨s, he, .refl hs _, rfl, rfl, ?_⟩
      have hstop : s.pmm.free = 0 ∨ ¬ (mapArgs s virt phys flags).inRange
          (s.mem f (tableIndex (l + 1) virt)) = true := hfail
      simp only [mapTree]
      rw [if_pos hstop]
  have hhuge : (s.mem f (tableIndex (l + 1) virt)).huge = false ∨ 2 ≤ l := by
    by_cases hl : l < 2
    · refine .inl ?_
      rw [← Bool.not_eq_true]
      exact fun hh => hleaf ⟨hh, hl⟩
    · exact .inr (by omega)
  rw [enter_of_not_huge flags.user hhuge]
  cases hp : (s.mem f (tableIndex (l + 1) virt)).present with
  | false =>
    -- an absent entry gets a new table
    rw [treeAt_of_absent hp hhuge]
    rcases descend_of_absent flags.user hs.pmm hp with ⟨g, hg, hpos, he⟩ | ⟨hzero, he⟩
    · have hnone : s.links f (tableIndex (l + 1) virt) = none := c2PageTableFromEntry_of_absent hp
      have henters := @linkNew_enters _ _ _ _ _ hs hg hnone true (fun _ => 0) fun _ _ =>
        c2PageTableFromEntry_of_absent rfl
      rw [treeAt_of_zero (linkNew_mem_table ?_)] at henters
      · refine .inl ⟨g, _, _, _, he, henters, ?_⟩
        simp only [mapTree]
        rw [if_neg (by omega)]
        rfl
      · rintro rfl
        exact hs.kept _ (Under.self _ _ _) hg
    · refine .inr ⟨s, he, .refl hs _, rfl, rfl, ?_⟩
      simp only [mapTree]
      rw [if_pos hzero]
  | true =>
    rw [descend_of_present flags.user hp]
    cases hlink : s.links f (tableIndex (l + 1) virt) with
    | some g =>
      -- a table that is there gets `PAGE_USER`
      rw [treeAt_of_link hlink]
      refine .inl ⟨g, _, _, _, by rw [← hlink]; rfl, promote_enters hs hlink flags.user, ?_⟩
      rw [promote_pmm]
      rfl
    | none =>
      -- an entry that leads nowhere
      rw [treeAt_of_invalid hp hhuge hlink]
      exact .inr ⟨_, by rw [← hlink]; rfl, promote_wrote hs _ _, by rw [promote_pmm],
        promote_invalid hs flags.user hp hhuge hlink, rfl⟩

/-- What a run of `mapFrom` from a table at level `l` on comes to. -/
structure Maps (q : MapArgs) (s : Paging) (l f : ℕ) (res : Option Unit × Paging) : Prop where
  done : res.1.isSome = (mapTree q l s.pmm.free (treeAt s l f (tableIndex l q.virt))).done
  frames : res.2.pmm.free = (mapTree q l s.pmm.free (treeAt s l f (tableIndex l q.virt))).frames
  tree : treeAt res.2 l f = Function.update (treeAt s l f) (tableIndex l q.virt)
    (mapTree q l s.pmm.free (treeAt s l f (tableIndex l q.virt))).tree
  wrote : s.Wrote res.2 (OnPath s.links (pathOf q.virt) l f)

theorem Enters.maps {q : MapArgs} {r : Rights} {sub : Fin 512 → PageTree} {res : Option Unit × Paging}
    (he : Enters q.virt s s₁ l f g r sub) (hm : Maps q s₁ l g res)
    (hmap : mapTree q (l + 1) s.pmm.free (treeAt s (l + 1) f (tableIndex (l + 1) q.virt)) =
      (mapTree q l s₁.pmm.free (sub (tableIndex l q.virt))).within r sub (tableIndex l q.virt)) :
    Maps q s (l + 1) f res := by
  obtain ⟨hself, hpath⟩ := he.shape.apart
  obtain ⟨-, hothers⟩ := hpath g he.link
  have hwrote := hm.wrote
  -- the run wrote the tables on the path below `g` and spare frames
  have hmem : ∀ h, Under s₁.links (l + 1) f h → ¬ OnPath s₁.links (pathOf q.virt) l g h →
      res.2.mem h = s₁.mem h :=
    fun h hh hne => hwrote.mem h hne (he.shape.kept h hh)
  have hf : res.2.mem f = s₁.mem f :=
    hmem f (Under.self _ _ _) fun hon => hself _ g he.link hon.under
  have hbelow := he.below
  refine ⟨?_, ?_, ?_, ⟨hwrote.total.trans he.wrote.total, hwrote.pml4.trans he.wrote.pml4,
    hwrote.nxEnabled.trans he.wrote.nxEnabled, hwrote.pmm, fun h hh => he.wrote.spare h (hwrote.spare h hh),
    fun h hne hsp => ?_⟩⟩
  · rw [hm.done, hmap, hbelow]
    rfl
  · rw [hm.frames, hmap, hbelow]
    rfl
  · rw [hmap]
    funext j
    by_cases hj : j = tableIndex (l + 1) q.virt
    · subst hj
      have hlink : res.2.links f (tableIndex (l + 1) q.virt) = some g := by
        rw [links_congr hwrote.total hf]
        exact he.link
      rw [Function.update_self, treeAt_of_link hlink, hf, he.rights, hm.tree, hbelow]
      rfl
    · rw [Function.update_of_ne hj, ← he.others j hj]
      refine treeAt_entry_congr hwrote.total (by rw [hf]) fun g' hg' h hh => ?_
      exact hmem h (.inr ⟨j, g', hg', hh⟩) fun hon => hothers j g' hj hg' h hon hh
  · have hnf : h ≠ f := by
      rintro rfl
      exact hne (OnPath.self _ _ _ _)
    rw [← he.wrote.mem h hnf hsp]
    refine hwrote.mem h (fun hon => ?_) fun hs₁ => hsp (he.wrote.spare h hs₁)
    rcases he.path h (.inr ⟨g, he.link, hon⟩) with hold | hspare
    · exact hne hold
    · exact hsp hspare

theorem mapFrom_maps (phys : ℕ) (flags : Pte) (hs : Shape virt s l f) :
    Maps (mapArgs s virt phys flags) s l f (mapFrom virt phys flags l f s) := by
  induction l generalizing s f with
  | zero =>
    have hvirt : (mapArgs s virt phys flags).virt = virt := rfl
    refine ⟨rfl, rfl, ?_, ⟨rfl, ?_, rfl, hs.pmm, fun _ h => h, fun h hne _ => write_mem_of_ne hne⟩⟩
    · funext j
      by_cases hj : j = tableIndex 0 virt
      · subst hj
        rw [hvirt, Function.update_self]
        simp [mapFrom, Code.change, treeAt, Paging.write, mapTree, mapArgs]
      · rw [hvirt, Function.update_of_ne hj, treeAt, treeAt]
        congr 1
        exact write_mem_entry fun hk => hj (Fin.ext hk)
    · funext as
      cases as <;> rfl
  | succ l ih =>
    unfold mapFrom
    rw [Code.bind_run]
    rcases enter_cases hs phys flags with
      ⟨g, s₁, r, sub, he, henters, hmap⟩ | ⟨s₁, he, hwrote, hfree, htree, hmap⟩
    · rw [he]
      have hrun := ih (henters.shape.below henters.link)
      rw [henters.wrote.mapArgs_eq] at hrun
      exact @Enters.maps _ _ _ _ _ (mapArgs s virt phys flags) _ _ _ henters hrun hmap
    · rw [he]
      refine ⟨by rw [show (mapArgs s virt phys flags).virt = virt from rfl, hmap]; rfl,
        by rw [show (mapArgs s virt phys flags).virt = virt from rfl, hmap]; exact hfree, ?_, ?_⟩
      · rw [show (mapArgs s virt phys flags).virt = virt from rfl, hmap, Function.update_eq_self]
        exact htree
      · refine ⟨hwrote.total, hwrote.pml4, hwrote.nxEnabled, hwrote.pmm, hwrote.spare,
          fun h hne => hwrote.mem h ?_⟩
        rintro rfl
        exact hne (OnPath.self _ _ _ _)

end Ridux
