import Ridux.Paging.Table

/-!
# Address spaces as trees

What a table entry gives access to, with the tables forgotten: a tree of 512 branches a level.

* `PageTree`, `treeAt`: the tree below an entry of a table;
* `Page`, `pageIn`: the frame and the rights that an address gets from the tree;
* `mapTree`: what `paging_map` does to the tree, with the free frames counted;
* `pagingPage`: the page of an address, and `pagingTranslate_eq`.
-/

namespace Ridux

open Option

/-- `(virt >> (12 + 9 * l)) & 0x1FF`: the index of an address at level `l`, which is 3 for the root. -/
def tableIndex (l virt : ℕ) : Fin 512 := ⟨virt / 2 ^ (12 + 9 * l) % 512, Nat.mod_lt _ (by decide)⟩

/-- `entry & PAGE_NX`. -/
def Pte.noExec (e : Pte) : Bool := e.getLsbD 63

/-- What an entry allows. -/
@[ext] structure Rights where
  writable : Bool
  user : Bool
  noExec : Bool
  deriving DecidableEq

namespace Rights

/-- The rights of the entry `e`. -/
def of (e : Pte) : Rights := ⟨e.writable, e.user, e.noExec⟩

/-- The rights of a table that `paging_map` makes. -/
def table (user : Bool) : Rights := ⟨true, user, false⟩

/-- The rights of what is below an entry. -/
def under (inner outer : Rights) : Rights :=
  ⟨outer.writable && inner.writable, outer.user && inner.user, outer.noExec || inner.noExec⟩

end Rights

/-- The tree below an entry. -/
inductive PageTree
  /-- a present entry whose table is not in memory -/
  | invalid
  | absent
  /-- a page, of 2 MiB or 1 GiB above level 0 -/
  | leaf (e : Pte)
  | table (r : Rights) (sub : Fin 512 → PageTree)

/-- The table that entry `i` of the table `f` links. -/
def Paging.links (s : Paging) (f : ℕ) (i : Fin 512) : Option ℕ := c2PageTableFromEntry s (s.mem f i)

/-- A leaf of the lowest level. -/
def PageTree.ofPte (e : Pte) : PageTree := if e.present then .leaf e else .absent

/-- The tree below entry `i` of the table `f`, which is at level `l`. -/
def treeAt (s : Paging) : ℕ → ℕ → Fin 512 → PageTree
  | 0, f, i => .ofPte (s.mem f i)
  | l + 1, f, i =>
    let e := s.mem f i
    if e.huge ∧ l < 2 then .leaf e
    else if ¬ e.present then .absent
    else match s.links f i with
      | none => .invalid
      | some g => .table (.of e) (treeAt s l g)

/-- What an address gets. -/
@[ext] structure Page where
  phys : ℕ
  rights : Rights
  deriving DecidableEq

/-- A page as it is below an entry. -/
def Page.under (outer : Rights) (p : Page) : Page := ⟨p.phys, p.rights.under outer⟩

/-- The address that a leaf at level `l` gives to `virt`. -/
def leafPhys (l : ℕ) (e : Pte) (virt : ℕ) : ℕ :=
  e.frame * pageSize / 2 ^ (12 + 9 * l) * 2 ^ (12 + 9 * l) + virt % 2 ^ (12 + 9 * l)

/-- The page of an address in the tree below an entry at level `l`. -/
def pageIn (virt : ℕ) : PageTree → ℕ → Option Page
  | .invalid, _ => none
  | .absent, _ => none
  | .leaf e, l => some ⟨leafPhys l e virt, .of e⟩
  | .table _ _, 0 => none
  | .table r sub, l + 1 => (pageIn virt (sub (tableIndex l virt)) l).map (Page.under r)

/-- The page of an address in a space. -/
def pagingPage (as : Space) (virt : ℕ) (s : Paging) : Option Page :=
  if c2AddressSpaceReady as s then
    (s.pml4 as).bind fun root => pageIn virt (treeAt s 3 root (tableIndex 3 virt)) 3
  else none

/-! ### Mapping -/

/-- What `paging_map` is to do. -/
structure MapArgs where
  virt : ℕ
  /-- the entry of the page -/
  entry : Pte
  /-- `want_user` -/
  user : Bool
  nxEnabled : Bool
  /-- whether the address of a huge entry is in memory -/
  inRange : Pte → Bool

/-- How the tree below an entry ends up: whether the page was mapped, and how many frames are left. -/
structure Mapped where
  done : Bool
  frames : ℕ
  tree : PageTree

/-- The entries that replace a huge entry at level `l + 1`. -/
def splitInto (nxEnabled : Bool) (l : ℕ) (e : Pte) (i : Fin 512) : PageTree :=
  if l = 0 then .ofPte (child2m nxEnabled e i) else .leaf (child1g nxEnabled e i)

/-- Rights after `paging_map` gave `PAGE_USER` to an entry, or did not. -/
def Rights.promote (user : Bool) (r : Rights) : Rights := { r with user := r.user || user }

/-- A table of which the branch `i` was mapped. -/
def Mapped.within (r : Rights) (sub : Fin 512 → PageTree) (i : Fin 512) (m : Mapped) : Mapped :=
  ⟨m.done, m.frames, .table r (Function.update sub i m.tree)⟩

/-- `paging_map` below an entry at level `l`, with `n` frames free. -/
def mapTree (q : MapArgs) : ℕ → ℕ → PageTree → Mapped
  | 0, n, _ => ⟨true, n, .ofPte q.entry⟩
  | l + 1, n, t =>
    let i := tableIndex l q.virt
    match t with
    | .invalid => ⟨false, n, .invalid⟩
    | .absent =>
      if n = 0 then ⟨false, n, .absent⟩
      else (mapTree q l (n - 1) .absent).within (.table true) (fun _ => .absent) i
    | .leaf e =>
      if n = 0 ∨ ¬ q.inRange e then ⟨false, n, .leaf e⟩
      else (mapTree q l (n - 1) (splitInto q.nxEnabled l e i)).within (.table q.user)
        (splitInto q.nxEnabled l e) i
    | .table r sub => (mapTree q l n (sub i)).within (r.promote q.user) sub i

/-! ### The queries -/

variable {s : Paging} {l f g : ℕ} {i : Fin 512}

theorem treeAt_of_huge (hl : l < 2) (h : (s.mem f i).huge = true) :
    treeAt s (l + 1) f i = .leaf (s.mem f i) := by
  simp only [treeAt]
  rw [if_pos ⟨h, hl⟩]

theorem treeAt_of_link (h : s.links f i = some g) :
    treeAt s (l + 1) f i = .table (.of (s.mem f i)) (treeAt s l g) := by
  have h' := h
  unfold Paging.links c2PageTableFromEntry at h'
  split_ifs at h' with hp hh
  simp only [treeAt, h]
  rw [if_neg fun hx => hh hx.1, if_neg (not_not.2 hp)]

theorem treeAt_of_absent (hp : (s.mem f i).present = false) (hh : (s.mem f i).huge = false ∨ 2 ≤ l) :
    treeAt s (l + 1) f i = .absent := by
  simp only [treeAt]
  rw [if_neg, if_pos (by rw [hp]; decide)]
  rintro ⟨hx, hl⟩
  rcases hh with hh | hh
  · rw [hh] at hx
    cases hx
  · omega

theorem treeAt_of_invalid (hp : (s.mem f i).present = true) (hh : (s.mem f i).huge = false ∨ 2 ≤ l)
    (h : s.links f i = none) : treeAt s (l + 1) f i = .invalid := by
  simp only [treeAt, h]
  rw [if_neg, if_neg (not_not.2 hp)]
  rintro ⟨hx, hl⟩
  rcases hh with hh | hh
  · rw [hh] at hx
    cases hx
  · omega

theorem pageIn_of_none (hh : (s.mem f i).huge = false ∨ 2 ≤ l) (h : s.links f i = none) (virt : ℕ)
    (m : ℕ) : pageIn virt (treeAt s (l + 1) f i) m = none := by
  simp only [treeAt, h]
  rw [if_neg]
  · split_ifs <;> rfl
  · rintro ⟨hx, hl⟩
    rcases hh with hh | hh
    · rw [hh] at hx
      cases hx
    · omega

theorem pageIn_of_link (h : s.links f i = some g) (virt : ℕ) :
    pageIn virt (treeAt s (l + 1) f i) (l + 1) = (pageIn virt (treeAt s l g (tableIndex l virt)) l).map
      (Page.under (.of (s.mem f i))) := by
  rw [treeAt_of_link h]
  rfl

/-- The entry of the page of an address. -/
def entryIn (virt : ℕ) : PageTree → ℕ → Option Pte
  | .invalid, _ => none
  | .absent, _ => none
  | .leaf e, _ => some e
  | .table _ _, 0 => none
  | .table _ sub, l + 1 => entryIn virt (sub (tableIndex l virt)) l

/-- The entry of the page of an address in a space. -/
def pagingEntry (as : Space) (virt : ℕ) (s : Paging) : Option Pte :=
  if c2AddressSpaceReady as s then
    (s.pml4 as).bind fun root => entryIn virt (treeAt s 3 root (tableIndex 3 virt)) 3
  else none

theorem entryIn_of_none (hh : (s.mem f i).huge = false ∨ 2 ≤ l) (h : s.links f i = none) (virt : ℕ)
    (m : ℕ) : entryIn virt (treeAt s (l + 1) f i) m = none := by
  simp only [treeAt, h]
  rw [if_neg]
  · split_ifs <;> rfl
  · rintro ⟨hx, hl⟩
    rcases hh with hh | hh
    · rw [hh] at hx
      cases hx
    · omega

theorem entryIn_of_link (h : s.links f i = some g) (virt : ℕ) :
    entryIn virt (treeAt s (l + 1) f i) (l + 1) = entryIn virt (treeAt s l g (tableIndex l virt)) l := by
  rw [treeAt_of_link h]
  rfl

/-- What a walk finds, by where it ends. -/
def Walk.Finds (s : Paging) (virt : ℕ) (page : Option Page) (entry : Option Pte) : Walk → Prop
  | .fault => page = none ∧ entry = none
  | .huge1g e => (∃ r, page = some ⟨leafPhys 2 e virt, r⟩) ∧ entry = some e
  | .huge2m e => (∃ r, page = some ⟨leafPhys 1 e virt, r⟩) ∧ entry = some e
  | .slot pt i => if (s.mem pt i).present
    then (∃ r, page = some ⟨leafPhys 0 (s.mem pt i) virt, r⟩) ∧ entry = some (s.mem pt i)
    else page = none ∧ entry = none

theorem pagingWalk_finds (as : Space) (virt : ℕ) (s : Paging) :
    (pagingWalk as virt s).Finds s virt (pagingPage as virt s) (pagingEntry as virt s) := by
  unfold pagingWalk pagingPage pagingEntry
  by_cases hready : c2AddressSpaceReady as s = true
  swap
  · simp only [if_pos hready, if_neg hready]
    exact ⟨rfl, rfl⟩
  simp only [if_neg (not_not.2 hready), if_pos hready]
  cases s.pml4 as with
  | none => exact ⟨rfl, rfl⟩
  | some root =>
  simp only [bind_some]
  -- one level after the other, with the index of the address
  have hlink₃ : c2PageTableFromEntry s (s.mem root (pml4Index virt)) = s.links root (tableIndex 3 virt) := rfl
  rw [hlink₃]
  cases h₃ : s.links root (tableIndex 3 virt) with
  | none => exact ⟨pageIn_of_none (.inr le_rfl) h₃ _ _, entryIn_of_none (.inr le_rfl) h₃ _ _⟩
  | some pdpt =>
  simp only [pageIn_of_link h₃, entryIn_of_link h₃]
  by_cases hh₂ : (s.mem pdpt (tableIndex 2 virt)).huge = true
  · have hh : (s.mem pdpt (pdptIndex virt)).huge = true := hh₂
    rw [if_pos hh, treeAt_of_huge (by decide) hh₂]
    exact ⟨⟨_, rfl⟩, rfl⟩
  have hh : ¬ (s.mem pdpt (pdptIndex virt)).huge = true := hh₂
  have hlink₂ : c2PageTableFromEntry s (s.mem pdpt (pdptIndex virt)) = s.links pdpt (tableIndex 2 virt) := rfl
  rw [if_neg hh, hlink₂]
  rw [Bool.not_eq_true] at hh₂
  cases h₂ : s.links pdpt (tableIndex 2 virt) with
  | none =>
    rw [pageIn_of_none (.inl hh₂) h₂, entryIn_of_none (.inl hh₂) h₂]
    exact ⟨rfl, rfl⟩
  | some pd =>
  simp only [pageIn_of_link h₂, entryIn_of_link h₂]
  by_cases hh₁ : (s.mem pd (tableIndex 1 virt)).huge = true
  · have hh : (s.mem pd (pdIndex virt)).huge = true := hh₁
    rw [if_pos hh, treeAt_of_huge (by decide) hh₁]
    exact ⟨⟨_, rfl⟩, rfl⟩
  have hh : ¬ (s.mem pd (pdIndex virt)).huge = true := hh₁
  have hlink₁ : c2PageTableFromEntry s (s.mem pd (pdIndex virt)) = s.links pd (tableIndex 1 virt) := rfl
  rw [if_neg hh, hlink₁]
  rw [Bool.not_eq_true] at hh₁
  cases h₁ : s.links pd (tableIndex 1 virt) with
  | none =>
    rw [pageIn_of_none (.inl hh₁) h₁, entryIn_of_none (.inl hh₁) h₁]
    exact ⟨rfl, rfl⟩
  | some pt =>
  simp only [pageIn_of_link h₁, entryIn_of_link h₁]
  have hslot : s.mem pt (ptIndex virt) = s.mem pt (tableIndex 0 virt) := rfl
  unfold Walk.Finds
  simp only [hslot, treeAt, PageTree.ofPte]
  by_cases hp : (s.mem pt (tableIndex 0 virt)).present = true
  · simp only [if_pos hp]
    exact ⟨⟨_, rfl⟩, rfl⟩
  · simp only [if_neg hp]
    exact ⟨rfl, rfl⟩

theorem leafPhys_zero (e : Pte) (virt : ℕ) : leafPhys 0 e virt = e.frame * pageSize + virt % 2 ^ 12 := by
  have hsize : 2 ^ (12 + 9 * 0) = pageSize := rfl
  rw [leafPhys, hsize, Nat.mul_div_cancel _ (by decide)]

theorem pagingTranslate_eq (as : Space) (virt : ℕ) (s : Paging) :
    pagingTranslate as virt s = ((pagingPage as virt s).map Page.phys).getD 0 := by
  have hfinds := pagingWalk_finds as virt s
  unfold pagingTranslate
  cases hw : pagingWalk as virt s with
  | fault =>
    rw [hw] at hfinds
    rw [hfinds.1]
    rfl
  | huge1g e =>
    rw [hw] at hfinds
    obtain ⟨⟨r, hr⟩, -⟩ := hfinds
    rw [hr]
    rfl
  | huge2m e =>
    rw [hw] at hfinds
    obtain ⟨⟨r, hr⟩, -⟩ := hfinds
    rw [hr]
    rfl
  | slot pt i =>
    rw [hw] at hfinds
    simp only [Walk.Finds] at hfinds
    simp only
    by_cases hp : (s.mem pt i).present = true
    · rw [if_pos hp] at hfinds ⊢
      obtain ⟨⟨r, hr⟩, -⟩ := hfinds
      rw [hr]
      exact (leafPhys_zero _ _).symm
    · rw [if_neg hp] at hfinds ⊢
      rw [hfinds.1]
      rfl

theorem pagingGetEntry_eq {as : Space} {virt : ℕ} {e : Pte} (h : pagingEntry as virt s = some e) :
    pagingGetEntry as virt s = e := by
  have hfinds := pagingWalk_finds as virt s
  unfold pagingGetEntry
  rw [h] at hfinds
  cases hw : pagingWalk as virt s with
  | fault =>
    rw [hw] at hfinds
    cases hfinds.2
  | huge1g e' =>
    rw [hw] at hfinds
    exact (some.inj hfinds.2).symm
  | huge2m e' =>
    rw [hw] at hfinds
    exact (some.inj hfinds.2).symm
  | slot pt i =>
    rw [hw] at hfinds
    simp only [Walk.Finds] at hfinds
    split_ifs at hfinds
    · exact (some.inj hfinds.2).symm
    · cases hfinds.2

end Ridux
