import Ridux.Paging.Mapping

/-!
# Which mappings leave the other pages alone

A mapping takes a page out of the tree of an address space.  It splits the huge page around it and gives
`PAGE_USER` to the tables above it, and each of the two can change what other addresses get.

* `Elsewhere`: the addresses of other pages;
* `SplitKeeps`: a huge page has the pages that it is split into;
* `Exact`: the condition on the tree before the mapping;
* `unchanged_iff`: it says exactly when every other page is kept.
-/

namespace Ridux

open Option

/-! ### Addresses -/

/-- The address `v` is not in the page of `virt`, below an entry at level `l`. -/
def Elsewhere (virt l v : ℕ) : Prop := ∃ k < l, tableIndex k v ≠ tableIndex k virt

variable {virt l v w k : ℕ} {u nxEnabled : Bool}

theorem tableIndex_congr (hk : k < l) (h : v % 2 ^ (12 + 9 * l) = w % 2 ^ (12 + 9 * l)) :
    tableIndex k v = tableIndex k w := by
  have hpow : 2 ^ (12 + 9 * l) = 2 ^ (12 + 9 * k) * (512 * 2 ^ (9 * (l - k - 1))) := by
    rw [show 512 = 2 ^ 9 from rfl, ← pow_add, ← pow_add]
    congr 1
    omega
  have hlow : ∀ x : ℕ, x / 2 ^ (12 + 9 * k) % 512 = x % 2 ^ (12 + 9 * l) / 2 ^ (12 + 9 * k) % 512 := by
    intro x
    rw [hpow, Nat.mod_mul_right_div_self, Nat.mod_mul_right_mod]
  apply Fin.ext
  show v / 2 ^ (12 + 9 * k) % 512 = w / 2 ^ (12 + 9 * k) % 512
  rw [hlow v, h, ← hlow w]

theorem elsewhere_congr (h : v % 2 ^ (12 + 9 * l) = w % 2 ^ (12 + 9 * l)) :
    Elsewhere virt l v ↔ Elsewhere virt l w := by
  constructor
  · rintro ⟨k, hk, hne⟩
    exact ⟨k, hk, tableIndex_congr hk h ▸ hne⟩
  · rintro ⟨k, hk, hne⟩
    exact ⟨k, hk, tableIndex_congr hk h.symm ▸ hne⟩

theorem elsewhere_succ :
    Elsewhere virt (l + 1) v ↔ tableIndex l v ≠ tableIndex l virt ∨ Elsewhere virt l v := by
  constructor
  · rintro ⟨k, hk, hne⟩
    rcases Nat.lt_succ_iff_lt_or_eq.1 hk with hk | rfl
    · exact .inr ⟨k, hk, hne⟩
    · exact .inl hne
  · rintro (hne | ⟨k, hk, hne⟩)
    · exact ⟨l, Nat.lt_succ_self l, hne⟩
    · exact ⟨k, Nat.lt_succ_of_lt hk, hne⟩

theorem exists_below (l v : ℕ) (i : Fin 512) :
    ∃ w, w % 2 ^ (12 + 9 * l) = v % 2 ^ (12 + 9 * l) ∧ tableIndex l w = i := by
  have hpos : 0 < 2 ^ (12 + 9 * l) := Nat.two_pow_pos _
  have hlt : v % 2 ^ (12 + 9 * l) < 2 ^ (12 + 9 * l) := Nat.mod_lt _ hpos
  refine ⟨v % 2 ^ (12 + 9 * l) + 2 ^ (12 + 9 * l) * i, ?_, Fin.ext ?_⟩
  · rw [Nat.add_mul_mod_self_left, Nat.mod_mod]
  · show (v % 2 ^ (12 + 9 * l) + 2 ^ (12 + 9 * l) * i) / 2 ^ (12 + 9 * l) % 512 = i
    rw [Nat.add_mul_div_left _ _ hpos, Nat.div_eq_of_lt hlt, Nat.zero_add, Nat.mod_eq_of_lt i.isLt]

theorem pageIn_congr (t : PageTree) (h : v % 2 ^ (12 + 9 * l) = w % 2 ^ (12 + 9 * l)) :
    pageIn v t l = pageIn w t l := by
  induction t generalizing l with
  | invalid => rfl
  | absent => rfl
  | leaf e => simp only [pageIn, leafPhys, h]
  | table r sub ih =>
    cases l with
    | zero => rfl
    | succ l =>
      have hdvd : 2 ^ (12 + 9 * l) ∣ 2 ^ (12 + 9 * (l + 1)) := Nat.pow_dvd_pow 2 (by omega)
      have hlow : v % 2 ^ (12 + 9 * l) = w % 2 ^ (12 + 9 * l) := by
        rw [← Nat.mod_mod_of_dvd v hdvd, h, Nat.mod_mod_of_dvd w hdvd]
      simp only [pageIn]
      rw [tableIndex_congr (Nat.lt_succ_self l) h, ih _ hlow]

/-! ### Rights -/

theorem Rights.under_under (a b c : Rights) : (a.under b).under c = a.under (b.under c) := by
  apply Rights.ext
  · exact (Bool.and_assoc ..).symm
  · exact (Bool.and_assoc ..).symm
  · exact (Bool.or_assoc ..).symm

theorem Page.under_comp (b c : Rights) : Page.under c ∘ Page.under b = Page.under (b.under c) := by
  funext p
  exact Page.ext rfl (Rights.under_under _ b c)

theorem Rights.promote_under (u : Bool) (r c : Rights) :
    (r.promote u).under (c.promote u) = (r.under c).promote u := by
  apply Rights.ext
  · rfl
  · show ((c.user || u) && (r.user || u)) = ((c.user && r.user) || u)
    exact (Bool.or_and_distrib_right ..).symm
  · rfl

theorem Rights.table_under (u : Bool) (c : Rights) :
    (Rights.table u).under (c.promote u) = { c with user := u } := by
  apply Rights.ext
  · exact Bool.and_true _
  · show ((c.user || u) && u) = u
    cases u
    · exact Bool.and_false _
    · rw [Bool.or_true]
      rfl
  · exact Bool.or_false _

theorem Page.under_promote_iff {c : Rights} {p : Page} :
    Page.under (c.promote u) p = Page.under c p ↔ (u = true → c.user = false → p.rights.user = false) := by
  have huser : Page.under (c.promote u) p = Page.under c p ↔
      ((c.user || u) && p.rights.user) = (c.user && p.rights.user) := by
    constructor
    · intro h
      exact congrArg (fun p : Page => p.rights.user) h
    · intro h
      exact Page.ext rfl (Rights.ext rfl h rfl)
  rw [huser]
  cases u <;> cases c.user <;> cases p.rights.user <;> decide

/-! ### Splitting -/

/-- The flags of the entries that a huge entry at level `l + 1` is split into. -/
def splitFlags (nxEnabled : Bool) (l : ℕ) (e : Pte) : Pte :=
  if l = 0 then c2SanitizePageFlags nxEnabled (e &&& 0xFFF &&& ~~~pageHuge) else e &&& 0xFFF

theorem pte_address_eq (e : Pte) :
    e &&& pteAddrMask &&& ~~~pageHuge = BitVec.ofNat 64 (e.frame * pageSize) := by
  have hmask : pteAddrMask = BitVec.ofNat 64 ((2 ^ 40 - 1) <<< 12) := by decide
  have hhuge : pageHuge = BitVec.ofNat 64 (2 ^ 7) := by decide
  have hsize : e.frame * pageSize = e.frame <<< 12 := by rw [Nat.shiftLeft_eq]; rfl
  apply BitVec.eq_of_getLsbD_eq
  intro i hi
  rw [BitVec.getLsbD_and, BitVec.getLsbD_and, BitVec.getLsbD_not, hmask, hhuge, hsize, BitVec.getLsbD_ofNat,
    BitVec.getLsbD_ofNat, BitVec.getLsbD_ofNat, Nat.testBit_shiftLeft, Nat.testBit_shiftLeft,
    Nat.testBit_two_pow_sub_one, Nat.testBit_two_pow, Pte.frame, BitVec.testBit_toNat,
    BitVec.getLsbD_extractLsb']
  by_cases hlow : 12 ≤ i
  · have hback : 12 + (i - 12) = i := by omega
    have hseven : ¬ 7 = i := by omega
    simp only [hback, hlow, hi, hseven, decide_true, decide_false, Bool.true_and, Bool.and_true,
      Bool.not_false, Bool.and_false]
    exact Bool.and_comm _ _
  · simp only [hlow, decide_false, Bool.false_and, Bool.and_false]

theorem splitEntries_eq (hl : l < 2) (nxEnabled : Bool) (e : Pte) (i : ℕ) :
    splitEntries nxEnabled l e i =
      BitVec.ofNat 64 ((e.frame + i * 2 ^ (9 * l)) * pageSize) ||| splitFlags nxEnabled l e := by
  have hsum : ∀ k, BitVec.ofNat 64 (e.frame * pageSize) + BitVec.ofNat 64 (k * pageSize) =
      BitVec.ofNat 64 ((e.frame + k) * pageSize) := by
    intro k
    rw [Nat.add_mul, BitVec.ofNat_add]
  cases l with
  | zero =>
    have hchild : splitEntries nxEnabled 0 e i =
        ((e &&& pteAddrMask &&& ~~~pageHuge) + BitVec.ofNat 64 (i * pageSize)) |||
          splitFlags nxEnabled 0 e := rfl
    rw [hchild, pte_address_eq, hsum, Nat.mul_zero, pow_zero, Nat.mul_one]
  | succ l =>
    obtain rfl : l = 0 := by omega
    have hchild : splitEntries nxEnabled 1 e i =
        ((e &&& pteAddrMask &&& ~~~pageHuge) + BitVec.ofNat 64 (i * 2 ^ 21)) |||
          splitFlags nxEnabled 1 e := rfl
    have hsize : i * 2 ^ 21 = i * 2 ^ (9 * 1) * pageSize := by
      rw [Nat.mul_assoc]
      rfl
    rw [hchild, pte_address_eq, hsize, hsum]

theorem getLsbD_low_mask (k : ℕ) : BitVec.getLsbD (0xFFF : Pte) k = decide (k < 12) := by
  have hmask : (0xFFF : Pte) = BitVec.ofNat 64 (2 ^ 12 - 1) := by decide
  rw [hmask, BitVec.getLsbD_ofNat, Nat.testBit_two_pow_sub_one]
  by_cases hk : k < 12
  · simp only [hk, show k < 64 by omega, decide_true, Bool.and_self]
  · simp only [hk, decide_false, Bool.and_false]

theorem getLsbD_sanitize (nxEnabled : Bool) (e : Pte) (hk : k < 63) :
    (c2SanitizePageFlags nxEnabled e).getLsbD k = e.getLsbD k := by
  have hnx : pageNx = BitVec.ofNat 64 (2 ^ 63) := by decide
  unfold c2SanitizePageFlags
  split_ifs
  · rfl
  · rw [BitVec.getLsbD_and, BitVec.getLsbD_not, hnx, BitVec.getLsbD_ofNat, Nat.testBit_two_pow]
    simp only [show k < 64 by omega, show ¬ 63 = k by omega, decide_true, decide_false, Bool.and_false,
      Bool.not_false, Bool.and_true]

theorem splitFlags_bit (e : Pte) (hk : k < 7) :
    (splitFlags nxEnabled l e).getLsbD k = e.getLsbD k := by
  have hlow : (e &&& 0xFFF).getLsbD k = e.getLsbD k := by
    rw [BitVec.getLsbD_and, getLsbD_low_mask, decide_eq_true (show k < 12 by omega), Bool.and_true]
  have hhuge : (~~~pageHuge).getLsbD k = true := by
    have hpow : pageHuge = BitVec.ofNat 64 (2 ^ 7) := by decide
    rw [BitVec.getLsbD_not, hpow, BitVec.getLsbD_ofNat, Nat.testBit_two_pow]
    simp only [show k < 64 by omega, show ¬ 7 = k by omega, decide_true, decide_false, Bool.and_false,
      Bool.not_false, Bool.and_true]
  unfold splitFlags
  split_ifs
  · rw [getLsbD_sanitize _ _ (by omega), BitVec.getLsbD_and, hlow, hhuge, Bool.and_true]
  · exact hlow

theorem splitFlags_high (e : Pte) (hk : 12 ≤ k) : (splitFlags nxEnabled l e).getLsbD k = false := by
  have hlow : (e &&& 0xFFF).getLsbD k = false := by
    rw [BitVec.getLsbD_and, getLsbD_low_mask, decide_eq_false (show ¬ k < 12 by omega), Bool.and_false]
  unfold splitFlags c2SanitizePageFlags
  split_ifs
  · rw [BitVec.getLsbD_and, hlow, Bool.false_and]
  · rw [BitVec.getLsbD_and, BitVec.getLsbD_and, hlow, Bool.false_and, Bool.false_and]
  · exact hlow

theorem Pte.frame_lt (e : Pte) : e.frame < 2 ^ 40 := (e.extractLsb' 12 40).isLt

section Children

variable {nxEnabled : Bool} (hl : l < 2) (e : Pte) (i : Fin 512)
include hl

theorem splitEntries_bit (hk : k < 7) : (splitEntries nxEnabled l e i).getLsbD k = e.getLsbD k := by
  rw [splitEntries_eq hl, BitVec.getLsbD_or, Pte.getLsbD_ofNat_page _ (by omega), Bool.false_or,
    splitFlags_bit e hk]

theorem splitEntries_noExec : (splitEntries nxEnabled l e i).noExec = false := by
  have hlt : (e.frame + i * 2 ^ (9 * l)) * pageSize < 2 ^ 63 := by
    have := e.frame_lt
    have := i.isLt
    have hsize : pageSize = 2 ^ 12 := rfl
    rw [hsize]
    obtain rfl | rfl : l = 0 ∨ l = 1 := by omega
    · omega
    · omega
  rw [Pte.noExec, splitEntries_eq hl, BitVec.getLsbD_or, splitFlags_high e (by decide), BitVec.getLsbD_ofNat,
    Nat.testBit_lt_two_pow hlt]
  rfl

theorem splitEntries_frame : (splitEntries nxEnabled l e i).frame = (e.frame + i * 2 ^ (9 * l)) % 2 ^ 40 := by
  have hflags : (splitFlags nxEnabled l e).extractLsb' 12 40 = 0 := by
    apply BitVec.eq_of_getLsbD_eq
    intro k hk
    rw [BitVec.getLsbD_extractLsb', splitFlags_high e (by omega), Bool.and_false]
    exact (BitVec.getLsbD_zero).symm
  have := e.frame_lt
  have := i.isLt
  rw [splitEntries_eq hl, Pte.frame_or_of_low hflags, Pte.frame, BitVec.extractLsb'_toNat, BitVec.toNat_ofNat,
    Nat.shiftRight_eq_div_pow, pageSize_eq]
  obtain rfl | rfl : l = 0 ∨ l = 1 := by omega
  · omega
  · omega

theorem splitEntries_rights : Rights.of (splitEntries nxEnabled l e i) = ⟨e.writable, e.user, false⟩ := by
  rw [Rights.of, splitEntries_noExec hl e i, Pte.writable, Pte.user, splitEntries_bit hl e i (by decide),
    splitEntries_bit hl e i (by decide)]
  rfl

end Children

/-- A huge entry at level `l + 1` below entries of rights `c` has the pages that it is split into. -/
structure SplitKeeps (user : Bool) (c : Rights) (l : ℕ) (e : Pte) : Prop where
  present : l = 0 → e.present = true
  user : e.user = true → c.user = user
  noExec : e.noExec = true → c.noExec = true
  /-- the bits below the page's own size are clear, so the attribute bit of a 2 MiB page is -/
  aligned : e.frame % 2 ^ (9 * (l + 1)) < 2 ^ (9 * l)

theorem split_rights_iff {user : Bool} {c : Rights} {e : Pte} :
    Rights.under ⟨e.writable, e.user, false⟩ { c with user := user } = (Rights.of e).under c ↔
      (e.user = true → c.user = user) ∧ (e.noExec = true → c.noExec = true) := by
  have hfields : Rights.under ⟨e.writable, e.user, false⟩ { c with user := user } = (Rights.of e).under c ↔
      (user && e.user) = (c.user && e.user) ∧ (c.noExec || false) = (c.noExec || e.noExec) := by
    constructor
    · intro h
      exact ⟨congrArg Rights.user h, congrArg Rights.noExec h⟩
    · rintro ⟨hu, hx⟩
      exact Rights.ext rfl hu hx
  rw [hfields]
  apply and_congr
  · cases user <;> cases c.user <;> cases e.user <;> decide
  · cases c.noExec <;> cases e.noExec <;> decide

theorem leafPhys_split_iff (hl : l < 2) (nxEnabled : Bool) (e : Pte) (v : ℕ) :
    leafPhys l (splitEntries nxEnabled l e (tableIndex l v)) v = leafPhys (l + 1) e v ↔
      e.frame % 2 ^ (9 * (l + 1)) < 2 ^ (9 * l) := by
  have hi : (tableIndex l v : ℕ) = v / 2 ^ (12 + 9 * l) % 512 := rfl
  have hframe := e.frame_lt
  have hsize : pageSize = 2 ^ 12 := rfl
  rw [leafPhys, leafPhys, splitEntries_frame hl, hi, hsize]
  obtain rfl | rfl : l = 0 ∨ l = 1 := by omega
  · omega
  · omega

theorem pageIn_split_iff (hl : l < 2) (nxEnabled user : Bool) (c : Rights) (e : Pte) (v : ℕ) :
    (pageIn v (splitInto nxEnabled l e (tableIndex l v)) l).map (Page.under { c with user := user }) =
      (pageIn v (.leaf e) (l + 1)).map (Page.under c) ↔ SplitKeeps user c l e := by
  have hiff : Page.under { c with user := user } ⟨leafPhys l (splitEntries nxEnabled l e (tableIndex l v)) v,
      .of (splitEntries nxEnabled l e (tableIndex l v))⟩ = Page.under c ⟨leafPhys (l + 1) e v, .of e⟩ ↔
      ((e.user = true → c.user = user) ∧ (e.noExec = true → c.noExec = true)) ∧
        e.frame % 2 ^ (9 * (l + 1)) < 2 ^ (9 * l) := by
    rw [splitEntries_rights hl, ← split_rights_iff, ← leafPhys_split_iff hl nxEnabled e v]
    constructor
    · intro h
      exact ⟨congrArg Page.rights h, congrArg Page.phys h⟩
    · rintro ⟨hr, hp⟩
      exact Page.ext hp hr
  obtain rfl | rfl : l = 0 ∨ l = 1 := by omega
  · have hp : (splitEntries nxEnabled 0 e (tableIndex 0 v)).present = e.present :=
      splitEntries_bit hl e _ (by decide)
    have hinto : splitInto nxEnabled 0 e (tableIndex 0 v) =
        if (splitEntries nxEnabled 0 e (tableIndex 0 v)).present then
          .leaf (splitEntries nxEnabled 0 e (tableIndex 0 v)) else .absent := rfl
    rw [hinto, hp]
    by_cases hpe : e.present = true
    · rw [if_pos hpe]
      simp only [pageIn, map_some, Option.some.injEq, hiff]
      constructor
      · rintro ⟨⟨hu, hx⟩, ha⟩
        exact ⟨fun _ => hpe, hu, hx, ha⟩
      · rintro ⟨-, hu, hx, ha⟩
        exact ⟨⟨hu, hx⟩, ha⟩
    · rw [if_neg hpe]
      simp only [pageIn, map_some, map_none, reduceCtorEq, false_iff]
      exact fun h => hpe (h.present rfl)
  · have hinto : splitInto nxEnabled 1 e (tableIndex 1 v) =
      .leaf (splitEntries nxEnabled 1 e (tableIndex 1 v)) := rfl
    rw [hinto]
    simp only [pageIn, map_some, Option.some.injEq, hiff]
    constructor
    · rintro ⟨⟨hu, hx⟩, ha⟩
      exact ⟨fun h => absurd h Nat.one_ne_zero, hu, hx, ha⟩
    · rintro ⟨-, hu, hx, ha⟩
      exact ⟨⟨hu, hx⟩, ha⟩

/-! ### The condition -/

/-- A page whose tables were promoted keeps its rights. -/
def StaysPrivate (user : Bool) (c : Rights) (p : Page) : Prop :=
  user = true → c.user = false → p.rights.user = false

/-- Mapping `q.virt` below an entry at level `l` leaves the other pages alone: a huge page that is split
keeps its pages, and no page that was private only by an entry above it gets `PAGE_USER` there.  The
entries above have the rights `c`, and `n` frames are free. -/
def Exact (q : MapArgs) : ℕ → Rights → ℕ → PageTree → Prop
  | 0, _, _, _ => True
  | l + 1, c, n, t =>
    match t with
    | .invalid => True
    | .absent => True
    | .leaf e =>
      if n = 0 ∨ ¬ q.inRange e then q.user = true → c.user = false → e.user = false
      else SplitKeeps q.user c l e ∧
        Exact q l { c with user := q.user } (n - 1) (splitInto q.nxEnabled l e (tableIndex l q.virt))
    | .table r sub =>
      (∀ v p, tableIndex l v ≠ tableIndex l q.virt → pageIn v (sub (tableIndex l v)) l = some p →
        StaysPrivate q.user (r.under c) p) ∧
      Exact q l (r.under c) n (sub (tableIndex l q.virt))

/-- What `paging_map` is to leave alone below entries of rights `c`: every page if it fails, the other
pages if it succeeds. -/
def Unchanged (q : MapArgs) (l : ℕ) (c : Rights) (t : PageTree) (m : Mapped) : Prop :=
  ∀ v, (m.done = true → Elsewhere q.virt l v) →
    (pageIn v m.tree l).map (Page.under (c.promote q.user)) = (pageIn v t l).map (Page.under c)

/-- A tree whose huge pages are of 2 MiB or 1 GiB. -/
def PageTree.Proper : ℕ → PageTree → Prop
  | l, .leaf _ => l ≤ 2
  | 0, .table _ _ => False
  | l + 1, .table _ sub => ∀ i, (sub i).Proper l
  | _, _ => True

variable {q : MapArgs} {c r : Rights} {n : ℕ} {t : PageTree} {m : Mapped} {sub : Fin 512 → PageTree}
  {i : Fin 512}

theorem pageIn_within_of_ne {j : Fin 512} (hj : tableIndex l v = j) (hne : j ≠ i) :
    pageIn v (m.within r sub i).tree (l + 1) = (pageIn v (sub j) l).map (Page.under r) := by
  subst hj
  simp only [Mapped.within, pageIn, Function.update_of_ne hne]

theorem pageIn_within_of_eq (hi : tableIndex l v = i) :
    pageIn v (m.within r sub i).tree (l + 1) = (pageIn v m.tree l).map (Page.under r) := by
  subst hi
  simp only [Mapped.within, pageIn, Function.update_self]

/-- Below a table, the pages in the other branches and those in the branch that was mapped. -/
theorem unchanged_within :
    Unchanged q (l + 1) c t (m.within r sub (tableIndex l q.virt)) ↔
      (∀ v, tableIndex l v ≠ tableIndex l q.virt →
        (pageIn v (sub (tableIndex l v)) l).map (Page.under (r.under (c.promote q.user))) =
          (pageIn v t (l + 1)).map (Page.under c)) ∧
      ∀ v, tableIndex l v = tableIndex l q.virt → (m.done = true → Elsewhere q.virt l v) →
        (pageIn v m.tree l).map (Page.under (r.under (c.promote q.user))) =
          (pageIn v t (l + 1)).map (Page.under c) := by
  have hdone : (m.within r sub (tableIndex l q.virt)).done = m.done := rfl
  constructor
  · intro h
    refine ⟨fun v hv => ?_, fun v hv hother => ?_⟩
    · rw [← h v fun _ => elsewhere_succ.2 (.inl hv), pageIn_within_of_ne rfl hv, map_map,
        Page.under_comp]
    · rw [← h v fun hd => elsewhere_succ.2 (.inr (hother hd)), pageIn_within_of_eq hv, map_map,
        Page.under_comp]
  · rintro ⟨hothers, hhere⟩ v hv
    by_cases hi : tableIndex l v = tableIndex l q.virt
    · rw [pageIn_within_of_eq hi, map_map, Page.under_comp]
      refine hhere v hi fun hd => ?_
      rw [hdone] at hv
      exact (elsewhere_succ.1 (hv hd)).resolve_left (not_not.2 hi)
    · rw [pageIn_within_of_ne rfl hi, map_map, Page.under_comp]
      exact hothers v hi

theorem unchanged_branch {c' : Rights} {i : Fin 512} :
    (∀ v, tableIndex l v = i → (m.done = true → Elsewhere q.virt l v) →
      (pageIn v m.tree l).map (Page.under (c'.promote q.user)) = (pageIn v t l).map (Page.under c')) ↔
      Unchanged q l c' t m := by
  constructor
  · intro h v hv
    obtain ⟨w, hw, hi⟩ := exists_below l v i
    have := h w hi fun hd => (elsewhere_congr hw).2 (hv hd)
    rwa [pageIn_congr m.tree hw, pageIn_congr t hw] at this
  · exact fun h v _ => h v

theorem exact_absent : Exact q l c n .absent := by
  cases l <;> trivial

theorem map_promote_iff {o : Option Page} :
    o.map (Page.under (c.promote u)) = o.map (Page.under c) ↔ ∀ p, o = some p → StaysPrivate u c p := by
  cases o with
  | none => simp only [map_none, reduceCtorEq, false_implies, implies_true]
  | some p => simp only [map_some, Option.some.injEq, Page.under_promote_iff, StaysPrivate, forall_eq']

theorem exact_leaf {e : Pte} (hu : q.user = false) (hk : SplitKeeps q.user c l e)
    (hsub : Exact q l { c with user := q.user } (n - 1) (splitInto q.nxEnabled l e (tableIndex l q.virt))) :
    Exact q (l + 1) c n (.leaf e) := by
  simp only [Exact]
  split_ifs
  · intro h
    rw [hu] at h
    cases h
  · exact ⟨hk, hsub⟩

theorem unchanged_stop_iff : Unchanged q l c t ⟨false, n, t⟩ ↔
    ∀ v p, pageIn v t l = some p → StaysPrivate q.user c p := by
  constructor
  · intro h v
    exact map_promote_iff.1 (h v fun hd => absurd hd Bool.false_ne_true)
  · exact fun h v _ => map_promote_iff.2 (h v)

theorem Rights.promote_self (u : Bool) (c : Rights) :
    ({ c with user := u } : Rights).promote u = { c with user := u } :=
  Rights.ext rfl (Bool.or_self u) rfl

theorem split_branches_iff (hl : l < 2) (nxEnabled user : Bool) (c : Rights) (e : Pte) (i : Fin 512) :
    (∀ v, tableIndex l v ≠ i →
      (pageIn v (splitInto nxEnabled l e (tableIndex l v)) l).map (Page.under { c with user := user }) =
        (pageIn v (.leaf e) (l + 1)).map (Page.under c)) ↔ SplitKeeps user c l e := by
  constructor
  · intro h
    obtain ⟨j, hj⟩ := exists_ne i
    obtain ⟨v, -, hv⟩ := exists_below l 0 j
    exact (pageIn_split_iff hl nxEnabled user c e v).1 (h v (hv ▸ hj))
  · exact fun h v _ => (pageIn_split_iff hl nxEnabled user c e v).2 h

theorem splitInto_proper (hl : l < 2) (nxEnabled : Bool) (e : Pte) (i : Fin 512) :
    (splitInto nxEnabled l e i).Proper l := by
  obtain rfl | rfl : l = 0 ∨ l = 1 := by omega
  · show (PageTree.ofPte (child2m nxEnabled e i)).Proper 0
    unfold PageTree.ofPte
    split_ifs
    · exact Nat.zero_le 2
    · trivial
  · show 1 ≤ 2
    decide

theorem treeAt_proper (s : Paging) (l f : ℕ) (i : Fin 512) : (treeAt s l f i).Proper l := by
  induction l generalizing f i with
  | zero =>
    unfold treeAt PageTree.ofPte
    split_ifs
    · exact Nat.zero_le 2
    · trivial
  | succ l ih =>
    simp only [treeAt]
    split_ifs with hleaf
    · exact hleaf.2
    · cases s.links f i with
      | none => trivial
      | some g => exact ih g
    · trivial

theorem unchanged_iff (ht : t.Proper l) : Unchanged q l c t (mapTree q l n t) ↔ Exact q l c n t := by
  induction l generalizing c n t with
  | zero =>
    refine iff_of_true (fun v hv => ?_) trivial
    obtain ⟨k, hk, -⟩ := hv rfl
    exact absurd hk (Nat.not_lt_zero k)
  | succ l ih =>
    cases t with
    | invalid => exact iff_of_true (fun _ _ => rfl) trivial
    | absent =>
      refine iff_of_true ?_ trivial
      by_cases hn : n = 0
      · simp only [mapTree, if_pos hn]
        exact fun _ _ => rfl
      · simp only [mapTree, if_neg hn]
        have hproper : PageTree.absent.Proper l := by cases l <;> trivial
        have habsent := (@ih c (n - 1) _ hproper).2 exact_absent
        refine unchanged_within.2 ⟨fun _ _ => rfl, fun v _ hv => ?_⟩
        have hnone := habsent v hv
        have hpage : pageIn v (mapTree q l (n - 1) .absent).tree l = none := by
          simpa only [pageIn, map_none, map_eq_none_iff] using hnone
        rw [hpage]
        rfl
    | leaf e =>
      have hl : l < 2 := Nat.lt_of_succ_le ht
      by_cases hstop : n = 0 ∨ ¬ q.inRange e = true
      · simp only [mapTree, Exact, if_pos hstop]
        rw [unchanged_stop_iff]
        constructor
        · intro h
          exact h 0 _ rfl
        · rintro h v p hp
          obtain rfl := some.inj hp
          exact h
      · simp only [mapTree, Exact, if_neg hstop]
        rw [unchanged_within, Rights.table_under, ← ih (splitInto_proper hl _ e _), split_branches_iff hl]
        refine and_congr_right fun hkeeps => ?_
        rw [← @unchanged_branch l q _ _ _ (tableIndex l q.virt), Rights.promote_self]
        refine forall₃_congr fun v hv _ => ?_
        rw [← (pageIn_split_iff hl q.nxEnabled q.user c e v).2 hkeeps, hv]
    | table r sub =>
      have hsub : (sub (tableIndex l q.virt)).Proper l := ht _
      simp only [mapTree, Exact]
      have hpage : ∀ v, (pageIn v (.table r sub) (l + 1)).map (Page.under c) =
          (pageIn v (sub (tableIndex l v)) l).map (Page.under (r.under c)) := by
        intro v
        rw [pageIn, map_map, Page.under_comp]
      rw [unchanged_within, Rights.promote_under, ← ih hsub]
      apply and_congr
      · simp only [hpage, map_promote_iff]
        exact ⟨fun h v p hv => h v hv p, fun h v hv p => h v p hv⟩
      · rw [← @unchanged_branch l q _ _ _ (tableIndex l q.virt)]
        refine forall₃_congr fun v hv _ => ?_
        rw [hpage, hv]

end Ridux
