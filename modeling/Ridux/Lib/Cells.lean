import Mathlib.Data.List.Nodup
import Ridux.Lib.Chunks
import Ridux.Lib.Words

/-!
# Cells that a visitor marks

A visitor goes along a list; each item may point at a cell, and the visitor marks the cells it owns.

* `visit`: the items at which a cell was marked, and the cells behind the visit;
* `visit_cells`, `visit_marked`, `visit_nodup`: every cell that is owned and pointed at is marked, and once
  only;
* `cell`, `setCell`: the 32-bit cells of a memory of bytes.
-/

namespace Ridux.Lib

open Function List

variable {ι κ ω : Type*}

/-! ### The visit -/

section Visit

variable [DecidableEq κ] (target : ι → Option κ) (own : ω → Bool) (f : ω → ω)

/-- Go along a list: a cell that an item points at, and that is owned, becomes `f` of what it was. -/
def visit : List ι → (κ → ω) → List ι × (κ → ω)
  | [], w => ([], w)
  | i :: l, w =>
    match target i with
    | none => visit l w
    | some k =>
      if own (w k) then
        (i :: (visit l (update w k (f (w k)))).1, (visit l (update w k (f (w k)))).2)
      else visit l w

variable {target own f} {l : List ι} {i : ι} {k : κ} {w : κ → ω}

theorem visit_none (h : target i = none) : visit target own f (i :: l) w = visit target own f l w := by
  rw [visit, h]

theorem visit_other (h : target i = some k) (hown : own (w k) = false) :
    visit target own f (i :: l) w = visit target own f l w := by
  rw [visit, h]
  simp [hown]

theorem visit_own (h : target i = some k) (hown : own (w k) = true) :
    visit target own f (i :: l) w =
      (i :: (visit target own f l (update w k (f (w k)))).1,
        (visit target own f l (update w k (f (w k)))).2) := by
  rw [visit, h]
  simp [hown]

/-- **The cells behind a visit**: those that are owned and pointed at are marked, the others are kept. -/
theorem visit_cells (hf : ∀ x, own (f x) = true → f (f x) = f x) (l : List ι) (w : κ → ω) (k : κ) :
    (visit target own f l w).2 k = if some k ∈ l.map target ∧ own (w k) = true then f (w k) else w k := by
  induction l generalizing w with
  | nil => simp [visit]
  | cons i l ih =>
    cases hi : target i with
    | none => simp [visit_none hi, ih, hi]
    | some k' =>
      cases hown : own (w k') with
      | false =>
        rw [visit_other hi hown, ih]
        by_cases hk : k = k'
        · simp [hk, hown]
        · simp [hi, hk]
      | true =>
        rw [visit_own hi hown]
        simp only [ih]
        by_cases hk : k = k'
        -- a second visit finds the mark, and leaves it
        · subst hk
          have hfirst : some k ∈ (i :: l).map target ∧ own (w k) = true := ⟨by simp [hi], hown⟩
          rw [update_self, if_pos hfirst]
          split_ifs with hagain
          · exact hf _ hagain.2
          · rfl
        · simp [hi, hk]

/-- **The marks of a visit** are made at the cells that are owned and pointed at. -/
theorem visit_marked (l : List ι) (w : κ → ω) (k : κ) :
    some k ∈ (visit target own f l w).1.map target ↔ some k ∈ l.map target ∧ own (w k) = true := by
  induction l generalizing w with
  | nil => simp [visit]
  | cons i l ih =>
    cases hi : target i with
    | none => simp [visit_none hi, ih, hi]
    | some k' =>
      cases hown : own (w k') with
      | false =>
        rw [visit_other hi hown, ih]
        by_cases hk : k = k'
        · simp [hk, hown]
        · simp [hi, hk]
      | true =>
        rw [visit_own hi hown, map_cons, mem_cons, ih]
        by_cases hk : k = k'
        · simp [hi, hk, hown]
        · simp [hi, hk]

theorem visit_sublist (l : List ι) (w : κ → ω) : (visit target own f l w).1.Sublist l := by
  induction l generalizing w with
  | nil => exact List.Sublist.refl _
  | cons i l ih =>
    cases hi : target i with
    | none =>
      rw [visit_none hi]
      exact (ih w).cons i
    | some k =>
      cases hown : own (w k) with
      | false =>
        rw [visit_other hi hown]
        exact (ih w).cons i
      | true =>
        rw [visit_own hi hown]
        exact (ih _).cons_cons i

theorem visit_nodup (hf : ∀ x, own x = true → own (f x) = false) (l : List ι) (w : κ → ω) :
    ((visit target own f l w).1.map target).Nodup := by
  induction l generalizing w with
  | nil => exact nodup_nil
  | cons i l ih =>
    cases hi : target i with
    | none =>
      rw [visit_none hi]
      exact ih w
    | some k =>
      cases hown : own (w k) with
      | false =>
        rw [visit_other hi hown]
        exact ih w
      | true =>
        rw [visit_own hi hown, map_cons, nodup_cons, hi]
        refine ⟨fun hmem => ?_, ih _⟩
        have hagain := ((visit_marked _ _ _).1 hmem).2
        rw [update_self, hf _ hown] at hagain
        cases hagain

end Visit

/-! ### The cells of a memory -/

/-- The 32-bit word with index `k` of a memory of bytes. -/
def cell (mem : ℕ → UInt8) (k : ℕ) : BitVec 32 := BitVec.ofNat 32 (leNat ((List.range' (4 * k) 4).map mem))

/-- Store a 32-bit word. -/
def setCell (mem : ℕ → UInt8) (k : ℕ) (x : BitVec 32) : ℕ → UInt8 := storeAt mem (4 * k) (leBytes 4 x.toNat)

/-- **A word is stored in its own cell.** -/
theorem cell_setCell (mem : ℕ → UInt8) (k : ℕ) (x : BitVec 32) :
    cell (setCell mem k x) = update (cell mem) k x := by
  have hstore : setCell mem k x = storeAll mem (List.range' (4 * k) 4) (leBytes 4 x.toNat) := by
    rw [setCell, storeAt_eq, length_leBytes]
  funext k'
  by_cases hk : k' = k
  · subst hk
    have hbytes := storeAll_of_nodup (nodup_range' (s := 4 * k') (n := 4)) (leBytes 4 x.toNat) mem
      (by rw [length_range', length_leBytes])
    have hmap : (List.range' (4 * k') 4).map (setCell mem k' x) = leBytes 4 x.toNat := by
      rw [hstore]
      exact List.forall₂_eq_eq_eq.symm ▸ (List.forall₂_map_left_iff.2 hbytes)
    rw [update_self, cell, hmap, leNat_leBytes]
    apply BitVec.eq_of_toNat_eq
    rw [BitVec.toNat_ofNat]
    have := x.isLt
    omega
  · rw [update_of_ne hk]
    unfold cell
    congr 2
    refine map_congr_left fun p hp => ?_
    rw [hstore]
    refine storeAll_of_not_mem (fun hp' => hk ?_) _ _
    rw [mem_range'_1] at hp hp'
    omega

end Ridux.Lib
