import Ridux.Lib.Words

/-!
# Areas that are filled downwards

* `Pile`, `Pile.push`: cells go below those that are there, if there is room;
* `Pile.Filled`: what stands in the area is a list, and below it nothing was written;
* `Filled.push`, `Filled.lower`: the list grows at its front; `Filled.cells`: its parts are read back.
-/

namespace Ridux.Lib

open List

/-- The lowest cell that is in use, and the memory. -/
structure Pile (α : Type*) where
  sp : ℕ
  mem : ℕ → α

variable {α : Type*} {mem : ℕ → α} {base top n : ℕ} {xs l : List α} {s t : Pile α}

/-- The `n` cells from `a` on. -/
def cellsAt (mem : ℕ → α) (a n : ℕ) : List α := (List.range n).map fun i => mem (a + i)

namespace Pile

/-- Cells go below the others, unless they go below `base`. -/
def push (base : ℕ) (s : Pile α) (xs : List α) : Option (Pile α) :=
  if s.sp < base + xs.length then none
  else some
    { sp := s.sp - xs.length
      mem := fun x => if s.sp - xs.length ≤ x then xs[x - (s.sp - xs.length)]?.getD (s.mem x) else s.mem x }

/-- `l` stands in the cells up to `top`, and nothing was written below it. -/
structure Filled (base top : ℕ) (mem : ℕ → α) (s : Pile α) (l : List α) : Prop where
  base : base ≤ s.sp
  top : s.sp + l.length = top
  inside : ∀ i (hi : i < l.length), s.mem (s.sp + i) = l[i]
  below : ∀ x < s.sp, s.mem x = mem x

theorem Filled.push (h : Filled base top mem s l) (hp : s.push base xs = some t) :
    Filled base top mem t (xs ++ l) := by
  unfold Pile.push at hp
  split_ifs at hp with hlt
  obtain rfl := Option.some.inj hp
  have htop := h.top
  refine ⟨by dsimp only; omega, by rw [length_append]; dsimp only; omega, fun i hi => ?_, fun x hx => ?_⟩
  · dsimp only
    rw [if_pos (Nat.le_add_right _ _), Nat.add_sub_cancel_left]
    by_cases hx : i < xs.length
    · rw [getElem_append_left hx, getElem?_eq_getElem hx, Option.getD_some]
    · rw [length_append] at hi
      rw [getElem_append_right (by omega), getElem?_eq_none (by omega), Option.getD_none, ← h.inside]
      congr 1
      omega
  · dsimp only at hx ⊢
    rw [if_neg (by omega)]
    exact h.below x (by omega)

theorem Filled.lower (h : Filled base top mem s l) (hn : base + n ≤ s.sp) :
    ∃ pad : List α, Filled base top mem ⟨s.sp - n, s.mem⟩ (pad ++ l) := by
  have htop := h.top
  have hlen : (cellsAt s.mem (s.sp - n) n).length = n := by simp [cellsAt]
  refine ⟨_, by dsimp only; omega, by rw [length_append, hlen]; dsimp only; omega, fun i hi => ?_,
    fun x hx => h.below x (by dsimp only at hx; omega)⟩
  by_cases hx : i < n
  · rw [getElem_append_left (by omega)]
    simp [cellsAt]
  · rw [length_append] at hi
    rw [getElem_append_right (by omega), ← h.inside]
    dsimp only
    congr 1
    omega

theorem Filled.cells {pre post : List α} (h : Filled base top mem s (pre ++ (xs ++ post))) :
    cellsAt s.mem (s.sp + pre.length) xs.length = xs := by
  refine ext_getElem (by simp [cellsAt]) fun i hi hx => ?_
  have hin := h.inside (pre.length + i) (by simp only [length_append]; omega)
  rw [getElem_append_right (by omega), getElem_append_left (by omega)] at hin
  simp only [cellsAt, getElem_map, getElem_range, Nat.add_assoc, hin, Nat.add_sub_cancel_left]

end Pile

end Ridux.Lib
