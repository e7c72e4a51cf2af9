import Mathlib.Logic.Basic
import Mathlib.Tactic.Common

/-!
# Tables that link tables

A multi-level table is given by its links: `next f i` is the table that entry `i` of table `f` links.
A table at level `l` links tables at level `l - 1`; level 0 links nothing.

* `Under`: the tables below a table;
* `OnPath`: the tables on the path that takes the index `π l` at level `l`;
* `Apart`: the tables on the path are linked once;
* `Apart.fresh`: linking a fresh table on the path keeps it apart.
-/

namespace Ridux.Lib

open Function

variable {κ ι : Type*}

/-- The table `h` is `f` or below `f`, a table at level `l`. -/
def Under (next : κ → ι → Option κ) : ℕ → κ → κ → Prop
  | 0, f, h => h = f
  | l + 1, f, h => h = f ∨ ∃ i g, next f i = some g ∧ Under next l g h

/-- The table `h` is on the path from `f`. -/
def OnPath (next : κ → ι → Option κ) (π : ℕ → ι) : ℕ → κ → κ → Prop
  | 0, f, h => h = f
  | l + 1, f, h => h = f ∨ ∃ g, next f (π (l + 1)) = some g ∧ OnPath next π l g h

/-- The tables on the path from `f` are linked once below `f`. -/
def Apart (next : κ → ι → Option κ) (π : ℕ → ι) : ℕ → κ → Prop
  | 0, _ => True
  | l + 1, f => (∀ i g, next f i = some g → ¬ Under next l g f) ∧
      ∀ g, next f (π (l + 1)) = some g → Apart next π l g ∧
        ∀ j g', j ≠ π (l + 1) → next f j = some g' → ∀ h, OnPath next π l g h → ¬ Under next l g' h

variable {next next' : κ → ι → Option κ} {π : ℕ → ι} {l : ℕ} {f g h : κ}

theorem Under.self (next : κ → ι → Option κ) (l : ℕ) (f : κ) : Under next l f f := by
  cases l with
  | zero => rfl
  | succ l => exact .inl rfl

theorem OnPath.self (next : κ → ι → Option κ) (π : ℕ → ι) (l : ℕ) (f : κ) : OnPath next π l f f := by
  cases l with
  | zero => rfl
  | succ l => exact .inl rfl

theorem OnPath.under (hh : OnPath next π l f h) : Under next l f h := by
  induction l generalizing f with
  | zero => exact hh
  | succ l ih =>
    rcases hh with hh | ⟨g, hg, hh⟩
    · exact .inl hh
    · exact .inr ⟨_, g, hg, ih hh⟩

theorem under_congr (hsame : ∀ k, Under next l f k → next' k = next k) :
    Under next' l f h ↔ Under next l f h := by
  induction l generalizing f with
  | zero => exact Iff.rfl
  | succ l ih =>
    have hf := hsame f (Under.self next _ f)
    have hsub : ∀ i g, next f i = some g → (Under next' l g h ↔ Under next l g h) :=
      fun i g hg => ih fun k hk => hsame k (.inr ⟨i, g, hg, hk⟩)
    unfold Under
    rw [hf]
    constructor
    · rintro (hh | ⟨i, g, hg, hh⟩)
      · exact .inl hh
      · exact .inr ⟨i, g, hg, (hsub i g hg).1 hh⟩
    · rintro (hh | ⟨i, g, hg, hh⟩)
      · exact .inl hh
      · exact .inr ⟨i, g, hg, (hsub i g hg).2 hh⟩

/-- The links after a table at level `l` without links was linked. -/
structure Linked [DecidableEq ι] (next next' : κ → ι → Option κ) (l : ℕ) (f : κ) (i : ι) (g : κ) : Prop where
  absent : next f i = none
  here : next' f = update (next f) i (some g)
  empty : 0 < l → ∀ j, next' g j = none
  others : ∀ k, k ≠ f → k ≠ g → next' k = next k

section Fresh

variable [DecidableEq ι] {i : ι}

theorem Linked.under_fresh (hl : Linked next next' l f i g) : Under next' l g h ↔ h = g := by
  cases l with
  | zero => exact Iff.rfl
  | succ l =>
    unfold Under
    simp only [hl.empty l.succ_pos, reduceCtorEq, false_and, exists_false, or_false]

theorem Apart.fresh (hl : Linked next next' l f (π (l + 1)) g) (hg : ¬ Under next (l + 1) f g)
    (ha : Apart next π (l + 1) f) : Apart next' π (l + 1) f ∧
      ∀ h, Under next' (l + 1) f h ↔ Under next (l + 1) f h ∨ h = g := by
  obtain ⟨hself, -⟩ := ha
  have hgf : g ≠ f := by
    rintro rfl
    exact hg (.inl rfl)
  have hold : ∀ j g', next f j = some g' → j ≠ π (l + 1) := by
    rintro j g' hj rfl
    rw [hl.absent] at hj
    cases hj
  have hnext : ∀ j, j ≠ π (l + 1) → next' f j = next f j := by
    intro j hj
    rw [hl.here, update_of_ne hj]
  -- the old subtables have neither `f` nor the fresh table below them
  have hsub : ∀ j g', next f j = some g' → ∀ k, Under next l g' k → next' k = next k := by
    intro j g' hj k hk
    apply hl.others
    · rintro rfl
      exact hself j g' hj hk
    · rintro rfl
      exact hg (.inr ⟨j, g', hj, hk⟩)
  refine ⟨⟨fun j g' hj => ?_, fun g' hg' => ?_⟩, fun h => ?_⟩
  · by_cases hji : j = π (l + 1)
    · rw [hji, hl.here, update_self] at hj
      obtain rfl := Option.some.inj hj
      rw [hl.under_fresh]
      exact hgf.symm
    · rw [hnext j hji] at hj
      rw [under_congr (hsub j g' hj)]
      exact hself j g' hj
  · rw [hl.here, update_self] at hg'
    obtain rfl := Option.some.inj hg'
    refine ⟨?_, fun j g' hj hj' k hk => ?_⟩
    · cases l with
      | zero => trivial
      | succ l =>
        refine ⟨fun j k hk => ?_, fun k hk => ?_⟩
        · rw [hl.empty l.succ_pos] at hk
          cases hk
        · rw [hl.empty l.succ_pos] at hk
          cases hk
    · obtain rfl := hl.under_fresh.1 hk.under
      rw [hnext j hj] at hj'
      rw [under_congr (hsub j g' hj')]
      exact fun hk => hg (.inr ⟨j, g', hj', hk⟩)
  · unfold Under
    constructor
    · rintro (hh | ⟨j, k, hk, hh⟩)
      · exact .inl (.inl hh)
      · by_cases hji : j = π (l + 1)
        · rw [hji, hl.here, update_self] at hk
          obtain rfl := Option.some.inj hk
          exact .inr (hl.under_fresh.1 hh)
        · rw [hnext j hji] at hk
          exact .inl (.inr ⟨j, k, hk, (under_congr (hsub j k hk)).1 hh⟩)
    · rintro ((hh | ⟨j, k, hk, hh⟩) | rfl)
      · exact .inl hh
      · refine .inr ⟨j, k, ?_, (under_congr (hsub j k hk)).2 hh⟩
        rw [hnext j (hold j k hk), hk]
      · refine .inr ⟨π (l + 1), h, ?_, Under.self next' l h⟩
        rw [hl.here, update_self]

end Fresh

end Ridux.Lib
