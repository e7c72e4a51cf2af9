import Mathlib.Data.List.Induction
import Mathlib.Data.List.Sublists
import Mathlib.Tactic.Common

/-!
# A stack with a bound

A stack that drops what is pushed when it is full, beside one without a bound.  The top is the
last element.

* `runBounded_sublist`: the bounded stack holds a part of what the other holds;
* `runBounded_eq_iff`: they end equal when the unbounded one came back to the empty stack after
  every overflow.
-/

namespace Ridux.Lib

open List

inductive StackOp (α : Type*)
  | push (a : α)
  | pop
  | keep

namespace StackOp

variable {α : Type*}

/-- One operation; `pop` on the empty stack does nothing. -/
def apply (st : List α) : StackOp α → List α
  | .push a => st ++ [a]
  | .pop => st.dropLast
  | .keep => st

/-- One operation on a stack of at most `cap` elements. -/
def applyBounded (cap : ℕ) (st : List α) : StackOp α → List α
  | .push a => if st.length < cap then st ++ [a] else st
  | .pop => st.dropLast
  | .keep => st

/-- The stack after all operations. -/
def run (ops : List (StackOp α)) : List α := ops.foldl apply []

/-- The bounded stack after all operations. -/
def runBounded (cap : ℕ) (ops : List (StackOp α)) : List α := ops.foldl (applyBounded cap) []

@[simp] theorem run_nil : run ([] : List (StackOp α)) = [] := rfl

@[simp] theorem runBounded_nil (cap : ℕ) : runBounded cap ([] : List (StackOp α)) = [] := rfl

theorem run_concat (ops : List (StackOp α)) (op : StackOp α) :
    run (ops ++ [op]) = apply (run ops) op := by
  simp [run]

theorem runBounded_concat (cap : ℕ) (ops : List (StackOp α)) (op : StackOp α) :
    runBounded cap (ops ++ [op]) = applyBounded cap (runBounded cap ops) op := by
  simp [runBounded]

theorem dropLast_sublist_dropLast {l l' : List α} (h : List.Sublist l l') :
    List.Sublist l.dropLast l'.dropLast := by
  have h' := h.reverse.tail
  rw [tail_reverse, tail_reverse] at h'
  exact reverse_sublist.1 h'

variable {cap : ℕ} {ops : List (StackOp α)}

theorem runBounded_sublist (ops : List (StackOp α)) :
    List.Sublist (runBounded cap ops) (run ops) := by
  induction ops using List.reverseRecOn with
  | nil => simp
  | append_singleton ops op ih =>
    rw [run_concat, runBounded_concat]
    cases op with
    | push a =>
      by_cases hfull : (runBounded cap ops).length < cap
      · simpa [apply, applyBounded, hfull] using ih
      · simpa [apply, applyBounded, hfull] using ih.trans (sublist_append_left _ [a])
    | pop => exact dropLast_sublist_dropLast ih
    | keep => exact ih

theorem runBounded_length_le (ops : List (StackOp α)) : (runBounded cap ops).length ≤ cap := by
  induction ops using List.reverseRecOn with
  | nil => simp
  | append_singleton ops op ih =>
    rw [runBounded_concat]
    cases op with
    | push a =>
      by_cases hfull : (runBounded cap ops).length < cap
      · simp only [applyBounded, if_pos hfull, length_append, length_singleton]
        omega
      · simpa [applyBounded, hfull] using ih
    | pop =>
      simp only [applyBounded, length_dropLast]
      omega
    | keep => exact ih

theorem runBounded_ne_iff (ops : List (StackOp α)) :
    runBounded cap ops ≠ run ops ↔ (runBounded cap ops).length < (run ops).length := by
  have hsub : List.Sublist (runBounded cap ops) (run ops) := runBounded_sublist ops
  constructor
  · intro h
    exact lt_of_le_of_ne hsub.length_le fun he => h (hsub.eq_of_length he)
  · intro h he
    rw [he] at h
    exact lt_irrefl _ h

theorem ne_concat {op : StackOp α} (h : runBounded cap ops ≠ run ops) (hne : run (ops ++ [op]) ≠ []) :
    runBounded cap (ops ++ [op]) ≠ run (ops ++ [op]) := by
  rw [runBounded_ne_iff] at h ⊢
  have hpos : 0 < (run (ops ++ [op])).length := length_pos_of_ne_nil hne
  rw [run_concat] at hpos ⊢
  rw [runBounded_concat]
  cases op with
  | push a =>
    by_cases hfull : (runBounded cap ops).length < cap
    · simpa [apply, applyBounded, hfull] using h
    · simp only [apply, applyBounded, hfull, if_false, length_append, length_singleton]
      omega
  | pop =>
    simp only [apply, applyBounded, length_dropLast] at hpos ⊢
    omega
  | keep => exact h

theorem overflow_of_ne (h : runBounded cap ops ≠ run ops) :
    ∃ pre post, ops = pre ++ post ∧ cap < (run pre).length ∧
      ∀ p q, post = p ++ q → run (pre ++ p) ≠ [] := by
  induction ops using List.reverseRecOn with
  | nil => exact absurd rfl h
  | append_singleton ops op ih =>
    have hne : run (ops ++ [op]) ≠ [] := by
      intro h0
      have hlt := (runBounded_ne_iff _).1 h
      rw [h0] at hlt
      exact Nat.not_lt_zero _ hlt
    by_cases hold : runBounded cap ops = run ops
    · -- the push that found the stack full
      have hfull : cap < (run (ops ++ [op])).length := by
        rw [run_concat, runBounded_concat, hold] at h
        rw [run_concat]
        cases op with
        | push a =>
          by_cases hcap : (run ops).length < cap
          · simp [apply, applyBounded, hcap] at h
          · simp only [apply, length_append, length_singleton]
            omega
        | pop => exact absurd rfl h
        | keep => exact absurd rfl h
      refine ⟨ops ++ [op], [], (append_nil _).symm, hfull, fun p q hpq => ?_⟩
      obtain ⟨rfl, -⟩ := append_eq_nil_iff.1 hpq.symm
      rwa [append_nil]
    · obtain ⟨pre, post, rfl, hcap, hlast⟩ := ih hold
      refine ⟨pre, post ++ [op], by rw [append_assoc], hcap, fun p q hpq => ?_⟩
      rcases eq_nil_or_concat q with rfl | ⟨q, a, rfl⟩
      · rw [append_nil] at hpq
        rwa [← hpq, ← append_assoc]
      · rw [concat_eq_append, ← append_assoc] at hpq
        exact hlast p q (append_inj_left' hpq rfl)

theorem ne_of_overflow {pre : List (StackOp α)} (hcap : cap < (run pre).length)
    (post : List (StackOp α)) (h : ∀ p q, post = p ++ q → run (pre ++ p) ≠ []) :
    runBounded cap (pre ++ post) ≠ run (pre ++ post) := by
  induction post using List.reverseRecOn with
  | nil =>
    rw [append_nil, runBounded_ne_iff]
    exact lt_of_le_of_lt (runBounded_length_le pre) hcap
  | append_singleton post op ih =>
    rw [← append_assoc]
    refine ne_concat (ih fun p q hpq => h p (q ++ [op]) ?_) ?_
    · rw [hpq, append_assoc]
    · have hend := h (post ++ [op]) [] (append_nil _).symm
      rwa [← append_assoc] at hend

/-- After every overflow the operations come back to the empty stack. -/
def Recovers (cap : ℕ) (ops : List (StackOp α)) : Prop :=
  ∀ pre post, ops = pre ++ post → cap < (run pre).length →
    ∃ p q, post = p ++ q ∧ run (pre ++ p) = []

/-- **The bound is not noticed exactly when the operations recover from every overflow.** -/
theorem runBounded_eq_iff (ops : List (StackOp α)) :
    runBounded cap ops = run ops ↔ Recovers cap ops := by
  constructor
  · intro heq pre post hops hcap
    by_contra hnone
    refine ne_of_overflow hcap post (fun p q hpq h0 => hnone ⟨p, q, hpq, h0⟩) ?_
    rw [← hops, heq]
  · intro hrec
    by_contra hne
    obtain ⟨pre, post, hops, hcap, hlast⟩ := overflow_of_ne hne
    obtain ⟨p, q, hpq, h0⟩ := hrec pre post hops hcap
    exact hlast p q hpq h0

end StackOp

end Ridux.Lib
