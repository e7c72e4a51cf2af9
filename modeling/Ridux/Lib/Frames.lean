import Mathlib.Data.List.Flatten
import Mathlib.Data.List.Infix
import Mathlib.Tactic.Common

/-!
# Streams of frames

A stream is a sequence of frames, each of which stands for a list of values on the wire. A receiver
that has read the first `k` values knows the frames that end there, and the start of the next one.

* `wire`, `complete`, `pending`: the values of a stream, the frames within its first `k` values, and
  the values behind those;
* `take_wire`: the first `k` values are those of the complete frames and the pending ones;
* `complete_add`: reading goes on where it stopped;
* `complete_min`: a reader of bounded sight misses no frame when the last one ends in its sight.
-/

namespace Ridux.Lib.Frames

open List

variable {φ α : Type*} (bytes : φ → List α)

/-- The values of a stream. -/
def wire (fs : List φ) : List α := (fs.map bytes).flatten

/-- The frames that end within the first `k` values. -/
def complete : List φ → ℕ → List φ
  | [], _ => []
  | f :: fs, k => if (bytes f).length ≤ k then f :: complete fs (k - (bytes f).length) else []

/-- The values behind the complete frames. -/
def pending (fs : List φ) (k : ℕ) : List α :=
  ((wire bytes fs).take k).drop (wire bytes (complete bytes fs k)).length

variable {bytes} {fs : List φ} {f : φ} {k j : ℕ}

@[simp] theorem wire_nil : wire bytes [] = [] := rfl

@[simp] theorem wire_cons : wire bytes (f :: fs) = bytes f ++ wire bytes fs := rfl

@[simp] theorem wire_append (gs : List φ) :
    wire bytes (fs ++ gs) = wire bytes fs ++ wire bytes gs := by
  simp [wire]

theorem complete_cons_of_le (h : (bytes f).length ≤ k) :
    complete bytes (f :: fs) k = f :: complete bytes fs (k - (bytes f).length) := if_pos h

theorem complete_cons_of_lt (h : k < (bytes f).length) : complete bytes (f :: fs) k = [] :=
  if_neg (by omega)

theorem complete_prefix (fs : List φ) (k : ℕ) : complete bytes fs k <+: fs := by
  induction fs generalizing k with
  | nil => exact prefix_rfl
  | cons f fs ih =>
    unfold complete
    split_ifs
    · exact cons_prefix_cons.2 ⟨rfl, ih _⟩
    · exact nil_prefix

theorem wire_complete_le (fs : List φ) (k : ℕ) :
    (wire bytes (complete bytes fs k)).length ≤ k := by
  induction fs generalizing k with
  | nil => simp [complete]
  | cons f fs ih =>
    unfold complete
    split_ifs with h
    · have := ih (k - (bytes f).length)
      rw [wire_cons, length_append]
      omega
    · simp

theorem take_wire (fs : List φ) (k : ℕ) :
    (wire bytes fs).take k = wire bytes (complete bytes fs k) ++ pending bytes fs k := by
  have hpre : wire bytes (complete bytes fs k) <+: (wire bytes fs).take k := by
    obtain ⟨gs, hgs⟩ : complete bytes fs k <+: fs := complete_prefix fs k
    refine prefix_take_iff.2 ⟨⟨wire bytes gs, ?_⟩, wire_complete_le fs k⟩
    rw [← wire_append, hgs]
  obtain ⟨rest, hrest⟩ := hpre
  rw [pending, ← hrest, drop_left]

theorem pending_cases (fs : List φ) (k : ℕ) :
    pending bytes fs k = [] ∨ ∃ f, ∃ j < (bytes f).length, pending bytes fs k = (bytes f).take j := by
  induction fs generalizing k with
  | nil => exact .inl (by simp [pending])
  | cons f fs ih =>
    by_cases h : (bytes f).length ≤ k
    · have hp : pending bytes (f :: fs) k = pending bytes fs (k - (bytes f).length) := by
        unfold pending
        rw [complete_cons_of_le h, wire_cons, wire_cons, take_append, take_of_length_le h,
          length_append, drop_append, drop_of_length_le (by omega), nil_append]
        congr 1
        omega
      rw [hp]
      exact ih _
    · rw [not_le] at h
      refine .inr ⟨f, k, h, ?_⟩
      unfold pending
      rw [complete_cons_of_lt h, wire_nil, length_nil, drop_zero, wire_cons,
        take_append_of_le_length h.le]

theorem complete_add (fs : List φ) (h : j ≤ k) :
    complete bytes fs k = complete bytes fs j ++
      complete bytes (fs.drop (complete bytes fs j).length)
        (k - (wire bytes (complete bytes fs j)).length) := by
  induction fs generalizing j k with
  | nil => rfl
  | cons f fs ih =>
    by_cases hj : (bytes f).length ≤ j
    · rw [complete_cons_of_le hj, complete_cons_of_le (hj.trans h),
        ih (show j - (bytes f).length ≤ k - (bytes f).length by omega), wire_cons,
        length_append, length_cons, drop_succ_cons, cons_append, Nat.sub_sub]
    · rw [complete_cons_of_lt (show j < (bytes f).length by omega)]
      rfl

theorem drop_wire (fs : List φ) (k : ℕ) :
    (wire bytes fs).drop (wire bytes (complete bytes fs k)).length =
      wire bytes (fs.drop (complete bytes fs k).length) := by
  obtain ⟨gs, hgs⟩ : complete bytes fs k <+: fs := complete_prefix fs k
  generalize complete bytes fs k = cs at hgs ⊢
  rw [← hgs, wire_append, drop_left, drop_left]

theorem complete_of_le (hj : (wire bytes (complete bytes fs k)).length ≤ j) (h : j ≤ k) :
    complete bytes fs j = complete bytes fs k := by
  induction fs generalizing j k with
  | nil => rfl
  | cons f fs ih =>
    by_cases hk : (bytes f).length ≤ k
    · rw [complete_cons_of_le hk] at hj ⊢
      rw [wire_cons, length_append] at hj
      rw [complete_cons_of_le (show (bytes f).length ≤ j by omega),
        ih (k := k - (bytes f).length) (by omega) (by omega)]
    · rw [complete_cons_of_lt (by omega), complete_cons_of_lt (by omega)]

theorem complete_min (b : ℕ) :
    complete bytes fs (min k b) = complete bytes fs k ↔
      (wire bytes (complete bytes fs k)).length ≤ b := by
  constructor
  · intro h
    have : (wire bytes (complete bytes fs (min k b))).length ≤ min k b := wire_complete_le fs _
    rw [h] at this
    omega
  · intro h
    have : (wire bytes (complete bytes fs k)).length ≤ k := wire_complete_le fs k
    exact complete_of_le (by omega) (by omega)

end Ridux.Lib.Frames
