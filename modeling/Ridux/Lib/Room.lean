import Mathlib.Data.List.Basic
import Mathlib.Tactic.Common

/-!
# Messages that find room

Messages are put into a buffer one after the other, each as a whole, up to the first that finds no room.

* `fitting`: the messages that are put there;
* `fitting_eq_self_iff`, `fitting_eq_nil_iff`: all of them, or none;
* `flatten_prefix_iff`: some messages of a list have the cells of all of them, and more, only if they are all.
-/

namespace Ridux.Lib

open List

variable {α : Type*}

/-- The messages that find room, up to the first that does not. -/
def fitting : ℕ → List (List α) → List (List α)
  | _, [] => []
  | room, m :: ms => if m.length ≤ room then m :: fitting (room - m.length) ms else []

variable {room : ℕ} {ms us vs : List (List α)}

theorem fitting_isPrefix (room : ℕ) (ms : List (List α)) : fitting room ms <+: ms := by
  induction ms generalizing room with
  | nil => exact prefix_refl []
  | cons m ms ih =>
    rw [fitting]
    split_ifs
    · exact (prefix_cons_inj m).2 (ih _)
    · exact nil_prefix

theorem length_fitting_le (room : ℕ) (ms : List (List α)) : (fitting room ms).flatten.length ≤ room := by
  induction ms generalizing room with
  | nil => exact Nat.zero_le room
  | cons m ms ih =>
    rw [fitting]
    split_ifs with hm
    · have hrest := ih (room - m.length)
      rw [flatten_cons, length_append]
      omega
    · exact Nat.zero_le room

theorem fitting_eq_self_iff : fitting room ms = ms ↔ ms.flatten.length ≤ room := by
  constructor
  · intro h
    rw [← h]
    exact length_fitting_le room ms
  · intro h
    induction ms generalizing room with
    | nil => rfl
    | cons m ms ih =>
      rw [flatten_cons, length_append] at h
      rw [fitting, if_pos (by omega), ih (by omega)]

theorem fitting_eq_nil_iff : fitting room ms = [] ↔ ∀ m ∈ ms.head?, room < m.length := by
  cases ms with
  | nil => exact iff_of_true rfl fun m hm => (by cases hm)
  | cons m ms =>
    rw [fitting]
    constructor
    · intro h m' hm'
      obtain rfl := Option.some.inj hm'
      split_ifs at h with hm
      exact Nat.not_le.1 hm
    · intro h
      exact if_neg (Nat.not_le.2 (h m rfl))

theorem flatten_eq_nil_iff (h : ∀ m ∈ ms, m ≠ []) : ms.flatten = [] ↔ ms = [] := by
  constructor
  · intro he
    cases ms with
    | nil => rfl
    | cons m ms =>
      rw [flatten_cons, append_eq_nil_iff] at he
      exact absurd he.1 (h m mem_cons_self)
  · rintro rfl
    rfl

/-- The first messages of a list have the cells of the whole list, and of others, only if they are the whole list
and there are no others. -/
theorem flatten_prefix_iff (hms : ∀ m ∈ ms, m ≠ []) (hvs : ∀ m ∈ vs, m ≠ []) (h : us <+: ms) :
    us.flatten = ms.flatten ++ vs.flatten ↔ us = ms ∧ vs = [] := by
  constructor
  · intro he
    obtain ⟨ws, rfl⟩ := h
    rw [flatten_append, append_assoc, self_eq_append_right, append_eq_nil_iff] at he
    have hws : ws = [] := (flatten_eq_nil_iff fun m hm => hms m (mem_append_right _ hm)).1 he.1
    rw [hws, append_nil]
    exact ⟨rfl, (flatten_eq_nil_iff hvs).1 he.2⟩
  · rintro ⟨rfl, rfl⟩
    rw [flatten_nil, append_nil]

end Ridux.Lib
