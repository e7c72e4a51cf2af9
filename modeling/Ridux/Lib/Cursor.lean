import Mathlib.Data.List.Basic
import Mathlib.Data.Nat.Find

/-!
# Reading a list in pages

A reader that remembers only how many items it has passed, and takes from there as many items as
have room.

* `page`: the items of one call;
* `position`, `pages`: where a call starts, and everything that calls before it have returned;
* `exists_exhausted`: with room for an item in every call, the list is returned once, in order, and
  then nothing more.
-/

namespace Ridux.Lib

open List

variable {α : Type*} (items : List α) (room : ℕ → ℕ) {i : ℕ}

/-- The items from `pos` on, as many as have room. -/
def page (pos room : ℕ) : List α := (items.drop pos).take room

/-- How many items the calls before the `i`-th have passed. -/
def position : ℕ → ℕ
  | 0 => 0
  | i + 1 => position i + (page items (position i) (room i)).length

/-- What the first `i` calls return. -/
def pages (i : ℕ) : List α := (List.range i).flatMap fun j => page items (position items room j) (room j)

theorem position_le (i : ℕ) : position items room i ≤ items.length := by
  induction i with
  | zero => exact Nat.zero_le _
  | succ i ih =>
    simp only [position, page, length_take, length_drop]
    omega

theorem pages_eq (i : ℕ) : pages items room i = items.take (position items room i) := by
  induction i with
  | zero => simp [pages, position]
  | succ i ih =>
    have hle := position_le items room i
    rw [pages, range_succ, flatMap_append, ← pages, ih]
    simp only [flatMap_cons, flatMap_nil, append_nil, position]
    rw [take_add]
    congr 1
    simp [page]

theorem page_eq_nil {pos r : ℕ} (hr : 0 < r) : page items pos r = [] ↔ items.length ≤ pos := by
  rw [page, take_eq_nil_iff, drop_eq_nil_iff]
  constructor
  · rintro (h | h)
    · omega
    · exact h
  · exact .inr

theorem position_lt (hroom : 0 < room i) (h : position items room i < items.length) :
    position items room i < position items room (i + 1) := by
  have hpage : page items (position items room i) (room i) ≠ [] := by
    rw [Ne, page_eq_nil items hroom]
    omega
  have hpos := length_pos_iff.2 hpage
  simp only [position]
  omega

theorem le_position (hroom : ∀ j, 0 < room j) (hi : i ≤ items.length) :
    i ≤ position items room i := by
  induction i with
  | zero => exact Nat.zero_le _
  | succ i ih =>
    have hle := ih (by omega)
    by_cases hlt : position items room i < items.length
    · have := position_lt items room (hroom i) hlt
      omega
    · simp only [position]
      omega

theorem position_mono {j : ℕ} (h : i ≤ j) : position items room i ≤ position items room j := by
  induction h with
  | refl => exact le_rfl
  | step _ ih =>
    simp only [position]
    omega

theorem exists_exhausted (hroom : ∀ j, 0 < room j) :
    ∃ n, (∀ i < n, page items (position items room i) (room i) ≠ []) ∧ pages items room n = items ∧
      ∀ i, n ≤ i → page items (position items room i) (room i) = [] := by
  have hex : ∃ n, items.length ≤ position items room n := ⟨items.length, le_position items room hroom le_rfl⟩
  refine ⟨Nat.find hex, ?_, ?_, ?_⟩
  · intro i hi he
    exact Nat.find_min hex hi ((page_eq_nil items (hroom i)).1 he)
  · rw [pages_eq, take_of_length_le (Nat.find_spec hex)]
  · intro i hi
    rw [page_eq_nil items (hroom i)]
    exact Nat.le_trans (Nat.find_spec hex) (position_mono items room hi)

end Ridux.Lib
