import Mathlib.Data.List.TakeDrop
import Mathlib.Tactic.Common

/-!
# Reading and writing inside a buffer

A buffer is a list of cells.  What is read or written outside of it has no result, so that a program
whose result exists has stayed inside.

* `within`: a value that is read off some cells of a buffer;
* `block`, `poke`: a block of cells, and a block that is written over;
* `poke_append`: a block written behind a prefix leaves the prefix alone;
* `overwrite`: a block that is written over where the caller has made sure of the room;
* `absorb`, `absorb_resume`: the whole blocks of a list, and of a list that goes on.
-/

namespace Ridux.Lib

open List

variable {α β : Type*} {b xs ys : List α} {i n : ℕ}

/-- A value read off the `n` cells from `i` on; there is none when one of them lies outside. -/
def within (b : List α) (i n : ℕ) (v : β) : Option β := if i + n ≤ b.length then some v else none

/-- The `n` cells from `i` on. -/
def block (b : List α) (i n : ℕ) : Option (List α) := within b i n ((b.drop i).take n)

/-- The buffer with `xs` written from the cell `i` on. -/
def poke (b : List α) (i : ℕ) (xs : List α) : Option (List α) :=
  within b i xs.length (b.take i ++ xs ++ b.drop (i + xs.length))

theorem within_of_le (h : i + n ≤ b.length) (v : β) : within b i n v = some v := if_pos h

theorem within_of_lt (h : b.length < i + n) (v : β) : within b i n v = none := if_neg (Nat.not_le.2 h)

theorem block_of_le (h : i + n ≤ b.length) : block b i n = some ((b.drop i).take n) := within_of_le h _

theorem block_eq_some (h : block b i n = some ys) : i + n ≤ b.length ∧ ys = (b.drop i).take n := by
  unfold block within at h
  split_ifs at h with hle
  exact ⟨hle, (Option.some.inj h).symm⟩

theorem exists_block_iff {p : List α → Prop} :
    (∃ ys, block b i n = some ys ∧ p ys) ↔ i + n ≤ b.length ∧ p ((b.drop i).take n) := by
  constructor
  · rintro ⟨ys, h, hp⟩
    obtain ⟨hle, rfl⟩ := block_eq_some h
    exact ⟨hle, hp⟩
  · rintro ⟨hle, hp⟩
    exact ⟨_, block_of_le hle, hp⟩

theorem length_block (h : block b i n = some ys) : ys.length = n := by
  obtain ⟨hle, rfl⟩ := block_eq_some h
  rw [length_take, length_drop]
  omega

theorem poke_of_le (h : i + xs.length ≤ b.length) :
    poke b i xs = some (b.take i ++ xs ++ b.drop (i + xs.length)) := within_of_le h _

theorem poke_append {pre : List α} (h : xs.length ≤ b.length) :
    poke (pre ++ b) pre.length xs = some (pre ++ xs ++ b.drop xs.length) := by
  rw [poke_of_le (by rw [length_append]; omega), take_left, drop_append,
    drop_eq_nil_of_le (Nat.le_add_right ..), Nat.add_sub_cancel_left, nil_append]

/-- The buffer with `xs` written from the cell `i` on, where it has room. -/
def overwrite (b : List α) (i : ℕ) (xs : List α) : List α := b.take i ++ xs ++ b.drop (i + xs.length)

theorem overwrite_append (pre b xs : List α) :
    overwrite (pre ++ b) pre.length xs = pre ++ xs ++ b.drop xs.length := by
  rw [overwrite, take_left, drop_append, drop_eq_nil_of_le (Nat.le_add_right ..),
    Nat.add_sub_cancel_left, nil_append]

/-! ### Blocks of one size -/

section Blocks

variable {α σ : Type*} {n : ℕ} (f : σ → List α → σ) (s : σ) {a b : List α}

/-- Take the whole blocks of `n` cells one after another. -/
def absorb (n : ℕ) (f : σ → List α → σ) (s : σ) (xs : List α) : σ :=
  if 0 < n ∧ n ≤ xs.length then absorb n f (f s (xs.take n)) (xs.drop n) else s
termination_by xs.length
decreasing_by rw [length_drop]; omega

/-- The cells behind the last whole block. -/
def behind (n : ℕ) (xs : List α) : List α := xs.drop (xs.length - xs.length % n)

@[simp] theorem length_behind (n : ℕ) (xs : List α) : (behind n xs).length = xs.length % n := by
  rw [behind, length_drop, Nat.sub_sub_self (Nat.mod_le ..)]

theorem absorb_of_lt (h : a.length < n) : absorb n f s a = s := by
  rw [absorb, if_neg (by omega)]

theorem absorb_block (hn : 0 < n) (ha : a.length = n) :
    absorb n f s (a ++ b) = absorb n f (f s a) b := by
  rw [absorb, if_pos ⟨hn, by rw [length_append]; omega⟩, ← ha, take_left, drop_left]

theorem absorb_one (hn : 0 < n) (ha : a.length = n) : absorb n f s a = f s a := by
  rw [← append_nil a, absorb_block f s hn ha, absorb_of_lt f _ (a := []) hn, append_nil]

theorem absorb_append (hn : 0 < n) (ha : n ∣ a.length) :
    absorb n f s (a ++ b) = absorb n f (absorb n f s a) b := by
  obtain ⟨k, hk⟩ := ha
  induction k generalizing s a with
  | zero => rw [eq_nil_of_length_eq_zero hk, absorb_of_lt f s (a := []) hn, nil_append]
  | succ k ih =>
    rw [Nat.mul_succ] at hk
    have hhead : (a.take n).length = n := by rw [length_take]; omega
    have hrest : (a.drop n).length = n * k := by rw [length_drop]; omega
    rw [← take_append_drop n a, append_assoc, absorb_block f s hn hhead, absorb_block f s hn hhead,
      ih _ hrest]

/-- A list is its whole blocks and what is behind them. -/
theorem exists_behind (n : ℕ) (xs : List α) : ∃ w, xs = w ++ behind n xs ∧ n ∣ w.length := by
  refine ⟨xs.take (xs.length - xs.length % n), (take_append_drop ..).symm, ?_⟩
  rw [length_take, Nat.min_eq_left (Nat.sub_le ..)]
  exact Nat.dvd_sub_mod _

theorem behind_append (ha : n ∣ a.length) : behind n (a ++ b) = behind n b := by
  obtain ⟨k, hk⟩ := ha
  have := Nat.mod_le b.length n
  rw [behind, behind, length_append, hk, Nat.mul_add_mod, drop_append, drop_eq_nil_of_le (by omega),
    nil_append]
  congr 1
  omega

theorem behind_of_lt (h : a.length < n) : behind n a = a := by
  rw [behind, Nat.mod_eq_of_lt h, Nat.sub_self, drop_zero]

theorem absorb_resume (hn : 0 < n) (xs ys : List α) :
    absorb n f s (xs ++ ys) = absorb n f (absorb n f s xs) (behind n xs ++ ys) := by
  obtain ⟨w, hw, hdvd⟩ := exists_behind n xs
  have hbehind : (behind n xs).length < n := (length_behind n xs).symm ▸ Nat.mod_lt _ hn
  have hwhole : absorb n f s xs = absorb n f s w := by
    conv_lhs => rw [hw, absorb_append f s hn hdvd, absorb_of_lt f _ hbehind]
  rw [hwhole, ← absorb_append f s hn hdvd, ← append_assoc, ← hw]

theorem behind_resume (xs ys : List α) : behind n (xs ++ ys) = behind n (behind n xs ++ ys) := by
  obtain ⟨w, hw, hdvd⟩ := exists_behind n xs
  conv_lhs => rw [hw, append_assoc, behind_append hdvd]

end Blocks

end Ridux.Lib
