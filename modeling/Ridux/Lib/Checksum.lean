import Mathlib.Algebra.Group.Nat.Defs
import Mathlib.Data.List.Basic
import Mathlib.Tactic.Common

/-!
# Sums in ones' complement

Sums of 16-bit words whose carries are added back at the low end.

* `foldCarry`: the carries of a sum are added back until none is left;
* `foldCarry_mod`, `foldCarry_pos`: it keeps the sum modulo `2 ^ 16 - 1`, and a positive sum positive;
* `foldCarry_complete`: a sum and the complement of its own folded sum fold to ones;
* `wordSum`: the sum of the words of a list of bytes, high byte first.
-/

namespace Ridux.Lib

open List

/-- Add the carries of a sum back, in at most `fuel` rounds. -/
def foldCarryAux : ℕ → ℕ → ℕ
  | 0, s => s
  | fuel + 1, s => if s < 65536 then s else foldCarryAux fuel (s % 65536 + s / 65536)

/-- Add the carries of a sum back; a round makes a sum with carries smaller. -/
def foldCarry (s : ℕ) : ℕ := foldCarryAux s s

theorem foldCarryAux_spec (fuel : ℕ) : ∀ s ≤ fuel,
    foldCarryAux fuel s < 65536 ∧ foldCarryAux fuel s % 65535 = s % 65535 ∧
      (0 < s → 0 < foldCarryAux fuel s) := by
  induction fuel with
  | zero =>
    intro s hs
    obtain rfl : s = 0 := by omega
    exact ⟨by decide, rfl, id⟩
  | succ fuel ih =>
    intro s hs
    unfold foldCarryAux
    split_ifs with hlt
    · exact ⟨hlt, rfl, id⟩
    · obtain ⟨hsmall, hmod, hpos⟩ := ih (s % 65536 + s / 65536) (by omega)
      exact ⟨hsmall, by omega, fun _ => hpos (by omega)⟩

theorem foldCarry_lt (s : ℕ) : foldCarry s < 65536 := (foldCarryAux_spec s s (Nat.le_refl s)).1

theorem foldCarry_mod (s : ℕ) : foldCarry s % 65535 = s % 65535 := (foldCarryAux_spec s s (Nat.le_refl s)).2.1

theorem foldCarry_pos {s : ℕ} (h : 0 < s) : 0 < foldCarry s := (foldCarryAux_spec s s (Nat.le_refl s)).2.2 h

/-- **A sum and its complement fold to ones.** -/
theorem foldCarry_complete {s : ℕ} (h : 0 < s) : foldCarry (s + (65535 - foldCarry s)) = 65535 := by
  have hlt := foldCarry_lt s
  have hmod := foldCarry_mod s
  have hlt' := foldCarry_lt (s + (65535 - foldCarry s))
  have hmod' := foldCarry_mod (s + (65535 - foldCarry s))
  have hpos' := foldCarry_pos (show 0 < s + (65535 - foldCarry s) by omega)
  omega

/-- The sum of the words of a list of bytes; a last byte without a second one is a high byte. -/
def wordSum : List UInt8 → ℕ
  | [] => 0
  | [x] => x.toNat * 256
  | x :: y :: rest => x.toNat * 256 + y.toNat + wordSum rest

theorem wordSum_append : ∀ {xs : List UInt8} (ys : List UInt8), 2 ∣ xs.length →
    wordSum (xs ++ ys) = wordSum xs + wordSum ys
  | [], ys, _ => (Nat.zero_add _).symm
  | [x], _, h => by rw [length_singleton] at h; omega
  | x :: y :: rest, ys, h => by
    have hrest : 2 ∣ rest.length := by
      rw [length_cons, length_cons] at h
      omega
    rw [cons_append, cons_append, wordSum, wordSum, wordSum_append ys hrest]
    omega

theorem wordSum_le : ∀ xs : List UInt8, wordSum xs ≤ 65535 * xs.length
  | [] => Nat.le_refl _
  | [x] => by
    have := x.toNat_lt
    rw [wordSum, length_singleton]
    omega
  | x :: y :: rest => by
    have := x.toNat_lt
    have := y.toNat_lt
    have := wordSum_le rest
    rw [wordSum, length_cons, length_cons]
    omega

end Ridux.Lib
