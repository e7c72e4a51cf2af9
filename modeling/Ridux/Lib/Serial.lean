import Mathlib.Algebra.Group.Nat.Defs
import Mathlib.Tactic.Common

/-!
# Serial numbers

Numbers of 32 bits that count on past the end.

* `ahead a b`: how far `b` is ahead of `a`;
* `ahead_add`, `ahead_sub`: what becomes of a distance when one of the two numbers moves.
-/

namespace Ridux.Lib

/-- How far `b` is ahead of `a`. -/
def ahead (a b : BitVec 32) : ℕ := (b - a).toNat

variable {a b c : BitVec 32} {n : ℕ}

@[simp] theorem ahead_self (a : BitVec 32) : ahead a a = 0 := by simp [ahead]

theorem ahead_add (h : ahead a b + n < 2 ^ 32) : ahead a (b + BitVec.ofNat 32 n) = ahead a b + n := by
  unfold ahead at h ⊢
  bv_omega

theorem ahead_ofNat (h : n < 2 ^ 32) : ahead a (a + BitVec.ofNat 32 n) = n := by
  rw [ahead_add (by rw [ahead_self]; omega), ahead_self, Nat.zero_add]

theorem ahead_sub (h : ahead a b ≤ ahead a c) : ahead b c = ahead a c - ahead a b := by
  unfold ahead at h ⊢
  bv_omega

theorem ahead_le (a b c : BitVec 32) : ahead a c ≤ ahead a b + ahead b c := by
  unfold ahead
  bv_omega

end Ridux.Lib
