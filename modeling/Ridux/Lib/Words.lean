import Mathlib.Algebra.Group.Nat.Defs
import Mathlib.Data.List.Flatten
import Mathlib.Tactic.Common

/-!
# Words as little-endian bytes

* `leBytes`, `leNat`: a number as `k` bytes, least first, and back; `leField`: a number inside a buffer;
* `wordBytes`: a list of 64-bit words as bytes; `wordAt`: the word at an index;
* `wordAt_wordBytes`: a word is read back where it was laid out.
-/

namespace Ridux.Lib

open List

/-- The low `k` bytes of a number, least first. -/
def leBytes : ℕ → ℕ → List UInt8
  | 0, _ => []
  | k + 1, x => UInt8.ofNat x :: leBytes k (x / 256)

/-- The number that bytes stand for. -/
def leNat : List UInt8 → ℕ
  | [] => 0
  | b :: bs => b.toNat + 256 * leNat bs

@[simp] theorem length_leBytes (k : ℕ) : ∀ x, (leBytes k x).length = k := by
  induction k with
  | zero => exact fun _ => rfl
  | succ k ih => intro x; rw [leBytes, length_cons, ih]

theorem leNat_leBytes (k : ℕ) : ∀ x, leNat (leBytes k x) = x % 256 ^ k := by
  induction k with
  | zero => intro x; simp [leBytes, leNat, Nat.mod_one]
  | succ k ih =>
    intro x
    have hb : (UInt8.ofNat x).toNat = x % 256 := UInt8.toNat_ofNat'
    have hmul : x % (256 * 256 ^ k) = x % 256 + 256 * (x / 256 % 256 ^ k) := Nat.mod_mul
    rw [leBytes, leNat, ih, hb, Nat.pow_succ', hmul]

theorem leBytes_leNat (bs : List UInt8) : leBytes bs.length (leNat bs) = bs := by
  induction bs with
  | nil => rfl
  | cons b bs ih =>
    have hb := b.toNat_lt
    have hdiv : (b.toNat + 256 * leNat bs) / 256 = leNat bs := by omega
    rw [length_cons, leBytes, leNat, hdiv, ih]
    refine congrArg (· :: bs) (UInt8.toNat_inj.1 ?_)
    rw [UInt8.toNat_ofNat']
    show (b.toNat + 256 * leNat bs) % 256 = b.toNat
    omega

/-- The number in the `n` bytes from `off` on. -/
def leField (bs : List UInt8) (off n : ℕ) : ℕ := leNat ((bs.drop off).take n)

theorem leNat_lt (bs : List UInt8) : leNat bs < 256 ^ bs.length := by
  induction bs with
  | nil => decide
  | cons b bs ih =>
    have hb := b.toNat_lt
    rw [leNat, length_cons, Nat.pow_succ']
    omega

theorem leField_lt (bs : List UInt8) (off n : ℕ) : leField bs off n < 256 ^ n :=
  Nat.lt_of_lt_of_le (leNat_lt _) (Nat.pow_le_pow_right (by decide) (length_take_le ..))

theorem leField_part {n j k : ℕ} (h : j + k ≤ n) (bs : List UInt8) (i : ℕ) :
    leField ((bs.drop i).take n) j k = leField bs (i + j) k := by
  unfold leField
  rw [drop_take, take_take, drop_drop, Nat.min_eq_left (by omega)]

/-- The bytes of a list of words. -/
def wordBytes (ws : List (BitVec 64)) : List UInt8 := ws.flatMap fun w => leBytes 8 w.toNat

/-- The word with index `i`. -/
def wordAt (bs : List UInt8) (i : ℕ) : BitVec 64 := BitVec.ofNat 64 (leNat ((bs.drop (8 * i)).take 8))

@[simp] theorem length_wordBytes (ws : List (BitVec 64)) : (wordBytes ws).length = 8 * ws.length := by
  induction ws with
  | nil => rfl
  | cons w ws ih =>
    show (leBytes 8 w.toNat ++ wordBytes ws).length = _
    rw [length_append, ih, length_leBytes, length_cons]
    omega

theorem wordAt_wordBytes {ws : List (BitVec 64)} {i : ℕ} {w : BitVec 64} (h : ws[i]? = some w)
    (rest : List UInt8) : wordAt (wordBytes ws ++ rest) i = w := by
  induction ws generalizing i with
  | nil => cases h
  | cons v ws ih =>
    have hcons : wordBytes (v :: ws) ++ rest = leBytes 8 v.toNat ++ (wordBytes ws ++ rest) :=
      append_assoc _ _ _
    cases i with
    | zero =>
      obtain rfl : v = w := by simpa using h
      have hmod : v.toNat % 256 ^ 8 = v.toNat := Nat.mod_eq_of_lt v.isLt
      unfold wordAt
      rw [hcons, Nat.mul_zero, drop_zero, take_left' (length_leBytes 8 v.toNat),
        leNat_leBytes, hmod, BitVec.ofNat_toNat, BitVec.setWidth_eq]
    | succ i =>
      rw [List.getElem?_cons_succ] at h
      rw [← ih h]
      unfold wordAt
      rw [hcons, Nat.mul_succ, Nat.add_comm, ← drop_drop,
        drop_left' (length_leBytes 8 v.toNat)]

end Ridux.Lib
