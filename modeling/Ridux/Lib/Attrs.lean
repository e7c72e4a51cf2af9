import Ridux.Lib.Words

/-!
# Padded attributes

Attributes one behind the other: two bytes for the length of the attribute without its padding, two for its
type, the data, and zeros up to the next multiple of four.

* `align4`, `pad4`: the padding;
* `attr`: the bytes of an attribute;
* `Attrs`: bytes that a reader can walk through, from attribute to attribute, to their very end;
* `Attrs.concat`: one attribute more.
-/

namespace Ridux.Lib

open List

/-- The next multiple of four. -/
def align4 (n : ℕ) : ℕ := (n + 3) / 4 * 4

/-- The zeros behind `n` bytes. -/
def pad4 (n : ℕ) : List UInt8 := List.replicate (align4 n - n) 0

/-- An attribute. -/
def attr (type : ℕ) (data : List UInt8) : List UInt8 :=
  leBytes 2 (4 + data.length) ++ leBytes 2 type ++ data ++ pad4 (4 + data.length)

variable {bs data : List UInt8} {n type : ℕ}

theorem le_align4 (n : ℕ) : n ≤ align4 n := by
  unfold align4
  omega

theorem dvd_align4 (n : ℕ) : 4 ∣ align4 n := Nat.dvd_mul_left _ _

@[simp] theorem length_pad4 (n : ℕ) : (pad4 n).length = align4 n - n := length_replicate

@[simp] theorem length_attr (type : ℕ) (data : List UInt8) : (attr type data).length = align4 (4 + data.length) := by
  have hle := le_align4 (4 + data.length)
  rw [attr, length_append, length_append, length_append, length_leBytes, length_leBytes, length_pad4]
  omega

/-- **Attributes that fill these bytes**: every length covers its own header, and the padding is there too. -/
inductive Attrs : List UInt8 → Prop
  | nil : Attrs []
  | cons {bs : List UInt8} (hmin : 4 ≤ leNat (bs.take 2)) (hfit : align4 (leNat (bs.take 2)) ≤ bs.length)
      (hrest : Attrs (bs.drop (align4 (leNat (bs.take 2))))) : Attrs bs

theorem Attrs.single (hlen : 4 + data.length < 65536) (type : ℕ) : Attrs (attr type data) := by
  have htake : (attr type data).take 2 = leBytes 2 (4 + data.length) := by
    rw [attr, append_assoc, append_assoc]
    exact take_left' (length_leBytes _ _)
  have hnum : leNat ((attr type data).take 2) = 4 + data.length := by
    rw [htake, leNat_leBytes]
    exact Nat.mod_eq_of_lt hlen
  apply Attrs.cons
  · rw [hnum]
    omega
  · rw [hnum]
    exact Nat.le_of_eq (length_attr type data).symm
  · rw [hnum, drop_eq_nil_of_le (Nat.le_of_eq (length_attr type data))]
    exact .nil

theorem Attrs.concat (h : Attrs bs) (hlen : 4 + data.length < 65536) (type : ℕ) : Attrs (bs ++ attr type data) := by
  induction h with
  | nil => exact .single hlen type
  | @cons bs hmin hfit _ ih =>
    have hle := le_align4 (leNat (bs.take 2))
    have htake : (bs ++ attr type data).take 2 = bs.take 2 := take_append_of_le_length (by omega)
    apply Attrs.cons
    · rwa [htake]
    · rw [htake, length_append]
      omega
    · rwa [htake, drop_append_of_le_length hfit]

theorem Attrs.dvd (h : Attrs bs) : 4 ∣ bs.length := by
  induction h with
  | nil => exact Nat.dvd_zero 4
  | @cons bs hmin hfit _ ih =>
    rw [length_drop] at ih
    have hdvd := dvd_align4 (leNat (bs.take 2))
    omega

end Ridux.Lib
