import Mathlib.Data.List.TakeWhile
import Mathlib.Data.Nat.Digits.Defs
import Mathlib.Tactic.Common

/-!
# Bytes and C strings

Strings are lists of bytes without the closing zero.

* `ascii`, `cstr`, `strlcpy`, `startsWith`: the string helpers of the source;
* `CString`: a list of bytes that a C string can hold;
* `decimal`, `appendStr`, `appendCh`: text that is built in a buffer.
-/

namespace Ridux

open List

/-- A C string or a buffer. -/
abbrev Bytes := List UInt8

/-- The bytes of a string literal. -/
def ascii (s : String) : Bytes := s.toList.map fun c => c.toNat.toUInt8

/-- The C string at the start of a buffer: the bytes before the first zero. -/
def cstr (b : Bytes) : Bytes := b.takeWhile (· != 0)

/-- `c_strlcpy` into a buffer of `cap` bytes. -/
def strlcpy (cap : ℕ) (s : Bytes) : Bytes := (cstr s).take (cap - 1)

/-- `c_starts_with`. -/
def startsWith (s lit : Bytes) : Bool := lit.isPrefixOf s

/-- `'/'`. -/
def slash : UInt8 := 47

/-- `c_append_u32`. -/
def decimal (v : ℕ) : Bytes :=
  if v = 0 then ascii "0" else (Nat.digits 10 v).reverse.map fun d => UInt8.ofNat (0x30 + d)

/-- `c3_append_str`: what fits of `s`, behind `d` in a buffer of `cap` bytes. -/
def appendStr (cap : ℕ) (d s : Bytes) : Bytes := d ++ (cstr s).take (cap - 1 - d.length)

/-- `c3_append_ch`. -/
def appendCh (cap : ℕ) (d : Bytes) (ch : UInt8) : Bytes :=
  if d.length + 1 < cap then d ++ [ch] else d

/-- What a C string can hold. -/
def CString : Type := { b : Bytes // 0 ∉ b }

namespace CString

instance : Coe CString Bytes := ⟨Subtype.val⟩

instance : DecidableEq CString := inferInstanceAs (DecidableEq { b : Bytes // 0 ∉ b })

/-- The empty string. -/
def empty : CString := ⟨[], by simp⟩

end CString

variable {s : Bytes}

theorem cstr_of_not_mem (h : 0 ∉ s) : cstr s = s := by
  rw [cstr, takeWhile_eq_self_iff]
  intro x hx
  rw [bne_iff_ne]
  rintro rfl
  exact h hx

theorem zero_not_mem_cstr (s : Bytes) : 0 ∉ cstr s := by
  intro h
  simpa using mem_takeWhile_imp h

theorem zero_not_mem_take (h : 0 ∉ s) (n : ℕ) : 0 ∉ s.take n :=
  fun hm => h (mem_of_mem_take hm)

theorem strlcpy_of_not_mem (h : 0 ∉ s) (cap : ℕ) : strlcpy cap s = s.take (cap - 1) := by
  rw [strlcpy, cstr_of_not_mem h]

/-! ### Text that is cut off at the end of its buffer -/

theorem appendStr_take (h : 0 ∉ s) (cap : ℕ) (x : Bytes) :
    appendStr cap (x.take (cap - 1)) s = (x ++ s).take (cap - 1) := by
  rw [appendStr, cstr_of_not_mem h, take_append, length_take]
  congr 2
  omega

theorem appendCh_take (cap : ℕ) (x : Bytes) (ch : UInt8) :
    appendCh cap (x.take (cap - 1)) ch = (x ++ [ch]).take (cap - 1) := by
  rw [appendCh, take_append, length_take]
  by_cases hfits : x.length < cap - 1
  · rw [if_pos (by omega), take_of_length_le (l := [ch]) (by
      rw [length_singleton]; omega)]
  · rw [if_neg (by omega), show cap - 1 - x.length = 0 by omega, take_zero, append_nil]

theorem mem_decimal {v : ℕ} {x : UInt8} (h : x ∈ decimal v) : 0x30 ≤ x.toNat ∧ x.toNat ≤ 0x39 := by
  unfold decimal at h
  split_ifs at h with h0
  · obtain rfl : x = 0x30 := by simpa [ascii] using h
    decide
  · obtain ⟨d, hd, rfl⟩ := mem_map.1 h
    have hlt := Nat.digits_lt_base (by decide : 1 < 10) (mem_reverse.1 hd)
    rw [UInt8.toNat_ofNat']
    omega

theorem zero_not_mem_decimal (v : ℕ) : 0 ∉ decimal v := by
  intro h
  exact absurd (mem_decimal h).1 (by decide)

end Ridux
