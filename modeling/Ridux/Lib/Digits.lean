import Mathlib.Data.List.DropRight
import Mathlib.Data.Nat.Digits.Lemmas
import Ridux.Lib.Words

/-!
# Numbers as lists of digits

Numbers of any size as bytes, the least first, and the last not 0.

* `digits`: the bytes of a number; `eq_digits`: every trimmed list is one;
* `trimDigits`, `cmpDigits`, `addDigits`, `subDigits`, `halveDigits`: arithmetic digit by digit;
* `trimDigits_eq`, `cmpDigits_digits`, `addDigits_digits`, `subDigits_digits`, `halveDigits_digits`: what it
  does to the numbers.
-/

namespace Ridux.Lib

open List

variable {a b : List UInt8} {n m : ℕ}

/-! ### Digits -/

/-- The last digit is not 0. -/
def Trimmed (a : List UInt8) : Prop := a.getLast? ≠ some 0

/-- The digits of a number. -/
def digits (n : ℕ) : List UInt8 := (Nat.digits 256 n).map UInt8.ofNat

theorem leNat_append (a b : List UInt8) : leNat (a ++ b) = leNat a + 256 ^ a.length * leNat b := by
  induction a with
  | nil => simp [leNat]
  | cons x a ih =>
    rw [cons_append, leNat, ih, leNat, length_cons, Nat.pow_succ']
    ring

theorem leNat_concat (a : List UInt8) (x : UInt8) : leNat (a ++ [x]) = leNat a + 256 ^ a.length * x.toNat :=
  leNat_append a [x]

theorem leNat_eq_ofDigits (a : List UInt8) : leNat a = Nat.ofDigits 256 (a.map UInt8.toNat) := by
  induction a with
  | nil => rfl
  | cons x a ih => rw [leNat, ih, map_cons, Nat.ofDigits_cons]

theorem digits_map_toNat (n : ℕ) : (digits n).map UInt8.toNat = Nat.digits 256 n := by
  rw [digits, map_map]
  refine (map_congr_left fun d hd => ?_).trans (map_id _)
  exact UInt8.toNat_ofNat_of_lt' (Nat.digits_lt_base (by decide) hd)

@[simp] theorem leNat_digits (n : ℕ) : leNat (digits n) = n := by
  rw [leNat_eq_ofDigits, digits_map_toNat, Nat.ofDigits_digits]

theorem digits_injective : Function.Injective digits := fun m n h => by
  rw [← leNat_digits m, h, leNat_digits]

@[simp] theorem digits_eq_nil : digits n = [] ↔ n = 0 :=
  ⟨fun h => digits_injective h, fun h => h ▸ rfl⟩

theorem length_digits_le_iff (n k : ℕ) : (digits n).length ≤ k ↔ n < 256 ^ k := by
  rw [digits, length_map, Nat.digits_length_le_iff (by decide)]

theorem trimmed_iff : Trimmed a ↔ a = [] ∨ 256 ^ a.length ≤ 256 * leNat a := by
  cases a using List.reverseRecOn with
  | nil => simp [Trimmed]
  | append_singleton a x =>
    have hlow := leNat_lt a
    rw [Trimmed, List.getLast?_concat, leNat_concat, length_append, length_singleton, Nat.pow_succ]
    constructor
    · intro h
      have hx : 1 ≤ x.toNat := Nat.one_le_iff_ne_zero.2 fun h0 => h (congrArg some (UInt8.toNat_inj.1 h0))
      have hmul : 256 ^ a.length * 1 ≤ 256 ^ a.length * x.toNat := Nat.mul_le_mul_left _ hx
      exact .inr (by omega)
    · rintro (h | h) hx
      · exact absurd h (by simp)
      · obtain rfl := Option.some.inj hx
        rw [UInt8.toNat_zero, Nat.mul_zero] at h
        omega

theorem trimmed_digits (n : ℕ) : Trimmed (digits n) := by
  by_cases hn : n = 0
  · exact hn ▸ trimmed_iff.2 (.inl rfl)
  · have hlen := (length_digits_le_iff n ((digits n).length - 1)).not.1 <| by
      have hne := length_pos_of_ne_nil (digits_eq_nil.not.2 hn)
      omega
    have hpos := length_pos_of_ne_nil (digits_eq_nil.not.2 hn)
    refine trimmed_iff.2 (.inr ?_)
    rw [leNat_digits, ← Nat.sub_add_cancel (show 1 ≤ (digits n).length from hpos), Nat.pow_succ']
    omega

theorem eq_digits (h : Trimmed a) : a = digits (leNat a) := by
  have hlast : ∀ hne : a.map UInt8.toNat ≠ [], (a.map UInt8.toNat).getLast hne ≠ 0 := by
    intro hne h0
    rw [getLast_map] at h0
    have hzero := UInt8.toNat_inj.1 (h0.trans UInt8.toNat_zero.symm)
    have ha : a ≠ [] := fun h0 => hne (h0 ▸ rfl)
    exact h ((List.getLast?_eq_getLast_of_ne_nil ha).trans (congrArg some hzero))
  have hlt : ∀ d ∈ a.map UInt8.toNat, d < 256 := by
    intro d hd
    obtain ⟨x, -, rfl⟩ := mem_map.1 hd
    exact x.toNat_lt
  refine map_injective_iff.2 (fun x y => UInt8.toNat_inj.1) ?_
  rw [digits_map_toNat, leNat_eq_ofDigits, Nat.digits_ofDigits 256 (by decide) _ hlt hlast]

/-- Without the zeros at its end. -/
def trimDigits (a : List UInt8) : List UInt8 := a.rdropWhile (· == 0)

theorem leNat_of_zero (h : ∀ x ∈ a, x = 0) : leNat a = 0 := by
  induction a with
  | nil => rfl
  | cons x a ih =>
    obtain ⟨rfl, ha⟩ := forall_mem_cons.1 h
    rw [leNat, ih ha]
    rfl

theorem trimDigits_eq (a : List UInt8) : trimDigits a = digits (leNat a) := by
  have hsplit : trimDigits a ++ a.rtakeWhile (· == 0) = a := rdropWhile_append_rtakeWhile
  have hzero : leNat (a.rtakeWhile (· == 0)) = 0 :=
    leNat_of_zero fun x hx => by simpa using mem_rtakeWhile_imp hx
  have hnum : leNat (trimDigits a) = leNat a := by
    rw [← hsplit, leNat_append, hzero, Nat.mul_zero, Nat.add_zero, hsplit]
  rw [← hnum]
  refine eq_digits fun hlast => ?_
  have hne : trimDigits a ≠ [] := fun h0 => by rw [h0] at hlast; cases hlast
  rw [List.getLast?_eq_getLast_of_ne_nil hne] at hlast
  have hlast0 := rdropWhile_last_not (· == 0) a hne
  rw [show (a.rdropWhile (· == 0)).getLast hne = 0 from Option.some.inj hlast] at hlast0
  exact hlast0 rfl

/-! ### Comparing -/

/-- Compare digits, the highest first. -/
def cmpTop : List UInt8 → List UInt8 → Ordering
  | x :: a, y :: b => if y < x then .gt else if x < y then .lt else cmpTop a b
  | _, _ => .eq

/-- Compare lengths, and then digits from the highest on. -/
def cmpDigits (a b : List UInt8) : Ordering :=
  if b.length < a.length then .gt else if a.length < b.length then .lt else cmpTop a.reverse b.reverse

theorem cmpTop_eq : ∀ {a b : List UInt8}, a.length = b.length →
    cmpTop a b = compare (leNat a.reverse) (leNat b.reverse)
  | [], [], _ => rfl
  | x :: a, y :: b, h => by
    have hlen : a.length = b.length := Nat.succ.inj h
    have ha := leNat_lt a.reverse
    have hb := leNat_lt b.reverse
    rw [length_reverse] at ha hb
    rw [hlen] at ha
    rw [reverse_cons, reverse_cons, leNat_concat, leNat_concat, length_reverse, length_reverse,
      hlen, cmpTop]
    split_ifs with hgt hlt
    · have hmul : 256 ^ b.length * (y.toNat + 1) ≤ 256 ^ b.length * x.toNat := Nat.mul_le_mul_left _ hgt
      rw [Nat.mul_succ] at hmul
      exact (Nat.compare_eq_gt.2 (by omega)).symm
    · have hmul : 256 ^ b.length * (x.toNat + 1) ≤ 256 ^ b.length * y.toNat := Nat.mul_le_mul_left _ hlt
      rw [Nat.mul_succ] at hmul
      exact (Nat.compare_eq_lt.2 (by omega)).symm
    · obtain rfl : x = y := UInt8.le_antisymm (UInt8.not_lt.1 hgt) (UInt8.not_lt.1 hlt)
      rw [cmpTop_eq hlen, Nat.compare_eq_ite_lt, Nat.compare_eq_ite_lt]
      simp only [Nat.add_lt_add_iff_right]

theorem cmpDigits_digits (m n : ℕ) : cmpDigits (digits m) (digits n) = compare m n := by
  have hlt : ∀ {p q : ℕ}, (digits p).length < (digits q).length → p < q := by
    intro p q h
    have hp := (length_digits_le_iff p _).1 (Nat.le_refl _)
    exact Nat.lt_of_lt_of_le hp (Nat.not_lt.1 ((length_digits_le_iff q _).not.1 (Nat.not_le.2 h)))
  unfold cmpDigits
  split_ifs with hgt hlow
  · exact (Nat.compare_eq_gt.2 (hlt hgt)).symm
  · exact (Nat.compare_eq_lt.2 (hlt hlow)).symm
  · rw [cmpTop_eq (by rw [length_reverse, length_reverse]; omega), reverse_reverse,
      reverse_reverse, leNat_digits, leNat_digits]

/-! ### Adding and subtracting -/

theorem leNat_headD_tail : ∀ a : List UInt8, leNat a = (a.headD 0).toNat + 256 * leNat a.tail
  | [] => rfl
  | _ :: _ => rfl

/-- The sum of the first `n` digits, and the carry behind them. -/
def addDigits : ℕ → List UInt8 → List UInt8 → ℕ → List UInt8
  | 0, _, _, carry => if carry = 0 then [] else [UInt8.ofNat carry]
  | n + 1, a, b, carry =>
    let s := (a.headD 0).toNat + (b.headD 0).toNat + carry
    UInt8.ofNat (s % 256) :: addDigits n a.tail b.tail (s / 256)

theorem leNat_addDigits : ∀ {a b : List UInt8} {carry : ℕ}, a.length ≤ n → b.length ≤ n → carry ≤ 1 →
    leNat (addDigits n a b carry) = leNat a + leNat b + carry := by
  induction n with
  | zero =>
    intro a b carry ha hb hc
    rw [length_eq_zero_iff.1 (Nat.le_zero.1 ha), length_eq_zero_iff.1 (Nat.le_zero.1 hb), addDigits]
    obtain rfl | rfl : carry = 0 ∨ carry = 1 := by omega
    · rfl
    · rfl
  | succ n ih =>
    intro a b carry ha hb hc
    have hx := (a.headD 0).toNat_lt
    have hy := (b.headD 0).toNat_lt
    have hdigit : ∀ s : ℕ, (UInt8.ofNat (s % 256)).toNat = s % 256 := fun s =>
      UInt8.toNat_ofNat_of_lt' (Nat.mod_lt s (by decide))
    rw [addDigits, leNat, ih (by rw [length_tail]; omega) (by rw [length_tail]; omega) (by omega),
      hdigit, leNat_headD_tail a, leNat_headD_tail b]
    omega

theorem length_addDigits : ∀ {a b : List UInt8} {carry : ℕ}, carry ≤ 1 →
    (addDigits n a b carry).length = n ∨
      (addDigits n a b carry).length = n + 1 ∧ 256 ^ n ≤ leNat (addDigits n a b carry) := by
  induction n with
  | zero =>
    intro a b carry hc
    obtain rfl | rfl : carry = 0 ∨ carry = 1 := by omega
    · exact .inl rfl
    · exact .inr ⟨rfl, Nat.le_refl 1⟩
  | succ n ih =>
    intro a b carry hc
    have hx := (a.headD 0).toNat_lt
    have hy := (b.headD 0).toNat_lt
    have hcarry : ((a.headD 0).toNat + (b.headD 0).toNat + carry) / 256 ≤ 1 := by omega
    rw [addDigits, length_cons, leNat, Nat.pow_succ']
    rcases ih (a := a.tail) (b := b.tail) hcarry with h | ⟨h, hle⟩
    · exact .inl (congrArg Nat.succ h)
    · exact .inr ⟨congrArg Nat.succ h, by omega⟩

theorem addDigits_digits {k : ℕ} (hk : k = max (digits m).length (digits n).length) :
    addDigits k (digits m) (digits n) 0 = digits (m + n) := by
  have hval : leNat (addDigits k (digits m) (digits n) 0) = m + n := by
    rw [leNat_addDigits (hk ▸ Nat.le_max_left _ _) (hk ▸ Nat.le_max_right _ _) (Nat.zero_le 1), leNat_digits,
      leNat_digits, Nat.add_zero]
  rw [← hval]
  refine eq_digits (trimmed_iff.2 ?_)
  rcases length_addDigits (n := k) (a := digits m) (b := digits n) (Nat.zero_le 1) with h | ⟨h, hle⟩
  · rw [h, hval]
    have htop : ∀ p : ℕ, k = (digits p).length → k = 0 ∨ 256 ^ k ≤ 256 * p := by
      intro p hp
      have htrim := trimmed_iff.1 (trimmed_digits p)
      rw [leNat_digits] at htrim
      exact htrim.imp (fun h0 => by rw [hp, h0]; rfl) fun hle => hp ▸ hle
    rcases Nat.le_total (digits m).length (digits n).length with hle | hle
    · exact (htop n (hk.trans (Nat.max_eq_right hle))).imp
        (fun h0 => length_eq_zero_iff.1 (h.trans h0)) fun hn => by omega
    · exact (htop m (hk.trans (Nat.max_eq_left hle))).imp
        (fun h0 => length_eq_zero_iff.1 (h.trans h0)) fun hm => by omega
  · rw [h, Nat.pow_succ']
    exact .inr (Nat.mul_le_mul_left _ hle)

/-- The difference, digit by digit. -/
def subDigits : List UInt8 → List UInt8 → ℕ → List UInt8
  | [], _, _ => []
  | x :: a, b, borrow =>
    let t : ℤ := x.toNat - (b.headD 0).toNat - borrow
    if t < 0 then UInt8.ofNat (t + 256).toNat :: subDigits a b.tail 1
    else UInt8.ofNat t.toNat :: subDigits a b.tail 0

theorem leNat_subDigits : ∀ {b : List UInt8} {borrow : ℕ}, borrow ≤ 1 → leNat b + borrow ≤ leNat a →
    leNat (subDigits a b borrow) + (leNat b + borrow) = leNat a := by
  induction a with
  | nil =>
    intro b borrow _ hle
    rw [subDigits]
    exact (Nat.zero_add _).trans (Nat.le_zero.1 hle)
  | cons x a ih =>
    intro b borrow hb hle
    have hx := x.toNat_lt
    have hy := (b.headD 0).toNat_lt
    rw [leNat_headD_tail b, leNat] at hle ⊢
    rw [subDigits]
    split_ifs with ht
    · have hrest := @ih b.tail 1 (Nat.le_refl 1) (by omega)
      rw [leNat, UInt8.toNat_ofNat_of_lt' (show _ < 2 ^ 8 by omega)]
      omega
    · have hrest := @ih b.tail 0 (Nat.zero_le 1) (by omega)
      rw [leNat, UInt8.toNat_ofNat_of_lt' (show _ < 2 ^ 8 by omega)]
      omega

theorem subDigits_digits (h : n ≤ m) :
    trimDigits (subDigits (digits m) (digits n) 0) = digits (m - n) := by
  have hval := leNat_subDigits (a := digits m) (b := digits n) (Nat.zero_le 1) (by simpa using h)
  rw [leNat_digits, leNat_digits] at hval
  rw [trimDigits_eq]
  congr 1
  omega

/-! ### Halving -/

/-- Half of a number: the low bit of each digit goes to the digit below. -/
def halveDigits : List UInt8 → List UInt8
  | [] => []
  | x :: a => (x >>> 1 ||| (a.headD 0 &&& 1) <<< 7) :: halveDigits a

theorem toNat_halve (x y : UInt8) : (x >>> 1 ||| (y &&& 1) <<< 7).toNat = x.toNat / 2 + 128 * (y.toNat % 2) := by
  have hx := x.toNat_lt
  have hshift : (x >>> 1).toNat = x.toNat / 2 := by
    rw [UInt8.toNat_shiftRight, Nat.shiftRight_eq_div_pow]
    rfl
  have hbit : ((y &&& 1) <<< 7).toNat = (y.toNat % 2) <<< 7 := by
    rw [UInt8.toNat_shiftLeft, UInt8.toNat_and, UInt8.toNat_one, Nat.and_one_is_mod]
    refine Nat.mod_eq_of_lt ?_
    rw [Nat.shiftLeft_eq]
    show y.toNat % 2 * 2 ^ 7 < 2 ^ 8
    omega
  have hor := Nat.shiftLeft_add_eq_or_of_lt (show x.toNat / 2 < 2 ^ 7 by omega) (y.toNat % 2)
  rw [UInt8.toNat_or, hshift, hbit, Nat.or_comm, ← hor, Nat.shiftLeft_eq]
  omega

theorem leNat_halveDigits (a : List UInt8) : leNat (halveDigits a) = leNat a / 2 := by
  induction a with
  | nil => rfl
  | cons x a ih =>
    rw [halveDigits, leNat, ih, leNat, toNat_halve, leNat_headD_tail a]
    omega

theorem halveDigits_digits (n : ℕ) : trimDigits (halveDigits (digits n)) = digits (n / 2) := by
  rw [trimDigits_eq, leNat_halveDigits, leNat_digits]

theorem headD_digits_odd (n : ℕ) : (digits n).headD 0 &&& 1 ≠ 0 ↔ n % 2 = 1 := by
  have hlow := leNat_headD_tail (digits n)
  rw [leNat_digits] at hlow
  rw [ne_eq, ← UInt8.toNat_inj, UInt8.toNat_and, UInt8.toNat_one, Nat.and_one_is_mod, UInt8.toNat_zero]
  omega

end Ridux.Lib
