import Ridux.Lib.Digits
import Ridux.Tls.Cert

/-!
# The public operation of RSA

`c7_bn_t` and what is computed with it.  A number is its digits `v`, the least first, up to the length `n`;
a `while` goes round at most `steps` times.

* `c7BnModExp`, `c7RsaPublicOp`: the source on digits;
* `c7BnAddMod_digits`, `c7BnModMul_digits`, `c7BnModExp_digits`, `c7RsaPublicOp_eq`: on the digits of numbers
  it is `bnModExp` and `rsaPublicOp`;
* `bnModExp_eq`, `rsaPublicOp_eq`: square-and-multiply is a power;
* `rsa_public_op_exact`: the block of `c7_rsa_public_op`;
* `pkcs1VerifySha256_iff`, `signature_exact_iff`: which blocks `c7_pkcs1_verify_sha256` accepts.
-/

namespace Ridux

open Lib

/-- What a function gives that comes to its end: a value, or `false`. -/
def told {α : Type} (r : Option α) : OptionT Option α := OptionT.mk (some r)

section Told

variable {α β : Type}

@[simp] theorem told_some_bind (a : α) (f : α → OptionT Option β) : (told (some a) >>= f) = f a := rfl

end Told

/-! ### The source -/

def c7BnFromBe (be : Bytes) : Option Bytes :=
  if be = [] ∨ tls7RsaMaxBytes < be.length then none else some (trimDigits be.reverse)

def c7BnToBeFixed (a : Bytes) (outLen : ℕ) : Option Bytes :=
  if outLen = 0 ∨ outLen < a.length then none else some (List.replicate (outLen - a.length) 0 ++ a.reverse)

def c7BnCmp (a b : Bytes) : Ordering := cmpDigits a b

def c7BnSubInplace (a b : Bytes) : Bytes := trimDigits (subDigits a b 0)

def c7BnIsOdd (a : Bytes) : Prop := a.headD 0 &&& 1 ≠ 0

instance (a : Bytes) : Decidable (c7BnIsOdd a) := inferInstanceAs (Decidable (_ ≠ _))

def c7BnShr1 (a : Bytes) : Bytes := trimDigits (halveDigits a)

/-- `while(c7_bn_cmp(&t,m)>=0)c7_bn_sub_inplace(&t,m)`. -/
def c7BnReduce (m : Bytes) : ℕ → Bytes → Option Bytes
  | 0, _ => none
  | k + 1, t => if c7BnCmp t m = .lt then some t else c7BnReduce m k (c7BnSubInplace t m)

section Source

variable (steps : ℕ)

def c7BnAddMod (a b m : Bytes) : OptionT Option Bytes :=
  let n := max a.length b.length
  let t := addDigits n a b 0
  if tls7RsaMaxBytes < n + 1 ∨ tls7RsaMaxBytes < t.length then told none
  else OptionT.lift (c7BnReduce m steps t)

/-- The loop of `c7_bn_mod_mul`. -/
def c7BnModMulLoop (m : Bytes) : ℕ → Bytes → Bytes → Bytes → OptionT Option Bytes
  | 0, _, _, _ => OptionT.mk none
  | k + 1, y, x, res =>
    if y = [] then told (some res)
    else do
      let res ← if c7BnIsOdd y then c7BnAddMod steps res x m else told (some res)
      let x ← c7BnAddMod steps x x m
      c7BnModMulLoop m k (c7BnShr1 y) x res

def c7BnModMul (a b m : Bytes) : OptionT Option Bytes :=
  if m = [] then told none
  else do
    let x ← OptionT.lift (c7BnReduce m steps a)
    c7BnModMulLoop steps m steps b x []

/-- The loop of `c7_bn_mod_exp`. -/
def c7BnModExpLoop (m : Bytes) : ℕ → Bytes → Bytes → Bytes → OptionT Option Bytes
  | 0, _, _, _ => OptionT.mk none
  | k + 1, e, b, res =>
    if e = [] then told (some res)
    else do
      let res ← if c7BnIsOdd e then c7BnModMul steps res b m else told (some res)
      let e := c7BnShr1 e
      let b ← if e ≠ [] then c7BnModMul steps b b m else told (some b)
      c7BnModExpLoop m k e b res

def c7BnModExp (base exp mod : Bytes) : OptionT Option Bytes :=
  if mod = [] then told none
  else do
    let b ← OptionT.lift (c7BnReduce mod steps base)
    c7BnModExpLoop steps mod steps exp b [1]

/-- `c7_rsa_public_op` with an output buffer of `outLen` bytes: what it writes there. -/
def c7RsaPublicOp (input keyBlob : Bytes) (outLen : ℕ) : OptionT Option Bytes := do
  let (mod, exp) ← told (pubkeyUnpackRsa keyBlob)
  if outLen < mod.length ∨ mod.length < input.length then told none
  else do
    let m ← told (c7BnFromBe (List.replicate (mod.length - input.length) 0 ++ input))
    let n ← told (c7BnFromBe mod)
    let e ← told (c7BnFromBe exp)
    if c7BnCmp m n ≠ .lt then told none
    else do
      let c ← c7BnModExp steps m e n
      told (c7BnToBeFixed c mod.length)

end Source

/-! ### Digits and numbers -/

theorem bnLen_eq (n : ℕ) : bnLen n = (digits n).length := by
  unfold bnLen
  split_ifs with h
  · rw [h]; rfl
  · rw [digits, List.length_map, Nat.length_digits 256 n (by decide) h, show 256 = 2 ^ 8 from rfl, Nat.log_pow_left,
      Nat.log2_eq_log_two]

theorem beNat_eq (b : Bytes) : beNat b = leNat b.reverse := by
  induction b using List.reverseRecOn with
  | nil => rfl
  | append_singleton b x ih =>
    rw [beNat, List.foldl_append, List.reverse_append]
    show b.foldl _ 0 * 256 + x.toNat = x.toNat + 256 * leNat b.reverse
    rw [← ih, beNat]
    omega

theorem c7BnFromBe_eq (be : Bytes) (h : be ≠ [] ∧ be.length ≤ tls7RsaMaxBytes) :
    c7BnFromBe be = some (digits (beNat be)) := by
  rw [c7BnFromBe, if_neg (by rintro (h0 | hlt); exacts [h.1 h0, Nat.not_lt.2 h.2 hlt]), trimDigits_eq, beNat_eq]

theorem c7BnIsOdd_digits (n : ℕ) : c7BnIsOdd (digits n) ↔ n % 2 = 1 := headD_digits_odd n

theorem c7BnShr1_digits (n : ℕ) : c7BnShr1 (digits n) = digits (n / 2) := halveDigits_digits n

theorem c7BnCmp_lt_iff (m n : ℕ) : c7BnCmp (digits m) (digits n) = .lt ↔ m < n := by
  rw [c7BnCmp, cmpDigits_digits, Nat.compare_eq_lt]

theorem c7BnReduce_digits {m steps : ℕ} (hm : 0 < m) : ∀ {t : ℕ}, t / m < steps →
    c7BnReduce (digits m) steps (digits t) = some (digits (t % m)) := by
  induction steps with
  | zero => exact fun h => absurd h (Nat.not_lt_zero _)
  | succ k ih =>
    intro t h
    rw [c7BnReduce]
    by_cases hlt : t < m
    · rw [if_pos ((c7BnCmp_lt_iff t m).2 hlt), Nat.mod_eq_of_lt hlt]
    · have hle := Nat.not_lt.1 hlt
      have hdiv : (t - m) / m < k := by
        have hpred := Nat.sub_mul_div t m 1
        rw [Nat.mul_one] at hpred
        have hpos := Nat.div_pos hle hm
        omega
      rw [if_neg ((c7BnCmp_lt_iff t m).not.2 hlt), c7BnSubInplace, subDigits_digits hle, ih hdiv,
        Nat.mod_eq_sub_mod hle]

theorem told_digits_bind {r : Option ℕ} {f : Bytes → OptionT Option Bytes} {g : ℕ → Option ℕ}
    (h : ∀ n, r = some n → f (digits n) = told ((g n).map digits)) :
    (told (r.map digits) >>= f) = told ((r.bind g).map digits) := by
  cases r with
  | none => rfl
  | some n => exact h n rfl

theorem div_lt_two {m t : ℕ} (h : t < 2 * m) : t / m < 2 :=
  Nat.div_lt_of_lt_mul (by rwa [Nat.mul_comm] at h)

section Refine

variable {steps m a b j r : ℕ} (hm : 0 < m)
include hm

theorem c7BnAddMod_digits (hs : 2 ≤ steps) (ha : a < m) (hb : b < m) :
    c7BnAddMod steps (digits a) (digits b) (digits m) = told ((bnAddMod a b m).map digits) := by
  unfold c7BnAddMod bnAddMod
  dsimp only
  rw [addDigits_digits rfl, bnLen_eq, bnLen_eq]
  have hroom : (digits (a + b)).length ≤ max (digits a).length (digits b).length + 1 := by
    have hpa := (length_digits_le_iff a _).1 (Nat.le_max_left (digits a).length (digits b).length)
    have hpb := (length_digits_le_iff b _).1 (Nat.le_max_right (digits a).length (digits b).length)
    rw [length_digits_le_iff, Nat.pow_succ]
    omega
  by_cases hfull : tls7RsaMaxBytes < max (digits a).length (digits b).length + 1
  · rw [if_pos (.inl hfull), if_pos hfull]
    rfl
  · rw [if_neg (by omega), if_neg hfull,
      c7BnReduce_digits hm (Nat.lt_of_lt_of_le (div_lt_two (by omega)) hs)]
    rfl

theorem bnAddMod_lt (h : bnAddMod a b m = some r) : r < m := by
  unfold bnAddMod at h
  split_ifs at h
  obtain rfl := Option.some.inj h
  exact Nat.mod_lt _ hm

theorem c7BnModMulLoop_digits (hs : 2 ≤ steps) : ∀ {k y x res : ℕ}, j < k → y < 2 ^ j → x < m → res < m →
    c7BnModMulLoop steps (digits m) k (digits y) (digits x) (digits res) =
      told ((bnModMulLoop m j y x res).map digits) := by
  induction j with
  | zero =>
    intro k y x res hk hy _ _
    obtain ⟨k, rfl⟩ : ∃ i, k = i + 1 := ⟨k - 1, by omega⟩
    rw [c7BnModMulLoop, if_pos (digits_eq_nil.2 (by omega))]
    rfl
  | succ j ih =>
    intro k y x res hk hy hx hres
    obtain ⟨k, rfl⟩ : ∃ i, k = i + 1 := ⟨k - 1, by omega⟩
    rw [c7BnModMulLoop, bnModMulLoop]
    by_cases h0 : y = 0
    · rw [if_pos (digits_eq_nil.2 h0), if_pos h0]
      rfl
    rw [if_neg (digits_eq_nil.not.2 h0), if_neg h0]
    have hrest : ∀ r < m, (c7BnAddMod steps (digits x) (digits x) (digits m) >>= fun x =>
          c7BnModMulLoop steps (digits m) k (c7BnShr1 (digits y)) x (digits r)) =
        told (((bnAddMod x x m).bind fun x => bnModMulLoop m j (y / 2) x r).map digits) := by
      intro r hr
      rw [c7BnAddMod_digits hm hs hx hx, c7BnShr1_digits]
      refine told_digits_bind fun x' hx' => ?_
      exact ih (by omega) (by rw [Nat.pow_succ] at hy; omega) (bnAddMod_lt hm hx') hr
    dsimp only
    by_cases hodd : y % 2 = 1
    · rw [if_pos ((c7BnIsOdd_digits y).2 hodd), if_pos hodd, c7BnAddMod_digits hm hs hres hx]
      exact told_digits_bind fun r hr => hrest r (bnAddMod_lt hm hr)
    · rw [if_neg ((c7BnIsOdd_digits y).not.2 hodd), if_neg hodd]
      exact hrest res hres

theorem bnModMulLoop_lt : ∀ {y x res r : ℕ}, res < m → bnModMulLoop m j y x res = some r → r < m := by
  induction j with
  | zero =>
    intro y x res r hres h
    exact Option.some.inj h ▸ hres
  | succ j ih =>
    intro y x res r hres h
    rw [bnModMulLoop] at h
    dsimp only at h
    split_ifs at h with h0 hodd
    · exact Option.some.inj h ▸ hres
    · obtain ⟨res', hres', h⟩ := Option.bind_eq_some_iff.1 h
      obtain ⟨x', -, h⟩ := Option.bind_eq_some_iff.1 h
      exact ih (bnAddMod_lt hm hres') h
    · obtain ⟨res', hres', h⟩ := Option.bind_eq_some_iff.1 h
      obtain ⟨x', -, h⟩ := Option.bind_eq_some_iff.1 h
      exact ih (Option.some.inj hres' ▸ hres) h

theorem c7BnModMul_digits (hs : 8 * tls7RsaMaxBytes < steps) (ha : a < 2 * m)
    (hb : b < 2 ^ (8 * tls7RsaMaxBytes)) :
    c7BnModMul steps (digits a) (digits b) (digits m) = told ((bnModMul a b m).map digits) := by
  have hs' : 2 ≤ steps := Nat.le_trans (by decide) hs
  rw [c7BnModMul, bnModMul, if_neg (digits_eq_nil.not.2 hm.ne'), if_neg hm.ne',
    c7BnReduce_digits hm (Nat.lt_of_lt_of_le (div_lt_two ha) hs')]
  show c7BnModMulLoop steps (digits m) steps (digits b) (digits (a % m)) (digits 0) = _
  exact c7BnModMulLoop_digits hm hs' hs hb (Nat.mod_lt _ hm) hm

theorem bnModMul_lt (h : bnModMul a b m = some r) : r < m := by
  rw [bnModMul, if_neg hm.ne'] at h
  exact bnModMulLoop_lt hm hm h

theorem c7BnModExpLoop_digits (hs : 8 * tls7RsaMaxBytes < steps)
    (hsize : m ≤ 2 ^ (8 * tls7RsaMaxBytes)) :
    ∀ {k e b res : ℕ}, j < k → e < 2 ^ j → b < m → res < 2 * m →
      c7BnModExpLoop steps (digits m) k (digits e) (digits b) (digits res) =
        told ((bnModExpLoop m j e b res).map digits) := by
  induction j with
  | zero =>
    intro k e b res hk he _ _
    obtain ⟨k, rfl⟩ : ∃ i, k = i + 1 := ⟨k - 1, by omega⟩
    rw [c7BnModExpLoop, if_pos (digits_eq_nil.2 (by omega))]
    rfl
  | succ j ih =>
    intro k e b res hk he hb hres
    obtain ⟨k, rfl⟩ : ∃ i, k = i + 1 := ⟨k - 1, by omega⟩
    rw [c7BnModExpLoop, bnModExpLoop]
    by_cases h0 : e = 0
    · rw [if_pos (digits_eq_nil.2 h0), if_pos h0]
      rfl
    rw [if_neg (digits_eq_nil.not.2 h0), if_neg h0]
    have hb' : b < 2 ^ (8 * tls7RsaMaxBytes) := Nat.lt_of_lt_of_le hb hsize
    have hrest : ∀ r < 2 * m,
        (if c7BnShr1 (digits e) ≠ [] then c7BnModMul steps (digits b) (digits b) (digits m) >>= fun b =>
            c7BnModExpLoop steps (digits m) k (c7BnShr1 (digits e)) b (digits r)
          else told (some (digits b)) >>= fun b =>
            c7BnModExpLoop steps (digits m) k (c7BnShr1 (digits e)) b (digits r)) =
        told ((if e / 2 ≠ 0 then (bnModMul b b m).bind fun b => bnModExpLoop m j (e / 2) b r
          else (some b).bind fun b => bnModExpLoop m j (e / 2) b r).map digits) := by
      intro r hr
      have he' : e / 2 < 2 ^ j := by
        rw [Nat.pow_succ] at he
        omega
      rw [c7BnShr1_digits]
      by_cases hlast : e / 2 = 0
      · rw [if_neg (not_not.2 (digits_eq_nil.2 hlast)), if_neg (not_not.2 hlast)]
        exact ih (by omega) he' hb hr
      · rw [if_pos (digits_eq_nil.not.2 hlast), if_pos hlast, c7BnModMul_digits hm hs (by omega) hb']
        exact told_digits_bind fun b' hsq => ih (by omega) he' (bnModMul_lt hm hsq) hr
    dsimp only
    by_cases hodd : e % 2 = 1
    · rw [if_pos ((c7BnIsOdd_digits e).2 hodd), if_pos hodd, c7BnModMul_digits hm hs hres hb']
      refine told_digits_bind fun r hr => ?_
      have hlt := bnModMul_lt hm hr
      exact hrest r (by omega)
    · rw [if_neg ((c7BnIsOdd_digits e).not.2 hodd), if_neg hodd]
      exact hrest res hres

theorem c7BnModExp_digits {base exp : ℕ} (hs : 8 * tls7RsaMaxBytes < steps) (hsize : m ≤ 2 ^ (8 * tls7RsaMaxBytes))
    (hbase : base < m) (hexp : exp < 2 ^ (8 * tls7RsaMaxBytes)) :
    c7BnModExp steps (digits base) (digits exp) (digits m) = told ((bnModExp base exp m).map digits) := by
  have hs' : 2 ≤ steps := Nat.le_trans (by decide) hs
  rw [c7BnModExp, bnModExp, if_neg (digits_eq_nil.not.2 hm.ne'), if_neg hm.ne',
    c7BnReduce_digits hm (Nat.lt_of_lt_of_le (div_lt_two (by omega)) hs')]
  show c7BnModExpLoop steps (digits m) steps (digits exp) (digits (base % m)) (digits 1) = _
  exact c7BnModExpLoop_digits hm hs hsize hs hexp (Nat.mod_lt _ hm) (by omega)

end Refine

/-! ### Blocks -/

theorem beNat_lt (b : Bytes) : beNat b < 256 ^ b.length := by
  have hlt := leNat_lt b.reverse
  rwa [List.length_reverse, ← beNat_eq] at hlt

theorem two_pow_bits (n : ℕ) : 2 ^ (8 * n) = 256 ^ n := Nat.pow_mul 2 8 n

theorem beNat_zeros_append (k : ℕ) (b : Bytes) : beNat (List.replicate k 0 ++ b) = beNat b := by
  rw [beNat_eq, beNat_eq, List.reverse_append, leNat_append, List.reverse_replicate,
    leNat_of_zero fun x hx => List.eq_of_mem_replicate hx, Nat.mul_zero, Nat.add_zero]

theorem bnToBeFixed_eq (a len : ℕ) :
    bnToBeFixed a len = if a < 256 ^ len then some (leBytes len a).reverse else none := by
  have hlist : (List.range len).map (fun i => (a / 256 ^ (len - 1 - i)).toUInt8) = (leBytes len a).reverse := by
    have hbytes : ∀ (k x : ℕ), leBytes k x = (List.range k).map fun i => (x / 256 ^ i).toUInt8 := by
      intro k
      induction k with
      | zero => exact fun _ => rfl
      | succ k ih =>
        intro x
        rw [leBytes, ih, List.range_succ_eq_map, List.map_cons, List.map_map, Nat.pow_zero, Nat.div_one]
        refine congrArg _ (List.map_congr_left fun i _ => ?_)
        rw [Function.comp_apply, Nat.pow_succ', ← Nat.div_div_eq_div_mul]
    have hrev : (List.range len).reverse = (List.range len).map (len - 1 - ·) := by
      rw [List.range_eq_range', List.reverse_range', ← List.range_eq_range', Nat.zero_add]
    rw [hbytes, ← List.map_reverse, hrev, List.map_map]
    rfl
  unfold bnToBeFixed
  rw [bnLen_eq, hlist]
  by_cases h : a < 256 ^ len
  · rw [if_neg (Nat.not_lt.2 ((length_digits_le_iff a len).2 h)), if_pos h]
  · rw [if_pos (Nat.not_le.1 ((length_digits_le_iff a len).not.2 h)), if_neg h]

theorem c7BnToBeFixed_digits (a : ℕ) {len : ℕ} (hlen : 0 < len) : c7BnToBeFixed (digits a) len = bnToBeFixed a len := by
  unfold c7BnToBeFixed
  rw [bnToBeFixed_eq]
  by_cases h : a < 256 ^ len
  · have hle := (length_digits_le_iff a len).2 h
    rw [if_neg (by omega), if_pos h, ← List.reverse_replicate, ← List.reverse_append]
    congr 2
    have hval : leNat (digits a ++ List.replicate (len - (digits a).length) 0) = a := by
      rw [leNat_append, leNat_of_zero fun x hx => List.eq_of_mem_replicate hx, leNat_digits, Nat.mul_zero, Nat.add_zero]
    have hround := leBytes_leNat (digits a ++ List.replicate (len - (digits a).length) 0)
    rw [hval, List.length_append, List.length_replicate, Nat.add_sub_cancel' hle] at hround
    exact hround.symm
  · have hlt := Nat.not_le.1 ((length_digits_le_iff a len).not.2 h)
    rw [if_pos (.inr hlt), if_neg h]

variable {blob mod hash : Bytes}

theorem pubkeyUnpackRsa_some {exp : Bytes} (h : pubkeyUnpackRsa blob = some (mod, exp)) :
    mod ≠ [] ∧ exp ≠ [] ∧ mod.length ≤ tls7RsaMaxBytes ∧ exp.length ≤ 8 ∧
      4 + mod.length + exp.length ≤ blob.length := by
  unfold pubkeyUnpackRsa at h
  dsimp only at h
  split_ifs at h with hbad
  obtain ⟨rfl, rfl⟩ := Prod.mk.inj (Option.some.inj h)
  push Not at hbad
  have hml : ((blob.drop 4).take (beNat (blob.take 2))).length = beNat (blob.take 2) := by
    rw [List.length_take, List.length_drop]
    omega
  have hel : ((blob.drop (4 + beNat (blob.take 2))).take (beNat ((blob.drop 2).take 2))).length =
      beNat ((blob.drop 2).take 2) := by
    rw [List.length_take, List.length_drop]
    omega
  refine ⟨fun h0 => ?_, fun h0 => ?_, by omega, by omega, by omega⟩
  · rw [h0] at hml
    exact hbad.2.1 hml.symm
  · rw [h0] at hel
    exact hbad.2.2.1 hel.symm

theorem rsaPublicOp_of_key {exp : Bytes} (hkey : pubkeyUnpackRsa blob = some (mod, exp))
    (input : Bytes) :
    rsaPublicOp input blob =
      if mod.length < input.length ∨ beNat mod ≤ beNat input then none
      else (bnModExp (beNat input) (beNat exp) (beNat mod)).bind fun c => bnToBeFixed c mod.length := by
  rw [rsaPublicOp, hkey]
  dsimp only [Option.bind_eq_bind, Option.bind_some]
  split_ifs <;> first | rfl | omega

/-- **The operation on digits is the one on numbers.** -/
theorem c7RsaPublicOp_eq {steps : ℕ} (hs : 8 * tls7RsaMaxBytes < steps) {exp : Bytes}
    (hkey : pubkeyUnpackRsa blob = some (mod, exp)) (input : Bytes) {outLen : ℕ}
    (hout : mod.length ≤ outLen) :
    c7RsaPublicOp steps input blob outLen = told (rsaPublicOp input blob) := by
  obtain ⟨hmod, hexp, hmlen, helen, -⟩ := pubkeyUnpackRsa_some hkey
  have hpos := List.length_pos_of_ne_nil hmod
  have hbits : ∀ b : Bytes, b.length ≤ tls7RsaMaxBytes → beNat b < 2 ^ (8 * tls7RsaMaxBytes) := by
    intro b hb
    rw [two_pow_bits]
    exact Nat.lt_of_lt_of_le (beNat_lt b) (Nat.pow_le_pow_right (by decide) hb)
  rw [c7RsaPublicOp, rsaPublicOp_of_key hkey, hkey, told_some_bind]
  dsimp only
  by_cases hlong : mod.length < input.length
  · rw [if_pos (.inr hlong), if_pos (.inl hlong)]
  have hpad : List.replicate (mod.length - input.length) 0 ++ input ≠ [] ∧
      (List.replicate (mod.length - input.length) 0 ++ input).length ≤ tls7RsaMaxBytes := by
    refine ⟨List.ne_nil_of_length_pos ?_, ?_⟩ <;> rw [List.length_append, List.length_replicate] <;> omega
  rw [if_neg (by omega), c7BnFromBe_eq _ hpad, beNat_zeros_append, told_some_bind, c7BnFromBe_eq mod ⟨hmod, hmlen⟩,
    told_some_bind, c7BnFromBe_eq exp ⟨hexp, Nat.le_trans helen (by decide)⟩, told_some_bind]
  by_cases hlt : beNat input < beNat mod
  · have hexp' := hbits exp (Nat.le_trans helen (by decide))
    rw [if_neg (not_not.2 ((c7BnCmp_lt_iff _ _).2 hlt)), if_neg (by omega),
      c7BnModExp_digits (Nat.zero_lt_of_lt hlt) hs (hbits mod hmlen).le hlt hexp']
    cases bnModExp (beNat input) (beNat exp) (beNat mod) with
    | none => rfl
    | some c => exact congrArg told (c7BnToBeFixed_digits c hpos)
  · rw [if_pos ((c7BnCmp_lt_iff _ _).not.2 hlt), if_pos (.inr (Nat.not_lt.1 hlt))]

/-! ### Square and multiply -/

section Power

variable {m a b j : ℕ} (hm : m ≤ 256 ^ (tls7RsaMaxBytes - 1))
include hm

theorem bnAddMod_eq (ha : a < m) (hb : b < m) : bnAddMod a b m = some ((a + b) % m) := by
  have hlen : ∀ n < m, bnLen n ≤ tls7RsaMaxBytes - 1 := fun n hn => by
    rw [bnLen_eq, length_digits_le_iff]
    omega
  have hmax := Nat.max_le.2 ⟨hlen a ha, hlen b hb⟩
  rw [bnAddMod, if_neg]
  unfold tls7RsaMaxBytes at hmax ⊢
  omega

theorem bnModMulLoop_eq : ∀ {y x res : ℕ}, y < 2 ^ j → x < m → res < m →
    bnModMulLoop m j y x res = some ((res + x * y) % m) := by
  induction j with
  | zero =>
    intro y x res hy hx hres
    obtain rfl : y = 0 := by omega
    rw [bnModMulLoop, Nat.mul_zero, Nat.add_zero, Nat.mod_eq_of_lt hres]
  | succ j ih =>
    intro y x res hy hx hres
    have hpos : 0 < m := Nat.zero_lt_of_lt hx
    have hhalf : y / 2 < 2 ^ j := by
      rw [Nat.pow_succ] at hy
      omega
    have hsplit : x * y = x * (y % 2) + (x + x) * (y / 2) := by
      conv_lhs => rw [← Nat.mod_add_div y 2]
      ring
    rw [bnModMulLoop]
    dsimp only [Option.bind_eq_bind]
    rw [bnAddMod_eq hm hres hx, bnAddMod_eq hm hx hx, Option.bind_some, Option.bind_some, Option.bind_some, hsplit]
    split_ifs with h0 hodd
    · rw [h0, Nat.zero_mod, Nat.zero_div, Nat.mul_zero, Nat.mul_zero, Nat.add_zero, Nat.mod_eq_of_lt hres]
    · rw [ih hhalf (Nat.mod_lt _ hpos) (Nat.mod_lt _ hpos), hodd, Nat.mul_one, ← Nat.add_assoc]
      congr 1
      exact Nat.ModEq.add (Nat.mod_modEq _ _) ((Nat.mod_modEq _ _).mul_right _)
    · rw [Option.bind_some, ih hhalf (Nat.mod_lt _ hpos) hres, Nat.mod_two_ne_one.1 hodd, Nat.mul_zero, Nat.zero_add]
      congr 1
      exact Nat.ModEq.add_left _ ((Nat.mod_modEq _ _).mul_right _)

theorem bnModMul_eq (hpos : 0 < m) (hb : b < 2 ^ (8 * tls7RsaMaxBytes)) :
    bnModMul a b m = some (a * b % m) := by
  rw [bnModMul, if_neg hpos.ne', bnModMulLoop_eq hm hb (Nat.mod_lt _ hpos) hpos, Nat.zero_add]
  congr 1
  exact (Nat.mod_modEq _ _).mul_right _

theorem bnModExpLoop_eq : ∀ {e b res : ℕ}, e < 2 ^ j → b < m →
    bnModExpLoop m j e b res = some (if e = 0 then res else res * b ^ e % m) := by
  have hbits : ∀ b < m, b < 2 ^ (8 * tls7RsaMaxBytes) := by
    intro b hb
    rw [two_pow_bits]
    exact Nat.lt_of_lt_of_le hb (hm.trans (Nat.pow_le_pow_right (by decide) (Nat.sub_le _ _)))
  induction j with
  | zero =>
    intro e b res he hb
    obtain rfl : e = 0 := by omega
    rfl
  | succ j ih =>
    intro e b res he hb
    have hpos : 0 < m := Nat.zero_lt_of_lt hb
    have hhalf : e / 2 < 2 ^ j := by
      rw [Nat.pow_succ] at he
      omega
    have hsplit : b ^ e = b ^ (e % 2) * (b * b) ^ (e / 2) := by
      rw [← Nat.pow_two, ← Nat.pow_mul, ← Nat.pow_add, Nat.mod_add_div]
    -- the square is left out when no bit follows
    have hrest : ∀ r, (if e / 2 ≠ 0 then (bnModMul b b m).bind fun b => bnModExpLoop m j (e / 2) b r
        else (some b).bind fun b => bnModExpLoop m j (e / 2) b r) =
          some (if e / 2 = 0 then r else r * (b * b) ^ (e / 2) % m) := by
      intro r
      by_cases hlast : e / 2 = 0
      · rw [if_neg (not_not.2 hlast), Option.bind_some, ih hhalf hb, if_pos hlast, if_pos hlast]
      · rw [if_pos hlast, bnModMul_eq hm hpos (hbits b hb), Option.bind_some, ih hhalf (Nat.mod_lt _ hpos),
          if_neg hlast, if_neg hlast]
        congr 1
        exact ((Nat.mod_modEq _ _).pow _).mul_left _
    rw [bnModExpLoop]
    dsimp only [Option.bind_eq_bind]
    by_cases h0 : e = 0
    · rw [if_pos h0, if_pos h0]
    rw [if_neg h0, if_neg h0, hsplit, ← Nat.mul_assoc]
    by_cases hodd : e % 2 = 1
    · rw [if_pos hodd, bnModMul_eq hm hpos (hbits b hb), Option.bind_some, hrest, hodd, Nat.pow_one]
      congr 1
      split_ifs with hlast
      · rw [hlast, Nat.pow_zero, Nat.mul_one]
      · exact (Nat.mod_modEq _ _).mul_right _
    · rw [if_neg hodd, Option.bind_some, hrest, if_neg (by omega), Nat.mod_two_ne_one.1 hodd, Nat.pow_zero, Nat.mul_one]

/-- **Square-and-multiply is a power**, up to the remainder of 1. -/
theorem bnModExp_eq {base exp : ℕ} (hpos : 0 < m) (hexp : exp < 2 ^ (8 * tls7RsaMaxBytes)) :
    bnModExp base exp m = some (if exp = 0 then 1 else base ^ exp % m) := by
  rw [bnModExp, if_neg hpos.ne', bnModExpLoop_eq hm hexp (Nat.mod_lt _ hpos), Nat.one_mul]
  congr 2
  exact (Nat.mod_modEq _ _).pow _

end Power

/-- What the operation does with a number: the power, which is not reduced when it is the empty product. -/
def rsaValue (mod exp input : Bytes) : ℕ := if beNat exp = 0 then 1 else beNat input ^ beNat exp % beNat mod

theorem rsaValue_eq {exp input : Bytes} (h : 1 < beNat mod) :
    rsaValue mod exp input = beNat input ^ beNat exp % beNat mod := by
  unfold rsaValue
  split_ifs with h0
  · rw [h0, Nat.pow_zero, Nat.mod_eq_of_lt h]
  · rfl

/-- The bytes of a number, as long as the modulus. -/
def modBlock (mod : Bytes) (c : ℕ) : Bytes := (leBytes mod.length c).reverse

theorem rsaPublicOp_eq {exp : Bytes} (hblob : blob.length ≤ 512)
    (hkey : pubkeyUnpackRsa blob = some (mod, exp)) (input : Bytes) :
    rsaPublicOp input blob = if mod.length < input.length ∨ beNat mod ≤ beNat input then none
      else some (modBlock mod (rsaValue mod exp input)) := by
  obtain ⟨hmod, -, -, helen, hsum⟩ := pubkeyUnpackRsa_some hkey
  have hsmall : beNat mod ≤ 256 ^ (tls7RsaMaxBytes - 1) :=
    (beNat_lt mod).le.trans (Nat.pow_le_pow_right (by decide) (by unfold tls7RsaMaxBytes; omega))
  have hexp : beNat exp < 2 ^ (8 * tls7RsaMaxBytes) := by
    rw [two_pow_bits]
    exact (beNat_lt exp).trans_le (Nat.pow_le_pow_right (by decide) (helen.trans (by decide)))
  rw [rsaPublicOp_of_key hkey]
  by_cases hbad : mod.length < input.length ∨ beNat mod ≤ beNat input
  · rw [if_pos hbad, if_pos hbad]
  have hpos : 0 < beNat mod := by omega
  have hroom : rsaValue mod exp input < 256 ^ mod.length := by
    unfold rsaValue
    split_ifs
    · exact Nat.one_lt_pow (List.length_pos_of_ne_nil hmod).ne' (by decide)
    · exact (Nat.mod_lt _ hpos).trans (beNat_lt mod)
  rw [if_neg hbad, if_neg hbad, bnModExp_eq hsmall hpos hexp, Option.bind_some]
  exact (bnToBeFixed_eq _ _).trans (if_pos hroom)

theorem beNat_modBlock (mod : Bytes) (c : ℕ) : beNat (modBlock mod c) = c % 256 ^ mod.length := by
  rw [beNat_eq, modBlock, List.reverse_reverse, leNat_leBytes]

/-- **The public operation**, for a key of a certificate whose modulus is above 1, and a number below the
modulus: a block of the length of the modulus with the power, unless the input is longer than the modulus or
the output is shorter. -/
theorem rsa_public_op_exact {blob mod exp input : Bytes} (hblob : blob.length ≤ 512)
    (hkey : pubkeyUnpackRsa blob = some (mod, exp)) (hmod : 1 < beNat mod) (hinput : beNat input < beNat mod) :
    ∃ out : Bytes, out.length = mod.length ∧ beNat out = beNat input ^ beNat exp % beNat mod ∧
      ∀ steps outLen, 8 * tls7RsaMaxBytes < steps → c7RsaPublicOp steps input blob outLen =
        told (if input.length ≤ mod.length ∧ mod.length ≤ outLen then some out else none) := by
  have hval := beNat_modBlock mod (rsaValue mod exp input)
  rw [rsaValue_eq hmod, Nat.mod_eq_of_lt ((Nat.mod_lt _ (by omega)).trans (beNat_lt mod))] at hval
  refine ⟨modBlock mod (beNat input ^ beNat exp % beNat mod), ?_, hval, fun steps outLen hs => ?_⟩
  · rw [modBlock, List.length_reverse, length_leBytes]
  by_cases hout : mod.length ≤ outLen
  · rw [c7RsaPublicOp_eq hs hkey input hout, rsaPublicOp_eq hblob hkey, rsaValue_eq hmod]
    by_cases hlong : input.length ≤ mod.length
    · rw [if_neg (by omega), if_pos ⟨hlong, hout⟩]
    · rw [if_pos (.inl (by omega)), if_neg fun h => hlong h.1]
  · rw [if_neg fun h => hout h.2, c7RsaPublicOp, hkey, told_some_bind]
    exact if_pos (.inl (by omega))

/-- With the modulus 33 and the exponent 3: the cube of 5. -/
theorem rsa_public_op_exact_sample : ∃ out : Bytes, out.length = [33].length ∧
    beNat out = beNat [5] ^ beNat [3] % beNat [33] ∧
    ∀ steps outLen, 8 * tls7RsaMaxBytes < steps → c7RsaPublicOp steps [5] [0, 1, 0, 1, 33, 3] outLen =
      told (if [5].length ≤ [33].length ∧ [33].length ≤ outLen then some out else none) :=
  @rsa_public_op_exact [0, 1, 0, 1, 33, 3] [33] [3] [5] (by decide) (by decide) (by decide) (by decide)

/-- The same number with a zero in front is refused: it is longer than the modulus. -/
theorem padded_input_refused : pubkeyUnpackRsa [0, 1, 0, 1, 33, 3] = some ([33], [3]) ∧ beNat [0, 5] = 5 ∧
    ∀ steps, c7RsaPublicOp steps [0, 5] [0, 1, 0, 1, 33, 3] 1 = told none := by
  have hkey : pubkeyUnpackRsa [0, 1, 0, 1, 33, 3] = some ([33], [3]) := by decide
  refine ⟨hkey, by decide, fun steps => ?_⟩
  rw [c7RsaPublicOp, hkey, told_some_bind]
  exact if_pos (.inr (by decide))

/-! ### Signatures -/

/-- The padding, the kind of the hash and the hash, and then the bytes `rest`. -/
def pkcs1Block (hash : Bytes) (pad : ℕ) (rest : Bytes) : Bytes :=
  [0x00, 0x01] ++ List.replicate pad 0xFF ++ [0x00] ++ digestInfoPrefix ++ hash ++ rest

theorem pkcs1Block_eq (hash : Bytes) (pad : ℕ) (rest : Bytes) : pkcs1Block hash pad rest =
    0x00 :: 0x01 :: (List.replicate pad 0xFF ++ 0 :: (digestInfoPrefix ++ (hash ++ rest))) := by
  simp only [pkcs1Block, List.append_assoc, List.cons_append, List.nil_append]

theorem takeWhile_padding (pad : ℕ) (l : Bytes) :
    ((List.replicate pad 0xFF ++ 0 :: l).takeWhile (· == 0xFF)).length = pad := by
  rw [List.takeWhile_append_of_pos (fun x hx => by simpa using List.eq_of_mem_replicate hx)]
  simp

theorem pkcs1Block_inj {rest rest' : Bytes} {pad pad' : ℕ}
    (h : pkcs1Block hash pad rest = pkcs1Block hash pad' rest') : rest = rest' := by
  rw [pkcs1Block_eq, pkcs1Block_eq] at h
  have htail := (List.cons.inj (List.cons.inj h).2).2
  obtain rfl : pad = pad' := by rw [← takeWhile_padding pad _, htail, takeWhile_padding]
  exact List.append_cancel_left (List.append_cancel_left (List.cons.inj (List.append_cancel_left htail)).2)

theorem pkcs1VerifySha256_iff {sig key : Bytes} (hhash : hash.length = 32) :
    pkcs1VerifySha256 sig hash key = true ↔
      ∃ pad ≥ 8, ∃ rest, rsaPublicOp sig key = some (pkcs1Block hash pad rest) := by
  have hprefix : digestInfoPrefix.length = 19 := rfl
  constructor
  · intro h
    unfold pkcs1VerifySha256 at h
    split at h
    · next r hr =>
      obtain ⟨hpad, hzero, hroom, hkind, hsame⟩ := of_decide_eq_true h
      set pad := (r.takeWhile (· == 0xFF)).length with hpadlen
      have hones : r.takeWhile (· == 0xFF) = List.replicate pad 0xFF := by
        refine List.eq_replicate_iff.2 ⟨rfl, fun x hx => ?_⟩
        simpa using List.mem_takeWhile_imp hx
      have hrest : r.drop pad = 0 :: r.drop (pad + 1) := by
        have hlt : pad < r.length := by
          rw [List.length_drop] at hroom
          omega
        rw [List.getD_eq_getElem?_getD, List.getElem?_eq_getElem hlt, Option.getD_some] at hzero
        rw [List.drop_eq_getElem_cons hlt, hzero]
      have hr' : r = List.replicate pad 0xFF ++ 0 :: r.drop (pad + 1) := by
        rw [← hones, ← hrest, hpadlen]
        exact (List.prefix_iff_eq_append.1 (List.takeWhile_prefix _)).symm
      refine ⟨pad, hpad, ((r.drop (pad + 1)).drop digestInfoPrefix.length).drop 32, ?_⟩
      have hinfo : r.drop (pad + 1) = digestInfoPrefix ++ (hash ++
          ((r.drop (pad + 1)).drop digestInfoPrefix.length).drop 32) := by
        conv_lhs => rw [← List.take_append_drop digestInfoPrefix.length (r.drop (pad + 1)), hkind,
          ← List.take_append_drop 32 ((r.drop (pad + 1)).drop digestInfoPrefix.length), hsame]
      rw [hr, pkcs1Block]
      conv_lhs => rw [hr', hinfo]
      simp only [List.append_assoc, List.cons_append, List.nil_append]
    · cases h
  · rintro ⟨pad, hpad, rest, hr⟩
    have hdrop : (List.replicate pad 0xFF ++ 0 :: (digestInfoPrefix ++ (hash ++ rest))).drop (pad + 1) =
        digestInfoPrefix ++ (hash ++ rest) := by
      rw [List.drop_append, List.length_replicate, Nat.add_sub_cancel_left]
      simp
    unfold pkcs1VerifySha256
    rw [hr, pkcs1Block_eq]
    split
    · next r heq =>
      obtain rfl := (List.cons.inj (List.cons.inj (Option.some.inj heq)).2).2
      dsimp only
      rw [takeWhile_padding, hdrop, List.take_left, List.drop_left, ← hhash, List.take_left, hprefix]
      refine decide_eq_true ⟨hpad, ?_, ?_, rfl, rfl⟩
      · rw [List.getD_eq_getElem?_getD, List.getElem?_append_right (by rw [List.length_replicate]),
          List.length_replicate, Nat.sub_self]
        rfl
      · rw [List.length_append, List.length_append, hprefix]
        omega
    · next hno => exact absurd rfl (hno _)

/-- The power of a signature, as a block of the length of the modulus. -/
def sigBlock (mod exp sig : Bytes) : Bytes := modBlock mod (beNat sig ^ beNat exp % beNat mod)

/-- A signature is accepted exactly when its power is the encoding of the hash. -/
def SignatureExact (key hash sig : Bytes) : Prop :=
  pkcs1VerifySha256 sig hash key = true ↔ ∃ mod exp, pubkeyUnpackRsa key = some (mod, exp) ∧ 0 < beNat mod ∧
    ∃ pad ≥ 8, sigBlock mod exp sig = pkcs1Block hash pad []

theorem one_lt_of_modBlock {rest : Bytes} {c pad : ℕ} (h : modBlock mod c = pkcs1Block hash pad rest) :
    1 < c := by
  have hval := beNat_modBlock mod c
  rw [h, pkcs1Block_eq, beNat_eq, List.reverse_cons, List.reverse_cons, List.append_assoc, leNat_append] at hval
  have hlen : 1 ≤ (List.replicate pad 0xFF ++ 0 :: (digestInfoPrefix ++ (hash ++ rest))).reverse.length := by
    rw [List.length_reverse, List.length_append, List.length_cons]
    omega
  have hpow := Nat.pow_le_pow_right (show 0 < 256 by decide) hlen
  have hone : leNat ([0x01] ++ [0x00]) = 1 := rfl
  rw [hone, Nat.mul_one] at hval
  have hle := Nat.mod_le c (256 ^ mod.length)
  omega

/-- **A signature is accepted for its power alone** exactly when no block that begins like the encoding is
anything but the encoding of a number in range: nothing follows the hash if the signature is below the modulus
and no longer, and something does if not. -/
theorem signature_exact_iff {key hash sig : Bytes} (hkey : key.length ≤ 512) (hhash : hash.length = 32) :
    SignatureExact key hash sig ↔ ∀ mod exp, pubkeyUnpackRsa key = some (mod, exp) → 0 < beNat mod →
      ∀ pad ≥ 8, ∀ rest, sigBlock mod exp sig = pkcs1Block hash pad rest →
        (sig.length ≤ mod.length ∧ beNat sig < beNat mod ↔ rest = []) := by
  cases hunpack : pubkeyUnpackRsa key with
  | none =>
    have hop : rsaPublicOp sig key = none := by
      rw [rsaPublicOp, hunpack]
      rfl
    rw [SignatureExact, pkcs1VerifySha256_iff hhash, hop, hunpack]
    simp
  | some k =>
    obtain ⟨mod, exp⟩ := k
    have hvalue : ∀ pad rest, 0 < beNat mod → (modBlock mod (rsaValue mod exp sig) = pkcs1Block hash pad rest ↔
        sigBlock mod exp sig = pkcs1Block hash pad rest) := by
      intro pad rest hpos
      by_cases hone : beNat mod = 1
      · constructor <;> intro h <;> have hlt := one_lt_of_modBlock h
        · unfold rsaValue at hlt
          rw [hone, Nat.mod_one] at hlt
          split_ifs at hlt <;> omega
        · rw [hone, Nat.mod_one] at hlt
          omega
      · rw [rsaValue_eq (by omega)]
        rfl
    rw [SignatureExact, pkcs1VerifySha256_iff hhash, rsaPublicOp_eq hkey hunpack, hunpack]
    constructor
    · intro h mod' exp' hmod' hpos pad hpad rest hblock
      obtain ⟨rfl, rfl⟩ := Prod.mk.inj (Option.some.inj hmod')
      constructor
      · intro hfit
        rw [if_neg (by omega)] at h
        obtain ⟨mod', exp', hmod', -, pad', -, hblock'⟩ :=
          h.1 ⟨pad, hpad, rest, congrArg some ((hvalue pad rest hpos).2 hblock)⟩
        obtain ⟨rfl, rfl⟩ := Prod.mk.inj (Option.some.inj hmod')
        exact pkcs1Block_inj (hblock.symm.trans hblock')
      · rintro rfl
        obtain ⟨_, _, _, hsome⟩ := h.2 ⟨mod, exp, rfl, hpos, pad, hpad, hblock⟩
        by_contra hfit
        rw [if_pos (by omega)] at hsome
        cases hsome
    · intro h
      by_cases hfit : sig.length ≤ mod.length ∧ beNat sig < beNat mod
      · have hpos : 0 < beNat mod := Nat.zero_lt_of_lt hfit.2
        rw [if_neg (by omega)]
        constructor
        · rintro ⟨pad, hpad, rest, hsome⟩
          have hblock := (hvalue pad rest hpos).1 (Option.some.inj hsome)
          obtain rfl := (h mod exp rfl hpos pad hpad rest hblock).1 hfit
          exact ⟨mod, exp, rfl, hpos, pad, hpad, hblock⟩
        · rintro ⟨mod', exp', hmod', -, pad, hpad, hblock⟩
          obtain ⟨rfl, rfl⟩ := Prod.mk.inj (Option.some.inj hmod')
          exact ⟨pad, hpad, [], congrArg some ((hvalue pad [] hpos).2 hblock)⟩
      · rw [if_pos (by omega)]
        constructor
        · rintro ⟨_, _, _, hsome⟩
          cases hsome
        · rintro ⟨mod', exp', hmod', hpos, pad, hpad, hblock⟩
          obtain ⟨rfl, rfl⟩ := Prod.mk.inj (Option.some.inj hmod')
          exact absurd ((h mod exp rfl hpos pad hpad [] hblock).2 rfl) hfit

theorem signature_exact_iff_sample : SignatureExact [0, 1, 0, 1, 33, 3] (List.replicate 32 0) [5] ↔
    ∀ mod exp, pubkeyUnpackRsa [0, 1, 0, 1, 33, 3] = some (mod, exp) → 0 < beNat mod →
      ∀ pad ≥ 8, ∀ rest, sigBlock mod exp [5] = pkcs1Block (List.replicate 32 0) pad rest →
        ([5].length ≤ mod.length ∧ beNat [5] < beNat mod ↔ rest = []) :=
  signature_exact_iff (by decide) (by decide)

/-- A modulus of 192 bytes, and the key with it and the exponent 3. -/
def cubeMod : Bytes := 0x80 :: List.replicate 191 1

def cubeKey : Bytes := [0, 192, 0, 1] ++ cubeMod ++ [3]

/-- A number whose cube begins like the encoding of a hash of zeros: the cube root of such a beginning, rounded
up. -/
def cubeRoot : Bytes := (leBytes 64 (41899399781070615935790544660665437860518660873542961387635285445171667 *
  10 ^ 82 + 5315160932933344867407894554358021219333196979150241439603131573419399263599645276)).reverse

/-- 130 bytes follow the hash, and the signature is accepted. -/
theorem cubeRoot_not_exact : ¬ SignatureExact cubeKey (List.replicate 32 0) cubeRoot := by
  intro h
  have hkey : pubkeyUnpackRsa cubeKey = some (cubeMod, [3]) := by decide +kernel
  have hfit : ¬ (cubeMod.length < cubeRoot.length ∨ beNat cubeMod ≤ beNat cubeRoot) := by decide +kernel
  have hblock : modBlock cubeMod (rsaValue cubeMod [3] cubeRoot) = pkcs1Block (List.replicate 32 0) 8
      ((modBlock cubeMod (rsaValue cubeMod [3] cubeRoot)).drop 62) := by decide +kernel
  have hop := rsaPublicOp_eq (by decide +kernel) hkey cubeRoot
  rw [if_neg hfit] at hop
  obtain ⟨mod, exp, hmod, -, pad, -, henc⟩ := h.1 <| (pkcs1VerifySha256_iff (by decide)).2
    ⟨8, Nat.le_refl 8, _, hop.trans (congrArg some hblock)⟩
  obtain ⟨rfl, rfl⟩ := Prod.mk.inj (Option.some.inj (hkey.symm.trans hmod))
  have hrest := pkcs1Block_inj (hblock.symm.trans henc)
  revert hrest
  decide +kernel

end Ridux
