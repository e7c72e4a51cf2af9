import Ridux.Lib.Run
import Ridux.Ready.Objects

/-!
# Deadlines and timer descriptors

Times of `linux_syscalls.c`: seconds and nanoseconds become ticks of the counter, and a timer
descriptor counts the instants that have passed.

* `Timespec`, `muldivU64Sat`, `addSatU64`: the arithmetic;
* `futexTimeoutDeadline`, `nanosleepDeadline`, `Timerfd.settimeRef`: the three callers;
* `Timely`: a deadline lies at most one tick below the time that was asked for;
* `deadlines_timely_iff`: exactly when the deadlines do, and a longer wait does not end earlier;
* `TimerRun`: a timer with what was read from it, and the clock;
* `timer_accounts`: what was read and what is pending are the instants so far.
-/

namespace Ridux

open Lib

/-! ### Arithmetic -/

/-- `c3_muldiv_u64_sat`. -/
def muldivU64Sat (a b d : BitVec 64) : BitVec 64 :=
  let last := BitVec.allOnes 64
  if a = 0 ∨ b = 0 then 0
  else if d = 0 then last
  else
    let q := a / d
    let r := a % d
    if q ≠ 0 ∧ b > last / q then last
    else if r ≠ 0 ∧ b > last / r then last
    else
      let hi := q * b
      let lo := r * b / d
      if lo > last - hi then last else hi + lo

/-- `c3_add_sat_u64`. -/
def addSatU64 (a b : BitVec 64) : BitVec 64 :=
  if b > BitVec.allOnes 64 - a then BitVec.allOnes 64 else a + b

theorem toNat_addSatU64 (a b : BitVec 64) :
    (addSatU64 a b).toNat = min (2 ^ 64 - 1) (a.toNat + b.toNat) := by
  have hlast : (BitVec.allOnes 64).toNat = 2 ^ 64 - 1 := rfl
  unfold addSatU64
  split_ifs with h
  · bv_omega
  · bv_omega

theorem lt_allOnes_div {q b : BitVec 64} (hq : q ≠ 0) :
    b > BitVec.allOnes 64 / q ↔ 2 ^ 64 ≤ q.toNat * b.toNat := by
  have hpos : 0 < q.toNat := Nat.pos_of_ne_zero fun h => hq (BitVec.eq_of_toNat_eq h)
  rw [gt_iff_lt, BitVec.lt_def, BitVec.toNat_udiv, Nat.div_lt_iff_lt_mul hpos, mul_comm]
  exact Nat.lt_iff_add_one_le

theorem toNat_muldivU64Sat (a b : BitVec 64) {d : BitVec 64} (hd : d ≠ 0) :
    (muldivU64Sat a b d).toNat =
      if 2 ^ 64 ≤ a.toNat * b.toNat / d.toNat ∨ 2 ^ 64 ≤ a.toNat % d.toNat * b.toNat then 2 ^ 64 - 1
      else a.toNat * b.toNat / d.toNat := by
  have hpos : 0 < d.toNat := Nat.pos_of_ne_zero fun h => hd (BitVec.eq_of_toNat_eq h)
  unfold muldivU64Sat
  dsimp only
  by_cases hz : a = 0 ∨ b = 0
  · rw [if_pos hz]
    rcases hz with rfl | rfl
    · simp
    · simp
  rw [if_neg hz, if_neg hd]
  have hsplit : a.toNat * b.toNat / d.toNat =
      (a / d).toNat * b.toNat + (a % d).toNat * b.toNat / d.toNat := by
    rw [BitVec.toNat_udiv, BitVec.toNat_umod, ← Nat.mul_add_div hpos, ← mul_assoc, ← add_mul,
      Nat.div_add_mod]
  have hq : (a / d ≠ 0 ∧ b > BitVec.allOnes 64 / (a / d)) ↔ 2 ^ 64 ≤ (a / d).toNat * b.toNat := by
    by_cases h0 : a / d = 0
    · simp [h0]
    · rw [lt_allOnes_div h0, and_iff_right h0]
  have hr : (a % d ≠ 0 ∧ b > BitVec.allOnes 64 / (a % d)) ↔ 2 ^ 64 ≤ (a % d).toNat * b.toNat := by
    by_cases h0 : a % d = 0
    · simp [h0]
    · rw [lt_allOnes_div h0, and_iff_right h0]
  rw [hsplit, ← BitVec.toNat_umod]
  by_cases h1 : 2 ^ 64 ≤ (a / d).toNat * b.toNat
  · rw [if_pos (hq.2 h1), if_pos (.inl (h1.trans (Nat.le_add_right _ _)))]
    rfl
  rw [if_neg (mt hq.1 h1)]
  by_cases h2 : 2 ^ 64 ≤ (a % d).toNat * b.toNat
  · rw [if_pos (hr.2 h2), if_pos (.inr h2)]
    rfl
  rw [if_neg (mt hr.1 h2)]
  have hhi : (a / d * b).toNat = (a / d).toNat * b.toNat := by
    rw [BitVec.toNat_mul, Nat.mod_eq_of_lt (by omega)]
  have hlo : (a % d * b / d).toNat = (a % d).toNat * b.toNat / d.toNat := by
    rw [BitVec.toNat_udiv, BitVec.toNat_mul, Nat.mod_eq_of_lt (by omega)]
  change (addSatU64 (a / d * b) (a % d * b / d)).toNat = _
  rw [toNat_addSatU64, hhi, hlo]
  split_ifs with h3
  · exact min_eq_left (by omega)
  · exact min_eq_right (by omega)

/-- **The quotient is exact**, or the last word when it is too large, unless the product of the remainder is
too large for a word and the quotient is not. -/
theorem muldivU64Sat_exact_iff (a b : BitVec 64) {d : BitVec 64} (hd : d ≠ 0) :
    (muldivU64Sat a b d).toNat = min (a.toNat * b.toNat / d.toNat) (2 ^ 64 - 1) ↔
      a.toNat % d.toNat * b.toNat < 2 ^ 64 ∨ 2 ^ 64 - 1 ≤ a.toNat * b.toNat / d.toNat := by
  rw [toNat_muldivU64Sat a b hd]
  split_ifs with h
  · omega
  · omega

theorem muldivU64Sat_exact_iff_sample :
    (muldivU64Sat 3000000001 3000000000 1000000000).toNat = min (3000000001 * 3000000000 / 1000000000) (2 ^ 64 - 1) :=
  (muldivU64Sat_exact_iff 3000000001 3000000000 (show (1000000000 : BitVec 64) ≠ 0 by decide)).2 (by decide)

/-- Three quarters of `2 ^ 63` fit. -/
theorem muldivU64Sat_too_large : (muldivU64Sat 3 (2 ^ 63) 4).toNat ≠ min (3 * 2 ^ 63 / 4) (2 ^ 64 - 1) := by
  decide +kernel

/-! ### Timespecs -/

/-- `timespec_t`. -/
structure Timespec where
  tvSec : BitVec 64
  tvNsec : BitVec 64

namespace Timespec

/-- `c3_timespec_valid`. -/
def Valid (ts : Timespec) : Prop :=
  0 ≤ ts.tvSec.toInt ∧ 0 ≤ ts.tvNsec.toInt ∧ ts.tvNsec.toInt < 1000000000

instance (ts : Timespec) : Decidable ts.Valid := inferInstanceAs (Decidable (_ ∧ _ ∧ _))

/-- The nanoseconds in 64 bits. -/
def ns (ts : Timespec) : BitVec 64 := ts.tvSec * 1000000000 + ts.tvNsec

/-- `c3_timespec_to_ns`. -/
def toNs (ts : Timespec) : BitVec 64 := if ts.Valid then ts.ns else BitVec.allOnes 64

/-- The nanoseconds that a timespec stands for. -/
def nanos (ts : Timespec) : ℕ := ts.tvSec.toNat * 10 ^ 9 + ts.tvNsec.toNat

theorem toNat_ns (ts : Timespec) : ts.ns.toNat = ts.nanos % 2 ^ 64 := by
  unfold ns nanos
  rw [BitVec.toNat_add, BitVec.toNat_mul]
  exact Nat.mod_add_mod _ _ _

end Timespec

/-- `1000000000ULL`. -/
def nsPerSec : BitVec 64 := 1000000000

/-- `c3_futex_timeout_deadline`. -/
def futexTimeoutDeadline (now freq : BitVec 64) (gettime : ℤ → Option Timespec) (absolute : Bool)
    (clockid : ℤ) : Option Timespec → BitVec 64
  | none => 0
  | some ts =>
    let after := fun add : BitVec 64 => if add = 0 then now else addSatU64 now (muldivU64Sat add freq nsPerSec)
    if ¬ ts.Valid then 0
    else if absolute then
      match gettime clockid with
      | none => now
      | some t => if ts.ns ≤ t.ns then now else after (ts.ns - t.ns)
    else after ts.ns

/-- The ticks of 10 ms in `real_sys_nanosleep`. -/
def nanosleepTicks (req : Timespec) : BitVec 64 :=
  let ticks := req.ns / 10000000
  if ticks < 1 ∧ req.ns ≠ 0 then 1 else ticks

/-- The deadline of `real_sys_nanosleep`. -/
def nanosleepDeadline (now freq : BitVec 64) (req : Timespec) : BitVec 64 :=
  addSatU64 now (muldivU64Sat (nanosleepTicks req) freq 100)

/-- `c3_ns_to_tsc`. -/
def nsToTsc (freq ns : BitVec 64) : BitVec 64 :=
  if ns = 0 ∨ freq = 0 then 0 else muldivU64Sat ns freq nsPerSec

/-- The end of `c3_timerfd_settime_ref`: the timer starts, `valNs` nanoseconds from now. -/
def Timerfd.start (t : Timerfd) (now freq intNs valNs : BitVec 64) : Timerfd :=
  let tsc := nsToTsc freq intNs
  let next := addSatU64 now (nsToTsc freq valNs)
  { t with
    armed := true
    intervalTsc := if intNs ≠ 0 ∧ tsc = 0 then 1 else tsc
    nextTsc := if next ≤ now then now + 1 else next }

/-- `c3_timerfd_settime_ref` on a timer in use, up to the old values that it stores; `gettime` is what its
clock says. -/
def Timerfd.settimeRef (t : Timerfd) (now freq : BitVec 64) (gettime : Option Timespec) (flags : BitVec 32)
    (interval value : Timespec) : Except FdErr Timerfd :=
  let valNs := value.toNs
  let intNs := interval.toNs
  if flags &&& ~~~1#32 ≠ 0 then .error .einval
  else if ¬ value.Valid ∨ ¬ interval.Valid then .error .einval
  else if valNs = BitVec.allOnes 64 ∨ intNs = BitVec.allOnes 64 then .error .einval
  else if valNs = 0 then .ok { t with armed := false, nextTsc := 0, intervalTsc := 0 }
  else if flags &&& 1#32 ≠ 0 then
    match gettime with
    | none => .error .einval
    | some c =>
      let abs := if c.toNs = BitVec.allOnes 64 then 0 else c.toNs
      .ok (t.start now freq intNs (if valNs ≤ abs then 1 else valNs - abs))
  else .ok (t.start now freq intNs valNs)

variable {t r : Timerfd} {freq : BitVec 64} {c : Option Timespec} {interval value : Timespec}

theorem Timerfd.settimeRef_ok {now : BitVec 64} {flags : BitVec 32}
    (h : t.settimeRef now freq c flags interval value = .ok r) :
    r = { t with armed := false, nextTsc := 0, intervalTsc := 0 } ∨
      ∃ intNs valNs, r = t.start now freq intNs valNs ∧ (flags = 0 → valNs = value.ns) := by
  unfold settimeRef at h
  dsimp only at h
  split_ifs at h with _ hvalid _ _ habs
  · exact .inl (Except.ok.inj h).symm
  · cases c with
    | none => cases h
    | some c => exact .inr ⟨_, _, (Except.ok.inj h).symm, fun h0 => absurd (by rw [h0]; decide) habs⟩
  · have hv : value.Valid := not_not.1 (not_or.1 hvalid).1
    exact .inr ⟨_, _, (Except.ok.inj h).symm, fun _ => if_pos hv⟩

theorem nsToTsc_eq (freq ns : BitVec 64) : nsToTsc freq ns = muldivU64Sat ns freq nsPerSec := by
  unfold nsToTsc
  split_ifs with h
  · exact (if_pos h).symm
  · rfl

/-! ### Deadlines -/

/-- A deadline is at most one tick before the time `ns` nanoseconds after `now`, or the last one. -/
def Timely (now freq : BitVec 64) (ns : ℕ) (deadline : BitVec 64) : Prop :=
  deadline = BitVec.allOnes 64 ∨ now.toNat * 10 ^ 9 + ns * freq.toNat ≤ (deadline.toNat + 1) * 10 ^ 9

/-- The shorter wait and the longer one are timely, and the longer one does not end earlier. -/
structure InTime (now freq : BitVec 64) (ts ts' : Timespec) (d d' : BitVec 64) : Prop where
  short : Timely now freq ts.nanos d
  long : Timely now freq ts'.nanos d'
  le : d ≤ d'

/-- The ticks of `count` parts of a second, `div` of which make one, do not fit: `least` is the
smallest number of ticks. -/
def Saturates (now freq : BitVec 64) (least div count : ℕ) : Prop :=
  2 ^ 64 - 1 ≤ now.toNat + max least (count * freq.toNat / div) ∨ 2 ^ 64 ≤ count % div * freq.toNat

/-- The nanoseconds fit in 64 bits, or the frequency or saturation makes up for what does not. -/
def NanosFit (now freq : BitVec 64) (least : ℕ) (ts : Timespec) : Prop :=
  ts.nanos < 2 ^ 64 ∨ freq = 0 ∨ Saturates now freq least (10 ^ 9) ts.ns.toNat

/-- The same for ticks of 10 ms: what they leave out is at most one tick of the counter. -/
def TicksFit (now freq : BitVec 64) (ts : Timespec) : Prop :=
  (ts.nanos < 2 ^ 64 ∧ (ts.nanos < 10 ^ 7 ∨ ts.nanos % 10 ^ 7 * freq.toNat +
    ts.nanos / 10 ^ 7 * freq.toNat % 100 * 10 ^ 7 ≤ 10 ^ 9)) ∨
  freq = 0 ∨ Saturates now freq 0 100 (nanosleepTicks ts).toNat

section

variable {now freq k k' : BitVec 64} {ts ts' : Timespec} {least div unit count count' n : ℕ}

/-- What a deadline is that is computed from `count` parts of a second. -/
def Reckoned (now freq : BitVec 64) (least div count : ℕ) (k : BitVec 64) : Prop :=
  (Saturates now freq least div count → k = BitVec.allOnes 64) ∧
    (¬ Saturates now freq least div count → k.toNat = now.toNat + max least (count * freq.toNat / div))

theorem reckoned_after (now freq a : BitVec 64) {d : BitVec 64} (hd : d ≠ 0) :
    Reckoned now freq 0 d.toNat a.toNat (addSatU64 now (muldivU64Sat a freq d)) := by
  have hk := toNat_addSatU64 now (muldivU64Sat a freq d)
  rw [toNat_muldivU64Sat a freq hd] at hk
  unfold Reckoned Saturates
  rw [Nat.zero_max]
  constructor
  · intro h
    apply BitVec.eq_of_toNat_eq
    rw [hk]
    split_ifs with hs
    · exact min_eq_left (by omega)
    · exact min_eq_left (by omega)
  · intro h
    push Not at h
    rw [hk, if_neg (by omega)]
    exact min_eq_right (by omega)

namespace Reckoned

theorem eq_allOnes_iff (h : Reckoned now freq least div count k) :
    k = BitVec.allOnes 64 ↔ Saturates now freq least div count := by
  refine ⟨fun hk => ?_, h.1⟩
  by_contra hs
  have hval := h.2 hs
  subst hk
  exact hs (.inl hval.le)

theorem timely_iff (h : Reckoned now freq least div count k) :
    Timely now freq n k ↔ Saturates now freq least div count ∨
      n * freq.toNat ≤ (max least (count * freq.toNat / div) + 1) * 10 ^ 9 := by
  unfold Timely
  rw [h.eq_allOnes_iff]
  refine or_congr_right' fun hs => ?_
  rw [h.2 hs]
  omega

theorem le_iff (h : Reckoned now freq least div count k) (h' : Reckoned now freq least div count' k')
    (hle : ¬ Saturates now freq least div count → ¬ Saturates now freq least div count' →
      count * freq.toNat ≤ count' * freq.toNat) :
    k ≤ k' ↔ (Saturates now freq least div count → Saturates now freq least div count') := by
  constructor
  · intro hk hs
    rw [h.1 hs] at hk
    exact h'.eq_allOnes_iff.1 (BitVec.allOnes_le_iff.1 hk)
  · intro hs
    by_cases hs' : Saturates now freq least div count'
    · rw [h'.1 hs', BitVec.le_def, BitVec.toNat_allOnes]
      exact Nat.le_sub_one_of_lt k.isLt
    have hn := mt hs hs'
    rw [BitVec.le_def, h.2 hn, h'.2 hs']
    have hdiv := Nat.div_le_div_right (c := div) (hle hn hs')
    omega

end Reckoned

theorem lt_nanos_of_wrap (hn : 2 ^ 64 ≤ n) (hf : freq ≠ 0) (hunit : div * unit = 10 ^ 9)
    (hcount : count * unit ≤ n % 2 ^ 64 + 10 ^ 7) (hleast : least ≤ 1) :
    ¬ n * freq.toNat ≤ (max least (count * freq.toNat / div) + 1) * 10 ^ 9 := by
  have hpos : 0 < freq.toNat := Nat.pos_of_ne_zero fun h => hf (BitVec.eq_of_toNat_eq h)
  have hwrap : n % 2 ^ 64 + 2 ^ 64 ≤ n := by omega
  have hlow : (n % 2 ^ 64 + 2 ^ 64) * freq.toNat ≤ n * freq.toNat := Nat.mul_le_mul_right _ hwrap
  have hhigh : count * unit * freq.toNat ≤ (n % 2 ^ 64 + 10 ^ 7) * freq.toNat :=
    Nat.mul_le_mul_right _ hcount
  have hdiv : count * freq.toNat / div * (div * unit) ≤ count * unit * freq.toNat := by
    rw [← mul_assoc, mul_right_comm count]
    exact Nat.mul_le_mul_right _ (Nat.div_mul_le_self _ _)
  rw [hunit] at hdiv
  rw [add_mul] at hlow hhigh
  have hmax : max least (count * freq.toNat / div) ≤ count * freq.toNat / div + 1 := by omega
  omega

theorem mul_le_of_count (hn : n ≤ count) : n * freq.toNat ≤ (max least (count * freq.toNat / 10 ^ 9) + 1) * 10 ^ 9 := by
  have hmul := Nat.mul_le_mul_right freq.toNat hn
  omega

theorem Reckoned.fits_iff (h : Reckoned now freq least (10 ^ 9) ts.ns.toNat k) (hleast : least ≤ 1) :
    Timely now freq ts.nanos k ↔ NanosFit now freq least ts := by
  rw [h.timely_iff, ts.toNat_ns]
  unfold NanosFit
  rw [ts.toNat_ns]
  by_cases hn : ts.nanos < 2 ^ 64
  · exact iff_of_true (.inr (mul_le_of_count (Nat.mod_eq_of_lt hn).ge)) (.inl hn)
  by_cases hf : freq = 0
  · subst hf
    exact iff_of_true (.inr (by simp)) (.inr (.inl rfl))
  have hshort : ¬ ts.nanos * freq.toNat ≤
      (max least (ts.nanos % 2 ^ 64 * freq.toNat / 10 ^ 9) + 1) * 10 ^ 9 :=
    lt_nanos_of_wrap (not_lt.1 hn) hf (mul_one (10 ^ 9)) ((mul_one _).trans_le (Nat.le_add_right _ _)) hleast
  simp only [hn, hf, hshort, false_or, or_false]

theorem toNat_nanosleepTicks (ts : Timespec) : (nanosleepTicks ts).toNat =
    if ts.ns.toNat < 10 ^ 7 ∧ ts.ns.toNat ≠ 0 then 1 else ts.ns.toNat / 10 ^ 7 := by
  have hz : ts.ns = 0 ↔ ts.ns.toNat = 0 := by bv_omega
  have hlt : ts.ns / 10000000 < 1 ↔ ts.ns.toNat < 10 ^ 7 := by
    rw [BitVec.lt_def, BitVec.toNat_udiv]
    exact Nat.div_lt_iff_lt_mul (by decide)
  unfold nanosleepTicks
  simp only [hlt, ne_eq, hz]
  split_ifs with h
  · rfl
  · rfl

theorem Reckoned.fitsTicks_iff (h : Reckoned now freq 0 100 (nanosleepTicks ts).toNat k) :
    Timely now freq ts.nanos k ↔ TicksFit now freq ts := by
  rw [h.timely_iff]
  unfold TicksFit
  rw [toNat_nanosleepTicks, ts.toNat_ns, Nat.zero_max]
  by_cases hf : freq = 0
  · subst hf
    exact iff_of_true (.inr (by simp)) (.inr (.inl rfl))
  by_cases hn : ts.nanos < 2 ^ 64
  · rw [Nat.mod_eq_of_lt hn]
    simp only [hn, hf, true_and, false_or]
    rw [or_comm]
    refine or_congr_left ?_
    by_cases hsmall : ts.nanos < 10 ^ 7
    · refine iff_of_true ?_ (.inl hsmall)
      have hmul := Nat.mul_le_mul_right freq.toNat hsmall.le
      split_ifs with h0
      · omega
      · rw [show ts.nanos = 0 by omega]
        omega
    · rw [if_neg fun h => hsmall h.1, or_iff_right hsmall]
      have hsplit : ts.nanos * freq.toNat =
          ts.nanos / 10 ^ 7 * freq.toNat * 10 ^ 7 + ts.nanos % 10 ^ 7 * freq.toNat := by
        rw [mul_right_comm, ← add_mul, Nat.div_add_mod']
      omega
  · have hshort (c : ℕ) (hc : c * 10 ^ 7 ≤ ts.nanos % 2 ^ 64 + 10 ^ 7) :
        ¬ ts.nanos * freq.toNat ≤ (c * freq.toNat / 100 + 1) * 10 ^ 9 := by
      have h := lt_nanos_of_wrap (not_lt.1 hn) hf (show 100 * 10 ^ 7 = 10 ^ 9 from rfl) hc (Nat.zero_le 1)
      rwa [Nat.zero_max] at h
    rw [or_iff_left (hshort _ (by split_ifs <;> omega))]
    simp only [hn, hf, false_and, false_or]

theorem Reckoned.inTime_iff {p p' : Prop} (h : Reckoned now freq least div count k)
    (h' : Reckoned now freq least div count' k') (hp : Timely now freq ts.nanos k ↔ p)
    (hp' : Timely now freq ts'.nanos k' ↔ p')
    (hfits : p' → ¬ Saturates now freq least div count' → freq = 0 ∨ ts'.nanos < 2 ^ 64)
    (hmono : ts'.nanos < 2 ^ 64 → count ≤ count') :
    InTime now freq ts ts' k k' ↔
      p ∧ p' ∧ (Saturates now freq least div count → Saturates now freq least div count') := by
  have hle (h2 : p') := h.le_iff h' fun _ hs => by
    rcases hfits h2 hs with rfl | hn
    · exact le_of_eq (by simp)
    · exact Nat.mul_le_mul_right _ (hmono hn)
  constructor
  · rintro ⟨h1, h2, h3⟩
    exact ⟨hp.1 h1, hp'.1 h2, (hle (hp'.1 h2)).1 h3⟩
  · rintro ⟨h1, h2, h3⟩
    exact ⟨hp.2 h1, hp'.2 h2, (hle h2).2 h3⟩

theorem Reckoned.inTime_fits (h : Reckoned now freq least (10 ^ 9) ts.ns.toNat k)
    (h' : Reckoned now freq least (10 ^ 9) ts'.ns.toNat k') (hleast : least ≤ 1)
    (hle : ts.nanos ≤ ts'.nanos) :
    InTime now freq ts ts' k k' ↔ NanosFit now freq least ts ∧ NanosFit now freq least ts' ∧
      (Saturates now freq least (10 ^ 9) ts.ns.toNat → Saturates now freq least (10 ^ 9) ts'.ns.toNat) := by
  refine h.inTime_iff h' (h.fits_iff hleast) (h'.fits_iff hleast) ?_ fun hn => ?_
  · rintro (hn | hf | hs) hsat
    · exact .inr hn
    · exact .inl hf
    · exact absurd hs hsat
  · rw [ts.toNat_ns, ts'.toNat_ns, Nat.mod_eq_of_lt hn, Nat.mod_eq_of_lt (hle.trans_lt hn)]
    exact hle

end

theorem reckoned_settime {now : BitVec 64} (hnow : now ≠ BitVec.allOnes 64)
    (h : t.settimeRef now freq c 0 interval value = .ok r) (harmed : r.armed = true) :
    Reckoned now freq 1 (10 ^ 9) value.ns.toNat r.nextTsc := by
  obtain rfl | ⟨intNs, valNs, rfl, hval⟩ := Timerfd.settimeRef_ok h
  · cases harmed
  obtain rfl := hval rfl
  have hne : now.toNat ≠ 2 ^ 64 - 1 := fun h => hnow (BitVec.eq_of_toNat_eq h)
  have hlt := now.isLt
  obtain ⟨hsat, hfree⟩ := reckoned_after now freq value.ns (show nsPerSec ≠ 0 by decide)
  rw [← nsToTsc_eq] at hsat hfree
  have hnext : (t.start now freq intNs value.ns).nextTsc.toNat =
      max (now.toNat + 1) (addSatU64 now (nsToTsc freq value.ns)).toNat := by
    unfold Timerfd.start
    dsimp only
    split_ifs with hle
    · rw [BitVec.toNat_add]
      change (now.toNat + 1) % 2 ^ 64 = _
      rw [Nat.mod_eq_of_lt (by omega)]
      exact (max_eq_left (Nat.le_succ_of_le hle)).symm
    · exact (max_eq_right (Nat.succ_le_of_lt (BitVec.lt_def.1 (BitVec.not_le.1 hle)))).symm
  by_cases h0 : Saturates now freq 0 nsPerSec.toNat value.ns.toNat
  · rw [hsat h0] at hnext
    have hlast : (t.start now freq intNs value.ns).nextTsc = BitVec.allOnes 64 :=
      BitVec.eq_of_toNat_eq (hnext.trans (max_eq_right (by rw [BitVec.toNat_allOnes]; omega)))
    refine ⟨fun _ => hlast, fun h1 => absurd (h0.imp_left fun h => ?_) h1⟩
    exact h.trans (Nat.add_le_add_left (max_le_max_right _ (Nat.zero_le 1)) _)
  · rw [hfree h0, Nat.zero_max, Nat.add_max_add_left] at hnext
    refine ⟨fun h1 => BitVec.eq_of_toNat_eq ?_, fun _ => hnext⟩
    obtain ⟨hroom, hprod⟩ := not_or.1 h0
    have hfull := h1.resolve_right hprod
    rw [hnext, BitVec.toNat_allOnes]
    change ¬ 2 ^ 64 - 1 ≤ now.toNat + max 0 (value.ns.toNat * freq.toNat / 10 ^ 9) at hroom
    change now.toNat + max 1 (value.ns.toNat * freq.toNat / 10 ^ 9) = 2 ^ 64 - 1
    omega

/-- **The deadlines.** Each of the three is timely, and ends no earlier for a longer wait, exactly when both
waits fit and the shorter one does not saturate alone; a timer also must not be set at the last tick. -/
theorem deadlines_inTime_iff (now freq : BitVec 64) (gettime : ℤ → Option Timespec) (clockid : ℤ)
    {ts ts' : Timespec} (hv : ts.Valid) (hv' : ts'.Valid) (hle : ts.nanos ≤ ts'.nanos) :
    (InTime now freq ts ts' (futexTimeoutDeadline now freq gettime false clockid (some ts))
        (futexTimeoutDeadline now freq gettime false clockid (some ts')) ↔
      NanosFit now freq 0 ts ∧ NanosFit now freq 0 ts' ∧
        (Saturates now freq 0 (10 ^ 9) ts.ns.toNat → Saturates now freq 0 (10 ^ 9) ts'.ns.toNat)) ∧
    (InTime now freq ts ts' (nanosleepDeadline now freq ts) (nanosleepDeadline now freq ts') ↔
      TicksFit now freq ts ∧ TicksFit now freq ts' ∧
        (Saturates now freq 0 100 (nanosleepTicks ts).toNat →
          Saturates now freq 0 100 (nanosleepTicks ts').toNat)) ∧
    ∀ (t : Timerfd) (c : Option Timespec) (interval : Timespec) (r r' : Timerfd),
      t.settimeRef now freq c 0 interval ts = .ok r → r.armed = true →
      t.settimeRef now freq c 0 interval ts' = .ok r' → r'.armed = true →
      (InTime now freq ts ts' r.nextTsc r'.nextTsc ↔ now ≠ BitVec.allOnes 64 ∧
        NanosFit now freq 1 ts ∧ NanosFit now freq 1 ts' ∧
          (Saturates now freq 1 (10 ^ 9) ts.ns.toNat → Saturates now freq 1 (10 ^ 9) ts'.ns.toNat)) := by
  have hfutex (x : Timespec) (hx : x.Valid) : Reckoned now freq 0 (10 ^ 9) x.ns.toNat
      (futexTimeoutDeadline now freq gettime false clockid (some x)) := by
    have h := reckoned_after now freq x.ns (show nsPerSec ≠ 0 by decide)
    unfold futexTimeoutDeadline
    dsimp only
    rw [if_neg (not_not.2 hx), if_neg (by decide)]
    split_ifs with h0
    · rw [h0] at h ⊢
      have hzero : addSatU64 now (muldivU64Sat 0 freq nsPerSec) = now := by
        unfold muldivU64Sat addSatU64
        simp
      rwa [hzero] at h
    · exact h
  refine ⟨(hfutex ts hv).inTime_fits (hfutex ts' hv') (Nat.zero_le 1) hle, ?_, ?_⟩
  · have hsleep (x : Timespec) : Reckoned now freq 0 100 (nanosleepTicks x).toNat (nanosleepDeadline now freq x) :=
      reckoned_after now freq (nanosleepTicks x) (show (100 : BitVec 64) ≠ 0 by decide)
    refine (hsleep ts).inTime_iff (hsleep ts') (hsleep ts).fitsTicks_iff (hsleep ts').fitsTicks_iff ?_ fun hn => ?_
    · rintro (hn | hf | hs) hsat
      · exact .inr hn.1
      · exact .inl hf
      · exact absurd hs hsat
    · rw [toNat_nanosleepTicks, toNat_nanosleepTicks, ts.toNat_ns, ts'.toNat_ns, Nat.mod_eq_of_lt hn,
        Nat.mod_eq_of_lt (hle.trans_lt hn)]
      have hdiv := Nat.div_le_div_right (c := 10 ^ 7) hle
      split_ifs <;> omega
  · intro t c interval r r' h harmed h' harmed'
    by_cases hnow : now = BitVec.allOnes 64
    · refine iff_of_false (fun hin => ?_) fun hc => hc.1 hnow
      obtain rfl | ⟨intNs, valNs, rfl, -⟩ := Timerfd.settimeRef_ok h
      · cases harmed
      -- the last tick is never before the deadline, and the next one is 0
      have hzero : (t.start now freq intNs valNs).nextTsc = 0 := by
        unfold Timerfd.start
        dsimp only
        rw [if_pos (BitVec.le_def.2 (by rw [hnow, BitVec.toNat_allOnes]; omega)), hnow]
        rfl
      rcases hin.short with hlast | hsum
      · rw [hzero] at hlast
        exact absurd hlast (by decide)
      · rw [hzero, hnow, BitVec.toNat_allOnes] at hsum
        change (2 ^ 64 - 1) * 10 ^ 9 + _ ≤ (0 + 1) * 10 ^ 9 at hsum
        omega
    · rw [and_iff_right hnow]
      exact (reckoned_settime hnow h harmed).inTime_fits (reckoned_settime hnow h' harmed') le_rfl hle

/-- At 3 GHz a second and two seconds are waited for by all three. -/
theorem deadlines_inTime_iff_sample :
    InTime 0 3000000000 ⟨1, 0⟩ ⟨2, 0⟩ (futexTimeoutDeadline 0 3000000000 (fun _ => none) false 0 (some ⟨1, 0⟩))
      (futexTimeoutDeadline 0 3000000000 (fun _ => none) false 0 (some ⟨2, 0⟩)) ∧
    InTime 0 3000000000 ⟨1, 0⟩ ⟨2, 0⟩ (nanosleepDeadline 0 3000000000 ⟨1, 0⟩)
      (nanosleepDeadline 0 3000000000 ⟨2, 0⟩) ∧
    InTime 0 3000000000 ⟨1, 0⟩ ⟨2, 0⟩ 3000000000 6000000000 := by
  have hall := deadlines_inTime_iff 0 3000000000 (fun _ => none) 0 (show Timespec.Valid ⟨1, 0⟩ by decide)
    (show Timespec.Valid ⟨2, 0⟩ by decide) (by decide)
  have htimer := hall.2.2 ⟨true, false, 0, 0⟩ none ⟨0, 0⟩ ⟨true, true, 3000000000, 0⟩ ⟨true, true, 6000000000, 0⟩
    rfl rfl rfl rfl
  refine ⟨hall.1.2 ⟨.inl (by decide), .inl (by decide), ?_⟩,
    hall.2.1.2 ⟨.inl (by decide), .inl (by decide), ?_⟩,
    htimer.2 ⟨by decide, .inl (by decide), .inl (by decide), ?_⟩⟩
  · unfold Saturates
    decide
  · unfold Saturates
    decide
  · unfold Saturates
    decide

/-- A wait of `2 ^ 55` seconds is over at once: the nanoseconds wrap to 0. -/
theorem forever_ends_at_once :
    Timespec.Valid ⟨2 ^ 55, 0⟩ ∧
    futexTimeoutDeadline 1000 3000000000 (fun _ => none) false 0 (some ⟨2 ^ 55, 0⟩) = 1000 ∧
    ¬ Timely 1000 3000000000 (Timespec.nanos ⟨2 ^ 55, 0⟩)
      (futexTimeoutDeadline 1000 3000000000 (fun _ => none) false 0 (some ⟨2 ^ 55, 0⟩)) := by
  have hd : futexTimeoutDeadline 1000 3000000000 (fun _ => none) false 0 (some ⟨2 ^ 55, 0⟩) = 1000 := by decide +kernel
  refine ⟨by decide, hd, ?_⟩
  rw [hd]
  unfold Timely
  decide

/-! ### Expirations -/

/-- The instants `first`, `first + interval`, … up to `now`; only `first` when the interval is 0. -/
def instants (first interval now : ℕ) : Finset ℕ :=
  (Finset.range (now + 1)).filter fun x => first ≤ x ∧ interval ∣ x - first

theorem card_instants (first interval now : ℕ) :
    (instants first interval now).card = if now < first then 0 else 1 + (now - first) / interval := by
  by_cases hlt : now < first
  · rw [if_pos hlt, Finset.card_eq_zero, instants, Finset.filter_eq_empty_iff]
    intro x hx hmem
    have hx := Finset.mem_range.1 hx
    omega
  have himage : instants first interval now =
      (Finset.range (1 + (now - first) / interval)).image fun k => first + interval * k := by
    ext x
    simp only [instants, Finset.mem_filter, Finset.mem_range, Finset.mem_image]
    constructor
    · rintro ⟨hx, hle, hdvd⟩
      refine ⟨(x - first) / interval, ?_, by rw [Nat.mul_div_cancel' hdvd, Nat.add_sub_cancel' hle]⟩
      have hdiv : (x - first) / interval ≤ (now - first) / interval := Nat.div_le_div_right (by omega)
      omega
    · rintro ⟨k, hk, rfl⟩
      have hmul : interval * k ≤ now - first :=
        (Nat.mul_le_mul_left _ (by omega)).trans (Nat.mul_div_le (now - first) interval)
      exact ⟨by omega, Nat.le_add_right _ _, by rw [Nat.add_sub_cancel_left]; exact Nat.dvd_mul_right _ _⟩
  rw [if_neg hlt, himage, Finset.card_image_of_injOn, Finset.card_range]
  intro k hk l hl hkl
  obtain rfl | hpos := Nat.eq_zero_or_pos interval
  · rw [Nat.div_zero] at hk hl
    have hk := Finset.mem_range.1 hk
    have hl := Finset.mem_range.1 hl
    omega
  · exact Nat.eq_of_mul_eq_mul_left hpos (Nat.add_left_cancel hkl)

namespace Timerfd

variable {t : Timerfd} {now w : BitVec 64}

theorem consumeExpired_next (h : t.Due now) (hi : t.intervalTsc ≠ 0) :
    ∃ next, (t.consumeExpired now).2 = { t with nextTsc := next } ∧
      next.toNat = min (2 ^ 64 - 1) (t.nextTsc.toNat + t.intervalTsc.toNat * t.pending now) := by
  have hcount := pending_of_due h
  have hlast : (BitVec.allOnes 64).toNat = 2 ^ 64 - 1 := rfl
  unfold pending consumeExpired at hcount ⊢
  rw [if_neg (not_idle_iff.2 h), if_neg hi] at hcount ⊢
  dsimp only at hcount ⊢
  generalize 1 + (now - t.nextTsc) / t.intervalTsc = n at hcount ⊢
  refine ⟨_, rfl, ?_⟩
  have hn0 : n ≠ 0 := by
    intro h0
    rw [h0, show (0 : BitVec 64).toNat = 0 from rfl] at hcount
    exact absurd hcount.symm (Nat.add_comm 1 _ ▸ Nat.succ_ne_zero _)
  by_cases hbig : n ≠ 0 ∧ n > BitVec.allOnes 64 / t.intervalTsc
  · have hmul := (lt_allOnes_div hi).1 hbig.2
    rw [if_pos hbig, hlast]
    omega
  have hmul : (n * t.intervalTsc).toNat = t.intervalTsc.toNat * n.toNat := by
    rw [BitVec.toNat_mul, mul_comm, Nat.mod_eq_of_lt]
    exact not_le.1 fun hle => hbig ⟨hn0, (lt_allOnes_div hi).2 hle⟩
  rw [if_neg hbig, ← hmul]
  generalize n * t.intervalTsc = m
  by_cases hsum : n ≠ 0 ∧ t.nextTsc > BitVec.allOnes 64 - m
  · have hgt := hsum.2
    rw [if_pos hsum]
    bv_omega
  · have hle : ¬ t.nextTsc > BitVec.allOnes 64 - m := fun hgt => hsum ⟨hn0, hgt⟩
    rw [if_neg hsum]
    bv_omega

theorem pending_consumeExpired (hle : now ≤ w) (hw : w ≠ BitVec.allOnes 64) :
    t.pending now + (t.consumeExpired now).2.pending w = t.pending w := by
  by_cases h : t.Due now
  swap
  · rw [pending_of_not h, consumeExpired_of_not h]
    exact Nat.zero_add _
  have hdue : t.Due w := ⟨h.1, h.2.1, BitVec.le_trans h.2.2 hle⟩
  by_cases hi : t.intervalTsc = 0
  · have hoff : (t.consumeExpired now).2 = { t with armed := false } := by
      unfold consumeExpired
      rw [if_neg (not_idle_iff.2 h), if_pos hi]
    have hidle : ¬ Due { t with armed := false } w := fun hd => Bool.false_ne_true hd.1
    have hzero : (t.consumeExpired now).2.pending w = 0 := by
      rw [hoff]
      exact pending_of_not hidle
    rw [hzero, pending_of_due h, pending_of_due hdue, hi, show (0 : BitVec 64).toNat = 0 from rfl,
      Nat.div_zero, Nat.div_zero]
  obtain ⟨next, hnext, hval⟩ := consumeExpired_next h hi
  have hlast : w.toNat < 2 ^ 64 - 1 := by
    have hne : w.toNat ≠ 2 ^ 64 - 1 := fun h => hw (BitVec.eq_of_toNat_eq h)
    omega
  have hcount := pending_of_due h
  have hpos : 0 < t.intervalTsc.toNat := Nat.pos_of_ne_zero fun h0 => hi (BitVec.eq_of_toNat_eq h0)
  have hmono : (now.toNat - t.nextTsc.toNat) / t.intervalTsc.toNat ≤
      (w.toNat - t.nextTsc.toNat) / t.intervalTsc.toNat :=
    Nat.div_le_div_right (Nat.sub_le_sub_right hle _)
  rw [pending_of_due hdue, hnext]
  by_cases hd : Due { t with nextTsc := next } w
  · -- the next instant is one that the word holds, and the instants from it on are counted from there
    have hle' : next.toNat ≤ w.toNat := hd.2.2
    rw [pending_of_due hd]
    dsimp only
    rw [hval, min_eq_right (by omega), ← Nat.sub_sub, Nat.sub_mul_div]
    have hn : t.pending now ≤ (w.toNat - t.nextTsc.toNat) / t.intervalTsc.toNat :=
      (Nat.le_div_iff_mul_le hpos).2 (by rw [mul_comm]; omega)
    omega
  · have hlt : w.toNat < next.toNat := by
      by_contra hge
      refine hd ⟨h.1, fun h0 => ?_, not_lt.1 hge⟩
      change next = 0 at h0
      rw [h0, show (0 : BitVec 64).toNat = 0 from rfl] at hval
      exact hdue.2.1 (BitVec.eq_of_toNat_eq (show t.nextTsc.toNat = 0 by omega))
    have hfirst : t.nextTsc.toNat ≤ w.toNat := hdue.2.2
    have hn : (w.toNat - t.nextTsc.toNat) / t.intervalTsc.toNat < t.pending now :=
      (Nat.div_lt_iff_lt_mul hpos).2 (by rw [mul_comm]; omega)
    have hzero := pending_of_not hd
    omega

theorem lt_next_of_due (h : t.Due now) (hnow : now ≠ BitVec.allOnes 64) (hi : t.intervalTsc ≠ 0) :
    now < (t.consumeExpired now).2.nextTsc := by
  obtain ⟨next, hnext, hval⟩ := consumeExpired_next h hi
  have hne : now.toNat ≠ 2 ^ 64 - 1 := fun h => hnow (BitVec.eq_of_toNat_eq h)
  have hpos : 0 < t.intervalTsc.toNat := Nat.pos_of_ne_zero fun h0 => hi (BitVec.eq_of_toNat_eq h0)
  have hahead := Nat.lt_mul_div_succ (now.toNat - t.nextTsc.toNat) hpos
  rw [pending_of_due h, add_comm 1] at hval
  rw [hnext, BitVec.lt_def]
  dsimp only
  omega

theorem pending_eq_card (ha : t.armed = true) (hn : t.nextTsc ≠ 0) (w : BitVec 64) :
    t.pending w = (instants t.nextTsc.toNat t.intervalTsc.toNat w.toNat).card := by
  rw [card_instants]
  by_cases hd : t.Due w
  · rw [pending_of_due hd, if_neg (not_lt.2 hd.2.2)]
  · rw [if_pos (not_le.1 fun hle => hd ⟨ha, hn, hle⟩)]
    exact pending_of_not hd

theorem readReady_eq (t : Timerfd) (now : BitVec 64) (count : ℕ) (c : Caller) :
    (t.Due now ∧ t.readReady now count c =
      (.done (.ok (some (t.consumeExpired now).1)), (t.consumeExpired now).2)) ∨
    (t.readReady now count c).2 = t ∧ ∀ v, (t.readReady now count c).1 = .done (.ok v) →
      c.dontWait = false ∧ t.armed = false := by
  unfold readReady
  by_cases hd : t.Due now
  · dsimp only
    rw [if_pos (mt (consumeExpired_eq_zero now).1 (not_not.2 hd))]
    split_ifs
    · exact .inr ⟨rfl, fun v hv => by cases hv⟩
    · exact .inr ⟨rfl, fun v hv => by cases hv⟩
    · exact .inl ⟨hd, rfl⟩
  · rw [consumeExpired_of_not hd]
    dsimp only
    rw [if_neg (not_not.2 rfl)]
    split_ifs with h1 h2 h3 h4
    · exact .inr ⟨rfl, fun v hv => by cases hv⟩
    · exact .inr ⟨rfl, fun v hv => by cases hv⟩
    · exact .inr ⟨rfl, fun v hv => by cases hv⟩
    · exact .inr ⟨rfl, fun v _ => ⟨by simpa using h3, by simpa using h4⟩⟩
    · exact .inr ⟨rfl, fun v hv => by cases hv⟩

end Timerfd

/-! ### Runs -/

/-- A timer, the instants it was last set for, what was read since then, and the clock. -/
structure TimerRun where
  timer : Timerfd
  since : Option (ℕ × ℕ)
  returned : ℕ
  clock : BitVec 64

/-- What is done with a timer: it is set, read, and asked; `resume` is the rest of a read that has slept. -/
inductive TimerOp
  | settime (now freq : BitVec 64) (gettime : Option Timespec) (flags : BitVec 32) (interval value : Timespec)
  | read (now : BitVec 64) (count : ℕ) (c : Caller)
  | resume (now : BitVec 64)
  | isReady (now : BitVec 64)

/-- The clock when the operation looks at it. -/
def TimerOp.now : TimerOp → BitVec 64
  | settime now .. => now
  | read now .. => now
  | resume now => now
  | isReady now => now

namespace TimerRun

/-- What a read returns when it succeeds. -/
def result (s : TimerRun) : TimerOp → Option (Option (BitVec 64))
  | .read now count c =>
    match (s.timer.readReady now count c).1 with
    | .done (.ok v) => some v
    | _ => none
  | .resume now =>
    let n := (s.timer.consumeExpired now).1
    some (if n = 0 then none else some n)
  | _ => none

/-- An operation. -/
def exec (s : TimerRun) (op : TimerOp) : TimerRun :=
  let counted := ((s.result op).bind id).elim 0 BitVec.toNat
  match op with
  | .settime now freq gettime flags interval value =>
    match s.timer.settimeRef now freq gettime flags interval value with
    | .error _ => { s with clock := now }
    | .ok t => ⟨t, if t.armed then some (t.nextTsc.toNat, t.intervalTsc.toNat) else none, 0, now⟩
  | .read now count c =>
    { s with timer := (s.timer.readReady now count c).2, returned := s.returned + counted, clock := now }
  | .resume now =>
    { s with timer := (s.timer.consumeExpired now).2, returned := s.returned + counted, clock := now }
  | .isReady now => { s with clock := now }

/-- The clock does not go back. -/
def Clocked (s : TimerRun) (op : TimerOp) : Prop := s.clock ≤ op.now

instance (s : TimerRun) (op : TimerOp) : Decidable (s.Clocked op) := inferInstanceAs (Decidable (_ ≤ _))

/-- The clock stays below its last value, and a read that waits has a timer to wait for, and wakes no earlier
than that expires. -/
def Steady (s : TimerRun) (op : TimerOp) : Prop :=
  s.Clocked op ∧ op.now ≠ BitVec.allOnes 64 ∧
    match op with
    | .read _ _ c => c.dontWait = true ∨ s.timer.armed = true
    | .resume now => s.timer.Due now
    | _ => True

/-- How many instants have come by `now`. -/
def passed (s : TimerRun) (now : BitVec 64) : ℕ := s.since.elim 0 fun x => (instants x.1 x.2 now.toNat).card

/-- What was read and what is pending are the instants so far, a read that succeeds returns at least 1, and
leaves the next instant of a periodic timer ahead. -/
structure Accounts (s : TimerRun) : Prop where
  sum : s.returned + s.timer.pending s.clock = s.passed s.clock
  read : ∀ op, s.Steady op → ∀ v, s.result op = some v → ∃ n, v = some n ∧ 1 ≤ n.toNat ∧
    ((s.exec op).timer.intervalTsc ≠ 0 → op.now < (s.exec op).timer.nextTsc)

/-- The sum, now and whenever the clock will be looked at. -/
structure Balanced (s : TimerRun) : Prop where
  clock : s.clock ≠ BitVec.allOnes 64
  sum : ∀ w, s.clock ≤ w → w ≠ BitVec.allOnes 64 → s.returned + s.timer.pending w = s.passed w

/-- A new timer. -/
def fresh : TimerRun := ⟨⟨true, false, 0, 0⟩, none, 0, 0⟩

variable {s : TimerRun}

theorem pending_of_stopped (h : t.armed = false) (w : BitVec 64) : t.pending w = 0 :=
  Timerfd.pending_of_not fun hd => Bool.false_ne_true (h.symm.trans hd.1)

theorem Balanced.count (h : s.Balanced) {now : BitVec 64} {n : ℕ} (hle : s.clock ≤ now)
    (hnow : now ≠ BitVec.allOnes 64)
    (ht : ∀ w, now ≤ w → w ≠ BitVec.allOnes 64 → n + t.pending w = s.timer.pending w) :
    Balanced { s with timer := t, returned := s.returned + n, clock := now } := by
  refine ⟨hnow, fun w hw hlast => ?_⟩
  refine Eq.trans ?_ (h.sum w (BitVec.le_trans hle hw) hlast)
  rw [← ht w hw hlast]
  exact Nat.add_assoc _ _ _

theorem Balanced.exec (h : s.Balanced) (op : TimerOp) (hop : s.Steady op) : (s.exec op).Balanced := by
  obtain ⟨hle, hnow, hop⟩ := hop
  cases op with
  | isReady now => exact h.count hle hnow fun w _ _ => Nat.zero_add _
  | resume now =>
    have hn : (((s.result (.resume now)).bind id).elim 0 BitVec.toNat) = s.timer.pending now := by
      unfold result Timerfd.pending
      dsimp only
      split_ifs with h0
      · rw [h0]
        rfl
      · rfl
    unfold TimerRun.exec
    rw [hn]
    exact h.count hle hnow fun w hw hlast => Timerfd.pending_consumeExpired hw hlast
  | read now count c =>
    unfold TimerRun.exec result
    dsimp only
    rcases s.timer.readReady_eq now count c with ⟨-, heq⟩ | ⟨heq, hres⟩
    · rw [heq]
      exact h.count hle hnow fun w hw hlast => Timerfd.pending_consumeExpired hw hlast
    · rw [heq]
      split
      · next v hv =>
        obtain ⟨hwait, hoff⟩ := hres v hv
        rcases hop with hdont | harmed
        · exact absurd (hdont.symm.trans hwait) (by decide)
        · exact absurd (harmed.symm.trans hoff) (by decide)
      · exact h.count hle hnow fun w _ _ => Nat.zero_add _
  | settime now freq gettime flags interval value =>
    unfold TimerRun.exec
    dsimp only
    cases hset : s.timer.settimeRef now freq gettime flags interval value with
    | error _ => exact h.count hle hnow fun w _ _ => Nat.zero_add _
    | ok r =>
      dsimp only
      refine ⟨hnow, fun w _ _ => ?_⟩
      obtain rfl | ⟨intNs, valNs, rfl, -⟩ := Timerfd.settimeRef_ok hset
      · exact (Nat.zero_add _).trans (pending_of_stopped rfl w)
      · refine (Nat.zero_add _).trans (Timerfd.pending_eq_card rfl (fun h0 => ?_) w)
        unfold Timerfd.start at h0
        dsimp only at h0
        have hlt : now.toNat ≠ 2 ^ 64 - 1 := fun h => hnow (BitVec.eq_of_toNat_eq h)
        split_ifs at h0 with hnext
        · have hsum := congrArg BitVec.toNat h0
          rw [BitVec.toNat_add] at hsum
          change (now.toNat + 1) % 2 ^ 64 = 0 at hsum
          omega
        · exact hnext (BitVec.le_def.2 (h0 ▸ Nat.zero_le _))

/-- **The accounts of a timer.** In every run whose clock stays below the last value, and where no read waits on a
timer that is stopped or wakes before it expires, the accounts are right. -/
theorem timer_accounts (h : Runs Steady TimerRun.exec fresh s) : s.Accounts := by
  have hbal : s.Balanced := h.invariant (fun s op hs hop => hs.exec op hop)
    ⟨by decide, fun w _ _ => (Nat.zero_add _).trans (pending_of_stopped (show fresh.timer.armed = false from rfl) w)⟩
  refine ⟨hbal.sum _ (BitVec.le_refl _) hbal.clock, fun op hop v hv => ?_⟩
  obtain ⟨-, hnow, hop⟩ := hop
  have hread (now : BitVec 64) (hd : s.timer.Due now) (hnow : now ≠ BitVec.allOnes 64) :
      1 ≤ (s.timer.consumeExpired now).1.toNat ∧ ((s.timer.consumeExpired now).2.intervalTsc ≠ 0 →
        now < (s.timer.consumeExpired now).2.nextTsc) := by
    refine ⟨(Timerfd.pending_of_due hd).ge.trans' (Nat.le_add_right 1 _), fun hi => ?_⟩
    refine Timerfd.lt_next_of_due hd hnow fun h0 => hi ?_
    unfold Timerfd.consumeExpired
    rw [if_neg (Timerfd.not_idle_iff.2 hd), if_pos h0]
    exact h0
  cases op with
  | settime => cases hv
  | isReady => cases hv
  | resume now =>
    obtain ⟨hn, hnext⟩ := hread now hop hnow
    have h0 := mt (Timerfd.consumeExpired_eq_zero now).1 (not_not.2 hop)
    exact ⟨_, (Option.some_inj.1 hv).symm.trans (if_neg h0), hn, hnext⟩
  | read now count c =>
    unfold result at hv
    unfold TimerRun.exec
    dsimp only at hv ⊢
    rcases s.timer.readReady_eq now count c with ⟨hd, heq⟩ | ⟨-, hres⟩
    · rw [heq] at hv ⊢
      exact ⟨_, (Option.some_inj.1 hv).symm, hread now hd hnow⟩
    · split at hv
      · next v' hv' =>
        obtain ⟨hwait, hoff⟩ := hres v' hv'
        rcases hop with hdont | harmed
        · exact absurd (hdont.symm.trans hwait) (by decide)
        · exact absurd (harmed.symm.trans hoff) (by decide)
      · cases hv

theorem timer_accounts_sample : ∃ s, Runs Steady TimerRun.exec fresh s ∧ s.returned = 3 ∧ s.Accounts := by
  have h0 : Runs Steady TimerRun.exec fresh fresh := Runs.refl fresh
  have h1 := h0.tail (.settime 0 1000000000 none 0 ⟨0, 10⟩ ⟨0, 10⟩) ⟨by decide, by decide, trivial⟩
  have h2 := h1.tail (.read 10 8 ⟨true, false⟩) ⟨by decide, by decide, .inl rfl⟩
  have h3 := h2.tail (.read 30 8 ⟨true, false⟩) ⟨by decide, by decide, .inl rfl⟩
  exact ⟨_, h3, by decide, timer_accounts h3⟩

/-- A read that sleeps and wakes before the timer expires returns without a number. -/
theorem early_wake_reads_nothing :
    ∃ s, Runs Clocked TimerRun.exec fresh s ∧ s.Clocked (.resume 2) ∧ s.result (.resume 2) = some none := by
  have h1 : Runs Clocked TimerRun.exec fresh (fresh.exec (.settime 0 1000000000 none 0 ⟨0, 0⟩ ⟨0, 10⟩)) :=
    (Runs.refl _).tail _ (by decide)
  exact ⟨_, h1.tail (.read 1 8 ⟨false, false⟩) (by decide), by decide, by decide⟩

end TimerRun

end Ridux
