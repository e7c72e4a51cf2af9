import Mathlib.Data.BitVec
import Mathlib.Tactic.Common

/-!
# Sets of signals

The sets of `memory_tasks.c`, in which bit `n` stands for signal `n`.

* `SigSet`, `has`, `add`, `del`, `union`: the sets;
* `dropUnblockable`: the sets without `SIGKILL` and `SIGSTOP`.
-/

namespace Ridux

def nsig : ℕ := 64

def sigkill : ℕ := 9

def sigstop : ℕ := 19

/-- `sigset_t2`. -/
structure SigSet where
  sig0 : BitVec 64
  sig1 : BitVec 64
  deriving DecidableEq

namespace SigSet

/-- No signals. -/
def empty : SigSet := ⟨0, 0⟩

/-- `sigset_has`, `c3_sigset_has_bit`. -/
def has (s : SigSet) (sig : ℕ) : Bool :=
  if sig / 64 = 0 then s.sig0.getLsbD (sig % 64)
  else if sig / 64 = 1 then s.sig1.getLsbD (sig % 64)
  else false

/-- `sigset_add`. -/
def add (s : SigSet) (sig : ℕ) : SigSet :=
  if sig / 64 = 0 then { s with sig0 := s.sig0 ||| BitVec.twoPow 64 (sig % 64) }
  else if sig / 64 = 1 then { s with sig1 := s.sig1 ||| BitVec.twoPow 64 (sig % 64) }
  else s

/-- `sigset_del`, `c3_sigset_clear_bit`. -/
def del (s : SigSet) (sig : ℕ) : SigSet :=
  if sig / 64 = 0 then { s with sig0 := s.sig0 &&& ~~~BitVec.twoPow 64 (sig % 64) }
  else if sig / 64 = 1 then { s with sig1 := s.sig1 &&& ~~~BitVec.twoPow 64 (sig % 64) }
  else s

/-- The words joined by `|`. -/
def union (s u : SigSet) : SigSet := ⟨s.sig0 ||| u.sig0, s.sig1 ||| u.sig1⟩

/-- The words of `s` without those of `u`. -/
def diff (s u : SigSet) : SigSet := ⟨s.sig0 &&& ~~~u.sig0, s.sig1 &&& ~~~u.sig1⟩

/-- `c3_sigset_drop_unblockable`. -/
def dropUnblockable (s : SigSet) : SigSet := (s.del sigkill).del sigstop

variable {s u : SigSet} {n k : ℕ}

theorem has_of_lt (h : n < 64) : s.has n = s.sig0.getLsbD n := by
  unfold has
  rw [if_pos (by omega), Nat.mod_eq_of_lt h]

theorem has_64 : s.has 64 = s.sig1.getLsbD 0 := rfl

@[simp] theorem has_empty (n : ℕ) : empty.has n = false := by
  unfold has empty
  split_ifs <;> simp

@[simp] theorem has_union (s u : SigSet) (n : ℕ) : (s.union u).has n = (s.has n || u.has n) := by
  unfold has union
  split_ifs <;> simp

theorem has_diff (s u : SigSet) (hn : n < 128) : (s.diff u).has n = (s.has n && !u.has n) := by
  have hlt : n % 64 < 64 := Nat.mod_lt _ (by decide)
  unfold has diff
  split_ifs with h0 h1
  · simp [hlt]
  · simp [hlt]
  · omega

theorem getLsbD_twoPow (h : n / 64 = k / 64) :
    (BitVec.twoPow 64 (k % 64)).getLsbD (n % 64) = decide (n = k) := by
  have hlt : k % 64 < 64 := Nat.mod_lt _ (by decide)
  rw [BitVec.getLsbD_twoPow, decide_eq_true hlt, Bool.true_and, decide_eq_decide]
  omega

theorem has_add (s : SigSet) (hn : n < 128) (hk : k < 128) :
    (s.add k).has n = (s.has n || decide (n = k)) := by
  unfold has add
  by_cases hk0 : k / 64 = 0
  · rw [if_pos hk0]
    by_cases hn0 : n / 64 = 0
    · rw [if_pos hn0, if_pos hn0, BitVec.getLsbD_or, getLsbD_twoPow (by omega)]
    · have hne : n ≠ k := by rintro rfl; exact hn0 hk0
      rw [if_neg hn0, if_neg hn0, decide_eq_false hne, Bool.or_false]
  · rw [if_neg hk0, if_pos (show k / 64 = 1 by omega)]
    by_cases hn0 : n / 64 = 0
    · have hne : n ≠ k := by rintro rfl; exact hk0 hn0
      rw [if_pos hn0, if_pos hn0, decide_eq_false hne, Bool.or_false]
    · have hn1 : n / 64 = 1 := by omega
      rw [if_neg hn0, if_neg hn0, if_pos hn1, if_pos hn1, BitVec.getLsbD_or,
        getLsbD_twoPow (by omega)]

theorem has_del_of_lt (s : SigSet) (hn : n < 64) (hk : k < 64) :
    (s.del k).has n = (s.has n && decide (n ≠ k)) := by
  have hlt : n % 64 < 64 := Nat.mod_lt _ (by decide)
  unfold has del
  rw [if_pos (show k / 64 = 0 by omega), if_pos (show n / 64 = 0 by omega),
    if_pos (show n / 64 = 0 by omega), BitVec.getLsbD_and, BitVec.getLsbD_not,
    getLsbD_twoPow (by omega), decide_eq_true hlt, Bool.true_and, decide_not]

theorem has_del_64 (s : SigSet) (hk : k < 64) : (s.del k).has 64 = s.has 64 := by
  unfold del
  rw [if_pos (by omega)]
  rfl

theorem has_dropUnblockable (s : SigSet) (hn : n < 64) :
    s.dropUnblockable.has n = (s.has n && decide (n ≠ sigkill) && decide (n ≠ sigstop)) := by
  unfold dropUnblockable
  rw [has_del_of_lt _ hn (by decide), has_del_of_lt _ hn (by decide)]

theorem has_dropUnblockable_64 (s : SigSet) : s.dropUnblockable.has 64 = s.has 64 := by
  unfold dropUnblockable
  rw [has_del_64 _ (by decide), has_del_64 _ (by decide)]

end SigSet

end Ridux
