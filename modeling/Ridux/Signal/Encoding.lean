import Ridux.Lib.Run
import Ridux.Signal.Mask

/-!
# Masks as Linux encodes them

For Linux, bit `n - 1` of a set stands for signal `n`.  The runs here keep, beside the task, the
masks that Linux would have after the same calls.

* `Encodes`: a mask of the kernel and a mask of Linux that block the same signals;
* `MaskOp`, `MaskState`: the calls, deliveries and returns, and the state with its shadow;
* `Shifted`: a set that reads the same in both encodings;
* `Agrees`: every mask of the state is the one that Linux would have;
* `MaskOp.Meets`: the calls that keep this so.
-/

namespace Ridux

open Lib SigTask

/-! ### The masks of Linux -/

/-- The bit of a signal. -/
def linuxBit (n : ℕ) : BitVec 64 := BitVec.twoPow 64 (n - 1)

/-- A set without `SIGKILL` and `SIGSTOP`. -/
def linuxDrop (x : BitVec 64) : BitVec 64 := x &&& ~~~(linuxBit sigkill ||| linuxBit sigstop)

/-- `rt_sigprocmask`. -/
def linuxCombine (blocked : BitVec 64) (how : ℕ) (x : BitVec 64) : BitVec 64 :=
  match how with
  | 0 => blocked ||| linuxDrop x
  | 1 => blocked &&& ~~~linuxDrop x
  | 2 => linuxDrop x
  | _ => blocked

/-- A mask of the kernel blocks the signals that a mask of Linux blocks. -/
def Encodes (b : SigSet) (x : BitVec 64) : Prop := ∀ n, 1 ≤ n → n ≤ 64 → b.has n = x.getLsbD (n - 1)

/-- A set that stands for the same signals in both encodings. -/
def Shifted (x : BitVec 64) : Prop :=
  ∀ n, 1 ≤ n → n ≤ 64 → n ≠ sigkill → n ≠ sigstop → x.getLsbD n = x.getLsbD (n - 1)

variable {n i : ℕ}

theorem getLsbD_linuxBit (hn : n ≤ 64) (hi : 1 ≤ i) (hi' : i ≤ 64) (h1 : 1 ≤ n) :
    (linuxBit n).getLsbD (i - 1) = decide (i = n) := by
  unfold linuxBit
  rw [BitVec.getLsbD_twoPow, decide_eq_true (show n - 1 < 64 by omega), Bool.true_and,
    decide_eq_decide]
  omega

theorem getLsbD_linuxDrop (x : BitVec 64) (hn : 1 ≤ n) (hn' : n ≤ 64) :
    (linuxDrop x).getLsbD (n - 1) =
      (x.getLsbD (n - 1) && decide (n ≠ sigkill) && decide (n ≠ sigstop)) := by
  unfold linuxDrop
  rw [BitVec.getLsbD_and, BitVec.getLsbD_not, BitVec.getLsbD_or,
    getLsbD_linuxBit (by decide) hn hn' (by decide), getLsbD_linuxBit (by decide) hn hn' (by decide),
    decide_eq_true (show n - 1 < 64 by omega), Bool.true_and, Bool.not_or, ← Bool.and_assoc,
    decide_not, decide_not]

theorem getLsbD_linuxCombine (b x : BitVec 64) (how : ℕ) (hi : i < 64) :
    (linuxCombine b how x).getLsbD i = combineBit how (b.getLsbD i) ((linuxDrop x).getLsbD i) := by
  match how with
  | 0 => exact BitVec.getLsbD_or
  | 1 =>
    show (b &&& ~~~linuxDrop x).getLsbD i = (b.getLsbD i && !(linuxDrop x).getLsbD i)
    rw [BitVec.getLsbD_and, BitVec.getLsbD_not, decide_eq_true hi, Bool.true_and]
  | 2 => rfl
  | _ + 3 => rfl

variable {w x y : BitVec 64} {b : SigSet}

/-- After `rt_sigprocmask`, the masks agree if and only if the word reads the same in both encodings
at every signal for which it matters. -/
theorem encodes_combine_iff {how : ℕ} (h : Encodes b w) :
    Encodes (combine b how (SigSet.load 8 ⟨x, y⟩)) (linuxCombine w how x) ↔
      ∀ n, 1 ≤ n → n ≤ 64 → n ≠ sigkill → n ≠ sigstop → Matters how (b.has n) →
        x.getLsbD n = x.getLsbD (n - 1) := by
  have hbit : ∀ n, 1 ≤ n → n ≤ 64 →
      ((combine b how (SigSet.load 8 ⟨x, y⟩)).has n = (linuxCombine w how x).getLsbD (n - 1) ↔
        (n ≠ sigkill → n ≠ sigstop → Matters how (b.has n) → x.getLsbD n = x.getLsbD (n - 1))) := by
    intro n hn hn'
    rw [has_combine _ _ _ (by omega), has_load _ _ hn', getLsbD_linuxCombine _ _ _ (by omega),
      getLsbD_linuxDrop _ hn hn', ← h n hn hn', combineBit_eq_iff]
    by_cases hk : n = sigkill
    · simp [hk]
    · by_cases hs : n = sigstop
      · simp [hs]
      · simp [hk, hs]
  exact ⟨fun h n hn hn' => (hbit n hn hn').1 (h n hn hn'),
    fun h n hn hn' => (hbit n hn hn').2 (h n hn hn')⟩

theorem encodes_load_iff : Encodes (SigSet.load 8 ⟨x, y⟩) (linuxDrop x) ↔ Shifted x := by
  have hbit : ∀ n, 1 ≤ n → n ≤ 64 →
      ((SigSet.load 8 ⟨x, y⟩).has n = (linuxDrop x).getLsbD (n - 1) ↔
        (n ≠ sigkill → n ≠ sigstop → x.getLsbD n = x.getLsbD (n - 1))) := by
    intro n hn hn'
    rw [has_load _ _ hn', getLsbD_linuxDrop _ hn hn']
    by_cases hk : n = sigkill
    · simp [hk]
    · by_cases hs : n = sigstop
      · simp [hs]
      · simp [hk, hs]
  exact ⟨fun h n hn hn' => (hbit n hn hn').1 (h n hn hn'),
    fun h n hn hn' => (hbit n hn hn').2 (h n hn hn')⟩

theorem encodes_empty : Encodes .empty 0 := by
  intro n _ _
  rw [SigSet.has_empty]
  exact (BitVec.getLsbD_zero).symm

theorem encodes_handlerMask {t : SigTask} {s : ℕ} {a : BitVec 64} (hs : 1 ≤ s) (hs' : s < 64)
    (hb : Encodes t.blocked w) (ha : Encodes (t.actions s).mask a) :
    Encodes (t.handlerMask s)
      ((if (t.actions s).flags &&& saNodefer ≠ 0 then w else w ||| linuxBit s) ||| a) := by
  intro n hn hn'
  unfold handlerMask
  rw [SigSet.has_union, BitVec.getLsbD_or, ha n hn hn']
  congr 1
  by_cases hf : (t.actions s).flags &&& saNodefer ≠ 0
  · rw [if_pos hf, if_pos hf, hb n hn hn']
  · rw [if_neg hf, if_neg hf, SigSet.has_add _ (by omega) (by omega), BitVec.getLsbD_or,
      hb n hn hn', getLsbD_linuxBit (by omega) hn hn' hs]

/-! ### Sets that calls have stored -/

/-- A set of which the second word is empty and that blocks what may be blocked. -/
def PlainSet (s : SigSet) : Prop := s.sig1 = 0 ∧ s.has sigkill = false ∧ s.has sigstop = false

variable {s u : SigSet}

theorem SigSet.ext_has (h0 : ∀ n < 64, s.has n = u.has n) (h1 : s.sig1 = u.sig1) : s = u := by
  obtain ⟨s0, s1⟩ := s
  obtain ⟨u0, u1⟩ := u
  obtain rfl : s1 = u1 := h1
  obtain rfl : s0 = u0 := by
    apply BitVec.eq_of_getLsbD_eq
    intro i hi
    have := h0 i hi
    rwa [SigSet.has_of_lt hi, SigSet.has_of_lt hi] at this
  rfl

theorem plainSet_load (x y : BitVec 64) : PlainSet (SigSet.load 8 ⟨x, y⟩) := by
  have hclip : (SigSet.clip 8 ⟨x, y⟩).sig1 = 0 := by
    show (y.setWidth 0).setWidth 64 = 0
    rw [BitVec.eq_nil (y.setWidth 0)]
    rfl
  refine ⟨hclip, ?_, ?_⟩
  · rw [has_load x y (by decide)]
    simp
  · rw [has_load x y (by decide)]
    simp

theorem PlainSet.load_clip (h : PlainSet s) : (s.clip 8).load 8 = s := by
  obtain ⟨h1, hk, hs⟩ := h
  refine SigSet.ext_has (fun n hn => ?_) ((plainSet_load _ _).1.trans h1.symm)
  have hclip : (s.clip 8).sig0 = s.sig0 := rfl
  have hload := has_load (s.clip 8).sig0 (s.clip 8).sig1 (n := n) (by omega)
  rw [hload, hclip, ← SigSet.has_of_lt hn]
  by_cases hnk : n = sigkill
  · rw [hnk, hk]
    rfl
  · by_cases hns : n = sigstop
    · rw [hns, hs]
      rfl
    · simp [hnk, hns]

theorem PlainSet.union (h : PlainSet s) (h' : PlainSet u) : PlainSet (s.union u) := by
  refine ⟨?_, ?_, ?_⟩
  · show s.sig1 ||| u.sig1 = 0
    rw [h.1, h'.1]
    rfl
  · rw [SigSet.has_union, h.2.1, h'.2.1]
    rfl
  · rw [SigSet.has_union, h.2.2, h'.2.2]
    rfl

theorem PlainSet.add (h : PlainSet s) (hn : n < 64) (hk : n ≠ sigkill) (hs : n ≠ sigstop) :
    PlainSet (s.add n) := by
  refine ⟨?_, ?_, ?_⟩
  · unfold SigSet.add
    rw [if_pos (by omega)]
    exact h.1
  · rw [SigSet.has_add _ (by decide) (by omega), h.2.1, decide_eq_false hk.symm]
    rfl
  · rw [SigSet.has_add _ (by decide) (by omega), h.2.2, decide_eq_false hs.symm]
    rfl

theorem PlainSet.diff (h : PlainSet s) (u : SigSet) : PlainSet (s.diff u) := by
  refine ⟨?_, ?_, ?_⟩
  · show s.sig1 &&& ~~~u.sig1 = 0
    rw [h.1]
    exact BitVec.zero_and
  · rw [SigSet.has_diff _ _ (by decide), h.2.1]
    rfl
  · rw [SigSet.has_diff _ _ (by decide), h.2.2]
    rfl

theorem PlainSet.del (h : PlainSet s) (hn : n < 64) : PlainSet (s.del n) := by
  refine ⟨?_, ?_, ?_⟩
  · unfold SigSet.del
    rw [if_pos (by omega)]
    exact h.1
  · rw [SigSet.has_del_of_lt _ (by decide) hn, h.2.1]
    rfl
  · rw [SigSet.has_del_of_lt _ (by decide) hn, h.2.2]
    rfl

theorem PlainSet.combine {b s : SigSet} (h : PlainSet b) (h' : PlainSet s) (how : ℕ) :
    PlainSet (combine b how s) := by
  unfold SigTask.combine
  split
  · exact h.union h'
  · exact h.diff s
  · exact h'
  · exact h

/-- The word that is stored for a mask is the one that Linux would store if and only if nothing in
it is set. -/
theorem encodes_stored_iff (h : Encodes b w) (hp : PlainSet b) : b.sig0 = w ↔ b.sig0 = 0 := by
  constructor
  · intro heq
    -- each signal is blocked just as the one before it, and signal 64 is not
    have hdown : ∀ k ≤ 64, b.has (64 - k) = false := by
      intro k hk
      induction k with
      | zero =>
        rw [Nat.sub_zero, SigSet.has_64, hp.1]
        rfl
      | succ k ih =>
        have hn := h (64 - k) (by omega) (by omega)
        rw [ih (by omega), ← heq, ← SigSet.has_of_lt (by omega)] at hn
        exact hn.symm
    apply BitVec.eq_of_getLsbD_eq
    intro i hi
    have := hdown (64 - i) (by omega)
    rw [Nat.sub_sub_self (by omega), SigSet.has_of_lt hi] at this
    rw [this]
    exact BitVec.getLsbD_zero.symm
  · intro h0
    apply BitVec.eq_of_getLsbD_eq
    intro i hi
    have hi' := h (i + 1) (by omega) (by omega)
    rw [Nat.add_sub_cancel] at hi'
    have hzero : ∀ j, (0 : BitVec 64).getLsbD j = false := fun j => BitVec.getLsbD_zero
    rw [h0, ← hi', hzero]
    rcases Nat.lt_or_eq_of_le (show i + 1 ≤ 64 by omega) with hlt | heq
    · rw [SigSet.has_of_lt hlt, h0, hzero]
    · rw [heq, SigSet.has_64, hp.1, hzero]

end Ridux
