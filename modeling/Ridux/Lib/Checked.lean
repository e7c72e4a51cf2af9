import Mathlib.Algebra.Group.Nat.Defs
import Mathlib.Tactic.Common

/-!
# Computations with machine numbers, checked

A computation on a state has a value, and notes whether a number wrapped on the way; it has no result when it
divides by zero or uses what is not there.

* `Checked.num`, `Checked.div`, `Checked.shl`, `Checked.read`, `Checked.change`: the primitives;
* `Gives c s a s'`: nothing wrapped, and these are the value and the state; `Clean c s`: nothing wrapped;
* one rule for each primitive and for sequencing, for both.
-/

namespace Ridux.Lib

/-- A computation on `σ`: its value, whether a number wrapped, and the state behind it. -/
def Checked (σ α : Type) := σ → Option (α × Bool × σ)

namespace Checked

variable {σ α β : Type}

instance : Monad (Checked σ) where
  pure a := fun s => some (a, false, s)
  bind c f := fun s => (c s).bind fun x => (f x.1 x.2.2).map fun y => (y.1, x.2.1 || y.2.1, y.2.2)

/-- A number of `w` bits. -/
def num (w n : ℕ) : Checked σ ℕ := fun s => some (n % 2 ^ w, decide (2 ^ w ≤ n), s)

/-- A division. -/
def div (m n : ℕ) : Checked σ ℕ := fun s => if n = 0 then none else some (m / n, false, s)

/-- A shift to the left; the processor takes the count modulo the width. -/
def shl (w n k : ℕ) : Checked σ ℕ := fun s =>
  some (n * 2 ^ (k % w) % 2 ^ w, decide (w ≤ k ∨ 2 ^ w ≤ n * 2 ^ k), s)

/-- Read a value off the state, if it is there. -/
def read (g : σ → Option α) : Checked σ α := fun s => (g s).map fun a => (a, false, s)

/-- Change the state, if what is changed is there. -/
def change (g : σ → Option σ) : Checked σ Unit := fun s => (g s).map fun s' => ((), false, s')

/-- The computation has this value and leaves this state, and no number wraps. -/
def Gives (c : Checked σ α) (s : σ) (a : α) (s' : σ) : Prop := c s = some (a, false, s')

/-- The computation has a value, and no number wraps. -/
def Clean (c : Checked σ α) (s : σ) : Prop := ∃ a s', c.Gives s a s'

variable {c d : Checked σ α} {f : α → Checked σ β} {s s' s'' : σ} {a a' : α} {b : β} {w m n k : ℕ}

theorem Gives.unique (h : c.Gives s a s') (h' : c.Gives s a' s'') : a = a' ∧ s' = s'' := by
  obtain ⟨rfl, hs⟩ := Prod.mk.inj (Option.some.inj (h.symm.trans h'))
  exact ⟨rfl, (Prod.mk.inj hs).2⟩

theorem Gives.clean (h : c.Gives s a s') : c.Clean s := ⟨a, s', h⟩

@[simp] theorem gives_pure : (pure a : Checked σ α).Gives s a' s' ↔ a = a' ∧ s = s' := by
  simp [Gives, pure]

theorem gives_bind : (c >>= f).Gives s b s'' ↔ ∃ a s', c.Gives s a s' ∧ (f a).Gives s' b s'' := by
  have hrun : (c >>= f) s =
      (c s).bind fun x => (f x.1 x.2.2).map fun y => (y.1, x.2.1 || y.2.1, y.2.2) := rfl
  unfold Gives
  rw [hrun, Option.bind_eq_some_iff]
  constructor
  · rintro ⟨⟨a, wc, s'⟩, hc, hf⟩
    obtain ⟨⟨b', wf, t⟩, hf, heq⟩ := Option.map_eq_some_iff.1 hf
    dsimp only at hf heq
    obtain ⟨rfl, hrest⟩ := Prod.mk.inj heq
    obtain ⟨hw, rfl⟩ := Prod.mk.inj hrest
    obtain ⟨rfl, rfl⟩ := Bool.or_eq_false_iff.1 hw
    exact ⟨a, s', hc, hf⟩
  · rintro ⟨a, s', hc, hf⟩
    exact ⟨_, hc, by rw [hf]; rfl⟩

theorem Gives.bind_iff (h : c.Gives s a s') : (c >>= f).Gives s b s'' ↔ (f a).Gives s' b s'' := by
  rw [gives_bind]
  constructor
  · rintro ⟨a', t, hc, hf⟩
    obtain ⟨rfl, rfl⟩ := h.unique hc
    exact hf
  · exact fun hf => ⟨a, s', h, hf⟩

@[simp] theorem gives_num : (num w n : Checked σ ℕ).Gives s k s' ↔ n < 2 ^ w ∧ n = k ∧ s = s' := by
  simp only [Gives, num, Option.some.injEq, Prod.mk.injEq, decide_eq_false_iff_not, Nat.not_le]
  constructor
  · rintro ⟨hk, hlt, hs⟩
    exact ⟨hlt, by rwa [Nat.mod_eq_of_lt hlt] at hk, hs⟩
  · rintro ⟨hlt, hk, hs⟩
    exact ⟨by rwa [Nat.mod_eq_of_lt hlt], hlt, hs⟩

@[simp] theorem gives_div : (div m n : Checked σ ℕ).Gives s k s' ↔ n ≠ 0 ∧ m / n = k ∧ s = s' := by
  unfold Gives div
  by_cases h : n = 0 <;> simp [h]

@[simp] theorem gives_shl {i : ℕ} : (shl w n k : Checked σ ℕ).Gives s i s' ↔
    (k < w ∧ n * 2 ^ k < 2 ^ w) ∧ n * 2 ^ k = i ∧ s = s' := by
  simp only [Gives, shl, Option.some.injEq, Prod.mk.injEq, decide_eq_false_iff_not, not_or, Nat.not_le]
  constructor
  · rintro ⟨hi, ⟨hk, hlt⟩, hs⟩
    exact ⟨⟨hk, hlt⟩, by rwa [Nat.mod_eq_of_lt hk, Nat.mod_eq_of_lt hlt] at hi, hs⟩
  · rintro ⟨⟨hk, hlt⟩, hi, hs⟩
    exact ⟨by rwa [Nat.mod_eq_of_lt hk, Nat.mod_eq_of_lt hlt], ⟨hk, hlt⟩, hs⟩

@[simp] theorem gives_read {g : σ → Option α} : (read g).Gives s a s' ↔ g s = some a ∧ s = s' := by
  unfold Gives read
  cases g s <;> simp

@[simp] theorem gives_change {g : σ → Option σ} {u : Unit} : (change g).Gives s u s' ↔ g s = some s' := by
  unfold Gives change
  cases g s <;> simp

@[simp] theorem clean_pure : (pure a : Checked σ α).Clean s ↔ True := by
  simp [Clean]

theorem clean_bind : (c >>= f).Clean s ↔ ∃ a s', c.Gives s a s' ∧ (f a).Clean s' := by
  unfold Clean
  simp only [gives_bind]
  constructor
  · rintro ⟨b, s'', a, s', hc, hf⟩
    exact ⟨a, s', hc, b, s'', hf⟩
  · rintro ⟨a, s', hc, b, s'', hf⟩
    exact ⟨b, s'', a, s', hc, hf⟩

/-! How a computation goes on after a primitive. -/

@[simp] theorem gives_num_bind {f : ℕ → Checked σ β} :
    (num w n >>= f).Gives s b s' ↔ n < 2 ^ w ∧ (f n).Gives s b s' := by
  simp [gives_bind]

@[simp] theorem clean_num_bind {f : ℕ → Checked σ β} : (num w n >>= f).Clean s ↔ n < 2 ^ w ∧ (f n).Clean s := by
  simp [clean_bind]

@[simp] theorem gives_div_bind {f : ℕ → Checked σ β} :
    (div m n >>= f).Gives s b s' ↔ n ≠ 0 ∧ (f (m / n)).Gives s b s' := by
  simp [gives_bind]

@[simp] theorem clean_div_bind {f : ℕ → Checked σ β} : (div m n >>= f).Clean s ↔ n ≠ 0 ∧ (f (m / n)).Clean s := by
  simp [clean_bind]

@[simp] theorem clean_shl_bind {f : ℕ → Checked σ β} :
    (shl w n k >>= f).Clean s ↔ (k < w ∧ n * 2 ^ k < 2 ^ w) ∧ (f (n * 2 ^ k)).Clean s := by
  simp [clean_bind]

@[simp] theorem gives_read_bind {g : σ → Option α} :
    (read g >>= f).Gives s b s' ↔ ∃ a, g s = some a ∧ (f a).Gives s b s' := by
  simp [gives_bind]

@[simp] theorem clean_read_bind {g : σ → Option α} :
    (read g >>= f).Clean s ↔ ∃ a, g s = some a ∧ (f a).Clean s := by
  simp [clean_bind]

@[simp] theorem gives_change_bind {g : σ → Option σ} {f : Unit → Checked σ β} :
    (change g >>= f).Gives s b s' ↔ ∃ t, g s = some t ∧ (f ()).Gives t b s' := by
  simp only [gives_bind, gives_change]
  exact ⟨fun ⟨_, h⟩ => h, fun h => ⟨(), h⟩⟩

@[simp] theorem clean_change_bind {g : σ → Option σ} {f : Unit → Checked σ β} :
    (change g >>= f).Clean s ↔ ∃ t, g s = some t ∧ (f ()).Clean t := by
  simp only [clean_bind, gives_change]
  exact ⟨fun ⟨_, h⟩ => h, fun h => ⟨(), h⟩⟩

end Checked

end Ridux.Lib
