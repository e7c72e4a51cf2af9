import Mathlib.Data.List.GetD
import Mathlib.Tactic.Common

/-!
# Names made of labels

A name in a buffer of bytes is a sequence of labels, each behind a byte with its length, up to a length
of zero.

* `LabelsAt b p ls q`: at `p` begins a name with the labels `ls`, and it ends before `q`;
* `LabelsAt.unique`: a place in a buffer holds one name at most;
* `LabelsAt.congr`: only the bytes of the name matter.
-/

namespace Ridux.Lib

open List

variable {b b' : List UInt8} {p q : ℕ} {ls ms : List (List UInt8)}

/-- At `p` begins a name with the labels `ls` of less than 64 bytes each; `q` is behind its end. -/
inductive LabelsAt (b : List UInt8) : ℕ → List (List UInt8) → ℕ → Prop
  | root {p : ℕ} (hp : p < b.length) (h0 : b.getD p 0 = 0) : LabelsAt b p [] (p + 1)
  | label {p n q : ℕ} {l : List UInt8} {ls : List (List UInt8)} (hp : p + 1 + n ≤ b.length)
      (hn : (b.getD p 0).toNat = n) (hpos : 0 < n) (hlt : n < 64) (hl : (b.drop (p + 1)).take n = l)
      (hrest : LabelsAt b (p + 1 + n) ls q) : LabelsAt b p (l :: ls) q

namespace LabelsAt

theorem lt (h : LabelsAt b p ls q) : p < q := by
  induction h with
  | root hp h0 => exact Nat.lt_succ_self _
  | label hp hn hpos hlt hl hrest ih => omega

theorem le_length (h : LabelsAt b p ls q) : q ≤ b.length := by
  induction h with
  | root hp h0 => exact hp
  | label hp hn hpos hlt hl hrest ih => exact ih

/-- **A place holds one name at most.** -/
theorem unique {q' : ℕ} (h : LabelsAt b p ls q) (h' : LabelsAt b p ms q') : ls = ms ∧ q = q' := by
  induction h generalizing ms q' with
  | root hp h0 =>
    cases h' with
    | root => exact ⟨rfl, rfl⟩
    | label hp' hn' hpos' =>
      rw [h0] at hn'
      exact absurd hn' (by have : (0 : UInt8).toNat = 0 := rfl; omega)
  | label hp hn hpos hlt hl hrest ih =>
    cases h' with
    | root hp' h0' =>
      rw [h0'] at hn
      exact absurd hn (by have : (0 : UInt8).toNat = 0 := rfl; omega)
    | label hp' hn' hpos' hlt' hl' hrest' =>
      obtain rfl := hn.symm.trans hn'
      obtain ⟨rfl, rfl⟩ := ih hrest'
      exact ⟨by rw [← hl, ← hl'], rfl⟩

theorem congr (h : LabelsAt b p ls q) (hlen : q ≤ b'.length)
    (hsame : ∀ i, p ≤ i → i < q → b'.getD i 0 = b.getD i 0) : LabelsAt b' p ls q := by
  induction h with
  | root hp h0 => exact .root (by omega) (by rw [hsame _ (Nat.le_refl _) (Nat.lt_succ_self _), h0])
  | @label p n q l ls hp hn hpos hlt hl hrest ih =>
    have hq := hrest.lt
    refine .label (by omega) (by rw [hsame _ (Nat.le_refl _) (by omega), hn]) hpos hlt ?_
      (ih hlen fun i hi hiq => hsame i (by omega) hiq)
    rw [← hl]
    apply ext_getElem
    · simp only [length_take, length_drop]
      have := hrest.le_length
      omega
    · intro i h1 h2
      simp only [length_take, length_drop] at h1 h2
      have := hsame (p + 1 + i) (by omega) (by omega)
      simp only [getElem_take, getElem_drop]
      rwa [getD_eq_getElem _ _ (by omega), getD_eq_getElem _ _ (by omega)] at this

end LabelsAt

end Ridux.Lib
