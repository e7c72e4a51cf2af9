import Mathlib.Data.List.Basic
import Mathlib.Tactic.Common

/-!
# Streams that are cut at their front

A stream of values is a sequence of items.  A function `front` finds the first item and how many
values it takes, or says that no whole item is there.

* `Cuts`: an item takes some of the values, and is the same whatever follows it;
* `decode`: the items of a stream, up to where no whole item is found;
* `Reads`: a reader has taken these items off a stream, and these values are left;
* `Reads.take`, `Reads.arrive`: it takes one more item, or the stream goes on;
* `Reads.isPrefix`, `Reads.eq`: what it has taken is what decoding the stream gives, as far as it has
  come.
-/

namespace Ridux.Lib

open List

variable {α ρ : Type*}

/-- What `front` finds takes values that are there, and depends on no others. -/
structure Cuts (front : List α → Option (ρ × ℕ)) : Prop where
  pos : ∀ {bs r n}, front bs = some (r, n) → 0 < n ∧ n ≤ bs.length
  append : ∀ {bs r n}, front bs = some (r, n) → ∀ xs, front (bs ++ xs) = some (r, n)

/-- The first items of a stream, `fuel` at most. -/
def decodeAux (front : List α → Option (ρ × ℕ)) : ℕ → List α → List ρ
  | 0, _ => []
  | fuel + 1, bs =>
    match front bs with
    | none => []
    | some (r, n) => r :: decodeAux front fuel (bs.drop n)

/-- The items of a stream: an item takes a value at least, so there are no more than values. -/
def decode (front : List α → Option (ρ × ℕ)) (bs : List α) : List ρ := decodeAux front bs.length bs

variable {front : List α → Option (ρ × ℕ)} {bs rest xs : List α} {r : ρ} {n : ℕ}

theorem decodeAux_of_none (h : front bs = none) (fuel : ℕ) : decodeAux front fuel bs = [] := by
  cases fuel with
  | zero => rfl
  | succ fuel => rw [decodeAux, h]

theorem decode_of_none (h : front bs = none) : decode front bs = [] := decodeAux_of_none h _

namespace Cuts

variable (hf : Cuts front)
include hf

theorem decodeAux_congr {j k : ℕ} (hj : bs.length ≤ j) (hk : bs.length ≤ k) :
    decodeAux front j bs = decodeAux front k bs := by
  induction j generalizing k bs with
  | zero =>
    obtain rfl := length_eq_zero_iff.1 (Nat.le_zero.1 hj)
    cases hfr : front [] with
    | none => rw [decodeAux_of_none hfr, decodeAux_of_none hfr]
    | some p =>
      have := hf.pos hfr
      rw [length_nil] at this
      omega
  | succ j ih =>
    cases hfr : front bs with
    | none => rw [decodeAux_of_none hfr, decodeAux_of_none hfr]
    | some p =>
      obtain ⟨r, n⟩ := p
      obtain ⟨hpos, hle⟩ := hf.pos hfr
      obtain ⟨k, rfl⟩ : ∃ k', k = k' + 1 := ⟨k - 1, by omega⟩
      have hlen : (bs.drop n).length = bs.length - n := length_drop
      rw [decodeAux, decodeAux, hfr]
      dsimp only
      rw [ih (k := k) (by omega) (by omega)]

theorem decode_of_some (h : front bs = some (r, n)) :
    decode front bs = r :: decode front (bs.drop n) := by
  obtain ⟨hpos, hle⟩ := hf.pos h
  obtain ⟨k, hk⟩ : ∃ k, bs.length = k + 1 := ⟨bs.length - 1, by omega⟩
  have hlen : (bs.drop n).length = bs.length - n := length_drop
  rw [decode, hk, decodeAux, h]
  dsimp only
  rw [decode, hf.decodeAux_congr (j := k) (k := (bs.drop n).length) (by omega) (Nat.le_refl _)]

end Cuts

/-! ### Reading -/

/-- Of a stream, the items `rs` have been taken and the values `rest` are left, in whatever way the
stream goes on. -/
structure Reads (front : List α → Option (ρ × ℕ)) (stream : List α) (rs : List ρ) (rest : List α) :
    Prop where
  suffix : rest <:+ stream
  decode : ∀ more, decode front (stream ++ more) = rs ++ Lib.decode front (rest ++ more)

namespace Reads

variable {stream : List α} {rs : List ρ}

theorem refl (front : List α → Option (ρ × ℕ)) (stream : List α) : Reads front stream [] stream :=
  ⟨suffix_rfl, fun _ => rfl⟩

theorem take (hf : Cuts front) (h : Reads front stream rs rest) (hfront : front rest = some (r, n)) :
    Reads front stream (rs ++ [r]) (rest.drop n) := by
  refine ⟨(drop_suffix n rest).trans h.suffix, fun more => ?_⟩
  have hdrop : (rest ++ more).drop n = rest.drop n ++ more :=
    drop_append_of_le_length (hf.pos hfront).2
  rw [h.decode, hf.decode_of_some (hf.append hfront more), hdrop, append_assoc]
  rfl

theorem arrive (h : Reads front stream rs rest) (xs : List α) :
    Reads front (stream ++ xs) rs (rest ++ xs) := by
  refine ⟨?_, fun more => ?_⟩
  · obtain ⟨taken, rfl⟩ := h.suffix
    exact ⟨taken, (append_assoc _ _ _).symm⟩
  · rw [append_assoc, h.decode, append_assoc]

theorem isPrefix (h : Reads front stream rs rest) : rs <+: Lib.decode front stream := by
  have := h.decode []
  rw [append_nil, append_nil] at this
  exact ⟨_, this.symm⟩

theorem eq (h : Reads front stream rs rest) (hnone : front rest = none) :
    Lib.decode front stream = rs := by
  have := h.decode []
  rw [append_nil, append_nil, decode_of_none hnone, append_nil] at this
  exact this

end Reads

end Ridux.Lib
