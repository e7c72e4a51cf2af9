import Mathlib.Data.List.TakeWhile
import Mathlib.Tactic.Common

/-!
# Records of different lengths in a buffer

A buffer of `len` cells holds records one after another: a header of `hdr` cells, and behind it as many
cells as the header says.  A walk goes from header to header, up to one that ends the records.

* `records`: the places of the headers that a walk finds; `nextRecord`: the one behind a header;
* `records_eq_iff`: two walks find the same headers when they agree on what comes behind each;
* `copyText`: a text of a buffer, up to its end mark, with room for so many characters;
* `copyText_eq`: what is copied, and when the buffer ends before the text.
-/

namespace Ridux.Lib

open List

/-! ### Walks -/

section Records

/-- The place behind the record at `off`, when there is a header. -/
def nextRecord (hdr len : ℕ) (live : ℕ → Bool) (adv : ℕ → ℕ) (off : ℕ) : Option ℕ :=
  if off + hdr + adv off + hdr ≤ len ∧ live (off + hdr + adv off) then some (off + hdr + adv off) else none

/-- The places of the headers from `off` on. -/
def records {hdr : ℕ} (hpos : 0 < hdr) (len : ℕ) (live : ℕ → Bool) (adv : ℕ → ℕ) (off : ℕ) : List ℕ :=
  if off + hdr ≤ len ∧ live off then off :: records hpos len live adv (off + hdr + adv off) else []
termination_by len + 1 - off
decreasing_by omega

variable {hdr : ℕ} {hpos : 0 < hdr} {len off : ℕ} {live : ℕ → Bool} {adv adv' : ℕ → ℕ}

theorem records_live (h : off + hdr ≤ len ∧ live off = true) :
    records hpos len live adv off = off :: records hpos len live adv (off + hdr + adv off) := by
  rw [records, if_pos h]

theorem records_end (h : ¬(off + hdr ≤ len ∧ live off = true)) : records hpos len live adv off = [] := by
  rw [records, if_neg h]

theorem head?_records (off : ℕ) :
    (records hpos len live adv (off + hdr + adv off)).head? = nextRecord hdr len live adv off := by
  unfold nextRecord
  split_ifs with h
  · rw [records_live h, List.head?_cons]
  · rw [records_end h, List.head?_nil]

theorem records_of_none (h : nextRecord hdr len live adv off = none) :
    records hpos len live adv (off + hdr + adv off) = [] := by
  rw [← List.head?_eq_none_iff, head?_records, h]

theorem eq_of_nextRecord {n : ℕ} (h : nextRecord hdr len live adv off = some n) : off + hdr + adv off = n := by
  unfold nextRecord at h
  split_ifs at h
  exact Option.some.inj h

/-- **Two walks find the same headers** exactly when they agree on what comes behind each of them. -/
theorem records_eq_iff (off : ℕ) : records hpos len live adv off = records hpos len live adv' off ↔
    ∀ o ∈ records hpos len live adv' off, nextRecord hdr len live adv o = nextRecord hdr len live adv' o := by
  induction hn : len + 1 - off using Nat.strong_induction_on generalizing off with
  | _ n ih =>
    by_cases hlive : off + hdr ≤ len ∧ live off = true
    · rw [records_live hlive, records_live hlive, cons_inj_right, forall_mem_cons]
      have htail : nextRecord hdr len live adv off = nextRecord hdr len live adv' off →
          (records hpos len live adv (off + hdr + adv off) = records hpos len live adv' (off + hdr + adv' off) ↔
            ∀ o ∈ records hpos len live adv' (off + hdr + adv' off),
              nextRecord hdr len live adv o = nextRecord hdr len live adv' o) := by
        intro hnext
        cases h' : nextRecord hdr len live adv' off with
        | none => simp [records_of_none h', records_of_none (hnext.trans h')]
        | some n =>
          rw [eq_of_nextRecord h', eq_of_nextRecord (hnext.trans h')]
          have := eq_of_nextRecord h'
          exact ih _ (by omega) n rfl
      constructor
      · intro h
        have hhead := congrArg List.head? h
        rw [head?_records, head?_records] at hhead
        exact ⟨hhead, (htail hhead).1 h⟩
      · rintro ⟨hnext, hall⟩
        exact (htail hnext).2 hall
    · rw [records_end hlive, records_end hlive]
      exact ⟨fun _ _ ho => (nomatch ho), fun _ => rfl⟩

end Records

/-! ### Texts -/

section Texts

variable {α : Type*} [DecidableEq α] (stop : α)

/-- Copy a text from `pos` on, with room for so many characters; `true` when there are more.  There is no
result when a character is looked for behind the buffer. -/
def copyText (buf : List α) : ℕ → ℕ → Option (List α × Bool)
  | 0, pos => (buf[pos]?).map fun c => ([], decide (c ≠ stop))
  | room + 1, pos =>
    match buf[pos]? with
    | none => none
    | some c => if c = stop then some ([], false) else (copyText buf room (pos + 1)).map fun r => (c :: r.1, r.2)

/-- The text at `pos`, up to the mark or the end of the buffer. -/
def textAt (buf : List α) (pos : ℕ) : List α := (buf.drop pos).takeWhile fun c => decide (c ≠ stop)

variable {stop} {buf : List α} {pos : ℕ}

theorem textAt_of_le (h : buf.length ≤ pos) : textAt stop buf pos = [] := by
  rw [textAt, drop_eq_nil_of_le h]
  rfl

theorem textAt_stop (h : buf[pos]? = some stop) : textAt stop buf pos = [] := by
  obtain ⟨hlt, hget⟩ := List.getElem?_eq_some_iff.1 h
  rw [textAt, drop_eq_getElem_cons hlt, takeWhile_cons_of_neg (by simp [hget])]

theorem textAt_cons {c : α} (h : buf[pos]? = some c) (hc : c ≠ stop) :
    textAt stop buf pos = c :: textAt stop buf (pos + 1) := by
  obtain ⟨hlt, hget⟩ := List.getElem?_eq_some_iff.1 h
  rw [textAt, drop_eq_getElem_cons hlt, takeWhile_cons_of_pos (by simp [hget, hc]), hget, textAt]

/-- **What is copied**: the text, if it fits, or as much as there is room for; nothing, when the buffer ends
before the text. -/
theorem copyText_eq (room pos : ℕ) : copyText stop buf room pos =
    if room < (textAt stop buf pos).length then some ((textAt stop buf pos).take room, true)
    else if pos + (textAt stop buf pos).length < buf.length then some (textAt stop buf pos, false)
    else none := by
  induction room generalizing pos with
  | zero =>
    cases hget : buf[pos]? with
    | none =>
      have hle := List.getElem?_eq_none_iff.1 hget
      simp [copyText, textAt_of_le hle, hle]
    | some c =>
      obtain ⟨hlt, heq⟩ := List.getElem?_eq_some_iff.1 hget
      by_cases hc : c = stop
      · subst hc
        simp [copyText, textAt_stop hget, hlt, heq]
      · simp [copyText, hget, textAt_cons hget hc, hc]
  | succ room ih =>
    cases hget : buf[pos]? with
    | none =>
      have hle := List.getElem?_eq_none_iff.1 hget
      simp [copyText, textAt_of_le hle, hle]
    | some c =>
      obtain ⟨hlt, heq⟩ := List.getElem?_eq_some_iff.1 hget
      by_cases hc : c = stop
      · subst hc
        simp [copyText, textAt_stop hget, hlt, heq]
      · simp only [copyText, hget, textAt_cons hget hc, hc, if_false, ih, length_cons,
          Nat.add_lt_add_iff_right, take_succ_cons]
        split_ifs with hroom hfit hfit'
        all_goals first | rfl | omega

end Texts

end Ridux.Lib
