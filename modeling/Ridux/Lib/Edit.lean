import Mathlib.Data.ENat.Basic
import Mathlib.Tactic.Common

/-!
# Editing a line

Keys that write a line, take from it, and finish it.

* `Key`, `Edit`: a key, and what keys have made so far;
* `press`, `edited`: what a key does, with room for `cap` items in a line, and what keys make;
* `finished`: what a key adds to the finished lines.
-/

namespace Ridux.Lib

variable {α : Type*}

/-- A key; `finish last` ends the line with `last`. -/
inductive Key (α : Type*)
  | put (a : α)
  | erase
  | kill
  | finish (last : List α)
  | idle

/-- The finished lines, one behind the other, and the line that is edited. -/
structure Edit (α : Type*) where
  done : List α
  line : List α

namespace Edit

/-- What a key does; an item that finds no room in the line is ignored. -/
def press (cap : ℕ∞) (e : Edit α) : Key α → Edit α
  | .put a => if (e.line.length : ℕ∞) < cap then ⟨e.done, e.line ++ [a]⟩ else e
  | .erase => ⟨e.done, e.line.dropLast⟩
  | .kill => ⟨e.done, []⟩
  | .finish last => ⟨e.done ++ (e.line ++ last), []⟩
  | .idle => e

/-- What keys make of nothing. -/
def edited (cap : ℕ∞) (ks : List (Key α)) : Edit α := ks.foldl (press cap) ⟨[], []⟩

/-- What a key finishes. -/
def finished (line : List α) : Key α → List α
  | .finish last => line ++ last
  | _ => []

@[simp] theorem edited_concat (cap : ℕ∞) (ks : List (Key α)) (k : Key α) :
    edited cap (ks ++ [k]) = (edited cap ks).press cap k := by
  simp [edited]

theorem press_done (cap : ℕ∞) (e : Edit α) (k : Key α) :
    (e.press cap k).done = e.done ++ finished e.line k := by
  cases k with
  | put a =>
    unfold press
    dsimp only [finished]
    split_ifs <;> simp
  | erase => simp [press, finished]
  | kill => simp [press, finished]
  | finish last => rfl
  | idle => simp [press, finished]

theorem press_line (cap : ℕ∞) {e e' : Edit α} (h : e.line = e'.line) (k : Key α) :
    (e.press cap k).line = (e'.press cap k).line := by
  cases k with
  | put a =>
    unfold press
    rw [h]
    split_ifs <;> simp [h]
  | erase => exact congrArg List.dropLast h
  | kill => rfl
  | finish last => rfl
  | idle => exact h

theorem edited_put {cap : ℕ∞} {a : α} (n : ℕ) (h : (n : ℕ∞) ≤ cap) :
    edited cap (List.replicate n (.put a)) = ⟨[], List.replicate n a⟩ := by
  induction n with
  | zero => rfl
  | succ n ih =>
    have hlt : (n : ℕ∞) < cap := lt_of_lt_of_le (by exact_mod_cast Nat.lt_succ_self n) h
    rw [List.replicate_succ', edited_concat, ih hlt.le, press, if_pos (by simpa using hlt),
      List.replicate_succ']

end Edit

end Ridux.Lib
