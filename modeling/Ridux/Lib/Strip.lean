import Mathlib.Data.List.DropRight
import Mathlib.Tactic.Common

/-!
# The first word of a line

A line of cells, some of which are blank.

* `strip`: the line without the blanks around it;
* `firstWord`, `afterWord`: its first word, and what stands behind the blanks after it;
* `strip_append`, `firstWord_append`, `afterWord_append`: blanks at the end of a line;
* `dropWhile_eq_strip`: a line is its text and blanks.
-/

namespace Ridux.Lib

open List

variable {α : Type*} (p : α → Bool)

/-- The line without the blanks around it. -/
def strip (l : List α) : List α := (l.dropWhile p).rdropWhile p

/-- The first word of a line that begins with one. -/
def firstWord (l : List α) : List α := l.takeWhile (!p ·)

/-- What stands behind the first word and the blanks after it. -/
def afterWord (l : List α) : List α := (l.dropWhile (!p ·)).dropWhile p

variable {p} {l b : List α}

theorem rdropWhile_append_of_pos (hb : ∀ c ∈ b, p c = true) : (l ++ b).rdropWhile p = l.rdropWhile p := by
  induction b using List.reverseRecOn with
  | nil => rw [append_nil]
  | append_singleton b c ih =>
    rw [← append_assoc, rdropWhile_concat_pos _ _ _ (hb c (mem_append_right _ mem_cons_self))]
    exact ih fun d hd => hb d (mem_append_left _ hd)

theorem dropWhile_append_blanks (hb : ∀ c ∈ b, p c = true) :
    (l ++ b).dropWhile p = if l.dropWhile p = [] then [] else l.dropWhile p ++ b := by
  rw [dropWhile_append]
  cases h : l.dropWhile p with
  | nil =>
    simp only [isEmpty_nil, if_true, dropWhile_eq_nil_iff]
    exact hb
  | cons c s => rfl

theorem strip_append (hb : ∀ c ∈ b, p c = true) : strip p (l ++ b) = strip p l := by
  unfold strip
  rw [dropWhile_append_blanks hb]
  split_ifs with h
  · rw [h]
  · exact rdropWhile_append_of_pos hb

theorem dropWhile_eq_strip (p : α → Bool) (l : List α) :
    ∃ b, l.dropWhile p = strip p l ++ b ∧ ∀ c ∈ b, p c = true :=
  ⟨(l.dropWhile p).rtakeWhile p, rdropWhile_append_rtakeWhile.symm, fun _ hc => mem_rtakeWhile_imp hc⟩

theorem takeWhile_not_blanks (hb : ∀ c ∈ b, p c = true) : b.takeWhile (!p ·) = [] := by
  cases b with
  | nil => rfl
  | cons c b =>
    rw [takeWhile_cons, hb c mem_cons_self]
    rfl

theorem dropWhile_not_blanks (hb : ∀ c ∈ b, p c = true) : b.dropWhile (!p ·) = b := by
  cases b with
  | nil => rfl
  | cons c b =>
    rw [dropWhile_cons, hb c mem_cons_self]
    rfl

theorem firstWord_append (hb : ∀ c ∈ b, p c = true) : firstWord p (l ++ b) = firstWord p l := by
  unfold firstWord
  rw [takeWhile_append, takeWhile_not_blanks hb, append_nil]
  split_ifs with h
  · exact (List.IsPrefix.eq_of_length (List.takeWhile_prefix _) h).symm
  · rfl

theorem afterWord_append (hb : ∀ c ∈ b, p c = true) :
    afterWord p (l ++ b) = if afterWord p l = [] then [] else afterWord p l ++ b := by
  have hblanks : b.dropWhile p = [] := dropWhile_eq_nil_iff.2 hb
  unfold afterWord
  rw [dropWhile_append, dropWhile_not_blanks hb]
  cases h : l.dropWhile (!p ·) with
  | nil => exact hblanks
  | cons c s => exact dropWhile_append_blanks hb

theorem afterWord_suffix (p : α → Bool) (l : List α) : afterWord p l <:+ l :=
  (dropWhile_suffix p).trans (dropWhile_suffix _)

theorem mem_of_mem_strip {c : α} (h : c ∈ strip p l) : c ∈ l :=
  (dropWhile_suffix p).subset ((List.rdropWhile_prefix p _).subset h)

theorem strip_last {s : List α} (hs : s <:+ strip p l) (hne : s ≠ []) : p (s.getLast hne) = false := by
  have hstrip : strip p l ≠ [] := by
    intro h
    rw [h] at hs
    exact hne (suffix_nil.1 hs)
  rw [List.IsSuffix.getLast hs hne]
  exact eq_false_of_ne_true (rdropWhile_last_not p _ hstrip)

end Ridux.Lib
