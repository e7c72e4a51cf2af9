import Mathlib.Algebra.Order.BigOperators.Group.Finset
import Mathlib.Data.List.Nodup

/-!
# Texts of lines

A text that holds lines with a separator between them, and a loop that adds to it the names that it
does not hold yet, while there is room.

* `linesOf`, `textOf`: the lines of a text, and the text of lines;
* `collect`: the loop;
* `collect_spec`: it keeps every name exactly when all of them have room together.
-/

namespace Ridux.Lib

open List

variable {α : Type*} {sep x : α} {ls : List (List α)} {l : List α}

/-- The lines of a text; an empty text has none. -/
def linesOf [DecidableEq α] (sep : α) (s : List α) : List (List α) := if s = [] then [] else s.splitOn sep

/-- The text of lines. -/
def textOf (sep : α) (lines : List (List α)) : List α := [sep].intercalate lines

/-- A name that can be a line: not empty, and without the separator. -/
def IsLine (sep : α) (l : List α) : Prop := l ≠ [] ∧ sep ∉ l

/-- Add the names that the text does not hold yet, up to the first one that has no room. -/
def collect [DecidableEq α] (sep : α) (cap : ℕ) : List (List α) → List α → List α
  | [], out => out
  | n :: ns, out =>
      if n ∈ linesOf sep out then collect sep cap ns out
      else if out.length + n.length + 2 > cap then out
      else collect sep cap ns (if out = [] then n else out ++ sep :: n)

/-- The room that names need, each with a byte behind it. -/
def roomFor [DecidableEq α] (names : List (List α)) : ℕ := ∑ x ∈ names.toFinset, (x.length + 1)

/-! ### Lines and texts -/

@[simp] theorem textOf_nil : textOf sep [] = [] := rfl

theorem textOf_cons (l : List α) (h : ls ≠ []) :
    textOf sep (l :: ls) = l ++ sep :: textOf sep ls := by
  cases ls with
  | nil => exact absurd rfl h
  | cons a ls => simp [textOf]

theorem textOf_concat (h : ls ≠ []) (l : List α) :
    textOf sep (ls ++ [l]) = textOf sep ls ++ sep :: l := by
  induction ls with
  | nil => exact absurd rfl h
  | cons a ls ih =>
    cases ls with
    | nil => simp [textOf, List.intercalate]
    | cons b ls =>
      have hih := ih (by simp)
      simp only [textOf, cons_append, intercalate_cons_cons] at hih ⊢
      rw [hih]
      simp

theorem mem_textOf : x ∈ textOf sep ls → x = sep ∨ ∃ l ∈ ls, x ∈ l := by
  induction ls with
  | nil => exact fun h => absurd h not_mem_nil
  | cons l ls ih =>
    intro h
    by_cases hnil : ls = []
    · subst hnil
      exact .inr ⟨l, mem_cons_self, by simpa [textOf] using h⟩
    · rw [textOf_cons l hnil] at h
      rcases mem_append.1 h with hl | hrest
      · exact .inr ⟨l, mem_cons_self, hl⟩
      · rcases mem_cons.1 hrest with rfl | hrest
        · exact .inl rfl
        · refine (ih hrest).imp_right ?_
          rintro ⟨k, hk, hx⟩
          exact ⟨k, mem_cons_of_mem l hk, hx⟩

theorem mem_textOf_of_mem (hl : l ∈ ls) (hx : x ∈ l) : x ∈ textOf sep ls := by
  induction ls with
  | nil => exact absurd hl not_mem_nil
  | cons k ls ih =>
    by_cases hnil : ls = []
    · subst hnil
      rw [mem_singleton.1 hl] at hx
      simpa [textOf] using hx
    · rw [textOf_cons k hnil]
      rcases mem_cons.1 hl with rfl | hl
      · exact mem_append_left _ hx
      · exact mem_append_right _ (mem_cons_of_mem _ (ih hl))

theorem textOf_eq_nil (h : ∀ l ∈ ls, IsLine sep l) : textOf sep ls = [] ↔ ls = [] := by
  constructor
  · intro he
    rcases eq_nil_or_concat' ls with rfl | ⟨init, l, rfl⟩
    · rfl
    · by_cases hinit : init = []
      · subst hinit
        exact absurd (by simpa [textOf] using he) (h l (by simp)).1
      · rw [textOf_concat hinit] at he
        simp at he
  · rintro rfl
    rfl

variable [DecidableEq α] {s : List α} {ms : List (List α)} {cap : ℕ}

theorem not_mem_of_mem_splitOn (h : l ∈ s.splitOn sep) : sep ∉ l := by
  induction s generalizing l with
  | nil =>
    obtain rfl : l = [] := by simpa using h
    simp
  | cons c s ih =>
    rw [splitOn_cons_eq_if_modifyHead] at h
    split_ifs at h with hc
    · rcases mem_cons.1 h with rfl | h
      · simp
      · exact ih h
    · cases hs : s.splitOn sep with
      | nil => exact absurd hs (splitOn_ne_nil sep s)
      | cons p ps =>
        rw [hs] at h ih
        rcases mem_cons.1 h with rfl | h
        · have hp : sep ∉ p := ih (by simp)
          have hne : sep ≠ c := by rintro rfl; simp at hc
          simp [hp, hne]
        · exact ih (mem_cons_of_mem p h)

theorem not_mem_of_mem_linesOf (h : l ∈ linesOf sep s) : sep ∉ l := by
  unfold linesOf at h
  split_ifs at h
  · cases h
  · exact not_mem_of_mem_splitOn h

theorem linesOf_textOf (h : ∀ l ∈ ls, IsLine sep l) : linesOf sep (textOf sep ls) = ls := by
  unfold linesOf
  by_cases hnil : ls = []
  · subst hnil
    simp
  · rw [if_neg (mt (textOf_eq_nil h).1 hnil)]
    exact splitOn_intercalate sep (fun l hl => (h l hl).2) hnil

theorem roomFor_concat (h : l ∉ ls) : roomFor (ls ++ [l]) = roomFor ls + (l.length + 1) := by
  have hset : (ls ++ [l]).toFinset = insert l ls.toFinset := by
    ext x
    simp
  rw [roomFor, hset, Finset.sum_insert (by simpa using h), roomFor]
  omega

theorem length_textOf (hnd : ls.Nodup) (h : ls ≠ []) : (textOf sep ls).length + 1 = roomFor ls := by
  induction ls using List.reverseRecOn with
  | nil => exact absurd rfl h
  | append_singleton ls l ih =>
    have hdisj := nodup_append.1 hnd
    have hroom := roomFor_concat fun hm => hdisj.2.2 l hm l (by simp) rfl
    by_cases hnil : ls = []
    · subst hnil
      simp [textOf, roomFor]
    · have hih := ih hdisj.1 hnil
      rw [textOf_concat hnil, hroom]
      simp only [length_append, length_cons]
      omega

/-! ### Collecting names -/

theorem roomFor_mono {ns : List (List α)} (h : ns ⊆ ms) : roomFor ns ≤ roomFor ms :=
  Finset.sum_le_sum_of_subset fun _ hx => mem_toFinset.2 (h (mem_toFinset.1 hx))

theorem roomFor_congr {ns : List (List α)} (h : ∀ x, x ∈ ns ↔ x ∈ ms) : roomFor ns = roomFor ms :=
  le_antisymm (roomFor_mono fun x hx => (h x).1 hx) (roomFor_mono fun x hx => (h x).2 hx)

theorem collect_from {ns acc : List (List α)} (hns : ∀ n ∈ ns, IsLine sep n)
    (hcap : ∀ n ∈ ns, n.length + 2 ≤ cap) (hacc : ∀ n ∈ acc, IsLine sep n) (hnd : acc.Nodup)
    (hroom : roomFor acc ≤ cap) :
    ∃ added, collect sep cap ns (textOf sep acc) = textOf sep (acc ++ added) ∧ (acc ++ added).Nodup ∧
      added ⊆ ns ∧ (ns ⊆ acc ++ added ↔ roomFor (acc ++ ns) ≤ cap) := by
  induction ns generalizing acc with
  | nil => exact ⟨[], by simp [collect], by simpa using hnd, by simp, by simpa using hroom⟩
  | cons n ns ih =>
    have hlines := linesOf_textOf hacc
    have hns' : ∀ m ∈ ns, IsLine sep m := fun m hm => hns m (mem_cons_of_mem n hm)
    have hcap' : ∀ m ∈ ns, m.length + 2 ≤ cap := fun m hm => hcap m (mem_cons_of_mem n hm)
    unfold collect
    rw [hlines]
    by_cases hmem : n ∈ acc
    · obtain ⟨added, heq, hnodup, hsub, hiff⟩ := ih hns' hcap' hacc hnd hroom
      rw [if_pos hmem]
      refine ⟨added, heq, hnodup, fun x hx => mem_cons_of_mem n (hsub hx), ?_⟩
      have hsame : roomFor (acc ++ n :: ns) = roomFor (acc ++ ns) := by
        apply roomFor_congr
        intro x
        simp only [mem_append, mem_cons]
        constructor
        · rintro (h | rfl | h)
          · exact .inl h
          · exact .inl hmem
          · exact .inr h
        · rintro (h | h)
          · exact .inl h
          · exact .inr (.inr h)
      rw [hsame, ← hiff, cons_subset]
      simp [hmem]
    · have hconcat := roomFor_concat hmem
      have hlen : acc ≠ [] → (textOf sep acc).length + 1 = roomFor acc := length_textOf hnd
      rw [if_neg hmem]
      by_cases hfull : (textOf sep acc).length + n.length + 2 > cap
      · rw [if_pos hfull]
        refine ⟨[], by simp, by simpa using hnd, by simp, ?_⟩
        have hne : acc ≠ [] := by
          rintro rfl
          have := hcap n (by simp)
          simp at hfull
          omega
        have hle : roomFor (acc ++ [n]) ≤ roomFor (acc ++ n :: ns) :=
          roomFor_mono fun x hx => by
            simp only [mem_append, mem_cons, not_mem_nil, or_false] at hx ⊢
            exact hx.imp_right .inl
        have hout : ¬ n :: ns ⊆ acc ++ [] := fun h => hmem (by simpa using h mem_cons_self)
        constructor
        · intro h
          exact absurd h hout
        · intro h
          have := hlen hne
          omega
      · rw [if_neg hfull]
        have htext : (if textOf sep acc = [] then n else textOf sep acc ++ sep :: n) =
            textOf sep (acc ++ [n]) := by
          by_cases hnil : acc = []
          · subst hnil
            simp [textOf]
          · rw [if_neg (mt (textOf_eq_nil hacc).1 hnil), textOf_concat hnil]
        have hroom' : roomFor (acc ++ [n]) ≤ cap := by
          by_cases hnil : acc = []
          · subst hnil
            have := hcap n (by simp)
            simp [roomFor]
            omega
          · have := hlen hnil
            omega
        have hacc' : ∀ m ∈ acc ++ [n], IsLine sep m := by
          intro m hm
          rcases mem_append.1 hm with hm | hm
          · exact hacc m hm
          · obtain rfl : m = n := by simpa using hm
            exact hns m (by simp)
        have hnd' : (acc ++ [n]).Nodup := by
          rw [nodup_append]
          refine ⟨hnd, by simp, ?_⟩
          rintro a ha b hb rfl
          exact hmem (by simpa [mem_singleton.1 hb] using ha)
        obtain ⟨added, heq, hnodup, hsub, hiff⟩ := ih hns' hcap' hacc' hnd' hroom'
        rw [htext, heq]
        refine ⟨n :: added, by simp, by simpa using hnodup, ?_, ?_⟩
        · exact cons_subset_cons n hsub
        · rw [append_assoc, singleton_append] at hiff
          rw [append_assoc, singleton_append] at hiff
          rw [← hiff, cons_subset]
          simp

/-- The lines that the loop collects in an empty text: names that differ, and all of them exactly
when they have room together. -/
theorem collect_spec {ns : List (List α)} (hns : ∀ n ∈ ns, IsLine sep n)
    (hcap : ∀ n ∈ ns, n.length + 2 ≤ cap) :
    ∃ lines, collect sep cap ns [] = textOf sep lines ∧ lines.Nodup ∧ lines ⊆ ns ∧
      (ns ⊆ lines ↔ roomFor ns ≤ cap) := by
  obtain ⟨added, heq, hnd, hsub, hiff⟩ :=
    collect_from hns hcap (by simp) nodup_nil (by simp [roomFor])
  exact ⟨added, by simpa using heq, by simpa using hnd, hsub, by simpa using hiff⟩

end Ridux.Lib
