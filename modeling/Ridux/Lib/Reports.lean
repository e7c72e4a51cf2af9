import Mathlib.Data.List.Sublists
import Mathlib.Tactic.Common

/-!
# Reports that are kept or dropped

A source asks for reports, each a list of items that ends with a mark.  What comes of them is a stream.

* `Report`: items and the mark at their end;
* `Whole`: the stream consists of some of the reports, in order and each complete;
* `Whole.keep`, `Whole.drop`: one more report, kept or dropped;
* `not_whole_cut`: a part of a report makes a stream that is not whole;
* `lastOf`: the last value that a stream gives to a key;
* `Delivered`: a whole stream that leaves no key at a value the reports have taken back.
-/

namespace Ridux.Lib

open List Option

variable {α κ ν : Type*} {mark : α} {asked : List (List α)} {stream r : List α} {n : ℕ}

/-- Items without the mark, and the mark. -/
def Report (mark : α) (r : List α) : Prop := ∃ body, mark ∉ body ∧ r = body ++ [mark]

/-- The stream consists of some of the reports. -/
def Whole (asked : List (List α)) (stream : List α) : Prop :=
  ∃ kept : List (List α), kept.Sublist asked ∧ stream = kept.flatten

theorem Whole.nil : Whole ([] : List (List α)) [] := ⟨[], List.Sublist.refl _, rfl⟩

theorem Whole.keep (h : Whole asked stream) (r : List α) : Whole (asked ++ [r]) (stream ++ r) := by
  obtain ⟨kept, hsub, rfl⟩ := h
  exact ⟨kept ++ [r], hsub.append (List.Sublist.refl _), by simp⟩

theorem Whole.drop (h : Whole asked stream) (r : List α) : Whole (asked ++ [r]) stream := by
  obtain ⟨kept, hsub, rfl⟩ := h
  exact ⟨kept, hsub.trans (sublist_append_left asked [r]), rfl⟩

theorem Whole.getLast (h : Whole asked stream) (hall : ∀ r ∈ asked, Report mark r) (hne : stream ≠ []) :
    stream.getLast hne = mark := by
  obtain ⟨kept, hsub, rfl⟩ := h
  induction kept using List.reverseRecOn with
  | nil => exact absurd rfl hne
  | append_singleton kept r _ =>
    obtain ⟨body, -, rfl⟩ := hall r (hsub.subset (by simp))
    simp

/-- **A part of a report breaks the stream.** -/
theorem not_whole_cut (hall : ∀ r ∈ asked, Report mark r) (hr : Report mark r) (hn : 0 < n)
    (hlt : n < r.length) (stream : List α) : ¬ Whole asked (stream ++ r.take n) := by
  intro h
  obtain ⟨body, hbody, rfl⟩ := hr
  have hle : n ≤ body.length := by
    rw [length_append, length_singleton] at hlt
    omega
  rw [take_append_of_le_length hle] at h
  have hcut : body.take n ≠ [] := by
    rw [← length_pos_iff, length_take]
    omega
  have hlast := h.getLast hall (append_ne_nil_of_right_ne_nil _ hcut)
  rw [getLast_append_of_ne_nil _ hcut] at hlast
  exact hbody (hlast ▸ mem_of_mem_take (getLast_mem hcut))

/-! ### The last value of a key -/

section Keys

variable [DecidableEq κ] (f : α → Option (κ × ν))

/-- The last value that the items of a list give to the key `k`. -/
def lastOf (l : List α) (k : κ) : Option ν :=
  (l.filterMap fun a => (f a).bind fun kv => if kv.1 = k then some kv.2 else none).getLast?

theorem lastOf_append (l l' : List α) (k : κ) :
    lastOf f (l ++ l') k = (lastOf f l' k).or (lastOf f l k) := by
  unfold lastOf
  rw [filterMap_append, List.getLast?_append]

/-- The stream is made of whole reports, and a key that the reports leave at `off` is not left at another
value. -/
structure Delivered (off : ν) (asked : List (List α)) (stream : List α) : Prop where
  whole : Whole asked stream
  released : ∀ k v, lastOf f asked.flatten k = some off → lastOf f stream k = some v → v = off

variable {f} {off : ν}

theorem Delivered.nil : Delivered f off [] [] := ⟨Whole.nil, fun _ _ h => nomatch h⟩

theorem Delivered.keep (h : Delivered f off asked stream) (r : List α) :
    Delivered f off (asked ++ [r]) (stream ++ r) := by
  refine ⟨h.whole.keep r, fun k v hask hstr => ?_⟩
  rw [flatten_append, flatten_singleton, lastOf_append] at hask
  rw [lastOf_append] at hstr
  cases hr : lastOf f r k with
  | none =>
    rw [hr] at hask hstr
    exact h.released k v hask hstr
  | some w =>
    rw [hr, some_or, some_inj] at hask hstr
    exact hstr.symm.trans hask

theorem Delivered.drop (h : Delivered f off asked stream)
    (hkeys : ∀ k v, lastOf f r k = some off → lastOf f stream k = some v → v = off) :
    Delivered f off (asked ++ [r]) stream := by
  refine ⟨h.whole.drop r, fun k v hask hstr => ?_⟩
  rw [flatten_append, flatten_singleton, lastOf_append] at hask
  cases hr : lastOf f r k with
  | none =>
    rw [hr] at hask
    exact h.released k v hask hstr
  | some w =>
    rw [hr, some_or] at hask
    exact hkeys k v (hr.trans hask) hstr

/-- **One more report** of which the stream takes `n` items. -/
theorem Delivered.push_iff (h : Delivered f off asked stream) (hall : ∀ r ∈ asked, Report mark r)
    (hr : Report mark r) (n : ℕ) : Delivered f off (asked ++ [r]) (stream ++ r.take n) ↔ r.length ≤ n ∨
      n = 0 ∧ ∀ k v, lastOf f r k = some off → lastOf f stream k = some v → v = off := by
  constructor
  · intro hpush
    by_cases hle : r.length ≤ n
    · exact .inl hle
    rcases Nat.eq_zero_or_pos n with rfl | hn
    -- nothing is taken: a release of a key must find the key up
    · refine .inr ⟨rfl, fun k v hk hstr => hpush.released k v ?_ ?_⟩
      · rw [flatten_append, flatten_singleton, lastOf_append, hk, some_or]
      · rwa [take_zero, append_nil]
    · have hall' : ∀ r' ∈ asked ++ [r], Report mark r' := by
        simpa [or_imp, forall_and, hr] using hall
      exact absurd hpush.whole (not_whole_cut hall' hr hn (by omega) stream)
  · rintro (hle | ⟨rfl, hkeys⟩)
    · rw [take_of_length_le hle]
      exact h.keep r
    · rw [take_zero, append_nil]
      exact h.drop hkeys

end Keys

end Ridux.Lib
