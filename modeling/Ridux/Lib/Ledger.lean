import Mathlib.Data.List.Nodup
import Mathlib.Tactic.Common

/-!
# Ledgers

Things enter under a key and leave again.  What is held at some moment are the things that have
entered and not left.

* `Balanced`: no key enters twice, nothing leaves that has not entered, no key leaves twice, and the
  rest is held;
* `Balanced.enter`, `Balanced.leave`: the two movements.
-/

namespace Ridux.Lib

open List

variable {κ ν : Type*}

/-- The keys of a list of movements. -/
def keys (l : List (κ × ν)) : List κ := l.map Prod.fst

@[simp] theorem keys_cons (k : κ) (v : ν) (l : List (κ × ν)) : keys ((k, v) :: l) = k :: keys l := rfl

theorem mem_keys {l : List (κ × ν)} {k : κ} {v : ν} (h : (k, v) ∈ l) : k ∈ keys l :=
  mem_map_of_mem (f := Prod.fst) h

/-- What entered, less what left, is held. -/
structure Balanced (entered : List (κ × ν)) (left : List κ) (held : κ → ν → Prop) : Prop where
  entered_once : (keys entered).Nodup
  left_once : left.Nodup
  left_entered : ∀ k ∈ left, k ∈ keys entered
  held_iff : ∀ k v, held k v ↔ (k, v) ∈ entered ∧ k ∉ left

variable {entered : List (κ × ν)} {left : List κ} {held held' : κ → ν → Prop} {k : κ} {v w : ν}

theorem Balanced.nil (h : ∀ k v, ¬held k v) : Balanced [] [] held :=
  ⟨nodup_nil, nodup_nil, fun _ hk => hk, fun k v =>
    iff_of_false (h k v) fun hmem => not_mem_nil hmem.1⟩

theorem Balanced.congr (h : Balanced entered left held) (heq : ∀ k v, held' k v ↔ held k v) :
    Balanced entered left held' :=
  ⟨h.entered_once, h.left_once, h.left_entered, fun k v => (heq k v).trans (h.held_iff k v)⟩

theorem Balanced.enter (h : Balanced entered left held) (hk : k ∉ keys entered)
    (heq : ∀ k' v', held' k' v' ↔ held k' v' ∨ k' = k ∧ v' = v) :
    Balanced ((k, v) :: entered) left held' := by
  refine ⟨nodup_cons.2 ⟨hk, h.entered_once⟩, h.left_once, fun k' hk' =>
    mem_cons_of_mem _ (h.left_entered k' hk'), fun k' v' => ?_⟩
  rw [heq, h.held_iff, mem_cons]
  constructor
  · rintro (⟨hmem, hnot⟩ | ⟨rfl, rfl⟩)
    · exact ⟨.inr hmem, hnot⟩
    · exact ⟨.inl rfl, fun hleft => hk (h.left_entered _ hleft)⟩
  · rintro ⟨he | hmem, hnot⟩
    · obtain ⟨rfl, rfl⟩ := Prod.mk.inj he
      exact .inr ⟨rfl, rfl⟩
    · exact .inl ⟨hmem, hnot⟩

theorem Balanced.leave (h : Balanced entered left held) (hv : held k v)
    (heq : ∀ k' v', held' k' v' ↔ held k' v' ∧ k' ≠ k) : Balanced entered (k :: left) held' := by
  obtain ⟨hmem, hnot⟩ := (h.held_iff k v).1 hv
  refine ⟨h.entered_once, nodup_cons.2 ⟨hnot, h.left_once⟩, fun k' hk' => ?_, fun k' v' => ?_⟩
  · rcases mem_cons.1 hk' with rfl | hk'
    · exact mem_keys hmem
    · exact h.left_entered k' hk'
  · rw [heq, h.held_iff, mem_cons]
    tauto

end Ridux.Lib
