import Mathlib.Algebra.Ring.Nat
import Mathlib.Data.List.Nodup
import Mathlib.Data.List.TakeDrop
import Mathlib.Tactic.Common

/-!
# Partial transfers

Pieces of data are offered one after another, and of each a number of items is taken from its
start.

* `taken`, `offered`, `total`: what was taken in all, what was offered, and how many items;
* `NoHole`: after a piece that was not taken whole, nothing more is taken;
* `taken_eq_take_iff`: exactly then the items taken are the first ones offered.
-/

namespace Ridux.Lib

open List

/-- A piece that was offered, and how many of its items were taken. -/
structure Transfer (α : Type*) where
  data : List α
  count : ℕ
  le : count ≤ data.length

namespace Transfer

variable {α : Type*} {ts : List (Transfer α)}

/-- Some of the piece was left. -/
def Short (t : Transfer α) : Prop := t.count < t.data.length

/-- Everything that was offered, in order. -/
def offered (ts : List (Transfer α)) : List α := ts.flatMap data

/-- Everything that was taken, in order. -/
def taken (ts : List (Transfer α)) : List α := ts.flatMap fun t => t.data.take t.count

/-- How many items were taken. -/
def total (ts : List (Transfer α)) : ℕ := (ts.map count).sum

/-- After a short transfer, nothing more is taken. -/
def NoHole (ts : List (Transfer α)) : Prop := ts.Pairwise fun t u => t.Short → u.count = 0

@[simp] theorem offered_nil : offered ([] : List (Transfer α)) = [] := rfl
@[simp] theorem taken_nil : taken ([] : List (Transfer α)) = [] := rfl
@[simp] theorem total_nil : total ([] : List (Transfer α)) = 0 := rfl

@[simp] theorem offered_cons (t : Transfer α) (ts : List (Transfer α)) :
    offered (t :: ts) = t.data ++ offered ts := rfl

@[simp] theorem taken_cons (t : Transfer α) (ts : List (Transfer α)) :
    taken (t :: ts) = t.data.take t.count ++ taken ts := rfl

@[simp] theorem total_cons (t : Transfer α) (ts : List (Transfer α)) :
    total (t :: ts) = t.count + total ts := by
  simp [total]

theorem offered_append (ts us : List (Transfer α)) : offered (ts ++ us) = offered ts ++ offered us :=
  flatMap_append

theorem total_append (ts us : List (Transfer α)) : total (ts ++ us) = total ts + total us := by
  simp [total]

theorem length_taken (ts : List (Transfer α)) : (taken ts).length = total ts := by
  induction ts with
  | nil => rfl
  | cons t ts ih =>
    have hle := t.le
    rw [taken_cons, total_cons, length_append, length_take, ih]
    omega

theorem total_le (ts : List (Transfer α)) : total ts ≤ (offered ts).length := by
  induction ts with
  | nil => exact Nat.zero_le _
  | cons t ts ih =>
    have hle := t.le
    rw [offered_cons, total_cons, length_append]
    omega

theorem total_eq_zero_iff (ts : List (Transfer α)) : total ts = 0 ↔ ∀ t ∈ ts, t.count = 0 := by
  induction ts with
  | nil => simp
  | cons t ts ih => rw [total_cons, Nat.add_eq_zero_iff, ih, forall_mem_cons]

theorem NoHole.taken_eq (h : NoHole ts) : taken ts = (offered ts).take (total ts) := by
  induction ts with
  | nil => rfl
  | cons t ts ih =>
    have hle := t.le
    obtain ⟨hlater, htail⟩ := pairwise_cons.1 h
    rw [taken_cons, offered_cons, total_cons, ih htail]
    by_cases hshort : t.Short
    · have h0 : total ts = 0 := (total_eq_zero_iff ts).2 fun u hu => hlater u hu hshort
      rw [h0, take_zero, append_nil, Nat.add_zero, take_append_of_le_length hle]
    · have hwhole : t.count = t.data.length := by
        unfold Short at hshort
        omega
      rw [hwhole, take_length, take_length_add_append]

/-- **Nothing is skipped exactly when there is no hole**, for items that can be told apart. -/
theorem taken_eq_take_iff (h : (offered ts).Nodup) :
    taken ts = (offered ts).take (total ts) ↔ NoHole ts := by
  refine ⟨fun heq => ?_, NoHole.taken_eq⟩
  induction ts with
  | nil => exact List.Pairwise.nil
  | cons t ts ih =>
    have hle := t.le
    rw [offered_cons] at h heq
    rw [taken_cons, total_cons] at heq
    by_cases hshort : t.Short
    · -- the first item left of the piece would be taken later
      have hlt : t.count < t.data.length := hshort
      have h0 : total ts = 0 := by
        by_contra hpos
        obtain ⟨x, hx⟩ : ∃ x, t.data[t.count]? = some x := ⟨_, List.getElem?_eq_getElem hlt⟩
        have hlen : (t.data.take t.count).length = t.count := length_take_of_le hle
        have hget : (t.data.take t.count ++ taken ts)[t.count]? = some x := by
          rw [heq, List.getElem?_take_of_lt (by omega), List.getElem?_append_left hlt, hx]
        rw [List.getElem?_append_right (Nat.le_of_eq hlen), hlen, Nat.sub_self] at hget
        obtain ⟨u, hu, hxu⟩ := mem_flatMap.1 (mem_of_getElem? hget)
        have hoffered : x ∈ offered ts := mem_flatMap.2 ⟨u, hu, mem_of_mem_take hxu⟩
        exact (nodup_append.1 h).2.2 x (mem_of_getElem? hx) x hoffered rfl
      have hzero := (total_eq_zero_iff ts).1 h0
      refine pairwise_cons.2 ⟨fun u hu _ => hzero u hu, ?_⟩
      exact pairwise_of_forall_mem_list fun u _ v hv _ => hzero v hv
    · have hwhole : t.count = t.data.length := by
        unfold Short at hshort
        omega
      rw [hwhole, take_length, take_length_add_append] at heq
      refine pairwise_cons.2 ⟨fun u _ hs => absurd hs hshort, ?_⟩
      exact ih (nodup_append.1 h).2.1 (append_cancel_left heq)

end Transfer

end Ridux.Lib
