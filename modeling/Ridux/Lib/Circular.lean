import Mathlib.Data.Nat.ModEq
import Mathlib.Logic.Function.Basic
import Mathlib.Tactic.Common

/-!
# Circular queues

A circular queue of `cap` cells with reduced indices: it is empty when the indices are equal, so
that one cell always stays free.

* `Circular.put`, `Circular.next`: one value in at `head`, one value out at `tail`;
* `Circular.offer`, `Circular.fill`, `Circular.drain`: values in while there is room, and values out
  while there are any;
* `Circular.contents`: the queued values, oldest first;
* `Circular.Ok`: both indices name a cell.
-/

namespace Ridux.Lib

open Function List

variable {α : Type*} {cap : ℕ}

/-- A circular queue of `cap` cells. -/
structure Circular (α : Type*) (cap : ℕ) where
  slots : ℕ → α
  head : ℕ
  tail : ℕ

namespace Circular

/-- How many values are queued. -/
def len (q : Circular α cap) : ℕ := (q.head + cap - q.tail) % cap

/-- The index after `i`. -/
def succ (cap i : ℕ) : ℕ := (i + 1) % cap

/-- Queue one value. -/
def put (q : Circular α cap) (x : α) : Circular α cap :=
  { q with slots := update q.slots q.head x, head := succ cap q.head }

/-- Skip the oldest value. -/
def next (q : Circular α cap) : Circular α cap := { q with tail := succ cap q.tail }

/-- The queued values, oldest first. -/
def contents (q : Circular α cap) : List α :=
  (List.range q.len).map fun i => q.slots ((q.tail + i) % cap)

/-- Both indices name a cell. -/
structure Ok (q : Circular α cap) : Prop where
  head_lt : q.head < cap
  tail_lt : q.tail < cap

variable {q : Circular α cap}

@[simp] theorem length_contents (q : Circular α cap) : q.contents.length = q.len := by
  simp [contents]

theorem Ok.put (h : q.Ok) (x : α) : (q.put x).Ok :=
  ⟨Nat.mod_lt _ (by have := h.head_lt; omega), h.tail_lt⟩

theorem Ok.next (h : q.Ok) : q.next.Ok :=
  ⟨h.head_lt, Nat.mod_lt _ (by have := h.head_lt; omega)⟩

theorem Ok.len_eq (h : q.Ok) :
    q.len = if q.tail ≤ q.head then q.head - q.tail else q.head + cap - q.tail := by
  have h1 := h.head_lt
  have h2 := h.tail_lt
  unfold len
  split_ifs with hle
  · rw [show q.head + cap - q.tail = q.head - q.tail + cap by omega, Nat.add_mod_right,
      Nat.mod_eq_of_lt (by omega)]
  · rw [Nat.mod_eq_of_lt (by omega)]

theorem Ok.len_lt (h : q.Ok) : q.len < cap := Nat.mod_lt _ (by have := h.head_lt; omega)

theorem succ_eq {i : ℕ} (h : i < cap) : succ cap i = if i + 1 = cap then 0 else i + 1 := by
  unfold succ
  split_ifs with heq
  · rw [heq, Nat.mod_self]
  · rw [Nat.mod_eq_of_lt (by omega)]

theorem Ok.len_eq_zero (h : q.Ok) : q.len = 0 ↔ q.head = q.tail := by
  have h1 := h.head_lt
  have h2 := h.tail_lt
  rw [h.len_eq]
  split_ifs <;> omega

theorem Ok.contents_eq_nil (h : q.Ok) : q.contents = [] ↔ q.head = q.tail := by
  rw [← h.len_eq_zero, ← length_contents, length_eq_zero_iff]

theorem Ok.len_put (h : q.Ok) (x : α) (hfull : succ cap q.head ≠ q.tail) :
    (q.put x).len = q.len + 1 := by
  have h1 := h.head_lt
  have h2 := h.tail_lt
  rw [succ_eq h1] at hfull
  rw [(h.put x).len_eq, h.len_eq]
  show (if q.tail ≤ succ cap q.head then succ cap q.head - q.tail
    else succ cap q.head + cap - q.tail) = _
  rw [succ_eq h1]
  split_ifs at hfull ⊢ <;> omega

theorem Ok.head_eq (h : q.Ok) : (q.tail + q.len) % cap = q.head := by
  have h1 := h.head_lt
  have h2 := h.tail_lt
  rw [h.len_eq]
  split_ifs with hle
  · rw [Nat.add_sub_cancel' hle, Nat.mod_eq_of_lt h1]
  · rw [show q.tail + (q.head + cap - q.tail) = q.head + cap by omega, Nat.add_mod_right,
      Nat.mod_eq_of_lt h1]

/-- **What is queued goes to the end.** -/
theorem Ok.contents_put (h : q.Ok) (x : α) (hfull : succ cap q.head ≠ q.tail) :
    (q.put x).contents = q.contents ++ [x] := by
  have hlen := h.len_put x hfull
  have hlt := (h.put x).len_lt
  rw [contents, hlen, range_succ, map_append, map_singleton]
  congr 1
  · refine map_congr_left fun i hi => ?_
    have hi' : i < q.len := mem_range.1 hi
    have hne : (q.tail + i) % cap ≠ q.head := by
      rw [← h.head_eq]
      intro heq
      have hmod : i ≡ q.len [MOD cap] := Nat.ModEq.add_left_cancel' q.tail heq
      have := Nat.le_of_dvd (by omega) ((Nat.modEq_iff_dvd' hi'.le).1 hmod)
      omega
    exact update_of_ne hne x q.slots
  · show [update q.slots q.head x ((q.tail + q.len) % cap)] = [x]
    rw [h.head_eq, update_self]

theorem Ok.len_next (h : q.Ok) (hne : q.head ≠ q.tail) : q.next.len + 1 = q.len := by
  have h1 := h.head_lt
  have h2 := h.tail_lt
  rw [h.next.len_eq, h.len_eq]
  show (if succ cap q.tail ≤ q.head then q.head - succ cap q.tail
    else q.head + cap - succ cap q.tail) + 1 = _
  rw [succ_eq h2]
  split_ifs <;> omega

/-- **The oldest value comes first.** -/
theorem Ok.contents_cons (h : q.Ok) (hne : q.head ≠ q.tail) :
    q.contents = q.slots q.tail :: q.next.contents := by
  rw [contents, contents, ← h.len_next hne, range_succ_eq_map, map_cons, map_map]
  congr 1
  · rw [Nat.add_zero, Nat.mod_eq_of_lt h.tail_lt]
  · refine map_congr_left fun i _ => ?_
    show q.slots ((q.tail + (i + 1)) % cap) = q.slots ((succ cap q.tail + i) % cap)
    rw [succ, Nat.mod_add_mod, Nat.add_assoc, Nat.add_comm 1 i]

/-! ### While there is room, and while there are values -/

/-- Queue one value, if there is room. -/
def offer (q : Circular α cap) (x : α) : Circular α cap :=
  if succ cap q.head = q.tail then q else q.put x

/-- Queue the values of a list, up to the first that finds no room. -/
def fill : List α → Circular α cap → Circular α cap
  | [], q => q
  | x :: xs, q => if succ cap q.head = q.tail then q else fill xs (q.put x)

/-- Take up to `n` values out. -/
def drain : ℕ → Circular α cap → List α × Circular α cap
  | 0, q => ([], q)
  | n + 1, q =>
    if q.tail = q.head then ([], q) else (q.slots q.tail :: (drain n q.next).1, (drain n q.next).2)

/-- How many values there is room for. -/
def room (q : Circular α cap) : ℕ := cap - 1 - q.len

theorem Ok.full_iff (h : q.Ok) : succ cap q.head = q.tail ↔ q.room = 0 := by
  have h1 := h.head_lt
  have h2 := h.tail_lt
  rw [room, h.len_eq, succ_eq h1]
  split_ifs <;> omega

theorem Ok.room_put (h : q.Ok) (x : α) (hfull : succ cap q.head ≠ q.tail) :
    (q.put x).room + 1 = q.room := by
  have hlt := (h.put x).len_lt
  rw [room, room, h.len_put x hfull] at *
  omega

theorem Ok.offer (h : q.Ok) (x : α) : (q.offer x).Ok := by
  unfold Circular.offer
  split_ifs
  · exact h
  · exact h.put x

theorem Ok.contents_offer (h : q.Ok) (x : α) :
    (q.offer x).contents = q.contents ++ [x].take q.room := by
  unfold Circular.offer
  split_ifs with hfull
  · rw [h.full_iff.1 hfull, take_zero, append_nil]
  · have hroom := mt h.full_iff.2 hfull
    rw [h.contents_put x hfull, take_of_length_le (by rw [length_singleton]; omega)]

theorem Ok.fill (h : q.Ok) (xs : List α) : (fill xs q).Ok := by
  induction xs generalizing q with
  | nil => exact h
  | cons x xs ih =>
    unfold Circular.fill
    split_ifs
    · exact h
    · exact ih (h.put x)

/-- **As many values go to the end as there is room for.** -/
theorem Ok.contents_fill (h : q.Ok) (xs : List α) :
    (Circular.fill xs q).contents = q.contents ++ xs.take q.room := by
  induction xs generalizing q with
  | nil => simp [Circular.fill]
  | cons x xs ih =>
    unfold Circular.fill
    split_ifs with hfull
    · rw [h.full_iff.1 hfull, take_zero, append_nil]
    · rw [ih (h.put x), h.contents_put x hfull, ← h.room_put x hfull, take_succ_cons,
        append_assoc, singleton_append]

theorem Ok.drain (h : q.Ok) (n : ℕ) : (q.drain n).2.Ok := by
  induction n generalizing q with
  | zero => exact h
  | succ n ih =>
    unfold Circular.drain
    split_ifs
    · exact h
    · exact ih h.next

/-- **The oldest values come out, and the others stay.** -/
theorem Ok.drain_eq (h : q.Ok) (n : ℕ) :
    (q.drain n).1 = q.contents.take n ∧ (q.drain n).2.contents = q.contents.drop n := by
  induction n generalizing q with
  | zero => exact ⟨rfl, rfl⟩
  | succ n ih =>
    unfold Circular.drain
    split_ifs with hempty
    · rw [h.contents_eq_nil.2 hempty.symm]
      exact ⟨rfl, rfl⟩
    · obtain ⟨hout, hrest⟩ := ih h.next
      rw [h.contents_cons (Ne.symm hempty), take_succ_cons, drop_succ_cons]
      exact ⟨congrArg _ hout, hrest⟩

theorem room_eq (q : Circular α cap) : q.room = cap - 1 - q.contents.length := by
  rw [length_contents, room]

end Circular

end Ridux.Lib
