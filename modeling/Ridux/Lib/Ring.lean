import Mathlib.Data.Fin.VecNotation
import Mathlib.Data.Nat.ModEq
import Mathlib.Logic.Function.Basic
import Mathlib.Tactic.Common

/-!
# Rings with free-running indices

A ring of `2 ^ k` cells whose two indices are 32-bit counters that are never reduced: they run on
and wrap around at `2 ^ 32`, and a cell is found from the low `k` bits of an index.

* `Ring.put`, `Ring.push`, `Ring.pop`: one value in, a list in, a number of values out;
* `Ring.contents`: the list that the ring stores, oldest value first;
* `Ring.contents_push`, `Ring.pop_fst`, `Ring.contents_pop`: the ring is a queue of at most
  `2 ^ k` values, whatever the counters are.
-/

namespace Ridux.Lib

open Function List

variable {α : Type*} {k : ℕ}

/-- A ring of `2 ^ k` cells. -/
structure Ring (α : Type*) (k : ℕ) where
  buf : ℕ → α
  head : BitVec 32
  tail : BitVec 32

namespace Ring

/-- The cell of an index. -/
def cell (k : ℕ) (p : BitVec 32) : ℕ := p.toNat % 2 ^ k

/-- How many values are stored. -/
def used (r : Ring α k) : ℕ := (r.head - r.tail).toNat

/-- Store one value. -/
def put (r : Ring α k) (x : α) : Ring α k :=
  { r with buf := update r.buf (cell k r.head) x, head := r.head + 1 }

/-- Store the values of a list, in order. -/
def push (r : Ring α k) (xs : List α) : Ring α k := xs.foldl put r

/-- Skip the oldest value. -/
def next (r : Ring α k) : Ring α k := { r with tail := r.tail + 1 }

/-- Take `n` values out. -/
def pop : ℕ → Ring α k → List α × Ring α k
  | 0, r => ([], r)
  | n + 1, r => (r.buf (cell k r.tail) :: (pop n r.next).1, (pop n r.next).2)

/-- The stored values, oldest first. -/
def contents (r : Ring α k) : List α :=
  (List.range r.used).map fun i => r.buf (cell k (r.tail + BitVec.ofNat 32 i))

/-! ### Cells -/

theorem cell_add (hk : k ≤ 32) (p : BitVec 32) (i : ℕ) :
    cell k (p + BitVec.ofNat 32 i) = (p.toNat + i) % 2 ^ k := by
  have hdvd : 2 ^ k ∣ 2 ^ 32 := Nat.pow_dvd_pow 2 hk
  rw [cell, BitVec.toNat_add, BitVec.toNat_ofNat, Nat.add_mod_mod, Nat.mod_mod_of_dvd _ hdvd]

theorem cell_add_ne (hk : k ≤ 32) (p : BitVec 32) {i j : ℕ} (hij : i < j) (hj : j < i + 2 ^ k) :
    cell k (p + BitVec.ofNat 32 i) ≠ cell k (p + BitVec.ofNat 32 j) := by
  rw [cell_add hk, cell_add hk]
  intro heq
  have hmod : i ≡ j [MOD 2 ^ k] := Nat.ModEq.add_left_cancel' p.toNat heq
  have hdvd := (Nat.modEq_iff_dvd' hij.le).1 hmod
  have := Nat.le_of_dvd (by omega) hdvd
  omega

theorem head_eq (r : Ring α k) : r.head = r.tail + BitVec.ofNat 32 r.used := by
  rw [used, BitVec.ofNat_toNat, BitVec.setWidth_eq]
  bv_omega

@[simp] theorem length_contents (r : Ring α k) : r.contents.length = r.used := by simp [contents]

variable {r : Ring α k}

theorem contents_eq_nil (h : r.used = 0) : r.contents = [] :=
  eq_nil_of_length_eq_zero (by rw [length_contents, h])

/-! ### Storing -/

@[simp] theorem put_tail (r : Ring α k) (x : α) : (r.put x).tail = r.tail := rfl

theorem used_put (x : α) (h : r.used + 1 < 2 ^ 32) : (r.put x).used = r.used + 1 := by
  have hsub : (r.put x).head - (r.put x).tail = (r.head - r.tail) + 1 := by
    show r.head + 1 - r.tail = r.head - r.tail + 1
    bv_omega
  rw [used, hsub, BitVec.toNat_add]
  exact Nat.mod_eq_of_lt h

theorem two_pow_lt (hk : k < 32) : 2 ^ k < 2 ^ 32 := Nat.pow_lt_pow_right (by omega) hk

theorem contents_put (hk : k < 32) (x : α) (h : r.used < 2 ^ k) :
    (r.put x).contents = r.contents ++ [x] := by
  have hlt := two_pow_lt hk
  rw [contents, used_put x (by omega), range_succ, map_append, map_singleton]
  congr 1
  · refine map_congr_left fun i hi => ?_
    have hi' : i < r.used := mem_range.1 hi
    have hne : cell k (r.tail + BitVec.ofNat 32 i) ≠ cell k r.head := by
      rw [head_eq r]
      exact cell_add_ne hk.le r.tail hi' (by omega)
    show update r.buf (cell k r.head) x _ = _
    rw [put_tail, update_of_ne hne]
  · show [update r.buf (cell k r.head) x _] = [x]
    rw [put_tail, ← head_eq r, update_self]

theorem used_push (hk : k < 32) (xs : List α) :
    ∀ r : Ring α k, r.used + xs.length ≤ 2 ^ k → (r.push xs).used = r.used + xs.length := by
  have hlt := two_pow_lt hk
  induction xs with
  | nil => exact fun r _ => rfl
  | cons x xs ih =>
    intro r h
    rw [length_cons] at h ⊢
    have hput : (r.put x).used = r.used + 1 := used_put x (by omega)
    have := ih (r.put x) (by omega)
    rw [push, foldl_cons, ← push, this, hput]
    omega

/-- **What is stored goes to the end of the queue.** -/
theorem contents_push (hk : k < 32) (xs : List α) :
    ∀ r : Ring α k, r.used + xs.length ≤ 2 ^ k → (r.push xs).contents = r.contents ++ xs := by
  have hlt := two_pow_lt hk
  induction xs with
  | nil => exact fun r _ => (append_nil _).symm
  | cons x xs ih =>
    intro r h
    rw [length_cons] at h
    have hput : (r.put x).used = r.used + 1 := used_put x (by omega)
    rw [push, foldl_cons, ← push, ih (r.put x) (by omega), contents_put hk x (by omega),
      append_assoc, singleton_append]

@[simp] theorem push_tail (xs : List α) : ∀ r : Ring α k, (r.push xs).tail = r.tail := by
  induction xs with
  | nil => exact fun r => rfl
  | cons x xs ih => exact fun r => ih (r.put x)

theorem push_head (xs : List α) :
    ∀ r : Ring α k, (r.push xs).head = r.head + BitVec.ofNat 32 xs.length := by
  induction xs with
  | nil => intro r; simp [push]
  | cons x xs ih =>
    intro r
    have := ih (r.put x)
    rw [push, foldl_cons, ← push, this, length_cons]
    show r.head + 1 + BitVec.ofNat 32 xs.length = r.head + BitVec.ofNat 32 (xs.length + 1)
    rw [BitVec.ofNat_add, BitVec.add_assoc, BitVec.add_comm (BitVec.ofNat 32 xs.length)]
    rfl

/-! ### Taking out -/

theorem pop_succ (n : ℕ) (r : Ring α k) :
    pop (n + 1) r = (r.buf (cell k r.tail) :: (pop n r.next).1, (pop n r.next).2) := rfl

theorem used_next (h : 0 < r.used) : r.next.used = r.used - 1 := by
  have hsub : r.head - (r.tail + 1) = r.head - r.tail - 1 := by bv_omega
  have hpos : 0 < (r.head - r.tail).toNat := h
  show (r.head - (r.tail + 1)).toNat = _
  rw [hsub, used]
  bv_omega

theorem contents_cons (h : 0 < r.used) : r.contents = r.buf (cell k r.tail) :: r.next.contents := by
  obtain ⟨n, hn⟩ := Nat.exists_eq_succ_of_ne_zero (Nat.pos_iff_ne_zero.1 h)
  rw [contents, contents, used_next h, hn, Nat.succ_sub_one, range_succ_eq_map,
    map_cons, map_map]
  congr 1
  · simp
  · refine map_congr_left fun i _ => ?_
    show r.buf _ = r.buf (cell k (r.tail + 1 + BitVec.ofNat 32 i))
    rw [Nat.succ_eq_add_one, BitVec.ofNat_add, BitVec.add_comm (BitVec.ofNat 32 i),
      ← BitVec.add_assoc]
    rfl

theorem used_pop (n : ℕ) : ∀ r : Ring α k, n ≤ r.used → (pop n r).2.used = r.used - n := by
  induction n with
  | zero => exact fun r _ => rfl
  | succ n ih =>
    intro r h
    have hnext := used_next (r := r) (by omega)
    rw [pop_succ, ih r.next (by omega), hnext]
    omega

/-- **The oldest values come out, in order.** -/
theorem pop_fst (n : ℕ) : ∀ r : Ring α k, n ≤ r.used → (pop n r).1 = r.contents.take n := by
  induction n with
  | zero => exact fun r _ => rfl
  | succ n ih =>
    intro r h
    have hnext := used_next (r := r) (by omega)
    rw [pop_succ, ih r.next (by omega), contents_cons (r := r) (by omega), take_succ_cons]

/-- **The others stay, in order.** -/
theorem contents_pop (n : ℕ) :
    ∀ r : Ring α k, n ≤ r.used → (pop n r).2.contents = r.contents.drop n := by
  induction n with
  | zero => exact fun r _ => rfl
  | succ n ih =>
    intro r h
    have hnext := used_next (r := r) (by omega)
    rw [pop_succ, ih r.next (by omega), contents_cons (r := r) (by omega), drop_succ_cons]

@[simp] theorem pop_head (n : ℕ) : ∀ r : Ring α k, (pop n r).2.head = r.head := by
  induction n with
  | zero => exact fun r => rfl
  | succ n ih => exact fun r => ih _

theorem pop_tail (n : ℕ) :
    ∀ r : Ring α k, (pop n r).2.tail = r.tail + BitVec.ofNat 32 n := by
  induction n with
  | zero => intro r; simp [pop]
  | succ n ih =>
    intro r
    rw [pop_succ, ih r.next, BitVec.ofNat_add, BitVec.add_comm (BitVec.ofNat 32 n),
      ← BitVec.add_assoc]
    rfl

theorem pop_snd (n : ℕ) :
    ∀ r : Ring α k, (pop n r).2 = { r with tail := r.tail + BitVec.ofNat 32 n } := by
  induction n with
  | zero => intro r; simp [pop]
  | succ n ih =>
    intro r
    rw [pop_succ, ih r.next, BitVec.ofNat_add, BitVec.add_comm (BitVec.ofNat 32 n),
      ← BitVec.add_assoc]
    rfl

theorem contents_skip {n : ℕ} (h : n ≤ r.used) :
    ({ r with tail := r.tail + BitVec.ofNat 32 n } : Ring α k).contents = r.contents.drop n := by
  rw [← pop_snd, contents_pop n r h]

@[simp] theorem length_pop (n : ℕ) : ∀ r : Ring α k, (pop n r).1.length = n := by
  induction n with
  | zero => exact fun r => rfl
  | succ n ih => intro r; rw [pop_succ, length_cons, ih]

end Ring

end Ridux.Lib
