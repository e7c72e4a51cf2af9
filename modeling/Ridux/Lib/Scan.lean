import Mathlib.Data.Finset.Interval
import Mathlib.Data.Finset.Card
import Mathlib.Order.Interval.Finset.Nat
import Mathlib.Data.List.Range
import Mathlib.Data.List.Rotate
import Mathlib.Tactic.Common

/-!
# Scanning a bitmap

Two searches over the indices `0, …, n − 1` of a bitmap, given by the predicate `p` of the
indices that are wanted:

* `firstFrom p start n`: the first wanted index, looked for cyclically from `start` (first
  `start, …, n − 1`, then `0, …, start − 1`);
* `scanRun p pages`: the first block of `pages` consecutive wanted indices, found in one pass
  that carries the start and the length of the current block;
* `filterMap_rotate_behind`: a pass around that stops at a hit and goes on behind it has the hits in turn.

The searches come with a soundness and a completeness statement.
-/

namespace Ridux.Lib

open Function List

/-- The first index satisfying `p`, looked for cyclically from `start` below `n`. -/
def firstFrom (p : ℕ → Bool) (start n : ℕ) : Option ℕ :=
  ((List.range' start (n - start)).find? p).or ((List.range start).find? p)

variable {p : ℕ → Bool} {n i idx : ℕ}

theorem firstFrom_eq_some {start : ℕ} (hs : start ≤ n) (h : firstFrom p start n = some i) :
    i < n ∧ p i = true := by
  rcases Option.or_eq_some_iff.1 h with h | ⟨-, h⟩
  · have hm := mem_of_find?_eq_some h
    rw [mem_range'_1] at hm
    exact ⟨by omega, List.find?_some h⟩
  · have hm := mem_of_find?_eq_some h
    rw [mem_range] at hm
    exact ⟨by omega, List.find?_some h⟩

theorem firstFrom_eq_none {start : ℕ} (h : firstFrom p start n = none) : ∀ i < n, p i = false := by
  obtain ⟨h1, h2⟩ := Option.or_eq_none_iff.1 h
  rw [List.find?_eq_none] at h1 h2
  intro i hi
  by_cases his : i < start
  · simpa using h2 i (mem_range.2 his)
  · simpa using h1 i (mem_range'_1.2 ⟨by omega, by omega⟩)

/-- One pass over the indices `l`: `start` and `run` are the start and the length of the block
of wanted indices that ends just before the head of `l`. -/
def scanRun (p : ℕ → Bool) (pages : ℕ) : List ℕ → (start run : ℕ) → Option ℕ
  | [], _, _ => none
  | idx :: rest, start, run =>
    if p idx then
      let start := if run = 0 then idx else start
      if run + 1 = pages then some start else scanRun p pages rest start (run + 1)
    else scanRun p pages rest start 0

/-- The block carried by the pass at index `idx` is wanted, and no shorter tail is lost. -/
structure Block (p : ℕ → Bool) (idx start run : ℕ) : Prop where
  le : run ≤ idx
  start_eq : run ≠ 0 → start + run = idx
  wanted : ∀ j, idx - run ≤ j → j < idx → p j = true

theorem Block.zero (p : ℕ → Bool) (idx start : ℕ) : Block p idx start 0 :=
  ⟨by omega, by simp, by intro j h1 h2; omega⟩

theorem Block.extend {start run : ℕ} (b : Block p idx start run) (hp : p idx = true) :
    Block p (idx + 1) (if run = 0 then idx else start) (run + 1) := by
  refine ⟨by have := b.le; omega, fun _ => ?_, fun j h1 h2 => ?_⟩
  · split_ifs with h
    · omega
    · have := b.start_eq h
      omega
  · rcases Nat.lt_succ_iff_lt_or_eq.1 h2 with h | rfl
    · exact b.wanted j (by omega) h
    · exact hp

variable {r k : ℕ} {bitmap : ℕ → Bool}

/-- **Soundness of the pass**: the block it returns lies below `n` and is wanted. -/
theorem scanRun_sound {pages start run : ℕ} (b : Block p idx start run)
    (h : scanRun p pages (List.range' idx k) start run = some r) :
    r + pages ≤ idx + k ∧ ∀ j, r ≤ j → j < r + pages → p j = true := by
  induction k generalizing idx start run with
  | zero => simp [scanRun] at h
  | succ k ih =>
    rw [List.range'_succ, scanRun] at h
    by_cases hp : p idx
    · rw [if_pos hp] at h
      by_cases hr : run + 1 = pages
      · rw [if_pos hr] at h
        have hb := b.extend hp
        have hst := hb.start_eq (by omega)
        obtain rfl := Option.some.inj h
        exact ⟨by omega, fun j h1 h2 => hb.wanted j (by omega) (by omega)⟩
      · rw [if_neg hr] at h
        obtain ⟨h1, h2⟩ := ih (b.extend hp) h
        exact ⟨by omega, h2⟩
    · rw [if_neg hp] at h
      obtain ⟨h1, h2⟩ := ih (Block.zero p (idx + 1) start) h
      exact ⟨by omega, h2⟩

/-- **Completeness of the pass**: when it fails there is no block of `pages` wanted indices,
neither among those still to come nor reaching back into the current block. -/
theorem scanRun_complete {pages start run : ℕ} (b : Block p idx start run) (hlt : run < pages)
    (h : scanRun p pages (List.range' idx k) start run = none) (hr : idx ≤ r + run)
    (hend : r + pages ≤ idx + k) : ∃ j, r ≤ j ∧ j < r + pages ∧ p j = false := by
  induction k generalizing idx start run with
  | zero => omega
  | succ k ih =>
    rw [List.range'_succ, scanRun] at h
    by_cases hp : p idx
    · rw [if_pos hp] at h
      by_cases hne : run + 1 = pages
      · rw [if_pos hne] at h
        cases h
      · rw [if_neg hne] at h
        exact ih (b.extend hp) (by omega) h (by omega) (by omega)
    · rw [if_neg hp] at h
      by_cases hle : r ≤ idx
      · by_cases hin : idx < r + pages
        · exact ⟨idx, hle, hin, by simpa using hp⟩
        · have := b.le
          omega
      · exact ih (Block.zero p (idx + 1) start) (by omega) h (by omega) (by omega)

theorem scanRun_eq_some {pages : ℕ} (h : scanRun p pages (List.range n) 0 0 = some r) :
    r + pages ≤ n ∧ ∀ j, r ≤ j → j < r + pages → p j = true := by
  rw [range_eq_range'] at h
  simpa using scanRun_sound (Block.zero p 0 0) h

theorem scanRun_eq_none {pages : ℕ} (hpos : 0 < pages) (h : scanRun p pages (List.range n) 0 0 = none)
    (hr : r + pages ≤ n) : ∃ j, r ≤ j ∧ j < r + pages ∧ p j = false := by
  rw [range_eq_range'] at h
  exact scanRun_complete (Block.zero p 0 0) hpos h (by omega) (by omega)

theorem map_add_mod (n s : ℕ) : ((List.range n).map fun k => (s + k) % n) = (List.range n).rotate s := by
  refine List.ext_getElem (by simp) fun k hk _ => ?_
  simp [getElem_rotate, add_comm]

theorem filterMap_rotate_behind {β : Type*} {f : ℕ → Option β} {slot : β → ℕ} {s m : ℕ} {ys : List β}
    {x : β} (hslot : ∀ i y, f i = some y → slot y = i)
    (h : (((List.range n).rotate s).filterMap f).take m = ys ++ [x]) :
    ((List.range n).rotate (slot x + 1)).filterMap f =
      (((List.range n).rotate s).filterMap f).rotate (ys ++ [x]).length := by
  obtain ⟨pre, a, post, hl, ha, hpre, hpost⟩ : ∃ pre a post, (List.range n).rotate s = (pre ++ [a]) ++ post ∧
      f a = some x ∧ (pre ++ [a]).filterMap f = ys ++ [x] ∧
      post.filterMap f = (((List.range n).rotate s).filterMap f).drop m := by
    have hall := take_append_drop m (((List.range n).rotate s).filterMap f)
    rw [h, append_assoc] at hall
    obtain ⟨l₁, l₂, hl, hys, hx⟩ := filterMap_eq_append_iff.1 hall.symm
    obtain ⟨a₁, a, a₂, rfl, hnone, ha, hdrop⟩ := filterMap_eq_cons_iff.1 hx
    refine ⟨l₁ ++ a₁, a, a₂, by simp [hl], ha, ?_, hdrop⟩
    rw [filterMap_append, filterMap_append, hys, filterMap_eq_nil_iff.2 hnone, append_nil]
    simp [ha]
  have hpos : (pre.length + s) % n = a := by
    have hget : ((List.range n).rotate s)[pre.length]? = some a := by simp [hl]
    have hlt : pre.length < n := by
      have hlen := congrArg length hl
      simp at hlen
      omega
    rw [getElem?_rotate (by simpa using hlt), length_range, getElem?_range (Nat.mod_lt _ (by omega))] at hget
    exact Option.some_inj.1 hget
  have hmod : (a + 1) % n = (s + (pre.length + 1)) % n := by
    rw [← hpos, Nat.mod_add_mod]
    congr 1
    omega
  have hnext : ((List.range n).rotate s).rotate (pre ++ [a]).length = post ++ (pre ++ [a]) := by
    rw [hl, rotate_append_length_eq]
  rw [rotate_rotate, length_append, length_singleton, ← rotate_mod, length_range, ← hmod] at hnext
  rw [hslot a x ha, ← rotate_mod, length_range, hnext, filterMap_append, hpost, hpre, ← rotate_append_length_eq,
    ← h, take_append_drop]

/-- The indices below `n` whose bit is clear. -/
def clearSet (bitmap : ℕ → Bool) (n : ℕ) : Finset ℕ :=
  (Finset.range n).filter fun i => bitmap i = false

@[simp] theorem mem_clearSet : i ∈ clearSet bitmap n ↔ i < n ∧ bitmap i = false := by
  simp [clearSet]

theorem clearSet_set (bitmap : ℕ → Bool) (n i : ℕ) :
    clearSet (update bitmap i true) n = (clearSet bitmap n).erase i := by
  ext j
  by_cases h : j = i <;> simp [update, h]

theorem clearSet_clear (hi : i < n) :
    clearSet (update bitmap i false) n = insert i (clearSet bitmap n) := by
  ext j
  by_cases h : j = i <;> simp [update, h, hi]

/-- Set every bit of the block `[a, a + k)`. -/
def setBlock (bitmap : ℕ → Bool) (a k : ℕ) : ℕ → Bool :=
  fun i => if a ≤ i ∧ i < a + k then true else bitmap i

theorem clearSet_setBlock (bitmap : ℕ → Bool) (n a k : ℕ) :
    clearSet (setBlock bitmap a k) n = clearSet bitmap n \ Finset.Ico a (a + k) := by
  ext j
  by_cases h : a ≤ j ∧ j < a + k <;> simp [setBlock, h]

end Ridux.Lib
