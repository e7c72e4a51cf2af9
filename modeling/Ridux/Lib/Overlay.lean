import Mathlib.Data.List.TakeDrop
import Ridux.Lib.Buffer

/-!
# Blocks laid over a buffer

* `pokes`: blocks written over a buffer, one after another;
* `cover`: what the last block that lies over a cell has there;
* `pokes_eq_some`: blocks that lie in the buffer can be written, and a cell then holds what covers it, or
  what it held.
-/

namespace Ridux.Lib

open List

variable {α : Type*}

/-- Write blocks over a buffer. -/
def pokes (blocks : List (ℕ × List α)) (buf : List α) : Option (List α) :=
  blocks.foldlM (fun buf b => poke buf b.1 b.2) buf

/-- What a block has over a cell. -/
def blockAt (b : ℕ × List α) (a : ℕ) : Option α := if b.1 ≤ a then b.2[a - b.1]? else none

/-- What the last block over a cell has there. -/
def cover : List (ℕ × List α) → ℕ → Option α
  | [], _ => none
  | b :: blocks, a => (cover blocks a).or (blockAt b a)

theorem poke_eq_some (buf : List α) (i : ℕ) (xs : List α) (h : i + xs.length ≤ buf.length) :
    ∃ buf', poke buf i xs = some buf' ∧ buf'.length = buf.length ∧
      ∀ a, buf'[a]? = (blockAt (i, xs) a).or buf[a]? := by
  refine ⟨_, poke_of_le h, by simp; omega, fun a => ?_⟩
  unfold blockAt
  dsimp only
  rw [append_assoc]
  by_cases hlow : a < i
  · rw [if_neg (by omega), List.getElem?_append_left (by rw [length_take]; omega),
      List.getElem?_take_of_lt hlow]
    rfl
  · have hpre : (buf.take i).length = i := by
      rw [length_take]
      omega
    rw [if_pos (by omega), List.getElem?_append_right (by omega), hpre]
    by_cases hin : a - i < xs.length
    · rw [List.getElem?_append_left hin, List.getElem?_eq_getElem hin]
      rfl
    · have hout : xs[a - i]? = none := List.getElem?_eq_none (by omega)
      rw [List.getElem?_append_right (by omega), hout, List.getElem?_drop,
        show i + xs.length + (a - i - xs.length) = a by omega]
      rfl

theorem overwrite_getElem? (buf : List α) (i : ℕ) (xs : List α) (h : i + xs.length ≤ buf.length) :
    (overwrite buf i xs).length = buf.length ∧
      ∀ a, (overwrite buf i xs)[a]? = (blockAt (i, xs) a).or buf[a]? := by
  obtain ⟨buf', hbuf, hcells⟩ := poke_eq_some buf i xs h
  obtain rfl := Option.some.inj ((poke_of_le h).symm.trans hbuf)
  exact hcells

/-- **Blocks that lie in the buffer** can be written over it, one after another. -/
theorem pokes_eq_some (blocks : List (ℕ × List α)) (buf : List α)
    (h : ∀ b ∈ blocks, b.1 + b.2.length ≤ buf.length) :
    ∃ buf', pokes blocks buf = some buf' ∧ buf'.length = buf.length ∧ ∀ a, buf'[a]? = (cover blocks a).or buf[a]? := by
  induction blocks generalizing buf with
  | nil => exact ⟨buf, rfl, rfl, fun _ => rfl⟩
  | cons b blocks ih =>
    obtain ⟨hb, hblocks⟩ := forall_mem_cons.1 h
    obtain ⟨mid, hmid, hlen, hcell⟩ := poke_eq_some buf b.1 b.2 hb
    obtain ⟨buf', hbuf, hlen', hcell'⟩ := ih mid (by rwa [hlen])
    refine ⟨buf', ?_, hlen'.trans hlen, fun a => ?_⟩
    · rw [pokes, foldlM_cons, hmid]
      exact hbuf
    · rw [hcell', hcell, cover, Option.or_assoc]

end Ridux.Lib
