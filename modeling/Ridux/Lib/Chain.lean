import Mathlib.Data.List.Nodup
import Mathlib.Logic.Function.Basic
import Mathlib.Tactic.Common

/-!
# Lists threaded through a table

The cells of a table hang in lists, one list for each bucket: a head for the bucket, and in each cell
the index of the next one.

* `Chain`: the indices of a list, from its head on;
* `Buckets`: every bucket has its list, and the lists have no cell in common;
* `Buckets.cut`, `Buckets.push`: a cell is taken out behind `prev`, and put in front of a list.
-/

namespace Ridux.Lib

open Function List

/-- The indices from `head` on are those of the list. -/
def Chain (next : ℕ → Option ℕ) : List ℕ → Option ℕ → Prop
  | [], head => head = none
  | i :: l, head => head = some i ∧ Chain next l (next i)

namespace Chain

variable {next next' : ℕ → Option ℕ} {head : Option ℕ} {l pre post : List ℕ} {i : ℕ}

theorem head_eq (h : Chain next l head) : head = l.head? := by
  cases l with
  | nil => exact h
  | cons i l => exact h.1

theorem congr (h : Chain next l head) (hsame : ∀ i ∈ l, next' i = next i) :
    Chain next' l head := by
  induction l generalizing head with
  | nil => exact h
  | cons i l ih =>
    refine ⟨h.1, ?_⟩
    rw [hsame i (mem_cons_self ..)]
    exact ih h.2 fun j hj => hsame j (mem_cons_of_mem _ hj)

theorem next_eq (h : Chain next (pre ++ i :: post) head) : next i = post.head? := by
  induction pre generalizing head with
  | nil => exact head_eq h.2
  | cons j pre ih => exact ih h.2

theorem cut {p : ℕ} (h : Chain next (pre ++ p :: i :: post) head)
    (hnd : (pre ++ p :: i :: post).Nodup) :
    Chain (update next p (next i)) (pre ++ p :: post) head := by
  induction pre generalizing head with
  | nil =>
    obtain ⟨hp, -⟩ := nodup_cons.1 hnd
    refine ⟨h.1, ?_⟩
    rw [update_self]
    refine h.2.2.congr fun j hj => update_of_ne ?_ _ _
    rintro rfl
    exact hp (mem_cons_of_mem _ hj)
  | cons j pre ih =>
    obtain ⟨hj, hnd⟩ := nodup_cons.1 hnd
    refine ⟨h.1, ?_⟩
    have hne : j ≠ p := by
      rintro rfl
      exact hj (mem_append_right _ (mem_cons_self ..))
    rw [update_of_ne hne]
    exact ih h.2 hnd

end Chain

/-- Every bucket has its list. -/
structure Buckets (next heads : ℕ → Option ℕ) (L : ℕ → List ℕ) : Prop where
  chain : ∀ b, Chain next (L b) (heads b)
  nodup : ∀ b, (L b).Nodup
  disjoint : ∀ {b b' i}, i ∈ L b → i ∈ L b' → b = b'

/-- The links when `i` is taken out behind `prev`. -/
def cutNext (next : ℕ → Option ℕ) (prev : Option ℕ) (i : ℕ) : ℕ → Option ℕ :=
  match prev with
  | none => next
  | some p => update next p (next i)

/-- The heads when `i` is taken out behind `prev`. -/
def cutHead (next heads : ℕ → Option ℕ) (b : ℕ) (prev : Option ℕ) (i : ℕ) : ℕ → Option ℕ :=
  match prev with
  | none => update heads b (next i)
  | some _ => heads

namespace Buckets

variable {next next' heads : ℕ → Option ℕ} {L : ℕ → List ℕ} {b i : ℕ} {pre post : List ℕ}

theorem head_eq (h : Buckets next heads L) (b : ℕ) : heads b = (L b).head? := (h.chain b).head_eq

theorem next_eq (h : Buckets next heads L) (hb : L b = pre ++ i :: post) : next i = post.head? :=
  Chain.next_eq (hb ▸ h.chain b)

theorem congr (h : Buckets next heads L) (hsame : ∀ b, ∀ i ∈ L b, next' i = next i) :
    Buckets next' heads L :=
  ⟨fun b => (h.chain b).congr (hsame b), h.nodup, h.disjoint⟩

theorem mem_cut (h : Buckets next heads L) (hb : L b = pre ++ i :: post) {b' j : ℕ} :
    j ∈ update L b (pre ++ post) b' ↔ j ∈ L b' ∧ j ≠ i := by
  have hnd := h.nodup b
  rw [hb] at hnd
  have hi : i ∉ pre ++ post := by
    have := (nodup_middle.1 hnd)
    exact (nodup_cons.1 this).1
  have hib : i ∈ L b := by
    rw [hb]
    exact mem_append_right _ (mem_cons_self ..)
  by_cases hbb : b' = b
  · subst hbb
    rw [update_self, hb]
    have hne : j ∈ pre ++ post → j ≠ i := by
      rintro hj rfl
      exact hi hj
    simp only [mem_append, mem_cons] at hne ⊢
    tauto
  · rw [update_of_ne hbb]
    refine ⟨fun hj => ⟨hj, ?_⟩, fun hj => hj.1⟩
    rintro rfl
    exact hbb (h.disjoint hj hib)

/-- **A cell is taken out.** -/
theorem cut (h : Buckets next heads L) (hb : L b = pre ++ i :: post) {prev : Option ℕ}
    (hprev : prev = pre.getLast?) :
    Buckets (cutNext next prev i) (cutHead next heads b prev i)
      (update L b (pre ++ post)) := by
  have hnd := h.nodup b
  have hchain := h.chain b
  rw [hb] at hnd hchain
  have hmem : ∀ {b' j}, j ∈ update L b (pre ++ post) b' ↔ j ∈ L b' ∧ j ≠ i :=
    h.mem_cut hb
  refine ⟨fun b' => ?_, fun b' => ?_, fun hj hj' => h.disjoint (hmem.1 hj).1 (hmem.1 hj').1⟩
  · rcases eq_nil_or_concat pre with rfl | ⟨pre, p, rfl⟩
    · -- the head of the bucket moves on
      subst hprev
      by_cases hbb : b' = b
      · subst hbb
        rw [update_self]
        show Chain next post (update heads b' (next i) b')
        rw [update_self]
        exact hchain.2
      · rw [update_of_ne hbb]
        show Chain next (L b') (update heads b (next i) b')
        rw [update_of_ne hbb]
        exact h.chain b'
    · have hprev : prev = some p := by rw [hprev, concat_eq_append, List.getLast?_concat]
      subst hprev
      show Chain (update next p (next i)) _ (heads b')
      rw [concat_eq_append, append_assoc] at hchain hnd
      have hp : p ∈ L b := by
        rw [hb]
        simp
      by_cases hbb : b' = b
      · subst hbb
        rw [update_self, concat_eq_append, append_assoc]
        exact hchain.cut hnd
      · rw [update_of_ne hbb]
        refine (h.chain b').congr fun j hj => update_of_ne ?_ _ _
        rintro rfl
        exact hbb (h.disjoint hj hp)
  · by_cases hbb : b' = b
    · subst hbb
      rw [update_self]
      exact (nodup_cons.1 (nodup_middle.1 hnd)).2
    · rw [update_of_ne hbb]
      exact h.nodup b'

/-- **A cell that hangs in no list is put in front of one.** -/
theorem push (h : Buckets next heads L) (hi : ∀ b, i ∉ L b) (b : ℕ) :
    Buckets (update next i (heads b)) (update heads b (some i))
      (update L b (i :: L b)) := by
  have hold : ∀ b', Chain (update next i (heads b)) (L b') (heads b') := by
    refine fun b' => (h.chain b').congr fun j hj => update_of_ne ?_ _ _
    rintro rfl
    exact hi b' hj
  have hmem : ∀ {b' j}, j ∈ update L b (i :: L b) b' → j ∈ L b' ∨ j = i ∧ b' = b := by
    intro b' j hj
    by_cases hbb : b' = b
    · subst hbb
      rw [update_self] at hj
      rcases mem_cons.1 hj with rfl | hj
      · exact .inr ⟨rfl, rfl⟩
      · exact .inl hj
    · rw [update_of_ne hbb] at hj
      exact .inl hj
  refine ⟨fun b' => ?_, fun b' => ?_, fun {b₁ b₂ j} hj hj' => ?_⟩
  · by_cases hbb : b' = b
    · subst hbb
      rw [update_self, update_self]
      refine ⟨rfl, ?_⟩
      rw [update_self]
      exact hold b'
    · rw [update_of_ne hbb, update_of_ne hbb]
      exact hold b'
  · by_cases hbb : b' = b
    · subst hbb
      rw [update_self]
      exact nodup_cons.2 ⟨hi b', h.nodup b'⟩
    · rw [update_of_ne hbb]
      exact h.nodup b'
  · rcases hmem hj with h₁ | ⟨rfl, rfl⟩
    · rcases hmem hj' with h₂ | ⟨rfl, rfl⟩
      · exact h.disjoint h₁ h₂
      · exact absurd h₁ (hi b₁)
    · rcases hmem hj' with h₂ | ⟨-, rfl⟩
      · exact absurd h₂ (hi b₂)
      · rfl

end Buckets

/-! ### The first matches -/

end Ridux.Lib
