import Mathlib.Data.List.Find
import Mathlib.Data.List.Range
import Mathlib.Logic.Function.Basic
import Mathlib.Tactic.Common

/-!
# Tables of slots

A table of `n` slots stores a finite map: slot `i` is free or holds a key with its value.

* `firstSlot`: the first slot with a property, as a linear search finds it;
* `findEntry`, `freeSlot`: the first entry with a property, and the first free slot;
* `foldl_sweep`: a loop that replaces every slot with a property;
* `Keyed`: no key is in two slots;
* `toMap`: the map that the table stores, and how it changes with a slot.
-/

namespace Ridux.Lib

open Function List Option

/-- The first index below `n` that satisfies `p`. -/
def firstSlot (p : ℕ → Bool) (n : ℕ) : Option ℕ := (List.range' 0 n).find? p

theorem mem_slots {n i : ℕ} : i ∈ List.range' 0 n ↔ i < n := by simp

variable {p : ℕ → Bool}

theorem firstSlot_eq_some {n i : ℕ} (h : firstSlot p n = some i) : i < n ∧ p i = true :=
  ⟨mem_slots.1 (mem_of_find?_eq_some h), List.find?_some h⟩

theorem firstSlot_eq_none {n : ℕ} (h : firstSlot p n = none) : ∀ i < n, p i = false := by
  intro i hi
  simpa using List.find?_eq_none.1 h i (mem_slots.2 hi)

theorem firstSlot_eq_some_iff {n i : ℕ} :
    firstSlot p n = some i ↔ i < n ∧ p i = true ∧ ∀ k < i, p k = false := by
  rw [firstSlot, List.find?_range'_eq_some]
  simp only [Nat.zero_le, forall_const, Bool.not_eq_true', mem_slots]
  tauto

theorem firstSlot_congr {q : ℕ → Bool} {n : ℕ} (h : ∀ i < n, p i = q i) :
    firstSlot p n = firstSlot q n :=
  List.find?_congr fun i hi => h i (mem_slots.1 hi)

section Entries

variable {α : Type*} {t u : ℕ → Option α} {p : α → Prop} [DecidablePred p] {n i j : ℕ} {a b : α}

/-- The first entry with a property, and its slot. -/
def findEntry (t : ℕ → Option α) (p : α → Bool) (n : ℕ) : Option (ℕ × α) :=
  (firstSlot (fun i => (t i).any p) n).bind fun i => (t i).map fun a => (i, a)

/-- The first slot that is free. -/
def freeSlot (t : ℕ → Option α) (n : ℕ) : Option ℕ := firstSlot (fun i => (t i).isNone) n

theorem findEntry_eq_some (h : findEntry t (fun a => p a) n = some (i, a)) :
    i < n ∧ t i = some a ∧ p a := by
  obtain ⟨j, hj, hm⟩ := bind_eq_some_iff.1 h
  obtain ⟨b, hb, he⟩ := map_eq_some_iff.1 hm
  obtain ⟨rfl, rfl⟩ := Prod.mk.inj he
  obtain ⟨hlt, hp⟩ := firstSlot_eq_some hj
  refine ⟨hlt, hb, ?_⟩
  simpa [hb] using hp

theorem findEntry_eq_none :
    findEntry t (fun a => p a) n = none ↔ ∀ i < n, ∀ a, t i = some a → ¬p a := by
  constructor
  · intro h i hi a ha
    cases hf : firstSlot (fun i => (t i).any fun a => p a) n with
    | none => simpa [ha] using firstSlot_eq_none hf i hi
    | some j =>
      obtain ⟨-, hp⟩ := firstSlot_eq_some hf
      cases hj : t j with
      | none => simp [hj] at hp
      | some b => simp [findEntry, hf, hj] at h
  · intro h
    cases hf : findEntry t (fun a => p a) n with
    | none => rfl
    | some e =>
      obtain ⟨hi, ha, hp⟩ := findEntry_eq_some (i := e.1) (a := e.2) hf
      exact absurd hp (h e.1 hi e.2 ha)

theorem findEntry_eq (hi : i < n) (ha : t i = some a) (hp : p a)
    (honly : ∀ j < n, ∀ b, t j = some b → p b → j = i) :
    findEntry t (fun a => p a) n = some (i, a) := by
  cases hf : findEntry t (fun a => p a) n with
  | none => exact absurd hp (findEntry_eq_none.1 hf i hi a ha)
  | some e =>
    obtain ⟨hj, hb, hq⟩ := findEntry_eq_some (i := e.1) (a := e.2) hf
    have he : e.1 = i := honly e.1 hj e.2 hb hq
    rw [he, ha] at hb
    rw [some.inj hb, ← he]

theorem freeSlot_eq_some (h : freeSlot t n = some i) : i < n ∧ t i = none := by
  obtain ⟨hi, hn⟩ := firstSlot_eq_some h
  exact ⟨hi, by simpa using hn⟩

theorem freeSlot_eq_none (h : freeSlot t n = none) : ∀ i < n, t i ≠ none := by
  intro i hi hn
  simpa [hn] using firstSlot_eq_none h i hi

theorem filterMap_range_perm {f g : ℕ → Option α} (hi : i < n) (hf : f i = none) (hg : g i = some a)
    (hsame : ∀ j, j ≠ i → g j = f j) :
    ((List.range n).filterMap g).Perm (a :: (List.range n).filterMap f) := by
  have hsplit := perm_cons_erase (mem_range.2 hi)
  have hrest : ((List.range n).erase i).filterMap g = ((List.range n).erase i).filterMap f := by
    refine filterMap_congr fun j hj => hsame j ?_
    exact (nodup_range.mem_erase_iff.1 hj).1
  calc
    ((List.range n).filterMap g).Perm ((i :: (List.range n).erase i).filterMap g) := hsplit.filterMap g
    _ = a :: ((List.range n).erase i).filterMap f := by rw [filterMap_cons_some hg, hrest]
    _ = a :: (i :: (List.range n).erase i).filterMap f := by rw [filterMap_cons_none hf]
    List.Perm _ (a :: (List.range n).filterMap f) := (hsplit.symm.filterMap f).cons a

end Entries

theorem update_cases {κ α : Type*} [DecidableEq κ] {t : κ → Option α} {i j : κ} {o : Option α}
    {a : α} (h : update t j o i = some a) :
    (i = j ∧ o = some a) ∨ (i ≠ j ∧ t i = some a) := by
  by_cases hij : i = j
  · subst hij
    rw [update_self] at h
    exact .inl ⟨rfl, h⟩
  · rw [update_of_ne hij] at h
    exact .inr ⟨hij, h⟩

theorem update_some_cases {κ α : Type*} [DecidableEq κ] {t : κ → Option α} {i j : κ} {a b : α}
    (h : update t j (some b) i = some a) : (i = j ∧ a = b) ∨ (i ≠ j ∧ t i = some a) :=
  (update_cases h).imp_left fun h => ⟨h.1, (some.inj h.2).symm⟩

theorem ne_of_free {κ α : Type*} {t : κ → Option α} {i j : κ} {a : α} (hi : t i = some a)
    (hj : t j = none) : i ≠ j := by
  rintro rfl
  cases hi.symm.trans hj

theorem ne_of_entry {κ α : Type*} {t : κ → Option α} {i j : κ} {a b : α} (hi : t i = some a)
    (hj : t j = some b) (hab : a ≠ b) : i ≠ j := by
  rintro rfl
  exact hab (some.inj (hi.symm.trans hj))

theorem update_none_cases {κ α : Type*} [DecidableEq κ] {t : κ → Option α} {i j : κ} {a : α}
    (h : update t j none i = some a) : i ≠ j ∧ t i = some a :=
  (update_cases h).resolve_left fun h => by cases h.2

section

variable {κ α : Type*} [DecidableEq κ] {t : κ → Option α} {R : α → α → Prop} {i j : κ} {o : Option α}
  {a b b' : α}

theorem entry_update (hi : t i = some a) (hij : i ≠ j) : update t j o i = some a :=
  (update_of_ne hij _ _).trans hi

theorem entry_of_free (hi : t i = some a) (hj : t j = none) : update t j o i = some a :=
  entry_update hi (ne_of_free hi hj)

/-- An entry gives way to one that is like it. -/
theorem entry_back (hj : t j = some b) (hb : R b b') (hself : ∀ a, R a a)
    (h : update t j (some b') i = some a) : ∃ a', t i = some a' ∧ R a' a := by
  rcases update_some_cases h with ⟨rfl, rfl⟩ | ⟨-, hi⟩
  · exact ⟨b, hj, hb⟩
  · exact ⟨a, hi, hself a⟩

theorem apart_add (h : ∀ i k a c, t i = some a → t k = some c → R a c → i = k)
    (hsymm : ∀ a c, R a c → R c a) (hnew : ∀ i a, t i = some a → ¬R a b) :
    ∀ i k a c, update t j (some b) i = some a → update t j (some b) k = some c → R a c → i = k := by
  intro i k a c hi hk hac
  rcases update_some_cases hi with ⟨rfl, rfl⟩ | ⟨-, hi'⟩ <;>
    rcases update_some_cases hk with ⟨rfl, rfl⟩ | ⟨-, hk'⟩
  · rfl
  · exact absurd (hsymm _ _ hac) (hnew k c hk')
  · exact absurd hac (hnew i a hi')
  · exact h i k a c hi' hk' hac

theorem apart_replace (h : ∀ i k a c, t i = some a → t k = some c → R a c → i = k)
    (hj : t j = some b) (hl : ∀ a, R a b' → R a b) (hr : ∀ a, R b' a → R b a) :
    ∀ i k a c, update t j (some b') i = some a → update t j (some b') k = some c → R a c → i = k := by
  intro i k a c hi hk hac
  rcases update_some_cases hi with ⟨rfl, rfl⟩ | ⟨-, hi'⟩ <;>
    rcases update_some_cases hk with ⟨rfl, rfl⟩ | ⟨-, hk'⟩
  · rfl
  · exact h i k b c hj hk' (hr c hac)
  · exact h i k a b hi' hj (hl a hac)
  · exact h i k a c hi' hk' hac

theorem apart_erase (h : ∀ i k a c, t i = some a → t k = some c → R a c → i = k) :
    ∀ i k a c, update t j none i = some a → update t j none k = some c → R a c → i = k :=
  fun i k a c hi hk => h i k a c (update_none_cases hi).2 (update_none_cases hk).2

end

theorem foldl_same {σ τ α : Type*} {g : σ → τ} {f : σ → α → σ} (hf : ∀ s a, g (f s a) = g s)
    (l : List α) (s : σ) : g (l.foldl f s) = g s := by
  induction l generalizing s with
  | nil => rfl
  | cons a l ih => rw [foldl_cons, ih, hf]

theorem foldl_range_invariant {σ : Type*} {f : σ → ℕ → σ} {P : ℕ → σ → Prop} {n : ℕ} {s : σ}
    (h0 : P 0 s) (hstep : ∀ i < n, ∀ s, P i s → P (i + 1) (f s i)) :
    P n ((List.range n).foldl f s) := by
  induction n with
  | zero => exact h0
  | succ n ih =>
    rw [range_succ, foldl_append]
    exact hstep n n.lt_succ_self _ (ih fun i hi => hstep i (hi.trans n.lt_succ_self))

theorem foldl_sweep {σ α : Type*} (get : σ → ℕ → α) (p : α → Prop) [DecidablePred p] {v : α}
    {f : σ → ℕ → σ}
    (hf : ∀ s i, get (f s i) = if p (get s i) then update (get s) i v else get s)
    (k : ℕ) (s : σ) (i : ℕ) :
    get ((List.range k).foldl f s) i = if i < k ∧ p (get s i) then v else get s i := by
  induction k generalizing i with
  | zero => simp
  | succ k ih =>
    -- the loop has not come to slot `k` yet
    have hk : get ((List.range k).foldl f s) k = get s k := by simp [ih k]
    rw [range_succ, foldl_append, foldl_cons, foldl_nil, hf, hk]
    by_cases hik : i = k
    · subst hik
      by_cases hp : p (get s i)
      · simp [hp]
      · simp [hp, ih i]
    · have hlt : i < k + 1 ↔ i < k := by omega
      by_cases hp : p (get s k)
      · rw [if_pos hp, update_of_ne hik, ih i]
        simp only [hlt]
      · rw [if_neg hp, ih i]
        simp only [hlt]

variable {κ ν : Type*} {t : ℕ → Option (κ × ν)} {n i : ℕ} {k : κ} {v : ν}

/-- No key is in two slots. -/
def Keyed (t : ℕ → Option (κ × ν)) (n : ℕ) : Prop :=
  ∀ i < n, ∀ j < n, ∀ k v w, t i = some (k, v) → t j = some (k, w) → i = j

/-- No slot other than `i` has the key `k`. -/
def OnlyAt (t : ℕ → Option (κ × ν)) (n : ℕ) (k : κ) (i : ℕ) : Prop :=
  ∀ j < n, ∀ v, t j = some (k, v) → j = i

theorem Keyed.onlyAt (h : Keyed t n) (hi : i < n) (hk : t i = some (k, v)) : OnlyAt t n k i :=
  fun j hj w hw => h j hj i hi k w v hw hk

theorem Keyed.set (h : Keyed t n) (honly : OnlyAt t n k i) :
    Keyed (update t i (some (k, v))) n := by
  intro a ha b hb k' x y hx hy
  by_cases hai : a = i <;> by_cases hbi : b = i
  · rw [hai, hbi]
  · rw [hai, update_self] at hx
    rw [update_of_ne hbi] at hy
    obtain ⟨rfl, -⟩ := Prod.mk.inj (some.inj hx)
    exact absurd (honly b hb y hy) hbi
  · rw [hbi, update_self] at hy
    rw [update_of_ne hai] at hx
    obtain ⟨rfl, -⟩ := Prod.mk.inj (some.inj hy)
    exact absurd (honly a ha x hx) hai
  · rw [update_of_ne hai] at hx
    rw [update_of_ne hbi] at hy
    exact h a ha b hb k' x y hx hy

theorem Keyed.erase (h : Keyed t n) (i : ℕ) : Keyed (update t i none) n := by
  intro a ha b hb k' x y hx hy
  by_cases hai : a = i
  · rw [hai, update_self] at hx
    cases hx
  · by_cases hbi : b = i
    · rw [hbi, update_self] at hy
      cases hy
    · rw [update_of_ne hai] at hx
      rw [update_of_ne hbi] at hy
      exact h a ha b hb k' x y hx hy

section

variable [DecidableEq κ]

/-- The map that the table stores. -/
def toMap (t : ℕ → Option (κ × ν)) (n : ℕ) (k : κ) : Option ν :=
  (List.range' 0 n).findSome? fun i => (t i).bind fun e => if e.1 = k then some e.2 else none

theorem toMap_eq_some (h : Keyed t n) : toMap t n k = some v ↔ ∃ i < n, t i = some (k, v) := by
  constructor
  · intro hs
    obtain ⟨i, hi, hv⟩ := exists_of_findSome?_eq_some hs
    obtain ⟨⟨k', w⟩, he, hv⟩ := bind_eq_some_iff.1 hv
    split_ifs at hv with hk
    obtain rfl := some.inj hv
    exact ⟨i, mem_slots.1 hi, by rw [he, ← hk]⟩
  · rintro ⟨i, hi, he⟩
    cases hm : toMap t n k with
    | none =>
      have := List.findSome?_eq_none_iff.1 hm i (mem_slots.2 hi)
      simp [he] at this
    | some w =>
      obtain ⟨j, hj, hv⟩ := exists_of_findSome?_eq_some hm
      obtain ⟨⟨k', x⟩, hje, hv⟩ := bind_eq_some_iff.1 hv
      split_ifs at hv with hk
      obtain rfl := some.inj hv
      simp only at hk
      subst hk
      obtain rfl := h i hi j (mem_slots.1 hj) _ _ _ he hje
      rw [he] at hje
      obtain ⟨-, rfl⟩ := Prod.mk.inj (some.inj hje)
      rfl

theorem toMap_eq_none : toMap t n k = none ↔ ∀ i < n, ∀ v, t i ≠ some (k, v) := by
  constructor
  · intro hm i hi v he
    have := List.findSome?_eq_none_iff.1 hm i (mem_slots.2 hi)
    simp [he] at this
  · intro h
    rw [toMap, List.findSome?_eq_none_iff]
    intro i hi
    cases he : t i with
    | none => rfl
    | some e =>
      obtain ⟨k', v⟩ := e
      by_cases hk : k' = k
      · exact absurd (by rw [he, hk]) (h i (mem_slots.1 hi) v)
      · simp [hk]

theorem toMap_ext {u : ℕ → Option (κ × ν)} {m : κ → Option ν} (hu : Keyed u n)
    (h : ∀ k v, m k = some v ↔ ∃ i < n, u i = some (k, v)) : toMap u n = m := by
  funext k
  cases hm : m k with
  | some v => exact (toMap_eq_some hu).2 ((h k v).1 hm)
  | none =>
    rw [toMap_eq_none]
    intro i hi v he
    have := (h k v).2 ⟨i, hi, he⟩
    rw [hm] at this
    cases this

/-- Storing a value at slot `i` under a key that no other slot has, where the slot is free or
has that key already. -/
theorem toMap_set (h : Keyed t n) (hi : i < n) (honly : OnlyAt t n k i)
    (hslot : ∀ e, t i = some e → e.1 = k) :
    toMap (update t i (some (k, v))) n = update (toMap t n) k (some v) := by
  refine toMap_ext (h.set honly) fun k' w => ?_
  by_cases hk : k' = k
  · subst hk
    rw [update_self]
    constructor
    · intro hw
      obtain rfl := some.inj hw
      exact ⟨i, hi, update_self _ _ _⟩
    · rintro ⟨j, hj, he⟩
      by_cases hji : j = i
      · rw [hji, update_self] at he
        obtain ⟨-, rfl⟩ := Prod.mk.inj (some.inj he)
        rfl
      · rw [update_of_ne hji] at he
        exact absurd (honly j hj w he) hji
  · rw [update_of_ne hk, toMap_eq_some h]
    constructor
    · rintro ⟨j, hj, he⟩
      have hji : j ≠ i := by
        rintro rfl
        exact hk (hslot _ he)
      exact ⟨j, hj, by rw [update_of_ne hji, he]⟩
    · rintro ⟨j, hj, he⟩
      by_cases hji : j = i
      · rw [hji, update_self] at he
        obtain ⟨rfl, -⟩ := Prod.mk.inj (some.inj he)
        exact absurd rfl hk
      · rw [update_of_ne hji] at he
        exact ⟨j, hj, he⟩

theorem toMap_erase (h : Keyed t n) (hi : i < n) (hk : t i = some (k, v)) :
    toMap (update t i none) n = update (toMap t n) k none := by
  refine toMap_ext (h.erase i) fun k' w => ?_
  have honly := h.onlyAt hi hk
  by_cases hkk : k' = k
  · subst hkk
    rw [update_self]
    constructor
    · intro hw
      cases hw
    · rintro ⟨j, hj, he⟩
      by_cases hji : j = i
      · rw [hji, update_self] at he
        cases he
      · rw [update_of_ne hji] at he
        exact absurd (honly j hj w he) hji
  · rw [update_of_ne hkk, toMap_eq_some h]
    constructor
    · rintro ⟨j, hj, he⟩
      have hji : j ≠ i := by
        rintro rfl
        rw [hk] at he
        obtain ⟨rfl, -⟩ := Prod.mk.inj (some.inj he)
        exact hkk rfl
      exact ⟨j, hj, by rw [update_of_ne hji, he]⟩
    · rintro ⟨j, hj, he⟩
      by_cases hji : j = i
      · rw [hji, update_self] at he
        cases he
      · rw [update_of_ne hji] at he
        exact ⟨j, hj, he⟩

end

end Ridux.Lib
