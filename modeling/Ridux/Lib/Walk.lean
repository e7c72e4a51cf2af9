import Mathlib.Logic.Function.Iterate
import Mathlib.Tactic.Common

/-!
# Loops that need not end, and walks along a list of links

A step of a loop gives a result, or the state for the next step; it gives nothing when it uses what is not
there.  A walk goes from cell to cell, and works on the items of each until it has enough.

* `Ends`: a loop comes to a result; `ends_iff`: by its first step, or by the rest;
* `Ends.unique`, `not_ends`: one result, and states that are not left;
* `feed`: items one after another, until there is a result or the state is full; `feed_append`;
* `items`: the items of the first cells; `items_getElem?`: where an item is among them;
* `walk_ends_iff`: a walk works on the items as on one list.
-/

namespace Ridux.Lib

open List Option

section Loop

variable {σ ρ : Type*} {step : σ → Option (ρ ⊕ σ)} {s : σ} {r r' : ρ} {m n : ℕ}

/-- At most so many steps of a loop. -/
def loop (step : σ → Option (ρ ⊕ σ)) : ℕ → σ → Option ρ
  | 0, _ => none
  | n + 1, s => (step s).bind (Sum.elim some (loop step n))

/-- The loop comes to a result. -/
def Ends (step : σ → Option (ρ ⊕ σ)) (s : σ) (r : ρ) : Prop := ∃ n, loop step n s = some r

theorem loop_succ : loop step (n + 1) s = (step s).bind (Sum.elim some (loop step n)) := rfl

theorem loop_mono (h : loop step n s = some r) (hle : n ≤ m) : loop step m s = some r := by
  induction n generalizing s m with
  | zero => cases h
  | succ n ih =>
    obtain ⟨m, rfl⟩ : ∃ k, m = k + 1 := ⟨m - 1, by omega⟩
    rw [loop_succ] at h ⊢
    obtain ⟨x, hx, hr⟩ := bind_eq_some_iff.1 h
    rw [hx, bind_some]
    cases x with
    | inl r' => exact hr
    | inr s' => exact ih hr (by omega)

theorem ends_iff : Ends step s r ↔
    step s = some (.inl r) ∨ ∃ s', step s = some (.inr s') ∧ Ends step s' r := by
  constructor
  · rintro ⟨n, h⟩
    cases n with
    | zero => cases h
    | succ n =>
      obtain ⟨x, hx, hr⟩ := bind_eq_some_iff.1 h
      cases x with
      | inl r' =>
        obtain rfl := some.inj hr
        exact .inl hx
      | inr s' => exact .inr ⟨s', hx, n, hr⟩
  · rintro (h | ⟨s', h, n, hn⟩)
    · exact ⟨1, by rw [loop_succ, h]; rfl⟩
    · exact ⟨n + 1, by rw [loop_succ, h]; exact hn⟩

theorem Ends.unique (h : Ends step s r) (h' : Ends step s r') : r = r' := by
  obtain ⟨n, hn⟩ := h
  obtain ⟨m, hm⟩ := h'
  have hmax := loop_mono hn (Nat.le_max_left n m)
  rw [loop_mono hm (Nat.le_max_right n m)] at hmax
  exact (some.inj hmax).symm

theorem not_ends (stay : σ → Prop) (hs : stay s) (h : ∀ s, stay s → ∃ s', step s = some (.inr s') ∧ stay s') :
    ¬ Ends step s r := by
  rintro ⟨n, hn⟩
  induction n generalizing s with
  | zero => cases hn
  | succ n ih =>
    obtain ⟨s', hstep, hs'⟩ := h s hs
    rw [loop_succ, hstep] at hn
    exact ih hs' hn

end Loop

section Walk

variable {β σ ρ : Type*} {full : σ → Prop} [DecidablePred full] {f : β → σ → Option (ρ ⊕ σ)}
  {l l' : List β} {s s' : σ} {r : ρ}

/-- Work on items one after another, until there is a result or the state is full. -/
def feed (full : σ → Prop) [DecidablePred full] (f : β → σ → Option (ρ ⊕ σ)) : List β → σ → Option (ρ ⊕ σ)
  | [], s => some (.inr s)
  | b :: l, s => if full s then some (.inr s) else (f b s).bind (Sum.elim (some ∘ .inl) (feed full f l))

@[simp] theorem feed_nil : feed full f [] s = some (.inr s) := rfl

theorem feed_of_full (h : full s) (l : List β) : feed full f l s = some (.inr s) := by
  cases l with
  | nil => rfl
  | cons b l => exact if_pos h

theorem feed_cons {b : β} (h : ¬ full s) :
    feed full f (b :: l) s = (f b s).bind (Sum.elim (some ∘ .inl) (feed full f l)) := if_neg h

theorem feed_append (l l' : List β) (s : σ) :
    feed full f (l ++ l') s = (feed full f l s).bind (Sum.elim (some ∘ .inl) (feed full f l')) := by
  induction l generalizing s with
  | nil => rfl
  | cons b l ih =>
    by_cases hfull : full s
    · rw [feed_of_full hfull, feed_of_full hfull, bind_some, Sum.elim_inr, feed_of_full hfull]
    · rw [cons_append, feed_cons hfull, feed_cons hfull, bind_assoc]
      congr 1
      funext x
      cases x with
      | inl r => rfl
      | inr s₁ => exact ih s₁

theorem feed_map {γ : Type*} (g : γ → β) (l : List γ) (s : σ) :
    feed full f (l.map g) s = feed full (fun c => f (g c)) l s := by
  induction l generalizing s with
  | nil => rfl
  | cons c l ih =>
    rw [map_cons, feed, feed]
    congr 3
    funext s'
    exact ih s'

theorem feed_congr {g : β → σ → Option (ρ ⊕ σ)} (h : ∀ b ∈ l, f b = g b) (s : σ) :
    feed full f l s = feed full g l s := by
  induction l generalizing s with
  | nil => rfl
  | cons b l ih =>
    obtain ⟨hb, hl⟩ := forall_mem_cons.1 h
    rw [feed, feed, hb]
    congr 3
    funext s'
    exact ih hl s'

variable {next : ℕ → ℕ} {last : ℕ → Prop} [DecidablePred last] {chunk : ℕ → List β} {fin : σ → ρ} {c : ℕ}

/-- One cell of a walk: its items, and the link to the next cell. -/
def walkStep (full : σ → Prop) [DecidablePred full] (f : β → σ → Option (ρ ⊕ σ)) (next : ℕ → ℕ)
    (last : ℕ → Prop) [DecidablePred last] (chunk : ℕ → List β) (fin : σ → ρ) (x : ℕ × σ) :
    Option (ρ ⊕ ℕ × σ) :=
  if last x.1 ∨ full x.2 then some (.inl (fin x.2))
  else (feed full f (chunk x.1) x.2).map (Sum.map id fun s => (next x.1, s))

/-- The items of the first `n` cells from `c` on, up to the end of the list of links. -/
def items (next : ℕ → ℕ) (last : ℕ → Prop) [DecidablePred last] (chunk : ℕ → List β) : ℕ → ℕ → List β
  | 0, _ => []
  | n + 1, c => if last c then [] else chunk c ++ items next last chunk n (next c)

section Uniform

variable {k n : ℕ} (hk : ∀ c, (chunk c).length = k)
include hk

theorem length_items (h : ∀ i < n, ¬ last (next^[i] c)) :
    (items next last chunk n c).length = n * k := by
  induction n generalizing c with
  | zero => simp [items]
  | succ n ih =>
    have hl : ¬ last c := h 0 n.succ_pos
    rw [items, if_neg hl, length_append, hk, ih fun i hi => h (i + 1) (by omega), Nat.succ_mul]
    omega

theorem length_items_le (n c : ℕ) : (items next last chunk n c).length ≤ n * k := by
  induction n generalizing c with
  | zero => simp [items]
  | succ n ih =>
    rw [items]
    split_ifs
    · exact Nat.zero_le _
    · have hrest := ih (next c)
      rw [length_append, hk, Nat.succ_mul]
      omega

theorem items_getElem? {i j : ℕ} (hj : j < k) : (items next last chunk n c)[i * k + j]? =
    if i < n ∧ ∀ m ≤ i, ¬ last (next^[m] c) then (chunk (next^[i] c))[j]? else none := by
  induction n generalizing c i with
  | zero => simp [items]
  | succ n ih =>
    rw [items]
    by_cases hl : last c
    · rw [if_pos hl, if_neg fun h => h.2 0 (Nat.zero_le i) hl]
      rfl
    rw [if_neg hl]
    cases i with
    | zero =>
      have hcell : 0 < n + 1 ∧ ∀ m ≤ 0, ¬ last (next^[m] c) :=
        ⟨n.succ_pos, fun m hm => by rwa [Nat.le_zero.1 hm]⟩
      rw [if_pos hcell, Nat.zero_mul, Nat.zero_add, List.getElem?_append_left (by rw [hk]; exact hj)]
      rfl
    | succ i =>
      have hpast : (i + 1) * k + j = (chunk c).length + (i * k + j) := by
        rw [hk, Nat.succ_mul]
        omega
      rw [hpast, List.getElem?_append_right (Nat.le_add_right ..), Nat.add_sub_cancel_left, ih]
      refine if_congr ?_ rfl rfl
      refine and_congr (by omega) ⟨fun h m hm => ?_, fun h m hm => h (m + 1) (by omega)⟩
      cases m with
      | zero => exact hl
      | succ m => exact h m (by omega)

end Uniform

/-- **A walk** ends exactly when the items of some first cells give a result, fill the state, or are all that
there are; and it ends as they say. -/
theorem walk_ends_iff : Ends (walkStep full f next last chunk fin) (c, s) r ↔ ∃ n,
    feed full f (items next last chunk n c) s = some (.inl r) ∨
      ∃ s', feed full f (items next last chunk n c) s = some (.inr s') ∧ r = fin s' ∧
        (full s' ∨ ∃ i ≤ n, last (next^[i] c)) := by
  constructor
  · rintro ⟨n, hn⟩
    induction n generalizing c s with
    | zero => cases hn
    | succ n ih =>
      rw [loop_succ] at hn
      by_cases hend : last c ∨ full s
      · rw [walkStep, if_pos hend] at hn
        obtain rfl := some.inj hn
        exact ⟨0, .inr ⟨s, rfl, rfl, hend.elim (fun h => .inr ⟨0, Nat.le_refl 0, h⟩) .inl⟩⟩
      · rw [walkStep, if_neg hend] at hn
        obtain ⟨x, hx, hr⟩ := bind_eq_some_iff.1 hn
        obtain ⟨y, hy, rfl⟩ := map_eq_some_iff.1 hx
        have hlast : ¬ last c := fun h => hend (.inl h)
        cases y with
        | inl r' =>
          obtain rfl := some.inj hr
          exact ⟨1, .inl (by rw [items, if_neg hlast, feed_append, hy]; rfl)⟩
        | inr s₁ =>
          obtain ⟨m, hm⟩ := ih hr
          have hitems : feed full f (items next last chunk (m + 1) c) s =
              feed full f (items next last chunk m (next c)) s₁ := by
            rw [items, if_neg hlast, feed_append, hy]
            rfl
          refine ⟨m + 1, ?_⟩
          rw [hitems]
          refine hm.imp_right ?_
          rintro ⟨s', hs', hfin, hstop⟩
          refine ⟨s', hs', hfin, hstop.imp_right ?_⟩
          rintro ⟨i, hi, hl⟩
          exact ⟨i + 1, by omega, hl⟩
  · rintro ⟨n, hn⟩
    induction n generalizing c s with
    | zero =>
      rcases hn with hn | ⟨s', hn, rfl, hstop⟩
      · cases hn
      · obtain rfl := Sum.inr.inj (some.inj hn)
        refine ends_iff.2 (.inl (if_pos ?_))
        rcases hstop with hfull | ⟨i, hi, hl⟩
        · exact .inr hfull
        · obtain rfl := Nat.le_zero.1 hi
          exact .inl hl
    | succ n ih =>
      by_cases hend : last c ∨ full s
      · have hstay : feed full f (items next last chunk (n + 1) c) s = some (.inr s) := by
          rcases hend with hl | hfull
          · rw [items, if_pos hl, feed_nil]
          · exact feed_of_full hfull _
        rw [hstay] at hn
        rcases hn with hn | ⟨s', hn, rfl, -⟩
        · cases hn
        · obtain rfl := Sum.inr.inj (some.inj hn)
          exact ends_iff.2 (.inl (if_pos hend))
      · have hlast : ¬ last c := fun h => hend (.inl h)
        rw [items, if_neg hlast, feed_append] at hn
        have hstep : walkStep full f next last chunk fin (c, s) =
            (feed full f (chunk c) s).map (Sum.map id fun s => (next c, s)) := if_neg hend
        cases hchunk : feed full f (chunk c) s with
        | none => simp [hchunk] at hn
        | some y =>
          rw [hchunk] at hn hstep
          cases y with
          | inl r' =>
            rcases hn with hn | ⟨s', hn, -⟩
            · obtain rfl := Sum.inl.inj (some.inj hn)
              exact ends_iff.2 (.inl hstep)
            · cases hn
          | inr s₁ =>
            refine ends_iff.2 (.inr ⟨_, hstep, ih ?_⟩)
            refine hn.imp_right ?_
            rintro ⟨s', hs', hfin, hstop⟩
            refine ⟨s', hs', hfin, hstop.imp_right ?_⟩
            rintro ⟨i, hi, hl⟩
            cases i with
            | zero => exact absurd hl hlast
            | succ i => exact ⟨i, by omega, hl⟩

end Walk

end Ridux.Lib
