import Mathlib.Data.Set.Finite.Basic
import Mathlib.Logic.Relation
import Mathlib.Order.WellFounded
import Mathlib.Order.RelClasses
import Mathlib.Tactic.Common

/-!
# Searching a graph

A search through a graph that may have cycles.  `kids` are the edges of an inner node, in the order in
which they are tried; a node without kids is a leaf.  An edge to a leaf shows when `hit` says so; an edge
to an inner node shows when it lets things `pass` and an edge of that node shows.

* `anyOf`: the edges in order, until the first one that shows;
* `search`: whether an edge shows, with so much fuel;
* `Shows`: an edge shows, said of the graph;
* `Visits`: the search goes from one node on to another;
* `halts_iff`: the search ends exactly when it comes to no cycle.
-/

namespace Ridux.Lib

open List Option

/-! ### Chains of a relation -/

section Cycles

variable {α : Type*} {r : α → α → Prop} {s : Set α} {a : α}

/-- From `a`, the relation leads to a cycle. -/
def LeadsToCycle (r : α → α → Prop) (a : α) : Prop :=
  ∃ b, Relation.ReflTransGen r a b ∧ Relation.TransGen r b b

theorem not_transGen_self (h : Acc (flip r) a) : ¬ Relation.TransGen r a a := by
  have hacc := h.transGen
  induction hacc with
  | intro a _ ih =>
    intro haa
    exact ih a (Relation.transGen_swap.2 haa) h haa

theorem acc_of_reached {b : α} (h : Acc (flip r) a) (hab : Relation.ReflTransGen r a b) :
    Acc (flip r) b := by
  induction hab with
  | refl => exact h
  | tail _ hbc ih => exact ih.inv hbc

theorem not_leadsToCycle (h : Acc (flip r) a) : ¬ LeadsToCycle r a := by
  rintro ⟨b, hab, hbb⟩
  exact not_transGen_self (acc_of_reached h hab) hbb

theorem acc_of_no_cycle (hs : s.Finite) (hr : ∀ a b, r a b → a ∈ s) (h : ¬ LeadsToCycle r a) :
    Acc (flip r) a := by
  let t := {b : α // b ∈ s ∧ Relation.ReflTransGen r a b}
  have hfinite : {b | b ∈ s ∧ Relation.ReflTransGen r a b}.Finite := hs.subset fun b hb => hb.1
  have : Finite t := hfinite.to_subtype
  let rel : t → t → Prop := fun x y => Relation.TransGen r y.1 x.1
  have : IsTrans t rel := ⟨fun x y z hxy hyz => hyz.trans hxy⟩
  have : Std.Irrefl rel := ⟨fun x hx => h ⟨x.1, x.2.2, hx⟩⟩
  have hwf : WellFounded rel := Finite.wellFounded_of_trans_of_irrefl rel
  have hinner : ∀ x : t, Acc (flip r) x.1 := by
    intro x
    induction x using hwf.induction with
    | _ x ih =>
      refine ⟨x.1, fun y hxy => ?_⟩
      by_cases hy : y ∈ s
      · exact ih ⟨y, hy, x.2.2.tail hxy⟩ (.single hxy)
      · exact ⟨y, fun z hyz => absurd (hr y z hyz) hy⟩
  by_cases ha : a ∈ s
  · exact hinner ⟨a, ha, .refl⟩
  · exact ⟨a, fun z haz => absurd (hr a z haz) ha⟩

theorem acc_iff_no_cycle (hs : s.Finite) (hr : ∀ a b, r a b → a ∈ s) (a : α) :
    Acc (flip r) a ↔ ¬ LeadsToCycle r a :=
  ⟨not_leadsToCycle, acc_of_no_cycle hs hr⟩

end Cycles

/-! ### The search -/

section Search

variable {ν ε : Type*}

/-- The edges in order, until the first one that shows. -/
def anyOf (found : ν × ε → Option Bool) : List (ν × ε) → Option Bool
  | [] => some false
  | x :: xs => (found x).bind fun b => if b then some true else anyOf found xs

variable (kids : ν → Option (List (ν × ε))) (hit : ν → ε → Bool) (pass : ε → Bool)

/-- Does the edge show? -/
def search : ℕ → ν × ε → Option Bool
  | 0, _ => none
  | k + 1, x =>
    match kids x.1 with
    | none => some (hit x.1 x.2)
    | some xs => (anyOf (search k) xs).map fun b => b && pass x.2

/-- An edge shows. -/
inductive Shows : ν × ε → Prop
  | leaf {a : ν} {e : ε} : kids a = none → hit a e = true → Shows (a, e)
  | node {a : ν} {e : ε} {xs : List (ν × ε)} {x : ν × ε} :
    kids a = some xs → x ∈ xs → Shows x → pass e = true → Shows (a, e)

/-- The search of a node goes on to another node: no edge before shows. -/
def Visits (a b : ν) : Prop :=
  ∃ pre e post, kids a = some (pre ++ (b, e) :: post) ∧ ∀ y ∈ pre, ¬ Shows kids hit pass y

variable {kids hit pass} {k : ℕ} {x : ν × ε} {xs pre : List (ν × ε)} {b : Bool}

theorem anyOf_append {found : ν × ε → Option Bool} (hpre : ∀ y ∈ pre, found y = some false) :
    anyOf found (pre ++ xs) = anyOf found xs := by
  induction pre with
  | nil => rfl
  | cons y pre ih =>
    have hy := hpre y mem_cons_self
    rw [cons_append, anyOf, hy, bind_some, if_neg Bool.false_ne_true]
    exact ih fun z hz => hpre z (mem_cons_of_mem _ hz)

theorem anyOf_eq_true {found : ν × ε → Option Bool} (h : anyOf found xs = some true) :
    ∃ x ∈ xs, found x = some true := by
  induction xs with
  | nil => cases h
  | cons x xs ih =>
    obtain ⟨b, hb, h⟩ := bind_eq_some_iff.1 h
    cases b with
    | true => exact ⟨x, mem_cons_self, hb⟩
    | false =>
      obtain ⟨y, hy, hfound⟩ := ih h
      exact ⟨y, mem_cons_of_mem _ hy, hfound⟩

theorem anyOf_eq_false {found : ν × ε → Option Bool} (h : anyOf found xs = some false) :
    ∀ x ∈ xs, found x = some false := by
  induction xs with
  | nil => exact nofun
  | cons x xs ih =>
    obtain ⟨b, hb, h⟩ := bind_eq_some_iff.1 h
    cases b with
    | true => cases h
    | false =>
      intro y hy
      rcases mem_cons.1 hy with rfl | hy
      · exact hb
      · exact ih h y hy

theorem anyOf_mono {found found' : ν × ε → Option Bool}
    (hle : ∀ x b, found x = some b → found' x = some b) (h : anyOf found xs = some b) :
    anyOf found' xs = some b := by
  induction xs with
  | nil => exact h
  | cons x xs ih =>
    obtain ⟨c, hc, h⟩ := bind_eq_some_iff.1 h
    rw [anyOf, hle x c hc, bind_some]
    cases c with
    | true => exact h
    | false => exact ih h

theorem search_succ (h : search kids hit pass k x = some b) :
    search kids hit pass (k + 1) x = some b := by
  induction k generalizing x b with
  | zero => cases h
  | succ k ih =>
    unfold search at h ⊢
    cases hkids : kids x.1 with
    | none =>
      rw [hkids] at h
      exact h
    | some xs =>
      rw [hkids] at h
      obtain ⟨c, hc, hb⟩ := map_eq_some_iff.1 h
      have hc' := anyOf_mono (fun y b hy => ih hy) hc
      exact map_eq_some_iff.2 ⟨c, hc', hb⟩

theorem search_mono {l : ℕ} (hkl : k ≤ l) (h : search kids hit pass k x = some b) :
    search kids hit pass l x = some b := by
  induction hkl with
  | refl => exact h
  | step _ ih => exact search_succ ih

/-- **The answer is right.** -/
theorem search_eq_true_iff (h : search kids hit pass k x = some b) :
    b = true ↔ Shows kids hit pass x := by
  induction k generalizing x b with
  | zero => cases h
  | succ k ih =>
    obtain ⟨a, e⟩ := x
    unfold search at h
    cases hkids : kids a with
    | none =>
      rw [show kids (a, e).1 = none from hkids] at h
      obtain rfl := some.inj h
      constructor
      · exact fun hb => .leaf hkids hb
      · rintro (⟨-, hb⟩ | ⟨hsome, -, -, -⟩)
        · exact hb
        · rw [hkids] at hsome
          cases hsome
    | some xs =>
      rw [show kids (a, e).1 = some xs from hkids] at h
      obtain ⟨c, hc, rfl⟩ := map_eq_some_iff.1 h
      rw [Bool.and_eq_true]
      constructor
      · rintro ⟨rfl, hpass⟩
        obtain ⟨y, hy, hfound⟩ := anyOf_eq_true hc
        exact .node hkids hy ((ih hfound).1 rfl) hpass
      · rintro (⟨hnone, -⟩ | ⟨hsome, hy, hshows, hpass⟩)
        · rw [hkids] at hnone
          cases hnone
        · obtain rfl := some.inj (hkids.symm.trans hsome)
          refine ⟨?_, hpass⟩
          cases c with
          | true => rfl
          | false => exact absurd ((ih (anyOf_eq_false hc _ hy)).2 hshows) Bool.false_ne_true

/-! ### When it ends -/

variable (kids hit pass)

/-- The search of the edges of a node ends. -/
def Halts (a : ν) : Prop := ∀ xs, kids a = some xs → ∃ k b, anyOf (search kids hit pass k) xs = some b

variable {kids hit pass} {a : ν}

theorem anyOf_reaches {found : ν × ε → Option Bool} {post : List (ν × ε)}
    (h : anyOf found (pre ++ x :: post) = some b) (hpre : ∀ y ∈ pre, found y ≠ some true) :
    ∃ c, found x = some c := by
  induction pre with
  | nil =>
    obtain ⟨c, hc, -⟩ := bind_eq_some_iff.1 h
    exact ⟨c, hc⟩
  | cons y pre ih =>
    obtain ⟨c, hc, h⟩ := bind_eq_some_iff.1 h
    cases c with
    | true => exact absurd hc (hpre y mem_cons_self)
    | false => exact ih h fun z hz => hpre z (mem_cons_of_mem _ hz)

theorem acc_of_search {e : ε} (h : search kids hit pass k (a, e) = some b) :
    Acc (flip (Visits kids hit pass)) a := by
  induction k generalizing a e b with
  | zero => cases h
  | succ k ih =>
    refine ⟨a, fun c hvisit => ?_⟩
    obtain ⟨pre, e', post, hkids, hpre⟩ := hvisit
    unfold search at h
    rw [show kids (a, e).1 = _ from hkids] at h
    obtain ⟨d, hd, -⟩ := map_eq_some_iff.1 h
    obtain ⟨f, hf⟩ := anyOf_reaches hd fun y hy hfound => hpre y hy ((search_eq_true_iff hfound).1 rfl)
    exact ih hf

theorem anyOf_ends (hpre : ∀ y ∈ pre, search kids hit pass k y = some false)
    (h : ∀ pre' c e post, xs = pre' ++ (c, e) :: post → (∀ y ∈ pre ++ pre', ¬ Shows kids hit pass y) →
      ∃ l b, search kids hit pass l (c, e) = some b) :
    ∃ l b, anyOf (search kids hit pass l) (pre ++ xs) = some b := by
  induction xs generalizing pre k with
  | nil => exact ⟨k, false, by rw [anyOf_append hpre]; rfl⟩
  | cons x xs ih =>
    have hnot : ∀ y ∈ pre, ¬ Shows kids hit pass y := fun y hy hshows =>
      absurd ((search_eq_true_iff (hpre y hy)).2 hshows) Bool.false_ne_true
    obtain ⟨l, b, hl⟩ := h [] x.1 x.2 xs rfl (by simpa using hnot)
    have hpre' : ∀ y ∈ pre, search kids hit pass (max k l) y = some false :=
      fun y hy => search_mono (le_max_left k l) (hpre y hy)
    have hx := search_mono (le_max_right k l) hl
    cases b with
    | true =>
      refine ⟨max k l, true, ?_⟩
      rw [anyOf_append hpre', anyOf, hx]
      rfl
    | false =>
      rw [show pre ++ x :: xs = (pre ++ [x]) ++ xs by simp]
      refine ih (k := max k l) (fun y hy => ?_) fun pre' c e post hxs hshows => ?_
      · rcases mem_append.1 hy with hy | hy
        · exact hpre' y hy
        · obtain rfl := mem_singleton.1 hy
          exact hx
      · refine h (x :: pre') c e post (by rw [hxs]; rfl) fun y hy => hshows y ?_
        simpa using hy

theorem search_of_halts (e : ε) (h : Halts kids hit pass a) :
    ∃ k b, search kids hit pass k (a, e) = some b := by
  cases hkids : kids a with
  | none =>
    refine ⟨1, hit a e, ?_⟩
    unfold search
    rw [show kids (a, e).1 = none from hkids]
  | some xs =>
    obtain ⟨k, b, hk⟩ := h xs hkids
    refine ⟨k + 1, b && pass e, ?_⟩
    unfold search
    rw [show kids (a, e).1 = some xs from hkids]
    exact congrArg (Option.map fun b => b && pass e) hk

theorem halts_of_acc (h : Acc (flip (Visits kids hit pass)) a) : Halts kids hit pass a := by
  induction h with
  | intro a _ ih =>
    intro xs hxs
    have hnil : ∀ y ∈ ([] : List (ν × ε)), search kids hit pass 0 y = some false := nofun
    refine anyOf_ends hnil fun pre c e post heq hpre => ?_
    subst heq
    exact search_of_halts e (ih c ⟨pre, e, post, hxs, by simpa using hpre⟩)

theorem search_ends_iff {e : ε} :
    (∃ k b, search kids hit pass k (a, e) = some b) ↔ Halts kids hit pass a := by
  constructor
  · rintro ⟨k, b, h⟩
    exact halts_of_acc (acc_of_search h)
  · exact search_of_halts e

/-- **The search ends exactly when it comes to no cycle.** -/
theorem halts_iff {s : Set ν} (hs : s.Finite) (hkids : ∀ a xs, kids a = some xs → a ∈ s) (a : ν) :
    Halts kids hit pass a ↔ ¬ LeadsToCycle (Visits kids hit pass) a := by
  have hr : ∀ a b, Visits kids hit pass a b → a ∈ s := by
    rintro a b ⟨pre, e, post, ha, -⟩
    exact hkids a _ ha
  rw [← acc_iff_no_cycle hs hr]
  refine ⟨fun h => ⟨a, ?_⟩, halts_of_acc⟩
  rintro c ⟨pre, e, post, ha, hpre⟩
  obtain ⟨k, b, hk⟩ := h _ ha
  obtain ⟨d, hd⟩ := anyOf_reaches hk fun y hy hfound => hpre y hy ((search_eq_true_iff hfound).1 rfl)
  exact acc_of_search hd

end Search

end Ridux.Lib
