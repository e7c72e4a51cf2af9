import Mathlib.Tactic.Common

/-!
# Code that changes a state and may give up

`Code σ α` is a computation on the state `σ` that ends with a value of `α` or gives up early
(the `return false` of the source).  What it did to the state before giving up stays done.

* `Code.fail`, `Code.check`, `Code.read`, `Code.find`, `Code.change`, `Code.forEach`: the primitives;
* `Code.focus`: code on a part of the state;
* `Triple P c Q E`: from a state with `P`, the code ends with a value and a state related by `Q`,
  or gives up in a state with `E`;
* one rule per primitive, `Triple.bind` for sequencing and `Triple.forEach` for loops.
-/

namespace Ridux.Lib

/-- A computation on `σ` that may give up, keeping its effects. -/
def Code (σ α : Type) := σ → Option α × σ

namespace Code

variable {σ α β : Type}

instance : Monad (Code σ) where
  pure a := fun s => (some a, s)
  bind c f := fun s =>
    match c s with
    | (some a, s') => f a s'
    | (none, s') => (none, s')

/-- Give up. -/
def fail : Code σ α := fun s => (none, s)

/-- Give up unless `b` holds of the state. -/
def check (b : σ → Bool) : Code σ Unit := fun s => if b s then (some (), s) else (none, s)

/-- Read a value off the state. -/
def read (f : σ → α) : Code σ α := fun s => (some (f s), s)

/-- Change the state. -/
def change (f : σ → σ) : Code σ Unit := fun s => (some (), f s)

/-- Read an optional value off the state; give up when there is none. -/
def find (f : σ → Option α) : Code σ α := fun s => (f s, s)

/-- A loop over the values of a list, left early when its body gives up. -/
def forEach (body : β → Code σ Unit) : List β → Code σ Unit
  | [] => pure ()
  | b :: bs => do
    body b
    forEach body bs

/-- Code that works on a part of the state. -/
def focus {τ : Type} (get : τ → σ) (set : σ → τ → τ) (c : Code σ α) : Code τ α := fun t =>
  ((c (get t)).1, set (c (get t)).2 t)

theorem bind_run (c : Code σ α) (f : α → Code σ β) (s : σ) :
    (c >>= f) s = match c s with
      | (some a, s') => f a s'
      | (none, s') => (none, s') := rfl

/-! How code goes on after a primitive. -/

theorem read_bind_run (f : σ → α) (g : α → Code σ β) (s : σ) :
    (Code.read f >>= g) s = g (f s) s := rfl

theorem change_bind_run (f : σ → σ) (g : Unit → Code σ β) (s : σ) :
    (Code.change f >>= g) s = g () (f s) := rfl

theorem check_bind_run (b : σ → Bool) (g : Unit → Code σ β) (s : σ) :
    (Code.check b >>= g) s = if b s then g () s else (none, s) := by
  rw [bind_run, Code.check]
  split_ifs <;> rfl

end Code

/-- From a state with `P`, the code `c` ends as `Q` says or gives up in a state with `E`. -/
def Triple {σ α : Type} (P : σ → Prop) (c : Code σ α) (Q : α → σ → Prop) (E : σ → Prop) : Prop :=
  ∀ s, P s → (∃ a s', c s = (some a, s') ∧ Q a s') ∨ (∃ s', c s = (none, s') ∧ E s')

namespace Triple

variable {σ α β : Type} {P : σ → Prop} {E : σ → Prop} {c : Code σ α}

theorem pure {Q : α → σ → Prop} {a : α} (h : ∀ s, P s → Q a s) : Triple P (pure a) Q E :=
  fun s hs => .inl ⟨a, s, rfl, h s hs⟩

theorem bind {f : α → Code σ β} {R : α → σ → Prop} {Q : β → σ → Prop} (hc : Triple P c R E)
    (hf : ∀ a, Triple (R a) (f a) Q E) : Triple P (c >>= f) Q E := by
  intro s hs
  rcases hc s hs with ⟨a, s', he, hR⟩ | ⟨s', he, hE⟩
  · have hrun : (c >>= f) s = f a s' := by rw [Code.bind_run, he]
    rw [hrun]
    exact hf a s' hR
  · exact .inr ⟨s', by rw [Code.bind_run, he], hE⟩

theorem conseq {P' : σ → Prop} {E' : σ → Prop} {Q Q' : α → σ → Prop} (h : Triple P c Q E)
    (hP : ∀ s, P' s → P s) (hQ : ∀ a s, Q a s → Q' a s) (hE : ∀ s, E s → E' s) : Triple P' c Q' E' := by
  intro s hs
  rcases h s (hP s hs) with ⟨a, s', he, hq⟩ | ⟨s', he, hx⟩
  · exact .inl ⟨a, s', he, hQ a s' hq⟩
  · exact .inr ⟨s', he, hE s' hx⟩

theorem check {b : σ → Bool} {Q : Unit → σ → Prop} (ht : ∀ s, P s → b s = true → Q () s)
    (hf : ∀ s, P s → b s = false → E s) : Triple P (Code.check b) Q E := by
  intro s hs
  cases hb : b s with
  | true => exact .inl ⟨(), s, by rw [Code.check, if_pos hb], ht s hs hb⟩
  | false => exact .inr ⟨s, by rw [Code.check, hb]; rfl, hf s hs hb⟩

theorem read {f : σ → α} {Q : α → σ → Prop} (h : ∀ s, P s → Q (f s) s) :
    Triple P (Code.read f) Q E :=
  fun s hs => .inl ⟨f s, s, rfl, h s hs⟩

theorem change {f : σ → σ} {Q : Unit → σ → Prop} (h : ∀ s, P s → Q () (f s)) :
    Triple P (Code.change f) Q E :=
  fun s hs => .inl ⟨(), f s, rfl, h s hs⟩

theorem find {f : σ → Option α} {Q : α → σ → Prop} (hs : ∀ s a, P s → f s = some a → Q a s)
    (hn : ∀ s, P s → f s = none → E s) : Triple P (Code.find f) Q E := by
  intro s h
  cases ho : f s with
  | some a => exact .inl ⟨a, s, by rw [Code.find, ho], hs s a h ho⟩
  | none => exact .inr ⟨s, by rw [Code.find, ho], hn s h ho⟩

theorem ite {b : Prop} [Decidable b] {d : Code σ α} {Q : α → σ → Prop} (hc : b → Triple P c Q E)
    (hd : ¬ b → Triple P d Q E) : Triple P (if b then c else d) Q E := by
  split_ifs with h
  · exact hc h
  · exact hd h

theorem focus {τ : Type} (get : τ → σ) (set : σ → τ → τ) (hset : ∀ s t, get (set s t) = s)
    {Q : α → σ → Prop} (h : Triple P c Q E) :
    Triple (fun t => P (get t)) (Code.focus get set c) (fun a t => Q a (get t))
      (fun t => E (get t)) := by
  intro t ht
  rcases h (get t) ht with ⟨a, s', he, hq⟩ | ⟨s', he, hx⟩
  · refine .inl ⟨a, set s' t, by rw [Code.focus, he], ?_⟩
    simpa only [hset] using hq
  · refine .inr ⟨set s' t, by rw [Code.focus, he], ?_⟩
    simpa only [hset] using hx

theorem after {R : σ → Prop} (h : Triple P c (fun _ => R) R) {s : σ} (hs : P s) : R (c s).2 := by
  rcases h s hs with ⟨a, s', he, hR⟩ | ⟨s', he, hR⟩
  · rw [he]
    exact hR
  · rw [he]
    exact hR

theorem of_and {p : Prop} {Q : α → σ → Prop} (h : p → Triple P c Q E) :
    Triple (fun s => p ∧ P s) c Q E :=
  fun s hs => h hs.1 s hs.2

theorem forEach {body : β → Code σ Unit} {I : σ → Prop} (l : List β)
    (hbody : ∀ b ∈ l, Triple I (body b) (fun _ => I) E) :
    Triple I (Code.forEach body l) (fun _ => I) E := by
  induction l with
  | nil => exact Triple.pure fun _ hs => hs
  | cons b l ih =>
    exact Triple.bind (hbody b List.mem_cons_self) fun _ =>
      ih fun c hc => hbody c (List.mem_cons_of_mem b hc)

end Triple

end Ridux.Lib
