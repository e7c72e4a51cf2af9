import Mathlib.Logic.Relation
import Mathlib.Tactic.Common

/-!
# Runs of a machine

A machine has states `σ` and operations `ι`.  An operation runs only in a state where it is
enabled, and what it does is a function of the state; choices that the machine does not make
itself (an allocation that fails, the identity of the caller) are part of the operation.

* `OpStep`, `Runs`: one step, and a run of any length;
* `Runs.invariant`: what every step keeps holds at the end of every run.
-/

namespace Ridux.Lib

variable {σ τ ι κ : Type*} {enabled enabled' : σ → ι → Prop} {exec : σ → ι → σ}

/-- One step: some enabled operation is run. -/
def OpStep (enabled : σ → ι → Prop) (exec : σ → ι → σ) (s s' : σ) : Prop :=
  ∃ op, enabled s op ∧ s' = exec s op

/-- A run: finitely many steps. -/
def Runs (enabled : σ → ι → Prop) (exec : σ → ι → σ) : σ → σ → Prop :=
  Relation.ReflTransGen (OpStep enabled exec)

namespace Runs

theorem refl (s : σ) : Runs enabled exec s s := Relation.ReflTransGen.refl

theorem tail {s t : σ} (h : Runs enabled exec s t) (op : ι) (hop : enabled t op) :
    Runs enabled exec s (exec t op) :=
  Relation.ReflTransGen.tail h ⟨op, hop, rfl⟩

theorem of_list (h : ∀ s op, enabled s op) (s : σ) (ops : List ι) :
    Runs enabled exec s (ops.foldl exec s) := by
  induction ops generalizing s with
  | nil => exact refl s
  | cons op ops ih => exact Relation.ReflTransGen.head ⟨op, h s op, rfl⟩ (ih (exec s op))

theorem invariant {P : σ → Prop} (hkeep : ∀ s op, P s → enabled s op → P (exec s op))
    {s t : σ} (hrun : Runs enabled exec s t) (hs : P s) : P t := by
  induction hrun with
  | refl => exact hs
  | tail _ hstep ih =>
    obtain ⟨op, hop, rfl⟩ := hstep
    exact hkeep _ op ih hop

theorem mono (hsub : ∀ s op, enabled s op → enabled' s op) {s t : σ}
    (hrun : Runs enabled exec s t) : Runs enabled' exec s t := by
  have hstep : ∀ a b, OpStep enabled exec a b → OpStep enabled' exec a b := by
    rintro a b ⟨op, hop, rfl⟩
    exact ⟨op, hsub a op hop, rfl⟩
  exact Relation.ReflTransGen.mono hstep s t hrun

end Runs

end Ridux.Lib
