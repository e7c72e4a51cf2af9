import Mathlib.Data.ENat.Basic
import Ridux.Lib.Code

/-!
# Code that spends a resource

A state has a stock of some resource, and code takes from it and gives nothing back.  `Spends` says
exactly what a piece of code needs: with that much in stock it ends with a value and has taken just
that; with less it gives up.  The need `⊤` is that of code that always gives up.

* `Spends stock P c n Q E`: from a state with `P`, the code `c` needs `n`, and ends as `Q` or `E` say;
* one rule per primitive, `Spends.bind` and `Spends.forEach`: needs add up.
-/

namespace Ridux.Lib

/-- What the code needs, and what it does. -/
def Spends {σ α : Type} (stock : σ → ℕ) (P : σ → Prop) (c : Code σ α) (n : ℕ∞) (Q : α → σ → Prop)
    (E : σ → Prop) : Prop :=
  ∀ s, P s →
    n ≤ stock s ∧ (∃ a s', c s = (some a, s') ∧ Q a s' ∧ (stock s' : ℕ∞) + n = stock s) ∨
      stock s < n ∧ ∃ s', c s = (none, s') ∧ E s'

namespace Spends

variable {σ α β : Type} {stock : σ → ℕ} {P : σ → Prop} {E : σ → Prop} {n k : ℕ∞} {c : Code σ α}
  {g : α → Code σ β}

theorem pure {Q : α → σ → Prop} {a : α} (h : ∀ s, P s → Q a s) :
    Spends stock P (pure a) 0 Q E :=
  fun s hs => .inl ⟨zero_le, a, s, rfl, h s hs, by simp⟩

theorem bind {f : α → Code σ β} {R : α → σ → Prop} {Q : β → σ → Prop} (hc : Spends stock P c n R E)
    (hf : ∀ a, Spends stock (R a) (f a) k Q E) : Spends stock P (c >>= f) (n + k) Q E := by
  intro s hs
  rcases hc s hs with ⟨hn, a, s', he, hR, hstock⟩ | ⟨hn, s', he, hE⟩
  · have hrun : (c >>= f) s = f a s' := by rw [Code.bind_run, he]
    rw [hrun]
    rcases hf a s' hR with ⟨hk, b, t, he', hQ, hstock'⟩ | ⟨hk, t, he', hE⟩
    · refine .inl ⟨?_, b, t, he', hQ, ?_⟩
      · rw [← hstock, add_comm n k]
        exact add_le_add_left hk n
      · rw [← hstock, ← hstock', add_comm n k, add_assoc]
    · refine .inr ⟨?_, t, he', hE⟩
      have hne : n ≠ ⊤ := ne_top_of_le_ne_top (ENat.natCast_ne_top _) hn
      rw [← hstock, add_comm n k]
      exact (ENat.add_lt_add_iff_right hne).2 hk
  · exact .inr ⟨lt_of_lt_of_le hn le_self_add, s', by rw [Code.bind_run, he], hE⟩

theorem bind_read {f : σ → α} {a : α} {Q : β → σ → Prop} (hf : ∀ s, P s → f s = a)
    (h : Spends stock P (g a) n Q E) : Spends stock P (Code.read f >>= g) n Q E := by
  intro s hs
  have hrun : (Code.read f >>= g) s = g a s := by
    rw [Code.bind_run, Code.read, hf s hs]
  rw [hrun]
  exact h s hs

theorem bind_find {f : σ → Option α} {o : Option α} {Q : β → σ → Prop} (hf : ∀ s, P s → f s = o)
    (hE : ∀ s, P s → E s) (h : ∀ a, o = some a → Spends stock P (g a) n Q E) (hn : o = none → n = ⊤) :
    Spends stock P (Code.find f >>= g) n Q E := by
  intro s hs
  cases o with
  | none =>
    have hrun : (Code.find f >>= g) s = (none, s) := by rw [Code.bind_run, Code.find, hf s hs]
    rw [hrun, hn rfl]
    exact .inr ⟨ENat.natCast_lt_top _, s, rfl, hE s hs⟩
  | some a =>
    have hrun : (Code.find f >>= g) s = g a s := by rw [Code.bind_run, Code.find, hf s hs]
    rw [hrun]
    exact h a rfl s hs

theorem change {f : σ → σ} {Q : Unit → σ → Prop} (hstock : ∀ s, P s → stock (f s) = stock s)
    (h : ∀ s, P s → Q () (f s)) : Spends stock P (Code.change f) 0 Q E :=
  fun s hs => .inl ⟨zero_le, (), f s, rfl, h s hs, by rw [hstock s hs, add_zero]⟩

theorem of_and {p : Prop} {Q : α → σ → Prop} (h : p → Spends stock P c n Q E) :
    Spends stock (fun s => p ∧ P s) c n Q E :=
  fun s hs => h hs.1 s hs.2

theorem forEach {body : β → Code σ Unit} {I : σ → Prop} {need : β → ℕ∞} (l : List β)
    (hbody : ∀ b ∈ l, Spends stock I (body b) (need b) (fun _ => I) E) :
    Spends stock I (Code.forEach body l) (l.map need).sum (fun _ => I) E := by
  induction l with
  | nil => exact Spends.pure fun _ hs => hs
  | cons b l ih =>
    exact Spends.bind (hbody b List.mem_cons_self) fun _ =>
      ih fun c hc => hbody c (List.mem_cons_of_mem b hc)

end Spends

end Ridux.Lib
