import Mathlib.Data.List.Basic
import Mathlib.Tactic.Common

/-!
# Offers and acknowledgements

One side sends offers, each under a serial, and the other side acknowledges serials.  An offer may
become necessary while another one waits for its acknowledgement.

* `Offers`: what has been sent and acknowledged so far, and whether an offer is owed;
* `Offers.send`, `Offers.ack`, `Offers.need`: what can happen;
* `Offers.Turns`: the offers are made in turns, so that the last two serials say which one waits;
* `Turns.send`, `Turns.ack`, `Turns.need`: how that is kept.
-/

namespace Ridux.Lib

/-- The history of the offers: the last serial sent, the last one acknowledged, the serials sent and
not acknowledged, and whether an offer became necessary while one of those was waiting and has not been
sent since. -/
structure Offers (σ : Type*) where
  last : Option σ
  acked : Option σ
  waiting : List σ
  owed : Bool

namespace Offers

variable {σ : Type*}

/-- Nothing has been sent. -/
def start : Offers σ := ⟨none, none, [], false⟩

/-- An offer is sent. -/
def send (o : Offers σ) (s : σ) : Offers σ :=
  { o with last := some s, waiting := s :: o.waiting, owed := false }

/-- A serial is acknowledged. -/
def ack [DecidableEq σ] (o : Offers σ) (s : σ) : Offers σ :=
  { o with acked := some s, waiting := o.waiting.filter (· ≠ s) }

/-- An offer becomes necessary. -/
def need (o : Offers σ) : Offers σ := { o with owed := o.owed || !o.waiting.isEmpty }

/-- The offers are made in turns, when the last one sent is `l` and the last one acknowledged is `a`:
only the last one can wait, and it does when it is not the one that was acknowledged last. -/
structure Turns [DecidableEq σ] (o : Offers σ) (l a : Option σ) : Prop where
  last : o.last = l
  acked : o.acked = a
  waiting : o.waiting = if a = l then [] else l.toList

namespace Turns

variable [DecidableEq σ] {o : Offers σ} {l a : Option σ} {s : σ}

theorem start : Turns (start : Offers σ) none none := ⟨rfl, rfl, rfl⟩

theorem length_waiting_le (h : o.Turns l a) : o.waiting.length ≤ 1 := by
  rw [h.waiting]
  split_ifs
  · exact Nat.zero_le 1
  · cases l <;> simp

theorem waiting_eq_nil (h : o.Turns l l) : o.waiting = [] := by
  rw [h.waiting, if_pos rfl]

theorem waiting_ne_nil (h : o.Turns (some s) a) (ha : a ≠ some s) : o.waiting ≠ [] := by
  rw [h.waiting, if_neg ha]
  simp

theorem send (h : o.Turns l l) (hs : l ≠ some s) : (o.send s).Turns (some s) l where
  last := rfl
  acked := h.acked
  waiting := by
    change s :: o.waiting = _
    rw [h.waiting_eq_nil, if_neg hs]
    rfl

theorem ack (h : o.Turns (some s) a) : (o.ack s).Turns (some s) (some s) where
  last := h.last
  acked := rfl
  waiting := by
    change o.waiting.filter (· ≠ s) = _
    rw [h.waiting, if_pos rfl]
    split_ifs
    · rfl
    · simp

theorem need (h : o.Turns l a) : o.need.Turns l a := ⟨h.last, h.acked, h.waiting⟩

theorem need_owed (h : o.Turns l a) (howed : o.owed → a ≠ l) : o.need.owed → a ≠ l := by
  intro hn
  rw [Offers.need, Bool.or_eq_true] at hn
  rcases hn with hn | hn
  · exact howed hn
  · rintro rfl
    simp [h.waiting_eq_nil] at hn

end Turns

end Offers

end Ridux.Lib
