import Ridux.Signal.RoundTrip

/-!
# The calls that set masks

* `rtSigprocmask`, `rtSigaction`, `rtSigsuspendEnter`, `rtSigsuspendLeave`: the calls of
  `linux_syscalls.c`, up to the `sig_check_pending` that ends three of them;
* `sigEnqueue`: a signal is sent;
* `has_combine`: a signal after `rt_sigprocmask`;
* `sigCheckPending_masks`: the masks after a delivery.

The words that a task passes are used as they are, so that bit `n` stands for signal `n`.
-/

namespace Ridux

open Function

namespace SigSet

/-- The first `n` bytes of a set, `8 ≤ n`, and zeros. -/
def clip (n : ℕ) (s : SigSet) : SigSet := ⟨s.sig0, (s.sig1.setWidth (8 * (n - 8))).setWidth 64⟩

/-- A set of a task as the calls take it: its first `n` bytes, without `SIGKILL` and `SIGSTOP`. -/
def load (n : ℕ) (s : SigSet) : SigSet := (s.clip n).dropUnblockable

end SigSet

/-- The errors of the calls. -/
inductive MaskErr
  | einval
  deriving DecidableEq

/-- The number of bytes of a set, for the argument `sigsetsize`; none if it is refused. -/
def sigsetBytes (dflt size : ℕ) : Option ℕ :=
  if size = 0 then some dflt else if size < 8 ∨ size > 16 then none else some size

namespace SigTask

/-- The `switch` of `rt_sigprocmask`: `SIG_BLOCK`, `SIG_UNBLOCK`, `SIG_SETMASK`. -/
def combine (blocked : SigSet) (how : ℕ) (s : SigSet) : SigSet :=
  match how with
  | 0 => blocked.union s
  | 1 => blocked.diff s
  | 2 => s
  | _ => blocked

/-- `real_sys_rt_sigprocmask` before `sig_check_pending`: its result, the old set if it was stored,
and the task. -/
def rtSigprocmask (t : SigTask) (how : ℕ) (set : Option SigSet) (old : Bool) (size : ℕ) :
    Except MaskErr Unit × Option SigSet × SigTask :=
  match sigsetBytes 16 size with
  | none => (.error .einval, none, t)
  | some n =>
    let stored := if old then some (t.blocked.clip n) else none
    match set with
    | none => (.ok (), stored, t)
    | some s =>
      if how > 2 then (.error .einval, stored, t)
      else (.ok (), stored, { t with blocked := combine t.blocked how (s.load n) })

/-- `real_sys_rt_sigaction`: its result, the old action if it was stored, and the task.  A signal
below 1 is refused at the same check as one from `NSIG` on. -/
def rtSigaction (t : SigTask) (sig : ℕ) (act : Option SigAction) (old : Bool) (size : ℕ) :
    Except MaskErr Unit × Option SigAction × SigTask :=
  match sigsetBytes 8 size with
  | none => (.error .einval, none, t)
  | some n =>
    if sig < 1 ∨ sig ≥ nsig then (.error .einval, none, t)
    else if sig = sigkill ∨ sig = sigstop then (.error .einval, none, t)
    else
      let a := t.actions sig
      let stored := if old then some { a with mask := a.mask.clip n } else none
      match act with
      | none => (.ok (), stored, t)
      | some a =>
        (.ok (), stored,
          { t with actions := update t.actions sig { a with mask := a.mask.load n } })

/-- The start of `real_sys_rt_sigsuspend`: the mask that the caller keeps, and the task with the
mask it waits with. -/
def rtSigsuspendEnter (t : SigTask) (mask : SigSet) (size : ℕ) : Option (SigSet × SigTask) :=
  match sigsetBytes 16 size with
  | none => none
  | some n => some (t.blocked, { t with blocked := mask.load n })

/-- `c3_task_has_unblocked_signal`, the end of the wait. -/
def hasUnblockedSignal (t : SigTask) : Bool := t.pending.diff t.blocked ≠ .empty

/-- The end of `real_sys_rt_sigsuspend`, before `sig_check_pending`. -/
def rtSigsuspendLeave (t : SigTask) (saved : SigSet) : SigTask := { t with blocked := saved }

def sigEnqueue (t : SigTask) (sig : ℕ) : SigTask :=
  if sig = 0 ∨ sig ≥ nsig then t
  else
    let t := if sig = sigkill ∨ sig = sigstop then { t with blocked := t.blocked.del sig } else t
    let t := { t with pending := t.pending.add sig }
    let t := if sig = sigcont ∧ t.state = .stopped then t.makeRunnable else t
    if t.state = .sleeping then t.makeRunnable else t

/-! ### Signals in a mask -/

/-- What the ways of `rt_sigprocmask` do with one signal: `b` says that it is blocked, `x` that it is
in the set. -/
def combineBit (how : ℕ) (b x : Bool) : Bool :=
  match how with
  | 0 => b || x
  | 1 => b && !x
  | 2 => x
  | _ => b

/-- The set matters for a signal: those that are blocked already stay so under `SIG_BLOCK`, those
that are not stay so under `SIG_UNBLOCK`. -/
def Matters (how : ℕ) (b : Bool) : Prop :=
  match how with
  | 0 => b = false
  | 1 => b = true
  | 2 => True
  | _ => False

theorem combineBit_eq_iff (how : ℕ) (b x y : Bool) :
    combineBit how b x = combineBit how b y ↔ (Matters how b → x = y) := by
  unfold combineBit Matters
  split <;> cases b <;> cases x <;> cases y <;> simp

theorem has_combine (b s : SigSet) (how : ℕ) {n : ℕ} (hn : n < 128) :
    (combine b how s).has n = combineBit how (b.has n) (s.has n) := by
  unfold combine combineBit
  split
  · exact SigSet.has_union b s n
  · exact SigSet.has_diff b s hn
  · rfl
  · rfl

theorem has_load (x y : BitVec 64) {n : ℕ} (hn : n ≤ 64) :
    (SigSet.load 8 ⟨x, y⟩).has n =
      (x.getLsbD n && decide (n ≠ sigkill) && decide (n ≠ sigstop)) := by
  unfold SigSet.load
  rcases Nat.lt_or_eq_of_le hn with hlt | rfl
  · rw [SigSet.has_dropUnblockable _ hlt, SigSet.has_of_lt hlt]
    rfl
  · rw [SigSet.has_dropUnblockable_64, SigSet.has_64, BitVec.getLsbD_of_ge x 64 le_rfl]
    simp [SigSet.clip]

/-! ### Masks after a delivery -/

variable {t : SigTask} {m : UserMem}

theorem sigDeliver_masks (t : SigTask) (m : UserMem) (s : ℕ) :
    let r := (t.sigDeliver m s).1
    (∀ k, (r.actions k).mask = (t.actions k).mask) ∧
      (r.inHandler = t.inHandler ∧ r.blocked = t.blocked ∨
        r.inHandler = true ∧ r.blocked = t.handlerMask s) := by
  have hdfl : ∀ u : SigTask, (u.sigDefaultAction sigsegv).actions = u.actions ∧
      (u.sigDefaultAction sigsegv).inHandler = u.inHandler ∧
      (u.sigDefaultAction sigsegv).blocked = u.blocked := by
    intro u
    obtain ⟨used, state, code, h⟩ := sigDefaultAction_eq u sigsegv
    rw [h]
    exact ⟨rfl, rfl, rfl⟩
  obtain ⟨ha, hi, hb⟩ := hdfl t
  obtain ⟨ha', hi', hb'⟩ := hdfl (t.redirect s)
  unfold sigDeliver
  dsimp only
  split_ifs
  · exact ⟨fun k => by rw [ha], .inl ⟨hi, hb⟩⟩
  · exact ⟨fun k => by rw [ha], .inl ⟨hi, hb⟩⟩
  · exact ⟨fun k => by rw [ha']; rfl, .inl ⟨hi', hb'⟩⟩
  · refine ⟨fun k => ?_, .inr ⟨rfl, rfl⟩⟩
    unfold enterHandler redirect
    dsimp only
    split_ifs
    · by_cases hk : k = s
      · rw [hk, update_self]
      · rw [update_of_ne hk]
    · rfl

/-- What `sig_check_pending` does to the masks: nothing, or it blocks what the handler of the
delivered signal asks for. -/
theorem sigCheckPending_masks (t : SigTask) (m : UserMem) :
    let r := (t.sigCheckPending m).1
    (∀ k, (r.actions k).mask = (t.actions k).mask) ∧
      (r.inHandler = t.inHandler ∧ r.blocked = t.blocked ∨
        t.inHandler = false ∧ r.inHandler = true ∧
          ∃ s, t.deliverable = some s ∧ r.blocked = t.handlerMask s) := by
  rcases sigCheckPending_eq t m with h | ⟨hin, t₁, ⟨used, state, code, pending, rfl⟩, h⟩
  · dsimp only
    rw [h]
    exact ⟨fun _ => rfl, .inl ⟨rfl, rfl⟩⟩
  · dsimp only
    rw [h]
    cases hs : t.deliverable with
    | none => exact ⟨fun _ => rfl, .inl ⟨rfl, rfl⟩⟩
    | some s =>
      obtain ⟨hmask, hcase⟩ := sigDeliver_masks
        { t with used := used, state := state, exitCode := code, pending := pending } m s
      exact ⟨hmask, hcase.imp id fun h => ⟨hin, h.1, s, rfl, h.2⟩⟩

end SigTask

end Ridux
