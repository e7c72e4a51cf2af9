import Ridux.Lib.Run
import Ridux.Signal.Encoding

/-!
# Runs beside the masks of Linux

A task makes calls, signals are sent and delivered, handlers return, and beside each mask of the
kernel stands the one that Linux would have.

* `MaskState`, `MaskOp`: the state with its shadow, and the steps;
* `Plain`: what every run keeps; `maskRun_restores`: a stored set can be set back;
* `Agrees`: the masks are those of Linux; `MaskOp.Meets`: the steps that keep this so;
* `maskRun_agrees`: runs of such steps keep it, and no other step does.

A call of the source is its step here, followed by a step `check` where it ends with
`sig_check_pending`.
-/

namespace Ridux

open Lib SigTask Function

/-- A task, the mask that a waiting `rt_sigsuspend` will put back, and the shadow: the masks of
Linux, the masks of the frames on the user's stack, and the old sets that calls have stored, each
beside what Linux would have stored. -/
structure MaskState where
  task : SigTask
  mem : UserMem
  saved : Option SigSet
  want : BitVec 64
  wantMask : ℕ → BitVec 64
  wantSaved : BitVec 64
  frames : List (SigSet × BitVec 64)
  olds : List (BitVec 64 × BitVec 64)

/-- The steps: the calls with a set of 64 bits, the end of the wait of `rt_sigsuspend`,
`sig_check_pending`, a signal that is sent, a return from a handler, and code of the task. -/
inductive MaskOp
  | procmask (how : ℕ) (set : Option (BitVec 64)) (old : Bool)
  | sigaction (sig : ℕ) (handler : BitVec 64) (flags : BitVec 32) (mask : BitVec 64)
  | suspend (mask : BitVec 64)
  | resume
  | check
  | send (sig : ℕ)
  | sigreturn (frame : SigFrame)
  | code (ctx : Ctx) (mem : UserMem)

namespace MaskState

/-- What Linux blocks while the handler of `s` runs. -/
def wantHandler (σ : MaskState) (s : ℕ) : BitVec 64 :=
  (if (σ.task.actions s).flags &&& saNodefer ≠ 0 then σ.want else σ.want ||| linuxBit s) |||
    σ.wantMask s

/-- `rt_sigprocmask`. -/
def procmask (σ : MaskState) (how : ℕ) (set : Option (BitVec 64)) (old : Bool) : MaskState :=
  let r := σ.task.rtSigprocmask how (set.map fun x => ⟨x, 0⟩) old 8
  { σ with
    task := r.2.2
    want := match set with
      | none => σ.want
      | some x => linuxCombine σ.want how x
    olds := match r.2.1 with
      | none => σ.olds
      | some s => (s.sig0, σ.want) :: σ.olds }

/-- `rt_sigaction`. -/
def sigaction (σ : MaskState) (sig : ℕ) (handler : BitVec 64) (flags : BitVec 32)
    (mask : BitVec 64) : MaskState :=
  let r := σ.task.rtSigaction sig (some ⟨handler, ⟨mask, 0⟩, flags⟩) false 8
  { σ with
    task := r.2.2
    wantMask := match r.1 with
      | .error _ => σ.wantMask
      | .ok _ => update σ.wantMask sig (linuxDrop mask) }

/-- `rt_sigsuspend`, up to its wait. -/
def suspend (σ : MaskState) (mask : BitVec 64) : MaskState :=
  match σ.task.rtSigsuspendEnter ⟨mask, 0⟩ 8 with
  | none => σ
  | some (saved, t) =>
    { σ with task := t, saved := some saved, want := linuxDrop mask, wantSaved := σ.want }

/-- `rt_sigsuspend`, after its wait. -/
def resume (σ : MaskState) : MaskState :=
  match σ.saved with
  | none => σ
  | some saved =>
    { σ with task := σ.task.rtSigsuspendLeave saved, saved := none, want := σ.wantSaved }

/-- `sig_check_pending`: Linux blocks what the handler asks for when the kernel enters it. -/
def check (σ : MaskState) : MaskState :=
  let r := σ.task.sigCheckPending σ.mem
  let τ := { σ with task := r.1, mem := r.2 }
  if σ.task.inHandler = false ∧ r.1.inHandler = true then
    match σ.task.deliverable with
    | none => τ
    | some s => { τ with want := σ.wantHandler s, frames := (σ.task.blocked, σ.want) :: σ.frames }
  else τ

/-- `rt_sigreturn` with a frame that has been read. -/
def sigreturn (σ : MaskState) (frame : SigFrame) : MaskState :=
  match σ.frames with
  | [] => σ
  | f :: rest => { σ with task := σ.task.restore frame, want := f.2, frames := rest }

/-- One step. -/
def exec (σ : MaskState) : MaskOp → MaskState
  | .procmask how set old => σ.procmask how set old
  | .sigaction sig handler flags mask => σ.sigaction sig handler flags mask
  | .suspend mask => σ.suspend mask
  | .resume => σ.resume
  | .check => σ.check
  | .send sig => { σ with task := σ.task.sigEnqueue sig }
  | .sigreturn frame => σ.sigreturn frame
  | .code ctx mem => { σ with task := { σ.task with ctx := ctx }, mem := mem }

/-- A task that waits in `rt_sigsuspend` makes no calls, the wait ends when a signal can be
delivered, and a handler returns with the mask in its frame as it was. -/
def enabled (σ : MaskState) : MaskOp → Prop
  | .resume => σ.saved ≠ none ∧ σ.task.hasUnblockedSignal = true
  | .check => True
  | .send _ => True
  | .sigreturn frame => σ.saved = none ∧ ∃ f rest, σ.frames = f :: rest ∧ frame.sigmask = f.1
  | _ => σ.saved = none

/-! ### What every run keeps -/

/-- Every mask of the kernel is plain, and `SIGKILL` and `SIGSTOP` have no handlers. -/
structure Plain (σ : MaskState) : Prop where
  blocked : PlainSet σ.task.blocked
  actions : ∀ k, PlainSet (σ.task.actions k).mask
  fixed : ∀ k, k = sigkill ∨ k = sigstop → (σ.task.actions k).handler = sigDfl
  saved : ∀ b, σ.saved = some b → PlainSet b
  frames : ∀ p ∈ σ.frames, PlainSet p.1

variable {σ τ : MaskState} {t : SigTask} {a : SigAction} {s : ℕ}

theorem rtSigprocmask_eq (t : SigTask) (how : ℕ) (set : Option (BitVec 64)) (old : Bool) :
    (t.rtSigprocmask how (set.map fun x => ⟨x, 0⟩) old 8).2 =
      (if old then some (t.blocked.clip 8) else none,
        match set with
        | none => t
        | some x => { t with blocked := combine t.blocked how (SigSet.load 8 ⟨x, 0⟩) }) := by
  have hsize : sigsetBytes 16 8 = some 8 := rfl
  unfold rtSigprocmask
  rw [hsize]
  cases set with
  | none => rfl
  | some x =>
    dsimp only [Option.map_some]
    match how with
    | 0 => rfl
    | 1 => rfl
    | 2 => rfl
    | _ + 3 => rfl

theorem rtSigaction_ok {sig : ℕ} (hs : 1 ≤ sig ∧ sig < nsig) (hk : sig ≠ sigkill)
    (hs' : sig ≠ sigstop) :
    t.rtSigaction sig (some a) false 8 =
      (.ok (), none,
        { t with actions := update t.actions sig { a with mask := a.mask.load 8 } }) := by
  have hsize : sigsetBytes 8 8 = some 8 := rfl
  unfold rtSigaction
  rw [hsize]
  dsimp only
  rw [if_neg (by omega), if_neg (by rw [not_or]; exact ⟨hk, hs'⟩)]
  rfl

theorem rtSigaction_error {sig : ℕ} (h : ¬((1 ≤ sig ∧ sig < nsig) ∧ sig ≠ sigkill ∧ sig ≠ sigstop)) :
    t.rtSigaction sig (some a) false 8 = (.error .einval, none, t) := by
  have hsize : sigsetBytes 8 8 = some 8 := rfl
  unfold rtSigaction
  rw [hsize]
  dsimp only
  by_cases hr : sig < 1 ∨ sig ≥ nsig
  · rw [if_pos hr]
  · rw [if_neg hr, if_pos]
    by_contra hne
    rw [not_or] at hne
    exact h ⟨by omega, hne⟩

/-- The signals for which `rt_sigaction` takes an action. -/
def Takes (sig : ℕ) : Prop := (1 ≤ sig ∧ sig < nsig) ∧ sig ≠ sigkill ∧ sig ≠ sigstop

theorem plain_procmask (h : σ.Plain) (how : ℕ) (set : Option (BitVec 64)) (old : Bool) :
    (σ.procmask how set old).Plain := by
  have heq := rtSigprocmask_eq σ.task how set old
  obtain ⟨hb, ha, hf, hs, hfr⟩ := h
  unfold procmask
  dsimp only
  rw [heq]
  cases set with
  | none => exact ⟨hb, ha, hf, hs, hfr⟩
  | some x => exact ⟨hb.combine (plainSet_load x 0) how, ha, hf, hs, hfr⟩

theorem plain_sigaction (h : σ.Plain) (sig : ℕ) (handler : BitVec 64) (flags : BitVec 32)
    (mask : BitVec 64) : (σ.sigaction sig handler flags mask).Plain := by
  obtain ⟨hb, ha, hf, hs, hfr⟩ := h
  unfold sigaction
  dsimp only
  by_cases ht : Takes sig
  · rw [rtSigaction_ok ht.1 ht.2.1 ht.2.2]
    refine ⟨hb, fun k => ?_, fun k hk => ?_, hs, hfr⟩
    · dsimp only
      by_cases hks : k = sig
      · rw [hks, update_self]
        exact plainSet_load mask 0
      · rw [update_of_ne hks]
        exact ha k
    · have hks : k ≠ sig := by
        rintro rfl
        rcases hk with rfl | rfl
        · exact ht.2.1 rfl
        · exact ht.2.2 rfl
      dsimp only
      rw [update_of_ne hks]
      exact hf k hk
  · rw [rtSigaction_error ht]
    exact ⟨hb, ha, hf, hs, hfr⟩

theorem deliverable_spec (h : t.deliverable = some s) :
    (1 ≤ s ∧ s < 64) ∧ (t.actions s).handler ≠ sigDfl := by
  have hmem := List.mem_range'_1.1 (List.mem_of_find?_eq_some h)
  have hready := List.find?_some h
  unfold sigReady at hready
  simp only [Bool.and_eq_true, bne_iff_ne] at hready
  unfold nsig at hmem
  exact ⟨by omega, hready.2⟩

theorem plain_handlerMask (h : σ.Plain) (hs : σ.task.deliverable = some s) :
    PlainSet (σ.task.handlerMask s) := by
  obtain ⟨hlt, hne⟩ := deliverable_spec hs
  unfold handlerMask
  split_ifs
  · exact h.blocked.union (h.actions s)
  · exact (h.blocked.add hlt.2 (fun hk => hne (h.fixed s (.inl hk)))
      (fun hk => hne (h.fixed s (.inr hk)))).union (h.actions s)

theorem sigCheckPending_handler (t : SigTask) (m : UserMem) (k : ℕ) :
    ((t.sigCheckPending m).1.actions k).handler = (t.actions k).handler ∨
      ((t.sigCheckPending m).1.actions k).handler = sigDfl := by
  have hdfl : ∀ (u : SigTask) n, (u.sigDefaultAction n).actions = u.actions := by
    intro u n
    obtain ⟨used, state, code, h⟩ := sigDefaultAction_eq u n
    rw [h]
  rcases sigCheckPending_eq t m with h | ⟨-, t₁, ⟨used, state, code, pending, rfl⟩, h⟩
  · rw [h]
    exact .inl rfl
  · rw [h]
    cases t.deliverable with
    | none => exact .inl rfl
    | some s =>
      unfold sigDeliver
      dsimp only
      split_ifs
      · rw [hdfl]
        exact .inl rfl
      · rw [hdfl]
        exact .inl rfl
      · rw [hdfl]
        exact .inl rfl
      · unfold enterHandler
        dsimp only
        split_ifs
        · by_cases hk : k = s
          · rw [hk, update_self]
            exact .inr rfl
          · rw [update_of_ne hk]
            exact .inl rfl
        · exact .inl rfl

theorem plain_check (h : σ.Plain) : σ.check.Plain := by
  obtain ⟨hmask, hcase⟩ := sigCheckPending_masks σ.task σ.mem
  have ha : ∀ k, PlainSet ((σ.task.sigCheckPending σ.mem).1.actions k).mask := by
    intro k
    rw [hmask]
    exact h.actions k
  have hf : ∀ k, k = sigkill ∨ k = sigstop →
      ((σ.task.sigCheckPending σ.mem).1.actions k).handler = sigDfl := by
    intro k hk
    rcases sigCheckPending_handler σ.task σ.mem k with heq | heq
    · rw [heq]
      exact h.fixed k hk
    · exact heq
  unfold check
  dsimp only
  rcases hcase with ⟨hin, hb⟩ | ⟨hin, hin', s, hs, hb⟩
  · have hidle : ¬(σ.task.inHandler = false ∧ (σ.task.sigCheckPending σ.mem).1.inHandler = true) := by
      rw [hin]
      simp
    rw [if_neg hidle]
    exact ⟨by rw [hb]; exact h.blocked, ha, hf, h.saved, h.frames⟩
  · rw [if_pos ⟨hin, hin'⟩, hs]
    refine ⟨by dsimp only; rw [hb]; exact plain_handlerMask h hs, ha, hf, h.saved, ?_⟩
    intro p hp
    rcases List.mem_cons.1 hp with rfl | hp
    · exact h.blocked
    · exact h.frames p hp

theorem sigEnqueue_eq (t : SigTask) (sig : ℕ) : ∃ pending state,
    t.sigEnqueue sig =
      { t with
        blocked := if sig = sigkill ∨ sig = sigstop then t.blocked.del sig else t.blocked
        pending := pending
        state := state } := by
  have hrun : ∀ u : SigTask, ∃ state, u.makeRunnable = { u with state := state } := by
    intro u
    unfold makeRunnable
    split_ifs
    · exact ⟨u.state, rfl⟩
    · exact ⟨.runnable, rfl⟩
  have hguard : ∀ (u : SigTask) (c : Prop) [Decidable c],
      ∃ state, (if c then u.makeRunnable else u) = { u with state := state } := by
    intro u c _
    split_ifs
    · exact hrun u
    · exact ⟨u.state, rfl⟩
  unfold sigEnqueue
  by_cases h : sig = 0 ∨ sig ≥ nsig
  · have hk : ¬(sig = sigkill ∨ sig = sigstop) := by
      unfold nsig at h
      unfold sigkill sigstop
      omega
    rw [if_pos h, if_neg hk]
    exact ⟨t.pending, t.state, rfl⟩
  · rw [if_neg h]
    dsimp only
    by_cases hk : sig = sigkill ∨ sig = sigstop
    · rw [if_pos hk, if_pos hk]
      obtain ⟨st, h1⟩ := hguard
        { t with blocked := t.blocked.del sig, pending := t.pending.add sig }
        (sig = sigcont ∧ t.state = .stopped)
      dsimp only at h1 ⊢
      rw [h1]
      obtain ⟨st', h2⟩ := hguard
        { t with blocked := t.blocked.del sig, pending := t.pending.add sig, state := st }
        (st = .sleeping)
      exact ⟨_, st', h2⟩
    · rw [if_neg hk, if_neg hk]
      obtain ⟨st, h1⟩ := hguard { t with pending := t.pending.add sig }
        (sig = sigcont ∧ t.state = .stopped)
      dsimp only at h1 ⊢
      rw [h1]
      obtain ⟨st', h2⟩ := hguard { t with pending := t.pending.add sig, state := st }
        (st = .sleeping)
      exact ⟨_, st', h2⟩

theorem Plain.exec (h : σ.Plain) {op : MaskOp} (hop : σ.enabled op) : (σ.exec op).Plain := by
  cases op with
  | procmask how set old => exact plain_procmask h how set old
  | sigaction sig handler flags mask => exact plain_sigaction h sig handler flags mask
  | suspend mask =>
    refine ⟨plainSet_load mask 0, h.actions, h.fixed, ?_, h.frames⟩
    intro b hb
    obtain rfl := Option.some.inj hb
    exact h.blocked
  | resume =>
    show σ.resume.Plain
    unfold resume
    cases hs : σ.saved with
    | none => exact h
    | some b => exact ⟨h.saved b hs, h.actions, h.fixed, nofun, h.frames⟩
  | check => exact plain_check h
  | send sig =>
    obtain ⟨pending, state, heq⟩ := sigEnqueue_eq σ.task sig
    show MaskState.Plain { σ with task := σ.task.sigEnqueue sig }
    rw [heq]
    refine ⟨?_, h.actions, h.fixed, h.saved, h.frames⟩
    dsimp only
    split_ifs with hk
    · exact h.blocked.del (by rcases hk with rfl | rfl <;> decide)
    · exact h.blocked
  | sigreturn frame =>
    obtain ⟨-, f, rest, hfr, hmask⟩ := hop
    show (σ.sigreturn frame).Plain
    unfold sigreturn
    rw [hfr]
    have hf := h.frames
    rw [hfr] at hf
    refine ⟨?_, h.actions, h.fixed, h.saved, fun p hp => hf p (List.mem_cons_of_mem _ hp)⟩
    show PlainSet frame.sigmask
    rw [hmask]
    exact hf f List.mem_cons_self
  | code ctx mem => exact ⟨h.blocked, h.actions, h.fixed, h.saved, h.frames⟩

/-! ### The masks of Linux -/

/-- Every mask blocks what Linux would block, and what was stored is what Linux would have
stored. -/
structure Agrees (σ : MaskState) : Prop where
  blocked : Encodes σ.task.blocked σ.want
  actions : ∀ k, Encodes (σ.task.actions k).mask (σ.wantMask k)
  saved : ∀ b, σ.saved = some b → Encodes b σ.wantSaved
  frames : ∀ p ∈ σ.frames, Encodes p.1 p.2
  olds : ∀ p ∈ σ.olds, p.1 = p.2

end MaskState

/-- The calls that do what Linux does.  A word that is used at all has bit `n` equal to bit `n - 1`
for each signal `n` that it can change, and the old set is asked for only while its word is 0. -/
def MaskOp.Meets (σ : MaskState) : MaskOp → Prop
  | .procmask how set old =>
    (old = true → σ.task.blocked.sig0 = 0) ∧
      ∀ x, set = some x → ∀ n, 1 ≤ n → n ≤ 64 → n ≠ sigkill → n ≠ sigstop →
        Matters how (σ.task.blocked.has n) → x.getLsbD n = x.getLsbD (n - 1)
  | .sigaction sig _ _ mask => MaskState.Takes sig → Shifted mask
  | .suspend mask => Shifted mask
  | _ => True

namespace MaskState

variable {σ τ σ₀ : MaskState}

theorem agrees_procmask_iff (hp : σ.Plain) (h : σ.Agrees) (how : ℕ) (set : Option (BitVec 64))
    (old : Bool) : (σ.procmask how set old).Agrees ↔ (MaskOp.procmask how set old).Meets σ := by
  obtain ⟨hb, ha, hs, hf, ho⟩ := h
  have heq := rtSigprocmask_eq σ.task how set old
  have holds : (∀ p ∈ (σ.procmask how set old).olds, p.1 = p.2) ↔
      (old = true → σ.task.blocked.sig0 = 0) := by
    unfold procmask
    dsimp only
    rw [heq]
    cases old with
    | false => exact ⟨fun _ h => absurd h Bool.false_ne_true, fun _ => ho⟩
    | true =>
      rw [if_pos rfl, ← encodes_stored_iff hb hp.blocked]
      constructor
      · exact fun h _ => h _ List.mem_cons_self
      · intro h p hp
        rcases List.mem_cons.1 hp with rfl | hp
        · exact h rfl
        · exact ho p hp
  have hblocked : Encodes (σ.procmask how set old).task.blocked (σ.procmask how set old).want ↔
      ∀ x, set = some x → ∀ n, 1 ≤ n → n ≤ 64 → n ≠ sigkill → n ≠ sigstop →
        Matters how (σ.task.blocked.has n) → x.getLsbD n = x.getLsbD (n - 1) := by
    unfold procmask
    dsimp only
    rw [heq]
    cases set with
    | none => exact ⟨fun _ x hx => absurd hx (Option.some_ne_none x).symm, fun _ => hb⟩
    | some x =>
      refine (encodes_combine_iff hb).trans ⟨fun h y hy => ?_, fun h => h x rfl⟩
      obtain rfl := Option.some.inj hy
      exact h
  have hactions : (σ.procmask how set old).task.actions = σ.task.actions := by
    unfold procmask
    dsimp only
    rw [heq]
    cases set <;> rfl
  constructor
  · rintro ⟨hb', -, -, -, ho'⟩
    exact ⟨holds.1 ho', hblocked.1 hb'⟩
  · rintro ⟨ho', hb'⟩
    exact ⟨hblocked.2 hb', fun k => by rw [hactions]; exact ha k, hs, hf, holds.2 ho'⟩

theorem agrees_sigaction_iff (h : σ.Agrees) (sig : ℕ) (handler : BitVec 64) (flags : BitVec 32)
    (mask : BitVec 64) : (σ.sigaction sig handler flags mask).Agrees ↔
      (MaskOp.sigaction sig handler flags mask).Meets σ := by
  obtain ⟨hb, ha, hs, hf, ho⟩ := h
  unfold sigaction
  dsimp only
  by_cases ht : Takes sig
  · rw [rtSigaction_ok ht.1 ht.2.1 ht.2.2]
    constructor
    · rintro ⟨-, ha', -⟩ _
      have hsig := ha' sig
      dsimp only at hsig
      rw [update_self, update_self] at hsig
      exact encodes_load_iff.1 hsig
    · intro hm
      refine ⟨hb, fun k => ?_, hs, hf, ho⟩
      dsimp only
      by_cases hk : k = sig
      · rw [hk, update_self, update_self]
        exact encodes_load_iff.2 (hm ht)
      · rw [update_of_ne hk, update_of_ne hk]
        exact ha k
  · rw [rtSigaction_error ht]
    exact ⟨fun _ ht' => absurd ht' ht, fun _ => ⟨hb, ha, hs, hf, ho⟩⟩

theorem agrees_suspend_iff (h : σ.Agrees) (mask : BitVec 64) :
    (σ.suspend mask).Agrees ↔ Shifted mask := by
  obtain ⟨hb, ha, hs, hf, ho⟩ := h
  constructor
  · exact fun h => encodes_load_iff.1 h.blocked
  · intro hm
    refine ⟨encodes_load_iff.2 hm, ha, fun b hb' => ?_, hf, ho⟩
    obtain rfl := Option.some.inj hb'
    exact hb

theorem agrees_check (h : σ.Agrees) : σ.check.Agrees := by
  obtain ⟨hmask, hcase⟩ := sigCheckPending_masks σ.task σ.mem
  have ha : ∀ k, Encodes ((σ.task.sigCheckPending σ.mem).1.actions k).mask (σ.wantMask k) := by
    intro k
    rw [hmask]
    exact h.actions k
  unfold check
  dsimp only
  rcases hcase with ⟨hin, hb⟩ | ⟨hin, hin', s, hs, hb⟩
  · have hidle : ¬(σ.task.inHandler = false ∧ (σ.task.sigCheckPending σ.mem).1.inHandler = true) := by
      rw [hin]
      simp
    rw [if_neg hidle]
    exact ⟨by rw [hb]; exact h.blocked, ha, h.saved, h.frames, h.olds⟩
  · obtain ⟨hlt, -⟩ := deliverable_spec hs
    rw [if_pos ⟨hin, hin'⟩, hs]
    refine ⟨?_, ha, h.saved, ?_, h.olds⟩
    · dsimp only
      rw [hb]
      exact encodes_handlerMask hlt.1 hlt.2 h.blocked (h.actions s)
    · intro p hp
      rcases List.mem_cons.1 hp with rfl | hp
      · exact h.blocked
      · exact h.frames p hp

/-- From a state with the masks of Linux, a step leads to such a state if and only if it meets its
condition. -/
theorem agrees_exec_iff (hp : σ.Plain) (h : σ.Agrees) {op : MaskOp} (hop : σ.enabled op) :
    (σ.exec op).Agrees ↔ op.Meets σ := by
  cases op with
  | procmask how set old => exact agrees_procmask_iff hp h how set old
  | sigaction sig handler flags mask => exact agrees_sigaction_iff h sig handler flags mask
  | suspend mask => exact agrees_suspend_iff h mask
  | resume =>
    refine iff_of_true ?_ trivial
    show σ.resume.Agrees
    unfold resume
    cases hs : σ.saved with
    | none => exact h
    | some b => exact ⟨h.saved b hs, h.actions, nofun, h.frames, h.olds⟩
  | check => exact iff_of_true (agrees_check h) trivial
  | send sig =>
    refine iff_of_true ?_ trivial
    obtain ⟨pending, state, heq⟩ := sigEnqueue_eq σ.task sig
    show MaskState.Agrees { σ with task := σ.task.sigEnqueue sig }
    rw [heq]
    refine ⟨fun n hn hn' => ?_, h.actions, h.saved, h.frames, h.olds⟩
    rw [← h.blocked n hn hn']
    dsimp only
    -- what is taken out of the mask was not in it
    have hdel : ∀ k, k < 64 → σ.task.blocked.has k = false →
        (σ.task.blocked.del k).has n = σ.task.blocked.has n := by
      intro k hk hclear
      rcases Nat.lt_or_eq_of_le hn' with hlt | rfl
      · rw [SigSet.has_del_of_lt _ hlt hk]
        by_cases hnk : n = k
        · rw [hnk, hclear]
          rfl
        · rw [decide_eq_true hnk, Bool.and_true]
      · exact SigSet.has_del_64 _ hk
    split_ifs with hk
    · rcases hk with rfl | rfl
      · exact hdel _ (by decide) hp.blocked.2.1
      · exact hdel _ (by decide) hp.blocked.2.2
    · rfl
  | sigreturn frame =>
    refine iff_of_true ?_ trivial
    obtain ⟨-, f, rest, hfr, hmask⟩ := hop
    show (σ.sigreturn frame).Agrees
    unfold sigreturn
    rw [hfr]
    have hf := h.frames
    rw [hfr] at hf
    refine ⟨?_, h.actions, h.saved, fun p hp => hf p (List.mem_cons_of_mem _ hp), h.olds⟩
    show Encodes frame.sigmask f.2
    rw [hmask]
    exact hf f List.mem_cons_self
  | code ctx mem => exact iff_of_true ⟨h.blocked, h.actions, h.saved, h.frames, h.olds⟩ trivial

/-! ### Runs -/

/-- Any run. -/
def Run : MaskState → MaskState → Prop := Runs enabled exec

/-- A run of steps that meet their conditions. -/
def MeetingRun : MaskState → MaskState → Prop := Runs (fun σ op => σ.enabled op ∧ op.Meets σ) exec

theorem Run.plain {σ₀ : MaskState} (h : σ₀.Run σ) (hp : σ₀.Plain) : σ.Plain :=
  Runs.invariant (fun _ _ hs hop => hs.exec hop) h hp

theorem MeetingRun.run (h : σ₀.MeetingRun σ) : σ₀.Run σ :=
  Runs.mono (fun _ _ hop => hop.1) h

theorem MeetingRun.agrees (h : σ₀.MeetingRun σ) (hp : σ₀.Plain) (ha : σ₀.Agrees) : σ.Agrees := by
  have hkeep : ∀ (s : MaskState) (op : MaskOp), (s.Plain ∧ s.Agrees) → (s.enabled op ∧ op.Meets s) →
      ((s.exec op).Plain ∧ (s.exec op).Agrees) :=
    fun s op hs hop => ⟨hs.1.exec hop.1, (agrees_exec_iff hs.1 hs.2 hop.1).2 hop.2⟩
  exact (Runs.invariant hkeep h ⟨hp, ha⟩).2

theorem Plain.restores (hp : σ.Plain) :
    (σ.task.rtSigprocmask 2 (some (σ.task.blocked.clip 8)) false 8).2.2 = σ.task := by
  have hsize : sigsetBytes 16 8 = some 8 := rfl
  unfold rtSigprocmask
  rw [hsize]
  show { σ.task with blocked := (σ.task.blocked.clip 8).load 8 } = σ.task
  rw [hp.blocked.load_clip]

/-- Beside Linux: a run whose steps meet their conditions has the masks of Linux throughout, from
such a state every other step loses them, and in any run an old set can be set back. -/
theorem maskRun_agrees {σ₀ : MaskState} (hp : σ₀.Plain) (ha : σ₀.Agrees) :
    (∀ σ, σ₀.MeetingRun σ → σ.Agrees ∧ ∀ op, σ.enabled op → ((σ.exec op).Agrees ↔ op.Meets σ)) ∧
      ∀ σ, σ₀.Run σ →
        (σ.task.rtSigprocmask 2 (some (σ.task.blocked.clip 8)) false 8).2.2 = σ.task := by
  refine ⟨fun σ h => ?_, fun σ h => (h.plain hp).restores⟩
  have hagrees := h.agrees hp ha
  exact ⟨hagrees, fun op hop => agrees_exec_iff (h.run.plain hp) hagrees hop⟩

/-- A task that blocks nothing. -/
def fresh : MaskState := ⟨.sample, zeroMem, none, 0, fun _ => 0, 0, [], []⟩

theorem fresh_plain : fresh.Plain :=
  have hempty : PlainSet .empty := ⟨rfl, SigSet.has_empty _, SigSet.has_empty _⟩
  ⟨hempty, fun _ => hempty, fun _ _ => rfl, nofun, nofun⟩

theorem fresh_agrees : fresh.Agrees :=
  ⟨encodes_empty, fun _ => encodes_empty, nofun, nofun, nofun⟩

/-- The task blocks the first nine signals, and the bits of a word are one off only at `SIGKILL`. -/
theorem maskRun_agrees_fresh : (fresh.exec (.procmask 2 (some 0x1FF) false)).Agrees := by
  have hbits : ∀ n < 65, 1 ≤ n → n ≠ sigkill → n ≠ sigstop →
      (0x1FF : BitVec 64).getLsbD n = (0x1FF : BitVec 64).getLsbD (n - 1) := by decide +kernel
  have hmeets : (MaskOp.procmask 2 (some 0x1FF) false).Meets fresh := by
    refine ⟨fun h => absurd h Bool.false_ne_true, fun x hx n hn hn' hk hs _ => ?_⟩
    obtain rfl := Option.some.inj hx
    exact hbits n (by omega) hn hk hs
  have hrun : fresh.MeetingRun (fresh.exec (.procmask 2 (some 0x1FF) false)) :=
    (Runs.refl fresh).tail _ ⟨rfl, hmeets⟩
  exact ((maskRun_agrees fresh_plain fresh_agrees).1 _ hrun).1

/-- A task that blocks `SIGUSR1`, signal 10, blocks nothing. -/
theorem fresh_not_agrees : ¬ ∀ σ₀ σ : MaskState, σ₀.Plain → σ₀.Agrees → σ₀.Run σ → σ.Agrees := by
  intro h
  have hrun : fresh.Run (fresh.exec (.procmask 2 (some (linuxBit 10)) false)) :=
    (Runs.refl fresh).tail _ rfl
  have hbit := (h fresh _ fresh_plain fresh_agrees hrun).blocked 10 (by decide) (by decide)
  exact absurd hbit (by decide +kernel)

end MaskState

end Ridux
