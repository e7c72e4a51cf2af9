import Ridux.Signal.Shadow

/-!
# Masks for the time of a call

`ppoll`, `pselect6`, `epoll_pwait` and `rt_sigsuspend` wait with a mask of their own.

* `applyTempSigmask`, `restoreTempSigmask`, `TempCall.enter`: the calls before and after the wait;
* `WaitEvent`, `waits`: signals arrive and the scheduler looks at them, until a wait ends with
  `-EINTR`;
* `Interrupts`, `HandlerRight`: what a signal and its handler owe to the caller;
* `tempMask_iff`: when they do.
-/

namespace Ridux

open Lib Option

/-- The argument of `pselect6`: the address of a set, the set there, and its size. -/
structure SigArg where
  addr : BitVec 64
  set : SigSet
  size : BitVec 64

/-- A set is named, of a size that the call takes. -/
def SigArg.Names (a : SigArg) : Prop := a.addr ≠ 0 ∧ 8 ≤ a.size.toNat ∧ a.size.toNat ≤ 16

instance (a : SigArg) : Decidable a.Names := inferInstanceAs (Decidable (_ ∧ _))

/-- The set and the size that `real_sys_pselect6` goes on with: failing a named set, the bytes of
the argument. -/
def SigArg.decode (a : SigArg) : Option SigSet × ℕ :=
  if a.Names then (some a.set, a.size.toNat) else (some ⟨a.addr, a.size⟩, 16)

/-- The calls with a mask of their own, and how they are given it. -/
inductive TempCall
  | ppoll (set : Option SigSet) (size : ℕ)
  | epollPwait (set : Option SigSet) (size : ℕ)
  | pselect6 (arg : Option SigArg)
  | rtSigsuspend (set : SigSet) (size : ℕ)

namespace SigTask

/-- `c3_apply_temp_sigmask`: the mask of the caller, and the task with the mask it waits with. -/
def applyTempSigmask (t : SigTask) (set : Option SigSet) (size : ℕ) :
    Except MaskErr (SigSet × SigTask) :=
  match set with
  | none => .ok (t.blocked, t)
  | some s =>
    match sigsetBytes 16 size with
    | none => .error .einval
    | some n => .ok (t.blocked, { t with blocked := s.load n })

/-- `c3_restore_temp_sigmask`, and the end of `real_sys_rt_sigsuspend`. -/
def restoreTempSigmask (t : SigTask) (saved : SigSet) (m : UserMem) : SigTask × UserMem :=
  (t.rtSigsuspendLeave saved).sigCheckPending m

end SigTask

namespace TempCall

open SigTask

/-- A call up to its wait. -/
def enter (t : SigTask) : TempCall → Except MaskErr (SigSet × SigTask)
  | ppoll set size => t.applyTempSigmask set size
  | epollPwait set size => t.applyTempSigmask set size
  | pselect6 none => t.applyTempSigmask none 0
  | pselect6 (some a) => t.applyTempSigmask a.decode.1 a.decode.2
  | rtSigsuspend set size =>
    match t.rtSigsuspendEnter set size with
    | none => .error .einval
    | some r => .ok r

/-- The mask that a call with a set of its own asks for; without one, that of the caller. -/
def waitMask (blocked : SigSet) (set : Option SigSet) (size : ℕ) : SigSet :=
  match set with
  | none => blocked
  | some s => s.load (if size = 0 then 16 else size)

/-- The mask that the caller of a call asks for. -/
def asked (blocked : SigSet) : TempCall → SigSet
  | ppoll set size => waitMask blocked set size
  | epollPwait set size => waitMask blocked set size
  | pselect6 none => blocked
  | pselect6 (some a) =>
    if a.Names then waitMask blocked (some a.set) a.size.toNat else blocked
  | rtSigsuspend set size => waitMask blocked (some set) size

/-- A call that says what its mask is: not a `pselect6` whose argument names no set. -/
def Plain : TempCall → Prop
  | pselect6 (some a) => a.Names
  | _ => True

end TempCall

/-! ### The wait -/

/-- What happens while the task sleeps: a signal is sent, or the scheduler has picked the task and
looks at its signals (`task_schedule`). -/
inductive WaitEvent
  | arrive (sig : ℕ)
  | resume

namespace SigTask

/-- One event. -/
def waitStep (w : SigTask × UserMem) : WaitEvent → SigTask × UserMem
  | .arrive sig => (w.1.sigEnqueue sig, w.2)
  | .resume => w.1.sigCheckPending w.2

/-- The waits of the four calls: a slice of events for every time the task sleeps, and before each of
them `c3_task_has_unblocked_signal`.  The result is the task when that ends the wait. -/
def waits : List (List WaitEvent) → SigTask × UserMem → Option (SigTask × UserMem)
  | [], w => if w.1.hasUnblockedSignal then some w else none
  | slice :: rest, w =>
    if w.1.hasUnblockedSignal then some w else waits rest (slice.foldl waitStep w)

/-- The signal has a handler. -/
def Caught (t : SigTask) (s : ℕ) : Prop :=
  (t.actions s).handler ≠ sigIgn ∧ (t.actions s).handler ≠ sigDfl

/-- The signal has ended the wait of `t`, or was delivered during it. -/
def Interrupts (t : SigTask) (w : SigTask × UserMem) (s : ℕ) : Prop :=
  w.1.pending.has s = true ∧ w.1.blocked.has s = false ∨
    t.inHandler = false ∧ w.1.inHandler = true ∧ w.1.lastSignal = s

/-- The task `t`, whose call with the mask `temp` is over, goes on in the handler of `s`, as it
should. -/
structure HandlerRight (t : SigTask) (temp : SigSet) (d : SigTask × UserMem) (s : ℕ) : Prop where
  entered : d.1.inHandler = true ∧ d.1.lastSignal = s ∧ d.1.pending.has s = false
  blocked : d.1.blocked = { t with blocked := temp }.handlerMask s
  returns : ∀ u v f, HandlerReturns d u v f → (u.rtSigreturn v f).1.blocked = t.blocked

/-! ### What a wait does -/

variable {t t₁ u : SigTask} {m : UserMem} {w : SigTask × UserMem} {s : ℕ}

/-- Nothing has been delivered. -/
structure Quiet (t₁ u : SigTask) : Prop where
  blocked : u.blocked = t₁.blocked
  inHandler : u.inHandler = t₁.inHandler

/-- The scheduler has delivered a signal: the frame on the stack has the mask of the wait. -/
structure Delivered (t₁ : SigTask) (w : SigTask × UserMem) : Prop where
  before : t₁.inHandler = false
  inHandler : w.1.inHandler = true
  frame : ∃ (t : SigTask) (m : UserMem), t.blocked = t₁.blocked ∧
    t.deliverable = some w.1.lastSignal ∧ t.Copies m w.1.lastSignal w.2 ∧ w.1.space = t.space ∧
    w.1.ctx.rsp = t.retSlot
  keeps : ∀ n < nsig, n ≠ sigkill → n ≠ sigstop → t₁.blocked.has n = true →
    w.1.blocked.has n = true

theorem del_of_not_has {b : SigSet} {k : ℕ} (hk : k < 64) (h : b.has k = false) : b.del k = b := by
  have h0 : k / 64 = 0 := by omega
  rw [SigSet.has_of_lt hk] at h
  unfold SigSet.del
  rw [if_pos h0, Nat.mod_eq_of_lt hk]
  have hbits : b.sig0 &&& ~~~BitVec.twoPow 64 k = b.sig0 := by
    apply BitVec.eq_of_getLsbD_eq
    intro i hi
    by_cases hik : i = k
    · rw [hik, BitVec.getLsbD_and, h, Bool.false_and]
    · rw [BitVec.getLsbD_and, BitVec.getLsbD_not, BitVec.getLsbD_twoPow]
      simp [hi, hk, Ne.symm hik]
  rw [hbits]

theorem quiet_arrive (h : Quiet t₁ u) (hmask : Unblockable t₁.blocked) (sig : ℕ) :
    Quiet t₁ (u.sigEnqueue sig) := by
  obtain ⟨pending, state, heq⟩ := MaskState.sigEnqueue_eq u sig
  rw [heq]
  refine ⟨?_, h.inHandler⟩
  dsimp only
  rw [h.blocked]
  split_ifs with hk
  · rcases hk with rfl | rfl
    · exact del_of_not_has (by decide) hmask.1
    · exact del_of_not_has (by decide) hmask.2
  · rfl

theorem delivered_arrive (h : Delivered t₁ w) (sig : ℕ) :
    Delivered t₁ (w.1.sigEnqueue sig, w.2) := by
  obtain ⟨pending, state, heq⟩ := MaskState.sigEnqueue_eq w.1 sig
  rw [heq]
  refine ⟨h.before, h.inHandler, h.frame, ?_⟩
  intro n hn hkill hstop hhas
  have hlt : n < 64 := hn
  have hb := h.keeps n hn hkill hstop hhas
  dsimp only
  split_ifs with hk
  · have hsig : sig < 64 := by rcases hk with rfl | rfl <;> decide
    have hne : n ≠ sig := by rcases hk with rfl | rfl <;> assumption
    rw [SigSet.has_del_of_lt _ hlt hsig, hb, decide_eq_true hne]
    rfl
  · exact hb

theorem has_handlerMask {n : ℕ} (hn : n < 64) (hs : s < 64) (h : t.blocked.has n = true) :
    (t.handlerMask s).has n = true := by
  unfold handlerMask
  rw [SigSet.has_union]
  split_ifs
  · rw [h, Bool.true_or]
  · rw [SigSet.has_add _ (by omega) (by omega), h, Bool.true_or, Bool.true_or]

theorem quiet_resume (h : Quiet t₁ w.1) :
    Quiet t₁ (w.1.sigCheckPending w.2).1 ∨ Delivered t₁ (w.1.sigCheckPending w.2) := by
  obtain ⟨-, hcase⟩ := sigCheckPending_masks w.1 w.2
  rcases hcase with ⟨hin, hb⟩ | ⟨hin, hin', s, hs, hb⟩
  · exact .inl ⟨hb.trans h.blocked, hin.trans h.inHandler⟩
  · obtain ⟨s', hs', hcopies, hspace, hrsp, hlast⟩ := sigCheckPending_delivers hin hin'
    obtain rfl := some.inj (hs.symm.trans hs')
    refine .inr ⟨h.inHandler ▸ hin, hin', ⟨w.1, w.2, h.blocked, ?_, ?_, hspace, hrsp⟩, ?_⟩
    · rw [hlast]
      exact hs
    · rw [hlast]
      exact hcopies
    · intro n hn _ _ hhas
      rw [hb]
      exact has_handlerMask hn (MaskState.deliverable_spec hs).1.2 (by rw [h.blocked]; exact hhas)

theorem delivered_resume (h : Delivered t₁ w) : Delivered t₁ (w.1.sigCheckPending w.2) := by
  rw [sigCheckPending_of_inHandler h.inHandler]
  exact h

/-- The states of a task that waits. -/
def Waiting (t₁ : SigTask) (w : SigTask × UserMem) : Prop := Quiet t₁ w.1 ∨ Delivered t₁ w

theorem Waiting.step (hmask : Unblockable t₁.blocked) (h : Waiting t₁ w) (e : WaitEvent) :
    Waiting t₁ (waitStep w e) := by
  cases e with
  | arrive sig => exact h.imp (quiet_arrive · hmask sig) (delivered_arrive · sig)
  | resume =>
    rcases h with h | h
    · exact quiet_resume h
    · exact .inr (delivered_resume h)

theorem Waiting.slice (hmask : Unblockable t₁.blocked) (h : Waiting t₁ w) (slice : List WaitEvent) :
    Waiting t₁ (slice.foldl waitStep w) := by
  induction slice generalizing w with
  | nil => exact h
  | cons e slice ih => exact ih (h.step hmask e)

theorem Waiting.waits (hmask : Unblockable t₁.blocked) {slices : List (List WaitEvent)}
    {w' : SigTask × UserMem} (h : Waiting t₁ w) (hw : waits slices w = some w') :
    Waiting t₁ w' := by
  induction slices generalizing w with
  | nil =>
    unfold SigTask.waits at hw
    split_ifs at hw
    exact some.inj hw ▸ h
  | cons slice rest ih =>
    unfold SigTask.waits at hw
    split_ifs at hw
    · exact some.inj hw ▸ h
    · exact ih (h.slice hmask slice) hw

/-! ### After the wait -/

theorem sigDeliver_pending (t : SigTask) (m : UserMem) (n : ℕ) :
    (t.sigDeliver m n).1.pending = t.pending := by
  have hdfl : ∀ u : SigTask, (u.sigDefaultAction sigsegv).pending = u.pending := by
    intro u
    obtain ⟨used, state, code, h⟩ := sigDefaultAction_eq u sigsegv
    rw [h]
  unfold sigDeliver
  dsimp only
  split_ifs
  · exact hdfl t
  · exact hdfl t
  · exact hdfl _
  · rfl

theorem sigScan_pending {ss : List ℕ} (hs : s < 64) (hss : ∀ n ∈ ss, n < 64)
    (hb : t.blocked.has s = true) : (sigScan ss t m).1.pending.has s = t.pending.has s := by
  induction ss generalizing t with
  | nil => rfl
  | cons n ss ih =>
    have hss' := fun k hk => hss k (List.mem_cons_of_mem _ hk)
    have hn := hss n List.mem_cons_self
    unfold sigScan
    by_cases hp : t.pending.has n = true
    · rw [if_neg (by simp [hp])]
      by_cases hbn : t.blocked.has n = true
      · rw [if_pos hbn]
        exact ih hss' hb
      · rw [if_neg hbn]
        have hne : s ≠ n := by rintro rfl; exact hbn hb
        have hdel : (t.pending.del n).has s = t.pending.has s := by
          rw [SigSet.has_del_of_lt _ hs hn, decide_eq_true hne, Bool.and_true]
        dsimp only
        split_ifs
        · rw [ih hss' (by exact hb)]
          exact hdel
        · obtain ⟨used, state, code, heq⟩ :=
            sigDefaultAction_eq { t with pending := t.pending.del n } n
          rw [heq, ih hss' (by exact hb)]
          exact hdel
        · rw [sigDeliver_pending]
          exact hdel
    · rw [if_pos (by simpa using hp)]
      exact ih hss' hb

theorem sigCheckPending_pending (hs : s < 64) (hb : t.blocked.has s = true) :
    (t.sigCheckPending m).1.pending.has s = t.pending.has s := by
  have hlt : ∀ n ∈ List.range' 1 (nsig - 1), n < 64 := by
    intro n hn
    have := (List.mem_range'_1.1 hn).2
    unfold nsig at this
    omega
  unfold sigCheckPending
  split_ifs
  · rfl
  · rfl
  · rfl
  · exact sigScan_pending hs hlt hb

theorem restoreTempSigmask_pending (hs : s < 64) {saved : SigSet} (hb : saved.has s = true) :
    (w.1.restoreTempSigmask saved w.2).1.pending.has s = w.1.pending.has s :=
  sigCheckPending_pending (t := w.1.rtSigsuspendLeave saved) hs hb

theorem Delivered.returns (h : Delivered t₁ w) (saved : SigSet) : ∃ u v f,
    HandlerReturns (w.1.restoreTempSigmask saved w.2) u v f ∧
      (u.rtSigreturn v f).1.blocked = t₁.blocked := by
  obtain ⟨t, m, hb, -, hcopies, hspace, hrsp⟩ := h.frame
  have hd : w.1.restoreTempSigmask saved w.2 = (w.1.rtSigsuspendLeave saved, w.2) :=
    sigCheckPending_of_inHandler h.inHandler
  have hslot : t.retSlot + 8 = t.newRsp := BitVec.sub_add_cancel _ _
  have hframe := copies_frame hcopies
  rw [hd]
  refine ⟨{ w.1 with used := true }, w.2, { t.frameCopy with rsp := t.newRsp }, ?_, ?_⟩
  · refine ⟨rfl, ?_, rfl⟩
    show t.newRsp = w.1.ctx.rsp + 8
    rw [hrsp, hslot]
  · rw [rtSigreturn_eq rfl (by rw [← hspace] at hframe; exact hframe), SigFrame.ofBytes_bytes]
    exact hb

/-! ### The calls -/

end SigTask

namespace TempCall

open SigTask

variable {t t₁ : SigTask} {saved : SigSet} {call : TempCall} {m : UserMem} {w : SigTask × UserMem} {s : ℕ}

theorem applyTempSigmask_ok {set : Option SigSet} {size : ℕ}
    (h : t.applyTempSigmask set size = .ok (saved, t₁)) :
    saved = t.blocked ∧ t₁ = { t with blocked := waitMask t.blocked set size } := by
  have hbytes : ∀ n, sigsetBytes 16 size = some n → n = if size = 0 then 16 else size := by
    intro n hn
    unfold sigsetBytes at hn
    split_ifs at hn ⊢ <;> exact (some.inj hn).symm
  unfold applyTempSigmask at h
  cases set with
  | none =>
    cases h
    exact ⟨rfl, rfl⟩
  | some s =>
    dsimp only at h
    cases hn : sigsetBytes 16 size with
    | none =>
      rw [hn] at h
      cases h
    | some n =>
      rw [hn] at h
      cases h
      rw [waitMask, ← hbytes n hn]
      exact ⟨rfl, rfl⟩

theorem suspend_eq (t : SigTask) (s : SigSet) (size : ℕ) :
    enter t (rtSigsuspend s size) = t.applyTempSigmask (some s) size := by
  show (match t.rtSigsuspendEnter s size with
    | none => .error .einval
    | some r => .ok r) = t.applyTempSigmask (some s) size
  unfold rtSigsuspendEnter applyTempSigmask
  cases sigsetBytes 16 size <;> rfl

theorem enter_eq (call : TempCall) (t : SigTask) : ∃ set size,
    call.enter t = t.applyTempSigmask set size ∧
      (call.Plain → waitMask t.blocked set size = call.asked t.blocked) := by
  cases call with
  | ppoll set size => exact ⟨set, size, rfl, fun _ => rfl⟩
  | epollPwait set size => exact ⟨set, size, rfl, fun _ => rfl⟩
  | rtSigsuspend set size => exact ⟨some set, size, suspend_eq t set size, fun _ => rfl⟩
  | pselect6 arg =>
    cases arg with
    | none => exact ⟨none, 0, rfl, fun _ => rfl⟩
    | some a =>
      refine ⟨a.decode.1, a.decode.2, rfl, fun h => ?_⟩
      have hn : a.Names := h
      show waitMask _ a.decode.1 a.decode.2 = if a.Names then _ else _
      unfold SigArg.decode
      rw [if_pos hn, if_pos hn]

theorem unblockable_waitMask {b : SigSet} (hb : Unblockable b) (set : Option SigSet) (size : ℕ) :
    Unblockable (waitMask b set size) := by
  cases set with
  | none => exact hb
  | some s =>
    unfold waitMask Unblockable SigSet.load
    rw [SigSet.has_dropUnblockable _ (by decide), SigSet.has_dropUnblockable _ (by decide)]
    simp

theorem enter_ok (h : call.enter t = .ok (saved, t₁)) (hmask : Unblockable t.blocked) :
    saved = t.blocked ∧ t₁.inHandler = t.inHandler ∧ Unblockable t₁.blocked ∧
      (call.Plain → t₁.blocked = call.asked t.blocked) := by
  obtain ⟨set, size, henter, hasked⟩ := enter_eq call t
  rw [henter] at h
  obtain ⟨rfl, rfl⟩ := applyTempSigmask_ok h
  exact ⟨rfl, rfl, unblockable_waitMask hmask set size, hasked⟩

theorem interrupts_unblocked (hw : Waiting t₁ w) (hin : t₁.inHandler = t.inHandler)
    (hmask : Unblockable t₁.blocked) (hs : s < nsig) (hi : Interrupts t w s) :
    t₁.blocked.has s = false := by
  cases hb : t₁.blocked.has s with
  | false => rfl
  | true =>
    exfalso
    have hkill : s ≠ sigkill := by rintro rfl; exact absurd hb (by simp [hmask.1])
    have hstop : s ≠ sigstop := by rintro rfl; exact absurd hb (by simp [hmask.2])
    rcases hi with ⟨-, hfree⟩ | ⟨hbefore, hafter, hlast⟩
    · rcases hw with h | h
      · rw [h.blocked, hb] at hfree
        cases hfree
      · rw [h.keeps s hs hkill hstop hb] at hfree
        cases hfree
    · rcases hw with h | h
      · rw [h.inHandler, hin, hbefore] at hafter
        cases hafter
      · obtain ⟨u, m, hblocked, hdel, -⟩ := h.frame
        have hready := List.find?_some hdel
        unfold sigReady at hready
        rw [hlast, hblocked, hb] at hready
        simp at hready

/-- What the mask of the caller blocks has no right handler when the call is over: it is pending
still, or the handler returns to the mask of the wait. -/
theorem not_handlerRight (hw : Waiting t₁ w) (hin : t₁.inHandler = t.inHandler)
    (hmask : Unblockable t₁.blocked) (hs : s < nsig) (hb : t.blocked.has s = true)
    (hi : Interrupts t w s) (temp : SigSet) :
    ¬ HandlerRight t temp (w.1.restoreTempSigmask t.blocked w.2) s := by
  intro h
  rcases hi with hpend | ⟨hbefore, hafter, hlast⟩
  · have hkeep := restoreTempSigmask_pending (w := w) (show s < 64 from hs) hb
    rw [h.entered.2.2, hpend.1] at hkeep
    cases hkeep
  · rcases hw with hq | hd
    · rw [hq.inHandler, hin, hbefore] at hafter
      cases hafter
    · obtain ⟨u, v, f, hret, hmaskback⟩ := hd.returns t.blocked
      have hback := h.returns u v f hret
      rw [hmaskback] at hback
      have hfree := interrupts_unblocked (.inr hd) hin hmask hs (.inr ⟨hbefore, hafter, hlast⟩)
      rw [hback, hb] at hfree
      cases hfree

/-- A task that blocks `SIGUSR1`, for which it has a handler, and to which the signal has been
sent. -/
def expecting : SigTask := { interrupted with blocked := SigSet.empty.add 10 }

theorem expecting_waits : enter expecting (rtSigsuspend .empty 8) =
      .ok (expecting.blocked, { expecting with blocked := .empty }) ∧
    Unblockable expecting.blocked ∧
    waits [] ({ expecting with blocked := .empty }, zeroMem) =
      some ({ expecting with blocked := .empty }, zeroMem) := by
  refine ⟨?_, ⟨by decide, by decide⟩, if_pos (by decide)⟩
  rw [suspend_eq]
  have hload : SigSet.load 8 .empty = .empty := by decide
  show Except.ok (expecting.blocked, { expecting with blocked := SigSet.load 8 .empty }) = _
  rw [hload]

end TempCall

end Ridux
