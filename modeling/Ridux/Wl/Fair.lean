import Ridux.Wl.Runs

/-!
# Runs of fair clients

Runs of the compositor in which every request is fair.

* `Wl7.FairOp`: the requests of an operation are fair where they are processed;
* `Wl7.Ordered`: the invariant;
* `Wl7.fairRun_answered`: the configures are in turn, and no frame callback is lost.
-/

namespace Ridux

open Lib Function List

namespace Wl7

/-- The requests of an operation are fair. -/
def FairOp : Wl7 → Wl7Op → Prop := OpMeets (fun st c obj _ r => st.Fair c obj r) fun _ _ => True

variable {st : Wl7} {c obj : ℕ} {m : List (ℕ × ℕ)} {calm : Prop}

/-! ### One message -/

/-- The roles and the frame callbacks agree with what has gone over the sockets. -/
structure Ordered (st : Wl7) (calm : Prop) (m : List (ℕ × ℕ)) : Prop where
  roles : st.roles.Ok
  frames : st.FramesOk calm m

theorem Ordered.congr {st' : Wl7} (h : st.Ordered calm m) (hroles : st'.roles = st.roles)
    (hframes : st'.frames = st.frames) : st'.Ordered calm m :=
  ⟨hroles ▸ h.roles, h.frames.congr hframes⟩

theorem Ordered.request (h : st.Ordered calm m) {right : Option ℕ} {r : WlReq} (hobj : obj ≠ 0)
    (hc : st.clients c = true) (hfair : st.Fair c obj r) :
    (st.request c obj right r).Ordered calm m :=
  ⟨ok_request h.roles hobj hfair, framesOk_request h.frames hobj hc hfair⟩

theorem Ordered.handle (h : st.Ordered calm m) {msg : WlMsg} {right : Option ℕ}
    (hc : st.clients c = true)
    (hfair : st.MsgMeets (fun st c obj _ r => st.Fair c obj r) c msg right) :
    (st.handle c msg right).Ordered calm m := by
  have hlook : (st.lookup c msg.obj).2.Ordered calm m :=
    h.congr (st.faces_lookup c msg.obj).2.1 (st.faces_lookup c msg.obj).1
  have hclients : (st.lookup c msg.obj).2.clients = st.clients :=
    clients_eq (st.faces_lookup c msg.obj).1 rfl
  exact handle_keeps (Q := fun st => st.Ordered calm m) hlook
    (fun r hobj hreq => hlook.request hobj (hclients ▸ hc) hreq) hfair

/-! ### The clock -/

theorem Ordered.advanceClock (h : st.Ordered True m) :
    st.advanceClock.Ordered False st.seen.commits := by
  refine ⟨h.roles, ⟨?_, ?_⟩⟩
  · have hok := h.frames.ok
    refine { hok with due := fun i cb hi hp => .inl ?_ }
    exact (hok.due i cb hi hp).resolve_left (h.frames.recent.calm trivial i cb hi hp)
  · refine ⟨fun _ => le_rfl, fun i cb hi hp hd => absurd ?_ hd, False.elim⟩
    exact (h.frames.ok.due i cb hi hp).resolve_left (h.frames.recent.calm trivial i cb hi hp)

theorem not_pending_of_idle (h : st.Ordered calm m) (hidle : st.hasWork = false) {i : ℕ}
    {cb : WlCallback} (hi : st.callbacks i = some cb) : cb.pending = false := by
  have hlt := (h.frames.ok.callbackLt i cb hi).1
  unfold hasWork at hidle
  rw [Bool.or_eq_false_iff] at hidle
  have hcb := any_eq_false.1 hidle.2 i (mem_range.2 hlt)
  rw [hi] at hcb
  simpa using hcb

theorem Ordered.tick {msgs : ℕ → List (WlMsg × Option ℕ)} {src : ℕ → ℕ → ℕ → WlRead}
    (h : st.Ordered True m) (hfair : st.FairOp (.tick msgs src)) :
    (st.tick msgs src).Ordered True st.seen.commits := by
  unfold Wl7.tick
  cases hwork : st.hasWork with
  | false =>
    refine ⟨h.roles, h.frames.ok, fun _ => le_rfl, fun i cb hi hp _ => ?_, h.frames.recent.calm⟩
    rw [not_pending_of_idle h hwork hi] at hp
    cases hp
  | true =>
    have hall : (st.advanceClock.handleAll (st.tickMessages msgs)).Ordered False st.seen.commits :=
      handleAll_keeps (Q := fun s => s.Ordered False st.seen.commits)
        (fun _ _ _ _ hs hc hreq => hs.handle hc hreq) h.advanceClock (fun x hx => mem_tickMessages hx)
        (hfair hwork).1
    exact ⟨(roles_finishTick _ src).symm ▸ hall.roles, framesOk_finishTick hall.frames src⟩

/-! ### Runs -/

theorem Ordered.start (w h stride : ℕ) : (Wl7.start w h stride).Ordered True [] := by
  have hroles : (Wl7.start w h stride).roles.Ok := by
    constructor <;> intros <;> contradiction
  have hframes : (Wl7.start w h stride).frames.Ok :=
    { surfaceLt := fun _ _ hi => by cases hi
      surfaceOnly := fun _ _ _ _ hi => by cases hi
      surface := fun _ _ hi => by cases hi
      callbackLt := fun _ _ hi => by cases hi
      callback := fun _ _ hi => by cases hi
      callbackOnly := fun _ _ _ _ hi => by cases hi
      requested := fun _ _ hi => by cases hi
      idle := fun _ _ _ => rfl
      waiting := fun _ _ hi => by cases hi
      settled := fun _ _ _ => rfl
      due := fun _ _ hi => by cases hi }
  exact ⟨hroles, hframes, fun _ => le_rfl, fun _ _ hi => (by cases hi), fun _ _ _ hi => (by cases hi)⟩

theorem Ordered.attachClient (h : st.Ordered calm m) : st.attachClient.Ordered calm m := by
  refine ⟨st.roles_attachClient.symm ▸ h.roles, ?_⟩
  unfold Wl7.attachClient
  split
  · exact h.frames
  next c _ =>
    have hv : (({ st with
          clients := update st.clients c true
          objmeta := update st.objmeta c fun _ => none
          outputObj := update st.outputObj c 0 } : Wl7).metaSet c 1 .display 0).frames =
        { st.frames with clients := update st.frames.clients c true } := by
      rw [(faces_metaSet ..).1]
      rfl
    have hok := h.frames.ok
    refine ⟨?_, ?_⟩
    · rw [hv]
      refine { hok with callbackLt := fun i cb hi => ?_ }
      obtain ⟨hlt, hid, hs, hc⟩ := hok.callbackLt i cb hi
      refine ⟨hlt, hid, hs, ?_⟩
      change update st.frames.clients c true cb.clientIdx = true
      by_cases hcc : cb.clientIdx = c
      · rw [hcc, update_self]
      · rwa [update_of_ne hcc]
    · rw [hv]
      exact h.frames.recent.of_sub rfl (fun _ => le_rfl) fun _ _ hi _ => hi

theorem Ordered.forget (h : st.Ordered calm m) : st.Ordered calm [] := by
  refine ⟨h.roles, h.frames.ok, fun a => ?_, fun i cb hi hp hd => ?_, h.frames.recent.calm⟩
  · rw [count_nil]
    exact Nat.zero_le _
  · rw [count_nil]
    exact (Nat.zero_le _).trans_lt (h.frames.recent.callback i cb hi hp hd)

theorem Ordered.step (h : st.Ordered True []) {op : Wl7Op} (hfair : st.FairOp op) :
    (st.step op).Ordered True [] := by
  cases op with
  | attach => exact h.attachClient
  | message c msg right =>
    change (if st.clients c then st.handle c msg right else st).Ordered True []
    by_cases hc : st.clients c = true
    · rw [if_pos hc]
      exact h.handle hc (hfair hc)
    · rw [if_neg hc]
      exact h
  | tick msgs src => exact (h.tick hfair).forget
  | serial => exact h.congr st.faces_nextSerial.2.1 st.faces_nextSerial.1

theorem ordered_of_run {w h stride : ℕ} (hrun : Runs FairOp step (start w h stride) st) :
    st.Ordered True [] :=
  Runs.invariant (P := fun st => st.Ordered True []) (fun _ _ hst hop => hst.step hop) hrun
    (.start w h stride)

/-- The frame callback `k` of the client `c` waits, for the surface `id`. -/
def Waits (st : Wl7) (c id k : ℕ) : Prop :=
  ∃ i cb, st.callbacks i = some cb ∧ cb.pending = true ∧ cb.clientIdx = c ∧ cb.surfaceId = id ∧
    cb.id = k

/-- The configures are in turn, and each frame callback that was committed is done once, or waits. -/
structure Answered (st : Wl7) : Prop where
  xdg : ∀ i xs, st.xdgSurfaces i = some xs →
    xs.conf.InTurn (st.seen.offers (.xdg xs.clientIdx xs.id))
  layer : ∀ i ls, st.layerSurfaces i = some ls →
    ls.conf.InTurn (st.seen.offers (.layer ls.clientIdx ls.id))
  waiting : ∀ c id k, st.Waits c id k →
    st.seen.committed.count (c, k) = st.seen.done.count (c, k) + 1
  settled : ∀ c k, (∀ id, ¬st.Waits c id k) →
    st.seen.committed.count (c, k) = st.seen.done.count (c, k)

theorem Ordered.answered (h : st.Ordered calm m) : st.Answered where
  xdg i xs hi := (h.roles.xdg i xs hi).2.inTurn
  layer i ls hi := (h.roles.layer i ls hi).2.inTurn
  waiting := by
    rintro c id k ⟨i, cb, hi, hp, rfl, -, rfl⟩
    exact h.frames.ok.waiting i cb hi hp
  settled c k hnone :=
    h.frames.ok.settled c k fun i cb hi hp he => hnone cb.surfaceId ⟨i, cb, hi, hp, he.1, rfl, he.2⟩

/-- A request of the first client, whose arguments are words. -/
def ask (obj opcode : ℕ) (words : List ℕ) : Wl7Op :=
  .message 0 ⟨obj, opcode, words.flatMap (leBytes 4)⟩ none

/-- A state after some operations on a screen of 640 by 480. -/
def after (ops : List Wl7Op) : Wl7 := ops.foldl step (start 640 480 640)

/-- A client that makes a surface. -/
def surfaceOps : List Wl7Op := [.attach, ask 2 0 [3, 0, 1, 3], ask 3 0 [4]]

/-- And commits it. -/
def commitOps : List Wl7Op := surfaceOps ++ [ask 4 6 []]

/-- A client that acknowledges a serial which it was never sent. -/
def staleOps : List Wl7Op :=
  [.attach, ask 2 0 [8, 0, 1, 3], ask 2 0 [3, 0, 1, 4], ask 4 0 [5], ask 3 2 [6, 5], ask 5 6 [],
    ask 6 4 [99]]

theorem run_after (ops : List Wl7Op) {op : Wl7Op}
    (hrun : Runs FairOp step (start 640 480 640) (after ops)) (hop : (after ops).FairOp op) :
    Runs FairOp step (start 640 480 640) (after (ops ++ [op])) := by
  unfold after
  rw [foldl_append]
  exact hrun.tail op hop

theorem owns_of_surfaces (id : ℕ) (hs : ∀ i s, st.surfaces i = some s → s.clientIdx = c)
    (hcb : st.callbacks = fun _ => none) (hxdg : st.xdgSurfaces = fun _ => none)
    (htop : st.xdgToplevels = fun _ => none) (hlayer : st.layerSurfaces = fun _ => none) :
    st.Owns c id where
  surface i s hi _ := hs i s hi
  callback i cb hi := by
    rw [hcb] at hi
    cases hi
  xdg i xs hi := by
    rw [hxdg] at hi
    cases hi
  toplevel i tl hi := by
    rw [htop] at hi
    cases hi
  layer i ls hi := by
    rw [hlayer] at hi
    cases hi

end Wl7

end Ridux
