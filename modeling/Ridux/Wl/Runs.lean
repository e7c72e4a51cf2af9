import Ridux.Wl.Callbacks

/-!
# Conditions on requests

Runs of the compositor in which every request satisfies a condition where it is processed.

* `Wl7.clients_request`: no request makes a client come or go;
* `Wl7.OpMeets`: the requests of an operation satisfy a condition;
* `Wl7.handleAll_keeps`: what such requests keep, the messages of a tick keep.
-/

namespace Ridux

open Lib List

namespace Wl7

variable {st : Wl7} {c obj : ℕ}

/-! ### The clients stay -/

theorem clients_eq {st' : Wl7} {v : WlFrames} (h : st'.frames = v) (hv : v.clients = st.clients) :
    st'.clients = st.clients :=
  (congrArg WlFrames.clients h).trans hv

theorem clients_setSurface (i : ℕ) (s : Option WlSurface) : (st.setSurface i s).clients = st.clients :=
  rfl

theorem clients_clearDamage (i : ℕ) : (st.clearDamage i).clients = st.clients := rfl

@[simp] theorem clients_metaSet (st : Wl7) (c id : ℕ) (kind : WlKind) (ref : ℕ) :
    (st.metaSet c id kind ref).clients = st.clients :=
  clients_eq (st.faces_metaSet c id kind ref).1 rfl

@[simp] theorem clients_metaDrop (st : Wl7) (c id : ℕ) : (st.metaDrop c id).clients = st.clients :=
  clients_eq (st.faces_metaDrop c id).1 rfl

@[simp] theorem clients_dropOldCallback (k : ℕ) (old : Option (ℕ × WlCallback)) :
    (st.dropOldCallback c k old).clients = st.clients := by
  unfold dropOldCallback
  split
  · rfl
  next i _ => exact (st.setCallback i none).clients_metaDrop c k

theorem clients_commitCallback (k : ℕ) : (st.commitCallback k).clients = st.clients := by
  unfold commitCallback
  split_ifs
  · rfl
  · split <;> rfl

theorem clients_createSurface (id : ℕ) : (st.createSurface c id).clients = st.clients := by
  unfold createSurface
  split
  · rfl
  next i _ =>
    refine clients_eq (faces_markDamage ..).1 ?_
    exact (st.setSurface i _).clients_metaSet c id .surface 0

theorem clients_frame (k : ℕ) : (st.frame c obj k).clients = st.clients := by
  unfold frame
  split
  · rfl
  · dsimp only
    split
    · exact clients_dropOldCallback _ _
    · exact (clients_metaSet _ _ _ _ _).trans (clients_dropOldCallback _ _)

theorem clients_commit : (st.commit c obj).clients = st.clients := by
  cases hfind : st.findSurface obj with
  | none =>
    unfold commit
    rw [hfind]
  | some p =>
    obtain ⟨st', hst', hcommit⟩ := frames_commit (c := c) hfind
    have hclients : st'.clients = st.clients := congrArg WlFrames.clients hst'
    refine clients_eq hcommit ?_
    split_ifs
    · rfl
    · exact (clients_commitCallback _).trans hclients

theorem clients_dropSurfaceRelated (id : ℕ) :
    (st.dropSurfaceRelated c id).clients = st.clients :=
  clients_eq (frames_dropSurfaceRelated id) rfl

theorem clients_destroySurface : (st.destroySurface c obj).clients = st.clients := by
  unfold destroySurface
  split
  · rfl
  next i s _ =>
    dsimp only
    rw [clients_metaDrop, clients_setSurface, clients_clearDamage, clients_dropSurfaceRelated]
    exact clients_eq (faces_releaseSurfaceBuffers _ s.id).1 rfl

theorem clients_destroyCallback : (st.destroyCallback c obj).clients = st.clients := by
  unfold destroyCallback
  refine (clients_metaDrop _ _ _).trans ?_
  split <;> rfl

theorem clients_request (right : Option ℕ) (r : WlReq) :
    (st.request c obj right r).clients = st.clients := by
  have hquiet : ((st.logRequest c obj r).exec c obj right r).frames = (st.logRequest c obj r).frames →
      (st.request c obj right r).clients = st.clients := congrArg WlFrames.clients
  cases r with
  | createSurface id => exact clients_createSurface id
  | frame k => exact clients_frame k
  | commit => exact clients_commit
  | destroySurface => exact clients_destroySurface
  | destroyCallback => exact clients_destroyCallback
  | _ => exact hquiet (by simp [exec])

theorem lookup_zero : st.lookup c 0 = (none, st) := by
  unfold lookup metaFind
  simp

theorem mem_tickMessages {msgs : ℕ → List (WlMsg × Option ℕ)} {x : ℕ × WlMsg × Option ℕ}
    (hx : x ∈ st.tickMessages msgs) : st.clients x.1 = true := by
  obtain ⟨c, -, hc⟩ := mem_flatMap.1 hx
  split_ifs at hc with hclient
  · obtain ⟨y, -, rfl⟩ := mem_map.1 hc
    exact hclient
  · cases hc

/-! ### Conditions -/

/-- A condition on a request of a client on an object, with the descriptor that came along. -/
abbrev ReqCond := Wl7 → ℕ → ℕ → Option ℕ → WlReq → Prop

/-- The request in a message satisfies `P` where it is processed. -/
def MsgMeets (P : ReqCond) (st : Wl7) (c : ℕ) (m : WlMsg) (right : Option ℕ) : Prop :=
  ∀ kind r, (st.lookup c m.obj).1 = some kind → m.decode kind = some r →
    P (st.lookup c m.obj).2 c m.obj right r

/-- The requests in several messages satisfy `P`, each where it is processed. -/
def AllMeet (P : ReqCond) : Wl7 → List (ℕ × WlMsg × Option ℕ) → Prop
  | _, [] => True
  | st, m :: ms => st.MsgMeets P m.1 m.2.1 m.2.2 ∧ AllMeet P (st.handle m.1 m.2.1 m.2.2) ms

/-- The requests of an operation satisfy `P`; and when a tick has processed its messages, the state and
what can be read satisfy `R`. -/
def OpMeets (P : ReqCond) (R : Wl7 → (ℕ → ℕ → ℕ → WlRead) → Prop) (st : Wl7) : Wl7Op → Prop
  | .attach => True
  | .message c m right => st.clients c = true → st.MsgMeets P c m right
  | .tick msgs src =>
    st.hasWork = true →
      st.advanceClock.AllMeet P (st.tickMessages msgs) ∧
        R (st.advanceClock.handleAll (st.tickMessages msgs)) src
  | .serial => True

variable {P : ReqCond} {Q : Wl7 → Prop} {m : WlMsg}

theorem msgMeets_of {right : Option ℕ} (kind : WlKind) (r : WlReq)
    (hk : (st.lookup c m.obj).1 = some kind) (hd : m.decode kind = some r)
    (hreq : P (st.lookup c m.obj).2 c m.obj right r) : st.MsgMeets P c m right := by
  intro kind' r' hk' hd'
  rw [hk] at hk'
  obtain rfl := Option.some.inj hk'
  rw [hd] at hd'
  obtain rfl := Option.some.inj hd'
  exact hreq

theorem handle_keeps {right : Option ℕ} (hlook : Q (st.lookup c m.obj).2)
    (hreq : ∀ r, m.obj ≠ 0 → P (st.lookup c m.obj).2 c m.obj right r →
      Q ((st.lookup c m.obj).2.request c m.obj right r)) (hmeets : st.MsgMeets P c m right) :
    Q (st.handle c m right) := by
  unfold handle
  dsimp only
  cases hr : (st.lookup c m.obj).1.bind fun kind => m.decode kind with
  | none => exact hlook
  | some r =>
    obtain ⟨kind, hkind, hdec⟩ := Option.bind_eq_some_iff.1 hr
    refine hreq r (fun h0 => ?_) (hmeets kind r hkind hdec)
    rw [h0, lookup_zero] at hkind
    cases hkind

theorem clients_handle (m : WlMsg) (right : Option ℕ) :
    (st.handle c m right).clients = st.clients := by
  have hlook : (st.lookup c m.obj).2.clients = st.clients :=
    clients_eq (st.faces_lookup c m.obj).1 rfl
  unfold handle
  dsimp only
  split
  · exact hlook
  · exact (clients_request _ _).trans hlook

theorem handleAll_keeps {ms : List (ℕ × WlMsg × Option ℕ)}
    (hstep : ∀ st c m right, Q st → st.clients c = true → st.MsgMeets P c m right →
      Q (st.handle c m right))
    (hst : Q st) (hc : ∀ x ∈ ms, st.clients x.1 = true) (hmeets : st.AllMeet P ms) :
    Q (st.handleAll ms) := by
  induction ms generalizing st with
  | nil => exact hst
  | cons x ms ih =>
    obtain ⟨hx, hms⟩ := hmeets
    refine ih (hstep st x.1 x.2.1 x.2.2 hst (hc x (mem_cons_self ..)) hx) (fun y hy => ?_) hms
    rw [clients_handle]
    exact hc y (mem_cons_of_mem x hy)

end Wl7

end Ridux
