import Ridux.Wl.Configure
import Ridux.Wl.Ledger

/-!
# Three faces of the state

What `display_wayland.c` keeps about roles, about frame callbacks and about buffers, compared with what
has gone over the sockets.

* `WlFrames`, `WlStage`: the parts of the state that are about frame callbacks and about buffers;
* `Wl7.roles`, `Wl7.frames`, `Wl7.stage`: the three parts of a state;
* `faces_…`: the functions that leave two of them, or all three, alone.
-/

namespace Ridux

open Lib Function

/-- What links a surface to its frame callback. -/
structure WlOwner where
  id : ℕ
  clientIdx : ℕ
  frameCallbackId : ℕ

/-- What links a surface to its frame callback. -/
def WlSurface.owner (s : WlSurface) : WlOwner := ⟨s.id, s.clientIdx, s.frameCallbackId⟩

/-- The part of the state that is about frame callbacks. -/
structure WlFrames where
  clients : ℕ → Bool
  clock : ℕ
  surfaces : ℕ → Option WlOwner
  callbacks : ℕ → Option WlCallback
  commits : List (ℕ × ℕ)
  requested : ℕ × ℕ → List ℕ
  committed : List (ℕ × ℕ)
  done : List (ℕ × ℕ)

namespace WlFrames

variable (v : WlFrames)

/-- A slot of the surfaces is written. -/
def setSurface (i : ℕ) (s : Option WlOwner) : WlFrames :=
  { v with surfaces := update v.surfaces i s }

/-- A slot of the callbacks is written. -/
def setCallback (i : ℕ) (cb : Option WlCallback) : WlFrames :=
  { v with callbacks := update v.callbacks i cb }

/-- An event for the client `c`. -/
@[simp] def event (c : ℕ) : WlEvent → WlFrames
  | .callbackDone cb _ => { v with done := v.done ++ [(c, cb)] }
  | _ => v

end WlFrames

/-- What links a surface to its buffers. -/
structure WlShown where
  id : ℕ
  clientIdx : ℕ
  bufferId : ℕ
  attachedBuffer : ℕ
  mapped : Bool

/-- What links a surface to its buffers. -/
def WlSurface.shown (s : WlSurface) : WlShown :=
  ⟨s.id, s.clientIdx, s.bufferId, s.attachedBuffer, s.mapped⟩

/-- The part of the state that is about buffers. -/
structure WlStage where
  clients : ℕ → Bool
  surfaces : ℕ → Option WlShown
  pending : ℕ → Bool
  pools : ℕ → Option WlPool
  buffers : ℕ → Option WlBuffer
  stride : ℕ
  ledger : WlLedger

namespace WlStage

variable (v : WlStage)

/-- A slot of the surfaces is written. -/
def setSurface (i : ℕ) (s : Option WlShown) : WlStage :=
  { v with surfaces := update v.surfaces i s }

/-- A slot of the buffers is written. -/
def setBuffer (j : ℕ) (b : Option WlBuffer) : WlStage :=
  { v with buffers := update v.buffers j b }

/-- A slot of the pools is written. -/
def setPool (i : ℕ) (p : Option WlPool) : WlStage := { v with pools := update v.pools i p }

/-- The release for a slot of the surfaces is due, or not. -/
def setPending (i : ℕ) (due : Bool) : WlStage :=
  { v with pending := update v.pending i due }

/-- Something is recorded. -/
def record (c : ℕ) (x : WlItem) : WlStage := { v with ledger := v.ledger.item c x }

end WlStage

/-- An event for the client `c`. -/
@[simp] def WlRoles.event (v : WlRoles) (c : ℕ) : WlEvent → WlRoles
  | .xdgConfigure id s => v.offer (.xdg c id) fun o => o.send s
  | .layerConfigure id s _ _ => v.offer (.layer c id) fun o => o.send s
  | _ => v

namespace Wl7

/-- The part of the state that is about frame callbacks. -/
def frames (st : Wl7) : WlFrames where
  clients := st.clients
  clock := st.frameClockMs
  surfaces i := (st.surfaces i).map WlSurface.owner
  callbacks := st.callbacks
  commits := st.seen.commits
  requested := st.seen.requested
  committed := st.seen.committed
  done := st.seen.done

variable (st : Wl7)

/-- The part of the state that is about roles. -/
def roles : WlRoles where
  xdg := st.xdgSurfaces
  top j := (st.xdgToplevels j).map WlXdgToplevel.top
  layer := st.layerSurfaces
  offers := st.seen.offers
  shellOf := st.seen.shellOf

/-- The part of the state that is about buffers. -/
def stage (st : Wl7) : WlStage where
  clients := st.clients
  surfaces i := (st.surfaces i).map WlSurface.shown
  pending := st.releasePending
  pools := st.pools
  buffers := st.buffers
  stride := st.fbStride
  ledger := st.ledger

section Quiet

variable (c i id : ℕ) {s s' : WlSurface}

/-! ### Events -/

@[simp] theorem frames_send (e : WlEvent) : (st.send c e).frames = st.frames.event c e := by
  unfold frames
  rw [seen_send]
  cases e <;> rfl

@[simp] theorem roles_send (e : WlEvent) : (st.send c e).roles = st.roles.event c e := by
  unfold roles
  rw [seen_send]
  cases e <;> rfl

theorem stage_record (x : WlItem) : (st.record c x).stage = st.stage.record c x := by
  unfold stage
  rw [ledger_record]
  rfl

/-- An event leaves the ledger alone, unless it is a release. -/
def quietEvent : WlEvent → Bool
  | .bufferRelease _ => false
  | _ => true

theorem stage_send {e : WlEvent} (he : quietEvent e = true) : (st.send c e).stage = st.stage := by
  unfold send
  rw [stage_record]
  cases e with
  | bufferRelease k => cases he
  | _ => rfl

@[simp] theorem stage_events :
    (∀ k t, (st.send c (.callbackDone k t)).stage = st.stage) ∧
    (∀ k t, (st.send c (.syncDone k t)).stage = st.stage) ∧
    (∀ k, (st.send c (.deleteId k)).stage = st.stage) ∧
    (∀ s o, (st.send c (.surfaceEnter s o)).stage = st.stage) ∧
    (∀ s o, (st.send c (.surfaceLeave s o)).stage = st.stage) ∧
    (∀ w n, (st.send c (.ping w n)).stage = st.stage) ∧
    (∀ xs n, (st.send c (.xdgConfigure xs n)).stage = st.stage) ∧
    (∀ t w h a, (st.send c (.toplevelConfigure t w h a)).stage = st.stage) ∧
    (∀ l n w h, (st.send c (.layerConfigure l n w h)).stage = st.stage) := by
  refine ⟨?_, ?_, ?_, ?_, ?_, ?_, ?_, ?_, ?_⟩ <;> intros <;> exact st.stage_send c rfl

/-! ### Slots -/

theorem frames_setSurface (s : Option WlSurface) :
    (st.setSurface i s).frames = st.frames.setSurface i (s.map WlSurface.owner) := by
  unfold frames setSurface WlFrames.setSurface
  congr 1
  funext k
  by_cases hk : k = i
  · subst hk
    simp
  · simp [hk]

theorem frames_setSurface_same {st : Wl7} {i : ℕ} (hi : st.surfaces i = some s)
    (ho : s'.owner = s.owner) : (st.setSurface i (some s')).frames = st.frames := by
  rw [frames_setSurface]
  have hsame : st.frames.surfaces i = some s'.owner := by
    change (st.surfaces i).map _ = _
    rw [hi, ho]
    rfl
  unfold WlFrames.setSurface
  rw [Option.map_some, ← hsame, update_eq_self]

theorem stage_setSurface (s : Option WlSurface) :
    (st.setSurface i s).stage = st.stage.setSurface i (s.map WlSurface.shown) := by
  unfold stage setSurface WlStage.setSurface
  congr 1
  funext k
  by_cases hk : k = i
  · subst hk
    simp
  · simp [hk]

theorem stage_setSurface_same {st : Wl7} {i : ℕ} (hi : st.surfaces i = some s)
    (ho : s'.shown = s.shown) : (st.setSurface i (some s')).stage = st.stage := by
  rw [stage_setSurface]
  have hsame : st.stage.surfaces i = some s'.shown := by
    change (st.surfaces i).map _ = _
    rw [hi, ho]
    rfl
  unfold WlStage.setSurface
  rw [Option.map_some, ← hsame, update_eq_self]

@[simp] theorem roles_setSurface (s : Option WlSurface) : (st.setSurface i s).roles = st.roles := rfl

theorem frames_forSurfaces {f : WlSurface → WlSurface} (hf : ∀ s, (f s).owner = s.owner) :
    (st.forSurfaces f).frames = st.frames := by
  unfold frames forSurfaces
  congr 1
  funext k
  dsimp only
  rw [Option.map_map]
  exact congrArg (fun g => (st.surfaces k).map g) (funext hf)

@[simp] theorem roles_forSurfaces (f : WlSurface → WlSurface) :
    (st.forSurfaces f).roles = st.roles := rfl

@[simp] theorem faces_setBuffer (b : Option WlBuffer) : (st.setBuffer i b).frames = st.frames ∧
    (st.setBuffer i b).roles = st.roles ∧ (st.setBuffer i b).stage = st.stage.setBuffer i b :=
  ⟨rfl, rfl, rfl⟩

@[simp] theorem faces_setPool (p : Option WlPool) : (st.setPool i p).frames = st.frames ∧
    (st.setPool i p).roles = st.roles ∧ (st.setPool i p).stage = st.stage.setPool i p :=
  ⟨rfl, rfl, rfl⟩

@[simp] theorem faces_setCallback (cb : Option WlCallback) :
    (st.setCallback i cb).frames = st.frames.setCallback i cb ∧
      (st.setCallback i cb).roles = st.roles ∧ (st.setCallback i cb).stage = st.stage :=
  ⟨rfl, rfl, rfl⟩

@[simp] theorem faces_setXdgSurface (x : Option WlXdgSurface) :
    (st.setXdgSurface i x).frames = st.frames ∧
      (st.setXdgSurface i x).roles = st.roles.setXdg i x ∧ (st.setXdgSurface i x).stage = st.stage :=
  ⟨rfl, rfl, rfl⟩

@[simp] theorem faces_setLayerSurface (l : Option WlLayerSurface) :
    (st.setLayerSurface i l).frames = st.frames ∧
      (st.setLayerSurface i l).roles = st.roles.setLayer i l ∧
      (st.setLayerSurface i l).stage = st.stage :=
  ⟨rfl, rfl, rfl⟩

@[simp] theorem faces_setXdgToplevel (t : Option WlXdgToplevel) :
    (st.setXdgToplevel i t).frames = st.frames ∧ (st.setXdgToplevel i t).stage = st.stage :=
  ⟨rfl, rfl⟩

/-! ### What leaves all three alone -/

@[simp] theorem faces_metaSet (kind : WlKind) (ref : ℕ) :
    (st.metaSet c id kind ref).frames = st.frames ∧ (st.metaSet c id kind ref).roles = st.roles ∧
      (st.metaSet c id kind ref).stage = st.stage := by
  unfold metaSet
  split_ifs
  · exact ⟨rfl, rfl, rfl⟩
  · split
    · exact ⟨rfl, rfl, rfl⟩
    · split <;> exact ⟨rfl, rfl, rfl⟩

@[simp] theorem faces_metaDrop : (st.metaDrop c id).frames = st.frames ∧
    (st.metaDrop c id).roles = st.roles ∧ (st.metaDrop c id).stage = st.stage := by
  unfold metaDrop
  split <;> exact ⟨rfl, rfl, rfl⟩

@[simp] theorem faces_clearDamage : (st.clearDamage i).frames = st.frames ∧
    (st.clearDamage i).roles = st.roles ∧ (st.clearDamage i).stage = st.stage :=
  ⟨rfl, rfl, rfl⟩

@[simp] theorem faces_markDamage (x y w h : BitVec 32) (full : Bool) :
    (st.markDamage id x y w h full).frames = st.frames ∧
      (st.markDamage id x y w h full).roles = st.roles ∧
      (st.markDamage id x y w h full).stage = st.stage := by
  unfold markDamage
  split <;> exact ⟨rfl, rfl, rfl⟩

@[simp] theorem faces_nextSerial : st.nextSerial.2.frames = st.frames ∧
    st.nextSerial.2.roles = st.roles ∧ st.nextSerial.2.stage = st.stage := by
  unfold nextSerial
  split_ifs <;> exact ⟨rfl, rfl, rfl⟩

@[simp] theorem faces_sync : (st.sync c id).frames = st.frames ∧
    (st.sync c id).roles = st.roles ∧ (st.sync c id).stage = st.stage := by
  unfold sync
  split <;> simp

@[simp] theorem faces_bind (name : ℕ) : (st.bind c name id).frames = st.frames ∧
    (st.bind c name id).roles = st.roles ∧ (st.bind c name id).stage = st.stage := by
  unfold bind
  split
  · exact ⟨rfl, rfl, rfl⟩
  · dsimp only
    split_ifs <;> simp <;> exact ⟨rfl, rfl, rfl⟩

@[simp] theorem faces_damageSurface (obj : ℕ) (x y w h : BitVec 32) :
    (st.damageSurface obj x y w h).frames = st.frames ∧
      (st.damageSurface obj x y w h).roles = st.roles ∧
      (st.damageSurface obj x y w h).stage = st.stage := by
  unfold damageSurface
  split <;> simp

@[simp] theorem faces_blit (s : WlSurface) (b : WlBuffer) (data : Bytes) (r : SrcRect) :
    (st.blit s b data r).frames = st.frames ∧ (st.blit s b data r).roles = st.roles ∧
      (st.blit s b data r).stage = st.stage :=
  ⟨rfl, rfl, rfl⟩

@[simp] theorem faces_moveSurface (x y : BitVec 32) : (st.moveSurface id x y).frames = st.frames ∧
    (st.moveSurface id x y).roles = st.roles ∧ (st.moveSurface id x y).stage = st.stage := by
  unfold moveSurface
  split
  · exact ⟨rfl, rfl, rfl⟩
  next j s hfind =>
    have hj := (findEntry_eq_some hfind).2.1
    exact ⟨frames_setSurface_same hj rfl, rfl, stage_setSurface_same hj rfl⟩

@[simp] theorem faces_lookup (obj : ℕ) : (st.lookup c obj).2.frames = st.frames ∧
    (st.lookup c obj).2.roles = st.roles ∧ (st.lookup c obj).2.stage = st.stage := by
  unfold lookup
  split
  · exact ⟨rfl, rfl, rfl⟩
  · dsimp only
    split <;> simp

/-! ### What is about buffers only -/

@[simp] theorem faces_createPool (size : ℕ) (right : Option ℕ) :
    (st.createPool c id size right).frames = st.frames ∧
      (st.createPool c id size right).roles = st.roles := by
  unfold createPool
  split <;> simp

@[simp] theorem faces_createBuffer (obj offset w h stride format : ℕ) :
    (st.createBuffer c obj id offset w h stride format).frames = st.frames ∧
      (st.createBuffer c obj id offset w h stride format).roles = st.roles := by
  unfold createBuffer
  split
  · exact ⟨rfl, rfl⟩
  · split_ifs
    · exact ⟨rfl, rfl⟩
    · split <;> simp

@[simp] theorem faces_bufferResetSlot (dropMeta : Bool) :
    (st.bufferResetSlot i c dropMeta).frames = st.frames ∧
      (st.bufferResetSlot i c dropMeta).roles = st.roles := by
  unfold bufferResetSlot
  split
  · exact ⟨rfl, rfl⟩
  · dsimp only
    split_ifs <;> simp

@[simp] theorem faces_forgetBuffer : (st.forgetBuffer id).frames = st.frames ∧
    (st.forgetBuffer id).roles = st.roles :=
  ⟨st.frames_forSurfaces fun _ => rfl, rfl⟩

@[simp] theorem faces_dropPoolBuffer (pool : ℕ) : (st.dropPoolBuffer c pool i).frames = st.frames ∧
    (st.dropPoolBuffer c pool i).roles = st.roles := by
  unfold dropPoolBuffer
  split
  · exact ⟨rfl, rfl⟩
  · split_ifs <;> simp

@[simp] theorem faces_destroyPool (obj : ℕ) : (st.destroyPool c obj).frames = st.frames ∧
    (st.destroyPool c obj).roles = st.roles := by
  unfold destroyPool
  simp only [faces_metaDrop]
  split
  · exact ⟨rfl, rfl⟩
  · exact ⟨foldl_same (fun s j => (s.faces_dropPoolBuffer c j _).1) _ st,
      foldl_same (fun s j => (s.faces_dropPoolBuffer c j _).2) _ st⟩

@[simp] theorem faces_resizePool (obj size : ℕ) : (st.resizePool obj size).frames = st.frames ∧
    (st.resizePool obj size).roles = st.roles := by
  unfold resizePool
  split <;> simp

@[simp] theorem faces_destroyBuffer (obj : ℕ) : (st.destroyBuffer c obj).frames = st.frames ∧
    (st.destroyBuffer c obj).roles = st.roles := by
  unfold destroyBuffer
  simp only [faces_metaDrop]
  split <;> simp

@[simp] theorem faces_releaseSurfaceBuffers : (st.releaseSurfaceBuffers id).frames = st.frames ∧
    (st.releaseSurfaceBuffers id).roles = st.roles := by
  unfold releaseSurfaceBuffers
  split
  · exact ⟨rfl, rfl⟩
  · split_ifs <;> exact ⟨rfl, rfl⟩

@[simp] theorem faces_attach (obj buffer : ℕ) (x y : BitVec 32) :
    (st.attach obj buffer x y).frames = st.frames ∧ (st.attach obj buffer x y).roles = st.roles := by
  unfold attach
  split
  · exact ⟨rfl, rfl⟩
  next j s hfind =>
    simp only [faces_markDamage]
    exact ⟨frames_setSurface_same (findEntry_eq_some hfind).2.1 rfl, rfl⟩

@[simp] theorem faces_moveOrResize (obj : ℕ) : (st.moveOrResize obj).frames = st.frames ∧
    (st.moveOrResize obj).roles = st.roles := by
  unfold moveOrResize
  split
  · exact ⟨rfl, rfl⟩
  · split
    · exact ⟨rfl, rfl⟩
    next j s hfind => exact ⟨frames_setSurface_same (findEntry_eq_some hfind).2.1 rfl, rfl⟩

@[simp] theorem faces_touchBuffer : (st.touchBuffer i).frames = st.frames ∧
    (st.touchBuffer i).roles = st.roles := by
  unfold touchBuffer
  split
  · exact ⟨rfl, rfl⟩
  · split_ifs
    · exact ⟨rfl, rfl⟩
    · exact ⟨rfl, rfl⟩
    · split <;> simp

@[simp] theorem faces_read (b : ℕ) (bs : Bytes) : (st.record c (.read b bs)).frames = st.frames ∧
    (st.record c (.read b bs)).roles = st.roles := by
  unfold frames roles
  rw [seen_read]
  exact ⟨rfl, rfl⟩

@[simp] theorem faces_drawn (b : ℕ) (bs : Bytes) :
    (st.record c (.drawn id b bs)).frames = st.frames ∧
      (st.record c (.drawn id b bs)).roles = st.roles := by
  unfold frames roles
  rw [seen_drawn]
  exact ⟨rfl, rfl⟩

@[simp] theorem faces_recordRead (need : ℕ) (r : WlRead) :
    (st.recordRead c id need r).frames = st.frames ∧
      (st.recordRead c id need r).roles = st.roles := by
  cases r with
  | got bs => exact st.faces_read c id (fillTo need bs)
  | failed g => exact ⟨rfl, rfl⟩
  | noMemory => exact ⟨rfl, rfl⟩

@[simp] theorem faces_refreshBufferData (src : ℕ → ℕ → ℕ → WlRead) (j : ℕ) :
    (st.refreshBufferData c src j).frames = st.frames ∧
      (st.refreshBufferData c src j).roles = st.roles := by
  unfold refreshBufferData
  split
  · exact ⟨rfl, rfl⟩
  · split
    · exact ⟨rfl, rfl⟩
    · dsimp only
      split_ifs <;> simp

@[simp] theorem faces_releaseBuffer (s : WlSurface) : (st.releaseBuffer i s).frames = st.frames ∧
    (st.releaseBuffer i s).roles = st.roles := by
  unfold releaseBuffer
  split_ifs
  · exact ⟨st.frames_send s.clientIdx (.bufferRelease s.bufferId),
      st.roles_send s.clientIdx (.bufferRelease s.bufferId)⟩
  · exact ⟨rfl, rfl⟩
  · exact ⟨rfl, rfl⟩

@[simp] theorem faces_renderFrom (j : ℕ) (s : WlSurface) : (st.renderFrom i j s).frames = st.frames ∧
    (st.renderFrom i j s).roles = st.roles := by
  unfold renderFrom
  split
  · exact ⟨rfl, rfl⟩
  · split
    · exact ⟨rfl, rfl⟩
    · dsimp only
      split_ifs <;> simp

@[simp] theorem faces_renderSurface (src : ℕ → ℕ → ℕ → WlRead) (pass : ℕ) :
    (st.renderSurface src pass i).frames = st.frames ∧
      (st.renderSurface src pass i).roles = st.roles := by
  unfold renderSurface
  split
  · exact ⟨rfl, rfl⟩
  · split_ifs
    · exact ⟨rfl, rfl⟩
    · exact ⟨rfl, rfl⟩
    · split
      · exact ⟨rfl, rfl⟩
      · dsimp only
        split_ifs <;> simp

/-! ### What is about roles only -/

@[simp] theorem faces_sendToplevelConfigure (n : ℕ) (xs : WlXdgSurface) :
    (st.sendToplevelConfigure c n xs).frames = st.frames ∧
      (st.sendToplevelConfigure c n xs).stage = st.stage := by
  unfold sendToplevelConfigure
  split_ifs
  · exact ⟨rfl, rfl⟩
  · split <;> simp

@[simp] theorem faces_scheduleXdgConfigure (surface : ℕ) :
    (st.scheduleXdgConfigure c surface).frames = st.frames ∧
      (st.scheduleXdgConfigure c surface).stage = st.stage := by
  unfold scheduleXdgConfigure
  split
  · exact ⟨rfl, rfl⟩
  · split_ifs <;> simp

@[simp] theorem faces_ackToplevel (n toplevel : ℕ) :
    (st.ackToplevel n toplevel).frames = st.frames ∧
      (st.ackToplevel n toplevel).stage = st.stage := by
  unfold ackToplevel
  split_ifs
  · exact ⟨rfl, rfl⟩
  · split
    · exact ⟨rfl, rfl⟩
    · split_ifs <;> simp

@[simp] theorem faces_ackXdg (obj n : ℕ) : (st.ackXdg c obj n).frames = st.frames ∧
    (st.ackXdg c obj n).stage = st.stage := by
  unfold ackXdg
  split
  · exact ⟨rfl, rfl⟩
  · simp only [faces_ackToplevel]
    split_ifs <;> simp

@[simp] theorem faces_commitXdg (surface : ℕ) : (st.commitXdg c surface).frames = st.frames ∧
    (st.commitXdg c surface).stage = st.stage := by
  unfold commitXdg
  split
  · exact ⟨rfl, rfl⟩
  · dsimp only
    split_ifs <;> simp

@[simp] theorem faces_maybeSendLayerConfigure (ls : WlLayerSurface) (b : Option WlBuffer) :
    (st.maybeSendLayerConfigure c i ls b).frames = st.frames ∧
      (st.maybeSendLayerConfigure c i ls b).stage = st.stage := by
  unfold maybeSendLayerConfigure sendLayerSurfaceConfigure
  split_ifs <;> simp

@[simp] theorem faces_ackLayer (obj n : ℕ) : (st.ackLayer c obj n).frames = st.frames ∧
    (st.ackLayer c obj n).stage = st.stage := by
  unfold ackLayer
  split
  · exact ⟨rfl, rfl⟩
  · dsimp only
    split_ifs <;> simp

@[simp] theorem faces_commitLayer (surface : ℕ) (b : Option WlBuffer) :
    (st.commitLayer c surface b).frames = st.frames ∧
      (st.commitLayer c surface b).stage = st.stage := by
  unfold commitLayer
  split
  · exact ⟨rfl, rfl⟩
  · dsimp only
    split_ifs <;> simp

@[simp] theorem faces_getLayerSurface (surface output layer : ℕ) :
    (st.getLayerSurface c id surface output layer).frames = st.frames ∧
      (st.getLayerSurface c id surface output layer).stage = st.stage := by
  unfold getLayerSurface
  split <;> simp

@[simp] theorem faces_changeLayer (obj : ℕ) (f : WlLayerSurface → WlLayerSurface) :
    (st.changeLayer obj f).frames = st.frames ∧ (st.changeLayer obj f).stage = st.stage := by
  unfold changeLayer
  split <;> simp

@[simp] theorem faces_getXdgSurface (surface : ℕ) :
    (st.getXdgSurface c id surface).frames = st.frames ∧
      (st.getXdgSurface c id surface).stage = st.stage := by
  unfold getXdgSurface
  split <;> simp

@[simp] theorem faces_destroyXdgSurface (obj : ℕ) :
    (st.destroyXdgSurface c obj).frames = st.frames ∧
      (st.destroyXdgSurface c obj).stage = st.stage := by
  unfold destroyXdgSurface
  simp only [faces_metaDrop]
  split
  · exact ⟨rfl, rfl⟩
  · split_ifs
    · exact ⟨rfl, rfl⟩
    · split <;> simp

@[simp] theorem faces_getToplevel (obj : ℕ) : (st.getToplevel c obj id).frames = st.frames ∧
    (st.getToplevel c obj id).stage = st.stage := by
  unfold getToplevel
  split
  · exact ⟨rfl, rfl⟩
  · split <;> simp

@[simp] theorem faces_setWindowGeometry (obj : ℕ) (x y w h : BitVec 32) :
    (st.setWindowGeometry obj x y w h).frames = st.frames ∧
      (st.setWindowGeometry obj x y w h).stage = st.stage := by
  unfold setWindowGeometry
  split
  · exact ⟨rfl, rfl⟩
  · dsimp only
    split
    · simp
    · split_ifs <;> simp

@[simp] theorem faces_destroyToplevel (obj : ℕ) : (st.destroyToplevel c obj).frames = st.frames ∧
    (st.destroyToplevel c obj).stage = st.stage := by
  unfold destroyToplevel
  split
  · exact ⟨rfl, rfl⟩
  · simp only [faces_metaDrop, faces_setXdgToplevel]
    split <;> simp

@[simp] theorem faces_setActivated (obj : ℕ) (a : Bool) :
    (st.setActivated c obj a).frames = st.frames ∧ (st.setActivated c obj a).stage = st.stage := by
  unfold setActivated
  split <;> simp

/-! ### What is about frame callbacks only -/

@[simp] theorem faces_advanceClock : st.advanceClock.roles = st.roles ∧
    st.advanceClock.stage = st.stage :=
  ⟨rfl, rfl⟩

@[simp] theorem faces_dropOldCallback (old : Option (ℕ × WlCallback)) :
    (st.dropOldCallback c id old).roles = st.roles ∧
      (st.dropOldCallback c id old).stage = st.stage := by
  unfold dropOldCallback
  split <;> simp

@[simp] theorem faces_commitCallback : (st.commitCallback id).roles = st.roles ∧
    (st.commitCallback id).stage = st.stage := by
  unfold commitCallback
  split_ifs
  · exact ⟨rfl, rfl⟩
  · split <;> simp

@[simp] theorem faces_dropCallback (surface : ℕ) : (st.dropCallback c surface i).roles = st.roles ∧
    (st.dropCallback c surface i).stage = st.stage := by
  unfold dropCallback
  split
  · exact ⟨rfl, rfl⟩
  · split_ifs <;> simp

@[simp] theorem stage_frame (obj : ℕ) : (st.frame c obj id).stage = st.stage := by
  unfold frame
  split
  · rfl
  next j s hfind =>
    have hj := (findEntry_eq_some hfind).2.1
    dsimp only
    split
    · simp
    · simp only [faces_metaSet, stage_setSurface, faces_setCallback, faces_dropOldCallback]
      rw [← stage_setSurface]
      exact stage_setSurface_same hj rfl

@[simp] theorem stage_destroyCallback (obj : ℕ) : (st.destroyCallback c obj).stage = st.stage := by
  unfold destroyCallback
  simp only [faces_metaDrop]
  split
  · rfl
  · simp only [faces_setCallback]
    unfold stage forSurfaces
    congr 1
    funext k
    dsimp only
    rw [Option.map_map]
    rfl

@[simp] theorem stage_dropSurfaceRelated (surface : ℕ) :
    (st.dropSurfaceRelated c surface).stage = st.stage := by
  have hlayer : ∀ s : Wl7, (s.dropLayerOf c surface).stage = s.stage := by
    intro s
    unfold dropLayerOf
    split <;> simp
  unfold dropSurfaceRelated
  refine (foldl_same (fun s i => (s.faces_dropCallback c i surface).2) _ _).trans ((hlayer _).trans ?_)
  split
  · split <;> rfl
  · split <;> rfl

@[simp] theorem stage_finishCallback : (st.finishCallback i).stage = st.stage := by
  unfold finishCallback
  split
  · rfl
  next cb _ =>
    split_ifs with hp hlate hclient hs
    · rfl
    · rfl
    · simp
    · simp only [faces_setCallback, faces_metaDrop]
      split
      · simp
      next j s hfind =>
        have hj := (findEntry_eq_some hfind).2.1
        split_ifs
        · refine Eq.trans (stage_setSurface_same hj ?_) ?_
          · rfl
          · simp
        · simp
    · simp

@[simp] theorem frames_destroyLayerSurface (obj : ℕ) :
    (st.destroyLayerSurface c obj).frames = st.frames := by
  unfold destroyLayerSurface
  split
  · rfl
  · simp only [faces_metaDrop, faces_setLayerSurface]
    split
    · rfl
    next j s hfind => exact frames_setSurface_same (findEntry_eq_some hfind).2.1 rfl

theorem frames_finishTick (src : ℕ → ℕ → ℕ → WlRead) :
    (st.finishTick src).frames =
      ((List.range wl7MaxCallbacks).foldl finishCallback st).frames := by
  unfold finishTick renderSurfaces
  calc
    _ = _ := foldl_same (fun s pass =>
      foldl_same (fun s i => (s.faces_renderSurface i src pass).1) _ s) _ _
    _ = _ := foldl_same (fun s i => (s.faces_touchBuffer i).1) _ _

end Quiet

end Wl7

end Ridux
