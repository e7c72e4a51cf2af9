import Ridux.Wl.Faces

/-!
# The roles during a run

Which requests of `display_wayland.c` touch the roles of surfaces, and how.

* `roles_…`: what else leaves the roles alone, and what a configure does to them;
* `Wl7.Fair`: the requests under which the configures stay in turn and no frame callback is lost;
* `Ok.request`: a fair request keeps all roles.
-/

namespace Ridux

open Lib

namespace Wl7

variable (st : Wl7)

/-! ### What leaves the roles alone -/

section Quiet

variable (c i id : ℕ)

@[simp] theorem roles_attachClient : st.attachClient.roles = st.roles := by
  unfold attachClient
  split
  · rfl
  · simp
    rfl

@[simp] theorem roles_createSurface : (st.createSurface c id).roles = st.roles := by
  unfold createSurface
  split <;> simp

@[simp] theorem roles_frame (obj callback : ℕ) : (st.frame c obj callback).roles = st.roles := by
  unfold frame
  split
  · rfl
  · dsimp only
    split <;> simp

@[simp] theorem roles_commitBuffer (s : WlSurface) (b : Option (ℕ × WlBuffer)) :
    (st.commitBuffer i s b).roles = st.roles := by
  unfold commitBuffer
  cases b <;> rfl

@[simp] theorem roles_mapSurface (mapped : Bool) (b : Option WlBuffer) :
    (st.mapSurface c i mapped b).roles = st.roles := by
  unfold mapSurface
  split
  · rfl
  · dsimp only
    rw [(faces_commitCallback ..).1]
    split_ifs <;> simp

@[simp] theorem roles_destroyCallback (obj : ℕ) : (st.destroyCallback c obj).roles = st.roles := by
  unfold destroyCallback
  rw [(faces_metaDrop ..).2.1]
  split <;> simp

@[simp] theorem roles_finishCallback : (st.finishCallback i).roles = st.roles := by
  unfold finishCallback
  split
  · rfl
  · split_ifs
    · rfl
    · rfl
    · simp
    · dsimp only
      split
      · simp
      · split_ifs <;> simp
    · simp

@[simp] theorem roles_finishTick (src : ℕ → ℕ → ℕ → WlRead) :
    (st.finishTick src).roles = st.roles := by
  unfold finishTick renderSurfaces
  calc
    _ = _ := foldl_same (fun s pass =>
      foldl_same (fun s i => (s.faces_renderSurface i src pass).2) _ s) _ _
    _ = _ := foldl_same (fun s i => (s.faces_touchBuffer i).2) _ _
    _ = _ := foldl_same (fun s i => s.roles_finishCallback i) _ _

end Quiet

/-! ### Configures are sent -/

variable {st} {c i j surface : ℕ} {xs : WlXdgSurface} {ls : WlLayerSurface}

theorem roles_setXdgToplevel (t : Option WlXdgToplevel) :
    (st.setXdgToplevel j t).roles = st.roles.setTop j (t.map WlXdgToplevel.top) := by
  unfold roles setXdgToplevel WlRoles.setTop
  congr 1
  funext k
  by_cases hk : k = j
  · subst hk
    simp
  · simp [hk]

theorem roles_setXdgToplevel_same {tl tl' : WlXdgToplevel} (hj : st.xdgToplevels j = some tl)
    (ht : tl'.top = tl.top) : (st.setXdgToplevel j (some tl')).roles = st.roles := by
  rw [roles_setXdgToplevel]
  have hsame : st.roles.top j = some tl'.top := by
    change (st.xdgToplevels j).map _ = _
    rw [hj, ht]
    rfl
  unfold WlRoles.setTop
  rw [Option.map_some, ← hsame, Function.update_eq_self]

theorem roles_sendToplevelConfigure (n : ℕ) :
    (st.sendToplevelConfigure c n xs).roles = st.roles := by
  unfold sendToplevelConfigure
  split_ifs
  · rfl
  · split
    · rfl
    next j tl hfind =>
      dsimp only
      rw [roles_send]
      exact roles_setXdgToplevel_same (findEntry_eq_some hfind).2.1 rfl

@[simp] theorem roles_ackToplevel (n toplevel : ℕ) :
    (st.ackToplevel n toplevel).roles = st.roles := by
  unfold ackToplevel
  split_ifs
  · rfl
  · split
    · rfl
    next j tl hfind =>
      split_ifs
      · exact roles_setXdgToplevel_same (findEntry_eq_some hfind).2.1 rfl
      · rfl

theorem roles_schedule_wait (hfind : st.findXdgSurfaceBySurface surface = some (i, xs))
    (hwait : xs.conf.initialCommitSeen = false ∨ xs.conf.outstanding = true) :
    (st.scheduleXdgConfigure c surface).roles =
      st.roles.setXdg i (some { xs with conf := xs.conf.defer }) := by
  unfold scheduleXdgConfigure
  simp only [hfind]
  rcases hwait with hw | hw
  · simp [hw]
  · by_cases hi : xs.conf.initialCommitSeen = true
    · simp [hi, hw]
    · simp [hi]

theorem roles_schedule_send (hfind : st.findXdgSurfaceBySurface surface = some (i, xs))
    (hseen : xs.conf.initialCommitSeen = true) (hout : xs.conf.outstanding = false) :
    (st.scheduleXdgConfigure c surface).roles =
      (st.roles.setXdg i (some { xs with conf := xs.conf.sent st.nextSerial.1 })).offer
        (.xdg c xs.id) fun o => o.send st.nextSerial.1 := by
  unfold scheduleXdgConfigure
  simp only [hfind]
  simp [hseen, hout, roles_sendToplevelConfigure]

theorem roles_maybeSend_wait (b : Option WlBuffer) (hwait : ls.conf.outstanding = true) :
    (st.maybeSendLayerConfigure c i ls b).roles =
      st.roles.setLayer i (some { ls with conf := ls.conf.defer }) := by
  unfold maybeSendLayerConfigure
  simp [hwait]

theorem roles_maybeSend_send (b : Option WlBuffer) (hout : ls.conf.outstanding = false)
    (hid : ls.id ≠ 0) :
    (st.maybeSendLayerConfigure c i ls b).roles =
      (st.roles.setLayer i (some { ls with conf := ls.conf.sent st.nextSerial.1 })).offer
        (.layer c ls.id) fun o => o.send st.nextSerial.1 := by
  unfold maybeSendLayerConfigure sendLayerSurfaceConfigure
  simp [hout, hid]

theorem roles_maybeSend_zero (b : Option WlBuffer) (hout : ls.conf.outstanding = false)
    (hid : ls.id = 0) : (st.maybeSendLayerConfigure c i ls b).roles = st.roles := by
  unfold maybeSendLayerConfigure sendLayerSurfaceConfigure
  simp [hout, hid]

end Wl7

/-! ### The searches, when all roles are kept -/

namespace WlRoles.Ok

variable {v : WlRoles} {i j : ℕ} {xs : WlXdgSurface} {ls : WlLayerSurface} {t : WlTop}

theorem find_xdg (h : v.Ok) (hi : v.xdg i = some xs) {id : ℕ} (hid : xs.id = id) :
    findEntry v.xdg (fun xs => xs.id = id) wl7MaxSurfaces = some (i, xs) := by
  refine findEntry_eq (h.xdg i xs hi).1 hi hid fun j _ ys hj hy => ?_
  exact h.xdgOnly j i ys xs hj hi (.inl (hy.trans hid.symm))

theorem find_xdgBySurface (h : v.Ok) (hi : v.xdg i = some xs) {id : ℕ} (hid : xs.surfaceId = id) :
    findEntry v.xdg (fun xs => xs.surfaceId = id) wl7MaxSurfaces = some (i, xs) := by
  refine findEntry_eq (h.xdg i xs hi).1 hi hid fun j _ ys hj hy => ?_
  exact h.xdgOnly j i ys xs hj hi (.inr (hy.trans hid.symm))

theorem not_xdg (h : v.Ok) {p : WlXdgSurface → Prop} [DecidablePred p]
    (hnone : findEntry v.xdg (fun xs => p xs) wl7MaxSurfaces = none) (hi : v.xdg i = some xs) : ¬p xs :=
  findEntry_eq_none.1 hnone i (h.xdg i xs hi).1 xs hi

end WlRoles.Ok

/-! ### What a fair client does -/

namespace Wl7

variable (st : Wl7)

/-- Every object and every surface that goes by `id` in the tables belongs to the client `c`. -/
structure Owns (c id : ℕ) : Prop where
  surface : ∀ i s, st.surfaces i = some s → s.id = id → s.clientIdx = c
  callback : ∀ i cb, st.callbacks i = some cb → cb.id = id ∨ cb.surfaceId = id → cb.clientIdx = c
  xdg : ∀ i xs, st.xdgSurfaces i = some xs → xs.id = id ∨ xs.surfaceId = id → xs.clientIdx = c
  toplevel : ∀ i tl, st.xdgToplevels i = some tl → tl.id = id ∨ tl.surfaceId = id → tl.clientIdx = c
  layer : ∀ i ls, st.layerSurfaces i = some ls → ls.id = id ∨ ls.surfaceId = id → ls.clientIdx = c

/-- The serial `n` is not the last one that a role was sent or has acknowledged. -/
structure Unused (n : ℕ) : Prop where
  xdg : ∀ i xs, st.xdgSurfaces i = some xs →
    xs.conf.lastConfigureSerial ≠ n ∧ xs.conf.lastAckSerial ≠ n
  layer : ∀ i ls, st.layerSurfaces i = some ls →
    ls.conf.lastConfigureSerial ≠ n ∧ ls.conf.lastAckSerial ≠ n

/-- The counter of the serials has not come round to a serial in use. -/
def SerialsFresh : Prop := st.Unused st.nextSerial.1 ∧ st.Unused st.nextSerial.2.nextSerial.1

/-- What a request must not do, for the configures to stay in turn and for no frame callback to be
lost. -/
def FairReq (obj : ℕ) : WlReq → Prop
  | .createSurface id => ∀ i s, st.surfaces i = some s → s.id ≠ id
  | .destroySurface =>
    ∀ i cb, st.callbacks i = some cb → cb.surfaceId = obj → cb.pending = false
  | .frame cb =>
    (∃ i s, st.findSurface obj = some (i, s) ∧ s.frameCallbackId = 0) ∧ cb ≠ 0 ∧
      (∀ i cb', st.callbacks i = some cb' → cb'.id ≠ cb) ∧
      freeSlot st.callbacks wl7MaxCallbacks ≠ none
  | .commit =>
    (∀ i cb, st.callbacks i = some cb → cb.surfaceId = obj → cb.pending = false →
      ∃ j s, st.findSurface obj = some (j, s) ∧ st.findBuffer s.attachedBuffer ≠ none) ∧
      st.SerialsFresh
  | .destroyCallback => ∀ i cb, st.callbacks i = some cb → cb.id ≠ obj
  | .getXdgSurface id surface =>
    ∀ i xs, st.xdgSurfaces i = some xs → xs.id ≠ id ∧ xs.surfaceId ≠ surface
  | .getLayerSurface id surface _ _ =>
    ∀ i ls, st.layerSurfaces i = some ls → ls.id ≠ id ∧ ls.surfaceId ≠ surface
  | .getToplevel id =>
    id ≠ 0 ∧ (∀ j tl, st.xdgToplevels j = some tl → tl.id ≠ id) ∧
      (∀ i xs, st.xdgSurfaces i = some xs → xs.id = obj →
        xs.toplevelId = 0 ∧ freeSlot st.xdgToplevels wl7MaxSurfaces ≠ none) ∧ st.SerialsFresh
  | .setActivated _ => st.SerialsFresh
  | .ackConfigure s =>
    (∀ i xs, st.xdgSurfaces i = some xs → xs.id = obj →
      xs.conf.lastConfigureSerial = s ∧ s ≠ 0) ∧ st.SerialsFresh
  | .ackLayerConfigure s =>
    (∀ i ls, st.layerSurfaces i = some ls → ls.id = obj →
      ls.conf.lastConfigureSerial = s ∧ s ≠ 0) ∧ st.SerialsFresh
  | _ => True

/-- A request that is fair, on an object that is the client's own. -/
structure Fair (c obj : ℕ) (r : WlReq) : Prop where
  owns : st.Owns c obj
  req : st.FairReq obj r

end Wl7

end Ridux
