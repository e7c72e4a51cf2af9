import Ridux.Wl.Render

/-!
# What the requests do

The cases of the `switch` in `wl7_process_message` of `display_wayland.c`, and `wl7_tick`.

* one function for each case, under the name of the request;
* `exec`: a request on an object; `handle`: a request as it comes from the socket;
* `tick`: requests, frame callbacks and a render pass;
* `wl7Server`: the requests as what is behind `wl7ProcessMessage`.
-/

namespace Ridux

open Lib Function

namespace Wl7

variable (st : Wl7)

/-- `f` is done for every surface that is in use. -/
def forSurfaces (f : WlSurface → WlSurface) : Wl7 :=
  { st with surfaces := fun i => (st.surfaces i).map f }

/-! ### `wl_display`, `wl_registry`, `wl_compositor` -/

/-- `wl7_attach_client_socket`. -/
def attachClient : Wl7 :=
  match firstSlot (fun c => !st.clients c) wl7MaxClients with
  | none => st
  | some c =>
    let st :=
      { st with
        clients := update st.clients c true
        objmeta := update st.objmeta c fun _ => none
        outputObj := update st.outputObj c 0 }
    st.metaSet c 1 .display 0

/-- `wl_display.sync`: the callback is in the table only while it is answered. -/
def sync (c callback : ℕ) : Wl7 :=
  match freeSlot st.callbacks wl7MaxCallbacks with
  | none => st
  | some _ =>
    let st := st.metaSet c callback .callback 0
    let st := st.send c (.syncDone callback st.frameClockMs)
    (st.send c (.deleteId callback)).metaDrop c callback

/-- The kind of object that binding a global gives. -/
def globalKind : ℕ → Option WlKind
  | 3 => some .compositor
  | 4 => some .shm
  | 5 => some .shell
  | 6 => some .seat
  | 7 => some .output
  | 8 => some .xdgWmBase
  | 9 => some .viewporter
  | 10 => some .linuxDmabuf
  | 11 => some .presentation
  | 12 => some .layerShell
  | _ => none

/-- `wl_registry.bind`. -/
def bind (c name id : ℕ) : Wl7 :=
  match globalKind name with
  | none => st
  | some kind =>
    let st :=
      if kind = .output then { st with outputObj := update st.outputObj c id } else st
    let st := st.metaSet c id kind 0
    if kind = .xdgWmBase then
      let (serial, st) := st.nextSerial
      st.send c (.ping id serial)
    else st

/-- `wl_compositor.create_surface`. -/
def createSurface (c id : ℕ) : Wl7 :=
  match freeSlot st.surfaces wl7MaxSurfaces with
  | none => st
  | some i =>
    let st := st.setSurface i (some ⟨id, c, 0, 0, 0, 0, 0, false⟩)
    (st.metaSet c id .surface 0).markDamage id 0 0 0 0 true

/-! ### `wl_shm_pool` and `wl_buffer` -/

/-- `wl_shm.create_pool`, with the descriptor that came along. -/
def createPool (c id size : ℕ) (right : Option ℕ) : Wl7 :=
  match freeSlot st.pools wl7MaxPools with
  | none => st
  | some i => (st.setPool i (some ⟨id, c, right, size⟩)).metaSet c id .pool 0

/-- `wl_shm_pool.create_buffer`. -/
def createBuffer (c obj id offset width height stride format : ℕ) : Wl7 :=
  match st.findPool obj with
  | none => st
  | some (_, p) =>
    if p.fd = none ∨ width = 0 ∨ height = 0 ∨ stride = 0 then st
    else
      match freeSlot st.buffers wl7MaxBuffers with
      | none => st
      | some i =>
        (st.setBuffer i
          (some ⟨id, p.fd, width, height, stride, format, none, p.id, offset, true, false⟩)).metaSet
          c id .buffer i

/-- `wl7_buffer_reset_slot`; the descriptor it may close and the copy it frees are not in the tables. -/
def bufferResetSlot (i c : ℕ) (dropMeta : Bool) : Wl7 :=
  match st.buffers i with
  | none => st
  | some b =>
    let st := st.setBuffer i none
    if dropMeta ∧ b.id ≠ 0 then st.metaDrop c b.id else st

/-- No surface has the buffer any more. -/
def forgetBuffer (id : ℕ) : Wl7 :=
  st.forSurfaces fun s =>
    { s with
      bufferId := if s.bufferId = id then 0 else s.bufferId
      attachedBuffer := if s.attachedBuffer = id then 0 else s.attachedBuffer }

/-- A buffer goes with its pool. -/
def dropPoolBuffer (c pool i : ℕ) : Wl7 :=
  match st.buffers i with
  | none => st
  | some b => if b.pool = pool then (st.forgetBuffer b.id).bufferResetSlot i c true else st

/-- `wl_shm_pool.destroy`. -/
def destroyPool (c obj : ℕ) : Wl7 :=
  let st :=
    match st.findPool obj with
    | none => st
    | some (i, p) =>
      ((List.range wl7MaxBuffers).foldl (fun st j => dropPoolBuffer st c p.id j) st).setPool i none
  st.metaDrop c obj

/-- `wl_shm_pool.resize`. -/
def resizePool (obj size : ℕ) : Wl7 :=
  match st.findPool obj with
  | none => st
  | some (i, p) => st.setPool i (some { p with size := size })

/-- `wl_buffer.destroy`. -/
def destroyBuffer (c obj : ℕ) : Wl7 :=
  let st :=
    match st.findBuffer obj with
    | none => st
    | some (i, _) => (st.forgetBuffer obj).bufferResetSlot i c false
  st.metaDrop c obj

/-! ### `wl_surface` -/

/-- `wl7_release_surface_buffers`. -/
def releaseSurfaceBuffers (surface : ℕ) : Wl7 :=
  match st.findSurface surface with
  | none => st
  | some (i, s) =>
    if s.bufferId ≠ 0 ∧ (st.findBuffer s.bufferId).isSome then
      { st with releasePending := update st.releasePending i true }
    else st

/-- A frame callback goes with its surface. -/
def dropCallback (c surface i : ℕ) : Wl7 :=
  match st.callbacks i with
  | none => st
  | some cb =>
    if cb.clientIdx = c ∧ cb.surfaceId = surface then
      ((st.send c (.deleteId cb.id)).metaDrop c cb.id).setCallback i none
    else st

/-- The layer surface of a surface goes with it. -/
def dropLayerOf (c surface : ℕ) : Wl7 :=
  match st.findLayerSurfaceBySurface surface with
  | none => st
  | some (i, ls) => (st.metaDrop c ls.id).setLayerSurface i none

/-- `wl7_drop_surface_related` without `closed` events. -/
def dropSurfaceRelated (c surface : ℕ) : Wl7 :=
  let st :=
    match st.findXdgSurfaceBySurface surface with
    | none => st
    | some (i, _) => st.setXdgSurface i none
  let st :=
    match st.findXdgToplevelBySurface surface with
    | none => st
    | some (i, _) => st.setXdgToplevel i none
  let st := st.dropLayerOf c surface
  (List.range wl7MaxCallbacks).foldl (fun st i => dropCallback st c surface i) st

/-- `wl_surface.destroy`. -/
def destroySurface (c obj : ℕ) : Wl7 :=
  match st.findSurface obj with
  | none => st
  | some (i, s) =>
    let st := st.send c (.surfaceLeave s.id (st.clientOutput c))
    let st := (st.releaseSurfaceBuffers s.id).dropSurfaceRelated c s.id
    ((st.clearDamage i).setSurface i none).metaDrop c obj

/-- `wl_surface.attach`. -/
def attach (obj buffer : ℕ) (x y : BitVec 32) : Wl7 :=
  match st.findSurface obj with
  | none => st
  | some (i, s) =>
    (st.setSurface i (some { s with attachedBuffer := buffer, x := x, y := y })).markDamage
      s.id 0 0 0 0 true

/-- `wl_surface.damage` and `wl_surface.damage_buffer`. -/
def damageSurface (obj : ℕ) (x y w h : BitVec 32) : Wl7 :=
  match st.findSurface obj with
  | none => st
  | some (_, s) => st.markDamage s.id x y w h false

/-- The callback that a surface had before gives way to a new one. -/
def dropOldCallback (c callback : ℕ) : Option (ℕ × WlCallback) → Wl7
  | none => st
  | some (i, _) => ((st.setCallback i none).metaDrop c callback).send c (.deleteId callback)

/-- `wl_surface.frame`. -/
def frame (c obj callback : ℕ) : Wl7 :=
  match st.findSurface obj with
  | none => st
  | some (i, s) =>
    let old := st.findCallback s.frameCallbackId
    let slot := freeSlot st.callbacks wl7MaxCallbacks
    let st := st.dropOldCallback c s.frameCallbackId old
    match slot with
    | none => st
    | some j =>
      let st := st.setCallback j (some ⟨callback, c, s.id, false, 0⟩)
      (st.setSurface i (some { s with frameCallbackId := callback })).metaSet c callback .callback 0

/-- `wl_surface.commit`, the buffer's part: the buffer that was attached becomes the current one. -/
def commitBuffer (i : ℕ) (s : WlSurface) (b : Option (ℕ × WlBuffer)) : Wl7 :=
  let s := if s.attachedBuffer = 0 then { s with bufferId := 0, mapped := false } else s
  match b with
  | none => st.setSurface i (some s)
  | some (j, b) =>
    let st := st.setSurface i (some { s with bufferId := s.attachedBuffer })
    let st := st.setBuffer j (some { b with dirty := true })
    { st with releasePending := update st.releasePending i true }

/-- `wl_surface.commit`: the frame callback of the surface waits for the next frame. -/
def commitCallback (callback : ℕ) : Wl7 :=
  if callback = 0 then st
  else
    match st.findCallback callback with
    | none => st
    | some (j, cb) =>
      st.setCallback j
        (some { cb with pending := true, dueMs := (st.frameClockMs + 16) % 2 ^ 32 })

/-- `wl_surface.commit`, the last part: the surface in slot `i` is shown. -/
def mapSurface (c i : ℕ) (wasMapped : Bool) (b : Option WlBuffer) : Wl7 :=
  match st.surfaces i with
  | none => st
  | some s =>
    let ls := (st.findLayerSurfaceBySurface s.id).map Prod.snd
    let s := ls.elim s fun ls => st.applyLayerSurfaceLayout ls b s
    let st := st.setSurface i (some { s with mapped := true })
    let st := if (st.damage i).has then st else st.markDamage s.id 0 0 0 0 true
    let st :=
      if !wasMapped ∧ ls.isNone then st.send c (.surfaceEnter s.id (st.clientOutput c)) else st
    st.commitCallback s.frameCallbackId

/-- `wl_surface.commit`. -/
def commit (c obj : ℕ) : Wl7 :=
  match st.findSurface obj with
  | none => st
  | some (i, s) =>
    let b := st.findBuffer s.attachedBuffer
    let st := st.commitBuffer i s b
    let st := (st.commitXdg c s.id).commitLayer c s.id (b.map Prod.snd)
    match b with
    | none => st.clearDamage i
    | some (_, b) => st.mapSurface c i s.mapped (some b)

/-! ### The shell roles -/

/-- `zwlr_layer_shell_v1.get_layer_surface`. -/
def getLayerSurface (c id surface output layer : ℕ) : Wl7 :=
  match st.findSurface surface, freeSlot st.layerSurfaces wl7MaxSurfaces with
  | some _, some i =>
    let ls : WlLayerSurface :=
      ⟨id, c, surface, output, if layer ≤ 3 then layer else 2, 0, 0, 0, 0, 0, 0, 0, 0, 0,
        WlConfigure.fresh true⟩
    ((st.setLayerSurface i (some ls)).metaSet c id .layerSurface 0).markDamage surface 0 0 0 0 true
  | _, _ => st

/-- A request that changes what a layer surface asks for. -/
def changeLayer (obj : ℕ) (f : WlLayerSurface → WlLayerSurface) : Wl7 :=
  match st.findLayerSurface obj with
  | none => st
  | some (i, ls) => st.setLayerSurface i (some (f ls))

/-- `zwlr_layer_surface_v1.destroy`. -/
def destroyLayerSurface (c obj : ℕ) : Wl7 :=
  match st.findLayerSurface obj with
  | none => st
  | some (i, ls) =>
    let st :=
      match st.findSurface ls.surfaceId with
      | none => st
      | some (j, s) => st.setSurface j (some { s with mapped := false })
    (st.setLayerSurface i none).metaDrop c obj

/-- `xdg_wm_base.get_xdg_surface`. -/
def getXdgSurface (c id surface : ℕ) : Wl7 :=
  match freeSlot st.xdgSurfaces wl7MaxSurfaces with
  | none => st
  | some i =>
    (st.setXdgSurface i (some ⟨id, c, surface, 0, WlConfigure.fresh false⟩)).metaSet
      c id .xdgSurface 0

/-- `xdg_surface.destroy`. -/
def destroyXdgSurface (c obj : ℕ) : Wl7 :=
  let st :=
    match st.findXdgSurface obj with
    | none => st
    | some (i, xs) =>
      let st :=
        if xs.toplevelId = 0 then st
        else
          match st.findXdgToplevel xs.toplevelId with
          | none => st
          | some (j, tl) => (st.metaDrop c tl.id).setXdgToplevel j none
      st.setXdgSurface i none
  st.metaDrop c obj

/-- `xdg_surface.get_toplevel`.  A toplevel for a shell surface that is gone keeps its slot, but
nothing can name it. -/
def getToplevel (c obj id : ℕ) : Wl7 :=
  match freeSlot st.xdgToplevels wl7MaxSurfaces with
  | none => st
  | some j =>
    match st.findXdgSurface obj with
    | none => st.setXdgToplevel j (some ⟨0, 0, 0, 0, false, false, 0, 0, 0⟩)
    | some (i, xs) =>
      let tl : WlXdgToplevel :=
        ⟨id, c, xs.surfaceId, xs.id, false, true, BitVec.ofNat 32 st.outputW,
          BitVec.ofNat 32 st.outputH, 0⟩
      let st := st.setXdgToplevel j (some tl)
      let st := st.setXdgSurface i (some { xs with toplevelId := id })
      (st.metaSet c id .xdgToplevel 0).scheduleXdgConfigure c xs.surfaceId

/-- A surface gets a new place. -/
def moveSurface (surface : ℕ) (x y : BitVec 32) : Wl7 :=
  match st.findSurface surface with
  | none => st
  | some (i, s) => st.setSurface i (some { s with x := x, y := y })

/-- `xdg_surface.set_window_geometry`. -/
def setWindowGeometry (obj : ℕ) (x y w h : BitVec 32) : Wl7 :=
  match st.findXdgSurface obj with
  | none => st
  | some (_, xs) =>
    let st := st.moveSurface xs.surfaceId x y
    match st.findXdgToplevel xs.toplevelId with
    | none => st
    | some (j, tl) =>
      if 0 < w.toInt ∧ 0 < h.toInt then
        st.setXdgToplevel j (some { tl with width := w, height := h })
      else st

/-- `xdg_toplevel.destroy`. -/
def destroyToplevel (c obj : ℕ) : Wl7 :=
  match st.findXdgToplevel obj with
  | none => st
  | some (j, tl) =>
    let st :=
      match st.findXdgSurface tl.xdgSurfaceId with
      | none => st
      | some (i, xs) => st.setXdgSurface i (some { xs with toplevelId := 0 })
    (st.setXdgToplevel j none).metaDrop c obj

/-- `xdg_toplevel.move` and `xdg_toplevel.resize`. -/
def moveOrResize (obj : ℕ) : Wl7 :=
  match st.findXdgToplevel obj with
  | none => st
  | some (_, tl) =>
    match st.findSurface tl.surfaceId with
    | none => st
    | some (i, s) => st.setSurface i (some { s with mapped := true })

/-- `xdg_toplevel.set_maximized` and `set_fullscreen`, and the requests that undo them. -/
def setActivated (c obj : ℕ) (activated : Bool) : Wl7 :=
  match st.findXdgToplevel obj with
  | none => st
  | some (j, tl) =>
    (st.setXdgToplevel j (some { tl with activated := activated })).scheduleXdgConfigure
      c tl.surfaceId

/-! ### `wl_callback` -/

/-- `wl_callback` with opcode 0. -/
def destroyCallback (c obj : ℕ) : Wl7 :=
  let st :=
    match st.findCallback obj with
    | none => st
    | some (i, _) =>
      (st.forSurfaces fun s =>
        { s with
          frameCallbackId := if s.frameCallbackId = obj then 0 else s.frameCallbackId }).setCallback
        i none
  st.metaDrop c obj

/-! ### The dispatcher -/

/-- A request of the client `c` on the object `obj`. -/
def exec (c obj : ℕ) (right : Option ℕ) : WlReq → Wl7
  | .sync cb => st.sync c cb
  | .getRegistry id => st.metaSet c id .registry 0
  | .bind name id => st.bind c name id
  | .createSurface id => st.createSurface c id
  | .createRegion id => st.metaSet c id .region 0
  | .createPool id size => st.createPool c id size right
  | .createBuffer id offset w h stride format => st.createBuffer c obj id offset w h stride format
  | .destroyPool => st.destroyPool c obj
  | .resizePool size => st.resizePool obj size
  | .destroySurface => st.destroySurface c obj
  | .attach buffer x y => st.attach obj buffer x y
  | .damage x y w h => st.damageSurface obj x y w h
  | .frame cb => st.frame c obj cb
  | .commit => st.commit c obj
  | .destroyBuffer => st.destroyBuffer c obj
  | .getLayerSurface id surface output layer => st.getLayerSurface c id surface output layer
  | .setSize w h =>
    st.changeLayer obj fun ls => { ls with reqWidth := w, reqHeight := h, conf := ls.conf.defer }
  | .setAnchor anchor =>
    st.changeLayer obj fun ls => { ls with anchor := anchor % 16, conf := ls.conf.defer }
  | .setExclusiveZone zone =>
    st.changeLayer obj fun ls => { ls with exclusiveZone := zone, conf := ls.conf.defer }
  | .setMargin top right bottom left =>
    st.changeLayer obj fun ls =>
      { ls with
        marginTop := top
        marginRight := right
        marginBottom := bottom
        marginLeft := left
        conf := ls.conf.defer }
  | .setKeyboardInteractivity mode =>
    st.changeLayer obj fun ls => { ls with keyboardInteractivity := mode }
  | .ackLayerConfigure serial => st.ackLayer c obj serial
  | .destroyLayerSurface => st.destroyLayerSurface c obj
  | .setLayer layer =>
    st.changeLayer obj fun ls =>
      { ls with layer := if layer ≤ 3 then layer else 2, conf := ls.conf.defer }
  | .getXdgSurface id surface => st.getXdgSurface c id surface
  | .destroyXdgSurface => st.destroyXdgSurface c obj
  | .getToplevel id => st.getToplevel c obj id
  | .setWindowGeometry x y w h => st.setWindowGeometry obj x y w h
  | .ackConfigure serial => st.ackXdg c obj serial
  | .destroyToplevel => st.destroyToplevel c obj
  | .moveOrResize => st.moveOrResize obj
  | .setActivated activated => st.setActivated c obj activated
  | .destroyCallback => st.destroyCallback c obj
  | .forget => st.metaDrop c obj

/-- A request is recorded. -/
def logRequest (c obj : ℕ) (r : WlReq) : Wl7 := st.record c (.request obj r)

/-- A request is recorded, and done. -/
def request (c obj : ℕ) (right : Option ℕ) (r : WlReq) : Wl7 :=
  (st.logRequest c obj r).exec c obj right r

/-- `wl7_process_message`, the search for the object: `wl_display` and `wl_registry` are made when they
are first named. -/
def lookup (c obj : ℕ) : Option WlKind × Wl7 :=
  match st.metaFind c obj with
  | some (_, m) => (some m.kind, st)
  | none =>
    let kind : Option WlKind :=
      if obj = 1 then some .display else if obj = 2 then some .registry else none
    match kind with
    | none => (none, st)
    | some k =>
      let st := st.metaSet c obj k 0
      ((st.metaFind c obj).map fun p => p.2.kind, st)

/-- A request as it comes from the socket. -/
def handle (c : ℕ) (m : WlMsg) (right : Option ℕ) : Wl7 :=
  let r := st.lookup c m.obj
  match r.1.bind fun kind => m.decode kind with
  | none => r.2
  | some q => r.2.request c m.obj right q

/-! ### `wl7_tick` -/

/-- `wl7_has_work`, without presentation feedback. -/
def hasWork : Bool :=
  (List.range wl7MaxClients).any st.clients ||
    (List.range wl7MaxSurfaces).any
      (fun i => (st.surfaces i).isSome && ((st.damage i).has || st.releasePending i)) ||
    (List.range wl7MaxCallbacks).any fun i => (st.callbacks i).any (·.pending)

/-- A frame callback that is due is answered. -/
def finishCallback (i : ℕ) : Wl7 :=
  match st.callbacks i with
  | none => st
  | some cb =>
    if !cb.pending then st
    else if st.frameClockMs < cb.dueMs then st
    else
      let st :=
        if st.clients cb.clientIdx then
          let st := st.send cb.clientIdx (.callbackDone cb.id st.frameClockMs)
          let st := st.send cb.clientIdx (.deleteId cb.id)
          if cb.surfaceId = 0 then st
          else
            match st.findSurface cb.surfaceId with
            | none => st
            | some (j, s) =>
              if s.frameCallbackId = cb.id then
                st.setSurface j (some { s with frameCallbackId := 0 })
              else st
        else st
      (st.metaDrop cb.clientIdx cb.id).setCallback i none

/-- The copy of the buffer of a surface that has changed is not fresh any more. -/
def touchBuffer (i : ℕ) : Wl7 :=
  match st.surfaces i with
  | none => st
  | some s =>
    if !s.mapped then st
    else if !(st.damage i).has ∧ !st.releasePending i then st
    else
      match st.findBuffer s.bufferId with
      | none => st
      | some (j, b) => st.setBuffer j (some { b with dirty := true })

/-- The clock goes on by a frame. -/
def advanceClock : Wl7 := { st with frameClockMs := (st.frameClockMs + 16) % 2 ^ 32 }

/-- The end of a tick, after the requests. -/
def finishTick (src : ℕ → ℕ → ℕ → WlRead) : Wl7 :=
  let st := (List.range wl7MaxCallbacks).foldl finishCallback st
  let st := (List.range wl7MaxSurfaces).foldl touchBuffer st
  st.renderSurfaces src

/-- The messages that a tick takes from the sockets, at most 16 for each client. -/
def tickMessages (msgs : ℕ → List (WlMsg × Option ℕ)) : List (ℕ × WlMsg × Option ℕ) :=
  (List.range wl7MaxClients).flatMap fun c =>
    if st.clients c then ((msgs c).take 16).map fun m => (c, m) else []

/-- Messages of any clients, one after the other. -/
def handleAll (ms : List (ℕ × WlMsg × Option ℕ)) : Wl7 :=
  ms.foldl (fun st m => st.handle m.1 m.2.1 m.2.2) st

/-- `wl7_tick`, where `msgs` are the messages that wait in the sockets of the clients. -/
def tick (msgs : ℕ → List (WlMsg × Option ℕ)) (src : ℕ → ℕ → ℕ → WlRead) : Wl7 :=
  if !st.hasWork then st
  else (st.advanceClock.handleAll (st.tickMessages msgs)).finishTick src

end Wl7

/-- The requests as what is behind `wl7ProcessMessage` for the client `c`. -/
def wl7Server (c : ℕ) : WlServer Wl7 where
  find st obj := st.lookup c obj
  handle kind m right st :=
    match m.decode kind with
    | none => st
    | some q => st.request c m.obj right q

end Ridux
