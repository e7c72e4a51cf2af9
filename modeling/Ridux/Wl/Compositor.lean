import Ridux.Lib.Slots
import Ridux.Wl.Framing

/-!
# The tables of the Wayland compositor

The state behind `wl7_process_message` and `wl7_tick` of `display_wayland.c`, as far as surfaces, their
buffers, their frame callbacks and their shell roles go.  Input devices, viewports, presentation,
`wl_shell` and dma-buf parameters are left out; the devices and the presentation only take serials here.

* `WlReq`: a request, read from its bytes by `decode`;
* `WlEvent`: an event sent to a client;
* `WlItem`: what is recorded of a run: the requests and the events, in order, and what was read from the
  buffers and drawn on the screen;
* `Wl7`: the tables, with one `find` for each way in which the source searches one.
-/

namespace Ridux

open Lib Function

/-! ### Requests and events -/

/-- The requests on the objects that are modelled, as the cases of the `switch` read them. -/
inductive WlReq
  | sync (callback : ℕ)
  | getRegistry (id : ℕ)
  | bind (name id : ℕ)
  | createSurface (id : ℕ)
  | createRegion (id : ℕ)
  | createPool (id size : ℕ)
  | createBuffer (id offset width height stride format : ℕ)
  | destroyPool
  | resizePool (size : ℕ)
  | destroySurface
  | attach (buffer : ℕ) (x y : BitVec 32)
  | damage (x y w h : BitVec 32)
  | frame (callback : ℕ)
  | commit
  | destroyBuffer
  | getLayerSurface (id surface output layer : ℕ)
  | setSize (w h : BitVec 32)
  | setAnchor (anchor : ℕ)
  | setExclusiveZone (zone : BitVec 32)
  | setMargin (top right bottom left : BitVec 32)
  | setKeyboardInteractivity (mode : ℕ)
  | ackLayerConfigure (serial : ℕ)
  | destroyLayerSurface
  | setLayer (layer : ℕ)
  | getXdgSurface (id surface : ℕ)
  | destroyXdgSurface
  | getToplevel (id : ℕ)
  | setWindowGeometry (x y w h : BitVec 32)
  | ackConfigure (serial : ℕ)
  | destroyToplevel
  | moveOrResize
  | setActivated (activated : Bool)
  | destroyCallback
  | forget
  deriving DecidableEq

/-- The events on the objects that are modelled; the `done` of a frame callback and that of a
`wl_display.sync` are told apart. -/
inductive WlEvent
  | callbackDone (callback time : ℕ)
  | syncDone (callback time : ℕ)
  | deleteId (id : ℕ)
  | surfaceEnter (surface output : ℕ)
  | surfaceLeave (surface output : ℕ)
  | bufferRelease (buffer : ℕ)
  | ping (wmBase serial : ℕ)
  | xdgConfigure (xdgSurface serial : ℕ)
  | toplevelConfigure (toplevel : ℕ) (w h : BitVec 32) (activated : Bool)
  | layerConfigure (layerSurface serial w h : ℕ)
  deriving DecidableEq

/-- What is recorded of a client: a request on an object, an event, bytes that were read from the memory of
a buffer, or the bytes of a buffer that were drawn for a surface. -/
inductive WlItem
  | request (obj : ℕ) (r : WlReq)
  | event (e : WlEvent)
  | read (buffer : ℕ) (bytes : Bytes)
  | drawn (surface buffer : ℕ) (bytes : Bytes)
  deriving DecidableEq

namespace WlMsg

/-- `wl7_rd_u32(body+off)`. -/
def u32 (m : WlMsg) (off : ℕ) : ℕ := leNat ((m.body.drop off).take 4)

/-- `wl7_rd_s32(body+off)`. -/
def s32 (m : WlMsg) (off : ℕ) : BitVec 32 := BitVec.ofNat 32 (m.u32 off)

/-- `wl7_align4`. -/
def align4 (n : ℕ) : ℕ := (n + 3) / 4 * 4

/-- `wl_registry.bind`: a name, an interface as a string, a version and the new object. -/
def bindArgs (m : WlMsg) : Option (ℕ × ℕ) :=
  let len := m.body.length
  let sl := m.u32 4
  if 8 + sl > len then none
  else
    let off := if sl = 0 then 8 else align4 (8 + sl)
    if off + 8 > len then none else some (m.u32 0, m.u32 (off + 4))

/-- The cases of the `switch` in `wl7_process_message`, up to their conditions on the length. -/
def decode (kind : WlKind) (m : WlMsg) : Option WlReq :=
  let len := m.body.length
  match kind, m.opcode with
  | .display, 0 => if 4 ≤ len then some (.sync (m.u32 0)) else none
  | .display, 1 => if 4 ≤ len then some (.getRegistry (m.u32 0)) else none
  | .registry, 0 => if 16 ≤ len then m.bindArgs.map fun p => .bind p.1 p.2 else none
  | .compositor, 0 => if 4 ≤ len then some (.createSurface (m.u32 0)) else none
  | .compositor, 1 => if 4 ≤ len then some (.createRegion (m.u32 0)) else none
  | .shm, 0 => if 8 ≤ len then some (.createPool (m.u32 0) (m.u32 4)) else none
  | .pool, 0 =>
    if 24 ≤ len then
      some (.createBuffer (m.u32 0) (m.u32 4) (m.u32 8) (m.u32 12) (m.u32 16) (m.u32 20))
    else none
  | .pool, 1 => some .destroyPool
  | .pool, 2 => if 4 ≤ len then some (.resizePool (m.u32 0)) else none
  | .surface, 0 => some .destroySurface
  | .surface, 1 => if 12 ≤ len then some (.attach (m.u32 0) (m.s32 4) (m.s32 8)) else none
  | .surface, 2 =>
    if 16 ≤ len then some (.damage (m.s32 0) (m.s32 4) (m.s32 8) (m.s32 12)) else none
  | .surface, 3 => if 4 ≤ len then some (.frame (m.u32 0)) else none
  | .surface, 6 => some .commit
  | .surface, 9 =>
    if 16 ≤ len then some (.damage (m.s32 0) (m.s32 4) (m.s32 8) (m.s32 12)) else none
  | .buffer, 0 => some .destroyBuffer
  | .layerShell, 0 =>
    if 20 ≤ len then some (.getLayerSurface (m.u32 0) (m.u32 4) (m.u32 8) (m.u32 12)) else none
  | .layerShell, 1 => some .forget
  | .layerSurface, 0 => if 8 ≤ len then some (.setSize (m.s32 0) (m.s32 4)) else none
  | .layerSurface, 1 => if 4 ≤ len then some (.setAnchor (m.u32 0)) else none
  | .layerSurface, 2 => if 4 ≤ len then some (.setExclusiveZone (m.s32 0)) else none
  | .layerSurface, 3 =>
    if 16 ≤ len then some (.setMargin (m.s32 0) (m.s32 4) (m.s32 8) (m.s32 12)) else none
  | .layerSurface, 4 => if 4 ≤ len then some (.setKeyboardInteractivity (m.u32 0)) else none
  | .layerSurface, 6 => if 4 ≤ len then some (.ackLayerConfigure (m.u32 0)) else none
  | .layerSurface, 7 => some .destroyLayerSurface
  | .layerSurface, 8 => if 4 ≤ len then some (.setLayer (m.u32 0)) else none
  | .xdgWmBase, 0 => some .forget
  | .xdgWmBase, 2 => if 8 ≤ len then some (.getXdgSurface (m.u32 0) (m.u32 4)) else none
  | .xdgSurface, 0 => some .destroyXdgSurface
  | .xdgSurface, 1 => if 4 ≤ len then some (.getToplevel (m.u32 0)) else none
  | .xdgSurface, 3 =>
    if 16 ≤ len then some (.setWindowGeometry (m.s32 0) (m.s32 4) (m.s32 8) (m.s32 12)) else none
  | .xdgSurface, 4 => if 4 ≤ len then some (.ackConfigure (m.u32 0)) else none
  | .xdgToplevel, 0 => some .destroyToplevel
  | .xdgToplevel, 5 => some .moveOrResize
  | .xdgToplevel, 6 => some .moveOrResize
  | .xdgToplevel, 9 => some (.setActivated true)
  | .xdgToplevel, 10 => some (.setActivated false)
  | .xdgToplevel, 11 => some (.setActivated true)
  | .xdgToplevel, 12 => some (.setActivated false)
  | .region, 0 => some .forget
  | .callback, 0 => some .destroyCallback
  | _, _ => none

end WlMsg

/-! ### The tables -/

/-- `wl7_objmeta_t`. -/
structure WlMeta where
  id : ℕ
  kind : WlKind
  ref : ℕ
  deriving DecidableEq

/-- `wl7_surface_t`. -/
structure WlSurface where
  id : ℕ
  clientIdx : ℕ
  x : BitVec 32
  y : BitVec 32
  bufferId : ℕ
  attachedBuffer : ℕ
  frameCallbackId : ℕ
  mapped : Bool
  deriving DecidableEq

/-- The damage that is kept for the slot of a surface. -/
structure WlDamage where
  has : Bool
  full : Bool
  x : BitVec 32
  y : BitVec 32
  w : BitVec 32
  h : BitVec 32
  deriving DecidableEq

/-- `wl7_pool_t`; no `fd` stands for `-1`. -/
structure WlPool where
  id : ℕ
  clientIdx : ℕ
  fd : Option ℕ
  size : ℕ
  deriving DecidableEq

/-- `wl7_buffer_t`, with what is kept beside it for its slot. -/
structure WlBuffer where
  id : ℕ
  fd : Option ℕ
  width : ℕ
  height : ℕ
  stride : ℕ
  format : ℕ
  data : Option Bytes
  pool : ℕ
  offset : ℕ
  dirty : Bool
  ownsFd : Bool
  deriving DecidableEq

/-- `wl7_callback_t`. -/
structure WlCallback where
  id : ℕ
  clientIdx : ℕ
  surfaceId : ℕ
  pending : Bool
  dueMs : ℕ
  deriving DecidableEq

/-- The serials and the flags that shell and layer surfaces have in common. -/
structure WlConfigure where
  lastConfigureSerial : ℕ
  lastAckSerial : ℕ
  configured : Bool
  initialCommitSeen : Bool
  configurePending : Bool
  deriving DecidableEq

/-- `wl7_xdg_surface_t`. -/
structure WlXdgSurface where
  id : ℕ
  clientIdx : ℕ
  surfaceId : ℕ
  toplevelId : ℕ
  conf : WlConfigure
  deriving DecidableEq

/-- `wl7_xdg_toplevel_t`. -/
structure WlXdgToplevel where
  id : ℕ
  clientIdx : ℕ
  surfaceId : ℕ
  xdgSurfaceId : ℕ
  configured : Bool
  activated : Bool
  width : BitVec 32
  height : BitVec 32
  lastConfigureSerial : ℕ
  deriving DecidableEq

/-- `wl7_layer_surface_t`. -/
structure WlLayerSurface where
  id : ℕ
  clientIdx : ℕ
  surfaceId : ℕ
  outputId : ℕ
  layer : ℕ
  anchor : ℕ
  keyboardInteractivity : ℕ
  exclusiveZone : BitVec 32
  marginTop : BitVec 32
  marginRight : BitVec 32
  marginBottom : BitVec 32
  marginLeft : BitVec 32
  reqWidth : BitVec 32
  reqHeight : BitVec 32
  conf : WlConfigure
  deriving DecidableEq

def wl7MaxClients : ℕ := 32

def wl7MaxSurfaces : ℕ := 128

def wl7MaxBuffers : ℕ := 64

def wl7MaxPools : ℕ := 64

def wl7MaxCallbacks : ℕ := 128

def wl7MetaMaxObjects : ℕ := 192

/-- The global state; `fbStride` is the length of a line of the screen in pixels.  The source has no `log`:
it records what has happened to each client. -/
structure Wl7 where
  clients : ℕ → Bool
  objmeta : ℕ → ℕ → Option WlMeta
  outputObj : ℕ → ℕ
  surfaces : ℕ → Option WlSurface
  damage : ℕ → WlDamage
  releasePending : ℕ → Bool
  pools : ℕ → Option WlPool
  buffers : ℕ → Option WlBuffer
  callbacks : ℕ → Option WlCallback
  xdgSurfaces : ℕ → Option WlXdgSurface
  xdgToplevels : ℕ → Option WlXdgToplevel
  layerSurfaces : ℕ → Option WlLayerSurface
  serial : ℕ
  frameClockMs : ℕ
  fbWidth : ℕ
  fbHeight : ℕ
  fbStride : ℕ
  screen : ℕ → BitVec 32
  log : List (ℕ × WlItem)

namespace Wl7

/-- No damage. -/
def noDamage : WlDamage := ⟨false, false, 0, 0, 0, 0⟩

/-- The compositor at the start, on an empty screen of a given size. -/
def start (w h stride : ℕ) : Wl7 where
  clients _ := false
  objmeta _ _ := none
  outputObj _ := 0
  surfaces _ := none
  damage _ := noDamage
  releasePending _ := false
  pools _ := none
  buffers _ := none
  callbacks _ := none
  xdgSurfaces _ := none
  xdgToplevels _ := none
  layerSurfaces _ := none
  serial := 1
  frameClockMs := 0
  fbWidth := w
  fbHeight := h
  fbStride := stride
  screen _ := 0
  log := []

variable (st : Wl7)

/-- Something that happens to a client is recorded. -/
def record (c : ℕ) (x : WlItem) : Wl7 := { st with log := st.log ++ [(c, x)] }

/-- An event is sent to a client. -/
def send (c : ℕ) (e : WlEvent) : Wl7 := st.record c (.event e)

/-- `wl7_next_serial`. -/
def nextSerial : ℕ × Wl7 :=
  if st.serial = 0 then (1, { st with serial := 2 })
  else (st.serial, { st with serial := (st.serial + 1) % 2 ^ 32 })

/-! ### The objects of a client -/

/-- `wl7_meta_find`. -/
def metaFind (c id : ℕ) : Option (ℕ × WlMeta) :=
  if id = 0 then none else findEntry (st.objmeta c) (fun m => m.id = id) wl7MetaMaxObjects

/-- A slot of the objects of a client is written. -/
def setMeta (c i : ℕ) (m : Option WlMeta) : Wl7 :=
  { st with objmeta := update st.objmeta c (update (st.objmeta c) i m) }

/-- `wl7_meta_set`. -/
def metaSet (c id : ℕ) (kind : WlKind) (ref : ℕ) : Wl7 :=
  if id = 0 then st
  else
    match st.metaFind c id with
    | some (i, _) => st.setMeta c i (some ⟨id, kind, ref⟩)
    | none =>
      match freeSlot (st.objmeta c) wl7MetaMaxObjects with
      | some i => st.setMeta c i (some ⟨id, kind, ref⟩)
      | none => st

/-- `wl7_meta_drop`. -/
def metaDrop (c id : ℕ) : Wl7 :=
  match st.metaFind c id with
  | some (i, _) => st.setMeta c i none
  | none => st

/-! ### The searches -/

/-- `wl7_find_surface` and `wl7_surface_index`. -/
def findSurface (id : ℕ) : Option (ℕ × WlSurface) :=
  findEntry st.surfaces (fun s => s.id = id) wl7MaxSurfaces

/-- `wl7_find_buffer` and `wl7_find_buffer_index`. -/
def findBuffer (id : ℕ) : Option (ℕ × WlBuffer) :=
  findEntry st.buffers (fun b => b.id = id) wl7MaxBuffers

/-- `wl7_find_pool`. -/
def findPool (id : ℕ) : Option (ℕ × WlPool) :=
  findEntry st.pools (fun p => p.id = id) wl7MaxPools

/-- `wl7_find_callback`. -/
def findCallback (id : ℕ) : Option (ℕ × WlCallback) :=
  findEntry st.callbacks (fun cb => cb.id = id) wl7MaxCallbacks

/-- `wl7_find_xdg_surface`. -/
def findXdgSurface (id : ℕ) : Option (ℕ × WlXdgSurface) :=
  findEntry st.xdgSurfaces (fun xs => xs.id = id) wl7MaxSurfaces

/-- `wl7_find_xdg_surface_by_surface`. -/
def findXdgSurfaceBySurface (surface : ℕ) : Option (ℕ × WlXdgSurface) :=
  findEntry st.xdgSurfaces (fun xs => xs.surfaceId = surface) wl7MaxSurfaces

/-- `wl7_find_xdg_toplevel`. -/
def findXdgToplevel (id : ℕ) : Option (ℕ × WlXdgToplevel) :=
  findEntry st.xdgToplevels (fun tl => tl.id = id) wl7MaxSurfaces

/-- `wl7_find_xdg_toplevel_by_surface`. -/
def findXdgToplevelBySurface (surface : ℕ) : Option (ℕ × WlXdgToplevel) :=
  findEntry st.xdgToplevels (fun tl => tl.surfaceId = surface) wl7MaxSurfaces

/-- `wl7_find_layer_surface`. -/
def findLayerSurface (id : ℕ) : Option (ℕ × WlLayerSurface) :=
  findEntry st.layerSurfaces (fun ls => ls.id = id) wl7MaxSurfaces

/-- `wl7_find_layer_surface_by_surface`. -/
def findLayerSurfaceBySurface (surface : ℕ) : Option (ℕ × WlLayerSurface) :=
  findEntry st.layerSurfaces (fun ls => ls.surfaceId = surface) wl7MaxSurfaces

/-! ### Writes -/

/-- A slot of the surfaces is written. -/
def setSurface (i : ℕ) (s : Option WlSurface) : Wl7 :=
  { st with surfaces := update st.surfaces i s }

/-- A slot of the buffers is written. -/
def setBuffer (i : ℕ) (b : Option WlBuffer) : Wl7 :=
  { st with buffers := update st.buffers i b }

/-- A slot of the pools is written. -/
def setPool (i : ℕ) (p : Option WlPool) : Wl7 :=
  { st with pools := update st.pools i p }

/-- A slot of the callbacks is written. -/
def setCallback (i : ℕ) (cb : Option WlCallback) : Wl7 :=
  { st with callbacks := update st.callbacks i cb }

/-- A slot of the shell surfaces is written. -/
def setXdgSurface (i : ℕ) (xs : Option WlXdgSurface) : Wl7 :=
  { st with xdgSurfaces := update st.xdgSurfaces i xs }

/-- A slot of the toplevels is written. -/
def setXdgToplevel (i : ℕ) (tl : Option WlXdgToplevel) : Wl7 :=
  { st with xdgToplevels := update st.xdgToplevels i tl }

/-- A slot of the layer surfaces is written. -/
def setLayerSurface (i : ℕ) (ls : Option WlLayerSurface) : Wl7 :=
  { st with layerSurfaces := update st.layerSurfaces i ls }

/-- `wl7_clear_surface_damage`. -/
def clearDamage (i : ℕ) : Wl7 := { st with damage := update st.damage i noDamage }

/-- The damage of a slot after more of it has been marked. -/
def markedDamage (d : WlDamage) (x y w h : BitVec 32) (full : Bool) : WlDamage :=
  if full ∨ w.sle 0 ∨ h.sle 0 then ⟨true, true, 0, 0, 0, 0⟩
  else if !d.has ∨ d.full then ⟨true, false, x, y, w, h⟩
  else
    let x1 := d.x + d.w
    let y1 := d.y + d.h
    let x0' := if x.slt d.x then x else d.x
    let y0' := if y.slt d.y then y else d.y
    let x1' := if x1.slt (x + w) then x + w else x1
    let y1' := if y1.slt (y + h) then y + h else y1
    { d with x := x0', y := y0', w := x1' - x0', h := y1' - y0' }

/-- `wl7_mark_surface_damage`. -/
def markDamage (surface : ℕ) (x y w h : BitVec 32) (full : Bool) : Wl7 :=
  match st.findSurface surface with
  | none => st
  | some (i, _) =>
    { st with damage := update st.damage i (markedDamage (st.damage i) x y w h full) }

end Wl7

end Ridux
