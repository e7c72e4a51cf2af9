import Ridux.Wl.Compositor

/-!
# The shell roles of a surface

How `display_wayland.c` tells shell and layer surfaces their sizes.

* `layerConfigW`, `layerConfigH`, `applyLayerSurfaceLayout`: the geometry of a layer surface;
* `scheduleXdgConfigure`, `maybeSendLayerConfigure`: a configure is sent, or recorded as pending;
* `ackXdg`, `ackLayer`: what an acknowledgement does;
* `commitXdg`, `commitLayer`: the part of `wl_surface.commit` that is about the roles.
-/

namespace Ridux

open Lib

namespace WlConfigure

variable (k : WlConfigure)

/-- The state of a role that has just been given. -/
def fresh (pending : Bool) : WlConfigure := ⟨0, 0, false, false, pending⟩

/-- A configure has been sent, and the last serial that was acknowledged is not its own. -/
def outstanding : Bool := k.lastConfigureSerial ≠ 0 ∧ k.lastAckSerial ≠ k.lastConfigureSerial

/-- A configure is recorded as pending. -/
def defer : WlConfigure := { k with configurePending := true }

/-- A configure is sent. -/
def sent (serial : ℕ) : WlConfigure :=
  { k with lastConfigureSerial := serial, configured := false, configurePending := false }

/-- The first commit has been seen. -/
def commitSeen : WlConfigure := { k with initialCommitSeen := true, configurePending := true }

/-- `xdg_surface.ack_configure`, as far as the flags go. -/
def ackedXdg (serial : ℕ) : WlConfigure :=
  { k with lastAckSerial := serial, configured := true, configurePending := false }

/-- `zwlr_layer_surface_v1.ack_configure`, as far as the flags go. -/
def ackedLayer (serial : ℕ) : WlConfigure :=
  { k with
    lastAckSerial := serial
    configured := k.configured || decide (serial = k.lastConfigureSerial) }

end WlConfigure

namespace Wl7

variable (st : Wl7)

/-- `wl7_output_w`. -/
def outputW : ℕ := if st.fbWidth ≠ 0 then st.fbWidth else 1280

/-- `wl7_output_h`. -/
def outputH : ℕ := if st.fbHeight ≠ 0 then st.fbHeight else 720

/-- The output object of a client; `WL7_OUTPUT_ID` if it has bound none. -/
def clientOutput (c : ℕ) : ℕ := if st.outputObj c ≠ 0 then st.outputObj c else 7

/-! ### Layer surfaces -/

/-- `wl7_layer_axis_available`. -/
def layerAxisAvailable (total : ℕ) (a b : BitVec 32) : ℕ :=
  let v : ℤ := total - a.toInt - b.toInt
  if v > 0 then v.toNat % 2 ^ 32 else 1

/-- Whether an anchor has the edges of a mask; top, bottom, left and right are 1, 2, 4 and 8. -/
def anchored (ls : WlLayerSurface) (mask : ℕ) : Bool := ls.anchor &&& mask = mask

/-- `wl7_layer_config_w`. -/
def layerConfigW (ls : WlLayerSurface) (b : Option WlBuffer) : ℕ :=
  if 0 < ls.reqWidth.toInt then ls.reqWidth.toNat
  else if anchored ls 12 then layerAxisAvailable st.outputW ls.marginLeft ls.marginRight
  else if ls.layer = 0 then st.outputW
  else
    match b with
    | some b => if b.width ≠ 0 then b.width else st.outputW
    | none => st.outputW

/-- The height of a layer surface that neither asks for one nor has a buffer. -/
def layerDefaultH (ls : WlLayerSurface) : ℕ :=
  if 0 < ls.exclusiveZone.toInt then ls.exclusiveZone.toNat
  else if anchored ls 2 then 72
  else 34

/-- `wl7_layer_config_h`. -/
def layerConfigH (ls : WlLayerSurface) (b : Option WlBuffer) : ℕ :=
  if 0 < ls.reqHeight.toInt then ls.reqHeight.toNat
  else if anchored ls 3 then layerAxisAvailable st.outputH ls.marginTop ls.marginBottom
  else if ls.layer = 0 then st.outputH
  else
    match b with
    | some b => if b.height ≠ 0 then b.height else layerDefaultH ls
    | none => layerDefaultH ls

/-- `wl7_apply_layer_surface_layout`. -/
def applyLayerSurfaceLayout (ls : WlLayerSurface) (b : Option WlBuffer) (s : WlSurface) :
    WlSurface :=
  let w := BitVec.ofNat 32 (st.layerConfigW ls b)
  let h := BitVec.ofNat 32 (st.layerConfigH ls b)
  let fbw := BitVec.ofNat 32 st.outputW
  let fbh := BitVec.ofNat 32 st.outputH
  if ls.layer = 0 then { s with x := 0, y := 0 }
  else
    { s with
      x :=
        if anchored ls 4 then ls.marginLeft
        else if anchored ls 8 then fbw - w - ls.marginRight
        else (fbw - w).sdiv 2
      y :=
        if anchored ls 1 then ls.marginTop
        else if anchored ls 2 then fbh - h - ls.marginBottom
        else (fbh - h).sdiv 2 }

/-- `wl7_send_layer_surface_configure`, for the layer surface in slot `i`. -/
def sendLayerSurfaceConfigure (c i : ℕ) (ls : WlLayerSurface) (b : Option WlBuffer) : Wl7 :=
  if ls.id = 0 then st
  else
    let (serial, st) := st.nextSerial
    (st.setLayerSurface i (some { ls with conf := ls.conf.sent serial })).send c
      (.layerConfigure ls.id serial (st.layerConfigW ls b) (st.layerConfigH ls b))

/-- `wl7_maybe_send_layer_configure`. -/
def maybeSendLayerConfigure (c i : ℕ) (ls : WlLayerSurface) (b : Option WlBuffer) : Wl7 :=
  if ls.conf.outstanding then st.setLayerSurface i (some { ls with conf := ls.conf.defer })
  else st.sendLayerSurfaceConfigure c i ls b

/-- `zwlr_layer_surface_v1.ack_configure`. -/
def ackLayer (c obj serial : ℕ) : Wl7 :=
  match st.findLayerSurface obj with
  | none => st
  | some (i, ls) =>
    let ls := { ls with conf := ls.conf.ackedLayer serial }
    let st := st.setLayerSurface i (some ls)
    if ls.conf.configurePending ∧ ls.conf.configured then st.maybeSendLayerConfigure c i ls none
    else st

/-- The part of `wl_surface.commit` for the layer surface of a surface. -/
def commitLayer (c surface : ℕ) (b : Option WlBuffer) : Wl7 :=
  match st.findLayerSurfaceBySurface surface with
  | none => st
  | some (i, ls) =>
    let first := !ls.conf.initialCommitSeen
    let ls := if first then { ls with conf := ls.conf.commitSeen } else ls
    let st :=
      if first then
        (st.setLayerSurface i (some ls)).send c (.surfaceEnter surface (st.clientOutput c))
      else st
    if ls.conf.configurePending ∨ ls.conf.lastConfigureSerial = 0 then
      st.maybeSendLayerConfigure c i ls b
    else st

/-! ### Shell surfaces -/

/-- `wl7_schedule_xdg_configure`, the toplevel's part: what it is told. -/
def sendToplevelConfigure (c serial : ℕ) (xs : WlXdgSurface) : Wl7 :=
  if xs.toplevelId = 0 then st
  else
    match st.findXdgToplevel xs.toplevelId with
    | none => st
    | some (j, tl) =>
      -- the first configure leaves the size to the client
      let initial := xs.conf.lastAckSerial = 0
      let cw :=
        if initial then 0 else if 0 < tl.width.toInt then tl.width else BitVec.ofNat 32 st.outputW
      let ch :=
        if initial then 0 else if 0 < tl.height.toInt then tl.height else BitVec.ofNat 32 st.outputH
      let active := if initial then false else tl.activated
      (st.setXdgToplevel j (some { tl with lastConfigureSerial := serial, configured := false })).send
        c (.toplevelConfigure tl.id cw ch active)

/-- `wl7_schedule_xdg_configure`. -/
def scheduleXdgConfigure (c surface : ℕ) : Wl7 :=
  match st.findXdgSurfaceBySurface surface with
  | none => st
  | some (i, xs) =>
    if !xs.conf.initialCommitSeen then
      st.setXdgSurface i (some { xs with conf := xs.conf.defer })
    else if xs.conf.outstanding then
      st.setXdgSurface i (some { xs with conf := xs.conf.defer })
    else
      let (serial, st) := st.nextSerial
      let st := st.setXdgSurface i (some { xs with conf := xs.conf.sent serial })
      (st.sendToplevelConfigure c serial xs).send c (.xdgConfigure xs.id serial)

/-- The toplevel of a shell surface counts as configured when its own serial is acknowledged. -/
def ackToplevel (serial toplevel : ℕ) : Wl7 :=
  if toplevel = 0 then st
  else
    match st.findXdgToplevel toplevel with
    | none => st
    | some (j, tl) =>
      if tl.lastConfigureSerial = serial then
        st.setXdgToplevel j (some { tl with configured := true })
      else st

/-- `xdg_surface.ack_configure`. -/
def ackXdg (c obj serial : ℕ) : Wl7 :=
  match st.findXdgSurface obj with
  | none => st
  | some (i, xs) =>
    let hadPending := xs.conf.configurePending
    let st := st.setXdgSurface i (some { xs with conf := xs.conf.ackedXdg serial })
    let st :=
      if hadPending ∧ serial = xs.conf.lastConfigureSerial then
        st.scheduleXdgConfigure c xs.surfaceId
      else st
    st.ackToplevel serial xs.toplevelId

/-- The part of `wl_surface.commit` for the shell surface of a surface. -/
def commitXdg (c surface : ℕ) : Wl7 :=
  match st.findXdgSurfaceBySurface surface with
  | none => st
  | some (i, xs) =>
    let first := !xs.conf.initialCommitSeen
    let xs := if first then { xs with conf := xs.conf.commitSeen } else xs
    let st :=
      if first then
        (st.setXdgSurface i (some xs)).send c (.surfaceEnter surface (st.clientOutput c))
      else st
    if xs.conf.configurePending ∨ xs.conf.configured = false then st.scheduleXdgConfigure c surface
    else st

end Wl7

end Ridux
