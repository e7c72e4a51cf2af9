import Ridux.Wl.Shell

/-!
# Rendering

`wl7_render_surfaces` of `display_wayland.c`, for surfaces without a viewport: each mapped surface is
drawn from a copy of the memory of its buffer.

* `WlRead`: how the memory behind a buffer was read, which the files decide;
* `refreshBufferData`: the copy is made anew;
* `blit`: the pixels of a part of a buffer go to the screen;
* `renderSurfaces`: all surfaces, by their priority.
-/

namespace Ridux

open Lib Function

/-- What mapping or reading the memory of a buffer gave: bytes, a read that failed and left these in a
new copy, or no memory for a new copy. -/
inductive WlRead
  | got (bytes : Bytes)
  | failed (garbage : Bytes)
  | noMemory

/-- Bytes cut or filled with zeros to a length. -/
def fillTo (n : ℕ) (bs : Bytes) : Bytes := (bs ++ List.replicate n 0).take n

/-- The copy after a refresh, and whether it is fresh.  A copy that is large enough is written over, up
to the length that is needed. -/
def refreshedData (old : Option Bytes) (need : ℕ) : WlRead → Option Bytes × Bool
  | .got bs =>
    match old with
    | some d => (some (fillTo need bs ++ d.drop need), true)
    | none => (some (fillTo need bs), true)
  | .failed g =>
    match old with
    | some d => if need ≤ d.length then (some d, false) else (some (fillTo need g), false)
    | none => (some (fillTo need g), false)
  | .noMemory =>
    match old with
    | some d => if need ≤ d.length then (some d, false) else (none, false)
    | none => (none, false)

namespace Wl7

variable (st : Wl7)

/-- The descriptor that `wl7_refresh_buffer_data` reads: that of the pool, or else that of the
buffer. -/
def sourceFd (b : WlBuffer) : Option ℕ := ((st.findPool b.pool).bind fun p => p.2.fd).or b.fd

/-- What was read from a buffer is recorded. -/
def recordRead (c id need : ℕ) : WlRead → Wl7
  | .got bs => st.record c (.read id (fillTo need bs))
  | _ => st

/-- `wl7_refresh_buffer_data` for a surface of the client `c`, where `src` says what reading a descriptor
gives at an offset. -/
def refreshBufferData (c : ℕ) (src : ℕ → ℕ → ℕ → WlRead) (j : ℕ) : Wl7 :=
  match st.buffers j with
  | none => st
  | some b =>
    match st.sourceFd b with
    | none => st
    | some fd =>
      let need := b.stride * b.height
      if need = 0 ∨ 16 * 1024 * 1024 < need then st
      else
        let r := refreshedData b.data need (src fd b.offset need)
        (st.setBuffer j (some { b with data := r.1, dirty := b.dirty && !r.2 })).recordRead c b.id need
          (src fd b.offset need)

/-! ### Pixels -/

/-- `wl7_blend_argb_over`. -/
def blendArgbOver (dst src : BitVec 32) : BitVec 32 :=
  let ch (v : BitVec 32) (k : ℕ) : ℕ := v.toNat / 2 ^ k % 256
  let sa := ch src 24
  if 255 ≤ sa then src
  else if sa = 0 then dst
  else
    let mix (k : ℕ) : ℕ := (ch src k * sa + ch dst k * (255 - sa)) / 255
    BitVec.ofNat 32 (255 * 2 ^ 24 + mix 16 * 2 ^ 16 + mix 8 * 2 ^ 8 + mix 0)

/-- `wl7_pixel_to_argb`. -/
def pixelToArgb (px : BitVec 32) (fmt : ℕ) : BitVec 32 :=
  let ch (k : ℕ) : ℕ := px.toNat / 2 ^ k % 256
  if fmt = 1 ∨ fmt = 0x34325258 then px ||| 0xFF000000#32
  else if fmt = 0x34324258 ∨ fmt = 0x34324241 then
    let aa := if fmt = 0x34324258 then 255 else ch 24
    BitVec.ofNat 32 (aa * 2 ^ 24 + ch 0 * 2 ^ 16 + ch 8 * 2 ^ 8 + ch 16)
  else if ch 24 = 0 then px ||| 0xFF000000#32
  else px

/-- A sum of two `int32_t`. -/
def addI32 (a b : ℤ) : ℤ := (a + b).bmod (2 ^ 32)

/-- A `uint32_t` taken as `int32_t`. -/
def toI32 (n : ℕ) : ℤ := (n : ℤ).bmod (2 ^ 32)

/-- A part of a buffer. -/
structure SrcRect where
  x : ℤ
  y : ℤ
  w : ℤ
  h : ℤ

/-- The part of a buffer that is damaged, the whole of it if that is not known. -/
def damagedRect (d : WlDamage) (b : WlBuffer) : SrcRect :=
  if d.has ∧ !d.full then ⟨d.x.toInt, d.y.toInt, d.w.toInt, d.h.toInt⟩
  else ⟨0, 0, toI32 b.width, toI32 b.height⟩

/-- The part without what is left of the buffer or above it. -/
def SrcRect.inner (r : SrcRect) : SrcRect where
  x := if r.x < 0 then 0 else r.x
  y := if r.y < 0 then 0 else r.y
  w := if r.x < 0 then addI32 r.w r.x else r.w
  h := if r.y < 0 then addI32 r.h r.y else r.h

/-- Nothing of the part is inside the buffer. -/
def SrcRect.outside (r : SrcRect) (b : WlBuffer) : Bool :=
  r.x ≥ toI32 b.width ∨ r.y ≥ toI32 b.height ∨ r.w ≤ 0 ∨ r.h ≤ 0

/-- The part without what is right of the buffer or below it. -/
def SrcRect.cut (r : SrcRect) (b : WlBuffer) : SrcRect :=
  { r with
    w := if addI32 r.x r.w > toI32 b.width then toI32 b.width - r.x else r.w
    h := if addI32 r.y r.h > toI32 b.height then toI32 b.height - r.y else r.h }

/-- One pixel of a buffer, at column `sx` of line `sy`, goes to the screen. -/
def drawPixel (s : WlSurface) (b : WlBuffer) (data : Bytes) (sx sy : ℤ) (screen : ℕ → BitVec 32) :
    ℕ → BitVec 32 :=
  let dy := s.y.toInt + sy
  let dx := s.x.toInt + sx
  if dy < 0 ∨ dy ≥ st.fbHeight ∨ dx < 0 ∨ dx ≥ st.fbWidth then screen
  else
    let srcOff := (sy.toNat * (b.stride / 4) + sx.toNat) % 2 ^ 32
    let dstOff := (dy.toNat * st.fbStride + dx.toNat) % 2 ^ 32
    if srcOff ≥ data.length / 4 ∨ dstOff ≥ st.fbStride * st.fbHeight % 2 ^ 32 then screen
    else
      let px := BitVec.ofNat 32 (leNat ((data.drop (4 * srcOff)).take 4))
      update screen dstOff
        (blendArgbOver (screen dstOff) (pixelToArgb px b.format))

/-- A part of a buffer goes to the screen, line by line. -/
def blit (s : WlSurface) (b : WlBuffer) (data : Bytes) (r : SrcRect) : Wl7 :=
  { st with
    screen :=
      (List.range r.h.toNat).foldl
        (fun screen row =>
          (List.range r.w.toNat).foldl
            (fun screen col => st.drawPixel s b data (r.x + col) (r.y + row) screen) screen)
        st.screen }

/-! ### Surfaces -/

/-- `wl7_surface_render_priority`. -/
def surfaceRenderPriority (s : WlSurface) : ℕ :=
  match st.findLayerSurfaceBySurface s.id with
  | none => 2
  | some (_, ls) =>
    if ls.layer = 0 then 0 else if ls.layer = 1 then 1 else if ls.layer = 3 then 4 else 3

/-- The buffer of a surface is released when that is due. -/
def releaseBuffer (i : ℕ) (s : WlSurface) : Wl7 :=
  if st.releasePending i then
    let st := if st.clients s.clientIdx then st.send s.clientIdx (.bufferRelease s.bufferId) else st
    { st with releasePending := update st.releasePending i false }
  else st

/-- The surface in slot `i` is drawn from the buffer in slot `j`. -/
def renderFrom (i j : ℕ) (s : WlSurface) : Wl7 :=
  match st.buffers j with
  | none => st
  | some b =>
    match b.data with
    | none => st.clearDamage i
    | some data =>
      if b.width = 0 ∨ b.height = 0 ∨ b.stride < 4 then st.clearDamage i
      else
        let r := (damagedRect (st.damage i) b).inner
        if r.outside b then (st.clearDamage i).releaseBuffer i s
        else if st.fbStride = 0 then st.clearDamage i
        else
          (((st.blit s b data (r.cut b)).record s.clientIdx (.drawn s.id b.id data)).clearDamage
            i).releaseBuffer i s

/-- The body of the loop of `wl7_render_surfaces`. -/
def renderSurface (src : ℕ → ℕ → ℕ → WlRead) (pass : ℕ) (i : ℕ) : Wl7 :=
  match st.surfaces i with
  | none => st
  | some s =>
    if !s.mapped then st
    else if st.surfaceRenderPriority s ≠ pass then st
    else
      match st.findBuffer s.bufferId with
      | none =>
        { st.clearDamage i with releasePending := update st.releasePending i false }
      | some (j, b) =>
        let st := if b.dirty then st.refreshBufferData s.clientIdx src j else st
        st.renderFrom i j s

/-- `wl7_render_surfaces`. -/
def renderSurfaces (src : ℕ → ℕ → ℕ → WlRead) : Wl7 :=
  (List.range 5).foldl
    (fun st pass =>
      (List.range wl7MaxSurfaces).foldl (fun st i => st.renderSurface src pass i) st) st

end Wl7

end Ridux
