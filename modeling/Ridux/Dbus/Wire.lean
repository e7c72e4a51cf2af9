import Mathlib.Algebra.Ring.Nat
import Ridux.Text

/-!
# The D-Bus wire format

The codec of the virtual bus in `base.c`: the writer that lays out the header fields, the message
built by `dbusv_queue_message`, and `dbusv_parse_message`.

* `DbusvWriter`: a buffer of `cap` bytes that refuses what does not fit;
* `DbusvOut`: the arguments of `dbusv_queue_message`, `dbusvBuild` the bytes it queues;
* `DbusvMsg`, `dbusvParseMessage`: what the parser reads.

Offsets are natural numbers: the sums of 32-bit lengths that the source computes in `size_t` do
not wrap.
-/

namespace Ridux

open Option

def dbusvAlign (v a : ℕ) : ℕ := (v + (a - 1)) / a * a

/-- `dbusv_wr_u32`, little endian. -/
def dbusvWrU32 (v : ℕ) : Bytes :=
  [UInt8.ofNat v, UInt8.ofNat (v / 2 ^ 8), UInt8.ofNat (v / 2 ^ 16), UInt8.ofNat (v / 2 ^ 24)]

/-- The byte at an offset of a buffer. -/
def byteAt (buf : Bytes) (p : ℕ) : UInt8 := buf.getD p 0

/-- `n` bytes of a buffer. -/
def slice (buf : Bytes) (p n : ℕ) : Bytes := (buf.drop p).take n

def dbusvRdU32 (buf : Bytes) (p : ℕ) (le : Bool) : ℕ :=
  let b := fun i => (byteAt buf (p + i)).toNat
  if le then b 0 + b 1 * 2 ^ 8 + b 2 * 2 ^ 16 + b 3 * 2 ^ 24
  else b 3 + b 2 * 2 ^ 8 + b 1 * 2 ^ 16 + b 0 * 2 ^ 24

/-! ### The writer -/

/-- `dbusv_writer_t`, with the bytes written so far; `pos` is their number. -/
structure DbusvWriter where
  cap : ℕ
  buf : Bytes
  ok : Bool

namespace DbusvWriter

/-- `dbusv_w_init`. -/
def init (cap : ℕ) : DbusvWriter := ⟨cap, [], 0 < cap⟩

/-- `w->pos`. -/
def pos (w : DbusvWriter) : ℕ := w.buf.length

/-- `dbusv_w_bytes`; every other write is a case of it. -/
def bytes (src : Bytes) (w : DbusvWriter) : DbusvWriter :=
  if !w.ok then w
  else if w.pos + src.length > w.cap then { w with ok := false }
  else { w with buf := w.buf ++ src }

/-- The zeros up to the next multiple of `a`. -/
def pad (a n : ℕ) : Bytes := List.replicate (dbusvAlign n a - n) 0

/-- `dbusv_w_align`. -/
def align (a : ℕ) (w : DbusvWriter) : DbusvWriter := w.bytes (pad a w.pos)

/-- `dbusv_w_u8`. -/
def u8 (v : UInt8) (w : DbusvWriter) : DbusvWriter := w.bytes [v]

/-- `dbusv_w_u32`. -/
def u32 (v : ℕ) (w : DbusvWriter) : DbusvWriter := w.bytes (dbusvWrU32 v)

/-- `dbusv_w_cstr`. -/
def cstr (s : Bytes) (w : DbusvWriter) : DbusvWriter :=
  (((w.align 4).u32 s.length).bytes s).u8 0

/-- `dbusv_w_sig`. -/
def sig (s : Bytes) (w : DbusvWriter) : DbusvWriter :=
  let sl := if s.length > 255 then 255 else s.length
  ((w.u8 (UInt8.ofNat sl)).bytes (s.take sl)).u8 0

/-- `dbusv_field_add_u32`. -/
def fieldAddU32 (code : UInt8) (v : ℕ) (w : DbusvWriter) : DbusvWriter :=
  ((((w.align 8).u8 code).sig [0x75]).align 4).u32 v

/-- `dbusv_field_add_str`. -/
def fieldAddStr (code : UInt8) (s : Bytes) (stype : UInt8) (w : DbusvWriter) : DbusvWriter :=
  (((w.align 8).u8 code).sig [stype]).cstr s

/-- `dbusv_field_add_sig`. -/
def fieldAddSig (code : UInt8) (s : Bytes) (w : DbusvWriter) : DbusvWriter :=
  (((w.align 8).u8 code).sig [0x67]).sig s

end DbusvWriter

/-! ### The message that is queued -/

/-- The arguments of `dbusv_queue_message`; a null string is the empty one. -/
structure DbusvOut where
  type : UInt8
  path : CString
  iface : CString
  member : CString
  dest : CString
  sender : CString
  errName : CString
  replySerial : UInt32
  sig : CString
  body : Bytes

/-- One optional string field: `if(s&&s[0])dbusv_field_add_str(..)`. -/
def dbusvOptStr (code : UInt8) (s : Bytes) (stype : UInt8) (w : DbusvWriter) : DbusvWriter :=
  if s ≠ [] then w.fieldAddStr code s stype else w

/-- The header fields. -/
def dbusvFields (m : DbusvOut) : DbusvWriter :=
  let fw := DbusvWriter.init 2048
  let fw := dbusvOptStr 1 m.path 0x6F fw
  let fw := dbusvOptStr 2 m.iface 0x73 fw
  let fw := dbusvOptStr 3 m.member 0x73 fw
  let fw := dbusvOptStr 4 m.errName 0x73 fw
  let fw := if m.replySerial ≠ 0 then fw.fieldAddU32 5 m.replySerial.toNat else fw
  let fw := dbusvOptStr 6 m.dest 0x73 fw
  let fw := dbusvOptStr 7 m.sender 0x73 fw
  if m.sig.val ≠ [] then fw.fieldAddSig 8 m.sig else fw

/-- The packet that `dbusv_queue_message` pushes, none for `-E2BIG`. -/
def dbusvBuild (serial : UInt32) (m : DbusvOut) : Option Bytes :=
  let fw := dbusvFields m
  if !fw.ok then none
  else
    let bodyOff := dbusvAlign (16 + fw.pos) 8
    if bodyOff + m.body.length > 6144 then none
    else
      some ([0x6C, m.type, 0, 1] ++ dbusvWrU32 m.body.length ++ dbusvWrU32 serial.toNat ++
        dbusvWrU32 fw.pos ++ fw.buf ++ List.replicate (bodyOff - (16 + fw.pos)) 0 ++ m.body)

/-! ### The parser -/

/-- `dbusv_msg_t`. -/
structure DbusvMsg where
  le : Bool
  type : UInt8
  flags : UInt8
  version : UInt8
  serial : ℕ
  replySerial : ℕ
  bodyLen : ℕ
  bodyOff : ℕ
  msgLen : ℕ
  body : Bytes
  path : Bytes
  iface : Bytes
  member : Bytes
  dest : Bytes
  sender : Bytes
  errName : Bytes
  signature : Bytes
  deriving DecidableEq

/-- The length of a copy into a buffer of `cap` bytes. -/
def clampLen (cap sl : ℕ) : ℕ := if sl ≥ cap then cap - 1 else sl

/-- `dbusv_read_sig`, for an output buffer of `cap` bytes; the offset behind it. -/
def dbusvReadSig (buf : Bytes) (len off cap : ℕ) : Option (Bytes × ℕ) :=
  if off + 1 > len then none
  else
    let sl := (byteAt buf off).toNat
    if off + 1 + sl + 1 > len then none
    else some (slice buf (off + 1) (clampLen cap sl), off + 1 + sl + 1)

def dbusvReadCstr (buf : Bytes) (len off : ℕ) (le : Bool) (cap : ℕ) : Option (Bytes × ℕ) :=
  let p := dbusvAlign off 4
  if p + 4 > len then none
  else
    let sl := dbusvRdU32 buf p le
    if p + 4 + sl + 1 > len then none
    else some (slice buf (p + 4) (clampLen cap sl), p + 4 + sl + 1)

def dbusvReadU32 (buf : Bytes) (len off : ℕ) (le : Bool) : Option (ℕ × ℕ) :=
  let p := dbusvAlign off 4
  if p + 4 > len then none else some (dbusvRdU32 buf p le, p + 4)

/-- Where a string field goes. -/
def DbusvMsg.setStr (m : DbusvMsg) (code : UInt8) (tmp : Bytes) : DbusvMsg :=
  if code = 1 then { m with path := strlcpy 160 tmp }
  else if code = 2 then { m with iface := strlcpy 160 tmp }
  else if code = 3 then { m with member := strlcpy 160 tmp }
  else if code = 6 then { m with dest := strlcpy 160 tmp }
  else if code = 7 then { m with sender := strlcpy 160 tmp }
  else if code = 4 then { m with errName := strlcpy 160 tmp }
  else m

/-- The value of a header field, read by the first letter of its signature. -/
def dbusvReadValue (buf : Bytes) (fieldsEnd : ℕ) (code letter : UInt8) (off : ℕ) (m : DbusvMsg) :
    Option (DbusvMsg × ℕ) :=
  if letter = 0x73 ∨ letter = 0x6F then
    (dbusvReadCstr buf fieldsEnd off m.le 160).map fun r => (m.setStr code r.1, r.2)
  else if letter = 0x67 then
    (dbusvReadSig buf fieldsEnd off 48).map fun r =>
      (if code = 8 then { m with signature := strlcpy 48 r.1 } else m, r.2)
  else if letter = 0x75 then
    (dbusvReadU32 buf fieldsEnd off m.le).map fun r =>
      (if code = 5 then { m with replySerial := r.1 } else m, r.2)
  else none

/-- One header field at an aligned offset. -/
def dbusvReadField (buf : Bytes) (fieldsEnd off : ℕ) (m : DbusvMsg) : Option (DbusvMsg × ℕ) :=
  match dbusvReadSig buf fieldsEnd (off + 1) 8 with
  | none => none
  | some (vsig, p) => dbusvReadValue buf fieldsEnd (byteAt buf off) (vsig.headD 0) p m

theorem dbusvAlign_ge (v : ℕ) {a : ℕ} (ha : 0 < a) : v ≤ dbusvAlign v a := by
  unfold dbusvAlign
  have h1 := Nat.div_add_mod (v + (a - 1)) a
  have h2 := Nat.mod_lt (v + (a - 1)) ha
  rw [Nat.mul_comm] at h1
  omega

variable {off p cap : ℕ} {s : Bytes} {le : Bool}

theorem dbusvReadSig_lt {buf : Bytes} {len : ℕ} (h : dbusvReadSig buf len off cap = some (s, p)) :
    off < p := by
  unfold dbusvReadSig at h
  dsimp only at h
  split_ifs at h
  obtain ⟨-, rfl⟩ := Prod.mk.inj (some.inj h)
  omega

theorem dbusvReadCstr_lt {buf : Bytes} {len : ℕ} (h : dbusvReadCstr buf len off le cap = some (s, p)) :
    off < p := by
  have := dbusvAlign_ge off (a := 4) (by decide)
  unfold dbusvReadCstr at h
  dsimp only at h
  split_ifs at h
  obtain ⟨-, rfl⟩ := Prod.mk.inj (some.inj h)
  omega

theorem dbusvReadU32_lt {buf : Bytes} {len v : ℕ} (h : dbusvReadU32 buf len off le = some (v, p)) :
    off < p := by
  have := dbusvAlign_ge off (a := 4) (by decide)
  unfold dbusvReadU32 at h
  dsimp only at h
  split_ifs at h
  obtain ⟨-, rfl⟩ := Prod.mk.inj (some.inj h)
  omega

variable {fe : ℕ} {m m' : DbusvMsg}

theorem dbusvReadValue_lt {buf : Bytes} {code letter : UInt8}
    (h : dbusvReadValue buf fe code letter off m = some (m', p)) : off < p := by
  unfold dbusvReadValue at h
  by_cases hs : letter = 0x73 ∨ letter = 0x6F
  · rw [if_pos hs] at h
    obtain ⟨⟨x, q⟩, hr, he⟩ := map_eq_some_iff.1 h
    obtain ⟨-, rfl⟩ := Prod.mk.inj he
    exact dbusvReadCstr_lt hr
  rw [if_neg hs] at h
  by_cases hg : letter = 0x67
  · rw [if_pos hg] at h
    obtain ⟨⟨x, q⟩, hr, he⟩ := map_eq_some_iff.1 h
    obtain ⟨-, rfl⟩ := Prod.mk.inj he
    exact dbusvReadSig_lt hr
  rw [if_neg hg] at h
  by_cases hu : letter = 0x75
  · rw [if_pos hu] at h
    obtain ⟨⟨x, q⟩, hr, he⟩ := map_eq_some_iff.1 h
    obtain ⟨-, rfl⟩ := Prod.mk.inj he
    exact dbusvReadU32_lt hr
  · rw [if_neg hu] at h
    cases h

theorem dbusvReadField_lt {buf : Bytes} (h : dbusvReadField buf fe off m = some (m', p)) : off < p := by
  unfold dbusvReadField at h
  split at h
  · cases h
  · next hs =>
    have h1 := dbusvReadSig_lt hs
    have h2 := dbusvReadValue_lt h
    omega

/-- The loop over the header fields, none for `-1`. -/
def dbusvParseFields (buf : Bytes) (fieldsEnd off : ℕ) (m : DbusvMsg) : Option DbusvMsg :=
  if off < fieldsEnd then
    let p := dbusvAlign off 8
    if p ≥ fieldsEnd then some m
    else
      match h : dbusvReadField buf fieldsEnd p m with
      | none => none
      | some (m', p') => dbusvParseFields buf fieldsEnd p' m'
  else some m
termination_by fieldsEnd - off
decreasing_by
  have h1 := dbusvReadField_lt h
  have h2 := dbusvAlign_ge off (a := 8) (by decide)
  omega

theorem dbusvParseFields_end {buf : Bytes} (h : fe ≤ dbusvAlign off 8) :
    dbusvParseFields buf fe off m = some m := by
  unfold dbusvParseFields
  by_cases ho : off < fe
  · simp [ho, h]
  · simp [ho]

theorem dbusvParseFields_step {buf : Bytes} (h : dbusvAlign off 8 < fe) :
    dbusvParseFields buf fe off m =
      (dbusvReadField buf fe (dbusvAlign off 8) m).bind fun r =>
        dbusvParseFields buf fe r.2 r.1 := by
  have ha := dbusvAlign_ge off (a := 8) (by decide)
  rw [dbusvParseFields]
  simp only [if_pos (show off < fe by omega), if_neg (show ¬dbusvAlign off 8 ≥ fe by omega)]
  split
  · next hr => rw [hr, bind_none]
  · next hr => rw [hr, bind_some]

/-- The results of `dbusv_parse_message`. -/
inductive DbusvParsed
  /-- `-1` -/
  | bad
  /-- `0` -/
  | more
  /-- `1`, with the message and `*consumed` -/
  | done (m : DbusvMsg) (consumed : ℕ)

def dbusvParseMessage (buf : Bytes) : DbusvParsed :=
  let len := buf.length
  if len < 16 then .more
  else if byteAt buf 0 ≠ 0x6C ∧ byteAt buf 0 ≠ 0x42 then .bad
  else
    let le : Bool := byteAt buf 0 = 0x6C
    let bodyLen := dbusvRdU32 buf 4 le
    let fieldsEnd := 16 + dbusvRdU32 buf 12 le
    let bodyOff := dbusvAlign fieldsEnd 8
    let total := bodyOff + bodyLen
    if fieldsEnd > len ∨ bodyOff > len then .more
    else if total > len then .more
    else
      let m : DbusvMsg :=
        { le := le, type := byteAt buf 1, flags := byteAt buf 2, version := byteAt buf 3
          serial := dbusvRdU32 buf 8 le, replySerial := 0, bodyLen := bodyLen, bodyOff := bodyOff
          msgLen := total, body := slice buf bodyOff bodyLen, path := [], iface := [], member := []
          dest := [], sender := [], errName := [], signature := [] }
      match dbusvParseFields buf fieldsEnd 16 m with
      | none => .bad
      | some m => .done m total

end Ridux
