import Mathlib.Algebra.Group.Nat.Defs
import Ridux.Text

/-!
# Segments

* `Segment`, `parseSegment`: what the TCP engine reads of a segment that came in;
* `Frame`, `Frame.bytes`: what it sends;
* `mssOption`: the maximum segment size in the options of a SYN.
-/

namespace Ridux

/-- A sequence number. -/
abbrev Seq := BitVec 32

def tcpFin : UInt8 := 0x01
def tcpSyn : UInt8 := 0x02
def tcpRst : UInt8 := 0x04
def tcpPsh : UInt8 := 0x08
def tcpAck : UInt8 := 0x10

/-- A segment; `opts` are the bytes of the header after the first 20. -/
structure Segment where
  flags : UInt8
  seq : Seq
  ack : Seq
  wnd : BitVec 16
  opts : Bytes
  payload : Bytes

namespace Segment

def has (s : Segment) (flag : UInt8) : Bool := s.flags &&& flag ≠ 0

/-- The number of the first byte after the payload. -/
def dataEnd (s : Segment) : Seq := s.seq + BitVec.ofNat 32 s.payload.length

end Segment

/-- A number of four bytes, the high one first. -/
def be32 (b : Bytes) (i : ℕ) : Seq :=
  BitVec.ofNat 32 ((((b.getD i 0).toNat * 256 + (b.getD (i + 1) 0).toNat) * 256 +
    (b.getD (i + 2) 0).toNat) * 256 + (b.getD (i + 3) 0).toNat)

/-- A number of two bytes, the high one first. -/
def be16 (b : Bytes) (i : ℕ) : BitVec 16 :=
  BitVec.ofNat 16 ((b.getD i 0).toNat * 256 + (b.getD (i + 1) 0).toNat)

/-- The header of a segment, if it is long enough. -/
def parseSegment (tp : Bytes) : Option Segment :=
  if tp.length < 20 then none
  else
    let hdrLen := (tp.getD 12 0).toNat / 16 * 4
    if hdrLen < 20 ∨ tp.length < hdrLen then none
    else some
      { flags := tp.getD 13 0
        seq := be32 tp 4
        ack := be32 tp 8
        wnd := be16 tp 14
        opts := (tp.take hdrLen).drop 20
        payload := tp.drop hdrLen }

/-- The loop over the options of a SYN, from the option at the head of `opts` on; a round takes one
byte at least. -/
def mssOptionFuel : ℕ → Bytes → BitVec 32 → BitVec 32
  | 0, _, mss => mss
  | fuel + 1, opts, mss =>
    match opts with
    | [] => mss
    | kind :: rest =>
      if kind = 0 then mss
      else if kind = 1 then mssOptionFuel fuel rest mss
      else
        match rest with
        | [] => mss
        | olen :: _ =>
          if olen.toNat < 2 ∨ opts.length < olen.toNat then mss
          else
            let m : BitVec 32 := BitVec.setWidth 32 (be16 opts 2)
            let mss := if kind = 2 ∧ olen = 4 ∧ 536 ≤ m.toNat ∧ m.toNat < mss.toNat then m else mss
            mssOptionFuel fuel (opts.drop olen.toNat) mss

/-- What a segment makes of the maximum segment size. -/
def mssOption (s : Segment) (mss : BitVec 32) : BitVec 32 :=
  if s.has tcpSyn then mssOptionFuel s.opts.length s.opts mss else mss

theorem mssOptionFuel_bounds (fuel : ℕ) : ∀ (opts : Bytes) (mss : BitVec 32),
    (mssOptionFuel fuel opts mss).toNat ≤ mss.toNat ∧
      (536 ≤ mss.toNat → 536 ≤ (mssOptionFuel fuel opts mss).toNat) := by
  induction fuel with
  | zero => exact fun _ _ => ⟨le_rfl, id⟩
  | succ fuel ih =>
    intro opts mss
    unfold mssOptionFuel
    cases opts with
    | nil => exact ⟨le_rfl, id⟩
    | cons kind rest =>
      dsimp only
      split_ifs with hend hnop
      · exact ⟨le_rfl, id⟩
      · exact ih rest mss
      · cases rest with
        | nil => exact ⟨le_rfl, id⟩
        | cons olen tail =>
          dsimp only
          split_ifs with hbad hmss
          · exact ⟨le_rfl, id⟩
          · obtain ⟨hle, hmin⟩ := ih ((kind :: olen :: tail).drop olen.toNat)
              (BitVec.setWidth 32 (be16 (kind :: olen :: tail) 2))
            exact ⟨hle.trans hmss.2.2.2.le, fun _ => hmin hmss.2.2.1⟩
          · exact ih _ mss

theorem mssOption_bounds (s : Segment) (mss : BitVec 32) :
    (mssOption s mss).toNat ≤ mss.toNat ∧
      (536 ≤ mss.toNat → 536 ≤ (mssOption s mss).toNat) := by
  unfold mssOption
  split_ifs
  · exact mssOptionFuel_bounds _ _ _
  · exact ⟨le_rfl, id⟩

theorem parseSegment_length {tp : Bytes} {seg : Segment} (h : parseSegment tp = some seg) :
    seg.payload.length ≤ tp.length := by
  unfold parseSegment at h
  dsimp only at h
  split_ifs at h
  rw [← Option.some.inj h, List.length_drop]
  exact Nat.sub_le _ _

/-! ### What is sent -/

/-- A segment that is sent; a SYN carries the maximum segment size. -/
structure Frame where
  seq : Seq
  ack : Seq
  flags : UInt8
  wnd : BitVec 16
  mss : Option (BitVec 32)
  data : Bytes

/-- The low byte of `v >> s`. -/
def netByte (v s : ℕ) : UInt8 := UInt8.ofNat (v / 2 ^ s)

/-- The frame as `net_build_tcp` and its callers write it. -/
def Frame.bytes (f : Frame) (srcPort dstPort : BitVec 16) : Bytes :=
  [netByte srcPort.toNat 8, netByte srcPort.toNat 0, netByte dstPort.toNat 8, netByte dstPort.toNat 0,
    netByte f.seq.toNat 24, netByte f.seq.toNat 16, netByte f.seq.toNat 8, netByte f.seq.toNat 0,
    netByte f.ack.toNat 24, netByte f.ack.toNat 16, netByte f.ack.toNat 8, netByte f.ack.toNat 0,
    if f.mss.isSome then 0x60 else 0x50, f.flags, netByte f.wnd.toNat 8, netByte f.wnd.toNat 0,
    0, 0, 0, 0] ++
  (match f.mss with
    | some mss => [2, 4, netByte mss.toNat 8, netByte mss.toNat 0]
    | none => []) ++ f.data

end Ridux
