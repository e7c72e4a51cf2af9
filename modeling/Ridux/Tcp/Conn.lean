import Ridux.Net.Calls
import Ridux.Tcp.Segment

/-!
# Connections

The control block of a TCP connection and what a segment does to it.

* `Tcb`: `tcp7_tcb_t`; its fields for urgent data, window updates and reassembly are left out, which
  no function reads;
* `Tcb.onSegment`: `tcp7_incoming_segment` once the block is found and the header read;
* `Tcb.sent`, `Tcb.closed`, `Tcb.ticked`: the block after `tcp7_send`, `tcp7_close` and a round of
  `tcp7_tick`.
-/

namespace Ridux

def tcp7MssDefault : BitVec 32 := 1460
def tcp7InitialCwnd : BitVec 32 := 10
def tcp7InitialSsthresh : BitVec 32 := 65535
def tcp7RtoMin : BitVec 32 := 200
def tcp7RtoMax : BitVec 32 := 60000
def tcp7RtoInitial : BitVec 32 := 1000
def tcp7MaxRetransmits : BitVec 32 := 15

/-- `CC_*`. -/
inductive CcState
  | slowStart | avoidance | fastRecover
  deriving DecidableEq

/-- `tcp7_tcb_t`; no socket is `-1`. -/
structure Tcb where
  sockFd : Option ℕ
  state : TcpState
  sndUna : Seq
  sndNxt : Seq
  sndWnd : BitVec 32
  rcvNxt : Seq
  rcvWnd : BitVec 32
  ccState : CcState
  cwnd : BitVec 32
  ssthresh : BitVec 32
  dupAcks : BitVec 32
  rto : BitVec 32
  srtt : BitVec 32
  rttvar : BitVec 32
  rtoCount : BitVec 32
  rtoMax : BitVec 32
  rtoExpire : ℕ
  timeWaitExpire : ℕ
  delackExpire : ℕ
  delackPending : Bool
  mss : BitVec 32
  iss : Seq
  irs : Seq

namespace Tcb

/-- A block that is not in use. -/
def free : Tcb where
  sockFd := none
  state := .closed
  sndUna := 0
  sndNxt := 0
  sndWnd := 0
  rcvNxt := 0
  rcvWnd := 0
  ccState := .slowStart
  cwnd := 0
  ssthresh := 0
  dupAcks := 0
  rto := 0
  srtt := 0
  rttvar := 0
  rtoCount := 0
  rtoMax := 0
  rtoExpire := 0
  timeWaitExpire := 0
  delackExpire := 0
  delackPending := false
  mss := 0
  iss := 0
  irs := 0

/-- The block of `tcp7_connect`, with the SYN sent at the time `now`. -/
def opened (fd : ℕ) (iss : Seq) (now : ℕ) : Tcb where
  sockFd := some fd
  state := .synSent
  sndUna := iss
  sndNxt := iss + 1
  sndWnd := 65535
  rcvNxt := 0
  rcvWnd := 65535
  ccState := .slowStart
  cwnd := tcp7InitialCwnd * tcp7MssDefault
  ssthresh := tcp7InitialSsthresh
  dupAcks := 0
  rto := tcp7RtoInitial
  srtt := 0
  rttvar := 0
  rtoCount := 0
  rtoMax := tcp7MaxRetransmits
  rtoExpire := now + tcp7RtoInitial.toNat
  timeWaitExpire := 0
  delackExpire := 2
  delackPending := false
  mss := tcp7MssDefault
  iss := iss
  irs := 0

/-- `tcp7_release_tcb`. -/
def released (t : Tcb) : Tcb :=
  { t with
    sockFd := none, state := .closed, delackPending := false, timeWaitExpire := 0
    delackExpire := 0 }

/-- `tcp7_rtt_update`. -/
def rttUpdate (rttMs : BitVec 32) (t : Tcb) : Tcb :=
  let srtt := if t.srtt = 0 then rttMs else (7 * t.srtt + rttMs) / 8
  let rttvar := if t.srtt = 0 then rttMs / 2
    else (3 * t.rttvar + (if rttMs.toNat < t.srtt.toNat then t.srtt - rttMs else rttMs - t.srtt)) / 4
  let rto := srtt + 4 * rttvar
  let rto := if rto.toNat < tcp7RtoMin.toNat then tcp7RtoMin else rto
  let rto := if tcp7RtoMax.toNat < rto.toNat then tcp7RtoMax else rto
  { t with srtt := srtt, rttvar := rttvar, rto := rto }

/-! ### What is sent -/

/-- The window of a frame: a 16-bit argument. -/
def wnd16 (t : Tcb) : BitVec 16 := t.rcvWnd.setWidth 16

/-- The frame of `tcp7_send_syn`. -/
def synFrame (t : Tcb) : Frame := ⟨t.iss, 0, tcpSyn, t.wnd16, some t.mss, []⟩

/-- The frame of `tcp7_send_synack`. -/
def synackFrame (t : Tcb) : Frame := ⟨t.iss, t.irs + 1, tcpSyn ||| tcpAck, t.wnd16, some t.mss, []⟩

/-- The frame of `tcp7_send_ack`. -/
def ackFrame (t : Tcb) : Frame := ⟨t.sndNxt, t.rcvNxt, tcpAck, t.wnd16, none, []⟩

/-- The frame of `tcp7_send_fin`. -/
def finFrame (t : Tcb) : Frame := ⟨t.sndNxt, t.rcvNxt, tcpFin ||| tcpAck, t.wnd16, none, []⟩

/-- A frame of `tcp7_send`. -/
def dataFrame (t : Tcb) (data : Bytes) : Frame :=
  ⟨t.sndNxt, t.rcvNxt, tcpAck ||| tcpPsh, t.wnd16, none, data⟩

/-- The block after `tcp7_send_ack`. -/
def acked (t : Tcb) : Tcb := { t with delackPending := false }

/-! ### Segments -/

/-- What a segment leaves: the block, the frames sent, the mark of the socket if it changes, whether
the socket gets `ECONNREFUSED`, and whether the payload is to be stored. -/
structure Seen where
  tcb : Tcb
  frames : List Frame := []
  sock : Option TcpState := none
  refused : Bool := false
  payload : Bool := false

/-- The window and the segment size of the peer. -/
def negotiate (seg : Segment) (t : Tcb) : Tcb :=
  { t with
    sndWnd := if seg.wnd = 0 then t.sndWnd else seg.wnd.setWidth 32
    mss := mssOption seg t.mss }

/-- Payload in order moves the next number on. -/
def takeData (seg : Segment) (t : Tcb) : Tcb × Bool :=
  if seg.payload ≠ [] ∧ seg.seq = t.rcvNxt then
    ({ t with rcvNxt := t.rcvNxt + BitVec.ofNat 32 seg.payload.length }, true)
  else (t, false)

/-- Congestion control for the number `ack`. -/
def takeAck (ack : Seq) (t : Tcb) : Tcb :=
  if t.sndUna.toNat < ack.toNat then
    let nacked := ack - t.sndUna
    let t := { t with sndUna := ack, dupAcks := 0, rtoCount := 0 }
    if t.ccState = .slowStart then
      let cwnd := t.cwnd + nacked
      { t with
        cwnd := cwnd
        ccState := if t.ssthresh.toNat ≤ cwnd.toNat then .avoidance else t.ccState }
    else { t with cwnd := t.cwnd + tcp7MssDefault * tcp7MssDefault / t.cwnd }
  else if ack = t.sndUna then
    let t := { t with dupAcks := t.dupAcks + 1 }
    if 3 ≤ t.dupAcks.toNat then
      let half := t.cwnd / 2
      let ssthresh := if half.toNat < (2 * tcp7MssDefault).toNat then 2 * tcp7MssDefault else half
      { t with
        ssthresh := ssthresh, cwnd := ssthresh + 3 * tcp7MssDefault, ccState := .fastRecover }
    else t
  else t

/-- `TCP7_SYN_SENT`. -/
def onSynSent (seg : Segment) (t : Tcb) : Seen :=
  if seg.has tcpSyn ∧ seg.has tcpAck then
    let t := { t with
      irs := seg.seq, rcvNxt := seg.seq + 1, sndUna := seg.ack, state := .established
      rtoExpire := 0 }
    let t := { t.rttUpdate 100 with ccState := .slowStart }
    { tcb := t.acked, frames := [t.ackFrame], sock := some .established }
  else { tcb := t }

/-- The FIN of an established connection. -/
def takeFin (seg : Segment) (t : Tcb) : Tcb × Bool :=
  if seg.has tcpFin ∧ seg.dataEnd = t.rcvNxt then
    ({ t with rcvNxt := t.rcvNxt + 1, state := .closeWait }, true)
  else (t, false)

/-- `TCP7_ESTABLISHED`: payload is answered with an acknowledgement whether it was taken or not. -/
def onEstablished (seg : Segment) (t : Tcb) : Seen :=
  let data := t.takeData seg
  let t := if seg.payload ≠ [] then data.1.acked else data.1
  let fin := t.takeFin seg
  { tcb :=
      let t := if fin.2 then fin.1.acked else fin.1
      if seg.has tcpAck then t.takeAck seg.ack else t
    frames :=
      (if seg.payload ≠ [] then [data.1.ackFrame] else []) ++ if fin.2 then [fin.1.ackFrame] else []
    sock := if fin.2 then some .closeWait else none
    payload := data.2 }

/-- A FIN after the local side has closed: it is counted, acknowledged, and moves to `state`. -/
def finTo (state : TcpState) (t : Tcb) : Seen :=
  let t := { t with rcvNxt := t.rcvNxt + 1, state := state }
  { tcb := t.acked, frames := [t.ackFrame] }

/-- The start of `TCP7_TIME_WAIT`. -/
def wait200 (t : Tcb) : Tcb := { t with timeWaitExpire := 200 }

/-- The switch of `tcp7_incoming_segment`. -/
def onSegment (seg : Segment) (t : Tcb) : Seen :=
  let t := t.negotiate seg
  if seg.has tcpRst then { tcb := t.released, sock := some .closed, refused := true }
  else
    match t.state with
    | .synSent => t.onSynSent seg
    | .synRcvd =>
      if seg.has tcpAck then
        { tcb := { t with sndUna := seg.ack, state := .established }, sock := some .established }
      else { tcb := t }
    | .established => t.onEstablished seg
    | .finWait1 =>
      if seg.has tcpAck ∧ seg.has tcpFin then t.wait200.finTo .timeWait
      else if seg.has tcpAck then { tcb := { t with state := .finWait2 } }
      else if seg.has tcpFin then t.finTo .closing
      else { tcb := t }
    | .finWait2 => if seg.has tcpFin then t.wait200.finTo .timeWait else { tcb := t }
    | .closing =>
      if seg.has tcpAck then { tcb := { t.wait200 with state := .timeWait } } else { tcb := t }
    | .lastAck =>
      if seg.has tcpAck then { tcb := t.released, sock := some .closed } else { tcb := t }
    | _ => { tcb := t }

/-! ### The calls -/

/-- The window of the congestion control and of the peer. -/
def window (t : Tcb) : BitVec 32 := if t.sndWnd.toNat < t.cwnd.toNat then t.sndWnd else t.cwnd

/-- How much may be sent. -/
def avail (t : Tcb) : ℕ :=
  if (t.sndNxt - t.sndUna).toNat < t.window.toNat then (t.window - (t.sndNxt - t.sndUna)).toNat
  else 0

/-- The states in which data may be sent. -/
def canSend (t : Tcb) : Bool := t.state = .established ∨ t.state = .closeWait

/-- The block after a segment of `n` bytes was sent. -/
def advance (n : ℕ) (t : Tcb) : Tcb := { t with sndNxt := t.sndNxt + BitVec.ofNat 32 n }

/-- Congestion control after `n` bytes were sent. -/
def grow (n : ℕ) (t : Tcb) : Tcb :=
  if t.ccState = .slowStart then { t with cwnd := t.cwnd + BitVec.ofNat 32 n }
  else { t with cwnd := t.cwnd + BitVec.ofNat 32 n * tcp7MssDefault / t.cwnd }

/-- The block after `tcp7_close`, and whether a FIN was sent. -/
def closed (t : Tcb) : Tcb × Bool :=
  match t.state with
  | .established => ({ t with state := .finWait1, sndNxt := t.sndNxt + 1 }, true)
  | .closeWait => ({ t with state := .lastAck, sndNxt := t.sndNxt + 1 }, true)
  | _ => (t.released, false)

/-- What a round of `tcp7_tick` leaves; `timedOut` says that the socket gets `ETIMEDOUT`. -/
structure Ticked where
  tcb : Tcb
  frames : List Frame := []
  timedOut : Bool := false

/-- A SYN that was not answered: it is sent again, up to `rto_max` times. -/
def retrySyn (now : ℕ) (t : Tcb) : Ticked :=
  if t.rtoExpire ≠ 0 ∧ now < t.rtoExpire then { tcb := t }
  else
    let t := { t with rtoCount := t.rtoCount + 1 }
    if t.rtoMax.toNat ≤ t.rtoCount.toNat then { tcb := t.released, timedOut := true }
    else
      let frame := if t.state = .synSent then t.synFrame else t.synackFrame
      let rto := t.rto * 2
      { tcb := { t with
          sndNxt := t.iss + 1, sndUna := t.iss, rtoExpire := now + t.rto.toNat
          rto := if tcp7RtoMax.toNat < rto.toNat then tcp7RtoMax else rto }
        frames := [frame] }

/-- The wait at the end of a connection. -/
def countTimeWait (t : Tcb) : Tcb :=
  let expire := if t.timeWaitExpire = 0 then 200 else t.timeWaitExpire - 1
  if expire = 0 then t.released else { t with timeWaitExpire := expire }

/-- The delayed acknowledgement. -/
def countDelack (t : Tcb) : Ticked :=
  if t.delackPending ∧ t.state = .established then
    let expire := if t.delackExpire = 0 then 2 else t.delackExpire - 1
    let t := { t with delackExpire := expire }
    if expire = 0 then { tcb := t.acked, frames := [t.ackFrame] } else { tcb := t }
  else { tcb := t }

/-- A round of `tcp7_tick` for a block in use. -/
def ticked (now : ℕ) (t : Tcb) : Ticked :=
  match t.state with
  | .synSent | .synRcvd => t.retrySyn now
  | .timeWait => { tcb := t.countTimeWait }
  | _ => t.countDelack

/-! ### What the stages of a segment leave alone -/

variable (seg : Segment) (b : Tcb)

@[simp] theorem negotiate_state : (b.negotiate seg).state = b.state := rfl

@[simp] theorem negotiate_rcvNxt : (b.negotiate seg).rcvNxt = b.rcvNxt := rfl

theorem takeAck_same (ack : Seq) (b : Tcb) :
    (b.takeAck ack).sockFd = b.sockFd ∧ (b.takeAck ack).state = b.state ∧
      (b.takeAck ack).rcvNxt = b.rcvNxt ∧ (b.takeAck ack).sndNxt = b.sndNxt ∧
      (b.takeAck ack).iss = b.iss := by
  unfold takeAck
  dsimp only
  split_ifs <;> exact ⟨rfl, rfl, rfl, rfl, rfl⟩

theorem takeFin_same (b : Tcb) :
    (b.takeFin seg).1.sockFd = b.sockFd ∧ (b.takeFin seg).1.sndNxt = b.sndNxt ∧
      (b.takeFin seg).1.sndUna = b.sndUna ∧ (b.takeFin seg).1.iss = b.iss ∧
      (b.takeFin seg).1.cwnd = b.cwnd ∧ (b.takeFin seg).1.ssthresh = b.ssthresh ∧
      (b.takeFin seg).1.ccState = b.ccState := by
  unfold takeFin
  split_ifs <;> exact ⟨rfl, rfl, rfl, rfl, rfl, rfl, rfl⟩

theorem takeData_same (b : Tcb) :
    (b.takeData seg).1.sockFd = b.sockFd ∧ (b.takeData seg).1.state = b.state ∧
      (b.takeData seg).1.sndNxt = b.sndNxt ∧ (b.takeData seg).1.sndUna = b.sndUna ∧
      (b.takeData seg).1.iss = b.iss ∧ (b.takeData seg).1.cwnd = b.cwnd ∧
      (b.takeData seg).1.ssthresh = b.ssthresh ∧ (b.takeData seg).1.ccState = b.ccState := by
  unfold takeData
  split_ifs <;> exact ⟨rfl, rfl, rfl, rfl, rfl, rfl, rfl, rfl⟩

/-- An established connection before its acknowledgements are looked at. -/
def received (seg : Segment) (b : Tcb) : Tcb × Bool :=
  let data := b.takeData seg
  let b := if seg.payload ≠ [] then data.1.acked else data.1
  let fin := b.takeFin seg
  (if fin.2 then fin.1.acked else fin.1, fin.2)

theorem onEstablished_tcb (b : Tcb) : (b.onEstablished seg).tcb =
    if seg.has tcpAck then (b.received seg).1.takeAck seg.ack else (b.received seg).1 := rfl

theorem received_same (b : Tcb) :
    (b.received seg).1.sockFd = b.sockFd ∧ (b.received seg).1.sndNxt = b.sndNxt ∧
      (b.received seg).1.sndUna = b.sndUna ∧ (b.received seg).1.iss = b.iss ∧
      (b.received seg).1.cwnd = b.cwnd ∧ (b.received seg).1.ssthresh = b.ssthresh ∧
      (b.received seg).1.ccState = b.ccState := by
  have hd := takeData_same seg b
  have hf := takeFin_same seg
    (if seg.payload ≠ [] then (b.takeData seg).1.acked else (b.takeData seg).1)
  have hacked : ∀ c : Tcb, c.acked.sockFd = c.sockFd ∧ c.acked.sndNxt = c.sndNxt ∧
      c.acked.sndUna = c.sndUna ∧ c.acked.iss = c.iss ∧ c.acked.cwnd = c.cwnd ∧
      c.acked.ssthresh = c.ssthresh ∧ c.acked.ccState = c.ccState :=
    fun c => ⟨rfl, rfl, rfl, rfl, rfl, rfl, rfl⟩
  unfold received
  dsimp only
  split_ifs at hf ⊢ <;> simp_all

theorem takeData_rcvNxt (b : Tcb) : (b.takeData seg).1.rcvNxt =
    if seg.payload ≠ [] ∧ seg.seq = b.rcvNxt then seg.dataEnd else b.rcvNxt := by
  unfold takeData Segment.dataEnd
  split_ifs with h
  · rw [h.2]
  · rfl

theorem received_fin (b : Tcb) :
    let fin := seg.has tcpFin = true ∧ seg.dataEnd = (b.takeData seg).1.rcvNxt
    ((b.received seg).2 = true ↔ fin) ∧
      (b.received seg).1.state = (if fin then .closeWait else b.state) ∧
      (b.received seg).1.rcvNxt =
        if fin then (b.takeData seg).1.rcvNxt + 1 else (b.takeData seg).1.rcvNxt := by
  have hd := takeData_same seg b
  have hacked : ∀ c : Tcb, c.acked.state = c.state ∧ c.acked.rcvNxt = c.rcvNxt := fun c => ⟨rfl, rfl⟩
  unfold received takeFin
  dsimp only
  generalize (b.takeData seg).1 = c at hd ⊢
  split_ifs <;> simp_all

theorem onEstablished_state {b : Tcb} (h : b.state = .established) :
    let fin := seg.has tcpFin = true ∧ seg.dataEnd = (b.takeData seg).1.rcvNxt
    (b.onEstablished seg).tcb.state = if fin then .closeWait else .established := by
  have hfin := (received_fin seg b).2.1
  rw [onEstablished_tcb]
  have hack := (takeAck_same seg.ack (b.received seg).1).2.1
  rw [h] at hfin
  split_ifs at hfin ⊢ <;> simp_all

end Tcb

end Ridux
