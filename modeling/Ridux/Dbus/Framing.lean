import Ridux.Dbus.Codec
import Ridux.Dbus.Dispatch
import Ridux.Dbus.RoundTrip
import Ridux.Lib.Frames
import Ridux.Lib.Run
import Ridux.Net.Pair

/-!
# The stream of a client is read message by message

Runs in which an authenticated client sends a stream of messages, cut up in any way.

* `DbusvFrame`: a well-formed message, with what the parser reads in it;
* `Net.dbusMessages`: the messages that `sock_dbus_on_send` hands to the bus;
* `FrameRun.Framed`: the bus has taken the messages that are complete, in order and each once, and
  no others wait;
* `FrameRun.framed_iff`: a call keeps that exactly when the last complete message ends in sight of
  the snapshot.
-/

namespace Ridux

open Lib Lib.Frames List

/-- A message as it is sent. -/
structure DbusvFrame where
  bytes : Bytes
  msg : DbusvMsg
  parses : dbusvParseMessage bytes = .done msg bytes.length

/-- The bytes of a stream of messages. -/
abbrev dbusvWire : List DbusvFrame → Bytes := wire DbusvFrame.bytes

/-- The messages that end within the first `k` bytes. -/
abbrev dbusvComplete : List DbusvFrame → ℕ → List DbusvFrame := complete DbusvFrame.bytes

/-- The bytes behind them. -/
abbrev dbusvPending : List DbusvFrame → ℕ → Bytes := pending DbusvFrame.bytes

@[simp] theorem dbusvWire_nil : dbusvWire [] = [] := rfl

@[simp] theorem dbusvWire_cons (f : DbusvFrame) (fs : List DbusvFrame) :
    dbusvWire (f :: fs) = f.bytes ++ dbusvWire fs := rfl

theorem dbusvWire_append (fs gs : List DbusvFrame) :
    dbusvWire (fs ++ gs) = dbusvWire fs ++ dbusvWire gs := wire_append gs

theorem dbusvPending_eq (fs : List DbusvFrame) (k : ℕ) :
    dbusvPending fs k = ((dbusvWire fs).take k).drop (dbusvWire (dbusvComplete fs k)).length := rfl

theorem dbusvWire_complete_le (fs : List DbusvFrame) (k : ℕ) :
    (dbusvWire (dbusvComplete fs k)).length ≤ k := wire_complete_le fs k

/-- The start of a message, or nothing. -/
def Partial (rest : Bytes) : Prop :=
  rest = [] ∨ ∃ f : DbusvFrame, ∃ j < f.bytes.length, rest = f.bytes.take j

theorem partial_pending (fs : List DbusvFrame) (k : ℕ) : Partial (dbusvPending fs k) :=
  pending_cases fs k

/-! ### The loop over the messages -/

/-- The messages that the loop of `dbusv_process_binary_stream` takes. -/
def dbusvMessages : ℕ → Bytes → List DbusvMsg
  | 0, _ => []
  | fuel + 1, buf =>
    match dbusvParseMessage buf with
    | .done m used => m :: dbusvMessages fuel (buf.drop used)
    | _ => []

theorem dbusvParseMessage_short {buf : Bytes} (h : buf.length < 16) :
    dbusvParseMessage buf = .more := by
  rw [dbusvParseMessage_eq, if_pos h]

theorem dbusvParseMessage_cut {rest : Bytes} (h : Partial rest) :
    dbusvParseMessage rest = .more := by
  rcases h with rfl | ⟨f, j, hj, rfl⟩
  · exact dbusvParseMessage_short (by decide)
  · exact dbusvParseMessage_take f.parses hj

theorem DbusvFrame.length_ge (f : DbusvFrame) : 16 ≤ f.bytes.length :=
  (dbusvParseMessage_done f.parses).1

theorem DbusvFrame.head_ne (f : DbusvFrame) : ∃ b t, f.bytes = b :: t ∧ b ≠ 0 := by
  obtain ⟨h16, h0, -⟩ := dbusvParseMessage_done f.parses
  cases hb : f.bytes with
  | nil =>
    rw [hb] at h16
    simp at h16
  | cons b t =>
    rw [hb] at h0
    refine ⟨b, t, rfl, ?_⟩
    rintro rfl
    rcases h0 with h0 | h0 <;> cases h0

theorem takeWhile_wire (gs : List DbusvFrame) {rest : Bytes} (h : Partial rest) :
    (dbusvWire gs ++ rest).takeWhile (· == 0) = [] := by
  cases gs with
  | nil =>
    rw [dbusvWire_nil, nil_append]
    rcases h with rfl | ⟨f, j, hj, rfl⟩
    · rfl
    · obtain ⟨b, t, hf, hb⟩ := f.head_ne
      cases j with
      | zero => simp
      | succ j => simp [hf, hb]
  | cons g gs =>
    obtain ⟨b, t, hg, hb⟩ := g.head_ne
    simp [hg, hb]

theorem length_le_wire (gs : List DbusvFrame) : gs.length ≤ (dbusvWire gs).length := by
  induction gs with
  | nil => simp
  | cons g gs ih =>
    have := g.length_ge
    rw [dbusvWire_cons, length_append, length_cons]
    omega

theorem dbusvMessages_wire {fuel : ℕ} (gs : List DbusvFrame) {rest : Bytes} (h : Partial rest)
    (hf : gs.length < fuel) :
    dbusvMessages fuel (dbusvWire gs ++ rest) = gs.map DbusvFrame.msg := by
  induction gs generalizing fuel with
  | nil =>
    cases fuel with
    | zero => cases hf
    | succ fuel =>
      rw [dbusvWire_nil, nil_append]
      unfold dbusvMessages
      rw [dbusvParseMessage_cut h]
      rfl
  | cons g gs ih =>
    cases fuel with
    | zero => cases hf
    | succ fuel =>
      rw [dbusvWire_cons, append_assoc]
      unfold dbusvMessages
      rw [dbusvParseMessage_append g.parses]
      dsimp only
      rw [drop_left, ih (by simpa using hf), map_cons]

namespace Net

/-- One turn of the loop. -/
def dispatch (svc : Services) (fd : ℕ) (n : Net) (m : DbusvMsg) : Net :=
  if m.type = 1 then n.handleMethodCall svc fd m else n

theorem processBinaryStream_dispatch (svc : Services) (fd fuel : ℕ) (n : Net) (buf : Bytes) :
    (processBinaryStream svc fd fuel n buf).2 = (dbusvMessages fuel buf).foldl (dispatch svc fd) n := by
  induction fuel generalizing n buf with
  | zero => rfl
  | succ fuel ih =>
    unfold processBinaryStream dbusvMessages
    by_cases hs : buf.length < 16
    · rw [if_pos hs, dbusvParseMessage_short hs]
      rfl
    · rw [if_neg hs]
      cases dbusvParseMessage buf with
      | more => rfl
      | bad => rfl
      | done m used => exact ih _ _

theorem processBinaryStream_wire (svc : Services) (fd : ℕ) {fuel : ℕ} (n : Net)
    (gs : List DbusvFrame) {rest : Bytes} (h : Partial rest) (hf : gs.length < fuel) :
    (processBinaryStream svc fd fuel n (dbusvWire gs ++ rest)).1 = (dbusvWire gs).length := by
  induction gs generalizing fuel n with
  | nil =>
    cases fuel with
    | zero => cases hf
    | succ fuel =>
      rw [dbusvWire_nil, nil_append]
      unfold processBinaryStream
      rw [dbusvParseMessage_cut h]
      split_ifs <;> rfl
  | cons g gs ih =>
    cases fuel with
    | zero => cases hf
    | succ fuel =>
      have hlen := g.length_ge
      rw [dbusvWire_cons, append_assoc]
      unfold processBinaryStream
      rw [if_neg (by rw [length_append]; omega), dbusvParseMessage_append g.parses]
      dsimp only
      rw [drop_left, ih _ (by simpa using hf), length_append]

/-- The messages that `sock_dbus_on_send` hands to the bus. -/
def dbusMessages (n : Net) (fd : ℕ) (req : Bytes) : List DbusvMsg :=
  let zeros := (req.takeWhile (· == 0)).length
  let r := authLoop fd (req.length + 1) (n.setBus n.bus.seedDefaults) (req.drop zeros)
  let consumed := zeros + r.1
  if (r.2.socks fd).virtState = 1 ∧ consumed < req.length then
    dbusvMessages (req.length + 1) (req.drop consumed) else []

/-! ### A client on the bus -/

/-- An authenticated client: what it sends reaches the bus. -/
def OnBus (n : Net) (fd : ℕ) : Prop :=
  n.live fd = true ∧ (n.socks fd).type = 1 ∧ (n.socks fd).tcpState = .established ∧
    (n.socks fd).shutdownTx = false ∧ netIsRealExternal (n.socks fd).remoteIp = false ∧
    n.livePeer (n.socks fd) = none ∧ (n.socks fd).virtService = .dbus ∧
    (n.socks fd).virtState = 1

variable {n n' : Net} {fd : ℕ}

theorem livePeer_congr (hs : ∀ i, (n'.socks i).used = (n.socks i).used) (s : Sock) :
    n'.livePeer s = n.livePeer s := by
  unfold livePeer
  congr 1
  funext i
  exact live_congr (hs i)

theorem OnBus.of_rx (h : n.OnBus fd) (hs : ∀ i, ∃ r, n'.socks i = { n.socks i with rx := r }) :
    n'.OnBus fd := by
  obtain ⟨h1, h2, h3, h4, h5, h6, h7, h8⟩ := h
  have hused : ∀ i, (n'.socks i).used = (n.socks i).used := by
    intro i
    obtain ⟨r, hr⟩ := hs i
    rw [hr]
  obtain ⟨r, hr⟩ := hs fd
  unfold OnBus
  rw [live_congr (hused fd), livePeer_congr hused, hr]
  exact ⟨h1, h2, h3, h4, h5, h6, h7, h8⟩

theorem OnBus.setTx (h : n.OnBus fd) (t : Ring UInt8 sockBufBits) :
    (n.setSock fd { n.socks fd with tx := t }).OnBus fd := by
  have hused : ∀ i, ((n.setSock fd { n.socks fd with tx := t }).socks i).used =
      (n.socks i).used := by
    intro i
    by_cases hi : i = fd
    · rw [hi, setSock_self]
    · rw [setSock_of_ne _ hi]
  obtain ⟨h1, h2, h3, h4, h5, h6, h7, h8⟩ := h
  unfold OnBus
  rw [live_congr (hused fd), livePeer_congr hused, setSock_self]
  exact ⟨h1, h2, h3, h4, h5, h6, h7, h8⟩

theorem dispatch_rx (svc : Services) (fd : ℕ) (ms : List DbusvMsg) (n : Net) :
    ∀ i, ∃ r, (ms.foldl (dispatch svc fd) n).socks i = { n.socks i with rx := r } := by
  induction ms generalizing n with
  | nil => exact fun _ => ⟨_, rfl⟩
  | cons m ms ih =>
    intro i
    have hm : ∀ i, ∃ r, (dispatch svc fd n m).socks i = { n.socks i with rx := r } := by
      unfold dispatch
      split_ifs
      · refine handleMethodCall_induct (P := fun n' => ∀ i, ∃ r, n'.socks i =
          { n.socks i with rx := r }) (fun _ _ h => h) (fun n' dst m h i => ?_) svc
          (fun _ => ⟨_, rfl⟩) fd m
        obtain ⟨r, hr⟩ := h i
        unfold queueMessage
        dsimp only
        split
        · exact ⟨r, hr⟩
        · by_cases hi : i = dst
          · subst hi
            rw [setSock_self]
            unfold Sock.pushRx
            rw [hr]
            exact ⟨_, rfl⟩
          · rw [setSock_of_ne _ hi]
            exact ⟨r, hr⟩
      · exact fun _ => ⟨_, rfl⟩
    obtain ⟨r, hr⟩ := ih (dispatch svc fd n m) i
    obtain ⟨r', hr'⟩ := hm i
    exact ⟨r, by rw [foldl_cons, hr, hr']⟩

theorem authLoop_over {fuel : ℕ} {rest : Bytes} (h : (n.socks fd).virtState = 1) :
    authLoop fd fuel n rest = (0, n) := by
  cases fuel with
  | zero => rfl
  | succ fuel =>
    unfold authLoop
    rw [if_pos (.inl (by rw [h]; decide))]

theorem OnBus.dbusOnSend (h : n.OnBus fd) (svc : Services) (gs : List DbusvFrame) {rest : Bytes}
    (hp : Partial rest) (hne : dbusvWire gs ++ rest ≠ []) :
    n.dbusMessages fd (dbusvWire gs ++ rest) = gs.map DbusvFrame.msg ∧
      (n.dbusOnSend svc fd (dbusvWire gs ++ rest)).OnBus fd ∧
      ((n.dbusOnSend svc fd (dbusvWire gs ++ rest)).socks fd).tx =
        { (n.socks fd).tx with
          tail := (n.socks fd).tx.tail + BitVec.ofNat 32 (dbusvWire gs).length } := by
  have hseed : ((n.setBus n.bus.seedDefaults).socks fd).virtState = 1 := h.2.2.2.2.2.2.2
  have hpos : 0 < (dbusvWire gs ++ rest).length := length_pos_iff.2 hne
  have hfuel : gs.length < (dbusvWire gs ++ rest).length + 1 := by
    have := length_le_wire gs
    rw [length_append]
    omega
  have hms : n.dbusMessages fd (dbusvWire gs ++ rest) = gs.map DbusvFrame.msg := by
    unfold dbusMessages
    dsimp only
    rw [takeWhile_wire gs hp, length_nil, drop_zero, authLoop_over hseed,
      if_pos ⟨hseed, hpos⟩]
    exact dbusvMessages_wire gs hp hfuel
  have hrx := dispatch_rx svc fd (gs.map DbusvFrame.msg) (n.setBus n.bus.seedDefaults)
  have hend : n.dbusOnSend svc fd (dbusvWire gs ++ rest) =
      let n' := (gs.map DbusvFrame.msg).foldl (dispatch svc fd) (n.setBus n.bus.seedDefaults)
      n'.setSock fd { n'.socks fd with tx := { (n'.socks fd).tx with
        tail := (n'.socks fd).tx.tail + BitVec.ofNat 32 (dbusvWire gs).length } } := by
    unfold Net.dbusOnSend
    dsimp only
    rw [if_neg hne, takeWhile_wire gs hp, length_nil, drop_zero, authLoop_over hseed,
      if_pos ⟨hseed, hpos⟩]
    simp only [Nat.zero_add, drop_zero]
    rw [processBinaryStream_dispatch, dbusvMessages_wire gs hp hfuel,
      processBinaryStream_wire svc fd _ gs hp hfuel]
  refine ⟨hms, ?_, ?_⟩
  · rw [hend]
    exact (OnBus.of_rx h hrx).setTx _
  · obtain ⟨r, hr⟩ := hrx fd
    rw [hend]
    dsimp only
    rw [setSock_self, hr]
    rfl

/-! ### Sending -/

/-- How many bytes `sock_send` takes into the transmit ring. -/
def txTaken (s : Sock) (src : Bytes) : ℕ :=
  min src.length (sockBufSize - min s.tx.used sockBufSize)

/-- The socket with the bytes in its ring. -/
def txPush (n : Net) (fd : ℕ) (src : Bytes) : Net :=
  n.setSock fd { n.socks fd with tx := (n.socks fd).tx.push (src.take (txTaken (n.socks fd) src)) }

/-- The messages that `sock_send` hands to the bus. -/
def sendMessages (n : Net) (fd : ℕ) (src : Bytes) : List DbusvMsg :=
  if txTaken (n.socks fd) src = 0 then []
  else (n.txPush fd src).dbusMessages fd (txSnapshot ((n.txPush fd src).socks fd) 4096)

theorem txSnapshot_eq {s : Sock} (h : s.tx.used ≤ sockBufSize) :
    txSnapshot s 4096 = s.tx.contents.take 4095 := by
  unfold txSnapshot
  dsimp only
  rw [Nat.min_eq_left h]
  split_ifs with hc
  · exact Ring.pop_fst 4095 _ (by omega)
  · rw [Ring.pop_fst _ _ le_rfl, take_of_length_le (by simp),
      take_of_length_le (by rw [Ring.length_contents]; omega)]

theorem OnBus.sockSend_eq (h : n.OnBus fd) (out : Outside) (src : Bytes) :
    n.sockSend out fd src = (.ok (txTaken (n.socks fd) src),
      if txTaken (n.socks fd) src = 0 then n.txPush fd src
      else (n.txPush fd src).dbusOnSend out.services fd
        (txSnapshot ((n.txPush fd src).socks fd) 4096)) := by
  obtain ⟨h1, h2, h3, h4, h5, h6, h7, -⟩ := h
  unfold sockSend
  dsimp only
  rw [if_neg (by simp [h1]), if_neg (by simp [h3]), if_neg (by simp [h4]), if_neg (by simp [h2]),
    if_neg (by simp [h5]), h6]
  dsimp only
  unfold sendVirtual
  dsimp only
  rw [if_neg (by simp [h7]), if_pos h7]
  unfold txPush txTaken
  split_ifs <;> rfl

theorem OnBus.txPush (h : n.OnBus fd) (hu : (n.socks fd).tx.used ≤ sockBufSize) (src : Bytes) :
    (n.txPush fd src).OnBus fd ∧
      ((n.txPush fd src).socks fd).tx.contents =
        (n.socks fd).tx.contents ++ src.take (txTaken (n.socks fd) src) ∧
      ((n.txPush fd src).socks fd).tx.used ≤ sockBufSize := by
  have hroom : (n.socks fd).tx.used + (src.take (txTaken (n.socks fd) src)).length ≤
      2 ^ sockBufBits := by
    have htaken : txTaken (n.socks fd) src ≤ sockBufSize - (n.socks fd).tx.used := by
      unfold txTaken
      rw [Nat.min_eq_left hu]
      exact Nat.min_le_right _ _
    unfold sockBufSize at hu htaken
    rw [length_take]
    omega
  refine ⟨h.setTx _, ?_, ?_⟩
  · unfold Net.txPush
    rw [setSock_self]
    exact Ring.contents_push (by decide) _ _ hroom
  · unfold Net.txPush
    rw [setSock_self]
    exact (Ring.used_push (by decide) _ _ hroom).trans_le hroom

/-- What `sock_send` does when it takes bytes: the messages in sight of the snapshot are handed over
and leave the ring. -/
theorem OnBus.sockSend (h : n.OnBus fd) (hu : (n.socks fd).tx.used ≤ sockBufSize) (out : Outside)
    {src : Bytes} (hlen : txTaken (n.socks fd) src ≠ 0) (gs : List DbusvFrame) {rest : Bytes}
    (hp : Partial rest)
    (hc : ((n.socks fd).tx.contents ++ src.take (txTaken (n.socks fd) src)).take 4095 =
      dbusvWire gs ++ rest) :
    n.sendMessages fd src = gs.map DbusvFrame.msg ∧ (n.sockSend out fd src).2.OnBus fd ∧
      ((n.sockSend out fd src).2.socks fd).tx.contents =
        ((n.socks fd).tx.contents ++ src.take (txTaken (n.socks fd) src)).drop
          (dbusvWire gs).length ∧
      ((n.sockSend out fd src).2.socks fd).tx.used ≤ sockBufSize := by
  obtain ⟨hpush, hcont, hused⟩ := h.txPush hu src
  have hsnap : txSnapshot ((n.txPush fd src).socks fd) 4096 = dbusvWire gs ++ rest := by
    rw [txSnapshot_eq hused, hcont, hc]
  have htaken : (src.take (txTaken (n.socks fd) src)).length = txTaken (n.socks fd) src := by
    rw [length_take]
    exact Nat.min_eq_left (Nat.min_le_left _ _)
  have hne : dbusvWire gs ++ rest ≠ [] := by
    rw [← hc]
    intro hnil
    have := congrArg List.length hnil
    rw [length_take, length_append, htaken, length_nil] at this
    omega
  obtain ⟨hms, hbus, htx⟩ := hpush.dbusOnSend out.services gs hp hne
  have hle : (dbusvWire gs).length ≤ ((n.txPush fd src).socks fd).tx.used := by
    have := congrArg List.length hc
    rw [← hcont, length_take, Ring.length_contents, length_append] at this
    omega
  unfold sendMessages
  rw [h.sockSend_eq, if_neg hlen, if_neg hlen, hsnap]
  refine ⟨hms, hbus, ?_, ?_⟩
  · rw [htx, Ring.contents_skip hle, hcont]
  · rw [← Ring.length_contents, htx, Ring.contents_skip hle, length_drop,
      Ring.length_contents]
    omega

end Net

/-! ### Runs -/

/-- A call of the client, or anything else that leaves it on the bus and its transmit ring alone. -/
inductive FrameOp
  | send (src : Bytes)
  | beside (n : Net)

/-- The sockets, the bytes that `sock_send` has taken, and the messages that the bus has taken. -/
structure FrameRun where
  net : Net
  accepted : Bytes
  processed : List DbusvMsg

namespace FrameRun

/-- Nothing has been sent. -/
def start (n : Net) : FrameRun := ⟨n, [], []⟩

def exec (out : Outside) (fd : ℕ) (s : FrameRun) : FrameOp → FrameRun
  | .send src =>
    match s.net.sockSend out fd src with
    | (.ok k, n) =>
      { net := n
        accepted := s.accepted ++ src.take k
        processed := s.processed ++ s.net.sendMessages fd src }
    | (.error _, n) => { s with net := n }
  | .beside n => { s with net := n }

/-- The client sends what comes next in the stream; everything else leaves it alone. -/
def OnStream (fs : List DbusvFrame) (fd : ℕ) (s : FrameRun) : FrameOp → Prop
  | .send src => s.accepted ++ src <+: dbusvWire fs
  | .beside n => n.OnBus fd ∧ (n.socks fd).tx = (s.net.socks fd).tx

/-- Among the bytes that wait and those that the call takes, the last complete message ends within
the first 4095. -/
def InSight (fs : List DbusvFrame) (fd : ℕ) (s : FrameRun) : FrameOp → Prop
  | .send src =>
    (dbusvWire (dbusvComplete fs (s.accepted.length + Net.txTaken (s.net.socks fd) src))).length ≤
      (dbusvWire (dbusvComplete fs s.accepted.length)).length + 4095
  | .beside _ => True

/-- The bus has taken the messages that are complete in what was sent, in order and each once, and
none of them waits in the ring. -/
structure Framed (fs : List DbusvFrame) (fd : ℕ) (s : FrameRun) : Prop where
  accepted : s.accepted = (dbusvWire fs).take s.accepted.length
  processed : s.processed = (dbusvComplete fs s.accepted.length).map DbusvFrame.msg
  waiting : (s.net.socks fd).tx.contents = dbusvPending fs s.accepted.length

/-- The invariant of a run. -/
structure FrameInv (fs : List DbusvFrame) (fd : ℕ) (s : FrameRun) : Prop extends Framed fs fd s where
  onBus : s.net.OnBus fd
  used : (s.net.socks fd).tx.used ≤ sockBufSize

variable {fs : List DbusvFrame} {fd : ℕ} {s : FrameRun} {src : Bytes}

theorem FrameInv.start {n : Net} (h : n.OnBus fd) (hempty : (n.socks fd).tx.contents = [])
    (fs : List DbusvFrame) : FrameInv fs fd (.start n) := by
  have hused : (n.socks fd).tx.used = 0 := by rw [← Ring.length_contents, hempty]; rfl
  have hnil : dbusvComplete fs 0 = [] := by
    have := dbusvWire_complete_le fs 0
    cases hc : dbusvComplete fs 0 with
    | nil => rfl
    | cons g gs =>
      have hg := g.length_ge
      rw [hc, dbusvWire_cons, length_append] at this
      omega
  refine ⟨⟨?_, ?_, ?_⟩, h, by rw [show (FrameRun.start n).net = n from rfl, hused]; omega⟩
  · simp [FrameRun.start]
  · show [] = (dbusvComplete fs 0).map _
    rw [hnil]
    rfl
  · show (n.socks fd).tx.contents = dbusvPending fs 0
    rw [hempty]
    simp [pending]

theorem complete_more (fs : List DbusvFrame) (k len : ℕ) :
    dbusvComplete fs (k + len) = dbusvComplete fs k ++
      dbusvComplete (fs.drop (dbusvComplete fs k).length)
        (k + len - (dbusvWire (dbusvComplete fs k)).length) :=
  complete_add fs (Nat.le_add_right k len)

theorem FrameInv.window (h : FrameInv fs fd s) (hs : s.accepted ++ src <+: dbusvWire fs) {len : ℕ}
    (hlen : len ≤ src.length) :
    (s.net.socks fd).tx.contents ++ src.take len =
      (dbusvWire (fs.drop (dbusvComplete fs s.accepted.length).length)).take
        (s.accepted.length + len - (dbusvWire (dbusvComplete fs s.accepted.length)).length) ∧
      s.accepted ++ src.take len = (dbusvWire fs).take (s.accepted.length + len) := by
  have hacc : s.accepted ++ src.take len = (dbusvWire fs).take (s.accepted.length + len) := by
    have hpre : s.accepted ++ src.take len <+: dbusvWire fs :=
      ((prefix_append_right_inj _).2 (List.take_prefix _ _)).trans hs
    have hl : (s.accepted ++ src.take len).length = s.accepted.length + len := by
      rw [length_append, length_take, Nat.min_eq_left hlen]
    rw [← hl]
    exact prefix_iff_eq_take.1 hpre
  refine ⟨?_, hacc⟩
  have hle := dbusvWire_complete_le fs s.accepted.length
  rw [h.waiting, dbusvPending_eq, ← h.accepted, ← drop_append_of_le_length hle, hacc,
    drop_take]
  exact congrArg _ (drop_wire fs s.accepted.length)

theorem FrameInv.send (h : FrameInv fs fd s) (out : Outside) (hs : s.accepted ++ src <+: dbusvWire fs) :
    (s.exec out fd (.send src)).net.OnBus fd ∧
      ((s.exec out fd (.send src)).net.socks fd).tx.used ≤ sockBufSize ∧
      (s.exec out fd (.send src)).accepted =
        (dbusvWire fs).take (s.exec out fd (.send src)).accepted.length ∧
      (Framed fs fd (s.exec out fd (.send src)) ↔ InSight fs fd s (.send src)) := by
  set len := Net.txTaken (s.net.socks fd) src with hlen
  have hlesrc : len ≤ src.length := Nat.min_le_left _ _
  obtain ⟨hwin, hacc⟩ := h.window hs hlesrc
  have hexec : s.exec out fd (.send src) =
      ⟨(s.net.sockSend out fd src).2, s.accepted ++ src.take len,
        s.processed ++ s.net.sendMessages fd src⟩ := by
    unfold FrameRun.exec
    dsimp only
    rw [h.onBus.sockSend_eq]
  have hacclen : (s.accepted ++ src.take len).length = s.accepted.length + len := by
    rw [length_append, length_take, Nat.min_eq_left hlesrc]
  have hmore := complete_more fs s.accepted.length len
  set c := (dbusvWire (dbusvComplete fs s.accepted.length)).length with hc
  set fs' := fs.drop (dbusvComplete fs s.accepted.length).length with hfs'
  have hcle : c ≤ s.accepted.length := wire_complete_le fs s.accepted.length
  set a := s.accepted.length + len - c with ha
  have hsight : InSight fs fd s (.send src) ↔ (dbusvWire (dbusvComplete fs' a)).length ≤ 4095 := by
    show (dbusvWire (dbusvComplete fs (s.accepted.length + len))).length ≤ c + 4095 ↔ _
    rw [hmore, dbusvWire_append, length_append, ← hc]
    omega
  rw [hexec]
  by_cases hzero : len = 0
  · -- nothing is taken, and the state is as it was
    have hnone : dbusvComplete fs' a = [] := by
      have := complete_more fs s.accepted.length 0
      rw [Nat.add_zero] at this
      rw [ha, hzero, Nat.add_zero]
      exact self_eq_append_right.1 this
    obtain ⟨hbus, hcont, hused⟩ := h.onBus.txPush h.used src
    have hsend : (s.net.sockSend out fd src).2 = s.net.txPush fd src := by
      rw [h.onBus.sockSend_eq, if_pos hzero]
    have hms : s.net.sendMessages fd src = [] := if_pos hzero
    rw [hsend, hms, hzero, take_zero, append_nil, append_nil]
    refine ⟨hbus, hused, h.accepted, ⟨fun _ => ?_, fun _ => ?_⟩⟩
    · rw [hsight, hnone]
      simp
    · refine ⟨h.accepted, h.processed, ?_⟩
      rw [hcont, ← hlen, hzero, take_zero, append_nil]
      exact h.waiting
  · -- the snapshot is a reading of the stream from where the ring starts
    have hsnap : ((s.net.socks fd).tx.contents ++ src.take len).take 4095 =
        dbusvWire (dbusvComplete fs' (min a 4095)) ++ dbusvPending fs' (min a 4095) := by
      rw [hwin, take_take, Nat.min_comm]
      exact take_wire fs' _
    obtain ⟨hms, hbus, hcont, hused⟩ := h.onBus.sockSend h.used out hzero
      (dbusvComplete fs' (min a 4095)) (partial_pending fs' _) hsnap
    refine ⟨hbus, hused, by rw [hacclen, hacc], ?_⟩
    rw [hsight]
    have hdrop : (s.net.socks fd).tx.contents ++ src.take len =
        ((dbusvWire fs).take (s.accepted.length + len)).drop c := by
      rw [hwin, drop_take]
      exact congrArg _ (drop_wire fs s.accepted.length).symm
    have hpend : dbusvPending fs (s.accepted.length + len) =
        ((s.net.socks fd).tx.contents ++ src.take len).drop
          (dbusvWire (dbusvComplete fs' a)).length := by
      rw [dbusvPending_eq, hdrop, drop_drop, hmore, dbusvWire_append, length_append]
    constructor
    · intro hf
      have hwait := congrArg List.length (hf.waiting.symm.trans hcont)
      rw [hacclen, hpend, length_drop, length_drop, hwin, length_take] at hwait
      have h1 := dbusvWire_complete_le fs' a
      have h2 := dbusvWire_complete_le fs' (min a 4095)
      have h3 : a ≤ (dbusvWire fs').length := by
        have hl := congrArg List.length hwin
        have hl' := congrArg List.length hdrop
        rw [hl, length_drop, ← hacc, hacclen, length_take] at hl'
        omega
      omega
    · intro hle
      have heq : dbusvComplete fs' (min a 4095) = dbusvComplete fs' a := (complete_min 4095).2 hle
      refine ⟨by rw [hacclen, hacc], ?_, ?_⟩
      · show s.processed ++ _ = (dbusvComplete fs (s.accepted ++ src.take len).length).map _
        rw [hms, h.processed, heq, ← map_append, hacclen, hmore]
      · show ((s.net.sockSend out fd src).2.socks fd).tx.contents = dbusvPending fs _
        rw [hcont, heq, hacclen, hpend]

theorem FrameInv.exec (h : FrameInv fs fd s) (out : Outside) {op : FrameOp}
    (hs : OnStream fs fd s op) (hsight : InSight fs fd s op) : FrameInv fs fd (s.exec out fd op) := by
  cases op with
  | send src =>
    obtain ⟨hbus, hused, -, hiff⟩ := h.send out hs
    exact ⟨hiff.2 hsight, hbus, hused⟩
  | beside n =>
    obtain ⟨hbus, htx⟩ := hs
    refine ⟨⟨h.accepted, h.processed, ?_⟩, hbus, ?_⟩
    · show (n.socks fd).tx.contents = _
      rw [htx]
      exact h.waiting
    · show (n.socks fd).tx.used ≤ _
      rw [htx]
      exact h.used

end FrameRun

/-- **The stream of a client is read message by message**, in every run in which the complete
messages end in sight of the snapshot, and a call keeps it so exactly when they do. A message that
the bus queues is in the stream of its client whole or not at all exactly when the receive ring has
room for it, or no room; and nothing but such messages reaches a socket. -/
theorem dbusRun_framed (out : Outside) {n : Net} {fd : ℕ} (h : n.OnBus fd)
    (hempty : (n.socks fd).tx.contents = []) (fs : List DbusvFrame) :
    (∀ s, Runs (fun s op => FrameRun.OnStream fs fd s op ∧ FrameRun.InSight fs fd s op)
        (FrameRun.exec out fd) (.start n) s →
      FrameRun.Framed fs fd s ∧ ∀ src, s.accepted ++ src <+: dbusvWire fs →
        (FrameRun.Framed fs fd (s.exec out fd (.send src)) ↔ FrameRun.InSight fs fd s (.send src))) ∧
    (∀ (n : Net) dst m, n.Whole dst m ↔ n.TakesWhole dst m) ∧
    ∀ (n : Net) c m, ∃ log, n.Queues log (n.handleMethodCall out.services c m) := by
  refine ⟨fun s hrun => ?_, Net.queueMessage_whole,
    fun n c m => Net.queues_handleMethodCall n out.services c m⟩
  have hinv : FrameRun.FrameInv fs fd s :=
    Runs.invariant (fun s op hi hop => hi.exec out hop.1 hop.2) hrun (.start h hempty fs)
  exact ⟨hinv.toFramed, fun src hs => (hinv.send out hs).2.2.2⟩

/-! ### A client that has authenticated -/

/-- A message as the bus builds it. -/
def DbusvOut.frame (serial : UInt32) (m : DbusvOut) (h : (dbusvBuild serial m).isSome) :
    DbusvFrame where
  bytes := (dbusvBuild serial m).get h
  msg := m.readBack (dbusvHead ((dbusvBuild serial m).get h))
  parses := (dbusvParse_build (Option.some_get h).symm).1

/-- A client of the bus that has sent its two lines. -/
def greeted : Net :=
  let n := (Net.boot.sockCreate 1 1 0).2
  let n := (n.sockConnect 0 0x7F000001#32 39020#16 none).2
  let n := (n.sockSend .idle 0 (ascii "AUTH EXTERNAL 30\r\n")).2
  (n.sockSend .idle 0 (ascii "BEGIN\r\n")).2

theorem greeted_onBus : greeted.OnBus 0 := by
  unfold Net.OnBus
  decide +kernel

theorem greeted_used : (greeted.socks 0).tx.used = 0 := by decide +kernel

theorem greeted_empty : (greeted.socks 0).tx.contents = [] :=
  eq_nil_of_length_eq_zero ((Ring.length_contents _).trans greeted_used)

/-- A signal with a body of `len` bytes. -/
def signalOf (len : ℕ) : DbusvOut where
  type := 4
  path := .empty
  iface := .empty
  member := .empty
  dest := .empty
  sender := .empty
  errName := .empty
  replySerial := 0
  sig := .empty
  body := List.replicate len 0

theorem signal_fits : (dbusvBuild 1 (signalOf 8)).isSome := by decide +kernel

/-- A message that is sent in two pieces is taken when the second arrives. -/
theorem greeted_framed :
    FrameRun.Framed [(signalOf 8).frame 1 signal_fits] 0
      (((FrameRun.start greeted).exec .idle 0
        (.send (((signalOf 8).frame 1 signal_fits).bytes.take 9))).exec .idle 0
          (.send (((signalOf 8).frame 1 signal_fits).bytes.drop 9))) := by
  refine ((dbusRun_framed .idle greeted_onBus greeted_empty
    [(signalOf 8).frame 1 signal_fits]).1 _ (Runs.tail (Runs.tail (Runs.refl _) _ ⟨?_, ?_⟩) _
      ⟨?_, ?_⟩)).1
  · unfold FrameRun.OnStream
    decide +kernel
  · unfold FrameRun.InSight
    decide +kernel
  · unfold FrameRun.OnStream
    decide +kernel
  · unfold FrameRun.InSight
    decide +kernel

theorem long_signal_fits : (dbusvBuild 1 (signalOf 4096)).isSome := by decide +kernel

/-- A message of more than 4095 bytes stays in the ring. -/
theorem greeted_not_framed :
    ¬FrameRun.Framed [(signalOf 4096).frame 1 long_signal_fits] 0
      ((FrameRun.start greeted).exec .idle 0
        (.send ((signalOf 4096).frame 1 long_signal_fits).bytes)) := by
  set f := (signalOf 4096).frame 1 long_signal_fits with hf
  have hlen : f.bytes.length = 4112 := by decide +kernel
  have hinv := FrameRun.FrameInv.start greeted_onBus greeted_empty [f]
  have hs : (FrameRun.start greeted).accepted ++ f.bytes <+: dbusvWire [f] := by simp [FrameRun.start]
  rw [(hinv.send .idle hs).2.2.2]
  have htaken : Net.txTaken ((FrameRun.start greeted).net.socks 0) f.bytes = 4112 := by
    unfold Net.txTaken
    rw [show ((FrameRun.start greeted).net.socks 0).tx.used = 0 from greeted_used, hlen]
    decide
  have hall : dbusvComplete [f] (0 + 4112) = [f] := complete_cons_of_le hlen.le
  have hnone : dbusvComplete [f] 0 = [] := complete_cons_of_lt (by omega)
  show ¬(dbusvWire (dbusvComplete [f] (0 + _))).length ≤ (dbusvWire (dbusvComplete [f] 0)).length + 4095
  rw [htaken, hall, hnone]
  simp [hlen]

end Ridux
