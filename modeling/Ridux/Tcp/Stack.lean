import Ridux.Lib.Run
import Ridux.Lib.Slots
import Ridux.Net.Stream
import Ridux.Tcp.Conn

/-!
# The TCP engine

* `Tcp`: the table of connections, the sockets, and the frames that went out;
* `Tcp.exec`: `tcp7_connect`, `tcp7_send`, `tcp7_close`, `tcp7_drop_socket`, a segment that comes in,
  `tcp7_tick` and the reads of the application;
* `Tcb.Step`, `Tcp.exec_step`, `Tcp.exec_segment`: what one of them does to each connection.
-/

namespace Ridux

open Lib Function List

def tcp7MaxConnections : ℕ := 128

/-- `g_tcp7_tcbs`, the sockets, and what the network card was given, newest frame first. -/
structure Tcp where
  net : Net
  tcbs : ℕ → Tcb
  wire : List (ℕ × Frame)

namespace Tcp

def setTcb (t : Tcp) (i : ℕ) (b : Tcb) : Tcp := { t with tcbs := update t.tcbs i b }

def setSock (t : Tcp) (fd : ℕ) (s : Sock) : Tcp := { t with net := t.net.setSock fd s }

@[simp] theorem setTcb_tcbs (t : Tcp) (i : ℕ) (b : Tcb) :
    (t.setTcb i b).tcbs = update t.tcbs i b := rfl

@[simp] theorem setSock_tcbs (t : Tcp) (fd : ℕ) (s : Sock) : (t.setSock fd s).tcbs = t.tcbs := rfl

/-- `tcp7_alloc`: the first block that is not in use. -/
def alloc (t : Tcp) : Option ℕ :=
  firstSlot (fun i => (t.tcbs i).sockFd.isNone) tcp7MaxConnections

/-- `tcp7_find`. -/
def find (t : Tcp) (fd : ℕ) : Option ℕ :=
  firstSlot (fun i => decide ((t.tcbs i).sockFd = some fd)) tcp7MaxConnections

/-- A frame for the network card, which takes it if `link` says so; one that is not for the network
goes to the peer of the socket. -/
def transmit (fd : ℕ) (link : Bool) (f : Frame) (t : Tcp) : Except SockErr Unit × Tcp :=
  let s := t.net.socks fd
  if netIsRealExternal s.remoteIp then
    if link then (.ok (), { t with wire := (fd, f) :: t.wire }) else (.error .eagain, t)
  else
    let r := t.net.sockSend .idle fd (f.bytes s.localPort s.remotePort)
    (r.1.map fun _ => (), { t with net := r.2 })

/-- The frames of one call; `link k` is for the frame `k`. -/
def transmitAll (fd : ℕ) (link : ℕ → Bool) : ℕ → List Frame → Tcp → Tcp
  | _, [], t => t
  | k, f :: fs, t => transmitAll fd link (k + 1) fs (t.transmit fd (link k) f).2

/-- `tcp7_connect`; `iss` is the random number and `now` the time. -/
def connect (fd : ℕ) (ip : Ip) (port : Port) (iss : Seq) (now : ℕ) (link : Bool) (t : Tcp) :
    Except SockErr Unit × Tcp :=
  match t.alloc with
  | none => (.error .enomem, t)
  | some i =>
    let b := Tcb.opened fd iss now
    let t := t.setSock fd
      { t.net.socks fd with remoteIp := ip, remotePort := port, tcpState := .synSent }
    (.ok (), ((t.setTcb i b).transmit fd link b.synFrame).2)

/-- `tcp7_incoming_segment` of `tp`: is the payload to be stored? -/
def incomingSegment (fd : ℕ) (tp : Bytes) (link : ℕ → Bool) (t : Tcp) : Bool × Tcp :=
  match t.find fd with
  | none => (false, t)
  | some i =>
    match parseSegment tp with
    | none => (false, t)
    | some seg =>
      let r := (t.tcbs i).onSegment seg
      let s := t.net.socks fd
      let t := (t.setTcb i r.tcb).setSock fd
        { s with
          tcpState := r.sock.getD s.tcpState
          error := if r.refused then some .econnrefused else s.error }
      (r.payload, t.transmitAll fd link 0 r.frames)

/-- The branch of `net_process_frame` for TCP, once the socket is found: `tp` is the datagram without
its IP header. -/
def processTcp (fd : ℕ) (tp : Bytes) (link : ℕ → Bool) (t : Tcp) : Tcp :=
  let hdrSize := (tp.getD 12 0).toNat / 16 * 4
  if hdrSize < 20 ∨ tp.length < hdrSize then t
  else
    let payload := tp.drop hdrSize
    let r := t.incomingSegment fd tp link
    if r.1 ∧ payload ≠ [] ∧ payload.length ≤ sockBufSize then
      r.2.setSock fd ((r.2.net.socks fd).pushRx payload).2
    else r.2

/-- The loop of `tcp7_send` over the bytes that are left: `sent` of them are out.  It ends with a
result when a frame is not taken. -/
def sendLoop (fd i : ℕ) (link : ℕ → Bool) : ℕ → ℕ → Bytes → ℕ → Tcp →
    Option (Except SockErr ℕ) × ℕ × Tcp
  | 0, _, _, sent, t => (none, sent, t)
  | fuel + 1, k, rest, sent, t =>
    if rest = [] then (none, sent, t)
    else
      let b := t.tcbs i
      let data := rest.take b.mss.toNat
      match t.transmit fd (link k) (b.dataFrame data) with
      | (.error e, t) =>
        (some (if netIsRealExternal (t.net.socks fd).remoteIp ∧ sent ≠ 0 then .ok sent else .error e),
          sent, t)
      | (.ok (), t) =>
        sendLoop fd i link fuel (k + 1) (rest.drop b.mss.toNat) (sent + data.length)
          (t.setTcb i (b.advance data.length))

/-- `tcp7_send`. -/
def send (fd : ℕ) (buf : Bytes) (link : ℕ → Bool) (t : Tcp) : Except SockErr ℕ × Tcp :=
  match t.find fd with
  | none => (.error .enotconn, t)
  | some i =>
    let b := t.tcbs i
    if ¬ b.canSend then (.error .enotconn, t)
    else
      let buf := buf.take b.avail
      if buf = [] then (.error .eagain, t)
      else
        match t.sendLoop fd i link buf.length 0 buf 0 with
        | (some r, _, t) => (r, t)
        | (none, sent, t) => (.ok sent, t.setTcb i ((t.tcbs i).grow sent))

/-- `tcp7_close`. -/
def close (fd : ℕ) (link : Bool) (t : Tcp) : Except SockErr Unit × Tcp :=
  match t.find fd with
  | none => (.error .enotconn, t)
  | some i =>
    let b := t.tcbs i
    let sent := if b.closed.2 then (t.transmit fd link b.finFrame).2 else t
    (.ok (), (sent.setTcb i b.closed.1).setSock fd { sent.net.socks fd with tcpState := .closed })

/-- `tcp7_drop_socket`. -/
def drop (fd : ℕ) (t : Tcp) : Tcp :=
  { t with tcbs := fun i =>
      if i < tcp7MaxConnections ∧ (t.tcbs i).sockFd = some fd then (t.tcbs i).released
      else t.tcbs i }

/-- A round of `tcp7_tick`. -/
def tickOne (now : ℕ) (link : ℕ → Bool) (t : Tcp) (i : ℕ) : Tcp :=
  match (t.tcbs i).sockFd with
  | none => t
  | some fd =>
    let r := (t.tcbs i).ticked now
    let s := t.net.socks fd
    let t := t.setTcb i r.tcb
    let t := if r.timedOut then
        t.setSock fd { s with tcpState := .closed, error := some .etimedout }
      else t
    t.transmitAll fd (fun _ => link i) 0 r.frames

/-- `tcp7_tick`; the frames that it polls for are segments of their own. -/
def tick (now : ℕ) (link : ℕ → Bool) (t : Tcp) : Tcp :=
  (List.range tcp7MaxConnections).foldl (tickOne now link) t

/-- What happens to the engine. -/
inductive Op
  | connect (fd : ℕ) (ip : Ip) (port : Port) (iss : Seq) (now : ℕ) (link : Bool)
  | segment (fd : ℕ) (tp : Bytes) (link : ℕ → Bool)
  | send (fd : ℕ) (buf : Bytes) (link : ℕ → Bool)
  | recv (fd len : ℕ) (dontWait : Bool)
  | close (fd : ℕ) (link : Bool)
  | drop (fd : ℕ)
  | tick (now : ℕ) (link : ℕ → Bool)

/-- One step. -/
def exec (t : Tcp) : Op → Tcp
  | .connect fd ip port iss now link => (t.connect fd ip port iss now link).2
  | .segment fd tp link => t.processTcp fd tp link
  | .send fd buf link => (t.send fd buf link).2
  | .recv fd len dontWait => { t with net := (t.net.sockRecv .idle fd len dontWait).2 }
  | .close fd link => (t.close fd link).2
  | .drop fd => t.drop fd
  | .tick now link => t.tick now link

/-! ### One connection in a step -/

@[simp] theorem transmit_tcbs (fd : ℕ) (link : Bool) (f : Frame) (t : Tcp) :
    (t.transmit fd link f).2.tcbs = t.tcbs := by
  unfold transmit
  dsimp only
  split_ifs <;> rfl

@[simp] theorem transmitAll_tcbs (fd : ℕ) (link : ℕ → Bool) (fs : List Frame) :
    ∀ (k : ℕ) (t : Tcp), (t.transmitAll fd link k fs).tcbs = t.tcbs := by
  induction fs with
  | nil => exact fun _ _ => rfl
  | cons f fs ih =>
    intro k t
    rw [transmitAll, ih, transmit_tcbs]

end Tcp

/-- What `tcp7_send` does to a connection. -/
inductive Tcb.Sent (b : Tcb) : Tcb → Prop
  | same : Sent b b
  | sent (n : ℕ) : b.sockFd.isSome → b.canSend = true → n ≤ b.avail → Sent b (b.advance n)
  | grown (n : ℕ) : b.sockFd.isSome → b.canSend = true → n ≤ b.avail →
      Sent b ((b.advance n).grow n)

/-- What the local side does to a connection. -/
inductive Tcb.Step (b : Tcb) : Tcb → Prop
  | opened (fd : ℕ) (iss : Seq) (now : ℕ) : b.sockFd = none → Step b (.opened fd iss now)
  | sent {b' : Tcb} : b.Sent b' → Step b b'
  | closed : b.sockFd.isSome → Step b b.closed.1
  | released : b.sockFd.isSome → Step b b.released
  | ticked (now : ℕ) : b.sockFd.isSome → Step b (b.ticked now).tcb

theorem Tcb.Sent.same_state {b b' : Tcb} (h : b.Sent b') :
    b'.sockFd = b.sockFd ∧ b'.state = b.state := by
  cases h with
  | same => exact ⟨rfl, rfl⟩
  | sent => exact ⟨rfl, rfl⟩
  | grown n =>
    unfold Tcb.grow
    split_ifs <;> exact ⟨rfl, rfl⟩

namespace Tcp

variable {t : Tcp} {i fd : ℕ}

theorem find_sockFd (h : t.find fd = some i) : (t.tcbs i).sockFd = some fd :=
  of_decide_eq_true (firstSlot_eq_some h).2

theorem alloc_sockFd (h : t.alloc = some i) : (t.tcbs i).sockFd = none :=
  Option.isNone_iff_eq_none.1 (firstSlot_eq_some h).2

theorem step_setTcb {b : Tcb} {R : Tcb → Tcb → Prop} (hrefl : ∀ b, R b b) (h : R (t.tcbs i) b) (j : ℕ) :
    R (t.tcbs j) ((t.setTcb i b).tcbs j) := by
  by_cases hji : j = i
  · subst hji
    rwa [setTcb_tcbs, update_self]
  · rw [setTcb_tcbs, update_of_ne hji]
    exact hrefl _

theorem incomingSegment_tcbs (hi : t.find fd = some i) (tp : Bytes) (link : ℕ → Bool) :
    (t.incomingSegment fd tp link).2.tcbs = match parseSegment tp with
      | none => t.tcbs
      | some seg => update t.tcbs i ((t.tcbs i).onSegment seg).tcb := by
  unfold incomingSegment
  rw [hi]
  cases parseSegment tp with
  | none => rfl
  | some seg =>
    dsimp only
    rw [transmitAll_tcbs]
    rfl

theorem processTcp_tcbs (fd : ℕ) (tp : Bytes) (link : ℕ → Bool) (t : Tcp) :
    (t.processTcp fd tp link).tcbs =
      match t.find fd, parseSegment tp with
      | some i, some seg => update t.tcbs i ((t.tcbs i).onSegment seg).tcb
      | _, _ => t.tcbs := by
  have hin : (t.incomingSegment fd tp link).2.tcbs =
      match t.find fd, parseSegment tp with
      | some i, some seg => update t.tcbs i ((t.tcbs i).onSegment seg).tcb
      | _, _ => t.tcbs := by
    cases hf : t.find fd with
    | none =>
      unfold incomingSegment
      rw [hf]
    | some i =>
      rw [incomingSegment_tcbs hf]
      cases parseSegment tp <;> rfl
  unfold processTcp
  dsimp only
  split_ifs with hshort
  · -- a header that is too short is turned down in both places
    have hnone : parseSegment tp = none := by
      unfold parseSegment
      dsimp only
      rw [if_pos hshort, ite_self]
    rw [hnone]
    cases t.find fd <;> rfl
  · rw [setSock_tcbs, hin]
  · exact hin

theorem advance_advance (b : Tcb) (m n : ℕ) : (b.advance m).advance n = b.advance (m + n) := by
  unfold Tcb.advance
  rw [BitVec.ofNat_add, BitVec.add_assoc]

theorem advance_zero (b : Tcb) : b.advance 0 = b := by
  simp [Tcb.advance]

theorem sendLoop_spec (fd i : ℕ) (link : ℕ → Bool) (fuel : ℕ) :
    ∀ (k : ℕ) (rest : Bytes) (sent : ℕ) (t : Tcp), ∃ n, n ≤ rest.length ∧
      (t.sendLoop fd i link fuel k rest sent).2.1 = sent + n ∧
      (t.sendLoop fd i link fuel k rest sent).2.2.tcbs =
        update t.tcbs i ((t.tcbs i).advance n) := by
  have hstop : ∀ (rest : Bytes) (sent : ℕ) (t u : Tcp), u.tcbs = t.tcbs → ∃ n, n ≤ rest.length ∧
      sent = sent + n ∧ u.tcbs = update t.tcbs i ((t.tcbs i).advance n) := by
    intro rest sent t u hu
    exact ⟨0, Nat.zero_le _, rfl, by rw [advance_zero, update_eq_self, hu]⟩
  induction fuel with
  | zero => exact fun k rest sent t => hstop rest sent t t rfl
  | succ fuel ih =>
    intro k rest sent t
    rw [sendLoop]
    by_cases hrest : rest = []
    · rw [if_pos hrest]
      exact hstop rest sent t t rfl
    · rw [if_neg hrest]
      dsimp only
      have htcbs := transmit_tcbs fd (link k)
        ((t.tcbs i).dataFrame (rest.take (t.tcbs i).mss.toNat)) t
      generalize t.transmit fd (link k) ((t.tcbs i).dataFrame (rest.take (t.tcbs i).mss.toNat)) = r
        at htcbs
      obtain ⟨e | _, u⟩ := r
      · exact hstop rest sent t u htcbs
      · have htcbs : u.tcbs = t.tcbs := htcbs
        obtain ⟨n, hn, hsent, hloop⟩ := ih (k + 1) (rest.drop (t.tcbs i).mss.toNat)
          (sent + (rest.take (t.tcbs i).mss.toNat).length)
          (u.setTcb i ((t.tcbs i).advance (rest.take (t.tcbs i).mss.toNat).length))
        refine ⟨(rest.take (t.tcbs i).mss.toNat).length + n, ?_, ?_, ?_⟩
        · rw [length_drop] at hn
          rw [length_take]
          omega
        · dsimp only
          rw [hsent]
          omega
        · dsimp only
          rw [hloop, setTcb_tcbs, update_self, update_idem, advance_advance, htcbs]

/-- `tcp7_send` moves the next number on by what it accepted, and counts that for the congestion
control unless a frame was not taken. -/
theorem send_sent (fd : ℕ) (buf : Bytes) (link : ℕ → Bool) (t : Tcp) (j : ℕ) :
    (t.tcbs j).Sent ((t.send fd buf link).2.tcbs j) := by
  unfold send
  cases hf : t.find fd with
  | none => exact .same
  | some i =>
    have hused : (t.tcbs i).sockFd.isSome := by rw [find_sockFd hf]; rfl
    dsimp only
    by_cases hcan : (t.tcbs i).canSend = true
    · rw [if_neg (not_not.2 hcan)]
      by_cases hempty : buf.take (t.tcbs i).avail = []
      · rw [if_pos hempty]
        exact .same
      · rw [if_neg hempty]
        obtain ⟨n, hn, hsent, htcbs⟩ := sendLoop_spec fd i link
          (buf.take (t.tcbs i).avail).length 0 (buf.take (t.tcbs i).avail) 0 t
        have hle : n ≤ (t.tcbs i).avail := by
          rw [length_take] at hn
          omega
        generalize t.sendLoop fd i link (buf.take (t.tcbs i).avail).length 0
          (buf.take (t.tcbs i).avail) 0 = r at hsent htcbs
        obtain ⟨_ | r, sent, u⟩ := r
        · have hsent : sent = n := hsent.trans (Nat.zero_add n)
          have htcbs : u.tcbs = update t.tcbs i ((t.tcbs i).advance n) := htcbs
          have hstep : (u.setTcb i ((u.tcbs i).grow sent)).tcbs =
              (t.setTcb i (((t.tcbs i).advance n).grow n)).tcbs := by
            rw [setTcb_tcbs, setTcb_tcbs, htcbs, hsent, update_self, update_idem]
          show (t.tcbs j).Sent ((u.setTcb i ((u.tcbs i).grow sent)).tcbs j)
          rw [hstep]
          exact step_setTcb (fun _ => .same) (.grown n hused hcan hle) j
        · have htcbs : u.tcbs = (t.setTcb i ((t.tcbs i).advance n)).tcbs := htcbs
          show (t.tcbs j).Sent (u.tcbs j)
          rw [htcbs]
          exact step_setTcb (fun _ => .same) (.sent n hused hcan hle) j
    · rw [if_pos hcan]
      exact .same

/-- What a round of the timer makes of a block. -/
def tickTcb (now : ℕ) (b : Tcb) : Tcb := if b.sockFd.isSome then (b.ticked now).tcb else b

theorem tickOne_tcbs (now : ℕ) (link : ℕ → Bool) (t : Tcp) (i : ℕ) :
    (t.tickOne now link i).tcbs = update t.tcbs i (tickTcb now (t.tcbs i)) := by
  unfold tickOne tickTcb
  cases (t.tcbs i).sockFd with
  | none => exact (update_eq_self i t.tcbs).symm
  | some fd =>
    dsimp only
    rw [transmitAll_tcbs, Option.isSome_some, if_pos rfl]
    split_ifs <;> rfl

theorem tick_tcbs (now : ℕ) (link : ℕ → Bool) (t : Tcp) (j : ℕ) :
    (t.tick now link).tcbs j =
      if j < tcp7MaxConnections then tickTcb now (t.tcbs j) else t.tcbs j := by
  unfold tick
  generalize tcp7MaxConnections = n
  induction n with
  | zero => simp
  | succ n ih =>
    rw [range_succ, foldl_append, foldl_cons, foldl_nil, tickOne_tcbs]
    by_cases hj : j = n
    · have hn : ((List.range n).foldl (tickOne now link) t).tcbs n = t.tcbs n := by
        rw [hj, if_neg (lt_irrefl n)] at ih
        exact ih
      rw [hj, update_self, hn, if_pos (Nat.lt_succ_self n)]
    · have hlt : j < n + 1 ↔ j < n := by omega
      rw [update_of_ne hj, ih]
      simp only [hlt]

theorem exec_segment (t : Tcp) (fd : ℕ) (tp : Bytes) (link : ℕ → Bool) (j : ℕ) :
    (t.exec (.segment fd tp link)).tcbs j =
      match parseSegment tp with
      | some seg => if t.find fd = some j then ((t.tcbs j).onSegment seg).tcb else t.tcbs j
      | none => t.tcbs j := by
  simp only [exec, processTcp_tcbs]
  cases t.find fd with
  | none => cases parseSegment tp <;> rfl
  | some i =>
    cases parseSegment tp with
    | none => rfl
    | some seg =>
      dsimp only
      by_cases hji : j = i
      · rw [hji, update_self, if_pos rfl]
      · rw [update_of_ne hji, if_neg fun h => hji (Option.some.inj h).symm]

/-- The step is not a segment that comes in. -/
def Op.Local : Op → Prop
  | .segment .. => False
  | _ => True

/-- **What a local step does to each connection.** -/
theorem exec_step (t : Tcp) {op : Op} (hop : op.Local) (j : ℕ) :
    (t.tcbs j).Step ((t.exec op).tcbs j) := by
  cases op with
  | connect fd ip port iss now link =>
    simp only [exec, connect]
    cases ha : t.alloc with
    | none => exact .sent .same
    | some i =>
      dsimp only
      rw [transmit_tcbs, setTcb_tcbs, setSock_tcbs]
      exact step_setTcb (fun _ => .sent .same) (.opened fd iss now (alloc_sockFd ha)) j
  | segment fd tp link => exact hop.elim
  | send fd buf link => exact .sent (send_sent fd buf link t j)
  | recv fd len dontWait => exact .sent .same
  | close fd link =>
    simp only [exec, close]
    cases hf : t.find fd with
    | none => exact .sent .same
    | some i =>
      have hused : (t.tcbs i).sockFd.isSome := by rw [find_sockFd hf]; rfl
      dsimp only
      rw [setSock_tcbs, setTcb_tcbs]
      have hsent : (if (t.tcbs i).closed.2 then (t.transmit fd link (t.tcbs i).finFrame).2
          else t).tcbs = t.tcbs := by
        split_ifs
        · exact transmit_tcbs ..
        · rfl
      rw [hsent]
      exact step_setTcb (fun _ => .sent .same) (.closed hused) j
  | drop fd =>
    simp only [exec, drop]
    split_ifs with h
    · exact .released (by rw [h.2]; rfl)
    · exact .sent .same
  | tick now link =>
    simp only [exec]
    rw [tick_tcbs]
    unfold tickTcb
    split_ifs with _ hused
    · exact .ticked now hused
    · exact .sent .same
    · exact .sent .same

/-! ### Samples -/

/-- Nothing is open. -/
def boot : Tcp := ⟨.boot, fun _ => .free, []⟩

/-- A SYN-ACK for the number `a`, in one byte more than 768. -/
def synAck (a : UInt8) : Bytes :=
  [0, 80, 0xC0, 0, 0, 0, 0, 7, 0, 0, 3, a, 0x50, 0x12, 0xFF, 0xFF, 0, 0, 0, 0]

theorem synAck_parse (a : UInt8) : parseSegment (synAck a) =
    some ⟨0x12, 7, be32 (synAck a) 8, 0xFFFF, [], []⟩ := by
  simp [parseSegment, synAck, be32, be16]

end Tcp

end Ridux
