import Ridux.Net.Stream
import Ridux.Ready.Objects

/-!
# Sockets and their readiness

What `c3_fd_ready_mask` says of a socket, and the calls on sockets as `linux_syscalls.c` makes them.

* `Net.sockMask`: the mask;
* `Net.sysRecv`, `Net.sysSend`: `real_sys_read` and `real_sys_recvmsg` without control data, and
  `real_sys_write`;
* `Sock.NextFull`, `Sock.Dry`, `Sock.Held`: what a read finds;
* `Net.Refused`, `Net.Crowded`: why a write finds no room.

What waits at the network card has been taken in: looking there again changes nothing.
-/

namespace Ridux

open Lib List

namespace Sock

/-- A right is queued. -/
def HasRight (s : Sock) : Prop := s.anc.head ≠ s.anc.tail

instance (s : Sock) : Decidable s.HasRight := inferInstanceAs (Decidable (_ ≠ _))

/-- `unix_peerless_idle`. -/
def PeerlessIdle (s : Sock) : Prop :=
  s.domain = 1 ∧ s.peer = none ∧ s.virtService = .none ∧ s.rx.used = 0 ∧ ¬ s.HasRight

instance (s : Sock) : Decidable s.PeerlessIdle := inferInstanceAs (Decidable (_ ∧ _))

/-- The oldest datagram has bytes. -/
def NextFull (s : Sock) : Prop := s.rxMsg.head ≠ s.rxMsg.tail ∧ (s.rxMsg.slots s.rxMsg.tail).len ≠ 0

instance (s : Sock) : Decidable s.NextFull := inferInstanceAs (Decidable (_ ∧ _))

/-- A stream without bytes, to which more may come. -/
def Dry (s : Sock) : Prop := s.rx.used = 0 ∧ s.tcpState ≠ .closed ∧ s.shutdownRx = false

instance (s : Sock) : Decidable s.Dry := inferInstanceAs (Decidable (_ ∧ _))

/-- The oldest right waits behind bytes that are not there. -/
def Held (s : Sock) : Prop :=
  s.rx.used = 0 ∧ s.HasRight ∧ 0 < ((s.anc.slots s.anc.tail).2 - s.rx.tail).toInt

instance (s : Sock) : Decidable s.Held := inferInstanceAs (Decidable (_ ∧ _))

/-- A datagram of so many bytes finds no room. -/
def Full (s : Sock) (len : ℕ) : Prop := s.rxRoom < len ∨ s.rxMsgFull = true

instance (s : Sock) (len : ℕ) : Decidable (s.Full len) := inferInstanceAs (Decidable (_ ∨ _))

end Sock

/-- How the bytes of a socket are read: `real_sys_read` or `real_sys_recvmsg`. -/
inductive RecvCall
  | read | recvmsg

/-- A read that must not wait finds nothing. -/
def Sock.Empty (s : Sock) (call : RecvCall) : Prop :=
  if s.domain = 16 then s.rx.used = 0
  else if s.type = 2 then ¬ s.NextFull
  else
    match call with
    | .read => s.Dry
    | .recvmsg => s.Dry ∨ s.Held

namespace Net

/-- `c3_socket_send_space`. -/
def sendSpace (n : Net) (ref : ℕ) : ℕ :=
  if !n.live ref then 0
  else
    let s := n.socks ref
    let used := match n.livePeer s with
      | some p => (n.socks p).rx.used
      | none => s.tx.used
    sockBufSize - min used sockBufSize

/-- The branch of `c3_fd_ready_mask` for sockets. -/
def sockMask (n : Net) (ref : ℕ) : BitVec 32 :=
  if !n.live ref then maskGone
  else
    let s := n.socks ref
    let queued := flag (min s.rx.used sockBufSize ≠ 0 ∨ s.HasRight ∨
      s.tcpState = .listen ∧ 0 < s.acceptQ.len) epollIn
    let shut := flag (s.shutdownRx = true) (epollIn ||| epollHup)
    if s.type = 1 then
      queued ||| shut |||
        flag (s.error.isSome = true) (epollOut ||| epollErr) |||
        flag (s.tcpState = .established ∧ s.shutdownTx = false ∧ 0 < n.sendSpace ref) epollOut |||
        flag (s.tcpState = .closed ∧ ¬ s.PeerlessIdle) (epollIn ||| epollHup)
    else queued ||| shut ||| epollOut

/-! ### The calls -/

/-- `c3_socket_ref_recv_eof`. -/
def recvEof (n : Net) (ref : ℕ) : Bool :=
  !n.live ref ||
    decide ((n.socks ref).type = 1 ∧ ((n.socks ref).tcpState = .closed ∨ (n.socks ref).shutdownRx))

/-- One turn of `c3_socket_recv_kernel_wait`. -/
def recvKernelWait (n : Net) (out : Outside) (ref len : ℕ) (c : Caller) : IoTurn SockErr Bytes × Net :=
  if len = 0 then (.done (.ok []), n)
  else
    match n.sockRecv out ref len c.dontWait with
    | (.error e, n) => (.done (.error e), n)
    | (.ok bytes, n) =>
      if bytes ≠ [] then (.done (.ok bytes), n)
      else if n.recvEof ref then (.done (.ok []), n)
      else (c.pause .eagain, n)

/-- One turn of `c3_netlink_recv_user`: a read takes all bytes there are. -/
def netlinkRecv (n : Net) (ref len : ℕ) (c : Caller) : IoTurn SockErr Bytes × Net :=
  if !n.live ref then (.done (.error .ebadf), n)
  else
    let s := n.socks ref
    let av := min s.rx.used sockBufSize
    if av = 0 then (c.pause .eagain, n)
    else
      (.done (.ok ((Ring.pop av s.rx).1.take len)), n.setSock ref { s with rx := (Ring.pop av s.rx).2 })

/-- `c3_recvmsg_iov` for one buffer. -/
def recvmsgIov (n : Net) (out : Outside) (ref len : ℕ) (c : Caller) : IoTurn SockErr Bytes × Net :=
  if n.live ref ∧ (n.socks ref).type = 2 then n.recvKernelWait out ref (min len 16384) c
  else if len = 0 then (.done (.ok []), n)
  else
    let limit := n.sockRecvLimitBeforeRight ref len
    if limit = 0 then (.done (if c.dontWait then .error .eagain else .ok []), n)
    else n.recvKernelWait out ref (min limit 4096) c

/-- The bytes of a socket, as `real_sys_read` and `real_sys_recvmsg` read them. -/
def sysRecv (n : Net) (out : Outside) (call : RecvCall) (ref len : ℕ) (c : Caller) :
    IoTurn SockErr Bytes × Net :=
  if n.live ref ∧ (n.socks ref).domain = 16 then n.netlinkRecv ref (min len 16384) c
  else
    match call with
    | .read => n.recvKernelWait out ref (min len 4096) c
    | .recvmsg => n.recvmsgIov out ref len c

/-- `c3_netlink_sendmsg`; `reply` queues what a request of at least a header asks for. -/
def netlinkSend (n : Net) (reply : Net → ℕ → Bytes → Net) (ref : ℕ) (src : Bytes) : Except SockErr ℕ × Net :=
  if !n.live ref then (.error .ebadf, n)
  else if src.length < 16 then (.ok src.length, n)
  else (.ok src.length, reply n ref src)

/-- The branch of `real_sys_write` for sockets. -/
def sysSend (n : Net) (out : Outside) (reply : Net → ℕ → Bytes → Net) (ref : ℕ) (src : Bytes) :
    Except SockErr ℕ × Net :=
  if n.live ref ∧ (n.socks ref).domain = 16 then n.netlinkSend reply ref src
  else n.sockSend out ref src

/-! ### Why a write finds no room -/

/-- The code behind a stream answers that it should be tried again. -/
def Refused (n : Net) (out : Outside) (fd : ℕ) (src : Bytes) : Prop :=
  let s := n.socks fd
  if netIsRealExternal s.remoteIp then (out.tcpSend n fd src).1 = .error .eagain
  else
    match n.livePeer s with
    | some p =>
      (n.socks p).shutdownRx = false ∧ internalBridge s = true ∧
        (out.peerProcess (n.setSock p ((n.socks p).pushRx src).2) fd).1 = .error .eagain
    | none =>
      let len := min src.length (sockBufSize - min s.tx.used sockBufSize)
      s.virtService ≠ .none ∧ s.virtService ≠ .dbus ∧
        (out.serve (n.setSock fd { s with tx := s.tx.push (src.take len) }) fd (src.take len)).1 =
          .error .eagain

/-- A datagram has nowhere to go: the ring or the queue it is for is full, or the card says so. -/
def Crowded (n : Net) (out : Outside) (fd : ℕ) (src : Bytes) : Prop :=
  let s := n.socks fd
  let r := n.connectPort s
  let n' := r.2.setSock fd { s with localPort := r.1, localIp := n.connectIp s s.remoteIp }
  s.remotePort ≠ 0 ∧
    match n'.livePeer s with
    | some p => (n'.socks p).Full src.length
    | none =>
      if s.remotePort = 53 ∨ ¬ sockIsLoopbackIp s.remoteIp then (out.dgramSend n' fd src).1 = .error .eagain
      else ∃ dst, n'.sockFindUdpBound s.domain fd s.remoteIp s.remotePort = some dst ∧
        (n'.socks dst).Full src.length

/-! ### What the mask says -/

variable {n : Net} {out : Outside} {fd len k p : ℕ} {src : Bytes} {s : Sock} {reply : Net → ℕ → Bytes → Net}

theorem min_bufSize_ne_zero : min k sockBufSize ≠ 0 ↔ k ≠ 0 := by
  have hpos : 0 < sockBufSize := by decide
  omega

theorem sockMask_gone (h : n.live fd = false) : n.sockMask fd = maskGone := if_pos (by simp [h])

theorem sockMask_in (h : n.live fd = true) : HasBit (n.sockMask fd) epollIn ↔
    (n.socks fd).rx.used ≠ 0 ∨ (n.socks fd).HasRight ∨
      ((n.socks fd).tcpState = .listen ∧ 0 < (n.socks fd).acceptQ.len) ∨ (n.socks fd).shutdownRx = true ∨
      (n.socks fd).type = 1 ∧ (n.socks fd).tcpState = .closed ∧ ¬ (n.socks fd).PeerlessIdle := by
  unfold sockMask
  rw [if_neg (by simp [h])]
  dsimp only
  by_cases htype : (n.socks fd).type = 1
  · rw [if_pos htype]
    simp only [hasBit_or, hasBit_flag, min_bufSize_ne_zero, in_hasIn, out_hasIn, err_hasIn, htype, true_and,
      and_true, or_self, and_false, or_false, hup_hasIn, or_assoc]
  · rw [if_neg htype]
    simp only [hasBit_or, hasBit_flag, min_bufSize_ne_zero, in_hasIn, out_hasIn, htype, false_and, and_true,
      or_false, hup_hasIn, or_assoc]

theorem sockMask_out (h : n.live fd = true) : HasBit (n.sockMask fd) epollOut ↔
    ((n.socks fd).type = 1 → (n.socks fd).error.isSome = true ∨ (n.socks fd).tcpState = .established ∧
      (n.socks fd).shutdownTx = false ∧ 0 < n.sendSpace fd) := by
  unfold sockMask
  rw [if_neg (by simp [h])]
  dsimp only
  by_cases htype : (n.socks fd).type = 1
  · rw [if_pos htype]
    simp only [hasBit_or, hasBit_flag, in_hasOut, out_hasOut, err_hasOut, hup_hasOut, htype, and_false,
      false_or, or_false, and_true, or_self, forall_const]
  · rw [if_neg htype]
    simp only [hasBit_or, out_hasOut, or_true, htype, false_implies]

/-! ### What a read finds -/

theorem popUdp_bytes (hlen : len ≠ 0) :
    (∃ b s', s.popUdp len true = .ok (b, s') ∧ b ≠ [] ∧ s.NextFull) ∨
      (∃ s', s.popUdp len true = .ok ([], s') ∧ s'.used = s.used ∧ s'.type = s.type ∧ ¬ s.NextFull) ∨
      s.popUdp len true = .error .eagain ∧ ¬ s.NextFull := by
  unfold Sock.popUdp Sock.NextFull
  by_cases hempty : s.rxMsg.head = s.rxMsg.tail
  · rw [if_pos hempty, if_pos (.inr rfl)]
    exact .inr (.inr ⟨rfl, fun h => h.1 hempty⟩)
  · rw [if_neg hempty]
    dsimp only
    have hlength : (Ring.pop (min len (s.rxMsg.slots s.rxMsg.tail).len) s.rx).1.length =
        min len (s.rxMsg.slots s.rxMsg.tail).len := Ring.length_pop _ _
    by_cases hz : (s.rxMsg.slots s.rxMsg.tail).len = 0
    · have hnil : (Ring.pop (min len (s.rxMsg.slots s.rxMsg.tail).len) s.rx).1 = [] := by
        rw [← length_eq_zero_iff, hlength, hz, Nat.min_zero]
      rw [hnil]
      exact .inr (.inl ⟨{ s with rx := _, remoteIp := _, remotePort := _, rxMsg := _ }, rfl, rfl, rfl,
        fun h => h.2 hz⟩)
    · refine .inl ⟨_, _, rfl, fun hnil => ?_, hempty, hz⟩
      rw [hnil, length_nil] at hlength
      omega

theorem live_setSock_self (h : n.live fd = true) (hs : s.used = (n.socks fd).used) :
    (n.setSock fd s).live fd = true := by
  rw [live_iff, setSock_self, hs]
  exact live_iff.1 h

/-- **A read that must not wait** finds no datagram with bytes first. -/
theorem recvKernelWait_dgram (hquiet : out.poll n = n) (hlen : len ≠ 0) (hlive : n.live fd = true)
    (htype : (n.socks fd).type = 2) (signal : Bool) :
    (n.recvKernelWait out fd len (.nonBlocking signal)).1 = .done (.error .eagain) ↔
      ¬ (n.socks fd).NextFull := by
  have hrecv : ∀ b s', (n.socks fd).popUdp len true = .ok (b, s') →
      n.sockRecv out fd len true = (.ok b, n.setSock fd s') := by
    intro b s' hpop
    unfold sockRecv
    rw [if_neg (by simp [hlive]), hquiet, ite_self, if_pos htype, hpop]
  unfold recvKernelWait
  rw [if_neg hlen, dontWait_nonBlocking]
  rcases popUdp_bytes (s := n.socks fd) hlen with ⟨b, s', hpop, hb, hfull⟩ | ⟨s', hpop, hused, hkind, hfull⟩ |
    ⟨hpop, hfull⟩
  · rw [hrecv b s' hpop]
    dsimp only
    rw [if_pos hb]
    simp [hfull]
  · rw [hrecv [] s' hpop]
    dsimp only
    have heof : (n.setSock fd s').recvEof fd = false := by
      unfold recvEof
      rw [live_setSock_self hlive hused, setSock_self, hkind, htype]
      rfl
    rw [if_neg (by simp), if_neg (by simp [heof])]
    simp [hfull]
  · have hagain : n.sockRecv out fd len true = (.error .eagain, n) := by
      unfold sockRecv
      rw [if_neg (by simp [hlive]), hquiet, ite_self, if_pos htype, hpop]
    rw [hagain]
    simp [hfull]

theorem recvKernelWait_stream (hquiet : out.poll n = n) (hlen : len ≠ 0) (hlive : n.live fd = true)
    (htype : (n.socks fd).type = 1) (signal : Bool) :
    (n.recvKernelWait out fd len (.nonBlocking signal)).1 = .done (.error .eagain) ↔ (n.socks fd).Dry := by
  have hrecv : n.sockRecv out fd len true =
      if min (n.socks fd).rx.used sockBufSize = 0 then
        if (n.socks fd).type = 1 ∧ ((n.socks fd).tcpState = .closed ∨ (n.socks fd).shutdownRx) then
          (.ok [], n)
        else if (n.socks fd).nonBlocking ∨ true then (.error .eagain, n)
        else (.ok [], n)
      else
        let r := Ring.pop (min len (min (n.socks fd).rx.used sockBufSize)) (n.socks fd).rx
        (.ok r.1, n.setSock fd { n.socks fd with rx := r.2 }) := by
    unfold sockRecv
    rw [if_neg (by simp [hlive]), hquiet, ite_self]
    exact if_neg (by omega)
  unfold recvKernelWait
  rw [if_neg hlen, dontWait_nonBlocking, hrecv]
  unfold Sock.Dry
  by_cases hrx : (n.socks fd).rx.used = 0
  · rw [if_pos (by rw [hrx, Nat.zero_min])]
    by_cases heof : (n.socks fd).type = 1 ∧ ((n.socks fd).tcpState = .closed ∨ (n.socks fd).shutdownRx = true)
    · rw [if_pos heof]
      have hend : n.recvEof fd = true := by
        unfold recvEof
        rw [decide_eq_true heof, Bool.or_true]
      dsimp only
      rw [if_neg (by simp), if_pos hend]
      refine iff_of_false nofun fun ⟨_, hclosed, hshut⟩ => ?_
      rcases heof.2 with h | h
      · exact hclosed h
      · rw [hshut] at h
        cases h
    · rw [if_neg heof, if_pos (.inr rfl)]
      refine iff_of_true rfl ⟨hrx, fun h => heof ⟨htype, .inl h⟩, ?_⟩
      exact Bool.eq_false_iff.2 fun h => heof ⟨htype, .inr h⟩
  · rw [if_neg (min_bufSize_ne_zero.2 hrx)]
    have hpos := min_bufSize_ne_zero.2 hrx
    have hbytes : (Ring.pop (min len (min (n.socks fd).rx.used sockBufSize)) (n.socks fd).rx).1 ≠ [] := by
      rw [← length_pos_iff, Ring.length_pop]
      omega
    dsimp only
    rw [if_pos hbytes]
    exact iff_of_false nofun fun h => hrx h.1

theorem limit_eq_zero (hlive : n.live fd = true) (htype : (n.socks fd).type = 1) (hlen : len ≠ 0) :
    n.sockRecvLimitBeforeRight fd len = 0 ↔ (n.socks fd).Held := by
  unfold sockRecvLimitBeforeRight Sock.Held Sock.HasRight
  rw [if_neg (by simp [hlive])]
  dsimp only
  rw [if_neg (not_not.2 htype)]
  by_cases hanc : (n.socks fd).anc.head = (n.socks fd).anc.tail
  · rw [if_pos hanc]
    exact iff_of_false hlen fun h => h.2.1 hanc
  rw [if_neg hanc]
  generalize ((n.socks fd).anc.slots (n.socks fd).anc.tail).2 - (n.socks fd).rx.tail = dist
  by_cases hpast : dist.toInt ≤ 0
  · rw [if_pos hpast]
    exact iff_of_false hlen fun h => absurd h.2.2 (by omega)
  rw [if_neg hpast]
  have hpos : dist.toNat ≠ 0 := by
    intro hzero
    rw [BitVec.toInt_eq_toNat_cond, hzero] at hpast
    exact hpast (by simp)
  have hbuf := min_bufSize_ne_zero (k := (n.socks fd).rx.used)
  split_ifs with hfar
  · constructor
    · intro h
      have hz : min (n.socks fd).rx.used sockBufSize = 0 := by omega
      exact ⟨by by_contra hne; exact hbuf.2 hne hz, hanc, by omega⟩
    · rintro ⟨hz, -, -⟩
      rw [hz, Nat.zero_min, Nat.zero_min]
  · refine iff_of_false (by omega) fun h => ?_
    rw [h.1, Nat.zero_min] at hfar
    omega

theorem recvKernelWait_gone (hlive : n.live fd = false) (hlen : len ≠ 0) (c : Caller) :
    (n.recvKernelWait out fd len c).1 = .done (.error .ebadf) := by
  unfold recvKernelWait sockRecv
  rw [if_neg hlen, if_pos (by simp [hlive])]

theorem sysRecv_gone (hlive : n.live fd = false) (hlen : len ≠ 0) (call : RecvCall) (c : Caller) :
    (n.sysRecv out call fd len c).1 = .done (.error .ebadf) := by
  unfold sysRecv
  rw [if_neg (by simp [hlive])]
  cases call with
  | read => exact recvKernelWait_gone hlive (by omega) c
  | recvmsg =>
    have hlimit : n.sockRecvLimitBeforeRight fd len = len := if_pos (by simp [hlive])
    dsimp only
    unfold recvmsgIov
    rw [if_neg (by simp [hlive]), if_neg hlen, hlimit]
    dsimp only
    rw [if_neg hlen]
    exact recvKernelWait_gone hlive (by omega) c

/-- **A read that must not wait.** -/
theorem sysRecv_again (hquiet : out.poll n = n) (hlive : n.live fd = true) (hlen : len ≠ 0)
    (htype : (n.socks fd).type = 1 ∨ (n.socks fd).type = 2) (call : RecvCall) (signal : Bool) :
    (n.sysRecv out call fd len (.nonBlocking signal)).1 = .done (.error .eagain) ↔
      (n.socks fd).Empty call := by
  unfold sysRecv Sock.Empty
  by_cases hnl : (n.socks fd).domain = 16
  · rw [if_pos ⟨hlive, hnl⟩, if_pos hnl]
    unfold netlinkRecv
    rw [if_neg (by simp [hlive])]
    dsimp only
    by_cases hz : (n.socks fd).rx.used = 0
    · rw [if_pos (by rw [hz, Nat.zero_min])]
      simp [hz]
    · rw [if_neg (min_bufSize_ne_zero.2 hz)]
      exact iff_of_false nofun hz
  rw [if_neg fun h => hnl h.2, if_neg hnl]
  rcases htype with htype | htype
  · rw [if_neg (by omega)]
    cases call with
    | read => exact recvKernelWait_stream hquiet (by omega) hlive htype signal
    | recvmsg =>
      dsimp only
      unfold recvmsgIov
      rw [if_neg (by omega), if_neg hlen]
      dsimp only
      have hlimit := limit_eq_zero hlive htype hlen
      by_cases hzero : n.sockRecvLimitBeforeRight fd len = 0
      · rw [if_pos hzero]
        exact iff_of_true rfl (.inr (hlimit.1 hzero))
      · rw [if_neg hzero, recvKernelWait_stream hquiet (by omega) hlive htype signal]
        constructor
        · exact .inl
        · rintro (h | h)
          · exact h
          · exact absurd (hlimit.2 h) hzero
  · rw [if_pos htype]
    cases call with
    | read => exact recvKernelWait_dgram hquiet (by omega) hlive htype signal
    | recvmsg =>
      dsimp only
      unfold recvmsgIov
      rw [if_pos ⟨hlive, htype⟩]
      exact recvKernelWait_dgram hquiet (by omega) hlive htype signal

/-! ### When a write finds no room -/

theorem sent_again {r : Except SockErr Unit × Net} :
    (sent k r).1 = .error .eagain ↔ r.1 = .error .eagain := by
  obtain ⟨r, n⟩ := r
  cases r with
  | ok => exact iff_of_false nofun nofun
  | error e =>
    show Except.error e = Except.error SockErr.eagain ↔ Except.error e = Except.error SockErr.eagain
    simp

theorem refused_peer (hp : n.livePeer (n.socks fd) = some p)
    (hlocal : netIsRealExternal (n.socks fd).remoteIp = false) : n.Refused out fd src ↔
      (n.socks p).shutdownRx = false ∧ internalBridge (n.socks fd) = true ∧
        (out.peerProcess (n.setSock p ((n.socks p).pushRx src).2) fd).1 = .error .eagain := by
  unfold Refused
  dsimp only
  rw [if_neg (by simp [hlocal]), hp]

theorem sendPeer_again (hp : n.livePeer (n.socks fd) = some p)
    (hlocal : netIsRealExternal (n.socks fd).remoteIp = false) :
    (n.sendPeer out fd p src).1 = .error .eagain ↔ n.Refused out fd src := by
  rw [refused_peer hp hlocal]
  unfold sendPeer
  cases hshut : (n.socks p).shutdownRx with
  | true => simp
  | false =>
    rw [if_neg (by simp)]
    dsimp only
    cases hbridge : internalBridge (n.socks fd) with
    | true =>
      rw [if_pos rfl, sent_again]
      simp
    | false => simp

theorem sendVirtual_again (hp : n.livePeer (n.socks fd) = none)
    (hlocal : netIsRealExternal (n.socks fd).remoteIp = false) :
    (n.sendVirtual out fd src).1 = .error .eagain ↔ n.Refused out fd src := by
  have hrefused : n.Refused out fd src ↔ (n.socks fd).virtService ≠ .none ∧ (n.socks fd).virtService ≠ .dbus ∧
      (out.serve (n.setSock fd { n.socks fd with
        tx := (n.socks fd).tx.push
          (src.take (min src.length (sockBufSize - min (n.socks fd).tx.used sockBufSize))) })
        fd (src.take (min src.length (sockBufSize - min (n.socks fd).tx.used sockBufSize)))).1 =
        .error .eagain := by
    unfold Refused
    dsimp only
    rw [if_neg (by simp [hlocal]), hp]
  rw [hrefused]
  unfold sendVirtual
  dsimp only
  by_cases hnone : (n.socks fd).virtService = .none
  · rw [if_pos hnone]
    exact iff_of_false nofun fun h => h.1 hnone
  rw [if_neg hnone]
  by_cases hbus : (n.socks fd).virtService = .dbus
  · rw [if_pos hbus]
    refine iff_of_false ?_ fun h => h.2.1 hbus
    split_ifs
    · exact nofun
    · exact nofun
  rw [if_neg hbus, sent_again]
  simp [hnone, hbus]

/-- **A write to a stream** that is connected may be refused by the code behind it. -/
theorem sysSend_stream (hlive : n.live fd = true) (htype : (n.socks fd).type = 1)
    (hdom : (n.socks fd).domain ≠ 16) :
    (n.sysSend out reply fd src).1 = .error .eagain ↔
      (n.socks fd).tcpState = .established ∧ (n.socks fd).shutdownTx = false ∧ n.Refused out fd src := by
  unfold sysSend sockSend
  rw [if_neg fun h => hdom h.2, if_neg (by simp [hlive])]
  dsimp only
  by_cases hest : (n.socks fd).tcpState = .established
  · rw [if_neg fun h => h.2 hest]
    cases hshut : (n.socks fd).shutdownTx with
    | true =>
      rw [if_pos ⟨htype, rfl⟩]
      simp
    | false =>
      rw [if_neg (by simp), if_neg (by omega)]
      simp only [hest, true_and]
      cases hext : netIsRealExternal (n.socks fd).remoteIp with
      | true =>
        rw [if_pos ⟨htype, rfl⟩]
        unfold Refused
        dsimp only
        rw [if_pos hext]
      | false =>
        rw [if_neg (by simp)]
        cases hp : n.livePeer (n.socks fd) with
        | some p => exact sendPeer_again hp hext
        | none => exact sendVirtual_again hp hext
  · rw [if_pos ⟨htype, hest⟩]
    exact iff_of_false nofun fun h => hest h.1

theorem dgramTo_again {dst : ℕ} {ip : Ip} {port : Port} (hlen : src.length ≤ 65535) :
    (n.dgramTo dst src ip port).1 = .error .eagain ↔ (n.socks dst).Full src.length := by
  unfold dgramTo Sock.pushUdp Sock.Full
  rw [take_of_length_le hlen]
  dsimp only
  by_cases hroom : src.length > (n.socks dst).rxRoom
  · rw [if_pos hroom]
    exact iff_of_true rfl (.inl hroom)
  rw [if_neg hroom]
  cases hfull : (n.socks dst).rxMsgFull with
  | true => simp
  | false =>
    rw [if_neg (by simp)]
    exact iff_of_false nofun fun h => h.elim hroom nofun

/-- **A datagram** may be crowded out. -/
theorem sysSend_dgram (hlive : n.live fd = true) (htype : (n.socks fd).type = 2)
    (hdom : (n.socks fd).domain ≠ 16) (hlen : src.length ≤ 65535) :
    (n.sysSend out reply fd src).1 = .error .eagain ↔ n.Crowded out fd src := by
  unfold sysSend sockSend
  rw [if_neg fun h => hdom h.2, if_neg (by simp [hlive])]
  dsimp only
  rw [if_neg (by omega), if_neg (by omega), if_pos htype]
  unfold sendDgram Crowded
  by_cases hport : (n.socks fd).remotePort = 0
  · rw [if_pos hport]
    refine iff_of_false (by simp) ?_
    intro h
    exact h.1 hport
  rw [if_neg hport]
  dsimp only
  simp only [ne_eq, hport, not_false_eq_true, true_and]
  generalize (n.connectPort (n.socks fd)).2.setSock fd _ = n'
  cases n'.livePeer (n.socks fd) with
  | some p => exact dgramTo_again hlen
  | none =>
    dsimp only
    by_cases hdns : (n.socks fd).remotePort = 53
    · rw [if_pos hdns, if_pos (.inl hdns)]
    rw [if_neg hdns]
    cases hloop : sockIsLoopbackIp (n.socks fd).remoteIp with
    | false =>
      rw [if_neg (by simp), if_pos (.inr (by simp))]
    | true =>
      rw [if_pos rfl, if_neg (by simpa using hdns)]
      cases hdst : n'.sockFindUdpBound (n.socks fd).domain fd (n.socks fd).remoteIp
          (n.socks fd).remotePort with
      | none => simp
      | some dst =>
        dsimp only
        rw [dgramTo_again hlen]
        simp

theorem sysSend_netlink (hlive : n.live fd = true) (hdom : (n.socks fd).domain = 16) :
    (n.sysSend out reply fd src).1 ≠ .error .eagain := by
  unfold sysSend netlinkSend
  rw [if_pos ⟨hlive, hdom⟩, if_neg (by simp [hlive])]
  split_ifs
  · exact nofun
  · exact nofun

theorem sysSend_gone (hlive : n.live fd = false) :
    (n.sysSend out reply fd src).1 = .error .ebadf := by
  unfold sysSend sockSend
  rw [if_neg (by simp [hlive]), if_pos (by simp [hlive])]

end Net

end Ridux
