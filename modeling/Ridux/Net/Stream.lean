import Ridux.Dbus.Stream
import Ridux.Net.Calls

/-!
# Bytes and rights over sockets

`sock_send` and `sock_recv` of `base.c`, and the rights that travel beside the bytes.

* `Outside`: the code behind the sockets that the calls hand data to;
* `Net.sockSend`, `Net.sockRecv`;
* `Net.sockSendRight`, `Net.sockRecvRight`, `Net.sockRecvLimitBeforeRight`.
-/

namespace Ridux

open Lib

/-- What lies behind the sockets: the services of the bus, the TCP engine, the network card and the
virtual servers. -/
structure Outside where
  /-- `dbusv_handle_service_method_call` -/
  services : Services
  /-- `e1000_poll_rx` -/
  poll : Net → Net
  /-- `tcp7_send` -/
  tcpSend : Net → ℕ → Bytes → Except SockErr ℕ × Net
  /-- A datagram for the name server or the network card. -/
  dgramSend : Net → ℕ → Bytes → Except SockErr ℕ × Net
  /-- `sock_virtual_peer_process` -/
  peerProcess : Net → ℕ → Except SockErr Unit × Net
  /-- `sock_virtual_stream_on_send` for the services other than the bus. -/
  serve : Net → ℕ → Bytes → Except SockErr Unit × Net

/-- Nothing lies behind the sockets. -/
def Outside.idle : Outside where
  services _ _ := .none
  poll n := n
  tcpSend n _ _ := (.error .enotconn, n)
  dgramSend n _ src := (.ok src.length, n)
  peerProcess n _ := (.ok (), n)
  serve n _ _ := (.ok (), n)

namespace Net

/-- The bytes that were taken, unless what came behind them failed. -/
def sent (len : ℕ) (r : Except SockErr Unit × Net) : Except SockErr ℕ × Net :=
  match r with
  | (.ok (), n) => (.ok len, n)
  | (.error e, n) => (.error e, n)

def sockFindUdpBound (n : Net) (domain fd : ℕ) (addr : Ip) (port : Port) : Option ℕ :=
  firstSlot (fun i =>
    let s := n.socks i
    i ≠ fd ∧ s.used ∧ s.domain = domain ∧ s.type = 2 ∧ s.localPort = port ∧
      sockIpMatch s.localIp addr) sockMax

/-- A datagram into the ring of another socket. -/
def dgramTo (n : Net) (dst : ℕ) (src : Bytes) (ip : Ip) (port : Port) :
    Except SockErr ℕ × Net :=
  match (n.socks dst).pushUdp src ip port with
  | .error e => (.error e, n)
  | .ok (len, s) => (.ok len, n.setSock dst s)

/-- The branch of `sock_send` for datagrams. -/
def sendDgram (n : Net) (out : Outside) (fd : ℕ) (src : Bytes) : Except SockErr ℕ × Net :=
  if (n.socks fd).remotePort = 0 then (.error .enotconn, n)
  else
    let s := n.socks fd
    let r := n.connectPort s
    let ip := n.connectIp s s.remoteIp
    let n := r.2.setSock fd { s with localPort := r.1, localIp := ip }
    match n.livePeer s with
    | some p => n.dgramTo p src ip r.1
    | none =>
      if s.remotePort = 53 then out.dgramSend n fd src
      else if sockIsLoopbackIp s.remoteIp then
        match n.sockFindUdpBound s.domain fd s.remoteIp s.remotePort with
        | some dst => n.dgramTo dst src ip r.1
        | none => (.ok src.length, n)
      else out.dgramSend n fd src

/-- The branch of `sock_send` for a stream with a peer. -/
def sendPeer (n : Net) (out : Outside) (fd p : ℕ) (src : Bytes) : Except SockErr ℕ × Net :=
  if (n.socks p).shutdownRx then (.error .epipe, n)
  else
    let s := n.socks fd
    let r := (n.socks p).pushRx src
    let n := n.setSock p r.2
    if internalBridge s then sent r.1 (out.peerProcess n fd) else (.ok r.1, n)

/-- The branch of `sock_send` for a stream without a peer: the bytes go into the transmit ring. -/
def sendVirtual (n : Net) (out : Outside) (fd : ℕ) (src : Bytes) : Except SockErr ℕ × Net :=
  let s := n.socks fd
  let len := min src.length (sockBufSize - min s.tx.used sockBufSize)
  let n := n.setSock fd { s with tx := s.tx.push (src.take len) }
  if s.virtService = .none then (.ok len, n)
  else if s.virtService = .dbus then
    if len = 0 then (.ok len, n)
    else (.ok len, n.dbusOnSend out.services fd (txSnapshot (n.socks fd) 4096))
  else sent len (out.serve n fd (src.take len))

/-- `sock_send`: how many bytes were taken. -/
def sockSend (n : Net) (out : Outside) (fd : ℕ) (src : Bytes) : Except SockErr ℕ × Net :=
  if !n.live fd then (.error .ebadf, n)
  else
    let s := n.socks fd
    if s.type = 1 ∧ s.tcpState ≠ .established then (.error .enotconn, n)
    else if s.type = 1 ∧ s.shutdownTx then (.error .epipe, n)
    else if s.type = 2 then n.sendDgram out fd src
    else if s.type = 1 ∧ netIsRealExternal s.remoteIp then out.tcpSend n fd src
    else
      match n.livePeer s with
      | some p => n.sendPeer out fd p src
      | none => n.sendVirtual out fd src

/-- `sock_recv` into a buffer of `len` bytes: the bytes received. -/
def sockRecv (n : Net) (out : Outside) (fd len : ℕ) (dontWait : Bool) :
    Except SockErr Bytes × Net :=
  if !n.live fd then (.error .ebadf, n)
  else
    let n := if netIsRealExternal (n.socks fd).remoteIp then out.poll n else n
    let s := n.socks fd
    if s.type = 2 then
      match s.popUdp len dontWait with
      | .error e => (.error e, n)
      | .ok (bytes, s) => (.ok bytes, n.setSock fd s)
    else
      let av := min s.rx.used sockBufSize
      if av = 0 then
        if s.type = 1 ∧ (s.tcpState = .closed ∨ s.shutdownRx) then (.ok [], n)
        else if s.nonBlocking ∨ dontWait then (.error .eagain, n)
        else (.ok [], n)
      else
        let r := Ring.pop (min len av) s.rx
        (.ok r.1, n.setSock fd { s with rx := r.2 })

/-! ### Rights -/

def sockSendRight (n : Net) (fd right : ℕ) : Except SockErr Unit × Net :=
  if !n.live fd then (.error .ebadf, n)
  else
    match n.livePeer (n.socks fd) with
    | none => (.error .einval, n)
    | some p =>
      let s := n.socks p
      if Circular.succ sockAncq s.anc.head = s.anc.tail then (.error .eagain, n)
      else (.ok (), n.setSock p { s with anc := s.anc.put (right, s.rx.head) })

/-- `sock_pos_after`: the difference is positive as a signed number. -/
def posAfter (a b : BitVec 32) : Bool := 0 < (a - b).toInt

def sockRecvRight (n : Net) (fd : ℕ) : Except SockErr ℕ × Net :=
  if !n.live fd then (.error .ebadf, n)
  else
    let s := n.socks fd
    if s.anc.head = s.anc.tail then (.error .eagain, n)
    else if posAfter (s.anc.slots s.anc.tail).2 s.rx.tail then (.error .eagain, n)
    else (.ok (s.anc.slots s.anc.tail).1, n.setSock fd { s with anc := s.anc.next })

def sockRecvLimitBeforeRight (n : Net) (fd cap : ℕ) : ℕ :=
  if !n.live fd then cap
  else
    let s := n.socks fd
    if s.type ≠ 1 then cap
    else if s.anc.head = s.anc.tail then cap
    else
      let dist := (s.anc.slots s.anc.tail).2 - s.rx.tail
      let used := min s.rx.used sockBufSize
      if dist.toInt ≤ 0 then cap
      else if dist.toNat > used then min used cap
      else min dist.toNat cap

end Net

end Ridux
