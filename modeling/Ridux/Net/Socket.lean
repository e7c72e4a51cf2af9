import Mathlib.Data.Fintype.Basic
import Ridux.Lib.Circular
import Ridux.Lib.Ring
import Ridux.Limits
import Ridux.Text

/-!
# Sockets

The socket table of `base.c`: `socket_t` with its rings and queues, and the state that the socket
calls share.

* `Sock`, `Sock.fresh`, `Sock.zeroed`: a socket, as `sock_create` makes it and as `c_memset` leaves
  it;
* `Net`: the table, the ephemeral ports, the lease of the network card and the virtual bus;
* `Net.sockPushRx`, `Net.sockPushUdp`, `Net.sockPopUdp`: bytes into and out of a receive ring.

Counters of the interfaces, sequence numbers and sleeping tasks are left out: no call reads them.
-/

namespace Ridux

open Lib Function

def sockBufBits : ℕ := 16
def sockBufSize : ℕ := 2 ^ sockBufBits
def sockAcceptq : ℕ := 16
def sockDgramq : ℕ := 32

/-- `tcp_state_t`. -/
inductive TcpState
  | closed | listen | synSent | synRcvd | established | finWait1 | finWait2 | closeWait | closing
  | lastAck | timeWait
  deriving DecidableEq

/-- `SOCK_VIRT_*`. -/
inductive VirtService
  | none | http | https | x11 | wl | dbus
  deriving DecidableEq

/-- `SOCK_VFLAG_*`. -/
structure VirtFlags where
  httpTunnel : Bool := false
  dbusAuth : Bool := false
  dbusUnixfd : Bool := false
  x11Attached : Bool := false
  wlAttached : Bool := false
  dbusWaitData : Bool := false

/-- The errors of the socket calls. -/
inductive SockErr
  | ebadf | efault | einval | enomem | eagain | epipe | e2big | eaddrinuse | eisconn | enotconn
  | econnrefused | etimedout | einprogress
  deriving DecidableEq

/-- An IPv4 address. -/
abbrev Ip := BitVec 32

/-- A port. -/
abbrev Port := BitVec 16

/-- A datagram in a receive ring: `rx_msg_len`, `rx_msg_ip` and `rx_msg_port`. -/
structure Dgram where
  len : ℕ
  ip : Ip
  port : Port

/-- `socket_t`; no peer is `-1`. -/
structure Sock where
  used : Bool
  domain : ℕ
  type : ℕ
  protocol : ℤ
  peer : Option ℕ
  tcpState : TcpState
  localIp : Ip
  localPort : Port
  remoteIp : Ip
  remotePort : Port
  rx : Ring UInt8 sockBufBits
  tx : Ring UInt8 sockBufBits
  anc : Circular (ℕ × BitVec 32) sockAncq
  rxMsg : Circular Dgram sockDgramq
  acceptQ : Circular ℕ sockAcceptq
  nonBlocking : Bool
  backlog : ℕ
  error : Option SockErr
  virtService : VirtService
  virtState : ℕ
  virtFlags : VirtFlags
  shutdownRx : Bool
  shutdownTx : Bool

namespace Sock

/-- A slot after `c_memset(s,0,sizeof(*s))`. -/
def zeroed : Sock where
  used := false
  domain := 0
  type := 0
  protocol := 0
  peer := some 0
  tcpState := .closed
  localIp := 0
  localPort := 0
  remoteIp := 0
  remotePort := 0
  rx := ⟨fun _ => 0, 0, 0⟩
  tx := ⟨fun _ => 0, 0, 0⟩
  anc := ⟨fun _ => (0, 0), 0, 0⟩
  rxMsg := ⟨fun _ => ⟨0, 0, 0⟩, 0, 0⟩
  acceptQ := ⟨fun _ => 0, 0, 0⟩
  nonBlocking := false
  backlog := 0
  error := none
  virtService := .none
  virtState := 0
  virtFlags := {}
  shutdownRx := false
  shutdownTx := false

theorem contents_zeroed_rx : zeroed.rx.contents = [] := Ring.contents_eq_nil (by decide)

/-- A slot as `sock_create` hands it out. -/
def fresh (domain type : ℕ) (protocol : ℤ) : Sock :=
  { zeroed with used := true, domain := domain, type := type, protocol := protocol, peer := none }

end Sock

/-! ### The virtual bus -/

def dbusvBindMax : ℕ := 128
def dbusvMatchMax : ℕ := 128
def dbusvNameMax : ℕ := 128

/-- `dbusv_binding_t`; the bus itself owns a name for `-1`. -/
structure DbusvBinding where
  used : Bool
  ownerFd : Option ℕ
  name : Bytes

/-- `dbusv_match_t`. -/
structure DbusvMatch where
  used : Bool
  ownerFd : ℕ
  rule : Bytes

/-- The tables of the virtual bus. -/
structure Bus where
  bindings : ℕ → DbusvBinding
  matchRules : ℕ → DbusvMatch
  unique : ℕ → Bytes
  hello : ℕ → Bool
  seeded : Bool
  nextUnique : UInt32
  nextSerial : UInt32

/-! ### The table -/

/-- The sockets, with `g_ephemeral_port`, the address of `g_dhcp_lease` and the bus. -/
structure Net where
  socks : ℕ → Sock
  ephemeralPort : Port
  leaseIp : Option Ip
  bus : Bus

namespace Net

/-- Replace one socket. -/
def setSock (n : Net) (i : ℕ) (s : Sock) : Net := { n with socks := update n.socks i s }

/-- `fd<0||fd>=SOCK_MAX||!g_sockets[fd].used`, the other way round. -/
def live (n : Net) (i : ℕ) : Bool := i < sockMax ∧ (n.socks i).used

/-- The peer of a socket, when it is in use. -/
def livePeer (n : Net) (s : Sock) : Option ℕ := s.peer.filter n.live

@[simp] theorem setSock_self (n : Net) (i : ℕ) (s : Sock) : (n.setSock i s).socks i = s :=
  update_self ..

@[simp] theorem setSock_setSock (n : Net) (i : ℕ) (s t : Sock) :
    (n.setSock i s).setSock i t = n.setSock i t := by
  simp [setSock, update_idem]

theorem setSock_of_ne (n : Net) {i j : ℕ} (h : j ≠ i) (s : Sock) :
    (n.setSock i s).socks j = n.socks j := update_of_ne h ..

@[simp] theorem setSock_bus (n : Net) (i : ℕ) (s : Sock) : (n.setSock i s).bus = n.bus := rfl

theorem live_iff {n : Net} {i : ℕ} : n.live i = true ↔ i < sockMax ∧ (n.socks i).used = true := by
  simp [live]

theorem livePeer_eq_some {n : Net} {s : Sock} {p : ℕ} :
    n.livePeer s = some p ↔ s.peer = some p ∧ n.live p = true := by
  simp [livePeer, Option.filter_eq_some_iff]

end Net

/-! ### Receive rings -/

namespace Sock

/-- `SOCK_BUF_SIZE-used`. -/
def rxRoom (s : Sock) : ℕ := sockBufSize - min s.rx.used sockBufSize

/-- `sock_push_rx`: how many bytes were taken. -/
def pushRx (s : Sock) (src : Bytes) : ℕ × Sock :=
  let len := min src.length s.rxRoom
  (len, { s with rx := s.rx.push (src.take len) })

theorem contents_pushRx {s : Sock} (h : s.rx.used ≤ sockBufSize) (src : Bytes) :
    (s.pushRx src).2.rx.contents = s.rx.contents ++ src.take (s.pushRx src).1 ∧
      (s.pushRx src).2.rx.used ≤ sockBufSize := by
  have hroom : s.rx.used + (src.take (min src.length s.rxRoom)).length ≤ 2 ^ sockBufBits := by
    have : s.rxRoom = sockBufSize - s.rx.used := by rw [rxRoom, Nat.min_eq_left h]
    rw [List.length_take, this]
    unfold sockBufSize at h ⊢
    omega
  refine ⟨Ring.contents_push (by decide) _ _ hroom, ?_⟩
  exact (Ring.used_push (by decide) _ _ hroom).trans_le hroom

/-- The queue of datagrams is full. -/
def rxMsgFull (s : Sock) : Bool := Circular.succ sockDgramq s.rxMsg.head = s.rxMsg.tail

/-- `sock_push_udp`. -/
def pushUdp (s : Sock) (src : Bytes) (ip : Ip) (port : Port) : Except SockErr (ℕ × Sock) :=
  let src := src.take 65535
  if src.length > s.rxRoom then .error .eagain
  else if s.rxMsgFull then .error .eagain
  else
    let s := (s.pushRx src).2
    .ok (src.length, { s with rxMsg := s.rxMsg.put ⟨src.length, ip, port⟩ })

/-- `sock_pop_udp`; no datagram is no byte when the call may block. -/
def popUdp (s : Sock) (len : ℕ) (dontWait : Bool) : Except SockErr (Bytes × Sock) :=
  if s.rxMsg.head = s.rxMsg.tail then
    if s.nonBlocking ∨ dontWait then .error .eagain else .ok ([], s)
  else
    let m := s.rxMsg.slots s.rxMsg.tail
    let r := Ring.pop (min len m.len) s.rx
    let skipped := Ring.pop (m.len - min len m.len) r.2
    .ok (r.1, { s with
      rx := skipped.2, remoteIp := m.ip, remotePort := m.port, rxMsg := s.rxMsg.next })

end Sock

end Ridux
