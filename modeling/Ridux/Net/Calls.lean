import Ridux.Dbus.Bus

/-!
# The socket calls

Making, connecting and closing sockets, from `base.c`.

* `Net.sockCreate`, `Net.sockBind`, `Net.sockListen`, `Net.sockAccept`, `Net.sockPairCreate`;
* `Net.sockConnect`: to a listener, to a virtual service, or to the network outside;
* `Net.sockClose`.

What the network card delivers while `tcp7_connect` waits is an argument of `sockConnect`: a list of
events, each with the changes it makes to a socket. The bridges of X11 and Wayland keep their own
state and are left out. A negative descriptor is refused like one that is too large.
-/

namespace Ridux

open Lib

def sockIsLoopbackIp (ip : Ip) : Bool := ip = 0 ∨ ip &&& 0xFF000000#32 = 0x7F000000#32

def netIsRealExternal (ip : Ip) : Bool := ip ≠ 0 ∧ ip &&& 0xFF000000#32 ≠ 0x7F000000#32

def sockIpMatch (bindIp target : Ip) : Bool :=
  bindIp = 0 ∨ target = 0 ∨ bindIp = target ∨
    sockIsLoopbackIp bindIp ∧ sockIsLoopbackIp target

def sockIsHttpPort (port : Port) : Bool := port.toNat ∈ [80, 8080, 8000, 3000, 5000, 9222]

def sockIsHttpsPort (port : Port) : Bool := port.toNat ∈ [443, 8443, 9443]

def sockVirtualClassify (addr : Ip) (port : Port) : VirtService :=
  let p := port.toNat
  if sockIsLoopbackIp addr then
    if 6000 ≤ p ∧ p < 6064 then .x11
    else if 39010 ≤ p ∧ p ≤ 39019 ∨ p = 39099 then .wl
    else if p = 39020 ∨ p = 39021 ∨ p = 39022 then .dbus
    else .none
  else if sockIsHttpPort port then .http
  else if sockIsHttpsPort port then .https
  else .none

/-- What arrives for one socket from the network. -/
inductive NetEvent
  /-- What `tcp7_incoming_segment` and `tcp7_tick` set, and the payload they let through. -/
  | segment (sock : ℕ) (state : Option TcpState) (error : Option SockErr) (payload : Bytes)
  | dgram (sock : ℕ) (payload : Bytes) (ip : Ip) (port : Port)

namespace Net

/-- The tables at boot. -/
def boot : Net where
  socks _ := .zeroed
  ephemeralPort := 49152
  leaseIp := none
  bus :=
    { bindings := fun _ => Bus.freeBinding
      matchRules := fun _ => Bus.freeMatch
      unique := fun _ => []
      hello := fun _ => false
      seeded := false
      nextUnique := 1
      nextSerial := 1 }

def allocEph (n : Net) : Port × Net :=
  let next := n.ephemeralPort + 1
  (n.ephemeralPort, { n with ephemeralPort := if next.toNat > 65500 then 49152 else next })

/-- The type that `sock_create` makes of its argument. -/
def sockTypeOf (domain type : ℕ) : ℕ :=
  let type := if type = 5 then 1 else type
  if type = 3 ∧ domain = 16 then 2 else type

def sockCreate (n : Net) (domain type : ℕ) (protocol : ℤ) : Except SockErr ℕ × Net :=
  if domain ≠ 1 ∧ domain ≠ 2 ∧ domain ≠ 16 then (.error .einval, n)
  else
    let type := sockTypeOf domain type
    if type ≠ 1 ∧ type ≠ 2 then (.error .einval, n)
    else
      match firstSlot (fun i => !(n.socks i).used) sockMax with
      | none => (.error .enomem, n)
      | some i =>
        let protocol := if domain = 2 ∧ protocol = 0 then if type = 1 then 6 else 17 else protocol
        (.ok i, n.setSock i (.fresh domain type protocol))

theorem sockCreate_ok {n n' : Net} {domain type i : ℕ} {protocol : ℤ}
    (h : n.sockCreate domain type protocol = (.ok i, n')) :
    i < sockMax ∧ (n.socks i).used = false ∧ ∃ t p, (t = 1 ∨ t = 2) ∧ (type = 1 → t = 1) ∧
      n' = n.setSock i (.fresh domain t p) := by
  unfold sockCreate at h
  dsimp only at h
  split_ifs at h with h1 h2
  · cases (Prod.mk.inj h).1
  · cases (Prod.mk.inj h).1
  all_goals
    split at h
    · cases (Prod.mk.inj h).1
    · next j hj =>
      obtain ⟨hi, hn⟩ := Prod.mk.inj h
      obtain rfl := Except.ok.inj hi
      obtain ⟨hlt, hfree⟩ := firstSlot_eq_some hj
      refine ⟨hlt, by simpa using hfree, _, _, by omega, fun h1 => ?_, hn.symm⟩
      subst h1
      simp [sockTypeOf]

theorem sockCreate_error {n n' : Net} {domain type : ℕ} {protocol : ℤ} {e : SockErr}
    (h : n.sockCreate domain type protocol = (.error e, n')) : n' = n := by
  unfold sockCreate at h
  dsimp only at h
  split_ifs at h
  · exact (Prod.mk.inj h).2.symm
  · exact (Prod.mk.inj h).2.symm
  all_goals
    split at h
    · exact (Prod.mk.inj h).2.symm
    · cases (Prod.mk.inj h).1

def sockBindConflict (n : Net) (fd : ℕ) (addr : Ip) (port : Port) : Bool :=
  let me := n.socks fd
  port ≠ 0 ∧ (firstSlot (fun i =>
    let s := n.socks i
    i ≠ fd ∧ s.used ∧ s.domain = me.domain ∧ s.type = me.type ∧ s.localPort = port ∧
      sockIpMatch s.localIp addr) sockMax).isSome

def sockBind (n : Net) (fd : ℕ) (addr : Ip) (port : Port) : Except SockErr Unit × Net :=
  if !n.live fd then (.error .ebadf, n)
  else if n.sockBindConflict fd addr port then (.error .eaddrinuse, n)
  else (.ok (), n.setSock fd { n.socks fd with localIp := addr, localPort := port })

def sockListen (n : Net) (fd : ℕ) (backlog : ℤ) : Except SockErr Unit × Net :=
  if !n.live fd then (.error .ebadf, n)
  else if (n.socks fd).type ≠ 1 then (.error .einval, n)
  else
    let bl := if backlog < 1 then 1 else if backlog > sockAcceptq - 1 then sockAcceptq - 1
      else backlog.toNat
    let s := n.socks fd
    (.ok (), n.setSock fd
      { s with tcpState := .listen, backlog := bl, acceptQ := { s.acceptQ with head := 0, tail := 0 } })

/-- `sock_accept`: the socket and the address of the other end. -/
def sockAccept (n : Net) (fd : ℕ) : Except SockErr (ℕ × Ip × Port) × Net :=
  if !n.live fd then (.error .ebadf, n)
  else
    let s := n.socks fd
    if s.tcpState ≠ .listen then (.error .einval, n)
    else if s.acceptQ.head = s.acceptQ.tail then (.error .eagain, n)
    else
      let ns := s.acceptQ.slots s.acceptQ.tail
      (.ok (ns, (n.socks ns).remoteIp, (n.socks ns).remotePort),
        n.setSock fd { s with acceptQ := s.acceptQ.next })

/-! ### Closing -/

/-- What `sock_close` does first for a client of a virtual service. -/
def closeVirtual (n : Net) (fd : ℕ) : Net :=
  if (n.socks fd).virtService = .dbus then n.dbusvDropSocket fd else n

/-- The loop of `sock_close` over the connections that wait to be accepted. -/
def closePending (close : Net → ℕ → Net) : ℕ → Net → ℕ → Net
  | 0, n, _ => n
  | k + 1, n, fd =>
    let s := n.socks fd
    if s.acceptQ.head = s.acceptQ.tail then n
    else
      let q := s.acceptQ.slots s.acceptQ.tail
      let n := n.setSock fd { s with acceptQ := s.acceptQ.next }
      closePending close k (if n.live q then close n q else n) fd

/-- The client end of a bridge to X11 or Wayland. -/
def internalBridge (s : Sock) : Bool := s.virtService = .x11 ∨ s.virtService = .wl

/-- The peer of a socket that closes. -/
def orphan (s : Sock) : Sock :=
  { s with
    shutdownRx := true
    peer := none
    tcpState := if s.type = 1 then .closed else s.tcpState }

/-- What `sock_close` does to the peer. -/
def detachPeer (n : Net) (fd : ℕ) : Net :=
  match n.livePeer (n.socks fd) with
  | none => n
  | some p =>
    if (n.socks p).peer = some fd then
      n.setSock p (if internalBridge (n.socks fd) then .zeroed else orphan (n.socks p))
    else n

/-- `sock_close`, with at most `fuel` calls inside each other. -/
def sockCloseFuel : ℕ → Net → ℕ → Net
  | 0, n, _ => n
  | fuel + 1, n, fd =>
    if !n.live fd then n
    else
      let n := n.closeVirtual fd
      let n := closePending (sockCloseFuel fuel) sockAcceptq n fd
      (n.detachPeer fd).setSock fd .zeroed

/-- `sock_close`. Every call inside another takes a connection out of a queue, so that there are
never more of them than cells in all queues. -/
def sockClose (n : Net) (fd : ℕ) : Except SockErr Unit × Net :=
  if !n.live fd then (.error .ebadf, n)
  else (.ok (), sockCloseFuel (sockMax * sockAcceptq + 1) n fd)

/-- The last step of `sock_close`. -/
def shut (n : Net) (fd : ℕ) : Net := (n.detachPeer fd).setSock fd .zeroed

theorem busStep_closeVirtual (n : Net) (fd : ℕ) : BusStep n (n.closeVirtual fd) := by
  unfold closeVirtual
  split_ifs
  · exact busStep_dropSocket n fd
  · exact .refl n

section Rule

variable {P : Net → Prop}

theorem closePending_induct {close : Net → ℕ → Net} (hclose : ∀ n q, P n → P (close n q))
    (hpop : ∀ n fd, P n →
      P (n.setSock fd { n.socks fd with acceptQ := (n.socks fd).acceptQ.next }))
    (k : ℕ) (n : Net) (fd : ℕ) (h : P n) : P (closePending close k n fd) := by
  induction k generalizing n with
  | zero => exact h
  | succ k ih =>
    unfold closePending
    dsimp only
    split_ifs
    · exact h
    · exact ih _ (hclose _ _ (hpop n fd h))
    · exact ih _ (hpop n fd h)

/-- What the bus, a connection that is taken out of a queue and the end of a socket keep is kept by
`sock_close`. -/
theorem sockCloseFuel_induct (hbus : ∀ n n', BusStep n n' → P n → P n')
    (hpop : ∀ n fd, P n →
      P (n.setSock fd { n.socks fd with acceptQ := (n.socks fd).acceptQ.next }))
    (hshut : ∀ n fd, P n → P (n.shut fd)) (fuel : ℕ) (n : Net) (fd : ℕ) (h : P n) :
    P (sockCloseFuel fuel n fd) := by
  induction fuel generalizing n fd with
  | zero => exact h
  | succ fuel ih =>
    unfold sockCloseFuel
    split_ifs
    · exact h
    · exact hshut _ fd (closePending_induct (fun n q hn => ih n q hn) hpop _ _ fd
        (hbus n _ (busStep_closeVirtual n fd) h))

end Rule

/-! ### Connecting -/

def sockFindListener (n : Net) (domain : ℕ) (addr : Ip) (port : Port) : Option ℕ :=
  firstSlot (fun i =>
    let s := n.socks i
    s.used ∧ s.domain = domain ∧ s.type = 1 ∧ s.tcpState = .listen ∧ s.localPort = port ∧
      sockIpMatch s.localIp addr) sockMax

def sockAcceptqPush (n : Net) (l ns : ℕ) : Except SockErr Unit × Net :=
  let s := n.socks l
  if 0 < s.backlog ∧ s.acceptQ.len ≥ s.backlog then (.error .eagain, n)
  else if Circular.succ sockAcceptq s.acceptQ.head = s.acceptQ.tail then (.error .eagain, n)
  else (.ok (), n.setSock l { s with acceptQ := s.acceptQ.put ns })

theorem sockAcceptqPush_cases (n : Net) (l ns : ℕ) :
    (∃ e, n.sockAcceptqPush l ns = (.error e, n)) ∨
      n.sockAcceptqPush l ns = (.ok (), n.setSock l
        { n.socks l with acceptQ := (n.socks l).acceptQ.put ns }) ∧
        Circular.succ sockAcceptq (n.socks l).acceptQ.head ≠ (n.socks l).acceptQ.tail := by
  unfold sockAcceptqPush
  dsimp only
  split_ifs with h1 h2
  · exact .inl ⟨_, rfl⟩
  · exact .inl ⟨_, rfl⟩
  · exact .inr ⟨rfl, h2⟩

/-- A port for a socket that has none. -/
def connectPort (n : Net) (c : Sock) : Port × Net :=
  if c.localPort = 0 then n.allocEph else (c.localPort, n)

/-- The address for a socket that has none. -/
def connectIp (n : Net) (c : Sock) (addr : Ip) : Ip :=
  if c.localIp ≠ 0 then c.localIp
  else if sockIsLoopbackIp addr then 0x7F000001#32
  else if (n.leaseIp.getD 0) ≠ 0 then n.leaseIp.getD 0
  else 0x0A00020F#32

/-- What `sock_connect` notes in the socket before it looks for the other end. -/
def connectPrepare (n : Net) (fd : ℕ) (addr : Ip) (port : Port) : Net :=
  let c := n.socks fd
  let r := n.connectPort c
  r.2.setSock fd { c with
    remoteIp := addr
    remotePort := port
    virtService := sockVirtualClassify addr port
    virtState := 0
    virtFlags := {}
    localPort := r.1
    localIp := n.connectIp c addr }

/-- An event of the network. -/
def netEvent (n : Net) : NetEvent → Net
  | .segment i state error payload =>
    if n.live i then
      let s := n.socks i
      let s := { s with tcpState := state.getD s.tcpState, error := error.or s.error }
      n.setSock i (s.pushRx payload).2
    else n
  | .dgram i payload ip port =>
    if n.live i then
      let r := (n.socks i).pushRx payload
      if r.1 = payload.length ∧ !r.2.rxMsgFull then
        n.setSock i { r.2 with rxMsg := r.2.rxMsg.put ⟨payload.length, ip, port⟩ }
      else n.setSock i r.2
    else n

/-- The network outside, from `tcp7_connect` on; no events when it has no block left. -/
def connectExternal (n : Net) (fd : ℕ) (events : Option (List NetEvent)) :
    Except SockErr Unit × Net :=
  match events with
  | none =>
    (.error .enomem,
      n.setSock fd { n.socks fd with tcpState := .closed, error := some .econnrefused })
  | some es =>
    let n := es.foldl netEvent (n.setSock fd { n.socks fd with tcpState := .synSent })
    let c := n.socks fd
    if c.tcpState ≠ .established then
      if c.nonBlocking then (.error .einprogress, n)
      else (.error .etimedout, n.setSock fd { c with error := some .etimedout })
    else (.ok (), n.setSock fd { c with error := none })

/-- The end of a connection that the other side made. -/
def serverEnd (s : Sock) (localIp : Ip) (localPort : Port) (c : Sock) (fd : ℕ) : Sock :=
  { s with
    localIp := localIp
    localPort := localPort
    remoteIp := if c.localIp ≠ 0 then c.localIp else 0x7F000001#32
    remotePort := c.localPort
    tcpState := .established
    virtService := .none
    virtState := 0
    virtFlags := {}
    peer := some fd }

/-- No listener was found. -/
def connectVirtual (n : Net) (fd : ℕ) (addr : Ip) (port : Port) : Except SockErr Unit × Net :=
  let c := n.socks fd
  let refused := n.setSock fd { c with tcpState := .closed, error := some .econnrefused }
  let done := n.setSock fd { c with tcpState := .established, error := none }
  if c.virtService = .dbus then (.ok (), done.setBus n.bus.seedDefaults)
  else if c.virtService = .x11 ∨ c.virtService = .wl then
    match n.sockCreate c.domain 1 c.protocol with
    | (.error _, _) => (.error .econnrefused, refused)
    | (.ok ns, n) =>
      let n := n.setSock ns (serverEnd (n.socks ns) addr port c fd)
      (.ok (), n.setSock fd
        { n.socks fd with peer := some ns, tcpState := .established, error := none })
  else if c.domain = 1 then (.error .econnrefused, refused)
  else (.ok (), done)

/-- A socket that connects to a real listener is no client of a virtual service. -/
def plain (c : Sock) : Sock :=
  if c.virtService ≠ .none then
    { c with virtService := .none, virtState := 0, virtFlags := {} } else c

@[simp] theorem plain_virtService (c : Sock) : (plain c).virtService = .none := by
  unfold plain
  split_ifs with h
  · rfl
  · exact not_not.1 h

/-- Link the socket `fd` to the new socket `ns`, which becomes `s`. -/
def linkEnds (n : Net) (fd ns : ℕ) (s : Sock) : Net :=
  let n := n.setSock ns s
  n.setSock fd { n.socks fd with peer := some ns, tcpState := .established }

variable {fd : ℕ}

theorem linkEnds_self (n : Net) {ns : ℕ} (h : ns ≠ fd) (s : Sock) :
    (n.linkEnds fd ns s).socks fd =
      { n.socks fd with peer := some ns, tcpState := .established } := by
  unfold linkEnds
  dsimp only
  rw [setSock_self, setSock_of_ne _ h.symm]

theorem linkEnds_new (n : Net) {ns : ℕ} (h : ns ≠ fd) (s : Sock) :
    (n.linkEnds fd ns s).socks ns = s := by
  unfold linkEnds
  dsimp only
  rw [setSock_of_ne _ h, setSock_self]

theorem linkEnds_of_ne (n : Net) {ns j : ℕ} (h : j ≠ fd) (h' : j ≠ ns) (s : Sock) :
    (n.linkEnds fd ns s).socks j = n.socks j := by
  unfold linkEnds
  dsimp only
  rw [setSock_of_ne _ h, setSock_of_ne _ h']

/-- A listener was found. -/
def connectListener (n : Net) (fd l : ℕ) (addr : Ip) : Except SockErr Unit × Net :=
  let c := plain (n.socks fd)
  let n := n.setSock fd c
  match n.sockCreate c.domain 1 c.protocol with
  | (.error e, n) => (.error e, n)
  | (.ok ns, n) =>
    let lst := n.socks l
    let n := n.linkEnds fd ns (serverEnd (n.socks ns)
      (if lst.localIp ≠ 0 then lst.localIp else addr) lst.localPort c fd)
    match n.sockAcceptqPush l ns with
    | (.ok (), n) => (.ok (), n)
    | (.error e, n) =>
      let n := n.setSock fd { n.socks fd with peer := none, tcpState := .closed }
      (.error e, (n.sockClose ns).2)

def sockConnect (n : Net) (fd : ℕ) (addr : Ip) (port : Port) (events : Option (List NetEvent)) :
    Except SockErr Unit × Net :=
  if !n.live fd then (.error .ebadf, n)
  else if (n.socks fd).type = 1 ∧ (n.socks fd).tcpState = .established then (.error .eisconn, n)
  else
    let n := n.connectPrepare fd addr port
    if (n.socks fd).type = 2 then (.ok (), n)
    else if !sockIsLoopbackIp addr then n.connectExternal fd events
    else
      match n.sockFindListener (n.socks fd).domain addr port with
      | none => n.connectVirtual fd addr port
      | some l => n.connectListener fd l addr

theorem plain_eq (c : Sock) :
    plain c = { c with virtService := .none, virtState := (plain c).virtState,
                       virtFlags := (plain c).virtFlags } := by
  unfold plain
  split_ifs with h
  · rfl
  · rw [not_not] at h
    cases c
    simp_all

/-- What `sock_connect` does with a listener: it fails for want of a socket, or it links a new
socket and puts it into the queue of the listener, or it closes that socket again. -/
theorem connectListener_cases {n : Net} {l : ℕ} {addr : Ip} {r : Except SockErr Unit × Net}
    (hfd : (n.socks fd).used = true) (h : n.connectListener fd l addr = r) :
    (∃ e, r = (.error e, n.setSock fd (plain (n.socks fd)))) ∨
      ∃ ns s, ns < sockMax ∧ ns ≠ fd ∧ (n.socks ns).used = false ∧
        (∃ p ip port, s = serverEnd (.fresh (plain (n.socks fd)).domain 1 p) ip port
          (plain (n.socks fd)) fd) ∧
        let m := (n.setSock fd (plain (n.socks fd))).linkEnds fd ns s
        (r = (.ok (), m.setSock l { m.socks l with acceptQ := (m.socks l).acceptQ.put ns }) ∧
          Circular.succ sockAcceptq (m.socks l).acceptQ.head ≠ (m.socks l).acceptQ.tail) ∨
        ∃ e, r = (.error e, ((m.setSock fd
          { m.socks fd with peer := none, tcpState := .closed }).sockClose ns).2) := by
  unfold connectListener at h
  dsimp only at h
  split at h
  · next e m hm =>
    rw [sockCreate_error hm] at h
    exact .inl ⟨e, h.symm⟩
  · next ns m hm =>
    obtain ⟨hlt, hfree, t, p, -, ht, rfl⟩ := sockCreate_ok hm
    obtain rfl := ht rfl
    have hne : ns ≠ fd := by
      rintro rfl
      rw [setSock_self, plain_eq] at hfree
      rw [hfd] at hfree
      cases hfree
    rw [setSock_of_ne _ hne] at hfree
    have hl : ∀ s, ((n.setSock fd (plain (n.socks fd))).setSock ns
        (.fresh (plain (n.socks fd)).domain 1 p)).linkEnds fd ns s =
          (n.setSock fd (plain (n.socks fd))).linkEnds fd ns s := by
      intro s
      simp only [linkEnds, setSock_setSock]
    rw [hl, setSock_self] at h
    generalize hs : serverEnd _ _ _ _ fd = s at h
    refine .inr ⟨ns, s, hlt, hne, hfree, ⟨p, _, _, hs.symm⟩, ?_⟩
    rcases sockAcceptqPush_cases ((n.setSock fd (plain (n.socks fd))).linkEnds fd ns s) l ns with
      ⟨e, hp⟩ | ⟨hp, hroom⟩
    · rw [hp] at h
      exact .inr ⟨e, h.symm⟩
    · rw [hp] at h
      exact .inl ⟨h.symm, hroom⟩

/-! ### Pairs -/

/-- One end of a pair. -/
def pairEnd (s : Sock) (type peer : ℕ) (localPort remotePort : Port) : Sock :=
  { s with
    peer := some peer
    localIp := 0x7F000001#32
    remoteIp := 0x7F000001#32
    localPort := localPort
    remotePort := remotePort
    tcpState := if type = 1 then .established else s.tcpState }

def sockPairCreate (n : Net) (domain type : ℕ) (protocol : ℤ) : Except SockErr (ℕ × ℕ) × Net :=
  match n.sockCreate domain type protocol with
  | (.error e, n) => (.error e, n)
  | (.ok a, n) =>
    match n.sockCreate domain type protocol with
    | (.error e, n) => (.error e, (n.sockClose a).2)
    | (.ok b, n) =>
      let pa := n.allocEph
      let pb := pa.2.allocEph
      let n := pb.2
      let n := n.setSock a (pairEnd (n.socks a) type b pa.1 pb.1)
      (.ok (a, b), n.setSock b (pairEnd (n.socks b) type a pb.1 pa.1))

end Net

end Ridux
