import Ridux.Lib.Run
import Ridux.Net.Names

/-!
# Unix addresses

A path of `AF_UNIX` is a port of the loopback address: `c3_unix_path_to_loopback`.

* `unixPath`, `unixPort`: the path in an address, and its port;
* `UnixNet`: the sockets, `g_c3_unix_bound_paths`, and the path that each local port comes from;
* `UnixNet.exec`: the socket calls with their addresses;
* `UnixNet.Own`, `UnixNet.Aliases`: a path reaches only its own sockets, and two paths meet;
* `unixPath_alias_iff`: two paths meet exactly when they have the same port.
-/

namespace Ridux

open Lib Function

/-- `c3_has_token`. -/
def hasToken (s tok : Bytes) : Bool :=
  tok ≠ [] ∧ (List.range s.length).any fun i => tok.isPrefixOf (s.drop i)

/-- `c3_sockaddr_un_path`: the path in the bytes of `sun_path` that came. -/
def unixPath (sunPath : Bytes) : Bytes :=
  match sunPath.take 108 with
  | [] => ascii "@abstract"
  | 0 :: name => if cstr name = [] then ascii "@abstract" else 0x40 :: cstr name
  | path => cstr path

/-- The rest of a path behind the number of a user. -/
def behindDigits (s : Bytes) : Bytes := s.dropWhile fun c => 0x30 ≤ c ∧ c ≤ 0x39

/-- The hash of a path that has no port of its own. -/
def unixHash (path : Bytes) : BitVec 32 :=
  path.foldl (fun h c => (h ^^^ c.toBitVec.setWidth 32) * 16777619) 2166136261

/-- `c3_unix_path_to_loopback`: what a path looks like, and the port that it then has. -/
def knownPorts (p : Bytes) : List (Bool × Port) :=
  let has := fun s : String => hasToken p (ascii s)
  let starts := fun s : String => startsWith p (ascii s)
  let is := fun s : String => decide (p = ascii s)
  let hypr := has "/tmp/hypr/" || has "/run/user/1000/hypr/"
  let user := behindDigits (p.drop 10)
  let inUser := starts "/run/user/" && user.head? == some 0x2F
  let userStarts := fun s : String => inUser && startsWith (user.drop 1) (ascii s)
  let userIs := fun s : String => inUser && decide (user.drop 1 = ascii s)
  [(starts "wayland-proxy-" || has "/wayland-proxy-", 39099),
    (hypr && has "/.socket2.sock", 39031),
    (hypr && has "/.socket.sock", 39030),
    (starts "wayland-" || has "/wayland-", 39010),
    (is "system_bus_socket" || is "dbus-ridux-system" || is "ridux-no-system-dbus", 39021),
    (is "dbus-ridux-waybar", 39022),
    (is "bus" || is "dbus-ridux-session" || (starts "dbus-" && !has "system"), 39020),
    (starts "@" && has "X11-unix", 6000),
    (starts "@" && (starts "@wayland-proxy-" || has "/wayland-proxy-"), 39099),
    (starts "@" && (starts "@wayland-" || has "/wayland-"), 39010),
    (starts "@" && (has "system_bus_socket" || has "dbus-ridux-system"), 39021),
    (starts "@" && has "dbus-ridux-waybar", 39022),
    (starts "@" && (starts "@dbus-" || has "dbus-ridux-session"), 39020),
    (starts "/tmp/.X11-unix/", 6000),
    (userStarts "wayland-proxy-", 39099),
    (userStarts "wayland-", 39010),
    (userIs "bus" || userIs "dbus-ridux-session", 39020),
    (starts "/run/wayland/wayland-", 39010),
    (is "/run/dbus/system_bus_socket" || is "/var/run/dbus/system_bus_socket" ||
      is "/tmp/dbus-ridux-system" || is "/tmp/dbus-system_bus_socket" ||
      is "/tmp/ridux-no-system-dbus", 39021),
    (is "/tmp/dbus-ridux-waybar" || is "/run/dbus/dbus-ridux-waybar", 39022),
    (starts "/run/dbus/" || is "/tmp/dbus-ridux-session" || is "/tmp/dbus-session_bus_socket", 39020)]

/-- `c3_unix_path_to_loopback`. -/
def unixPort (path : Bytes) : Port :=
  match (knownPorts path).find? Prod.fst with
  | some rule => rule.2
  | none => BitVec.ofNat 16 (20000 + (unixHash path).toNat % 18000)

def loopback : Ip := 0x7F000001

/-- An address: `c3_sockaddr_in_t` or `c3_sockaddr_un_t`. -/
inductive SockAddr
  | inet (ip : Ip) (port : Port)
  | unix (sunPath : Bytes)

namespace SockAddr

/-- `c3_sockaddr_target`. -/
def target : SockAddr → Ip × Port
  | inet ip port => (ip, port)
  | unix sunPath => (loopback, unixPort (unixPath sunPath))

/-- The path of an address, when it has one. -/
def path : SockAddr → Option Bytes
  | inet _ _ => none
  | unix sunPath => some (unixPath sunPath)

end SockAddr

/-- The sockets, `g_c3_unix_bound_paths`, and the path that the local port of each socket is of. -/
structure UnixNet where
  net : Net
  boundPath : ℕ → Bytes
  path : ℕ → Option Bytes

namespace UnixNet

/-- `c3_unix_path_is_wayland_display`. -/
def isWaylandDisplay (p : Bytes) : Bool :=
  let user := behindDigits (p.drop 10)
  if p = [] then false
  else if startsWith p (ascii "wayland-") then true
  else if startsWith p (ascii "/run/wayland/wayland-") then true
  else if startsWith p (ascii "/run/user/") then
    user.head? == some 0x2F && startsWith (user.drop 1) (ascii "wayland-")
  else hasToken p (ascii "/wayland-")

/-- `c3_unix_bound_path_is_listener`. -/
def boundPathIsListener (s : UnixNet) (i : ℕ) : Bool :=
  let k := s.net.socks i
  k.used ∧ k.domain = 1 ∧ k.type = 1 ∧ k.tcpState = .listen ∧ s.boundPath i ≠ []

/-- `c3_unix_listener_on_port`. -/
def listenerOnPort (s : UnixNet) (port : Port) : Bool :=
  port ≠ 0 ∧ (List.range sockMax).any fun i =>
    let k := s.net.socks i
    k.used ∧ k.domain = 1 ∧ k.type = 1 ∧ k.localPort = port ∧ k.tcpState = .listen

/-- `c3_wayland_socket_path_visible`. -/
def waylandPathVisible (s : UnixNet) (p : Bytes) : Bool :=
  let port := unixPort p
  let tracked := (List.range sockMax).filter fun i => s.boundPathIsListener i ∧
    (hasToken (s.boundPath i) (ascii "/wayland-") ∨ hasToken (s.boundPath i) (ascii "/wayland-proxy-"))
  if p = [] then false
  else if port ≠ 39099 ∧ (port.toNat < 39010 ∨ 39019 < port.toNat) then false
  else if tracked = [] then s.listenerOnPort port
  else tracked.any fun i => s.boundPath i = p

/-- A socket that is new has the path `via`. -/
def freshPath (n n' : Net) (via : Option Bytes) (path : ℕ → Option Bytes) (i : ℕ) : Option Bytes :=
  if (n.name i).isNone ∧ (n'.name i).isSome then via else path i

/-- The sockets become those of `n`; one that is new has the path `via`. -/
def step (s : UnixNet) (n : Net) (via : Option Bytes) : UnixNet :=
  { s with net := n, path := freshPath s.net n via s.path }

/-- `sock_connect` to an address. -/
def connectTo (s : UnixNet) (fd : ℕ) (addr : SockAddr) (events : Option (List NetEvent)) :
    Except SockErr Unit × UnixNet :=
  let r := s.net.sockConnect fd addr.target.1 addr.target.2 events
  let found := (s.net.connectPrepare fd addr.target.1 addr.target.2).sockFindListener
    (s.net.socks fd).domain addr.target.1 addr.target.2
  (r.1, s.step r.2 (match found with
    | some l => s.path l
    | none => addr.path))

/-- `real_sys_bind`; a socket of the kernel's messages gets the number of the process. -/
def bind (s : UnixNet) (fd : ℕ) (addr : SockAddr) (pid : Port) : Except SockErr Unit × UnixNet :=
  if (s.net.socks fd).domain = 16 then
    (.ok (), { s with
      net := s.net.setSock fd { s.net.socks fd with localPort := pid }
      path := update s.path fd none })
  else
    let r := s.net.sockBind fd addr.target.1 addr.target.2
    let bound := r.1 = .ok ()
    (r.1, { s with
      net := r.2
      boundPath := match addr with
        | .inet _ _ => s.boundPath
        | .unix sunPath => update s.boundPath fd
            (if bound then strlcpy 108 (unixPath sunPath) else [])
      path := if bound then update s.path fd addr.path else s.path })

/-- A connection that is refused before it is tried. -/
def refuse (s : UnixNet) (fd : ℕ) : Except SockErr Unit × UnixNet :=
  (.error .econnrefused, { s with
    net := s.net.setSock fd { s.net.socks fd with tcpState := .closed, error := some .econnrefused } })

/-- `real_sys_connect`; `compositor` says that the caller is the one that may not connect to a display. -/
def connect (s : UnixNet) (fd : ℕ) (addr : SockAddr) (compositor : Bool)
    (events : Option (List NetEvent)) : Except SockErr Unit × UnixNet :=
  let port := addr.target.2.toNat
  if (s.net.socks fd).domain = 16 then
    (.ok (), { s with net := s.net.setSock fd { s.net.socks fd with remotePort := 0 } })
  else
    match addr.path with
    | none => s.connectTo fd addr events
    | some p =>
      if 39010 ≤ port ∧ port ≤ 39019 ∧ compositor then s.refuse fd
      else if isWaylandDisplay p ∧ !s.waylandPathVisible p then s.refuse fd
      else s.connectTo fd addr events

/-- `real_sys_sendto`; the bytes of a stream are among the other steps. -/
def sendto (s : UnixNet) (fd : ℕ) (addr : Option SockAddr) (src : Bytes)
    (events : Option (List NetEvent)) : UnixNet :=
  if (s.net.socks fd).domain = 16 then s
  else
    let s := match addr with
      | none => s
      | some addr => (s.connectTo fd addr events).2
    if s.net.live fd ∧ (s.net.socks fd).type = 2 then s.step (s.net.sendDgram .idle fd src).2 none
    else s

/-- What happens; `other` is whatever gives no socket a name. -/
inductive Op
  | create (domain type : ℕ) (protocol : ℤ)
  | pair (domain type : ℕ) (protocol : ℤ)
  | bind (fd : ℕ) (addr : SockAddr) (pid : Port)
  | listen (fd : ℕ) (backlog : ℤ)
  | connect (fd : ℕ) (addr : SockAddr) (compositor : Bool) (events : Option (List NetEvent))
  | sendto (fd : ℕ) (addr : Option SockAddr) (src : Bytes) (events : Option (List NetEvent))
  | accept (fd : ℕ)
  | close (fd : ℕ)
  | other (f : Net → Net)

/-- One step. -/
def exec (s : UnixNet) : Op → UnixNet
  | .create domain type protocol => s.step (s.net.sockCreate domain type protocol).2 none
  | .pair domain type protocol => s.step (s.net.sockPairCreate domain type protocol).2 none
  | .bind fd addr pid => (s.bind fd addr pid).2
  | .listen fd backlog => s.step (s.net.sockListen fd backlog).2 none
  | .connect fd addr compositor events => (s.connect fd addr compositor events).2
  | .sendto fd addr src events => s.sendto fd addr src events
  | .accept fd => s.step (s.net.sockAccept fd).2 none
  | .close fd =>
    { s.step (s.net.sockClose fd).2 none with boundPath := update s.boundPath fd [] }
  | .other f => s.step (f s.net) none

/-- The other steps give no socket a name. -/
def Legal (s : UnixNet) (op : Op) : Prop := ∀ f, op = .other f → s.net.Fewer (f s.net)

/-- No socket at all. -/
def boot : UnixNet := ⟨.boot, fun _ => [], fun _ => none⟩

/-- Any run. -/
def Run (s : UnixNet) : Prop := Runs Legal exec boot s

/-! ### What is promised -/

/-- The socket that a connection or a datagram from `fd` to the path gets to. -/
def reached (s : UnixNet) (fd : ℕ) (p : Bytes) : Option ℕ :=
  let n := s.net.connectPrepare fd loopback (unixPort p)
  let me := s.net.socks fd
  if me.type = 1 then n.sockFindListener me.domain loopback (unixPort p)
  else n.sockFindUdpBound me.domain fd loopback (unixPort p)

/-- The socket `i` is in the way when `fd` is bound to the path. -/
def blocks (s : UnixNet) (fd : ℕ) (p : Bytes) (i : ℕ) : Prop :=
  let k := s.net.socks i
  let me := s.net.socks fd
  i < sockMax ∧ i ≠ fd ∧ k.used = true ∧ k.domain = me.domain ∧ k.type = me.type ∧
    k.localPort = unixPort p ∧ sockIpMatch k.localIp loopback = true

/-- The path meets only its own sockets. -/
def Own (s : UnixNet) (p : Bytes) : Prop :=
  ∀ fd, (s.net.socks fd).domain = 1 →
    (∀ l, s.reached fd p = some l → s.path l = some p) ∧ ∀ i, s.blocks fd p i → s.path i = some p

/-- The path meets a socket of another path. -/
def Aliases (s : UnixNet) (p q : Bytes) : Prop :=
  p ≠ q ∧ ∃ fd, (s.net.socks fd).domain = 1 ∧
    ((∃ l, s.reached fd p = some l ∧ s.path l = some q) ∨ ∃ i, s.blocks fd p i ∧ s.path i = some q)

/-- A step that gives no unix socket the port of the path, but through the path. -/
def Apart (p : Bytes) (s : UnixNet) (op : Op) : Prop :=
  s.Legal op ∧ match op with
    | .bind fd addr _ | .connect fd addr _ _ | .sendto fd (some addr) _ _ =>
      (s.net.socks fd).domain = 1 → addr.target.2 = unixPort p → addr.path = some p
    | _ => True

/-- A run of such steps. -/
def ApartRun (p : Bytes) (s : UnixNet) : Prop := Runs (Apart p) exec boot s

/-! ### Ports of paths -/

theorem unixPort_range (p : Bytes) : 0 < (unixPort p).toNat ∧ (unixPort p).toNat < 49152 := by
  unfold unixPort
  cases hknown : (knownPorts p).find? Prod.fst with
  | none =>
    dsimp only
    rw [BitVec.toNat_ofNat]
    omega
  | some rule =>
    have hports : ((knownPorts p).map Prod.snd) = [39099, 39031, 39030, 39010, 39021, 39022, 39020, 6000,
        39099, 39010, 39021, 39022, 39020, 6000, 39099, 39010, 39020, 39010, 39021, 39022, 39020] := rfl
    have hmem := List.mem_map_of_mem (f := Prod.snd) (List.mem_of_find?_eq_some hknown)
    rw [hports] at hmem
    have hrange : ∀ port ∈ ([39099, 39031, 39030, 39010, 39021, 39022, 39020, 6000, 39099, 39010, 39021,
        39022, 39020, 6000, 39099, 39010, 39020, 39010, 39021, 39022, 39020] : List Port),
        0 < port.toNat ∧ port.toNat < 49152 := by
      simp
    exact hrange _ hmem

theorem unixPort_ne_zero (p : Bytes) : unixPort p ≠ 0 := by
  intro h
  have hpos := (unixPort_range p).1
  rw [h] at hpos
  exact absurd hpos (by decide)

/-! ### The invariant -/

/-- The local port of a socket with a path is that of the path. -/
structure Inv (s : UnixNet) : Prop where
  eph : s.net.EphOk
  port : ∀ i x q, s.net.name i = some x → s.path i = some q → x.2 = unixPort q

/-- And the port of the path `p` is only with sockets of the path. -/
def Owned (p : Bytes) (s : UnixNet) : Prop :=
  ∀ i, s.net.name i = some (1, unixPort p) → s.path i = some p

variable {s : UnixNet} {n n' : Net} {fd i : ℕ} {P : ℕ × Port → Prop} {via : Option Bytes} {p : Bytes}
  {x : ℕ × Port}

theorem boot_inv : Inv boot := by
  refine ⟨?_, fun i x q hx => ?_⟩
  · show 49152 ≤ (49152 : Port).toNat ∧ (49152 : Port).toNat ≤ 65500
    decide
  · cases hx

theorem boot_owned : Owned p boot := by
  intro i hi
  cases hi

theorem freshPath_new {path : ℕ → Option Bytes} (hnone : n.name i = none) (hx : n'.name i = some x) :
    freshPath n n' via path i = via := by
  unfold freshPath
  rw [hnone, hx]
  rfl

theorem freshPath_old {path : ℕ → Option Bytes} (hx : n.name i = some x) :
    freshPath n n' via path i = path i := by
  unfold freshPath
  rw [hx]
  rfl

theorem Inv.step (h : s.Inv) (hn : s.net.Named n fd P)
    (hvia : ∀ x q, P x → via = some q → x.2 = unixPort q) : (s.step n via).Inv := by
  refine ⟨hn.eph h.eph, fun i x q hx hq => ?_⟩
  change n.name i = some x at hx
  change freshPath s.net n via s.path i = some q at hq
  rcases hn.name i x hx with hold | ⟨rfl, hold, -⟩ | ⟨hnone, hnew⟩
  · rw [freshPath_old hold] at hq
    exact h.port i x q hold hq
  · rw [freshPath_old hold] at hq
    exact absurd (h.port i _ q hold hq).symm (unixPort_ne_zero q)
  · rw [freshPath_new hnone hx] at hq
    exact hvia x q hnew hq

theorem Owned.step (h : Owned p s) (hinv : s.Inv) (hn : s.net.Named n fd P)
    (hvia : P (1, unixPort p) → via = some p) : Owned p (s.step n via) := by
  intro i hx
  change n.name i = some _ at hx
  show freshPath s.net n via s.path i = some p
  rcases hn.name i _ hx with hold | ⟨-, -, heph⟩ | ⟨hnone, hnew⟩
  · rw [freshPath_old hold]
    exact h i hold
  · have hlt := (unixPort_range p).2
    have hge := hinv.eph.1
    change unixPort p = _ at heph
    rw [← heph] at hge
    omega
  · rw [freshPath_new hnone hx]
    exact hvia hnew

/-- Both parts of the invariant; the second one for a path. -/
def Keeps (p : Option Bytes) (s : UnixNet) : Prop := s.Inv ∧ ∀ q, p = some q → Owned q s

variable {k : Option Bytes} {addr : SockAddr} {t : UnixNet} {q : Bytes} {c : Sock}

theorem Keeps.step (h : Keeps k s) (hn : s.net.Named n fd P)
    (hvia : ∀ x q, P x → via = some q → x.2 = unixPort q)
    (hown : ∀ q, k = some q → P (1, unixPort q) → via = some q) : Keeps k (s.step n via) :=
  ⟨h.1.step hn hvia, fun q hq => (h.2 q hq).step h.1 hn (hown q hq)⟩

theorem Keeps.fewer (h : Keeps k s) (hf : s.net.Fewer n) : Keeps k (s.step n none) := by
  have hn : s.net.Named n 0 fun _ => False := hf.makes.named
  exact h.step hn (fun _ _ hno => hno.elim) fun _ _ hno => hno.elim

/-- What the steps of a run through `k` are apart from. -/
def ApartOf (k : Option Bytes) (s : UnixNet) (fd : ℕ) (addr : SockAddr) : Prop :=
  ∀ q, k = some q → (s.net.socks fd).domain = 1 → addr.target.2 = unixPort q → addr.path = some q

theorem path_port (h : addr.path = some q) : addr.target.2 = unixPort q := by
  cases addr with
  | inet ip port => cases h
  | unix sunPath =>
    obtain rfl := Option.some.inj h
    rfl

theorem Keeps.connectTo (h : Keeps k s) (events : Option (List NetEvent)) (hk : ApartOf k s fd addr) :
    Keeps k (s.connectTo fd addr events).2 := by
  have hn := s.net.sockConnect_named fd addr.target.1 addr.target.2 events
  obtain ⟨hother, hself, -⟩ := s.net.connectPrepare_name fd addr.target.1 addr.target.2
  -- a listener that is found has the name that the new socket gets
  have hfound : ∀ l, (s.net.connectPrepare fd addr.target.1 addr.target.2).sockFindListener
      (s.net.socks fd).domain addr.target.1 addr.target.2 = some l →
      s.net.name l = some ((s.net.socks fd).domain, addr.target.2) ∨
        s.net.name l = some ((s.net.socks fd).domain, 0) ∧ addr.target.2 = s.net.ephemeralPort := by
    intro l hl
    obtain ⟨-, hl⟩ := firstSlot_eq_some hl
    obtain ⟨hu, hd, -, -, hp, -⟩ := of_decide_eq_true hl
    have hname : (s.net.connectPrepare fd addr.target.1 addr.target.2).name l =
        some ((s.net.socks fd).domain, addr.target.2) := by
      unfold Net.name
      rw [Sock.name_used hu, hd, hp]
    by_cases hlf : l = fd
    · subst hlf
      exact hself _ hname
    · rw [hother l hlf] at hname
      exact .inl hname
  refine h.step hn (fun x q hx hq => ?_) fun q hq hx => ?_
  · subst hx
    split at hq
    · next l hl =>
      rcases hfound l hl with hname | ⟨hname, -⟩
      · exact h.1.port l _ q hname hq
      · exact absurd (h.1.port l _ q hname hq).symm (unixPort_ne_zero q)
    · exact path_port hq
  · obtain ⟨hdom, hport⟩ := Prod.mk.inj hx
    split
    · next l hl =>
      rcases hfound l hl with hname | ⟨-, heph⟩
      · rw [← hdom, ← hport] at hname
        exact h.2 q hq l hname
      · have hlt := (unixPort_range q).2
        have hge := h.1.eph.1
        rw [← heph, ← hport] at hge
        omega
    · exact hk q hq hdom.symm hport.symm

theorem Keeps.of_eq (h : Keeps k s) (hnet : t.net = s.net) (hpath : t.path = s.path) :
    Keeps k t := by
  refine ⟨⟨?_, ?_⟩, fun q hq => ?_⟩
  · rw [hnet]
    exact h.1.eph
  · rw [hnet, hpath]
    exact h.1.port
  · unfold Owned
    rw [hnet, hpath]
    exact h.2 q hq

theorem Keeps.rename (h : Keeps k s) (hnet : t.net = s.net.setSock fd c)
    (hpath : t.path = update s.path fd via)
    (hvia : ∀ x q, c.name = some x → via = some q → x.2 = unixPort q)
    (hown : ∀ q, k = some q → c.name = some (1, unixPort q) → via = some q) : Keeps k t := by
  refine ⟨⟨?_, fun i x q hx hq => ?_⟩, fun p hp i hx => ?_⟩
  · rw [hnet]
    exact h.1.eph
  · rw [hnet] at hx
    rw [hpath] at hq
    by_cases hi : i = fd
    · subst hi
      rw [Net.name_setSock_self] at hx
      rw [update_self] at hq
      exact hvia x q hx hq
    · rw [Net.name_setSock_of_ne _ hi] at hx
      rw [update_of_ne hi] at hq
      exact h.1.port i x q hx hq
  · rw [hnet] at hx
    rw [hpath]
    by_cases hi : i = fd
    · subst hi
      rw [Net.name_setSock_self] at hx
      rw [update_self]
      exact hown p hp hx
    · rw [Net.name_setSock_of_ne _ hi] at hx
      rw [update_of_ne hi]
      exact h.2 p hp i hx

theorem Keeps.bind (h : Keeps k s) (pid : Port) (hk : ApartOf k s fd addr) :
    Keeps k (s.bind fd addr pid).2 := by
  unfold UnixNet.bind
  by_cases hdom : (s.net.socks fd).domain = 16
  · rw [if_pos hdom]
    refine h.rename rfl rfl (fun _ _ _ hno => ?_) fun q _ hx => ?_
    · cases hno
    · obtain ⟨-, hx⟩ := Sock.name_eq_some hx
      have hone : 1 = (s.net.socks fd).domain := (Prod.mk.inj hx).1
      omega
  · rw [if_neg hdom]
    have hset : ∀ t : UnixNet, t.net = s.net.setSock fd { s.net.socks fd with
        localIp := addr.target.1, localPort := addr.target.2 } →
        t.path = update s.path fd addr.path → Keeps k t := by
      intro t hnet hpath
      refine h.rename hnet hpath (fun x q hx hq => ?_) fun q hq hx => ?_
      · obtain ⟨-, rfl⟩ := Sock.name_eq_some hx
        exact path_port hq
      · obtain ⟨-, hx⟩ := Sock.name_eq_some hx
        obtain ⟨hone, hport⟩ := Prod.mk.inj hx
        exact hk q hq hone.symm hport.symm
    dsimp only
    unfold Net.sockBind
    by_cases hlive : (!s.net.live fd) = true
    · rw [if_pos hlive]
      refine h.of_eq rfl ?_
      dsimp only
      exact if_neg fun hok => by cases hok
    rw [if_neg hlive]
    by_cases hbusy : s.net.sockBindConflict fd addr.target.1 addr.target.2 = true
    · rw [if_pos hbusy]
      refine h.of_eq rfl ?_
      dsimp only
      exact if_neg fun hok => by cases hok
    rw [if_neg hbusy]
    refine hset _ rfl ?_
    dsimp only
    exact if_pos rfl

theorem Keeps.same (h : Keeps k s) (hnet : t.net = s.net.setSock fd c) (hpath : t.path = s.path)
    (hc : c.name = s.net.name fd) : Keeps k t := by
  have hupd : t.path = update s.path fd (s.path fd) := by
    rw [hpath, update_eq_self]
  refine h.rename hnet hupd (fun x q hx hq => ?_) fun q hq hx => ?_
  · rw [hc] at hx
    exact h.1.port fd x q hx hq
  · rw [hc] at hx
    exact h.2 q hq fd hx

theorem Keeps.connect (h : Keeps k s) (compositor : Bool) (events : Option (List NetEvent))
    (hk : ApartOf k s fd addr) : Keeps k (s.connect fd addr compositor events).2 := by
  have hrefuse : Keeps k (s.refuse fd).2 := h.same rfl rfl rfl
  unfold UnixNet.connect
  dsimp only
  by_cases hdom : (s.net.socks fd).domain = 16
  · rw [if_pos hdom]
    exact h.same rfl rfl rfl
  rw [if_neg hdom]
  split
  · exact h.connectTo events hk
  · split_ifs
    · exact hrefuse
    · exact hrefuse
    · exact h.connectTo events hk

theorem Keeps.sendto (h : Keeps k s) (addr : Option SockAddr) (src : Bytes)
    (events : Option (List NetEvent)) (hk : ∀ a, addr = some a → ApartOf k s fd a) :
    Keeps k (s.sendto fd addr src events) := by
  have hsend : ∀ t : UnixNet, Keeps k t → Keeps k
      (if t.net.live fd ∧ (t.net.socks fd).type = 2 then t.step (t.net.sendDgram .idle fd src).2 none
        else t) := by
    intro t ht
    split_ifs
    · have hn := t.net.sendDgram_named (P := fun _ => False) fd src
      exact ht.step hn (fun _ _ hno => hno.elim) fun _ _ hno => hno.elim
    · exact ht
  unfold UnixNet.sendto
  by_cases hdom : (s.net.socks fd).domain = 16
  · rw [if_pos hdom]
    exact h
  rw [if_neg hdom]
  cases addr with
  | none => exact hsend s h
  | some a => exact hsend _ (h.connectTo events (hk a rfl))

theorem sockListen_fewer (n : Net) (fd : ℕ) (backlog : ℤ) : n.Fewer (n.sockListen fd backlog).2 := by
  unfold Net.sockListen
  by_cases hlive : (!n.live fd) = true
  · rw [if_pos hlive]
    exact .refl n
  rw [if_neg hlive]
  by_cases htype : (n.socks fd).type ≠ 1
  · rw [if_pos htype]
    exact .refl n
  rw [if_neg htype]
  exact Net.fewer_setSock_same rfl

theorem sockAccept_fewer (n : Net) (fd : ℕ) : n.Fewer (n.sockAccept fd).2 := by
  unfold Net.sockAccept
  dsimp only
  split_ifs
  · exact .refl n
  · exact .refl n
  · exact .refl n
  · exact Net.fewer_setSock_same rfl

theorem Keeps.unbound (h : Keeps k s) (hn : s.net.Named n fd s.net.Unbound) :
    Keeps k (s.step n none) := by
  refine h.step hn (fun _ _ _ hno => ?_) fun q _ hq => ?_
  · cases hno
  · have hrange := unixPort_range q
    rcases hq h.1.eph with hzero | hge
    · exact absurd hzero (unixPort_ne_zero q)
    · change 49152 ≤ (unixPort q).toNat at hge
      omega

/-- **One step.** -/
theorem Keeps.exec (h : Keeps k s) {op : Op} (hop : s.Legal op)
    (hk : ∀ q, k = some q → Apart q s op) : Keeps k (s.exec op) := by
  cases op with
  | create domain type protocol =>
    have hmakes := s.net.sockCreate_makes domain type protocol
    have hn : s.net.Named (s.net.sockCreate domain type protocol).2 0 s.net.Unbound :=
      (hmakes.mono fun _ hx _ => .inl hx).named
    exact h.unbound hn
  | pair domain type protocol => exact h.unbound (s.net.sockPairCreate_named 0 domain type protocol)
  | bind fd addr pid => exact h.bind pid fun q hq => (hk q hq).2
  | listen fd backlog => exact h.fewer (sockListen_fewer s.net fd backlog)
  | connect fd addr compositor events => exact h.connect compositor events fun q hq => (hk q hq).2
  | sendto fd addr src events =>
    refine h.sendto addr src events fun a ha q hq => ?_
    subst ha
    exact (hk q hq).2
  | accept fd => exact h.fewer (sockAccept_fewer s.net fd)
  | close fd => exact (h.fewer (s.net.sockClose_fewer fd)).of_eq rfl rfl
  | other f => exact h.fewer (hop f rfl)

/-- **Whole runs keep the ports of the paths.** -/
theorem run_inv (hs : s.Run) : s.Inv := by
  have hkeep : ∀ (t : UnixNet) op, Keeps none t → t.Legal op → Keeps none (t.exec op) :=
    fun t op h hop => h.exec hop nofun
  exact (Runs.invariant hkeep hs ⟨boot_inv, nofun⟩).1

/-- **And runs that are apart keep the port of the path.** -/
theorem apartRun_owned (hs : s.ApartRun p) : s.Inv ∧ Owned p s := by
  have hkeep : ∀ (t : UnixNet) op, Keeps (some p) t → Apart p t op → Keeps (some p) (t.exec op) := by
    intro t op h hop
    refine h.exec hop.1 fun q hq => ?_
    obtain rfl := Option.some.inj hq
    exact hop
  have h := Runs.invariant hkeep hs ⟨boot_inv, fun q _ => boot_owned⟩
  exact ⟨h.1, h.2 p rfl⟩

/-! ### What is met -/

theorem reached_name (h : s.Inv) {l : ℕ} (hdom : (s.net.socks fd).domain = 1)
    (hl : s.reached fd p = some l) : s.net.name l = some (1, unixPort p) := by
  obtain ⟨hother, hself, -⟩ := s.net.connectPrepare_name fd loopback (unixPort p)
  have hname : (s.net.connectPrepare fd loopback (unixPort p)).name l = some (1, unixPort p) := by
    unfold reached at hl
    dsimp only at hl
    unfold Net.name
    rw [hdom] at hl
    split_ifs at hl
    · obtain ⟨-, hl⟩ := firstSlot_eq_some hl
      obtain ⟨hu, hd, -, -, hp, -⟩ := of_decide_eq_true hl
      rw [Sock.name_used hu, hd, hp]
    · obtain ⟨-, hl⟩ := firstSlot_eq_some hl
      obtain ⟨-, hu, hd, -, hp, -⟩ := of_decide_eq_true hl
      rw [Sock.name_used hu, hd, hp]
  by_cases hlf : l = fd
  · subst hlf
    rcases hself _ hname with hold | ⟨-, heph⟩
    · exact hold
    · have hlt := (unixPort_range p).2
      have hge := h.eph.1
      change unixPort p = _ at heph
      rw [← heph] at hge
      omega
  · rwa [hother l hlf] at hname

theorem blocks_name (hdom : (s.net.socks fd).domain = 1) (hi : s.blocks fd p i) :
    s.net.name i = some (1, unixPort p) := by
  obtain ⟨-, -, hu, hd, -, hp, -⟩ := hi
  unfold Net.name
  rw [Sock.name_used hu, hd, hdom, hp]

theorem Owned.own (h : s.Inv) (hp : Owned p s) : s.Own p := by
  intro fd hdom
  exact ⟨fun l hl => hp l (reached_name h hdom hl), fun i hi => hp i (blocks_name hdom hi)⟩

theorem Inv.same_port (h : s.Inv) (hpq : s.Aliases p q) : unixPort p = unixPort q := by
  obtain ⟨-, fd, hdom, ⟨l, hl, hq⟩ | ⟨i, hi, hq⟩⟩ := hpq
  · exact h.port l _ q (reached_name h hdom hl) hq
  · exact h.port i _ q (blocks_name hdom hi) hq

/-! ### Two paths with one port -/

/-- Two sockets; the first one listens at the path of `sunPath`. -/
def listening (sunPath : Bytes) : UnixNet :=
  let two := (boot.exec (.create 1 1 0)).exec (.create 1 1 0)
  (two.exec (.bind 0 (.unix sunPath) 0)).exec (.listen 0 1)

theorem listening_run (sunPath : Bytes) : Run (listening sunPath) := by
  have hlegal : ∀ (t : UnixNet) (op : Op), (∀ f, op ≠ .other f) → t.Legal op :=
    fun t op hop f hf => absurd hf (hop f)
  have hrun : Run boot := Runs.refl boot
  have hrun := hrun.tail (.create 1 1 0) (hlegal _ _ nofun)
  have hrun := hrun.tail (.create 1 1 0) (hlegal _ _ nofun)
  have hrun := hrun.tail (.bind 0 (.unix sunPath) 0) (hlegal _ _ nofun)
  exact hrun.tail (.listen 0 1) (hlegal _ _ nofun)

theorem two_net : ((boot.exec (.create 1 1 0)).exec (.create 1 1 0)).net =
    (Net.boot.setSock 0 (.fresh 1 1 0)).setSock 1 (.fresh 1 1 0) := by
  have h0 : (boot.exec (.create 1 1 0)).net = Net.boot.setSock 0 (.fresh 1 1 0) := rfl
  show ((boot.exec (.create 1 1 0)).net.sockCreate 1 1 0).2 = _
  rw [h0]
  rfl

theorem two_bind (sunPath : Bytes) :
    ((boot.exec (.create 1 1 0)).exec (.create 1 1 0)).net.sockBind 0 loopback (unixPort (unixPath sunPath)) =
      (.ok (), ((Net.boot.setSock 0 (.fresh 1 1 0)).setSock 1 (.fresh 1 1 0)).setSock 0
        { Sock.fresh 1 1 0 with localIp := loopback, localPort := unixPort (unixPath sunPath) }) := by
  rw [two_net]
  unfold Net.sockBind
  rw [if_neg (by decide), if_neg]
  · rfl
  · -- the other socket has no port, and there is no third one
    intro hbusy
    obtain ⟨-, hbusy⟩ := of_decide_eq_true hbusy
    obtain ⟨i, hi⟩ := Option.isSome_iff_exists.1 hbusy
    obtain ⟨hne, hu, -, -, hp, -⟩ := of_decide_eq_true (firstSlot_eq_some hi).2
    by_cases hi1 : i = 1
    · subst hi1
      exact unixPort_ne_zero _ hp.symm
    · rw [Net.setSock_of_ne _ hi1, Net.setSock_of_ne _ hne] at hu
      cases hu

theorem listening_net (sunPath : Bytes) :
    (listening sunPath).net = ((Net.boot.setSock 0 (.fresh 1 1 0)).setSock 1 (.fresh 1 1 0)).setSock 0
      { Sock.fresh 1 1 0 with
        localIp := loopback, localPort := unixPort (unixPath sunPath), tcpState := .listen, backlog := 1 } ∧
      (listening sunPath).path 0 = some (unixPath sunPath) := by
  have hdom : (((boot.exec (.create 1 1 0)).exec (.create 1 1 0)).net.socks 0).domain ≠ 16 := by
    rw [two_net]
    decide
  have hbind : (((boot.exec (.create 1 1 0)).exec (.create 1 1 0)).exec (.bind 0 (.unix sunPath) 0)).net =
      ((Net.boot.setSock 0 (.fresh 1 1 0)).setSock 1 (.fresh 1 1 0)).setSock 0
        { Sock.fresh 1 1 0 with localIp := loopback, localPort := unixPort (unixPath sunPath) } ∧
      (((boot.exec (.create 1 1 0)).exec (.create 1 1 0)).exec (.bind 0 (.unix sunPath) 0)).path 0 =
        some (unixPath sunPath) := by
    have htwo := two_bind sunPath
    generalize (boot.exec (.create 1 1 0)).exec (.create 1 1 0) = t at hdom htwo ⊢
    show (t.bind 0 (.unix sunPath) 0).2.net = _ ∧ (t.bind 0 (.unix sunPath) 0).2.path 0 = _
    unfold UnixNet.bind
    rw [if_neg hdom]
    dsimp only [SockAddr.target]
    rw [htwo]
    dsimp only
    rw [if_pos rfl]
    exact ⟨rfl, update_self ..⟩
  unfold listening
  dsimp only
  generalize ((boot.exec (.create 1 1 0)).exec (.create 1 1 0)).exec (.bind 0 (.unix sunPath) 0) = t at hbind
  obtain ⟨hnet, hpath⟩ := hbind
  constructor
  · show (t.net.sockListen 0 1).2 = _
    rw [hnet]
    have hlisten : ∀ n : Net, ((n.setSock 0 { Sock.fresh 1 1 0 with
        localIp := loopback, localPort := unixPort (unixPath sunPath) }).sockListen 0 1).2 =
        (n.setSock 0 { Sock.fresh 1 1 0 with
          localIp := loopback, localPort := unixPort (unixPath sunPath) }).setSock 0
        { Sock.fresh 1 1 0 with
          localIp := loopback, localPort := unixPort (unixPath sunPath), tcpState := .listen, backlog := 1 } :=
      fun n => rfl
    rw [hlisten, Net.setSock_setSock]
  · have hname : t.net.name 0 = some (1, unixPort (unixPath sunPath)) := by
      rw [hnet, Net.name_setSock_self]
      rfl
    exact (freshPath_old hname).trans hpath

theorem listening_meets {a sunPath : Bytes} (hport : unixPort a = unixPort (unixPath sunPath)) :
    (listening sunPath).reached 1 a = some 0 ∧ (listening sunPath).blocks 1 a 0 ∧
      ((listening sunPath).net.socks 1).domain = 1 ∧
      (listening sunPath).path 0 = some (unixPath sunPath) := by
  obtain ⟨hnet, hpath⟩ := listening_net sunPath
  refine ⟨?_, ?_, ?_, hpath⟩
  · unfold reached
    rw [hnet, hport]
    generalize unixPort (unixPath sunPath) = port
    have hfirst : ∀ q : ℕ → Bool, q 0 = true → firstSlot q sockMax = some 0 :=
      fun q hq => List.find?_cons_of_pos hq
    refine (if_pos ?_).trans (hfirst _ ?_)
    · rfl
    · exact decide_eq_true ⟨rfl, rfl, rfl, rfl, rfl, rfl⟩
  · unfold blocks
    rw [hnet, hport]
    exact ⟨by decide, by decide, rfl, rfl, rfl, rfl, rfl⟩
  · rw [hnet]
    rfl

/-- **Two paths meet exactly when they have the same port.**  And a path meets only its own sockets while
no other address with its port is used. -/
theorem unixPath_alias_iff (a : Bytes) :
    (∀ s, ApartRun (unixPath a) s → s.Own (unixPath a)) ∧
      ∀ b, (∀ s, Run s → ¬ s.Aliases (unixPath a) (unixPath b)) ↔
        unixPath a = unixPath b ∨ unixPort (unixPath a) ≠ unixPort (unixPath b) := by
  refine ⟨fun s hs => ?_, fun b => ⟨fun h => ?_, fun h s hs hmeet => ?_⟩⟩
  · obtain ⟨hinv, howned⟩ := apartRun_owned hs
    exact howned.own hinv
  · by_cases hpath : unixPath a = unixPath b
    · exact .inl hpath
    · refine .inr fun hport => ?_
      obtain ⟨hreach, -, hdom, hb⟩ := listening_meets hport
      exact h _ (listening_run b) ⟨hpath, 1, hdom, .inl ⟨0, hreach, hb⟩⟩
  · rcases h with hpath | hport
    · exact hmeet.1 hpath
    · exact hport ((run_inv hs).same_port hmeet)

/-- `/tmp/nt` reaches the listener of `/tmp/ui`, and cannot be bound besides it. -/
theorem unixPath_collide : ¬ ∀ (a b : Bytes) (s : UnixNet), Run s →
    ¬ s.Aliases (unixPath a) (unixPath b) := by
  intro h
  have hport : unixPort (unixPath (ascii "/tmp/nt")) = unixPort (unixPath (ascii "/tmp/ui")) := by
    decide +kernel
  have hpath : unixPath (ascii "/tmp/nt") ≠ unixPath (ascii "/tmp/ui") := by
    decide +kernel
  obtain ⟨hreach, hblock, hdom, hb⟩ := listening_meets hport
  exact h _ _ _ (listening_run (ascii "/tmp/ui")) ⟨hpath, 1, hdom, .inl ⟨0, hreach, hb⟩⟩

end UnixNet

end Ridux
