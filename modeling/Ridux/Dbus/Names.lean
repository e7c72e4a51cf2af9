import Ridux.Dbus.Clients

/-!
# Owners of names

Runs of clients that connect to the bus, call it and leave.

* `BusOp`, `Net.busExec`: a socket call, a line of the handshake, or a method call;
* `Net.Modest`: no call asks for a unique name that nobody has, none is given twice, and a client
  connects once;
* `busRun_owned`: a name has one owner, who is connected, and is free when the owner has left.
-/

namespace Ridux

open Lib

/-- What a client does. -/
inductive BusOp
  | socket (op : PeerOp)
  | auth (fd : ℕ) (line : Bytes)
  | call (fd : ℕ) (m : DbusvMsg)

namespace Net

/-- The sockets after a call. -/
def socketCall (n : Net) : PeerOp → Net
  | .create domain type protocol => (n.sockCreate domain type protocol).2
  | .bind fd addr port => (n.sockBind fd addr port).2
  | .listen fd backlog => (n.sockListen fd backlog).2
  | .connect fd addr port events => (n.sockConnect fd addr port events).2
  | .accept fd => (n.sockAccept fd).2
  | .pair domain type protocol => (n.sockPairCreate domain type protocol).2
  | .close fd => (n.sockClose fd).2

/-- What comes from a client goes through `sock_dbus_on_send`, which seeds the tables first. -/
def busExec (svc : Services) (n : Net) : BusOp → Net
  | .socket op => n.socketCall op
  | .auth fd line => ((n.setBus n.bus.seedDefaults).authLine fd line).2
  | .call fd m => (n.setBus n.bus.seedDefaults).handleMethodCall svc fd m

/-- `sock_send` hands the bytes of a client to the bus unless it has a peer. -/
def Reaches (n : Net) (fd : ℕ) : Prop := n.Client fd ∧ n.livePeer (n.socks fd) = none

/-- The clients reach the bus. No call asks for a unique name that nobody has, a new unique name is
new, and a socket that the bus knows connects to nothing else. -/
def Modest (svc : Services) (n : Net) : BusOp → Prop
  | .socket (.connect fd _ _ _) =>
    n.live fd = true → ¬((n.socks fd).type = 1 ∧ (n.socks fd).tcpState = .established) →
      ¬n.bus.Knows fd
  | .socket _ => True
  | .auth fd _ => n.Reaches fd
  | .call fd m => n.Reaches fd ∧ (n.setBus n.bus.seedDefaults).Proper svc fd m

/-- A name has one owner, whom a lookup finds and who is connected; `ReleaseName` is refused to
everybody else; a name is free when its owner has released it or has left; and the bus knows nothing
of a slot that is no client, nor of a socket that has just connected. -/
structure Owned (n : Net) : Prop where
  single : ∀ name o o', n.bus.Owner name o → n.bus.Owner name o' → o = o'
  lookup : ∀ name o, n.bus.ownerFdForName name = some o ↔ n.bus.Owner name o
  client : ∀ name fd, n.bus.Owner name (some fd) → n.Client fd
  refuse : ∀ fd m name, dbusvBodyGetStr m 0 dbusvNameMax = some name →
    ¬n.bus.Owner name (some fd) →
      ∃ v, (v = 2 ∨ v = 3) ∧ n.releaseNameMethod fd m = n.replyU32 fd m v
  release : ∀ fd m name, dbusvBodyGetStr m 0 dbusvNameMax = some name →
    n.bus.Owner name (some fd) → ¬startsWith name uniqueMark = true →
      (∃ n' : Net, n.releaseNameMethod fd m = n'.replyU32 fd m 1) ∧
      (n.releaseNameMethod fd m).bus.ownerFdForName name = none ∧
      ∀ c, ((n.releaseNameMethod fd m).acquireName c name).1 = 1
  leave : ∀ fd name n', n.bus.Owner name (some fd) → n.sockClose fd = (.ok (), n') →
    n'.bus.ownerFdForName name = none ∧
      (¬startsWith name uniqueMark = true → ∀ c, (n'.acquireName c name).1 = 1)
  forgotten : ∀ fd, ¬n.Client fd → ¬n.bus.Knows fd
  connect : ∀ fd addr port events, ¬n.bus.Knows fd →
    ¬(n.sockConnect fd addr port events).2.bus.Knows fd

/-! ### What the socket calls keep -/

namespace Served

variable {n : Net}

theorem pair (h : Served n) (domain type : ℕ) (protocol : ℤ) :
    Served (n.sockPairCreate domain type protocol).2 := by
  unfold sockPairCreate
  cases ha : n.sockCreate domain type protocol with
  | mk r n1 =>
    obtain ⟨h1, hb1⟩ := h.create ha
    cases r with
    | error e => exact h1
    | ok a =>
      obtain ⟨ha1, hfa, t, p, -, -, rfl⟩ := sockCreate_ok ha
      dsimp only
      cases hb : (n.setSock a (.fresh domain t p)).sockCreate domain type protocol with
      | mk r n2 =>
        obtain ⟨h2, hb2⟩ := h1.create hb
        cases r with
        | error e =>
          rw [sockCreate_error hb]
          exact (h1.close_any a).1
        | ok b =>
          obtain ⟨hb1', hfb, t', p', -, -, rfl⟩ := sockCreate_ok hb
          have hne : a ≠ b := by
            rintro rfl
            rw [setSock_self] at hfb
            cases hfb
          have hka := h.not_knows hfa
          have hkb := h1.not_knows hfb
          dsimp only
          have h3 : Served (((n.setSock a (.fresh domain t p)).setSock b
              (.fresh domain t' p')).allocEph.2.allocEph.2) :=
            h2.same (.of_rx fun _ => ⟨_, rfl⟩) rfl
          refine setSock (setSock h3 hka (fun _ i hi _ he => ?_) (.inl ⟨ha1, ?_⟩)) hkb
            (fun _ i hi _ he => ?_) (.inl ⟨hb1', ?_⟩)
          · obtain rfl := Option.some.inj he
            exact hkb hi
          · show (((n.setSock a _).setSock b _).socks a).used = true
            rw [setSock_of_ne _ hne, setSock_self]
            rfl
          · obtain rfl := Option.some.inj he
            exact hka hi
          · rw [setSock_of_ne _ hne.symm]
            show (((n.setSock a _).setSock b _).socks b).used = true
            rw [setSock_self]
            rfl

theorem socketCall {svc : Services} (h : Served n) {op : PeerOp} (hop : n.Modest svc (.socket op)) :
    Served (n.socketCall op) := by
  cases op with
  | create domain type protocol => exact (h.create rfl).1
  | bind fd addr port =>
    show Served (n.sockBind fd addr port).2
    unfold sockBind
    split_ifs
    · exact h
    · exact h
    · exact h.same (.setSock n rfl rfl rfl) rfl
  | listen fd backlog =>
    show Served (n.sockListen fd backlog).2
    unfold sockListen
    dsimp only
    split_ifs
    · exact h
    · exact h
    all_goals exact h.same (.setSock n rfl rfl rfl) rfl
  | connect fd addr port events =>
    show Served (n.sockConnect fd addr port events).2
    by_cases hl : n.live fd = true
    · by_cases hc : (n.socks fd).type = 1 ∧ (n.socks fd).tcpState = .established
      · unfold sockConnect
        rw [if_neg (by simp [hl]), if_pos hc]
        exact h
      · exact (h.connect (hop hl hc) addr port events).1
    · unfold sockConnect
      rw [if_pos (by simp [hl])]
      exact h
  | accept fd =>
    show Served (n.sockAccept fd).2
    unfold sockAccept
    dsimp only
    split_ifs
    · exact h
    · exact h
    · exact h
    · exact h.same (.setSock n rfl rfl rfl) rfl
  | pair domain type protocol => exact h.pair domain type protocol
  | close fd => exact (h.close_any fd).1

end Served

theorem queueLine_alike (n : Net) (fd : ℕ) (rep : String) (note : VirtFlags → VirtFlags) :
    Alike n (n.queueLine fd rep note) := by
  unfold queueLine
  refine .setSock n ?_ ?_ ?_
  all_goals split_ifs <;> rfl

theorem authLine_alike (n : Net) (fd : ℕ) (line : Bytes) : Alike n (n.authLine fd line).2 := by
  have hauth : Alike n (n.dbusQueueAuth fd) := queueLine_alike n fd _ _
  have hok : Alike n (n.dbusQueueOk fd) := queueLine_alike n fd _ _
  have hwords : ∀ args, Alike n (n.authWords fd args) := by
    intro args
    unfold authWords
    dsimp only
    split_ifs
    · exact hauth
    · exact queueLine_alike n fd _ _
    · exact hok
  unfold authLine
  dsimp only
  generalize line.dropWhile (fun c => decide (c = 0x0D ∨ c = 0x0A ∨ c = 0)) = line
  by_cases h1 : startsWith line (ascii "AUTH") = true
  · rw [if_pos h1]
    dsimp only
    split_ifs
    · exact .refl n
    · exact hwords _
  rw [if_neg h1]
  by_cases h2 : startsWith line (ascii "DATA") = true
  · rw [if_pos h2]
    dsimp only
    split_ifs
    · exact hok
    · exact hauth
    · exact .refl n
  rw [if_neg h2]
  by_cases h3 : startsWith line (ascii "NEGOTIATE_UNIX_FD") = true
  · rw [if_pos h3]
    dsimp only
    split_ifs
    · exact queueLine_alike n fd _ _
    · exact hauth
  rw [if_neg h3]
  by_cases h4 : startsWith line (ascii "BEGIN") = true
  · rw [if_pos h4]
    dsimp only
    split_ifs
    · exact .setSock n rfl rfl rfl
    · exact hauth
  rw [if_neg h4]
  dsimp only
  split_ifs
  · exact .refl n
  · exact hauth

theorem authLine_bus (n : Net) (fd : ℕ) (line : Bytes) : (n.authLine fd line).2.bus = n.bus := by
  have hwords : ∀ args, (n.authWords fd args).bus = n.bus := by
    intro args
    unfold authWords
    dsimp only
    split_ifs <;> rfl
  unfold authLine
  dsimp only
  generalize line.dropWhile (fun c => decide (c = 0x0D ∨ c = 0x0A ∨ c = 0)) = line
  by_cases h1 : startsWith line (ascii "AUTH") = true
  · rw [if_pos h1]
    dsimp only
    split_ifs
    · rfl
    · exact hwords _
  rw [if_neg h1]
  split_ifs <;> rfl

namespace Served

variable {n : Net} {svc : Services}

theorem exec (h : Served n) {op : BusOp} (hop : n.Modest svc op) : Served (n.busExec svc op) := by
  cases op with
  | socket op => exact h.socketCall hop
  | auth fd line =>
    exact h.seed.same (authLine_alike _ fd line) (authLine_bus _ fd line)
  | call fd m =>
    obtain ⟨hr, hp⟩ := hop
    have hc := calls_handleMethodCall h.seed.tables (Bus.seeded_seedDefaults _) hp
    refine h.seed.alike (.of_rx hc.socks) hc.keeps.tables fun i hi => ?_
    rcases hc.keeps.knows i hi with hk | rfl
    · exact .inl hk
    · exact .inr hr

end Served

/-! ### Names that are free -/

theorem acquireName_eq_one {n : Net} {name : Bytes} (ht : n.bus.Tables) (hne : name ≠ [])
    (hno : n.bus.ownerFdForName name = none) {i : ℕ} (hi : i < dbusvBindMax)
    (hfree : (n.bus.bindings i).used = false) (c : ℕ) : (n.acquireName c name).1 = 1 := by
  have hfind : n.bus.findBinding name = none := by
    cases hf : n.bus.findBinding name with
    | none => rfl
    | some j =>
      obtain ⟨hj, hu, hn⟩ := Bus.findBinding_eq_some hf
      exact absurd (.inr ⟨j, hj, hu, hn, rfl⟩) (ht.ownerFdForName_eq_none.1 hno _)
  have hadd : ∃ j b, n.bus.addBinding name (some c) = (some j, b) := by
    unfold Bus.addBinding
    rw [if_neg hne, hfind]
    dsimp only
    cases hs : firstSlot (fun i => !(n.bus.bindings i).used) dbusvBindMax with
    | none =>
      have := firstSlot_eq_none hs i hi
      simp [hfree] at this
    | some j => exact ⟨j, _, rfl⟩
  obtain ⟨j, b, he⟩ := hadd
  unfold acquireName
  rw [he]

theorem releaseName_refused {n : Net} {fd : ℕ} {m : DbusvMsg} {name : Bytes}
    (hb : dbusvBodyGetStr m 0 dbusvNameMax = some name) (ho : ¬n.bus.Owner name (some fd)) :
    ∃ v, (v = 2 ∨ v = 3) ∧ n.releaseNameMethod fd m = n.replyU32 fd m v := by
  unfold releaseNameMethod
  rw [hb]
  dsimp only
  cases hf : n.bus.findBinding name with
  | none => exact ⟨2, .inl rfl, rfl⟩
  | some i =>
    obtain ⟨hi, hu, hn⟩ := Bus.findBinding_eq_some hf
    have hne : ¬(n.bus.bindings i).ownerFd = some fd := fun he =>
      ho (.inr ⟨i, hi, hu, hn, he⟩)
    dsimp only
    rw [if_neg hne]
    exact ⟨3, .inr rfl, rfl⟩

namespace Served

variable {n : Net} {fd : ℕ}

theorem release (h : Served n) {m : DbusvMsg} {name : Bytes}
    (hb : dbusvBodyGetStr m 0 dbusvNameMax = some name) (ho : n.bus.Owner name (some fd))
    (hmark : ¬startsWith name uniqueMark = true) :
    (∃ n' : Net, n.releaseNameMethod fd m = n'.replyU32 fd m 1) ∧
      (n.releaseNameMethod fd m).bus.ownerFdForName name = none ∧
      ∀ c, ((n.releaseNameMethod fd m).acquireName c name).1 = 1 := by
  rcases ho with ⟨c, -, -, hh, rfl⟩ | ⟨i, hi, hu, rfl, ho⟩
  · exact absurd (h.tables.marked c (h.tables.hello c hh)) hmark
  have hfind := h.tables.findBinding hi hu
  have hun := h.tables.owner i hi hu fd ho
  obtain ⟨s, hs⟩ := (posts_releaseName hun hb hfind ho).bus
  rw [setBus_bus] at hs
  have ht : (n.releaseNameMethod fd m).bus.Tables := by
    rw [hs]
    exact (h.tables.unbind fd i).tables.serial s
  have hfree : ((n.releaseNameMethod fd m).bus.bindings i).used = false := by
    rw [hs]
    show ((n.bus.setBinding i Bus.freeBinding).bindings i).used = false
    rw [Bus.setBinding_self]
    rfl
  have hno : (n.releaseNameMethod fd m).bus.ownerFdForName (n.bus.bindings i).name = none := by
    refine ht.ownerFdForName_eq_none.2 fun o how => ?_
    rw [hs] at how
    rcases how with ⟨c, -, -, hh, hn⟩ | ⟨j, hj, huj, hn, -⟩
    · have hm := h.tables.marked c (h.tables.hello c hh)
      change n.bus.unique c = _ at hn
      rw [hn] at hm
      exact hmark hm
    · change ((n.bus.setBinding i Bus.freeBinding).bindings j).used = true at huj
      change ((n.bus.setBinding i Bus.freeBinding).bindings j).name = _ at hn
      by_cases hji : j = i
      · rw [hji, Bus.setBinding_self] at huj
        cases huj
      · rw [Bus.setBinding_of_ne _ hji] at huj hn
        exact hji (h.tables.keyed j hj i hi huj hu hn)
  refine ⟨?_, hno, acquireName_eq_one ht (h.tables.bound i hi hu).1 hno hi hfree⟩
  unfold releaseNameMethod
  rw [hb]
  dsimp only
  rw [hfind]
  dsimp only
  rw [if_pos ho]
  exact ⟨_, rfl⟩

theorem leave (h : Served n) {name : Bytes} {n' : Net} (ho : n.bus.Owner name (some fd))
    (hr : n.sockClose fd = (.ok (), n')) :
    n'.bus.ownerFdForName name = none ∧
      (¬startsWith name uniqueMark = true → ∀ c, (n'.acquireName c name).1 = 1) := by
  obtain ⟨hs, -, hd⟩ := h.close hr
  obtain ⟨m, hd, hseed, hf⟩ := hd ho.knows
  have hno : n'.bus.ownerFdForName name = none := by
    refine hs.tables.ownerFdForName_eq_none.2 fun o how => ?_
    obtain ⟨how, hne⟩ := hd.owner (hf.owner hseed name o how)
    exact hne (h.tables.owner_eq how ho)
  refine ⟨hno, fun hmark => ?_⟩
  rcases ho with ⟨c, -, -, hh, rfl⟩ | ⟨i, hi, hu, rfl, ho⟩
  · exact absurd (h.tables.marked c (h.tables.hello c hh)) hmark
  · have hfree : (m.bus.bindings i).used = false := by
      rw [hd.bindings i, if_pos ⟨hi, hu, ho⟩]
      rfl
    exact acquireName_eq_one hs.tables (h.tables.bound i hi hu).1 hno hi (hf.free hseed i hi hfree)

theorem owned (h : Served n) : Owned n where
  single _ _ _ := h.tables.owner_eq
  lookup _ _ := h.tables.ownerFdForName_iff
  client _ _ ho := h.client _ ho.knows
  refuse _ _ _ := releaseName_refused
  release _ _ _ := h.release
  leave _ _ _ := h.leave
  forgotten _ hc hk := hc (h.client _ hk)
  connect _ addr port events hk := (h.connect hk addr port events).2

end Served

theorem served_boot : Served .boot := by
  have hk : ∀ i, ¬boot.bus.Knows i := by
    rintro i (h | h | ⟨_, -, h, -⟩ | ⟨_, -, h, -⟩)
    · exact h rfl
    all_goals cases h
  refine ⟨⟨fun _ h => absurd rfl h, fun _ _ h => absurd rfl h, fun _ h => absurd h Bool.false_ne_true,
    fun _ _ h => absurd h Bool.false_ne_true, fun _ _ _ _ h => absurd h Bool.false_ne_true,
    fun _ _ h => absurd h Bool.false_ne_true, fun _ i => hk i⟩, fun i hi => absurd hi (hk i),
    fun i _ hi => absurd hi (hk i), fun _ _ => rfl⟩

end Net

/-- **Owners of names** in every run in which nobody asks for a unique name that nobody has, no
unique name is given twice and no known client connects again. -/
theorem busRun_owned (svc : Services) {n : Net}
    (hrun : Runs (Net.Modest svc) (Net.busExec svc) .boot n) : n.Owned :=
  (Runs.invariant (fun _ _ h hop => h.exec hop) hrun Net.served_boot).owned

/-! ### Two clients -/

/-- A call to the bus with one string, or none, as its argument. -/
def busCall (member : String) (arg : Option String) : DbusvMsg where
  le := true
  type := 1
  flags := 0
  version := 1
  serial := 1
  replySerial := 0
  bodyLen := 0
  bodyOff := 0
  msgLen := 0
  body := (arg.map fun s => dbusvWrU32 s.length ++ ascii s ++ [0]).getD []
  path := ascii "/org/freedesktop/DBus"
  iface := ascii "org.freedesktop.DBus"
  member := ascii member
  dest := ascii "org.freedesktop.DBus"
  sender := []
  errName := []
  signature := []

/-- No services. -/
def noServices : Services := fun _ _ => .none

/-- A socket that has connected to the bus. -/
def oneClient : Net :=
  (Net.boot.busExec noServices (.socket (.create 1 1 0))).busExec noServices
    (.socket (.connect 0 0x7F000001#32 39020#16 none))

theorem oneClient_run :
    Runs (Net.Modest noServices) (Net.busExec noServices) .boot oneClient := by
  refine Runs.tail (Runs.tail (Runs.refl _) _ trivial) _ fun _ _ => ?_
  have h : Net.Served (Net.boot.busExec noServices (.socket (.create 1 1 0))) :=
    Net.served_boot.exec (show Net.Modest noServices .boot (.socket (.create 1 1 0)) from trivial)
  intro hk
  have hv := (h.client 0 hk).2
  have hnone : ((Net.boot.busExec noServices (.socket (.create 1 1 0))).socks 0).virtService =
      .none := by decide +kernel
  rw [hnone] at hv
  cases hv

/-- The client asks for a name of its own. -/
theorem oneClient_owned :
    (oneClient.busExec noServices (.call 0 (busCall "RequestName" (some "org.example")))).Owned := by
  refine busRun_owned noServices (oneClient_run.tail _ ⟨⟨⟨?_, ?_⟩, ?_⟩, fun _ hnil i he => ?_,
    fun _ _ name hb hm => ?_⟩)
  · decide +kernel
  · decide +kernel
  · decide +kernel
  · -- the only socket has no name yet
    have hs : oneClient.Served :=
      Runs.invariant (fun _ _ h hop => h.exec hop) oneClient_run Net.served_boot
    have hk : oneClient.bus.Knows i := Bus.Knows.of_seedDefaults (.inl (by
      change oneClient.bus.seedDefaults.unique i = _ at he
      rw [he]
      exact Bus.dbusvUniqueName_ne_nil _))
    obtain ⟨hlt, hu⟩ := Net.live_iff.1 (hs.client i hk).1
    have honly : ∀ i < sockMax, (oneClient.socks i).used = true → i = 0 := by decide +kernel
    obtain rfl := honly i hlt hu
    rw [hnil] at he
    exact Bus.dbusvUniqueName_ne_nil _ he.symm
  · have hname : dbusvBodyGetStr (busCall "RequestName" (some "org.example")) 0 dbusvNameMax =
        some (ascii "org.example") := by decide +kernel
    rw [hname] at hb
    obtain rfl := Option.some.inj hb
    have : ¬startsWith (ascii "org.example") uniqueMark = true := by decide +kernel
    exact absurd hm this

/-- The first client asks for the unique name that the second one is about to get. -/
def squatted : Net :=
  (((oneClient.busExec noServices (.socket (.create 1 1 0))).busExec noServices
    (.socket (.connect 1 0x7F000001#32 39020#16 none))).busExec noServices
      (.call 0 (busCall "RequestName" (some ":1.2")))).busExec noServices
        (.call 1 (busCall "Hello" none))

/-- Both clients have been told that they own the name. -/
theorem squatted_not_owned : ¬squatted.Owned := by
  intro h
  have hbound : squatted.bus.Owner (ascii ":1.2") (some 0) :=
    .inr ⟨17, by decide, by decide +kernel, by decide +kernel, by decide +kernel⟩
  have hhello : squatted.bus.Owner (ascii ":1.2") (some 1) :=
    .inl ⟨1, by decide, rfl, by decide +kernel, by decide +kernel⟩
  exact absurd (h.single _ _ _ hbound hhello) (by decide)

end Ridux
