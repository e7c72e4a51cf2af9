import Ridux.Dbus.Methods
import Ridux.Net.Peering

/-!
# The clients of the bus

What the socket calls do to the clients that the tables of the bus know.

* `Net.Client`, `Net.Served`: the clients that are connected, and the invariant;
* `Net.Forgets`: a call brings nobody into the tables;
* `Net.Served.close`, `Net.Served.connect`: the calls that matter.
-/

namespace Ridux

open Lib

namespace Bus

theorem tables_seeds : seeds.Tables := by
  have hused : ∀ i < dbusvBindMax, (seeds.bindings i).used = true → i < defaultNames.length := by
    decide +kernel
  have hname : ∀ i < defaultNames.length, (seeds.bindings i).name ≠ [] ∧
      ¬startsWith (seeds.bindings i).name uniqueMark = true ∧ (seeds.bindings i).ownerFd = none := by
    decide +kernel
  have hkeyed : ∀ i < defaultNames.length, ∀ j < defaultNames.length,
      (seeds.bindings i).name = (seeds.bindings j).name → i = j := by
    decide +kernel
  refine ⟨fun _ h => absurd rfl h, fun _ _ h => absurd rfl h, fun _ h => absurd h Bool.false_ne_true,
    fun i hi hu => ?_,
    fun i hi j hj hui huj => hkeyed i (hused i hi hui) j (hused j hj huj), fun i hi hu fd ho => ?_,
    (nomatch ·)⟩
  · obtain ⟨h1, h2, -⟩ := hname i (hused i hi hu)
    exact ⟨h1, h2⟩
  · rw [(hname i (hused i hi hu)).2.2] at ho
    cases ho

theorem not_knows_seeds (fd : ℕ) : ¬seeds.Knows fd := by
  have hown : ∀ i < dbusvBindMax, (seeds.bindings i).used = true → (seeds.bindings i).ownerFd = none := by
    decide +kernel
  rintro (h | h | ⟨i, hi, hu, ho⟩ | ⟨i, -, hu, -⟩)
  · exact h rfl
  · cases h
  · rw [hown i hi hu] at ho
    cases ho
  · cases hu

variable {b : Bus}

theorem seedDefaults_of_seeded (hs : b.seeded = true) : b.seedDefaults = b := if_pos hs

theorem seeded_seedDefaults (b : Bus) : b.seedDefaults.seeded = true := by
  unfold seedDefaults
  split_ifs with h
  · exact h
  · rfl

theorem Tables.seedDefaults (h : b.Tables) : b.seedDefaults.Tables := by
  unfold Bus.seedDefaults
  split_ifs
  · exact h
  · exact tables_seeds

theorem Knows.of_seedDefaults {fd : ℕ} (h : b.seedDefaults.Knows fd) : b.Knows fd := by
  unfold seedDefaults at h
  split_ifs at h
  · exact h
  · exact absurd h (not_knows_seeds fd)

end Bus

namespace Net

/-- A client of the bus that is connected. -/
def Client (n : Net) (fd : ℕ) : Prop := n.live fd = true ∧ (n.socks fd).virtService = .dbus

/-- The bus knows only clients that are connected; no bridge has a client of the bus as its other
end; and a free slot serves nobody. -/
structure Served (n : Net) : Prop where
  tables : n.bus.Tables
  client : ∀ i, n.bus.Knows i → n.Client i
  apart : ∀ i p, n.bus.Knows i → n.live p = true → (n.socks i).peer = some p →
    (n.socks p).peer ≠ some i
  idle : ∀ p, ¬n.live p = true → (n.socks p).virtService = .none

/-- The sockets are in use, linked and served as before. -/
structure Alike (n n' : Net) : Prop where
  used : ∀ i, (n'.socks i).used = (n.socks i).used
  peer : ∀ i, (n'.socks i).peer = (n.socks i).peer
  virt : ∀ i, (n'.socks i).virtService = (n.socks i).virtService

namespace Alike

variable {n n' n'' : Net}

theorem refl (n : Net) : Alike n n := ⟨fun _ => rfl, fun _ => rfl, fun _ => rfl⟩

theorem trans (h : Alike n n') (h' : Alike n' n'') : Alike n n'' :=
  ⟨fun i => (h'.used i).trans (h.used i), fun i => (h'.peer i).trans (h.peer i),
    fun i => (h'.virt i).trans (h.virt i)⟩

theorem of_rx (h : ∀ i, ∃ r, n'.socks i = { n.socks i with rx := r }) : Alike n n' := by
  refine ⟨fun i => ?_, fun i => ?_, fun i => ?_⟩
  all_goals
    obtain ⟨r, hr⟩ := h i
    rw [hr]

theorem setSock (n : Net) {i : ℕ} {s : Sock} (hu : s.used = (n.socks i).used)
    (hp : s.peer = (n.socks i).peer) (hv : s.virtService = (n.socks i).virtService) :
    Alike n (n.setSock i s) := by
  refine ⟨fun j => ?_, fun j => ?_, fun j => ?_⟩
  all_goals
    by_cases hj : j = i
    · rw [hj, setSock_self]
      assumption
    · rw [setSock_of_ne _ hj]

theorem live (h : Alike n n') (i : ℕ) : n'.live i = n.live i := live_congr (h.used i)

theorem netEvent (n : Net) (ev : NetEvent) : Alike n (n.netEvent ev) := by
  cases ev with
  | segment i state error payload =>
    unfold Net.netEvent
    dsimp only
    split_ifs
    · exact setSock n rfl rfl rfl
    · exact refl n
  | dgram i payload ip port =>
    unfold Net.netEvent
    dsimp only
    split_ifs
    · exact setSock n rfl rfl rfl
    · exact setSock n rfl rfl rfl
    · exact refl n

theorem netEvents (es : List NetEvent) (n : Net) : Alike n (es.foldl Net.netEvent n) := by
  induction es generalizing n with
  | nil => exact refl n
  | cons ev es ih => exact (netEvent n ev).trans (ih _)

end Alike

theorem netEvents_bus (es : List NetEvent) (n : Net) : (es.foldl Net.netEvent n).bus = n.bus := by
  induction es generalizing n with
  | nil => rfl
  | cons ev es ih =>
    rw [List.foldl_cons, ih]
    cases ev <;> (unfold Net.netEvent; dsimp only; split_ifs <;> rfl)

/-- A call brings nobody into the tables, and frees entries only. -/
structure Forgets (n n' : Net) : Prop where
  seeded : n.bus.seeded = true → n'.bus.seeded = true
  knows : ∀ i, n'.bus.Knows i → n.bus.Knows i
  owner : n.bus.seeded = true → ∀ name o, n'.bus.Owner name o → n.bus.Owner name o
  free : n.bus.seeded = true → ∀ i < dbusvBindMax, (n.bus.bindings i).used = false →
    (n'.bus.bindings i).used = false

namespace Forgets

variable {n n' n'' : Net}

theorem of_bus (h : n'.bus = n.bus) : Forgets n n' := by
  refine ⟨fun hs => ?_, fun i => ?_, fun _ name o => ?_, fun _ i _ hu => ?_⟩
  · rwa [h]
  · rw [h]
    exact id
  · rw [h]
    exact id
  · rwa [h]

theorem trans (h : Forgets n n') (h' : Forgets n' n'') : Forgets n n'' :=
  ⟨fun hs => h'.seeded (h.seeded hs), fun i hi => h.knows i (h'.knows i hi),
    fun hs name o ho => h.owner hs name o (h'.owner (h.seeded hs) name o ho),
    fun hs i hi hu => h'.free (h.seeded hs) i hi (h.free hs i hi hu)⟩

end Forgets

namespace Served

variable {n n' : Net} {s : Sock} {fd j : ℕ}

theorem alike (h : Served n) (ha : Alike n n') (ht : n'.bus.Tables)
    (hk : ∀ i, n'.bus.Knows i → n.bus.Knows i ∨ n.Client i ∧ n.livePeer (n.socks i) = none) :
    Served n' := by
  refine ⟨ht, fun i hi => ?_, fun i p hi hp hip => ?_, fun p hp => ?_⟩
  · have hc : n.Client i := by
      rcases hk i hi with hb | ⟨hc, -⟩
      · exact h.client i hb
      · exact hc
    exact ⟨by rw [ha.live]; exact hc.1, by rw [ha.virt]; exact hc.2⟩
  · rw [ha.live] at hp
    rw [ha.peer] at hip ⊢
    rcases hk i hi with hb | ⟨-, hnone⟩
    · exact h.apart i p hb hp hip
    · rw [livePeer_eq_some.2 ⟨hip, hp⟩] at hnone
      cases hnone
  · rw [ha.live] at hp
    rw [ha.virt]
    exact h.idle p hp

theorem same (h : Served n) (ha : Alike n n') (hb : n'.bus = n.bus) : Served n' :=
  h.alike ha (hb ▸ h.tables) fun _ hi => .inl (hb ▸ hi)

theorem setSock (h : Served n) (hj : ¬n.bus.Knows j)
    (hpeer : s.used = true → ∀ i, n.bus.Knows i → (n.socks i).peer = some j → s.peer ≠ some i)
    (hidle : j < sockMax ∧ s.used = true ∨ s.virtService = .none) : Served (n.setSock j s) := by
  have hne : ∀ i, n.bus.Knows i → i ≠ j := by
    rintro i hi rfl
    exact hj hi
  have hlive : ∀ i, i ≠ j → (n.setSock j s).live i = n.live i := fun i hi =>
    live_congr (by rw [setSock_of_ne _ hi])
  refine ⟨h.tables, fun i hi => ?_, fun i p hi hp hip => ?_, fun p hp => ?_⟩
  · obtain ⟨hl, hv⟩ := h.client i hi
    exact ⟨by rw [hlive i (hne i hi)]; exact hl, by rw [setSock_of_ne _ (hne i hi)]; exact hv⟩
  · rw [setSock_of_ne _ (hne i hi)] at hip
    by_cases hpj : p = j
    · subst hpj
      rw [setSock_self]
      refine hpeer ?_ i hi hip
      have := (live_iff.1 hp).2
      rwa [setSock_self] at this
    · rw [hlive p hpj] at hp
      rw [setSock_of_ne _ hpj]
      exact h.apart i p hi hp hip
  · by_cases hpj : p = j
    · subst hpj
      rw [setSock_self]
      rcases hidle with ⟨hlt, hu⟩ | hv
      · exact absurd (live_iff.2 ⟨hlt, by rwa [setSock_self]⟩) hp
      · exact hv
    · rw [hlive p hpj] at hp
      rw [setSock_of_ne _ hpj]
      exact h.idle p hp

theorem unlink (h : Served n) (hu : s.used = (n.socks j).used) (hp : s.peer = none)
    (hv : s.virtService = (n.socks j).virtService) : Served (n.setSock j s) := by
  have hlive : ∀ i, (n.setSock j s).live i = n.live i := live_setSock hu
  have hvirt : ∀ i, ((n.setSock j s).socks i).virtService = (n.socks i).virtService := by
    intro i
    by_cases hi : i = j
    · rw [hi, setSock_self, hv]
    · rw [setSock_of_ne _ hi]
  refine ⟨h.tables, fun i hi => ?_, fun i p hi hl hip => ?_, fun p hl => ?_⟩
  · obtain ⟨hl, hv⟩ := h.client i hi
    exact ⟨by rw [hlive]; exact hl, by rw [hvirt]; exact hv⟩
  · rw [hlive] at hl
    by_cases hij : i = j
    · rw [hij, setSock_self, hp] at hip
      cases hip
    · rw [setSock_of_ne _ hij] at hip
      by_cases hpj : p = j
      · rw [hpj, setSock_self, hp]
        exact (nomatch ·)
      · rw [setSock_of_ne _ hpj]
        exact h.apart i p hi hl hip
  · rw [hlive] at hl
    rw [hvirt]
    exact h.idle p hl

/-! ### Closing -/

theorem shut (h : Served n) (hfd : ¬n.bus.Knows fd) : Served (n.shut fd) := by
  have hdetach : Served (n.detachPeer fd) ∧ (n.detachPeer fd).bus = n.bus := by
    unfold detachPeer
    cases hp : n.livePeer (n.socks fd) with
    | none => exact ⟨h, rfl⟩
    | some p =>
      dsimp only
      obtain ⟨hpeer, hlive⟩ := livePeer_eq_some.1 hp
      split_ifs with hback hbridge
      · refine ⟨h.setSock (fun hk => ?_) (nomatch ·) (.inr rfl), rfl⟩
        -- a bridge is in use
        have hl : n.live fd = true := by
          by_contra hl
          have hv := h.idle fd hl
          simp [internalBridge, hv] at hbridge
        exact h.apart p fd hk hl hback hpeer
      · exact ⟨h.unlink rfl rfl rfl, rfl⟩
      · exact ⟨h, rfl⟩
  unfold Net.shut
  exact hdetach.1.setSock (by rw [hdetach.2]; exact hfd) (nomatch ·) (.inr rfl)

theorem shut_bus (n : Net) (fd : ℕ) : (n.shut fd).bus = n.bus := by
  unfold Net.shut detachPeer
  rw [setSock_bus]
  split
  · rfl
  · split_ifs <;> rfl

theorem closeVirtual (h : Served n) (fd : ℕ) :
    Served (n.closeVirtual fd) ∧ Forgets n (n.closeVirtual fd) ∧
      ¬(n.closeVirtual fd).bus.Knows fd ∧
      (n.bus.Knows fd → n.bus.Dropped fd (n.closeVirtual fd).bus) := by
  unfold Net.closeVirtual
  split_ifs with hv
  · have hd := dropped_dropSocket n fd
    have ha : Alike n (n.dbusvDropSocket fd) := .of_rx fun i => by
      obtain ⟨r, hr, -⟩ := busStep_dropSocket n fd i
      exact ⟨r, hr⟩
    refine ⟨h.alike ha (hd.tables h.tables.seedDefaults) fun i hi => .inl
        (hd.knows hi).1.of_seedDefaults,
      ⟨fun _ => ?_, fun i hi => (hd.knows hi).1.of_seedDefaults, fun hs name o ho => ?_,
        fun hs i hi hu => ?_⟩, fun hk => (hd.knows hk).2 rfl, fun hk => ?_⟩
    · rw [hd.seeded]
      exact Bus.seeded_seedDefaults _
    · rw [Bus.seedDefaults_of_seeded hs] at hd
      exact (hd.owner ho).1
    · rw [Bus.seedDefaults_of_seeded hs] at hd
      by_contra hne
      rw [Bool.not_eq_false] at hne
      rw [(hd.binding hi hne).1, hu] at hne
      cases hne
    · have hs : n.bus.seeded = true := by
        by_contra hs
        exact h.tables.unseeded (by simpa using hs) fd hk
      rwa [Bus.seedDefaults_of_seeded hs] at hd
  · have hk : ¬n.bus.Knows fd := fun hk => hv (h.client fd hk).2
    exact ⟨h, .of_bus rfl, hk, fun hk' => absurd hk' hk⟩

theorem closePending (h : Served n) {close : Net → ℕ → Net}
    (hclose : ∀ n q, Served n → Served (close n q) ∧ Forgets n (close n q)) (k fd : ℕ) :
    Served (Net.closePending close k n fd) ∧ Forgets n (Net.closePending close k n fd) := by
  refine closePending_induct (P := fun n' => Served n' ∧ Forgets n n') (fun n' q hn => ?_)
    (fun n' fd hn => ?_) k n fd ⟨h, .of_bus rfl⟩
  · obtain ⟨h1, h2⟩ := hclose n' q hn.1
    exact ⟨h1, hn.2.trans h2⟩
  · exact ⟨hn.1.same (.setSock n' rfl rfl rfl) rfl, hn.2.trans (.of_bus rfl)⟩

theorem closeFuel (fuel : ℕ) (n : Net) (fd : ℕ) (h : Served n) :
    Served (sockCloseFuel fuel n fd) ∧ Forgets n (sockCloseFuel fuel n fd) := by
  induction fuel generalizing n fd with
  | zero => exact ⟨h, .of_bus rfl⟩
  | succ fuel ih =>
    unfold sockCloseFuel
    split_ifs
    · exact ⟨h, .of_bus rfl⟩
    · obtain ⟨h1, hf1, hk1, -⟩ := h.closeVirtual fd
      obtain ⟨h2, hf2⟩ := h1.closePending (fun n q hn => ih n q hn) sockAcceptq fd
      exact ⟨h2.shut fun hk => hk1 (hf2.knows fd hk),
        hf1.trans (hf2.trans (.of_bus (shut_bus _ fd)))⟩

theorem close (h : Served n) (hr : n.sockClose fd = (.ok (), n')) :
    Served n' ∧ Forgets n n' ∧ (n.bus.Knows fd → ∃ m : Net, n.bus.Dropped fd m.bus ∧
      m.bus.seeded = true ∧ Forgets m n') := by
  unfold Net.sockClose at hr
  split_ifs at hr with hl
  · cases (Prod.mk.inj hr).1
  obtain ⟨-, rfl⟩ := Prod.mk.inj hr
  obtain ⟨hs, hf⟩ := closeFuel (sockMax * sockAcceptq + 1) n fd h
  refine ⟨hs, hf, fun hk => ⟨n.closeVirtual fd, ?_⟩⟩
  obtain ⟨h1, hf1, -, hd⟩ := h.closeVirtual fd
  obtain ⟨-, hf2⟩ := h1.closePending (fun n q hn => closeFuel (sockMax * sockAcceptq) n q hn)
    sockAcceptq fd
  have hseed : n.bus.seeded = true := by
    by_contra hs
    exact h.tables.unseeded (by simpa using hs) fd hk
  refine ⟨hd hk, hf1.seeded hseed, ?_⟩
  unfold sockCloseFuel
  rw [if_neg hl]
  exact hf2.trans (.of_bus (shut_bus _ fd))

theorem close_any (h : Served n) (fd : ℕ) :
    Served (n.sockClose fd).2 ∧ Forgets n (n.sockClose fd).2 := by
  unfold Net.sockClose
  split_ifs
  · exact ⟨h, .of_bus rfl⟩
  · exact closeFuel _ n fd h

/-! ### Making and connecting -/

theorem not_knows (h : Served n) {i : ℕ} (hi : (n.socks i).used = false) : ¬n.bus.Knows i := by
  intro hk
  have := (live_iff.1 (h.client i hk).1).2
  rw [hi] at this
  cases this

theorem create (h : Served n) {domain type : ℕ} {protocol : ℤ} {r : Except SockErr ℕ}
    (hr : n.sockCreate domain type protocol = (r, n')) : Served n' ∧ n'.bus = n.bus := by
  cases r with
  | error e =>
    rw [sockCreate_error hr]
    exact ⟨h, rfl⟩
  | ok i =>
    obtain ⟨hi, hfree, t, p, -, -, rfl⟩ := sockCreate_ok hr
    exact ⟨h.setSock (h.not_knows hfree) (fun _ _ _ _ => nofun) (.inl ⟨hi, rfl⟩), rfl⟩

theorem link (h : Served n) {fd ns : ℕ} {s c : Sock} (hl : n.live fd = true) (hns : ns < sockMax)
    (hfd : ¬n.bus.Knows fd) (hfree : (n.socks ns).used = false) (hsu : s.used = true)
    (hsp : s.peer = some fd) (hcu : c.used = true) (hcp : c.peer = some ns) :
    Served ((n.setSock ns s).setSock fd c) := by
  have h1 : Served (n.setSock ns s) := by
    refine h.setSock (h.not_knows hfree) (fun _ i hi _ he => ?_) (.inl ⟨hns, hsu⟩)
    rw [hsp] at he
    obtain rfl := Option.some.inj he
    exact hfd hi
  refine h1.setSock hfd (fun _ i hi _ he => ?_) (.inl ⟨(live_iff.1 hl).1, hcu⟩)
  rw [hcp] at he
  obtain rfl := Option.some.inj he
  exact h.not_knows hfree hi

theorem linkEnds (h : Served n) {ns : ℕ} (hl : n.live fd = true) (hns : ns < sockMax) (hne : ns ≠ fd)
    (hfd : ¬n.bus.Knows fd) (hfree : (n.socks ns).used = false) (hsu : s.used = true)
    (hsp : s.peer = some fd) : Served (n.linkEnds fd ns s) := by
  refine h.link hl hns hfd hfree hsu hsp ?_ rfl
  dsimp only
  rw [setSock_of_ne _ hne.symm]
  exact (live_iff.1 hl).2

theorem seed (h : Served n) : Served (n.setBus n.bus.seedDefaults) :=
  h.alike (.of_rx fun _ => ⟨_, rfl⟩) h.tables.seedDefaults fun _ hi => .inl hi.of_seedDefaults

theorem connectVirtual (h : Served n) (hl : n.live fd = true) (hfd : ¬n.bus.Knows fd) (addr : Ip)
    (port : Port) :
    Served (n.connectVirtual fd addr port).2 ∧ ¬(n.connectVirtual fd addr port).2.bus.Knows fd := by
  unfold Net.connectVirtual
  dsimp only
  split_ifs
  · refine ⟨seed (n := n.setSock fd _) ?_, fun hk => hfd hk.of_seedDefaults⟩
    exact h.same (.setSock n rfl rfl rfl) rfl
  · split
    · exact ⟨h.same (.setSock n rfl rfl rfl) rfl, hfd⟩
    · next ns m hm =>
      obtain ⟨hi, hfree, t, p, -, -, rfl⟩ := sockCreate_ok hm
      have hne : fd ≠ ns := by
        rintro rfl
        rw [(live_iff.1 hl).2] at hfree
        cases hfree
      dsimp only
      rw [setSock_setSock, setSock_self, setSock_of_ne _ hne]
      exact ⟨h.link hl hi hfd hfree rfl rfl (live_iff.1 hl).2 rfl, hfd⟩
  · exact ⟨h.same (.setSock n rfl rfl rfl) rfl, hfd⟩
  · exact ⟨h.same (.setSock n rfl rfl rfl) rfl, hfd⟩

theorem connectListener (h : Served n) (hl : n.live fd = true) (hfd : ¬n.bus.Knows fd) (l : ℕ)
    (addr : Ip) :
    Served (n.connectListener fd l addr).2 ∧
      ¬(n.connectListener fd l addr).2.bus.Knows fd := by
  have hplain : Served (n.setSock fd (plain (n.socks fd))) := by
    refine h.setSock hfd (fun _ i hi hip he => ?_) (.inr (plain_virtService _))
    rw [plain_eq] at he
    exact h.apart i fd hi hl hip he
  have hlive : (n.setSock fd (plain (n.socks fd))).live fd = true := by
    rw [live_setSock (by rw [plain_eq])]
    exact hl
  rcases connectListener_cases (live_iff.1 hl).2 rfl with
    ⟨e, hr⟩ | ⟨ns, s, hns, hne, hfree, ⟨p, ip, port, rfl⟩, hr⟩
  · rw [hr]
    exact ⟨hplain, hfd⟩
  · have hfree' : ((n.setSock fd (plain (n.socks fd))).socks ns).used = false := by
      rwa [setSock_of_ne _ hne]
    have hm := hplain.linkEnds (s := serverEnd (.fresh (plain (n.socks fd)).domain 1 p) ip port
      (plain (n.socks fd)) fd) hlive hns hne hfd hfree' rfl rfl
    rcases hr with ⟨hr, -⟩ | ⟨e, hr⟩
    · rw [hr]
      exact ⟨hm.same (.setSock _ rfl rfl rfl) rfl, hfd⟩
    · rw [hr]
      have hc := (hm.unlink (s := { ((n.setSock fd (plain (n.socks fd))).linkEnds fd ns
        (serverEnd (.fresh (plain (n.socks fd)).domain 1 p) ip port
          (plain (n.socks fd)) fd)).socks fd with peer := none, tcpState := .closed })
            rfl rfl rfl).close_any ns
      exact ⟨hc.1, fun hk => hfd (hc.2.knows fd hk)⟩

theorem connect (h : Served n) (hfd : ¬n.bus.Knows fd) (addr : Ip) (port : Port)
    (events : Option (List NetEvent)) :
    Served (n.sockConnect fd addr port events).2 ∧
      ¬(n.sockConnect fd addr port events).2.bus.Knows fd := by
  unfold Net.sockConnect
  by_cases h1 : (!n.live fd) = true
  · rw [if_pos h1]
    exact ⟨h, hfd⟩
  rw [if_neg h1]
  by_cases h2 : (n.socks fd).type = 1 ∧ (n.socks fd).tcpState = .established
  · rw [if_pos h2]
    exact ⟨h, hfd⟩
  rw [if_neg h2]
  have hl : n.live fd = true := by simpa using h1
  have hprep : Served (n.connectPrepare fd addr port) ∧
      (n.connectPrepare fd addr port).bus = n.bus ∧
      (n.connectPrepare fd addr port).live fd = true := by
    have hport : Served (n.connectPort (n.socks fd)).2 ∧
        (n.connectPort (n.socks fd)).2.bus = n.bus ∧
        (n.connectPort (n.socks fd)).2.socks = n.socks := by
      unfold connectPort
      split_ifs
      · exact ⟨h.same (.of_rx fun _ => ⟨_, rfl⟩) rfl, rfl, rfl⟩
      · exact ⟨h, rfl, rfl⟩
    obtain ⟨hs, hb, hk⟩ := hport
    unfold connectPrepare
    refine ⟨?_, hb, ?_⟩
    · refine hs.setSock (by rwa [hb]) (fun _ i hi hip he => ?_) (.inl ⟨(live_iff.1 hl).1, ?_⟩)
      · rw [hb] at hi
        rw [hk] at hip
        exact h.apart i fd hi hl hip he
      · exact (live_iff.1 hl).2
    · exact live_iff.2 ⟨(live_iff.1 hl).1, by rw [setSock_self]; exact (live_iff.1 hl).2⟩
  obtain ⟨hs, hb, hl'⟩ := hprep
  dsimp only
  rw [← hb] at hfd
  split_ifs
  · exact ⟨hs, hfd⟩
  · unfold connectExternal
    cases events with
    | none => exact ⟨hs.same (.setSock _ rfl rfl rfl) rfl, hfd⟩
    | some es =>
      dsimp only
      have hsyn : Alike (n.connectPrepare fd addr port) ((n.connectPrepare fd addr port).setSock fd
          { (n.connectPrepare fd addr port).socks fd with tcpState := .synSent }) :=
        .setSock _ rfl rfl rfl
      have ha := hsyn.trans (.netEvents es _)
      have hbus := netEvents_bus es ((n.connectPrepare fd addr port).setSock fd
        { (n.connectPrepare fd addr port).socks fd with tcpState := .synSent })
      rw [setSock_bus] at hbus
      have hs' := hs.same ha hbus
      split_ifs
      · exact ⟨hs', by rwa [hbus]⟩
      · exact ⟨hs'.same (.setSock _ rfl rfl rfl) rfl, by rwa [setSock_bus, hbus]⟩
      · exact ⟨hs'.same (.setSock _ rfl rfl rfl) rfl, by rwa [setSock_bus, hbus]⟩
  · cases (n.connectPrepare fd addr port).sockFindListener
        ((n.connectPrepare fd addr port).socks fd).domain addr port with
    | none => exact hs.connectVirtual hl' hfd addr port
    | some l => exact hs.connectListener hl' hfd l addr

end Served

end Net

end Ridux
