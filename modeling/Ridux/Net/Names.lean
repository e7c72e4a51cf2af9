import Ridux.Net.Stream

/-!
# The names of sockets

The domain and the local port of a socket are its name: where a connection or a datagram looks for it.

* `Net.name`: the name of a socket in use;
* `Net.Fewer`: no socket gets a name;
* `Net.Named`: what `sock_connect` names, the socket itself and the other end that it makes.
-/

namespace Ridux

open Lib Option

/-- The domain and the local port. -/
def Sock.name (s : Sock) : Option (ℕ × Port) := if s.used then some (s.domain, s.localPort) else none

theorem Sock.name_eq_some {s : Sock} {x : ℕ × Port} (h : s.name = some x) :
    s.used = true ∧ x = (s.domain, s.localPort) := by
  unfold name at h
  split_ifs at h with hu
  exact ⟨hu, (some.inj h).symm⟩

theorem Sock.name_used {s : Sock} (h : s.used = true) : s.name = some (s.domain, s.localPort) :=
  if_pos h

namespace Net

/-- The name of the socket `i`. -/
def name (n : Net) (i : ℕ) : Option (ℕ × Port) := (n.socks i).name

variable {n n' : Net} {fd i j : ℕ} {s : Sock} {x : ℕ × Port}

theorem name_setSock_self (n : Net) (i : ℕ) (s : Sock) : (n.setSock i s).name i = s.name := by
  unfold name
  rw [setSock_self]

theorem name_setSock_of_ne (n : Net) (h : j ≠ i) (s : Sock) : (n.setSock i s).name j = n.name j := by
  unfold name
  rw [setSock_of_ne _ h]

/-- No socket gets a name, and the ephemeral ports are as before. -/
structure Fewer (n n' : Net) : Prop where
  name : ∀ i x, n'.name i = some x → n.name i = some x
  eph : n'.ephemeralPort = n.ephemeralPort

theorem Fewer.refl (n : Net) : Fewer n n := ⟨fun _ _ => id, rfl⟩

theorem Fewer.trans {n'' : Net} (h : Fewer n n') (h' : Fewer n' n'') : Fewer n n'' :=
  ⟨fun i x hx => h.name i x (h'.name i x hx), h'.eph.trans h.eph⟩

theorem fewer_setSock (h : ∀ x, s.name = some x → n.name i = some x) : Fewer n (n.setSock i s) := by
  refine ⟨fun j x hx => ?_, rfl⟩
  by_cases hj : j = i
  · subst hj
    rw [name_setSock_self] at hx
    exact h x hx
  · rwa [name_setSock_of_ne _ hj] at hx

theorem fewer_setSock_same (h : s.name = n.name i) : Fewer n (n.setSock i s) :=
  fewer_setSock fun x hx => by rw [← h, hx]

theorem fewer_zeroed (n : Net) (i : ℕ) : Fewer n (n.setSock i .zeroed) :=
  fewer_setSock fun x hx => by cases hx

/-! ### Closing -/

@[simp] theorem setBus_eph (n : Net) (b : Bus) : (n.setBus b).ephemeralPort = n.ephemeralPort := rfl

theorem emitTo_eph (m : DbusvOut) (arg0 : Bytes) (n : Net) (i : ℕ) :
    (emitTo m arg0 n i).ephemeralPort = n.ephemeralPort := by
  unfold emitTo queueMessage
  dsimp only
  split_ifs
  · split <;> rfl
  · rfl

theorem foldl_eph {α : Type*} {f : Net → α → Net} (hf : ∀ n a, (f n a).ephemeralPort = n.ephemeralPort)
    (l : List α) (n : Net) : (l.foldl f n).ephemeralPort = n.ephemeralPort := by
  induction l generalizing n with
  | nil => rfl
  | cons a l ih => rw [List.foldl_cons, ih, hf]

theorem emitNameOwnerChanged_eph (n : Net) (name old new : Bytes) :
    (n.emitNameOwnerChanged name old new).ephemeralPort = n.ephemeralPort := by
  unfold emitNameOwnerChanged
  cases dbusvStrBody 1024 [name, old, new] with
  | none => rfl
  | some body => exact foldl_eph (fun n i => emitTo_eph _ _ n i) _ n

theorem dropBinding_eph (fd : ℕ) (old : Bytes) (n : Net) (i : ℕ) :
    (dropBinding fd old n i).ephemeralPort = n.ephemeralPort := by
  unfold dropBinding
  dsimp only
  split_ifs
  · exact emitNameOwnerChanged_eph ..
  · rfl

theorem dbusvDropSocket_eph (n : Net) (fd : ℕ) :
    (n.dbusvDropSocket fd).ephemeralPort = n.ephemeralPort := by
  unfold dbusvDropSocket
  dsimp only
  have hfold := foldl_eph (dropBinding_eph fd ((n.bus.seedDefaults.ensureUniqueFd fd).unique fd))
    (List.range dbusvBindMax) (n.setBus (n.bus.seedDefaults.ensureUniqueFd fd))
  generalize List.foldl (dropBinding fd _) _ (List.range dbusvBindMax) = m at hfold ⊢
  rw [setBus_eph] at hfold
  split_ifs
  · rw [setBus_eph, emitNameOwnerChanged_eph, setBus_eph, hfold]
  · rw [setBus_eph, setBus_eph, hfold]

theorem closeVirtual_fewer (n : Net) (fd : ℕ) : Fewer n (n.closeVirtual fd) := by
  refine ⟨fun i x hx => ?_, ?_⟩
  · obtain ⟨r, hr, -⟩ := busStep_closeVirtual n fd i
    unfold name at hx
    rw [hr] at hx
    exact hx
  · unfold closeVirtual
    split_ifs
    · exact dbusvDropSocket_eph n fd
    · rfl

theorem detachPeer_fewer (n : Net) (fd : ℕ) : Fewer n (n.detachPeer fd) := by
  unfold detachPeer
  split
  · exact .refl n
  · split_ifs
    · exact fewer_zeroed n _
    · exact fewer_setSock_same rfl
    · exact .refl n

theorem closePending_fewer {close : Net → ℕ → Net} (hclose : ∀ n q, Fewer n (close n q)) (k : ℕ)
    (n : Net) (fd : ℕ) : Fewer n (closePending close k n fd) := by
  have hpop : ∀ m : Net, Fewer m
      (m.setSock fd { m.socks fd with acceptQ := (m.socks fd).acceptQ.next }) :=
    fun m => fewer_setSock_same rfl
  induction k generalizing n with
  | zero => exact .refl n
  | succ k ih =>
    unfold closePending
    dsimp only
    split_ifs
    · exact .refl n
    · exact (hpop n).trans ((hclose _ _).trans (ih _))
    · exact (hpop n).trans (ih _)

theorem sockCloseFuel_fewer (fuel : ℕ) (n : Net) (fd : ℕ) : Fewer n (sockCloseFuel fuel n fd) := by
  induction fuel generalizing n fd with
  | zero => exact .refl n
  | succ fuel ih =>
    unfold sockCloseFuel
    split_ifs
    · exact .refl n
    · dsimp only
      have hpending := closePending_fewer ih sockAcceptq (n.closeVirtual fd) fd
      refine (closeVirtual_fewer n fd).trans (hpending.trans ?_)
      exact (detachPeer_fewer _ fd).trans (fewer_zeroed _ fd)

theorem sockClose_fewer (n : Net) (fd : ℕ) : Fewer n (n.sockClose fd).2 := by
  unfold sockClose
  split_ifs
  · exact .refl n
  · exact sockCloseFuel_fewer _ n fd

/-! ### Connecting -/

/-- A socket that had no name may get one as `P` says; otherwise no socket gets a name. -/
structure Makes (n n' : Net) (P : ℕ × Port → Prop) : Prop where
  name : ∀ i x, n'.name i = some x → n.name i = some x ∨ n.name i = none ∧ P x
  eph : n'.ephemeralPort = n.ephemeralPort

variable {m : Net} {P : ℕ × Port → Prop}

theorem Fewer.makes (h : Fewer n n') : Makes n n' P := ⟨fun i x hx => .inl (h.name i x hx), h.eph⟩

theorem Makes.fewer (h : Makes n m P) (h' : Fewer m n') : Makes n n' P :=
  ⟨fun i x hx => h.name i x (h'.name i x hx), h'.eph.trans h.eph⟩

theorem Makes.mono {Q : ℕ × Port → Prop} (h : Makes n n' P) (hPQ : ∀ x, P x → Q x) : Makes n n' Q := by
  refine ⟨fun i x hx => ?_, h.eph⟩
  exact (h.name i x hx).imp_right fun hnew => ⟨hnew.1, hPQ x hnew.2⟩

theorem Makes.of_names (hname : m.name = n.name) (heph : m.ephemeralPort = n.ephemeralPort)
    (h : Makes m n' P) : Makes n n' P := by
  refine ⟨fun i x hx => ?_, h.eph.trans heph⟩
  rw [← hname]
  exact h.name i x hx

theorem makes_setSock (hfree : n.name i = none) (hs : ∀ x, s.name = some x → P x) :
    Makes n (n.setSock i s) P := by
  refine ⟨fun j x hx => ?_, rfl⟩
  by_cases hj : j = i
  · subst hj
    rw [name_setSock_self] at hx
    exact .inr ⟨hfree, hs x hx⟩
  · rw [name_setSock_of_ne _ hj] at hx
    exact .inl hx

theorem name_setSock (h : s.name = n.name i) : (n.setSock i s).name = n.name := by
  funext j
  by_cases hj : j = i
  · subst hj
    rw [name_setSock_self, h]
  · exact name_setSock_of_ne _ hj _

theorem plain_name (c : Sock) : (plain c).name = c.name := by
  rw [plain_eq]
  rfl

theorem name_eq_none (h : (n.socks i).used = false) : n.name i = none := by
  unfold name Sock.name
  rw [h]
  rfl

theorem linkEnds_makes (fd : ℕ) {ns : ℕ} (hfree : (n.socks ns).used = false)
    (hs : ∀ x, s.name = some x → P x) : Makes n (n.linkEnds fd ns s) P := by
  refine (makes_setSock (name_eq_none hfree) hs).fewer (fewer_setSock_same ?_)
  rfl

theorem netEvent_fewer (n : Net) (e : NetEvent) : Fewer n (n.netEvent e) := by
  cases e with
  | segment i state error payload =>
    unfold netEvent
    dsimp only
    split_ifs
    · exact fewer_setSock_same rfl
    · exact .refl n
  | dgram i payload ip port =>
    unfold netEvent
    dsimp only
    split_ifs
    · exact fewer_setSock_same rfl
    · exact fewer_setSock_same rfl
    · exact .refl n

theorem connectExternal_fewer (n : Net) (fd : ℕ) (events : Option (List NetEvent)) :
    Fewer n (n.connectExternal fd events).2 := by
  have hevents : ∀ (es : List NetEvent) (m : Net), Fewer m (es.foldl netEvent m) := by
    intro es
    induction es with
    | nil => exact fun m => .refl m
    | cons e es ih => exact fun m => (netEvent_fewer m e).trans (ih _)
  cases events with
  | none => exact fewer_setSock_same rfl
  | some es =>
    unfold connectExternal
    dsimp only
    have hsyn : Fewer n (n.setSock fd { n.socks fd with tcpState := .synSent }) :=
      fewer_setSock_same rfl
    split_ifs
    · exact hsyn.trans (hevents es _)
    · exact (hsyn.trans (hevents es _)).trans (fewer_setSock_same rfl)
    · exact (hsyn.trans (hevents es _)).trans (fewer_setSock_same rfl)

theorem setBus_fewer (n : Net) (b : Bus) : Fewer n (n.setBus b) := ⟨fun _ _ hx => hx, rfl⟩

theorem connectVirtual_makes (hfd : (n.socks fd).used = true) (addr : Ip) (port : Port) :
    Makes n (n.connectVirtual fd addr port).2 (· = ((n.socks fd).domain, port)) := by
  have hown : ∀ s : Sock, s.name = n.name fd →
      Makes n (n.setSock fd s) (· = ((n.socks fd).domain, port)) :=
    fun s hs => (fewer_setSock_same hs).makes
  unfold connectVirtual
  dsimp only
  split_ifs
  · refine Makes.fewer ?_ (setBus_fewer _ _)
    exact hown _ rfl
  · split
    · exact hown _ rfl
    · next ns m hm =>
      obtain ⟨-, hfree, t, p, -, -, rfl⟩ := sockCreate_ok hm
      have hne : ns ≠ fd := by
        rintro rfl
        rw [hfd] at hfree
        cases hfree
      rw [setSock_self, setSock_setSock]
      refine (makes_setSock (name_eq_none hfree) fun x hx => ?_).fewer (fewer_setSock_same rfl)
      exact (some.inj hx).symm
  · exact hown _ rfl
  · exact hown _ rfl

theorem connectListener_makes {l : ℕ} (hfd : (n.socks fd).used = true) (hl : (n.socks l).used = true)
    (addr : Ip) : Makes n (n.connectListener fd l addr).2
      (· = ((n.socks fd).domain, (n.socks l).localPort)) := by
  have hplain : (n.setSock fd (plain (n.socks fd))).name = n.name := name_setSock (plain_name _)
  have hdom : (plain (n.socks fd)).domain = (n.socks fd).domain := by
    rw [plain_eq]
  have hport : ((n.setSock fd (plain (n.socks fd))).socks l).localPort = (n.socks l).localPort ∧
      ((n.setSock fd (plain (n.socks fd))).socks l).used = true := by
    by_cases hlf : l = fd
    · subst hlf
      rw [setSock_self, plain_eq]
      exact ⟨rfl, hl⟩
    · rw [setSock_of_ne _ hlf]
      exact ⟨rfl, hl⟩
  refine Makes.of_names hplain rfl ?_
  unfold connectListener
  dsimp only
  generalize hm : n.setSock fd (plain (n.socks fd)) = m at hport
  have hmfd : (m.socks fd).used = true := by
    rw [← hm, setSock_self, plain_eq]
    exact hfd
  rw [hdom]
  cases hcreate : m.sockCreate (n.socks fd).domain 1 (plain (n.socks fd)).protocol with
  | mk r m' =>
    cases r with
    | error e =>
      rw [sockCreate_error hcreate]
      exact (Fewer.refl m).makes
    | ok ns =>
      obtain ⟨-, hfree, t, p, -, -, rfl⟩ := sockCreate_ok hcreate
      have hne : ns ≠ fd := by
        rintro rfl
        rw [hmfd] at hfree
        cases hfree
      have hnl : l ≠ ns := by
        rintro rfl
        rw [hport.2] at hfree
        cases hfree
      dsimp only
      rw [setSock_of_ne _ hnl, hport.1, setSock_self]
      have hlink : ∀ s, (m.setSock ns (.fresh (n.socks fd).domain t p)).linkEnds fd ns s =
          m.linkEnds fd ns s := by
        intro s
        simp only [linkEnds, setSock_setSock]
      rw [hlink]
      have hmakes := linkEnds_makes fd (P := (· = ((n.socks fd).domain, (n.socks l).localPort))) hfree
        (s := serverEnd (.fresh (n.socks fd).domain t p)
          (if (m.socks l).localIp ≠ 0 then (m.socks l).localIp else addr) (n.socks l).localPort
          (plain (n.socks fd)) fd) fun x hx => (some.inj hx).symm
      generalize m.linkEnds fd ns _ = k at hmakes ⊢
      rcases sockAcceptqPush_cases k l ns with ⟨e, hpush⟩ | ⟨hpush, -⟩
      · rw [hpush]
        refine Makes.fewer (m := k.setSock fd
          { k.socks fd with peer := none, tcpState := .closed }) ?_ (sockClose_fewer _ ns)
        exact hmakes.fewer (fewer_setSock_same rfl)
      · rw [hpush]
        exact hmakes.fewer (fewer_setSock_same rfl)

/-- The ephemeral ports are where `alloc_eph` keeps them. -/
def EphOk (n : Net) : Prop := 49152 ≤ n.ephemeralPort.toNat ∧ n.ephemeralPort.toNat ≤ 65500

theorem allocEph_ephOk (h : n.EphOk) : n.allocEph.2.EphOk := by
  obtain ⟨hlo, hhi⟩ := h
  unfold allocEph EphOk
  dsimp only
  split_ifs with hbig
  · decide
  · rw [BitVec.toNat_add] at hbig ⊢
    change ¬(n.ephemeralPort.toNat + 1) % 2 ^ 16 > 65500 at hbig
    change 49152 ≤ (n.ephemeralPort.toNat + 1) % 2 ^ 16 ∧ (n.ephemeralPort.toNat + 1) % 2 ^ 16 ≤ 65500
    omega

/-- What a call names: the socket itself gets an ephemeral port, when it has none, and new sockets get
names as `P` says. -/
structure Named (n n' : Net) (fd : ℕ) (P : ℕ × Port → Prop) : Prop where
  name : ∀ i x, n'.name i = some x → n.name i = some x ∨
    i = fd ∧ n.name fd = some (x.1, 0) ∧ x.2 = n.ephemeralPort ∨ n.name i = none ∧ P x
  eph : n.EphOk → n'.EphOk

theorem Makes.named (h : Makes n n' P) : Named n n' fd P := by
  refine ⟨fun i x hx => ?_, fun he => ?_⟩
  · rcases h.name i x hx with hold | hnew
    · exact .inl hold
    · exact .inr (.inr hnew)
  · unfold EphOk
    rw [h.eph]
    exact he

theorem connectPrepare_name (n : Net) (fd : ℕ) (addr : Ip) (port : Port) :
    (∀ i, i ≠ fd → (n.connectPrepare fd addr port).name i = n.name i) ∧
      (∀ x, (n.connectPrepare fd addr port).name fd = some x → n.name fd = some x ∨
        n.name fd = some (x.1, 0) ∧ x.2 = n.ephemeralPort) ∧
      (n.EphOk → (n.connectPrepare fd addr port).EphOk) := by
  unfold connectPrepare
  dsimp only
  refine ⟨fun i hi => ?_, fun x hx => ?_, fun he => ?_⟩
  · rw [name_setSock_of_ne _ hi]
    unfold connectPort
    split_ifs <;> rfl
  · rw [name_setSock_self] at hx
    obtain ⟨hu, rfl⟩ := Sock.name_eq_some hx
    have hname : n.name fd = some ((n.socks fd).domain, (n.socks fd).localPort) := Sock.name_used hu
    unfold connectPort
    split_ifs with hport
    · rw [hport] at hname
      exact .inr ⟨hname, rfl⟩
    · exact .inl hname
  · unfold connectPort
    split_ifs
    · exact allocEph_ephOk he
    · exact he

theorem Named.of_prepare (addr : Ip) (port : Port)
    (h : Makes (n.connectPrepare fd addr port) n' P) : Named n n' fd P := by
  obtain ⟨hother, hself, heph⟩ := n.connectPrepare_name fd addr port
  refine ⟨fun i x hx => ?_, fun he => ?_⟩
  · by_cases hi : i = fd
    · subst hi
      rcases h.name i x hx with hold | ⟨hnone, hnew⟩
      · rcases hself x hold with hsame | hnew
        · exact .inl hsame
        · exact .inr (.inl ⟨rfl, hnew⟩)
      · refine .inr (.inr ⟨?_, hnew⟩)
        unfold Net.name at hnone ⊢
        unfold connectPrepare at hnone
        rw [setSock_self] at hnone
        unfold Sock.name at hnone ⊢
        split_ifs at hnone with hu
        exact if_neg hu
    · have hsame := hother i hi
      rcases h.name i x hx with hold | ⟨hnone, hnew⟩
      · exact .inl (hsame.symm.trans hold)
      · exact .inr (.inr ⟨hsame.symm.trans hnone, hnew⟩)
  · unfold EphOk
    rw [h.eph]
    exact heph he

/-- **What `sock_connect` names.** -/
theorem sockConnect_named (n : Net) (fd : ℕ) (addr : Ip) (port : Port)
    (events : Option (List NetEvent)) :
    Named n (n.sockConnect fd addr port events).2 fd (· = ((n.socks fd).domain, port)) := by
  unfold sockConnect
  by_cases hlive : (!n.live fd) = true
  · rw [if_pos hlive]
    exact (Fewer.refl n).makes.named
  rw [if_neg hlive]
  by_cases hcon : (n.socks fd).type = 1 ∧ (n.socks fd).tcpState = .established
  · rw [if_pos hcon]
    exact (Fewer.refl n).makes.named
  rw [if_neg hcon]
  dsimp only
  have hused : ((n.connectPrepare fd addr port).socks fd).used = true := by
    unfold connectPrepare
    rw [setSock_self]
    have hlive : n.live fd = true := by simpa using hlive
    exact (live_iff.1 hlive).2
  have hdom : ((n.connectPrepare fd addr port).socks fd).domain = (n.socks fd).domain := by
    unfold connectPrepare
    rw [setSock_self]
  apply Named.of_prepare addr port
  generalize n.connectPrepare fd addr port = m at hused hdom
  rw [← hdom]
  split_ifs
  · exact (Fewer.refl m).makes
  · exact (connectExternal_fewer m fd events).makes
  · split
    · exact connectVirtual_makes hused addr port
    · next l hl =>
      obtain ⟨-, hfound⟩ := firstSlot_eq_some hl
      obtain ⟨hu, -, -, -, hp, -⟩ := of_decide_eq_true hfound
      have hmakes := connectListener_makes hused hu addr
      rwa [hp] at hmakes

/-! ### Making and sending -/

theorem sockCreate_makes (n : Net) (domain type : ℕ) (protocol : ℤ) :
    Makes n (n.sockCreate domain type protocol).2 fun x => x.2 = 0 := by
  cases hr : n.sockCreate domain type protocol with
  | mk r m =>
    cases r with
    | error e =>
      rw [sockCreate_error hr]
      exact (Fewer.refl n).makes
    | ok ns =>
      obtain ⟨-, hfree, t, p, -, -, rfl⟩ := sockCreate_ok hr
      refine makes_setSock (name_eq_none hfree) fun x hx => ?_
      obtain rfl := (some.inj hx).symm
      rfl

/-- A name that no path has: no port, or an ephemeral one. -/
def Unbound (n : Net) (x : ℕ × Port) : Prop := n.EphOk → x.2 = 0 ∨ 49152 ≤ x.2.toNat

theorem sockPairCreate_named (n : Net) (fd domain type : ℕ) (protocol : ℤ) :
    Named n (n.sockPairCreate domain type protocol).2 fd n.Unbound := by
  have hweak : ∀ m, Makes n m (fun x => x.2 = 0) → Named n m fd n.Unbound := by
    intro m hm
    exact (hm.mono fun x hx _ => .inl hx).named
  have hcreate := n.sockCreate_makes domain type protocol
  unfold sockPairCreate
  cases hr : n.sockCreate domain type protocol with
  | mk r m =>
    rw [hr] at hcreate
    cases r with
    | error e => exact hweak m hcreate
    | ok a =>
      obtain ⟨-, hfree, t, p, -, -, rfl⟩ := sockCreate_ok hr
      dsimp only
      cases hr' : (n.setSock a (.fresh domain t p)).sockCreate domain type protocol with
      | mk r' m' =>
        cases r' with
        | error e =>
          rw [sockCreate_error hr']
          exact hweak _ (hcreate.fewer (sockClose_fewer _ a))
        | ok b =>
          obtain ⟨-, hfree', t', p', -, -, rfl⟩ := sockCreate_ok hr'
          dsimp only
          have hba : b ≠ a := by
            rintro rfl
            rw [setSock_self] at hfree'
            cases hfree'
          rw [setSock_of_ne _ hba] at hfree'
          refine ⟨fun i x hx => ?_, fun he => ?_⟩
          · by_cases hib : i = b
            · subst hib
              rw [name_setSock_self] at hx
              refine .inr (.inr ⟨name_eq_none hfree', fun he => .inr ?_⟩)
              obtain ⟨-, rfl⟩ := Sock.name_eq_some hx
              exact (allocEph_ephOk he).1
            · rw [name_setSock_of_ne _ hib] at hx
              by_cases hia : i = a
              · subst hia
                rw [name_setSock_self] at hx
                refine .inr (.inr ⟨name_eq_none hfree, fun he => .inr ?_⟩)
                obtain ⟨-, rfl⟩ := Sock.name_eq_some hx
                exact he.1
              · rw [name_setSock_of_ne _ hia] at hx
                have hold : n.name i = some x := by
                  rw [← name_setSock_of_ne n hia (.fresh domain t p),
                    ← name_setSock_of_ne _ hib (.fresh domain t' p')]
                  exact hx
                exact .inl hold
          · exact allocEph_ephOk (allocEph_ephOk he)

theorem dgramTo_fewer (n : Net) (dst : ℕ) (src : Bytes) (ip : Ip) (port : Port) :
    Fewer n (n.dgramTo dst src ip port).2 := by
  unfold dgramTo
  split
  · exact .refl n
  · next len s hs =>
    refine fewer_setSock_same ?_
    unfold Sock.pushUdp at hs
    dsimp only at hs
    split_ifs at hs
    obtain ⟨-, rfl⟩ := Prod.mk.inj (Except.ok.inj hs)
    rfl

theorem sendDgram_named (n : Net) (fd : ℕ) (src : Bytes) :
    Named n (n.sendDgram .idle fd src).2 fd P := by
  unfold sendDgram
  by_cases hport : (n.socks fd).remotePort = 0
  · rw [if_pos hport]
    exact (Fewer.refl n).makes.named
  rw [if_neg hport]
  dsimp only
  have hself : Named n ((n.connectPort (n.socks fd)).2.setSock fd { n.socks fd with
      localPort := (n.connectPort (n.socks fd)).1
      localIp := n.connectIp (n.socks fd) (n.socks fd).remoteIp }) fd P := by
    refine ⟨fun i x hx => ?_, fun he => ?_⟩
    · by_cases hi : i = fd
      · subst hi
        rw [name_setSock_self] at hx
        obtain ⟨hu, rfl⟩ := Sock.name_eq_some hx
        have hname : n.name i = some ((n.socks i).domain, (n.socks i).localPort) := Sock.name_used hu
        unfold connectPort
        split_ifs with hp
        · rw [hp] at hname
          exact .inr (.inl ⟨rfl, hname, rfl⟩)
        · exact .inl hname
      · rw [name_setSock_of_ne _ hi] at hx
        refine .inl ?_
        unfold connectPort at hx
        split_ifs at hx <;> exact hx
    · unfold connectPort
      split_ifs
      · exact allocEph_ephOk he
      · exact he
  have hto : ∀ {m m' : Net}, Named n m fd P → Fewer m m' → Named n m' fd P := by
    intro m m' hm hf
    refine ⟨fun i x hx => hm.name i x (hf.name i x hx), fun he => ?_⟩
    unfold EphOk
    rw [hf.eph]
    exact hm.eph he
  split
  · exact hto hself (dgramTo_fewer _ _ _ _ _)
  · split_ifs
    · exact hself
    · split
      · exact hto hself (dgramTo_fewer _ _ _ _ _)
      · exact hself
    · exact hself

end Net

end Ridux
