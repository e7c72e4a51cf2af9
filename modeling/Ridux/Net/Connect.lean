import Ridux.Net.Accept

/-!
# Connecting keeps links and queues

* `Net.connectTarget`, `Net.ConnectKeeps`: the listener that `sock_connect` reaches, and when it
  leaves an old peer alone;
* `Sound.pair`, `Sound.connect`: the two calls that make links.
-/

namespace Ridux

open Lib

namespace Net

/-- The listener that `sock_connect` reaches. -/
def connectTarget (n : Net) (fd : ℕ) (addr : Ip) (port : Port) : Option ℕ :=
  let m := n.connectPrepare fd addr port
  if (m.socks fd).type = 2 ∨ !sockIsLoopbackIp addr then none
  else m.sockFindListener (m.socks fd).domain addr port

/-- `sock_connect` does not replace a peer, and does not make its socket the client of a bridge while
it has another peer: there is none, or the socket is connected, or no listener and no bridge is
reached, or there is no slot for the other end. -/
def ConnectKeeps (n : Net) (fd : ℕ) (addr : Ip) (port : Port) : Prop :=
  (n.socks fd).peer = none ∨ (n.socks fd).type = 1 ∧ (n.socks fd).tcpState = .established ∨
    match n.connectTarget fd addr port with
    | none => sockVirtualClassify addr port ≠ .x11 ∧ sockVirtualClassify addr port ≠ .wl
    | some _ => ∀ i < sockMax, (n.socks i).used = true

theorem connectPrepare_socks (n : Net) (fd : ℕ) (addr : Ip) (port : Port) :
    ∃ c, (n.connectPrepare fd addr port).socks = (n.setSock fd c).socks ∧
      c.used = (n.socks fd).used ∧ c.peer = (n.socks fd).peer ∧
      c.acceptQ = (n.socks fd).acceptQ ∧ c.tcpState = (n.socks fd).tcpState ∧
      c.type = (n.socks fd).type ∧ c.virtService = sockVirtualClassify addr port := by
  unfold connectPrepare connectPort
  dsimp only
  split_ifs
  · exact ⟨_, rfl, rfl, rfl, rfl, rfl, rfl, rfl⟩
  · exact ⟨_, rfl, rfl, rfl, rfl, rfl, rfl, rfl⟩

theorem classify_external {addr : Ip} {port : Port} (h : ¬sockIsLoopbackIp addr = true) :
    sockVirtualClassify addr port ≠ .x11 ∧ sockVirtualClassify addr port ≠ .wl := by
  unfold sockVirtualClassify
  dsimp only
  rw [if_neg h]
  split_ifs <;> simp

theorem pairEnd_quiet (domain t : ℕ) (p : ℤ) (type peer : ℕ) (lp rp : Port) :
    (pairEnd (.fresh domain t p) type peer lp rp).tcpState ≠ .listen := by
  unfold pairEnd Sock.fresh Sock.zeroed
  dsimp only
  split_ifs <;> simp

namespace Sound

variable {n n' : Net} {held held' : ℕ → Bool} {fd domain type : ℕ} {protocol : ℤ} {addr : Ip}
  {r : Except SockErr Unit}

theorem pair (h : Sound n held) (held' : ℕ → Bool) {a b : ℕ}
    (hr : n.sockPairCreate domain type protocol = (.ok (a, b), n'))
    (hh : ∀ j, j ≠ a → j ≠ b → held' j = held j) :
    n.view a = none ∧ n.view b = none ∧ n'.live a = true ∧ n'.live b = true ∧ Sound n' held' ∧
      Grows n n' := by
  unfold sockPairCreate at hr
  split at hr
  · cases (Prod.mk.inj hr).1
  · next a' n1 ha =>
    split at hr
    · cases (Prod.mk.inj hr).1
    · next b' n2 hb =>
      obtain ⟨hab, hn'⟩ := Prod.mk.inj hr
      obtain ⟨rfl, rfl⟩ := Prod.mk.inj (Except.ok.inj hab)
      obtain ⟨hla, hfa, t, p, -, -, h1⟩ := sockCreate_ok ha
      obtain ⟨hlb, hfb, t', p', -, -, h2⟩ := sockCreate_ok hb
      obtain ⟨hva, hl1, hs1, hg1⟩ := h.create (fun j => if j = a' then held' j else held j)
        ha fun j hj => if_neg hj
      obtain ⟨hvb, hl2, hs2, hg2⟩ := hs1.create held' hb fun j hj => by
        by_cases hja : j = a'
        · exact (if_pos hja).symm
        · exact (hh j hja hj).trans (if_neg hja).symm
      have hne : a' ≠ b' := by
        rintro rfl
        rw [view_live hl1] at hvb
        cases hvb
      have hsa : n2.socks a' = .fresh domain t p := by
        rw [h2, setSock_of_ne _ hne, h1, setSock_self]
      have hsb : n2.socks b' = .fresh domain t' p' := by rw [h2, setSock_self]
      have hl1' : n2.live a' = true := live_iff.2 ⟨hla, by rw [hsa]; rfl⟩
      have hvb' : n.view b' = none := by
        cases hv : n.view b' with
        | none => rfl
        | some c =>
          obtain ⟨d, hd, -⟩ := hg1.kept b' c hv
          rw [hvb] at hd
          cases hd
      -- the ports come from a table with the same sockets
      generalize hm : n2.allocEph.2.allocEph.2 = m at hn'
      have hms : m.socks = n2.socks := by rw [← hm]; rfl
      have hsame : SameEnds n2 m := .of_socks hms
      have hlive : ∀ j, m.live j = n2.live j := fun j => live_congr (by rw [hms])
      have hsm := hsame.sound hs2
      obtain ⟨hs3, hg3⟩ := hsm.link (i := b') (j := a') (by rw [hlive, hl2]) (by rw [hlive, hl1'])
        hne.symm (by rw [hms, hsb]; rfl) (by rw [hms, hsa]; rfl) (by rw [hms, hsa]; rfl)
        (s := pairEnd (n2.socks b') type a' n2.allocEph.2.allocEph.1 n2.allocEph.1)
        (t := pairEnd (n2.socks a') type b' n2.allocEph.1 n2.allocEph.2.allocEph.1)
        ⟨by rw [hsb]; rfl, rfl, by rw [hms]; rfl⟩ ⟨by rw [hsa]; rfl, rfl, by rw [hms]; rfl⟩
        (by rw [hsa]; rfl) (fun hbr => by rw [hsb] at hbr; cases hbr)
        (fun hl => absurd hl (by rw [hsb]; exact pairEnd_quiet _ _ _ _ _ _ _))
        (fun hl => absurd hl (by rw [hsa]; exact pairEnd_quiet _ _ _ _ _ _ _))
      have hb1 : (m.setSock a' (pairEnd (m.socks a') type b' n2.allocEph.1
          n2.allocEph.2.allocEph.1)).socks b' = n2.socks b' := by
        rw [setSock_of_ne _ hne.symm, hms]
      rw [hb1, hms] at hn'
      rw [hn'] at hs3 hg3
      refine ⟨hva, hvb', ?_, ?_, hs3, (hg1.trans hg2).trans ((Grows.of_view hsame.view).trans hg3)⟩
      · obtain ⟨c, hc, -⟩ := hg3.kept a' _ (view_live (by rw [hlive, hl1']))
        exact view_isSome.1 (by rw [hc]; rfl)
      · obtain ⟨c, hc, -⟩ := hg3.kept b' _ (view_live (by rw [hlive, hl2]))
        exact view_isSome.1 (by rw [hc]; rfl)

theorem pair_error (h : Sound n held) {e : SockErr}
    (hr : n.sockPairCreate domain type protocol = (.error e, n')) : Sound n' held ∧ Grows n n' := by
  unfold sockPairCreate at hr
  split at hr
  · next e' n1 ha =>
    obtain rfl := (Prod.mk.inj hr).2
    rw [sockCreate_error ha]
    exact ⟨h, .refl n⟩
  · next a n1 ha =>
    split at hr
    · next e' n2 hb =>
      obtain rfl := (Prod.mk.inj hr).2
      obtain ⟨hva, hl1, -, -⟩ := h.create held ha fun _ _ => rfl
      rw [sockCreate_error hb]
      obtain ⟨-, -, t, p, -, -, rfl⟩ := sockCreate_ok ha
      rw [sockClose_alone hl1 (by rw [setSock_self]; simp [Sock.fresh, Sock.zeroed])
        (by rw [setSock_self]; rfl) (fun q hq => by rw [setSock_self] at hq; cases hq),
        setSock_setSock]
      refine h.freed fun hl => ?_
      rw [view_live hl] at hva
      cases hva
    · cases (Prod.mk.inj hr).1

theorem connectExternal_same (events : Option (List NetEvent))
    (hev : ∀ es, events = some es → ∀ ev ∈ es, ev.Tame) :
    SameEnds n (n.connectExternal fd events).2 := by
  unfold connectExternal
  cases events with
  | none => exact .setSock n rfl rfl rfl rfl fun hl => by cases hl
  | some es =>
    have h1 : SameEnds n (n.setSock fd { n.socks fd with tcpState := .synSent }) :=
      .setSock n rfl rfl rfl rfl fun hl => by cases hl
    have h2 := h1.trans (SameEnds.netEvents es (hev es rfl) _)
    dsimp only
    split_ifs
    · exact h2
    · exact h2.trans (.setSock _ rfl rfl rfl rfl id)
    · exact h2.trans (.setSock _ rfl rfl rfl rfl id)

theorem connectVirtual (h : Sound n held) (hl : n.live fd = true) (hh : held fd = true)
    (hfree : ∀ i, ¬n.live i = true → held i = false)
    (hp : (n.socks fd).peer = none ∨ internalBridge (n.socks fd) = false) (addr : Ip) (port : Port) :
    Sound (n.connectVirtual fd addr port).2 held ∧ Grows n (n.connectVirtual fd addr port).2 := by
  have hsame : ∀ st er, st ≠ .listen →
      Sound (n.setSock fd { n.socks fd with tcpState := st, error := er }) held ∧
        Grows n (n.setSock fd { n.socks fd with tcpState := st, error := er }) := by
    intro st er hst
    have hs : SameEnds n (n.setSock fd { n.socks fd with tcpState := st, error := er }) :=
      .setSock n rfl rfl rfl rfl fun hls => absurd hls hst
    exact ⟨hs.sound h, .of_view hs.view⟩
  unfold Net.connectVirtual
  dsimp only
  split_ifs with hd hb hdom
  · have hs : SameEnds (n.setSock fd { n.socks fd with tcpState := .established, error := none })
        ((n.setSock fd { n.socks fd with tcpState := .established, error := none }).setBus
          n.bus.seedDefaults) := .of_busStep (.setBus _ _)
    obtain ⟨h1, h2⟩ := hsame .established none (by simp)
    exact ⟨hs.sound h1, h2.trans (.of_view hs.view)⟩
  · have hp' : (n.socks fd).peer = none := hp.resolve_right (by simp [internalBridge, hb])
    split
    · exact hsame .closed (some .econnrefused) (by simp)
    · next ns m hm =>
      obtain ⟨hns, hnf, t, p, -, ht, rfl⟩ := sockCreate_ok hm
      have hne : fd ≠ ns := by
        rintro rfl
        rw [(live_iff.1 hl).2] at hnf
        cases hnf
      have hns' : ¬n.live ns = true := by simp [live_iff, hnf]
      dsimp only
      rw [setSock_self, setSock_setSock, setSock_of_ne _ hne]
      obtain ⟨h1, h2, -⟩ := h.linkNew hl hh hp' hns hnf (hfree ns hns')
        (s := serverEnd (.fresh (n.socks fd).domain 1 p) addr port (n.socks fd) fd)
        (t := { n.socks fd with peer := some ns, tcpState := .established, error := none })
        ⟨rfl, rfl, rfl⟩ rfl (by simp [serverEnd]) ⟨(live_iff.1 hl).2, rfl, rfl⟩
      obtain rfl := ht rfl
      exact ⟨h1, h2⟩
  · exact hsame .closed (some .econnrefused) (by simp)
  · exact hsame .established none (by simp)

/-- `sock_connect` to a listener: a new socket is linked and waits at the end of the queue, or nothing
is left of it. -/
theorem connectListener (h : Sound n held) (hl : n.live fd = true) (hh : held fd = true)
    (hfree : ∀ i, ¬n.live i = true → held i = false) {l : ℕ} (hll : n.live l = true)
    (hlh : held l = true) (hp : (n.socks fd).peer = none ∨ ∀ i < sockMax, (n.socks i).used = true)
    (hr : n.connectListener fd l addr = (r, n')) :
    Sound n' held ∧ ((∃ e, r = .error e) ∧ Grows n n' ∨
      ∃ ns, r = .ok () ∧ (n'.socks fd).peer = some ns ∧ n.view ns = none ∧ n'.live ns = true ∧
        Extends n n' fun j => if j = l then [ns] else []) := by
  have hu := (live_iff.1 hl).2
  obtain ⟨hs1, hg1⟩ := h.touch hl hh (s := plain (n.socks fd)) (by rw [plain_eq]; exact hu)
    (by rw [plain_eq]) (by rw [plain_eq]) fun hb => by simp [internalBridge] at hb
  rcases connectListener_cases hu hr with ⟨e, he⟩ | ⟨ns, s, hns, hne, hnf, ⟨p, ip, port, hs⟩, hcase⟩
  · obtain ⟨rfl, rfl⟩ := Prod.mk.inj he
    exact ⟨hs1, .inl ⟨⟨e, rfl⟩, hg1⟩⟩
  · have hp' : (n.socks fd).peer = none := hp.resolve_right fun hfull => by
      have := hfull ns hns
      rw [hnf] at this
      cases this
    have hns' : ¬n.live ns = true := by simp [live_iff, hnf]
    generalize hn1 : n.setSock fd (plain (n.socks fd)) = n1 at hs1 hg1 hcase
    have hfd1 : n1.socks fd = plain (n.socks fd) := by rw [← hn1, setSock_self]
    have hlive1 : ∀ j, n1.live j = n.live j := fun j => by
      rw [← hn1]
      exact live_setSock (by rw [plain_eq]) j
    have hnf1 : (n1.socks ns).used = false := by rw [← hn1, setSock_of_ne _ hne, hnf]
    have hp1 : (n1.socks fd).peer = none := by rw [hfd1, plain_eq, hp']
    have hsu : s.used = true ∧ s.peer = some fd ∧ s.acceptQ = Sock.zeroed.acceptQ := by
      rw [hs]
      exact ⟨rfl, rfl, rfl⟩
    have hsv : s.virtService = .none := by rw [hs]; rfl
    have hsb : internalBridge s = false := by simp [internalBridge, hsv]
    have hst : s.tcpState ≠ .listen := by
      rw [hs]
      simp [serverEnd]
    have hl1 : n1.live fd = true := by rw [hlive1, hl]
    have hlive2 : ∀ j, j ≠ ns → (n1.linkEnds fd ns s).live j = n.live j := by
      intro j hj
      rw [← hlive1 j]
      refine live_congr ?_
      by_cases hjf : j = fd
      · rw [hjf, linkEnds_self _ hne]
      · rw [linkEnds_of_ne _ hjf hj]
    obtain ⟨hs2, hg2, hw2⟩ := hs1.linkNew hl1 hh hp1 hns hnf1 (hfree ns hns') hsu hsb hst
      (t := { (n1.setSock ns s).socks fd with peer := some ns, tcpState := .established })
      ⟨by rw [setSock_of_ne _ hne.symm]; exact (live_iff.1 hl1).2, rfl,
        by rw [setSock_of_ne _ hne.symm]⟩
    rw [show (n1.setSock ns s).setSock fd { (n1.setSock ns s).socks fd with
      peer := some ns, tcpState := .established } = n1.linkEnds fd ns s from rfl] at hs2 hg2 hw2
    have hnew : (n1.linkEnds fd ns s).socks ns = s := linkEnds_new n1 hne s
    have hself := linkEnds_self n1 hne s
    have hother : ∀ j, j ≠ fd → j ≠ ns → (n1.linkEnds fd ns s).socks j = n1.socks j :=
      fun j hj hj' => linkEnds_of_ne n1 hj hj' s
    generalize n1.linkEnds fd ns s = m at *
    have hlns : m.live ns = true := live_iff.2 ⟨hns, by rw [hnew]; exact hsu.1⟩
    rcases hcase with ⟨he, hroom⟩ | ⟨e, he⟩
    · -- the listener has room
      obtain ⟨rfl, rfl⟩ := Prod.mk.inj he
      have hln : l ≠ ns := by
        rintro rfl
        exact hns' hll
      have hbr : ∀ q, (m.socks ns).peer = some q → internalBridge (m.socks q) = false := by
        intro q hq
        rw [hnew, hsu.2.1] at hq
        obtain rfl := Option.some.inj hq
        rw [hself, hfd1]
        show internalBridge (plain (n.socks fd)) = false
        simp [internalBridge]
      obtain ⟨hs3, hext⟩ := hs2.push (l := l) (q := ns) (by rw [hlive2 l hln, hll]) hlh hlns
        (hfree ns hns') hw2 hbr hroom
      refine ⟨hs3, .inr ⟨ns, rfl, ?_, view_free hns', ?_, (hg1.trans hg2).extends hext ?_⟩⟩
      · by_cases hlf : fd = l
        · subst hlf
          rw [setSock_self, hself]
        · rw [setSock_of_ne _ hlf, hself]
      · obtain ⟨b, hb, -⟩ := hext.kept ns _ (view_live hlns)
        exact view_isSome.1 (by rw [hb]; rfl)
      · intro j hj
        refine if_neg ?_
        rintro rfl
        rw [view_live hll] at hj
        cases hj
    · -- the listener has no room, and the new socket is closed again
      obtain ⟨rfl, hn'⟩ := Prod.mk.inj he
      generalize hc : ({ m.socks fd with peer := none, tcpState := .closed } : Sock) = c at hn'
      rw [hself] at hc
      have hcu : c.used = (n1.socks fd).used ∧ c.peer = none ∧ c.acceptQ = (n1.socks fd).acceptQ ∧
          c.virtService = (n1.socks fd).virtService ∧ c.tcpState = .closed := by
        rw [← hc]
        exact ⟨rfl, rfl, rfl, rfl, rfl⟩
      have hnew' : (m.setSock fd c).socks ns = s := by rw [setSock_of_ne _ hne, hnew]
      rw [sockClose_alone (live_iff.2 ⟨hns, by rw [hnew']; exact hsu.1⟩)
        (by rw [hnew', hsv]; simp) (by rw [hnew', hsu.2.2]; rfl) (fun q hq => by
          rw [hnew', hsu.2.1] at hq
          obtain rfl := Option.some.inj hq
          rw [setSock_self, hcu.2.1]
          simp)] at hn'
      obtain ⟨hs3, hg3⟩ := hs1.freed (i := ns) (by rw [hlive1]; exact hns')
      have hsame : SameEnds (n1.setSock ns .zeroed) n' := by
        have hfd : (n1.setSock ns .zeroed).socks fd = n1.socks fd := setSock_of_ne _ hne.symm _
        refine (SameEnds.setSock (n1.setSock ns .zeroed) (i := fd) (s := c) (by rw [hfd, hcu.1])
          (by rw [hfd, hcu.2.1, hp1]) (by rw [hfd, hcu.2.2.1]) (by rw [hfd, hcu.2.2.2.1])
          fun hl => ?_).trans (.of_socks (funext fun j => ?_))
        · rw [hcu.2.2.2.2] at hl
          cases hl
        · rw [hn']
          by_cases hjn : j = ns
          · rw [hjn, setSock_self, setSock_of_ne _ hne, setSock_self]
          · rw [setSock_of_ne _ hjn]
            by_cases hjf : j = fd
            · rw [hjf, setSock_self, setSock_self]
            · rw [setSock_of_ne _ hjf, setSock_of_ne _ hjf, setSock_of_ne _ hjn, hother j hjf hjn]
      exact ⟨hsame.sound hs3,
        .inl ⟨⟨e, rfl⟩, (hg1.trans hg3).trans (.of_view hsame.view)⟩⟩

theorem error_ne_ok {e : SockErr} : (Except.error e : Except SockErr Unit) ≠ .ok () := by
  simp

theorem connect (h : Sound n held) (hh : n.live fd = true → held fd = true)
    (hfree : ∀ i, ¬n.live i = true → held i = false) {port : Port} {events : Option (List NetEvent)}
    (hev : ∀ es, events = some es → ∀ ev ∈ es, ev.Tame)
    (hkeep : n.live fd = true → n.ConnectKeeps fd addr port)
    (hr : n.sockConnect fd addr port events = (r, n')) :
    Sound n' held ∧
      ((r = .ok () → n.connectTarget fd addr port = none) ∧ Grows n n' ∨
        ∃ l ns, r = .ok () ∧ n.connectTarget fd addr port = some l ∧ n.live l = true ∧
          (n'.socks fd).peer = some ns ∧ n.view ns = none ∧ n'.live ns = true ∧
          Extends n n' fun j => if j = l then [ns] else []) := by
  unfold sockConnect at hr
  by_cases hl : n.live fd = true
  · rw [if_neg (by simp [hl])] at hr
    by_cases hest : (n.socks fd).type = 1 ∧ (n.socks fd).tcpState = .established
    · rw [if_pos hest] at hr
      obtain ⟨rfl, rfl⟩ := Prod.mk.inj hr
      exact ⟨h, .inl ⟨fun he => absurd he error_ne_ok, .refl n⟩⟩
    · rw [if_neg hest] at hr
      have hkeep' := (hkeep hl).imp id fun hk => hk.resolve_left hest
      have htarget : n.connectTarget fd addr port =
          (if ((n.connectPrepare fd addr port).socks fd).type = 2 ∨ !sockIsLoopbackIp addr then none
          else (n.connectPrepare fd addr port).sockFindListener
            ((n.connectPrepare fd addr port).socks fd).domain addr port) := rfl
      obtain ⟨c, hc, hcu, hcp, hcq, -, -, hcv⟩ := connectPrepare_socks n fd addr port
      generalize n.connectPrepare fd addr port = m at hr htarget hc
      dsimp only at hr
      have hmc : m.socks fd = c := by rw [hc, setSock_self]
      have hlive : ∀ j, m.live j = n.live j := fun j => by
        rw [live_congr (show (m.socks j).used = ((n.setSock fd c).socks j).used by rw [hc])]
        exact live_setSock hcu j
      have hlm : m.live fd = true := by rw [hlive, hl]
      have hsm : SameEnds (n.setSock fd c) m := .of_socks hc
      have hprep : internalBridge c = false ∨ (n.socks fd).peer = none →
          Sound m held ∧ Grows n m := by
        intro hcase
        obtain ⟨h1, h2⟩ := h.touch hl (hh hl) (hcu.trans (live_iff.1 hl).2) hcp hcq fun hb =>
          .inr (hcase.resolve_left (by simp [hb]))
        exact ⟨hsm.sound h1, h2.trans (.of_view hsm.view)⟩
      -- without a listener there is no peer, or no bridge
      have hnone : n.connectTarget fd addr port = none →
          internalBridge c = false ∨ (n.socks fd).peer = none := by
        intro ht
        rcases hkeep' with hp | hk
        · exact .inr hp
        · rw [ht] at hk
          exact .inl (by simp [internalBridge, hcv, hk])
      by_cases htype : (m.socks fd).type = 2
      · rw [if_pos htype] at hr
        obtain ⟨rfl, rfl⟩ := Prod.mk.inj hr
        rw [if_pos (.inl htype)] at htarget
        obtain ⟨h1, h2⟩ := hprep (hnone htarget)
        exact ⟨h1, .inl ⟨fun _ => htarget, h2⟩⟩
      · rw [if_neg htype] at hr
        by_cases hloop : sockIsLoopbackIp addr = true
        · rw [if_neg (by simp [hloop])] at hr
          rw [if_neg (by simp [htype, hloop])] at htarget
          cases hfind : m.sockFindListener (m.socks fd).domain addr port with
          | none =>
            rw [hfind] at hr htarget
            obtain ⟨h1, h2⟩ := hprep (hnone htarget)
            obtain ⟨h3, h4⟩ := h1.connectVirtual hlm (hh hl)
              (fun i hi => hfree i (by rwa [← hlive])) (by
                rw [hmc, hcp]
                exact (hnone htarget).symm) addr port
            obtain ⟨rfl, rfl⟩ := Prod.mk.inj hr
            exact ⟨h3, .inl ⟨fun _ => htarget, h2.trans h4⟩⟩
          | some l =>
            rw [hfind] at hr htarget
            obtain ⟨hlt, hlis⟩ := firstSlot_eq_some hfind
            have hlis' : (m.socks l).used = true ∧ (m.socks l).tcpState = .listen := by
              simp only [decide_eq_true_eq] at hlis
              exact ⟨hlis.1, hlis.2.2.2.1⟩
            have hll : m.live l = true := live_iff.2 ⟨hlt, hlis'.1⟩
            rcases hkeep' with hp | hfull
            · obtain ⟨h1, h2⟩ := hprep (.inr hp)
              obtain ⟨h3, h4⟩ := h1.connectListener hlm (hh hl) (fun i hi => hfree i (by rwa [← hlive]))
                hll (h1.listener l hll hlis'.2) (.inl (by rw [hmc, hcp, hp])) hr
              refine ⟨h3, ?_⟩
              rcases h4 with ⟨⟨e, rfl⟩, h5⟩ | ⟨ns, rfl, hpeer, hvn, hln, hext⟩
              · exact .inl ⟨fun he => absurd he error_ne_ok, h2.trans h5⟩
              · have hvn' : n.view ns = none :=
                  view_free (by rw [← hlive, ← view_isSome, hvn]; simp)
                have hll' : n.live l = true := by rw [← hlive, hll]
                refine .inr ⟨l, ns, rfl, htarget, hll', hpeer, hvn', hln, h2.extends hext ?_⟩
                intro j hj
                refine if_neg ?_
                rintro rfl
                rw [view_live hll'] at hj
                cases hj
            · -- no slot is left, and the socket is no client of a bridge any more
              rw [htarget] at hfull
              obtain ⟨h1, h2⟩ := h.touch hl (hh hl) (s := plain c)
                (by rw [plain_eq]; exact hcu.trans (live_iff.1 hl).2) (by rw [plain_eq]; exact hcp)
                (by rw [plain_eq]; exact hcq) fun hb => by simp [internalBridge] at hb
              have hsame : SameEnds (n.setSock fd (plain c)) (m.setSock fd (plain c)) := by
                refine .of_socks ?_
                unfold setSock at hc ⊢
                dsimp only at hc ⊢
                rw [hc, Function.update_idem]
              rcases connectListener_cases (live_iff.1 hlm).2 hr with
                ⟨e, he⟩ | ⟨ns, s, hns, hne, hnf, -, -⟩
              · obtain ⟨rfl, rfl⟩ := Prod.mk.inj he
                rw [hmc]
                exact ⟨hsame.sound h1, .inl ⟨fun he => absurd he error_ne_ok,
                  h2.trans (.of_view hsame.view)⟩⟩
              · have := hfull ns hns
                rw [hc, setSock_of_ne _ hne, this] at hnf
                cases hnf
        · rw [if_pos (by simp [hloop])] at hr
          rw [if_pos (.inr (by simp [hloop]))] at htarget
          obtain ⟨h1, h2⟩ := hprep (.inl (by simp [internalBridge, hcv, classify_external hloop]))
          have hsame : SameEnds m n' := by
            have hsame : SameEnds m (m.connectExternal fd events).2 := connectExternal_same events hev
            rwa [hr] at hsame
          exact ⟨hsame.sound h1, .inl ⟨fun _ => htarget, h2.trans (.of_view hsame.view)⟩⟩
  · rw [if_pos (by simp [hl])] at hr
    obtain ⟨rfl, rfl⟩ := Prod.mk.inj hr
    exact ⟨h, .inl ⟨fun he => absurd he error_ne_ok, .refl n⟩⟩

theorem congr_held (h : Sound n held) (hh : ∀ i, n.live i = true → held' i = held i) :
    Sound n held' :=
  ⟨h.ok, h.linked.congr_held fun i hi => hh i (view_isSome.1 hi),
    fun i hi ht => (hh i hi).trans (h.listener i hi ht)⟩

end Sound

end Net

end Ridux
