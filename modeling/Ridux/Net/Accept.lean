import Ridux.Net.Pair
import Ridux.Net.Peers

/-!
# The socket calls keep links and queues

The table of sockets seen as a `PeerTable`, and what each call does to it.

* `Net.view`: the view; `Net.Sound`: it is linked, and only a held socket listens;
* `Net.Extends`: a call keeps the sockets in use and adds to their queues;
* `Sound.create`, `Sound.listen`, `Sound.accept`, `Sound.push`, `Sound.close`: what the calls keep.
-/

namespace Ridux

open Lib Function List Option

/-- What the table of links sees of a socket. -/
def Sock.view (s : Sock) : EndView := ⟨s.peer, s.acceptQ.contents, Net.internalBridge s⟩

/-- The TCP engine makes no listener. -/
def NetEvent.Tame : NetEvent → Prop
  | .segment _ state _ _ => state ≠ some .listen
  | .dgram .. => True

namespace Net

/-- The table of links. -/
def view (n : Net) : PeerTable := fun i => if n.live i then some (n.socks i).view else none

variable {n : Net} {i : ℕ}

theorem view_live (h : n.live i = true) : n.view i = some (n.socks i).view :=
  if_pos h

theorem view_free (h : ¬n.live i = true) : n.view i = none := if_neg h

theorem view_eq_some {a : EndView} :
    n.view i = some a ↔ n.live i = true ∧ (n.socks i).view = a := by
  unfold view
  split_ifs with h
  · simp [h]
  · simp [h]

theorem view_isSome : (n.view i).isSome ↔ n.live i = true := by
  unfold view
  split_ifs with h <;> simp [h]

variable {s : Sock}

theorem view_setSock_used (n : Net) (hi : i < sockMax) (hs : s.used = true) :
    (n.setSock i s).view = update n.view i (some s.view) := by
  funext j
  by_cases hj : j = i
  · subst hj
    rw [update_self, view_live (live_iff.2 ⟨hi, by rw [setSock_self]; exact hs⟩),
      setSock_self]
  · rw [update_of_ne hj, view, view, setSock_of_ne _ hj,
      live_congr (show ((n.setSock i s).socks j).used = (n.socks j).used by rw [setSock_of_ne _ hj])]

theorem view_setSock_free (n : Net) (hs : s.used = false) :
    (n.setSock i s).view = update n.view i none := by
  funext j
  by_cases hj : j = i
  · subst hj
    rw [update_self, view_free]
    rw [live_iff, setSock_self, hs]
    simp
  · rw [update_of_ne hj, view, view, setSock_of_ne _ hj,
      live_congr (show ((n.setSock i s).socks j).used = (n.socks j).used by rw [setSock_of_ne _ hj])]

/-- The table is linked, its queues are well formed, and only a held socket listens. -/
structure Sound (n : Net) (held : ℕ → Bool) : Prop where
  ok : ∀ i, (n.socks i).acceptQ.Ok
  linked : n.view.Linked held
  listener : ∀ i, n.live i = true → (n.socks i).tcpState = .listen → held i = true

/-- The sockets in use stay so, with what `add` says at the end of their queues; a new one has an
empty queue. -/
structure Extends (n n' : Net) (add : ℕ → List ℕ) : Prop where
  kept : ∀ j a, n.view j = some a → ∃ b, n'.view j = some b ∧ b.queue = a.queue ++ add j
  fresh : ∀ j b, n.view j = none → n'.view j = some b → b.queue = []

variable {n' n1 : Net} {j : ℕ}

theorem Extends.live {add : ℕ → List ℕ} (h : Extends n n' add) (hj : n.live j = true) :
    n'.live j = true ∧ (n'.socks j).acceptQ.contents = (n.socks j).acceptQ.contents ++ add j := by
  obtain ⟨b, hb, hq⟩ := h.kept j _ (view_live hj)
  obtain ⟨hl, rfl⟩ := view_eq_some.1 hb
  exact ⟨hl, hq⟩

theorem Extends.queue_new {add : ℕ → List ℕ} (h : Extends n n' add) (hj : ¬n.live j = true)
    (hj' : n'.live j = true) : (n'.socks j).acceptQ.contents = [] :=
  h.fresh j _ (view_free hj) (view_live hj')

/-- Nothing goes into a queue. -/
abbrev Grows (n n' : Net) : Prop := Extends n n' fun _ => []

theorem Grows.refl (n : Net) : Grows n n :=
  ⟨fun j a h => ⟨a, h, (append_nil _).symm⟩, fun j b h h' => by rw [h] at h'; cases h'⟩

theorem Grows.extends {add : ℕ → List ℕ} (h : Grows n n1) (h' : Extends n1 n' add)
    (hadd : ∀ j, n.view j = none → add j = []) : Extends n n' add := by
  refine ⟨fun j a ha => ?_, fun j b hj hb => ?_⟩
  · obtain ⟨b, hb, hq⟩ := h.kept j a ha
    obtain ⟨c, hc, hq'⟩ := h'.kept j b hb
    exact ⟨c, hc, by rw [hq', hq, append_nil]⟩
  · cases h1 : n1.view j with
    | none => exact h'.fresh j b h1 hb
    | some c =>
      obtain ⟨b', hb', hq⟩ := h'.kept j c h1
      obtain rfl := some.inj (hb.symm.trans hb')
      rw [hq, h.fresh j c hj h1, hadd j hj]
      rfl

theorem Grows.trans (h : Grows n n1) (h' : Grows n1 n') : Grows n n' :=
  h.extends h' fun _ _ => rfl

theorem Grows.of_view (h : n'.view = n.view) : Grows n n' :=
  ⟨fun j a ha => ⟨a, by rw [h]; exact ha, (append_nil _).symm⟩,
    fun j b hj hb => by rw [h, hj] at hb; cases hb⟩

/-! ### Changes that links do not see -/

/-- Sockets in which at most data and the state of the connection change. -/
def SameEnds (n n' : Net) : Prop :=
  ∀ j, (n'.socks j).used = (n.socks j).used ∧ (n'.socks j).peer = (n.socks j).peer ∧
    (n'.socks j).acceptQ = (n.socks j).acceptQ ∧
    (n'.socks j).virtService = (n.socks j).virtService ∧
    ((n'.socks j).tcpState = .listen → (n.socks j).tcpState = .listen)

theorem SameEnds.refl (n : Net) : SameEnds n n := fun _ => ⟨rfl, rfl, rfl, rfl, id⟩

theorem SameEnds.trans {a b c : Net} (h : SameEnds a b) (h' : SameEnds b c) : SameEnds a c := by
  intro j
  obtain ⟨h1, h2, h3, h4, h5⟩ := h j
  obtain ⟨g1, g2, g3, g4, g5⟩ := h' j
  exact ⟨g1.trans h1, g2.trans h2, g3.trans h3, g4.trans h4, fun hl => h5 (g5 hl)⟩

theorem SameEnds.view (h : SameEnds n n') : n'.view = n.view := by
  funext j
  obtain ⟨h1, h2, h3, h4, -⟩ := h j
  rw [Net.view, Net.view, live_congr h1, Sock.view, Sock.view, internalBridge, internalBridge, h2,
    h3, h4]

theorem SameEnds.sound {held : ℕ → Bool} (h : SameEnds n n') (hs : Sound n held) :
    Sound n' held := by
  refine ⟨fun j => ?_, h.view ▸ hs.linked, fun j hj hl => ?_⟩
  · rw [(h j).2.2.1]
    exact hs.ok j
  · rw [live_congr (h j).1] at hj
    exact hs.listener j hj ((h j).2.2.2.2 hl)

theorem SameEnds.of_busStep (h : BusStep n n') : SameEnds n n' := by
  intro j
  obtain ⟨r, hr, -⟩ := h j
  rw [hr]
  exact ⟨rfl, rfl, rfl, rfl, id⟩

theorem SameEnds.of_socks (h : n'.socks = n.socks) : SameEnds n n' := by
  intro j
  rw [h]
  exact ⟨rfl, rfl, rfl, rfl, id⟩

theorem SameEnds.setSock (n : Net) (hu : s.used = (n.socks i).used) (hp : s.peer = (n.socks i).peer)
    (hq : s.acceptQ = (n.socks i).acceptQ) (hv : s.virtService = (n.socks i).virtService)
    (ht : s.tcpState = .listen → (n.socks i).tcpState = .listen) : SameEnds n (n.setSock i s) := by
  intro j
  by_cases hj : j = i
  · rw [hj, setSock_self]
    exact ⟨hu, hp, hq, hv, ht⟩
  · rw [setSock_of_ne _ hj]
    exact ⟨rfl, rfl, rfl, rfl, id⟩

theorem SameEnds.netEvent (n : Net) {ev : NetEvent} (hev : ev.Tame) :
    SameEnds n (n.netEvent ev) := by
  cases ev with
  | segment i state error payload =>
    unfold Net.netEvent
    dsimp only
    split_ifs
    · refine .setSock n rfl rfl rfl rfl fun hl => ?_
      cases state with
      | none => exact hl
      | some st => exact absurd (congrArg some hl) hev
    · exact .refl n
  | dgram i payload ip port =>
    unfold Net.netEvent
    dsimp only
    split_ifs
    · exact .setSock n rfl rfl rfl rfl id
    · exact .setSock n rfl rfl rfl rfl id
    · exact .refl n

theorem SameEnds.netEvents (es : List NetEvent) (hes : ∀ ev ∈ es, ev.Tame) :
    ∀ n : Net, SameEnds n (es.foldl Net.netEvent n) := by
  induction es with
  | nil => exact .refl
  | cons ev es ih =>
    intro n
    exact (SameEnds.netEvent n (hes ev mem_cons_self)).trans
      (ih (fun ev' h => hes ev' (mem_cons_of_mem _ h)) _)

/-! ### Single sockets -/

namespace Sound

variable {n : Net} {held held' : ℕ → Bool} {fd q : ℕ}

theorem ok_setSock (h : Sound n held) (hs : s.acceptQ.Ok) (j : ℕ) :
    ((n.setSock i s).socks j).acceptQ.Ok := by
  by_cases hj : j = i
  · rw [hj, setSock_self]
    exact hs
  · rw [setSock_of_ne _ hj]
    exact h.ok j

theorem touch (h : Sound n held) (hl : n.live fd = true) (hh : held fd = true) (hu : s.used = true)
    (hp : s.peer = (n.socks fd).peer) (hq : s.acceptQ = (n.socks fd).acceptQ)
    (hb : internalBridge s = true → internalBridge (n.socks fd) = true ∨ (n.socks fd).peer = none) :
    Sound (n.setSock fd s) held ∧ Grows n (n.setSock fd s) := by
  have hv := view_setSock_used n (live_iff.1 hl).1 hu
  refine ⟨⟨h.ok_setSock (by rw [hq]; exact h.ok fd), ?_, fun j hj ht => ?_⟩, fun j a ha => ?_,
    fun j b hj hb' => ?_⟩
  · rw [hv]
    refine h.linked.touch (view_live hl) hp ?_ fun hbr => (hb hbr).imp id fun hno => ⟨hno, hh⟩
    show s.acceptQ.contents.Sublist _
    rw [hq]
    exact .refl _
  · by_cases hjf : j = fd
    · rw [hjf]
      exact hh
    · rw [setSock_of_ne _ hjf] at ht
      refine h.listener j ?_ ht
      rwa [← live_congr (show ((n.setSock fd s).socks j).used = _ by rw [setSock_of_ne _ hjf])]
  · rw [hv]
    by_cases hjf : j = fd
    · subst hjf
      rw [view_live hl] at ha
      obtain rfl := some.inj ha
      refine ⟨_, update_self .., ?_⟩
      show s.acceptQ.contents = (n.socks j).acceptQ.contents ++ []
      rw [hq, append_nil]
    · rw [update_of_ne hjf]
      exact ⟨a, ha, (append_nil _).symm⟩
  · by_cases hjf : j = fd
    · rw [hjf, view_live hl] at hj
      cases hj
    · rw [hv, update_of_ne hjf, hj] at hb'
      cases hb'

theorem opened (h : Sound n held) (hi : i < sockMax) (hfree : (n.socks i).used = false)
    (hu : s.used = true) (hp : s.peer = none) (hq : s.acceptQ = Sock.zeroed.acceptQ)
    (hb : internalBridge s = false) (ht : s.tcpState ≠ .listen) (hh : ∀ j, j ≠ i → held' j = held j) :
    Sound (n.setSock i s) held' ∧ Grows n (n.setSock i s) := by
  have hnone : n.view i = none := view_free (by simp [live_iff, hfree])
  have hsv : s.view = ⟨none, [], false⟩ := by
    rw [Sock.view, hp, hq, hb]
    rfl
  have hv : (n.setSock i s).view = update n.view i (some ⟨none, [], false⟩) := by
    rw [view_setSock_used n hi hu, hsv]
  refine ⟨⟨h.ok_setSock (by rw [hq]; exact ⟨by decide, by decide⟩), ?_, fun j hj hl => ?_⟩,
    fun j a ha => ?_, fun j b hj hb' => ?_⟩
  · rw [hv]
    exact h.linked.opened hnone hh
  · have hji : j ≠ i := by
      rintro rfl
      rw [setSock_self] at hl
      exact ht hl
    rw [setSock_of_ne _ hji] at hl
    rw [hh j hji]
    refine h.listener j ?_ hl
    rwa [← live_congr (show ((n.setSock i s).socks j).used = _ by rw [setSock_of_ne _ hji])]
  · have hji : j ≠ i := by
      rintro rfl
      rw [hnone] at ha
      cases ha
    rw [hv, update_of_ne hji]
    exact ⟨a, ha, (append_nil _).symm⟩
  · by_cases hji : j = i
    · subst hji
      rw [hv, update_self] at hb'
      rw [← some.inj hb']
    · rw [hv, update_of_ne hji, hj] at hb'
      cases hb'

/-- Two sockets without a peer are linked. -/
theorem link (h : Sound n held) {i j : ℕ} (hi : n.live i = true) (hj : n.live j = true)
    (hij : i ≠ j) (hpi : (n.socks i).peer = none) (hpj : (n.socks j).peer = none)
    (hbj : internalBridge (n.socks j) = false) {s t : Sock}
    (hs : s.used = true ∧ s.peer = some j ∧ s.acceptQ = (n.socks i).acceptQ)
    (ht : t.used = true ∧ t.peer = some i ∧ t.acceptQ = (n.socks j).acceptQ)
    (hbt : internalBridge t = false)
    (hbs : internalBridge s = true → held i = true ∧ held j = false ∧ ¬n.view.Waiting j)
    (hsl : s.tcpState = .listen → held i = true) (htl : t.tcpState = .listen → held j = true) :
    Sound ((n.setSock j t).setSock i s) held ∧ Grows n ((n.setSock j t).setSock i s) := by
  obtain ⟨hi', -⟩ := live_iff.1 hi
  obtain ⟨hj', -⟩ := live_iff.1 hj
  have hsv : s.view = { (n.socks i).view with peer := some j, bridge := internalBridge s } := by
    rw [Sock.view, Sock.view, hs.2.1, hs.2.2]
  have htv : t.view = { (n.socks j).view with peer := some i } := by
    rw [Sock.view, Sock.view, ht.2.1, ht.2.2, hbt, hbj]
  have hv : ((n.setSock j t).setSock i s).view = update (update n.view j
      (some { (n.socks j).view with peer := some i })) i
      (some { (n.socks i).view with peer := some j, bridge := internalBridge s }) := by
    rw [view_setSock_used _ hi' hs.1, view_setSock_used _ hj' ht.1, hsv, htv]
  have hlinked := h.linked.link (view_live hi) (view_live hj) hij hpi hpj hbs hbj
  rw [← hv] at hlinked
  refine ⟨⟨fun k => ?_, hlinked, fun k hk hl => ?_⟩, fun k a ha => ?_, fun k b hk hb => ?_⟩
  · by_cases hki : k = i
    · rw [hki, setSock_self, hs.2.2]
      exact h.ok i
    · rw [setSock_of_ne _ hki]
      exact h.ok_setSock (by rw [ht.2.2]; exact h.ok j) k
  · by_cases hki : k = i
    · rw [hki] at hl ⊢
      rw [setSock_self] at hl
      exact hsl hl
    · rw [setSock_of_ne _ hki] at hl
      by_cases hkj : k = j
      · rw [hkj] at hl ⊢
        rw [setSock_self] at hl
        exact htl hl
      · rw [setSock_of_ne _ hkj] at hl
        refine h.listener k ?_ hl
        rwa [← live_congr (show (((n.setSock j t).setSock i s).socks k).used = _ by
          rw [setSock_of_ne _ hki, setSock_of_ne _ hkj])]
  · rw [hv]
    by_cases hki : k = i
    · subst hki
      rw [view_live hi] at ha
      obtain rfl := some.inj ha
      exact ⟨_, update_self .., (append_nil _).symm⟩
    · rw [update_of_ne hki]
      by_cases hkj : k = j
      · subst hkj
        rw [view_live hj] at ha
        obtain rfl := some.inj ha
        exact ⟨_, update_self .., (append_nil _).symm⟩
      · rw [update_of_ne hkj]
        exact ⟨a, ha, (append_nil _).symm⟩
  · have hki : k ≠ i := by
      rintro rfl
      rw [view_live hi] at hk
      cases hk
    have hkj : k ≠ j := by
      rintro rfl
      rw [view_live hj] at hk
      cases hk
    rw [hv, update_of_ne hki, update_of_ne hkj, hk] at hb
    cases hb

theorem create (h : Sound n held) (held' : ℕ → Bool) {domain type : ℕ} {protocol : ℤ}
    (hr : n.sockCreate domain type protocol = (.ok i, n')) (hh : ∀ j, j ≠ i → held' j = held j) :
    n.view i = none ∧ n'.live i = true ∧ Sound n' held' ∧ Grows n n' := by
  obtain ⟨hlt, hfree, t, p, -, -, rfl⟩ := sockCreate_ok hr
  obtain ⟨hs, hg⟩ := h.opened hlt hfree (s := .fresh domain t p) rfl rfl rfl rfl
    (by unfold Sock.fresh Sock.zeroed; simp) hh
  exact ⟨view_free (by simp [live_iff, hfree]), live_iff.2 ⟨hlt, by rw [setSock_self]; rfl⟩, hs, hg⟩

theorem bind (h : Sound n held) (fd : ℕ) (addr : Ip) (port : Port) :
    Sound (n.sockBind fd addr port).2 held ∧ Grows n (n.sockBind fd addr port).2 := by
  unfold sockBind
  split_ifs
  · exact ⟨h, .refl n⟩
  · exact ⟨h, .refl n⟩
  · have hsame : SameEnds n (n.setSock fd { n.socks fd with localIp := addr, localPort := port }) :=
      .setSock n rfl rfl rfl rfl id
    exact ⟨hsame.sound h, .of_view hsame.view⟩

theorem setListen (h : Sound n held) (hl : n.live fd = true) (hh : held fd = true)
    (hempty : (n.socks fd).acceptQ.contents = []) (hu : s.used = true)
    (hp : s.peer = (n.socks fd).peer) (hb : s.virtService = (n.socks fd).virtService)
    (hq : s.acceptQ.head = 0 ∧ s.acceptQ.tail = 0) :
    Sound (n.setSock fd s) held ∧ Grows n (n.setSock fd s) := by
  have hok : s.acceptQ.Ok := ⟨by rw [hq.1]; decide, by rw [hq.2]; decide⟩
  have hnil : s.acceptQ.contents = [] := hok.contents_eq_nil.2 (hq.1.trans hq.2.symm)
  have hsv : s.view = (n.socks fd).view := by
    rw [Sock.view, Sock.view, internalBridge, internalBridge, hp, hb, hnil, hempty]
  have hv : (n.setSock fd s).view = n.view := by
    rw [view_setSock_used n (live_iff.1 hl).1 hu, hsv, ← view_live hl, update_eq_self]
  refine ⟨⟨h.ok_setSock hok, hv ▸ h.linked, fun j hj ht => ?_⟩, .of_view hv⟩
  by_cases hjf : j = fd
  · rw [hjf]
    exact hh
  · rw [setSock_of_ne _ hjf] at ht
    refine h.listener j ?_ ht
    rwa [← live_congr (show ((n.setSock fd s).socks j).used = _ by rw [setSock_of_ne _ hjf])]

theorem listen (h : Sound n held) (hh : n.live fd = true → held fd = true)
    (hempty : n.live fd = true → (n.socks fd).acceptQ.contents = []) (backlog : ℤ) :
    Sound (n.sockListen fd backlog).2 held ∧ Grows n (n.sockListen fd backlog).2 := by
  unfold sockListen
  by_cases hl : n.live fd = true
  · rw [if_neg (by simp [hl])]
    split_ifs
    · exact ⟨h, .refl n⟩
    all_goals
      exact h.setListen hl (hh hl) (hempty hl) (live_iff.1 hl).2 rfl rfl ⟨rfl, rfl⟩
  · rw [if_pos (by simp [hl])]
    exact ⟨h, .refl n⟩

theorem pop (h : Sound n held) (hl : n.live fd = true)
    (hne : (n.socks fd).acceptQ.head ≠ (n.socks fd).acceptQ.tail)
    (hq : (n.socks fd).acceptQ.slots (n.socks fd).acceptQ.tail = q)
    (hn' : n.setSock fd { n.socks fd with acceptQ := (n.socks fd).acceptQ.next } = n') :
    (n.socks fd).acceptQ.contents = q :: (n'.socks fd).acceptQ.contents ∧
      n.live q = true ∧ held q = false ∧ Sound n' held ∧ (∀ j, n'.live j = n.live j) ∧
      (∀ j, j ≠ fd → n'.view j = n.view j) ∧
      ¬n'.view.Waiting q ∧
      ∀ i c, n'.view i = some c → c.bridge = true → c.peer ≠ some q := by
  have hcons := (h.ok fd).contents_cons hne
  rw [hq] at hcons
  generalize ht : ({ n.socks fd with acceptQ := (n.socks fd).acceptQ.next } : Sock) = t at hn'
  have hself : n'.socks fd = t := by rw [← hn', setSock_self]
  have hqueue : t.acceptQ = (n.socks fd).acceptQ.next := by rw [← ht]
  have hused : t.used = (n.socks fd).used := by rw [← ht]
  have hstate : t.tcpState = (n.socks fd).tcpState := by rw [← ht]
  have htv : t.view = { (n.socks fd).view with queue := t.acceptQ.contents } := by
    rw [← ht]
    rfl
  have hlive : ∀ j, n'.live j = n.live j := fun j => by
    rw [← hn']
    exact live_setSock hused j
  have hv : n'.view = update n.view fd
      (some { (n.socks fd).view with queue := t.acceptQ.contents }) := by
    rw [← hn', view_setSock_used n (live_iff.1 hl).1 (hused.trans (live_iff.1 hl).2), htv]
  have hother : ∀ j, j ≠ fd → n'.view j = n.view j := fun j hj => by
    rw [hv, update_of_ne hj]
  rw [← hqueue] at hcons
  obtain ⟨hlinked, hw⟩ := h.linked.pop (view_live hl) hcons
  have hwait : n.view.Waiting q := ⟨fd, _, view_live hl, by
    show q ∈ (n.socks fd).acceptQ.contents
    rw [hcons]
    exact mem_cons_self⟩
  obtain ⟨hu, b, hb, -⟩ := h.linked.waiting hwait
  rw [← hv] at hlinked hw
  refine ⟨by rw [hself]; exact hcons, view_isSome.1 (by rw [hb]; rfl), hu,
    ⟨fun j => ?_, hlinked, fun j hj hlisten => ?_⟩, hlive, hother, hw, fun i c hc hbr hp => ?_⟩
  · rw [← hn']
    exact h.ok_setSock (by rw [hqueue]; exact (h.ok fd).next) j
  · rw [hlive] at hj
    refine h.listener j hj ?_
    by_cases hjf : j = fd
    · subst hjf
      rwa [hself, hstate] at hlisten
    · rwa [← hn', setSock_of_ne _ hjf] at hlisten
  · -- the far end of a bridge did not wait
    by_cases hi : i = fd
    · subst hi
      rw [hv, update_self] at hc
      obtain rfl := some.inj hc
      exact (h.linked.bridged i _ q (view_live hl) hbr hp).2 hwait
    · rw [hother i hi] at hc
      exact (h.linked.bridged i c q hc hbr hp).2 hwait

/-! ### The end of a socket -/

theorem view_shut (h : Sound n held) (hq : n.live q = true) : (n.shut q).view = n.view.drop q := by
  funext j
  unfold PeerTable.drop
  rw [view_live hq]
  dsimp only [bind_some, map_some, getD_some]
  by_cases hj : j = q
  · rw [if_pos hj, hj]
    exact view_free (not_live_of_zeroed (shut_self n q))
  · rw [if_neg hj]
    have hs := shut_of_ne n hj
    by_cases hp : (n.socks q).view.peer = some j
    · obtain ⟨b, hb, hbq⟩ := h.linked.both q _ j (view_live hq) hp
      obtain ⟨hlj, rfl⟩ := view_eq_some.1 hb
      rw [if_pos ⟨livePeer_eq_some.2 ⟨hp, hlj⟩, hbq⟩] at hs
      rw [if_pos hp]
      by_cases hbr : internalBridge (n.socks q) = true
      · rw [if_pos hbr] at hs
        rw [if_pos (show (n.socks q).view.bridge = true from hbr)]
        exact view_free (not_live_of_zeroed hs)
      · rw [if_neg hbr] at hs
        rw [if_neg (show ¬(n.socks q).view.bridge = true from hbr), hb]
        have hlj' : (n.shut q).live j = true := by
          rw [live_congr (show ((n.shut q).socks j).used = (n.socks j).used by rw [hs]; rfl)]
          exact hlj
        rw [view_live hlj', hs]
        rfl
    · rw [if_neg fun hcond => hp (livePeer_eq_some.1 hcond.1).1] at hs
      rw [if_neg hp, Net.view, Net.view, hs,
        live_congr (show ((n.shut q).socks j).used = (n.socks j).used by rw [hs])]

theorem shut (h : Sound n held) (hq : n.live q = true) (hw : ¬n.view.Waiting q) :
    Sound (n.shut q) held := by
  have hsock : ∀ j, (n.shut q).socks j = .zeroed ∨ (n.shut q).socks j = n.socks j ∨
      (n.shut q).socks j = orphan (n.socks j) := by
    intro j
    by_cases hj : j = q
    · exact .inl (hj ▸ shut_self n q)
    · have hs := shut_of_ne n hj
      split_ifs at hs
      · exact .inl hs
      · exact .inr (.inr hs)
      · exact .inr (.inl hs)
  refine ⟨fun j => ?_, ?_, fun j hj ht => ?_⟩
  · rcases hsock j with hs | hs | hs <;> rw [hs]
    · exact ⟨by decide, by decide⟩
    · exact h.ok j
    · exact h.ok j
  · rw [h.view_shut hq]
    exact h.linked.drop (view_live hq) hw
  · obtain ⟨-, hl, hs⟩ := shut_live hj
    refine h.listener j hl ?_
    rcases hs with hs | hs <;> rw [hs] at ht
    · exact ht
    · unfold orphan at ht
      dsimp only at ht
      split_ifs at ht
      exact ht

theorem shut_lost (h : Sound n held) (hq : n.live q = true) (hj : n.live j = true) (hjq : j ≠ q)
    (hlost : ¬(n.shut q).live j = true) : held j = false := by
  have hs := shut_of_ne n hjq
  split_ifs at hs with hcond hbr
  · exact (h.linked.bridged q _ j (view_live hq) hbr (livePeer_eq_some.1 hcond.1).1).1
  · refine absurd ?_ hlost
    rw [live_congr (show ((n.shut q).socks j).used = (n.socks j).used by rw [hs]; rfl)]
    exact hj
  · refine absurd ?_ hlost
    rw [live_congr (show ((n.shut q).socks j).used = (n.socks j).used by rw [hs])]
    exact hj

theorem shut_kept {b : EndView} (hb : (n.shut q).view j = some b) :
    j ≠ q ∧ ∃ a, n.view j = some a ∧ b.queue = a.queue := by
  obtain ⟨hl, rfl⟩ := view_eq_some.1 hb
  obtain ⟨hj, hl', hs⟩ := shut_live hl
  refine ⟨hj, _, view_live hl', ?_⟩
  rcases hs with hs | hs <;> rw [hs]
  rfl

/-! ### Closing -/

theorem sockCloseFuel_empty {fuel : ℕ} (hl : n.live q = true)
    (hq : (n.socks q).acceptQ.head = (n.socks q).acceptQ.tail) :
    sockCloseFuel (fuel + 1) n q = (n.closeVirtual q).shut q := by
  have hq' : ((n.closeVirtual q).socks q).acceptQ.head =
      ((n.closeVirtual q).socks q).acceptQ.tail := by
    rw [(SameEnds.of_busStep (busStep_closeVirtual n q) q).2.2.1]
    exact hq
  unfold sockCloseFuel
  rw [if_neg (by simp [hl])]
  dsimp only
  rw [show sockAcceptq = 15 + 1 from rfl, closePending]
  dsimp only
  rw [if_pos hq']
  rfl

theorem closePending (hh : held fd = true) (fuel k : ℕ) :
    ∀ n : Net, Sound n held → n.live fd = true → (n.socks fd).acceptQ.len ≤ k → ∀ n' : Net,
      Net.closePending (sockCloseFuel (fuel + 1)) k n fd = n' →
      Sound n' held ∧ n'.live fd = true ∧ (n'.socks fd).acceptQ.contents = [] ∧
        (∀ q ∈ (n.socks fd).acceptQ.contents, ¬n'.live q = true) ∧
        (∀ j, n.live j = true → ¬n'.live j = true → held j = false) ∧
        ∀ j b, n'.view j = some b → ∃ a, n.view j = some a ∧ (j ≠ fd → b.queue = a.queue) := by
  induction k with
  | zero =>
    rintro n h hl hlen n' rfl
    have hnil : (n.socks fd).acceptQ.contents = [] :=
      eq_nil_of_length_eq_zero (by rw [Circular.length_contents]; omega)
    exact ⟨h, hl, hnil, by rw [hnil]; simp, fun j hj hj' => absurd hj hj',
      fun j b hb => ⟨b, hb, fun _ => rfl⟩⟩
  | succ k ih =>
    rintro n h hl hlen n' rfl
    rw [Net.closePending]
    dsimp only
    by_cases hne : (n.socks fd).acceptQ.head = (n.socks fd).acceptQ.tail
    · rw [if_pos hne]
      have hnil := (h.ok fd).contents_eq_nil.2 hne
      exact ⟨h, hl, hnil, by rw [hnil]; simp, fun j hj hj' => absurd hj hj',
        fun j b hb => ⟨b, hb, fun _ => rfl⟩⟩
    · rw [if_neg hne]
      generalize hq : (n.socks fd).acceptQ.slots (n.socks fd).acceptQ.tail = q
      generalize hn1 : n.setSock fd { n.socks fd with acceptQ := (n.socks fd).acceptQ.next } = n1
      obtain ⟨hcons, hql, hqh, hs1, hlive1, hother1, hw1, -⟩ := h.pop hl hne hq hn1
      have hqf : q ≠ fd := by
        rintro rfl
        rw [hh] at hqh
        cases hqh
      have hq1 : n1.live q = true := by rw [hlive1, hql]
      rw [if_pos hq1]
      -- the connection ends, and nobody waits for it
      have hempty : (n1.socks q).acceptQ.head = (n1.socks q).acceptQ.tail := by
        rw [← (hs1.ok q).contents_eq_nil]
        exact (hs1.linked.unheld q _ (view_live hq1) hqh).1
      rw [sockCloseFuel_empty hq1 hempty]
      have hsame : SameEnds n1 (n1.closeVirtual q) := .of_busStep (busStep_closeVirtual n1 q)
      have hv2 := hsame.view
      generalize n1.closeVirtual q = n2 at hsame hv2
      have hs2 := hsame.sound hs1
      have hlive2 : ∀ j, n2.live j = n.live j := fun j => by
        rw [live_congr (hsame j).1, hlive1]
      have hq2 : n2.live q = true := by rw [hlive2, hql]
      have hs3 := hs2.shut hq2 (hv2 ▸ hw1)
      have hfd3 : (n2.shut q).live fd = true := by
        by_contra hlost
        have := hs2.shut_lost hq2 (by rw [hlive2, hl]) hqf.symm hlost
        rw [hh] at this
        cases this
      have hqueue : ((n2.shut q).socks fd).acceptQ.contents = (n1.socks fd).acceptQ.contents := by
        obtain ⟨-, a, ha, hqa⟩ := shut_kept (view_live hfd3)
        rw [hv2] at ha
        obtain ⟨-, rfl⟩ := view_eq_some.1 ha
        exact hqa
      have hlen3 : ((n2.shut q).socks fd).acceptQ.len ≤ k := by
        rw [← Circular.length_contents, hqueue]
        rw [← Circular.length_contents, hcons, length_cons] at hlen
        omega
      obtain ⟨hs', hl', hnil', hdead', hlost', hkept'⟩ := ih _ hs3 hfd3 hlen3 _ rfl
      generalize Net.closePending (sockCloseFuel (fuel + 1)) k (n2.shut q) fd = n' at *
      refine ⟨hs', hl', hnil', fun r hr => ?_, fun j hj hj' => ?_, fun j b hb => ?_⟩
      · rw [hcons, mem_cons] at hr
        rcases hr with rfl | hr
        · intro hlr
          obtain ⟨a, ha, -⟩ := hkept' r _ (view_live hlr)
          exact (shut_kept ha).1 rfl
        · exact hdead' r (hqueue ▸ hr)
      · by_cases hjq : j = q
        · rw [hjq]
          exact hqh
        · by_cases hj3 : (n2.shut q).live j = true
          · exact hlost' j hj3 hj'
          · exact hs2.shut_lost hq2 (by rw [hlive2, hj]) hjq hj3
      · obtain ⟨a, ha, hqa⟩ := hkept' j b hb
        obtain ⟨-, c, hc, hqc⟩ := shut_kept ha
        rw [hv2] at hc
        by_cases hjf : j = fd
        · subst hjf
          exact ⟨_, view_live hl, fun hno => absurd rfl hno⟩
        · rw [hother1 j hjf] at hc
          exact ⟨c, hc, fun hno => (hqa hno).trans hqc⟩

theorem close (h : Sound n held) (hl : n.live fd = true) (hh : held fd = true)
    (hr : (n.sockClose fd).2 = n') :
    Sound n' held ∧ ¬n'.live fd = true ∧
      (∀ q ∈ (n.socks fd).acceptQ.contents, ¬n'.live q = true) ∧
      (∀ j, n.live j = true → j ≠ fd → ¬n'.live j = true → held j = false) ∧
      ∀ j b, n'.view j = some b → ∃ a, n.view j = some a ∧ b.queue = a.queue := by
  subst hr
  unfold sockClose
  rw [if_neg (by simp [hl])]
  dsimp only
  rw [show sockMax * sockAcceptq + 1 = 6143 + 1 + 1 from rfl, sockCloseFuel, if_neg (by simp [hl])]
  dsimp only
  have hsame : SameEnds n (n.closeVirtual fd) := .of_busStep (busStep_closeVirtual n fd)
  have hv := hsame.view
  have hqueue : ((n.closeVirtual fd).socks fd).acceptQ = (n.socks fd).acceptQ := (hsame fd).2.2.1
  generalize n.closeVirtual fd = n1 at hsame hv hqueue
  have hs1 := hsame.sound h
  have hlive1 : ∀ j, n1.live j = n.live j := fun j => live_congr (hsame j).1
  obtain ⟨hs2, hl2, hnil2, hdead2, hlost2, hkept2⟩ := closePending hh 6143 sockAcceptq n1 hs1
    (by rw [hlive1, hl]) (hs1.ok fd).len_lt.le _ rfl
  generalize Net.closePending (sockCloseFuel (6143 + 1)) sockAcceptq n1 fd = n2 at *
  have hw : ¬n2.view.Waiting fd := by
    rintro ⟨l, a, ha, hin⟩
    have := (hs2.linked.live l a fd ha hin).2
    rw [hh] at this
    cases this
  show Sound (n2.shut fd) held ∧ _
  refine ⟨hs2.shut hl2 hw, not_live_of_zeroed (shut_self n2 fd), fun q hq hlq => ?_,
    fun j hj hjf hj' => ?_, fun j b hb => ?_⟩
  · obtain ⟨-, a, ha, -⟩ := shut_kept (view_live hlq)
    exact hdead2 q (hqueue ▸ hq) (view_isSome.1 (by rw [ha]; rfl))
  · by_cases hj2 : n2.live j = true
    · exact hs2.shut_lost hl2 hj2 hjf hj'
    · exact hlost2 j (by rw [hlive1, hj]) hj2
  · obtain ⟨hjf, a, ha, hqa⟩ := shut_kept hb
    obtain ⟨c, hc, hqc⟩ := hkept2 j a ha
    rw [hv] at hc
    exact ⟨c, hc, hqa.trans (hqc hjf)⟩

/-! ### Accepting and making pairs -/

theorem accept (h : Sound n held) {a : Ip × Port} (hr : n.sockAccept fd = (.ok (q, a), n')) :
    n.live fd = true ∧ (n.socks fd).acceptQ.contents = q :: (n'.socks fd).acceptQ.contents ∧
      n.live q = true ∧ held q = false ∧ Sound n' (update held q true) ∧
      (∀ j, n'.live j = n.live j) ∧ ∀ j, j ≠ fd → n'.view j = n.view j := by
  unfold sockAccept at hr
  dsimp only at hr
  split_ifs at hr with hl ht hne
  · cases (Prod.mk.inj hr).1
  · cases (Prod.mk.inj hr).1
  · cases (Prod.mk.inj hr).1
  · obtain ⟨hq, hn'⟩ := Prod.mk.inj hr
    have hq' := (Prod.mk.inj (Except.ok.inj hq)).1
    have hl' : n.live fd = true := by simpa using hl
    obtain ⟨hcons, hql, hqh, hs, hlive, hother, hw, hbr⟩ := h.pop hl' hne hq' hn'
    refine ⟨hl', hcons, hql, hqh, ⟨hs.ok, hs.linked.take hw hbr (fun j hj => ?_) ?_, fun j hj ht => ?_⟩,
      hlive, hother⟩
    · exact update_of_ne hj _ _
    · exact update_self ..
    · by_cases hjq : j = q
      · rw [hjq, update_self]
      · rw [update_of_ne hjq]
        exact hs.listener j hj ht

theorem sockAccept_error {e : SockErr} (hr : n.sockAccept fd = (.error e, n')) : n' = n := by
  unfold sockAccept at hr
  dsimp only at hr
  split_ifs at hr
  all_goals first
    | exact (Prod.mk.inj hr).2.symm
    | cases (Prod.mk.inj hr).1

theorem sockClose_alone (hl : n.live q = true) (hv : (n.socks q).virtService ≠ .dbus)
    (hq : (n.socks q).acceptQ.head = (n.socks q).acceptQ.tail)
    (hp : ∀ p, (n.socks q).peer = some p → (n.socks p).peer ≠ some q) :
    (n.sockClose q).2 = n.setSock q .zeroed := by
  unfold sockClose
  rw [if_neg (by simp [hl])]
  dsimp only
  rw [show sockMax * sockAcceptq + 1 = 6144 + 1 from rfl, sockCloseFuel_empty hl hq, closeVirtual,
    if_neg hv, Net.shut, detachPeer]
  split
  · rfl
  · next p hlp =>
    rw [if_neg (hp p (livePeer_eq_some.1 hlp).1)]

theorem freed (h : Sound n held) (hfree : ¬n.live i = true) :
    Sound (n.setSock i .zeroed) held ∧ Grows n (n.setSock i .zeroed) := by
  have hv : (n.setSock i .zeroed).view = n.view := by
    rw [view_setSock_free n rfl, ← view_free hfree, update_eq_self]
  refine ⟨⟨h.ok_setSock ⟨by decide, by decide⟩, hv ▸ h.linked, fun j hj ht => ?_⟩, .of_view hv⟩
  have hji : j ≠ i := by
    rintro rfl
    rw [setSock_self] at ht
    cases ht
  rw [setSock_of_ne _ hji] at ht
  refine h.listener j ?_ ht
  rwa [← live_congr (show ((n.setSock i .zeroed).socks j).used = _ by rw [setSock_of_ne _ hji])]

theorem linkNew (h : Sound n held) (hl : n.live fd = true) (hh : held fd = true)
    (hp : (n.socks fd).peer = none) {ns : ℕ} (hns : ns < sockMax) (hfree : (n.socks ns).used = false)
    (hheld : held ns = false) {t : Sock}
    (hs : s.used = true ∧ s.peer = some fd ∧ s.acceptQ = Sock.zeroed.acceptQ)
    (hbs : internalBridge s = false) (hst : s.tcpState ≠ .listen)
    (ht : t.used = true ∧ t.peer = some ns ∧ t.acceptQ = (n.socks fd).acceptQ) :
    Sound ((n.setSock ns s).setSock fd t) held ∧ Grows n ((n.setSock ns s).setSock fd t) ∧
      ¬((n.setSock ns s).setSock fd t).view.Waiting ns := by
  have hne : fd ≠ ns := by
    rintro rfl
    rw [(live_iff.1 hl).2] at hfree
    cases hfree
  have hnone : n.view ns = none := view_free (by simp [live_iff, hfree])
  obtain ⟨hs1, hg1⟩ := h.opened hns hfree (s := .fresh 1 1 0) rfl rfl rfl rfl
    (by unfold Sock.fresh Sock.zeroed; simp) fun _ _ => rfl
  generalize hn1 : n.setSock ns (.fresh 1 1 0) = n1 at hs1 hg1
  have hself : n1.socks ns = .fresh 1 1 0 := by rw [← hn1, setSock_self]
  have hother : n1.socks fd = n.socks fd := by rw [← hn1, setSock_of_ne _ hne]
  have hl1 : n1.live fd = true := by
    rw [live_congr (show (n1.socks fd).used = (n.socks fd).used by rw [hother]), hl]
  have hl2 : n1.live ns = true := live_iff.2 ⟨hns, by rw [hself]; rfl⟩
  have hnw : ¬n1.view.Waiting ns := by
    rintro ⟨l, a, ha, hin⟩
    by_cases hln : l = ns
    · rw [hln, view_live hl2, hself] at ha
      rw [← some.inj ha] at hin
      exact absurd hin (by show ns ∉ ([] : List ℕ); exact not_mem_nil)
    · have hv : n1.view l = n.view l := by
        rw [Net.view, Net.view, show n1.socks l = n.socks l by rw [← hn1, setSock_of_ne _ hln],
          live_congr (show (n1.socks l).used = (n.socks l).used by rw [← hn1, setSock_of_ne _ hln])]
      rw [hv] at ha
      have := (h.linked.live l a ns ha hin).1
      rw [hnone] at this
      cases this
  have hset : (n1.setSock ns s).setSock fd t = (n.setSock ns s).setSock fd t := by
    rw [← hn1, setSock_setSock]
  obtain ⟨hs2, hg2⟩ := hs1.link hl1 hl2 hne (by rw [hother, hp]) (by rw [hself]; rfl)
    (by rw [hself]; rfl) (s := t) (t := s) ⟨ht.1, ht.2.1, by rw [hother]; exact ht.2.2⟩
    ⟨hs.1, hs.2.1, by rw [hself]; exact hs.2.2⟩ hbs (fun _ => ⟨hh, hheld, hnw⟩) (fun _ => hh)
    (fun hlisten => absurd hlisten hst)
  rw [hset] at hs2 hg2
  refine ⟨hs2, hg1.trans hg2, ?_⟩
  rintro ⟨l, a, ha, hin⟩
  -- what waits now waited before the link
  cases hl : n1.view l with
  | none => rw [hg2.fresh l a hl ha] at hin; exact absurd hin not_mem_nil
  | some c =>
    obtain ⟨b, hb, hq⟩ := hg2.kept l c hl
    obtain rfl := some.inj (ha.symm.trans hb)
    rw [hq, append_nil] at hin
    exact hnw ⟨l, c, hl, hin⟩

theorem push (h : Sound n held) {l : ℕ} (hl : n.live l = true) (hheld : held l = true)
    (hq : n.live q = true) (hu : held q = false) (hw : ¬n.view.Waiting q)
    (hbr : ∀ p, (n.socks q).peer = some p → internalBridge (n.socks p) = false)
    (hroom : Circular.succ sockAcceptq (n.socks l).acceptQ.head ≠ (n.socks l).acceptQ.tail) :
    Sound (n.setSock l { n.socks l with acceptQ := (n.socks l).acceptQ.put q }) held ∧
      Extends n (n.setSock l { n.socks l with acceptQ := (n.socks l).acceptQ.put q })
        fun j => if j = l then [q] else [] := by
  generalize ht : ({ n.socks l with acceptQ := (n.socks l).acceptQ.put q } : Sock) = t
  have hqueue : t.acceptQ = (n.socks l).acceptQ.put q := by rw [← ht]
  have hused : t.used = (n.socks l).used := by rw [← ht]
  have htv : t.view = { (n.socks l).view with queue := (n.socks l).view.queue ++ [q] } := by
    rw [← ht]
    unfold Sock.view internalBridge
    dsimp only
    rw [(h.ok l).contents_put q hroom]
  have hv : (n.setSock l t).view = update n.view l (some t.view) :=
    view_setSock_used n (live_iff.1 hl).1 (hused.trans (live_iff.1 hl).2)
  refine ⟨⟨h.ok_setSock (by rw [hqueue]; exact (h.ok l).put q), ?_, fun j hj hlisten => ?_⟩,
    fun j a ha => ?_, fun j b hj hb => ?_⟩
  · rw [hv, htv]
    refine h.linked.push (view_live hl) (view_live hq) hheld hu hw fun i c hc hcb hcp => ?_
    -- a bridge to `q` would be the peer of `q`
    obtain ⟨d, hd, hdi⟩ := h.linked.both i c q hc hcp
    obtain ⟨-, rfl⟩ := view_eq_some.1 hd
    obtain ⟨-, rfl⟩ := view_eq_some.1 hc
    have := hbr i hdi
    rw [show internalBridge (n.socks i) = true from hcb] at this
    cases this
  · by_cases hjl : j = l
    · rw [hjl]
      exact hheld
    · rw [setSock_of_ne _ hjl] at hlisten
      exact h.listener j ((live_setSock hused j).symm.trans hj) hlisten
  · rw [hv]
    by_cases hjl : j = l
    · subst hjl
      rw [view_live hl] at ha
      obtain rfl := some.inj ha
      exact ⟨_, update_self .., by rw [htv, if_pos rfl]⟩
    · rw [update_of_ne hjl, if_neg hjl]
      exact ⟨a, ha, (append_nil _).symm⟩
  · have hjl : j ≠ l := by
      rintro rfl
      rw [view_live hl] at hj
      cases hj
    rw [hv, update_of_ne hjl, hj] at hb
    cases hb

end Sound

end Net

end Ridux
