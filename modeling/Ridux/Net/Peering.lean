import Ridux.Lib.Run
import Ridux.Net.Connect

/-!
# Peers and accept queues

Runs of the socket calls, and what becomes of the connections to a listener.

* `PeerRun`: the sockets, who holds which slot, and the connections of each listener;
* `PeerRun.Orderly`: the calls that clear no queue with a connection in it and replace no peer;
* `peerRun_peered`: links are mutual, and connections are accepted once and in order.
-/

namespace Ridux

open Lib Function List

/-- A socket, by its slot and the time when it was made. -/
abbrev SockId := ℕ × ℕ

/-- A call. -/
inductive PeerOp
  | create (domain type : ℕ) (protocol : ℤ)
  | bind (fd : ℕ) (addr : Ip) (port : Port)
  | listen (fd : ℕ) (backlog : ℤ)
  | connect (fd : ℕ) (addr : Ip) (port : Port) (events : Option (List NetEvent))
  | accept (fd : ℕ)
  | pair (domain type : ℕ) (protocol : ℤ)
  | close (fd : ℕ)

/-- The sockets, the time, when each slot was last taken, which slots have a descriptor, and for each
listener the connections made to it, those that it has accepted, and those that ended with it. -/
structure PeerRun where
  net : Net
  now : ℕ
  birth : ℕ → ℕ
  held : ℕ → Bool
  made : SockId → List SockId
  accepted : SockId → List SockId
  torn : SockId → List SockId

namespace PeerRun

def init : PeerRun := ⟨.boot, 1, fun _ => 0, fun _ => false, fun _ => [], fun _ => [], fun _ => []⟩

/-- The socket in a slot. -/
def id (s : PeerRun) (i : ℕ) : SockId := (i, s.birth i)

/-- A socket that has not been closed. -/
def Intact (s : PeerRun) (c : SockId) : Prop := s.net.live c.1 = true ∧ s.birth c.1 = c.2

/-- The sockets change. -/
def advance (s : PeerRun) (n : Net) (held : ℕ → Bool) : PeerRun :=
  { s with
    net := n
    now := s.now + 1
    birth := fun i => if !s.net.live i && n.live i then s.now else s.birth i
    held := held }

/-- `xs` goes to the end of a list. -/
def append (f : SockId → List SockId) (c : SockId) (xs : List SockId) : SockId → List SockId :=
  update f c (f c ++ xs)

def exec (s : PeerRun) : PeerOp → PeerRun
  | .create domain type protocol =>
    match s.net.sockCreate domain type protocol with
    | (.ok i, n) => s.advance n (update s.held i true)
    | (.error _, n) => s.advance n s.held
  | .bind fd addr port => s.advance (s.net.sockBind fd addr port).2 s.held
  | .listen fd backlog => s.advance (s.net.sockListen fd backlog).2 s.held
  | .connect fd addr port events =>
    match s.net.sockConnect fd addr port events with
    | (.ok (), n) =>
      let t := s.advance n s.held
      match s.net.connectTarget fd addr port, (n.socks fd).peer with
      | some l, some ns => { t with made := append s.made (s.id l) [t.id ns] }
      | _, _ => t
    | (.error _, n) => s.advance n s.held
  | .accept fd =>
    match s.net.sockAccept fd with
    | (.ok (q, _), n) =>
      { s.advance n (update s.held q true) with
        accepted := append s.accepted (s.id fd) [s.id q] }
    | (.error _, n) => s.advance n s.held
  | .pair domain type protocol =>
    match s.net.sockPairCreate domain type protocol with
    | (.ok (a, b), n) => s.advance n (update (update s.held a true) b true)
    | (.error _, n) => s.advance n s.held
  | .close fd =>
    match s.net.sockClose fd with
    | (.ok (), n) =>
      { s.advance n (update s.held fd false) with
        torn := append s.torn (s.id fd)
          (((s.net.socks fd).acceptQ.contents.filter fun q => !n.live q).map s.id) }
    | (.error _, n) => s.advance n s.held

/-- A call names a socket that somebody holds, or none at all. -/
def Names (s : PeerRun) (fd : ℕ) : Prop := s.net.live fd = true → s.held fd = true

/-- Calls on descriptors. No connection waits when `sock_listen` clears the queue, and `sock_connect`
leaves an old peer alone. -/
def Orderly (s : PeerRun) : PeerOp → Prop
  | .create .. | .pair .. => True
  | .bind fd _ _ | .accept fd | .close fd => s.Names fd
  | .listen fd _ =>
    s.Names fd ∧ (s.net.live fd = true → (s.net.socks fd).acceptQ.contents = [])
  | .connect fd addr port events =>
    s.Names fd ∧ (∀ es, events = some es → ∀ ev ∈ es, ev.Tame) ∧
      (s.net.live fd = true → s.net.ConnectKeeps fd addr port)

/-- Links are mutual and no peer is shared; a listener has accepted the connections made to it, in
order and each once, but for those that wait or ended with it; and what `sock_accept` returns is in
use and the socket that a connect made. -/
structure Peered (s : PeerRun) : Prop where
  both : ∀ a b, s.net.live a = true → (s.net.socks a).peer = some b →
    s.net.live b = true ∧ (s.net.socks b).peer = some a
  distinct : ∀ a a' b, s.net.live a = true → s.net.live a' = true →
    (s.net.socks a).peer = some b → (s.net.socks a').peer = some b → a = a'
  pending : ∀ l, s.net.live l = true →
    s.made (s.id l) = s.accepted (s.id l) ++ (s.net.socks l).acceptQ.contents.map s.id
  ended : ∀ c, ¬s.Intact c → s.made c = s.accepted c ++ s.torn c
  once : ∀ c, (s.made c).Nodup
  apart : ∀ c c' x, x ∈ s.made c → x ∈ s.made c' → c = c'
  accept : ∀ fd q a n, s.net.sockAccept fd = (.ok (q, a), n) →
    s.net.live q = true ∧ s.held q = false ∧ s.id q ∈ s.made (s.id fd)

/-- The invariant of a run. -/
structure Inv (s : PeerRun) : Prop where
  sound : s.net.Sound s.held
  free : ∀ i, ¬s.net.live i = true → s.held i = false
  born : ∀ i, s.birth i < s.now
  later : ∀ c : SockId, s.now ≤ c.2 → s.made c = [] ∧ s.accepted c = [] ∧ s.torn c = []
  pending : ∀ l, s.net.live l = true →
    s.made (s.id l) = s.accepted (s.id l) ++ (s.net.socks l).acceptQ.contents.map s.id
  ended : ∀ c, ¬s.Intact c → s.made c = s.accepted c ++ s.torn c
  untorn : ∀ l, s.net.live l = true → s.torn (s.id l) = []
  old : ∀ c x, x ∈ s.made c → x.2 < s.now
  once : ∀ c, (s.made c).Nodup
  apart : ∀ c c' x, x ∈ s.made c → x ∈ s.made c' → c = c'

variable {s : PeerRun} {i : ℕ} {c : SockId} {n : Net}

theorem id_inj {j : ℕ} (h : s.id i = s.id j) : i = j := (Prod.mk.inj h).1

theorem intact_id (h : s.net.live i = true) : s.Intact (s.id i) := ⟨h, rfl⟩

theorem Intact.eq_id (h : s.Intact c) : c = s.id c.1 := Prod.ext rfl h.2.symm

theorem advance_id_live {held : ℕ → Bool} (h : s.net.live i = true) :
    (s.advance n held).id i = s.id i := by
  unfold advance PeerRun.id
  dsimp only
  rw [if_neg (by simp [h])]

theorem advance_id_new {held : ℕ → Bool} (h : ¬s.net.live i = true) (h' : n.live i = true) :
    (s.advance n held).id i = (i, s.now) := by
  unfold advance PeerRun.id
  dsimp only
  rw [if_pos (by simp [h, h'])]

theorem append_self (f : SockId → List SockId) (c : SockId) (xs : List SockId) :
    append f c xs c = f c ++ xs := update_self ..

theorem append_of_ne (f : SockId → List SockId) {d : SockId} (h : d ≠ c) (xs : List SockId) :
    append f c xs d = f d := update_of_ne h ..

namespace Inv

variable {l : ℕ}

theorem live_of_mem (h : Inv s) {q : ℕ} (hl : s.net.live l = true)
    (hq : q ∈ (s.net.socks l).acceptQ.contents) : s.net.live q = true ∧ s.held q = false := by
  obtain ⟨h1, h2⟩ := h.sound.linked.live l _ q (Net.view_live hl) hq
  exact ⟨Net.view_isSome.1 h1, h2⟩

theorem ne_id (h : Inv s) (hc : s.now ≤ c.2) (i : ℕ) : c ≠ s.id i := by
  rintro rfl
  have := h.born i
  change s.now ≤ s.birth i at hc
  omega

theorem toPeered (h : Inv s) : s.Peered := by
  refine ⟨fun a b ha hp => ?_, fun a a' b ha ha' hp hp' => ?_, h.pending, h.ended, h.once, h.apart,
    fun fd q a n hr => ?_⟩
  · obtain ⟨c, hc, hca⟩ := h.sound.linked.both a _ b (Net.view_live ha) hp
    obtain ⟨hb, rfl⟩ := Net.view_eq_some.1 hc
    exact ⟨hb, hca⟩
  · exact h.sound.linked.peer_inj (Net.view_live ha) (Net.view_live ha') hp hp'
  · obtain ⟨hl, hcons, hql, hqh, -⟩ := h.sound.accept hr
    refine ⟨hql, hqh, ?_⟩
    rw [h.pending fd hl, hcons, map_cons]
    exact mem_append_right _ mem_cons_self

theorem birth_advance (h : Inv s) (n : Net) (held : ℕ → Bool) (i : ℕ) :
    (s.advance n held).birth i < s.now + 1 := by
  have := h.born i
  unfold advance
  dsimp only
  split_ifs <;> omega

theorem untorn_advance (h : Inv s) (held : ℕ → Bool) (hl : n.live l = true) :
    s.torn ((s.advance n held).id l) = [] := by
  by_cases hl' : s.net.live l = true
  · rw [advance_id_live hl']
    exact h.untorn l hl'
  · rw [advance_id_new hl' hl]
    exact (h.later (l, s.now) le_rfl).2.2

theorem pending_advance (h : Inv s) {held : ℕ → Bool} {add : ℕ → List ℕ} (hext : s.net.Extends n add)
    (hl : n.live l = true) :
    s.accepted ((s.advance n held).id l) ++ (n.socks l).acceptQ.contents.map (s.advance n held).id =
      s.made ((s.advance n held).id l) ++
        if s.net.live l then (add l).map (s.advance n held).id else [] := by
  by_cases hl' : s.net.live l = true
  · have hmap : (s.net.socks l).acceptQ.contents.map (s.advance n held).id =
        (s.net.socks l).acceptQ.contents.map s.id :=
      map_congr_left fun q hq => advance_id_live (h.live_of_mem hl' hq).1
    rw [advance_id_live hl', (hext.live hl').2, map_append, hmap, if_pos hl', h.pending l hl', append_assoc]
  · obtain ⟨h1, h2, -⟩ := h.later (l, s.now) le_rfl
    rw [advance_id_new hl' hl, hext.queue_new hl' hl, if_neg hl', h1, h2]
    rfl

theorem not_intact (held : ℕ → Bool) {add : ℕ → List ℕ} (hext : s.net.Extends n add)
    (hc : ¬(s.advance n held).Intact c) : ¬s.Intact c := by
  intro hi
  have hid : (s.advance n held).id c.1 = s.id c.1 := advance_id_live hi.1
  exact hc ⟨(hext.live hi.1).1, (Prod.mk.inj hid).2.trans hi.2⟩

theorem quiet (h : Inv s) {held : ℕ → Bool} (hs : n.Sound held)
    (hfree : ∀ i, ¬n.live i = true → held i = false) (hg : s.net.Grows n) :
    Inv (s.advance n held) := by
  refine ⟨hs, hfree, h.birth_advance n held, fun c hc => ?_, fun l (hl : n.live l = true) => ?_,
    fun c hc => h.ended c (not_intact held hg hc), fun l (hl : n.live l = true) => h.untorn_advance held hl,
    fun c x hx => ?_, h.once, h.apart⟩
  · exact h.later c (Nat.le_of_succ_le hc)
  · refine ((h.pending_advance hg hl).trans ?_).symm
    rw [map_nil, ite_self, append_nil]
    rfl
  · exact (h.old c x hx).trans (Nat.lt_succ_self _)

theorem same (h : Inv s) : Inv (s.advance s.net s.held) := h.quiet h.sound h.free (.refl _)

theorem connected (h : Inv s) {ns : ℕ} (hs : n.Sound s.held)
    (hfree : ∀ i, ¬n.live i = true → s.held i = false) (hl : s.net.live l = true)
    (hnone : s.net.view ns = none) (hns : n.live ns = true)
    (hext : s.net.Extends n fun j => if j = l then [ns] else []) :
    Inv { s.advance n s.held with
      made := append s.made (s.id l) [(s.advance n s.held).id ns] } := by
  have hns' : ¬s.net.live ns = true := by
    rw [← Net.view_isSome, hnone]
    simp
  have hnew : (s.advance n s.held).id ns = (ns, s.now) := advance_id_new hns' hns
  rw [hnew]
  -- no connection was made at this time before
  have hfresh : ∀ c, (ns, s.now) ∉ s.made c := fun c hc => lt_irrefl _ (h.old c _ hc)
  refine ⟨hs, hfree, fun i => ?_, fun c hc => ?_, fun j (hj : n.live j = true) => ?_,
    fun c hc => ?_, fun j (hj : n.live j = true) => ?_, fun c x hx => ?_, fun c => ?_,
    fun c c' x hx hx' => ?_⟩
  · exact h.birth_advance n s.held i
  · have hc' : s.now ≤ c.2 := Nat.le_of_succ_le hc
    dsimp only
    rw [append_of_ne _ (h.ne_id hc' l)]
    exact h.later c hc'
  · show append s.made (s.id l) _ ((s.advance n s.held).id j) =
      s.accepted ((s.advance n s.held).id j) ++
        (n.socks j).acceptQ.contents.map (s.advance n s.held).id
    rw [h.pending_advance hext hj]
    by_cases hj' : s.net.live j = true
    · rw [advance_id_live hj', if_pos hj']
      by_cases hjl : j = l
      · rw [hjl, append_self, if_pos rfl, map_singleton, hnew]
      · rw [append_of_ne _ fun heq => hjl (id_inj heq), if_neg hjl, map_nil, append_nil]
    · rw [advance_id_new hj' hj, append_of_ne _ (h.ne_id le_rfl l), if_neg hj', append_nil]
  · have hni : ¬s.Intact c := not_intact s.held hext hc
    have hcl : c ≠ s.id l := by
      rintro rfl
      exact hni (intact_id hl)
    show append s.made (s.id l) _ c = _
    rw [append_of_ne _ hcl]
    exact h.ended c hni
  · exact h.untorn_advance s.held hj
  · show x.2 < s.now + 1
    change x ∈ append s.made (s.id l) _ c at hx
    by_cases hcl : c = s.id l
    · rw [hcl, append_self, mem_append, mem_singleton] at hx
      rcases hx with hx | rfl
      · exact (h.old _ x hx).trans (Nat.lt_succ_self _)
      · exact Nat.lt_succ_self _
    · rw [append_of_ne _ hcl] at hx
      exact (h.old c x hx).trans (Nat.lt_succ_self _)
  · show (append s.made (s.id l) _ c).Nodup
    by_cases hcl : c = s.id l
    · rw [hcl, append_self, nodup_append]
      refine ⟨h.once _, nodup_singleton _, ?_⟩
      rintro x hx y hy rfl
      rw [mem_singleton] at hy
      subst hy
      exact hfresh _ hx
    · rw [append_of_ne _ hcl]
      exact h.once c
  · have hmem : ∀ d, x ∈ append s.made (s.id l) [(ns, s.now)] d →
        x ∈ s.made d ∨ d = s.id l ∧ x = (ns, s.now) := by
      intro d hd
      by_cases hdl : d = s.id l
      · rw [hdl, append_self, mem_append, mem_singleton] at hd
        rcases hd with hd | rfl
        · exact .inl (hdl ▸ hd)
        · exact .inr ⟨hdl, rfl⟩
      · rw [append_of_ne _ hdl] at hd
        exact .inl hd
    rcases hmem c hx with hx | ⟨rfl, rfl⟩
    · rcases hmem c' hx' with hx' | ⟨rfl, rfl⟩
      · exact h.apart c c' x hx hx'
      · exact absurd hx (hfresh c)
    · rcases hmem c' hx' with hx' | ⟨rfl, -⟩
      · exact absurd hx' (hfresh c')
      · rfl

theorem accepted (h : Inv s) {n : Net} {fd q : ℕ} {a : Ip × Port}
    (hr : s.net.sockAccept fd = (.ok (q, a), n)) :
    Inv { s.advance n (update s.held q true) with
      accepted := append s.accepted (s.id fd) [s.id q] } := by
  obtain ⟨hl, hcons, hql, -, hs, hlive, hother⟩ := h.sound.accept hr
  have hid : ∀ j held, (s.advance n held).id j = s.id j := by
    intro j held
    unfold advance PeerRun.id
    dsimp only
    rw [hlive, if_neg (by cases s.net.live j <;> simp)]
  have hidf : ∀ held, (s.advance n held).id = s.id := fun held => funext fun j => hid j held
  refine ⟨hs, fun i hi => ?_, fun i => ?_, fun c hc => ?_, fun j (hj : n.live j = true) => ?_,
    fun c hc => ?_, fun j (hj : n.live j = true) => ?_, fun c x hx => ?_, h.once, h.apart⟩
  · have hi' : ¬s.net.live i = true := by
      rw [← hlive]
      exact hi
    have hiq : i ≠ q := by
      rintro rfl
      exact hi' hql
    show update s.held q true i = false
    rw [update_of_ne hiq]
    exact h.free i hi'
  · exact h.birth_advance n s.held i
  · have hc' : s.now ≤ c.2 := Nat.le_of_succ_le hc
    dsimp only
    rw [append_of_ne _ (h.ne_id hc' fd)]
    exact h.later c hc'
  · rw [hlive] at hj
    show s.made ((s.advance n s.held).id j) = append s.accepted (s.id fd) _ ((s.advance n s.held).id j) ++
      (n.socks j).acceptQ.contents.map (s.advance n s.held).id
    rw [hidf]
    by_cases hjf : j = fd
    · subst hjf
      rw [append_self, h.pending j hl, hcons, map_cons, append_assoc,
        singleton_append]
    · have hv := hother j hjf
      rw [Net.view_live hj, Net.view_live (by rw [hlive, hj])] at hv
      have hq : (n.socks j).acceptQ.contents = (s.net.socks j).acceptQ.contents :=
        congrArg EndView.queue (Option.some.inj hv)
      rw [append_of_ne _ fun heq => hjf (id_inj heq), h.pending j hj, hq]
  · have hni : ¬s.Intact c := by
      rintro ⟨h1, h2⟩
      refine hc ⟨by rw [← h1]; exact hlive _, ?_⟩
      exact (Prod.mk.inj (hid c.1 s.held)).2.trans h2
    have hcf : c ≠ s.id fd := by
      rintro rfl
      exact hni (intact_id hl)
    show s.made c = append s.accepted (s.id fd) _ c ++ s.torn c
    rw [append_of_ne _ hcf]
    exact h.ended c hni
  · rw [hlive] at hj
    show s.torn ((s.advance n s.held).id j) = []
    rw [hid]
    exact h.untorn j hj
  · exact (h.old c x hx).trans (Nat.lt_succ_self _)

theorem closed (h : Inv s) {fd : ℕ} (hl : s.net.live fd = true) (hh : s.held fd = true)
    (hr : (s.net.sockClose fd).2 = n) :
    Inv { s.advance n (update s.held fd false) with
      torn := append s.torn (s.id fd)
        (((s.net.socks fd).acceptQ.contents.filter fun q => !n.live q).map s.id) } := by
  obtain ⟨hs, hdead, hpend, hlost, hkept⟩ := h.sound.close hl hh hr
  have hlive : ∀ j, n.live j = true → s.net.live j = true ∧ j ≠ fd ∧
      (n.socks j).acceptQ.contents = (s.net.socks j).acceptQ.contents := by
    intro j hj
    obtain ⟨a, ha, hq⟩ := hkept j _ (Net.view_live hj)
    obtain ⟨hlj, rfl⟩ := Net.view_eq_some.1 ha
    refine ⟨hlj, ?_, hq⟩
    rintro rfl
    exact hdead hj
  have hidf : ∀ held, (s.advance n held).id = s.id := by
    intro held
    funext j
    unfold advance PeerRun.id
    dsimp only
    refine congrArg (Prod.mk j) (if_neg ?_)
    by_cases hj : n.live j = true
    · simp [(hlive j hj).1]
    · simp [hj]
  -- everything that waited has ended
  have hall : (s.net.socks fd).acceptQ.contents.filter (fun q => !n.live q) =
      (s.net.socks fd).acceptQ.contents :=
    filter_eq_self.2 fun q hq => by simpa using hpend q hq
  rw [hall]
  refine ⟨hs.congr_held fun i hi => ?_, fun i (hi : ¬n.live i = true) => ?_, fun i => ?_,
    fun c hc => ?_, fun j (hj : n.live j = true) => ?_, fun c hc => ?_,
    fun j (hj : n.live j = true) => ?_, fun c x hx => ?_, h.once, h.apart⟩
  · exact update_of_ne (hlive i hi).2.1 _ _
  · show update s.held fd false i = false
    by_cases hif : i = fd
    · rw [hif, update_self]
    · rw [update_of_ne hif]
      by_cases hi' : s.net.live i = true
      · exact hlost i hi' hif hi
      · exact h.free i hi'
  · exact h.birth_advance n s.held i
  · have hc' : s.now ≤ c.2 := Nat.le_of_succ_le hc
    dsimp only
    rw [append_of_ne _ (h.ne_id hc' fd)]
    exact h.later c hc'
  · obtain ⟨hlj, -, hq⟩ := hlive j hj
    show s.made ((s.advance n s.held).id j) = s.accepted ((s.advance n s.held).id j) ++
      (n.socks j).acceptQ.contents.map (s.advance n s.held).id
    rw [hidf, hq]
    exact h.pending j hlj
  · show s.made c = s.accepted c ++ append s.torn (s.id fd) _ c
    by_cases hi : s.Intact c
    · rw [hi.eq_id] at hc ⊢
      have hcl : s.net.live c.1 = true := hi.1
      by_cases hcf : c.1 = fd
      · rw [hcf, append_self, h.untorn fd hl, nil_append]
        exact h.pending fd hl
      · -- nobody held it, so that nothing waited for it
        have hcn : ¬n.live c.1 = true := by
          intro hcn
          refine hc ⟨hcn, ?_⟩
          exact (Prod.mk.inj (congrFun (hidf s.held) c.1)).2
        have hnil := (h.sound.linked.unheld c.1 _ (Net.view_live hcl) (hlost c.1 hcl hcf hcn)).1
        rw [append_of_ne _ fun heq => hcf (id_inj heq), h.untorn c.1 hcl, h.pending c.1 hcl]
        show _ ++ (s.net.socks c.1).view.queue.map _ = _
        rw [hnil]
        rfl
    · have hcf : c ≠ s.id fd := by
        rintro rfl
        exact hi (intact_id hl)
      rw [append_of_ne _ hcf]
      exact h.ended c hi
  · obtain ⟨hlj, hjf, -⟩ := hlive j hj
    show append s.torn (s.id fd) _ ((s.advance n s.held).id j) = []
    rw [hidf, append_of_ne _ fun heq => hjf (id_inj heq)]
    exact h.untorn j hlj
  · exact (h.old c x hx).trans (Nat.lt_succ_self _)

theorem exec (h : Inv s) {op : PeerOp} (hop : s.Orderly op) : Inv (s.exec op) := by
  have hfree : ∀ {n : Net} {add}, s.net.Extends n add → ∀ i, ¬n.live i = true → s.held i = false :=
    fun hg i hi => h.free i fun hl => hi (hg.live hl).1
  cases op with
  | create domain type protocol =>
    unfold PeerRun.exec
    dsimp only
    split
    · next i n hr =>
      obtain ⟨-, hl, hs, hg⟩ := h.sound.create (update s.held i true) hr
        fun j hj => update_of_ne hj _ _
      refine h.quiet hs (fun j hj => ?_) hg
      have hji : j ≠ i := by
        rintro rfl
        exact hj hl
      rw [update_of_ne hji]
      exact hfree hg j hj
    · next e n hr =>
      rw [Net.sockCreate_error hr]
      exact h.same
  | bind fd addr port =>
    obtain ⟨hs, hg⟩ := h.sound.bind fd addr port
    exact h.quiet hs (hfree hg) hg
  | listen fd backlog =>
    obtain ⟨hs, hg⟩ := h.sound.listen hop.1 hop.2 backlog
    exact h.quiet hs (hfree hg) hg
  | connect fd addr port events =>
    obtain ⟨hn, hev, hkeep⟩ := hop
    unfold PeerRun.exec
    dsimp only
    split
    · next n hr =>
      obtain ⟨hs, ⟨ht, hg⟩ | ⟨l, ns, -, ht, hl, hp, hnone, hns, hext⟩⟩ :=
        h.sound.connect hn h.free hev hkeep hr
      · rw [ht rfl]
        exact h.quiet hs (hfree hg) hg
      · rw [ht, hp]
        exact h.connected hs (hfree hext) hl hnone hns hext
    · next e n hr =>
      obtain ⟨hs, ⟨-, hg⟩ | ⟨l, ns, hok, -⟩⟩ := h.sound.connect hn h.free hev hkeep hr
      · exact h.quiet hs (hfree hg) hg
      · cases hok
  | accept fd =>
    unfold PeerRun.exec
    dsimp only
    split
    · next q a n hr => exact h.accepted hr
    · next e n hr =>
      rw [Net.Sound.sockAccept_error hr]
      exact h.same
  | pair domain type protocol =>
    unfold PeerRun.exec
    dsimp only
    split
    · next a b n hr =>
      obtain ⟨-, -, hla, hlb, hs, hg⟩ := h.sound.pair
        (update (update s.held a true) b true) hr fun j hja hjb => by
          rw [update_of_ne hjb, update_of_ne hja]
      refine h.quiet hs (fun j hj => ?_) hg
      have hja : j ≠ a := by
        rintro rfl
        exact hj hla
      have hjb : j ≠ b := by
        rintro rfl
        exact hj hlb
      rw [update_of_ne hjb, update_of_ne hja]
      exact hfree hg j hj
    · next e n hr =>
      obtain ⟨hs, hg⟩ := h.sound.pair_error hr
      exact h.quiet hs (hfree hg) hg
  | close fd =>
    unfold PeerRun.exec
    dsimp only
    by_cases hl : s.net.live fd = true
    · have hr : s.net.sockClose fd = (.ok (), (s.net.sockClose fd).2) := by
        unfold Net.sockClose
        rw [if_neg (by simp [hl])]
      rw [hr]
      exact h.closed hl (hop hl) rfl
    · have hr : s.net.sockClose fd = (.error .ebadf, s.net) := by
        unfold Net.sockClose
        rw [if_pos (by simp [hl])]
      rw [hr]
      exact h.same

end Inv

theorem inv_init : Inv .init := by
  have hlive : ∀ i, ¬PeerRun.init.net.live i = true := fun i =>
    Net.not_live_of_zeroed (n := .boot) rfl
  have hview : ∀ i, PeerRun.init.net.view i = none := fun i => Net.view_free (hlive i)
  have hok : Sock.zeroed.acceptQ.Ok := ⟨by decide, by decide⟩
  refine ⟨⟨fun _ => hok, ?_, fun i hi => absurd hi (hlive i)⟩, fun _ _ => rfl,
    fun _ => Nat.zero_lt_one, fun _ _ => ⟨rfl, rfl, rfl⟩, fun l hl => absurd hl (hlive l),
    fun _ _ => rfl, fun _ _ => rfl, fun _ x hx => absurd hx not_mem_nil,
    fun _ => nodup_nil, fun _ _ x hx => absurd hx not_mem_nil⟩
  have hno : ∀ {i a}, PeerRun.init.net.view i = some a → False := by
    intro i a h
    rw [hview] at h
    cases h
  exact ⟨fun _ _ _ h => (hno h).elim, fun _ _ h => (hno h).elim, fun _ _ _ h => (hno h).elim,
    fun _ _ h => (hno h).elim, fun _ _ _ _ _ h => (hno h).elim, fun _ _ _ h => (hno h).elim⟩

end PeerRun

/-- **Peers and accept queues** in every run of calls on descriptors that clears no queue with a
connection in it and replaces no peer. -/
theorem peerRun_peered {s : PeerRun} (hrun : Runs PeerRun.Orderly PeerRun.exec .init s) :
    s.Peered :=
  (Runs.invariant (fun _ _ h hop => h.exec hop) hrun PeerRun.inv_init).toPeered

/-- A listener, and a client that has connected to it. -/
def clientWaits : PeerRun :=
  ((((PeerRun.init.exec (.create 1 1 0)).exec (.bind 0 0x7F000001#32 5)).exec (.listen 0 4)).exec
    (.create 1 1 0)).exec (.connect 1 0x7F000001#32 5 none)

theorem clientWaits_run : Runs PeerRun.Orderly PeerRun.exec .init clientWaits := by
  refine Runs.tail (Runs.tail (Runs.tail (Runs.tail (Runs.tail (Runs.refl _) _ trivial) _ ?_) _ ?_)
    _ trivial) _ ?_
  · exact fun _ => by decide +kernel
  · exact ⟨fun _ => by decide +kernel, fun _ => by decide +kernel⟩
  · refine ⟨fun _ => by decide +kernel, ?_, fun _ => Or.inl (by decide +kernel)⟩
    rintro es ⟨⟩

theorem clientWaits_peered : ((clientWaits.exec (.accept 0)).exec (.close 0)).Peered := by
  refine peerRun_peered (Runs.tail (Runs.tail clientWaits_run _ ?_) _ ?_)
  · exact fun _ => by decide +kernel
  · exact fun _ => by decide +kernel

/-- When the listener calls `sock_listen` again, the connection is neither accepted nor ended. -/
theorem clientWaits_not_peered : ¬(clientWaits.exec (.listen 0 4)).Peered := by
  intro h
  have hp := h.pending 0 (by decide +kernel)
  have hmade : (clientWaits.exec (.listen 0 4)).made ((clientWaits.exec (.listen 0 4)).id 0) =
      [(2, 5)] := by decide +kernel
  have haccepted : (clientWaits.exec (.listen 0 4)).accepted
      ((clientWaits.exec (.listen 0 4)).id 0) = [] := by decide +kernel
  have hqueue : ((clientWaits.exec (.listen 0 4)).net.socks 0).acceptQ.contents = [] := by
    decide +kernel
  rw [hmade, haccepted, hqueue] at hp
  cases hp

end Ridux
