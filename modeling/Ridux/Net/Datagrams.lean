import Mathlib.Data.List.SplitLengths
import Mathlib.Algebra.Ring.Nat
import Ridux.Net.Bounds

/-!
# The boundaries of datagrams

The bytes of the datagrams of a socket are in one ring and their lengths in another.

* `Sock.datagrams`: the bytes, cut by the lengths; `Sock.Aligned`: the lengths add up to the bytes;
* `Mailboxes`, `Mailboxes.exec`: runs of `sock_push_udp`, `sock_pop_udp` and frames of the network, with
  what arrived at each socket and what was taken from it;
* `Mailboxes.Keeps`: what a frame must find for the rings to stay together;
* `datagram_boundaries`: datagrams leave as they came, in every run of frames that find it.
-/

namespace Ridux

open Lib NetStack Function List

namespace Sock

/-- The lengths of the datagrams in the ring. -/
def msgLens (s : Sock) : List ℕ := s.rxMsg.contents.map Dgram.len

/-- The datagrams in the ring. -/
def datagrams (s : Sock) : List Bytes := s.msgLens.splitLengths s.rx.contents

/-- Every byte in the ring is of a datagram. -/
structure Aligned (s : Sock) : Prop where
  queue : s.rxMsg.Ok
  room : s.rx.used ≤ sockBufSize
  sum : s.msgLens.sum = s.rx.used

/-- A datagram whose bytes and length are both stored. -/
def store (s : Sock) (payload : Bytes) (ip : Ip) (port : Port) : Sock :=
  { (s.pushRx payload).2 with rxMsg := s.rxMsg.put ⟨payload.length, ip, port⟩ }

/-- The socket after its first datagram was read into `len` bytes. -/
def popped (s : Sock) (len : ℕ) : Sock :=
  let m := s.rxMsg.slots s.rxMsg.tail
  let rest := (Ring.pop (min len m.len) s.rx).2
  { s with
    rx := (Ring.pop (m.len - min len m.len) rest).2
    remoteIp := m.ip
    remotePort := m.port
    rxMsg := s.rxMsg.next }

end Sock

theorem splitLengths_concat {α : Type*} (ns : List ℕ) :
    ∀ (l xs : List α), ns.sum = l.length →
      (ns ++ [xs.length]).splitLengths (l ++ xs) = ns.splitLengths l ++ [xs] := by
  induction ns with
  | nil =>
    intro l xs h
    obtain rfl := length_eq_zero_iff.1 h.symm
    simp
  | cons n ns ih =>
    intro l xs h
    rw [sum_cons] at h
    have htake : (l ++ xs).take n = l.take n := take_append_of_le_length (by omega)
    have hdrop : (l ++ xs).drop n = l.drop n ++ xs := drop_append_of_le_length (by omega)
    rw [cons_append, splitLengths_cons, splitLengths_cons, htake, hdrop,
      ih _ _ (by rw [length_drop]; omega), cons_append]

namespace Sock

variable {s : Sock}

theorem rxRoom_eq (h : s.rx.used ≤ sockBufSize) : s.rxRoom = sockBufSize - s.rx.used := by
  rw [rxRoom, Nat.min_eq_left h]

theorem Aligned.store (h : s.Aligned) {payload : Bytes} (hroom : payload.length ≤ s.rxRoom)
    (hfull : s.rxMsgFull = false) (ip : Ip) (port : Port) :
    (s.store payload ip port).Aligned ∧
      (s.store payload ip port).datagrams = s.datagrams ++ [payload] := by
  have hnext : Circular.succ sockDgramq s.rxMsg.head ≠ s.rxMsg.tail := by
    simpa only [rxMsgFull, decide_eq_false_iff_not] using hfull
  have hlens : (s.store payload ip port).msgLens = s.msgLens ++ [payload.length] := by
    show (s.rxMsg.put ⟨payload.length, ip, port⟩).contents.map Dgram.len = _
    rw [h.queue.contents_put _ hnext, map_append]
    rfl
  obtain ⟨hcontents, hused⟩ := contents_pushRx h.room payload
  have hall : (s.pushRx payload).1 = payload.length := Nat.min_eq_left hroom
  rw [hall, take_length] at hcontents
  have hrx : (s.store payload ip port).rx.contents = s.rx.contents ++ payload := hcontents
  refine ⟨⟨h.queue.put _, hused, ?_⟩, ?_⟩
  · have hlength := congrArg List.length hrx
    rw [length_append, Ring.length_contents, Ring.length_contents] at hlength
    rw [hlens, sum_append, h.sum, sum_singleton, hlength]
  · rw [datagrams, hlens, hrx, splitLengths_concat _ _ _ (by rw [h.sum, Ring.length_contents])]
    rfl

theorem Aligned.pushUdp (h : s.Aligned) (src : Bytes) (ip : Ip) (port : Port) :
    s.pushUdp src ip port = .error .eagain ∨
      s.pushUdp src ip port = .ok ((src.take 65535).length, s.store (src.take 65535) ip port) ∧
        (s.store (src.take 65535) ip port).Aligned ∧
        (s.store (src.take 65535) ip port).datagrams = s.datagrams ++ [src.take 65535] := by
  unfold Sock.pushUdp
  dsimp only
  split_ifs with hroom hfull
  · exact .inl rfl
  · exact .inl rfl
  · exact .inr ⟨rfl, h.store (by omega) (by simpa using hfull) ip port⟩

theorem Aligned.popUdp (h : s.Aligned) (len : ℕ) (dontWait : Bool) :
    (s.rxMsg.head = s.rxMsg.tail ∧
        (s.popUdp len dontWait = .error .eagain ∨ s.popUdp len dontWait = .ok ([], s))) ∨
      (s.rxMsg.head ≠ s.rxMsg.tail ∧ ∃ d s', s.datagrams = d :: s'.datagrams ∧ s'.Aligned ∧
        s.popUdp len dontWait = .ok (d.take len, s')) := by
  by_cases hempty : s.rxMsg.head = s.rxMsg.tail
  · refine .inl ⟨hempty, ?_⟩
    rw [Sock.popUdp, if_pos hempty]
    split_ifs
    · exact .inl rfl
    · exact .inr rfl
  have hcons := h.queue.contents_cons hempty
  have hlens : s.msgLens = (s.rxMsg.slots s.rxMsg.tail).len :: s.rxMsg.next.contents.map Dgram.len := by
    rw [msgLens, hcons, map_cons]
  have hsum := h.sum
  rw [hlens, sum_cons] at hsum
  set n := (s.rxMsg.slots s.rxMsg.tail).len with hn
  have hused := Ring.used_pop (min len n) s.rx (by omega)
  have hskip : n - min len n ≤ (Ring.pop (min len n) s.rx).2.used := by omega
  have hrest : (Ring.pop (n - min len n) (Ring.pop (min len n) s.rx).2).2.contents =
      s.rx.contents.drop n := by
    rw [Ring.contents_pop _ _ hskip, Ring.contents_pop _ _ (by omega), drop_drop]
    congr 1
    omega
  have hpop : s.popUdp len dontWait = .ok ((s.rx.contents.take n).take len, s.popped len) := by
    rw [Sock.popUdp, if_neg hempty]
    dsimp only
    rw [← hn, Ring.pop_fst _ _ (by omega), take_take]
    rfl
  refine .inr ⟨hempty, s.rx.contents.take n, s.popped len, ?_, ⟨h.queue.next, ?_, ?_⟩, hpop⟩
  · rw [datagrams, hlens, splitLengths_cons, ← hrest]
    rfl
  · show (Ring.pop (n - min len n) (Ring.pop (min len n) s.rx).2).2.used ≤ _
    rw [Ring.used_pop _ _ hskip]
    have := h.room
    omega
  · show (s.rxMsg.next.contents.map Dgram.len).sum =
      (Ring.pop (n - min len n) (Ring.pop (min len n) s.rx).2).2.used
    rw [Ring.used_pop _ _ hskip]
    omega

end Sock

/-! ### Frames -/

namespace NetStack

variable {s : NetStack} {fd : ℕ} {payload : Bytes} {f : Bytes} {h : IpHdr}

theorem deliver_stores (hlive : s.tcp.net.live fd = true) (hne : payload ≠ [])
    (hroom : payload.length ≤ (s.tcp.net.socks fd).rxRoom)
    (hfull : (s.tcp.net.socks fd).rxMsgFull = false) (ip : Ip) (port : Port) :
    s.deliver fd payload ip port =
      { s with tcp := s.tcp.setSock fd ((s.tcp.net.socks fd).store payload ip port) } := by
  have hsize : payload.length ≤ sockBufSize := by
    unfold Sock.rxRoom at hroom
    omega
  have hfst : ((s.tcp.net.socks fd).pushRx payload).1 = payload.length := Nat.min_eq_left hroom
  have hsame : ((s.tcp.net.socks fd).pushRx payload).2.rxMsgFull = false := hfull
  rw [deliver, if_pos ⟨hne, hsize⟩, Net.netEvent, if_pos hlive]
  dsimp only
  rw [if_pos ⟨hfst, by rw [hsame]; rfl⟩]
  rfl

theorem deliver_strays (hlive : s.tcp.net.live fd = true) (hne : payload ≠ [])
    (hsize : payload.length ≤ sockBufSize)
    (hno : ¬ (payload.length ≤ (s.tcp.net.socks fd).rxRoom ∧
      (s.tcp.net.socks fd).rxMsgFull = false)) (ip : Ip) (port : Port) :
    s.deliver fd payload ip port =
      { s with tcp := s.tcp.setSock fd ((s.tcp.net.socks fd).pushRx payload).2 } := by
  have hcond : ¬ (((s.tcp.net.socks fd).pushRx payload).1 = payload.length ∧
      (!((s.tcp.net.socks fd).pushRx payload).2.rxMsgFull) = true) := by
    rintro ⟨hfst, hfull⟩
    have hsame : ((s.tcp.net.socks fd).pushRx payload).2.rxMsgFull = false := by simpa using hfull
    refine hno ⟨?_, hsame⟩
    have : min payload.length (s.tcp.net.socks fd).rxRoom = payload.length := hfst
    omega
  rw [deliver, if_pos ⟨hne, hsize⟩, Net.netEvent, if_pos hlive]
  dsimp only
  rw [if_neg hcond]
  rfl

theorem process_udp (hudp : f.getD 23 0 = 17) (link : ℕ → Bool) :
    (∃ t, s.netProcessFrame f link = some t ∧ t.tcp = s.tcp ∧ ∀ h fd, s.For f h fd → ¬ UdpFits h) ∨
      ∃ h fd, s.For f h fd ∧ UdpFits h ∧ s.netProcessFrame f link =
        some (s.deliver fd (udpData f h) h.src (be16 f (14 + h.ihl))) := by
  have hproto : ∀ {h : IpHdr}, IpHdr.Of f h → h.proto ≠ 6 := by
    intro h hh
    rw [hh.proto_eq, hudp]
    decide
  by_cases hfor : ∃ h fd, s.For f h fd ∧ UdpFits h
  · obtain ⟨h, fd, hfor, hfits⟩ := hfor
    exact .inr ⟨h, fd, hfor, hfits, hfor.process_dgram hfits link⟩
  push Not at hfor
  refine .inl ?_
  rcases inspect_cases s f with ⟨h, fd, hh, hcut, -⟩ | heq | ⟨e, -, -, heq⟩ | ⟨h, fd, hh, hfits, -⟩ |
      ⟨h, fd, hh, hfits, -⟩
  · exact absurd hcut.1 (hproto hh.header)
  · exact ⟨s, by rw [netProcessFrame, heq]; rfl, rfl, hfor⟩
  · exact ⟨{ s with arp := update s.arp (arpSlot s.arp e.ip) e },
      by rw [netProcessFrame, heq]; rfl, rfl, hfor⟩
  · exact absurd hfits.1 (hproto hh.header)
  · exact absurd hfits (hfor h fd hh)

end NetStack

/-! ### Runs -/

/-- A call on a socket, or a frame of the network. -/
inductive DgramOp
  | push (fd : ℕ) (src : Bytes) (ip : Ip) (port : Port)
  | frame (f : Bytes) (link : ℕ → Bool)
  | pop (fd len : ℕ) (dontWait : Bool)

/-- The stack, with the datagrams that arrived at each socket, and what was taken from it: the size of
the buffer and the bytes that were returned. -/
structure Mailboxes where
  stack : NetStack
  arrived : ℕ → List Bytes
  taken : ℕ → List (ℕ × Bytes)

/-- The data of the datagram in a frame. -/
def frameData (f : Bytes) : Bytes := (readIp f).elim [] fun h => h.elim [] (udpData f)

namespace Mailboxes

def sock (m : Mailboxes) (fd : ℕ) : Sock := m.stack.tcp.net.socks fd

/-- No datagram was taken yet. -/
def start (s : NetStack) : Mailboxes :=
  ⟨s, fun fd => (s.tcp.net.socks fd).datagrams, fun _ => []⟩

def setSock (m : Mailboxes) (fd : ℕ) (k : Sock) : Mailboxes :=
  { m with stack := { m.stack with tcp := m.stack.tcp.setSock fd k } }

/-- `sock_push_udp` on a socket. -/
def onPush (m : Mailboxes) (fd : ℕ) (src : Bytes) (ip : Ip) (port : Port) : Mailboxes :=
  match (m.sock fd).pushUdp src ip port with
  | .error _ => m
  | .ok (n, k) =>
    { m.setSock fd k with arrived := update m.arrived fd (m.arrived fd ++ [src.take n]) }

/-- A frame; a datagram has arrived when its length is queued. -/
def onFrame (m : Mailboxes) (f : Bytes) (link : ℕ → Bool) : Mailboxes :=
  match m.stack.netProcessFrame f link with
  | none => m
  | some s =>
    { m with
      stack := s
      arrived := fun fd =>
        if (s.tcp.net.socks fd).rxMsg.head = (m.sock fd).rxMsg.head then m.arrived fd
        else m.arrived fd ++ [frameData f] }

/-- `sock_pop_udp` on a socket. -/
def onPop (m : Mailboxes) (fd len : ℕ) (dontWait : Bool) : Mailboxes :=
  match (m.sock fd).popUdp len dontWait with
  | .error _ => m
  | .ok (bytes, k) =>
    if (m.sock fd).rxMsg.head = (m.sock fd).rxMsg.tail then m.setSock fd k
    else
      { m.setSock fd k with taken := update m.taken fd (m.taken fd ++ [(len, bytes)]) }

def exec (m : Mailboxes) : DgramOp → Mailboxes
  | .push fd src ip port => m.onPush fd src ip port
  | .frame f link => m.onFrame f link
  | .pop fd len dontWait => m.onPop fd len dontWait

/-- The frames are of UDP. -/
def Udp (_ : Mailboxes) : DgramOp → Prop
  | .frame f _ => f.getD 23 0 = 17
  | _ => True

/-- The data of a datagram find nothing to store, no room at all, or room for all of them and for their
length. -/
def Finds (s : NetStack) (f : Bytes) : Prop :=
  ∀ h fd, s.For f h fd → UdpFits h →
    h.total = h.ihl + 8 ∨ (s.tcp.net.socks fd).rxRoom = 0 ∨
      h.total - h.ihl - 8 ≤ (s.tcp.net.socks fd).rxRoom ∧ (s.tcp.net.socks fd).rxMsgFull = false

/-- The frames are of UDP and find that. -/
def Keeps (m : Mailboxes) : DgramOp → Prop
  | .frame f _ => f.getD 23 0 = 17 ∧ Finds m.stack f
  | _ => True

/-- What was taken from a socket are the first datagrams that arrived, in order, each cut to the
buffer; the others wait in its rings. -/
structure Boundaries (m : Mailboxes) (fd : ℕ) : Prop where
  aligned : (m.sock fd).Aligned
  order : ∃ ds, m.arrived fd = ds ++ (m.sock fd).datagrams ∧
    List.Forall₂ (fun t d => t.2 = d.take t.1) (m.taken fd) ds

variable {m m' : Mailboxes} {fd i : ℕ} {f : Bytes}

@[simp] theorem sock_setSock_self (m : Mailboxes) (fd : ℕ) (k : Sock) : (m.setSock fd k).sock fd = k :=
  Net.setSock_self ..

theorem sock_setSock_of_ne (m : Mailboxes) (h : i ≠ fd) (k : Sock) :
    (m.setSock fd k).sock i = m.sock i := Net.setSock_of_ne _ h k

theorem Boundaries.same (h : m.Boundaries i) (hsock : m'.sock i = m.sock i)
    (harrived : m'.arrived i = m.arrived i) (htaken : m'.taken i = m.taken i) : m'.Boundaries i := by
  obtain ⟨ds, harr, htook⟩ := h.order
  exact ⟨hsock.symm ▸ h.aligned, ds, by rw [harrived, hsock, harr], by rw [htaken]; exact htook⟩

theorem Boundaries.arrives {d : Bytes} (h : m.Boundaries i) (haligned : (m'.sock i).Aligned)
    (hsock : (m'.sock i).datagrams = (m.sock i).datagrams ++ [d])
    (harrived : m'.arrived i = m.arrived i ++ [d]) (htaken : m'.taken i = m.taken i) :
    m'.Boundaries i := by
  obtain ⟨ds, harr, htook⟩ := h.order
  exact ⟨haligned, ds, by rw [harrived, hsock, harr, append_assoc], by rw [htaken]; exact htook⟩

theorem Boundaries.push (h : m.Boundaries i) (fd : ℕ) (src : Bytes) (ip : Ip) (port : Port) :
    (m.onPush fd src ip port).Boundaries i := by
  unfold onPush
  by_cases hi : i = fd
  · subst hi
    rcases h.aligned.pushUdp src ip port with herr | ⟨hok, haligned, hdgrams⟩
    · rw [herr]
      exact h
    · have hcut : src.take (src.take 65535).length = src.take 65535 := by
        rw [length_take, take_eq_take_iff]
        omega
      rw [hok]
      refine h.arrives (d := src.take 65535) ?_ ?_ ?_ rfl
      · exact (sock_setSock_self m i _).symm ▸ haligned
      · exact (sock_setSock_self m i _).symm ▸ hdgrams
      · show update m.arrived i _ i = _
        rw [update_self, hcut]
  · cases (m.sock fd).pushUdp src ip port with
    | error e => exact h
    | ok r => exact h.same (sock_setSock_of_ne m hi _) (update_of_ne hi ..) rfl

theorem Boundaries.pop (h : m.Boundaries i) (fd len : ℕ) (dontWait : Bool) :
    (m.onPop fd len dontWait).Boundaries i := by
  unfold onPop
  by_cases hi : i = fd
  · subst hi
    rcases h.aligned.popUdp len dontWait with ⟨hempty, herr | hok⟩ | ⟨hne, d, k, hcons, haligned, hok⟩
    · rw [herr]
      exact h
    · rw [hok]
      dsimp only
      rw [if_pos hempty]
      exact h.same (sock_setSock_self m i _) rfl rfl
    · rw [hok]
      dsimp only
      rw [if_neg hne]
      obtain ⟨ds, harr, htook⟩ := h.order
      refine ⟨(sock_setSock_self m i k).symm ▸ haligned, ds ++ [d], ?_, ?_⟩
      · show m.arrived i = ds ++ [d] ++ ((m.setSock i k).sock i).datagrams
        rw [sock_setSock_self, harr, hcons, append_assoc, singleton_append]
      · show List.Forall₂ _ (update m.taken i (m.taken i ++ [(len, d.take len)]) i) (ds ++ [d])
        rw [update_self]
        exact rel_append htook (.cons rfl .nil)
  · cases (m.sock fd).popUdp len dontWait with
    | error e => exact h
    | ok r =>
      dsimp only
      split_ifs
      · exact h.same (sock_setSock_of_ne m hi _) rfl rfl
      · exact h.same (sock_setSock_of_ne m hi _) rfl (update_of_ne hi ..)

theorem head_store_ne {k : Sock} (h : k.rxMsg.Ok) (d : Bytes) (ip : Ip) (port : Port) :
    (k.store d ip port).rxMsg.head ≠ k.rxMsg.head := by
  have hlt := h.head_lt
  show Circular.succ sockDgramq k.rxMsg.head ≠ k.rxMsg.head
  rw [Circular.succ_eq hlt]
  unfold sockDgramq at hlt ⊢
  split_ifs <;> omega

theorem Boundaries.frame_same (h : m.Boundaries i) {link : ℕ → Bool} {t : NetStack}
    (hrun : m.stack.netProcessFrame f link = some t) (hsame : t.tcp.net.socks i = m.sock i) :
    (m.onFrame f link).Boundaries i := by
  rw [onFrame, hrun]
  exact h.same hsame (if_pos (congrArg (fun k : Sock => k.rxMsg.head) hsame)) rfl

theorem frameData_eq {h : IpHdr} (hh : IpHdr.Of f h) : frameData f = udpData f h := by
  rw [frameData, readIp_eq_some.2 hh]
  rfl

theorem Boundaries.frame (hall : ∀ i, m.Boundaries i) (hudp : f.getD 23 0 = 17)
    (hfinds : Finds m.stack f) (link : ℕ → Bool) : (m.onFrame f link).Boundaries i := by
  rcases m.stack.process_udp hudp link with ⟨t, hrun, htcp, -⟩ | ⟨h, fd, hfor, hfits, hrun⟩
  · exact (hall i).frame_same hrun (by rw [htcp]; rfl)
  by_cases hnone : h.total = h.ihl + 8 ∨ (m.stack.tcp.net.socks fd).rxRoom = 0
  · rw [(hfor.deliver_eq_self_iff hfits).2 hnone] at hrun
    exact (hall i).frame_same hrun rfl
  have hlength := length_udpData hfor.header hfits
  have hne : udpData f h ≠ [] := by
    intro hnil
    rw [hnil, length_nil] at hlength
    have := hfits.2
    omega
  obtain ⟨hroom, hfull⟩ := ((hfinds h fd hfor hfits).resolve_left (not_or.1 hnone).1).resolve_left
    (not_or.1 hnone).2
  rw [← hlength] at hroom
  rw [deliver_stores hfor.live hne hroom hfull] at hrun
  by_cases hi : i = fd
  · subst hi
    obtain ⟨haligned, hdgrams⟩ := (hall i).aligned.store hroom hfull h.src (be16 f (14 + h.ihl))
    rw [onFrame, hrun]
    refine (hall i).arrives (d := udpData f h) ?_ ?_ ?_ rfl
    · exact (sock_setSock_self m i _).symm ▸ haligned
    · exact (sock_setSock_self m i _).symm ▸ hdgrams
    · dsimp only
      rw [if_neg, frameData_eq hfor.header]
      show ¬ ((m.setSock i _).sock i).rxMsg.head = _
      rw [sock_setSock_self]
      exact head_store_ne (hall i).aligned.queue _ _ _
  · exact (hall i).frame_same hrun (sock_setSock_of_ne m hi _)

theorem Boundaries.exec (hall : ∀ i, m.Boundaries i) {op : DgramOp} (hkeeps : m.Keeps op) :
    (m.exec op).Boundaries i := by
  cases op with
  | push fd src ip port => exact (hall i).push fd src ip port
  | pop fd len dontWait => exact (hall i).pop fd len dontWait
  | frame f link => exact Boundaries.frame hall hkeeps.1 hkeeps.2 link

theorem not_aligned_of_not_finds (hall : ∀ i, (m.sock i).Aligned) (hfinds : ¬ Finds m.stack f)
    (link : ℕ → Bool) : ∃ i, ¬ ((m.onFrame f link).sock i).Aligned := by
  unfold Finds at hfinds
  push Not at hfinds
  obtain ⟨h, fd, hfor, hfits, hsome, hroom, hno⟩ := hfinds
  have hlength := length_udpData hfor.header hfits
  have htotal := hfor.header.total_eq
  have hlt := (be16 f 16).isLt
  have hpos : 0 < (udpData f h).length := by
    have := hfits.2
    omega
  have hrun := hfor.process_dgram hfits link
  rw [deliver_strays hfor.live (length_pos_iff.1 hpos) (by unfold sockBufSize sockBufBits; omega)
    (by rw [hlength]; exact fun hc => hno hc.1 hc.2)] at hrun
  refine ⟨fd, fun haligned => ?_⟩
  have hsock : (m.onFrame f link).sock fd = ((m.sock fd).pushRx (udpData f h)).2 := by
    rw [onFrame, hrun]
    exact sock_setSock_self m fd _
  have hsum := haligned.sum
  rw [hsock] at hsum
  have hsame : ((m.sock fd).pushRx (udpData f h)).2.msgLens = (m.sock fd).msgLens := rfl
  have hgrown := congrArg List.length (Sock.contents_pushRx (hall fd).room (udpData f h)).1
  rw [length_append, Ring.length_contents, Ring.length_contents, length_take] at hgrown
  have hfst : ((m.sock fd).pushRx (udpData f h)).1 = min (udpData f h).length (m.sock fd).rxRoom := rfl
  have := (hall fd).sum
  have : (m.sock fd).rxRoom ≠ 0 := hroom
  rw [hsame] at hsum
  omega

end Mailboxes

/-- **Datagrams leave as they came**, in every run whose frames find room for their data and a place
for their length, or no room at all; any other frame for a socket breaks this. -/
theorem datagram_boundaries {s : NetStack} (hs : ∀ fd, (s.tcp.net.socks fd).Aligned) {m : Mailboxes}
    (hrun : Runs Mailboxes.Keeps Mailboxes.exec (.start s) m) :
    (∀ fd, m.Boundaries fd) ∧
      ∀ f link, ¬ Mailboxes.Finds m.stack f →
        ∃ fd, ¬ ((m.exec (.frame f link)).sock fd).Aligned := by
  have hall : ∀ fd, m.Boundaries fd := by
    refine Runs.invariant (P := fun m : Mailboxes => ∀ fd, m.Boundaries fd) ?_ hrun ?_
    · exact fun m op hm hkeeps fd => Mailboxes.Boundaries.exec hm hkeeps
    · exact fun fd => ⟨hs fd, [], rfl, .nil⟩
  exact ⟨hall, fun f link hno =>
    Mailboxes.not_aligned_of_not_finds (fun fd => (hall fd).aligned) hno link⟩

theorem Mailboxes.finds_of_empty {s : NetStack} (f : Bytes)
    (h : ∀ fd, (s.tcp.net.socks fd).rx.used = 0 ∧ (s.tcp.net.socks fd).rxMsgFull = false) :
    Finds s f := by
  intro g fd hfor _
  obtain ⟨hused, hfull⟩ := h fd
  have htotal := hfor.header.total_eq
  have hlt := (be16 f 16).isLt
  refine .inr (.inr ⟨?_, hfull⟩)
  rw [Sock.rxRoom_eq (by omega), hused]
  unfold sockBufSize sockBufBits
  omega

/-- The tables at boot, with one socket for datagrams. -/
def dgramStack : NetStack :=
  ⟨Tcp.boot.setSock 0 (.fresh 2 2 0), fun _ => ⟨0, [], false⟩⟩

/-- A frame with a datagram of three bytes. -/
def dgramFrame : Bytes :=
  List.replicate 12 0 ++ [8, 0] ++ [0x45, 0, 0, 31, 0, 0, 0x40, 0, 64, 17, 0, 0, 10, 0, 2, 2, 10, 0, 2, 15] ++
    [0, 53, 4, 0, 0, 11, 0, 0] ++ [1, 2, 3]

theorem dgramStack_socks (fd : ℕ) : dgramStack.tcp.net.socks fd = .fresh 2 2 0 ∨
    dgramStack.tcp.net.socks fd = .zeroed := by
  by_cases hfd : fd = 0
  · subst hfd
    exact .inl (Net.setSock_self ..)
  · exact .inr (Net.setSock_of_ne _ hfd _)

theorem aligned_dgramStack (fd : ℕ) : (dgramStack.tcp.net.socks fd).Aligned := by
  have hfresh : (Sock.fresh 2 2 0).Aligned := ⟨⟨by decide, by decide⟩, by decide, by decide⟩
  have hzeroed : Sock.zeroed.Aligned := ⟨⟨by decide, by decide⟩, by decide, by decide⟩
  rcases dgramStack_socks fd with h | h
  · exact h ▸ hfresh
  · exact h ▸ hzeroed

/-- A frame comes in and is read into a buffer of two bytes. -/
def dgramSample : Mailboxes :=
  ((Mailboxes.start dgramStack).exec (.frame dgramFrame fun _ => false)).exec (.pop 0 2 false)

theorem datagram_boundaries_sample : (∀ fd, dgramSample.Boundaries fd) ∧
    ∀ f link, ¬ Mailboxes.Finds dgramSample.stack f →
      ∃ fd, ¬ ((dgramSample.exec (.frame f link)).sock fd).Aligned := by
  refine datagram_boundaries aligned_dgramStack (Runs.tail (Runs.tail (Runs.refl _) _ ?_) _ trivial)
  refine ⟨by decide, Mailboxes.finds_of_empty _ fun fd => ?_⟩
  show (dgramStack.tcp.net.socks fd).rx.used = 0 ∧ (dgramStack.tcp.net.socks fd).rxMsgFull = false
  rcases dgramStack_socks fd with h | h <;> rw [h] <;> decide

example : dgramSample.taken 0 = [(2, [1, 2])] ∧ dgramSample.arrived 0 = [[1, 2, 3]] := by decide +kernel

/-- Datagrams without data, until the ring of the lengths is full. -/
def emptyDgrams (n : ℕ) : Mailboxes :=
  (List.replicate n (.push 0 [] 0 0)).foldl Mailboxes.exec (.start dgramStack)

theorem emptyDgrams_runs (n : ℕ) :
    Runs Mailboxes.Udp Mailboxes.exec (.start dgramStack) (emptyDgrams n) := by
  induction n with
  | zero => exact Runs.refl _
  | succ n ih =>
    rw [emptyDgrams, replicate_succ', foldl_append]
    exact ih.tail (.push 0 [] 0 0) trivial

/-- A frame that comes after them leaves its bytes without a length. -/
theorem datagram_boundaries_break : ¬ ∀ s : NetStack, (∀ fd, (s.tcp.net.socks fd).Aligned) →
    ∀ m, Runs Mailboxes.Udp Mailboxes.exec (.start s) m → ∀ fd, m.Boundaries fd := by
  intro h
  have hframe : Mailboxes.Udp (emptyDgrams 31) (.frame dgramFrame fun _ => false) := by
    show dgramFrame.getD 23 0 = 17
    decide
  have hall := h dgramStack aligned_dgramStack _ ((emptyDgrams_runs 31).tail _ hframe) 0
  exact absurd hall.aligned.sum (by decide +kernel)

end Ridux
