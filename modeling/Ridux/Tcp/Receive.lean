import Ridux.Tcp.Delivery

/-!
# The receiving side of a connection

* `Peer`: the connection and the stream of its peer;
* `RecvRun`: a run of an established connection, with what the application has read and what the
  engine has acknowledged;
* `Peer.Safe`: what was read comes from the stream, and what was acknowledged was read or is in the
  receive ring;
* `Peer.Meets`: the segments that fit; `recvRun_safe`.
-/

namespace Ridux

open Lib Function List Option

/-- A connection, the bytes of its peer, and the number of the first one. -/
structure Peer where
  fd : ℕ
  slot : ℕ
  stream : Bytes
  base : Seq

/-- What happens to the connection. -/
inductive RecvOp
  | segment (tp : Bytes) (link : ℕ → Bool)
  | recv (len : ℕ) (dontWait : Bool)
  | send (buf : Bytes) (link : ℕ → Bool)
  | close (link : Bool)
  | tick (now : ℕ) (link : ℕ → Bool)

/-- The engine, what the application has read, where the next number is in the stream, and how far
the acknowledgements reach that were sent. -/
structure RecvRun where
  tcp : Tcp
  got : Bytes
  count : ℕ
  acks : List ℕ

/-- The frames that a step sends. -/
def Tcp.newFrames (t t' : Tcp) : List (ℕ × Frame) := t'.wire.take (t'.wire.length - t.wire.length)

variable {new : List (ℕ × Frame)}

theorem Tcp.newFrames_eq {t t' : Tcp} (h : t'.wire = new ++ t.wire) : t.newFrames t' = new := by
  unfold Tcp.newFrames
  rw [h, length_append, Nat.add_sub_cancel, take_left]

namespace Peer

/-- The step of the engine. -/
def op (c : Peer) : RecvOp → Tcp.Op
  | .segment tp link => .segment c.fd tp link
  | .recv len dontWait => .recv c.fd len dontWait
  | .send buf link => .send c.fd buf link
  | .close link => .close c.fd link
  | .tick now link => .tick now link

/-- What a read returns. -/
def read (c : Peer) (s : RecvRun) : RecvOp → Bytes
  | .recv len dontWait =>
    match (s.tcp.net.sockRecv .idle c.fd len dontWait).1 with
    | .ok bytes => bytes
    | .error _ => []
  | _ => []

/-- How far a frame of the connection acknowledges the stream. -/
def reach (c : Peer) (s : RecvRun) (f : Frame) : ℕ :=
  s.count + ahead (s.tcp.tcbs c.slot).rcvNxt f.ack

/-- One step. -/
def exec (c : Peer) (s : RecvRun) (o : RecvOp) : RecvRun where
  tcp := s.tcp.exec (c.op o)
  got := s.got ++ c.read s o
  count := s.count + ahead (s.tcp.tcbs c.slot).rcvNxt ((s.tcp.exec (c.op o)).tcbs c.slot).rcvNxt
  acks := s.acks ++
    ((s.tcp.newFrames (s.tcp.exec (c.op o))).filter fun p =>
      p.1 = c.fd ∧ p.2.flags &&& tcpAck ≠ 0).map fun p => c.reach s p.2

/-- The bytes in the receive ring. -/
def pending (c : Peer) (s : RecvRun) : Bytes := (s.tcp.net.socks c.fd).rx.contents

/-- What was read is the start of the stream, and every byte that was acknowledged was read or is in
the receive ring. -/
structure Safe (c : Peer) (s : RecvRun) : Prop where
  got : s.got <+: c.stream
  acks : ∀ n ∈ s.acks, c.stream.take n <+: s.got ++ c.pending s

/-- The connection is established, the first byte of the stream is the next one, and the connections
in use are with hosts on the network. -/
structure Start (c : Peer) (s : RecvRun) : Prop where
  ext : ∀ j k, (s.tcp.tcbs j).sockFd = some k →
    netIsRealExternal (s.tcp.net.socks k).remoteIp = true
  uniq : ∀ j, (s.tcp.tcbs j).sockFd = some c.fd ↔ j = c.slot
  state : (s.tcp.tcbs c.slot).state = .established
  next : (s.tcp.tcbs c.slot).rcvNxt = c.base
  type : (s.tcp.net.socks c.fd).type = 1
  empty : (s.tcp.net.socks c.fd).rx.used = 0
  got : s.got = []
  count : s.count = 0
  acks : s.acks = []

/-- A segment of the peer: one IP packet, and its payload stands in the stream where its number
says.  Any flags, and any number, are those of a segment of the peer. -/
def FromPeer (c : Peer) : RecvOp → Prop
  | .segment tp _ => tp.length ≤ 65535 ∧ ∀ seg, parseSegment tp = some seg → seg.payload ≠ [] →
      ∃ pos, seg.seq = c.base + BitVec.ofNat 32 pos ∧ seg.payload <+: c.stream.drop pos
  | _ => True

/-- The payload that is taken is what comes next and fits the ring, and a FIN that is counted comes
after the whole stream. -/
def Fits (c : Peer) (s : RecvRun) (seg : Segment) : Prop :=
  let b := s.tcp.tcbs c.slot
  (b.Takes seg → seg.payload <+: c.stream.drop s.count ∧
    (c.pending s).length + seg.payload.length ≤ sockBufSize) ∧
  (b.Finishes seg → s.count + b.taken seg = c.stream.length)

/-- The segment fits the connection. -/
def Meets (c : Peer) (s : RecvRun) : RecvOp → Prop
  | .segment tp _ => ∀ seg, s.tcp.find c.fd = some c.slot → parseSegment tp = some seg → c.Fits s seg
  | _ => True

/-- The payload that is taken is not as old as the numbers are many. -/
def Fresh (c : Peer) (s : RecvRun) : RecvOp → Prop
  | .segment tp _ => ∀ seg, parseSegment tp = some seg → (s.tcp.tcbs c.slot).Takes seg →
      seg.payload <+: c.stream.drop s.count
  | _ => True

/-- The network card takes what the step sends. -/
def Linked : RecvOp → Prop
  | .segment _ link => ∀ k, link k = true
  | _ => True

/-- Any run with the segments of the peer. -/
def Run (c : Peer) : RecvRun → RecvRun → Prop := Runs (fun _ o => c.FromPeer o) c.exec

/-- A run of segments of the peer that fit. -/
def MeetingRun (c : Peer) : RecvRun → RecvRun → Prop :=
  Runs (fun s o => c.FromPeer o ∧ c.Meets s o) c.exec

/-! ### The invariant -/

/-- The connection is where the count says. -/
structure Conn (c : Peer) (s : RecvRun) : Prop where
  wasOpen : (s.tcp.tcbs c.slot).WasOpen
  next : (s.tcp.tcbs c.slot).rcvNxt = c.base + BitVec.ofNat 32 s.count
  receiving : (s.tcp.tcbs c.slot).Receiving → s.count ≤ c.stream.length

/-- The invariant of a run. -/
structure Inv (c : Peer) (s : RecvRun) : Prop where
  ext : ∀ j k, (s.tcp.tcbs j).sockFd = some k →
    netIsRealExternal (s.tcp.net.socks k).remoteIp = true
  uniq : ∀ j, (s.tcp.tcbs j).sockFd = some c.fd → j = c.slot
  here : netIsRealExternal (s.tcp.net.socks c.fd).remoteIp = true
  type : (s.tcp.net.socks c.fd).type ≠ 2
  used : (s.tcp.net.socks c.fd).rx.used ≤ sockBufSize
  bytes : s.got ++ c.pending s = c.stream.take s.count
  acks : ∀ n ∈ s.acks, n ≤ s.count
  conn : (s.tcp.tcbs c.slot).sockFd = some c.fd → c.Conn s

variable {c : Peer} {s : RecvRun} {o : RecvOp} {n : ℕ} {tp payload : Bytes} {seg : Segment}

theorem Start.inv (h : c.Start s) : c.Inv s where
  ext := h.ext
  uniq j hj := (h.uniq j).1 hj
  here := h.ext c.slot c.fd ((h.uniq c.slot).2 rfl)
  type := by rw [h.type]; decide
  used := by rw [h.empty]; exact Nat.zero_le _
  bytes := by
    rw [h.got, h.count, pending, Ring.contents_eq_nil h.empty]
    rfl
  acks n hn := by
    rw [h.acks] at hn
    cases hn
  conn _ :=
    { wasOpen := by
        unfold Tcb.WasOpen
        rw [h.state]
        exact ⟨TcpState.noConfusion, TcpState.noConfusion⟩
      next := by rw [h.next, h.count]; simp
      receiving := fun _ => by rw [h.count]; exact Nat.zero_le _ }

theorem Inv.safe (h : c.Inv s) : c.Safe s where
  got := (prefix_append _ _).trans (h.bytes ▸ List.take_prefix _ _)
  acks n hn := by
    rw [h.bytes]
    exact List.take_prefix_take_left (h.acks n hn)

theorem exec_acks (hnew : (s.tcp.exec (c.op o)).wire = new ++ s.tcp.wire) (hn : n ∈ (c.exec s o).acks) :
    n ∈ s.acks ∨ ∃ p ∈ new, p.1 = c.fd ∧ n = c.reach s p.2 := by
  rcases mem_append.1 hn with hn | hn
  · exact .inl hn
  · rw [Tcp.newFrames_eq hnew] at hn
    obtain ⟨p, hp, rfl⟩ := mem_map.1 hn
    obtain ⟨hp, hfd⟩ := mem_filter.1 hp
    exact .inr ⟨p, hp, (of_decide_eq_true hfd).1, rfl⟩

theorem Inv.local (h : c.Inv s) (hread : c.read s o = [])
    (hidle : ∀ j, (s.tcp.tcbs j).Idles ((s.tcp.exec (c.op o)).tcbs j))
    (hsends : s.tcp.Sends (fun p => p.1 = c.fd → p.2.ack = (s.tcp.tcbs c.slot).rcvNxt)
      (s.tcp.exec (c.op o))) : c.Inv (c.exec s o) := by
  have hnarrow : ∀ j k, ((s.tcp.exec (c.op o)).tcbs j).sockFd = some k →
      (s.tcp.tcbs j).sockFd = some k := by
    intro j k hk
    rcases (hidle j).sockFd with hj | hj
    · rw [← hj, hk]
    · rw [hj] at hk
      cases hk
  have hcount : (c.exec s o).count = s.count := by
    show s.count + ahead _ ((s.tcp.exec (c.op o)).tcbs c.slot).rcvNxt = s.count
    rw [(hidle c.slot).next, ahead_self, Nat.add_zero]
  have hgot : (c.exec s o).got = s.got := by
    show s.got ++ c.read s o = s.got
    rw [hread, append_nil]
  refine
    { ext := fun j k hk => ?_
      uniq := fun j hj => h.uniq j (hnarrow j _ hj)
      here := ?_
      type := ?_
      used := ?_
      bytes := ?_
      acks := fun n hn => ?_
      conn := fun hlive => ?_ }
  · exact (congrArg _ (hsends.remote k)).trans (h.ext j k (hnarrow j k hk))
  · exact (congrArg _ (hsends.remote c.fd)).trans h.here
  · exact (hsends.type c.fd).trans_ne h.type
  · exact (congrArg Ring.used (hsends.rx c.fd)).trans_le h.used
  · rw [hgot, hcount, ← h.bytes]
    exact congrArg (s.got ++ ·) (congrArg Ring.contents (hsends.rx c.fd))
  · obtain ⟨new, hnew, hall⟩ := hsends.wire
    rw [hcount]
    rcases exec_acks hnew hn with hn | ⟨p, hp, hfd, rfl⟩
    · exact h.acks n hn
    · unfold reach
      rw [hall p hp hfd, ahead_self]
      exact le_rfl
  · have hconn := h.conn (hnarrow c.slot _ hlive)
    have hsome : ((s.tcp.exec (c.op o)).tcbs c.slot).sockFd.isSome := isSome_of_mem hlive
    refine ⟨(hidle c.slot).wasOpen hsome hconn.wasOpen, ?_, fun hr => ?_⟩
    · rw [hcount, ← hconn.next]
      exact (hidle c.slot).next
    · rw [hcount]
      exact hconn.receiving ((hidle c.slot).receiving hsome hr)

theorem Inv.recv (h : c.Inv s) (len : ℕ) (dontWait : Bool) :
    c.Inv (c.exec s (.recv len dontWait)) := by
  have hrecv : ∃ k, k ≤ (s.tcp.net.socks c.fd).rx.used ∧
      (s.tcp.net.sockRecv .idle c.fd len dontWait).2.socks =
        update s.tcp.net.socks c.fd
          { s.tcp.net.socks c.fd with rx := (Ring.pop k (s.tcp.net.socks c.fd).rx).2 } ∧
      c.read s (.recv len dontWait) = (Ring.pop k (s.tcp.net.socks c.fd).rx).1 := by
    have hnone : ∃ k, k ≤ (s.tcp.net.socks c.fd).rx.used ∧
        s.tcp.net.socks = update s.tcp.net.socks c.fd
          { s.tcp.net.socks c.fd with rx := (Ring.pop k (s.tcp.net.socks c.fd).rx).2 } ∧
        [] = (Ring.pop k (s.tcp.net.socks c.fd).rx).1 :=
      ⟨0, Nat.zero_le _, (update_eq_self c.fd s.tcp.net.socks).symm, rfl⟩
    have hpoll : (if netIsRealExternal (s.tcp.net.socks c.fd).remoteIp then
        Outside.idle.poll s.tcp.net else s.tcp.net) = s.tcp.net := by
      split_ifs <;> rfl
    unfold read Net.sockRecv
    dsimp only
    rw [hpoll]
    split_ifs with _ htype
    · exact hnone
    · exact absurd htype h.type
    · exact hnone
    · exact hnone
    · exact hnone
    · refine ⟨min len (min (s.tcp.net.socks c.fd).rx.used sockBufSize), ?_, rfl, rfl⟩
      exact (Nat.min_le_right _ _).trans (Nat.min_le_left _ _)
  obtain ⟨k, hk, hsocks, hread⟩ := hrecv
  have hnet : ∀ j, ((c.exec s (.recv len dontWait)).tcp.net.socks j).remoteIp =
      (s.tcp.net.socks j).remoteIp := by
    intro j
    show ((s.tcp.net.sockRecv .idle c.fd len dontWait).2.socks j).remoteIp = _
    rw [hsocks]
    by_cases hj : j = c.fd
    · rw [hj, update_self]
    · rw [update_of_ne hj]
  have hsock : (c.exec s (.recv len dontWait)).tcp.net.socks c.fd =
      { s.tcp.net.socks c.fd with rx := (Ring.pop k (s.tcp.net.socks c.fd).rx).2 } := by
    show (s.tcp.net.sockRecv .idle c.fd len dontWait).2.socks c.fd = _
    rw [hsocks, update_self]
  have hcount : (c.exec s (.recv len dontWait)).count = s.count := by
    show s.count + ahead (s.tcp.tcbs c.slot).rcvNxt (s.tcp.tcbs c.slot).rcvNxt = s.count
    rw [ahead_self, Nat.add_zero]
  have hwire : (s.tcp.exec (c.op (.recv len dontWait))).wire = [] ++ s.tcp.wire := rfl
  refine
    { ext := fun j i hi => (congrArg _ (hnet i)).trans (h.ext j i hi)
      uniq := h.uniq
      here := (congrArg _ (hnet c.fd)).trans h.here
      type := ?_
      used := ?_
      bytes := ?_
      acks := fun n hn => ?_
      conn := fun hlive => ?_ }
  · rw [hsock]
    exact h.type
  · rw [hsock]
    exact (Ring.used_pop k _ hk).trans_le ((Nat.sub_le _ _).trans h.used)
  · rw [hcount, ← h.bytes]
    show s.got ++ c.read s (.recv len dontWait) ++ c.pending (c.exec s (.recv len dontWait)) = _
    unfold pending
    rw [hsock, hread, Ring.pop_fst k _ hk, append_assoc]
    dsimp only
    rw [Ring.contents_pop k _ hk, take_append_drop]
  · rw [hcount]
    rcases exec_acks hwire hn with hn | ⟨p, hp, -⟩
    · exact h.acks n hn
    · cases hp
  · have hconn := h.conn hlive
    exact ⟨hconn.wasOpen, by rw [hcount]; exact hconn.next,
      fun hr => by rw [hcount]; exact hconn.receiving hr⟩

/-- A segment that finds the connection. -/
structure Arrives (c : Peer) (s : RecvRun) (tp : Bytes) (seg : Segment) : Prop where
  size : tp.length ≤ 65535
  find : s.tcp.find c.fd = some c.slot
  parse : parseSegment tp = some seg

/-- What a segment that finds the connection does to the run. -/
structure Counts (c : Peer) (s : RecvRun) (seg : Segment) (link : ℕ → Bool) (s' : RecvRun) :
    Prop where
  count : s'.count = s.count + (s.tcp.tcbs c.slot).counted seg
  got : s'.got = s.got
  pending : c.pending s' = c.pending s ++
    if (s.tcp.tcbs c.slot).Takes seg ∧ seg.payload.length ≤ sockBufSize then
      seg.payload.take (sockBufSize - (c.pending s).length) else []
  used : (s'.tcp.net.socks c.fd).rx.used ≤ sockBufSize
  acks : ∀ n ∈ s'.acks, n ∈ s.acks ∨ n = s.count + (s.tcp.tcbs c.slot).taken seg ∨
    n = s.count + (s.tcp.tcbs c.slot).counted seg
  acksData : (∀ k, link k = true) → (s.tcp.tcbs c.slot).Takes seg →
    s.count + (s.tcp.tcbs c.slot).taken seg ∈ s'.acks
  acksFin : (∀ k, link k = true) → (s.tcp.tcbs c.slot).Finishes seg →
    s.count + (s.tcp.tcbs c.slot).counted seg ∈ s'.acks

theorem Inv.counts (h : c.Inv s) (link : ℕ → Bool) (ha : c.Arrives s tp seg) :
    c.Counts s seg link (c.exec s (.segment tp link)) := by
  have hlive := Tcp.find_sockFd ha.find
  have hdel := Tcb.onSegment_delivers (h.conn hlive).wasOpen seg
  have hrec := Tcp.processTcp_receives link h.here ha.find ha.parse
  have htcb : ((s.tcp.exec (.segment c.fd tp link)).tcbs c.slot) =
      ((s.tcp.tcbs c.slot).onSegment seg).tcb := by
    rw [Tcp.exec_segment, ha.parse]
    dsimp only
    rw [if_pos ha.find]
  have hsmall : seg.payload.length ≤ 65535 := (parseSegment_length ha.parse).trans ha.size
  have htaken : (s.tcp.tcbs c.slot).taken seg ≤ 65535 := by
    unfold Tcb.taken
    split_ifs
    · exact hsmall
    · exact Nat.zero_le _
  have hcounted : (s.tcp.tcbs c.slot).counted seg ≤ 65536 := by
    unfold Tcb.counted
    split_ifs <;> omega
  have hreach : ∀ {f : Frame} {n : ℕ}, n ≤ 65536 →
      f.ack = (s.tcp.tcbs c.slot).rcvNxt + BitVec.ofNat 32 n → c.reach s f = s.count + n := by
    intro f n hn hf
    unfold reach
    rw [hf, ahead_ofNat (by omega)]
  obtain ⟨new, hnew, hall, hlinked⟩ := hrec.wire
  have hnew : (s.tcp.exec (c.op (.segment tp link))).wire = new ++ s.tcp.wire := hnew
  have hsent : ∀ {f : Frame} {n : ℕ}, (∀ k, link k = true) →
      f ∈ ((s.tcp.tcbs c.slot).onSegment seg).frames → f.flags = tcpAck → n ≤ 65536 →
      f.ack = (s.tcp.tcbs c.slot).rcvNxt + BitVec.ofNat 32 n →
      s.count + n ∈ (c.exec s (.segment tp link)).acks := by
    intro f n hlink hmem hflags hn hf
    refine mem_append_right _ ?_
    rw [Tcp.newFrames_eq hnew]
    refine mem_map.2 ⟨(c.fd, f), mem_filter.2 ⟨hlinked hlink f hmem, ?_⟩, hreach hn hf⟩
    refine decide_eq_true ⟨rfl, ?_⟩
    rw [hflags]
    decide
  have hrx := hrec.rx
  have hcond : (((s.tcp.tcbs c.slot).onSegment seg).payload = true ∧ seg.payload ≠ [] ∧
      seg.payload.length ≤ sockBufSize) ↔
        (s.tcp.tcbs c.slot).Takes seg ∧ seg.payload.length ≤ sockBufSize := by
    rw [hdel.payload, decide_eq_true_iff]
    exact ⟨fun h => ⟨h.1, h.2.2⟩, fun h => ⟨h.1, h.1.2.2.1, h.2⟩⟩
  have hroom : (s.tcp.net.socks c.fd).rxRoom = sockBufSize - (c.pending s).length := by
    unfold Sock.rxRoom pending
    rw [Nat.min_eq_left h.used, Ring.length_contents]
  refine
    { count := ?_
      got := append_nil _
      pending := ?_
      used := ?_
      acks := fun n hn => ?_
      acksData := fun hlink ht => ?_
      acksFin := fun hlink hf => ?_ }
  · show s.count + ahead _ ((s.tcp.exec (.segment c.fd tp link)).tcbs c.slot).rcvNxt = _
    rw [htcb, hdel.next, ahead_ofNat (by omega)]
  · show (((s.tcp.processTcp c.fd tp link)).net.socks c.fd).rx.contents = _
    rw [hrx]
    by_cases ht : (s.tcp.tcbs c.slot).Takes seg ∧ seg.payload.length ≤ sockBufSize
    · rw [if_pos (hcond.2 ht), if_pos ht, (Sock.contents_pushRx h.used seg.payload).1]
      show _ ++ seg.payload.take (min seg.payload.length (s.tcp.net.socks c.fd).rxRoom) = _
      rw [hroom, Nat.min_comm, ← take_eq_take_min]
      rfl
    · rw [if_neg fun h => ht (hcond.1 h), if_neg ht, append_nil]
      rfl
  · show (((s.tcp.processTcp c.fd tp link)).net.socks c.fd).rx.used ≤ sockBufSize
    rw [hrx]
    split_ifs
    · exact (Sock.contents_pushRx h.used seg.payload).2
    · exact h.used
  · rcases exec_acks hnew hn with hn | ⟨p, hp, -, rfl⟩
    · exact .inl hn
    · refine .inr ?_
      rcases hdel.acks p.2 (hall p hp).2 with hack | hack
      · exact .inl (hreach (by omega) hack)
      · exact .inr (hreach hcounted hack)
  · obtain ⟨f, hmem, hflags, hack⟩ := hdel.acksData ht
    exact hsent hlink hmem hflags (by omega) hack
  · obtain ⟨f, hmem, hflags, hack⟩ := hdel.acksFin hf
    exact hsent hlink hmem hflags hcounted hack

theorem take_of_prefix {stream : Bytes} (h : payload <+: stream.drop n) :
    stream.take (n + payload.length) = stream.take n ++ payload := by
  rw [take_add, ← prefix_iff_eq_take.1 h]

theorem length_of_prefix {stream : Bytes} (h : payload <+: stream.drop n) (hne : payload ≠ []) :
    n + payload.length ≤ stream.length := by
  have hlen := h.length_le
  have hpos := length_pos_iff.2 hne
  rw [length_drop] at hlen
  omega

theorem Inv.segment (h : c.Inv s) {link : ℕ → Bool} (ha : c.Arrives s tp seg) (hfits : c.Fits s seg) :
    c.Inv (c.exec s (.segment tp link)) := by
  have hcounts := h.counts link ha
  have hlive := Tcp.find_sockFd ha.find
  have hconn := h.conn hlive
  have hdel := Tcb.onSegment_delivers hconn.wasOpen seg
  have hrec := Tcp.processTcp_receives link h.here ha.find ha.parse
  have htcb : ∀ j, (s.tcp.exec (.segment c.fd tp link)).tcbs j =
      if j = c.slot then ((s.tcp.tcbs c.slot).onSegment seg).tcb else s.tcp.tcbs j := by
    intro j
    rw [Tcp.exec_segment, ha.parse, ha.find]
    dsimp only
    by_cases hj : j = c.slot
    · rw [if_pos (congrArg some hj.symm), if_pos hj, hj]
    · rw [if_neg fun h => hj (some.inj h).symm, if_neg hj]
  have hnarrow : ∀ j k, ((s.tcp.exec (.segment c.fd tp link)).tcbs j).sockFd = some k →
      (s.tcp.tcbs j).sockFd = some k := by
    intro j k hk
    rw [htcb] at hk
    split_ifs at hk with hj
    · rcases hdel.sockFd with hfd | hfd
      · rw [hj, ← hfd, hk]
      · rw [hfd] at hk
        cases hk
    · exact hk
  obtain ⟨htakes, hfin⟩ := hfits
  -- what was taken
  have hbytes : s.got ++ c.pending (c.exec s (.segment tp link)) =
      c.stream.take (s.count + (s.tcp.tcbs c.slot).taken seg) := by
    rw [hcounts.pending, ← append_assoc, h.bytes, Tcb.taken]
    by_cases ht : (s.tcp.tcbs c.slot).Takes seg
    · obtain ⟨hpre, hroom⟩ := htakes ht
      have hall : seg.payload.take (sockBufSize - (c.pending s).length) = seg.payload :=
        take_of_length_le (by omega)
      rw [if_pos ht, if_pos ⟨ht, by omega⟩, take_of_prefix hpre, hall]
    · rw [if_neg ht, if_neg fun h => ht h.1, append_nil, Nat.add_zero]
  have hle : (s.tcp.tcbs c.slot).Receiving →
      s.count + (s.tcp.tcbs c.slot).taken seg ≤ c.stream.length := by
    intro hr
    unfold Tcb.taken
    split_ifs with ht
    · exact length_of_prefix (htakes ht).1 ht.2.2.1
    · exact hconn.receiving hr
  refine
    { ext := fun j k hk => (congrArg _ (hrec.remote k)).trans (h.ext j k (hnarrow j k hk))
      uniq := fun j hj => h.uniq j (hnarrow j _ hj)
      here := (congrArg _ (hrec.remote c.fd)).trans h.here
      type := (hrec.type c.fd).trans_ne h.type
      used := hcounts.used
      bytes := ?_
      acks := fun n hn => ?_
      conn := fun hfd => ?_ }
  · rw [hcounts.got, hbytes, hcounts.count]
    unfold Tcb.counted
    split_ifs with hf
    · have hend := hfin hf
      rw [← Nat.add_assoc, hend, take_of_length_le le_rfl, take_of_length_le (by omega)]
    · rfl
  · rw [hcounts.count]
    rcases hcounts.acks n hn with hn | rfl | rfl
    · exact (h.acks n hn).trans (Nat.le_add_right _ _)
    · exact Nat.add_le_add_left (Nat.le_add_right _ _) _
    · exact le_rfl
  · have htcb := (htcb c.slot).trans (if_pos rfl)
    have hsome : ((s.tcp.tcbs c.slot).onSegment seg).tcb.sockFd.isSome := by
      rw [← htcb]
      exact isSome_of_mem hfd
    have hstate : (c.exec s (.segment tp link)).tcp.tcbs c.slot =
        ((s.tcp.tcbs c.slot).onSegment seg).tcb := htcb
    refine ⟨?_, ?_, fun hr => ?_⟩
    · rw [hstate]
      exact hdel.wasOpen hsome
    · rw [hstate, hdel.next, hconn.next, hcounts.count, BitVec.ofNat_add, BitVec.add_assoc]
    · rw [hstate] at hr
      obtain ⟨hr, hnot⟩ := hdel.receiving hsome hr
      rw [hcounts.count, Tcb.counted, if_neg hnot]
      exact hle hr

theorem Inv.fits_of_safe (h : c.Inv s) {link : ℕ → Bool} (ha : c.Arrives s tp seg)
    (hlink : ∀ k, link k = true)
    (hfresh : (s.tcp.tcbs c.slot).Takes seg → seg.payload <+: c.stream.drop s.count)
    (hsafe : c.Safe (c.exec s (.segment tp link))) : c.Fits s seg := by
  have hcounts := h.counts link ha
  have hconn := h.conn (Tcp.find_sockFd ha.find)
  have hlen : s.got.length + (c.pending s).length ≤ s.count := by
    rw [← length_append, h.bytes, length_take]
    exact Nat.min_le_left _ _
  have hcovers : ∀ n ∈ (c.exec s (.segment tp link)).acks,
      min n c.stream.length ≤ s.got.length + (c.pending (c.exec s (.segment tp link))).length := by
    intro n hn
    have hle := (hsafe.acks n hn).length_le
    rw [length_take, length_append, hcounts.got] at hle
    exact hle
  have hpending : (c.pending (c.exec s (.segment tp link))).length ≤ (c.pending s).length +
      if (s.tcp.tcbs c.slot).Takes seg then
        min (sockBufSize - (c.pending s).length) seg.payload.length else 0 := by
    rw [hcounts.pending, length_append]
    split_ifs with ht ht' ht'
    · rw [length_take]
    · exact absurd ht.1 ht'
    · simp
    · simp
  have htakes : (s.tcp.tcbs c.slot).Takes seg → seg.payload <+: c.stream.drop s.count ∧
      (c.pending s).length + seg.payload.length ≤ sockBufSize := by
    intro ht
    refine ⟨hfresh ht, ?_⟩
    have hend := length_of_prefix (hfresh ht) ht.2.2.1
    have hcover := hcovers _ (hcounts.acksData hlink ht)
    have hused := h.used
    have hlenUsed : (c.pending s).length = (s.tcp.net.socks c.fd).rx.used :=
      Ring.length_contents _
    rw [if_pos ht] at hpending
    rw [Tcb.taken, if_pos ht] at hcover
    omega
  refine ⟨htakes, fun hf => ?_⟩
  have hcover := hcovers _ (hcounts.acksFin hlink hf)
  have hreceiving : (s.tcp.tcbs c.slot).Receiving := by
    obtain ⟨-, -, hs | hs | ⟨hs, -⟩⟩ := hf
    · exact .inr (.inl hs)
    · exact .inr (.inr hs)
    · exact .inl hs
  have hcount := hconn.receiving hreceiving
  rw [Tcb.counted, if_pos hf] at hcover
  unfold Tcb.taken at hcover ⊢
  by_cases ht : (s.tcp.tcbs c.slot).Takes seg
  · have hend := length_of_prefix (hfresh ht) ht.2.2.1
    rw [if_pos ht] at hpending hcover ⊢
    omega
  · rw [if_neg ht] at hpending hcover ⊢
    omega

theorem Inv.missed (h : c.Inv s) {link : ℕ → Bool}
    (hmiss : s.tcp.find c.fd = none ∨ parseSegment tp = none) :
    c.Inv (c.exec s (.segment tp link)) := by
  have hsame : s.tcp.exec (c.op (.segment tp link)) = s.tcp := Tcp.processTcp_none c.fd tp link hmiss
  refine h.local rfl (fun j => ?_) ?_
  · rw [hsame]
    exact .refl _
  · rw [hsame]
    exact .refl _

theorem Inv.find (h : c.Inv s) : s.tcp.find c.fd = none ∨ s.tcp.find c.fd = some c.slot := by
  cases hf : s.tcp.find c.fd with
  | none => exact .inl rfl
  | some i => exact .inr (congrArg some (h.uniq i (Tcp.find_sockFd hf)))

theorem Inv.exec (h : c.Inv s) (o : RecvOp) (ho : c.FromPeer o ∧ c.Meets s o) :
    c.Inv (c.exec s o) := by
  have hacks : ∀ i (f : Frame), s.tcp.find c.fd = some i → f.ack = (s.tcp.tcbs i).rcvNxt →
      c.fd = c.fd → f.ack = (s.tcp.tcbs c.slot).rcvNxt := by
    intro i f hf hack _
    rw [hack, h.uniq i (Tcp.find_sockFd hf)]
  cases o with
  | segment tp link =>
    obtain ⟨hpeer, hmeets⟩ := ho
    rcases h.find with hf | hf
    · exact h.missed (.inl hf)
    · cases hp : parseSegment tp with
      | none => exact h.missed (.inr hp)
      | some seg => exact h.segment ⟨hpeer.1, hf, hp⟩ (hmeets seg hf hp)
  | recv len dontWait => exact h.recv len dontWait
  | send buf link =>
    exact h.local rfl (fun j => (Tcp.send_sent c.fd buf link s.tcp j).idles)
      (Tcp.send_sends c.fd buf link h.here hacks)
  | close link =>
    refine h.local rfl (fun j => ?_) (Tcp.close_sends c.fd link h.here hacks)
    show (s.tcp.tcbs j).Idles ((s.tcp.close c.fd link).2.tcbs j)
    unfold Tcp.close
    cases hf : s.tcp.find c.fd with
    | none => exact .refl _
    | some i =>
      have hsent : (if (s.tcp.tcbs i).closed.2 then
          (s.tcp.transmit c.fd link (s.tcp.tcbs i).finFrame).2 else s.tcp).tcbs = s.tcp.tcbs := by
        split_ifs
        · exact Tcp.transmit_tcbs ..
        · rfl
      dsimp only
      rw [Tcp.setSock_tcbs, Tcp.setTcb_tcbs, hsent]
      exact Tcp.step_setTcb Tcb.Idles.refl (Tcb.closed_idles _) j
  | tick now link =>
    have hexec : s.tcp.exec (c.op (.tick now link)) = s.tcp.tick now link := by
      simp only [op, Tcp.exec]
    have hsends : s.tcp.Sends (fun p => p.1 = c.fd → p.2.ack = (s.tcp.tcbs c.slot).rcvNxt)
        (s.tcp.exec (c.op (.tick now link))) := by
      rw [hexec]
      refine Tcp.tick_sends now link h.ext fun j k f hk hf hfd => ?_
      have hfd : k = c.fd := hfd
      rw [hfd] at hk
      have hj := h.uniq j hk
      rw [hj] at hf hk
      exact Tcb.ticked_acks (h.conn hk).wasOpen now f hf
    refine h.local rfl (fun j => ?_) hsends
    · rw [hexec, Tcp.tick_tcbs]
      unfold Tcp.tickTcb
      split_ifs
      · exact Tcb.ticked_idles now _
      · exact .refl _
      · exact .refl _

/-- In every run of segments that fit nothing that was acknowledged is lost; and after such a run,
with the card ready and no payload as old as the numbers are many, a step loses nothing if and only
if its segment fits. -/
theorem recvRun_safe {s₀ : RecvRun} (h₀ : c.Start s₀) (h : c.MeetingRun s₀ s) :
    c.Safe s ∧ ∀ o, c.FromPeer o → Linked o → c.Fresh s o →
      (c.Safe (c.exec s o) ↔ c.Meets s o) := by
  have hinv := Runs.invariant (fun _ o hs ho => Inv.exec hs o ho) h h₀.inv
  refine ⟨hinv.safe, fun o hpeer hlink hfresh =>
    ⟨fun hsafe => ?_, fun hmeets => (hinv.exec o ⟨hpeer, hmeets⟩).safe⟩⟩
  cases o with
  | segment tp link =>
    exact fun seg hf hp => hinv.fits_of_safe ⟨hpeer.1, hf, hp⟩ hlink (hfresh seg hp) hsafe
  | _ => trivial

/-! ### Samples -/

/-- Socket 3 is in use. -/
def sampleNet : Tcp := { Tcp.boot with net := Net.boot.setSock 3 (.fresh 2 1 0) }

/-- Socket 3 is being connected. -/
def sampleDial : Tcp := sampleNet.exec (.connect 3 0x0A000002 80 1000 0 true)

/-- Socket 3 is connected, and the next number is 8. -/
def sampleRun : RecvRun where
  tcp := sampleDial.exec (.segment 3 (Tcp.synAck 233) fun _ => true)
  got := []
  count := 0
  acks := []

/-- The peer sends two bytes. -/
def sample : Peer := ⟨3, 0, [65, 66], 8⟩

/-- A segment with the flags `flags`, the number `seq` and the bytes `data`. -/
def sampleSegment (flags seq : UInt8) (data : Bytes) : RecvOp :=
  .segment ([0, 80, 0xC0, 0, 0, 0, 0, seq, 0, 0, 3, 233, 0x50, flags, 0xFF, 0xFF, 0, 0, 0, 0] ++ data)
    fun _ => true

/-- The connection after its first segment. -/
def sampleTcb : Tcb := ((Tcb.opened 3 1000 0).onSegment ⟨0x12, 7, 1001, 0xFFFF, [], []⟩).tcb

theorem sampleRun_tcbs : sampleRun.tcp.tcbs = update (fun _ => .free) 0 sampleTcb := by
  have halloc : sampleNet.alloc = some 0 := by decide +kernel
  have hdial : sampleDial.tcbs = update (fun _ => .free) 0 (.opened 3 1000 0) := by
    simp only [sampleDial, Tcp.exec, Tcp.connect, halloc, Tcp.transmit_tcbs, Tcp.setTcb_tcbs]
    rfl
  have hfind : sampleDial.find 3 = some 0 := by decide +kernel
  have hack : be32 (Tcp.synAck 233) 8 = 1001 := by decide
  funext j
  unfold sampleRun
  rw [Tcp.exec_segment, Tcp.synAck_parse, hack, hfind, hdial]
  dsimp only
  by_cases hj : j = 0
  · rw [if_pos (congrArg some hj.symm), hj, update_self, update_self]
    rfl
  · rw [if_neg fun h => hj (some.inj h).symm, update_of_ne hj,
      update_of_ne hj]

theorem sampleRun_sockFd {j k : ℕ} (h : (sampleRun.tcp.tcbs j).sockFd = some k) :
    j = 0 ∧ k = 3 := by
  rw [sampleRun_tcbs] at h
  by_cases hj : j = 0
  · rw [hj, update_self] at h
    exact ⟨hj, (some.inj h).symm⟩
  · rw [update_of_ne hj] at h
    cases h

theorem sample_start : sample.Start sampleRun where
  ext j k h := by
    obtain ⟨-, rfl⟩ := sampleRun_sockFd h
    decide +kernel
  uniq j := by
    refine ⟨fun h => (sampleRun_sockFd h).1, ?_⟩
    rintro rfl
    rw [sampleRun_tcbs]
    rfl
  state := by
    rw [sampleRun_tcbs]
    rfl
  next := by
    rw [sampleRun_tcbs]
    decide
  type := by decide +kernel
  empty := by decide +kernel
  got := rfl
  count := rfl
  acks := rfl

/-- The first byte comes in order. -/
theorem sample_safe : sample.Safe (sample.exec sampleRun (sampleSegment 0x18 8 [65])) := by
  refine (recvRun_safe sample_start ((Runs.refl sampleRun).tail _ ⟨?_, ?_⟩)).1
  · refine ⟨by decide, fun seg hp _ => ⟨0, ?_⟩⟩
    obtain rfl := some.inj hp
    decide
  · intro seg _ hp
    obtain rfl := some.inj hp
    refine ⟨fun _ => ⟨by decide, by decide +kernel⟩, fun h => absurd h.2.1 (by decide)⟩

/-- The stream ends after the local side has closed, and a byte before the end is lost. -/
theorem not_always_safe : ¬ ∀ (c : Peer) (s₀ s : RecvRun), c.Start s₀ → c.Run s₀ s → c.Safe s := by
  intro h
  have hrun : sample.Run sampleRun
      (sample.exec (sample.exec sampleRun (.close true)) (sampleSegment 0x11 10 [])) := by
    refine ((Runs.refl sampleRun).tail _ trivial).tail _ ⟨by decide, fun seg hp hne => ?_⟩
    obtain rfl := some.inj hp
    exact absurd rfl hne
  have hsafe := (h sample sampleRun _ sample_start hrun).acks 1 (by decide +kernel)
  exact absurd hsafe (by decide +kernel)

end Peer

end Ridux
