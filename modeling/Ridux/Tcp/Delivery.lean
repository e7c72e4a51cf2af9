import Ridux.Lib.Serial
import Ridux.Tcp.Stack

/-!
# What a connection delivers

* `Tcb.Takes`, `Tcb.Finishes`: the segments whose payload is stored, and those whose FIN is counted;
* `Tcb.onSegment_cases`: what a segment does to the receiving side;
* `Tcp.Sends`: a step that leaves the receive rings alone, and the frames that it sends.
-/

namespace Ridux

open Lib Function List

namespace Tcb

/-- The payload of the segment is stored. -/
def Takes (b : Tcb) (seg : Segment) : Prop :=
  seg.has tcpRst = false ∧ b.state = .established ∧ seg.payload ≠ [] ∧ seg.seq = b.rcvNxt

instance (b : Tcb) (seg : Segment) : Decidable (b.Takes seg) := inferInstanceAs (Decidable (_ ∧ _))

/-- How much of the payload the next number counts. -/
def taken (b : Tcb) (seg : Segment) : ℕ := if b.Takes seg then seg.payload.length else 0

/-- The FIN of the segment is counted. -/
def Finishes (b : Tcb) (seg : Segment) : Prop :=
  seg.has tcpRst = false ∧ seg.has tcpFin = true ∧
    (b.state = .finWait1 ∨ b.state = .finWait2 ∨
      b.state = .established ∧ seg.dataEnd = b.rcvNxt + BitVec.ofNat 32 (b.taken seg))

instance (b : Tcb) (seg : Segment) : Decidable (b.Finishes seg) :=
  inferInstanceAs (Decidable (_ ∧ _))

/-- How far a segment moves the next number. -/
def counted (b : Tcb) (seg : Segment) : ℕ := b.taken seg + if b.Finishes seg then 1 else 0

/-- The states in which the end of the stream has not been seen. -/
def Receiving (b : Tcb) : Prop :=
  b.state = .established ∨ b.state = .finWait1 ∨ b.state = .finWait2

/-- The connection was established. -/
def WasOpen (b : Tcb) : Prop := b.state ≠ .synSent ∧ b.state ≠ .synRcvd

/-- What a segment leaves of the receiving side, when the next number goes on by `n`. -/
structure Delivers (b : Tcb) (seg : Segment) (r : Seen) : Prop where
  sockFd : r.tcb.sockFd = b.sockFd ∨ r.tcb.sockFd = none
  next : r.tcb.rcvNxt = b.rcvNxt + BitVec.ofNat 32 (b.counted seg)
  payload : r.payload = decide (b.Takes seg)
  acks : ∀ f ∈ r.frames, f.ack = b.rcvNxt + BitVec.ofNat 32 (b.taken seg) ∨
    f.ack = b.rcvNxt + BitVec.ofNat 32 (b.counted seg)
  acksData : b.Takes seg → ∃ f ∈ r.frames, f.flags = tcpAck ∧
    f.ack = b.rcvNxt + BitVec.ofNat 32 (b.taken seg)
  acksFin : b.Finishes seg → ∃ f ∈ r.frames, f.flags = tcpAck ∧
    f.ack = b.rcvNxt + BitVec.ofNat 32 (b.counted seg)
  wasOpen : r.tcb.sockFd.isSome → r.tcb.WasOpen
  receiving : r.tcb.sockFd.isSome → r.tcb.Receiving → b.Receiving ∧ ¬b.Finishes seg

variable {b b' : Tcb} {seg : Segment} {r : Seen}

theorem taken_of_not (h : b.state ≠ .established) : b.taken seg = 0 :=
  if_neg fun ht => h ht.2.1

theorem not_takes (h : b.state ≠ .established) : ¬b.Takes seg := fun ht => h ht.2.1

theorem delivers_established (hrst : seg.has tcpRst = false) (hs : b.state = .established) :
    b.Delivers seg (b.onEstablished seg) := by
  have htakes : b.Takes seg ↔ seg.payload ≠ [] ∧ seg.seq = b.rcvNxt :=
    ⟨fun h => h.2.2, fun h => ⟨hrst, hs, h⟩⟩
  have hdata : (b.takeData seg).1.rcvNxt = b.rcvNxt + BitVec.ofNat 32 (b.taken seg) := by
    rw [takeData_rcvNxt, taken]
    by_cases ht : seg.payload ≠ [] ∧ seg.seq = b.rcvNxt
    · rw [if_pos (htakes.2 ht), if_pos ht, Segment.dataEnd, ht.2]
    · rw [if_neg fun h => ht (htakes.1 h), if_neg ht]
      simp
  have hflag : (b.takeData seg).2 = decide (b.Takes seg) := by
    unfold takeData
    by_cases ht : seg.payload ≠ [] ∧ seg.seq = b.rcvNxt
    · rw [if_pos ht, decide_eq_true (htakes.2 ht)]
    · rw [if_neg ht, decide_eq_false fun h => ht (htakes.1 h)]
  have hfin : b.Finishes seg ↔ seg.has tcpFin = true ∧
      seg.dataEnd = (b.takeData seg).1.rcvNxt := by
    rw [hdata]
    unfold Finishes
    rw [hs]
    simp [hrst]
  obtain ⟨hfin₂, hstate, hnext⟩ := received_fin seg b
  rw [← hfin] at hfin₂
  simp only [← hfin] at hstate hnext
  have hcount : (b.received seg).1.rcvNxt = b.rcvNxt + BitVec.ofNat 32 (b.counted seg) := by
    rw [hnext, hdata, counted]
    split_ifs
    · rw [BitVec.ofNat_add, ← BitVec.add_assoc]
      rfl
    · rfl
  have hack := takeAck_same seg.ack (b.received seg).1
  have hall : (b.onEstablished seg).tcb.sockFd = b.sockFd ∧
      (b.onEstablished seg).tcb.rcvNxt = (b.received seg).1.rcvNxt ∧
      (b.onEstablished seg).tcb.state = if b.Finishes seg then .closeWait else .established := by
    have hfd := (received_same seg b).1
    rw [onEstablished_tcb, ← hs]
    by_cases ha : seg.has tcpAck = true
    · rw [if_pos ha]
      exact ⟨hack.1.trans hfd, hack.2.2.1, hack.2.1.trans hstate⟩
    · rw [if_neg ha]
      exact ⟨hfd, rfl, hstate⟩
  obtain ⟨hfd, hnxt, hst⟩ := hall
  -- the frames: one for payload, and one for a FIN
  have hfinAck : ∀ c : Tcb × Bool, (b.received seg) = (if c.2 then c.1.acked else c.1, c.2) →
      c.2 = true → c.1.rcvNxt = (b.received seg).1.rcvNxt := by
    intro c hc h
    rw [hc, if_pos h]
    rfl
  have hframes : ∃ f g : Frame, f.flags = tcpAck ∧ f.ack = (b.takeData seg).1.rcvNxt ∧
      g.flags = tcpAck ∧ (b.Finishes seg → g.ack = (b.received seg).1.rcvNxt) ∧
      (b.onEstablished seg).frames =
        (if seg.payload ≠ [] then [f] else []) ++ if (b.received seg).2 then [g] else [] :=
    ⟨_, _, rfl, rfl, rfl, fun h => hfinAck _ rfl (hfin₂.2 h), rfl⟩
  obtain ⟨f, g, hf, hfa, hg, hga, hframes⟩ := hframes
  refine ⟨.inl hfd, hnxt.trans hcount, hflag, fun x hx => ?_, fun ht => ⟨f, ?_, hf, ?_⟩,
    fun hf => ⟨g, ?_, hg, ?_⟩, fun _ => ?_, fun _ hr => ?_⟩
  · rw [hframes] at hx
    rcases mem_append.1 hx with hx | hx
    · split_ifs at hx
      · rw [mem_singleton.1 hx]
        exact .inl (hfa.trans hdata)
      · cases hx
    · split_ifs at hx with hfin
      · rw [mem_singleton.1 hx]
        exact .inr ((hga (hfin₂.1 hfin)).trans hcount)
      · cases hx
  · rw [hframes, if_pos (htakes.1 ht).1]
    exact mem_append_left _ (mem_singleton_self f)
  · exact hfa.trans hdata
  · rw [hframes, if_pos (hfin₂.2 hf)]
    exact mem_append_right _ (mem_singleton_self g)
  · exact (hga hf).trans hcount
  · unfold WasOpen
    rw [hst]
    split_ifs <;> exact ⟨TcpState.noConfusion, TcpState.noConfusion⟩
  · refine ⟨.inl hs, fun hf => ?_⟩
    unfold Receiving at hr
    rw [hst, if_pos hf] at hr
    rcases hr with hr | hr | hr <;> cases hr

theorem delivers_none (hest : b.state ≠ .established) (hfin : ¬b.Finishes seg)
    (hfd : r.tcb.sockFd = b.sockFd ∨ r.tcb.sockFd = none) (hnext : r.tcb.rcvNxt = b.rcvNxt)
    (hpay : r.payload = false) (hframes : r.frames = []) (hopen : r.tcb.sockFd.isSome → r.tcb.WasOpen)
    (hrec : r.tcb.sockFd.isSome → r.tcb.Receiving → b.Receiving) : b.Delivers seg r := by
  refine ⟨hfd, ?_, ?_, fun f hf => ?_, fun ht => absurd ht (not_takes hest), fun hf => absurd hf hfin,
    hopen, fun hs hr => ⟨hrec hs hr, hfin⟩⟩
  · rw [hnext, counted, taken_of_not hest, if_neg hfin]
    simp
  · rw [hpay, decide_eq_false (not_takes hest)]
  · rw [hframes] at hf
    cases hf

theorem delivers_fin (hest : b.state ≠ .established) (hfin : b.Finishes seg)
    (hfd : r.tcb.sockFd = b.sockFd) (hnext : r.tcb.rcvNxt = b.rcvNxt + 1) (hpay : r.payload = false)
    (hframes : ∃ f, r.frames = [f] ∧ f.flags = tcpAck ∧ f.ack = b.rcvNxt + 1) (hopen : r.tcb.WasOpen)
    (hrec : ¬r.tcb.Receiving) : b.Delivers seg r := by
  obtain ⟨f, hframes, hflags, hack⟩ := hframes
  have hcounted : b.rcvNxt + BitVec.ofNat 32 (b.counted seg) = b.rcvNxt + 1 := by
    rw [counted, taken_of_not hest, if_pos hfin]
    rfl
  refine ⟨.inl hfd, hnext.trans hcounted.symm, ?_, fun g hg => ?_, fun ht => absurd ht (not_takes hest),
    fun _ => ⟨f, ?_, hflags, hack.trans hcounted.symm⟩, fun _ => hopen, fun _ hr => absurd hr hrec⟩
  · rw [hpay, decide_eq_false (not_takes hest)]
  · rw [hframes] at hg
    rw [mem_singleton.1 hg]
    exact .inr (hack.trans hcounted.symm)
  · rw [hframes]
    exact mem_singleton_self f

/-- **What a segment does to the receiving side of a connection that was open.** -/
theorem onSegment_delivers (hopen : b.WasOpen) (seg : Segment) :
    b.Delivers seg (b.onSegment seg) := by
  unfold onSegment
  dsimp only
  by_cases hrst : seg.has tcpRst = true
  · rw [if_pos hrst]
    have hfin : ¬b.Finishes seg := fun h => by rw [h.1] at hrst; cases hrst
    have ht : ¬b.Takes seg := fun h => by rw [h.1] at hrst; cases hrst
    refine ⟨.inr rfl, ?_, ?_, fun f hf => ?_, fun h => absurd h ht, fun h => absurd h hfin,
      fun h => ?_, fun h => ?_⟩
    · rw [counted, taken, if_neg ht, if_neg hfin]
      simp [released]
    · rw [decide_eq_false ht]
    · cases hf
    · cases h
    · cases h
  · rw [if_neg hrst]
    have hrst : seg.has tcpRst = false := Bool.eq_false_iff.2 hrst
    have hfin_iff : b.Finishes seg → seg.has tcpFin = true := fun h => h.2.1
    cases hs : b.state with
    | synSent => exact absurd hs hopen.1
    | synRcvd => exact absurd hs hopen.2
    | established =>
      simp only [negotiate_state, hs]
      have h := delivers_established (b := b.negotiate seg) hrst hs
      exact ⟨h.sockFd, h.next, h.payload, h.acks, h.acksData, h.acksFin, h.wasOpen, h.receiving⟩
    | finWait1 =>
      have hest : b.state ≠ .established := by rw [hs]; exact TcpState.noConfusion
      simp only [negotiate_state, hs]
      by_cases hf : seg.has tcpFin = true
      · have hfin : b.Finishes seg := ⟨hrst, hf, .inl hs⟩
        by_cases ha : seg.has tcpAck = true
        · rw [if_pos ⟨ha, hf⟩]
          exact delivers_fin hest hfin rfl rfl rfl ⟨_, rfl, rfl, rfl⟩ (by simp [WasOpen, finTo, acked])
            (by simp [Receiving, finTo, acked])
        · rw [if_neg fun h => ha h.1, if_neg ha, if_pos hf]
          exact delivers_fin hest hfin rfl rfl rfl ⟨_, rfl, rfl, rfl⟩ (by simp [WasOpen, finTo, acked])
            (by simp [Receiving, finTo, acked])
      · have hfin : ¬b.Finishes seg := fun h => hf h.2.1
        rw [if_neg fun h => hf h.2]
        by_cases ha : seg.has tcpAck = true
        · rw [if_pos ha]
          exact delivers_none hest hfin (.inl rfl) rfl rfl rfl (fun _ => by simp [WasOpen])
            fun _ _ => .inr (.inl hs)
        · rw [if_neg ha, if_neg hf]
          exact delivers_none hest hfin (.inl rfl) rfl rfl rfl (fun _ => hopen)
            fun _ _ => .inr (.inl hs)
    | finWait2 =>
      have hest : b.state ≠ .established := by rw [hs]; exact TcpState.noConfusion
      simp only [negotiate_state, hs]
      by_cases hf : seg.has tcpFin = true
      · rw [if_pos hf]
        exact delivers_fin hest ⟨hrst, hf, .inr (.inl hs)⟩ rfl rfl rfl ⟨_, rfl, rfl, rfl⟩
          (by simp [WasOpen, finTo, acked]) (by simp [Receiving, finTo, acked])
      · rw [if_neg hf]
        exact delivers_none hest (fun h => hf h.2.1) (.inl rfl) rfl rfl rfl (fun _ => hopen)
          fun _ _ => .inr (.inr hs)
    | closing =>
      have hest : b.state ≠ .established := by rw [hs]; exact TcpState.noConfusion
      have hfin : ¬b.Finishes seg := fun h => by
        obtain ⟨-, -, h | h | ⟨h, -⟩⟩ := h <;> rw [hs] at h <;> cases h
      simp only [negotiate_state, hs]
      split_ifs
      · exact delivers_none hest hfin (.inl rfl) rfl rfl rfl (fun _ => by simp [WasOpen])
          fun _ h => by simp [Receiving] at h
      · exact delivers_none hest hfin (.inl rfl) rfl rfl rfl (fun _ => hopen) fun _ h => h
    | lastAck =>
      have hest : b.state ≠ .established := by rw [hs]; exact TcpState.noConfusion
      have hfin : ¬b.Finishes seg := fun h => by
        obtain ⟨-, -, h | h | ⟨h, -⟩⟩ := h <;> rw [hs] at h <;> cases h
      simp only [negotiate_state, hs]
      split_ifs
      · exact delivers_none hest hfin (.inr rfl) rfl rfl rfl (fun h => by cases h) fun h => by cases h
      · exact delivers_none hest hfin (.inl rfl) rfl rfl rfl (fun _ => hopen) fun _ h => h
    | _ =>
      have hest : b.state ≠ .established := by rw [hs]; exact TcpState.noConfusion
      have hfin : ¬b.Finishes seg := fun h => by
        obtain ⟨-, -, h | h | ⟨h, -⟩⟩ := h <;> rw [hs] at h <;> cases h
      simp only [negotiate_state, hs]
      exact delivers_none hest hfin (.inl rfl) rfl rfl rfl (fun _ => hopen) fun _ h => h

/-! ### The local side -/

/-- The receiving side of a block is left alone. -/
structure Idles (b b' : Tcb) : Prop where
  sockFd : b'.sockFd = b.sockFd ∨ b'.sockFd = none
  next : b'.rcvNxt = b.rcvNxt
  wasOpen : b'.sockFd.isSome → b.WasOpen → b'.WasOpen
  receiving : b'.sockFd.isSome → b'.Receiving → b.Receiving

theorem Idles.refl (b : Tcb) : b.Idles b := ⟨.inl rfl, rfl, fun _ h => h, fun _ h => h⟩

theorem idles_of_state (hfd : b'.sockFd = b.sockFd) (hnext : b'.rcvNxt = b.rcvNxt)
    (hstate : b'.state = b.state) : b.Idles b' := by
  refine ⟨.inl hfd, hnext, fun _ h => ?_, fun _ h => ?_⟩
  · unfold WasOpen at h ⊢
    rw [hstate]
    exact h
  · unfold Receiving at h ⊢
    rw [← hstate]
    exact h

theorem idles_of_none (hfd : b'.sockFd = none) (hnext : b'.rcvNxt = b.rcvNxt) : b.Idles b' := by
  refine ⟨.inr hfd, hnext, fun h => ?_, fun h => ?_⟩
  · rw [hfd] at h
    cases h
  · rw [hfd] at h
    cases h

theorem Sent.idles (h : b.Sent b') : b.Idles b' := by
  have hnext : b'.rcvNxt = b.rcvNxt := by
    cases h with
    | same => rfl
    | sent => rfl
    | grown n =>
      unfold grow
      split_ifs <;> rfl
  exact idles_of_state h.same_state.1 hnext h.same_state.2

theorem closed_idles (b : Tcb) : b.Idles b.closed.1 := by
  unfold closed
  cases hs : b.state with
  | established =>
    exact ⟨.inl rfl, rfl, fun _ _ => by simp [WasOpen], fun _ _ => .inl hs⟩
  | closeWait =>
    exact ⟨.inl rfl, rfl, fun _ _ => by simp [WasOpen], fun _ h => by simp [Receiving] at h⟩
  | _ => exact idles_of_none rfl rfl

theorem ticked_idles (now : ℕ) (b : Tcb) : b.Idles (b.ticked now).tcb := by
  have hsyn : b.Idles (b.retrySyn now).tcb := by
    unfold retrySyn
    dsimp only
    split_ifs
    · exact .refl b
    · exact idles_of_none rfl rfl
    · exact idles_of_state rfl rfl rfl
    · exact idles_of_state rfl rfl rfl
    · exact idles_of_state rfl rfl rfl
    · exact idles_of_state rfl rfl rfl
  unfold ticked
  split
  · exact hsyn
  · exact hsyn
  · unfold countTimeWait
    dsimp only
    split_ifs <;> first | exact idles_of_none rfl rfl | exact idles_of_state rfl rfl rfl
  · unfold countDelack
    dsimp only
    split_ifs <;> exact idles_of_state rfl rfl rfl

theorem ticked_acks (hopen : b.WasOpen) (now : ℕ) :
    ∀ f ∈ (b.ticked now).frames, f.ack = b.rcvNxt := by
  intro f hf
  unfold ticked at hf
  split at hf
  · exact absurd ‹_› hopen.1
  · exact absurd ‹_› hopen.2
  · cases hf
  · unfold countDelack at hf
    dsimp only at hf
    split_ifs at hf <;> first | (rw [mem_singleton.1 hf]; rfl) | cases hf

end Tcb

namespace Tcp

/-- The receive rings are left alone, and every frame sent has the property `P`. -/
structure Sends (P : ℕ × Frame → Prop) (t t' : Tcp) : Prop where
  rx : ∀ k, (t'.net.socks k).rx = (t.net.socks k).rx
  type : ∀ k, (t'.net.socks k).type = (t.net.socks k).type
  remote : ∀ k, (t'.net.socks k).remoteIp = (t.net.socks k).remoteIp
  wire : ∃ new, t'.wire = new ++ t.wire ∧ ∀ p ∈ new, P p

variable {t : Tcp} {P : ℕ × Frame → Prop} {fd : ℕ}

namespace Sends

theorem refl (t : Tcp) : t.Sends P t :=
  ⟨fun _ => rfl, fun _ => rfl, fun _ => rfl, [], rfl, fun _ h => by cases h⟩

theorem trans {u v : Tcp} (h : t.Sends P u) (h' : u.Sends P v) : t.Sends P v := by
  obtain ⟨new, hnew, hp⟩ := h.wire
  obtain ⟨new', hnew', hp'⟩ := h'.wire
  refine ⟨fun k => (h'.rx k).trans (h.rx k), fun k => (h'.type k).trans (h.type k),
    fun k => (h'.remote k).trans (h.remote k), new' ++ new, ?_, fun p hmem => ?_⟩
  · rw [hnew', hnew, append_assoc]
  · rcases mem_append.1 hmem with hmem | hmem
    · exact hp' p hmem
    · exact hp p hmem

theorem setTcb (t : Tcp) (i : ℕ) (b : Tcb) : t.Sends P (t.setTcb i b) :=
  ⟨fun _ => rfl, fun _ => rfl, fun _ => rfl, [], rfl, fun _ h => by cases h⟩

theorem setSock {k : ℕ} {s : Sock} (hrx : s.rx = (t.net.socks k).rx)
    (htype : s.type = (t.net.socks k).type) (hremote : s.remoteIp = (t.net.socks k).remoteIp) :
    t.Sends P (t.setSock k s) := by
  have hsock : ∀ j, (t.setSock k s).net.socks j = if j = k then s else t.net.socks j := by
    intro j
    by_cases hj : j = k
    · rw [if_pos hj, hj]
      exact Net.setSock_self _ _ _
    · rw [if_neg hj]
      exact Net.setSock_of_ne _ hj _
  refine ⟨fun j => ?_, fun j => ?_, fun j => ?_, [], rfl, fun _ h => by cases h⟩ <;>
    rw [hsock] <;> split_ifs with hj
  · rw [hj, hrx]
  · rfl
  · rw [hj, htype]
  · rfl
  · rw [hj, hremote]
  · rfl

end Sends

theorem transmit_external (hext : netIsRealExternal (t.net.socks fd).remoteIp = true) (link : Bool)
    (f : Frame) : (t.transmit fd link f).2 =
      if link then { t with wire := (fd, f) :: t.wire } else t := by
  unfold transmit
  dsimp only
  rw [if_pos hext]
  split_ifs <;> rfl

theorem transmit_sends (hext : netIsRealExternal (t.net.socks fd).remoteIp = true) (link : Bool)
    {f : Frame} (hf : P (fd, f)) : t.Sends P (t.transmit fd link f).2 := by
  rw [transmit_external hext]
  split_ifs
  · refine ⟨fun _ => rfl, fun _ => rfl, fun _ => rfl, [(fd, f)], rfl, fun p hp => ?_⟩
    rw [mem_singleton.1 hp]
    exact hf
  · exact .refl t

theorem transmitAll_sends (fd : ℕ) (link : ℕ → Bool) (fs : List Frame) :
    ∀ (k : ℕ) (t : Tcp), netIsRealExternal (t.net.socks fd).remoteIp = true →
      (∀ f ∈ fs, P (fd, f)) → t.Sends P (t.transmitAll fd link k fs) := by
  induction fs with
  | nil => exact fun _ t _ _ => .refl t
  | cons f fs ih =>
    intro k t hext hfs
    have hone := transmit_sends hext (link k) (hfs f (mem_cons_self ..))
    exact hone.trans (ih (k + 1) _ (by rw [hone.remote]; exact hext)
      fun g hg => hfs g (mem_cons_of_mem _ hg))

theorem transmitAll_wire (fd : ℕ) {link : ℕ → Bool} (hlink : ∀ k, link k = true) (fs : List Frame) :
    ∀ (k : ℕ) (t : Tcp), netIsRealExternal (t.net.socks fd).remoteIp = true →
      (t.transmitAll fd link k fs).wire = (fs.map fun f => (fd, f)).reverse ++ t.wire := by
  induction fs with
  | nil => exact fun _ _ _ => rfl
  | cons f fs ih =>
    intro k t hext
    have hone := transmit_external hext (link k) f
    rw [hlink k, if_pos rfl] at hone
    have hrest := ih (k + 1) { t with wire := (fd, f) :: t.wire } hext
    rw [transmitAll, hlink k, hone, hrest, map_cons, reverse_cons, append_assoc]
    rfl

theorem sendLoop_sends (fd i : ℕ) (link : ℕ → Bool) (fuel : ℕ) :
    ∀ (k : ℕ) (rest : Bytes) (sent : ℕ) (t : Tcp),
      netIsRealExternal (t.net.socks fd).remoteIp = true →
      (∀ f : Frame, f.ack = (t.tcbs i).rcvNxt → P (fd, f)) →
      t.Sends P (t.sendLoop fd i link fuel k rest sent).2.2 := by
  induction fuel with
  | zero => exact fun _ _ _ t _ _ => .refl t
  | succ fuel ih =>
    intro k rest sent t hext hp
    rw [sendLoop]
    by_cases hrest : rest = []
    · rw [if_pos hrest]
      exact .refl t
    · rw [if_neg hrest]
      dsimp only
      have hone := transmit_sends hext (link k)
        (hp ((t.tcbs i).dataFrame (rest.take (t.tcbs i).mss.toNat)) rfl)
      have htcbs := transmit_tcbs fd (link k)
        ((t.tcbs i).dataFrame (rest.take (t.tcbs i).mss.toNat)) t
      generalize t.transmit fd (link k) ((t.tcbs i).dataFrame (rest.take (t.tcbs i).mss.toNat)) = r
        at hone htcbs
      obtain ⟨e | _, u⟩ := r
      · exact hone
      · refine hone.trans ((Sends.setTcb _ _ _).trans (ih _ _ _ _ ?_ fun f hf => hp f ?_))
        · show netIsRealExternal (u.net.socks fd).remoteIp = true
          rw [hone.remote]
          exact hext
        · rw [hf, setTcb_tcbs, update_self]
          rfl

theorem send_sends (fd : ℕ) (buf : Bytes) (link : ℕ → Bool)
    (hext : netIsRealExternal (t.net.socks fd).remoteIp = true)
    (hp : ∀ i (f : Frame), t.find fd = some i → f.ack = (t.tcbs i).rcvNxt → P (fd, f)) :
    t.Sends P (t.send fd buf link).2 := by
  unfold send
  cases hf : t.find fd with
  | none => exact .refl t
  | some i =>
    dsimp only
    by_cases hcan : (t.tcbs i).canSend = true
    · rw [if_neg (not_not.2 hcan)]
      by_cases hempty : buf.take (t.tcbs i).avail = []
      · rw [if_pos hempty]
        exact .refl t
      · rw [if_neg hempty]
        have hloop := sendLoop_sends fd i link (buf.take (t.tcbs i).avail).length 0
          (buf.take (t.tcbs i).avail) 0 t hext fun f => hp i f hf
        generalize t.sendLoop fd i link (buf.take (t.tcbs i).avail).length 0
          (buf.take (t.tcbs i).avail) 0 = r at hloop
        obtain ⟨_ | r, sent, u⟩ := r
        · exact hloop.trans (.setTcb _ _ _)
        · exact hloop
    · rw [if_pos hcan]
      exact .refl t

theorem close_sends (fd : ℕ) (link : Bool)
    (hext : netIsRealExternal (t.net.socks fd).remoteIp = true)
    (hp : ∀ i (f : Frame), t.find fd = some i → f.ack = (t.tcbs i).rcvNxt → P (fd, f)) :
    t.Sends P (t.close fd link).2 := by
  unfold close
  cases hf : t.find fd with
  | none => exact .refl t
  | some i =>
    dsimp only
    have hsent : t.Sends P (if (t.tcbs i).closed.2 then
        (t.transmit fd link (t.tcbs i).finFrame).2 else t) := by
      split_ifs
      · exact transmit_sends hext link (hp i _ hf rfl)
      · exact .refl t
    exact (hsent.trans (.setTcb _ _ _)).trans (.setSock rfl rfl rfl)

theorem tick_sends (now : ℕ) (link : ℕ → Bool)
    (hext : ∀ j k, (t.tcbs j).sockFd = some k →
      netIsRealExternal (t.net.socks k).remoteIp = true)
    (hp : ∀ j k (f : Frame), (t.tcbs j).sockFd = some k →
      f ∈ ((t.tcbs j).ticked now).frames → P (k, f)) : t.Sends P (t.tick now link) := by
  unfold tick
  generalize tcp7MaxConnections = n
  have hboth : t.Sends P ((List.range n).foldl (tickOne now link) t) ∧
      ∀ j, ((List.range n).foldl (tickOne now link) t).tcbs j =
        if j < n then tickTcb now (t.tcbs j) else t.tcbs j := by
    induction n with
    | zero => exact ⟨.refl t, fun j => (if_neg (Nat.not_lt_zero j)).symm⟩
    | succ n ih =>
      obtain ⟨hsends, htcbs⟩ := ih
      rw [range_succ, foldl_append, foldl_cons, foldl_nil]
      generalize (List.range n).foldl (tickOne now link) t = u at hsends htcbs
      have hn : u.tcbs n = t.tcbs n := by rw [htcbs, if_neg (lt_irrefl n)]
      refine ⟨hsends.trans ?_, fun j => ?_⟩
      · unfold tickOne
        rw [hn]
        cases hfd : (t.tcbs n).sockFd with
        | none => exact .refl u
        | some k =>
          dsimp only
          have hset : u.Sends P (if ((t.tcbs n).ticked now).timedOut then
              (u.setTcb n ((t.tcbs n).ticked now).tcb).setSock k
                { u.net.socks k with tcpState := .closed, error := some .etimedout }
              else u.setTcb n ((t.tcbs n).ticked now).tcb) := by
            split_ifs
            · exact (Sends.setTcb _ _ _).trans (.setSock rfl rfl rfl)
            · exact .setTcb _ _ _
          refine hset.trans (transmitAll_sends _ _ _ _ _ ?_ fun f hf => hp n k f hfd hf)
          rw [hset.remote, hsends.remote]
          exact hext n k hfd
      · rw [tickOne_tcbs]
        by_cases hj : j = n
        · rw [hj, update_self, hn, if_pos (Nat.lt_succ_self n)]
        · have hlt : j < n + 1 ↔ j < n := by omega
          rw [update_of_ne hj, htcbs]
          simp only [hlt]
  exact hboth.1

theorem processTcp_none (fd : ℕ) (tp : Bytes) (link : ℕ → Bool)
    (h : t.find fd = none ∨ parseSegment tp = none) : t.processTcp fd tp link = t := by
  have hin : t.incomingSegment fd tp link = (false, t) := by
    unfold incomingSegment
    rcases h with h | h
    · rw [h]
    · cases t.find fd with
      | none => rfl
      | some i => rw [h]
  unfold processTcp
  dsimp only
  rw [hin]
  split_ifs with _ hpay
  · rfl
  · cases hpay.1
  · rfl

/-- What a segment for a connection does to the receive ring, and what it sends. -/
structure Receives (t : Tcp) (fd : ℕ) (seg : Segment) (r : Tcb.Seen) (link : ℕ → Bool) (t' : Tcp) :
    Prop where
  rx : (t'.net.socks fd).rx =
    if r.payload = true ∧ seg.payload ≠ [] ∧ seg.payload.length ≤ sockBufSize then
      ((t.net.socks fd).pushRx seg.payload).2.rx else (t.net.socks fd).rx
  type : ∀ k, (t'.net.socks k).type = (t.net.socks k).type
  remote : ∀ k, (t'.net.socks k).remoteIp = (t.net.socks k).remoteIp
  wire : ∃ new, t'.wire = new ++ t.wire ∧ (∀ p ∈ new, p.1 = fd ∧ p.2 ∈ r.frames) ∧
    ((∀ k, link k = true) → ∀ f ∈ r.frames, (fd, f) ∈ new)

theorem processTcp_receives {i : ℕ} {tp : Bytes} {seg : Segment} (link : ℕ → Bool)
    (hext : netIsRealExternal (t.net.socks fd).remoteIp = true) (hf : t.find fd = some i)
    (hp : parseSegment tp = some seg) :
    t.Receives fd seg ((t.tcbs i).onSegment seg) link (t.processTcp fd tp link) := by
  have hhdr : ¬((tp.getD 12 0).toNat / 16 * 4 < 20 ∨
        tp.length < (tp.getD 12 0).toNat / 16 * 4) ∧
      tp.drop ((tp.getD 12 0).toNat / 16 * 4) = seg.payload := by
    unfold parseSegment at hp
    dsimp only at hp
    split_ifs at hp with _ hshort
    exact ⟨hshort, by rw [← Option.some.inj hp]⟩
  have hin : t.incomingSegment fd tp link = (((t.tcbs i).onSegment seg).payload,
      ((t.setTcb i ((t.tcbs i).onSegment seg).tcb).setSock fd
        { t.net.socks fd with
          tcpState := ((t.tcbs i).onSegment seg).sock.getD (t.net.socks fd).tcpState
          error := if ((t.tcbs i).onSegment seg).refused then some .econnrefused
            else (t.net.socks fd).error }).transmitAll fd link 0
        ((t.tcbs i).onSegment seg).frames) := by
    unfold incomingSegment
    rw [hf, hp]
  unfold processTcp
  dsimp only
  rw [if_neg hhdr.1, hhdr.2, hin]
  dsimp only
  generalize (t.tcbs i).onSegment seg = r
  have hset : ∀ Q, t.Sends Q ((t.setTcb i r.tcb).setSock fd
      { t.net.socks fd with
        tcpState := r.sock.getD (t.net.socks fd).tcpState
        error := if r.refused then some .econnrefused else (t.net.socks fd).error }) :=
    fun Q => (Sends.setTcb _ _ _).trans (.setSock rfl rfl rfl)
  generalize (t.setTcb i r.tcb).setSock fd
      { t.net.socks fd with
        tcpState := r.sock.getD (t.net.socks fd).tcpState
        error := if r.refused then some .econnrefused else (t.net.socks fd).error } = u at hset ⊢
  have huext : netIsRealExternal (u.net.socks fd).remoteIp = true := by
    rw [(hset fun _ => True).remote]
    exact hext
  obtain ⟨hrx, htype, hremote, -⟩ := (hset fun _ => True).trans
    (transmitAll_sends fd link r.frames 0 u huext fun _ _ => trivial)
  have hwire : ∃ new, (u.transmitAll fd link 0 r.frames).wire = new ++ t.wire ∧
      (∀ p ∈ new, p.1 = fd ∧ p.2 ∈ r.frames) ∧
      ((∀ k, link k = true) → ∀ f ∈ r.frames, (fd, f) ∈ new) := by
    have hsends := (hset fun p => p.1 = fd ∧ p.2 ∈ r.frames).trans
      (transmitAll_sends fd link r.frames 0 u huext fun f hmem => ⟨rfl, hmem⟩)
    obtain ⟨new, hnew, hall⟩ := hsends.wire
    refine ⟨new, hnew, hall, fun hlink f hmem => ?_⟩
    have hu : u.wire = t.wire := by
      obtain ⟨none', hnone, hfalse⟩ := (hset fun _ => False).wire
      cases none' with
      | nil => exact hnone
      | cons p _ => exact (hfalse p (mem_cons_self ..)).elim
    rw [transmitAll_wire fd hlink r.frames 0 u huext, hu] at hnew
    rw [← append_cancel_right hnew]
    exact mem_reverse.2 (mem_map.2 ⟨f, hmem, rfl⟩)
  generalize u.transmitAll fd link 0 r.frames = v at hrx htype hremote hwire ⊢
  by_cases htake : r.payload = true ∧ seg.payload ≠ [] ∧ seg.payload.length ≤ sockBufSize
  · rw [if_pos htake]
    have hsock : ∀ k, (v.setSock fd ((v.net.socks fd).pushRx seg.payload).2).net.socks k =
        if k = fd then ((v.net.socks fd).pushRx seg.payload).2 else v.net.socks k := by
      intro k
      by_cases hk : k = fd
      · rw [if_pos hk, hk]
        exact Net.setSock_self _ _ _
      · rw [if_neg hk]
        exact Net.setSock_of_ne _ hk _
    refine ⟨?_, fun k => ?_, fun k => ?_, hwire⟩
    · rw [if_pos htake, hsock, if_pos rfl]
      unfold Sock.pushRx Sock.rxRoom
      dsimp only
      rw [hrx]
    · rw [hsock, ← htype k]
      split_ifs with hk
      · rw [hk]
        rfl
      · rfl
    · rw [hsock, ← hremote k]
      split_ifs with hk
      · rw [hk]
        rfl
      · rfl
  · rw [if_neg htake]
    refine ⟨?_, htype, hremote, hwire⟩
    rw [if_neg htake]
    exact hrx fd

end Tcp

end Ridux
