import Ridux.Tcp.Stack

/-!
# The states of a connection

* `Tcb.Lawful`: what the protocol demands of a segment that changes the state;
* `Tcb.SegmentMeets`: the segments with which the engine does so; `onSegment_lawful_iff`;
* `StateRun`: a run of the engine, with the FINs that were acknowledged; `stateRun_lawful`.
-/

namespace Ridux

open Lib List

namespace Tcb

/-- The local side has sent its FIN. -/
def finSent (b : Tcb) : Bool :=
  b.state ∈ [.finWait1, .finWait2, .closing, .lastAck, .timeWait]

/-- The segment acknowledges that FIN: it is the last number sent. -/
def acksFin (b : Tcb) (seg : Segment) : Bool :=
  b.finSent && seg.has tcpAck && decide (seg.ack = b.sndNxt)

/-- The RST may reset the connection: it answers the SYN, or its number is in the window. -/
def RstOk (b : Tcb) (seg : Segment) : Prop :=
  if b.state = .synSent then seg.has tcpAck = true ∧ seg.ack = b.iss + 1
  else (seg.seq - b.rcvNxt).toNat < b.rcvWnd.toNat

/-- The FIN of the peer was counted. -/
def FinCounted (b b' : Tcb) : Prop :=
  b.state ∈ [TcpState.established, .finWait1, .finWait2] ∧
    b'.state ∈ [TcpState.closeWait, .closing, .timeWait]

/-- A segment that comes in is handled as the protocol has it; `acked` says that the FIN of the local
side was acknowledged before. -/
structure Lawful (b : Tcb) (acked : Bool) (seg : Segment) (b' : Tcb) : Prop where
  /-- established by a SYN-ACK for the SYN that was sent -/
  established : b.state ≠ .established → b'.state = .established →
    b.state = .synSent ∧ seg.has tcpSyn = true ∧ seg.has tcpAck = true ∧ seg.ack = b.iss + 1
  /-- closed by a good RST, or by the last acknowledgement -/
  reset : b'.state = .closed → seg.has tcpRst = true ∧ b.RstOk seg ∨
    seg.has tcpRst = false ∧ b.state = .lastAck
  /-- the end is only reached when the FIN was acknowledged -/
  finished : b'.state = .finWait2 ∨ b'.state = .timeWait ∨
      seg.has tcpRst = false ∧ b.state = .lastAck ∧ b'.state = .closed →
    acked = true ∨ b.acksFin seg = true
  /-- nothing is missing before the FIN of the peer -/
  counted : b.FinCounted b' → seg.has tcpFin = true ∧
    (seg.dataEnd = b.rcvNxt ∨ b.state = .established ∧ seg.seq = b.rcvNxt)

/-- The numbers of a segment fit the state. -/
def SegmentMeets (b : Tcb) (seg : Segment) : Prop :=
  if seg.has tcpRst then b.RstOk seg
  else
    match b.state with
    | .synSent => seg.has tcpSyn = true → seg.has tcpAck = true → seg.ack = b.iss + 1
    | .finWait1 =>
      (seg.has tcpAck = true → seg.ack = b.sndNxt) ∧
        (seg.has tcpFin = true → seg.dataEnd = b.rcvNxt)
    | .finWait2 => seg.has tcpFin = true → seg.dataEnd = b.rcvNxt
    | .closing | .lastAck => seg.has tcpAck = true → seg.ack = b.sndNxt
    | _ => True

/-- What holds of a connection in a run. -/
structure Live (b : Tcb) (acked : Bool) : Prop where
  state : b.state ∈ [TcpState.synSent, .established, .finWait1, .finWait2, .closeWait, .closing,
    .lastAck, .timeWait]
  acked : acked = true ↔ b.state = .finWait2 ∨ b.state = .timeWait

variable {b b' : Tcb} {acked : Bool} {seg : Segment}

/-- The state after a segment without RST, for each state that a connection can be in. -/
theorem onSegment_state (hrst : seg.has tcpRst = false) :
    (b.state = .synSent → (b.onSegment seg).tcb.state =
      if seg.has tcpSyn = true ∧ seg.has tcpAck = true then .established else .synSent) ∧
    (b.state = .established → (b.onSegment seg).tcb.state =
      if seg.has tcpFin = true ∧ seg.dataEnd = (b.takeData seg).1.rcvNxt then .closeWait
      else .established) ∧
    (b.state = .finWait1 → (b.onSegment seg).tcb.state =
      if seg.has tcpAck = true ∧ seg.has tcpFin = true then .timeWait
      else if seg.has tcpAck = true then .finWait2
      else if seg.has tcpFin = true then .closing else .finWait1) ∧
    (b.state = .finWait2 → (b.onSegment seg).tcb.state =
      if seg.has tcpFin = true then .timeWait else .finWait2) ∧
    (b.state = .closeWait → (b.onSegment seg).tcb.state = .closeWait) ∧
    (b.state = .closing → (b.onSegment seg).tcb.state =
      if seg.has tcpAck = true then .timeWait else .closing) ∧
    (b.state = .lastAck → (b.onSegment seg).tcb.state =
      if seg.has tcpAck = true then .closed else .lastAck) ∧
    (b.state = .timeWait → (b.onSegment seg).tcb.state = .timeWait) := by
  unfold onSegment
  dsimp only
  rw [if_neg (by rw [hrst]; exact Bool.false_ne_true)]
  refine ⟨fun h => ?_, fun h => ?_, fun h => ?_, fun h => ?_, fun h => ?_, fun h => ?_, fun h => ?_,
    fun h => ?_⟩ <;> simp only [negotiate_state, h]
  · unfold onSynSent
    split_ifs
    · rfl
    · exact h
  · have hstate := onEstablished_state seg (b := b.negotiate seg) h
    rwa [takeData_rcvNxt, negotiate_rcvNxt, ← takeData_rcvNxt] at hstate
  · split_ifs
    · rfl
    · rfl
    · rfl
    · exact h
  · split_ifs
    · rfl
    · exact h
  · split_ifs
    · rfl
    · exact h
  · split_ifs
    · rfl
    · exact h

theorem onSegment_rst (hrst : seg.has tcpRst = true) :
    (b.onSegment seg).tcb = (b.negotiate seg).released := by
  unfold onSegment
  dsimp only
  rw [if_pos hrst]

theorem lawful_iff : b.Lawful acked seg b' ↔
    (b.state ≠ .established → b'.state = .established →
      b.state = .synSent ∧ seg.has tcpSyn = true ∧ seg.has tcpAck = true ∧ seg.ack = b.iss + 1) ∧
    (b'.state = .closed → seg.has tcpRst = true ∧ b.RstOk seg ∨
      seg.has tcpRst = false ∧ b.state = .lastAck) ∧
    (b'.state = .finWait2 ∨ b'.state = .timeWait ∨
      seg.has tcpRst = false ∧ b.state = .lastAck ∧ b'.state = .closed →
      acked = true ∨ b.acksFin seg = true) ∧
    (b.FinCounted b' → seg.has tcpFin = true ∧
      (seg.dataEnd = b.rcvNxt ∨ b.state = .established ∧ seg.seq = b.rcvNxt)) :=
  ⟨fun h => ⟨h.established, h.reset, h.finished, h.counted⟩,
    fun h => ⟨h.1, h.2.1, h.2.2.1, h.2.2.2⟩⟩

/-- **The exact condition.**  A segment is handled lawfully if and only if its numbers fit. -/
theorem onSegment_lawful_iff (h : b.Live acked) :
    b.Lawful acked seg (b.onSegment seg).tcb ↔ b.SegmentMeets seg := by
  unfold SegmentMeets
  cases hrst : seg.has tcpRst with
  | true =>
    rw [if_pos rfl, onSegment_rst hrst]
    have hclosed : (b.negotiate seg).released.state = .closed := rfl
    constructor
    · intro hl
      rcases hl.reset hclosed with ⟨-, hok⟩ | ⟨hno, -⟩
      · exact hok
      · rw [hrst] at hno
        cases hno
    · intro hok
      refine ⟨fun _ he => ?_, fun _ => .inl ⟨hrst, hok⟩, fun hf => ?_, fun hc => ?_⟩
      · rw [hclosed] at he
        cases he
      · rw [hclosed] at hf
        rcases hf with hf | hf | ⟨hf, -⟩
        · cases hf
        · cases hf
        · rw [hrst] at hf
          cases hf
      · have hc := hc.2
        rw [hclosed] at hc
        simp at hc
  | false =>
    rw [if_neg Bool.false_ne_true]
    obtain ⟨hsyn, hest, hfw1, hfw2, hcw, hclosing, hlast, htw⟩ := onSegment_state (b := b) hrst
    have hacked := h.acked
    have hstates := h.state
    simp only [mem_cons, not_mem_nil, or_false] at hstates
    rw [lawful_iff, hrst]
    unfold acksFin finSent FinCounted
    rcases hstates with hs | hs | hs | hs | hs | hs | hs | hs
    · rw [hsyn hs, hs]
      cases seg.has tcpSyn <;> cases seg.has tcpAck <;> simp
    · -- the FIN of an established connection is counted right after what was taken
      have hdata := takeData_rcvNxt seg b
      rw [hest hs, hs, hdata]
      split_ifs <;> simp_all
    · rw [hfw1 hs, hs]
      rw [hs] at hacked
      cases seg.has tcpAck <;> cases seg.has tcpFin <;> simp_all
    · rw [hfw2 hs, hs]
      rw [hs] at hacked
      cases seg.has tcpFin <;> simp_all
    · rw [hcw hs, hs]
      simp
    · rw [hclosing hs, hs]
      rw [hs] at hacked
      cases seg.has tcpAck <;> simp_all
    · rw [hlast hs, hs]
      rw [hs] at hacked
      cases seg.has tcpAck <;> simp_all
    · rw [htw hs, hs]
      rw [hs] at hacked
      simp_all

theorem onSegment_closed (h : b.Live acked) (hused : (b.onSegment seg).tcb.sockFd.isSome) :
    (b.onSegment seg).tcb.state ≠ .closed := by
  cases hrst : seg.has tcpRst with
  | true =>
    rw [onSegment_rst hrst] at hused
    cases hused
  | false =>
    obtain ⟨hsyn, hest, hfw1, hfw2, hcw, hclosing, hlast, htw⟩ := onSegment_state (b := b) hrst
    have hstates := h.state
    simp only [mem_cons, not_mem_nil, or_false] at hstates
    rcases hstates with hs | hs | hs | hs | hs | hs | hs | hs
    · rw [hsyn hs]
      split_ifs <;> exact TcpState.noConfusion
    · rw [hest hs]
      split_ifs <;> exact TcpState.noConfusion
    · rw [hfw1 hs]
      split_ifs <;> exact TcpState.noConfusion
    · rw [hfw2 hs]
      split_ifs <;> exact TcpState.noConfusion
    · rw [hcw hs]
      exact TcpState.noConfusion
    · rw [hclosing hs]
      split_ifs <;> exact TcpState.noConfusion
    · rw [hlast hs]
      split_ifs with hack
      · -- the last acknowledgement
        unfold onSegment at hused
        dsimp only at hused
        rw [if_neg (by rw [hrst]; exact Bool.false_ne_true), negotiate_state, hs] at hused
        dsimp only at hused
        rw [if_pos hack] at hused
        cases hused
      · exact TcpState.noConfusion
    · rw [htw hs]
      exact TcpState.noConfusion

theorem Live.onSegment (h : b.Live acked) (hmeets : b.SegmentMeets seg)
    (hused : (b.onSegment seg).tcb.sockFd.isSome) :
    (b.onSegment seg).tcb.Live (acked || b.acksFin seg) := by
  have hlawful := (onSegment_lawful_iff h).2 hmeets
  have hclosed := onSegment_closed h hused
  cases hrst : seg.has tcpRst with
  | true =>
    rw [onSegment_rst hrst] at hused
    cases hused
  | false =>
    obtain ⟨hsyn, hest, hfw1, hfw2, hcw, hclosing, hlast, htw⟩ := onSegment_state (b := b) hrst
    have hacked := h.acked
    have hstates := h.state
    simp only [mem_cons, not_mem_nil, or_false] at hstates
    have hfinished : (b.onSegment seg).tcb.state = .finWait2 ∨
        (b.onSegment seg).tcb.state = .timeWait → (acked || b.acksFin seg) = true := by
      intro hf
      rw [Bool.or_eq_true]
      exact hlawful.finished (hf.imp_right .inl)
    generalize (b.onSegment seg).tcb = b' at *
    refine ⟨?_, ⟨?_, hfinished⟩⟩
    · rcases hstates with hs | hs | hs | hs | hs | hs | hs | hs
      · rw [hsyn hs]
        split_ifs <;> decide
      · rw [hest hs]
        split_ifs <;> decide
      · rw [hfw1 hs]
        split_ifs <;> decide
      · rw [hfw2 hs]
        split_ifs <;> decide
      · rw [hcw hs]
        decide
      · rw [hclosing hs]
        split_ifs <;> decide
      · have hl := hlast hs
        split_ifs at hl with hack
        · exact absurd hl hclosed
        · rw [hl]
          decide
      · rw [htw hs]
        decide
    · -- once the FIN is acknowledged only these two states are left
      intro ha
      rw [Bool.or_eq_true, hacked] at ha
      unfold acksFin finSent at ha
      rcases hstates with hs | hs | hs | hs | hs | hs | hs | hs
      · simp [hs] at ha
      · simp [hs] at ha
      · have hb' := hfw1 hs
        simp only [hs] at ha
        split_ifs at hb' <;> simp_all
      · have hb' := hfw2 hs
        split_ifs at hb' <;> simp_all
      · simp [hs] at ha
      · have hb' := hclosing hs
        simp only [hs] at ha
        split_ifs at hb' <;> simp_all
      · have hb' := hlast hs
        simp only [hs] at ha
        split_ifs at hb' <;> simp_all
      · exact .inr (htw hs)

theorem Live.step (h : b.Step b') (hlive : b.sockFd.isSome → b.Live acked)
    (hfree : b.sockFd = none → acked = false) (hused : b'.sockFd.isSome) : b'.Live acked := by
  cases h with
  | opened fd iss now hnone =>
    rw [hfree hnone]
    exact ⟨by simp [opened], by simp [opened]⟩
  | sent hsent =>
    obtain ⟨hfd, hstate⟩ := hsent.same_state
    have hl := hlive (hfd ▸ hused)
    exact ⟨hstate ▸ hl.state, hstate ▸ hl.acked⟩
  | closed hs =>
    have hl := hlive hs
    have hacked := hl.acked
    unfold Tcb.closed at hused ⊢
    cases hstate : b.state with
    | established =>
      rw [hstate] at hacked
      exact ⟨by simp, by simpa using hacked⟩
    | closeWait =>
      rw [hstate] at hacked
      exact ⟨by simp, by simpa using hacked⟩
    | _ =>
      rw [hstate] at hused
      cases hused
  | released hs => cases hused
  | ticked now hs =>
    have hl := hlive hs
    have hstate : (b.ticked now).tcb.state = b.state := by
      unfold Tcb.ticked at hused ⊢
      split at hused
      · unfold retrySyn at hused ⊢
        dsimp only at hused ⊢
        split_ifs at hused ⊢ <;> first | rfl | cases hused
      · unfold retrySyn at hused ⊢
        dsimp only at hused ⊢
        split_ifs at hused ⊢ <;> first | rfl | cases hused
      · unfold countTimeWait at hused ⊢
        dsimp only at hused ⊢
        split_ifs at hused ⊢ <;> first | rfl | cases hused
      · unfold countDelack
        dsimp only
        split_ifs <;> rfl
    exact ⟨hstate ▸ hl.state, hstate ▸ hl.acked⟩

end Tcb

/-! ### Runs -/

/-- The engine, and whether the FIN of a connection was acknowledged. -/
structure StateRun where
  tcp : Tcp
  acked : ℕ → Bool

namespace StateRun

/-- What a segment acknowledges. -/
def acks (s : StateRun) (j : ℕ) : Tcp.Op → Bool
  | .segment fd tp _ =>
    match parseSegment tp with
    | some seg => decide (s.tcp.find fd = some j) && (s.tcp.tcbs j).acksFin seg
    | none => false
  | _ => false

/-- One step; a block that is not in use has nothing acknowledged. -/
def exec (s : StateRun) (op : Tcp.Op) : StateRun where
  tcp := s.tcp.exec op
  acked j := ((s.tcp.exec op).tcbs j).sockFd.isSome && (s.acked j || s.acks j op)

/-- No connection is open. -/
structure Start (s : StateRun) : Prop where
  free : ∀ j, (s.tcp.tcbs j).sockFd = none
  acked : ∀ j, s.acked j = false

/-- Where a connection has come to its end, its FIN was acknowledged. -/
def Safe (s : StateRun) : Prop :=
  ∀ j, (s.tcp.tcbs j).sockFd.isSome →
    (s.tcp.tcbs j).state = .finWait2 ∨ (s.tcp.tcbs j).state = .timeWait → s.acked j = true

/-- A step without a segment reaches none of the states that take one. -/
def Quiet (b b' : Tcb) : Prop :=
  b'.state = .established ∨ b'.state = .finWait2 ∨ b'.state = .timeWait → b'.state = b.state

/-- What a step does to every connection is as the protocol has it. -/
def StepLawful (s : StateRun) (op : Tcp.Op) : Prop :=
  ∀ j, match op with
    | .segment fd tp _ => ∀ seg, s.tcp.find fd = some j → parseSegment tp = some seg →
        (s.tcp.tcbs j).Lawful (s.acked j) seg ((s.tcp.exec op).tcbs j)
    | _ => Quiet (s.tcp.tcbs j) ((s.tcp.exec op).tcbs j)

/-- A segment fits the connection that gets it. -/
def Meets (s : StateRun) : Tcp.Op → Prop
  | .segment fd tp _ => ∀ j seg, s.tcp.find fd = some j → parseSegment tp = some seg →
      (s.tcp.tcbs j).SegmentMeets seg
  | _ => True

/-- The invariant of a run. -/
structure Inv (s : StateRun) : Prop where
  live : ∀ j, (s.tcp.tcbs j).sockFd.isSome → (s.tcp.tcbs j).Live (s.acked j)
  free : ∀ j, (s.tcp.tcbs j).sockFd = none → s.acked j = false

variable {s : StateRun}

theorem Start.inv (h : s.Start) : s.Inv where
  live j hj := by
    rw [h.free] at hj
    cases hj
  free j _ := h.acked j

theorem Inv.safe (h : s.Inv) : s.Safe := fun j hj hstate => (h.live j hj).acked.2 hstate

theorem exec_acked (s : StateRun) {op : Tcp.Op} {j : ℕ}
    (hused : ((s.exec op).tcp.tcbs j).sockFd.isSome) :
    (s.exec op).acked j = (s.acked j || s.acks j op) := by
  have hused : ((s.tcp.exec op).tcbs j).sockFd.isSome = true := hused
  show (((s.tcp.exec op).tcbs j).sockFd.isSome && _) = _
  rw [hused, Bool.true_and]

theorem Inv.exec (h : s.Inv) (op : Tcp.Op) (hmeets : s.Meets op) : (s.exec op).Inv := by
  refine ⟨fun j hused => ?_, fun j hnone => ?_⟩
  · rw [exec_acked s hused]
    have hlocal : op.Local → s.acks j op = false →
        ((s.exec op).tcp.tcbs j).Live (s.acked j || s.acks j op) := by
      intro hop hno
      rw [hno, Bool.or_false]
      exact Tcb.Live.step (Tcp.exec_step s.tcp hop j) (h.live j) (h.free j) hused
    cases op with
    | segment fd tp link =>
      have htcb := Tcp.exec_segment s.tcp fd tp link j
      have hused : ((s.tcp.exec (.segment fd tp link)).tcbs j).sockFd.isSome := hused
      have hacks : s.acks j (.segment fd tp link) = match parseSegment tp with
          | some seg => decide (s.tcp.find fd = some j) && (s.tcp.tcbs j).acksFin seg
          | none => false := rfl
      show ((s.tcp.exec (.segment fd tp link)).tcbs j).Live _
      rw [htcb] at hused ⊢
      cases hp : parseSegment tp with
      | none =>
        rw [hp] at hused hacks
        rw [hacks, Bool.or_false]
        exact h.live j hused
      | some seg =>
        rw [hp] at hused hacks
        rw [hacks]
        dsimp only at hused ⊢
        by_cases hf : s.tcp.find fd = some j
        · rw [if_pos hf] at hused ⊢
          rw [decide_eq_true hf, Bool.true_and]
          have hj : (s.tcp.tcbs j).sockFd.isSome := by rw [Tcp.find_sockFd hf]; rfl
          exact (h.live j hj).onSegment (hmeets j seg hf hp) hused
        · rw [if_neg hf] at hused ⊢
          rw [decide_eq_false hf, Bool.false_and, Bool.or_false]
          exact h.live j hused
    | connect => exact hlocal trivial rfl
    | send => exact hlocal trivial rfl
    | recv => exact hlocal trivial rfl
    | close => exact hlocal trivial rfl
    | drop => exact hlocal trivial rfl
    | tick => exact hlocal trivial rfl
  · have hnone : ((s.tcp.exec op).tcbs j).sockFd = none := hnone
    show (((s.tcp.exec op).tcbs j).sockFd.isSome && _) = false
    rw [hnone]
    rfl

theorem quiet_step {b b' : Tcb} (h : b.Step b') : Quiet b b' := by
  intro hstate
  cases h with
  | opened => simp [Tcb.opened] at hstate
  | sent hsent => exact hsent.same_state.2
  | closed =>
    unfold Tcb.closed at hstate
    split at hstate <;> simp [Tcb.released] at hstate
  | released => simp [Tcb.released] at hstate
  | ticked now =>
    unfold Tcb.ticked at hstate ⊢
    split at hstate
    · unfold Tcb.retrySyn at hstate ⊢
      dsimp only at hstate ⊢
      split_ifs at hstate ⊢ <;> first | rfl | simp [Tcb.released] at hstate
    · unfold Tcb.retrySyn at hstate ⊢
      dsimp only at hstate ⊢
      split_ifs at hstate ⊢ <;> first | rfl | simp [Tcb.released] at hstate
    · unfold Tcb.countTimeWait at hstate ⊢
      dsimp only at hstate ⊢
      split_ifs at hstate ⊢ <;> first | rfl | simp [Tcb.released] at hstate
    · unfold Tcb.countDelack
      dsimp only
      split_ifs <;> rfl

theorem Inv.stepLawful_iff (h : s.Inv) (op : Tcp.Op) : s.StepLawful op ↔ s.Meets op := by
  have hlocal : op.Local → ∀ j, Quiet (s.tcp.tcbs j) ((s.tcp.exec op).tcbs j) :=
    fun hop j => quiet_step (Tcp.exec_step s.tcp hop j)
  cases op with
  | segment fd tp link =>
    have hiff : ∀ j seg, s.tcp.find fd = some j → parseSegment tp = some seg →
        ((s.tcp.tcbs j).Lawful (s.acked j) seg ((s.tcp.exec (.segment fd tp link)).tcbs j) ↔
          (s.tcp.tcbs j).SegmentMeets seg) := by
      intro j seg hf hp
      have htcb := Tcp.exec_segment s.tcp fd tp link j
      rw [hp] at htcb
      dsimp only at htcb
      rw [htcb, if_pos hf]
      exact Tcb.onSegment_lawful_iff (h.live j (by rw [Tcp.find_sockFd hf]; rfl))
    exact ⟨fun hl j seg hf hp => (hiff j seg hf hp).1 (hl j seg hf hp),
      fun hm j seg hf hp => (hiff j seg hf hp).2 (hm j seg hf hp)⟩
  | connect => exact iff_of_true (hlocal trivial) trivial
  | send => exact iff_of_true (hlocal trivial) trivial
  | recv => exact iff_of_true (hlocal trivial) trivial
  | close => exact iff_of_true (hlocal trivial) trivial
  | drop => exact iff_of_true (hlocal trivial) trivial
  | tick => exact iff_of_true (hlocal trivial) trivial

/-- Any run. -/
def Run : StateRun → StateRun → Prop := Runs (fun _ _ => True) exec

/-- A run of segments that fit. -/
def MeetingRun : StateRun → StateRun → Prop := Runs Meets exec

/-- In every run of segments that fit the connections follow the protocol, and a step after such a
run is lawful if and only if its segment fits. -/
theorem stateRun_lawful {s₀ : StateRun} (h₀ : s₀.Start) (h : s₀.MeetingRun s) :
    s.Safe ∧ ∀ op, s.StepLawful op ↔ s.Meets op := by
  have hinv := Runs.invariant (fun _ op hs hop => Inv.exec hs op hop) h h₀.inv
  exact ⟨hinv.safe, hinv.stepLawful_iff⟩

/-! ### Samples -/

/-- Nothing is open. -/
def boot : StateRun := ⟨.boot, fun _ => false⟩

/-- Socket 3 connects with the number 1000. -/
def dialled : StateRun := boot.exec (.connect 3 0x0A000002 80 1000 0 true)

theorem boot_start : boot.Start := ⟨fun _ => rfl, fun _ => rfl⟩

theorem dialled_find : dialled.tcp.find 3 = some 0 := by decide +kernel

theorem dialled_tcb : dialled.tcp.tcbs 0 = .opened 3 1000 0 := by
  have halloc : boot.tcp.alloc = some 0 := by decide +kernel
  simp only [dialled, exec, Tcp.exec, Tcp.connect, halloc, Tcp.transmit_tcbs, Tcp.setTcb_tcbs,
    Function.update_self]

/-- The SYN-ACK for the number 1001 opens the connection. -/
theorem dialled_lawful : dialled.StepLawful (.segment 3 (Tcp.synAck 233) fun _ => true) := by
  have hrun : boot.MeetingRun dialled := (Runs.refl boot).tail _ trivial
  refine ((stateRun_lawful boot_start hrun).2 _).2 fun j seg hf hp => ?_
  rw [dialled_find] at hf
  rw [Tcp.synAck_parse] at hp
  obtain rfl := Option.some.inj hf
  obtain rfl := Option.some.inj hp
  rw [dialled_tcb]
  exact fun _ _ => rfl

/-- A SYN-ACK for a number that was not sent opens it too. -/
theorem not_always_lawful : ¬ ∀ s₀ s : StateRun, s₀.Start → s₀.Run s → ∀ op, s.StepLawful op := by
  intro h
  have hrun : boot.Run dialled := (Runs.refl boot).tail _ trivial
  have hlawful := h boot dialled boot_start hrun (.segment 3 (Tcp.synAck 0) fun _ => true) 0 _
    dialled_find (Tcp.synAck_parse 0)
  have hstate : ((dialled.tcp.exec (.segment 3 (Tcp.synAck 0) fun _ => true)).tcbs 0).state =
      .established := by decide +kernel
  have hack := (hlawful.established (by rw [dialled_tcb]; exact TcpState.noConfusion) hstate).2.2.2
  rw [dialled_tcb] at hack
  exact absurd hack (by decide)

end StateRun

end Ridux
