import Ridux.Tcp.Windows

/-!
# The sending side of a connection

* `SendRun`: a run of the engine, with how many numbers a connection has used and which of them are
  bytes of the application;
* `SendRun.Safe`: the numbers are in order and the congestion window is not zero;
* `SendRun.Retained`: what was not acknowledged can be sent again;
* `SendRun.Fits`, `SendRun.Quiet`: the acknowledgements that cover what was sent, and the calls that
  take no byte; `sendRun_ordered`.
-/

namespace Ridux

open Lib Function List Option

namespace Tcp

variable {t : Tcp} {fd : ℕ}

/-- The call takes a byte: the first frame goes out. -/
def Takes (t : Tcp) (fd : ℕ) (buf : Bytes) (link : ℕ → Bool) : Prop :=
  ∃ i, t.find fd = some i ∧ (t.tcbs i).canSend = true ∧ buf.take (t.tcbs i).avail ≠ [] ∧
    (t.transmit fd (link 0) ((t.tcbs i).dataFrame
      ((buf.take (t.tcbs i).avail).take (t.tcbs i).mss.toNat))).1.isOk = true

theorem sendLoop_first (fd i : ℕ) (link : ℕ → Bool) (fuel k : ℕ) {rest : Bytes} (sent : ℕ) (t : Tcp)
    (hrest : rest ≠ []) (hmss : 0 < (t.tcbs i).mss.toNat) :
    ∃ n, n ≤ rest.length ∧ (t.sendLoop fd i link (fuel + 1) k rest sent).2.1 = sent + n ∧
      (t.sendLoop fd i link (fuel + 1) k rest sent).2.2.tcbs =
        update t.tcbs i ((t.tcbs i).advance n) ∧
      (0 < n ↔ (t.transmit fd (link k)
        ((t.tcbs i).dataFrame (rest.take (t.tcbs i).mss.toNat))).1.isOk = true) := by
  rw [sendLoop, if_neg hrest]
  dsimp only
  have htcbs := transmit_tcbs fd (link k)
    ((t.tcbs i).dataFrame (rest.take (t.tcbs i).mss.toNat)) t
  generalize t.transmit fd (link k) ((t.tcbs i).dataFrame (rest.take (t.tcbs i).mss.toNat)) = r
    at htcbs ⊢
  obtain ⟨e | _, u⟩ := r
  · have htcbs : u.tcbs = t.tcbs := htcbs
    refine ⟨0, Nat.zero_le _, rfl, ?_, by simp [Except.isOk, Except.toBool]⟩
    rw [advance_zero, update_eq_self, htcbs]
  · have htcbs : u.tcbs = t.tcbs := htcbs
    obtain ⟨n, hn, hsent, hloop⟩ := sendLoop_spec fd i link fuel (k + 1)
      (rest.drop (t.tcbs i).mss.toNat) (sent + (rest.take (t.tcbs i).mss.toNat).length)
      (u.setTcb i ((t.tcbs i).advance (rest.take (t.tcbs i).mss.toNat).length))
    have hpos := length_pos_iff.2 hrest
    rw [length_drop] at hn
    have hlen : (rest.take (t.tcbs i).mss.toNat).length = min (t.tcbs i).mss.toNat rest.length :=
      length_take
    refine ⟨(rest.take (t.tcbs i).mss.toNat).length + n, by omega, ?_, ?_, ?_⟩
    · dsimp only
      rw [hsent]
      omega
    · dsimp only
      rw [hloop, setTcb_tcbs, update_self, update_idem, advance_advance, htcbs]
    · exact iff_of_true (by omega) rfl

theorem send_moves {i : ℕ} (hf : t.find fd = some i) (buf : Bytes) (link : ℕ → Bool)
    (hmss : 0 < (t.tcbs i).mss.toNat) :
    ∃ n, n ≤ (t.tcbs i).avail ∧
      ((t.send fd buf link).2.tcbs i).sndNxt = ((t.tcbs i).advance n).sndNxt ∧
      (0 < n ↔ t.Takes fd buf link) := by
  have htakes : t.Takes fd buf link ↔ (t.tcbs i).canSend = true ∧
      buf.take (t.tcbs i).avail ≠ [] ∧ (t.transmit fd (link 0) ((t.tcbs i).dataFrame
        ((buf.take (t.tcbs i).avail).take (t.tcbs i).mss.toNat))).1.isOk = true := by
    refine ⟨fun ⟨i', hf', h⟩ => ?_, fun h => ⟨i, hf, h⟩⟩
    rw [hf] at hf'
    obtain rfl := some.inj hf'
    exact h
  rw [htakes]
  unfold send
  rw [hf]
  dsimp only
  by_cases hcan : (t.tcbs i).canSend = true
  · rw [if_neg (not_not.2 hcan)]
    by_cases hempty : buf.take (t.tcbs i).avail = []
    · rw [if_pos hempty]
      exact ⟨0, Nat.zero_le _, by rw [advance_zero],
        iff_of_false (lt_irrefl 0) fun h => h.2.1 hempty⟩
    · rw [if_neg hempty]
      obtain ⟨m, hm⟩ := Nat.exists_eq_succ_of_ne_zero
        (length_pos_iff.2 hempty).ne'
      rw [hm]
      obtain ⟨n, hn, hsent, htcbs, hpos⟩ := sendLoop_first fd i link m 0 0 t hempty hmss
      refine ⟨n, ?_, ?_, ?_⟩
      · rw [length_take] at hn
        omega
      · generalize t.sendLoop fd i link (m + 1) 0 (buf.take (t.tcbs i).avail) 0 = r at hsent htcbs
        obtain ⟨_ | r, sent, u⟩ := r
        · have htcbs : u.tcbs = update t.tcbs i ((t.tcbs i).advance n) := htcbs
          show ((u.setTcb i ((u.tcbs i).grow sent)).tcbs i).sndNxt = _
          rw [setTcb_tcbs, update_self, htcbs, update_self]
          unfold Tcb.grow
          split_ifs <;> rfl
        · have htcbs : u.tcbs = update t.tcbs i ((t.tcbs i).advance n) := htcbs
          show (u.tcbs i).sndNxt = _
          rw [htcbs, update_self]
      · rw [hpos]
        exact ⟨fun h => ⟨hcan, hempty, h⟩, fun h => h.2.2⟩
  · rw [if_pos hcan]
    exact ⟨0, Nat.zero_le _, by rw [advance_zero],
      iff_of_false (lt_irrefl 0) fun h => hcan h.1⟩

theorem send_other {j : ℕ} (hf : t.find fd ≠ some j) (buf : Bytes) (link : ℕ → Bool) :
    (t.send fd buf link).2.tcbs j = t.tcbs j := by
  unfold send
  cases hi : t.find fd with
  | none => rfl
  | some i =>
    have hji : j ≠ i := by
      rintro rfl
      exact hf hi
    dsimp only
    by_cases hcan : (t.tcbs i).canSend = true
    · rw [if_neg (not_not.2 hcan)]
      by_cases hempty : buf.take (t.tcbs i).avail = []
      · rw [if_pos hempty]
      · rw [if_neg hempty]
        obtain ⟨n, -, -, htcbs⟩ := sendLoop_spec fd i link
          (buf.take (t.tcbs i).avail).length 0 (buf.take (t.tcbs i).avail) 0 t
        generalize t.sendLoop fd i link (buf.take (t.tcbs i).avail).length 0
          (buf.take (t.tcbs i).avail) 0 = r at htcbs
        obtain ⟨_ | r, sent, u⟩ := r
        · have htcbs : u.tcbs = update t.tcbs i ((t.tcbs i).advance n) := htcbs
          show (u.setTcb i ((u.tcbs i).grow sent)).tcbs j = _
          rw [setTcb_tcbs, update_of_ne hji, htcbs, update_of_ne hji]
        · have htcbs : u.tcbs = update t.tcbs i ((t.tcbs i).advance n) := htcbs
          show u.tcbs j = _
          rw [htcbs, update_of_ne hji]
    · rw [if_pos hcan]

end Tcp

namespace Tcb

variable {b : Tcb} {seg : Segment}

theorem ackLawful_iff (hrcvd : b.state ≠ .synRcvd) :
    b.AckLawful seg (b.onSegment seg).tcb ↔ b.AckMeets seg := by
  cases hrst : seg.has tcpRst with
  | true =>
    have huna : (b.onSegment seg).tcb.sndUna = b.sndUna := by
      unfold Tcb.onSegment
      dsimp only
      rw [if_pos hrst]
      rfl
    exact iff_of_true (.inl huna) fun h => by rw [hrst] at h; cases h
  | false =>
    by_cases hsyn : b.state = .synSent
    · have hstep := onSegment_synSent hrst hsyn
      split_ifs at hstep with hboth
      · obtain ⟨-, -, huna, -⟩ := hstep
        refine ⟨fun h _ _ _ => ?_, fun h => .inr ⟨hboth.2, huna, h hrst hboth.2 (.inl ⟨hsyn, hboth.1⟩)⟩⟩
        rcases h with h | ⟨-, -, h⟩
        · rw [← huna, h, ahead_self]
          exact Nat.zero_le _
        · exact h
      · refine iff_of_true (.inl (by rw [hstep]; rfl)) fun _ hack hor => ?_
        rcases hor with ⟨-, hs⟩ | ⟨hest, -⟩
        · exact absurd ⟨hs, hack⟩ hboth
        · rw [hsyn] at hest
          cases hest
    · by_cases hest : b.state = .established
      · have hsame := (negotiate_sameSend seg b).trans (received_sameSend seg _)
        rw [onSegment_established hrst hest, onEstablished_tcb]
        split_ifs with hack
        · rcases takeAck_cases seg.ack ((b.negotiate seg).received seg).1 with
            ⟨hnew, huna, -⟩ | ⟨hold, huna, -⟩
          · rw [hsame.sndUna] at hnew
            refine ⟨fun h _ _ _ => ?_, fun h => .inr ⟨hack, huna, h hrst hack (.inr ⟨hest, hnew⟩)⟩⟩
            rcases h with h | ⟨-, -, h⟩
            · rw [← huna, h, ahead_self]
              exact Nat.zero_le _
            · exact h
          · rw [hsame.sndUna] at hold
            refine iff_of_true (.inl (huna.trans hsame.sndUna)) fun _ _ hor => ?_
            rcases hor with ⟨hs, -⟩ | ⟨-, hlt⟩
            · exact absurd hs hsyn
            · exact absurd hlt hold
        · exact iff_of_true (.inl hsame.sndUna) fun _ h => absurd h hack
      · refine iff_of_true (.inl (onSegment_other hrst hsyn hrcvd hest).1.sndUna) fun _ _ hor => ?_
        rcases hor with ⟨hs, -⟩ | ⟨hs, -⟩
        · exact absurd hs hsyn
        · exact absurd hs hest

/-- The order of the numbers, `count` of which were used: `iss`, then `snd_una`, then `snd_nxt`. -/
structure Ordered (b : Tcb) (count : ℕ) : Prop where
  next : b.sndNxt = b.iss + BitVec.ofNat 32 count
  behind : b.unacked ≤ count
  serial : b.unacked < 2 ^ 31
  cwnd : b.cwnd ≠ 0

/-- What was sent by a call is in the two windows, as the call found them. -/
def InWindow (b b' : Tcb) : Prop :=
  b'.sndNxt ≠ b.sndNxt → b'.unacked ≤ min b.cwnd.toNat b.sndWnd.toNat

end Tcb

/-- The engine, the numbers that each connection has used, and which of them are bytes of the
application. -/
structure SendRun where
  tcp : Tcp
  count : ℕ → ℕ
  bytes : ℕ → List ℕ

namespace SendRun

/-- The numbers that a step uses. -/
def moved (s : SendRun) (op : Tcp.Op) (j : ℕ) : ℕ :=
  ahead (s.tcp.tcbs j).sndNxt ((s.tcp.exec op).tcbs j).sndNxt

/-- One step; a connection that is opened has used the number of its SYN. -/
def exec (s : SendRun) (op : Tcp.Op) : SendRun where
  tcp := s.tcp.exec op
  count j := if (s.tcp.tcbs j).sockFd.isNone then 1 else s.count j + s.moved op j
  bytes j :=
    if (s.tcp.tcbs j).sockFd.isNone then []
    else
      match op with
      | .send .. => s.bytes j ++ List.range' (s.count j) (s.moved op j)
      | _ => s.bytes j

/-- No connection is open. -/
structure Start (s : SendRun) : Prop where
  free : ∀ j, (s.tcp.tcbs j).sockFd = none

/-- The numbers of every connection are in order. -/
def Safe (s : SendRun) : Prop :=
  ∀ j, (s.tcp.tcbs j).sockFd.isSome → (s.tcp.tcbs j).Ordered (s.count j)

/-- A byte of the application that was not acknowledged. -/
def Waiting (s : SendRun) (j p : ℕ) : Prop :=
  (s.tcp.tcbs j).sockFd.isSome ∧ p ∈ s.bytes j ∧ s.count j - (s.tcp.tcbs j).unacked ≤ p

/-- Every byte that was not acknowledged can be sent again. -/
def Retained (s : SendRun) : Prop :=
  ∀ j p, s.Waiting j p → (s.tcp.tcbs j).Retains ((s.tcp.tcbs j).iss + BitVec.ofNat 32 p)

/-- No byte waits for an acknowledgement. -/
def Idle (s : SendRun) : Prop := ∀ j p, ¬s.Waiting j p

/-- A step acknowledges what was sent, and sends what the windows allow. -/
def OrderLawful (s : SendRun) (op : Tcp.Op) : Prop :=
  ∀ j, (s.tcp.tcbs j).sockFd.isSome →
    match op with
    | .segment fd tp _ => ∀ seg, s.tcp.find fd = some j → parseSegment tp = some seg →
        (s.tcp.tcbs j).AckLawful seg ((s.tcp.exec op).tcbs j)
    | .send .. => ((s.tcp.exec op).tcbs j).sndUna = (s.tcp.tcbs j).sndUna ∧
        (s.tcp.tcbs j).InWindow ((s.tcp.exec op).tcbs j)
    | _ => ((s.tcp.exec op).tcbs j).sockFd.isSome →
        ((s.tcp.exec op).tcbs j).sndUna = (s.tcp.tcbs j).sndUna

/-- A segment acknowledges only what was sent. -/
def Fits (s : SendRun) : Tcp.Op → Prop
  | .segment fd tp _ => ∀ j seg, s.tcp.find fd = some j → parseSegment tp = some seg →
      (s.tcp.tcbs j).AckMeets seg
  | _ => True

/-- A call takes no byte. -/
def Quiet (s : SendRun) : Tcp.Op → Prop
  | .send fd buf link => ¬s.tcp.Takes fd buf link
  | _ => True

variable {s : SendRun} {op : Tcp.Op} {j : ℕ}

/-- The invariant of a run. -/
def Inv (s : SendRun) : Prop :=
  ∀ j, (s.tcp.tcbs j).sockFd.isSome → (s.tcp.tcbs j).Sending (s.count j)

theorem Start.inv (h : s.Start) : s.Inv := by
  intro j hj
  rw [h.free] at hj
  cases hj

theorem Start.idle (h : s.Start) : s.Idle := by
  rintro j p ⟨hj, -⟩
  rw [h.free] at hj
  cases hj

theorem Inv.safe (h : s.Inv) : s.Safe := fun j hj =>
  { next := (h j hj).next
    behind := (h j hj).behind
    serial := lt_of_le_of_lt (h j hj).order (by decide)
    cwnd := (h j hj).cwnd }

theorem retained_iff (s : SendRun) : s.Retained ↔ s.Idle :=
  ⟨fun h j p hp => Tcb.not_retains _ _ (h j p hp), fun h j p hp => absurd hp (h j p)⟩

theorem exec_count (hold : (s.tcp.tcbs j).sockFd.isSome) :
    (s.exec op).count j = s.count j + s.moved op j := by
  have hno : ¬(s.tcp.tcbs j).sockFd.isNone = true := by
    rw [isNone_iff_eq_none]
    exact isSome_iff_ne_none.1 hold
  exact if_neg hno

theorem exec_opened (hold : (s.tcp.tcbs j).sockFd = none) :
    (s.exec op).count j = 1 ∧ (s.exec op).bytes j = [] := by
  have hyes : (s.tcp.tcbs j).sockFd.isNone = true := by
    rw [hold]
    rfl
  exact ⟨if_pos hyes, if_pos hyes⟩

theorem Inv.segment (h : s.Inv) {fd : ℕ} {tp : Bytes} {link : ℕ → Bool}
    (hfit : s.Fits (.segment fd tp link)) (hold : (s.tcp.tcbs j).sockFd.isSome)
    (hused : ((s.tcp.exec (.segment fd tp link)).tcbs j).sockFd.isSome) :
    ((s.tcp.exec (.segment fd tp link)).tcbs j).Sending (s.count j) ∧
      s.moved (.segment fd tp link) j = 0 ∧
      ((s.tcp.exec (.segment fd tp link)).tcbs j).unacked ≤ (s.tcp.tcbs j).unacked := by
  unfold moved
  rw [Tcp.exec_segment] at hused ⊢
  cases hp : parseSegment tp with
  | none =>
    dsimp only
    exact ⟨h j hold, ahead_self _, le_rfl⟩
  | some seg =>
    rw [hp] at hused
    dsimp only at hused ⊢
    by_cases hf : s.tcp.find fd = some j
    · rw [if_pos hf] at hused ⊢
      have hmeets := hfit j seg hf hp
      obtain ⟨hsending, hnxt⟩ := (h j hold).onSegment hmeets hused
      have hack := (Tcb.ackLawful_iff (h j hold).state).2 hmeets
      rw [hnxt]
      refine ⟨hsending, ahead_self _, ?_⟩
      unfold Tcb.unacked
      rw [hnxt]
      rcases hack with huna | ⟨-, huna, hle⟩
      · rw [huna]
      · rw [huna, ahead_sub hle]
        exact Nat.sub_le _ _
    · rw [if_neg hf]
      exact ⟨h j hold, ahead_self _, le_rfl⟩

theorem Inv.exec (h : s.Inv) (op : Tcp.Op) (hfit : s.Fits op) : (s.exec op).Inv := by
  intro j hused
  have hused : ((s.tcp.exec op).tcbs j).sockFd.isSome := hused
  show ((s.tcp.exec op).tcbs j).Sending _
  cases hold : (s.tcp.tcbs j).sockFd with
  | none =>
    rw [(exec_opened hold).1]
    have hlocal : op.Local → ((s.tcp.exec op).tcbs j).Sending 1 := by
      intro hop
      have hstep := Tcp.exec_step s.tcp hop j
      generalize (s.tcp.exec op).tcbs j = b' at hstep hused ⊢
      cases hstep with
      | opened fd iss now => exact .opened fd iss now
      | sent hsent =>
        cases hsent with
        | same =>
          rw [hold] at hused
          cases hused
        | sent _ hsome =>
          rw [hold] at hsome
          cases hsome
        | grown _ hsome =>
          rw [hold] at hsome
          cases hsome
      | closed hsome =>
        rw [hold] at hsome
        cases hsome
      | released hsome => cases hused
      | ticked _ hsome =>
        rw [hold] at hsome
        cases hsome
    cases op with
    | segment fd tp link =>
      rw [Tcp.exec_segment] at hused
      exfalso
      cases hp : parseSegment tp with
      | none =>
        rw [hp] at hused
        dsimp only at hused
        rw [hold] at hused
        cases hused
      | some seg =>
        rw [hp] at hused
        dsimp only at hused
        by_cases hf : s.tcp.find fd = some j
        · rw [Tcp.find_sockFd hf] at hold
          cases hold
        · rw [if_neg hf, hold] at hused
          cases hused
    | _ => exact hlocal trivial
  | some k =>
    have hsome : (s.tcp.tcbs j).sockFd.isSome := by rw [hold]; rfl
    rw [exec_count hsome]
    have hlocal : op.Local → ((s.tcp.exec op).tcbs j).Sending (s.count j + s.moved op j) :=
      fun hop => ((h j hsome).step (Tcp.exec_step s.tcp hop j) hsome hused).1
    cases op with
    | segment fd tp link =>
      obtain ⟨hsending, hmoved, -⟩ := h.segment hfit hsome hused
      rw [hmoved]
      exact hsending
    | _ => exact hlocal trivial

theorem Inv.orderLawful_iff (h : s.Inv) (op : Tcp.Op) : s.OrderLawful op ↔ s.Fits op := by
  have hlocal : op.Local → ∀ j, (s.tcp.tcbs j).sockFd.isSome →
      ((s.tcp.exec op).tcbs j).sockFd.isSome →
        ((s.tcp.exec op).tcbs j).sndUna = (s.tcp.tcbs j).sndUna :=
    fun hop j hj hused => ((h j hj).step (Tcp.exec_step s.tcp hop j) hj hused).2
  cases op with
  | segment fd tp link =>
    have hiff : ∀ j seg, s.tcp.find fd = some j → parseSegment tp = some seg →
        ((s.tcp.tcbs j).AckLawful seg ((s.tcp.exec (.segment fd tp link)).tcbs j) ↔
          (s.tcp.tcbs j).AckMeets seg) := by
      intro j seg hf hp
      have htcb := Tcp.exec_segment s.tcp fd tp link j
      rw [hp] at htcb
      dsimp only at htcb
      rw [htcb, if_pos hf]
      exact Tcb.ackLawful_iff (h j (by rw [Tcp.find_sockFd hf]; rfl)).state
    have hsome : ∀ {j}, s.tcp.find fd = some j → (s.tcp.tcbs j).sockFd.isSome := by
      intro j hf
      rw [Tcp.find_sockFd hf]
      rfl
    exact ⟨fun hl j seg hf hp => (hiff j seg hf hp).1 (hl j (hsome hf) seg hf hp),
      fun hm j _ seg hf hp => (hiff j seg hf hp).2 (hm j seg hf hp)⟩
  | send fd buf link =>
    refine iff_of_true (fun j hj => ?_) trivial
    obtain ⟨-, huna, hwindow⟩ := (h j hj).sent (Tcp.send_sent fd buf link s.tcp j)
    exact ⟨huna, fun hne => le_min (hwindow hne).1 (hwindow hne).2⟩
  | connect => exact iff_of_true (fun j hj hused => hlocal trivial j hj hused) trivial
  | recv => exact iff_of_true (fun j hj hused => hlocal trivial j hj hused) trivial
  | close => exact iff_of_true (fun j hj hused => hlocal trivial j hj hused) trivial
  | drop => exact iff_of_true (fun j hj hused => hlocal trivial j hj hused) trivial
  | tick => exact iff_of_true (fun j hj hused => hlocal trivial j hj hused) trivial

theorem Idle.exec_of (hidle : s.Idle) {p : ℕ} (hold : (s.tcp.tcbs j).sockFd.isSome)
    (hun : ((s.tcp.exec op).tcbs j).unacked ≤ (s.tcp.tcbs j).unacked + s.moved op j)
    (hbytes : (s.exec op).bytes j = s.bytes j) : ¬(s.exec op).Waiting j p := by
  rintro ⟨-, hp, hle⟩
  rw [hbytes] at hp
  rw [exec_count hold] at hle
  have hun : ((s.exec op).tcp.tcbs j).unacked ≤ (s.tcp.tcbs j).unacked + s.moved op j := hun
  exact hidle j p ⟨hold, hp, by omega⟩

theorem exec_bytes (hold : (s.tcp.tcbs j).sockFd.isSome) :
    (s.exec op).bytes j = match op with
      | .send .. => s.bytes j ++ List.range' (s.count j) (s.moved op j)
      | _ => s.bytes j := by
  have hno : ¬(s.tcp.tcbs j).sockFd.isNone = true := by
    rw [isNone_iff_eq_none]
    exact isSome_iff_ne_none.1 hold
  exact if_neg hno

theorem Inv.idle_exec (h : s.Inv) (hidle : s.Idle) (hfit : s.Fits op) :
    (s.exec op).Idle ↔ s.Quiet op := by
  have hfree : ∀ {j p}, (s.tcp.tcbs j).sockFd = none → ¬(s.exec op).Waiting j p := by
    rintro j p hnone ⟨-, hp, -⟩
    rw [(exec_opened hnone).2] at hp
    cases hp
  have hlocal : op.Local → ∀ {j p}, (s.tcp.tcbs j).sockFd.isSome →
      (s.exec op).bytes j = s.bytes j → ¬(s.exec op).Waiting j p := by
    intro hop j p hold hbytes hw
    have huna := ((h j hold).step (Tcp.exec_step s.tcp hop j) hold hw.1).2
    refine hidle.exec_of hold ?_ hbytes hw
    unfold Tcb.unacked moved
    rw [huna]
    exact ahead_le _ _ _
  have hsome : ∀ {j}, (s.tcp.tcbs j).sockFd ≠ none → (s.tcp.tcbs j).sockFd.isSome :=
    fun hne => isSome_iff_ne_none.2 hne
  cases op with
  | send fd buf link =>
    refine ⟨fun hafter ⟨i, hf, htake⟩ => ?_, fun hquiet j p => ?_⟩
    · -- the first byte taken waits
      have hold : (s.tcp.tcbs i).sockFd.isSome := by rw [Tcp.find_sockFd hf]; rfl
      have hsending := h i hold
      obtain ⟨n, hn, hnxt, hpos⟩ := Tcp.send_moves hf buf link (by have := hsending.mss; omega)
      have hn0 : 0 < n := hpos.2 ⟨i, hf, htake⟩
      obtain ⟨-, huna, -⟩ := hsending.sent (Tcp.send_sent fd buf link s.tcp i)
      obtain ⟨hmoved, hun, -, -⟩ := hsending.advance htake.1 hn
      have hmoved : s.moved (.send fd buf link) i = n := by
        rw [← hmoved, ← hnxt]
        rfl
      have hun : ((s.tcp.send fd buf link).2.tcbs i).unacked = (s.tcp.tcbs i).unacked + n := by
        rw [← hun]
        unfold Tcb.unacked
        rw [huna, hnxt]
        rfl
      refine hafter i (s.count i) ⟨?_, ?_, ?_⟩
      · have hfd := (Tcp.send_sent fd buf link s.tcp i).same_state.1
        show ((s.tcp.send fd buf link).2.tcbs i).sockFd.isSome
        rw [hfd]
        exact hold
      · rw [exec_bytes hold, hmoved]
        exact mem_append_right _ (mem_range'_1.2 ⟨le_rfl, by omega⟩)
      · rw [exec_count hold, hmoved]
        show _ - ((s.tcp.send fd buf link).2.tcbs i).unacked ≤ _
        omega
    · by_cases hnone : (s.tcp.tcbs j).sockFd = none
      · exact hfree hnone
      · have hold := hsome hnone
        have hmoved : s.moved (.send fd buf link) j = 0 := by
          show ahead _ ((s.tcp.send fd buf link).2.tcbs j).sndNxt = 0
          by_cases hf : s.tcp.find fd = some j
          · obtain ⟨n, -, hnxt, hpos⟩ := Tcp.send_moves hf buf link
              (by have := (h j hold).mss; omega)
            have hn0 : n = 0 := Nat.eq_zero_of_not_pos fun hn => hquiet (hpos.1 hn)
            rw [hnxt, hn0, Tcp.advance_zero, ahead_self]
          · rw [Tcp.send_other hf, ahead_self]
        refine hlocal trivial hold ?_
        rw [exec_bytes hold, hmoved]
        exact append_nil _
  | segment fd tp link =>
    refine iff_of_true (fun j p hw => ?_) trivial
    by_cases hnone : (s.tcp.tcbs j).sockFd = none
    · exact hfree hnone hw
    · have hold := hsome hnone
      obtain ⟨-, -, hle⟩ := h.segment hfit hold hw.1
      exact hidle.exec_of hold (le_trans hle (Nat.le_add_right _ _)) (exec_bytes hold) hw
  | _ =>
    refine iff_of_true (fun j p hw => ?_) trivial
    by_cases hnone : (s.tcp.tcbs j).sockFd = none
    · exact hfree hnone hw
    · exact hlocal trivial (hsome hnone) (exec_bytes (hsome hnone)) hw

/-- What a step does is lawful, and every byte can be sent again after it. -/
def StepLawful (s : SendRun) (op : Tcp.Op) : Prop := s.OrderLawful op ∧ (s.exec op).Retained

/-- A segment acknowledges only what was sent, and a call takes no byte. -/
def Meets (s : SendRun) (op : Tcp.Op) : Prop := s.Fits op ∧ s.Quiet op

/-- Any run. -/
def Run : SendRun → SendRun → Prop := Runs (fun _ _ => True) exec

/-- A run of segments that fit. -/
def FittingRun : SendRun → SendRun → Prop := Runs Fits exec

/-- A run of segments that fit, and of calls that take no byte. -/
def MeetingRun : SendRun → SendRun → Prop := Runs Meets exec

theorem MeetingRun.idle {s₀ : SendRun} (h₀ : s₀.Start) (h : s₀.MeetingRun s) : s.Inv ∧ s.Idle :=
  Runs.invariant (P := fun s => s.Inv ∧ s.Idle)
    (fun _ op hs hop => ⟨hs.1.exec op hop.1, (hs.1.idle_exec hs.2 hop.1).2 hop.2⟩) h
    ⟨h₀.inv, h₀.idle⟩

/-- In every run whose segments acknowledge only what was sent the numbers stay in order, a step is
lawful for them if and only if its segment fits, and the bytes can be sent again exactly when none
waits; where no call takes a byte that is always so. -/
theorem sendRun_ordered {s₀ : SendRun} (h₀ : s₀.Start) (h : s₀.FittingRun s) :
    s.Safe ∧ (∀ op, s.OrderLawful op ↔ s.Fits op) ∧ (s.Retained ↔ s.Idle) ∧
      (s₀.MeetingRun s → s.Retained ∧ ∀ op, s.StepLawful op ↔ s.Meets op) := by
  have hinv := Runs.invariant (fun _ op hs hop => Inv.exec hs op hop) h h₀.inv
  refine ⟨hinv.safe, hinv.orderLawful_iff, retained_iff s, fun hmeets => ?_⟩
  have hidle := (hmeets.idle h₀).2
  refine ⟨(retained_iff s).2 hidle, fun op => ?_⟩
  unfold StepLawful Meets
  rw [hinv.orderLawful_iff, retained_iff]
  exact and_congr_right fun hfit => hinv.idle_exec hidle hfit

/-! ### Samples -/

/-- Nothing is open. -/
def boot : SendRun := ⟨.boot, fun _ => 0, fun _ => []⟩

/-- Socket 3 connects with the number 1000, and is answered. -/
def opened : SendRun :=
  (boot.exec (.connect 3 0x0A000002 80 1000 0 true)).exec
    (.segment 3 (Tcp.synAck 233) fun _ => true)

/-- Socket 3 sends a byte. -/
def sent : SendRun := opened.exec (.send 3 [65] fun _ => true)

theorem boot_start : boot.Start := ⟨fun _ => rfl⟩

theorem opened_run : boot.FittingRun opened := by
  refine ((Runs.refl boot).tail _ trivial).tail _ fun j seg hf hp => ?_
  rw [Tcp.synAck_parse] at hp
  obtain rfl := some.inj hp
  have hfind : (boot.exec (.connect 3 0x0A000002 80 1000 0 true)).tcp.find 3 = some 0 := by
    decide +kernel
  rw [hfind] at hf
  obtain rfl := some.inj hf
  have hnum : ahead ((boot.exec (.connect 3 0x0A000002 80 1000 0 true)).tcp.tcbs 0).sndUna
      (be32 (Tcp.synAck 233) 8) ≤
        ((boot.exec (.connect 3 0x0A000002 80 1000 0 true)).tcp.tcbs 0).unacked := by
    decide +kernel
  exact fun _ _ _ => hnum

theorem sent_waiting : sent.Waiting 0 1 := by
  refine ⟨?_, ?_, ?_⟩ <;> decide +kernel

/-- The byte is in order, but it cannot be sent again. -/
theorem sent_ordered : sent.Safe ∧ ¬sent.Retained := by
  obtain ⟨hsafe, -, hiff, -⟩ := sendRun_ordered boot_start (opened_run.tail _ trivial : boot.FittingRun sent)
  exact ⟨hsafe, fun h => hiff.1 h 0 1 sent_waiting⟩

/-- So bytes are not always kept. -/
theorem not_always_retained : ¬ ∀ s₀ s : SendRun, s₀.Start → s₀.Run s →
    s.Safe ∧ s.Retained ∧ ∀ op, s.OrderLawful op := by
  intro h
  have hrun : boot.Run sent := (opened_run.mono fun _ _ _ => trivial).tail _ trivial
  exact Tcb.not_retains _ _ ((h boot sent boot_start hrun).2.1 0 1 sent_waiting)

end SendRun

end Ridux
