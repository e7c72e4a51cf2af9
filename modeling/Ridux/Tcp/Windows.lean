import Ridux.Lib.Serial
import Ridux.Tcp.Stack

/-!
# What a connection has under way

* `Tcb.Sending`: the numbers and the windows of a connection that has used so many numbers;
* `Tcb.Sending.onSegment`, `Tcb.Sending.step`: a segment that acknowledges what was sent keeps it, and
  so does the local side;
* `Tcb.Retains`: the frames by which a byte can be sent again.
-/

namespace Ridux

open Lib List

namespace Tcb

/-- How much was sent and not acknowledged. -/
def unacked (b : Tcb) : ℕ := ahead b.sndUna b.sndNxt

/-- The acknowledged number only moves to one that the segment acknowledges and that was sent. -/
def AckLawful (b : Tcb) (seg : Segment) (b' : Tcb) : Prop :=
  b'.sndUna = b.sndUna ∨
    seg.has tcpAck = true ∧ b'.sndUna = seg.ack ∧ ahead b.sndUna seg.ack ≤ b.unacked

/-- The segment acknowledges only what was sent, where the engine believes it. -/
def AckMeets (b : Tcb) (seg : Segment) : Prop :=
  seg.has tcpRst = false → seg.has tcpAck = true →
    (b.state = .synSent ∧ seg.has tcpSyn = true ∨
      b.state = .established ∧ b.sndUna.toNat < seg.ack.toNat) →
    ahead b.sndUna seg.ack ≤ b.unacked

/-- The bounds on the congestion window. -/
structure Paced (b : Tcb) : Prop where
  low : 5 * 1460 ≤ b.cwnd.toNat
  high : b.cwnd.toNat ≤ 10 ^ 8
  slow : b.ccState = .slowStart →
    b.ssthresh.toNat = 65535 ∧ b.cwnd.toNat ≤ 65535 + b.unacked

/-- What holds of a connection that has used `count` numbers. -/
structure Sending (b : Tcb) (count : ℕ) : Prop where
  state : b.state ≠ .synRcvd
  next : b.sndNxt = b.iss + BitVec.ofNat 32 count
  behind : b.unacked ≤ count
  order : b.unacked ≤ 65536
  mss : 536 ≤ b.mss.toNat
  wnd : b.sndWnd.toNat ≤ 65535
  room : b.state = .synSent ∨ b.canSend = true → b.unacked ≤ 65535
  syn : b.state = .synSent → b.sndUna = b.iss ∧ b.sndNxt = b.iss + 1 ∧ b.cwnd.toNat = 14600 ∧
    b.ssthresh.toNat = 65535
  paced : b.state = .synSent ∨ b.canSend = true → b.Paced
  cwnd : b.cwnd ≠ 0

variable {b b' : Tcb} {count : ℕ} {seg : Segment}

/-! ### Segments -/

theorem mss_mul_mss : tcp7MssDefault * tcp7MssDefault = 2131600 := by decide

theorem two_mul_mss : 2 * tcp7MssDefault = 2920 := by decide

theorem three_mul_mss : 3 * tcp7MssDefault = 4380 := by decide

/-- What an acknowledgement does to the number and to the windows. -/
theorem takeAck_cases (ack : Seq) (b : Tcb) :
    b.sndUna.toNat < ack.toNat ∧ (b.takeAck ack).sndUna = ack ∧
        (b.ccState = .slowStart ∧ (b.takeAck ack).cwnd = b.cwnd + (ack - b.sndUna) ∧
            (b.takeAck ack).ssthresh = b.ssthresh ∧
            ((b.takeAck ack).ccState = .slowStart →
              (b.takeAck ack).cwnd.toNat < b.ssthresh.toNat) ∨
          b.ccState ≠ .slowStart ∧ (b.takeAck ack).ccState ≠ .slowStart ∧
            (b.takeAck ack).cwnd = b.cwnd + 2131600 / b.cwnd) ∨
      ¬b.sndUna.toNat < ack.toNat ∧ (b.takeAck ack).sndUna = b.sndUna ∧
        ((b.takeAck ack).cwnd = b.cwnd ∧ (b.takeAck ack).ssthresh = b.ssthresh ∧
            (b.takeAck ack).ccState = b.ccState ∨
          (b.takeAck ack).ccState ≠ .slowStart ∧
            (b.takeAck ack).cwnd =
              (if (b.cwnd / 2).toNat < (2920 : BitVec 32).toNat then 2920 else b.cwnd / 2) +
                4380) := by
  unfold takeAck
  simp only [mss_mul_mss, two_mul_mss, three_mul_mss]
  by_cases hnew : b.sndUna.toNat < ack.toNat
  · rw [if_pos hnew]
    refine .inl ⟨hnew, ?_⟩
    by_cases hslow : b.ccState = .slowStart
    · rw [if_pos hslow]
      refine ⟨rfl, .inl ⟨hslow, rfl, rfl, fun hcc => ?_⟩⟩
      dsimp only at hcc ⊢
      by_contra hge
      rw [if_pos (not_lt.1 hge)] at hcc
      cases hcc
    · rw [if_neg hslow]
      exact ⟨rfl, .inr ⟨hslow, hslow, rfl⟩⟩
  · rw [if_neg hnew]
    refine .inr ⟨hnew, ?_⟩
    by_cases hdup : ack = b.sndUna
    · rw [if_pos hdup]
      by_cases hfast : 3 ≤ (b.dupAcks + 1).toNat
      · rw [if_pos hfast]
        exact ⟨rfl, .inr ⟨CcState.noConfusion, rfl⟩⟩
      · rw [if_neg hfast]
        exact ⟨rfl, .inl ⟨rfl, rfl, rfl⟩⟩
    · rw [if_neg hdup]
      exact ⟨rfl, .inl ⟨rfl, rfl, rfl⟩⟩

theorem Paced.takeAck (h : b.Paced) (hroom : b.unacked ≤ 65535) {ack : Seq}
    (hack : b.sndUna.toNat < ack.toNat → ahead b.sndUna ack ≤ b.unacked) :
    (b.takeAck ack).Paced ∧ (b.takeAck ack).unacked ≤ b.unacked := by
  have hlow := h.low
  have hhigh := h.high
  have hnxt := (takeAck_same ack b).2.2.2.1
  have hun : (b.takeAck ack).unacked = ahead (b.takeAck ack).sndUna b.sndNxt :=
    congrArg (ahead _) hnxt
  rcases takeAck_cases ack b with ⟨hnew, huna, hcc⟩ | ⟨hnew, huna, hcc⟩
  · have hle := hack hnew
    have hless : (b.takeAck ack).unacked = b.unacked - ahead b.sndUna ack := by
      rw [hun, huna]
      exact ahead_sub hle
    have hmoved : (ack - b.sndUna).toNat = ahead b.sndUna ack := rfl
    refine ⟨?_, by omega⟩
    rcases hcc with ⟨hslow, hcwnd, hss, hnext⟩ | ⟨hslow, hcc, hcwnd⟩
    · obtain ⟨hthresh, hbound⟩ := h.slow hslow
      have hsum : (b.takeAck ack).cwnd.toNat = b.cwnd.toNat + ahead b.sndUna ack := by
        rw [hcwnd, BitVec.toNat_add, hmoved, Nat.mod_eq_of_lt (by omega)]
      refine ⟨by omega, by omega, fun hcc => ?_⟩
      have := hnext hcc
      rw [hss]
      exact ⟨hthresh, by omega⟩
    · -- the window grows by less than a segment
      have hdiv : (2131600 / b.cwnd).toNat = 2131600 / b.cwnd.toNat := by
        rw [BitVec.toNat_udiv]
        rfl
      have hquot : 2131600 / b.cwnd.toNat ≤ 2131600 / 7300 :=
        Nat.div_le_div_left hlow (by decide)
      have hsum : (b.takeAck ack).cwnd.toNat = b.cwnd.toNat + 2131600 / b.cwnd.toNat := by
        rw [hcwnd, BitVec.toNat_add, hdiv, Nat.mod_eq_of_lt (by omega)]
      have hzero : 2131600 < b.cwnd.toNat → 2131600 / b.cwnd.toNat = 0 := Nat.div_eq_of_lt
      refine ⟨by omega, ?_, fun hs => absurd hs hcc⟩
      by_cases hbig : 2131600 < b.cwnd.toNat
      · rw [hsum, hzero hbig]
        exact hhigh
      · omega
  · have hsame : (b.takeAck ack).unacked = b.unacked := by rw [hun, huna]; rfl
    refine ⟨?_, hsame.le⟩
    rcases hcc with ⟨hcwnd, hss, hcc⟩ | ⟨hcc, hcwnd⟩
    · refine ⟨hcwnd ▸ hlow, hcwnd ▸ hhigh, fun hs => ?_⟩
      rw [hss, hcwnd, hsame]
      exact h.slow (hcc ▸ hs)
    · have hhalf : (b.cwnd / 2).toNat = b.cwnd.toNat / 2 := by
        rw [BitVec.toNat_udiv]
        rfl
      have hsum : (b.takeAck ack).cwnd.toNat =
          (if b.cwnd.toNat / 2 < 2920 then 2920 else b.cwnd.toNat / 2) + 4380 := by
        have hmin : (2920 : BitVec 32).toNat = 2920 := rfl
        rw [hcwnd, BitVec.toNat_add, hhalf, hmin]
        split_ifs
        · rfl
        · rw [hhalf]
          exact Nat.mod_eq_of_lt (show b.cwnd.toNat / 2 + 4380 < 2 ^ 32 by omega)
      refine ⟨?_, ?_, fun hs => absurd hs hcc⟩ <;> rw [hsum] <;> split_ifs <;> omega

/-- The sending side of a block is left alone. -/
structure SameSend (b b' : Tcb) : Prop where
  iss : b'.iss = b.iss
  sndUna : b'.sndUna = b.sndUna
  sndNxt : b'.sndNxt = b.sndNxt
  cwnd : b'.cwnd = b.cwnd
  ssthresh : b'.ssthresh = b.ssthresh
  ccState : b'.ccState = b.ccState

theorem SameSend.unacked (h : b.SameSend b') : b'.unacked = b.unacked := by
  unfold Tcb.unacked
  rw [h.sndUna, h.sndNxt]

theorem SameSend.paced (h : b.SameSend b') (hp : b.Paced) : b'.Paced := by
  refine ⟨h.cwnd ▸ hp.low, h.cwnd ▸ hp.high, fun hs => ?_⟩
  rw [h.ssthresh, h.cwnd, h.unacked]
  exact hp.slow (h.ccState ▸ hs)

theorem negotiate_sndWnd_le (h : b.sndWnd.toNat ≤ 65535) : (b.negotiate seg).sndWnd.toNat ≤ 65535 := by
  unfold negotiate
  dsimp only
  split_ifs
  · exact h
  · have := seg.wnd.isLt
    rw [BitVec.toNat_setWidth]
    omega

theorem onSegment_peer (seg : Segment) (b : Tcb) :
    (b.onSegment seg).tcb.sndWnd = (b.negotiate seg).sndWnd ∧
      (b.onSegment seg).tcb.mss = mssOption seg b.mss := by
  have hack : ∀ c : Tcb, (c.takeAck seg.ack).sndWnd = c.sndWnd ∧
      (c.takeAck seg.ack).mss = c.mss := by
    intro c
    unfold takeAck
    dsimp only
    split_ifs <;> exact ⟨rfl, rfl⟩
  have hreceived : ∀ c : Tcb, (c.received seg).1.sndWnd = c.sndWnd ∧
      (c.received seg).1.mss = c.mss := by
    intro c
    unfold received takeFin takeData
    dsimp only
    split_ifs <;> exact ⟨rfl, rfl⟩
  unfold onSegment
  dsimp only
  by_cases hrst : seg.has tcpRst = true
  · rw [if_pos hrst]
    exact ⟨rfl, rfl⟩
  · rw [if_neg hrst]
    cases hs : b.state with
    | established =>
      simp only [negotiate_state, hs]
      rw [onEstablished_tcb]
      split_ifs
      · rw [(hack _).1, (hack _).2]
        exact hreceived _
      · exact hreceived _
    | synSent =>
      simp only [negotiate_state, hs, onSynSent]
      split_ifs <;> exact ⟨rfl, rfl⟩
    | closed =>
      simp only [negotiate_state, hs]
      exact ⟨trivial, rfl⟩
    | listen =>
      simp only [negotiate_state, hs]
      exact ⟨trivial, rfl⟩
    | closeWait =>
      simp only [negotiate_state, hs]
      exact ⟨trivial, rfl⟩
    | timeWait =>
      simp only [negotiate_state, hs]
      exact ⟨trivial, rfl⟩
    | _ =>
      simp only [negotiate_state, hs]
      split_ifs <;> exact ⟨rfl, rfl⟩

theorem onSegment_other (hrst : seg.has tcpRst = false) (hsyn : b.state ≠ .synSent)
    (hrcvd : b.state ≠ .synRcvd) (hest : b.state ≠ .established) :
    b.SameSend (b.onSegment seg).tcb ∧ (b.onSegment seg).tcb.state ≠ .synSent ∧
      (b.onSegment seg).tcb.state ≠ .synRcvd ∧
      ((b.onSegment seg).tcb.canSend = true → b.canSend = true) := by
  have hsame : b.SameSend (b.negotiate seg) := ⟨rfl, rfl, rfl, rfl, rfl, rfl⟩
  unfold onSegment canSend
  dsimp only
  rw [if_neg (by rw [hrst]; exact Bool.false_ne_true)]
  cases hs : b.state with
  | synSent => exact absurd hs hsyn
  | synRcvd => exact absurd hs hrcvd
  | established => exact absurd hs hest
  | finWait1 =>
    simp only [negotiate_state, hs]
    split_ifs
    · exact ⟨⟨rfl, rfl, rfl, rfl, rfl, rfl⟩, by simp [finTo, acked], by simp [finTo, acked],
        by simp [finTo, acked]⟩
    · exact ⟨⟨rfl, rfl, rfl, rfl, rfl, rfl⟩, by simp, by simp, by simp⟩
    · exact ⟨⟨rfl, rfl, rfl, rfl, rfl, rfl⟩, by simp [finTo, acked], by simp [finTo, acked],
        by simp [finTo, acked]⟩
    · exact ⟨hsame, by simp [hs], by simp [hs], by simp [hs]⟩
  | finWait2 =>
    simp only [negotiate_state, hs]
    split_ifs
    · exact ⟨⟨rfl, rfl, rfl, rfl, rfl, rfl⟩, by simp [finTo, acked], by simp [finTo, acked],
        by simp [finTo, acked]⟩
    · exact ⟨hsame, by simp [hs], by simp [hs], by simp [hs]⟩
  | closing =>
    simp only [negotiate_state, hs]
    split_ifs
    · exact ⟨⟨rfl, rfl, rfl, rfl, rfl, rfl⟩, by simp, by simp, by simp⟩
    · exact ⟨hsame, by simp [hs], by simp [hs], by simp [hs]⟩
  | lastAck =>
    simp only [negotiate_state, hs]
    split_ifs
    · exact ⟨⟨rfl, rfl, rfl, rfl, rfl, rfl⟩, by simp [released], by simp [released],
        by simp [released]⟩
    · exact ⟨hsame, by simp [hs], by simp [hs], by simp [hs]⟩
  | closed =>
    simp only [negotiate_state, hs]
    exact ⟨hsame, by simp, by simp, by simp⟩
  | listen =>
    simp only [negotiate_state, hs]
    exact ⟨hsame, by simp, by simp, by simp⟩
  | closeWait =>
    simp only [negotiate_state, hs]
    exact ⟨hsame, by simp, by simp, by simp⟩
  | timeWait =>
    simp only [negotiate_state, hs]
    exact ⟨hsame, by simp, by simp, by simp⟩

theorem Sending.same (h : b.Sending count) (hs : b.SameSend b') (hmss : 536 ≤ b'.mss.toNat)
    (hwnd : b'.sndWnd.toNat ≤ 65535) (hrcvd : b'.state ≠ .synRcvd)
    (hsyn : b'.state = .synSent → b.state = .synSent)
    (hcan : b'.canSend = true → b.state = .synSent ∨ b.canSend = true) : b'.Sending count where
  state := hrcvd
  next := by rw [hs.sndNxt, hs.iss, h.next]
  behind := hs.unacked ▸ h.behind
  order := hs.unacked ▸ h.order
  mss := hmss
  wnd := hwnd
  room hb := hs.unacked ▸ h.room (hb.elim (fun hb => .inl (hsyn hb)) hcan)
  syn hb := by
    rw [hs.sndUna, hs.iss, hs.sndNxt, hs.cwnd, hs.ssthresh]
    exact h.syn (hsyn hb)
  paced hb := hs.paced (h.paced (hb.elim (fun hb => .inl (hsyn hb)) hcan))
  cwnd := hs.cwnd ▸ h.cwnd

theorem Paced.cwnd_ne_zero (h : b.Paced) : b.cwnd ≠ 0 := by
  have := h.low
  rintro hz
  rw [hz] at this
  exact absurd this (by decide)

theorem received_sameSend (seg : Segment) (b : Tcb) : b.SameSend (b.received seg).1 := by
  obtain ⟨-, hnxt, huna, hiss, hcwnd, hss, hcc⟩ := received_same seg b
  exact ⟨hiss, huna, hnxt, hcwnd, hss, hcc⟩

theorem negotiate_sameSend (seg : Segment) (b : Tcb) : b.SameSend (b.negotiate seg) :=
  ⟨rfl, rfl, rfl, rfl, rfl, rfl⟩

theorem SameSend.trans {c d : Tcb} (h : b.SameSend c) (h' : c.SameSend d) : b.SameSend d :=
  ⟨h'.iss.trans h.iss, h'.sndUna.trans h.sndUna, h'.sndNxt.trans h.sndNxt, h'.cwnd.trans h.cwnd,
    h'.ssthresh.trans h.ssthresh, h'.ccState.trans h.ccState⟩

theorem onSegment_synSent (hrst : seg.has tcpRst = false) (hs : b.state = .synSent) :
    if seg.has tcpSyn = true ∧ seg.has tcpAck = true then
      let b' := (b.onSegment seg).tcb
      b'.state = .established ∧ b'.iss = b.iss ∧ b'.sndUna = seg.ack ∧ b'.sndNxt = b.sndNxt ∧
        b'.cwnd = b.cwnd ∧ b'.ssthresh = b.ssthresh
    else (b.onSegment seg).tcb = b.negotiate seg := by
  have hno : ¬seg.has tcpRst = true := by
    rw [hrst]
    exact Bool.false_ne_true
  unfold onSegment
  dsimp only
  rw [if_neg hno]
  simp only [negotiate_state, hs, onSynSent]
  split_ifs
  · exact ⟨rfl, rfl, rfl, rfl, rfl, rfl⟩
  · rfl

theorem onSegment_established (hrst : seg.has tcpRst = false) (hs : b.state = .established) :
    (b.onSegment seg).tcb = ((b.negotiate seg).onEstablished seg).tcb := by
  unfold onSegment
  dsimp only
  rw [if_neg (by rw [hrst]; exact Bool.false_ne_true)]
  simp only [negotiate_state, hs]

/-- **An acknowledgement of what was sent keeps the order.** -/
theorem Sending.onSegment (h : b.Sending count) (hm : b.AckMeets seg)
    (hused : (b.onSegment seg).tcb.sockFd.isSome) :
    (b.onSegment seg).tcb.Sending count ∧ (b.onSegment seg).tcb.sndNxt = b.sndNxt := by
  have hwnd : (b.onSegment seg).tcb.sndWnd.toNat ≤ 65535 := by
    rw [(onSegment_peer seg b).1]
    exact negotiate_sndWnd_le h.wnd
  have hmss : 536 ≤ (b.onSegment seg).tcb.mss.toNat := by
    rw [(onSegment_peer seg b).2]
    exact (mssOption_bounds seg b.mss).2 h.mss
  cases hrst : seg.has tcpRst with
  | true =>
    have hreleased : (b.onSegment seg).tcb.sockFd = none := by
      unfold Tcb.onSegment
      dsimp only
      rw [if_pos hrst]
      rfl
    rw [hreleased] at hused
    cases hused
  | false =>
    by_cases hsyn : b.state = .synSent
    · have hstep := onSegment_synSent hrst hsyn
      obtain ⟨huna, hnxt, hcwnd, hss⟩ := h.syn hsyn
      split_ifs at hstep with hboth
      · obtain ⟨hstate, hiss, huna', hnxt', hcwnd', hss'⟩ := hstep
        have hle := hm hrst hboth.2 (.inl ⟨hsyn, hboth.1⟩)
        have hless : (b.onSegment seg).tcb.unacked = b.unacked - ahead b.sndUna seg.ack := by
          unfold Tcb.unacked
          rw [huna', hnxt']
          exact ahead_sub hle
        have hroom := h.room (.inl hsyn)
        have hbehind := h.behind
        have hpaced : (b.onSegment seg).tcb.Paced := by
          refine ⟨?_, ?_, fun _ => ⟨?_, ?_⟩⟩
          · rw [hcwnd', hcwnd]
            decide
          · rw [hcwnd', hcwnd]
            decide
          · rw [hss', hss]
          · rw [hcwnd', hcwnd]
            omega
        refine ⟨⟨?_, ?_, ?_, ?_, hmss, hwnd, fun _ => ?_, fun hc => ?_, fun _ => hpaced,
          hpaced.cwnd_ne_zero⟩, hnxt'⟩
        · rw [hstate]
          exact TcpState.noConfusion
        · rw [hnxt', hiss, h.next]
        · omega
        · omega
        · omega
        · rw [hstate] at hc
          cases hc
      · rw [hstep] at hwnd hmss ⊢
        exact ⟨h.same (negotiate_sameSend seg b) hmss hwnd h.state (fun _ => hsyn) (fun _ => .inl hsyn),
          rfl⟩
    · by_cases hest : b.state = .established
      · have hcan : b.canSend = true := by
          unfold canSend
          rw [hest]
          rfl
        have hsame := (negotiate_sameSend seg b).trans (received_sameSend seg _)
        have hstates := onEstablished_state seg (b := b.negotiate seg) hest
        rw [onSegment_established hrst hest] at hwnd hmss ⊢
        have hnot : ∀ c : Tcb, c.state = (((b.negotiate seg).onEstablished seg).tcb).state →
            c.state ≠ .synRcvd ∧ c.state ≠ .synSent := by
          intro c hc
          rw [hc, hstates]
          split_ifs <;> exact ⟨TcpState.noConfusion, TcpState.noConfusion⟩
        obtain ⟨hrcvd, hnosyn⟩ := hnot _ rfl
        rw [onEstablished_tcb] at hwnd hmss hrcvd hnosyn ⊢
        split_ifs at hwnd hmss hrcvd hnosyn ⊢ with hack
        · -- the acknowledgement is looked at
          have hmeets : ((b.negotiate seg).received seg).1.sndUna.toNat < seg.ack.toNat →
              ahead ((b.negotiate seg).received seg).1.sndUna seg.ack ≤
                ((b.negotiate seg).received seg).1.unacked := by
            rw [hsame.sndUna, hsame.unacked]
            exact fun hlt => hm hrst hack (.inr ⟨hest, hlt⟩)
          have hroom := h.room (.inr hcan)
          have hbehind := h.behind
          obtain ⟨hpaced, hless⟩ := (hsame.paced (h.paced (.inr hcan))).takeAck
            (hsame.unacked ▸ hroom) hmeets
          rw [hsame.unacked] at hless
          obtain ⟨-, -, -, hnxt, hiss⟩ := takeAck_same seg.ack ((b.negotiate seg).received seg).1
          refine ⟨⟨hrcvd, ?_, hless.trans hbehind, hless.trans h.order, hmss, hwnd, fun _ => hless.trans hroom,
            fun hc => absurd hc hnosyn, fun _ => hpaced, hpaced.cwnd_ne_zero⟩, ?_⟩
          · rw [hnxt, hiss, hsame.sndNxt, hsame.iss, h.next]
          · rw [hnxt, hsame.sndNxt]
        · exact ⟨h.same hsame hmss hwnd hrcvd (fun hc => absurd hc hnosyn) (fun _ => .inr hcan),
            hsame.sndNxt⟩
      · obtain ⟨hsame, hnosyn, hrcvd, hcan⟩ := onSegment_other hrst hsyn h.state hest
        exact ⟨h.same hsame hmss hwnd hrcvd (fun hc => absurd hc hnosyn) (fun hc => .inr (hcan hc)),
          hsame.sndNxt⟩

/-! ### The local side -/

theorem Sending.opened (fd : ℕ) (iss : Seq) (now : ℕ) : (Tcb.opened fd iss now).Sending 1 := by
  have hun : (Tcb.opened fd iss now).unacked = 1 := ahead_ofNat (by decide)
  have hcwnd : (Tcb.opened fd iss now).cwnd = 14600 := by
    show tcp7InitialCwnd * tcp7MssDefault = 14600
    decide
  have hpaced : (Tcb.opened fd iss now).Paced := by
    refine ⟨?_, ?_, fun _ => ⟨rfl, ?_⟩⟩
    · rw [hcwnd]
      decide
    · rw [hcwnd]
      decide
    · rw [hcwnd]
      exact le_trans (by decide) (Nat.le_add_right _ _)
  refine ⟨?_, rfl, hun.le, ?_, ?_, ?_, fun _ => ?_, fun _ => ⟨rfl, rfl, ?_, rfl⟩, fun _ => hpaced,
    hpaced.cwnd_ne_zero⟩
  · exact TcpState.noConfusion
  · omega
  · show 536 ≤ tcp7MssDefault.toNat
    decide
  · show (65535 : BitVec 32).toNat ≤ 65535
    decide
  · omega
  · rw [hcwnd]
    rfl

theorem avail_le (b : Tcb) : b.avail = 0 ∨
    b.unacked + b.avail ≤ b.cwnd.toNat ∧ b.unacked + b.avail ≤ b.sndWnd.toNat := by
  unfold avail unacked ahead window
  split_ifs with hwnd hlt hlt
  · refine .inr ?_
    rw [BitVec.toNat_sub_of_le hlt.le]
    omega
  · exact .inl rfl
  · refine .inr ?_
    rw [BitVec.toNat_sub_of_le hlt.le]
    omega
  · exact .inl rfl

theorem Sending.advance (h : b.Sending count) (hcan : b.canSend = true) {n : ℕ} (hn : n ≤ b.avail) :
    ahead b.sndNxt (b.advance n).sndNxt = n ∧ (b.advance n).unacked = b.unacked + n ∧
      (n ≠ 0 → b.unacked + n ≤ b.cwnd.toNat ∧ b.unacked + n ≤ b.sndWnd.toNat) ∧
      b.unacked + n ≤ 65535 := by
  have hroom := h.room (.inr hcan)
  have hwnd := h.wnd
  have hle := b.avail_le
  have hbound : b.unacked + n ≤ 65535 := by omega
  refine ⟨ahead_ofNat (by omega), ahead_add ?_, fun hpos => ?_, hbound⟩
  · exact show b.unacked + n < 2 ^ 32 by omega
  · omega

theorem Sending.sent {b' : Tcb} (h : b.Sending count) (hs : b.Sent b') :
    b'.Sending (count + ahead b.sndNxt b'.sndNxt) ∧ b'.sndUna = b.sndUna ∧
      (b'.sndNxt ≠ b.sndNxt →
        b'.unacked ≤ b.cwnd.toNat ∧ b'.unacked ≤ b.sndWnd.toNat) := by
  have hgo : ∀ {n : ℕ} {c : Tcb}, b.canSend = true → n ≤ b.avail → c.sndNxt = (b.advance n).sndNxt →
      c.state = b.state → c.iss = b.iss → c.sndUna = b.sndUna → c.sndWnd = b.sndWnd →
      c.mss = b.mss → c.Paced → c.Sending (count + ahead b.sndNxt c.sndNxt) ∧ c.sndUna = b.sndUna ∧
      (c.sndNxt ≠ b.sndNxt →
        c.unacked ≤ b.cwnd.toNat ∧ c.unacked ≤ b.sndWnd.toNat) := by
    intro n c hcan hn hnxt hstate hiss huna hwnd hmss hpaced
    obtain ⟨hmoved, hun, hwindow, hroom⟩ := h.advance hcan hn
    have hcun : c.unacked = b.unacked + n := by
      rw [← hun]
      unfold unacked
      rw [hnxt, huna]
      rfl
    have hnosyn : b.state ≠ .synSent := by
      intro hc
      rw [canSend, hc] at hcan
      simp at hcan
    rw [hnxt, hmoved]
    refine ⟨⟨hstate ▸ h.state, ?_, ?_, by omega, hmss ▸ h.mss, hwnd ▸ h.wnd, fun _ => by omega,
      fun hc => absurd (hstate ▸ hc) hnosyn, fun _ => hpaced, hpaced.cwnd_ne_zero⟩, huna,
      fun hne => ?_⟩
    · rw [hnxt, hiss, BitVec.ofNat_add, ← BitVec.add_assoc, ← h.next]
      rfl
    · have := h.behind
      omega
    · have hpos : n ≠ 0 := by
        rintro rfl
        exact hne (by rw [Tcp.advance_zero])
      rw [hcun]
      exact hwindow hpos
  cases hs with
  | same =>
    rw [ahead_self]
    exact ⟨h, rfl, fun hne => absurd rfl hne⟩
  | sent n _ hcan hn =>
    obtain ⟨_, hun, _, _⟩ := h.advance hcan hn
    have hp := h.paced (.inr hcan)
    refine hgo hcan hn rfl rfl rfl rfl rfl rfl ⟨hp.low, hp.high, fun hslow => ?_⟩
    have := hp.slow hslow
    rw [hun]
    exact ⟨this.1, by show b.cwnd.toNat ≤ _; omega⟩
  | grown n _ hcan hn =>
    obtain ⟨_, hun, hwindow, hroom⟩ := h.advance hcan hn
    have hp := h.paced (.inr hcan)
    have hlow := hp.low
    have hhigh := hp.high
    by_cases hslow : b.ccState = .slowStart
    · obtain ⟨hthresh, hbound⟩ := hp.slow hslow
      have hsum : (b.cwnd + BitVec.ofNat 32 n).toNat = b.cwnd.toNat + n := by
        rw [BitVec.toNat_add, BitVec.toNat_ofNat, Nat.mod_eq_of_lt (by omega),
          Nat.mod_eq_of_lt (by omega)]
      have hgrow : (b.advance n).grow n =
          { b.advance n with cwnd := b.cwnd + BitVec.ofNat 32 n } := if_pos hslow
      rw [hgrow]
      refine hgo hcan hn rfl rfl rfl rfl rfl rfl ⟨?_, ?_, fun _ => ⟨hthresh, ?_⟩⟩
      · show _ ≤ (b.cwnd + BitVec.ofNat 32 n).toNat
        omega
      · show (b.cwnd + BitVec.ofNat 32 n).toNat ≤ _
        omega
      · show (b.cwnd + BitVec.ofNat 32 n).toNat ≤ 65535 + (b.advance n).unacked
        omega
    · -- the window grows by at most a segment
      have hprod : (BitVec.ofNat 32 n * tcp7MssDefault / b.cwnd).toNat = n * 1460 / b.cwnd.toNat := by
        have hmss : tcp7MssDefault.toNat = 1460 := by decide
        rw [BitVec.toNat_udiv, BitVec.toNat_mul, BitVec.toNat_ofNat, hmss,
          Nat.mod_eq_of_lt (show n < 2 ^ 32 by omega), Nat.mod_eq_of_lt (by omega)]
      have hquot : n * 1460 / b.cwnd.toNat ≤ 1460 := by
        by_cases hpos : n = 0
        · subst hpos
          simp
        · have := (hwindow hpos).1
          refine Nat.div_le_of_le_mul ?_
          exact Nat.mul_le_mul_right 1460 (show n ≤ b.cwnd.toNat by omega)
      have hzero : 95681100 < b.cwnd.toNat → n * 1460 / b.cwnd.toNat = 0 :=
        fun hbig => Nat.div_eq_of_lt (by omega)
      have hsum : (b.cwnd + BitVec.ofNat 32 n * tcp7MssDefault / b.cwnd).toNat =
          b.cwnd.toNat + n * 1460 / b.cwnd.toNat := by
        rw [BitVec.toNat_add, hprod, Nat.mod_eq_of_lt (by omega)]
      have hgrow : (b.advance n).grow n =
          { b.advance n with cwnd := b.cwnd + BitVec.ofNat 32 n * tcp7MssDefault / b.cwnd } :=
        if_neg hslow
      rw [hgrow]
      refine hgo hcan hn rfl rfl rfl rfl rfl rfl ⟨?_, ?_, fun hs => absurd hs hslow⟩
      · show _ ≤ (b.cwnd + BitVec.ofNat 32 n * tcp7MssDefault / b.cwnd).toNat
        omega
      · show (b.cwnd + BitVec.ofNat 32 n * tcp7MssDefault / b.cwnd).toNat ≤ _
        by_cases hbig : 95681100 < b.cwnd.toNat
        · rw [hsum, hzero hbig]
          exact hhigh
        · omega

theorem ticked_same (h : b.Sending count) (now : ℕ) (hused : (b.ticked now).tcb.sockFd.isSome) :
    b.SameSend (b.ticked now).tcb ∧ (b.ticked now).tcb.state = b.state ∧
      (b.ticked now).tcb.mss = b.mss ∧ (b.ticked now).tcb.sndWnd = b.sndWnd := by
  have hrefl : b.SameSend b := ⟨rfl, rfl, rfl, rfl, rfl, rfl⟩
  unfold ticked at hused ⊢
  cases hs : b.state with
  | synSent =>
    rw [hs] at hused
    obtain ⟨huna, hnxt, -, -⟩ := h.syn hs
    unfold retrySyn at hused ⊢
    dsimp only at hused ⊢
    split_ifs at hused ⊢
    · exact ⟨hrefl, hs, rfl, rfl⟩
    · cases hused
    all_goals exact ⟨⟨rfl, huna.symm, hnxt.symm, rfl, rfl, rfl⟩, hs, rfl, rfl⟩
  | synRcvd => exact absurd hs h.state
  | timeWait =>
    rw [hs] at hused
    unfold countTimeWait at hused ⊢
    dsimp only at hused ⊢
    split_ifs at hused ⊢
    · cases hused
    · exact ⟨⟨rfl, rfl, rfl, rfl, rfl, rfl⟩, hs, rfl, rfl⟩
    · cases hused
    · exact ⟨⟨rfl, rfl, rfl, rfl, rfl, rfl⟩, hs, rfl, rfl⟩
  | _ =>
    dsimp only
    unfold countDelack
    dsimp only
    split_ifs <;> exact ⟨⟨rfl, rfl, rfl, rfl, rfl, rfl⟩, hs, rfl, rfl⟩

theorem Sending.close (h : b.Sending count) (hused : b.closed.1.sockFd.isSome) :
    b.closed.1.Sending (count + ahead b.sndNxt b.closed.1.sndNxt) ∧
      b.closed.1.sndUna = b.sndUna := by
  have hgo : ∀ state : TcpState, b.canSend = true → state ≠ .synRcvd → state ≠ .synSent →
      state ≠ .established → state ≠ .closeWait →
      ({ b with state := state, sndNxt := b.sndNxt + 1 } : Tcb).Sending
        (count + ahead b.sndNxt (b.sndNxt + 1)) := by
    intro state hcan h₁ h₂ h₃ h₄
    have hroom := h.room (.inr hcan)
    have hbehind := h.behind
    have hone : ahead b.sndNxt (b.sndNxt + 1) = 1 := ahead_ofNat (by decide)
    have hun : ahead b.sndUna (b.sndNxt + 1) = b.unacked + 1 :=
      ahead_add (show b.unacked + 1 < 2 ^ 32 by omega)
    have hcan' : ¬(state = .synSent ∨
        ({ b with state := state, sndNxt := b.sndNxt + 1 } : Tcb).canSend = true) := by
      simp only [canSend, decide_eq_true_eq]
      tauto
    rw [hone]
    refine ⟨h₁, ?_, ?_, ?_, h.mss, h.wnd, fun hc => absurd hc hcan', fun hc => absurd hc h₂,
      fun hc => absurd hc hcan', h.cwnd⟩
    · show b.sndNxt + 1 = b.iss + BitVec.ofNat 32 (count + 1)
      rw [BitVec.ofNat_add, ← BitVec.add_assoc, ← h.next]
      rfl
    · show ahead b.sndUna (b.sndNxt + 1) ≤ _
      omega
    · show ahead b.sndUna (b.sndNxt + 1) ≤ _
      omega
  unfold closed at hused ⊢
  cases hs : b.state with
  | established =>
    refine ⟨hgo _ ?_ TcpState.noConfusion TcpState.noConfusion TcpState.noConfusion
      TcpState.noConfusion, rfl⟩
    simp [canSend, hs]
  | closeWait =>
    refine ⟨hgo _ ?_ TcpState.noConfusion TcpState.noConfusion TcpState.noConfusion
      TcpState.noConfusion, rfl⟩
    simp [canSend, hs]
  | _ =>
    rw [hs] at hused
    cases hused

theorem Sending.step (h : b.Sending count) (hs : b.Step b') (hold : b.sockFd.isSome)
    (hused : b'.sockFd.isSome) :
    b'.Sending (count + ahead b.sndNxt b'.sndNxt) ∧ b'.sndUna = b.sndUna := by
  cases hs with
  | opened fd iss now hnone =>
    rw [hnone] at hold
    cases hold
  | sent hsent => exact ⟨(h.sent hsent).1, (h.sent hsent).2.1⟩
  | closed => exact h.close hused
  | released => cases hused
  | ticked now =>
    obtain ⟨hsame, hstate, hmss, hwnd⟩ := ticked_same h now hused
    rw [hsame.sndNxt, ahead_self]
    refine ⟨h.same hsame (hmss ▸ h.mss) (hwnd ▸ h.wnd) (hstate ▸ h.state) (fun hc => hstate ▸ hc)
      fun hc => .inr ?_, hsame.sndUna⟩
    rw [canSend, hstate] at hc
    exact hc

/-! ### What can be sent again -/

/-- The frames of a connection that the application does not bring about. -/
inductive Emits (b : Tcb) : Frame → Prop
  | segment {f : Frame} (seg : Segment) : f ∈ (b.onSegment seg).frames → Emits b f
  | ticked {f : Frame} (now : ℕ) : f ∈ (b.ticked now).frames → Emits b f

/-- What becomes of a connection that the application leaves alone. -/
inductive Later (b : Tcb) : Tcb → Prop
  | refl : Later b b
  | segment {c : Tcb} (seg : Segment) : Later b c → Later b (c.onSegment seg).tcb
  | ticked {c : Tcb} (now : ℕ) : Later b c → Later b (c.ticked now).tcb

/-- The byte with the number `n` can be sent again: by now or later, for some answer of the peer. -/
def Retains (b : Tcb) (n : Seq) : Prop :=
  ∃ c f, b.Later c ∧ c.Emits f ∧ ahead f.seq n < f.data.length

theorem onSegment_silent (seg : Segment) (b : Tcb) : ∀ f ∈ (b.onSegment seg).frames, f.data = [] := by
  have hone : ∀ {f g : Frame}, g.data = [] → f ∈ [g] → f.data = [] := by
    intro f g hg hf
    rw [mem_singleton.1 hf]
    exact hg
  have hnone : ∀ {f : Frame}, f ∈ ([] : List Frame) → f.data = [] := fun hf => by cases hf
  have hsyn : ∀ c : Tcb, ∀ f ∈ (c.onSynSent seg).frames, f.data = [] := by
    intro c f hf
    unfold onSynSent at hf
    split_ifs at hf
    · exact hone rfl hf
    · exact hnone hf
  have hest : ∀ c : Tcb, ∀ f ∈ (c.onEstablished seg).frames, f.data = [] := by
    intro c f hf
    rcases mem_append.1 hf with hf | hf
    · split_ifs at hf <;> first | exact hone rfl hf | exact hnone hf
    · split_ifs at hf <;> first | exact hone rfl hf | exact hnone hf
  intro f hf
  unfold onSegment at hf
  dsimp only at hf
  by_cases hrst : seg.has tcpRst = true
  · rw [if_pos hrst] at hf
    exact hnone hf
  · rw [if_neg hrst] at hf
    cases hs : b.state with
    | synSent =>
      simp only [negotiate_state, hs] at hf
      exact hsyn _ f hf
    | established =>
      simp only [negotiate_state, hs] at hf
      exact hest _ f hf
    | synRcvd =>
      simp only [negotiate_state, hs] at hf
      split_ifs at hf <;> exact hnone hf
    | finWait1 =>
      simp only [negotiate_state, hs] at hf
      split_ifs at hf
      · exact hone rfl hf
      · exact hnone hf
      · exact hone rfl hf
      · exact hnone hf
    | finWait2 =>
      simp only [negotiate_state, hs] at hf
      split_ifs at hf
      · exact hone rfl hf
      · exact hnone hf
    | closing =>
      simp only [negotiate_state, hs] at hf
      split_ifs at hf <;> exact hnone hf
    | lastAck =>
      simp only [negotiate_state, hs] at hf
      split_ifs at hf <;> exact hnone hf
    | _ =>
      simp only [negotiate_state, hs] at hf
      exact hnone hf

theorem ticked_silent (now : ℕ) (b : Tcb) : ∀ f ∈ (b.ticked now).frames, f.data = [] := by
  have hsyn : ∀ c : Tcb, ∀ f ∈ (c.retrySyn now).frames, f.data = [] := by
    intro c f hf
    unfold retrySyn at hf
    dsimp only at hf
    split_ifs at hf
    · cases hf
    · cases hf
    all_goals
      rw [mem_singleton.1 hf]
      rfl
  have hdelack : ∀ c : Tcb, ∀ f ∈ c.countDelack.frames, f.data = [] := by
    intro c f hf
    unfold countDelack at hf
    dsimp only at hf
    split_ifs at hf <;> first | (rw [mem_singleton.1 hf]; rfl) | cases hf
  intro f hf
  unfold ticked at hf
  split at hf
  · exact hsyn _ f hf
  · exact hsyn _ f hf
  · cases hf
  · exact hdelack _ f hf

theorem Emits.silent {f : Frame} (h : b.Emits f) : f.data = [] := by
  cases h with
  | segment seg hf => exact onSegment_silent seg b f hf
  | ticked now hf => exact ticked_silent now b f hf

theorem not_retains (b : Tcb) (n : Seq) : ¬b.Retains n := by
  rintro ⟨c, f, -, hf, hlt⟩
  rw [hf.silent] at hlt
  exact absurd hlt (Nat.not_lt_zero _)

end Tcb

end Ridux
