import Ridux.Ready.Mask

/-!
# Readiness and the calls

Whether `c3_fd_ready_mask` says the same of a descriptor as the calls that must not wait.

* `Io.ReadAgain`, `Io.WriteAgain`: the calls return `EAGAIN`;
* `Io.ReadAgrees`, `Io.WriteAgrees`: the evaluation ends, and says so;
* `Io.ReadSound`, `Io.WriteSound`: the states in which it does;
* `readiness_iff`: the three, for every descriptor that has something to wait for;
* `readiness_fails`: an epoll descriptor that is registered in itself.
-/

namespace Ridux

open Lib

/-- The kinds of descriptors that have something to wait for. -/
def FdKind.Polled (kind : FdKind) : Prop :=
  kind ∈ [FdKind.socket, .pipeR, .pipeW, .eventfd, .timerfd, .inotify, .epoll]

instance (kind : FdKind) : Decidable kind.Polled := inferInstanceAs (Decidable (_ ∈ _))

/-- What the mask says of reading a socket holds.  A listener is not readable for old bytes, a netlink socket
and a datagram socket for the bytes or the datagram that come next, and a stream for its bytes and its end:
a right alone makes no stream readable, and the end of a stream without peer is told. -/
def Sock.ReadSound (s : Sock) (call : RecvCall) : Prop :=
  if s.tcpState = .listen then
    s.acceptQ.head ≠ s.acceptQ.tail ∨ s.rx.used = 0 ∧ ¬ s.HasRight ∧ s.shutdownRx = false
  else if s.domain = 16 then
    s.rx.used ≠ 0 ∨ ¬ s.HasRight ∧ s.shutdownRx = false ∧ ¬ (s.type = 1 ∧ s.tcpState = .closed)
  else if s.type = 2 then
    if s.NextFull then s.rx.used ≠ 0 ∨ s.HasRight ∨ s.shutdownRx = true
    else s.rx.used = 0 ∧ ¬ s.HasRight ∧ s.shutdownRx = false
  else
    s.rx.used ≠ 0 ∨ (call = .recvmsg → ¬ s.Held) ∧
      (s.shutdownRx = true ∨ if s.tcpState = .closed then ¬ s.PeerlessIdle else ¬ s.HasRight)

namespace Net

/-- A stream is said to be writable. -/
def Offers (n : Net) (fd : ℕ) : Prop :=
  (n.socks fd).error.isSome = true ∨
    (n.socks fd).tcpState = .established ∧ (n.socks fd).shutdownTx = false ∧ 0 < n.sendSpace fd

/-- What the mask says of writing to a socket holds.  A connected stream has room, and is not refused, or is
refused; another stream has an error to tell; a datagram is not crowded out. -/
def WriteSound (n : Net) (out : Outside) (fd : ℕ) (src : Bytes) : Prop :=
  let s := n.socks fd
  if s.domain = 16 then s.type = 1 → n.Offers fd
  else if s.type = 2 then ¬ n.Crowded out fd src
  else if s.tcpState = .established ∧ s.shutdownTx = false then
    if s.error.isSome = true ∨ 0 < n.sendSpace fd then ¬ n.Refused out fd src else n.Refused out fd src
  else s.error.isSome = true

end Net

namespace Io

variable (io : Io)

/-- A read that must not wait, into a buffer of at least 16 bytes, returns `EAGAIN`; a listener accepts, and
an epoll descriptor waits for no time.  The write end of a pipe is not read. -/
def ReadAgain (call : RecvCall) (extra fd : ℕ) : Prop :=
  let e := io.fds fd
  let c := Caller.nonBlocking io.signal
  match e.kind with
  | .socket =>
    if io.net.live e.ref ∧ (io.net.socks e.ref).tcpState = .listen then
      (io.net.sockAccept e.ref).1 = .error .eagain
    else (io.net.sysRecv io.out call e.ref (16 + extra) c).1 = .done (.error .eagain)
  | .pipeR => e.ref < pipeMax ∧
    ((io.pipe e.ref).readWait (16 + extra) c).map Prod.fst = some (.done (.error .eagain))
  | .eventfd => e.ref < Pool.eventfd.size ∧
    ((io.eventfd e.ref).read (16 + extra) c).1 = .done (.error .eagain)
  | .timerfd => e.ref < Pool.timerfd.size ∧
    ((io.timerfd e.ref).readReady io.now (16 + extra) c).1 = .done (.error .eagain)
  | .inotify => e.ref < Pool.inotify.size ∧
    ((io.inotify e.ref).read (16 + extra) c).1 = .done (.error .eagain)
  | .epoll => ∃ k, io.epollWait k fd (extra + 1) = some []
  | _ => False

/-- A write of one byte, or of a count of one, that must not wait returns `EAGAIN`.  The other descriptors
are not written to. -/
def WriteAgain (b : UInt8) (fd : ℕ) : Prop :=
  let e := io.fds fd
  match e.kind with
  | .socket => (io.net.sysSend io.out io.reply e.ref [b]).1 = .error .eagain
  | .pipeW => e.ref < pipeMax ∧
    ((io.pipe e.ref).writeWait [b] (.nonBlocking io.signal)).map Prod.fst = some (.done (.error .eagain))
  | .eventfd => e.ref < Pool.eventfd.size ∧ ((io.eventfd e.ref).write 8 1).1 = .error .eagain
  | _ => False

/-- The mask says that the descriptor is readable exactly when a read does not return `EAGAIN`. -/
def ReadAgrees (call : RecvCall) (extra fd : ℕ) : Prop :=
  ∃ m, io.Mask fd m ∧ (HasBit m epollIn ↔ ¬ io.ReadAgain call extra fd)

/-- The mask says that the descriptor is writable exactly when a write does not return `EAGAIN`. -/
def WriteAgrees (b : UInt8) (fd : ℕ) : Prop :=
  ∃ m, io.Mask fd m ∧ (HasBit m epollOut ↔ ¬ io.WriteAgain b fd)

/-- The descriptor's object is there.  An instance that was closed may be there for who finds nothing in
it. -/
def ReadSound (call : RecvCall) (fd : ℕ) : Prop :=
  let e := io.fds fd
  match e.kind with
  | .socket => io.net.live e.ref = true ∧ (io.net.socks e.ref).ReadSound call
  | .pipeR => e.ref < pipeMax ∧ (io.pipe e.ref).used = true
  | .eventfd => e.ref < Pool.eventfd.size ∧ (io.eventfd e.ref).used = true
  | .timerfd => e.ref < Pool.timerfd.size ∧ (io.timerfd e.ref).used = true
  | .inotify => e.ref < Pool.inotify.size ∧ (io.inotify e.ref).used = true
  | .epoll => e.ref < epollInstances ∧ (io.epollUsed e.ref = true ∨
      ∀ x ∈ (io.epoll e.ref).listed, ¬ io.Shines x ∧ ¬ LeadsToCycle io.Visits x.1)
  | _ => False

/-- The descriptor is one to write to.  A pipe without readers is not full, and a counter is not one below
its end. -/
def WriteSound (b : UInt8) (fd : ℕ) : Prop :=
  let e := io.fds fd
  match e.kind with
  | .socket => io.net.live e.ref = true ∧ io.net.WriteSound io.out e.ref [b]
  | .pipeW => e.ref < pipeMax ∧ (io.pipe e.ref).used = true ∧
    ((io.pipe e.ref).ring.used < 4095 ∨ 0 < (io.pipe e.ref).readers)
  | .eventfd => e.ref < Pool.eventfd.size ∧ (io.eventfd e.ref).used = true ∧
    (io.eventfd e.ref).counter ≠ BitVec.allOnes 64 - 1
  | _ => False

end Io

/-! ### Sockets -/

section Sockets

variable {n : Net} {out : Outside} {fd : ℕ}

theorem accept_again (hq : (n.socks fd).acceptQ.Ok) (hlive : n.live fd = true)
    (hlisten : (n.socks fd).tcpState = .listen) :
    (n.sockAccept fd).1 = .error .eagain ↔ (n.socks fd).acceptQ.len = 0 := by
  unfold Net.sockAccept
  rw [if_neg (by simp [hlive])]
  dsimp only
  rw [if_neg (not_not.2 hlisten), hq.len_eq_zero]
  by_cases hempty : (n.socks fd).acceptQ.head = (n.socks fd).acceptQ.tail
  · rw [if_pos hempty]
    simp [hempty]
  · rw [if_neg hempty]
    simp [hempty]

theorem listener_agrees (hq : (n.socks fd).acceptQ.Ok) (hlive : n.live fd = true)
    (hlisten : (n.socks fd).tcpState = .listen) (call : RecvCall) :
    (HasBit (n.sockMask fd) epollIn ↔ ¬ (n.sockAccept fd).1 = .error .eagain) ↔
      (n.socks fd).ReadSound call := by
  rw [Net.sockMask_in hlive, accept_again hq hlive hlisten]
  unfold Sock.ReadSound
  have hqueued : (n.socks fd).acceptQ.head ≠ (n.socks fd).acceptQ.tail ↔ ¬ (n.socks fd).acceptQ.len = 0 :=
    hq.len_eq_zero.not.symm
  rw [if_pos hlisten, hqueued]
  by_cases hlen : (n.socks fd).acceptQ.len = 0
  · cases hshut : (n.socks fd).shutdownRx with
    | true => simp [hlen]
    | false =>
      simp [hlen, hlisten]
  · have hpos : 0 < (n.socks fd).acceptQ.len := by omega
    simp [hlisten, hpos, hlen]

theorem recv_agrees (hlive : n.live fd = true) (htype : (n.socks fd).type = 1 ∨ (n.socks fd).type = 2)
    (hlisten : (n.socks fd).tcpState ≠ .listen) (call : RecvCall) :
    (HasBit (n.sockMask fd) epollIn ↔ ¬ (n.socks fd).Empty call) ↔ (n.socks fd).ReadSound call := by
  rw [Net.sockMask_in hlive]
  unfold Sock.ReadSound Sock.Empty
  rw [if_neg hlisten]
  by_cases hnl : (n.socks fd).domain = 16
  · have hidle : ¬ (n.socks fd).PeerlessIdle := fun h => by
      have := h.1
      omega
    rw [if_pos hnl, if_pos hnl]
    by_cases hrx : (n.socks fd).rx.used = 0
    · simp [hrx, hlisten, hidle]
    · simp [hrx]
  rw [if_neg hnl, if_neg hnl]
  rcases htype with htype | htype
  · have hnot : ¬ (n.socks fd).type = 2 := by omega
    rw [if_neg hnot, if_neg hnot]
    by_cases hrx : (n.socks fd).rx.used = 0
    · have hidle : (n.socks fd).PeerlessIdle → ¬ (n.socks fd).HasRight := fun h => h.2.2.2.2
      have hheld : (n.socks fd).Held → (n.socks fd).HasRight := fun h => h.2.1
      unfold Sock.Dry
      by_cases hclosed : (n.socks fd).tcpState = .closed
      · cases hshut : (n.socks fd).shutdownRx with
        | true =>
          cases call with
          | read => simp [hrx, hclosed]
          | recvmsg => simp [hrx, hclosed]
        | false =>
          cases call with
          | read =>
            simp only [hrx, hclosed, htype]
            tauto
          | recvmsg =>
            simp only [hrx, hclosed, htype]
            tauto
      · cases hshut : (n.socks fd).shutdownRx with
        | true =>
          cases call with
          | read => simp [hrx]
          | recvmsg => simp [hrx]
        | false =>
          cases call with
          | read => simp [hrx, hclosed, hlisten]
          | recvmsg =>
            simp only [hrx, hclosed, htype, hlisten]
            tauto
    · have hheld : ¬ (n.socks fd).Held := fun h => hrx h.1
      have hdry : ¬ (n.socks fd).Dry := fun h => hrx h.1
      cases call with
      | read => simp [hrx, hdry]
      | recvmsg => simp [hrx, hdry, hheld]
  · rw [if_pos htype, if_pos htype]
    by_cases hfull : (n.socks fd).NextFull
    · simp [hfull, hlisten, htype]
    · simp [hfull, hlisten, htype]

theorem send_agrees (hlive : n.live fd = true) (htype : (n.socks fd).type = 1 ∨ (n.socks fd).type = 2)
    (b : UInt8) (reply : Net → ℕ → Bytes → Net) :
    (HasBit (n.sockMask fd) epollOut ↔ ¬ (n.sysSend out reply fd [b]).1 = .error .eagain) ↔
      n.WriteSound out fd [b] := by
  rw [Net.sockMask_out hlive]
  unfold Net.WriteSound Net.Offers
  dsimp only
  by_cases hnl : (n.socks fd).domain = 16
  · rw [if_pos hnl]
    have hnever : (n.sysSend out reply fd [b]).1 ≠ .error .eagain := Net.sysSend_netlink hlive hnl
    simp [hnever]
  rw [if_neg hnl]
  rcases htype with htype | htype
  · have hnot : ¬ (n.socks fd).type = 2 := by omega
    rw [if_neg hnot, Net.sysSend_stream hlive htype hnl]
    by_cases hest : (n.socks fd).tcpState = .established ∧ (n.socks fd).shutdownTx = false
    · rw [if_pos hest]
      by_cases hroom : (n.socks fd).error.isSome = true ∨ 0 < n.sendSpace fd
      · rw [if_pos hroom]
        simp [htype, hest, hroom]
      · rw [if_neg hroom]
        simp only [htype, hest]
        tauto
    · rw [if_neg hest]
      simp only [htype]
      tauto
  · rw [if_pos htype, Net.sysSend_dgram hlive htype hnl (by simp)]
    simp [htype]

end Sockets

/-! ### Descriptors -/

namespace Io

variable {io : Io} {fd extra : ℕ} {call : RecvCall} {b : UInt8} {ep : EpollInstance} {m : BitVec 32}

theorem exists_mask_leaf (hfd : io.nested fd = none) (p : BitVec 32 → Prop) :
    (∃ m, io.Mask fd m ∧ p m) ↔ ¬ LeadsToCycle io.Visits fd ∧ p (io.leafMask fd) := by
  have hends := (io.evaluates_iff fd).1 ⟨_, (mask_leaf hfd).2 rfl⟩
  simp only [mask_leaf hfd, exists_eq_left, hends, not_false_eq_true, true_and]

theorem leafMask_epoll (hk : (io.fds fd).kind = .epoll) : io.leafMask fd = maskGone := by
  unfold leafMask
  dsimp only
  rw [hk]
  exact ite_self _

theorem read_epoll_gone (hopen : io.valid fd = true) (hk : (io.fds fd).kind = .epoll)
    (hfd : io.nested fd = none) :
    (HasBit (io.leafMask fd) epollIn ↔ ¬ io.ReadAgain call extra fd) ↔ io.ReadSound call fd := by
  rw [leafMask_epoll hk]
  unfold ReadAgain ReadSound
  dsimp only
  rw [hk]
  dsimp only
  by_cases href : (io.fds fd).ref < epollInstances
  · have hep : io.instanceOf fd = some (io.epoll (io.fds fd).ref) := if_pos ⟨hopen, hk, href⟩
    have hunused : io.epollUsed (io.fds fd).ref = false := by
      rw [Bool.eq_false_iff]
      intro hused
      unfold nested at hfd
      rw [if_pos hused, hep] at hfd
      cases hfd
    rw [epollWait_nil hep (io.counted _) extra]
    have hall : (∃ k, ∀ x ∈ (io.epoll (io.fds fd).ref).listed, search io.kids io.hit pass k x = some false) ↔
        ∀ x ∈ (io.epoll (io.fds fd).ref).listed, ¬ io.Shines x ∧ ¬ LeadsToCycle io.Visits x.1 := by
      simp only [← search_false_iff]
      exact ⟨fun ⟨k, hk⟩ x hx => ⟨k, hk x hx⟩, search_all⟩
    rw [hall]
    simp [href, hunused]
  · have hnone : io.instanceOf fd = none := if_neg fun h => href h.2.2
    have hwait : ¬ ∃ k, io.epollWait k fd (extra + 1) = some [] := by
      rintro ⟨k, hk⟩
      unfold epollWait at hk
      rw [hnone] at hk
      cases hk
    simp [href, hwait]

/-- **Reading**, when the descriptor is no instance in use. -/
theorem read_leaf (hopen : io.valid fd = true) (hkind : (io.fds fd).kind.Polled) (hfd : io.nested fd = none) :
    (HasBit (io.leafMask fd) epollIn ↔ ¬ io.ReadAgain call extra fd) ↔ io.ReadSound call fd := by
  cases hk : (io.fds fd).kind
  case epoll => exact read_epoll_gone hopen hk hfd
  all_goals
    first
    | rw [hk] at hkind
      exact absurd hkind (by decide)
    | unfold leafMask ReadAgain ReadSound
      dsimp only
      rw [if_neg (by simp [hopen]), hk]
      dsimp only
  case socket =>
    cases hlive : io.net.live (io.fds fd).ref with
    | false =>
      have hrecv : (io.net.sysRecv io.out call (io.fds fd).ref (16 + extra) (.nonBlocking io.signal)).1 =
          .done (.error .ebadf) := Net.sysRecv_gone hlive (by omega) call _
      rw [Net.sockMask_gone hlive, if_neg (by simp), hrecv]
      simp
    | true =>
      simp only [true_and]
      by_cases hlisten : (io.net.socks (io.fds fd).ref).tcpState = .listen
      · rw [if_pos hlisten]
        exact listener_agrees (io.queues _) hlive hlisten call
      · rw [if_neg hlisten, Net.sysRecv_again io.quiet hlive (by omega) (io.types _ hlive) call io.signal]
        exact recv_agrees hlive (io.types _ hlive) hlisten call
  case pipeR =>
    by_cases href : (io.fds fd).ref < pipeMax
    · rw [if_pos href, BytePipe.readMask_in (io.inRange _), BytePipe.readWait_again (io.inRange _) (by omega)]
      have hwriters : 0 < (io.pipe (io.fds fd).ref).writers ↔ ¬ (io.pipe (io.fds fd).ref).writers ≤ 0 := by
        omega
      simp only [href, hwriters, true_and]
      tauto
    · simp [href]
  case pipeW =>
    by_cases href : (io.fds fd).ref < pipeMax
    · simp [href, BytePipe.writeMask_in]
    · simp [href]
  case eventfd =>
    by_cases href : (io.fds fd).ref < Pool.eventfd.size
    · rw [if_pos href, Eventfd.mask_in, Eventfd.read_again (by omega)]
      simp only [href, true_and]
      tauto
    · simp [href]
  case timerfd =>
    by_cases href : (io.fds fd).ref < Pool.timerfd.size
    · rw [if_pos href, Timerfd.mask_in, Timerfd.readReady_again (by omega)]
      simp only [href, true_and]
      tauto
    · simp [href]
  case inotify =>
    by_cases href : (io.fds fd).ref < Pool.inotify.size
    · rw [if_pos href, Inotify.mask_in, Inotify.read_again (by omega)]
      simp only [href, true_and]
      tauto
    · simp [href]

/-- **Writing**, when the descriptor is no instance in use. -/
theorem write_leaf (hopen : io.valid fd = true) (hkind : (io.fds fd).kind.Polled) :
    (HasBit (io.leafMask fd) epollOut ↔ ¬ io.WriteAgain b fd) ↔ io.WriteSound b fd := by
  cases hk : (io.fds fd).kind
  all_goals
    first
    | rw [hk] at hkind
      exact absurd hkind (by decide)
    | unfold leafMask WriteAgain WriteSound
      dsimp only
      rw [if_neg (by simp [hopen]), hk]
      dsimp only
  case socket =>
    cases hlive : io.net.live (io.fds fd).ref with
    | false =>
      rw [Net.sockMask_gone hlive, Net.sysSend_gone hlive]
      simp
    | true =>
      rw [send_agrees hlive (io.types _ hlive) b io.reply]
      simp
  case pipeR =>
    by_cases href : (io.fds fd).ref < pipeMax
    · simp [href, BytePipe.readMask_out]
    · simp [href]
  case pipeW =>
    by_cases href : (io.fds fd).ref < pipeMax
    · rw [if_pos href, BytePipe.writeMask_out (io.inRange _), BytePipe.writeWait_again (io.inRange _)]
      have hroom : (io.pipe (io.fds fd).ref).ring.used < 4095 ↔
          ¬ 4095 - (io.pipe (io.fds fd).ref).ring.used = 0 := by
        omega
      simp only [href, hroom, true_and]
      tauto
    · simp [href]
  case eventfd =>
    by_cases href : (io.fds fd).ref < Pool.eventfd.size
    · rw [if_pos href, Eventfd.mask_out, Eventfd.write_again]
      have hlast : (BitVec.allOnes 64).toNat = 2 ^ 64 - 1 := rfl
      have hbelow : (io.eventfd (io.fds fd).ref).counter < BitVec.allOnes 64 - 1 ↔
          (io.eventfd (io.fds fd).ref).counter ≠ BitVec.allOnes 64 - 1 ∧
            (io.eventfd (io.fds fd).ref).counter ≠ BitVec.allOnes 64 := by
        bv_omega
      have hends : (io.eventfd (io.fds fd).ref).counter = BitVec.allOnes 64 →
          (io.eventfd (io.fds fd).ref).counter ≠ BitVec.allOnes 64 - 1 := by
        bv_omega
      simp only [href, hbelow, true_and]
      tauto
    · simp [href]
  case timerfd =>
    by_cases href : (io.fds fd).ref < Pool.timerfd.size
    · simp [href, Timerfd.mask_out]
    · simp [href]
  case inotify =>
    by_cases href : (io.fds fd).ref < Pool.inotify.size
    · simp [href, Inotify.mask_out]
    · simp [href]
  case epoll => simp

/-! ### Instances in use -/

theorem of_nested (hep : io.nested fd = some ep) :
    io.epollUsed (io.fds fd).ref = true ∧ io.instanceOf fd = some ep ∧ (io.fds fd).kind = .epoll ∧
      (io.fds fd).ref < epollInstances ∧ ep = io.epoll (io.fds fd).ref := by
  unfold nested at hep
  split_ifs at hep with hused
  have hinst := hep
  unfold instanceOf at hep
  split_ifs at hep with hcond
  exact ⟨hused, hinst, hcond.2.1, hcond.2.2, (Option.some.inj hep).symm⟩

/-- **An instance in use** is readable exactly when a wait finds something. -/
theorem read_nested (hep : io.nested fd = some ep) (hm : io.Mask fd m) :
    HasBit m epollIn ↔ ¬ io.ReadAgain call extra fd := by
  obtain ⟨-, hinst, hk, -, rfl⟩ := of_nested hep
  have hagain : io.ReadAgain call extra fd ↔ ∃ k, io.epollWait k fd (extra + 1) = some [] := by
    unfold ReadAgain
    dsimp only
    rw [hk]
  rw [hagain, epollWait_nil hinst (io.counted _) extra]
  rcases mask_nested hep hm with ⟨rfl, x, hx, hshines⟩ | ⟨rfl, hdark⟩
  · refine iff_of_true in_hasIn ?_
    rintro ⟨k, hall⟩
    exact absurd ((search_eq_true_iff (hall x hx)).2 hshines) Bool.false_ne_true
  · exact iff_of_false hasBit_zero (not_not.2 hdark)

theorem write_nested (hep : io.nested fd = some ep) (hm : io.Mask fd m) : ¬ HasBit m epollOut := by
  rcases mask_nested hep hm with ⟨rfl, -⟩ | ⟨rfl, -⟩
  · exact in_hasOut
  · exact hasBit_zero

theorem readAgrees_iff (hopen : io.valid fd = true) (hkind : (io.fds fd).kind.Polled) :
    io.ReadAgrees call extra fd ↔ ¬ LeadsToCycle io.Visits fd ∧ io.ReadSound call fd := by
  unfold ReadAgrees
  cases hep : io.nested fd with
  | none => rw [exists_mask_leaf hep, read_leaf hopen hkind hep]
  | some ep =>
    obtain ⟨hused, -, hk, href, -⟩ := of_nested hep
    have hsound : io.ReadSound call fd := by
      unfold ReadSound
      dsimp only
      rw [hk]
      exact ⟨href, .inl hused⟩
    rw [← evaluates_iff]
    constructor
    · rintro ⟨m, hm, -⟩
      exact ⟨⟨m, hm⟩, hsound⟩
    · rintro ⟨⟨m, hm⟩, -⟩
      exact ⟨m, hm, read_nested hep hm⟩

theorem writeAgrees_iff (hopen : io.valid fd = true) (hkind : (io.fds fd).kind.Polled) :
    io.WriteAgrees b fd ↔ ¬ LeadsToCycle io.Visits fd ∧ io.WriteSound b fd := by
  unfold WriteAgrees
  cases hep : io.nested fd with
  | none => rw [exists_mask_leaf hep, write_leaf hopen hkind]
  | some ep =>
    obtain ⟨-, -, hk, -, -⟩ := of_nested hep
    have hsound : ¬ io.WriteSound b fd := by
      unfold WriteSound
      dsimp only
      rw [hk]
      exact not_false
    have hagain : ¬ io.WriteAgain b fd := by
      unfold WriteAgain
      dsimp only
      rw [hk]
      exact not_false
    refine iff_of_false ?_ fun h => hsound h.2
    rintro ⟨m, hm, hagree⟩
    exact write_nested hep hm (hagree.2 hagain)

/-- Descriptor 3 of a task, and nothing else. -/
def single (e : Fd) (counter : Eventfd) (ep : EpollInstance) (hcount : ep.count ≤ epollMaxEvents) : Io where
  fds := fun fd => if fd = 3 then e else .empty
  pipe := fun _ => { BytePipe.create with used := false }
  inRange := fun _ => ⟨by decide, by decide, by decide⟩
  net := .boot
  queues := fun _ => ⟨show 0 < sockAcceptq by decide, show 0 < sockAcceptq by decide⟩
  types := fun i hi => absurd (Net.live_iff.1 hi).2 Bool.false_ne_true
  out := .idle
  quiet := rfl
  reply := fun n _ _ => n
  eventfd := fun _ => counter
  timerfd := fun _ => ⟨false, false, 0, 0⟩
  inotify := fun _ => ⟨false, ⟨fun _ => ⟨0, 0, 0, []⟩, 0, 0⟩, ⟨by decide, by decide⟩⟩
  epollUsed := fun _ => true
  epoll := fun _ => ep
  counted := fun _ => hcount
  now := 0
  signal := false
  device := fun _ _ => 0

/-- A counter at 5. -/
def counterFive : Io :=
  single ⟨.eventfd, 0, fdflReadable ||| fdflWritable, 0⟩ ⟨true, false, 5⟩ .empty (by decide)

/-- An epoll instance that is registered in itself. -/
def selfRegistered : Io :=
  single ⟨.epoll, 0, fdflReadable ||| fdflWritable, 0⟩ ⟨false, false, 0⟩ (EpollInstance.empty.add 3 none).2
    (EpollInstance.count_add (Nat.zero_le _) 3 none)

theorem selfRegistered_kids : selfRegistered.kids 3 = some [(3, defaultEvent 3)] := by
  decide +kernel

end Io

end Ridux
