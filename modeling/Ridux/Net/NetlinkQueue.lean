import Ridux.Lib.Room
import Ridux.Net.Netlink

/-!
# Netlink replies as messages

Every request that a buffer holds should be answered once, and every reply should come out whole and by
itself.  The ring keeps bytes, and no messages.

* `nlRequests`: the requests of a buffer, one behind the other;
* `mailStep`, `mailRun`: what a queue of messages gives for a run of calls;
* `nlStep`, `nlRun`: what the source gives;
* `SendHolds`, `RecvHolds`, `NlGood`: the calls for which the two agree;
* `netlink_exact`: a run agrees if and only if its calls do.
-/

namespace Ridux

open Lib List

/-- A call on a netlink socket. -/
inductive NlOp
  | send (iov : List Bytes)
  | recv (cap : ℕ) (peek trunc : Bool)

/-- A buffer begins with a whole request. -/
def NlWhole (buf : Bytes) : Prop :=
  nlHdrSize ≤ buf.length ∧ nlHdrSize ≤ (nlHdr buf).len.toNat ∧ (nlHdr buf).len.toNat ≤ buf.length

instance (buf : Bytes) : Decidable (NlWhole buf) := inferInstanceAs (Decidable (_ ∧ _ ∧ _))

/-- What stands in a buffer behind its first request and the padding of it. -/
def nlBehind (buf : Bytes) : Bytes := buf.drop (align4 (nlHdr buf).len.toNat)

/-- The requests of a buffer, up to where no whole request is found. -/
def nlRequests (buf : Bytes) : List NlHdr :=
  if _h : NlWhole buf then nlHdr buf :: nlRequests (nlBehind buf) else []
termination_by buf.length
decreasing_by
  obtain ⟨hsize, hmin, -⟩ := _h
  have hle := le_align4 (nlHdr buf).len.toNat
  unfold nlBehind
  rw [length_drop]
  unfold nlHdrSize at hsize hmin
  omega

theorem nlRequests_of_whole {buf : Bytes} (h : NlWhole buf) :
    nlRequests buf = nlHdr buf :: nlRequests (nlBehind buf) := by rw [nlRequests, dif_pos h]

theorem nlRequests_of_not {buf : Bytes} (h : ¬ NlWhole buf) : nlRequests buf = [] := by rw [nlRequests, dif_neg h]

section Runs

variable (protocol : ℤ)

/-- The messages of the answers to requests, in order. -/
def answers (reqs : List NlHdr) : List Bytes := reqs.flatMap (answer protocol)

/-- **A queue of messages**: all requests of a buffer are answered, and a message comes out whole; it stays if the
buffer is too short for it. -/
def mailStep (q : List Bytes) : NlOp → NlOut × List Bytes
  | .send iov => (.sent iov.flatten.length, q ++ answers protocol (nlRequests iov.flatten))
  | .recv cap peek _ =>
    match q with
    | [] => (.again, [])
    | m :: q' => if m.length ≤ cap then (.got m.length m false, if peek then q else q') else (.tooLong, q)

/-- What the calls of a run give on a queue of messages, each with the bytes that are queued behind it. -/
def mailRun : List Bytes → List NlOp → List (NlOut × Bytes)
  | _, [] => []
  | q, op :: ops => ((mailStep protocol q op).1, (mailStep protocol q op).2.flatten) ::
      mailRun (mailStep protocol q op).2 ops

def nlStep (rx : RxRing) : NlOp → NlOut × RxRing
  | .send iov => (.sent (netlinkSendmsg protocol iov rx).1, (netlinkSendmsg protocol iov rx).2)
  | .recv cap peek trunc => netlinkRecv cap peek trunc rx

/-- What the calls of a run give, each with the bytes that are queued behind it. -/
def nlRun : RxRing → List NlOp → List (NlOut × Bytes)
  | _, [] => []
  | rx, op :: ops => ((nlStep protocol rx op).1, (nlStep protocol rx op).2.contents) ::
      nlRun (nlStep protocol rx op).2 ops

/-! ### The calls that agree -/

/-- The buffer has a header that is taken for a request. -/
def HasHeader (buf : Bytes) : Prop := nlHdrSize ≤ buf.length ∧ nlHdrSize ≤ (nlHdr buf).len.toNat

instance (buf : Bytes) : Decidable (HasHeader buf) := inferInstanceAs (Decidable (_ ∧ _))

/-- **Requests that are answered**: the first one has its answer whole in the queue and the others ask for
nothing; or the first one is not whole, and nothing of an answer to it finds room. -/
def SendHolds (q : List Bytes) (buf : Bytes) : Prop :=
  HasHeader buf →
    ((nlHdr buf).len.toNat ≤ buf.length →
      q.flatten.length + (answer protocol (nlHdr buf)).flatten.length ≤ sockBufSize ∧
        ∀ r ∈ nlRequests (nlBehind buf), answer protocol r = []) ∧
    (buf.length < (nlHdr buf).len.toNat →
      ∀ m ∈ (answer protocol (nlHdr buf)).head?, sockBufSize < q.flatten.length + m.length)

/-- **Replies that come out whole and by themselves**: there is one reply only, and it fits. -/
def RecvHolds (q : List Bytes) (cap : ℕ) : Prop := q = [] ∨ ∃ m, q = [m] ∧ m.length ≤ cap

/-- The call does what it does on a queue of messages. -/
def NlHolds (q : List Bytes) : NlOp → Prop
  | .send iov => SendHolds protocol q iov.flatten
  | .recv cap _ _ => RecvHolds q cap

/-- All calls of a run do. -/
def NlGood : List Bytes → List NlOp → Prop
  | _, [] => True
  | q, op :: ops => NlHolds protocol q op ∧ NlGood (mailStep protocol q op).2 ops

end Runs

/-! ### Requests -/

variable {protocol : ℤ} {rx : RxRing} {q : List Bytes}

theorem nlGather_eq (iov : List Bytes) (total : ℕ) (got : Bytes) :
    nlGather iov total got = (total + iov.flatten.length, got ++ iov.flatten.take (nlHdrSize - got.length)) := by
  induction iov generalizing total got with
  | nil => rw [nlGather, flatten_nil, take_nil, append_nil]; rfl
  | cons base iov ih =>
    have hroom : nlHdrSize - (got ++ base.take (nlHdrSize - got.length)).length
        = nlHdrSize - got.length - base.length := by
      rw [length_append, length_take]
      omega
    rw [nlGather, ih, hroom, flatten_cons, length_append, take_append, append_assoc, Nat.add_assoc]

theorem nlHdr_take (b : Bytes) : nlHdr (b.take nlHdrSize) = nlHdr b := by
  simp only [nlHdr, nlHdrSize, drop_take, take_take]
  rfl

theorem netlinkSendmsg_eq (iov : List Bytes) (rx : RxRing) : netlinkSendmsg protocol iov rx = (iov.flatten.length,
    if HasHeader iov.flatten then nlQueueAll ((answer protocol (nlHdr iov.flatten)).map some) rx else rx) := by
  unfold netlinkSendmsg
  rw [nlGather_eq, ← nlReplies_eq]
  simp only [Nat.zero_add, nil_append, length_nil, Nat.sub_zero, nlHdr_take, length_take]
  generalize iov.flatten = buf
  have hmin : nlHdrSize ≤ min nlHdrSize buf.length ↔ nlHdrSize ≤ buf.length := by omega
  simp only [hmin]
  change _ = (buf.length, if nlHdrSize ≤ buf.length ∧ nlHdrSize ≤ (nlHdr buf).len.toNat then _ else rx)
  by_cases hnil : buf.length = 0
  · rw [if_pos hnil, if_neg (by unfold nlHdrSize; omega), hnil]
  · rw [if_neg hnil]
    split_ifs
    · rfl
    · rfl

theorem length_contents (rx : RxRing) : rx.contents.length = rx.used := by
  rw [Ring.contents, length_map, length_range]

/-- **What is queued**: the messages that find room, up to the first that does not. -/
theorem contents_queueAll {ms : List Bytes} (h : rx.used ≤ sockBufSize) :
    (nlQueueAll (ms.map some) rx).contents = rx.contents ++ (fitting (sockBufSize - rx.used) ms).flatten ∧
      (nlQueueAll (ms.map some) rx).used ≤ sockBufSize := by
  induction ms generalizing rx with
  | nil => exact ⟨(append_nil _).symm, h⟩
  | cons m ms ih =>
    rw [map_cons, nlQueueAll, nlRxPush, Nat.min_eq_left h, fitting]
    by_cases hm : m.length ≤ sockBufSize - rx.used
    · have hroom : rx.used + m.length ≤ 2 ^ sockBufBits := by
        change rx.used + m.length ≤ sockBufSize
        omega
      have hused : (rx.push m).used = rx.used + m.length := Ring.used_push (by decide) m rx hroom
      have hcontents : (rx.push m).contents = rx.contents ++ m := Ring.contents_push (by decide) m rx hroom
      have hfull : (rx.push m).used ≤ sockBufSize := by omega
      obtain ⟨hrest, hle⟩ := ih hfull
      rw [if_neg (Nat.not_lt.2 hm), if_pos hm]
      simp only
      refine ⟨?_, hle⟩
      rw [hrest, hcontents, hused, flatten_cons, append_assoc, Nat.sub_add_eq]
    · rw [if_pos (Nat.not_le.1 hm), if_neg hm]
      exact ⟨(append_nil _).symm, h⟩

/-! ### One call -/

/-- The ring holds the bytes of the queue, and no message is empty. -/
structure Queues (rx : RxRing) (q : List Bytes) : Prop where
  contents : rx.contents = q.flatten
  used_le : rx.used ≤ sockBufSize
  ne_nil : ∀ m ∈ q, m ≠ []

theorem Queues.used_eq (h : Queues rx q) : rx.used = q.flatten.length := by
  rw [← length_contents, h.contents]

theorem answers_ne_nil (reqs : List NlHdr) : ∀ m ∈ answers protocol reqs, m ≠ [] := by
  intro m hm
  obtain ⟨r, -, hr⟩ := mem_flatMap.1 hm
  exact answer_ne_nil hr

theorem answers_eq_nil_iff {reqs : List NlHdr} : answers protocol reqs = [] ↔ ∀ r ∈ reqs, answer protocol r = [] :=
  flatMap_eq_nil_iff

theorem contents_sendmsg (h : Queues rx q) (iov : List Bytes) : (netlinkSendmsg protocol iov rx).2.contents =
    q.flatten ++ (if HasHeader iov.flatten then
      fitting (sockBufSize - q.flatten.length) (answer protocol (nlHdr iov.flatten)) else []).flatten := by
  rw [netlinkSendmsg_eq]
  simp only
  split_ifs
  · rw [(contents_queueAll h.used_le).1, h.contents, h.used_eq]
  · rw [flatten_nil, append_nil, h.contents]

/-- **A request**: what is queued are the answers to the requests of the buffer if and only if `SendHolds`. -/
theorem send_holds_iff (h : Queues rx q) (iov : List Bytes) :
    (netlinkSendmsg protocol iov rx).2.contents = (q ++ answers protocol (nlRequests iov.flatten)).flatten ↔
      SendHolds protocol q iov.flatten := by
  have hroom := h.used_le
  rw [h.used_eq] at hroom
  rw [contents_sendmsg h, flatten_append, append_right_inj]
  unfold SendHolds
  generalize iov.flatten = buf
  by_cases hheader : HasHeader buf
  · have hne : ∀ m ∈ answer protocol (nlHdr buf), m ≠ [] := fun m hm => answer_ne_nil hm
    rw [if_pos hheader]
    by_cases hfull : (nlHdr buf).len.toNat ≤ buf.length
    · have hwhole : NlWhole buf := ⟨hheader.1, hheader.2, hfull⟩
      have hsplit : answers protocol (nlRequests buf)
          = answer protocol (nlHdr buf) ++ answers protocol (nlRequests (nlBehind buf)) := by
        rw [nlRequests_of_whole hwhole]
        exact flatMap_cons ..
      rw [hsplit, flatten_append,
        flatten_prefix_iff hne (answers_ne_nil _) (fitting_isPrefix _ _), fitting_eq_self_iff, answers_eq_nil_iff]
      constructor
      · exact fun hboth _ => ⟨fun _ => ⟨by omega, hboth.2⟩, fun hlt => absurd hfull (Nat.not_le.2 hlt)⟩
      · intro hboth
        obtain ⟨hfits, hrest⟩ := (hboth hheader).1 hfull
        exact ⟨by omega, hrest⟩
    · have hnot : ¬ NlWhole buf := fun hw => hfull hw.2.2
      have hnone : answers protocol (nlRequests buf) = [] := by
        rw [nlRequests_of_not hnot]
        rfl
      rw [hnone, flatten_nil,
        flatten_eq_nil_iff fun m hm => hne m ((fitting_isPrefix _ _).subset hm), fitting_eq_nil_iff]
      constructor
      · intro hlt _
        refine ⟨fun hle => absurd hle hfull, fun _ m hm => ?_⟩
        have := hlt m hm
        omega
      · intro hboth m hm
        have := (hboth hheader).2 (Nat.not_le.1 hfull) m hm
        omega
  · have hnot : ¬ NlWhole buf := fun hw => hheader ⟨hw.1, hw.2.1⟩
    have hnone : answers protocol (nlRequests buf) = [] := by
      rw [nlRequests_of_not hnot]
      rfl
    rw [if_neg hheader, hnone]
    exact iff_of_true rfl fun hyes => absurd hyes hheader

theorem netlinkRecv_empty (h : Queues rx []) (cap : ℕ) (peek trunc : Bool) :
    netlinkRecv cap peek trunc rx = (.again, rx) := by
  have hzero : rx.used = 0 := h.used_eq
  unfold netlinkRecv
  rw [hzero]
  rfl

theorem netlinkRecv_eq (h : Queues rx q) (hne : q ≠ []) (cap : ℕ) (peek trunc : Bool) :
    (netlinkRecv cap peek trunc rx).1 = .got (if trunc then q.flatten.length else min q.flatten.length cap)
        (q.flatten.take (min q.flatten.length cap)) (decide (min q.flatten.length cap < q.flatten.length)) ∧
      (netlinkRecv cap peek trunc rx).2.contents = if peek then q.flatten else [] := by
  have hpos : rx.used ≠ 0 := by
    rw [h.used_eq, Ne, length_eq_zero_iff, flatten_eq_nil_iff h.ne_nil]
    exact hne
  unfold netlinkRecv
  rw [Nat.min_eq_left h.used_le, if_neg hpos]
  simp only
  refine ⟨?_, ?_⟩
  · rw [Ring.pop_fst _ rx (Nat.min_le_left _ _), h.contents, h.used_eq]
  · cases peek with
    | true => exact h.contents
    | false =>
      have hgone := Ring.contents_skip (Nat.le_refl rx.used)
      rw [drop_eq_nil_of_le (Nat.le_of_eq (length_contents rx))] at hgone
      exact hgone

/-- **A receive** gives what a queue of messages gives if and only if `RecvHolds`. -/
theorem recv_holds_iff (h : Queues rx q) (cap : ℕ) (peek trunc : Bool) :
    ((netlinkRecv cap peek trunc rx).1 = (mailStep protocol q (.recv cap peek trunc)).1 ∧
      (netlinkRecv cap peek trunc rx).2.contents = (mailStep protocol q (.recv cap peek trunc)).2.flatten) ↔
      RecvHolds q cap := by
  cases q with
  | nil =>
    rw [netlinkRecv_empty h]
    exact iff_of_true ⟨rfl, h.contents⟩ (.inl rfl)
  | cons m q' =>
    obtain ⟨hout, hleft⟩ := netlinkRecv_eq h (cons_ne_nil m q') cap peek trunc
    have hm : m ≠ [] := h.ne_nil m mem_cons_self
    rw [hout, hleft, flatten_cons, length_append]
    unfold mailStep RecvHolds
    simp only
    by_cases hcap : m.length ≤ cap
    · rw [if_pos hcap]
      constructor
      · rintro ⟨hsame, -⟩
        obtain ⟨-, hdata, hcut⟩ := NlOut.got.inj hsame
        have hall : m.length + q'.flatten.length ≤ cap := by
          rw [decide_eq_false_iff_not] at hcut
          omega
        rw [Nat.min_eq_left hall, ← length_append, take_length, append_right_eq_self] at hdata
        have hq' := (flatten_eq_nil_iff fun x hx => h.ne_nil x (mem_cons_of_mem m hx)).1 hdata
        exact .inr ⟨m, by rw [hq'], hcap⟩
      · rintro (hnil | ⟨m', hone, -⟩)
        · cases hnil
        · obtain ⟨rfl, rfl⟩ := List.cons.inj hone
          simp only [flatten_nil, length_nil, Nat.add_zero, append_nil, Nat.min_eq_left hcap,
            take_length, Nat.lt_irrefl, decide_false, ite_self, true_and]
          cases peek with
          | true => exact (append_nil m).symm
          | false => rfl
    · rw [if_neg hcap]
      refine iff_of_false ?_ ?_
      · rintro ⟨hsame, -⟩
        cases hsame
      · rintro (hnil | ⟨m', hone, hle⟩)
        · cases hnil
        · obtain ⟨rfl, -⟩ := List.cons.inj hone
          exact hcap hle

/-- **One call** does what it does on a queue of messages if and only if it holds. -/
theorem nlStep_iff (h : Queues rx q) (op : NlOp) :
    ((nlStep protocol rx op).1, (nlStep protocol rx op).2.contents)
        = ((mailStep protocol q op).1, (mailStep protocol q op).2.flatten) ↔ NlHolds protocol q op := by
  rw [Prod.mk.injEq]
  cases op with
  | send iov =>
    have hsent : (netlinkSendmsg protocol iov rx).1 = iov.flatten.length := by rw [netlinkSendmsg_eq]
    have hsame : (nlStep protocol rx (.send iov)).1 = (mailStep protocol q (.send iov)).1 := by
      rw [nlStep, mailStep, hsent]
    exact (and_iff_right hsame).trans (send_holds_iff h iov)
  | recv cap peek trunc => exact recv_holds_iff h cap peek trunc

/-! ### Runs -/

theorem used_nlStep_le (h : Queues rx q) (op : NlOp) : (nlStep protocol rx op).2.used ≤ sockBufSize := by
  cases op with
  | send iov =>
    rw [nlStep, netlinkSendmsg_eq]
    simp only
    split_ifs
    · exact (contents_queueAll h.used_le).2
    · exact h.used_le
  | recv cap peek trunc =>
    rw [nlStep]
    by_cases hq : q = []
    · rw [hq] at h
      rw [netlinkRecv_empty h]
      exact h.used_le
    · rw [← length_contents, (netlinkRecv_eq h hq cap peek trunc).2]
      split_ifs
      · rw [← h.used_eq]
        exact h.used_le
      · exact Nat.zero_le _

theorem mailStep_ne_nil (h : ∀ m ∈ q, m ≠ []) (op : NlOp) : ∀ m ∈ (mailStep protocol q op).2, m ≠ [] := by
  cases op with
  | send iov =>
    intro m hm
    rcases mem_append.1 hm with hm | hm
    · exact h m hm
    · exact answers_ne_nil _ m hm
  | recv cap peek trunc =>
    cases q with
    | nil => exact h
    | cons m q' =>
      unfold mailStep
      simp only
      split_ifs
      · exact h
      · exact fun x hx => h x (mem_cons_of_mem m hx)
      · exact h

theorem Queues.step (h : Queues rx q) {op : NlOp} (hop : NlHolds protocol q op) :
    Queues (nlStep protocol rx op).2 (mailStep protocol q op).2 where
  contents := (Prod.mk.inj ((nlStep_iff h op).2 hop)).2
  used_le := used_nlStep_le h op
  ne_nil := mailStep_ne_nil h.ne_nil op

/-- **A run** does what it does on a queue of messages if and only if all its calls hold. -/
theorem nlRun_iff (h : Queues rx q) (ops : List NlOp) :
    nlRun protocol rx ops = mailRun protocol q ops ↔ NlGood protocol q ops := by
  induction ops generalizing rx q with
  | nil => exact iff_of_true rfl trivial
  | cons op ops ih =>
    rw [nlRun, mailRun, NlGood, List.cons.injEq, nlStep_iff h op]
    exact and_congr_right fun hop => ih (h.step hop)

/-- **Netlink replies**: from an empty socket on, a run of calls answers every request once and gives every reply
whole and by itself if and only if all its calls hold.  The replies have the right lengths, and a dump has one
end. -/
theorem netlink_exact (protocol : ℤ) {rx : RxRing} (hrx : rx.used = 0) (ops : List NlOp) :
    (nlRun protocol rx ops = mailRun protocol [] ops ↔ NlGood protocol [] ops) ∧
      (∀ req, ∀ m ∈ answer protocol req, RepliesTo req m) ∧
      ∀ req, isDump protocol req = true → ∃ ms, answer protocol req = ms ++ [nlDone req] ∧
        ∀ m ∈ ms, (nlHdr m).type ≠ nlmsgDone := by
  have hempty : Queues rx [] := ⟨Ring.contents_eq_nil hrx, by rw [hrx]; exact Nat.zero_le _,
    fun m hm => absurd hm not_mem_nil⟩
  exact ⟨nlRun_iff hempty ops, fun req m hm => answer_repliesTo hm, fun req hreq => answer_of_dump hreq⟩

/-- A socket that was never used. -/
def newRx : RxRing := ⟨fun _ => 0, 0, 0⟩

/-- A request by itself. -/
def nlRequest (type flags : BitVec 16) : Bytes := NlHdr.bytes ⟨16, type, flags, 1, 0⟩

theorem nlRequests_nlRequest (type flags : BitVec 16) :
    nlRequests (nlRequest type flags) = [⟨16, type, flags, 1, 0⟩] := by
  have hhdr : nlHdr (nlRequest type flags) = ⟨16, type, flags, 1, 0⟩ := by
    have hread := nlHdr_bytes ⟨16, type, flags, 1, 0⟩ []
    rwa [append_nil] at hread
  have hlen : (nlRequest type flags).length = 16 := length_bytes _
  have hwhole : NlWhole (nlRequest type flags) := by
    unfold NlWhole
    rw [hhdr, hlen]
    exact ⟨Nat.le_refl 16, Nat.le_refl 16, Nat.le_refl 16⟩
  have hbehind : nlBehind (nlRequest type flags) = [] := by
    unfold nlBehind
    rw [hhdr]
    exact drop_eq_nil_of_le (Nat.le_of_eq (hlen.trans (show 16 = align4 16 from rfl)))
  rw [nlRequests_of_whole hwhole, hbehind, hhdr, nlRequests_of_not (by decide)]

theorem mailStep_nlRequest (protocol : ℤ) (q : List Bytes) (type flags : BitVec 16) :
    mailStep protocol q (.send [nlRequest type flags])
      = (.sent 16, q ++ answer protocol ⟨16, type, flags, 1, 0⟩) := by
  rw [mailStep, flatten_cons, flatten_nil, append_nil, nlRequests_nlRequest, answers, flatMap_cons,
    flatMap_nil, append_nil, show (nlRequest type flags).length = 16 from length_bytes _]

/-- A request for an acknowledgement. -/
def ackOps : List NlOp := [.send [nlRequest rtmNewlink 0x0005], .recv 4096 false false]

/-- A dump of the routes. -/
def routeOps : List NlOp := [.send [nlRequest rtmGetroute 0x0301], .recv 4096 false false]

theorem netlink_exact_ack : nlRun 0 newRx ackOps = mailRun 0 [] ackOps := by
  have hsend : SendHolds 0 [] [nlRequest rtmNewlink 0x0005].flatten := by
    intro _
    have hbehind : nlRequests (nlBehind [nlRequest rtmNewlink 0x0005].flatten) = [] := nlRequests_of_not (by decide +kernel)
    rw [hbehind]
    refine ⟨fun _ => ⟨by decide +kernel, fun r hr => absurd hr not_mem_nil⟩, fun hlt => ?_⟩
    exact absurd hlt (by decide +kernel)
  have hgood : NlGood 0 [] ackOps := by
    refine ⟨hsend, ?_, trivial⟩
    rw [mailStep_nlRequest]
    exact .inr ⟨_, rfl, by decide +kernel⟩
  exact (netlink_exact 0 rfl ackOps).1.2 hgood

/-- The route and the end of the dump come out as one. -/
theorem netlink_merged : ∃ rx : RxRing, rx.used = 0 ∧
    (nlRun 0 rx routeOps).map (fun r => r.2.length) = [68, 0] ∧
    (mailRun 0 [] routeOps).map (fun r => r.2.length) = [68, 16] ∧
    nlRun 0 rx routeOps ≠ mailRun 0 [] routeOps := by
  have hcode : (nlRun 0 newRx routeOps).map (fun r => r.2.length) = [68, 0] := by decide +kernel
  have hmail : (mailRun 0 [] routeOps).map (fun r => r.2.length) = [68, 16] := by
    rw [routeOps, mailRun, mailStep_nlRequest]
    decide +kernel
  refine ⟨newRx, rfl, hcode, hmail, ?_⟩
  intro hsame
  rw [hsame, hmail] at hcode
  cases hcode
end Ridux
