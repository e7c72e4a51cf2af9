import Ridux.Lib.Attrs
import Ridux.Net.Socket

/-!
# Netlink sockets

A netlink socket answers its own requests: `sendmsg` reads the header of a request and puts the replies into
the receive ring, from where `recv` takes them.

* `nlMsgStart`, `nlAttrAdd`, `nlMsgFinish`: the parts of a reply, in a buffer of `nlMsgCap` bytes;
* `nlReplies`: the replies to a request;
* `nlRxPush`, `nlQueueAll`, `netlinkSendmsg`, `netlinkRecv`: the calls;
* `ReplyFits`: the lengths in a reply are those of its bytes;
* `nlMsg_fits`, `replies_fit`: every reply is so.
-/

namespace Ridux

open Lib List Option

/-- `c3_nlmsghdr_t`. -/
structure NlHdr where
  len : BitVec 32
  type : BitVec 16
  flags : BitVec 16
  seq : BitVec 32
  pid : BitVec 32
  deriving DecidableEq

/-- `sizeof(c3_nlmsghdr_t)`. -/
def nlHdrSize : ℕ := 16

/-- The header at the start of a buffer. -/
def nlHdr (b : Bytes) : NlHdr where
  len := .ofNat 32 (leNat (b.take 4))
  type := .ofNat 16 (leNat ((b.drop 4).take 2))
  flags := .ofNat 16 (leNat ((b.drop 6).take 2))
  seq := .ofNat 32 (leNat ((b.drop 8).take 4))
  pid := .ofNat 32 (leNat ((b.drop 12).take 4))

/-- The bytes of a header behind its length. -/
def NlHdr.rest (h : NlHdr) : Bytes :=
  leBytes 2 h.type.toNat ++ leBytes 2 h.flags.toNat ++ leBytes 4 h.seq.toNat ++ leBytes 4 h.pid.toNat

def NlHdr.bytes (h : NlHdr) : Bytes := leBytes 4 h.len.toNat ++ h.rest

/-! ### Replies -/

def nlmsgError : BitVec 16 := 2
def nlmsgDone : BitVec 16 := 3
def nlmFAck : BitVec 16 := 0x0004
def nlmFDump : BitVec 16 := 0x0300
def rtmNewlink : BitVec 16 := 16
def rtmGetlink : BitVec 16 := 18
def rtmNewaddr : BitVec 16 := 20
def rtmGetaddr : BitVec 16 := 22
def rtmNewroute : BitVec 16 := 24
def rtmGetroute : BitVec 16 := 26

/-- The size of the buffer of a reply. -/
def nlMsgCap : ℕ := 256

/-- `c3_netlink_msg_start`. -/
def nlMsgStart (cap : ℕ) (req : NlHdr) (type : BitVec 16) (payload : Bytes) : Option Bytes :=
  if cap < nlHdrSize + payload.length then none
  else some (NlHdr.bytes ⟨.ofNat 32 (nlHdrSize + payload.length), type, 0, req.seq, 0⟩ ++ payload ++
    pad4 (nlHdrSize + payload.length))

/-- `c3_netlink_attr_add`. -/
def nlAttrAdd (cap : ℕ) (msg : Bytes) (type : ℕ) (data : Bytes) : Option Bytes :=
  if cap < msg.length + align4 (4 + data.length) then none else some (msg ++ attr type data)

/-- `c3_netlink_msg_finish`, up to the queue: the length is that of the message. -/
def nlMsgFinish (msg : Bytes) : Option Bytes :=
  if msg.length < nlHdrSize then none else some (leBytes 4 msg.length ++ msg.drop 4)

/-- A reply with attributes. -/
def nlMsg (req : NlHdr) (type : BitVec 16) (payload : Bytes) (attrs : List (ℕ × Bytes)) : Option Bytes :=
  (nlMsgStart nlMsgCap req type payload).bind fun msg =>
    (attrs.foldlM (fun msg a => nlAttrAdd nlMsgCap msg a.1 a.2) msg).bind nlMsgFinish

/-- `c3_netlink_queue_link`. -/
def nlLink (req : NlHdr) (ifindex : ℕ) (name : Bytes) (arptype flags : ℕ) (mac : Bytes) : Option Bytes :=
  -- `c3_ifinfomsg_t`, with `C3_IFLA_IFNAME`, `C3_IFLA_OPERSTATE` and `C3_IFLA_ADDRESS`
  nlMsg req rtmNewlink
    ([0, 0] ++ leBytes 2 arptype ++ leBytes 4 ifindex ++ leBytes 4 flags ++ leBytes 4 0xFFFFFFFF)
    ([(3, name ++ [0]), (16, [6])] ++ if mac = [] then [] else [(1, mac)])

/-- `c3_netlink_queue_addr`. -/
def nlAddr (req : NlHdr) (ifindex : ℕ) (label : Bytes) (ip : BitVec 32) (pfx scope : UInt8) : Option Bytes :=
  let nip := (leBytes 4 ip.toNat).reverse
  -- `c3_ifaddrmsg_t`, with `C3_IFA_ADDRESS`, `C3_IFA_LOCAL` and `C3_IFA_LABEL`
  nlMsg req rtmNewaddr ([2, pfx, 0x80, scope] ++ leBytes 4 ifindex) [(1, nip), (2, nip), (3, label ++ [0])]

/-- `c3_netlink_queue_route`. -/
def nlRoute (req : NlHdr) (ifindex : ℕ) (gateway prefsrc : BitVec 32) : Option Bytes :=
  -- `c3_rtmsg_t`, with `C3_RTA_OIF`, `C3_RTA_GATEWAY` and `C3_RTA_PREFSRC`
  nlMsg req rtmNewroute ([2, 0, 0, 0, 254, 3, 0, 1] ++ leBytes 4 0)
    [(4, leBytes 4 ifindex), (5, (leBytes 4 gateway.toNat).reverse), (7, (leBytes 4 prefsrc.toNat).reverse)]

/-- `c3_netlink_queue_done`. -/
def nlDone (req : NlHdr) : Bytes := NlHdr.bytes ⟨16, nlmsgDone, 0, req.seq, 0⟩

/-- `c3_netlink_queue_ack`. -/
def nlAck (req : NlHdr) (error : BitVec 32) : Bytes :=
  NlHdr.bytes ⟨36, nlmsgError, 0, req.seq, 0⟩ ++ leBytes 4 error.toNat ++ req.bytes

/-- The messages that `c3_netlink_queue_route_dump` queues before the last one. -/
def nlTable (req : NlHdr) : List (Option Bytes) :=
  if req.type = rtmGetlink then
    [nlLink req 1 (ascii "lo") 772 0x0049 [],
      nlLink req 2 (ascii "eth0") 1 0x1043 [0x52, 0x54, 0x00, 0x12, 0x34, 0x56]]
  else if req.type = rtmGetaddr then
    [nlAddr req 1 (ascii "lo") 0x7F000001 8 254, nlAddr req 2 (ascii "eth0") 0x0A00020F 24 0]
  else if req.type = rtmGetroute then [nlRoute req 2 0x0A000202 0x0A00020F]
  else []

/-- `route_dump`. -/
def isRouteDump (protocol : ℤ) (req : NlHdr) : Bool :=
  decide (protocol = 0) && [rtmGetlink, rtmGetaddr, rtmGetroute].contains req.type

/-- The request asks for a dump. -/
def isDump (protocol : ℤ) (req : NlHdr) : Bool := isRouteDump protocol req || req.flags &&& nlmFDump != 0

/-- The messages that are queued for a request: a table and its end, the end alone, or an acknowledgement. -/
def nlReplies (protocol : ℤ) (req : NlHdr) : List (Option Bytes) :=
  if isRouteDump protocol req then nlTable req ++ [some (nlDone req)]
  else if req.flags &&& nlmFDump != 0 then [some (nlDone req)]
  else if req.flags &&& nlmFAck != 0 then [some (nlAck req 0)]
  else []

/-! ### The calls -/

/-- The receive ring of a socket. -/
abbrev RxRing := Ring UInt8 sockBufBits

/-- `c3_netlink_rx_push`. -/
def nlRxPush (rx : RxRing) (msg : Bytes) : Option RxRing :=
  if sockBufSize - min rx.used sockBufSize < msg.length then none else some (rx.push msg)

/-- One message after the other is queued, up to the first that fails. -/
def nlQueueAll : List (Option Bytes) → RxRing → RxRing
  | [], rx => rx
  | none :: _, rx => rx
  | some msg :: msgs, rx =>
    match nlRxPush rx msg with
    | none => rx
    | some rx => nlQueueAll msgs rx

/-- The loop of `c3_netlink_sendmsg`: the length of the request, and the first bytes of it. -/
def nlGather : List Bytes → ℕ → Bytes → ℕ × Bytes
  | [], total, got => (total, got)
  | base :: iov, total, got => nlGather iov (total + base.length) (got ++ base.take (nlHdrSize - got.length))

/-- `c3_netlink_sendmsg` on a socket that is in use, of memory that can be read.  What became of the replies is
not looked at. -/
def netlinkSendmsg (protocol : ℤ) (iov : List Bytes) (rx : RxRing) : ℕ × RxRing :=
  let (total, got) := nlGather iov 0 []
  if total = 0 then (0, rx)
  else if nlHdrSize ≤ got.length ∧ nlHdrSize ≤ (nlHdr got).len.toNat then
    (total, nlQueueAll (nlReplies protocol (nlHdr got)) rx)
  else (total, rx)

/-- What a call has given: the bytes that were sent, no reply, or the number that was returned with the bytes in
the buffer and `MSG_TRUNC`. -/
inductive NlOut
  | sent (n : ℕ)
  | again
  | got (rc : ℕ) (data : Bytes) (cut : Bool)
  /-- the next reply is longer than the buffer, and stays; the source never says so -/
  | tooLong
  deriving DecidableEq

/-- `c3_netlink_recv_kernel` on a socket that is in use, into a buffer of `cap` bytes. -/
def netlinkRecv (cap : ℕ) (peek trunc : Bool) (rx : RxRing) : NlOut × RxRing :=
  let av := min rx.used sockBufSize
  if av = 0 then (.again, rx)
  else
    let cp := min av cap
    (.got (if trunc then av else cp) (Ring.pop cp rx).1 (decide (cp < av)),
      if peek then rx else { rx with tail := rx.tail + .ofNat 32 av })

/-! ### The lengths in a reply -/

/-- The bytes behind the header of a reply, before its attributes. -/
def payloadSize (type : BitVec 16) : ℕ :=
  if type = rtmNewlink then 16
  else if type = rtmNewaddr then 8
  else if type = rtmNewroute then 12
  else if type = nlmsgError then 20
  else 0

/-- **The lengths in a reply are those of its bytes**: the header says how long the message is, this is a multiple
of four, and behind the payload the message consists of attributes. -/
structure ReplyFits (m : Bytes) : Prop where
  hdr : nlHdrSize ≤ m.length
  len : (nlHdr m).len.toNat = m.length
  dvd : 4 ∣ m.length
  attrs : Attrs (m.drop (align4 (nlHdrSize + payloadSize (nlHdr m).type)))

theorem nlHdr_bytes (h : NlHdr) (r : Bytes) : nlHdr (h.bytes ++ r) = h := by
  obtain ⟨len, type, flags, seq, pid⟩ := h
  have hparts : NlHdr.bytes ⟨len, type, flags, seq, pid⟩ ++ r = leBytes 4 len.toNat ++ (leBytes 2 type.toNat ++
      (leBytes 2 flags.toNat ++ (leBytes 4 seq.toNat ++ (leBytes 4 pid.toNat ++ r)))) := by
    simp only [NlHdr.bytes, NlHdr.rest, append_assoc]
  have hskip : ∀ (k x i : ℕ) (s : Bytes), (leBytes k x ++ s).drop (k + i) = s.drop i := by
    intro k x i s
    rw [← drop_drop, drop_left' (length_leBytes k x)]
  have h2 : ∀ (x : BitVec 16) (s : Bytes), BitVec.ofNat 16 (leNat ((leBytes 2 x.toNat ++ s).take 2)) = x := by
    intro x s
    rw [take_left' (length_leBytes 2 _), leNat_leBytes, Nat.mod_eq_of_lt (show x.toNat < 256 ^ 2 from x.isLt), BitVec.ofNat_toNat,
      BitVec.setWidth_eq]
  have h4 : ∀ (x : BitVec 32) (s : Bytes), BitVec.ofNat 32 (leNat ((leBytes 4 x.toNat ++ s).take 4)) = x := by
    intro x s
    rw [take_left' (length_leBytes 4 _), leNat_leBytes, Nat.mod_eq_of_lt (show x.toNat < 256 ^ 4 from x.isLt), BitVec.ofNat_toNat,
      BitVec.setWidth_eq]
  unfold nlHdr
  rw [hparts, hskip 4 _ 0, hskip 4 _ 2, hskip 4 _ 4, hskip 4 _ 8, drop_zero, hskip 2 _ 0, hskip 2 _ 2,
    hskip 2 _ 6, hskip 2 _ 0, hskip 2 _ 4, hskip 4 _ 0, drop_zero, drop_zero, drop_zero]
  simp only [h2, h4]

theorem length_bytes (h : NlHdr) : h.bytes.length = nlHdrSize := by
  simp only [NlHdr.bytes, NlHdr.rest, length_append, length_leBytes]
  rfl

variable {attrs : List (ℕ × Bytes)} {m : Bytes}

theorem foldlM_attrs {msg bs : Bytes} (hbs : Attrs bs) (hroom : (msg ++ bs).length ≤ nlMsgCap)
    (h : attrs.foldlM (fun msg a => nlAttrAdd nlMsgCap msg a.1 a.2) (msg ++ bs) = some m) :
    ∃ bs', m = msg ++ bs' ∧ Attrs bs' ∧ m.length ≤ nlMsgCap := by
  induction attrs generalizing bs with
  | nil =>
    obtain rfl := some.inj h
    exact ⟨bs, rfl, hbs, hroom⟩
  | cons a attrs ih =>
    rw [foldlM_cons] at h
    obtain ⟨m', hadd, hrest⟩ := bind_eq_some_iff.1 h
    unfold nlAttrAdd at hadd
    split_ifs at hadd with hcap
    obtain rfl := some.inj hadd
    have hle := le_align4 (4 + a.2.length)
    rw [append_assoc] at hrest
    refine ih (hbs.concat ?_ a.1) ?_ hrest
    · unfold nlMsgCap at hcap
      omega
    · rw [← append_assoc, length_append, length_attr]
      omega

variable {type : BitVec 16} {payload : Bytes} {req : NlHdr}

theorem nlMsg_eq_some (h : nlMsg req type payload attrs = some m) :
    ∃ bs, m = NlHdr.bytes ⟨.ofNat 32 m.length, type, 0, req.seq, 0⟩ ++
      (payload ++ pad4 (nlHdrSize + payload.length) ++ bs) ∧ Attrs bs ∧ m.length ≤ nlMsgCap := by
  obtain ⟨msg, hstart, hrest⟩ := bind_eq_some_iff.1 h
  obtain ⟨msg', hattrs, hfinish⟩ := bind_eq_some_iff.1 hrest
  unfold nlMsgStart at hstart
  split_ifs at hstart with hcap
  obtain rfl := some.inj hstart
  have hroom : (NlHdr.bytes ⟨.ofNat 32 (nlHdrSize + payload.length), type, 0, req.seq, 0⟩ ++ payload ++
      pad4 (nlHdrSize + payload.length) ++ []).length ≤ nlMsgCap := by
    have hle := le_align4 (nlHdrSize + payload.length)
    rw [append_nil, length_append, length_append, length_bytes, length_pad4]
    unfold nlMsgCap nlHdrSize align4 at *
    omega
  rw [← append_nil (NlHdr.bytes _ ++ payload ++ _)] at hattrs
  obtain ⟨bs, hmsg, hbs, hfit⟩ := foldlM_attrs .nil hroom hattrs
  unfold nlMsgFinish at hfinish
  split_ifs at hfinish with hhdr
  obtain rfl := some.inj hfinish
  have hlen : (leBytes 4 msg'.length ++ msg'.drop 4).length = msg'.length := by
    rw [length_append, length_leBytes, length_drop]
    unfold nlHdrSize at hhdr
    omega
  have hnum : (BitVec.ofNat 32 msg'.length).toNat = msg'.length := by
    rw [BitVec.toNat_ofNat]
    apply Nat.mod_eq_of_lt
    unfold nlMsgCap at hfit
    omega
  have hdrop : msg'.drop 4 = NlHdr.rest ⟨.ofNat 32 msg'.length, type, 0, req.seq, 0⟩ ++
      (payload ++ pad4 (nlHdrSize + payload.length) ++ bs) := by
    conv_lhs => rw [hmsg]
    simp only [NlHdr.bytes, append_assoc, drop_left' (length_leBytes 4 _)]
    rfl
  refine ⟨bs, ?_, hbs, hlen.trans_le hfit⟩
  rw [hlen, NlHdr.bytes, append_assoc, ← hdrop, hnum]

/-- **A reply that is built from parts fits**, if its payload has the size of its type. -/
theorem nlMsg_fits (hsize : payloadSize type = payload.length)
    (h : nlMsg req type payload attrs = some m) :
    ReplyFits m ∧ (nlHdr m).type = type ∧ (nlHdr m).seq = req.seq := by
  obtain ⟨bs, hm, hbs, hcap⟩ := nlMsg_eq_some h
  have hhdr : nlHdr m = ⟨.ofNat 32 m.length, type, 0, req.seq, 0⟩ := by
    conv_lhs => rw [hm]
    exact nlHdr_bytes _ _
  have hle := le_align4 (nlHdrSize + payload.length)
  have hdvd := dvd_align4 (nlHdrSize + payload.length)
  have hlen : m.length = align4 (nlHdrSize + payload.length) + bs.length := by
    have hsum := congrArg List.length hm
    rw [length_append, length_append, length_append, length_bytes, length_pad4] at hsum
    omega
  refine ⟨⟨by omega, ?_, ?_, ?_⟩, by rw [hhdr], by rw [hhdr]⟩
  · rw [hhdr]
    simp only [BitVec.toNat_ofNat]
    apply Nat.mod_eq_of_lt
    unfold nlMsgCap at hcap
    omega
  · rw [hlen]
    exact Nat.dvd_add hdvd hbs.dvd
  · have hfront : (NlHdr.bytes ⟨.ofNat 32 m.length, type, 0, req.seq, 0⟩ ++
        (payload ++ pad4 (nlHdrSize + payload.length))).length = align4 (nlHdrSize + payload.length) := by
      rw [length_append, length_append, length_bytes, length_pad4]
      omega
    have hdrop : m.drop (align4 (nlHdrSize + payload.length)) = bs := by
      conv_lhs => rw [hm, ← append_assoc]
      exact drop_left' hfront
    rw [hhdr]
    simp only [hsize, hdrop]
    exact hbs

theorem bytes_fits {h : NlHdr} (hsize : payloadSize h.type = payload.length)
    (hlen : h.len.toNat = nlHdrSize + payload.length) (hdvd : 4 ∣ nlHdrSize + payload.length) :
    ReplyFits (h.bytes ++ payload) := by
  have hlength : (h.bytes ++ payload).length = nlHdrSize + payload.length := by
    rw [length_append, length_bytes]
  refine ⟨by omega, ?_, ?_, ?_⟩
  · rw [nlHdr_bytes, hlen, hlength]
  · rwa [hlength]
  · have hle := le_align4 (nlHdrSize + payload.length)
    rw [nlHdr_bytes, hsize, drop_eq_nil_of_le (by rw [hlength]; exact hle)]
    exact .nil

/-! ### All replies -/

/-- The messages of the answer to a request. -/
def answer (protocol : ℤ) (req : NlHdr) : List Bytes := (nlReplies protocol req).filterMap id

/-- The message is a reply to the request, and its lengths are right. -/
structure RepliesTo (req : NlHdr) (m : Bytes) : Prop extends ReplyFits m where
  seq : (nlHdr m).seq = req.seq

section Replies

variable {protocol : ℤ} {req : NlHdr} {m : Bytes} {ifindex : ℕ}

theorem nlMsg_repliesTo (hsize : payloadSize type = payload.length) (hdone : type ≠ nlmsgDone)
    (h : nlMsg req type payload attrs = some m) : RepliesTo req m ∧ (nlHdr m).type ≠ nlmsgDone := by
  obtain ⟨hfits, htype, hseq⟩ := nlMsg_fits hsize h
  exact ⟨⟨hfits, hseq⟩, htype ▸ hdone⟩

theorem nlLink_repliesTo {name : Bytes} {arptype flags : ℕ} {mac : Bytes}
    (h : nlLink req ifindex name arptype flags mac = some m) : RepliesTo req m ∧ (nlHdr m).type ≠ nlmsgDone :=
  nlMsg_repliesTo (by simp [payloadSize]) (by decide) h

theorem nlAddr_repliesTo {label : Bytes} {ip : BitVec 32} {pfx scope : UInt8}
    (h : nlAddr req ifindex label ip pfx scope = some m) : RepliesTo req m ∧ (nlHdr m).type ≠ nlmsgDone :=
  nlMsg_repliesTo (by simp [payloadSize, rtmNewaddr, rtmNewlink]) (by decide) h

theorem nlRoute_repliesTo {gateway prefsrc : BitVec 32}
    (h : nlRoute req ifindex gateway prefsrc = some m) : RepliesTo req m ∧ (nlHdr m).type ≠ nlmsgDone :=
  nlMsg_repliesTo (by simp [payloadSize, rtmNewroute, rtmNewaddr, rtmNewlink]) (by decide) h

theorem nlDone_fits (req : NlHdr) : RepliesTo req (nlDone req) ∧ (nlHdr (nlDone req)).type = nlmsgDone := by
  have hbytes : nlDone req = NlHdr.bytes ⟨16, nlmsgDone, 0, req.seq, 0⟩ ++ [] := (append_nil _).symm
  rw [hbytes]
  refine ⟨⟨bytes_fits rfl rfl (by decide), ?_⟩, ?_⟩
  · rw [nlHdr_bytes]
  · rw [nlHdr_bytes]

theorem nlAck_fits (req : NlHdr) (error : BitVec 32) : RepliesTo req (nlAck req error) := by
  have hbytes : nlAck req error = NlHdr.bytes ⟨36, nlmsgError, 0, req.seq, 0⟩ ++ (leBytes 4 error.toNat ++ req.bytes) :=
    append_assoc _ _ _
  have hlen : (leBytes 4 error.toNat ++ req.bytes).length = 20 := by
    rw [length_append, length_leBytes, length_bytes]
    rfl
  rw [hbytes]
  refine ⟨bytes_fits ?_ ?_ ?_, ?_⟩
  · rw [hlen]
    rfl
  · rw [hlen]
    rfl
  · rw [hlen]
    decide
  · rw [nlHdr_bytes]

theorem nlTable_repliesTo (req : NlHdr) :
    ∀ r ∈ nlTable req, ∃ m, r = some m ∧ RepliesTo req m ∧ (nlHdr m).type ≠ nlmsgDone := by
  have hbuilt : ∀ {r : Option Bytes}, r.isSome = true →
      (∀ m, r = some m → RepliesTo req m ∧ (nlHdr m).type ≠ nlmsgDone) →
      ∃ m, r = some m ∧ RepliesTo req m ∧ (nlHdr m).type ≠ nlmsgDone := by
    intro r hr hfits
    obtain ⟨m, hm⟩ := isSome_iff_exists.1 hr
    exact ⟨m, hm, hfits m hm⟩
  unfold nlTable
  split_ifs
  · rw [forall_mem_cons, forall_mem_singleton]
    exact ⟨hbuilt rfl fun m => nlLink_repliesTo, hbuilt rfl fun m => nlLink_repliesTo⟩
  · rw [forall_mem_cons, forall_mem_singleton]
    exact ⟨hbuilt rfl fun m => nlAddr_repliesTo, hbuilt rfl fun m => nlAddr_repliesTo⟩
  · rw [forall_mem_singleton]
    exact hbuilt rfl fun m => nlRoute_repliesTo
  · exact fun r hr => absurd hr not_mem_nil

/-- **Every reply fits**, and all replies are built. -/
theorem nlReplies_repliesTo (protocol : ℤ) (req : NlHdr) :
    ∀ r ∈ nlReplies protocol req, ∃ m, r = some m ∧ RepliesTo req m := by
  unfold nlReplies
  split_ifs
  · intro r hr
    rcases mem_append.1 hr with hr | hr
    · obtain ⟨m, hm, hto, -⟩ := nlTable_repliesTo req r hr
      exact ⟨m, hm, hto⟩
    · exact ⟨_, mem_singleton.1 hr, (nlDone_fits req).1⟩
  · rw [forall_mem_singleton]
    exact ⟨_, rfl, (nlDone_fits req).1⟩
  · rw [forall_mem_singleton]
    exact ⟨_, rfl, nlAck_fits req 0⟩
  · exact fun r hr => absurd hr not_mem_nil

theorem nlReplies_eq (protocol : ℤ) (req : NlHdr) : nlReplies protocol req = (answer protocol req).map some := by
  have hall := nlReplies_repliesTo protocol req
  unfold answer
  generalize nlReplies protocol req = l at hall ⊢
  induction l with
  | nil => rfl
  | cons r l ih =>
    rw [forall_mem_cons] at hall
    obtain ⟨m, rfl, -⟩ := hall.1
    exact congrArg (some m :: ·) (ih hall.2)

theorem answer_repliesTo (h : m ∈ answer protocol req) : RepliesTo req m := by
  obtain ⟨r, hr, he⟩ := mem_filterMap.1 h
  obtain ⟨m', rfl, hto⟩ := nlReplies_repliesTo protocol req r hr
  obtain rfl := some.inj he
  exact hto

theorem answer_ne_nil (h : m ∈ answer protocol req) : m ≠ [] := by
  have hhdr := (answer_repliesTo h).hdr
  rintro rfl
  cases hhdr

/-- **A dump ends with its end**, and has no other. -/
theorem answer_of_dump (h : isDump protocol req = true) : ∃ ms, answer protocol req = ms ++ [nlDone req] ∧
    ∀ m ∈ ms, (nlHdr m).type ≠ nlmsgDone := by
  unfold isDump at h
  unfold answer nlReplies
  split_ifs with h1 h2
  · refine ⟨(nlTable req).filterMap id, by rw [filterMap_append]; rfl, ?_⟩
    intro m hm
    obtain ⟨r, hr, he⟩ := mem_filterMap.1 hm
    obtain ⟨m', rfl, -, htype⟩ := nlTable_repliesTo req r hr
    obtain rfl := some.inj he
    exact htype
  · exact ⟨[], rfl, fun m hm => absurd hm not_mem_nil⟩
  · rw [Bool.not_eq_true] at h1 h2
    rw [h1, h2] at h
    cases h
  · rw [Bool.not_eq_true] at h1 h2
    rw [h1, h2] at h
    cases h

end Replies

end Ridux
