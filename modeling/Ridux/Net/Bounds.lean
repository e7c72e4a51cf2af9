import Ridux.Net.Demux

/-!
# Frames whose lengths disagree

A frame has a length of its own, and its headers tell lengths too.

* `Consistent`: the lengths of a frame agree, each with the one around it;
* `NetStack.FrameSafe`: nothing outside of a frame is read, no data beyond its packet are handed on,
  and a frame that is not consistent changes nothing;
* `NetStack.FrameFine`, `NetStack.net_process_frame_safe`: for which frames that holds.
-/

namespace Ridux

open Lib Function List Option

/-! ### The lengths of a frame -/

/-- The size of the IP header, as the frame tells it. -/
def ihlField (f : Bytes) : ℕ := (f.getD 14 0).toNat % 16 * 4

/-- The size of the IP packet, as the frame tells it. -/
def totalField (f : Bytes) : ℕ := (be16 f 16).toNat

/-- The lengths of an IP packet agree with each other and with the frame. -/
structure IpConsistent (f : Bytes) : Prop where
  short : 34 ≤ f.length
  ihl_min : 20 ≤ ihlField f
  ihl_le : ihlField f ≤ totalField f
  total_le : 14 + totalField f ≤ f.length
  udp : f.getD 23 0 = 17 → 8 ≤ (be16 f (14 + ihlField f + 4)).toNat ∧
    ihlField f + (be16 f (14 + ihlField f + 4)).toNat ≤ totalField f
  tcp : f.getD 23 0 = 6 → 20 ≤ (f.getD (14 + ihlField f + 12) 0).toNat / 16 * 4 ∧
    ihlField f + (f.getD (14 + ihlField f + 12) 0).toNat / 16 * 4 ≤ totalField f

/-- The lengths of a frame agree: an ARP packet lies in it whole, and so does an IP packet. -/
def Consistent (f : Bytes) : Prop :=
  (be16 f 12 = 0x0806#16 → 42 ≤ f.length) ∧ (be16 f 12 = 0x0800#16 → IpConsistent f)

/-! ### What the TCP engine reads -/

/-- The offsets that are read of the options, from the offset `off` on. -/
def optionReads (tp : Bytes) (hdr : ℕ) : ℕ → ℕ → List ℕ
  | 0, _ => []
  | fuel + 1, off =>
    if hdr ≤ off then []
    else
      let kind := tp.getD off 0
      let olen := (tp.getD (off + 1) 0).toNat
      if kind = 0 then [off]
      else if kind = 1 then off :: optionReads tp hdr fuel (off + 1)
      else if hdr ≤ off + 1 then [off]
      else if olen < 2 ∨ hdr < off + olen then [off, off + 1]
      else
        (if kind = 2 ∧ olen = 4 then [off, off + 1, off + 2, off + 3] else [off, off + 1]) ++
          optionReads tp hdr fuel (off + olen)

/-- The offsets that `tcp7_incoming_segment` reads of a segment. -/
def segmentReads (tp : Bytes) : List ℕ :=
  let hdr := (tp.getD 12 0).toNat / 16 * 4
  if tp.length < 20 then []
  else if hdr < 20 ∨ tp.length < hdr then [13, 12]
  else [13, 12, 4, 5, 6, 7, 8, 9, 10, 11, 14, 15] ++
    if (tp.getD 13 0) &&& tcpSyn ≠ 0 ∧ 20 < hdr then optionReads tp hdr hdr 20 else []

theorem optionReads_lt {tp : Bytes} {hdr : ℕ} (fuel : ℕ) :
    ∀ off, ∀ i ∈ optionReads tp hdr fuel off, i < hdr := by
  induction fuel with
  | zero => exact fun _ i hi => absurd hi not_mem_nil
  | succ fuel ih =>
    intro off i hi
    unfold optionReads at hi
    dsimp only at hi
    split_ifs at hi with hend hnop hpad hlast hbad hmss
    · exact absurd hi not_mem_nil
    · rw [mem_singleton] at hi
      omega
    · rcases mem_cons.1 hi with rfl | hi
      · omega
      · exact ih _ i hi
    · rw [mem_singleton] at hi
      omega
    · simp only [mem_cons, not_mem_nil, or_false] at hi
      omega
    · rcases mem_append.1 hi with hi | hi
      · simp only [mem_cons, not_mem_nil, or_false] at hi
        omega
      · exact ih _ i hi
    · rcases mem_append.1 hi with hi | hi
      · simp only [mem_cons, not_mem_nil, or_false] at hi
        omega
      · exact ih _ i hi

theorem segmentReads_lt (tp : Bytes) : ∀ i ∈ segmentReads tp, i < tp.length := by
  intro i hi
  unfold segmentReads at hi
  dsimp only at hi
  split_ifs at hi with hshort hhdr hsyn
  · exact absurd hi not_mem_nil
  · simp only [mem_cons, not_mem_nil, or_false] at hi
    omega
  · rcases mem_append.1 hi with hi | hi
    · simp only [mem_cons, not_mem_nil, or_false] at hi
      omega
    · have := optionReads_lt _ _ i hi
      omega
  · rw [append_nil] at hi
    simp only [mem_cons, not_mem_nil, or_false] at hi
    omega

/-! ### What is to hold of every frame -/

/-- The part of the frame that is handed on lies in the IP packet. -/
def Incoming.InPacket (f : Bytes) : Incoming → Prop
  | .drop => True
  | .learn _ => True
  | .segment _ off n => 14 + ihlField f ≤ off ∧ off + n ≤ 14 + totalField f
  | .dgram _ off n _ _ => 14 + ihlField f ≤ off ∧ off + n ≤ 14 + totalField f

namespace NetStack

/-- Nothing outside of a frame is read, by `net_process_frame` or by the TCP engine it calls; nothing
beyond the IP packet is handed on; and a frame that is not consistent changes nothing. -/
structure FrameSafe (s : NetStack) (f : Bytes) (link : ℕ → Bool) : Prop where
  inside : s.netProcessFrame f link ≠ none
  engine : ∀ fd off n tp, s.inspect f = some (.segment fd off n) → block f off n = some tp →
    ∀ i ∈ segmentReads tp, i < tp.length
  packet : ∀ a, s.inspect f = some a → a.InPacket f
  drops : ¬ Consistent f → s.netProcessFrame f link = some s

/-- What the frame brings is no news: its address is known, the TCP engine ignores its segment, and
its data are none or the socket has no room for any. -/
structure NoNews (s : NetStack) (f : Bytes) (link : ℕ → Bool) : Prop where
  known : ∀ e, be16 f 12 = 0x0806#16 → arpTold f = some e → s.arp (arpSlot s.arp e.ip) = e
  ignored : ∀ h fd, s.For f h fd → TcpFits f h →
    s.tcp.processTcp fd (tcpSegment f h) link = s.tcp
  full : ∀ h fd, s.For f h fd → UdpFits h →
    h.total = h.ihl + 8 ∨ (s.tcp.net.socks fd).rxRoom = 0

/-- The packet does not end before the size of a TCP header that is looked for, and the frame is
consistent or brings no news. -/
structure FrameFine (s : NetStack) (f : Bytes) (link : ℕ → Bool) : Prop where
  whole : ∀ h fd, s.For f h fd → ¬ Cut f h
  agrees : Consistent f ∨ s.NoNews f link

variable {s : NetStack} {f : Bytes} {h : IpHdr} {fd : ℕ}

/-! ### Data for a socket -/

theorem deliver_eq_self_iff {payload : Bytes} {ip : Ip} {port : Port} (hlive : s.tcp.net.live fd = true)
    (hlen : payload.length ≤ sockBufSize) :
    s.deliver fd payload ip port = s ↔ payload = [] ∨ (s.tcp.net.socks fd).rxRoom = 0 := by
  by_cases hnil : payload = []
  · simp [deliver, hnil]
  have hpos : 0 < payload.length := length_pos_iff.2 hnil
  have hfst : ((s.tcp.net.socks fd).pushRx payload).1 =
      min payload.length (s.tcp.net.socks fd).rxRoom := rfl
  rw [deliver, if_pos ⟨hnil, hlen⟩, Net.netEvent, if_pos hlive]
  constructor
  · intro heq
    right
    by_contra hroom
    have hhead : ((s.tcp.net.socks fd).pushRx payload).2.rx.head = (s.tcp.net.socks fd).rx.head := by
      have hsock := congrArg (fun t : NetStack => (t.tcp.net.socks fd).rx.head) heq
      dsimp only at hsock
      split_ifs at hsock <;> simpa only [Net.setSock_self] using hsock
    rw [Sock.pushRx] at hhead
    dsimp only at hhead
    rw [Ring.push_head, length_take, Nat.min_eq_left (by omega)] at hhead
    unfold sockBufSize sockBufBits at hlen
    bv_omega
  · rintro (hc | hroom)
    · exact absurd hc hnil
    have hzero : ((s.tcp.net.socks fd).pushRx payload).2 = s.tcp.net.socks fd := by
      rw [Sock.pushRx]
      dsimp only
      rw [hroom, Nat.min_zero, take_zero]
      rfl
    dsimp only
    rw [if_neg (by rw [hfst, hroom]; omega), hzero, Net.setSock, update_eq_self]

theorem For.deliver_eq_self_iff (hfor : s.For f h fd) (hfits : UdpFits h) :
    s.deliver fd (udpData f h) h.src (be16 f (14 + h.ihl)) = s ↔
      h.total = h.ihl + 8 ∨ (s.tcp.net.socks fd).rxRoom = 0 := by
  have hlength := length_udpData hfor.header hfits
  have htotal := hfor.header.total_eq
  have hlt := (be16 f 16).isLt
  have := hfits.2
  rw [NetStack.deliver_eq_self_iff hfor.live (by unfold sockBufSize sockBufBits; omega),
    ← length_eq_zero_iff, hlength]
  refine or_congr_left ?_
  omega

/-! ### The frames for which it holds -/

theorem For.ihlField_eq (hfor : s.For f h fd) : ihlField f = h.ihl := hfor.header.ihl_eq.symm

theorem FrameSafe.fine {link : ℕ → Bool} (hsafe : s.FrameSafe f link) : s.FrameFine f link := by
  constructor
  · intro h fd hfor hcut
    apply hsafe.inside
    rw [netProcessFrame, hfor.inspect_cut hcut]
    rfl
  · by_cases hcons : Consistent f
    · exact .inl hcons
    have hsame := hsafe.drops hcons
    refine .inr ⟨?_, ?_, ?_⟩
    · intro e harp htold
      have hlen : 14 ≤ f.length := by
        cases hoff : arpOffset f with
        | none => rw [arpTold, hoff] at htold; cases htold
        | some a => have := arpOffset_le hoff; omega
      rw [netProcessFrame, s.inspect_arp harp hlen, htold] at hsame
      have harps := congrFun (congrArg NetStack.arp (some.inj hsame)) (arpSlot s.arp e.ip)
      exact harps.symm.trans (update_self (arpSlot s.arp e.ip) e s.arp)
    · intro h fd hfor hfits
      rw [hfor.process_segment hfits] at hsame
      exact congrArg NetStack.tcp (some.inj hsame)
    · intro h fd hfor hfits
      rw [hfor.process_dgram hfits] at hsame
      exact (hfor.deliver_eq_self_iff hfits).1 (some.inj hsame)

theorem FrameFine.safe {link : ℕ → Bool} (hfine : s.FrameFine f link) : s.FrameSafe f link := by
  rcases inspect_cases s f with ⟨h, fd, hfor, hcut, -⟩ | heq | ⟨e, harp, htold, heq⟩ |
      ⟨h, fd, hfor, hfits, heq⟩ | ⟨h, fd, hfor, hfits, heq⟩
  · exact absurd hcut (hfine.whole h fd hfor)
  -- a frame that is dropped
  · have hrun : s.netProcessFrame f link = some s := by rw [netProcessFrame, heq]; rfl
    refine ⟨by rw [hrun]; exact some_ne_none s, fun _ _ _ tp _ _ => segmentReads_lt tp, ?_,
      fun _ => hrun⟩
    rintro a ha
    obtain rfl := some.inj (heq.symm.trans ha)
    trivial
  -- a packet of addresses
  · have hrun : s.netProcessFrame f link =
        some { s with arp := update s.arp (arpSlot s.arp e.ip) e } := by
      rw [netProcessFrame, heq]
      rfl
    refine ⟨by rw [hrun]; exact some_ne_none _, fun _ _ _ tp _ _ => segmentReads_lt tp, ?_, ?_⟩
    · rintro a ha
      obtain rfl := some.inj (heq.symm.trans ha)
      trivial
    · intro hcons
      have hknown := (hfine.agrees.resolve_left hcons).known e harp htold
      have hsame : update s.arp (arpSlot s.arp e.ip) e = s.arp :=
        update_eq_self_iff.2 hknown.symm
      rw [hrun, hsame]
  -- a segment
  · have hrun := hfor.process_segment hfits link
    refine ⟨by rw [hrun]; exact some_ne_none _, fun _ _ _ tp _ _ => segmentReads_lt tp, ?_, ?_⟩
    · rintro a ha
      obtain rfl := some.inj (heq.symm.trans ha)
      have := hfor.header.total_eq
      have := hfits.2
      show 14 + ihlField f ≤ 14 + h.ihl ∧ 14 + h.ihl + (h.total - h.ihl) ≤ 14 + totalField f
      rw [hfor.ihlField_eq, totalField]
      omega
    · intro hcons
      rw [hrun, (hfine.agrees.resolve_left hcons).ignored h fd hfor hfits]
  -- a datagram
  · have hrun := hfor.process_dgram hfits link
    refine ⟨by rw [hrun]; exact some_ne_none _, fun _ _ _ tp _ _ => segmentReads_lt tp, ?_, ?_⟩
    · rintro a ha
      obtain rfl := some.inj (heq.symm.trans ha)
      have := hfor.header.total_eq
      have := hfits.2
      show 14 + ihlField f ≤ 14 + h.ihl + 8 ∧
        14 + h.ihl + 8 + (h.total - h.ihl - 8) ≤ 14 + totalField f
      rw [hfor.ihlField_eq, totalField]
      omega
    · intro hcons
      rw [hrun, (hfor.deliver_eq_self_iff hfits).2
        ((hfine.agrees.resolve_left hcons).full h fd hfor hfits)]

/-- A TCP packet of four bytes, in a frame that ends with it. -/
def cutFrame : Bytes :=
  List.replicate 12 0 ++ [8, 0] ++ [0x45, 0, 0, 24, 0, 0, 0x40, 0, 64, 6, 0, 0, 10, 0, 2, 2, 10, 0, 2, 15] ++
    [0, 80, 0, 80]

/-- The tables at boot, with one socket for streams. -/
def streamStack : NetStack := ⟨Tcp.boot.setSock 0 (.fresh 2 1 0), fun _ => ⟨0, [], false⟩⟩

end NetStack

end Ridux
