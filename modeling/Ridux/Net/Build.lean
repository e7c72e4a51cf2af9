import Mathlib.Data.List.GetD
import Ridux.Lib.Checksum
import Ridux.Net.Datagrams

/-!
# Frames that are built

`net_checksum`, `net_build_eth`, `net_build_ip` and `net_build_udp`, and a frame that
`net_send_udp_frame` builds with them.

* `netBuildIp_checksum`: the checksum of an IP header verifies;
* `udpFrame_header`: what `net_process_frame` reads of a frame, with any padding behind it;
* `NetStack.Bound`, `udp_frame_delivered`: when it brings its data to the socket it is for.
-/

namespace Ridux

open Lib NetStack List

/-- A MAC address. -/
structure Mac where
  bytes : Bytes
  length_eq : bytes.length = 6

/-- `net_checksum`; the sum is a number of 32 bits. -/
def netChecksum (data : Bytes) : BitVec 16 := BitVec.ofNat 16 (65535 - foldCarry (wordSum data % 2 ^ 32))

def netBuildEth (dst src : Mac) (type : BitVec 16) : Bytes :=
  dst.bytes ++ src.bytes ++ [netByte type.toNat 8, netByte type.toNat 0]

/-- The header of `net_build_ip`, with the checksum `ck`. -/
def ipHeader (id : BitVec 16) (src dst : Ip) (proto : UInt8) (payloadLen ck : BitVec 16) : Bytes :=
  let total := (20 + payloadLen).toNat
  [0x45, 0, netByte total 8, netByte total 0, netByte id.toNat 8, netByte id.toNat 0, 0x40, 0, 64,
    proto] ++ [netByte ck.toNat 8, netByte ck.toNat 0] ++
    [netByte src.toNat 24, netByte src.toNat 16, netByte src.toNat 8, netByte src.toNat 0,
      netByte dst.toNat 24, netByte dst.toNat 16, netByte dst.toNat 8, netByte dst.toNat 0]

/-- `net_build_ip` and the next `ip_id`. -/
def netBuildIp (id : BitVec 16) (src dst : Ip) (proto : UInt8) (payloadLen : BitVec 16) :
    Bytes × BitVec 16 :=
  (ipHeader id src dst proto payloadLen (netChecksum (ipHeader id src dst proto payloadLen 0)), id + 1)

def netBuildUdp (srcPort dstPort dataLen : BitVec 16) : Bytes :=
  let total := (8 + dataLen).toNat
  [netByte srcPort.toNat 8, netByte srcPort.toNat 0, netByte dstPort.toNat 8, netByte dstPort.toNat 0,
    netByte total 8, netByte total 0, 0, 0]

/-- The frame of `net_send_udp_frame`. -/
def udpFrame (id : BitVec 16) (dstMac srcMac : Mac) (src dst : Ip) (srcPort dstPort : Port)
    (payload : Bytes) : Bytes :=
  let len := BitVec.ofNat 16 payload.length
  netBuildEth dstMac srcMac 0x0800 ++ (netBuildIp id src dst 17 (8 + len)).1 ++
    netBuildUdp srcPort dstPort len ++ payload

/-! ### The checksum -/

theorem toNat_netByte (v s : ℕ) : (netByte v s).toNat = v / 2 ^ s % 256 := UInt8.toNat_ofNat'

theorem wordSum_ipHeader (id : BitVec 16) (src dst : Ip) (proto : UInt8) (payloadLen ck : BitVec 16) :
    wordSum (ipHeader id src dst proto payloadLen ck) =
      wordSum (ipHeader id src dst proto payloadLen 0) + ck.toNat := by
  have hword : wordSum [netByte ck.toNat 8, netByte ck.toNat 0] =
      wordSum [netByte (0 : BitVec 16).toNat 8, netByte (0 : BitVec 16).toNat 0] + ck.toNat := by
    have hck := ck.isLt
    have hzero : (0 : BitVec 16).toNat = 0 := rfl
    simp only [wordSum, toNat_netByte, hzero, Nat.pow_zero, Nat.div_one, Nat.zero_div]
    omega
  have heven : ∀ x y a b c d e f g h : UInt8, 2 ∣ [x, y, a, b, c, d, e, f, g, h].length :=
    fun _ _ _ _ _ _ _ _ _ _ => ⟨5, rfl⟩
  unfold ipHeader
  dsimp only
  rw [append_assoc, append_assoc, wordSum_append _ (heven ..), wordSum_append _ (heven ..),
    wordSum_append _ ⟨1, rfl⟩, wordSum_append _ ⟨1, rfl⟩, hword]
  omega

theorem netBuildIp_checksum (id : BitVec 16) (src dst : Ip) (proto : UInt8) (payloadLen : BitVec 16) :
    netChecksum (netBuildIp id src dst proto payloadLen).1 = 0 := by
  set hdr := ipHeader id src dst proto payloadLen 0 with hhdr
  have hsmall := wordSum_le hdr
  have hlen : hdr.length = 20 := rfl
  have hpos : 0 < wordSum hdr := by
    exact Nat.add_pos_left (by decide) _
  have hck : (netChecksum hdr).toNat = 65535 - foldCarry (wordSum hdr) := by
    rw [netChecksum, Nat.mod_eq_of_lt (by omega), BitVec.toNat_ofNat]
    omega
  have hsum : wordSum (netBuildIp id src dst proto payloadLen).1 =
      wordSum hdr + (65535 - foldCarry (wordSum hdr)) := by
    rw [← hck]
    exact wordSum_ipHeader ..
  rw [netChecksum, hsum, Nat.mod_eq_of_lt (by omega), foldCarry_complete hpos]
  rfl

/-! ### What is read of the frame -/

theorem be16_append (xs ys : Bytes) (i : ℕ) : be16 (xs ++ ys) (xs.length + i) = be16 ys i := by
  have h := getD_append_right xs ys (0 : UInt8)
  rw [be16, be16, h _ (by omega), h _ (by omega), Nat.add_assoc, Nat.add_sub_cancel_left,
    Nat.add_sub_cancel_left]

theorem be32_append (xs ys : Bytes) (i : ℕ) : be32 (xs ++ ys) (xs.length + i) = be32 ys i := by
  have h := getD_append_right xs ys (0 : UInt8)
  rw [be32, be32, h _ (by omega), h _ (by omega), h _ (by omega), h _ (by omega), Nat.add_assoc,
    Nat.add_assoc, Nat.add_assoc, Nat.add_sub_cancel_left, Nat.add_sub_cancel_left,
    Nat.add_sub_cancel_left, Nat.add_sub_cancel_left]

theorem be16_eq {b : Bytes} {i : ℕ} {v : BitVec 16} (h0 : b.getD i 0 = netByte v.toNat 8)
    (h1 : b.getD (i + 1) 0 = netByte v.toNat 0) : be16 b i = v := by
  have hv := v.isLt
  apply BitVec.eq_of_toNat_eq
  rw [be16, h0, h1, BitVec.toNat_ofNat, toNat_netByte, toNat_netByte, Nat.pow_zero, Nat.div_one]
  omega

theorem be32_eq {b : Bytes} {i : ℕ} {v : BitVec 32} (h0 : b.getD i 0 = netByte v.toNat 24)
    (h1 : b.getD (i + 1) 0 = netByte v.toNat 16) (h2 : b.getD (i + 2) 0 = netByte v.toNat 8)
    (h3 : b.getD (i + 3) 0 = netByte v.toNat 0) : be32 b i = v := by
  have hv := v.isLt
  apply BitVec.eq_of_toNat_eq
  rw [be32, h0, h1, h2, h3, BitVec.toNat_ofNat, toNat_netByte, toNat_netByte, toNat_netByte,
    toNat_netByte, Nat.pow_zero, Nat.div_one]
  omega

section Frame

variable (id : BitVec 16) (dstMac srcMac : Mac) (src dst : Ip) (srcPort dstPort : Port) (payload : Bytes)

@[simp] theorem length_netBuildEth (type : BitVec 16) : (netBuildEth dstMac srcMac type).length = 14 := by
  simp [netBuildEth, dstMac.length_eq, srcMac.length_eq]

theorem udpFrame_layers (pad : Bytes) :
    udpFrame id dstMac srcMac src dst srcPort dstPort payload ++ pad =
      netBuildEth dstMac srcMac 0x0800 ++
        ((netBuildIp id src dst 17 (8 + BitVec.ofNat 16 payload.length)).1 ++
          (netBuildUdp srcPort dstPort (BitVec.ofNat 16 payload.length) ++ (payload ++ pad))) := by
  simp only [udpFrame, append_assoc]

variable {id dstMac srcMac src dst srcPort dstPort payload}

theorem be16_ip (pad : Bytes) (i : ℕ) :
    be16 (udpFrame id dstMac srcMac src dst srcPort dstPort payload ++ pad) (14 + i) =
      be16 ((netBuildIp id src dst 17 (8 + BitVec.ofNat 16 payload.length)).1 ++
        (netBuildUdp srcPort dstPort (BitVec.ofNat 16 payload.length) ++ (payload ++ pad))) i := by
  rw [udpFrame_layers, ← length_netBuildEth dstMac srcMac 0x0800, be16_append]

theorem be32_ip (pad : Bytes) (i : ℕ) :
    be32 (udpFrame id dstMac srcMac src dst srcPort dstPort payload ++ pad) (14 + i) =
      be32 ((netBuildIp id src dst 17 (8 + BitVec.ofNat 16 payload.length)).1 ++
        (netBuildUdp srcPort dstPort (BitVec.ofNat 16 payload.length) ++ (payload ++ pad))) i := by
  rw [udpFrame_layers, ← length_netBuildEth dstMac srcMac 0x0800, be32_append]

theorem getD_ip (pad : Bytes) (i : ℕ) :
    (udpFrame id dstMac srcMac src dst srcPort dstPort payload ++ pad).getD (14 + i) 0 =
      ((netBuildIp id src dst 17 (8 + BitVec.ofNat 16 payload.length)).1 ++
        (netBuildUdp srcPort dstPort (BitVec.ofNat 16 payload.length) ++ (payload ++ pad))).getD i 0 := by
  rw [udpFrame_layers, getD_append_right _ _ _ _ (by rw [length_netBuildEth]; omega),
    length_netBuildEth, Nat.add_sub_cancel_left]

theorem be16_udp (pad : Bytes) (i : ℕ) :
    be16 (udpFrame id dstMac srcMac src dst srcPort dstPort payload ++ pad) (14 + 20 + i) =
      be16 (netBuildUdp srcPort dstPort (BitVec.ofNat 16 payload.length) ++ (payload ++ pad)) i := by
  rw [Nat.add_assoc, be16_ip]
  exact be16_append (netBuildIp id src dst 17 (8 + BitVec.ofNat 16 payload.length)).1 _ i

/-- The header that is read of a frame. -/
def udpHdr (src dst : Ip) (n : ℕ) : IpHdr := ⟨20, 28 + n, 17, src, dst⟩

theorem toNat_total {n : ℕ} (h : 28 + n < 2 ^ 16) :
    (20 + (8 + BitVec.ofNat 16 n)).toNat = 28 + n := by
  rw [BitVec.toNat_add, BitVec.toNat_add, BitVec.toNat_ofNat]
  have h20 : (20 : BitVec 16).toNat = 20 := rfl
  have h8 : (8 : BitVec 16).toNat = 8 := rfl
  omega

theorem length_udpFrame :
    (udpFrame id dstMac srcMac src dst srcPort dstPort payload).length = 42 + payload.length := by
  rw [udpFrame, length_append, length_append, length_append, length_netBuildEth]
  rfl

theorem udpFrame_ethertype (pad : Bytes) :
    be16 (udpFrame id dstMac srcMac src dst srcPort dstPort payload ++ pad) 12 = 0x0800#16 := by
  have hmacs : (dstMac.bytes ++ srcMac.bytes).length = 12 := by
    rw [length_append, dstMac.length_eq, srcMac.length_eq]
  rw [udpFrame_layers, netBuildEth, append_assoc (dstMac.bytes ++ srcMac.bytes), ← hmacs]
  exact (be16_append _ _ 0).trans (be16_eq rfl rfl)

theorem udpFrame_total (pad : Bytes) :
    be16 (udpFrame id dstMac srcMac src dst srcPort dstPort payload ++ pad) 16 =
      20 + (8 + BitVec.ofNat 16 payload.length) := (be16_ip pad 2).trans (be16_eq rfl rfl)

theorem udpFrame_srcPort (pad : Bytes) :
    be16 (udpFrame id dstMac srcMac src dst srcPort dstPort payload ++ pad) 34 = srcPort :=
  (be16_udp pad 0).trans (be16_eq rfl rfl)

theorem udpFrame_dstPort (pad : Bytes) :
    be16 (udpFrame id dstMac srcMac src dst srcPort dstPort payload ++ pad) 36 = dstPort :=
  (be16_udp pad 2).trans (be16_eq rfl rfl)

theorem udpFrame_udpLen (pad : Bytes) :
    be16 (udpFrame id dstMac srcMac src dst srcPort dstPort payload ++ pad) 38 =
      8 + BitVec.ofNat 16 payload.length := (be16_udp pad 4).trans (be16_eq rfl rfl)

theorem udpFrame_ipHeader :
    ((udpFrame id dstMac srcMac src dst srcPort dstPort payload).drop 14).take 20 =
      (netBuildIp id src dst 17 (8 + BitVec.ofNat 16 payload.length)).1 := by
  have hlayers := udpFrame_layers id dstMac srcMac src dst srcPort dstPort payload []
  rw [append_nil] at hlayers
  rw [hlayers, drop_left' (length_netBuildEth ..)]
  exact take_left' rfl

theorem udpFrame_data (pad : Bytes) :
    udpData (udpFrame id dstMac srcMac src dst srcPort dstPort payload ++ pad)
      (udpHdr src dst payload.length) = payload := by
  have hfront : (netBuildEth dstMac srcMac 0x0800 ++
      (netBuildIp id src dst 17 (8 + BitVec.ofNat 16 payload.length)).1 ++
        netBuildUdp srcPort dstPort (BitVec.ofNat 16 payload.length)).length = 14 + 20 + 8 := by
    rw [length_append, length_append, length_netBuildEth]
    rfl
  show ((udpFrame id dstMac srcMac src dst srcPort dstPort payload ++ pad).drop (14 + 20 + 8)).take
    (28 + payload.length - 20 - 8) = payload
  rw [udpFrame, append_assoc, drop_left' hfront]
  exact take_left' (by omega)

/-- **What is read of a frame is what it was built from**, whatever padding follows it. -/
theorem udpFrame_header (h : 28 + payload.length < 2 ^ 16) (pad : Bytes) :
    IpHdr.Of (udpFrame id dstMac srcMac src dst srcPort dstPort payload ++ pad)
      (udpHdr src dst payload.length) := by
  have hlen : (udpFrame id dstMac srcMac src dst srcPort dstPort payload ++ pad).length =
      42 + payload.length + pad.length := by
    rw [length_append, length_udpFrame]
  have htotal : be16 (udpFrame id dstMac srcMac src dst srcPort dstPort payload ++ pad) 16 =
      20 + (8 + BitVec.ofNat 16 payload.length) := udpFrame_total pad
  have hfirst : (udpFrame id dstMac srcMac src dst srcPort dstPort payload ++ pad).getD 14 0 = 0x45 :=
    getD_ip pad 0
  have hproto : (udpFrame id dstMac srcMac src dst srcPort dstPort payload ++ pad).getD 23 0 = 17 :=
    getD_ip pad 9
  refine ⟨by omega, ?_, ?_, by show 20 ≤ 20; exact Nat.le_refl _, ?_, ?_, ?_, ?_, ?_, ?_⟩
  · rw [hfirst]
    rfl
  · rw [hfirst]
    rfl
  · show 14 + 20 ≤ _
    omega
  · rw [htotal, toNat_total h]
    show 20 ≤ 28 + _
    omega
  · rw [htotal, toNat_total h, hlen]
    show 28 + payload.length = _
    omega
  · rw [hproto]
    rfl
  · exact ((be32_ip pad 12).trans (be32_eq rfl rfl rfl rfl)).symm
  · exact ((be32_ip pad 16).trans (be32_eq rfl rfl rfl rfl)).symm

end Frame

/-! ### Delivery -/

/-- A socket for datagrams that is bound to an address and a port, with sound rings. -/
structure NetStack.Bound (s : NetStack) (i : ℕ) (ip : Ip) (port : Port) : Prop where
  lt : i < sockMax
  used : (s.tcp.net.socks i).used = true
  domain : (s.tcp.net.socks i).domain = 2
  type : (s.tcp.net.socks i).type = 2
  protocol : (s.tcp.net.socks i).protocol = 0 ∨ (s.tcp.net.socks i).protocol = 17
  localIp : sockIpMatch (s.tcp.net.socks i).localIp ip = true
  localPort : (s.tcp.net.socks i).localPort = port
  queue : (s.tcp.net.socks i).rxMsg.Ok
  room : (s.tcp.net.socks i).rx.used ≤ sockBufSize

/-- A socket got a datagram: its bytes, and its length with the sender. -/
structure NetStack.Delivered (s t : NetStack) (i : ℕ) (payload : Bytes) (ip : Ip) (port : Port) :
    Prop where
  bytes : (t.tcp.net.socks i).rx.contents = (s.tcp.net.socks i).rx.contents ++ payload
  message : (t.tcp.net.socks i).rxMsg.contents =
    (s.tcp.net.socks i).rxMsg.contents ++ [⟨payload.length, ip, port⟩]

/-- What a datagram must find to get to a socket: data of its own, no earlier socket that takes it, and
room for the data and for their length. -/
structure NetStack.Reaches (s : NetStack) (i : ℕ) (payload : Bytes) (src dst : Ip)
    (srcPort dstPort : Port) : Prop where
  nonempty : payload ≠ []
  first : ∀ j < i, (s.tcp.net.socks j).takes 17 src dst srcPort dstPort = false
  fits : payload.length ≤ (s.tcp.net.socks i).rxRoom
  place : (s.tcp.net.socks i).rxMsgFull = false

theorem firstSlot_iff {p : ℕ → Bool} {n i : ℕ} :
    firstSlot p n = some i ↔ p i = true ∧ i < n ∧ ∀ j < i, p j = false := by
  simp [firstSlot]

namespace NetStack

variable {s t : NetStack} {i fd : ℕ} {ip src dst : Ip} {port srcPort dstPort : Port} {payload : Bytes}

theorem Bound.takes (h : s.Bound i dst dstPort) (src : Ip) (srcPort : Port) :
    (s.tcp.net.socks i).takes 17 src dst srcPort dstPort = true := by
  rw [Sock.takes, decide_eq_true_eq]
  have hno : (17 : ℕ) ≠ 6 := by decide
  exact ⟨h.used, h.domain, fun hc => absurd hc hno, fun _ => h.type, h.protocol, h.localIp,
    .inr h.localPort, fun hc => absurd hc hno, fun hc => absurd hc hno⟩

theorem not_delivered (h : (t.tcp.net.socks i).rxMsg = (s.tcp.net.socks i).rxMsg) :
    ¬ s.Delivered t i payload ip port := by
  intro hd
  have := congrArg List.length hd.message
  rw [h, length_append, length_singleton] at this
  omega

theorem deliver_of_ne (h : i ≠ fd) :
    (s.deliver fd payload ip port).tcp.net.socks i = s.tcp.net.socks i := by
  unfold deliver Net.netEvent
  dsimp only
  split_ifs
  · exact Net.setSock_of_ne _ h _
  · exact Net.setSock_of_ne _ h _
  · rfl
  · rfl

theorem delivered_store (hbound : s.Bound i dst dstPort)
    (hroom : payload.length ≤ (s.tcp.net.socks i).rxRoom)
    (hfull : (s.tcp.net.socks i).rxMsgFull = false) :
    s.Delivered { s with tcp := s.tcp.setSock i ((s.tcp.net.socks i).store payload ip port) } i
      payload ip port := by
  have hsock : (s.tcp.setSock i ((s.tcp.net.socks i).store payload ip port)).net.socks i =
      (s.tcp.net.socks i).store payload ip port := Net.setSock_self ..
  have hnext : Circular.succ sockDgramq (s.tcp.net.socks i).rxMsg.head ≠
      (s.tcp.net.socks i).rxMsg.tail := by
    simpa only [Sock.rxMsgFull, decide_eq_false_iff_not] using hfull
  have hall : ((s.tcp.net.socks i).pushRx payload).1 = payload.length := Nat.min_eq_left hroom
  have hbytes := (Sock.contents_pushRx hbound.room payload).1
  rw [hall, take_length] at hbytes
  refine ⟨?_, ?_⟩
  · rw [hsock]
    exact hbytes
  · rw [hsock]
    exact hbound.queue.contents_put _ hnext

theorem For.delivers_iff {f : Bytes} {h : IpHdr} (hfor : s.For f h fd) (hfits : UdpFits h)
    (hbound : s.Bound i h.dst (be16 f (14 + h.ihl + 2))) (link : ℕ → Bool) :
    (∃ t, s.netProcessFrame f link = some t ∧
        s.Delivered t i (udpData f h) h.src (be16 f (14 + h.ihl))) ↔
      s.Reaches i (udpData f h) h.src h.dst (be16 f (14 + h.ihl)) (be16 f (14 + h.ihl + 2)) := by
  have hrun := hfor.process_dgram hfits link
  have hfound := hfor.found
  rw [hfits.1] at hfound
  obtain ⟨htakes, hlt, hfirst⟩ := firstSlot_iff.1 hfound
  have hfdi : fd ≤ i := by
    by_contra hlt
    exact absurd (hbound.takes h.src (be16 f (14 + h.ihl))) (by rw [hfirst i (by omega)]; decide)
  constructor
  · rintro ⟨t, ht, hd⟩
    obtain rfl := Option.some.inj (hrun.symm.trans ht)
    have hsize : (udpData f h).length ≤ sockBufSize := by
      have := length_udpData hfor.header hfits
      have := hfor.header.total_eq
      have := (be16 f 16).isLt
      unfold sockBufSize sockBufBits
      omega
    have hnil : udpData f h ≠ [] := by
      intro hnil
      refine not_delivered ?_ hd
      rw [hnil]
      rfl
    have hfd : i = fd := by
      by_contra hne
      exact not_delivered (congrArg Sock.rxMsg (deliver_of_ne hne)) hd
    subst hfd
    by_cases hroom : (udpData f h).length ≤ (s.tcp.net.socks i).rxRoom ∧
        (s.tcp.net.socks i).rxMsgFull = false
    · exact ⟨hnil, hfirst, hroom.1, hroom.2⟩
    · rw [deliver_strays hfor.live hnil hsize hroom] at hd
      have hsock : (s.tcp.setSock i ((s.tcp.net.socks i).pushRx (udpData f h)).2).net.socks i =
        ((s.tcp.net.socks i).pushRx (udpData f h)).2 := Net.setSock_self ..
      exact absurd hd (not_delivered ((congrArg Sock.rxMsg hsock).trans rfl))
  · intro hr
    have hfd : fd = i := by
      by_contra hne
      exact absurd htakes (by rw [hr.first fd (by omega)]; decide)
    subst hfd
    rw [hrun, deliver_stores hfor.live hr.nonempty hr.fits hr.place]
    exact ⟨_, rfl, delivered_store hbound hr.fits hr.place⟩

end NetStack

/-- **A frame that is built brings its data to the socket it is for**, padded or not, exactly when there
are data, no earlier socket takes the packet, and the rings have room; its checksum verifies and its
lengths are right in any case. -/
theorem udp_frame_delivered (id : BitVec 16) (dstMac srcMac : Mac) (src dst : Ip) (srcPort dstPort : Port)
    {payload : Bytes} (hlen : 28 + payload.length < 2 ^ 16) (pad : Bytes) (link : ℕ → Bool) {s : NetStack}
    {i : ℕ} (hbound : s.Bound i dst dstPort) :
    let f := udpFrame id dstMac srcMac src dst srcPort dstPort payload
    netChecksum ((f.drop 14).take 20) = 0 ∧ 14 + totalField f = f.length ∧
      34 + (be16 f 38).toNat = f.length ∧
      ((∃ t, s.netProcessFrame (f ++ pad) link = some t ∧ s.Delivered t i payload src srcPort) ↔
        s.Reaches i payload src dst srcPort dstPort) := by
  intro f
  have hflen : f.length = 42 + payload.length := length_udpFrame
  have hpadded : f ++ [] = f := append_nil f
  have htotal : totalField f = 28 + payload.length := by
    rw [totalField, ← hpadded, udpFrame_total, toNat_total hlen]
  have hudp : (be16 f 38).toNat = 8 + payload.length := by
    have h8 : (8 : BitVec 16).toNat = 8 := rfl
    rw [← hpadded, udpFrame_udpLen, BitVec.toNat_add, BitVec.toNat_ofNat]
    omega
  have hfits : UdpFits (udpHdr src dst payload.length) :=
    ⟨rfl, by show 20 + 8 ≤ 28 + payload.length; omega⟩
  refine ⟨by rw [udpFrame_ipHeader]; exact netBuildIp_checksum .., by omega, by omega, ?_⟩
  -- the bound socket takes the packet, so that some socket is found
  obtain ⟨fd, hfd⟩ : ∃ fd, s.findSock 17 src dst srcPort dstPort = some fd := by
    refine Option.ne_none_iff_exists'.1 fun hnone => ?_
    have := firstSlot_eq_none hnone i hbound.lt
    exact absurd (hbound.takes src srcPort) (by rw [this]; decide)
  have hfor : s.For (f ++ pad) (udpHdr src dst payload.length) fd := by
    refine ⟨udpFrame_ethertype pad, udpFrame_header hlen pad, .inr rfl, ?_, ?_⟩
    · show 20 + 4 ≤ 28 + payload.length
      omega
    · show s.findSock 17 src dst (be16 (f ++ pad) 34) (be16 (f ++ pad) 36) = some fd
      rw [udpFrame_srcPort, udpFrame_dstPort, hfd]
  have hiff := hfor.delivers_iff (i := i) hfits (by
    show s.Bound i dst (be16 (f ++ pad) 36)
    rw [udpFrame_dstPort]
    exact hbound) link
  rw [udpFrame_data] at hiff
  have hsrc : be16 (f ++ pad) (14 + (udpHdr src dst payload.length).ihl) = srcPort := udpFrame_srcPort pad
  have hdst : be16 (f ++ pad) (14 + (udpHdr src dst payload.length).ihl + 2) = dstPort :=
    udpFrame_dstPort pad
  rw [hsrc, hdst] at hiff
  exact hiff

/-- A socket that is bound to port 53, behind a socket for datagrams that is not bound. -/
def boundStack : NetStack :=
  ⟨(Tcp.boot.setSock 0 (.fresh 2 2 0)).setSock 1 { Sock.fresh 2 2 0 with localPort := 53 },
    fun _ => ⟨0, [], false⟩⟩

def sampleMac : Mac := ⟨List.replicate 6 1, rfl⟩

/-- A frame with one byte, padded to 60 bytes. -/
def sampleFrame : Bytes := udpFrame 1 sampleMac sampleMac 0x0A000202 0x0A00020F 1024 53 [7]

theorem boundStack_bound : boundStack.Bound 1 0x0A00020F 53 :=
  ⟨by decide, rfl, rfl, rfl, .inl rfl, by decide, rfl, ⟨by decide, by decide⟩, by decide⟩

theorem udp_frame_delivered_sample :
    netChecksum ((sampleFrame.drop 14).take 20) = 0 ∧ 14 + totalField sampleFrame = sampleFrame.length ∧
      34 + (be16 sampleFrame 38).toNat = sampleFrame.length ∧
      ((∃ t, boundStack.netProcessFrame (sampleFrame ++ List.replicate 17 0) (fun _ => true) = some t ∧
          boundStack.Delivered t 1 [7] 0x0A000202 1024) ↔
        boundStack.Reaches 1 [7] 0x0A000202 0x0A00020F 1024 53) :=
  udp_frame_delivered 1 sampleMac sampleMac 0x0A000202 0x0A00020F 1024 53 (by decide)
    (List.replicate 17 0) (fun _ => true) boundStack_bound

/-- The socket that is not bound takes it. -/
theorem udp_frame_not_delivered : ¬ ∀ (id : BitVec 16) (dstMac srcMac : Mac) (src dst : Ip)
    (srcPort dstPort : Port) (payload pad : Bytes) (link : ℕ → Bool) (s : NetStack) (i : ℕ),
    28 + payload.length < 2 ^ 16 → s.Bound i dst dstPort →
      ∃ t, s.netProcessFrame (udpFrame id dstMac srcMac src dst srcPort dstPort payload ++ pad) link =
        some t ∧ s.Delivered t i payload src srcPort := by
  intro h
  obtain ⟨t, ht, hd⟩ := h 1 sampleMac sampleMac 0x0A000202 0x0A00020F 1024 53 [7] [] (fun _ => true)
    boundStack 1 (by decide) boundStack_bound
  have hrun : (boundStack.netProcessFrame (sampleFrame ++ []) fun _ => true).map
      (fun t => (t.tcp.net.socks 1).rxMsg.contents.length) = some 0 := by decide +kernel
  have hlen : (t.tcp.net.socks 1).rxMsg.contents.length = 0 := by
    rw [show boundStack.netProcessFrame (sampleFrame ++ []) (fun _ => true) = some t from ht] at hrun
    exact Option.some.inj hrun
  rw [hd.message, length_append, length_singleton] at hlen
  omega

end Ridux
