import Ridux.Lib.Buffer
import Ridux.Tcp.Stack

/-!
# Frames from the network card

`net_process_frame`: what a frame that came in does to the sockets and to the cache of addresses.

* `NetStack`: the TCP engine with the sockets, and `g_arp_cache`;
* `readIp`: the checks of the IP header;
* `NetStack.inspect`: for whom a frame is, and where in it the data lie;
* `NetStack.netProcessFrame`: what becomes of it.

A byte that is read outside of the frame has no value, and the frame then has no result.
-/

namespace Ridux

open Lib Option

/-! ### Reading a frame -/

/-- A byte of a frame. -/
def peek (f : Bytes) (i : ℕ) : Option ℕ := within f i 1 (f.getD i 0).toNat

def peek16 (f : Bytes) (i : ℕ) : Option (BitVec 16) := within f i 2 (be16 f i)

def peek32 (f : Bytes) (i : ℕ) : Option (BitVec 32) := within f i 4 (be32 f i)

/-- The fields of an IP header that are read; `total` is cut to the frame. -/
structure IpHdr where
  ihl : ℕ
  total : ℕ
  proto : ℕ
  src : Ip
  dst : Ip

/-- The IP header behind an Ethernet header, when the frame is not dropped for it. -/
def readIp (f : Bytes) : Option (Option IpHdr) :=
  if f.length < 14 + 20 then some none
  else
    (peek f 14).bind fun b =>
      let ihl := b % 16 * 4
      if b / 16 ≠ 4 then some none
      else if ihl < 20 ∨ f.length < 14 + ihl then some none
      else
        (peek16 f 16).bind fun len =>
          if len.toNat < ihl then some none
          else
            (peek f 23).bind fun proto =>
              (peek32 f 26).bind fun src =>
                (peek32 f 30).bind fun dst =>
                  some (some ⟨ihl, min len.toNat (f.length - 14), proto, src, dst⟩)

/-! ### Addresses of the link -/

def arpCacheSize : ℕ := 32

/-- `compat_arp_entry_t`. -/
structure ArpEntry where
  ip : Ip
  mac : Bytes
  valid : Bool
  deriving DecidableEq

/-- Where the packet of a frame begins for `arp_process`. -/
def arpStart (f : Bytes) : Option (Option ℕ) :=
  if 42 ≤ f.length then
    (peek16 f 12).bind fun type => some (some (if type = 0x0806#16 then 14 else 0))
  else some (if 28 ≤ f.length then some 0 else none)

/-- The address that a packet tells. -/
def arpRead (f : Bytes) (a : ℕ) : Option (Option ArpEntry) :=
  (block f a 6).bind fun hdr =>
    if hdr ≠ [0, 1, 8, 0, 6, 4] then some none
    else
      (peek32 f (a + 14)).bind fun sip =>
        if sip = 0 then some none
        else (block f (a + 8) 6).bind fun mac => some (some ⟨sip, mac, true⟩)

/-- The slot for an address: its own one, else a free one, else the first. -/
def arpSlot (cache : ℕ → ArpEntry) (ip : Ip) : ℕ :=
  ((firstSlot (fun i => (cache i).valid ∧ (cache i).ip = ip) arpCacheSize).or
    (firstSlot (fun i => !(cache i).valid) arpCacheSize)).getD 0

/-! ### For whom a frame is -/

/-- What is to be done with a frame.  `off` and `n` say where in the frame the segment or the data
of the datagram lie. -/
inductive Incoming
  | drop
  | learn (e : ArpEntry)
  | segment (fd off n : ℕ)
  | dgram (fd off n : ℕ) (ip : Ip) (port : Port)

/-- The TCP engine with its sockets, and the addresses of the link. -/
structure NetStack where
  tcp : Tcp
  arp : ℕ → ArpEntry

/-- Is a packet with these addresses for the socket? -/
def Sock.takes (k : Sock) (proto : ℕ) (src dst : Ip) (srcPort dstPort : Port) : Bool :=
  k.used ∧ k.domain = 2 ∧ (proto = 6 → k.type = 1) ∧ (proto = 17 → k.type = 2) ∧
    (k.protocol = 0 ∨ k.protocol = proto) ∧ sockIpMatch k.localIp dst ∧
    (k.localPort = 0 ∨ k.localPort = dstPort) ∧
    (proto = 6 → k.remoteIp = 0 ∨ k.remoteIp = src) ∧
    (proto = 6 → k.remotePort = 0 ∨ k.remotePort = srcPort)

namespace NetStack

/-- The first socket that takes a packet. -/
def findSock (s : NetStack) (proto : ℕ) (src dst : Ip) (srcPort dstPort : Port) : Option ℕ :=
  firstSlot (fun i => (s.tcp.net.socks i).takes proto src dst srcPort dstPort) sockMax

/-- `arp_process`, up to what it writes. -/
def inspectArp (f : Bytes) : Option Incoming :=
  (arpStart f).bind fun start =>
    start.elim (some .drop) fun a =>
      (arpRead f a).bind fun e => some (e.elim .drop .learn)

/-- The size of a transport header: a TCP header tells it. -/
def hdrSize (f : Bytes) (h : IpHdr) : Option ℕ :=
  if h.proto = 6 then (peek f (14 + h.ihl + 12)).bind fun b => some (b / 16 * 4) else some 8

/-- The socket for an IP packet, by its ports. -/
def inspectPorts (s : NetStack) (f : Bytes) (h : IpHdr) : Option (Option (ℕ × Port)) :=
  if h.total < h.ihl + 4 then some none
  else
    (peek16 f (14 + h.ihl)).bind fun srcPort =>
      (peek16 f (14 + h.ihl + 2)).bind fun dstPort =>
        some ((s.findSock h.proto h.src h.dst srcPort dstPort).map fun fd => (fd, srcPort))

/-- The part of `net_process_frame` for TCP and UDP. -/
def inspectIp (s : NetStack) (f : Bytes) (h : IpHdr) : Option Incoming :=
  if h.proto ≠ 6 ∧ h.proto ≠ 17 then some .drop
  else
    (s.inspectPorts f h).bind fun found =>
      found.elim (some .drop) fun r =>
        (hdrSize f h).bind fun hdr =>
          if h.proto = 6 ∧ hdr < 20 ∨ hdr < 8 ∨ h.total < h.ihl + hdr then some .drop
          else if h.proto = 6 then some (.segment r.1 (14 + h.ihl) (h.total - h.ihl))
          else some (.dgram r.1 (14 + h.ihl + hdr) (h.total - h.ihl - hdr) h.src r.2)

/-- `net_process_frame`, up to what it does with the data. -/
def inspect (s : NetStack) (f : Bytes) : Option Incoming :=
  if f.length < 14 then some .drop
  else
    (peek16 f 12).bind fun ethertype =>
      if ethertype = 0x0806#16 then inspectArp f
      else if ethertype ≠ 0x0800#16 then some .drop
      else (readIp f).bind fun h => h.elim (some .drop) (s.inspectIp f)

/-- The data of a datagram into a socket; nothing is done for no data. -/
def deliver (s : NetStack) (fd : ℕ) (payload : Bytes) (ip : Ip) (port : Port) : NetStack :=
  if payload ≠ [] ∧ payload.length ≤ sockBufSize then
    { s with tcp := { s.tcp with net := s.tcp.net.netEvent (.dgram fd payload ip port) } }
  else s

/-- What is done with a frame; `link` says which frames of the TCP engine the network card takes. -/
def perform (s : NetStack) (f : Bytes) (link : ℕ → Bool) : Incoming → Option NetStack
  | .drop => some s
  | .learn e => some { s with arp := Function.update s.arp (arpSlot s.arp e.ip) e }
  | .segment fd off n =>
    (block f off n).bind fun tp => some { s with tcp := s.tcp.processTcp fd tp link }
  | .dgram fd off n ip port =>
    (block f off n).bind fun payload => some (s.deliver fd payload ip port)

def netProcessFrame (s : NetStack) (f : Bytes) (link : ℕ → Bool) : Option NetStack :=
  (s.inspect f).bind (s.perform f link)

end NetStack

/-! ### What a header says -/

variable {f : Bytes} {i : ℕ}

theorem peek_of_lt (h : i < f.length) : peek f i = some (f.getD i 0).toNat :=
  within_of_le h _

theorem peek16_of_le (h : i + 2 ≤ f.length) : peek16 f i = some (be16 f i) :=
  within_of_le h _

theorem peek32_of_le (h : i + 4 ≤ f.length) : peek32 f i = some (be32 f i) :=
  within_of_le h _

/-- The header of a frame that is not dropped for it. -/
structure IpHdr.Of (f : Bytes) (h : IpHdr) : Prop where
  short : 34 ≤ f.length
  version : (f.getD 14 0).toNat / 16 = 4
  ihl_eq : h.ihl = (f.getD 14 0).toNat % 16 * 4
  ihl_min : 20 ≤ h.ihl
  ihl_le : 14 + h.ihl ≤ f.length
  ihl_le_len : h.ihl ≤ (be16 f 16).toNat
  total_eq : h.total = min (be16 f 16).toNat (f.length - 14)
  proto_eq : h.proto = (f.getD 23 0).toNat
  src_eq : h.src = be32 f 26
  dst_eq : h.dst = be32 f 30

variable {h : IpHdr} {a : ℕ}

theorem IpHdr.Of.total_le (hh : IpHdr.Of f h) : 14 + h.total ≤ f.length := by
  have := hh.total_eq
  have := hh.short
  omega

theorem IpHdr.Of.ext {h' : IpHdr} (hh : IpHdr.Of f h) (hh' : IpHdr.Of f h') : h = h' := by
  have hihl := hh.ihl_eq.trans hh'.ihl_eq.symm
  have htotal := hh.total_eq.trans hh'.total_eq.symm
  have hproto := hh.proto_eq.trans hh'.proto_eq.symm
  have hsrc := hh.src_eq.trans hh'.src_eq.symm
  have hdst := hh.dst_eq.trans hh'.dst_eq.symm
  cases h
  cases h'
  simp only at hihl htotal hproto hsrc hdst
  rw [hihl, htotal, hproto, hsrc, hdst]

theorem readIp_cases (f : Bytes) :
    (readIp f = some none ∧ ∀ h, ¬ IpHdr.Of f h) ∨ ∃ h, readIp f = some (some h) ∧ IpHdr.Of f h := by
  unfold readIp
  split_ifs with hshort
  · exact .inl ⟨rfl, fun h hh => by have := hh.short; omega⟩
  rw [peek_of_lt (by omega), peek16_of_le (by omega), peek_of_lt (by omega), peek32_of_le (by omega),
    peek32_of_le (by omega)]
  simp only [bind_some]
  split_ifs with hver hihl hlen
  · exact .inl ⟨rfl, fun h hh => hver hh.version⟩
  · refine .inl ⟨rfl, fun h hh => ?_⟩
    have := hh.ihl_eq
    have := hh.ihl_min
    have := hh.ihl_le
    omega
  · refine .inl ⟨rfl, fun h hh => ?_⟩
    have := hh.ihl_eq
    have := hh.ihl_le_len
    omega
  · refine .inr ⟨_, rfl, ?_⟩
    refine ⟨by omega, by omega, rfl, ?_, ?_, ?_, rfl, rfl, rfl, rfl⟩ <;> dsimp only <;> omega

theorem readIp_eq_some : readIp f = some (some h) ↔ IpHdr.Of f h := by
  rcases readIp_cases f with ⟨he, hno⟩ | ⟨g, he, hg⟩
  · rw [he]
    exact ⟨fun heq => absurd heq (by simp), fun hh => absurd hh (hno h)⟩
  · rw [he]
    constructor
    · intro h
      cases h
      exact hg
    · intro hh
      rw [hg.ext hh]

/-! ### What a packet of addresses says -/

/-- Where the packet of an ARP frame is taken to begin. -/
def arpOffset (f : Bytes) : Option ℕ :=
  if 42 ≤ f.length then some 14 else if 28 ≤ f.length then some 0 else none

/-- The address that an ARP frame tells. -/
def arpTold (f : Bytes) : Option ArpEntry :=
  (arpOffset f).bind fun a =>
    if (f.drop a).take 6 = [0, 1, 8, 0, 6, 4] ∧ be32 f (a + 14) ≠ 0 then
      some ⟨be32 f (a + 14), (f.drop (a + 8)).take 6, true⟩
    else none

theorem arpOffset_le (h : arpOffset f = some a) : a + 28 ≤ f.length := by
  unfold arpOffset at h
  split_ifs at h <;> cases h <;> omega

theorem arpStart_eq (h : be16 f 12 = 0x0806#16) : arpStart f = some (arpOffset f) := by
  unfold arpStart arpOffset
  split_ifs with hlong hshort
  · rw [peek16_of_le (by omega), bind_some, h, if_pos rfl]
  · rfl
  · rfl

theorem arpRead_eq (h : a + 28 ≤ f.length) : arpRead f a =
    some (if (f.drop a).take 6 = [0, 1, 8, 0, 6, 4] ∧ be32 f (a + 14) ≠ 0 then
      some ⟨be32 f (a + 14), (f.drop (a + 8)).take 6, true⟩ else none) := by
  rw [arpRead, block_of_le (by omega), bind_some]
  by_cases hhdr : (f.drop a).take 6 = [0, 1, 8, 0, 6, 4]
  · rw [if_neg (not_not.2 hhdr), peek32_of_le (by omega), bind_some]
    by_cases hip : be32 f (a + 14) = 0
    · rw [if_pos hip, if_neg fun hc => hc.2 hip]
    · rw [if_neg hip, if_pos ⟨hhdr, hip⟩, block_of_le (by omega), bind_some]
  · rw [if_pos hhdr, if_neg fun hc => hhdr hc.1]

theorem NetStack.inspectArp_eq (h : be16 f 12 = 0x0806#16) :
    NetStack.inspectArp f = some ((arpTold f).elim .drop .learn) := by
  rw [NetStack.inspectArp, arpStart_eq h, bind_some, arpTold]
  cases hoff : arpOffset f with
  | none => rfl
  | some a =>
    rw [elim_some, arpRead_eq (arpOffset_le hoff)]
    rfl

/-! ### What is done with a frame -/

namespace NetStack

/-- The packet of a frame is for the socket `fd`. -/
structure For (s : NetStack) (f : Bytes) (h : IpHdr) (fd : ℕ) : Prop where
  ethertype : be16 f 12 = 0x0800#16
  header : IpHdr.Of f h
  proto : h.proto = 6 ∨ h.proto = 17
  ports : h.ihl + 4 ≤ h.total
  found : s.findSock h.proto h.src h.dst (be16 f (14 + h.ihl)) (be16 f (14 + h.ihl + 2)) = some fd

variable {s : NetStack} {fd : ℕ}

theorem For.live (hfor : s.For f h fd) : s.tcp.net.live fd = true := by
  obtain ⟨hlt, htakes⟩ := firstSlot_eq_some hfor.found
  rw [Sock.takes, decide_eq_true_eq] at htakes
  exact Net.live_iff.2 ⟨hlt, htakes.1⟩

theorem inspectPorts_of_le (hh : IpHdr.Of f h) (hports : h.ihl + 4 ≤ h.total) : s.inspectPorts f h =
      some ((s.findSock h.proto h.src h.dst (be16 f (14 + h.ihl)) (be16 f (14 + h.ihl + 2))).map
        fun fd => (fd, be16 f (14 + h.ihl))) := by
  have := hh.total_le
  rw [inspectPorts, if_neg (by omega), peek16_of_le (by omega), bind_some,
    peek16_of_le (by omega), bind_some]

theorem For.inspect_eq (hfor : s.For f h fd) :
    s.inspect f = (hdrSize f h).bind fun hdr =>
      if h.proto = 6 ∧ hdr < 20 ∨ hdr < 8 ∨ h.total < h.ihl + hdr then some .drop
      else if h.proto = 6 then some (.segment fd (14 + h.ihl) (h.total - h.ihl))
      else some (.dgram fd (14 + h.ihl + hdr) (h.total - h.ihl - hdr) h.src (be16 f (14 + h.ihl))) := by
  have hlen := hfor.header.short
  have hip : s.inspect f = s.inspectIp f h := by
    rw [inspect, if_neg (by omega), peek16_of_le (by omega), bind_some, hfor.ethertype,
      if_neg (by decide), if_neg (by decide), readIp_eq_some.2 hfor.header]
    rfl
  have hproto : ¬ (h.proto ≠ 6 ∧ h.proto ≠ 17) := by
    have := hfor.proto
    omega
  rw [hip, inspectIp, if_neg hproto, inspectPorts_of_le hfor.header hfor.ports, hfor.found]
  rfl

theorem inspect_of_not_for (harp : be16 f 12 ≠ 0x0806#16) (hno : ∀ h fd, ¬ s.For f h fd) :
    s.inspect f = some .drop := by
  unfold inspect
  split_ifs with hlen
  · rfl
  rw [peek16_of_le (by omega), bind_some, if_neg harp]
  split_ifs with hip
  · rfl
  rcases readIp_cases f with ⟨he, -⟩ | ⟨h, he, hh⟩
  · rw [he]
    rfl
  rw [he, bind_some, elim_some, inspectIp]
  by_cases hproto : h.proto ≠ 6 ∧ h.proto ≠ 17
  · rw [if_pos hproto]
  rw [if_neg hproto]
  by_cases hports : h.ihl + 4 ≤ h.total
  · rw [inspectPorts_of_le hh hports, bind_some]
    cases hfd : s.findSock h.proto h.src h.dst (be16 f (14 + h.ihl)) (be16 f (14 + h.ihl + 2)) with
    | none => rfl
    | some fd => exact absurd ⟨not_not.1 hip, hh, by omega, hports, hfd⟩ (hno h fd)
  · rw [inspectPorts, if_pos (by omega)]
    rfl

/-- The size of the header that a TCP segment tells. -/
def tcpHdr (f : Bytes) (h : IpHdr) : ℕ := (f.getD (14 + h.ihl + 12) 0).toNat / 16 * 4

/-- The packet ends before the size of its header, in the frame and not only in the packet. -/
def Cut (f : Bytes) (h : IpHdr) : Prop := h.proto = 6 ∧ f.length < 14 + h.ihl + 13

/-- A TCP header and its options lie in the packet. -/
def TcpFits (f : Bytes) (h : IpHdr) : Prop :=
  h.proto = 6 ∧ 20 ≤ tcpHdr f h ∧ h.ihl + tcpHdr f h ≤ h.total

/-- A UDP header lies in the packet. -/
def UdpFits (h : IpHdr) : Prop := h.proto = 17 ∧ h.ihl + 8 ≤ h.total

section

variable {s : NetStack} {f : Bytes} {h : IpHdr} {fd : ℕ}

theorem For.inspect_cut (hfor : s.For f h fd) (hcut : Cut f h) : s.inspect f = none := by
  have hpeek : peek f (14 + h.ihl + 12) = none := within_of_lt (by have := hcut.2; omega) _
  rw [hfor.inspect_eq, hdrSize, if_pos hcut.1, hpeek]
  rfl

theorem For.hdrSize_tcp (hproto : h.proto = 6) (hcut : ¬ Cut f h) :
    hdrSize f h = some (tcpHdr f h) := by
  rw [hdrSize, if_pos hproto, peek_of_lt (by unfold Cut at hcut; omega)]
  rfl

theorem TcpFits.not_cut (hh : IpHdr.Of f h) (hfits : TcpFits f h) : ¬ Cut f h := by
  have := hh.total_le
  unfold Cut
  unfold TcpFits at hfits
  omega

theorem For.inspect_segment (hfor : s.For f h fd) (hfits : TcpFits f h) :
    s.inspect f = some (.segment fd (14 + h.ihl) (h.total - h.ihl)) := by
  rw [hfor.inspect_eq, For.hdrSize_tcp hfits.1 (hfits.not_cut hfor.header), bind_some,
    if_neg (by unfold TcpFits at hfits; omega), if_pos hfits.1]

theorem For.inspect_dgram (hfor : s.For f h fd) (hfits : UdpFits h) : s.inspect f =
    some (.dgram fd (14 + h.ihl + 8) (h.total - h.ihl - 8) h.src (be16 f (14 + h.ihl))) := by
  have hproto : h.proto ≠ 6 := by have := hfits.1; omega
  have hhdr : hdrSize f h = some 8 := if_neg hproto
  rw [hfor.inspect_eq, hhdr, bind_some, if_neg (by unfold UdpFits at hfits; omega),
    if_neg hproto]

theorem inspect_arp (s : NetStack) (harp : be16 f 12 = 0x0806#16) (hlen : 14 ≤ f.length) :
    s.inspect f = some ((arpTold f).elim .drop .learn) := by
  rw [inspect, if_neg (by omega), peek16_of_le (by omega), bind_some, if_pos harp,
    inspectArp_eq harp]

/-- **What may become of a frame.** -/
theorem inspect_cases (s : NetStack) (f : Bytes) :
    (∃ h fd, s.For f h fd ∧ Cut f h ∧ s.inspect f = none) ∨ s.inspect f = some .drop ∨
      (∃ e, be16 f 12 = 0x0806#16 ∧ arpTold f = some e ∧ s.inspect f = some (.learn e)) ∨
      (∃ h fd, s.For f h fd ∧ TcpFits f h ∧
        s.inspect f = some (.segment fd (14 + h.ihl) (h.total - h.ihl))) ∨
      ∃ h fd, s.For f h fd ∧ UdpFits h ∧ s.inspect f =
        some (.dgram fd (14 + h.ihl + 8) (h.total - h.ihl - 8) h.src (be16 f (14 + h.ihl))) := by
  by_cases harp : be16 f 12 = 0x0806#16
  · by_cases hlen : f.length < 14
    · exact .inr (.inl (if_pos hlen))
    have heq := s.inspect_arp harp (by omega)
    cases htold : arpTold f with
    | none => exact .inr (.inl (heq.trans (by rw [htold]; rfl)))
    | some e => exact .inr (.inr (.inl ⟨e, harp, rfl, heq.trans (by rw [htold]; rfl)⟩))
  by_cases hno : ∀ h fd, ¬ s.For f h fd
  · exact .inr (.inl (inspect_of_not_for harp hno))
  push Not at hno
  obtain ⟨h, fd, hfor⟩ := hno
  rcases hfor.proto with hproto | hproto
  · by_cases hcut : Cut f h
    · exact .inl ⟨h, fd, hfor, hcut, hfor.inspect_cut hcut⟩
    by_cases hfits : TcpFits f h
    · exact .inr (.inr (.inr (.inl ⟨h, fd, hfor, hfits, hfor.inspect_segment hfits⟩)))
    · refine .inr (.inl ?_)
      rw [hfor.inspect_eq, For.hdrSize_tcp hproto hcut, bind_some, if_pos]
      unfold TcpFits at hfits
      omega
  · have hne : h.proto ≠ 6 := by omega
    by_cases hfits : UdpFits h
    · exact .inr (.inr (.inr (.inr ⟨h, fd, hfor, hfits, hfor.inspect_dgram hfits⟩)))
    · refine .inr (.inl ?_)
      have hhdr : hdrSize f h = some 8 := if_neg hne
      rw [hfor.inspect_eq, hhdr, bind_some, if_pos]
      unfold UdpFits at hfits
      omega

/-- The data of a datagram, from the end of its UDP header to the end of the packet. -/
def udpData (f : Bytes) (h : IpHdr) : Bytes := (f.drop (14 + h.ihl + 8)).take (h.total - h.ihl - 8)

/-- A TCP segment, from the end of the IP header to the end of the packet. -/
def tcpSegment (f : Bytes) (h : IpHdr) : Bytes := (f.drop (14 + h.ihl)).take (h.total - h.ihl)

theorem length_udpData (hh : IpHdr.Of f h) (hfits : UdpFits h) :
    (udpData f h).length = h.total - h.ihl - 8 := by
  have := hh.total_le
  have := hfits.2
  rw [udpData, List.length_take, List.length_drop]
  omega

theorem For.process_dgram (hfor : s.For f h fd) (hfits : UdpFits h) (link : ℕ → Bool) :
    s.netProcessFrame f link = some (s.deliver fd (udpData f h) h.src (be16 f (14 + h.ihl))) := by
  have := hfor.header.total_le
  have := hfits.2
  rw [netProcessFrame, hfor.inspect_dgram hfits, bind_some, perform, block_of_le (by omega)]
  rfl

theorem For.process_segment (hfor : s.For f h fd) (hfits : TcpFits f h) (link : ℕ → Bool) :
    s.netProcessFrame f link =
      some { s with tcp := s.tcp.processTcp fd (tcpSegment f h) link } := by
  have := hfor.header.total_le
  have := hfits.2
  rw [netProcessFrame, hfor.inspect_segment hfits, bind_some, perform,
    block_of_le (by omega)]
  rfl

end

end NetStack
end Ridux
