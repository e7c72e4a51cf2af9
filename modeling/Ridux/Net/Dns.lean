import Ridux.Lib.Labels
import Ridux.Lib.Lines
import Ridux.Net.Build

/-!
# The built-in name server

* `dnsResolve`: the addresses of names, with `g_dns_cache`;
* `dnsReadQname`: the name in a query, as text;
* `dnsBuildResponse`: the answer to a query.

A byte read outside of the query, or written outside of the buffer it is for, has no result, and neither
has a loop that does not end.
-/

namespace Ridux

open Lib

def dnsTolower (c : UInt8) : UInt8 := if 0x41 ≤ c ∧ c ≤ 0x5A then c + 32 else c

/-- `'.'`. -/
def dot : UInt8 := 46

/-! ### Addresses of names -/

def dnsCacheSize : ℕ := 16

/-- `dns_entry_t`, when it is valid. -/
structure DnsEntry where
  name : Bytes
  ip : Ip
  ttl : ℕ
  deriving DecidableEq

/-- `g_dns_cache`. -/
abbrev DnsCache := ℕ → Option DnsEntry

/-- `c_make_ip4`. -/
def makeIp4 (a b c d : ℕ) : Ip := BitVec.ofNat 32 (((a * 256 + b) * 256 + c) * 256 + d)

/-- The value of the digits at the start of a text, at most 255, with what follows them. -/
def readOctet : Bytes → ℕ → Option (ℕ × Bytes)
  | [], v => some (v, [])
  | c :: s, v =>
    if 0x30 ≤ c ∧ c ≤ 0x39 then
      let v := v * 10 + (c.toNat - 0x30)
      if 255 < v then none else readOctet s v
    else some (v, c :: s)

/-- The loop of `dns_parse_ipv4`, with `i` octets to come. -/
def parseOctets : ℕ → Bytes → Option (List ℕ × Bytes)
  | 0, s => some ([], s)
  | i + 1, s =>
    if s = [] then some ([], s)
    else
      (readOctet s 0).bind fun r =>
        if r.2.length = s.length then none
        else if r.2 = [] then some ([r.1], [])
        else if r.2.head? = some dot then (parseOctets i r.2.tail).map fun q => (r.1 :: q.1, q.2)
        else none

def dnsParseIpv4 (s : Bytes) : Option Ip :=
  (parseOctets 4 s).bind fun r =>
    if r.1.length ≠ 4 ∨ r.2 ≠ [] then none
    else some (makeIp4 (r.1.getD 0 0) (r.1.getD 1 0) (r.1.getD 2 0) (r.1.getD 3 0))

def dnsHostHash (s : Bytes) : BitVec 32 :=
  s.foldl (fun h c => (h ^^^ BitVec.ofNat 32 (dnsTolower c).toNat) * 16777619) 2166136261

def dnsShouldSynthesize (h : Bytes) : Bool :=
  h ≠ [] ∧ h ≠ [dot] ∧
    (h.all fun c =>
      let c := dnsTolower c
      c = dot ∨ 0x61 ≤ c ∧ c ≤ 0x7A ∨ 0x30 ≤ c ∧ c ≤ 0x39 ∨ c = 45) ∧
    dot ∈ h ∧ startsWith h (ascii "localhost") = false

def dnsSynthIpv4 (h : Bytes) : Ip :=
  let v := dnsHostHash h
  let c := v.toNat / 256 % 256
  let d := v.toNat % 256
  makeIp4 198 18 (if c = 0 ∨ c = 255 then c ^^^ 0x5A else c) (if d = 0 ∨ d = 255 then d ^^^ 0xA5 else d)

def dnsCachePut (cache : DnsCache) (h : Bytes) (ip : Ip) (ttl : ℕ) : DnsCache :=
  Function.update cache ((freeSlot cache dnsCacheSize).getD 0) (some ⟨strlcpy 64 h, ip, ttl⟩)

/-- The names that `dns_resolve` knows and keeps. -/
def dnsKnown : List (Bytes × Ip) :=
  [(ascii "google.com", makeIp4 142 251 129 110), (ascii "dns.google", makeIp4 142 251 129 110),
    (ascii "www.google.com", makeIp4 142 251 151 119),
    (ascii "youtube.com", makeIp4 172 217 28 238), (ascii "www.youtube.com", makeIp4 172 217 28 238),
    (ascii "ytimg.com", makeIp4 142 250 184 78), (ascii "www.ytimg.com", makeIp4 142 250 184 78),
    (ascii "github.com", makeIp4 4 228 31 150), (ascii "www.github.com", makeIp4 4 228 31 150),
    (ascii "example.com", makeIp4 172 66 147 243), (ascii "www.example.com", makeIp4 172 66 147 243)]

/-- `dns_resolve` of a C string, with the cache it leaves. -/
def dnsResolve (cache : DnsCache) (h : Bytes) : Option Ip × DnsCache :=
  match dnsParseIpv4 h with
  | some ip => (some ip, cache)
  | none =>
    match findEntry cache (fun e => e.name = h) dnsCacheSize with
    | some (_, e) => (some e.ip, cache)
    | none =>
      if h = ascii "localhost" then (some (makeIp4 127 0 0 1), cache)
      else if h = ascii "riduxos.local" then (some (makeIp4 10 0 2 15), cache)
      else
        match dnsKnown.lookup h with
        | some ip => (some ip, dnsCachePut cache h ip 300)
        | none =>
          if dnsShouldSynthesize h then (some (dnsSynthIpv4 h), dnsCachePut cache h (dnsSynthIpv4 h) 120)
          else (none, cache)

/-! ### Names in queries -/

/-- The errors of `dns_read_qname`. -/
inductive DnsErr
  | einval | enospc
  deriving DecidableEq

/-- A byte behind the text in a buffer of `cap` bytes. -/
def hostPut (cap : ℕ) (host : Bytes) (c : UInt8) : Option Bytes :=
  if host.length < cap then some (host ++ [c]) else none

/-- The loop over the `l` bytes of a label at `p`. -/
def readLabel (pkt : Bytes) (cap : ℕ) : ℕ → ℕ → Bytes → Option (Except DnsErr (ℕ × Bytes))
  | 0, p, host => some (.ok (p, host))
  | l + 1, p, host =>
    if cap ≤ host.length + 1 then some (.error .enospc)
    else
      (within pkt p 1 (pkt.getD p 0)).bind fun c =>
        (hostPut cap host (dnsTolower c)).bind fun host => readLabel pkt cap l (p + 1) host

/-- The dot before a label that is not the first. -/
def readDot (cap labels : ℕ) (host : Bytes) : Option (Except DnsErr Bytes) :=
  if labels = 0 then some (.ok host)
  else if cap ≤ host.length + 1 then some (.error .enospc)
  else (hostPut cap host dot).bind fun host => some (.ok host)

/-- A label of `l` bytes at `p`, with the dot before it: the offset behind it and the text. -/
def readNext (pkt : Bytes) (cap labels l p : ℕ) (host : Bytes) : Option (Except DnsErr (ℕ × Bytes)) :=
  (readDot cap labels host).bind fun r =>
    match r with
    | .error e => some (.error e)
    | .ok host => readLabel pkt cap l p host

/-- The loop of `dns_read_qname`: the text and the offset behind the name. -/
def readLabels (pkt : Bytes) (cap : ℕ) :
    ℕ → ℕ → ℕ → Bytes → Option (Except DnsErr (Bytes × ℕ))
  | 0, _, _, _ => none
  | fuel + 1, p, labels, host =>
    if pkt.length ≤ p then some (.error .einval)
    else
      (peek pkt p).bind fun l =>
        if l = 0 then
          -- the closing zero of the text
          if host = [] then (hostPut cap (host ++ [dot]) 0).bind fun _ => some (.ok ([dot], p + 1))
          else (hostPut cap host 0).bind fun _ => some (.ok (host, p + 1))
        else if 64 ≤ l then some (.error .einval)
        else if pkt.length < p + 1 + l then some (.error .einval)
        else
          (readNext pkt cap labels l (p + 1) host).bind fun r =>
            match r with
            | .error e => some (.error e)
            | .ok (p, host) => readLabels pkt cap fuel p (labels + 1) host

/-- `dns_read_qname`, from the offset `off` on. -/
def dnsReadQname (pkt : Bytes) (off cap : ℕ) : Option (Except DnsErr (Bytes × ℕ)) :=
  if cap < 2 then some (.error .einval) else readLabels pkt cap (pkt.length + 1) off 0 []

/-! ### Answers -/

/-- `dns_be16_wr` and `dns_be32_wr`. -/
def be16Bytes (v : BitVec 16) : Bytes := [netByte v.toNat 8, netByte v.toNat 0]

def be32Bytes (v : BitVec 32) : Bytes :=
  [netByte v.toNat 24, netByte v.toNat 16, netByte v.toNat 8, netByte v.toNat 0]

/-- The header of an answer. -/
def dnsHeader (id flags : BitVec 16) (found answer : Bool) : Bytes :=
  be16Bytes id ++ be16Bytes (0x8000#16 ||| (flags &&& 0x0100#16) ||| 0x0080#16 ||| (if found then 0 else 3)) ++
    be16Bytes 1 ++ be16Bytes (if answer then 1 else 0) ++ be16Bytes 0 ++ be16Bytes 0

/-- The record of an address; its name is the one at offset 12. -/
def dnsRecord (ip : Ip) : Bytes :=
  [0xC0, 0x0C] ++ be16Bytes 1 ++ be16Bytes 1 ++ be32Bytes 300 ++ be16Bytes 4 ++ be32Bytes ip

/-- The part of `dns_build_response` behind the header: the question up to `qend`, and the record. -/
def dnsWrite (req out : Bytes) (qend : ℕ) (answer : Option Ip) : Option (ℕ × Bytes) :=
  if out.length < 12 + (qend - 12) then some (0, out)
  else
    (block req 12 (qend - 12)).bind fun question =>
      (poke out 12 question).bind fun out =>
        answer.elim (some (qend, out)) fun ip =>
          if out.length < qend + 16 then some (0, out)
          else (poke out qend (dnsRecord ip)).bind fun out => some (qend + 16, out)

/-- `dns_build_response` into the buffer `out`: the length, the buffer and the cache. -/
def dnsBuildResponse (req out : Bytes) (cache : DnsCache) : Option (ℕ × Bytes × DnsCache) :=
  if req.length < 12 ∨ out.length < 12 then some (0, out, cache)
  else
    (peek16 req 4).bind fun count =>
      if count = 0 then some (0, out, cache)
      else
        (dnsReadQname req 12 256).bind fun name =>
          match name with
          | .error _ => some (0, out, cache)
          | .ok (host, qoff) =>
            if req.length < qoff + 4 then some (0, out, cache)
            else
              (peek16 req qoff).bind fun qtype =>
                (peek16 req (qoff + 2)).bind fun qclass =>
                  let found := dnsResolve cache (cstr host)
                  let answer := found.1.filter fun _ => qclass = 1 ∧ (qtype = 1 ∨ qtype = 255)
                  (peek16 req 2).bind fun qflags =>
                    (peek16 req 0).bind fun id =>
                      (poke out 0 (dnsHeader id qflags found.1.isSome answer.isSome)).bind fun out =>
                        (dnsWrite req out (qoff + 4) answer).map fun r => (r.1, r.2, found.2)

end Ridux
