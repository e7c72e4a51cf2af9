import Ridux.Lib.Slots
import Ridux.Tls.Cert

/-!
# The TLS handshake

* `Handshake`: what a call of `tls7_connect` gets from its caller, from the random numbers and from the
  peer;
* `connect`: `tls7_connect`, stage by stage;
* `Authentic`: the peer sent the messages of the handshake, in order, and the last one is right;
* `Accepts`: what the code tests; `connect_ok_iff`;
* `connect_promise_iff`: the code keeps its promise when a test fails, or when the messages that it
  does not test are right.

What is sent is left out.
-/

namespace Ridux

open Lib List

def tls7MaxSessions : ℕ := 32
def tls7ChangeCipherSpec : UInt8 := 20
def tls7Handshake : UInt8 := 22
def tls7ApplicationData : UInt8 := 23
def tls7HsClientHello : UInt8 := 1
def tls7HsServerHello : UInt8 := 2
def tls7HsCertificate : UInt8 := 11
def tls7HsServerHelloDone : UInt8 := 14
def tls7HsClientKeyExch : UInt8 := 16
def tls7HsFinished : UInt8 := 20
def tls7Version12 : ℕ := 0x0303
def tls7RsaWithAes128CbcSha256 : ℕ := 0x003C
def tls7RsaWithAes256CbcSha256 : ℕ := 0x003D

/-- The errors of `tls7_connect`; `fail` is `-1`. -/
inductive TlsErr
  | fail | enomem | einval | eacces
  deriving DecidableEq

/-- `tls7_state_t`. -/
inductive TlsState
  | none | clientHelloSent | serverHelloRecv | certificateRecv | helloDoneRecv | clientKeyExchSent
  | changeCipherSent | finishedSent | changeCipherRecv | finishedRecv | established
  deriving DecidableEq

/-- A record: its type, and the bytes that came. -/
structure TlsRecord where
  type : UInt8
  payload : Bytes

/-- What a call of `tls7_connect` gets: the host name and the protocol, the random bytes, whether there
is memory, and the records of the peer; `none` is a record that does not come. -/
structure Handshake where
  hostname : Option CString
  alpn : Option CString
  clientRandom : Bytes
  secret : Bytes
  pad : ℕ → UInt8
  memory : Bool
  recs : ℕ → Option TlsRecord

/-- `tls7_session_t`, as far as the handshake fills it; `hash` is what was hashed. -/
structure TlsSession where
  state : TlsState
  cipherSuite : ℕ
  serverRandom : Bytes
  masterSecret : Bytes
  hash : Bytes
  certs : List Cert
  certChainOk : Bool
  hostnameOk : Bool

/-- Three bytes, the first one highest. -/
def toBe24 (n : ℕ) : Bytes := [(n / 65536).toUInt8, (n / 256).toUInt8, n.toUInt8]

/-- The blocks of `tls7_prf`. -/
def prfBlocks (c : Crypto) (secret seed : Bytes) : ℕ → Bytes → Bytes
  | 0, _ => []
  | n + 1, a => c.hmac secret (a ++ seed) ++ prfBlocks c secret seed n (c.hmac secret a)

def tls7Prf (c : Crypto) (secret : Bytes) (label : String) (seed : Bytes) (len : ℕ) : Bytes :=
  let seed := ascii label ++ seed
  (prfBlocks c secret seed ((len + 31) / 32) (c.hmac secret seed)).take len

namespace Handshake

/-- The host name as it is sent. -/
def sniHostname (h : Handshake) : Bytes := (h.hostname.elim [] Subtype.val).take 127

/-- The protocol as it is sent. -/
def alpnProtocol (h : Handshake) : Bytes := (h.alpn.elim [] Subtype.val).take 31

/-- `tls7_build_client_hello` into a buffer of 1024 bytes. -/
def clientHello (h : Handshake) : Option Bytes :=
  let host := h.sniHostname
  let proto := h.alpnProtocol
  let front := toBe16 tls7Version12 ++ h.clientRandom ++ [0] ++ toBe16 4 ++
    toBe16 tls7RsaWithAes128CbcSha256 ++ toBe16 tls7RsaWithAes256CbcSha256 ++ [1, 0]
  let sni := if host = [] then []
    else toBe16 0 ++ toBe16 (host.length + 5) ++ toBe16 (host.length + 3) ++ [0] ++ toBe16 host.length ++ host
  let alpn := if proto = [] then []
    else toBe16 0x10 ++ toBe16 (proto.length + 3) ++ toBe16 (proto.length + 1) ++ [proto.length.toUInt8] ++
      proto
  if 1024 < 4 + front.length + 2 + sni.length + alpn.length + 12 then none
  else
    let exts := sni ++ alpn ++ toBe16 0x0D ++ toBe16 8 ++ toBe16 6 ++ [0x04, 0x01, 0x05, 0x01]
    let body := front ++ toBe16 exts.length ++ exts
    some (tls7HsClientHello :: toBe24 body.length ++ body)

def preMasterSecret (h : Handshake) : Bytes := [0x03, 0x03] ++ h.secret

end Handshake

/-! ### Messages -/

/-- The record is a message of the handshake of the kind, with no fewer bytes than `len`. -/
def isMessage (kind : UInt8) (len : ℕ) (r : Option TlsRecord) : Bool :=
  match r with
  | none => false
  | some r => r.type = tls7Handshake ∧ len ≤ r.payload.length ∧ r.payload.head? = some kind

/-- The payload of a record; nothing when it does not come. -/
def payloadOf (r : Option TlsRecord) : Bytes := r.elim [] TlsRecord.payload

/-- `srv_ver`. -/
def srvVersion (p : Bytes) : ℕ := beNat [p.getD 4 0, p.getD 5 0]

/-- `server_random`: the buffer holds zeros behind a short message. -/
def srvRandom (p : Bytes) : Bytes := (List.range 32).map fun i => p.getD (6 + i) 0

/-- `cipher_suite`. -/
def srvSuite (p : Bytes) : ℕ := beNat [p.getD 38 0, p.getD 39 0]

/-- The loop over the list of certificates. -/
def certList (c : Crypto) : ℕ → ℕ → Bytes → List Cert
  | fuel + 1, room + 1, list =>
    if list.length < 3 then []
    else
      let len := beNat (list.take 3)
      let list := list.drop 3
      if len = 0 ∨ list.length < len then []
      else
        match x509ParseDer c (list.take len) with
        | some cert => cert :: certList c fuel room (list.drop len)
        | none => certList c fuel (room + 1) (list.drop len)
  | _, _, _ => []

/-- The certificates of a message. -/
def certsOf (c : Crypto) (p : Bytes) : List Cert :=
  if p.length < 7 then []
  else
    let hsEnd := min (4 + beNat ((p.drop 1).take 3)) p.length
    let listEnd := min (7 + beNat ((p.drop 4).take 3)) hsEnd
    certList c p.length tls7MaxCerts ((p.take listEnd).drop 7)

/-- The message with the secret, encrypted with the key of the first certificate. -/
def keyExchange (h : Handshake) (certs : List Cert) : Except TlsErr Bytes :=
  match certs with
  | [] => .error .einval
  | cert :: _ =>
    match rsaPkcs1EncryptPms cert h.preMasterSecret h.pad with
    | none => .error .einval
    | some enc =>
      if 0xFFFF < 6 + enc.length then .error .einval
      else if !h.memory then .error .enomem
      else .ok (tls7HsClientKeyExch :: toBe24 (2 + enc.length) ++ toBe16 enc.length ++ enc)

/-! ### The stages -/

section Stages

variable (c : Crypto) (store : List CaEntry) (h : Handshake)

/-- The session before the first record. -/
def hello : Except TlsErr TlsSession :=
  match h.clientHello with
  | none => .error .fail
  | some msg => .ok ⟨.clientHelloSent, tls7RsaWithAes128CbcSha256, List.replicate 32 0, [], msg, [], false,
      h.hostname.all fun n => n.val = []⟩

/-- The ServerHello, when it is one. -/
def serverHello (r : Option TlsRecord) (s : TlsSession) : Except TlsErr TlsSession :=
  if r.all (·.type ≠ tls7Handshake) then .error .fail
  else if isMessage tls7HsServerHello 7 r then
    let p := payloadOf r
    if srvVersion p ≠ tls7Version12 then .error .fail
    else if srvSuite p ≠ tls7RsaWithAes128CbcSha256 ∧ srvSuite p ≠ tls7RsaWithAes256CbcSha256 then
      .error .einval
    else .ok { s with
      state := .serverHelloRecv
      cipherSuite := srvSuite p
      serverRandom := srvRandom p
      hash := s.hash ++ p }
  else .ok s

/-- The Certificate, when it is one. -/
def certificate (r : Option TlsRecord) (s : TlsSession) : Except TlsErr TlsSession :=
  if isMessage tls7HsCertificate 5 r then
    let p := payloadOf r
    let certs := certsOf c p
    let chainOk := if certs = [] then s.certChainOk else verifyCertChain store certs
    let hostOk := match certs with
      | [] => s.hostnameOk
      | cert :: _ => hostnameMatch cert h.hostname
    if store ≠ [] ∧ chainOk = false then .error .eacces
    else if hostOk = false then .error .eacces
    else .ok { s with
      state := .certificateRecv
      hash := s.hash ++ p
      certs := certs
      certChainOk := chainOk
      hostnameOk := hostOk }
  else .ok s

/-- The ServerHelloDone, when it is one. -/
def helloDone (r : Option TlsRecord) (s : TlsSession) : TlsSession :=
  if isMessage tls7HsServerHelloDone 4 r then
    { s with state := .helloDoneRecv, hash := s.hash ++ payloadOf r }
  else s

/-- The secret is sent, and the keys are derived. -/
def clientKeyExchange (s : TlsSession) : Except TlsErr TlsSession :=
  match keyExchange h s.certs with
  | .error e => .error e
  | .ok msg => .ok { s with
      state := .finishedSent
      hash := s.hash ++ msg
      masterSecret := tls7Prf c h.preMasterSecret "master secret" (h.clientRandom ++ s.serverRandom) 48 }

/-- The last two records. -/
def finish (r₁ r₂ : Option TlsRecord) (s : TlsSession) : TlsSession :=
  let s := if r₁.any (·.type = tls7ChangeCipherSpec) then { s with state := .changeCipherRecv } else s
  let s := if r₂.any fun r => r.type = tls7Handshake ∨ r.type = tls7ApplicationData then
    { s with state := .finishedRecv } else s
  { s with state := .established }

/-- The stages of `tls7_connect`. -/
def stages : Except TlsErr TlsSession := do
  let s ← hello h
  let s ← serverHello (h.recs 0) s
  let s ← certificate c store h (h.recs 1) s
  let s := helloDone (h.recs 2) s
  let s ← clientKeyExchange c h s
  return finish (h.recs 3) (h.recs 4) s

/-- `tls7_connect`: a session is taken, and kept when the handshake is done. -/
def connect (t : ℕ → Option TlsSession) : Except TlsErr Unit × (ℕ → Option TlsSession) :=
  match firstSlot (fun i => (t i).isNone) tls7MaxSessions with
  | none => (.error .enomem, t)
  | some i =>
    match stages c store h with
    | .error e => (.error e, t)
    | .ok s => (.ok (), Function.update t i (some s))

/-! ### What is promised -/

/-- The certificates of the peer. -/
def peerCerts : List Cert := certsOf c (payloadOf (h.recs 1))

/-- The master secret of the handshake. -/
def masterOf : Bytes :=
  tls7Prf c h.preMasterSecret "master secret"
    (h.clientRandom ++ srvRandom (payloadOf (h.recs 0))) 48

/-- The messages of the handshake up to the Finished of the client. -/
def transcriptOf : Bytes :=
  h.clientHello.getD [] ++ payloadOf (h.recs 0) ++ payloadOf (h.recs 1) ++ payloadOf (h.recs 2) ++
    (keyExchange h (peerCerts c h)).toOption.getD []

/-- A Finished message with its verify data. -/
def finishedMessage (label : String) (transcript : Bytes) : Bytes :=
  tls7HsFinished :: toBe24 12 ++ tls7Prf c (masterOf c h) label (c.sha256 transcript) 12

/-- `server_write_key`, as far as the cipher uses it. -/
def serverWriteKey : Bytes :=
  ((tls7Prf c (masterOf c h) "key expansion" (h.clientRandom ++ srvRandom (payloadOf (h.recs 0)))
    160).drop 96).take 16

/-- What a record holds, as `tls7_recv` decrypts it. -/
def openRecord (r : TlsRecord) : Bytes :=
  let dec := c.cbcDecrypt (serverWriteKey c h) (r.payload.take 16) (r.payload.drop 16)
  let pad := (dec.getLastD 0).toNat
  if pad < dec.length then dec.take (dec.length - (pad + 1)) else dec

/-- The record is the Finished of the server, over the whole handshake. -/
def IsFinished (r : Option TlsRecord) : Prop :=
  ∃ r', r = some r' ∧ r'.type = tls7Handshake ∧ 32 ≤ r'.payload.length ∧
    openRecord c h r' = finishedMessage c h "server finished"
      (transcriptOf c h ++ finishedMessage c h "client finished" (transcriptOf c h))

/-- The suite of a ServerHello, behind its session identity as in the ClientHello. -/
def helloSuite (p : Bytes) : ℕ :=
  let n := (p.getD 38 0).toNat
  beNat [p.getD (39 + n) 0, p.getD (40 + n) 0]

/-- A ServerHello with a suite that is supported; `suiteOf` says where the suite is. -/
def SuiteOk (suiteOf : Bytes → ℕ) (p : Bytes) : Prop :=
  srvVersion p = tls7Version12 ∧
    (suiteOf p = tls7RsaWithAes128CbcSha256 ∨ suiteOf p = tls7RsaWithAes256CbcSha256)

/-- The name of the peer is the host name. -/
def HostOk : Prop := ∃ cert, (peerCerts c h).head? = some cert ∧ hostnameMatch cert h.hostname = true

/-- The records of a peer that is who it says. -/
structure Authentic (suiteOf : Bytes → ℕ) : Prop where
  hello : isMessage tls7HsServerHello 7 (h.recs 0) = true
  suite : SuiteOk suiteOf (payloadOf (h.recs 0))
  certificate : isMessage tls7HsCertificate 5 (h.recs 1) = true
  helloDone : isMessage tls7HsServerHelloDone 4 (h.recs 2) = true
  cipherSpec : ∃ r, h.recs 3 = some r ∧ r.type = tls7ChangeCipherSpec
  finished : IsFinished c h (h.recs 4)
  trusted : store ≠ [] → verifyCertChain store (peerCerts c h) = true ∧ HostOk c h

/-- The call succeeds only with such a peer, and a call that fails gives the session back. -/
def Promise (suiteOf : Bytes → ℕ) (t : ℕ → Option TlsSession) : Prop :=
  ((connect c store h t).1 = .ok () → Authentic c store h suiteOf) ∧
    ((connect c store h t).1 ≠ .ok () → (connect c store h t).2 = t)

/-! ### The condition -/

/-- What the code tests. -/
structure Accepts (t : ℕ → Option TlsSession) : Prop where
  room : ∃ i < tls7MaxSessions, t i = none
  hello : h.clientHello.isSome
  handshake : ∃ r, h.recs 0 = some r ∧ r.type = tls7Handshake
  suite : isMessage tls7HsServerHello 7 (h.recs 0) = true → SuiteOk srvSuite (payloadOf (h.recs 0))
  certificate : isMessage tls7HsCertificate 5 (h.recs 1) = true
  chain : store ≠ [] → verifyCertChain store (peerCerts c h) = true
  host : HostOk c h
  key : ∃ msg, keyExchange h (peerCerts c h) = .ok msg

/-- What the code does not test. -/
structure Confirms : Prop where
  hello : isMessage tls7HsServerHello 7 (h.recs 0) = true
  helloDone : isMessage tls7HsServerHelloDone 4 (h.recs 2) = true
  cipherSpec : ∃ r, h.recs 3 = some r ∧ r.type = tls7ChangeCipherSpec
  finished : IsFinished c h (h.recs 4)

/-! ### What the code tests -/

variable {c store h} {r : Option TlsRecord} {s s' : TlsSession} {t : ℕ → Option TlsSession}

theorem bind_ok_iff {ε α β : Type} {x : Except ε α} {f : α → Except ε β} :
    (∃ b, (x >>= f) = .ok b) ↔ ∃ a, x = .ok a ∧ ∃ b, f a = .ok b := by
  cases x with
  | error e => simp [bind, Except.bind]
  | ok a => simp [bind, Except.bind]

theorem hello_ok_iff : (∃ s, hello h = .ok s) ↔ h.clientHello.isSome := by
  unfold hello
  cases h.clientHello <;> simp

theorem hello_certs (hs : hello h = .ok s) : s.certs = [] := by
  unfold hello at hs
  cases hmsg : h.clientHello with
  | none =>
    rw [hmsg] at hs
    cases hs
  | some msg =>
    rw [hmsg] at hs
    obtain rfl := Except.ok.inj hs
    rfl

/-- The first record is of the handshake, and a ServerHello has a suite that is supported. -/
def HelloOk (r : Option TlsRecord) : Prop :=
  (∃ r', r = some r' ∧ r'.type = tls7Handshake) ∧
    (isMessage tls7HsServerHello 7 r = true → SuiteOk srvSuite (payloadOf r))

theorem serverHello_cases : (∃ s', serverHello r s = .ok s' ∧ s'.certs = s.certs ∧ HelloOk r) ∨
    ∃ e, serverHello r s = .error e ∧ ¬HelloOk r := by
  unfold serverHello HelloOk SuiteOk
  by_cases htype : r.all (·.type ≠ tls7Handshake) = true
  · rw [if_pos htype]
    refine .inr ⟨_, rfl, ?_⟩
    rintro ⟨⟨r', rfl, hr⟩, -⟩
    exact absurd hr (of_decide_eq_true htype)
  rw [if_neg htype]
  have hsome : ∃ r', r = some r' ∧ r'.type = tls7Handshake := by
    cases r with
    | none => exact absurd rfl htype
    | some r' =>
      refine ⟨r', rfl, ?_⟩
      by_contra hne
      exact htype (decide_eq_true hne)
  by_cases hmsg : isMessage tls7HsServerHello 7 r = true
  · rw [if_pos hmsg]
    dsimp only
    by_cases hver : srvVersion (payloadOf r) ≠ tls7Version12
    · rw [if_pos hver]
      exact .inr ⟨_, rfl, fun hok => hver (hok.2 hmsg).1⟩
    rw [if_neg hver]
    by_cases hsuite : srvSuite (payloadOf r) ≠ tls7RsaWithAes128CbcSha256 ∧
        srvSuite (payloadOf r) ≠ tls7RsaWithAes256CbcSha256
    · rw [if_pos hsuite]
      exact .inr ⟨_, rfl, fun hok => (hok.2 hmsg).2.elim hsuite.1 hsuite.2⟩
    · rw [if_neg hsuite]
      refine .inl ⟨_, rfl, rfl, hsome, fun _ => ⟨not_not.1 hver, ?_⟩⟩
      by_contra hno
      exact hsuite ⟨fun h128 => hno (.inl h128), fun h256 => hno (.inr h256)⟩
  · rw [if_neg hmsg]
    exact .inl ⟨_, rfl, rfl, hsome, fun h => absurd h hmsg⟩

/-- The second record is a Certificate, with a chain and a name that are right. -/
structure CertOk (c : Crypto) (store : List CaEntry) (h : Handshake) (r : Option TlsRecord) : Prop where
  message : isMessage tls7HsCertificate 5 r = true
  chain : store ≠ [] → verifyCertChain store (certsOf c (payloadOf r)) = true
  host : ∃ cert, (certsOf c (payloadOf r)).head? = some cert ∧ hostnameMatch cert h.hostname = true

theorem certificate_cases (c : Crypto) (store : List CaEntry) (h : Handshake) (r : Option TlsRecord)
    (hnone : s.certs = []) :
    (∃ s', certificate c store h r s = .ok s' ∧ s'.certs = certsOf c (payloadOf r) ∧
        CertOk c store h r) ∨
      ¬CertOk c store h r ∧ ((∃ e, certificate c store h r s = .error e) ∨
        ∃ s', certificate c store h r s = .ok s' ∧ s'.certs = []) := by
  unfold certificate
  by_cases hmsg : isMessage tls7HsCertificate 5 r = true
  · rw [if_pos hmsg]
    dsimp only
    cases hcerts : certsOf c (payloadOf r) with
    | nil =>
      refine .inr ⟨fun hok => ?_, ?_⟩
      · obtain ⟨cert, hcert, -⟩ := hok.host
        rw [hcerts] at hcert
        cases hcert
      · rw [if_pos rfl]
        dsimp only
        by_cases hchain : store ≠ [] ∧ s.certChainOk = false
        · rw [if_pos hchain]
          exact .inl ⟨_, rfl⟩
        rw [if_neg hchain]
        by_cases hhost : s.hostnameOk = false
        · rw [if_pos hhost]
          exact .inl ⟨_, rfl⟩
        · rw [if_neg hhost]
          exact .inr ⟨_, rfl, rfl⟩
    | cons cert rest =>
      rw [if_neg (cons_ne_nil _ _)]
      dsimp only
      by_cases hchain : store ≠ [] ∧ verifyCertChain store (cert :: rest) = false
      · rw [if_pos hchain]
        refine .inr ⟨fun hok => ?_, .inl ⟨_, rfl⟩⟩
        have hgood := hok.chain hchain.1
        rw [hcerts, hchain.2] at hgood
        cases hgood
      rw [if_neg hchain]
      by_cases hhost : hostnameMatch cert h.hostname = false
      · rw [if_pos hhost]
        refine .inr ⟨fun hok => ?_, .inl ⟨_, rfl⟩⟩
        obtain ⟨cert', hcert', hgood⟩ := hok.host
        rw [hcerts] at hcert'
        obtain rfl := Option.some.inj hcert'
        rw [hhost] at hgood
        cases hgood
      · rw [if_neg hhost]
        refine .inl ⟨_, rfl, rfl, hmsg, fun hstore => ?_, cert, ?_, Bool.eq_true_of_not_eq_false hhost⟩
        · rw [hcerts]
          by_contra hbad
          exact hchain ⟨hstore, Bool.eq_false_of_not_eq_true hbad⟩
        · rw [hcerts]
          rfl
  · rw [if_neg hmsg]
    exact .inr ⟨fun hok => hmsg hok.message, .inr ⟨s, rfl, hnone⟩⟩

theorem helloDone_certs (r : Option TlsRecord) (s : TlsSession) : (helloDone r s).certs = s.certs := by
  unfold helloDone
  split_ifs <;> rfl

theorem clientKeyExchange_ok_iff :
    (∃ s', clientKeyExchange c h s = .ok s') ↔ ∃ msg, keyExchange h s.certs = .ok msg := by
  unfold clientKeyExchange
  cases keyExchange h s.certs <;> simp

theorem stages_ok_iff : (∃ s, stages c store h = .ok s) ↔
    h.clientHello.isSome ∧ HelloOk (h.recs 0) ∧ CertOk c store h (h.recs 1) ∧
      ∃ msg, keyExchange h (peerCerts c h) = .ok msg := by
  unfold stages
  rw [bind_ok_iff]
  constructor
  · rintro ⟨s₀, h₀, hrest⟩
    rw [bind_ok_iff] at hrest
    obtain ⟨s₁, h₁, hrest⟩ := hrest
    rw [bind_ok_iff] at hrest
    obtain ⟨s₂, h₂, hrest⟩ := hrest
    rw [bind_ok_iff] at hrest
    obtain ⟨s₃, h₃, -⟩ := hrest
    obtain ⟨msg, hmsg⟩ := clientKeyExchange_ok_iff.1 ⟨s₃, h₃⟩
    rw [helloDone_certs] at hmsg
    rcases serverHello_cases (r := h.recs 0) (s := s₀) with ⟨s, hs, hsame, hhello⟩ | ⟨e, herr, -⟩
    · obtain rfl := Except.ok.inj (h₁.symm.trans hs)
      have hnone : s₁.certs = [] := hsame.trans (hello_certs h₀)
      rcases certificate_cases c store h (h.recs 1) hnone with
        ⟨s, hs, hcerts, hok⟩ | ⟨-, ⟨e, herr⟩ | ⟨s, hs, hempty⟩⟩
      · obtain rfl := Except.ok.inj (h₂.symm.trans hs)
        rw [hcerts] at hmsg
        exact ⟨hello_ok_iff.1 ⟨s₀, h₀⟩, hhello, hok, msg, hmsg⟩
      · rw [herr] at h₂
        cases h₂
      · obtain rfl := Except.ok.inj (h₂.symm.trans hs)
        rw [hempty] at hmsg
        cases hmsg
    · rw [herr] at h₁
      cases h₁
  · rintro ⟨hsome, hhello, hcert, msg, hmsg⟩
    obtain ⟨s₀, h₀⟩ := hello_ok_iff.2 hsome
    refine ⟨s₀, h₀, bind_ok_iff.2 ?_⟩
    rcases serverHello_cases (r := h.recs 0) (s := s₀) with ⟨s₁, h₁, hsame, -⟩ | ⟨e, -, hno⟩
    · have hnone : s₁.certs = [] := hsame.trans (hello_certs h₀)
      refine ⟨s₁, h₁, bind_ok_iff.2 ?_⟩
      rcases certificate_cases c store h (h.recs 1) hnone with
        ⟨s₂, h₂, hcerts, -⟩ | ⟨hno, -⟩
      · refine ⟨s₂, h₂, bind_ok_iff.2 ?_⟩
        obtain ⟨s₃, h₃⟩ := clientKeyExchange_ok_iff (c := c) (h := h)
          (s := helloDone (h.recs 2) s₂).2 ⟨msg, by rw [helloDone_certs, hcerts]; exact hmsg⟩
        exact ⟨s₃, h₃, _, rfl⟩
      · exact absurd hcert hno
    · exact absurd hhello hno

/-- **The call succeeds when every test is passed.** -/
theorem connect_ok_iff : (connect c store h t).1 = .ok () ↔ Accepts c store h t := by
  have haccepts : Accepts c store h t ↔
      (∃ i < tls7MaxSessions, t i = none) ∧ ∃ s, stages c store h = .ok s := by
    rw [stages_ok_iff]
    constructor
    · intro ha
      exact ⟨ha.room, ha.hello, ⟨ha.handshake, ha.suite⟩, ⟨ha.certificate, ha.chain, ha.host⟩, ha.key⟩
    · rintro ⟨hroom, hhello, hfirst, hcert, hkey⟩
      exact ⟨hroom, hhello, hfirst.1, hfirst.2, hcert.message, hcert.chain, hcert.host, hkey⟩
  rw [haccepts]
  unfold connect
  cases hslot : firstSlot (fun i => (t i).isNone) tls7MaxSessions with
  | none =>
    constructor
    · intro hok
      cases hok
    · rintro ⟨⟨i, hi, hfree⟩, -⟩
      have := firstSlot_eq_none hslot i hi
      rw [hfree] at this
      cases this
  | some i =>
    obtain ⟨hi, hfree⟩ := firstSlot_eq_some hslot
    have hroom : ∃ i < tls7MaxSessions, t i = none := ⟨i, hi, Option.isNone_iff_eq_none.1 hfree⟩
    cases stages c store h with
    | error e =>
      constructor
      · intro hok
        cases hok
      · rintro ⟨-, s, hs⟩
        cases hs
    | ok s => exact ⟨fun _ => ⟨hroom, s, rfl⟩, fun _ => rfl⟩

theorem connect_releases (hfail : (connect c store h t).1 ≠ .ok ()) : (connect c store h t).2 = t := by
  unfold connect at hfail ⊢
  cases hslot : firstSlot (fun i => (t i).isNone) tls7MaxSessions with
  | none => rfl
  | some i =>
    rw [hslot] at hfail
    cases hstages : stages c store h with
    | error e => rfl
    | ok s =>
      rw [hstages] at hfail
      exact absurd rfl hfail

theorem not_suiteOk {p : Bytes} (h : SuiteOk srvSuite p) : ¬SuiteOk helloSuite p := by
  rintro ⟨-, hsuite⟩
  obtain ⟨-, hcode⟩ := h
  unfold srvSuite beNat tls7RsaWithAes128CbcSha256 tls7RsaWithAes256CbcSha256 at hcode
  have hlen : (p.getD 38 0).toNat = 0 := by
    simp only [foldl_cons, foldl_nil] at hcode
    omega
  unfold helloSuite beNat tls7RsaWithAes128CbcSha256 tls7RsaWithAes256CbcSha256 at hsuite
  simp only [hlen, Nat.add_zero, foldl_cons, foldl_nil] at hcode hsuite
  omega

/-- **A call keeps its promise exactly when a test fails, or when the messages that the code does not
test are right; and with the suite where a ServerHello has it, only when a test fails.** -/
theorem connect_promise_iff (c : Crypto) (store : List CaEntry) (h : Handshake)
    (t : ℕ → Option TlsSession) :
    (Promise c store h srvSuite t ↔ ¬Accepts c store h t ∨ Confirms c h) ∧
      (Promise c store h helloSuite t ↔ ¬Accepts c store h t) := by
  unfold Promise
  rw [connect_ok_iff]
  refine ⟨⟨?_, fun hcond => ⟨fun ha => ?_, connect_releases⟩⟩,
    ⟨?_, fun hno => ⟨fun ha => absurd ha hno, connect_releases⟩⟩⟩
  · rintro ⟨hauth, -⟩
    by_cases ha : Accepts c store h t
    · have hpeer := hauth ha
      exact .inr ⟨hpeer.hello, hpeer.helloDone, hpeer.cipherSpec, hpeer.finished⟩
    · exact .inl ha
  · rcases hcond with hno | hc
    · exact absurd ha hno
    · exact ⟨hc.hello, ha.suite hc.hello, ha.certificate, hc.helloDone, hc.cipherSpec, hc.finished,
        fun hstore => ⟨ha.chain hstore, ha.host⟩⟩
  · rintro ⟨hauth, -⟩ ha
    have hpeer := hauth ha
    exact not_suiteOk (ha.suite hpeer.hello) hpeer.suite

end Stages

/-! ### A peer that only shows a certificate -/

/-- A certificate for the name `h`. -/
def shownCert : Bytes :=
  let key : Bytes := [0x30, 0x45, 0x02, 0x40] ++ List.replicate 64 0xFF ++ [0x02, 0x01, 0x01]
  let tbs : Bytes := [0x55, 0x04, 0x03, 0x0C, 0x01, 0x68] ++ rsaOid ++
    [0x03, 0x48, 0x00] ++ key ++ [0x05, 0x00, 0x05, 0x00]
  let sigAlg : Bytes := [0x06, 0x09] ++ sigOidSha256Rsa
  let cert : Bytes := [0x30, tbs.length.toUInt8] ++ tbs ++ [0x30, sigAlg.length.toUInt8] ++ sigAlg ++
    [0x03, 0x02, 0x00, 0x01]
  [0x30, 0x81, cert.length.toUInt8] ++ cert

/-- The peer sends a ServerHello and a certificate, and then nothing. -/
def impostor : Handshake where
  hostname := some ⟨[0x68], by decide⟩
  alpn := none
  clientRandom := List.replicate 32 7
  secret := List.replicate 46 9
  pad := fun _ => 1
  memory := true
  recs := fun k =>
    match k with
    | 0 => some ⟨tls7Handshake, [2, 0, 0, 38, 3, 3] ++ List.replicate 32 5 ++ [0x00, 0x3C, 0, 0]⟩
    | 1 => some ⟨tls7Handshake, 11 :: toBe24 (6 + shownCert.length) ++ toBe24 (3 + shownCert.length) ++
        toBe24 shownCert.length ++ shownCert⟩
    | _ => none

/-- Any hash functions and cipher will do. -/
def plainCrypto : Crypto := ⟨fun _ => List.replicate 32 0, fun _ _ => List.replicate 32 0, fun _ _ b => b⟩

theorem impostor_connects : (connect plainCrypto [] impostor fun _ => none).1 = .ok () := by
  decide +kernel

/-- No ServerHelloDone, no ChangeCipherSpec and no Finished, and the call succeeds. -/
theorem impostor_not_authentic : ¬Promise plainCrypto [] impostor srvSuite fun _ => none := by
  rintro ⟨hauth, -⟩
  obtain ⟨r, hr, -⟩ := (hauth impostor_connects).cipherSpec
  cases hr

end Ridux
