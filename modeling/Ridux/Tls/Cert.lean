import Mathlib.Algebra.Group.Nat.Defs
import Ridux.Text

/-!
# Certificates

* `asn1ReadTlv`, `x509ParseDer`: a certificate is read from its bytes;
* `pubkeyUnpackRsa`, `bnModExp`, `rsaPkcs1EncryptPms`, `pkcs1VerifySha256`: the key of a certificate;
* `verifyCertChain`, `hostnameMatch`: `ca7_verify_cert_chain` and `tls7_hostname_match`.

The hash functions and the cipher are those of `Crypto`.
-/

namespace Ridux

def tls7RsaMaxBytes : ℕ := 512
def tls7MaxCerts : ℕ := 16

/-- `sha256`, `hmac_sha256` of a key and a text, and `aes7_cbc_decrypt` of a key, a first block and a
text. -/
structure Crypto where
  sha256 : Bytes → Bytes
  hmac : Bytes → Bytes → Bytes
  cbcDecrypt : Bytes → Bytes → Bytes → Bytes

/-- `x509_cert_t`. -/
structure Cert where
  issuer : Bytes
  subject : Bytes
  pubkeyType : UInt8
  pubkeyData : Bytes
  sigType : UInt8
  sigData : Bytes
  tbsHash : Bytes
  valid : Bool

/-- `ca7_entry_t`. -/
structure CaEntry where
  subject : Bytes
  pubkeyData : Bytes
  pubkeyType : UInt8
  trusted : Bool

/-! ### DER -/

/-- The value of bytes, the first one highest. -/
def beNat (b : Bytes) : ℕ := b.foldl (fun v x => v * 256 + x.toNat) 0

/-- `c7_asn1_read_len`: the length, and how many bytes it takes. -/
def asn1ReadLen (p : Bytes) : Option (ℕ × ℕ) :=
  match p with
  | [] => none
  | b :: rest =>
    if b &&& 0x80 = 0 then some (b.toNat, 1)
    else
      let n := (b &&& 0x7F).toNat
      if n = 0 ∨ 4 < n ∨ rest.length < n then none else some (beNat (rest.take n), 1 + n)

/-- `c7_asn1_read_tlv`: the value, and what is consumed. -/
def asn1ReadTlv (p : Bytes) (tag : UInt8) : Option (Bytes × ℕ) :=
  match p with
  | t :: rest =>
    if rest = [] ∨ t ≠ tag then none
    else
      match asn1ReadLen rest with
      | none => none
      | some (len, lenLen) =>
        if p.length < 1 + lenLen + len then none
        else some ((rest.drop lenLen).take len, 1 + lenLen + len)
  | [] => none

/-- `c7_find_oid`. -/
def findOid (p oid : Bytes) : Option ℕ :=
  if oid = [] ∨ p.length < oid.length then none
  else (List.range (p.length + 1 - oid.length)).find? fun i => (p.drop i).take oid.length = oid

def sigOidSha256Rsa : Bytes := [0x2A, 0x86, 0x48, 0x86, 0xF7, 0x0D, 0x01, 0x01, 0x0B]
def rsaOid : Bytes := [0x2A, 0x86, 0x48, 0x86, 0xF7, 0x0D, 0x01, 0x01, 0x01]

/-- Two bytes, the first one higher. -/
def toBe16 (n : ℕ) : Bytes := [(n / 256).toUInt8, n.toUInt8]

/-- A number without the zeros in front; one byte stays. -/
def stripZeros : Bytes → Bytes
  | 0 :: x :: rest => stripZeros (x :: rest)
  | b => b

/-- The key at the start of `p`, when there is one. -/
def rsaKeyAt (p : Bytes) : Option Bytes := do
  let (bits, _) ← asn1ReadTlv p 0x03
  if bits.length < 2 ∨ bits.head? ≠ some 0 then none
  let (rsa, _) ← asn1ReadTlv (bits.drop 1) 0x30
  let (mod, used) ← asn1ReadTlv rsa 0x02
  let (exp, _) ← asn1ReadTlv (rsa.drop used) 0x02
  let mod := stripZeros mod
  let exp := stripZeros exp
  if mod.length = 0 ∨ tls7RsaMaxBytes < mod.length ∨ exp.length = 0 ∨ 8 < exp.length ∨
      512 < 4 + mod.length + exp.length then none
  some (toBe16 mod.length ++ toBe16 exp.length ++ mod ++ exp)

/-- `c7_extract_rsa_pubkey_blob`. -/
def extractRsaPubkeyBlob (der : Bytes) : Option Bytes :=
  match findOid der rsaOid with
  | none => none
  | some pos =>
    let start := pos + rsaOid.length
    (List.range' start (der.length - 4 - start)).findSome? fun i => rsaKeyAt (der.drop i)

/-- The loop of `x509_parse_der` over the names: the first two common names from the index `i` on. -/
def commonNames (tbs : Bytes) : ℕ → ℕ → ℕ → List Bytes
  | fuel + 1, wanted + 1, i =>
    if tbs.length ≤ i + 5 then []
    else if (tbs.drop i).take 3 ≠ [0x55, 0x04, 0x03] then commonNames tbs fuel (wanted + 1) (i + 1)
    else
      let tag := tbs.getD (i + 3) 0
      if tag ≠ 0x0C ∧ tag ≠ 0x13 ∧ tag ≠ 0x16 then commonNames tbs fuel (wanted + 1) (i + 4)
      else
        let len := (tbs.getD (i + 4) 0).toNat
        if tbs.length < i + 5 + len then []
        else (tbs.drop (i + 5)).take (min len 127) :: commonNames tbs fuel wanted (i + 6)
  | _, _, _ => []

/-- `x509_parse_der`, when it returns 0. -/
def x509ParseDer (c : Crypto) (der : Bytes) : Option Cert := do
  if der.length < 16 then none
  let (cert, _) ← asn1ReadTlv der 0x30
  let (tbs, tbsUsed) ← asn1ReadTlv cert 0x30
  let (sigAlg, algUsed) ← asn1ReadTlv (cert.drop tbsUsed) 0x30
  let (sigBits, _) ← asn1ReadTlv (cert.drop (tbsUsed + algUsed)) 0x03
  if sigBits.head? ≠ some 0 then none
  let names := commonNames tbs tbs.length 2 0
  let issuer := names.getD 0 []
  let subject := names.getD 1 []
  let key ← extractRsaPubkeyBlob tbs
  let sigType : UInt8 := if (findOid sigAlg sigOidSha256Rsa).isSome then 1 else 0
  if sigType ≠ 1 then none
  some {
    issuer := issuer
    subject := if cstr subject = [] ∧ cstr issuer ≠ [] then issuer else subject
    pubkeyType := 0
    pubkeyData := key
    sigType := sigType
    sigData := (sigBits.drop 1).take 512
    tbsHash := c.sha256 (cert.take tbsUsed)
    valid := true }

/-! ### Keys -/

/-- The bytes of a number. -/
def bnLen (a : ℕ) : ℕ := if a = 0 then 0 else a.log2 / 8 + 1

/-- `c7_bn_add_mod`. -/
def bnAddMod (a b m : ℕ) : Option ℕ :=
  if tls7RsaMaxBytes < max (bnLen a) (bnLen b) + 1 then none else some ((a + b) % m)

/-- The loop of `c7_bn_mod_mul`. -/
def bnModMulLoop (m : ℕ) : ℕ → ℕ → ℕ → ℕ → Option ℕ
  | 0, _, _, res => some res
  | fuel + 1, y, x, res =>
    if y = 0 then some res
    else do
      let res ← if y % 2 = 1 then bnAddMod res x m else some res
      let x ← bnAddMod x x m
      bnModMulLoop m fuel (y / 2) x res

/-- `c7_bn_mod_mul`. -/
def bnModMul (a b m : ℕ) : Option ℕ :=
  if m = 0 then none else bnModMulLoop m (8 * tls7RsaMaxBytes) b (a % m) 0

/-- The loop of `c7_bn_mod_exp`. -/
def bnModExpLoop (m : ℕ) : ℕ → ℕ → ℕ → ℕ → Option ℕ
  | 0, _, _, res => some res
  | fuel + 1, e, b, res =>
    if e = 0 then some res
    else do
      let res ← if e % 2 = 1 then bnModMul res b m else some res
      let b ← if e / 2 ≠ 0 then bnModMul b b m else some b
      bnModExpLoop m fuel (e / 2) b res

/-- `c7_bn_mod_exp`. -/
def bnModExp (base exp m : ℕ) : Option ℕ :=
  if m = 0 then none else bnModExpLoop m (8 * tls7RsaMaxBytes) exp (base % m) 1

/-- `c7_bn_to_be_fixed`. -/
def bnToBeFixed (a len : ℕ) : Option Bytes :=
  if len < bnLen a then none
  else some ((List.range len).map fun i => (a / 256 ^ (len - 1 - i)).toUInt8)

/-- `c7_pubkey_unpack_rsa`: the modulus and the exponent. -/
def pubkeyUnpackRsa (blob : Bytes) : Option (Bytes × Bytes) :=
  let ml := beNat (blob.take 2)
  let el := beNat ((blob.drop 2).take 2)
  if blob.length < 6 ∨ ml = 0 ∨ el = 0 ∨ tls7RsaMaxBytes < ml ∨ 8 < el ∨
      blob.length < 4 + ml + el then none
  else some ((blob.drop 4).take ml, (blob.drop (4 + ml)).take el)

/-- `c7_rsa_public_op`. -/
def rsaPublicOp (input keyBlob : Bytes) : Option Bytes := do
  let (mod, exp) ← pubkeyUnpackRsa keyBlob
  if mod.length < input.length then none
  if beNat mod ≤ beNat input then none
  let c ← bnModExp (beNat input) (beNat exp) (beNat mod)
  bnToBeFixed c mod.length

/-- `c7_rsa_pkcs1_encrypt_pms`; the bytes of `pad` are random and not 0. -/
def rsaPkcs1EncryptPms (cert : Cert) (pms : Bytes) (pad : ℕ → UInt8) : Option Bytes := do
  if cert.pubkeyType ≠ 0 then none
  let (mod, exp) ← pubkeyUnpackRsa cert.pubkeyData
  if mod.length < 64 ∨ tls7RsaMaxBytes < mod.length then none
  let em := [0x00, 0x02] ++ (List.range (mod.length - 48 - 3)).map pad ++ [0x00] ++ pms
  if beNat mod ≤ beNat em then none
  let c ← bnModExp (beNat em) (beNat exp) (beNat mod)
  bnToBeFixed c mod.length

def digestInfoPrefix : Bytes :=
  [0x30, 0x31, 0x30, 0x0D, 0x06, 0x09, 0x60, 0x86, 0x48, 0x01, 0x65, 0x03, 0x04, 0x02, 0x01, 0x05,
    0x00, 0x04, 0x20]

/-- `c7_pkcs1_verify_sha256`. -/
def pkcs1VerifySha256 (sig hash issuerKey : Bytes) : Bool :=
  match rsaPublicOp sig issuerKey with
  | some (0x00 :: 0x01 :: rest) =>
    let ones := (rest.takeWhile (· == 0xFF)).length
    let info := rest.drop (ones + 1)
    8 ≤ ones ∧ rest.getD ones 1 = 0 ∧ digestInfoPrefix.length + 32 ≤ info.length ∧
      info.take digestInfoPrefix.length = digestInfoPrefix ∧
      (info.drop digestInfoPrefix.length).take 32 = hash
  | _ => false

/-! ### Names -/

/-- `c7_ascii_tolower`. -/
def asciiToLower (ch : UInt8) : UInt8 := if 0x41 ≤ ch ∧ ch ≤ 0x5A then ch + 0x20 else ch

/-- `c7_strcasecmp` says that the strings are the same. -/
def strCaseEq (a b : Bytes) : Bool := a.map asciiToLower = b.map asciiToLower

/-- `tls7_field_equals`. -/
def fieldEquals (a b : Bytes) : Bool := strCaseEq (a.take 127) (b.take 127)

/-- `tls7_hostname_match`; `none` is no pointer. -/
def hostnameMatch (cert : Cert) (hostname : Option CString) : Bool :=
  match hostname with
  | none => false
  | some hostname =>
    let subj := (cstr cert.subject).take 127
    let host := hostname.val.take 127
    if hostname.val = [] ∨ subj = [] then false
    else if strCaseEq subj host then true
    else
      match subj with
      | 0x2A :: 0x2E :: rest =>
        let dot := host.dropWhile (· != 0x2E)
        decide (1 < dot.length) && strCaseEq (0x2E :: rest) dot
      | _ => false

/-! ### Chains -/

/-- `c7_verify_cert_signature_with_key`. -/
def verifyCertSignatureWithKey (cert : Cert) (issuerKey : Bytes) : Bool :=
  cert.sigType = 1 ∧ cert.sigData ≠ [] ∧ pkcs1VerifySha256 cert.sigData cert.tbsHash issuerKey

/-- A certificate of the chain is signed with the key of the next one. -/
def linked (cert next : Cert) : Bool :=
  cstr cert.issuer ≠ [] ∧ cstr next.subject ≠ [] ∧
    fieldEquals (cstr cert.issuer) (cstr next.subject) ∧
    verifyCertSignatureWithKey cert next.pubkeyData

/-- The last certificate of the chain is signed with the key of a trusted entry, whose name is that of
its issuer or its own. -/
def anchored (cert : Cert) (ca : CaEntry) : Bool :=
  ca.trusted ∧ ca.pubkeyType = 0 ∧ ca.pubkeyData ≠ [] ∧ cstr ca.subject ≠ [] ∧
    ((cstr cert.issuer ≠ [] ∧ fieldEquals (cstr cert.issuer) (cstr ca.subject)) ∨
      (cstr cert.subject ≠ [] ∧ fieldEquals (cstr cert.subject) (cstr ca.subject))) ∧
    verifyCertSignatureWithKey cert ca.pubkeyData

/-- `ca7_verify_cert_chain`. -/
def verifyCertChain (store : List CaEntry) (chain : List Cert) : Bool :=
  match chain.getLast? with
  | none => false
  | some last =>
    store ≠ [] ∧ (∀ cert ∈ chain, cert.valid ∧ cert.pubkeyType = 0 ∧ cert.pubkeyData ≠ []) ∧
      (∀ p ∈ chain.zip chain.tail, linked p.1 p.2) ∧ ∃ ca ∈ store, anchored last ca

end Ridux
