import Mathlib.Tactic.IntervalCases
import Ridux.Lib.Slots
import Ridux.Text

/-!
# The cipher

* `aes7KeySetup`, `aes7Encrypt`, `aes7Decrypt`: the cipher of one block;
* `aes7CbcEncrypt`, `aes7CbcDecrypt`: a text in memory, block after block;
* `aes7Decrypt_encrypt`: each layer has its inverse, and the rounds are undone from the last on;
* `cbcEncrypt_eq`: what stands in memory, also where a text is encrypted in its place.
-/

namespace Ridux

open Lib

/-- The sixteen bytes of a block. -/
abbrev AesBlock := Vector UInt8 16

/-- `g_aes_sbox`. -/
def aesSbox : List UInt8 := [
  0x63, 0x7c, 0x77, 0x7b, 0xf2, 0x6b, 0x6f, 0xc5, 0x30, 0x01, 0x67, 0x2b, 0xfe, 0xd7, 0xab, 0x76,
  0xca, 0x82, 0xc9, 0x7d, 0xfa, 0x59, 0x47, 0xf0, 0xad, 0xd4, 0xa2, 0xaf, 0x9c, 0xa4, 0x72, 0xc0,
  0xb7, 0xfd, 0x93, 0x26, 0x36, 0x3f, 0xf7, 0xcc, 0x34, 0xa5, 0xe5, 0xf1, 0x71, 0xd8, 0x31, 0x15,
  0x04, 0xc7, 0x23, 0xc3, 0x18, 0x96, 0x05, 0x9a, 0x07, 0x12, 0x80, 0xe2, 0xeb, 0x27, 0xb2, 0x75,
  0x09, 0x83, 0x2c, 0x1a, 0x1b, 0x6e, 0x5a, 0xa0, 0x52, 0x3b, 0xd6, 0xb3, 0x29, 0xe3, 0x2f, 0x84,
  0x53, 0xd1, 0x00, 0xed, 0x20, 0xfc, 0xb1, 0x5b, 0x6a, 0xcb, 0xbe, 0x39, 0x4a, 0x4c, 0x58, 0xcf,
  0xd0, 0xef, 0xaa, 0xfb, 0x43, 0x4d, 0x33, 0x85, 0x45, 0xf9, 0x02, 0x7f, 0x50, 0x3c, 0x9f, 0xa8,
  0x51, 0xa3, 0x40, 0x8f, 0x92, 0x9d, 0x38, 0xf5, 0xbc, 0xb6, 0xda, 0x21, 0x10, 0xff, 0xf3, 0xd2,
  0xcd, 0x0c, 0x13, 0xec, 0x5f, 0x97, 0x44, 0x17, 0xc4, 0xa7, 0x7e, 0x3d, 0x64, 0x5d, 0x19, 0x73,
  0x60, 0x81, 0x4f, 0xdc, 0x22, 0x2a, 0x90, 0x88, 0x46, 0xee, 0xb8, 0x14, 0xde, 0x5e, 0x0b, 0xdb,
  0xe0, 0x32, 0x3a, 0x0a, 0x49, 0x06, 0x24, 0x5c, 0xc2, 0xd3, 0xac, 0x62, 0x91, 0x95, 0xe4, 0x79,
  0xe7, 0xc8, 0x37, 0x6d, 0x8d, 0xd5, 0x4e, 0xa9, 0x6c, 0x56, 0xf4, 0xea, 0x65, 0x7a, 0xae, 0x08,
  0xba, 0x78, 0x25, 0x2e, 0x1c, 0xa6, 0xb4, 0xc6, 0xe8, 0xdd, 0x74, 0x1f, 0x4b, 0xbd, 0x8b, 0x8a,
  0x70, 0x3e, 0xb5, 0x66, 0x48, 0x03, 0xf6, 0x0e, 0x61, 0x35, 0x57, 0xb9, 0x86, 0xc1, 0x1d, 0x9e,
  0xe1, 0xf8, 0x98, 0x11, 0x69, 0xd9, 0x8e, 0x94, 0x9b, 0x1e, 0x87, 0xe9, 0xce, 0x55, 0x28, 0xdf,
  0x8c, 0xa1, 0x89, 0x0d, 0xbf, 0xe6, 0x42, 0x68, 0x41, 0x99, 0x2d, 0x0f, 0xb0, 0x54, 0xbb, 0x16]

/-- `g_aes_inv_sbox`. -/
def aesInvSbox : List UInt8 := [
  0x52, 0x09, 0x6a, 0xd5, 0x30, 0x36, 0xa5, 0x38, 0xbf, 0x40, 0xa3, 0x9e, 0x81, 0xf3, 0xd7, 0xfb,
  0x7c, 0xe3, 0x39, 0x82, 0x9b, 0x2f, 0xff, 0x87, 0x34, 0x8e, 0x43, 0x44, 0xc4, 0xde, 0xe9, 0xcb,
  0x54, 0x7b, 0x94, 0x32, 0xa6, 0xc2, 0x23, 0x3d, 0xee, 0x4c, 0x95, 0x0b, 0x42, 0xfa, 0xc3, 0x4e,
  0x08, 0x2e, 0xa1, 0x66, 0x28, 0xd9, 0x24, 0xb2, 0x76, 0x5b, 0xa2, 0x49, 0x6d, 0x8b, 0xd1, 0x25,
  0x72, 0xf8, 0xf6, 0x64, 0x86, 0x68, 0x98, 0x16, 0xd4, 0xa4, 0x5c, 0xcc, 0x5d, 0x65, 0xb6, 0x92,
  0x6c, 0x70, 0x48, 0x50, 0xfd, 0xed, 0xb9, 0xda, 0x5e, 0x15, 0x46, 0x57, 0xa7, 0x8d, 0x9d, 0x84,
  0x90, 0xd8, 0xab, 0x00, 0x8c, 0xbc, 0xd3, 0x0a, 0xf7, 0xe4, 0x58, 0x05, 0xb8, 0xb3, 0x45, 0x06,
  0xd0, 0x2c, 0x1e, 0x8f, 0xca, 0x3f, 0x0f, 0x02, 0xc1, 0xaf, 0xbd, 0x03, 0x01, 0x13, 0x8a, 0x6b,
  0x3a, 0x91, 0x11, 0x41, 0x4f, 0x67, 0xdc, 0xea, 0x97, 0xf2, 0xcf, 0xce, 0xf0, 0xb4, 0xe6, 0x73,
  0x96, 0xac, 0x74, 0x22, 0xe7, 0xad, 0x35, 0x85, 0xe2, 0xf9, 0x37, 0xe8, 0x1c, 0x75, 0xdf, 0x6e,
  0x47, 0xf1, 0x1a, 0x71, 0x1d, 0x29, 0xc5, 0x89, 0x6f, 0xb7, 0x62, 0x0e, 0xaa, 0x18, 0xbe, 0x1b,
  0xfc, 0x56, 0x3e, 0x4b, 0xc6, 0xd2, 0x79, 0x20, 0x9a, 0xdb, 0xc0, 0xfe, 0x78, 0xcd, 0x5a, 0xf4,
  0x1f, 0xdd, 0xa8, 0x33, 0x88, 0x07, 0xc7, 0x31, 0xb1, 0x12, 0x10, 0x59, 0x27, 0x80, 0xec, 0x5f,
  0x60, 0x51, 0x7f, 0xa9, 0x19, 0xb5, 0x4a, 0x0d, 0x2d, 0xe5, 0x7a, 0x9f, 0x93, 0xc9, 0x9c, 0xef,
  0xa0, 0xe0, 0x3b, 0x4d, 0xae, 0x2a, 0xf5, 0xb0, 0xc8, 0xeb, 0xbb, 0x3c, 0x83, 0x53, 0x99, 0x61,
  0x17, 0x2b, 0x04, 0x7e, 0xba, 0x77, 0xd6, 0x26, 0xe1, 0x69, 0x14, 0x63, 0x55, 0x21, 0x0c, 0x7d]

/-- `g_aes_rcon`. -/
def aesRcon : List UInt8 := [0x00, 0x01, 0x02, 0x04, 0x08, 0x10, 0x20, 0x40, 0x80, 0x1b, 0x36]

/-! ### Keys -/

/-- The byte of a word whose lowest bit is the bit `n`. -/
def byteOfWord (w : BitVec 32) (n : ℕ) : UInt8 := UInt8.ofBitVec ((w >>> n).setWidth 8)

def byteWord (b : UInt8) (n : ℕ) : BitVec 32 := b.toBitVec.setWidth 32 <<< n

def aesSubWord (w : BitVec 32) : BitVec 32 :=
  let sub := fun n => byteWord (aesSbox.getD (byteOfWord w n).toNat 0) n
  sub 24 ||| sub 16 ||| sub 8 ||| sub 0

def aesRotWord (w : BitVec 32) : BitVec 32 := w <<< 8 ||| w >>> 24

/-- `aes7_ctx_t`: the words of the round keys, and the number of the rounds. -/
structure AesCtx where
  rk : List (BitVec 32)
  nr : ℕ

/-- `aes7_key_setup`. -/
def aes7KeySetup (key : Bytes) (bits : ℕ) : AesCtx :=
  let nk := bits / 32
  let nr := if bits = 128 then 10 else if bits = 192 then 12 else 14
  let at' := fun j => key.getD j 0
  let w := (List.range nk).map fun i => byteWord (at' (4 * i)) 24 ||| byteWord (at' (4 * i + 1)) 16 |||
    byteWord (at' (4 * i + 2)) 8 ||| byteWord (at' (4 * i + 3)) 0
  { nr
    rk := (List.range' nk (4 * (nr + 1) - nk)).foldl (fun w i =>
      let t := w.getD (i - 1) 0
      let t := if i % nk = 0 then aesSubWord (aesRotWord t) ^^^ byteWord (aesRcon.getD (i / nk) 0) 24
        else if 6 < nk ∧ i % nk = 4 then aesSubWord t else t
      w ++ [w.getD (i - nk) 0 ^^^ t]) w }

/-! ### A block -/

/-- `aes_add_round_key`, of the round key `r`. -/
def aesAddRoundKey (ctx : AesCtx) (r : ℕ) (s : AesBlock) : AesBlock := .ofFn fun i =>
  s[i.1] ^^^ byteOfWord (ctx.rk.getD (r * 4 + i / 4) 0) ((3 - i % 4) * 8)

def aesSubBytes (s : AesBlock) : AesBlock := s.map fun x => aesSbox.getD x.toNat 0

def aesInvSubBytes (s : AesBlock) : AesBlock := s.map fun x => aesInvSbox.getD x.toNat 0

def aesShiftRows (s : AesBlock) : AesBlock :=
  #v[s[0], s[5], s[10], s[15], s[4], s[9], s[14], s[3], s[8], s[13], s[2], s[7], s[12], s[1], s[6], s[11]]

def aesInvShiftRows (s : AesBlock) : AesBlock :=
  #v[s[0], s[13], s[10], s[7], s[4], s[1], s[14], s[11], s[8], s[5], s[2], s[15], s[12], s[9], s[6], s[3]]

/-- A round of the loop of `aes_mul`: the product so far, and both factors. -/
def aesMulStep (v : UInt8 × UInt8 × UInt8) : UInt8 × UInt8 × UInt8 :=
  let (p, a, b) := v
  (if b &&& 1 ≠ 0 then p ^^^ a else p, if a &&& 0x80 ≠ 0 then a <<< 1 ^^^ 0x1b else a <<< 1, b >>> 1)

/-- `aes_mul`. -/
def aesMul (a b : UInt8) : UInt8 := ((List.range 8).foldl (fun v _ => aesMulStep v) (0, a, b)).1

/-- A column of `aes_mix_columns` or of `aes_inv_mix_columns`, by the factors of its first row. -/
def aesColumn (k₀ k₁ k₂ k₃ : UInt8 → UInt8) (a₀ a₁ a₂ a₃ : UInt8) : Vector UInt8 4 :=
  #v[k₀ a₀ ^^^ k₁ a₁ ^^^ k₂ a₂ ^^^ k₃ a₃, k₃ a₀ ^^^ k₀ a₁ ^^^ k₁ a₂ ^^^ k₂ a₃,
    k₂ a₀ ^^^ k₃ a₁ ^^^ k₀ a₂ ^^^ k₁ a₃, k₁ a₀ ^^^ k₂ a₁ ^^^ k₃ a₂ ^^^ k₀ a₃]

/-- The loop over the columns. -/
def aesColumns (f : UInt8 → UInt8 → UInt8 → UInt8 → Vector UInt8 4) (s : AesBlock) : AesBlock :=
  let c₀ := f s[0] s[1] s[2] s[3]
  let c₁ := f s[4] s[5] s[6] s[7]
  let c₂ := f s[8] s[9] s[10] s[11]
  let c₃ := f s[12] s[13] s[14] s[15]
  #v[c₀[0], c₀[1], c₀[2], c₀[3], c₁[0], c₁[1], c₁[2], c₁[3], c₂[0], c₂[1], c₂[2], c₂[3],
    c₃[0], c₃[1], c₃[2], c₃[3]]

def aesMixColumns : AesBlock → AesBlock := aesColumns (aesColumn (aesMul 2) (aesMul 3) id id)

def aesInvMixColumns : AesBlock → AesBlock :=
  aesColumns (aesColumn (aesMul 0x0e) (aesMul 0x0b) (aesMul 0x0d) (aesMul 0x09))

/-- A round of `aes7_encrypt`. -/
def aesRound (ctx : AesCtx) (s : AesBlock) (r : ℕ) : AesBlock :=
  aesAddRoundKey ctx r (aesMixColumns (aesShiftRows (aesSubBytes s)))

/-- A round of `aes7_decrypt`. -/
def aesInvRound (ctx : AesCtx) (s : AesBlock) (r : ℕ) : AesBlock :=
  aesInvMixColumns (aesAddRoundKey ctx r (aesInvSubBytes (aesInvShiftRows s)))

def aes7Encrypt (ctx : AesCtx) (b : AesBlock) : AesBlock :=
  let s := (List.range' 1 (ctx.nr - 1)).foldl (aesRound ctx) (aesAddRoundKey ctx 0 b)
  aesAddRoundKey ctx ctx.nr (aesShiftRows (aesSubBytes s))

def aes7Decrypt (ctx : AesCtx) (b : AesBlock) : AesBlock :=
  let s := (List.range' 1 (ctx.nr - 1)).reverse.foldl (aesInvRound ctx) (aesAddRoundKey ctx ctx.nr b)
  aesAddRoundKey ctx 0 (aesInvSubBytes (aesInvShiftRows s))

/-! ### Texts -/

/-- The block at an address. -/
def blockAtAddr (mem : ℕ → UInt8) (a : ℕ) : AesBlock := .ofFn fun j => mem (a + j)

/-- A block is put at an address. -/
def putBlock (mem : ℕ → UInt8) (a : ℕ) (b : AesBlock) : ℕ → UInt8 := fun x =>
  if a ≤ x ∧ x < a + 16 then b.get (Fin.ofNat 16 (x - a)) else mem x

/-- The sum of two blocks. -/
def AesBlock.xor (b e : AesBlock) : AesBlock := .ofFn fun j => b[j.1] ^^^ e[j.1]

/-- `aes7_cbc_encrypt`, from `src` to `dst`: one block for each sixteen bytes that were begun. -/
def aes7CbcEncrypt (ctx : AesCtx) (iv : AesBlock) (src dst len : ℕ) (mem : ℕ → UInt8) : ℕ → UInt8 :=
  ((List.range ((len + 15) / 16)).foldl (fun (v : AesBlock × (ℕ → UInt8)) k =>
    let blk := (blockAtAddr v.2 (src + 16 * k)).xor v.1
    let mem := putBlock v.2 (dst + 16 * k) (aes7Encrypt ctx blk)
    (blockAtAddr mem (dst + 16 * k), mem)) (iv, mem)).2

/-- `aes7_cbc_decrypt`, from `src` to `dst`. -/
def aes7CbcDecrypt (ctx : AesCtx) (iv : AesBlock) (src dst len : ℕ) (mem : ℕ → UInt8) : ℕ → UInt8 :=
  ((List.range ((len + 15) / 16)).foldl (fun (v : AesBlock × (ℕ → UInt8)) k =>
    let tmp := aes7Decrypt ctx (blockAtAddr v.2 (src + 16 * k))
    let mem := putBlock v.2 (dst + 16 * k) (tmp.xor v.1)
    (blockAtAddr mem (src + 16 * k), mem)) (iv, mem)).2

/-! ### Layers -/

theorem byte_cases {P : UInt8 → Prop} (h : ∀ n < 256, P (UInt8.ofNat n)) (x : UInt8) : P x := by
  have hx := h x.toNat x.toNat_lt
  rwa [UInt8.ofNat_toNat] at hx

theorem aesInvSbox_sbox : ∀ x : UInt8, aesInvSbox.getD (aesSbox.getD x.toNat 0).toNat 0 = x :=
  byte_cases (by decide +kernel)

theorem aesMul_columns : ∀ x : UInt8,
    aesMul 0x0e (aesMul 2 x) = x ^^^ aesMul 0x0b x ^^^ aesMul 0x0d x ^^^ aesMul 0x09 (aesMul 3 x) ∧
    aesMul 0x0e (aesMul 3 x) = aesMul 0x0b (aesMul 2 x) ^^^ aesMul 0x0d x ^^^ aesMul 0x09 x ∧
    aesMul 0x0b (aesMul 3 x) = aesMul 0x0e x ^^^ aesMul 0x0d (aesMul 2 x) ^^^ aesMul 0x09 x ∧
    aesMul 0x0d (aesMul 3 x) = aesMul 0x0e x ^^^ aesMul 0x0b x ^^^ aesMul 0x09 (aesMul 2 x) :=
  byte_cases (by decide +kernel)

theorem byte_xor_cancel (a b : UInt8) : a ^^^ (a ^^^ b) = b := by
  rw [← UInt8.xor_assoc, UInt8.xor_self, UInt8.zero_xor]

theorem byte_xor_left_comm (a b c : UInt8) : a ^^^ (b ^^^ c) = b ^^^ (a ^^^ c) := by
  rw [← UInt8.xor_assoc, UInt8.xor_comm a, UInt8.xor_assoc]

theorem aesMulStep_xor (p q a x y : UInt8) : aesMulStep (p ^^^ q, a, x ^^^ y) =
    ((aesMulStep (p, a, x)).1 ^^^ (aesMulStep (q, a, y)).1, (aesMulStep (p, a, x)).2.1,
      (aesMulStep (p, a, x)).2.2 ^^^ (aesMulStep (q, a, y)).2.2) := by
  have hbit : ∀ z : UInt8, z &&& 1 = 0 ∨ z &&& 1 = 1 := byte_cases (by decide +kernel)
  have hand : (x ^^^ y) &&& 1 = (x &&& 1) ^^^ (y &&& 1) := by
    rw [← UInt8.toBitVec_inj]
    ext
    simp [Bool.and_xor_distrib_right]
  have hshift : (x ^^^ y) >>> 1 = x >>> 1 ^^^ y >>> 1 := UInt8.shiftRight_xor
  simp only [aesMulStep, hand, hshift]
  rcases hbit x with hx | hx <;> rcases hbit y with hy | hy <;>
    simp [hx, hy, UInt8.xor_comm, byte_xor_left_comm]

/-- The product is additive in its second factor. -/
theorem aesMul_xor (a x y : UInt8) : aesMul a (x ^^^ y) = aesMul a x ^^^ aesMul a y := by
  have hloop : ∀ (l : List ℕ) (p q a x y : UInt8),
      (l.foldl (fun v _ => aesMulStep v) (p ^^^ q, a, x ^^^ y)).1 =
        (l.foldl (fun v _ => aesMulStep v) (p, a, x)).1 ^^^
          (l.foldl (fun v _ => aesMulStep v) (q, a, y)).1 := by
    intro l
    induction l with
    | nil => intros; rfl
    | cons i l ih =>
      intro p q a x y
      rw [List.foldl_cons, List.foldl_cons, List.foldl_cons, aesMulStep_xor, ih]
      rfl
  exact hloop _ 0 0 a x y

theorem aesInvRow_column (a b c d : UInt8) :
    aesMul 0x0e (aesMul 2 a ^^^ aesMul 3 b ^^^ c ^^^ d) ^^^
      aesMul 0x0b (a ^^^ aesMul 2 b ^^^ aesMul 3 c ^^^ d) ^^^
      aesMul 0x0d (a ^^^ b ^^^ aesMul 2 c ^^^ aesMul 3 d) ^^^
      aesMul 0x09 (aesMul 3 a ^^^ b ^^^ c ^^^ aesMul 2 d) = a := by
  simp only [aesMul_xor, (aesMul_columns a).1, (aesMul_columns b).2.1, (aesMul_columns c).2.2.1,
    (aesMul_columns d).2.2.2, UInt8.xor_assoc, UInt8.xor_comm, byte_xor_left_comm, byte_xor_cancel,
    UInt8.xor_self, UInt8.xor_zero]

theorem aesInvColumn_column (a₀ a₁ a₂ a₃ : UInt8) :
    let e := aesColumn (aesMul 2) (aesMul 3) id id a₀ a₁ a₂ a₃
    let d := aesColumn (aesMul 0x0e) (aesMul 0x0b) (aesMul 0x0d) (aesMul 0x09) e[0] e[1] e[2] e[3]
    d[0] = a₀ ∧ d[1] = a₁ ∧ d[2] = a₂ ∧ d[3] = a₃ := by
  have h0 := aesInvRow_column a₀ a₁ a₂ a₃
  have h1 := aesInvRow_column a₁ a₂ a₃ a₀
  have h2 := aesInvRow_column a₂ a₃ a₀ a₁
  have h3 := aesInvRow_column a₃ a₀ a₁ a₂
  simp only [UInt8.xor_assoc, UInt8.xor_comm, byte_xor_left_comm] at h0 h1 h2 h3
  simp [aesColumn, UInt8.xor_assoc, UInt8.xor_comm, byte_xor_left_comm, h0, h1, h2, h3]

theorem aesColumns_columns {f g : UInt8 → UInt8 → UInt8 → UInt8 → Vector UInt8 4}
    (h : ∀ a₀ a₁ a₂ a₃, let e := g a₀ a₁ a₂ a₃
      let d := f e[0] e[1] e[2] e[3]
      d[0] = a₀ ∧ d[1] = a₁ ∧ d[2] = a₂ ∧ d[3] = a₃) (s : AesBlock) :
    aesColumns f (aesColumns g s) = s := by
  have hcols : aesColumns f (aesColumns g s) =
      #v[s[0], s[1], s[2], s[3], s[4], s[5], s[6], s[7], s[8], s[9], s[10], s[11], s[12], s[13], s[14],
        s[15]] := by
    unfold aesColumns
    simp [h]
  refine hcols.trans (Vector.ext fun i hi => ?_)
  interval_cases i <;> rfl

theorem aesInvMixColumns_mixColumns (s : AesBlock) : aesInvMixColumns (aesMixColumns s) = s :=
  aesColumns_columns aesInvColumn_column s

theorem aesInvShiftRows_shiftRows (s : AesBlock) : aesInvShiftRows (aesShiftRows s) = s := by
  refine Vector.ext fun i hi => ?_
  interval_cases i <;> rfl

theorem aesInvSubBytes_subBytes (s : AesBlock) : aesInvSubBytes (aesSubBytes s) = s := by
  refine Vector.ext fun i hi => ?_
  simp only [aesInvSubBytes, aesSubBytes, Vector.getElem_map, aesInvSbox_sbox]

theorem aesAddRoundKey_twice (ctx : AesCtx) (r : ℕ) (s : AesBlock) :
    aesAddRoundKey ctx r (aesAddRoundKey ctx r s) = s := by
  refine Vector.ext fun i hi => ?_
  simp only [aesAddRoundKey, Vector.getElem_ofFn, UInt8.xor_assoc, UInt8.xor_self, UInt8.xor_zero]

theorem aesInvRounds_rounds (ctx : AesCtx) (l : List ℕ) (s : AesBlock) :
    l.reverse.foldl (aesInvRound ctx) (aesShiftRows (aesSubBytes (l.foldl (aesRound ctx) s))) =
      aesShiftRows (aesSubBytes s) := by
  induction l generalizing s with
  | nil => rfl
  | cons r l ih =>
    rw [List.reverse_cons, List.foldl_append, List.foldl_cons, List.foldl_cons, List.foldl_nil, ih,
      aesInvRound, aesInvShiftRows_shiftRows, aesInvSubBytes_subBytes, aesRound, aesAddRoundKey_twice,
      aesInvMixColumns_mixColumns]

theorem aes7Decrypt_encrypt (ctx : AesCtx) (b : AesBlock) : aes7Decrypt ctx (aes7Encrypt ctx b) = b := by
  rw [aes7Decrypt, aes7Encrypt, aesAddRoundKey_twice, aesInvRounds_rounds, aesInvShiftRows_shiftRows,
    aesInvSubBytes_subBytes, aesAddRoundKey_twice]

/-! ### Blocks in memory -/

section

variable {ctx : AesCtx} {iv : AesBlock} {mem : ℕ → UInt8} {src dst k n : ℕ}

/-- The memory with the blocks `B 0`, …, `B (n - 1)` from `dst` on. -/
def putBlocks (mem : ℕ → UInt8) (dst n : ℕ) (B : ℕ → AesBlock) : ℕ → UInt8 := fun x =>
  if dst ≤ x ∧ x < dst + 16 * n then (B ((x - dst) / 16)).get (Fin.ofNat 16 (x - dst)) else mem x

/-- The blocks that are added to the text: `iv`, and what was made of the block before. -/
def cbcChain (ctx : AesCtx) (iv : AesBlock) (P : ℕ → AesBlock) : ℕ → AesBlock
  | 0 => iv
  | k + 1 => aes7Encrypt ctx ((P k).xor (cbcChain ctx iv P k))

theorem putBlocks_zero (B : ℕ → AesBlock) : putBlocks mem dst 0 B = mem := by
  funext x
  exact if_neg (by omega)

theorem putBlocks_succ (B : ℕ → AesBlock) :
    putBlock (putBlocks mem dst n B) (dst + 16 * n) (B n) = putBlocks mem dst (n + 1) B := by
  funext x
  unfold putBlock putBlocks
  by_cases hx : dst + 16 * n ≤ x ∧ x < dst + 16 * n + 16
  · have hfin : Fin.ofNat 16 (x - (dst + 16 * n)) = Fin.ofNat 16 (x - dst) := by
      ext
      simp only [Fin.val_ofNat]
      omega
    rw [if_pos hx, if_pos (by omega), hfin, show (x - dst) / 16 = n by omega]
  · rw [if_neg hx]
    by_cases hlow : dst ≤ x ∧ x < dst + 16 * n
    · rw [if_pos hlow, if_pos (by omega)]
    · rw [if_neg hlow, if_neg (by omega)]

theorem blockAtAddr_putBlock (a : ℕ) (b : AesBlock) : blockAtAddr (putBlock mem a b) a = b := by
  refine Vector.ext fun i hi => ?_
  rw [blockAtAddr, Vector.getElem_ofFn, putBlock, if_pos (by dsimp only; omega), Nat.add_sub_cancel_left]
  simp only [Fin.ofNat, Nat.mod_eq_of_lt hi]
  rfl

/-- A block that is clear of the blocks written is as it was. -/
theorem blockAtAddr_putBlocks {a : ℕ} (B : ℕ → AesBlock) (h : a + 16 ≤ dst ∨ dst + 16 * n ≤ a) :
    blockAtAddr (putBlocks mem dst n B) a = blockAtAddr mem a := by
  refine Vector.ext fun i hi => ?_
  rw [blockAtAddr, blockAtAddr, Vector.getElem_ofFn, Vector.getElem_ofFn, putBlocks,
    if_neg (by dsimp only; omega)]

theorem AesBlock.xor_xor (b c : AesBlock) : (b.xor c).xor c = b := by
  refine Vector.ext fun i hi => ?_
  simp only [AesBlock.xor, Vector.getElem_ofFn, UInt8.xor_assoc, UInt8.xor_self, UInt8.xor_zero]

theorem blocks_of_len : (16 * n + 15) / 16 = n := by omega

theorem cbcEncrypt_eq (h : src = dst ∨ src + 16 * n ≤ dst ∨ dst + 16 * n ≤ src) :
    aes7CbcEncrypt ctx iv src dst (16 * n) mem = putBlocks mem dst n fun k =>
      cbcChain ctx iv (fun k => blockAtAddr mem (src + 16 * k)) (k + 1) := by
  unfold aes7CbcEncrypt
  rw [blocks_of_len, foldl_range_invariant (P := fun k v => v =
    (cbcChain ctx iv (fun k => blockAtAddr mem (src + 16 * k)) k, putBlocks mem dst k fun k =>
      cbcChain ctx iv (fun k => blockAtAddr mem (src + 16 * k)) (k + 1)))]
  · rw [putBlocks_zero]
    rfl
  · rintro k hk _ rfl
    dsimp only
    rw [blockAtAddr_putBlock, blockAtAddr_putBlocks _ (by omega), ← putBlocks_succ]
    rfl

theorem cbcDecrypt_eq {P : ℕ → AesBlock} (h : src + 16 * n ≤ dst ∨ dst + 16 * n ≤ src)
    (htext : ∀ k < n, blockAtAddr mem (src + 16 * k) = cbcChain ctx iv P (k + 1)) :
    aes7CbcDecrypt ctx iv src dst (16 * n) mem = putBlocks mem dst n P := by
  unfold aes7CbcDecrypt
  rw [blocks_of_len, foldl_range_invariant (P := fun k v => v =
    (cbcChain ctx iv P k, putBlocks mem dst k P))]
  · rw [putBlocks_zero]
    rfl
  · rintro k hk _ rfl
    dsimp only
    rw [blockAtAddr_putBlocks _ (by omega), htext k hk, cbcChain, aes7Decrypt_encrypt, AesBlock.xor_xor,
      putBlocks_succ, blockAtAddr_putBlocks _ (by omega), htext k hk]
    rfl

theorem blockAtAddr_get (i : ℕ) :
    (blockAtAddr mem (src + 16 * (i / 16))).get (Fin.ofNat 16 i) = mem (src + i) := by
  refine (Vector.getElem_ofFn (Fin.ofNat 16 i).2).trans (congrArg mem ?_)
  simp only [Fin.val_ofNat]
  omega

theorem putBlocks_at (B : ℕ → AesBlock) {i : ℕ} (hi : i < 16 * n) :
    putBlocks mem dst n B (dst + i) = (B (i / 16)).get (Fin.ofNat 16 i) := by
  rw [putBlocks, if_pos (by omega), Nat.add_sub_cancel_left]

theorem blockAtAddr_putBlocks_self (B : ℕ → AesBlock) (hk : k < n) :
    blockAtAddr (putBlocks mem dst n B) (dst + 16 * k) = B k := by
  refine Vector.ext fun j hj => ?_
  rw [blockAtAddr, Vector.getElem_ofFn, Nat.add_assoc, putBlocks_at _ (by dsimp only; omega),
    show (16 * k + j) / 16 = k by omega]
  have hfin : Fin.ofNat 16 (16 * k + j) = ⟨j, hj⟩ := by
    ext
    simp only [Fin.val_ofNat]
    omega
  rw [hfin]
  rfl

end

/-- **Decryption undoes encryption**, of a block and of a text; and a text that is encrypted in its
place becomes what it becomes elsewhere. -/
theorem aes_cbc_inverts (key : Bytes) (bits : ℕ) :
    (∀ b, aes7Decrypt (aes7KeySetup key bits) (aes7Encrypt (aes7KeySetup key bits) b) = b) ∧
    ∀ (iv : AesBlock) (mem : ℕ → UInt8) (src dst back n : ℕ),
      (src + 16 * n ≤ dst ∨ dst + 16 * n ≤ src) → (dst + 16 * n ≤ back ∨ back + 16 * n ≤ dst) →
      (∀ i < 16 * n, aes7CbcDecrypt (aes7KeySetup key bits) iv dst back (16 * n)
        (aes7CbcEncrypt (aes7KeySetup key bits) iv src dst (16 * n) mem) (back + i) = mem (src + i)) ∧
      ∀ i < 16 * n, aes7CbcEncrypt (aes7KeySetup key bits) iv src src (16 * n) mem (src + i) =
        aes7CbcEncrypt (aes7KeySetup key bits) iv src dst (16 * n) mem (dst + i) := by
  refine ⟨aes7Decrypt_encrypt _, fun iv mem src dst back n hsep hback => ⟨fun i hi => ?_, fun i hi => ?_⟩⟩
  · rw [cbcEncrypt_eq (.inr hsep), cbcDecrypt_eq (P := fun k => blockAtAddr mem (src + 16 * k)) hback
      fun k hk => blockAtAddr_putBlocks_self _ hk, putBlocks_at _ hi, blockAtAddr_get]
  · rw [cbcEncrypt_eq (.inl rfl), cbcEncrypt_eq (.inr hsep), putBlocks_at _ hi, putBlocks_at _ hi]

theorem aes_cbc_inverts_sample :
    aes7CbcDecrypt (aes7KeySetup (List.replicate 16 1) 128) (.replicate 16 0) 16 32 16
      (aes7CbcEncrypt (aes7KeySetup (List.replicate 16 1) 128) (.replicate 16 0) 0 16 16 fun _ => 7) 33 = 7 :=
  ((aes_cbc_inverts (List.replicate 16 1) 128).2 (.replicate 16 0) (fun _ => 7) 0 16 32 1 (by decide)
    (by decide)).1 1 (by decide)

end Ridux
