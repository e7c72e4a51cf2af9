import Mathlib.Data.List.GetD
import Mathlib.Data.Nat.Prime.Defs
import Ridux.Lib.Slots
import Ridux.Lib.Words
import Ridux.Lib.Buffer
import Ridux.Text

/-!
# SHA-256 and HMAC

The hash takes its text in pieces: what does not fill a block waits in the buffer.

* `Sha256Ctx.update`, `Sha256Ctx.final`, `HmacCtx`: the calls of `display_wayland.c`;
* `fipsSha256`, `hmacSha256`: the digest of a whole text, by the standard;
* `Sha256Ctx.Holds`: what a context knows of the text so far.
-/

namespace Ridux

open Lib

/-- The eight words of the hash. -/
structure ShaState where
  a : BitVec 32
  b : BitVec 32
  c : BitVec 32
  d : BitVec 32
  e : BitVec 32
  f : BitVec 32
  g : BitVec 32
  h : BitVec 32

/-- `g_sha256_k`. -/
def sha256K : List (BitVec 32) := [
  0x428a2f98, 0x71374491, 0xb5c0fbcf, 0xe9b5dba5, 0x3956c25b, 0x59f111f1, 0x923f82a4, 0xab1c5ed5,
  0xd807aa98, 0x12835b01, 0x243185be, 0x550c7dc3, 0x72be5d74, 0x80deb1fe, 0x9bdc06a7, 0xc19bf174,
  0xe49b69c1, 0xefbe4786, 0x0fc19dc6, 0x240ca1cc, 0x2de92c6f, 0x4a7484aa, 0x5cb0a9dc, 0x76f988da,
  0x983e5152, 0xa831c66d, 0xb00327c8, 0xbf597fc7, 0xc6e00bf3, 0xd5a79147, 0x06ca6351, 0x14292967,
  0x27b70a85, 0x2e1b2138, 0x4d2c6dfc, 0x53380d13, 0x650a7354, 0x766a0abb, 0x81c2c92e, 0x92722c85,
  0xa2bfe8a1, 0xa81a664b, 0xc24b8b70, 0xc76c51a3, 0xd192e819, 0xd6990624, 0xf40e3585, 0x106aa070,
  0x19a4c116, 0x1e376c08, 0x2748774c, 0x34b0bcb5, 0x391c0cb3, 0x4ed8aa4a, 0x5b9cca4f, 0x682e6ff3,
  0x748f82ee, 0x78a5636f, 0x84c87814, 0x8cc70208, 0x90befffa, 0xa4506ceb, 0xbef9a3f7, 0xc67178f2]

def shaRotr (x : BitVec 32) (n : ℕ) : BitVec 32 := x >>> n ||| x <<< (32 - n)

def shaCh (x y z : BitVec 32) : BitVec 32 := (x &&& y) ^^^ (~~~x &&& z)

def shaMaj (x y z : BitVec 32) : BitVec 32 := (x &&& y) ^^^ (x &&& z) ^^^ (y &&& z)

def shaEp0 (x : BitVec 32) : BitVec 32 := shaRotr x 2 ^^^ shaRotr x 13 ^^^ shaRotr x 22

def shaEp1 (x : BitVec 32) : BitVec 32 := shaRotr x 6 ^^^ shaRotr x 11 ^^^ shaRotr x 25

def shaSig0 (x : BitVec 32) : BitVec 32 := shaRotr x 7 ^^^ shaRotr x 18 ^^^ x >>> 3

def shaSig1 (x : BitVec 32) : BitVec 32 := shaRotr x 17 ^^^ shaRotr x 19 ^^^ x >>> 10

/-- The hash that `sha256_init` begins with. -/
def shaInit : ShaState :=
  ⟨0x6a09e667, 0xbb67ae85, 0x3c6ef372, 0xa54ff53a, 0x510e527f, 0x9b05688c, 0x1f83d9ab, 0x5be0cd19⟩

/-! ### The code -/

/-- A word of a block, the first byte highest. -/
def shaWord (blk : Bytes) (i : ℕ) : BitVec 32 :=
  let at' := fun j => BitVec.ofNat 32 (blk.getD (4 * i + j) 0).toNat
  at' 0 <<< 24 ||| at' 1 <<< 16 ||| at' 2 <<< 8 ||| at' 3

/-- The array `w` of `sha256_transform`. -/
def shaSchedule (blk : Bytes) : List (BitVec 32) :=
  (List.range 48).foldl (fun w k =>
    let i := 16 + k
    w ++ [shaSig1 (w.getD (i - 2) 0) + w.getD (i - 7) 0 + shaSig0 (w.getD (i - 15) 0) +
      w.getD (i - 16) 0])
    ((List.range 16).map (shaWord blk))

/-- One of the rounds of `sha256_transform`, with a word of `w` and a constant. -/
def shaRound (w k : BitVec 32) (v : ShaState) : ShaState :=
  let t1 := v.h + shaEp1 v.e + shaCh v.e v.f v.g + k + w
  let t2 := shaEp0 v.a + shaMaj v.a v.b v.c
  ⟨t1 + t2, v.a, v.b, v.c, v.d + t1, v.e, v.f, v.g⟩

def ShaState.add (s v : ShaState) : ShaState :=
  ⟨s.a + v.a, s.b + v.b, s.c + v.c, s.d + v.d, s.e + v.e, s.f + v.f, s.g + v.g, s.h + v.h⟩

def sha256Transform (s : ShaState) (blk : Bytes) : ShaState :=
  let w := shaSchedule blk
  s.add ((List.range 64).foldl (fun v i => shaRound (w.getD i 0) (sha256K.getD i 0) v) s)

/-- `sha256_ctx_t`. -/
structure Sha256Ctx where
  state : ShaState
  count : BitVec 64
  buf : Bytes

namespace Sha256Ctx

/-- `sha256_init`. -/
def init : Sha256Ctx := ⟨shaInit, 0, List.replicate 64 0⟩

/-- The end of `sha256_update`: whole blocks are taken from the input, and the rest is kept. -/
def blocks (c : Sha256Ctx) (data : Bytes) : Sha256Ctx :=
  let rest := behind 64 data
  { c with
    state := absorb 64 sha256Transform c.state data
    buf := if rest ≠ [] then overwrite c.buf 0 rest else c.buf }

/-- `sha256_update`. -/
def update (c : Sha256Ctx) (data : Bytes) : Sha256Ctx :=
  let used := (c.count % 64).toNat
  let c := { c with count := c.count + BitVec.ofNat 64 data.length }
  if used ≠ 0 then
    let avail := 64 - used
    if data.length < avail then { c with buf := overwrite c.buf used data }
    else
      let buf := overwrite c.buf used (data.take avail)
      { c with state := sha256Transform c.state buf, buf }.blocks (data.drop avail)
  else c.blocks data

/-- The bytes of a number that `sha256_final` writes, from the highest on. -/
def beOut (n : ℕ) (x : ℕ) : Bytes := (List.range n).map fun i => UInt8.ofNat (x >>> (8 * (n - 1 - i)))

/-- `sha256_final`. -/
def final (c : Sha256Ctx) : Bytes :=
  let bits := c.count * 8
  let used := (c.count % 64).toNat
  let buf := overwrite c.buf used [0x80]
  let used := used + 1
  let (state, buf, used) :=
    if 56 < used then
      let buf := overwrite buf used (List.replicate (64 - used) 0)
      (sha256Transform c.state buf, buf, 0)
    else (c.state, buf, used)
  let buf := overwrite buf used (List.replicate (56 - used) 0)
  let buf := overwrite buf 56 (beOut 8 bits.toNat)
  let s := sha256Transform state buf
  [s.a, s.b, s.c, s.d, s.e, s.f, s.g, s.h].flatMap fun w => beOut 4 w.toNat

end Sha256Ctx

def sha256 (data : Bytes) : Bytes := (Sha256Ctx.init.update data).final

/-- `hmac_sha256_ctx_t`. -/
structure HmacCtx where
  inner : Sha256Ctx
  outer : Sha256Ctx

/-- `hmac_sha256_init`. -/
def HmacCtx.init (key : Bytes) : HmacCtx :=
  let k := overwrite (List.replicate 64 0) 0 (if 64 < key.length then sha256 key else key)
  { inner := Sha256Ctx.init.update (k.map (· ^^^ 0x36))
    outer := Sha256Ctx.init.update (k.map (· ^^^ 0x5c)) }

/-- `hmac_sha256_update`. -/
def HmacCtx.update (c : HmacCtx) (data : Bytes) : HmacCtx := { c with inner := c.inner.update data }

/-- `hmac_sha256_final`. -/
def HmacCtx.final (c : HmacCtx) : Bytes := (c.outer.update c.inner.final).final

/-! ### The standard -/

/-- A word of a block: four bytes, one behind the other. -/
def fipsWord (blk : Bytes) (t : ℕ) : BitVec 32 :=
  (blk.getD (4 * t) 0).toBitVec ++ (blk.getD (4 * t + 1) 0).toBitVec ++
    (blk.getD (4 * t + 2) 0).toBitVec ++ (blk.getD (4 * t + 3) 0).toBitVec

/-- The word `W` of a round. -/
def fipsW (blk : Bytes) (t : ℕ) : BitVec 32 :=
  if t < 16 then fipsWord blk t
  else
    let x := fipsW blk (t - 2)
    let y := fipsW blk (t - 15)
    (x.rotateRight 17 ^^^ x.rotateRight 19 ^^^ x >>> 10) + fipsW blk (t - 7) +
      (y.rotateRight 7 ^^^ y.rotateRight 18 ^^^ y >>> 3) + fipsW blk (t - 16)
termination_by t

/-- A round, with its word and its constant. -/
def fipsRound (w k : BitVec 32) (v : ShaState) : ShaState :=
  let t1 := v.h + (v.e.rotateRight 6 ^^^ v.e.rotateRight 11 ^^^ v.e.rotateRight 25) +
    ((v.e &&& v.f) ^^^ (~~~v.e &&& v.g)) + k + w
  let t2 := (v.a.rotateRight 2 ^^^ v.a.rotateRight 13 ^^^ v.a.rotateRight 22) +
    ((v.a &&& v.b) ^^^ (v.a &&& v.c) ^^^ (v.b &&& v.c))
  ⟨t1 + t2, v.a, v.b, v.c, v.d + t1, v.e, v.f, v.g⟩

/-- The hash behind a block. -/
def fipsCompress (s : ShaState) (blk : Bytes) : ShaState :=
  s.add ((List.range 64).foldl (fun v t => fipsRound (fipsW blk t) (sha256K.getD t 0) v) s)

/-- What stands behind a text of `n` bytes: a bit, the zeros, and the number of the bits. -/
def fipsPad (n : ℕ) : Bytes :=
  0x80 :: List.replicate ((119 - n % 64) % 64) 0 ++ (leBytes 8 (8 * n)).reverse

/-- The digest of a text. -/
def fipsSha256 (m : Bytes) : Bytes :=
  let s := absorb 64 fipsCompress shaInit (m ++ fipsPad m.length)
  [s.a, s.b, s.c, s.d, s.e, s.f, s.g, s.h].flatMap fun w => (leBytes 4 w.toNat).reverse

/-- The code of a text under a key. -/
def hmacSha256 (key text : Bytes) : Bytes :=
  let k := if 64 < key.length then fipsSha256 key else key
  let k := k ++ List.replicate (64 - k.length) 0
  fipsSha256 (k.map (· ^^^ 0x5c) ++ fipsSha256 (k.map (· ^^^ 0x36) ++ text))

/-- `c` is the first word behind the point of the `r`-th root of `p`. -/
def RootWord (r p : ℕ) (c : BitVec 32) : Prop :=
  ∃ i < 32, (i * 2 ^ 32 + c.toNat) ^ r ≤ p * 2 ^ (32 * r) ∧ p * 2 ^ (32 * r) < (i * 2 ^ 32 + c.toNat + 1) ^ r

instance (r p : ℕ) (c : BitVec 32) : Decidable (RootWord r p c) := inferInstanceAs (Decidable (∃ _, _))

/-- The constants are those of the standard, of the roots of the first primes. -/
theorem sha256K_roots : List.Forall₂ (RootWord 3) ((List.range 312).filter Nat.Prime) sha256K := by
  decide +kernel

/-! ### A block -/

theorem shaRotr_eq (x : BitVec 32) {n : ℕ} (h : n < 32) : shaRotr x n = x.rotateRight n := by
  rw [shaRotr, BitVec.rotateRight, BitVec.rotateRightAux, Nat.mod_eq_of_lt h]

theorem shaWord_eq (blk : Bytes) (t : ℕ) : shaWord blk t = fipsWord blk t := by
  refine BitVec.eq_of_getLsbD_eq fun i hi => ?_
  have hbyte : ∀ (b : UInt8) j, j < 32 → (BitVec.ofNat 32 b.toNat).getLsbD j = b.toBitVec.getLsbD j :=
    fun b j hj => by rw [BitVec.getLsbD_ofNat, decide_eq_true hj, Bool.true_and]; rfl
  have hhigh : ∀ (b : UInt8) j, 8 ≤ j → b.toBitVec.getLsbD j = false :=
    fun b j hj => BitVec.getLsbD_of_ge _ _ hj
  simp only [shaWord, fipsWord, BitVec.getLsbD_or, BitVec.getLsbD_append, BitVec.getLsbD_shiftLeft,
    Nat.add_zero, hbyte _ i hi]
  grind

theorem shaRound_eq (w k : BitVec 32) (v : ShaState) : shaRound w k v = fipsRound w k v := by
  simp only [shaRound, fipsRound, shaEp0, shaEp1, shaCh, shaMaj, shaRotr_eq, Nat.reduceLT]

theorem shaSchedule_eq (blk : Bytes) : shaSchedule blk = (List.range 64).map (fipsW blk) := by
  refine foldl_range_invariant (P := fun k w => w = (List.range (16 + k)).map (fipsW blk)) ?_ ?_
  · refine List.map_congr_left fun t ht => ?_
    rw [fipsW, if_pos (List.mem_range.1 ht), shaWord_eq]
  · rintro k - _ rfl
    have hget : ∀ j, j < 16 + k → ((List.range (16 + k)).map (fipsW blk)).getD j 0 = fipsW blk j := by
      intro j hj
      rw [List.getD_eq_getElem _ _ (by simpa using hj), List.getElem_map, List.getElem_range]
    rw [← Nat.add_assoc, List.range_succ, List.map_append, List.map_singleton, fipsW,
      if_neg (by omega)]
    dsimp only
    rw [hget _ (by omega), hget _ (by omega), hget _ (by omega), hget _ (by omega)]
    simp only [shaSig0, shaSig1, shaRotr_eq, Nat.reduceLT]

theorem sha256Transform_eq : sha256Transform = fipsCompress := by
  funext s blk
  refine congrArg s.add (List.foldl_ext _ _ s fun v i hi => ?_)
  · rw [shaRound_eq, shaSchedule_eq, List.getD_eq_getElem _ _ (by simpa using hi), List.getElem_map,
      List.getElem_range]

/-! ### The text so far -/

namespace Sha256Ctx

variable {c : Sha256Ctx} {m : Bytes}

/-- What a context knows of the text so far: its length, the hash of its whole blocks, and the bytes
behind them. -/
structure Holds (c : Sha256Ctx) (m : Bytes) : Prop where
  count : c.count = BitVec.ofNat 64 m.length
  state : c.state = absorb 64 sha256Transform shaInit m
  buf : ∃ r, c.buf = behind 64 m ++ r
  length_buf : c.buf.length = 64

theorem holds_init : init.Holds [] :=
  ⟨rfl, (absorb_of_lt _ _ (by decide)).symm, ⟨List.replicate 64 0, rfl⟩, List.length_replicate⟩

theorem Holds.used (h : c.Holds m) : (c.count % 64).toNat = m.length % 64 := by
  rw [h.count, BitVec.toNat_umod, BitVec.toNat_ofNat]
  exact Nat.mod_mod_of_dvd _ (by decide)

/-- The end of an update, where the text so far is whole blocks. -/
theorem blocks_holds (data : Bytes) (hm : 64 ∣ m.length)
    (hcount : c.count = BitVec.ofNat 64 (m ++ data).length)
    (hstate : c.state = absorb 64 sha256Transform shaInit m) (hbuf : c.buf.length = 64) :
    (c.blocks data).Holds (m ++ data) := by
  have hrest : (behind 64 data).length < 64 := by
    rw [length_behind]
    exact Nat.mod_lt _ (by decide)
  refine ⟨hcount, ?_, ?_, ?_⟩
  · rw [absorb_append _ _ (by decide) hm, ← hstate]
    rfl
  · rw [behind_append hm]
    by_cases hnil : behind 64 data = []
    · exact ⟨c.buf, by simp [blocks, hnil]⟩
    · exact ⟨c.buf.drop (0 + (behind 64 data).length), by simp [blocks, hnil, overwrite]⟩
  · unfold blocks
    dsimp only
    split_ifs
    · simp only [overwrite, List.length_append, List.length_take, List.length_drop, hbuf]
      omega
    · exact hbuf

theorem Holds.update (h : c.Holds m) (data : Bytes) : (c.update data).Holds (m ++ data) := by
  have hcount : c.count + BitVec.ofNat 64 data.length = BitVec.ofNat 64 (m ++ data).length := by
    rw [h.count, List.length_append, BitVec.ofNat_add]
  have hmod : m.length % 64 < 64 := Nat.mod_lt _ (by decide)
  have hlen := length_behind 64 m
  obtain ⟨r, hr⟩ := h.buf
  have hrlen : m.length % 64 + r.length = 64 := by
    rw [← hlen, ← List.length_append, ← hr, h.length_buf]
  have hover : ∀ xs, overwrite c.buf (m.length % 64) xs = behind 64 m ++ xs ++ r.drop xs.length := by
    intro xs
    rw [hr, ← hlen, overwrite_append]
  unfold Sha256Ctx.update
  simp only [h.used, hover]
  split_ifs with hused hshort
  · -- the buffer has room for the data
    have hlt : (behind 64 m ++ data).length < 64 := by
      rw [List.length_append, hlen]
      omega
    refine ⟨hcount, ?_, ⟨r.drop data.length, ?_⟩, ?_⟩
    · rw [absorb_resume _ _ (by decide), absorb_of_lt _ _ hlt, ← h.state]
    · rw [behind_resume, behind_of_lt hlt]
    · simp only [List.length_append, List.length_drop, hlen]
      omega
  · -- the data fills a block
    have hfill : (behind 64 m ++ data.take (64 - m.length % 64)).length = 64 := by
      simp only [List.length_append, List.length_take, hlen]
      omega
    have hdrop : r.drop (data.take (64 - m.length % 64)).length = [] := by
      refine List.drop_eq_nil_of_le ?_
      simp only [List.length_take]
      omega
    rw [hdrop, List.append_nil]
    have hwhole : 64 ∣ (m ++ data.take (64 - m.length % 64)).length := by
      simp only [List.length_append, List.length_take]
      omega
    have hblocks := blocks_holds (c := ⟨sha256Transform c.state
      (behind 64 m ++ data.take (64 - m.length % 64)), c.count + BitVec.ofNat 64 data.length,
      behind 64 m ++ data.take (64 - m.length % 64)⟩) (data.drop (64 - m.length % 64)) hwhole
      (by rw [hcount, List.append_assoc, List.take_append_drop]) ?_ hfill
    · rwa [List.append_assoc, List.take_append_drop] at hblocks
    · rw [absorb_resume _ _ (by decide), ← h.state, ← List.append_nil (behind 64 m ++ _),
        absorb_block _ _ (by decide) hfill, absorb_of_lt _ _ (a := []) (by decide), List.append_nil]
  · exact blocks_holds data (Nat.dvd_of_mod_eq_zero (not_not.1 hused)) hcount h.state h.length_buf

theorem Holds.updates (h : c.Holds m) (pieces : List Bytes) :
    (pieces.foldl Sha256Ctx.update c).Holds (m ++ pieces.flatten) := by
  induction pieces generalizing c m with
  | nil => simpa using h
  | cons data pieces ih =>
    rw [List.flatten_cons, ← List.append_assoc]
    exact ih (h.update data)

theorem beOut_four (x : ℕ) : beOut 4 x = (leBytes 4 x).reverse := by
  simp [beOut, leBytes, List.range_succ, Nat.shiftRight_eq_div_pow, Nat.div_div_eq_div_mul]

theorem beOut_eight (x : ℕ) : beOut 8 x = (leBytes 8 x).reverse := by
  simp [beOut, leBytes, List.range_succ, Nat.shiftRight_eq_div_pow, Nat.div_div_eq_div_mul]

theorem leBytes_mod (k x : ℕ) : leBytes k (x % 256 ^ k) = leBytes k x := by
  have h := leBytes_leNat (leBytes k x)
  rwa [leNat_leBytes, length_leBytes] at h

theorem last_block {t r be : Bytes} (ht : t.length ≤ 56) (hr : t.length + r.length = 64)
    (hbe : be.length = 8) :
    overwrite (overwrite (t ++ r) t.length (List.replicate (56 - t.length) 0)) 56 be =
      t ++ List.replicate (56 - t.length) 0 ++ be := by
  have hlen : (t ++ List.replicate (56 - t.length) 0).length = 56 := by
    rw [List.length_append, List.length_replicate]
    omega
  have hend := fun b => overwrite_append (t ++ List.replicate (56 - t.length) 0) b be
  rw [hlen] at hend
  rw [overwrite_append, hend, List.drop_eq_nil_of_le, List.append_nil]
  simp only [List.length_drop, List.length_replicate]
  omega

theorem Holds.final (h : c.Holds m) : c.final = fipsSha256 m := by
  have hmod : m.length % 64 < 64 := Nat.mod_lt _ (by decide)
  have hlen := length_behind 64 m
  obtain ⟨r, hr⟩ := h.buf
  have hrlen : m.length % 64 + r.length = 64 := by
    rw [← hlen, ← List.length_append, ← hr, h.length_buf]
  have hbits : beOut 8 (c.count * 8).toNat = (leBytes 8 (8 * m.length)).reverse := by
    rw [beOut_eight, h.count, BitVec.toNat_mul, BitVec.toNat_ofNat, ← leBytes_mod 8 (8 * m.length)]
    congr 2
    show m.length % 2 ^ 64 * 8 % 2 ^ 64 = 8 * m.length % 2 ^ 64
    omega
  have hpad : absorb 64 sha256Transform shaInit (m ++ fipsPad m.length) =
      absorb 64 sha256Transform c.state (behind 64 m ++ fipsPad m.length) := by
    rw [absorb_resume _ _ (by decide), h.state]
  have hmark : overwrite c.buf (m.length % 64) [0x80] = behind 64 m ++ [0x80] ++ r.drop 1 := by
    rw [hr, ← hlen, overwrite_append]
    rfl
  have hbe : (leBytes 8 (8 * m.length)).reverse.length = 8 := by rw [List.length_reverse, length_leBytes]
  have hmarked : (behind 64 m ++ [0x80]).length = m.length % 64 + 1 := by
    rw [List.length_append, hlen, List.length_singleton]
  have hrest : (behind 64 m ++ [0x80]).length + (r.drop 1).length = 64 := by
    rw [hmarked, List.length_drop]
    omega
  have htext : behind 64 m ++ fipsPad m.length = behind 64 m ++ [0x80] ++
      (List.replicate ((119 - m.length % 64) % 64) 0 ++ (leBytes 8 (8 * m.length)).reverse) := by
    simp [fipsPad]
  have hwords : ∀ s : ShaState,
      ([s.a, s.b, s.c, s.d, s.e, s.f, s.g, s.h].flatMap fun w => beOut 4 w.toNat) =
        [s.a, s.b, s.c, s.d, s.e, s.f, s.g, s.h].flatMap fun w => (leBytes 4 w.toNat).reverse :=
    fun s => by simp only [beOut_four]
  unfold Sha256Ctx.final fipsSha256
  rw [← sha256Transform_eq, hpad, htext]
  simp only [h.used, hmark, hbits, hwords]
  split_ifs with hlong
  · -- the number of the bits stands in a block of its own
    have hz : (119 - m.length % 64) % 64 = (64 - (m.length % 64 + 1)) + 56 := by omega
    have hfirst : overwrite (behind 64 m ++ [0x80] ++ r.drop 1) (m.length % 64 + 1)
        (List.replicate (64 - (m.length % 64 + 1)) 0) =
          behind 64 m ++ [0x80] ++ List.replicate (64 - (m.length % 64 + 1)) 0 := by
      rw [← hmarked, overwrite_append, List.drop_eq_nil_of_le, List.append_nil]
      rw [List.length_replicate]
      omega
    have hblock : (behind 64 m ++ [0x80] ++ List.replicate (64 - (m.length % 64 + 1)) 0).length = 64 := by
      rw [List.length_append, hmarked, List.length_replicate]
      omega
    have hlast : overwrite (overwrite (behind 64 m ++ [0x80] ++
        List.replicate (64 - (m.length % 64 + 1)) 0) 0 (List.replicate (56 - 0) 0)) 56
          (leBytes 8 (8 * m.length)).reverse =
        List.replicate 56 0 ++ (leBytes 8 (8 * m.length)).reverse :=
      last_block (t := []) (by decide) ((Nat.zero_add _).trans hblock) hbe
    rw [hfirst, hlast, hz, List.replicate_add, List.append_assoc (List.replicate _ 0), ← List.append_assoc,
      absorb_block _ _ (by decide) hblock, absorb_one _ _ (by decide) (by simp [hbe])]
  · have hz : (119 - m.length % 64) % 64 = 56 - (m.length % 64 + 1) := by omega
    have hlast := last_block (by omega) hrest hbe
    rw [hmarked] at hlast
    rw [hlast, hz, ← List.append_assoc, absorb_one _ _ (by decide)]
    simp only [List.length_append, hmarked, hbe, List.length_replicate] at *
    omega

end Sha256Ctx

/-! ### Digests -/

theorem sha256_eq (data : Bytes) : sha256 data = fipsSha256 data :=
  (Sha256Ctx.holds_init.update data).final

theorem hmacKey_eq (k : Bytes) :
    overwrite (List.replicate 64 0) 0 k = k ++ List.replicate (64 - k.length) 0 := by
  rw [overwrite, List.take_zero, List.nil_append, Nat.zero_add, List.drop_replicate]

theorem HmacCtx.updates (c : HmacCtx) (pieces : List Bytes) : pieces.foldl HmacCtx.update c =
    { c with inner := pieces.foldl Sha256Ctx.update c.inner } := by
  induction pieces generalizing c with
  | nil => rfl
  | cons data pieces ih => exact ih _

/-- **The digest and the code of a text are those of the standard**, in whatever pieces it comes. -/
theorem sha256_hmac_pieces :
    (∀ pieces : List Bytes,
      (pieces.foldl Sha256Ctx.update Sha256Ctx.init).final = fipsSha256 pieces.flatten) ∧
    ∀ (key : Bytes) (pieces : List Bytes),
      (pieces.foldl HmacCtx.update (HmacCtx.init key)).final = hmacSha256 key pieces.flatten := by
  refine ⟨fun pieces => (Sha256Ctx.holds_init.updates pieces).final, fun key pieces => ?_⟩
  have hkey : overwrite (List.replicate 64 0) 0 (if 64 < key.length then sha256 key else key) =
      (if 64 < key.length then fipsSha256 key else key) ++
        List.replicate (64 - (if 64 < key.length then fipsSha256 key else key).length) 0 := by
    rw [sha256_eq, hmacKey_eq]
  have hinner := fun data => ((Sha256Ctx.holds_init.update data).updates pieces).final
  have houter := fun data text => ((Sha256Ctx.holds_init.update data).update text).final
  rw [HmacCtx.updates, HmacCtx.init, HmacCtx.final]
  simp only [hkey, hinner, houter]
  rfl

end Ridux
