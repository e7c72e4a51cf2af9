import Ridux.Disk.Sectors
import Ridux.Lib.Checked
import Ridux.Lib.Overlay
import Ridux.Pmm.Basic

/-!
# Blocks of files

The geometry comes from the superblock, and the blocks of a file from its inode, directly or through blocks of
numbers.  All blocks are read into one buffer of 4096 bytes.

* `ext2Mount`, `ext2ReadBlock`, `ext2ReadInode`, `ext2GetBlockNum`, `ext2ReadInodeData`: as the source has them,
  with a note of what wraps;
* `blockData`, `fileBlock`, `fileByte`: what the map of an inode assigns, without any bound on the numbers;
* `BlockClean`, `MapClean`, `InodeClean`: what each function needs for nothing to wrap or be used outside;
* `ext2ReadBlock_clean`, `ext2GetBlockNum_clean`, `ext2ReadInode_clean`: it needs exactly that.
-/

namespace Ridux

open Lib List Option

/-- `ext2_fs_t`, as far as it is used. -/
structure Ext2Fs where
  mounted : Bool
  blockSize : ℕ
  inodesPerGroup : ℕ
  firstDataBlock : ℕ
  inodeSize : ℕ

def Ext2Fs.zero : Ext2Fs := ⟨false, 0, 0, 0, 0⟩

/-- `sizeof(g_ext2_blk_buf)`, `sizeof(ext2_group_desc_t)` and `sizeof(ext2_inode_t)`. -/
def ext2BlkBufSize : ℕ := 4096

def ext2GroupDescSize : ℕ := 32

def ext2InodeSize : ℕ := 128

def ext2NdirBlocks : ℕ := 12

/-- `g_ext2_blk_buf`, with all its bytes. -/
abbrev Ext2BlkBuf := { b : Bytes // b.length = ext2BlkBufSize }

/-- `ext2_inode_t`, with all its bytes. -/
abbrev Ext2Inode := { b : Bytes // b.length = ext2InodeSize }

namespace Ext2Inode

variable (inode : Ext2Inode)

def iMode : ℕ := leField inode.1 0 2

def iSize : ℕ := leField inode.1 4 4

def iBlock (i : ℕ) : ℕ := leField inode.1 (40 + 4 * i) 4

end Ext2Inode

/-- `ext2_mount`: the file system that is mounted, or none.  The size of an inode is taken from the bytes 86
and 87 of the superblock. -/
def ext2Mount (dev : Device) : Checked Unit Ext2Fs :=
  match dev.bind (ataReadSector · 2), dev.bind (ataReadSector · 3) with
  | some sb, some _ =>
    if leField sb.1 56 2 ≠ 0xEF53 then pure .zero
    else do
      let blockSize ← Checked.shl 32 1024 (leField sb.1 24 4)
      pure
        { mounted := true
          blockSize := blockSize
          inodesPerGroup := leField sb.1 40 4
          firstDataBlock := leField sb.1 20 4
          inodeSize := if leField sb.1 86 2 ≠ 0 then leField sb.1 86 2 else 128 }
  | _, _ => pure .zero

/-- `g_ext2`, behind `ext2_mount`. -/
def Ext2Fs.of (dev : Device) : Ext2Fs := ((ext2Mount dev ()).map (·.1)).getD .zero

variable (fs : Ext2Fs) (dev : Device)

def Ext2Fs.secsPerBlk : ℕ := fs.blockSize / 512

def Ext2Fs.ptrsPerBlk : ℕ := fs.blockSize / 4

/-- The sectors of a block, read into the buffer one behind the other. -/
def readSectors (disk : Disk) (lba : ℕ) : List ℕ → Checked Bytes Bool
  | [] => pure true
  | i :: is => do
    let at' ← Checked.num 32 (lba + i)
    match ataReadSector disk at' with
    | none => pure false
    | some s => do
      Checked.change fun buf => poke buf (i * 512) s.1
      readSectors disk lba is

/-- `ext2_read_block`, into `g_ext2_blk_buf`. -/
def ext2ReadBlock (b : ℕ) : Checked Bytes Bool := do
  let lba ← Checked.num 32 (b * fs.secsPerBlk)
  match dev with
  | none => pure false
  | some disk => readSectors disk lba (List.range fs.secsPerBlk)

def ext2ReadInode (ino : ℕ) : Checked Bytes (Option Bytes) :=
  if !fs.mounted ∨ ino = 0 then pure none
  else do
    let grp ← Checked.div (ino - 1) fs.inodesPerGroup
    let bgdBlock ← Checked.num 32 (fs.firstDataBlock + 1)
    let ok ← ext2ReadBlock fs dev bgdBlock
    if !ok then pure none
    else do
      let bgd ← Checked.read fun buf => block buf (grp * ext2GroupDescSize) ext2GroupDescSize
      let byteOff ← Checked.num 32 ((ino - 1) % fs.inodesPerGroup * fs.inodeSize)
      let blkOff ← Checked.div byteOff fs.blockSize
      let tableBlock ← Checked.num 32 (leField bgd 8 4 + blkOff)
      let ok ← ext2ReadBlock fs dev tableBlock
      if !ok then pure none
      else do
        let out ← Checked.read fun buf => block buf (byteOff % fs.blockSize) ext2InodeSize
        pure (some out)

/-- One number of a block of numbers: 0 if there is no such block, or it cannot be read. -/
def readPtr (b i : ℕ) : Checked Bytes ℕ :=
  if b = 0 then pure 0
  else do
    let ok ← ext2ReadBlock fs dev b
    if !ok then pure 0
    else do
      let ptr ← Checked.read fun buf => block buf (4 * i) 4
      pure (leNat ptr)

def ext2GetBlockNum (inode : Ext2Inode) (blockIdx : ℕ) : Checked Bytes ℕ :=
  if blockIdx < ext2NdirBlocks then pure (inode.iBlock blockIdx)
  else
    let blockIdx := blockIdx - ext2NdirBlocks
    if blockIdx < fs.ptrsPerBlk then readPtr fs dev (inode.iBlock 12) blockIdx
    else do
      let blockIdx := blockIdx - fs.ptrsPerBlk
      let double ← Checked.num 32 (fs.ptrsPerBlk * fs.ptrsPerBlk)
      if blockIdx < double then do
        let i1 ← Checked.div blockIdx fs.ptrsPerBlk
        let ind ← readPtr fs dev (inode.iBlock 13) i1
        readPtr fs dev ind (blockIdx % fs.ptrsPerBlk)
      else pure 0

/-- The loop of `ext2_read_inode_data`, which reads at least one byte in each turn: what is read, and the
destination. -/
def readDataFrom (inode : Ext2Inode) (offset size : ℕ) : ℕ → ℕ → Bytes → Checked Bytes (ℕ × Bytes)
  | 0, _, _ => Checked.read fun _ => none
  | turns + 1, readTotal, buf =>
    if size ≤ readTotal then pure (readTotal, buf)
    else do
      let pos ← Checked.num 32 (offset + readTotal)
      let blkIdx ← Checked.div pos fs.blockSize
      let blkOff := pos % fs.blockSize
      let toRead := min (fs.blockSize - blkOff) (size - readTotal)
      let blkNum ← ext2GetBlockNum fs dev inode blkIdx
      if blkNum = 0 then do
        let buf ← Checked.read fun _ => poke buf readTotal (List.replicate toRead 0)
        readDataFrom inode offset size turns (readTotal + toRead) buf
      else do
        let ok ← ext2ReadBlock fs dev blkNum
        if !ok then pure (readTotal, buf)
        else do
          let part ← Checked.read fun blk => block blk blkOff toRead
          let buf ← Checked.read fun _ => poke buf readTotal part
          readDataFrom inode offset size turns (readTotal + toRead) buf

/-- A count, as an `int`. -/
def toInt32 (n : ℕ) : ℤ := (BitVec.ofNat 32 n).toInt

/-- `ext2_read_inode_data`, for as many bytes as the destination has. -/
def ext2ReadInodeData (inode : Ext2Inode) (buf : Bytes) (offset : ℕ) : Checked Bytes (ℤ × Bytes) :=
  if inode.iSize ≤ offset then pure (0, buf)
  else do
    let last ← Checked.num 32 (offset + buf.length)
    let size := if inode.iSize < last then inode.iSize - offset else buf.length
    let r ← readDataFrom fs dev inode offset size (size + 1) 0 buf
    pure (toInt32 r.1, r.2)

/-! ### What is promised -/

/-- The sector with a number of 32 bits, where it can be read. -/
def sectorAt (lba : ℕ) : Option Sector := if lba < 2 ^ 32 then dev.bind (ataReadSector · lba) else none

/-- Its bytes. -/
def sectorBytes (lba : ℕ) : Bytes := (sectorAt dev lba).elim [] (·.1)

/-- The bytes of a block, where all its sectors can be read. -/
def blockData (b : ℕ) : Option Bytes :=
  if dev.isSome ∧ ∀ i < fs.secsPerBlk, (sectorAt dev (b * fs.secsPerBlk + i)).isSome then
    some ((List.range fs.secsPerBlk).flatMap fun i => sectorBytes dev (b * fs.secsPerBlk + i))
  else none

/-- A number in a block of numbers; there are holes in place of a block that is not there. -/
def mapPtr (b i : ℕ) : Option ℕ := if b = 0 then some 0 else (blockData fs dev b).map fun bs => leField bs (4 * i) 4

/-- The block that the map of an inode assigns, 0 for a hole: one of the twelve, or by one, two or three blocks
of numbers. -/
def fileBlock (inode : Ext2Inode) (idx : ℕ) : Option ℕ :=
  let p := fs.ptrsPerBlk
  if idx < 12 then some (inode.iBlock idx)
  else if idx - 12 < p then mapPtr fs dev (inode.iBlock 12) (idx - 12)
  else if idx - 12 - p < p * p then
    (mapPtr fs dev (inode.iBlock 13) ((idx - 12 - p) / p)).bind fun b => mapPtr fs dev b ((idx - 12 - p) % p)
  else
    let i := idx - 12 - p - p * p
    (mapPtr fs dev (inode.iBlock 14) (i / (p * p))).bind fun b =>
      (mapPtr fs dev b (i / p % p)).bind fun b => mapPtr fs dev b (i % p)

/-- A byte of a file, where its block can be found and read. -/
def fileByte (inode : Ext2Inode) (pos : ℕ) : Option UInt8 :=
  (fileBlock fs dev inode (pos / fs.blockSize)).bind fun b =>
    if b = 0 then some 0 else (blockData fs dev b).bind fun bs => bs[pos % fs.blockSize]?

/-- The bytes of a file that are asked for and lie in it. -/
def wanted (inode : Ext2Inode) (buf : Bytes) (offset : ℕ) : ℕ := min buf.length (inode.iSize - offset)

/-- `ext2_read_inode_data` is clean; it reads the bytes of the file, and stops short only of one that cannot be
read. -/
def DataFaithful (inode : Ext2Inode) (buf : Bytes) (offset : ℕ) (blk : Ext2BlkBuf) : Prop :=
  ∃ (r : ℕ) (buf' blk' : Bytes), (ext2ReadInodeData fs dev inode buf offset).Gives blk.1 ((r : ℤ), buf') blk' ∧
    r ≤ wanted inode buf offset ∧ buf'.length = buf.length ∧
    (∀ k < r, ∃ c, fileByte fs dev inode (offset + k) = some c ∧ buf'[k]? = some c) ∧
    (r < wanted inode buf offset → fileByte fs dev inode (offset + r) = none)

/-! ### What is needed -/

/-- The first sector of the block has a number of 32 bits, and no more sectors can be read than the buffer
holds. -/
def BlockClean (b : ℕ) : Prop :=
  b * fs.secsPerBlk < 2 ^ 32 ∧
    (fs.blockSize ≤ ext2BlkBufSize ∨ ∃ i ≤ 8, sectorAt dev (b * fs.secsPerBlk + i) = none)

/-- The blocks of numbers of a file block are clean, and the square of the numbers in one has 32 bits. -/
def MapClean (inode : Ext2Inode) (idx : ℕ) : Prop :=
  let p := fs.ptrsPerBlk
  12 ≤ idx →
    (idx - 12 < p → inode.iBlock 12 = 0 ∨ BlockClean fs dev (inode.iBlock 12)) ∧
    (p ≤ idx - 12 → p * p < 2 ^ 32 ∧ (idx - 12 - p < p * p →
      (inode.iBlock 13 = 0 ∨ BlockClean fs dev (inode.iBlock 13)) ∧
        ∀ b, mapPtr fs dev (inode.iBlock 13) ((idx - 12 - p) / p) = some b → b = 0 ∨ BlockClean fs dev b))

/-- The group of an inode has its descriptor in the buffer, the table its block, and the block the inode; what
the buffer holds behind a block is what was there before. -/
def InodeClean (blk : Bytes) (ino : ℕ) : Prop :=
  fs.mounted = true → ino ≠ 0 →
    fs.inodesPerGroup ≠ 0 ∧ fs.firstDataBlock + 1 < 2 ^ 32 ∧ BlockClean fs dev (fs.firstDataBlock + 1) ∧
    ∀ bs, blockData fs dev (fs.firstDataBlock + 1) = some bs →
      let desc := (ino - 1) / fs.inodesPerGroup * ext2GroupDescSize
      let byteOff := (ino - 1) % fs.inodesPerGroup * fs.inodeSize
      let table := leField (bs ++ blk.drop fs.blockSize) (desc + 8) 4 + byteOff / fs.blockSize
      desc + ext2GroupDescSize ≤ ext2BlkBufSize ∧ byteOff < 2 ^ 32 ∧ fs.blockSize ≠ 0 ∧ table < 2 ^ 32 ∧
        BlockClean fs dev table ∧
        ((blockData fs dev table).isSome = true → byteOff % fs.blockSize + ext2InodeSize ≤ ext2BlkBufSize)

/-- The way to the block of a byte is clean; its blocks of numbers can be read, and there are at most two of them,
or the byte is 0. -/
def ByteGood (inode : Ext2Inode) (pos : ℕ) : Prop :=
  fs.blockSize ≠ 0 ∧ MapClean fs dev inode (pos / fs.blockSize) ∧
    if pos / fs.blockSize < 12 + fs.ptrsPerBlk + fs.ptrsPerBlk * fs.ptrsPerBlk then
      ∃ b, fileBlock fs dev inode (pos / fs.blockSize) = some b ∧ (b = 0 ∨ BlockClean fs dev b)
    else fileByte fs dev inode pos = some 0

/-- The end of the request has a number of 32 bits; the bytes that are asked for are good, up to the first that
cannot be read, and fewer than `2 ^ 31` are read. -/
def DataGood (inode : Ext2Inode) (buf : Bytes) (offset : ℕ) : Prop :=
  offset < inode.iSize → offset + buf.length < 2 ^ 32 ∧ ∀ k < wanted inode buf offset,
    (∀ j < k, (fileByte fs dev inode (offset + j)).isSome = true) →
      ByteGood fs dev inode (offset + k) ∧ (k + 1 = 2 ^ 31 → fileByte fs dev inode (offset + k) = none)

/-- The number that the functions find for a file block: the map's, as far as it needs at most two blocks of
numbers that can be read, and 0 otherwise. -/
def fileNum (inode : Ext2Inode) (idx : ℕ) : ℕ :=
  if idx < 12 + fs.ptrsPerBlk + fs.ptrsPerBlk * fs.ptrsPerBlk then (fileBlock fs dev inode idx).getD 0 else 0

variable {fs : Ext2Fs} {dev : Device}

/-! ### Blocks -/

/-- A block has no bytes, or a power of two from 1024 on. -/
def Ext2Fs.Sized (fs : Ext2Fs) : Prop := fs.blockSize = 0 ∨ ∃ l < 22, fs.blockSize = 1024 * 2 ^ l

theorem Ext2Fs.Sized.eq (h : fs.Sized) : fs.blockSize = 512 * fs.secsPerBlk := by
  unfold Ext2Fs.secsPerBlk
  rcases h with h | ⟨l, -, h⟩ <;> omega

theorem Ext2Fs.Sized.dvd (h : fs.Sized) (hn : fs.secsPerBlk ≠ 0) : fs.secsPerBlk ∣ 2 ^ 32 := by
  rcases h with h | ⟨l, hl, h⟩
  · simp [Ext2Fs.secsPerBlk, h] at hn
  · have hpow : fs.secsPerBlk = 2 ^ (l + 1) := by
      unfold Ext2Fs.secsPerBlk
      rw [h, Nat.pow_succ]
      omega
    rw [hpow]
    exact Nat.pow_dvd_pow 2 (by omega)

theorem Ext2Fs.Sized.room (h : fs.Sized) {b : ℕ} (hb : b * fs.secsPerBlk < 2 ^ 32) :
    b * fs.secsPerBlk + fs.secsPerBlk ≤ 2 ^ 32 := by
  by_cases hn : fs.secsPerBlk = 0
  · omega
  obtain ⟨q, hq⟩ := h.dvd hn
  rw [hq, Nat.mul_comm fs.secsPerBlk q] at hb ⊢
  have hlt : b < q := Nat.lt_of_mul_lt_mul_right hb
  rw [← Nat.succ_mul]
  exact Nat.mul_le_mul_right _ hlt

section Sectors

variable {disk : Disk} {lba i m : ℕ} {st st' : Bytes} {ok : Bool}

theorem readSectors_clean (hst : st.length = ext2BlkBufSize) (hi : i ≤ 8) (hlba : lba + i + m ≤ 2 ^ 32) :
    (readSectors disk lba (List.range' i m)).Clean st ↔
      i + m ≤ 8 ∨ ∃ j ≤ 8, i ≤ j ∧ ataReadSector disk (lba + j) = none := by
  have hsize : ext2BlkBufSize = 4096 := rfl
  induction m generalizing i st with
  | zero => simp [readSectors, hi]
  | succ m ih =>
    rw [List.range'_succ, readSectors, Checked.clean_num_bind]
    cases hread : ataReadSector disk (lba + i) with
    | none =>
      exact ⟨fun _ => .inr ⟨i, hi, le_rfl, hread⟩, fun _ => ⟨by omega, Checked.clean_pure.2 trivial⟩⟩
    | some s =>
      have hs : s.1.length = 512 := s.2
      dsimp only
      rw [Checked.clean_change_bind]
      by_cases hlast : i = 8
      · -- there is no room for one more
        subst hlast
        have hout : poke st (8 * 512) s.1 = none := within_of_lt (by omega) _
        constructor
        · rintro ⟨-, t, ht, -⟩
          rw [hout] at ht
          cases ht
        · rintro (hle | ⟨j, hj, hij, hnone⟩)
          · omega
          · obtain rfl : j = 8 := by omega
            rw [hread] at hnone
            cases hnone
      · obtain ⟨t, ht, htlen, -⟩ := poke_eq_some st (i * 512) s.1 (by omega)
        have hrest := @ih (i + 1) t (by omega) (by omega) (by omega)
        constructor
        · rintro ⟨-, t', ht', hclean⟩
          obtain rfl := some.inj (ht.symm.trans ht')
          rcases hrest.1 hclean with hle | ⟨j, hj, hij, hnone⟩
          · exact .inl (by omega)
          · exact .inr ⟨j, hj, by omega, hnone⟩
        · intro h
          refine ⟨by omega, t, ht, hrest.2 ?_⟩
          rcases h with hle | ⟨j, hj, hij, hnone⟩
          · exact .inl (by omega)
          · refine .inr ⟨j, hj, ?_, hnone⟩
            by_contra hji
            obtain rfl : j = i := by omega
            rw [hread] at hnone
            cases hnone

theorem readSectors_gives (h : (readSectors disk lba (List.range' i m)).Gives st ok st') :
    st'.length = st.length ∧
      (ok = true ↔ ∀ j, i ≤ j → j < i + m → (sectorAt (some disk) (lba + j)).isSome = true) ∧
      (ok = true → st' = st.take (512 * i) ++
        (List.range' i m).flatMap (fun j => sectorBytes (some disk) (lba + j)) ++ st.drop (512 * (i + m))) := by
  induction m generalizing i st with
  | zero =>
    obtain ⟨rfl, rfl⟩ := Checked.gives_pure.1 h
    refine ⟨rfl, ⟨fun _ j hj hj' => by omega, fun _ => rfl⟩, fun _ => ?_⟩
    simp
  | succ m ih =>
    rw [List.range'_succ, readSectors, Checked.gives_num_bind] at h
    obtain ⟨hlt, h⟩ := h
    have hat : sectorAt (some disk) (lba + i) = ataReadSector disk (lba + i) := if_pos hlt
    cases hread : ataReadSector disk (lba + i) with
    | none =>
      rw [hread] at h
      obtain ⟨rfl, rfl⟩ := Checked.gives_pure.1 h
      refine ⟨rfl, ⟨fun hok => (nomatch hok), fun hall => ?_⟩, fun hok => (nomatch hok)⟩
      have hi := hall i le_rfl (by omega)
      rw [hat, hread] at hi
      cases hi
    | some s =>
      have hs : s.1.length = 512 := s.2
      rw [hread] at h
      obtain ⟨t, ht, h⟩ := Checked.gives_change_bind.1 h
      have hroom : i * 512 + s.1.length ≤ st.length := by
        by_contra hout
        have hpoke : poke st (i * 512) s.1 = none := within_of_lt (by omega) _
        rw [hpoke] at ht
        cases ht
      obtain rfl := some.inj ((poke_of_le hroom).symm.trans ht)
      obtain ⟨hlen, hiff, hst⟩ := ih h
      refine ⟨by rw [hlen]; simp; omega, ?_, fun hok => ?_⟩
      · rw [hiff]
        constructor
        · intro hall j hj hj'
          by_cases hji : j = i
          · rw [hji, hat, hread]
            rfl
          · exact hall j (by omega) (by omega)
        · exact fun hall j hj hj' => hall j (by omega) (by omega)
      · have hbytes : sectorBytes (some disk) (lba + i) = s.1 := by rw [sectorBytes, hat, hread]; rfl
        have hpre : (st.take (i * 512) ++ s.1).length = 512 * (i + 1) := by simp; omega
        have htake : (st.take (i * 512) ++ s.1 ++ st.drop (i * 512 + s.1.length)).take (512 * (i + 1)) =
            st.take (512 * i) ++ s.1 := by rw [take_left' hpre, Nat.mul_comm i 512]
        have hdrop : (st.take (i * 512) ++ s.1 ++ st.drop (i * 512 + s.1.length)).drop (512 * (i + 1 + m)) =
            st.drop (512 * (i + (m + 1))) := by
          rw [show 512 * (i + 1 + m) = (st.take (i * 512) ++ s.1).length + 512 * m by rw [hpre]; omega,
            drop_length_add_append, drop_drop, hs]
          exact congrArg (st.drop ·) (by omega)
        rw [hst hok, htake, hdrop, List.range'_succ, flatMap_cons, hbytes, append_assoc (st.take _)]

end Sectors

section Blocks

variable {b i : ℕ} {st st' bs : Bytes} {ok : Bool}

/-- **A block is read** without a wrap and inside the buffer exactly when it is clean. -/
theorem ext2ReadBlock_clean (hfs : fs.Sized) (hst : st.length = ext2BlkBufSize) :
    (ext2ReadBlock fs dev b).Clean st ↔ BlockClean fs dev b := by
  have hsize : ext2BlkBufSize = 4096 := rfl
  have heq := hfs.eq
  unfold ext2ReadBlock BlockClean
  rw [Checked.clean_num_bind]
  refine and_congr_right fun hlt => ?_
  have hroom := hfs.room hlt
  cases dev with
  | none =>
    refine ⟨fun _ => .inr ⟨0, Nat.zero_le 8, ?_⟩, fun _ => Checked.clean_pure.2 trivial⟩
    unfold sectorAt
    split_ifs <;> rfl
  | some disk =>
    dsimp only
    rw [range_eq_range', readSectors_clean hst (Nat.zero_le 8) (by omega)]
    by_cases hsmall : fs.blockSize ≤ ext2BlkBufSize
    · exact iff_of_true (.inl (by omega)) (.inl hsmall)
    have hat : ∀ j ≤ 8, sectorAt (some disk) (b * fs.secsPerBlk + j) =
      ataReadSector disk (b * fs.secsPerBlk + j) := fun j hj => if_pos (by omega)
    constructor
    · rintro (hle | ⟨j, hj, -, hnone⟩)
      · omega
      · exact .inr ⟨j, hj, (hat j hj).trans hnone⟩
    · rintro (hle | ⟨j, hj, hnone⟩)
      · exact absurd hle hsmall
      · exact .inr ⟨j, hj, Nat.zero_le j, (hat j hj).symm.trans hnone⟩

/-- **What a block leaves in the buffer**: its bytes, in front of what was there. -/
theorem ext2ReadBlock_gives (hfs : fs.Sized) (h : (ext2ReadBlock fs dev b).Gives st ok st') :
    st'.length = st.length ∧ ok = (blockData fs dev b).isSome ∧
      ∀ bs, blockData fs dev b = some bs → st' = bs ++ st.drop fs.blockSize := by
  have heq := hfs.eq
  unfold ext2ReadBlock at h
  obtain ⟨hlt, h⟩ := Checked.gives_num_bind.1 h
  unfold blockData
  cases dev with
  | none =>
    obtain ⟨rfl, rfl⟩ := Checked.gives_pure.1 h
    rw [if_neg fun hdev => nomatch hdev.1]
    exact ⟨rfl, rfl, fun bs hbs => nomatch hbs⟩
  | some disk =>
    dsimp only at h
    rw [range_eq_range'] at h
    obtain ⟨hlen, hiff, hst⟩ := readSectors_gives h
    refine ⟨hlen, ?_⟩
    by_cases hall : ∀ i < fs.secsPerBlk, (sectorAt (some disk) (b * fs.secsPerBlk + i)).isSome = true
    · have hok : ok = true := hiff.2 fun j _ hj => hall j (by omega)
      rw [if_pos ⟨rfl, hall⟩]
      refine ⟨hok, fun bs hbs => ?_⟩
      rw [hst hok, ← some.inj hbs, range_eq_range', heq]
      simp
    · have hok : ok = false := by
        rw [← Bool.not_eq_true, hiff]
        exact fun h => hall fun i hi => h i (Nat.zero_le i) (by omega)
      rw [if_neg fun h => hall h.2]
      exact ⟨hok, fun bs hbs => nomatch hbs⟩

theorem length_sectorBytes {lba : ℕ} (h : (sectorAt dev lba).isSome = true) :
    (sectorBytes dev lba).length = 512 := by
  obtain ⟨s, hs⟩ := isSome_iff_exists.1 h
  rw [sectorBytes, hs]
  exact s.2

theorem length_blockData (hfs : fs.Sized) (h : blockData fs dev b = some bs) :
    bs.length = fs.blockSize := by
  unfold blockData at h
  split_ifs at h with hall
  have hlen : ∀ n ≤ fs.secsPerBlk,
      ((List.range n).flatMap fun i => sectorBytes dev (b * fs.secsPerBlk + i)).length = 512 * n := by
    intro n hn
    induction n with
    | zero => rfl
    | succ n ih =>
      rw [range_succ, flatMap_append, length_append, ih (by omega), flatMap_singleton,
        length_sectorBytes (hall.2 n hn), Nat.mul_succ]
  rw [← some.inj h, hlen _ le_rfl, hfs.eq]

theorem BlockClean.fits (hfs : fs.Sized) (h : BlockClean fs dev b) (hdata : (blockData fs dev b).isSome = true) :
    fs.blockSize ≤ ext2BlkBufSize := by
  rcases h.2 with hsmall | ⟨i, hi, hnone⟩
  · exact hsmall
  · have heq := hfs.eq
    have hsize : ext2BlkBufSize = 4096 := rfl
    unfold blockData at hdata
    split_ifs at hdata with hall
    · by_contra hbig
      have hsome := hall.2 i (by omega)
      rw [hnone] at hsome
      cases hsome
    · cases hdata

theorem BlockClean.gives (hfs : fs.Sized) (hst : st.length = ext2BlkBufSize) (h : BlockClean fs dev b) :
    ∃ st', (ext2ReadBlock fs dev b).Gives st (blockData fs dev b).isSome st' ∧ st'.length = ext2BlkBufSize ∧
      ∀ bs, blockData fs dev b = some bs → st' = bs ++ st.drop fs.blockSize := by
  obtain ⟨ok, st', hgives⟩ := (ext2ReadBlock_clean hfs hst).2 h
  obtain ⟨hlen, rfl, hbytes⟩ := ext2ReadBlock_gives hfs hgives
  exact ⟨st', hgives, hlen.trans hst, hbytes⟩

theorem readBlock_bind_clean (hfs : fs.Sized) (hst : st.length = ext2BlkBufSize) {α : Type} {a : α}
    {c : Checked Bytes α} : (ext2ReadBlock fs dev b >>= fun ok => if !ok then pure a else c).Clean st ↔
      BlockClean fs dev b ∧ ∀ bs, blockData fs dev b = some bs → c.Clean (bs ++ st.drop fs.blockSize) := by
  rw [Checked.clean_bind]
  constructor
  · rintro ⟨ok, st', hgives, hrest⟩
    refine ⟨(ext2ReadBlock_clean hfs hst).1 hgives.clean, fun bs hbs => ?_⟩
    obtain ⟨-, rfl, hbytes⟩ := ext2ReadBlock_gives hfs hgives
    rw [hbytes bs hbs, hbs] at hrest
    exact hrest
  · rintro ⟨hclean, hrest⟩
    obtain ⟨st', hgives, -, hbytes⟩ := hclean.gives hfs hst
    refine ⟨_, st', hgives, ?_⟩
    cases hdata : blockData fs dev b with
    | none => exact Checked.clean_pure.2 trivial
    | some bs =>
      rw [hbytes bs hdata]
      exact hrest bs hdata

theorem length_blockData_append (hfs : fs.Sized) (hst : st.length = ext2BlkBufSize)
    (h : BlockClean fs dev b) (hbs : blockData fs dev b = some bs) :
    (bs ++ st.drop fs.blockSize).length = ext2BlkBufSize := by
  have hfits := h.fits hfs (by rw [hbs]; rfl)
  rw [length_append, length_blockData hfs hbs, length_drop]
  omega

theorem readPtr_clean (hfs : fs.Sized) (hst : st.length = ext2BlkBufSize) (hi : i < fs.ptrsPerBlk) :
    (readPtr fs dev b i).Clean st ↔ b = 0 ∨ BlockClean fs dev b := by
  unfold readPtr
  by_cases hb : b = 0
  · rw [if_pos hb]
    exact iff_of_true (Checked.clean_pure.2 trivial) (.inl hb)
  rw [if_neg hb, readBlock_bind_clean hfs hst, or_iff_right hb,
    and_iff_left_iff_imp]
  intro hclean bs hbs
  have hlen := length_blockData_append hfs hst hclean hbs
  have hfits := hclean.fits hfs (by rw [hbs]; rfl)
  have hptrs : fs.ptrsPerBlk = fs.blockSize / 4 := rfl
  exact Checked.clean_read_bind.2 ⟨_, block_of_le (by omega), Checked.clean_pure.2 trivial⟩

theorem readPtr_gives (hfs : fs.Sized) (hi : i < fs.ptrsPerBlk) {v : ℕ} (h : (readPtr fs dev b i).Gives st v st') :
    st'.length = st.length ∧ v = (mapPtr fs dev b i).getD 0 := by
  unfold readPtr at h
  unfold mapPtr
  by_cases hb : b = 0
  · rw [if_pos hb] at h ⊢
    obtain ⟨rfl, rfl⟩ := Checked.gives_pure.1 h
    exact ⟨rfl, rfl⟩
  rw [if_neg hb] at h ⊢
  obtain ⟨ok, mid, hread, h⟩ := Checked.gives_bind.1 h
  obtain ⟨hlen, rfl, hbytes⟩ := ext2ReadBlock_gives hfs hread
  cases hdata : blockData fs dev b with
  | none =>
    rw [hdata] at h
    obtain ⟨rfl, rfl⟩ := Checked.gives_pure.1 h
    exact ⟨hlen, rfl⟩
  | some bs =>
    rw [hdata] at h
    obtain ⟨part, hpart, h⟩ := Checked.gives_read_bind.1 h
    obtain ⟨rfl, rfl⟩ := Checked.gives_pure.1 h
    obtain ⟨-, rfl⟩ := block_eq_some hpart
    have hbs := length_blockData hfs hdata
    have hptrs : fs.ptrsPerBlk = fs.blockSize / 4 := rfl
    refine ⟨hlen, ?_⟩
    rw [hbytes bs hdata, drop_append_of_le_length (by omega),
      take_append_of_le_length (by rw [length_drop]; omega)]
    rfl

end Blocks

section Numbers

variable {inode : Ext2Inode} {idx : ℕ} {st st' : Bytes}

/-- **The number of a block** is found without a wrap and inside the buffer exactly when the map is clean. -/
theorem ext2GetBlockNum_clean (hfs : fs.Sized) (hst : st.length = ext2BlkBufSize) :
    (ext2GetBlockNum fs dev inode idx).Clean st ↔ MapClean fs dev inode idx := by
  unfold ext2GetBlockNum MapClean ext2NdirBlocks
  dsimp only
  by_cases hdir : idx < 12
  · rw [if_pos hdir]
    exact iff_of_true (Checked.clean_pure.2 trivial) fun h => absurd hdir (Nat.not_lt.2 h)
  rw [if_neg hdir, forall_prop_of_true (Nat.not_lt.1 hdir)]
  by_cases hind : idx - 12 < fs.ptrsPerBlk
  · rw [if_pos hind, readPtr_clean hfs hst hind]
    exact ⟨fun h => ⟨fun _ => h, fun hle => absurd hind (Nat.not_lt.2 hle)⟩, fun h => h.1 hind⟩
  rw [if_neg hind, Checked.clean_num_bind]
  -- two blocks of numbers, or three
  have hskip : ∀ q : Prop, ((idx - 12 < fs.ptrsPerBlk → inode.iBlock 12 = 0 ∨ BlockClean fs dev (inode.iBlock 12)) ∧
      (fs.ptrsPerBlk ≤ idx - 12 → q)) ↔ q := fun q =>
    ⟨fun h => h.2 (Nat.not_lt.1 hind), fun h => ⟨fun hlt => absurd hlt hind, fun _ => h⟩⟩
  rw [hskip]
  refine and_congr_right fun _ => ?_
  by_cases hdouble : idx - 12 - fs.ptrsPerBlk < fs.ptrsPerBlk * fs.ptrsPerBlk
  swap
  · rw [if_neg hdouble]
    exact iff_of_true (Checked.clean_pure.2 trivial) fun h => absurd h hdouble
  have hp : fs.ptrsPerBlk ≠ 0 := fun h0 => by simp [h0] at hdouble
  have hi1 := Nat.div_lt_of_lt_mul hdouble
  have hi2 := Nat.mod_lt (idx - 12 - fs.ptrsPerBlk) (Nat.pos_of_ne_zero hp)
  rw [if_pos hdouble, forall_prop_of_true hdouble, Checked.clean_div_bind, Checked.clean_bind]
  constructor
  · rintro ⟨-, v, mid, hv, hrest⟩
    refine ⟨(readPtr_clean hfs hst hi1).1 hv.clean, fun b hb => ?_⟩
    obtain ⟨hlen, rfl⟩ := readPtr_gives hfs hi1 hv
    rw [hb, getD_some] at hrest
    exact (readPtr_clean hfs (hlen.trans hst) hi2).1 hrest
  · rintro ⟨hfirst, hsecond⟩
    obtain ⟨v, mid, hv⟩ := (readPtr_clean hfs hst hi1).2 hfirst
    refine ⟨hp, v, mid, hv, ?_⟩
    obtain ⟨hlen, rfl⟩ := readPtr_gives hfs hi1 hv
    rw [readPtr_clean hfs (hlen.trans hst) hi2]
    cases hb : mapPtr fs dev (inode.iBlock 13) ((idx - 12 - fs.ptrsPerBlk) / fs.ptrsPerBlk) with
    | none => exact .inl rfl
    | some b => exact hsecond b hb

theorem ext2GetBlockNum_gives (hfs : fs.Sized) {v : ℕ} (h : (ext2GetBlockNum fs dev inode idx).Gives st v st') :
    st'.length = st.length ∧ v = fileNum fs dev inode idx := by
  unfold ext2GetBlockNum ext2NdirBlocks at h
  unfold fileNum fileBlock
  dsimp only at h ⊢
  by_cases hdir : idx < 12
  · rw [if_pos hdir] at h ⊢
    obtain ⟨rfl, rfl⟩ := Checked.gives_pure.1 h
    rw [if_pos (by omega)]
    exact ⟨rfl, rfl⟩
  rw [if_neg hdir] at h ⊢
  by_cases hind : idx - 12 < fs.ptrsPerBlk
  · rw [if_pos hind] at h ⊢
    rw [if_pos (by omega)]
    exact readPtr_gives hfs hind h
  rw [if_neg hind] at h ⊢
  obtain ⟨-, h⟩ := Checked.gives_num_bind.1 h
  by_cases hdouble : idx - 12 - fs.ptrsPerBlk < fs.ptrsPerBlk * fs.ptrsPerBlk
  · rw [if_pos hdouble] at h ⊢
    obtain ⟨hp, h⟩ := Checked.gives_div_bind.1 h
    obtain ⟨b, mid, hb, hv⟩ := Checked.gives_bind.1 h
    obtain ⟨hlen, rfl⟩ := readPtr_gives hfs (Nat.div_lt_of_lt_mul hdouble) hb
    obtain ⟨hlen', rfl⟩ := readPtr_gives hfs (Nat.mod_lt _ (Nat.pos_of_ne_zero hp)) hv
    rw [if_pos (by omega)]
    refine ⟨hlen'.trans hlen, ?_⟩
    cases mapPtr fs dev (inode.iBlock 13) ((idx - 12 - fs.ptrsPerBlk) / fs.ptrsPerBlk) with
    | none => rfl
    | some b => rfl
  · rw [if_neg hdouble] at h ⊢
    obtain ⟨rfl, rfl⟩ := Checked.gives_pure.1 h
    rw [if_neg (by omega)]
    exact ⟨rfl, rfl⟩

/-- **An inode** is read without a wrap, a division by zero and inside the buffer exactly when it is clean. -/
theorem ext2ReadInode_clean (hfs : fs.Sized) (hst : st.length = ext2BlkBufSize) {ino : ℕ} :
    (ext2ReadInode fs dev ino).Clean st ↔ InodeClean fs dev st ino := by
  have hsize : ext2BlkBufSize = 4096 := rfl
  unfold ext2ReadInode InodeClean
  dsimp only
  by_cases hnone : (!fs.mounted) = true ∨ ino = 0
  · rw [if_pos hnone]
    refine iff_of_true (Checked.clean_pure.2 trivial) fun hm hino => ?_
    rcases hnone with h | h
    · rw [hm] at h
      cases h
    · exact absurd h hino
  obtain ⟨hm, hino⟩ := not_or.1 hnone
  rw [if_neg hnone, forall_prop_of_true (by simpa using hm), forall_prop_of_true hino, Checked.clean_div_bind,
    Checked.clean_num_bind, readBlock_bind_clean hfs hst]
  refine and_congr_right fun _ => and_congr_right fun _ => and_congr_right fun hdesc =>
    forall_congr' fun bs => imp_congr_right fun hbs => ?_
  -- the descriptor, and the table that it names
  have hlen := length_blockData_append hfs hst hdesc hbs
  rw [Checked.clean_read_bind, exists_block_iff, hlen, Checked.clean_num_bind,
    Checked.clean_div_bind, Checked.clean_num_bind, leField_part (by decide),
    readBlock_bind_clean hfs hlen]
  refine and_congr_right fun _ => and_congr_right fun _ => and_congr_right fun _ => and_congr_right fun _ =>
    and_congr_right fun htable => ?_
  rw [isSome_iff_exists, forall_exists_index]
  refine forall_congr' fun bs' => imp_congr_right fun hbs' => ?_
  rw [Checked.clean_read_bind, exists_block_iff, length_blockData_append hfs hlen htable hbs',
    and_iff_left (Checked.clean_pure.2 trivial)]

end Numbers

end Ridux
