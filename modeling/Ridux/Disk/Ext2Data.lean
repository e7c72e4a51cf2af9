import Ridux.Disk.Ext2

/-!
# Data of files

The loop of `ext2_read_inode_data` goes from block to block; a turn copies what it needs of one.

* `turnData`, `TurnClean`: what a turn puts in the destination, and what it needs;
* `turn_run`, `turn_of_good`: a turn that is clean, and a turn over bytes that are good;
* `readDataFrom_iff`, `dataFaithful_iff`: the data are those of the file exactly when the bytes are good;
* `ext2_data_iff`: all that is promised of the functions that read files.
-/

namespace Ridux

open Lib List Option

variable {fs : Ext2Fs} {dev : Device}

/-! ### Turns -/

section Data

variable {inode : Ext2Inode} {offset size turns t : ℕ} {buf buf' st st' xs : Bytes} {r j n : ℕ}

/-- The bytes in one turn of the loop: those from `pos` on, up to the end of the block. -/
def turnLen (fs : Ext2Fs) (pos rest : ℕ) : ℕ := min (fs.blockSize - pos % fs.blockSize) rest

/-- What one turn puts in the destination, if the block can be read. -/
def turnData (fs : Ext2Fs) (dev : Device) (inode : Ext2Inode) (pos rest : ℕ) : Option Bytes :=
  let num := fileNum fs dev inode (pos / fs.blockSize)
  if num = 0 then some (List.replicate (turnLen fs pos rest) 0)
  else (blockData fs dev num).map fun bs => (bs.drop (pos % fs.blockSize)).take (turnLen fs pos rest)

/-- What one turn needs. -/
def TurnClean (fs : Ext2Fs) (dev : Device) (inode : Ext2Inode) (pos : ℕ) : Prop :=
  fs.blockSize ≠ 0 ∧ MapClean fs dev inode (pos / fs.blockSize) ∧
    (fileNum fs dev inode (pos / fs.blockSize) = 0 ∨
      BlockClean fs dev (fileNum fs dev inode (pos / fs.blockSize)))

theorem turnLen_pos (pos : ℕ) {rest : ℕ} (hbs : fs.blockSize ≠ 0) (hrest : 0 < rest) : 0 < turnLen fs pos rest := by
  have hmod := Nat.mod_lt pos (Nat.pos_of_ne_zero hbs)
  unfold turnLen
  omega

theorem length_turnData (hfs : fs.Sized) {pos rest : ℕ} (hbs : fs.blockSize ≠ 0)
    (h : turnData fs dev inode pos rest = some xs) : xs.length = turnLen fs pos rest := by
  have hmod := Nat.mod_lt pos (Nat.pos_of_ne_zero hbs)
  unfold turnData at h
  dsimp only at h
  split_ifs at h
  · rw [← some.inj h, length_replicate]
  · obtain ⟨bs, hdata, rfl⟩ := map_eq_some_iff.1 h
    rw [length_take, length_drop, length_blockData hfs hdata]
    unfold turnLen
    omega

/-- A turn that is clean reports a block that cannot be read, or goes on behind its bytes. -/
theorem turn_run (turns : ℕ) (hfs : fs.Sized) (hst : st.length = ext2BlkBufSize) (ht : t < size) (hroom : size ≤ buf.length)
    (hpos : offset + t < 2 ^ 32) (hclean : TurnClean fs dev inode (offset + t)) :
    ∃ mid, mid.length = ext2BlkBufSize ∧ ∀ r buf' st',
      (readDataFrom fs dev inode offset size (turns + 1) t buf).Gives st (r, buf') st' ↔
        match turnData fs dev inode (offset + t) (size - t) with
        | none => t = r ∧ buf = buf' ∧ mid = st'
        | some xs => (readDataFrom fs dev inode offset size turns (t + turnLen fs (offset + t) (size - t))
            (overwrite buf t xs)).Gives mid (r, buf') st' := by
  obtain ⟨hbs, hmap, hnum⟩ := hclean
  obtain ⟨num, mid, hgives⟩ := (ext2GetBlockNum_clean hfs hst).2 hmap
  obtain ⟨hlen, rfl⟩ := ext2GetBlockNum_gives hfs hgives
  have hlast : t + turnLen fs (offset + t) (size - t) ≤ buf.length := by
    unfold turnLen
    omega
  have hturn : ∀ r buf' st', (readDataFrom fs dev inode offset size (turns + 1) t buf).Gives st (r, buf') st' ↔ _ :=
    fun r buf' st' => by
      rw [readDataFrom, if_neg (Nat.not_le.2 ht), Checked.gives_num_bind, Checked.gives_div_bind, hgives.bind_iff,
        and_iff_right hpos, and_iff_right hbs]
  simp only [hturn, turnData]
  by_cases hzero : fileNum fs dev inode ((offset + t) / fs.blockSize) = 0
  · refine ⟨mid, hlen.trans hst, fun r buf' st' => ?_⟩
    have hpoke : poke buf t (List.replicate (turnLen fs (offset + t) (size - t)) (0 : UInt8)) =
        some (overwrite buf t (List.replicate (turnLen fs (offset + t) (size - t)) 0)) :=
      poke_of_le (by rwa [length_replicate])
    rw [if_pos hzero, if_pos hzero, Checked.gives_read_bind]
    constructor
    · rintro ⟨b, hb, hrest⟩
      obtain rfl := some.inj (hpoke.symm.trans hb)
      exact hrest
    · exact fun hrest => ⟨_, hpoke, hrest⟩
  obtain ⟨mid', hread, hlen', hbytes⟩ := (hnum.resolve_left hzero).gives hfs (hlen.trans hst)
  refine ⟨mid', hlen', fun r buf' st' => ?_⟩
  rw [if_neg hzero, if_neg hzero, hread.bind_iff]
  cases hdata : blockData fs dev (fileNum fs dev inode ((offset + t) / fs.blockSize)) with
  | none => simp [and_assoc]
  | some bs =>
    have hmod := Nat.mod_lt (offset + t) (Nat.pos_of_ne_zero hbs)
    have hbslen := length_blockData hfs hdata
    have hin : (offset + t) % fs.blockSize + turnLen fs (offset + t) (size - t) ≤ bs.length := by
      unfold turnLen
      omega
    have hpart : block mid' ((offset + t) % fs.blockSize) (turnLen fs (offset + t) (size - t)) =
        some ((bs.drop ((offset + t) % fs.blockSize)).take (turnLen fs (offset + t) (size - t))) := by
      rw [hbytes bs hdata, block_of_le (by rw [length_append]; omega),
        drop_append_of_le_length (by omega), take_append_of_le_length (by rw [length_drop]; omega)]
    have hpoke := @poke_of_le _ buf ((bs.drop ((offset + t) % fs.blockSize)).take
      (turnLen fs (offset + t) (size - t))) t (by rw [length_take, length_drop]; omega)
    rw [isSome_some, Bool.not_true, if_neg Bool.false_ne_true, Checked.gives_read_bind]
    constructor
    · rintro ⟨part, hpart', h⟩
      obtain rfl := some.inj (hpart.symm.trans hpart')
      obtain ⟨b, hb, hrest⟩ := Checked.gives_read_bind.1 h
      obtain rfl := some.inj (hpoke.symm.trans hb)
      exact hrest
    · exact fun hrest => ⟨_, hpart, Checked.gives_read_bind.2 ⟨_, hpoke, hrest⟩⟩

theorem turn_clean (hfs : fs.Sized) (hst : st.length = ext2BlkBufSize) (ht : t < size)
    (h : (readDataFrom fs dev inode offset size (turns + 1) t buf).Gives st (r, buf') st') :
    TurnClean fs dev inode (offset + t) := by
  rw [readDataFrom, if_neg (Nat.not_le.2 ht), Checked.gives_num_bind, Checked.gives_div_bind] at h
  obtain ⟨-, hbs, h⟩ := h
  obtain ⟨num, mid, hgives, h⟩ := Checked.gives_bind.1 h
  refine ⟨hbs, (ext2GetBlockNum_clean hfs hst).1 hgives.clean, ?_⟩
  obtain ⟨hlen, rfl⟩ := ext2GetBlockNum_gives hfs hgives
  by_cases hzero : fileNum fs dev inode ((offset + t) / fs.blockSize) = 0
  · exact .inl hzero
  · rw [if_neg hzero] at h
    obtain ⟨ok, mid', hread, -⟩ := Checked.gives_bind.1 h
    exact .inr ((ext2ReadBlock_clean hfs (hlen.trans hst)).1 hread.clean)

theorem readDataFrom_keeps (hfs : fs.Sized) (hst : st.length = ext2BlkBufSize) (hroom : size ≤ buf.length)
    (hend : offset + size ≤ 2 ^ 32) (ht : t ≤ size)
    (h : (readDataFrom fs dev inode offset size turns t buf).Gives st (r, buf') st') :
    t ≤ r ∧ r ≤ size ∧ buf'.length = buf.length ∧ ∀ k < t, buf'[k]? = buf[k]? := by
  induction turns generalizing t buf st with
  | zero => simp [readDataFrom] at h
  | succ turns ih =>
    by_cases hdone : size ≤ t
    · rw [readDataFrom, if_pos hdone] at h
      obtain ⟨heq, -⟩ := Checked.gives_pure.1 h
      obtain ⟨rfl, rfl⟩ := Prod.mk.inj heq
      exact ⟨le_rfl, ht, rfl, fun _ _ => rfl⟩
    have hlt := Nat.not_le.1 hdone
    have hclean := turn_clean hfs hst hlt h
    obtain ⟨mid, hmid, hrun⟩ := turn_run turns hfs hst hlt hroom (by omega) hclean
    rw [hrun] at h
    cases hdata : turnData fs dev inode (offset + t) (size - t) with
    | none =>
      rw [hdata] at h
      obtain ⟨rfl, rfl, -⟩ := h
      exact ⟨le_rfl, ht, rfl, fun _ _ => rfl⟩
    | some xs =>
      rw [hdata] at h
      have hxs := length_turnData hfs hclean.1 hdata
      have hle : turnLen fs (offset + t) (size - t) ≤ size - t := Nat.min_le_right ..
      obtain ⟨hlen, hcells⟩ := overwrite_getElem? buf t xs (by omega)
      obtain ⟨htr, hrs, hlen', hkeep⟩ := ih hmid (by rwa [hlen]) (by omega) h
      refine ⟨by omega, hrs, hlen'.trans hlen, fun k hk => ?_⟩
      rw [hkeep k (by omega), hcells, blockAt, if_neg (by dsimp only; omega), none_or]

theorem turn_position {pos rest : ℕ} (hj : j < turnLen fs pos rest) :
    (pos + j) / fs.blockSize = pos / fs.blockSize ∧ (pos + j) % fs.blockSize = pos % fs.blockSize + j := by
  have hlt : pos % fs.blockSize + j < fs.blockSize := by
    unfold turnLen at hj
    omega
  have hsplit : pos + j = fs.blockSize * (pos / fs.blockSize) + (pos % fs.blockSize + j) := by
    rw [← Nat.add_assoc, Nat.div_add_mod]
  rw [hsplit]
  exact ⟨by rw [Nat.mul_add_div (by omega), Nat.div_eq_of_lt hlt, Nat.add_zero],
    by rw [Nat.mul_add_mod, Nat.mod_eq_of_lt hlt]⟩

theorem fileBlock_of_fileNum {idx : ℕ} (h : fileNum fs dev inode idx ≠ 0) :
    idx < 12 + fs.ptrsPerBlk + fs.ptrsPerBlk * fs.ptrsPerBlk ∧
      fileBlock fs dev inode idx = some (fileNum fs dev inode idx) := by
  unfold fileNum at h ⊢
  split_ifs at h ⊢ with hlow
  · refine ⟨hlow, ?_⟩
    cases hblock : fileBlock fs dev inode idx with
    | none =>
      rw [hblock] at h
      exact absurd rfl h
    | some b => rfl
  · exact absurd rfl h

theorem turn_none {pos rest : ℕ} (hclean : TurnClean fs dev inode pos) (h : turnData fs dev inode pos rest = none) :
    fileByte fs dev inode pos = none ∧ ByteGood fs dev inode pos := by
  obtain ⟨hbs, hmap, hnum⟩ := hclean
  unfold turnData at h
  dsimp only at h
  split_ifs at h with hzero
  obtain ⟨hlow, hblock⟩ := fileBlock_of_fileNum hzero
  have hdata := map_eq_none_iff.1 h
  refine ⟨?_, hbs, hmap, ?_⟩
  · rw [fileByte, hblock, bind_some, if_neg hzero, hdata]
    rfl
  · rw [if_pos hlow]
    exact ⟨_, hblock, hnum⟩

theorem turn_good {pos rest : ℕ} (hclean : TurnClean fs dev inode pos)
    (h : turnData fs dev inode pos rest = some xs) (hj : j < turnLen fs pos rest) {c : UInt8}
    (hbyte : fileByte fs dev inode (pos + j) = some c) (hc : xs[j]? = some c) :
    ByteGood fs dev inode (pos + j) := by
  obtain ⟨hbs, hmap, hnum⟩ := hclean
  obtain ⟨hidx, -⟩ := turn_position hj
  unfold ByteGood
  rw [hidx]
  refine ⟨hbs, hmap, ?_⟩
  by_cases hzero : fileNum fs dev inode (pos / fs.blockSize) = 0
  · -- zeros, for a hole or for a byte behind three blocks of numbers
    unfold turnData at h
    dsimp only at h
    rw [if_pos hzero] at h
    obtain rfl := some.inj h
    rw [List.getElem?_replicate, if_pos hj] at hc
    split_ifs with hlow
    · rw [fileByte, hidx] at hbyte
      obtain ⟨b, hb, -⟩ := bind_eq_some_iff.1 hbyte
      refine ⟨b, hb, .inl ?_⟩
      rwa [fileNum, if_pos hlow, hb] at hzero
    · rw [hbyte, ← hc]
  · obtain ⟨hlow, hblock⟩ := fileBlock_of_fileNum hzero
    rw [if_pos hlow]
    exact ⟨_, hblock, hnum⟩

theorem turn_of_good (hfs : fs.Sized) {pos : ℕ} (rest : ℕ) (hfirst : ByteGood fs dev inode pos)
    (h : ∀ j < turnLen fs pos rest, (∀ i < j, (fileByte fs dev inode (pos + i)).isSome = true) →
      ByteGood fs dev inode (pos + j)) :
    TurnClean fs dev inode pos ∧ (turnData fs dev inode pos rest = none → fileByte fs dev inode pos = none) ∧
      ∀ xs, turnData fs dev inode pos rest = some xs → ∀ j < turnLen fs pos rest,
        ∃ c, fileByte fs dev inode (pos + j) = some c ∧ xs[j]? = some c := by
  obtain ⟨hbs, hmap, hway⟩ := hfirst
  unfold turnData
  dsimp only
  by_cases hlow : pos / fs.blockSize < 12 + fs.ptrsPerBlk + fs.ptrsPerBlk * fs.ptrsPerBlk
  · rw [if_pos hlow] at hway
    obtain ⟨b, hblock, hclean⟩ := hway
    have hnum : fileNum fs dev inode (pos / fs.blockSize) = b := by rw [fileNum, if_pos hlow, hblock, getD_some]
    rw [hnum]
    refine ⟨⟨hbs, hmap, by rwa [hnum]⟩, ?_, ?_⟩
    · intro hnone
      split_ifs at hnone with hzero
      rw [fileByte, hblock, bind_some, if_neg hzero, map_eq_none_iff.1 hnone]
      rfl
    · intro xs hxs j hj
      obtain ⟨hidx, hoff⟩ := turn_position hj
      rw [fileByte, hidx, hoff, hblock, bind_some]
      split_ifs at hxs ⊢ with hzero
      · obtain rfl := some.inj hxs
        exact ⟨0, rfl, by rw [List.getElem?_replicate, if_pos hj]⟩
      · obtain ⟨bs, hdata, rfl⟩ := map_eq_some_iff.1 hxs
        have hlen := length_blockData hfs hdata
        have hin : pos % fs.blockSize + j < bs.length := by
          unfold turnLen at hj
          omega
        refine ⟨bs[pos % fs.blockSize + j], ?_, ?_⟩
        · rw [hdata, bind_some, List.getElem?_eq_getElem hin]
        · rw [List.getElem?_take_of_lt hj, List.getElem?_drop, List.getElem?_eq_getElem hin]
  -- three blocks of numbers: all bytes of the turn are 0
  · have hnum : fileNum fs dev inode (pos / fs.blockSize) = 0 := if_neg hlow
    rw [if_pos hnum]
    refine ⟨⟨hbs, hmap, .inl hnum⟩, fun hnone => (nomatch hnone), fun xs hxs j hj => ?_⟩
    have hzeros : ∀ j < turnLen fs pos rest, fileByte fs dev inode (pos + j) = some 0 := by
      intro j
      induction j using Nat.strong_induction_on with
      | h j ih =>
        intro hj
        obtain ⟨-, -, hbyte⟩ := h j hj fun i hi => by rw [ih i hi (hi.trans hj)]; rfl
        rwa [(turn_position hj).1, if_neg hlow] at hbyte
    obtain rfl := some.inj hxs
    exact ⟨0, hzeros j hj, by rw [List.getElem?_replicate, if_pos hj]⟩

/-- What the loop promises from the byte `t` on. -/
def LoopOk (fs : Ext2Fs) (dev : Device) (inode : Ext2Inode) (offset size turns t : ℕ) (buf st : Bytes) : Prop :=
  ∃ r buf' st', (readDataFrom fs dev inode offset size turns t buf).Gives st (r, buf') st' ∧
    (∀ k, t ≤ k → k < r → ∃ c, fileByte fs dev inode (offset + k) = some c ∧ buf'[k]? = some c) ∧
    (r < size → fileByte fs dev inode (offset + r) = none)

/-- The bytes from `t` on are good, up to the first that cannot be read. -/
def LoopGood (fs : Ext2Fs) (dev : Device) (inode : Ext2Inode) (offset size t : ℕ) : Prop :=
  ∀ k, t ≤ k → k < size → (∀ j, t ≤ j → j < k → (fileByte fs dev inode (offset + j)).isSome = true) →
    ByteGood fs dev inode (offset + k)

/-- **The loop** does what it promises exactly when the bytes are good. -/
theorem readDataFrom_iff (hfs : fs.Sized) (hst : st.length = ext2BlkBufSize) (hroom : size ≤ buf.length)
    (hend : offset + size ≤ 2 ^ 32) (ht : t ≤ size) (hturns : size - t < turns) :
    LoopOk fs dev inode offset size turns t buf st ↔ LoopGood fs dev inode offset size t := by
  induction turns generalizing t buf st with
  | zero => omega
  | succ turns ih =>
    by_cases hdone : size ≤ t
    · obtain rfl := Nat.le_antisymm ht hdone
      refine iff_of_true ⟨t, buf, st, ?_, fun k hk hk' => by omega, fun hlt => by omega⟩ fun k hk hk' => by omega
      rw [readDataFrom, if_pos hdone]
      exact Checked.gives_pure.2 ⟨rfl, rfl⟩
    have hlt := Nat.not_le.1 hdone
    have hle : turnLen fs (offset + t) (size - t) ≤ size - t := Nat.min_le_right ..
    constructor
    · rintro ⟨r, buf', st', hgives, hbytes, hstop⟩
      have hclean := turn_clean hfs hst hlt hgives
      have hpos := turnLen_pos (offset + t) hclean.1 (Nat.sub_pos_of_lt hlt)
      obtain ⟨mid, hmid, hrun⟩ := turn_run turns hfs hst hlt hroom (by omega) hclean
      rw [hrun] at hgives
      cases hdata : turnData fs dev inode (offset + t) (size - t) with
      | none =>
        obtain ⟨hbyte, hgood⟩ := turn_none hclean hdata
        intro k hk hks hread
        rcases Nat.eq_or_lt_of_le hk with rfl | hkt
        · exact hgood
        · have hsome := hread t le_rfl hkt
          rw [hbyte] at hsome
          cases hsome
      | some xs =>
        rw [hdata] at hgives
        have hxs := length_turnData hfs hclean.1 hdata
        obtain ⟨hlen, hcells⟩ := overwrite_getElem? buf t xs (by omega)
        obtain ⟨htr, -, -, hkeep⟩ := readDataFrom_keeps hfs hmid (by rwa [hlen]) hend (by omega) hgives
        have hrest := (ih hmid (by rwa [hlen]) (by omega) (by omega)).1
          ⟨r, buf', st', hgives, fun k hk hk' => hbytes k (by omega) hk', hstop⟩
        intro k hk hks hread
        by_cases hin : k < t + turnLen fs (offset + t) (size - t)
        · obtain ⟨c, hc, hbuf⟩ := hbytes k hk (by omega)
          obtain ⟨j, rfl⟩ := Nat.exists_eq_add_of_le hk
          rw [← Nat.add_assoc] at hc ⊢
          refine turn_good hclean hdata (by omega) hc ?_
          have hsome : xs[j]? = some xs[j] := List.getElem?_eq_getElem (by omega)
          rw [hkeep _ hin, hcells, blockAt, if_pos hk, Nat.add_sub_cancel_left, hsome, some_or] at hbuf
          rw [hsome, hbuf]
        · exact hrest k (by omega) hks fun j hj hjk => hread j (by omega) hjk
    · intro hgood
      have hfirst := hgood t le_rfl hlt fun j hj hj' => by omega
      have hpos := turnLen_pos (offset + t) hfirst.1 (Nat.sub_pos_of_lt hlt)
      obtain ⟨hclean, hnone, hsome⟩ := turn_of_good hfs (size - t) hfirst fun j hj hread => by
        rw [Nat.add_assoc]
        refine hgood (t + j) (Nat.le_add_right ..) (by omega) fun i hi hij => ?_
        have hri := hread (i - t) (by omega)
        rwa [show offset + t + (i - t) = offset + i by omega] at hri
      obtain ⟨mid, hmid, hrun⟩ := turn_run turns hfs hst hlt hroom (by omega) hclean
      cases hdata : turnData fs dev inode (offset + t) (size - t) with
      | none =>
        rw [hdata] at hrun
        exact ⟨t, buf, mid, (hrun _ _ _).2 ⟨rfl, rfl, rfl⟩, fun k hk hk' => by omega, fun _ => hnone hdata⟩
      | some xs =>
        rw [hdata] at hrun
        have hxs := length_turnData hfs hclean.1 hdata
        obtain ⟨hlen, hcells⟩ := overwrite_getElem? buf t xs (by omega)
        have hpiece := hsome xs hdata
        -- the rest is good too, since the bytes of this turn have been read
        obtain ⟨r, buf', st', hgives, hbytes, hstop⟩ := (@ih (t + turnLen fs (offset + t) (size - t))
          (overwrite buf t xs) mid hmid (by rwa [hlen]) (by omega) (by omega)).2 fun k hk hks hread => hgood k (by omega) hks fun j hj hjk => by
            by_cases hin : j < t + turnLen fs (offset + t) (size - t)
            · obtain ⟨c, hc, -⟩ := hpiece (j - t) (by omega)
              rw [show offset + t + (j - t) = offset + j by omega] at hc
              rw [hc]
              rfl
            · exact hread j (by omega) hjk
        obtain ⟨htr, -, -, hkeep⟩ := readDataFrom_keeps hfs hmid (by rwa [hlen]) hend (by omega) hgives
        refine ⟨r, buf', st', (hrun _ _ _).2 hgives, fun k hk hkr => ?_, hstop⟩
        by_cases hin : k < t + turnLen fs (offset + t) (size - t)
        · obtain ⟨c, hc, hxc⟩ := hpiece (k - t) (by omega)
          rw [show offset + t + (k - t) = offset + k by omega] at hc
          exact ⟨c, hc, by rw [hkeep k hin, hcells, blockAt, if_pos hk, hxc, some_or]⟩
        · exact hbytes k (by omega) hkr

theorem toInt32_of_lt (h : n < 2 ^ 31) : toInt32 n = n := by
  rw [toInt32, BitVec.toInt_eq_toNat_cond, BitVec.toNat_ofNat, Nat.mod_eq_of_lt (by omega), if_pos (by omega)]

theorem toInt32_eq_natCast {m : ℕ} (hn : n < 2 ^ 32) (h : toInt32 n = m) : n = m ∧ n < 2 ^ 31 := by
  rw [toInt32, BitVec.toInt_eq_toNat_cond, BitVec.toNat_ofNat, Nat.mod_eq_of_lt hn] at h
  split_ifs at h with hlt <;> omega

theorem iSize_lt (inode : Ext2Inode) : inode.iSize < 2 ^ 32 := leField_lt inode.1 4 4

/-- **The data of a file** are those that the map assigns exactly when the bytes are good. -/
theorem dataFaithful_iff (hfs : fs.Sized) (inode : Ext2Inode) (buf : Bytes) (offset : ℕ) (blk : Ext2BlkBuf) :
    DataFaithful fs dev inode buf offset blk ↔ DataGood fs dev inode buf offset := by
  have hsize32 := iSize_lt inode
  have hblk : blk.1.length = ext2BlkBufSize := blk.2
  unfold DataFaithful ext2ReadInodeData
  by_cases hoff : inode.iSize ≤ offset
  · refine iff_of_true ⟨0, buf, blk.1, ?_, Nat.zero_le _, rfl, fun k hk => by omega, fun h => ?_⟩
      fun h => absurd hoff (Nat.not_le.2 h)
    · rw [if_pos hoff]
      exact Checked.gives_pure.2 ⟨rfl, rfl⟩
    · unfold wanted at h
      omega
  have hlt := Nat.not_le.1 hoff
  have hle : wanted inode buf offset ≤ buf.length := Nat.min_le_left ..
  have hend : offset + wanted inode buf offset ≤ 2 ^ 32 := by
    unfold wanted
    omega
  have hclamp : (if inode.iSize < offset + buf.length then inode.iSize - offset else buf.length) =
      wanted inode buf offset := by
    unfold wanted
    split_ifs <;> omega
  have hloop : LoopOk fs dev inode offset (wanted inode buf offset) (wanted inode buf offset + 1) 0 buf blk.1 ↔
      LoopGood fs dev inode offset (wanted inode buf offset) 0 :=
    readDataFrom_iff hfs hblk hle hend (Nat.zero_le _) (Nat.lt_succ_of_le (Nat.sub_le ..))
  constructor
  · rintro ⟨r, buf', blk', hgives, hr, hlen, hbytes, hstop⟩ -
    rw [if_neg hoff] at hgives
    obtain ⟨hsum, hgives⟩ := Checked.gives_num_bind.1 hgives
    rw [hclamp] at hgives
    obtain ⟨⟨r₀, buf₀⟩, mid, hrun, hret⟩ := Checked.gives_bind.1 hgives
    obtain ⟨hret, -⟩ := Checked.gives_pure.1 hret
    obtain ⟨hint, rfl⟩ := Prod.mk.inj hret
    obtain ⟨-, hr₀, -⟩ := readDataFrom_keeps hfs hblk hle hend (Nat.zero_le _) hrun
    obtain ⟨rfl, hpos⟩ := toInt32_eq_natCast (by dsimp only; omega) hint
    have hgood := hloop.1 ⟨r₀, buf₀, mid, hrun, fun k _ hk => hbytes k hk, hstop⟩
    refine ⟨hsum, fun k hk hread => ⟨hgood k (Nat.zero_le k) hk fun j _ hj => hread j hj, fun hmax => ?_⟩⟩
    rcases Nat.lt_or_ge r₀ k with hlt' | hge
    · have hsome := hread r₀ hlt'
      rw [hstop (by omega)] at hsome
      cases hsome
    · obtain rfl : r₀ = k := by omega
      exact hstop hk
  · intro h
    obtain ⟨hsum, hgood⟩ := h hlt
    obtain ⟨r, buf', st', hrun, hbytes, hstop⟩ := hloop.2 fun k _ hk hread =>
      (hgood k hk fun j hj => hread j (Nat.zero_le j) hj).1
    obtain ⟨-, hr, hlen, -⟩ := readDataFrom_keeps hfs hblk hle hend (Nat.zero_le _) hrun
    -- the count is no negative number
    have hmax : r < 2 ^ 31 := by
      by_contra hbig
      have hread : ∀ j < r, (fileByte fs dev inode (offset + j)).isSome = true := fun j hj => by
        obtain ⟨c, hc, -⟩ := hbytes j (Nat.zero_le j) hj
        rw [hc]
        rfl
      have hnone := (hgood (2 ^ 31 - 1) (by omega) fun j hj => hread j (by omega)).2 (by omega)
      have hsome := hread (2 ^ 31 - 1) (by omega)
      rw [hnone] at hsome
      cases hsome
    refine ⟨r, buf', st', ?_, hr, hlen, fun k hk => hbytes k (Nat.zero_le k) hk, hstop⟩
    rw [if_neg hoff, Checked.gives_num_bind, hclamp]
    refine ⟨hsum, Checked.gives_bind.2 ⟨_, _, hrun, ?_⟩⟩
    rw [toInt32_of_lt hmax]
    exact Checked.gives_pure.2 ⟨rfl, rfl⟩

end Data

/-! ### The file system -/

theorem sized_shl (k : ℕ) : 1024 * 2 ^ (k % 32) % 2 ^ 32 = 0 ∨
    ∃ l < 22, 1024 * 2 ^ (k % 32) % 2 ^ 32 = 1024 * 2 ^ l := by
  have hpow : 1024 * 2 ^ (k % 32) = 2 ^ (10 + k % 32) := by rw [Nat.pow_add]
  by_cases hl : k % 32 < 22
  · refine .inr ⟨k % 32, hl, Nat.mod_eq_of_lt ?_⟩
    rw [hpow]
    exact Nat.pow_lt_pow_right (by decide) (by omega)
  · left
    rw [hpow]
    exact Nat.mod_eq_zero_of_dvd (Nat.pow_dvd_pow 2 (by omega))

theorem sized_of (boot : Device) : (Ext2Fs.of boot).Sized := by
  unfold Ext2Fs.of ext2Mount
  cases boot.bind (ataReadSector · 2) with
  | none => exact .inl rfl
  | some sb =>
    cases boot.bind (ataReadSector · 3) with
    | none => exact .inl rfl
    | some sb' =>
      dsimp only
      by_cases hmagic : leField sb.1 56 2 = 0xEF53
      · rw [if_neg (not_not.2 hmagic)]
        exact sized_shl (leField sb.1 24 4)
      · rw [if_pos hmagic]
        exact .inl rfl

theorem ext2Mount_clean (boot : Device) : (ext2Mount boot).Clean () ↔ ∀ sb, boot.bind (ataReadSector · 2) = some sb →
    (boot.bind (ataReadSector · 3)).isSome = true → leField sb.1 56 2 = 0xEF53 → leField sb.1 24 4 < 22 := by
  unfold ext2Mount
  cases boot.bind (ataReadSector · 2) with
  | none => exact iff_of_true (Checked.clean_pure.2 trivial) fun _ h => nomatch h
  | some sb =>
    cases boot.bind (ataReadSector · 3) with
    | none => exact iff_of_true (Checked.clean_pure.2 trivial) fun _ _ h => nomatch h
    | some sb' =>
      dsimp only
      by_cases hmagic : leField sb.1 56 2 = 0xEF53
      swap
      · rw [if_pos hmagic]
        refine iff_of_true (Checked.clean_pure.2 trivial) fun sb₁ h₁ _ h => absurd ?_ hmagic
        rwa [some.inj h₁]
      rw [if_neg (not_not.2 hmagic), Checked.clean_shl_bind, and_iff_left (Checked.clean_pure.2 trivial)]
      have hpow : 1024 * 2 ^ leField sb.1 24 4 = 2 ^ (10 + leField sb.1 24 4) := by rw [Nat.pow_add]
      rw [hpow, Nat.pow_lt_pow_iff_right (by decide)]
      constructor
      · rintro ⟨-, hlt⟩ sb₁ h₁ - -
        obtain rfl := some.inj h₁
        omega
      · intro h
        have hlt := h sb rfl rfl hmagic
        omega

/-- A superblock with no inodes in a group, and nothing else that can be read. -/
def bareDevice : Device := some fun lba =>
  if lba = 2 ∨ lba = 3 then some (.patch 56 [0x53, 0xEF] (by decide)) else none

/-- A file of 13 blocks; the number of the last is in the block 7. -/
def bareInode : Ext2Inode :=
  ⟨[0, 0, 0, 0, 0, 0x34, 0, 0] ++ List.replicate 80 0 ++ [7] ++ List.replicate 39 0, by decide +kernel⟩

def bareBuf : Ext2BlkBuf := ⟨List.replicate ext2BlkBufSize 0, length_replicate ..⟩

end Ridux
