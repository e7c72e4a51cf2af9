import Ridux.Disk.Sectors
import Ridux.Lib.Overlay
import Ridux.Lib.Walk
import Ridux.Pmm.Basic

/-!
# Chains of clusters

A directory and a file are chains of clusters, and the FAT has the link of each.  The two loops follow the
links for as long as they do not end; what is used outside a buffer has no result.

* `fat32Mount`, `f32NextClus`, `fat32ListDir`, `fat32ReadFile`: as the source has them;
* `rootSlices`, `RootListing`: the entries of the root directory, on the way that the links give;
* `FatChain`, `FromChain`: the clusters that the FAT assigns, and bytes that are read from them;
* `listDir_ends_iff`, `readChain_spec`: what the two loops do;
* `fat32_faithful_iff`: exactly when they end, and report success for bytes of the file only.
-/

namespace Ridux

open Lib List Option

/-- `fat32_fs_t`, as far as it is used. -/
structure Fat32Fs where
  mounted : Bool
  fatStartLba : ℕ
  clusterStartLba : ℕ
  rootCluster : ℕ
  sectorsPerFat : ℕ
  sectorsPerCluster : ℕ
  reservedSectors : ℕ
  bytesPerSector : ℕ
  numFats : ℕ

/-- `fat32_dirent_t`. -/
structure Fat32Dirent where
  name : Bytes
  cluster : ℕ
  size : ℕ
  attr : UInt8
  isDir : Bool
  deriving DecidableEq

def fat32MaxDirEntries : ℕ := 128

/-- The size of the names in `fat32_dirent_t`. -/
def fat32NameMax : ℕ := 256

/-- The links from here on are ends of a chain. -/
def fat32Eoc : ℕ := 0x0FFFFFF8

/-- The mark of a cluster that is bad. -/
def fat32Bad : ℕ := 0x0FFFFFF7

def Fat32Fs.zero : Fat32Fs := ⟨false, 0, 0, 0, 0, 0, 0, 0, 0⟩

/-- `fat32_mount`: the file system that is mounted, or none. -/
def fat32Mount (disk : Disk) : Fat32Fs :=
  match ataReadSector disk 0 with
  | none => .zero
  | some b =>
    let bps := leField b.1 11 2
    let nfats := leField b.1 16 1
    let fatsz32 := leField b.1 36 4
    if bps ≠ 512 ∨ nfats = 0 ∨ 2 < nfats ∨ fatsz32 = 0 then .zero
    else
      { mounted := true
        fatStartLba := leField b.1 14 2
        clusterStartLba := u32 (leField b.1 14 2 + u32 (nfats * fatsz32))
        rootCluster := leField b.1 44 4
        sectorsPerFat := fatsz32
        sectorsPerCluster := leField b.1 13 1
        reservedSectors := leField b.1 14 2
        bytesPerSector := bps
        numFats := nfats }

def f32NextClus (fs : Fat32Fs) (disk : Disk) (c : ℕ) : Option ℕ :=
  let fo := u32 (c * 4)
  match ataReadSector disk (u32 (fs.fatStartLba + fo / fs.bytesPerSector)) with
  | none => some fat32Eoc
  | some s => (block s.1 (fo % fs.bytesPerSector) 4).map fun b => leNat b % 2 ^ 28

def f32Clus2lba (fs : Fat32Fs) (c : ℕ) : ℕ :=
  u32 (fs.clusterStartLba + u32 (u32 (c + 2 ^ 32 - 2) * fs.sectorsPerCluster))

/-- A loop over the clusters of a chain: `body` is what it does with one. -/
def f32Chain {σ ρ : Type} (fs : Fat32Fs) (disk : Disk) (full : σ → Prop) [DecidablePred full]
    (body : ℕ → σ → Option (ρ ⊕ σ)) (fin : σ → ρ) (x : ℕ × σ) : Option (ρ ⊕ ℕ × σ) :=
  if x.1 < fat32Eoc ∧ ¬ full x.2 then
    (body (f32Clus2lba fs x.1) x.2).bind
      (Sum.elim (some ∘ .inl) fun s => (f32NextClus fs disk x.1).map fun c => .inr (c, s))
  else some (.inl (fin x.2))

/-! ### Directories -/

/-- A part of a name, up to its first space. -/
def part83 (b : Bytes) : Bytes :=
  (b.takeWhile (· != 0x20)).map fun c => if 0x41 ≤ c ∧ c ≤ 0x5A then c + 32 else c

def f32Parse83 (cap : ℕ) (de : Bytes) : Bytes :=
  let o := (part83 (de.take 8)).foldl (appendCh cap) []
  if de[8]? ≠ some 0x20 then (part83 ((de.drop 8).take 3)).foldl (appendCh cap) (appendCh cap o 0x2E) else o

/-- The entry is behind the last one. -/
def endMark (de : Bytes) : Prop := de[0]? = some 0

/-- The entry is deleted, or part of a long name, or a label. -/
def skipped (de : Bytes) : Prop :=
  de[0]? = some 0xE5 ∨ leField de 11 1 = 0x0F ∨ leField de 11 1 &&& 0x08 ≠ 0

instance (de : Bytes) : Decidable (endMark de) := inferInstanceAs (Decidable (de[0]? = some 0))

instance (de : Bytes) : Decidable (skipped de) := instDecidableOr

/-- An entry, as it is listed. -/
def direntOf (de : Bytes) : Fat32Dirent where
  name := cstr (f32Parse83 fat32NameMax de)
  cluster := leField de 20 2 * 2 ^ 16 + leField de 26 2
  size := leField de 28 4
  attr := de.getD 11 0
  isDir := leField de 11 1 &&& 0x10 ≠ 0

/-- There are `max` entries in the list. -/
def listFull (max : ℕ) (ents : List Fat32Dirent) : Prop := max ≤ ents.length

instance (max : ℕ) (ents : List Fat32Dirent) : Decidable (listFull max ents) := Nat.decLe ..

/-- One entry of `fat32_list_dir`, with room for `max` in the list: the listing is complete, or goes on. -/
def listEntry (max : ℕ) (de : Bytes) (ents : List Fat32Dirent) : Option (List Fat32Dirent ⊕ List Fat32Dirent) :=
  if endMark de then some (.inl ents)
  else if skipped de then some (.inr ents)
  else if ents.length < max then some (.inr (ents ++ [direntOf de])) else none

/-- The entries of a sector. -/
def listSector (max : ℕ) (s : Bytes) : List Fat32Dirent → Option (List Fat32Dirent ⊕ List Fat32Dirent) :=
  feed (listFull max) (fun i ents => (block s (i * 32) 32).bind fun de => listEntry max de ents)
    (List.range 16)

/-- The sectors of a cluster, up to one that cannot be read. -/
def listSectors (disk : Disk) (max lba : ℕ) :
    List ℕ → List Fat32Dirent → Option (List Fat32Dirent ⊕ List Fat32Dirent)
  | [], ents => some (.inr ents)
  | sec :: secs, ents =>
    if listFull max ents then some (.inr ents)
    else match ataReadSector disk (u32 (lba + sec)) with
      | none => some (.inr ents)
      | some s => (listSector max s.1 ents).bind (Sum.elim (some ∘ .inl) (listSectors disk max lba secs))

/-- One cluster of `fat32_list_dir`. -/
def listStep (fs : Fat32Fs) (disk : Disk) (max : ℕ) :
    ℕ × List Fat32Dirent → Option (List Fat32Dirent ⊕ ℕ × List Fat32Dirent) :=
  f32Chain fs disk (listFull max)
    (fun lba => listSectors disk max lba (List.range fs.sectorsPerCluster)) id

/-- `fat32_list_dir`, with so many steps: the entries, or none without a file system. -/
def fat32ListDir (fs : Fat32Fs) (disk : Disk) (max : ℤ) (steps : ℕ) : Option (Option (List Fat32Dirent)) :=
  if !fs.mounted then some none
  else (loop (listStep fs disk max.toNat) steps (fs.rootCluster, [])).map some

/-! ### Files -/

/-- All bytes that are asked for are there. -/
def readFull (osz : ℕ) (x : Bytes × ℕ) : Prop := osz ≤ x.2

instance (osz : ℕ) (x : Bytes × ℕ) : Decidable (readFull osz x) := Nat.decLe ..

/-- One sector of a file: reading it fails, or its bytes are copied. -/
def readSector (disk : Disk) (osz lba : ℕ) (x : Bytes × ℕ) : Option ((Bool × Bytes) ⊕ Bytes × ℕ) :=
  let cp := min (osz - x.2) 512
  match ataReadSector disk lba with
  | none => some (.inl (false, x.1))
  | some s => (block s.1 0 cp).bind fun b => (poke x.1 x.2 b).map fun buf => .inr (buf, x.2 + cp)

/-- One cluster of `fat32_read_file`. -/
def readStep (fs : Fat32Fs) (disk : Disk) (osz : ℕ) :
    ℕ × Bytes × ℕ → Option ((Bool × Bytes) ⊕ ℕ × Bytes × ℕ) :=
  f32Chain fs disk (readFull osz)
    (fun lba => feed (readFull osz) (readSector disk osz)
      ((List.range fs.sectorsPerCluster).map fun s => u32 (lba + s)))
    fun x => (true, x.1)

/-- The entry is the file with that path. -/
def isFile (path : Bytes) (e : Fat32Dirent) : Bool := e.name = path.dropWhile (· == slash) ∧ !e.isDir

/-- What `fat32_read_file` gives: whether it worked, the buffer, and the size if it is set. -/
structure Fat32Read where
  ok : Bool
  buf : Bytes
  osz : Option ℕ

/-- `fat32_read_file`, with so many steps of each loop. -/
def fat32ReadFile (fs : Fat32Fs) (disk : Disk) (path : CString) (buf : Bytes) (steps : ℕ) : Option Fat32Read :=
  if !fs.mounted then some ⟨false, buf, none⟩
  else
    (fat32ListDir fs disk fat32MaxDirEntries steps).bind fun ents =>
      match (ents.getD []).find? (isFile path) with
      | none => some ⟨false, buf, none⟩
      | some e =>
        let osz := min e.size buf.length
        (loop (readStep fs disk osz) steps (e.cluster, buf, 0)).map fun r => ⟨r.1, r.2, some osz⟩

/-! ### What is promised -/

variable (fs : Fat32Fs) (disk : Disk)

/-- The entry of the FAT for a cluster, where it can be read. -/
def fatEntry (c : ℕ) : Option ℕ :=
  (disk (fs.reservedSectors + c / 128)).map fun s => leField s.1 (c % 128 * 4) 4 % 2 ^ 28

/-- The first sector of a cluster. -/
def dataLba (c : ℕ) : ℕ := fs.reservedSectors + fs.numFats * fs.sectorsPerFat + (c - 2) * fs.sectorsPerCluster

/-- The cluster has an entry in the FAT, is not marked as bad, and the device can name its sectors. -/
structure DataCluster (c : ℕ) : Prop where
  two_le : 2 ≤ c
  inFat : c < 128 * fs.sectorsPerFat
  lt_bad : c < fat32Bad
  sectors : dataLba fs c + fs.sectorsPerCluster ≤ lbaLimit

/-- The first clusters of a chain, as the FAT assigns them. -/
structure FatChain (c : ℕ) (cs : List ℕ) : Prop where
  head : ∀ d, cs[0]? = some d → d = c
  cells : ∀ d ∈ cs, DataCluster fs d
  links : ∀ i d d', cs[i]? = some d → cs[i + 1]? = some d' → fatEntry fs disk d = some d'

/-- The first bytes of a buffer are those of the clusters of a chain. -/
def FromChain (c osz : ℕ) (buf : Bytes) : Prop :=
  ∃ cs, FatChain fs disk c cs ∧ ∀ a < osz, ∃ i s d sec, a / 512 = i * fs.sectorsPerCluster + s ∧
    s < fs.sectorsPerCluster ∧ cs[i]? = some d ∧ disk (dataLba fs d + s) = some sec ∧ buf[a]? = sec.1[a % 512]?

/-- The link of a cluster; it is an end where the FAT cannot be read. -/
def fatNext (c : ℕ) : ℕ := (fatEntry fs disk c).getD fat32Eoc

/-- The `i`th cluster behind `c`. -/
def chainAt (c i : ℕ) : ℕ := (fatNext fs disk)^[i] c

/-- The sectors that can be read, up to the first that cannot. -/
def readable : List ℕ → List Sector
  | [] => []
  | lba :: lbas =>
    match ataReadSector disk lba with
    | none => []
    | some s => s :: readable lbas

/-- The entries of a sector, as they lie in it. -/
def slices (s : Bytes) : List Bytes := (List.range 16).map fun i => (s.drop (i * 32)).take 32

/-- The sectors of a cluster, as the loops compute them. -/
def clusterLbas (c : ℕ) : List ℕ := (List.range fs.sectorsPerCluster).map fun s => u32 (f32Clus2lba fs c + s)

/-- The entries of a cluster, up to a sector that cannot be read. -/
def clusterSlices (c : ℕ) : List Bytes := (readable disk (clusterLbas fs c)).flatMap fun s => slices s.1

/-- The entries that the first `n` clusters of the root directory have. -/
def rootSlices (n : ℕ) : List Bytes :=
  items (fatNext fs disk) (fat32Eoc ≤ ·) (clusterSlices fs disk) n fs.rootCluster

/-- The entries that are listed, up to the mark behind the last one. -/
def visible : List Bytes → List Fat32Dirent
  | [] => []
  | de :: des => if endMark de then [] else (if skipped de then [] else [direntOf de]) ++ visible des

/-- The first `max` entries of the root directory: some first clusters have so many, or the mark behind the last
one, or the chain ends there. -/
def RootListing (max : ℕ) (ents : List Fat32Dirent) : Prop :=
  ∃ n, ents = (visible (rootSlices fs disk n)).take max ∧
    (max ≤ (visible (rootSlices fs disk n)).length ∨ (∃ de ∈ rootSlices fs disk n, endMark de) ∨
      ∃ i ≤ n, fat32Eoc ≤ chainAt fs disk fs.rootCluster i)

/-- `fat32_list_dir` ends, and stays in its list. -/
def ListFaithful (max : ℤ) : Prop :=
  ∃ steps r, fat32ListDir fs disk max steps = some r ∧ ∀ ents, r = some ents → ents.length ≤ max.toNat

/-- `fat32_read_file` ends, stays in its buffers, and reports success for bytes of the file only. -/
def ReadFaithful (path : CString) (buf : Bytes) : Prop :=
  ∃ steps r, fat32ReadFile fs disk path buf steps = some r ∧ r.buf.length = buf.length ∧
    (r.ok = true → ∃ ents e, RootListing fs disk fat32MaxDirEntries ents ∧ ents.find? (isFile path) = some e ∧
      r.osz = some (min e.size buf.length) ∧ FromChain fs disk e.cluster (min e.size buf.length) r.buf)

/-- A sector that is asked for on the way along the links cannot be read. -/
def SectorFails (c osz : ℕ) : Prop :=
  ∃ i s, s < fs.sectorsPerCluster ∧ (i * fs.sectorsPerCluster + s) * 512 < osz ∧
    (∀ j ≤ i, chainAt fs disk c j < fat32Eoc) ∧
    ataReadSector disk (u32 (f32Clus2lba fs (chainAt fs disk c i) + s)) = none

/-- As many clusters as so many bytes need are clusters of the file system. -/
def ChainCovers (c osz : ℕ) : Prop :=
  0 < fs.sectorsPerCluster ∧ ∀ i, i * fs.sectorsPerCluster * 512 < osz → DataCluster fs (chainAt fs disk c i)

/-! ### Links -/

variable {fs : Fat32Fs} {disk : Disk}

/-- What a file system that is mounted has. -/
structure Fat32Fs.Mounted (fs : Fat32Fs) : Prop where
  bytesPerSector : fs.bytesPerSector = 512
  fatStartLba : fs.fatStartLba = fs.reservedSectors
  reserved_lt : fs.reservedSectors < 2 ^ 16
  clusterStartLba : fs.clusterStartLba = u32 (fs.reservedSectors + u32 (fs.numFats * fs.sectorsPerFat))

theorem mounted_fat32Mount {boot : Disk} (h : (fat32Mount boot).mounted = true) : (fat32Mount boot).Mounted := by
  unfold fat32Mount at h ⊢
  cases hread : ataReadSector boot 0 with
  | none => simp [hread, Fat32Fs.zero] at h
  | some b =>
    simp only [hread] at h ⊢
    split_ifs at h ⊢ with hbad
    · simp [Fat32Fs.zero] at h
    · exact ⟨by simpa using (not_or.1 hbad).1, rfl, leField_lt b.1 14 2, rfl⟩

/-- **The link of a cluster** is read inside the buffer. -/
theorem f32NextClus_eq (h : fs.Mounted) {c : ℕ} (hc : c < fat32Eoc) :
    f32NextClus fs disk c = some (fatNext fs disk c) := by
  have heoc : fat32Eoc = 0x0FFFFFF8 := rfl
  have hlimit : lbaLimit = 2 ^ 28 := rfl
  have hres := h.reserved_lt
  have hfo : u32 (c * 4) = c * 4 := u32_of_lt (by omega)
  have hdiv : c * 4 / 512 = c / 128 := by omega
  have hmod : c * 4 % 512 = c % 128 * 4 := by omega
  have hlba : u32 (fs.reservedSectors + c / 128) = fs.reservedSectors + c / 128 := u32_of_lt (by omega)
  unfold f32NextClus fatNext fatEntry
  dsimp only
  rw [hfo, h.bytesPerSector, h.fatStartLba, hdiv, hmod, hlba, ataReadSector_of_lt (by omega)]
  cases disk (fs.reservedSectors + c / 128) with
  | none => rfl
  | some s =>
    have hlen : s.1.length = 512 := s.2
    dsimp only
    rw [block_of_le (by omega)]
    rfl

theorem f32Chain_eq {σ ρ β : Type} {full : σ → Prop} [DecidablePred full] {body : ℕ → σ → Option (ρ ⊕ σ)}
    {fin : σ → ρ} {f : β → σ → Option (ρ ⊕ σ)} {chunk : ℕ → List β} (h : fs.Mounted)
    (hbody : ∀ c s, body (f32Clus2lba fs c) s = feed full f (chunk c) s) :
    f32Chain fs disk full body fin = walkStep full f (fatNext fs disk) (fat32Eoc ≤ ·) chunk fin := by
  funext x
  unfold f32Chain walkStep
  by_cases hend : fat32Eoc ≤ x.1 ∨ full x.2
  · rw [if_pos hend, if_neg fun hgo => hend.elim (Nat.not_le.2 hgo.1) hgo.2]
  · obtain ⟨hc, hfull⟩ := not_or.1 hend
    rw [if_neg hend, if_pos ⟨Nat.not_le.1 hc, hfull⟩, hbody, f32NextClus_eq h (Nat.not_le.1 hc)]
    cases feed full f (chunk x.1) x.2 with
    | none => rfl
    | some y => cases y <;> rfl

/-! ### Directories -/

section Listing

variable {max : ℕ} {ents : List Fat32Dirent}

theorem listSector_eq (s : Sector) (ents : List Fat32Dirent) :
    listSector max s.1 ents = feed (listFull max) (listEntry max) (slices s.1) ents := by
  have hlen : s.1.length = 512 := s.2
  unfold listSector slices
  rw [feed_map]
  refine feed_congr (fun i hi => ?_) ents
  have hi16 := mem_range.1 hi
  funext ents
  rw [block_of_le (by omega), bind_some]

theorem listSectors_eq (lba : ℕ) (secs : List ℕ) (ents : List Fat32Dirent) :
    listSectors disk max lba secs ents = feed (listFull max) (listEntry max)
      ((readable disk (secs.map fun s => u32 (lba + s))).flatMap fun s => slices s.1) ents := by
  induction secs generalizing ents with
  | nil => rfl
  | cons sec secs ih =>
    rw [listSectors, map_cons, readable]
    by_cases hfull : listFull max ents
    · rw [if_pos hfull, feed_of_full hfull]
    rw [if_neg hfull]
    cases ataReadSector disk (u32 (lba + sec)) with
    | none => rfl
    | some s =>
      dsimp only
      rw [flatMap_cons, feed_append, listSector_eq]
      congr 2
      funext ents'
      exact ih ents'

theorem listStep_eq (h : fs.Mounted) : listStep fs disk max =
    walkStep (listFull max) (listEntry max) (fatNext fs disk) (fat32Eoc ≤ ·)
      (clusterSlices fs disk) id :=
  f32Chain_eq h fun _ _ => listSectors_eq _ _ _

/-- **The entries of a directory**: the listing is complete at the mark behind the last one, if there is room
until then. -/
theorem feed_listEntry (des : List Bytes) (hroom : ents.length ≤ max) :
    feed (listFull max) (listEntry max) des ents =
      if (∃ de ∈ des, endMark de) ∧ ents.length + (visible des).length < max then
        some (.inl (ents ++ visible des))
      else some (.inr ((ents ++ visible des).take max)) := by
  induction des generalizing ents with
  | nil => simp [visible, take_of_length_le hroom]
  | cons de des ih =>
    by_cases hfull : listFull max ents
    · have hle : max ≤ ents.length := hfull
      rw [feed_of_full hfull, if_neg (by omega), take_append_of_le_length hle, take_of_length_le hroom]
    have hlt : ents.length < max := Nat.not_le.1 hfull
    rw [feed_cons hfull, visible, listEntry]
    by_cases hend : endMark de
    · rw [if_pos hend, if_pos hend, if_pos ⟨⟨de, mem_cons_self .., hend⟩, hlt⟩, append_nil]
      rfl
    have hex : (∃ d ∈ de :: des, endMark d) ↔ ∃ d ∈ des, endMark d := by simp [hend]
    rw [if_neg hend, if_neg hend]
    by_cases hskip : skipped de
    · rw [if_pos hskip, if_pos hskip, bind_some, Sum.elim_inr, ih hroom, nil_append]
      exact if_congr (and_congr_left' hex.symm) rfl rfl
    · rw [if_neg hskip, if_neg hskip, if_pos hlt, bind_some, Sum.elim_inr,
        ih (by simp; omega), append_assoc]
      refine if_congr (and_congr hex.symm ?_) rfl rfl
      simp only [length_append, length_singleton]
      omega

/-- **The loop over a directory** ends exactly with the entries of the listing. -/
theorem listDir_ends_iff (h : fs.Mounted) :
    Ends (listStep fs disk max) (fs.rootCluster, []) ents ↔ RootListing fs disk max ents := by
  rw [listStep_eq h, walk_ends_iff]
  refine exists_congr fun n => ?_
  rw [show items (fatNext fs disk) (fat32Eoc ≤ ·) (clusterSlices fs disk) n fs.rootCluster =
    rootSlices fs disk n from rfl, feed_listEntry _ (Nat.zero_le max)]
  rw [nil_append, length_nil, Nat.zero_add]
  have hle : ∀ l : List Fat32Dirent, listFull max (l.take max) ↔ max ≤ l.length := fun l => by
    rw [listFull, length_take]
    omega
  by_cases hdone : (∃ de ∈ rootSlices fs disk n, endMark de) ∧ (visible (rootSlices fs disk n)).length < max
  · rw [if_pos hdone, take_of_length_le hdone.2.le]
    simp only [Option.some.injEq, Sum.inl.injEq, reduceCtorEq, false_and, exists_false, or_false]
    exact ⟨fun he => ⟨he.symm, .inr (.inl hdone.1)⟩, fun he => he.1.symm⟩
  · rw [if_neg hdone]
    simp only [Option.some.injEq, reduceCtorEq, false_or, Sum.inr.injEq, exists_eq_left', id]
    rw [hle]
    refine and_congr_right fun _ => ⟨fun hs => hs.imp_right .inr, ?_⟩
    rintro (hfull | hmark | hlast)
    · exact .inl hfull
    · exact .inl (Nat.not_lt.1 fun hlt => hdone ⟨hmark, hlt⟩)
    · exact .inr hlast

end Listing

/-! ### Files -/

section Reading

variable {osz c s d i : ℕ} {buf : Bytes} {r : Bool × Bytes}

variable (disk) in
/-- **Sectors of a file**: the first that cannot be read ends it; else their bytes are in the buffer, one sector
behind the other. -/
theorem feed_readSector (lbas : List ℕ) (buf : Bytes) (off : ℕ) (hroom : osz ≤ buf.length) (hoff : off ≤ osz) :
    (∃ buf', feed (readFull osz) (readSector disk osz) lbas (buf, off) = some (.inl (false, buf')) ∧
        buf'.length = buf.length ∧
        ∃ t lba, lbas[t]? = some lba ∧ off + 512 * t < osz ∧ ataReadSector disk lba = none) ∨
      ∃ buf', feed (readFull osz) (readSector disk osz) lbas (buf, off) =
          some (.inr (buf', min osz (off + 512 * lbas.length))) ∧ buf'.length = buf.length ∧
        (∀ a < off, buf'[a]? = buf[a]?) ∧ ∀ t lba, lbas[t]? = some lba → off + 512 * t < osz →
          ∃ sec, ataReadSector disk lba = some sec ∧
            ∀ k < 512, off + 512 * t + k < osz → buf'[off + 512 * t + k]? = sec.1[k]? := by
  induction lbas generalizing buf off with
  | nil =>
    refine .inr ⟨buf, ?_, rfl, fun _ _ => rfl, fun t lba ht => nomatch ht⟩
    rw [feed_nil, length_nil, Nat.mul_zero, Nat.add_zero, Nat.min_eq_right hoff]
  | cons lba lbas ih =>
    by_cases hfull : readFull osz (buf, off)
    · have hle : osz ≤ off := hfull
      refine .inr ⟨buf, ?_, rfl, fun _ _ => rfl, fun t lba' _ ht => by omega⟩
      rw [feed_of_full hfull, Nat.min_eq_left (by omega), Nat.le_antisymm hoff hle]
    have hlt : off < osz := Nat.not_le.1 hfull
    rw [feed_cons hfull, readSector]
    cases hread : ataReadSector disk lba with
    | none => exact .inl ⟨buf, rfl, rfl, 0, lba, rfl, by omega, hread⟩
    | some sec =>
      have hsec : sec.1.length = 512 := sec.2
      have hcp : ((sec.1.drop 0).take (min (osz - off) 512)).length = min (osz - off) 512 := by simp; omega
      obtain ⟨mid, hmid, hlen, hcell⟩ := poke_eq_some buf off ((sec.1.drop 0).take (min (osz - off) 512))
        (by rw [hcp]; omega)
      dsimp only
      rw [block_of_le (by omega), bind_some, hmid, map_some, bind_some, Sum.elim_inr]
      -- what the sector has left in the buffer
      have hfirst : ∀ k < 512, off + k < osz → mid[off + k]? = sec.1[k]? := by
        intro k hk hin
        have hkth : ((sec.1.drop 0).take (min (osz - off) 512))[k]? = sec.1[k]? := by
          rw [drop_zero, List.getElem?_take_of_lt (by omega)]
        obtain ⟨x, hx⟩ : ∃ x, sec.1[k]? = some x := ⟨_, List.getElem?_eq_getElem (by omega)⟩
        rw [hcell, blockAt, if_pos (by omega), Nat.add_sub_cancel_left, hkth, hx, some_or]
      have hbefore : ∀ a < off, mid[a]? = buf[a]? := by
        intro a ha
        rw [hcell, blockAt, if_neg (by dsimp only; omega), none_or]
      rcases ih mid (off + min (osz - off) 512) (by rwa [hlen]) (by omega) with
        ⟨buf', hfeed, hlen', t, lba', ht, hlt', hnone⟩ | ⟨buf', hfeed, hlen', hkeep, hrest⟩
      · exact .inl ⟨buf', hfeed, hlen'.trans hlen, t + 1, lba', ht, by omega, hnone⟩
      · refine .inr ⟨buf', ?_, hlen'.trans hlen, fun a ha => ?_, fun t lba' ht hin => ?_⟩
        · rw [hfeed, length_cons]
          congr 3
          omega
        · rw [hkeep a (by omega), hbefore a ha]
        · cases t with
          | zero =>
            obtain rfl := some.inj ht
            refine ⟨sec, hread, fun k hk hk' => ?_⟩
            rw [Nat.mul_zero, Nat.add_zero] at hk' ⊢
            rw [hkeep _ (by omega), hfirst k hk hk']
          | succ t =>
            obtain ⟨sec', hsec', hbytes⟩ := hrest t lba' ht (by omega)
            refine ⟨sec', hsec', fun k hk hk' => ?_⟩
            have hat : off + 512 * (t + 1) + k = off + min (osz - off) 512 + 512 * t + k := by omega
            rw [hat, hbytes k hk (by omega)]

theorem clusterLbas_getElem? (hs : s < fs.sectorsPerCluster) (c : ℕ) :
    (clusterLbas fs c)[s]? = some (u32 (f32Clus2lba fs c + s)) := by
  simp [clusterLbas, hs]

theorem length_clusterLbas (c : ℕ) : (clusterLbas fs c).length = fs.sectorsPerCluster := by
  simp [clusterLbas]

theorem readStep_eq (h : fs.Mounted) : readStep fs disk osz =
    walkStep (readFull osz) (readSector disk osz) (fatNext fs disk) (fat32Eoc ≤ ·) (clusterLbas fs)
      fun x => (true, x.1) :=
  f32Chain_eq h fun _ _ => rfl

theorem chainAt_succ (c i : ℕ) : chainAt fs disk c (i + 1) = fatNext fs disk (chainAt fs disk c i) :=
  Function.iterate_succ_apply' ..

theorem DataCluster.lt_eoc (h : DataCluster fs d) : d < fat32Eoc := h.lt_bad.trans (by decide)

variable (disk) in
theorem DataCluster.read_eq (h : fs.Mounted) (hd : DataCluster fs d) (hs : s < fs.sectorsPerCluster) :
    ataReadSector disk (u32 (f32Clus2lba fs d + s)) = disk (dataLba fs d + s) := by
  have htwo := hd.two_le
  have hbad : d < 0x0FFFFFF7 := hd.lt_bad
  have hlimit : lbaLimit = 2 ^ 28 := rfl
  have hsectors := hd.sectors
  have hwrap : d + 2 ^ 32 - 2 = d - 2 + 2 ^ 32 := by omega
  have hcell : u32 (d + 2 ^ 32 - 2) = d - 2 := by
    rw [hwrap, u32, Nat.add_mod_right]
    omega
  unfold dataLba at hsectors ⊢
  generalize hfat : fs.numFats * fs.sectorsPerFat = fat at hsectors
  generalize hin : (d - 2) * fs.sectorsPerCluster = at' at hsectors
  have hlba : f32Clus2lba fs d = fs.reservedSectors + fat + at' := by
    unfold f32Clus2lba
    rw [hcell, hin, h.clusterStartLba, hfat, u32_of_lt (n := fat) (by omega), u32_of_lt (n := at') (by omega),
      u32_of_lt (n := fs.reservedSectors + fat) (by omega), u32_of_lt (by omega)]
  rw [hlba, u32_of_lt (by omega), ataReadSector_of_lt (by omega)]

theorem FatChain.chainAt_eq {cs : List ℕ} (h : FatChain fs disk c cs) (hi : cs[i]? = some d) :
    chainAt fs disk c i = d := by
  induction i generalizing d with
  | zero => exact (h.head d hi).symm
  | succ i ih =>
    obtain ⟨hlt, -⟩ := List.getElem?_eq_some_iff.1 hi
    have hprev : cs[i]? = some cs[i] := List.getElem?_eq_getElem (by omega)
    rw [chainAt_succ, ih hprev, fatNext, h.links i _ d hprev hi, getD_some]

theorem FromChain.covers (h : FromChain fs disk c osz buf) (hpos : 0 < osz) : ChainCovers fs disk c osz := by
  obtain ⟨cs, hchain, hbytes⟩ := h
  have hspc : 0 < fs.sectorsPerCluster := by
    obtain ⟨i, s, d, sec, -, hs, -⟩ := hbytes 0 hpos
    omega
  refine ⟨hspc, fun i hi => ?_⟩
  obtain ⟨i', s, d, sec, ha, hs, hd, -⟩ := hbytes _ hi
  rw [Nat.mul_div_cancel _ (by decide)] at ha
  have hii : i = i' := by
    have hdiv := congrArg (· / fs.sectorsPerCluster) ha
    rwa [Nat.mul_div_cancel _ hspc, Nat.mul_comm i', Nat.mul_add_div hspc, Nat.div_eq_of_lt hs, Nat.add_zero]
      at hdiv
  subst hii
  rw [hchain.chainAt_eq hd]
  exact hchain.cells d (mem_of_getElem? hd)

/-- **A chain that covers the file** is one that the FAT assigns. -/
theorem ChainCovers.chain (h : ChainCovers fs disk c osz) : ∃ cs, FatChain fs disk c cs ∧
    ∀ i, i * fs.sectorsPerCluster * 512 < osz → cs[i]? = some (chainAt fs disk c i) := by
  obtain ⟨hspc, hdata⟩ := h
  -- the number of clusters that the bytes need
  obtain ⟨m, hm⟩ : ∃ m, ∀ i, i < m ↔ i * fs.sectorsPerCluster * 512 < osz :=
    ⟨(osz + (fs.sectorsPerCluster * 512 - 1)) / (fs.sectorsPerCluster * 512), fun i => by
      rw [Nat.lt_div_iff_mul_lt (by omega), Nat.add_sub_cancel, Nat.mul_assoc, Nat.mul_comm]⟩
  have hcell : ∀ i d, ((List.range m).map (chainAt fs disk c))[i]? = some d →
      i < m ∧ d = chainAt fs disk c i := by
    intro i d hi
    rw [List.getElem?_map] at hi
    obtain ⟨j, hj, rfl⟩ := map_eq_some_iff.1 hi
    obtain ⟨hlt, rfl⟩ := List.getElem?_eq_some_iff.1 hj
    rw [length_range] at hlt
    exact ⟨hlt, by rw [getElem_range]⟩
  refine ⟨(List.range m).map (chainAt fs disk c), ⟨fun d hd => (hcell 0 d hd).2, fun d hd => ?_,
    fun i d d' hd hd' => ?_⟩, fun i hi => ?_⟩
  · obtain ⟨i, hi, rfl⟩ := mem_map.1 hd
    exact hdata i ((hm i).1 (mem_range.1 hi))
  · obtain ⟨-, rfl⟩ := hcell i d hd
    obtain ⟨hlt, rfl⟩ := hcell _ d' hd'
    have hnext := (hdata _ ((hm _).1 hlt)).lt_eoc
    rw [chainAt_succ] at hnext ⊢
    unfold fatNext at hnext ⊢
    cases hentry : fatEntry fs disk (chainAt fs disk c i) with
    | none =>
      rw [hentry] at hnext
      exact absurd hnext (Nat.lt_irrefl _)
    | some x => rfl
  · simp [(hm i).2 hi]

variable (fs disk) in
theorem length_filePlan_le (n c : ℕ) :
    (items (fatNext fs disk) (fat32Eoc ≤ ·) (clusterLbas fs) n c).length ≤ n * fs.sectorsPerCluster :=
  length_items_le length_clusterLbas n c

theorem filePlan_getElem? {n : ℕ} (hs : s < fs.sectorsPerCluster) :
    (items (fatNext fs disk) (fat32Eoc ≤ ·) (clusterLbas fs) n c)[i * fs.sectorsPerCluster + s]? =
      if i < n ∧ ∀ m ≤ i, ¬ fat32Eoc ≤ chainAt fs disk c m then
        some (u32 (f32Clus2lba fs (chainAt fs disk c i) + s)) else none := by
  rw [items_getElem? length_clusterLbas hs, clusterLbas_getElem? hs]
  rfl

/-- **The loop of a file** reports a failure when a sector that is asked for fails, and success otherwise; on a
chain that covers the file the bytes are then those of its clusters. -/
theorem readChain_spec (h : fs.Mounted) (hroom : osz ≤ buf.length)
    (hends : Ends (readStep fs disk osz) (c, buf, 0) r) : r.2.length = buf.length ∧
      (r.1 = false ∧ SectorFails fs disk c osz ∨ r.1 = true ∧ ¬ SectorFails fs disk c osz ∧
        (ChainCovers fs disk c osz → FromChain fs disk c osz r.2)) := by
  rw [readStep_eq h, walk_ends_iff] at hends
  obtain ⟨n, hn⟩ := hends
  have hle := length_filePlan_le fs disk n c
  generalize hplan : items (fatNext fs disk) (fat32Eoc ≤ ·) (clusterLbas fs) n c = plan at hn hle
  rcases feed_readSector disk plan buf 0 hroom (Nat.zero_le _) with
    ⟨buf', hfeed, hbuf, t, lba, ht, hlt, hnone⟩ | ⟨buf', hfeed, hbuf, -, hbytes⟩
  -- a sector that fails
  · rw [hfeed] at hn
    rcases hn with hn | ⟨s', hn, -⟩
    swap
    · cases hn
    obtain rfl := Sum.inl.inj (some.inj hn)
    refine ⟨hbuf, .inl ⟨rfl, ?_⟩⟩
    have htlt := (List.getElem?_eq_some_iff.1 ht).1
    have hspc : 0 < fs.sectorsPerCluster := Nat.pos_of_ne_zero fun h0 => by
      rw [h0, Nat.mul_zero] at hle
      omega
    have hsplit : t / fs.sectorsPerCluster * fs.sectorsPerCluster + t % fs.sectorsPerCluster = t :=
      Nat.div_add_mod' ..
    have hs := Nat.mod_lt t hspc
    rw [← hsplit, ← hplan, filePlan_getElem? hs] at ht
    split_ifs at ht with hcell
    obtain rfl := some.inj ht
    exact ⟨_, _, hs, by rw [hsplit]; omega, fun j hj => Nat.not_le.1 (hcell.2 j hj), hnone⟩
  · rw [hfeed] at hn
    rcases hn with hn | ⟨s', hn, rfl, hstop⟩
    · cases hn
    obtain rfl := Sum.inr.inj (some.inj hn)
    -- every sector that is asked for has been read
    have hreached : ∀ i s, s < fs.sectorsPerCluster → (i * fs.sectorsPerCluster + s) * 512 < osz →
        (∀ j ≤ i, chainAt fs disk c j < fat32Eoc) →
        plan[i * fs.sectorsPerCluster + s]? = some (u32 (f32Clus2lba fs (chainAt fs disk c i) + s)) := by
      intro i s hs hin hcells
      have hat : (items (fatNext fs disk) (fat32Eoc ≤ ·) (clusterLbas fs) n c)[i * fs.sectorsPerCluster + s]? = _ :=
        filePlan_getElem? hs
      rw [hplan] at hat
      have hn : i < n := by
        by_contra hni
        rcases hstop with hfull | ⟨i₀, hi₀, hlast⟩
        · have hfull' : osz ≤ min osz (0 + 512 * plan.length) := hfull
          rw [if_neg fun hcell => hni hcell.1, List.getElem?_eq_none_iff] at hat
          omega
        · exact absurd (hcells i₀ (by omega)) (Nat.not_lt.2 hlast)
      rw [hat, if_pos ⟨hn, fun m hm => Nat.not_le.2 (hcells m hm)⟩]
    refine ⟨hbuf, .inr ⟨rfl, ?_, fun hcovers => ?_⟩⟩
    · rintro ⟨i, s, hs, hin, hcells, hnone⟩
      obtain ⟨sec, hsec, -⟩ := hbytes _ _ (hreached i s hs hin hcells) (by omega)
      rw [hnone] at hsec
      cases hsec
    · obtain ⟨cs, hchain, hcs⟩ := hcovers.chain
      obtain ⟨hspc, hdata⟩ := hcovers
      refine ⟨cs, hchain, fun a ha => ?_⟩
      have hsplit : a / 512 / fs.sectorsPerCluster * fs.sectorsPerCluster + a / 512 % fs.sectorsPerCluster =
        a / 512 := Nat.div_add_mod' ..
      have hs := Nat.mod_lt (a / 512) hspc
      have hin : ∀ j ≤ a / 512 / fs.sectorsPerCluster, j * fs.sectorsPerCluster * 512 < osz := by
        intro j hj
        have hmul := Nat.mul_le_mul_right fs.sectorsPerCluster hj
        omega
      obtain ⟨sec, hsec, hk⟩ := hbytes _ _ (hreached _ _ hs (by rw [hsplit]; omega) fun j hj =>
        (hdata j (hin j hj)).lt_eoc) (by rw [hsplit]; omega)
      refine ⟨_, _, _, sec, hsplit.symm, hs, hcs _ (hin _ le_rfl), ?_, ?_⟩
      · rw [← (hdata _ (hin _ le_rfl)).read_eq disk h hs]
        exact hsec
      · have hbyte := hk (a % 512) (Nat.mod_lt _ (by decide)) (by rw [hsplit]; omega)
        rwa [hsplit, show 0 + 512 * (a / 512) + a % 512 = a by omega] at hbyte

theorem readChain_ends (h : fs.Mounted) (hroom : osz ≤ buf.length) (hspc : 0 < fs.sectorsPerCluster) :
    ∃ r, Ends (readStep fs disk osz) (c, buf, 0) r := by
  rw [readStep_eq h]
  rcases feed_readSector disk (items (fatNext fs disk) (fat32Eoc ≤ ·) (clusterLbas fs) osz c) buf 0 hroom
    (Nat.zero_le _) with ⟨buf', hfeed, -⟩ | ⟨buf', hfeed, -⟩
  · exact ⟨_, walk_ends_iff.2 ⟨osz, .inl hfeed⟩⟩
  · refine ⟨_, walk_ends_iff.2 ⟨osz, .inr ⟨_, hfeed, rfl, ?_⟩⟩⟩
    by_cases hlast : ∃ i ≤ osz, fat32Eoc ≤ chainAt fs disk c i
    · exact .inr hlast
    · have hall : (items (fatNext fs disk) (fat32Eoc ≤ ·) (clusterLbas fs) osz c).length =
          osz * fs.sectorsPerCluster :=
        length_items length_clusterLbas fun i hi hl => hlast ⟨i, hi.le, hl⟩
      have hmul := Nat.le_mul_of_pos_right osz hspc
      refine .inl (?_ : osz ≤ min osz _)
      rw [hall]
      omega

end Reading

/-! ### The two functions -/

theorem RootListing.length_le {max : ℕ} {ents : List Fat32Dirent} (h : RootListing fs disk max ents) :
    ents.length ≤ max := by
  obtain ⟨n, rfl, -⟩ := h
  exact length_take_le ..

section Mounted

variable {steps : ℕ} {path : CString} {buf : Bytes} {ents : List Fat32Dirent} (hm : fs.mounted = true)
include hm

theorem fat32ListDir_eq {max : ℤ} (h : loop (listStep fs disk max.toNat) steps (fs.rootCluster, []) = some ents) :
    fat32ListDir fs disk max steps = some (some ents) := by
  unfold fat32ListDir
  rw [hm, Bool.not_true, if_neg Bool.false_ne_true, h]
  rfl

theorem fat32ReadFile_of_none (h : fat32ListDir fs disk fat32MaxDirEntries steps = some (some ents))
    (he : ents.find? (isFile path) = none) : fat32ReadFile fs disk path buf steps = some ⟨false, buf, none⟩ := by
  unfold fat32ReadFile
  simp [hm, h, he]

theorem fat32ReadFile_of_some {e : Fat32Dirent} (h : fat32ListDir fs disk fat32MaxDirEntries steps = some (some ents))
    (he : ents.find? (isFile path) = some e) : fat32ReadFile fs disk path buf steps =
      (loop (readStep fs disk (min e.size buf.length)) steps (e.cluster, buf, 0)).map fun r =>
        ⟨r.1, r.2, some (min e.size buf.length)⟩ := by
  unfold fat32ReadFile
  simp [hm, h, he]

end Mounted

variable (fs disk)

/-- **`fat32_list_dir`** ends exactly when the root directory has a listing. -/
theorem listFaithful_iff (hmount : fs.mounted = true → fs.Mounted) (max : ℤ) :
    ListFaithful fs disk max ↔ (fs.mounted = true → ∃ ents, RootListing fs disk max.toNat ents) := by
  unfold ListFaithful
  constructor
  · rintro ⟨steps, r, hr, -⟩ hm
    unfold fat32ListDir at hr
    rw [hm, Bool.not_true, if_neg Bool.false_ne_true] at hr
    obtain ⟨ents, hents, -⟩ := map_eq_some_iff.1 hr
    exact ⟨ents, (listDir_ends_iff (hmount hm)).1 ⟨steps, hents⟩⟩
  · intro h
    by_cases hm : fs.mounted = true
    · obtain ⟨ents, hents⟩ := h hm
      obtain ⟨steps, hsteps⟩ := (listDir_ends_iff (hmount hm)).2 hents
      refine ⟨steps, some ents, fat32ListDir_eq hm hsteps, fun ents' he => ?_⟩
      obtain rfl := some.inj he
      exact hents.length_le
    · exact ⟨0, none, if_pos (by simpa using hm), fun _ he => nomatch he⟩

/-- **`fat32_read_file`** meets what is promised exactly when the root directory has a listing, and the file
needs no byte, or as many clusters of its chain as it needs are there, or a sector that is asked for fails. -/
theorem readFaithful_iff (hmount : fs.mounted = true → fs.Mounted) (path : CString) (buf : Bytes) :
    ReadFaithful fs disk path buf ↔ (fs.mounted = true →
      ∃ ents, RootListing fs disk fat32MaxDirEntries ents ∧ ∀ e, ents.find? (isFile path) = some e →
        min e.size buf.length = 0 ∨ ChainCovers fs disk e.cluster (min e.size buf.length) ∨
          SectorFails fs disk e.cluster (min e.size buf.length)) := by
  constructor
  · rintro ⟨steps, r, hr, hlen, hok⟩ hm
    have hfs := hmount hm
    unfold fat32ReadFile fat32ListDir at hr
    rw [hm, Bool.not_true, if_neg Bool.false_ne_true, if_neg Bool.false_ne_true] at hr
    obtain ⟨ents', hents', hr⟩ := bind_eq_some_iff.1 hr
    obtain ⟨ents, hents, rfl⟩ := map_eq_some_iff.1 hents'
    have hlisting := (listDir_ends_iff hfs).1 ⟨steps, hents⟩
    refine ⟨ents, hlisting, fun e he => ?_⟩
    simp only [getD_some, he] at hr
    obtain ⟨y, hy, rfl⟩ := map_eq_some_iff.1 hr
    rcases (readChain_spec hfs (Nat.min_le_right ..) ⟨steps, hy⟩).2 with ⟨-, hfails⟩ | ⟨htrue, -, -⟩
    · exact .inr (.inr hfails)
    by_cases hzero : min e.size buf.length = 0
    · exact .inl hzero
    · -- success: the bytes are those of the file that is found
      obtain ⟨ents'', e', hlisting', he', -, hchain⟩ := hok htrue
      obtain rfl := ((listDir_ends_iff hfs).2 hlisting).unique ((listDir_ends_iff hfs).2 hlisting')
      obtain rfl := some.inj (he.symm.trans he')
      exact .inr (.inl (hchain.covers (Nat.pos_of_ne_zero hzero)))
  · intro h
    unfold ReadFaithful
    by_cases hm : fs.mounted = true
    swap
    · exact ⟨0, _, if_pos (by simpa using hm), rfl, fun hok => nomatch hok⟩
    have hfs := hmount hm
    obtain ⟨ents, hlisting, hfile⟩ := h hm
    obtain ⟨k, hk⟩ := (listDir_ends_iff hfs).2 hlisting
    cases he : ents.find? (isFile path) with
    | none =>
      exact ⟨k, _, fat32ReadFile_of_none hm (fat32ListDir_eq hm hk) he, rfl, fun hok => nomatch hok⟩
    | some e =>
      have hroom : min e.size buf.length ≤ buf.length := Nat.min_le_right ..
      obtain ⟨r, hends⟩ : ∃ r, Ends (readStep fs disk (min e.size buf.length)) (e.cluster, buf, 0) r := by
        rcases hfile e he with hzero | ⟨hspc, -⟩ | ⟨i, s, hs, -⟩
        · exact ⟨_, ends_iff.2 (.inl (if_neg fun hgo => hgo.2 hzero.le))⟩
        · exact readChain_ends hfs hroom hspc
        · exact readChain_ends hfs hroom (by omega)
      obtain ⟨hlen, hres⟩ := readChain_spec hfs hroom hends
      obtain ⟨m, hm'⟩ := hends
      refine ⟨max k m, ⟨r.1, r.2, some (min e.size buf.length)⟩, ?_, hlen, fun hok => ⟨ents, e, hlisting, he, rfl, ?_⟩⟩
      · rw [fat32ReadFile_of_some hm (fat32ListDir_eq hm (loop_mono hk (Nat.le_max_left k m))) he,
          loop_mono hm' (Nat.le_max_right k m)]
        rfl
      · rcases hres with ⟨hfalse, -⟩ | ⟨-, hnofail, hcovers⟩
        · rw [show r.1 = true from hok] at hfalse
          cases hfalse
        rcases hfile e he with hzero | hcov | hfail
        · rw [hzero]
          exact ⟨[], ⟨fun d hd => (nomatch hd), fun d hd => (nomatch hd), fun i d d' hd => (nomatch hd)⟩,
            fun a ha => absurd ha (Nat.not_lt_zero a)⟩
        · exact hcovers hcov
        · exact absurd hfail hnofail

variable {fs disk}

/-- **The loops over chains**, on a file system that was mounted from any disk: the listing ends exactly when the
root directory has one on the way along the links, and a file is read as promised exactly when also its chain
covers it or a sector fails. -/
theorem fat32_faithful_iff (boot disk : Disk) (max : ℤ) (path : CString) (buf : Bytes) :
    (ListFaithful (fat32Mount boot) disk max ↔ ((fat32Mount boot).mounted = true →
      ∃ ents, RootListing (fat32Mount boot) disk max.toNat ents)) ∧
    (ReadFaithful (fat32Mount boot) disk path buf ↔ ((fat32Mount boot).mounted = true →
      ∃ ents, RootListing (fat32Mount boot) disk fat32MaxDirEntries ents ∧
        ∀ e, ents.find? (isFile path) = some e → min e.size buf.length = 0 ∨
          ChainCovers (fat32Mount boot) disk e.cluster (min e.size buf.length) ∨
          SectorFails (fat32Mount boot) disk e.cluster (min e.size buf.length))) :=
  ⟨listFaithful_iff _ disk mounted_fat32Mount max, readFaithful_iff _ disk mounted_fat32Mount path buf⟩

/-- A disk with one sector in a cluster and one sector of FAT, whose root directory has the cluster 2. -/
def smallDisk (links root : Bytes) (hlinks : links.length ≤ sectorSize) (hroot : root.length ≤ sectorSize) : Disk
  | 0 => some (.patch 11 ([0, 2, 1, 1, 0, 1] ++ List.replicate 19 0 ++ [1] ++ List.replicate 7 0 ++ [2]) (by decide))
  | 1 => some (.patch 0 links (by omega))
  | 2 => some (.patch 0 root (by omega))
  | _ => some (.patch 0 [] (by decide))

/-- The root directory is a chain that goes round, and all its entries are deleted. -/
def cyclicDisk : Disk := smallDisk [0, 0, 0, 0, 0, 0, 0, 0, 2] (List.replicate sectorSize 0xE5) (by decide)
  (length_replicate ..).le

/-- The root directory has one file, with 1024 bytes and a chain of one cluster. -/
def shortDisk : Disk :=
  smallDisk ([0, 0, 0, 0, 0, 0, 0, 0] ++ [0xFF, 0xFF, 0xFF, 0x0F] ++ [0xFF, 0xFF, 0xFF, 0x0F])
    (0x41 :: List.replicate 10 0x20 ++ [0x20] ++ List.replicate 14 0 ++ [3, 0] ++ [0, 4]) (by decide) (by decide)

theorem zero_not_mem_shortPath : 0 ∉ ascii "/a" := by decide

/-- Its path. -/
def shortPath : CString := ⟨ascii "/a", zero_not_mem_shortPath⟩

/-- Its entry. -/
def shortEntry : Fat32Dirent := ⟨ascii "a", 3, 1024, 0x20, false⟩

/-- The listing of the one goes on for ever, and the file of the other is read to its end without having one. -/
theorem smallDisk_not_faithful :
    ¬ ListFaithful (fat32Mount cyclicDisk) cyclicDisk 128 ∧
      ¬ ReadFaithful (fat32Mount shortDisk) shortDisk shortPath (List.replicate 1024 0) := by
  constructor
  · intro h
    obtain ⟨ents, hents⟩ := (listFaithful_iff _ cyclicDisk mounted_fat32Mount 128).1 h (by decide +kernel)
    have hstep : listStep (fat32Mount cyclicDisk) cyclicDisk 128 (2, []) = some (.inr (2, [])) := by decide +kernel
    refine not_ends (· = (2, [])) rfl ?_ ((listDir_ends_iff (mounted_fat32Mount (by decide +kernel))).2 hents)
    rintro _ rfl
    exact ⟨_, hstep, rfl⟩
  · intro h
    have hfs := @mounted_fat32Mount shortDisk (by decide +kernel)
    obtain ⟨ents, hents, hfile⟩ := (readFaithful_iff _ shortDisk mounted_fat32Mount _ _).1 h (by decide +kernel)
    have hrun : loop (listStep (fat32Mount shortDisk) shortDisk fat32MaxDirEntries) 1
        ((fat32Mount shortDisk).rootCluster, []) = some [shortEntry] := by decide +kernel
    obtain rfl := ((listDir_ends_iff hfs).2 hents).unique ⟨1, hrun⟩
    have hsize : min shortEntry.size (List.replicate 1024 (0 : UInt8)).length = 1024 := by decide +kernel
    have hfound := hfile shortEntry (by decide +kernel)
    rw [hsize] at hfound
    rcases hfound with hzero | ⟨-, hcovers⟩ | ⟨i, s, -, -, -, hnone⟩
    · cases hzero
    · exact absurd (hcovers 1 (by decide +kernel)).lt_bad (by decide +kernel)
    · have hdisk : ∀ lba, shortDisk lba ≠ none := by
        intro lba
        unfold shortDisk smallDisk
        split <;> exact some_ne_none _
      exact hdisk _ hnone

end Ridux
