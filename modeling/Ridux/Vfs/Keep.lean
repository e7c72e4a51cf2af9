import Ridux.Vfs.Extent

/-!
# What `fallocate` and writeback do to the files

Both calls write a length that they compute from their arguments alone, so the size of the file decides.

* `Replaces`: a step that replaces at most one file of the node table;
* `FallocateCuts`, `WritebackResizes`: the calls that write another length than they should;
* `fallocate_writeback_keep`: all others keep the files.
-/

namespace Ridux

open Lib Function Option

/-! ### A file that is replaced -/

theorem vfsStore_present {v : Vfs} (h : v.Inv) (n : VfsName) {payload : Bytes} {i : ℕ}
    (hf : vfsFind v n.path = some i) (ok₁ ok₂ : Bool) (hlen : payload.length < vfsRwMax) :
    absMap (vfsStore ok₁ ok₂ n.path payload v).2 n.path =
      if (v.files i).takes ok₁ ok₂ payload.length then some payload else absMap v n.path := by
  have hfst := vfsStore_fst hf ok₁ ok₂ hlen
  have hclean : cleanStore ok₁ ok₂ n.path payload v :=
    ⟨hlen, fun hnone => absurd (hnone.symm.trans hf) (by simp)⟩
  rcases vfsStore_spec h hclean with ⟨v', hr, -, hmap⟩ | ⟨v', hr, -, hmap⟩
  · rw [hr] at hfst ⊢
    rw [← hfst, if_pos rfl, hmap, n.normal, update_self]
  · rw [hr] at hfst ⊢
    rw [← hfst, if_neg Bool.false_ne_true, hmap]

theorem vfsStore_absent {v : Vfs} (h : v.Inv) (n : VfsName) {payload : Bytes}
    (hf : vfsFind v n.path = none) (ok₁ ok₂ : Bool) (hlen : payload.length < vfsRwMax) :
    absMap (vfsStore ok₁ ok₂ n.path payload v).2 n.path = none ↔ ∀ i < vfsMaxFiles, (v.files i).used =
        true := by
  unfold vfsStore
  rcases vfsAlloc_cases h n.path with ⟨i, -, hi, hu, hp⟩ | ⟨-, hfree, i, v₁, he, hinv, hi, hnode,
      hmap⟩ | ⟨hall, he⟩
  · exact absurd (by rw [Vfs.view_of_used hu, hp]) (vfsFind_eq_none hf i hi _)
  · rw [n.normal] at hnode hmap
    have hp : (v₁.files i).path = n.path := by rw [hnode]
    have hu : (v₁.files i).used = true := by rw [hnode]
    have hsome : absMap (vfsStoreAt ok₁ ok₂ payload i v₁).2 n.path ≠ none := by
      rcases vfsStoreAt_spec hinv hi hu ok₁ ok₂ hlen with ⟨v', hr, -, hmap'⟩ | ⟨v', hr, -, hmap'⟩
      · rw [hr, hmap', hp, update_self]
        exact some_ne_none _
      · rw [hr, hmap', hmap, update_self]
        exact some_ne_none _
    rw [he]
    refine ⟨fun hnone => absurd hnone hsome, fun hall => ?_⟩
    obtain ⟨j, hj, hu⟩ := hfree
    rw [hall j hj] at hu
    cases hu
  · rw [he]
    refine ⟨fun _ => hall, fun _ => ?_⟩
    rw [← n.read_eq h, vfsRead, hf]
    rfl

namespace FileStore

variable {s s' : FileStore} {n m : VfsName} {offset va : BitVec 64} {i fileStart : ℕ}

theorem fileSize_eq (hn : s.memfdTrackFind n.path = none) :
    s.fileSize n = (absMap s.vfs n.path).map List.length := by
  rw [fileSize, hn, ← n.read_eq s.good]

theorem oldBytes_eq : s.oldBytes n = (absMap s.vfs n.path).getD [] := by
  rw [FileSys.oldBytes, n.read_eq s.good]

theorem fileByte_eq (hn : s.memfdTrackFind n.path = none) (i : ℕ) :
    s.fileByte n i = ((absMap s.vfs n.path).getD []).getD i 0 := by
  rw [fileByte, hn, oldBytes_eq]

/-- A step that replaces at most one file of the node table. -/
structure Replaces (n : VfsName) (s s' : FileStore) : Prop where
  memfds : s'.memfds = s.memfds
  others : ∀ p, p ≠ n.path → absMap s'.vfs p = absMap s.vfs p
  frees : FileCache.Frees n.path s.cache s'.cache

theorem Replaces.find (h : Replaces n s s') (p : Bytes) : s'.memfdTrackFind p = s.memfdTrackFind p := by
  unfold memfdTrackFind
  rw [h.memfds]

theorem Replaces.other (h : Replaces n s s') (hm : m.path ≠ n.path) :
    s'.fileSize m = s.fileSize m ∧ ∀ i, s'.fileByte m i = s.fileByte m i := by
  cases hfind : s.memfdTrackFind m.path with
  | some j =>
    have hfind' := (h.find m.path).trans hfind
    refine ⟨?_, fun i => ?_⟩
    · rw [fileSize, fileSize, hfind, hfind', h.memfds]
    · rw [fileByte, fileByte, hfind, hfind']
      exact sparseByte_frees h.frees hm i
  | none =>
    have hfind' := (h.find m.path).trans hfind
    refine ⟨?_, fun i => ?_⟩
    · rw [fileSize_eq hfind, fileSize_eq hfind', h.others _ hm]
    · rw [fileByte_eq hfind, fileByte_eq hfind', h.others _ hm]

theorem Replaces.grows_iff (h : Replaces n s s') (hn : s.memfdTrackFind n.path = none) :
    Grows s s' ↔ ∀ old, absMap s.vfs n.path = some old → ∃ new, absMap s'.vfs n.path = some new ∧
      old.length ≤ new.length ∧ ∀ i < old.length, new.getD i 0 = old.getD i 0 := by
  have hn' := (h.find n.path).trans hn
  constructor
  · intro hgrows old hold
    have hsize : s.fileSize n = some old.length := by rw [fileSize_eq hn, hold, map_some]
    obtain ⟨⟨size', hsize', hle⟩, hbytes⟩ := hgrows n _ hsize
    rw [fileSize_eq hn'] at hsize'
    obtain ⟨new, hnew, rfl⟩ := map_eq_some_iff.1 hsize'
    refine ⟨new, hnew, hle, fun i hi => ?_⟩
    have hi := hbytes i hi
    rwa [fileByte_eq hn, fileByte_eq hn', hold, hnew] at hi
  · intro hself m size hm
    by_cases hmn : m.path = n.path
    · have hmfind : s.memfdTrackFind m.path = none := by rw [hmn, hn]
      have hmfind' : s'.memfdTrackFind m.path = none := by rw [hmn, hn']
      rw [fileSize_eq hmfind, hmn] at hm
      obtain ⟨old, hold, rfl⟩ := map_eq_some_iff.1 hm
      obtain ⟨new, hnew, hle, hbytes⟩ := hself old hold
      refine ⟨⟨new.length, ?_, hle⟩, fun i hi => ?_⟩
      · rw [fileSize_eq hmfind', hmn, hnew, map_some]
      · rw [fileByte_eq hmfind, fileByte_eq hmfind', hmn, hold, hnew]
        exact hbytes i hi
    · obtain ⟨hsize, hbytes⟩ := h.other hmn
      exact ⟨⟨size, hsize.trans hm, Nat.le_refl _⟩, fun i _ => hbytes i⟩

theorem replaces_replaceFile (s : FileStore) (n : VfsName) (bytes : Bytes) (ok₁ ok₂ : Bool) :
    Replaces n s (s.replaceFile n bytes ok₁ ok₂).2 where
  memfds := rfl
  others := (vfsStore_touches s.good ok₁ ok₂ n _).others
  frees := FileCache.frees_invalidatePath s.apart n.path

theorem replaceFile_vfs (s : FileStore) (n : VfsName) (bytes : Bytes) (ok₁ ok₂ : Bool) :
    (s.replaceFile n bytes ok₁ ok₂).2.vfs = (vfsStore ok₁ ok₂ n.path bytes s.vfs).2 := by
  simp only [replaceFile, FileSys.writeFile, vfsWriteBytes, writePayload, List.take_length]

theorem absMap_eq (s : FileStore) (n : VfsName) :
    absMap s.vfs n.path = (vfsFind s.vfs n.path).map fun i => (s.vfs.files i).contents := by
  rw [← n.read_eq s.good]
  rfl

/-! ### `fallocate` -/

/-- The length that `real_sys_fallocate` gives a file. -/
def fallocateEnd (offset len : BitVec 64) : ℕ := min (offset.toNat + len.toNat) (c3VfsFileMax - 1)

/-- A `fallocate` that ends inside a file of the node table, which takes the write. -/
def FallocateCuts (s : FileStore) (cur : Option Task) (fd : ℕ) (mode : BitVec 32) (offset len : BitVec 64)
    (ok₁ ok₂ : Bool) : Prop :=
  ∃ n i, s.fallocateFile cur fd mode offset len = .ok n ∧ s.memfdTrackFind n.path = none ∧
    mode &&& c3FallocFlKeepSize = 0 ∧ vfsFind s.vfs n.path = some i ∧
    fallocateEnd offset len < (s.vfs.files i).contents.length ∧
    (s.vfs.files i).takes ok₁ ok₂ (fallocateEnd offset len) = true

theorem Grows.refl (s : FileStore) : Grows s s := fun _ size h => ⟨⟨size, h, Nat.le_refl _⟩, fun _ _ => rfl⟩

theorem allocatedBytes_length (offset len : BitVec 64) (old : Bytes) :
    (allocatedBytes offset.toNat len.toNat old).length = fallocateEnd offset len := length_padTo _ _

theorem allocatedBytes_getD {len : BitVec 64} (hi : i < fallocateEnd offset len) (old :
    Bytes) : (allocatedBytes offset.toNat len.toNat old).getD i 0 = old.getD i 0 := by
  have hmax : i < c3VfsFileMax - 1 := lt_of_lt_of_le hi (Nat.min_le_right _ _)
  unfold fallocateEnd at hi
  rw [allocatedBytes, padTo_getD hi, List.getD_eq_getElem?_getD, List.getD_eq_getElem?_getD,
      List.getElem?_take,
    if_pos hmax]

theorem not_wraps_of_fallocateFile {cur : Option Task} {fd : ℕ} {mode : BitVec 32} {len : BitVec 64}
    (h : s.fallocateFile cur fd mode offset len = .ok n) : ¬ offset + len < offset := by
  unfold fallocateFile at h
  cases cur with
  | none => cases h
  | some t =>
    simp only at h
    split_ifs at h with h1 h2 hrange h4
    have hoff : ¬ offset.toInt < 0 := fun hneg => hrange (.inl hneg)
    have hlen : ¬ len.toInt ≤ 0 := fun hneg => hrange (.inr hneg)
    rw [BitVec.lt_def, BitVec.toNat_add]
    rw [BitVec.toInt_eq_toNat_cond] at hoff hlen
    have h64 := offset.isLt
    have h64' := len.isLt
    omega

theorem memfds_memfdSetSize (s : FileStore) (i : ℕ) (size : BitVec 64) : (s.memfdSetSize i size).memfds =
    update s.memfds i { s.memfds i with size := size } := rfl

theorem find_memfdSetSize (i : ℕ) (size : BitVec 64) (p : Bytes) :
    (s.memfdSetSize i size).memfdTrackFind p = s.memfdTrackFind p := by
  unfold memfdTrackFind
  congr 1
  refine firstSlot_congr fun j _ => ?_
  rw [memfds_memfdSetSize]
  by_cases hj : j = i
  · rw [hj, update_self]
  · rw [update_of_ne hj]

theorem grows_memfdSetSize {size : BitVec 64} (hle : (s.memfds i).size.toNat ≤ size.toNat) :
    Grows s (s.memfdSetSize i size) := by
  intro m old hold
  have hfind := find_memfdSetSize (s := s) i size m.path
  cases hm : s.memfdTrackFind m.path with
  | none =>
    rw [hm] at hfind
    refine ⟨⟨old, ?_, Nat.le_refl _⟩, fun j _ => ?_⟩
    · rw [fileSize_eq hm] at hold
      rw [fileSize_eq hfind]
      exact hold
    · rw [fileByte_eq hm, fileByte_eq hfind]
      rfl
  | some k =>
    rw [hm] at hfind
    rw [fileSize, hm] at hold
    refine ⟨⟨_, by rw [fileSize, hfind], ?_⟩, fun j _ => ?_⟩
    · rw [← some.inj hold, memfds_memfdSetSize]
      by_cases hk : k = i
      · rw [hk, update_self]
        exact hle
      · rw [update_of_ne hk]
    · rw [fileByte, fileByte, hm, hfind]
      rfl

theorem grows_fallocateMemfd (i : ℕ) (mode : BitVec 32) (offset len : BitVec 64) :
    Grows s (s.fallocateMemfd i mode offset len).2 := by
  unfold fallocateMemfd
  simp only
  split_ifs with hwrap hgrow hseal
  · exact Grows.refl s
  · exact Grows.refl s
  · exact grows_memfdSetSize (Nat.le_of_lt (BitVec.lt_def.1 hgrow.2))
  · exact Grows.refl s

theorem grows_replaceFile_iff (hn : s.memfdTrackFind n.path = none) (offset len : BitVec 64) (ok₁ ok₂ :
    Bool) :
    Grows s (s.replaceFile n (allocatedBytes offset.toNat len.toNat (s.oldBytes n)) ok₁ ok₂).2 ↔
      ∀ i, vfsFind s.vfs n.path = some i → fallocateEnd offset len < (s.vfs.files i).contents.length →
        (s.vfs.files i).takes ok₁ ok₂ (fallocateEnd offset len) = false := by
  set bytes := allocatedBytes offset.toNat len.toNat (s.oldBytes n) with hbytes
  have hlength : bytes.length = fallocateEnd offset len := allocatedBytes_length offset len _
  have hmax : bytes.length < vfsRwMax :=
    lt_of_le_of_lt (hlength.trans_le (Nat.min_le_right _ _)) (by decide)
  have hrep := replaces_replaceFile s n bytes ok₁ ok₂
  rw [hrep.grows_iff hn, replaceFile_vfs]
  cases hf : vfsFind s.vfs n.path with
  | none =>
    have hnone : absMap s.vfs n.path = none := by rw [absMap_eq, hf, map_none]
    refine iff_of_true (fun old hold => ?_) (fun i hi => ?_)
    · rw [hnone] at hold
      cases hold
    · cases hi
  | some i =>
    have hsome : absMap s.vfs n.path = some (s.vfs.files i).contents := by rw [absMap_eq, hf, map_some]
    rw [vfsStore_present s.good n hf ok₁ ok₂ hmax, hlength]
    cases htakes : (s.vfs.files i).takes ok₁ ok₂ (fallocateEnd offset len) with
    | false =>
      refine iff_of_true (fun old hold => ⟨old, ?_, Nat.le_refl _, fun _ _ => rfl⟩) (fun j hj _ => ?_)
      · rw [if_neg Bool.false_ne_true, hold]
      · rwa [← some.inj hj]
    | true =>
      rw [if_pos rfl, hsome]
      constructor
      · intro h j hj hlt
        obtain ⟨new, hnew, hle, -⟩ := h _ rfl
        rw [← some.inj hj] at hlt
        rw [← some.inj hnew, hlength] at hle
        exact absurd hlt (Nat.not_lt.2 hle)
      · intro h old hold
        have hle : (s.vfs.files i).contents.length ≤ bytes.length := by
          rw [hlength, ← Nat.not_lt]
          intro hlt
          rw [h i rfl hlt] at htakes
          cases htakes
        rw [← some.inj hold]
        refine ⟨bytes, rfl, hle, fun j hj => ?_⟩
        rw [hbytes, allocatedBytes_getD (hlength ▸ lt_of_lt_of_le hj hle), oldBytes_eq, hsome,
            getD_some]

theorem grows_fallocate_iff (s : FileStore) (cur : Option Task) (fd : ℕ) (mode : BitVec 32)
    (offset len : BitVec 64) (ok₁ ok₂ : Bool) :
    Grows s (s.realSysFallocate cur fd mode offset len ok₁ ok₂).2 ↔
      ¬ s.FallocateCuts cur fd mode offset len ok₁ ok₂ := by
  unfold realSysFallocate FallocateCuts
  cases hfile : s.fallocateFile cur fd mode offset len with
  | error e =>
    refine iff_of_true (Grows.refl s) ?_
    rintro ⟨m, i, h, -⟩
    cases h
  | ok n =>
    simp only
    cases hn : s.memfdTrackFind n.path with
    | some j =>
      refine iff_of_true (grows_fallocateMemfd j mode offset len) ?_
      rintro ⟨m, i, h, hm, -⟩
      cases h
      rw [hn] at hm
      cases hm
    | none =>
      simp only [if_neg (not_wraps_of_fallocateFile hfile)]
      split_ifs with hkeep
      · refine iff_of_true (Grows.refl s) ?_
        rintro ⟨m, i, -, -, hzero, -⟩
        exact hkeep hzero
      · rw [grows_replaceFile_iff hn]
        constructor
        · rintro h ⟨m, i, hm, -, -, hi, hlt, htakes⟩
          cases hm
          rw [h i hi hlt] at htakes
          cases htakes
        · intro h i hi hlt
          by_contra htakes
          rw [Bool.not_eq_false] at htakes
          exact h ⟨n, i, rfl, hn, not_not.1 hkeep, hi, hlt, htakes⟩

/-! ### Writeback -/

/-- A writeback that makes a file, or that writes another number of bytes than the file has. -/
def WritebackResizes (s : FileStore) (m : FileMapping) (va len : BitVec 64) (ok₁ ok₂ : Bool) : Prop :=
  ∃ n fileStart want, s.writebackFile m va len = .ok (n, fileStart, want) ∧
    ((∃ i, vfsFind s.vfs n.path = some i ∧ (s.vfs.files i).contents.length ≠ want ∧
      (s.vfs.files i).takes ok₁ ok₂ want = true) ∨
    (vfsFind s.vfs n.path = none ∧ ∃ i < vfsMaxFiles, (s.vfs.files i).used = false))

theorem OnlyWithin.refl (covered : VfsName → ℕ → Prop) (s : FileStore) : OnlyWithin covered s s :=
  fun _ => ⟨rfl, fun _ _ _ _ _ => rfl⟩

theorem Replaces.onlyWithin_iff (h : Replaces n s s') (covered : VfsName → ℕ → Prop) :
    OnlyWithin covered s s' ↔ s'.fileSize n = s.fileSize n ∧
      ∀ size, s.fileSize n = some size → ∀ i < size, ¬ covered n i → s'.fileByte n i = s.fileByte n i := by
  constructor
  · exact fun hw => hw n
  · intro hself m
    by_cases hmn : m.path = n.path
    · obtain rfl : m = n := by
        cases m
        cases n
        cases hmn
        rfl
      exact hself
    · obtain ⟨hsize, hbytes⟩ := h.other hmn
      exact ⟨hsize, fun _ _ i _ _ => hbytes i⟩

theorem writebackFile_ok {m : FileMapping} {len : BitVec 64} {want : ℕ}
    (h : s.writebackFile m va len = .ok (n, fileStart, want)) :
    s.memfdTrackFind n.path = none ∧ want < c3VfsFileMax ∧
      ∀ i, fileStart ≤ i → i < fileStart + len.toNat → m.Covers va len n i := by
  unfold writebackFile at h
  cases hpath : m.backingPath with
  | none =>
    rw [hpath] at h
    cases h
  | some k =>
    rw [hpath] at h
    simp only at h
    split_ifs at h with h1 h2 h3 hmemfd h5 hwrap hlarge
    simp only [Except.ok.injEq, Prod.mk.injEq] at h
    obtain ⟨rfl, rfl, rfl⟩ := h
    refine ⟨not_isSome_iff_eq_none.1 hmemfd, ?_, fun i hle hlt => ⟨hpath, hle, hlt⟩⟩
    have hmax : c3VfsFileMax - 1 < c3VfsFileMax := by decide
    exact lt_of_le_of_lt (Nat.min_le_right _ _) hmax

theorem snd_c3MmapWritebackVfsRange (u : UserBytes) {m : FileMapping} {len : BitVec 64} {want : ℕ}
    (h : s.writebackFile m va len = .ok (n, fileStart, want)) (ok₁ ok₂ : Bool) :
    (s.c3MmapWritebackVfsRange u m va len ok₁ ok₂).2 = (s.replaceFile n
      (writebackPages u (m.virt + m.size) want (padTo want (s.oldBytes n)) va fileStart len.toNat) ok₁
          ok₂).2 := by
  unfold c3MmapWritebackVfsRange
  rw [h]
  simp only
  generalize s.replaceFile n _ ok₁ ok₂ = r
  obtain ⟨b, t⟩ := r
  cases b <;> rfl

theorem onlyWithin_writeback_iff (s : FileStore) (u : UserBytes) (m : FileMapping) (va len : BitVec 64)
    (ok₁ ok₂ : Bool) :
    OnlyWithin (m.Covers va len) s (s.c3MmapWritebackVfsRange u m va len ok₁ ok₂).2 ↔
      ¬ s.WritebackResizes m va len ok₁ ok₂ := by
  cases hfile : s.writebackFile m va len with
  | error r =>
    have hsame : (s.c3MmapWritebackVfsRange u m va len ok₁ ok₂).2 = s := by
      unfold c3MmapWritebackVfsRange
      rw [hfile]
    rw [hsame]
    refine iff_of_true (OnlyWithin.refl _ s) ?_
    rintro ⟨n, fileStart, want, h, -⟩
    rw [hfile] at h
    cases h
  | ok r =>
    obtain ⟨n, fileStart, want⟩ := r
    obtain ⟨hn, hwant, hcovers⟩ := writebackFile_ok hfile
    rw [snd_c3MmapWritebackVfsRange u hfile]
    obtain ⟨hlength, hrest⟩ := writebackPages_spec u (m.virt + m.size) va fileStart len.toNat
      (length_padTo want (s.oldBytes n))
    set out := writebackPages u (m.virt + m.size) want (padTo want (s.oldBytes n)) va fileStart len.toNat
    have hmax : out.length < vfsRwMax := by
      rw [hlength]
      exact hwant
    have hrep := replaces_replaceFile s n out ok₁ ok₂
    have hn' := (hrep.find n.path).trans hn
    have hresizes : s.WritebackResizes m va len ok₁ ok₂ ↔
        (∃ i, vfsFind s.vfs n.path = some i ∧ (s.vfs.files i).contents.length ≠ want ∧
          (s.vfs.files i).takes ok₁ ok₂ want = true) ∨
        (vfsFind s.vfs n.path = none ∧ ∃ i < vfsMaxFiles, (s.vfs.files i).used = false) := by
      unfold WritebackResizes
      simp [hfile]
    rw [hresizes, hrep.onlyWithin_iff, fileSize_eq hn, fileSize_eq hn', replaceFile_vfs]
    cases hf : vfsFind s.vfs n.path with
    | none =>
      have hnone : absMap s.vfs n.path = none := by rw [absMap_eq, hf, map_none]
      rw [hnone, map_none, map_eq_none_iff, vfsStore_absent s.good n hf ok₁ ok₂ hmax]
      constructor
      · rintro ⟨hall, -⟩ (⟨i, hi, -⟩ | ⟨-, i, hi, hu⟩)
        · cases hi
        · rw [hall i hi] at hu
          cases hu
      · refine fun h => ⟨fun i hi => ?_, fun size hsize => by cases hsize⟩
        by_contra hu
        exact h (.inr ⟨rfl, i, hi, Bool.not_eq_true _ ▸ hu⟩)
    | some i =>
      have hsome : absMap s.vfs n.path = some (s.vfs.files i).contents := by
        rw [absMap_eq, hf, map_some]
      have hafter := vfsStore_present s.good n hf ok₁ ok₂ hmax
      rw [hlength] at hafter
      cases htakes : (s.vfs.files i).takes ok₁ ok₂ want with
      | false =>
        rw [htakes, if_neg Bool.false_ne_true] at hafter
        rw [hafter]
        refine iff_of_true ⟨rfl, fun _ _ j _ _ => ?_⟩ ?_
        · rw [fileByte_eq hn, fileByte_eq hn', replaceFile_vfs, hafter]
        · rintro (⟨j, hj, -, ht⟩ | ⟨hnone, -⟩)
          · rw [← some.inj hj, htakes] at ht
            cases ht
          · cases hnone
      | true =>
        rw [htakes, if_pos rfl] at hafter
        rw [hafter, hsome, map_some, map_some, hlength]
        constructor
        · rintro ⟨hsize, -⟩ (⟨j, hj, hne, -⟩ | ⟨hnone, -⟩)
          · rw [← some.inj hj] at hne
            exact hne (some.inj hsize).symm
          · cases hnone
        · intro h
          have hsize : (s.vfs.files i).contents.length = want := by
            by_contra hne
            exact h (.inl ⟨i, rfl, hne, htakes⟩)
          refine ⟨by rw [hsize], fun _ _ j _ hj => ?_⟩
          -- the buffer starts out as the file, and the loop writes only covered bytes
          have hold : s.oldBytes n = (s.vfs.files i).contents := by rw [oldBytes_eq, hsome, getD_some]
          rw [fileByte_eq hn, fileByte_eq hn', replaceFile_vfs, hafter, hsome, getD_some,
            getD_some, hrest j, hold, ← hsize, padTo_length]
          by_contra hin
          exact hj (hcovers j (by omega) (by omega))

end FileStore

/-- **`fallocate` and writeback**: a `fallocate` keeps every file at its size or above and every byte that
was there if and only if it does not end inside a file that takes the write; a writeback changes only bytes
of the mapping below the end of the file if and only if it writes as many bytes as the file has. -/
theorem fallocate_writeback_keep (s : FileStore) (cur : Option Task) (fd : ℕ) (mode : BitVec 32)
    (offset len : BitVec 64) (u : UserBytes) (m : FileMapping) (va range : BitVec 64) (ok₁ ok₂ : Bool) :
    (s.Grows (s.realSysFallocate cur fd mode offset len ok₁ ok₂).2 ↔
      ¬ s.FallocateCuts cur fd mode offset len ok₁ ok₂) ∧
    (FileStore.OnlyWithin (m.Covers va range) s (s.c3MmapWritebackVfsRange u m va range ok₁ ok₂).2 ↔
      ¬ s.WritebackResizes m va range ok₁ ok₂) :=
  ⟨s.grows_fallocate_iff cur fd mode offset len ok₁ ok₂, s.onlyWithin_writeback_iff u m va range ok₁ ok₂⟩

/-- A store with one file of two bytes, open in slot 0. -/
def twoByteStore : FileStore :=
  .ofInv (FileSys.boot_inv (mountFiles_inv [(ascii "/a", [1, 2])]) cachedPaging)
    (fun _ => ⟨false, [], 0, 0⟩) fun _ => some sampleName

theorem twoByteStore_vfs : twoByteStore.vfs =
    ⟨update (fun _ => VfsFile.zero) 0 ⟨true, false, ascii "/a", [1, 2], none, 0⟩, 1⟩ := by
  simp only [twoByteStore, FileStore.ofInv, FileSys.boot]
  exact mountFiles_sample [1, 2]

/-- A task with the file at descriptor 0. -/
def fileTask : Task :=
  { Task.unused with fds := fun fd => if fd = 0 then ⟨.vfsfile, 0, fdflReadable ||| fdflWritable,
      0⟩ else .empty }

/-- One page of the file, mapped shared and writable. -/
def filePage : FileMapping where
  used := true
  virt := 0x1000
  size := 0x1000
  prot := 3
  flags := c3MapShared
  offset := 0
  backingKind := .vfsfile
  backingPath := some sampleName

theorem twoByteStore_takes {n : ℕ} (hn : n < vfsRwMax) :
    (twoByteStore.vfs.files 0).takes true true n = true := by
  rw [twoByteStore_vfs]
  exact VfsFile.Good.takes ⟨by decide, fun _ => rfl, by decide⟩ (by decide) hn

theorem twoByteStore_find : vfsFind twoByteStore.vfs sampleName.path = some 0 := by
  rw [twoByteStore_vfs]
  rfl

theorem twoByteStore_contents : (twoByteStore.vfs.files 0).contents = [1, 2] := by
  rw [twoByteStore_vfs]
  rfl

/-- A `fallocate` of the first byte cuts the second one off, and the writeback of the mapped page makes the
file a page long. -/
theorem fallocate_writeback_lose :
    ¬ twoByteStore.Grows (twoByteStore.realSysFallocate (some fileTask) 0 0 0 1 true true).2 ∧
    ¬ FileStore.OnlyWithin (filePage.Covers 0x1000 0x1000) twoByteStore
      (twoByteStore.c3MmapWritebackVfsRange ⟨fun _ => false, fun _ =>
          0⟩ filePage 0x1000 0x1000 true true).2 := by
  have hmemfd : twoByteStore.memfdTrackFind sampleName.path = none := by decide +kernel
  rw [FileStore.grows_fallocate_iff, FileStore.onlyWithin_writeback_iff, not_not, not_not]
  constructor
  · have hend : FileStore.fallocateEnd 0 1 = 1 := rfl
    refine ⟨sampleName, 0, rfl, hmemfd, rfl, twoByteStore_find, ?_, ?_⟩
    · rw [twoByteStore_contents, hend]
      decide
    · exact twoByteStore_takes (by decide)
  · refine ⟨sampleName, 0, 4096, ?_, .inl ⟨0, twoByteStore_find, ?_, twoByteStore_takes (by decide)⟩⟩
    · unfold FileStore.writebackFile
      dsimp only [filePage]
      rw [hmemfd]
      rfl
    · rw [twoByteStore_contents]
      decide

end Ridux
