import Ridux.Lib.Run
import Ridux.Mm.FilePages
import Ridux.Vfs.FileOps
import Ridux.Vfs.Refine

/-!
# The page cache is transparent

* `FileSys.Inv`: the cache is sound, and each cached frame has the bytes of the file;
* `FileSys.Clean`: the calls that leave no stale page behind;
* `FileSys.Inv.exec`: every clean call keeps the invariant;
* `file_cache_transparent`: it holds in every state of every run of clean calls.
-/

namespace Ridux

open Lib Function List Option

/-! ### Names -/

theorem VfsName.ne_nil (n : VfsName) : n.path ≠ [] := by
  intro h
  have hhead := head_vfsNormalizePath n.path
  rw [n.normal, h] at hhead
  cases hhead

variable {cap : ℕ} {d : Bytes} {ch : UInt8}

theorem length_appendStr_lt (h : d.length < cap) (s : Bytes) :
    (appendStr cap d s).length < cap := by
  rw [appendStr, length_append, length_take]
  omega

theorem length_appendCh_lt (h : d.length < cap) (ch : UInt8) :
    (appendCh cap d ch).length < cap := by
  unfold appendCh
  split_ifs with hfits
  · rw [length_append]
    exact hfits
  · exact h

theorem head_appendStr (h : d.head? = some ch) (s : Bytes) :
    (appendStr cap d s).head? = some ch := by
  rw [appendStr, List.head?_append, h]
  rfl

theorem head_appendCh (h : d.head? = some ch) (x : UInt8) : (appendCh cap d x).head? = some ch := by
  unfold appendCh
  split_ifs
  · rw [List.head?_append, h]
    rfl
  · exact h

theorem hiddenName_normal (pid seq : BitVec 32) :
    vfsNormalizePath (hiddenName pid seq) = hiddenName pid seq := by
  have hlen : (hiddenName pid seq).length < vfsMaxPath := by
    unfold hiddenName
    apply length_appendStr_lt
    apply length_appendCh_lt
    apply length_appendStr_lt
    apply length_appendStr_lt
    decide
  have hhead : (hiddenName pid seq).head? = some slash := by
    unfold hiddenName
    apply head_appendStr
    apply head_appendCh
    apply head_appendStr
    decide
  have hfull := fullPath_of_head hhead
  rw [vfsNormalizePath_of_short (by rwa [hfull]), hfull]

/-- The hidden name as a name. -/
def VfsName.hidden (pid seq : BitVec 32) : VfsName := ⟨hiddenName pid seq, hiddenName_normal pid seq⟩

/-! ### Files -/

/-- A step that leaves alone every file but one. -/
structure Vfs.Touches (path : Bytes) (s s' : Vfs) : Prop where
  inv : s'.Inv
  others : ∀ q, q ≠ path → absMap s' q = absMap s q

variable {s : Vfs}

theorem Vfs.Touches.update {path : Bytes} {s' : Vfs} (hinv : s'.Inv) {o : Option Bytes}
    (h : absMap s' = update (absMap s) path o) : Vfs.Touches path s s' := by
  refine ⟨hinv, fun q hq => ?_⟩
  rw [h, update_of_ne hq]

theorem vfsStore_touches (h : s.Inv) (ok₁ ok₂ : Bool) (n : VfsName) (payload : Bytes) :
    Vfs.Touches n.path s (vfsStore ok₁ ok₂ n.path payload s).2 := by
  have hlen : (payload.take (vfsRwMax - 1)).length < vfsRwMax := by
    have hmax : 0 < vfsRwMax := by decide
    rw [length_take]
    omega
  rw [vfsStore_cut]
  unfold vfsStore
  rcases vfsAlloc_cases h n.path with
    ⟨i, he, hi, hu, hp⟩ | ⟨-, -, i, s₁, he, hinv, hi, hnode, hmap⟩ | ⟨-, he⟩
  · rw [n.normal] at hp
    simp only [he]
    rcases vfsStoreAt_spec h hi hu ok₁ ok₂ hlen with ⟨s', hr, hinv', hmap'⟩ | ⟨s', hr, hinv', hmap'⟩
    · rw [hr]
      exact .update hinv' (hp ▸ hmap')
    · rw [hr]
      exact ⟨hinv', fun q _ => by rw [hmap']⟩
  · rw [n.normal] at hnode hmap
    have htouch : Vfs.Touches n.path s s₁ := .update hinv hmap
    have hp : (s₁.files i).path = n.path := by rw [hnode]
    have hu : (s₁.files i).used = true := by rw [hnode]
    simp only [he]
    rcases vfsStoreAt_spec hinv hi hu ok₁ ok₂ hlen with ⟨s', hr, hinv', hmap'⟩ | ⟨s', hr, hinv', hmap'⟩
    · rw [hr]
      refine ⟨hinv', fun q hq => ?_⟩
      rw [hmap', hp, update_of_ne hq, htouch.others q hq]
    · rw [hr]
      refine ⟨hinv', fun q hq => ?_⟩
      rw [hmap', htouch.others q hq]
  · rw [he]
    exact ⟨h, fun _ _ => rfl⟩

theorem vfsRemove_touches (h : s.Inv) (n : VfsName) :
    Vfs.Touches n.path s (vfsRemove n.path s).2 := by
  rcases vfsRemove_spec h n.path with ⟨i, s', -, hr, hinv, -, hmap⟩ | ⟨-, hr⟩
  · rw [hr]
    rw [n.normal] at hmap
    exact .update hinv hmap
  · rw [hr]
    exact ⟨h, fun _ _ => rfl⟩

theorem VfsName.read_eq (n : VfsName) (h : s.Inv) : vfsRead n.path s = absMap s n.path := by
  rw [vfsRead_eq h, n.normal]

theorem vfsStore_existing (h : s.Inv) (ok₁ ok₂ : Bool) (n : VfsName)
    (hsome : (vfsFind s n.path).isSome = true) :
    ((vfsStore ok₁ ok₂ n.path [] s).1 = true →
      absMap (vfsStore ok₁ ok₂ n.path [] s).2 n.path = some []) ∧
    ((vfsStore ok₁ ok₂ n.path [] s).1 = false → absMap (vfsStore ok₁ ok₂ n.path [] s).2 = absMap s) := by
  have hclean : cleanStore ok₁ ok₂ n.path [] s := by
    refine ⟨by decide, fun hnone => ?_⟩
    rw [hnone] at hsome
    cases hsome
  rcases vfsStore_spec h hclean with ⟨s', hr, -, hmap⟩ | ⟨s', hr, -, hmap⟩
  · rw [hr]
    refine ⟨fun _ => ?_, fun hf => by cases hf⟩
    rw [hmap, n.normal, update_self]
  · rw [hr]
    exact ⟨fun ht => (by cases ht), fun _ => hmap⟩

theorem vfsStore_empties (h : s.Inv) (n : VfsName) {i : ℕ} (hf : vfsFind s n.path = some i)
    (hsize : (s.files i).roData.length < vfsRwMax) : (vfsStore true true n.path [] s).1 = true := by
  obtain ⟨hi, hu, -⟩ := vfsFind_eq_some hf
  rw [vfsStore_fst hf true true (by decide)]
  exact (h.good i hi hu).takes hsize (by decide)

/-! ### The invariant -/

namespace FileSys

/-- The invariant of the files and their cached pages. -/
structure Inv (s : FileSys) : Prop where
  vfs : s.vfs.Inv
  sound : s.cache.Sound
  holds : s.cache.Holds (absMap s.vfs)

/-- A cached page of a file has only zeros. -/
def ZeroPages (s : FileSys) (n : VfsName) : Prop :=
  ∀ i p, s.cache.mm.filePages i = some p → (s.cache.key i).path = n.path →
    s.cache.page p = List.replicate pageSize 0

/-- No page of a path is cached. -/
def Uncached (s : FileSys) (path : Bytes) : Prop :=
  ∀ i, s.cache.used i = true → (s.cache.key i).path ≠ path

/-- The calls that leave no stale page: `O_TRUNC` finds only zeros of the file in the cache, or fails to
write; and the hidden name of an open file that is unlinked is not cached. -/
def Clean (s : FileSys) : FileOp → Prop
  | .openFile n trunc _ ok₁ ok₂ =>
    trunc = true → (vfsFind s.vfs n.path).isSome = true →
      (vfsWrite ok₁ ok₂ n.path [] s.vfs).1 = true → s.ZeroPages n
  | .unlink n pid isOpen =>
    isOpen = true → (vfsFind s.vfs n.path).isSome = true →
      hiddenName pid (nextSeq s.deletedSeq) = n.path ∨ s.Uncached (hiddenName pid (nextSeq s.deletedSeq))
  | _ => True

variable {s : FileSys} {n : VfsName} {c : FileCache}

theorem holds_congr {files files' : Bytes → Option Bytes} (h : c.Holds files)
    (hsame : ∀ i, c.used i = true → files' (c.key i).path = files (c.key i).path) : c.Holds files' := by
  intro i p hp
  rw [hsame i (FileCache.used_iff.2 ⟨p, hp⟩)]
  exact h i p hp

theorem Inv.shed (h : s.Inv) {G : ℕ → Prop} (hs : FileCache.Sheds G s.cache c) :
    Inv { s with cache := c } := ⟨h.vfs, hs.sound h.sound, hs.holds h.holds⟩

theorem Inv.invalidate (h : s.Inv) (n : VfsName) {v : Vfs} (hv : Vfs.Touches n.path s.vfs v) :
    Inv { s with cache := s.cache.invalidatePath n.path, vfs := v } := by
  obtain ⟨hsheds, hnone⟩ := FileCache.invalidatePath_spec h.sound n.path
  refine ⟨hv.inv, hsheds.sound h.sound, ?_⟩
  exact holds_congr (hsheds.holds h.holds) fun i hu => hv.others _ (hnone i hu)

theorem Inv.writeFile (h : s.Inv) (n : VfsName) (bytes : Bytes) (ok₁ ok₂ : Bool) :
    (s.writeFile n bytes ok₁ ok₂).Inv := h.invalidate n (vfsStore_touches h.vfs ok₁ ok₂ n _)

theorem Inv.remove (h : s.Inv) (n : VfsName) :
    Inv { s with cache := s.cache.invalidatePath n.path, vfs := (vfsRemove n.path s.vfs).2 } :=
  h.invalidate n (vfsRemove_touches h.vfs n)

theorem Inv.uncached (h : s.Inv) (hnone : vfsFind s.vfs n.path = none) : s.Uncached n.path := by
  intro i hu he
  obtain ⟨p, hp⟩ := FileCache.used_iff.1 hu
  obtain ⟨data, hfile, -⟩ := h.holds i p hp
  rw [he, ← n.read_eq h.vfs, vfsRead, hnone] at hfile
  cases hfile

theorem Inv.store (h : s.Inv) (hnone : s.Uncached n.path) (ok₁ ok₂ : Bool) (payload : Bytes) :
    Inv { s with vfs := (vfsStore ok₁ ok₂ n.path payload s.vfs).2 } := by
  have htouch := vfsStore_touches h.vfs ok₁ ok₂ n payload
  exact ⟨htouch.inv, h.sound, holds_congr h.holds fun i hu => htouch.others _ (hnone i hu)⟩

theorem pageOf_nil (off : ℕ) : pageOf [] off = List.replicate pageSize 0 := by
  rw [pageOf, drop_nil, take_nil, length_nil, nil_append, Nat.sub_zero]

theorem Inv.openFile (h : s.Inv) {trunc creat ok₁ ok₂ : Bool}
    (hclean : s.Clean (.openFile n trunc creat ok₁ ok₂)) : (s.realSysOpen n trunc creat ok₁ ok₂).Inv := by
  unfold realSysOpen
  cases hf : vfsFind s.vfs n.path with
  | none =>
    simp only [isSome_none, Bool.false_eq_true, if_false]
    split_ifs
    · exact h.store (h.uncached hf) ok₁ ok₂ []
    · exact h
  | some i =>
    have hsome : (vfsFind s.vfs n.path).isSome = true := by rw [hf]; rfl
    simp only [isSome_some, if_true]
    by_cases htrunc : trunc = true
    · rw [if_pos htrunc]
      have htouch := vfsStore_touches h.vfs ok₁ ok₂ n []
      obtain ⟨hdone, hfailed⟩ := vfsStore_existing h.vfs ok₁ ok₂ n hsome
      refine ⟨htouch.inv, h.sound, fun j p hp => ?_⟩
      obtain ⟨data, hfile, hbytes⟩ := h.holds j p hp
      by_cases hj : (s.cache.key j).path = n.path
      · cases hr : (vfsStore ok₁ ok₂ n.path [] s.vfs).1 with
        | true =>
          refine ⟨[], hj ▸ hdone hr, ?_⟩
          rw [pageOf_nil]
          exact hclean htrunc hsome hr j p hp hj
        | false =>
          refine ⟨data, ?_, hbytes⟩
          rw [← hfile]
          exact congrFun (hfailed hr) _
      · exact ⟨data, (htouch.others _ hj).trans hfile, hbytes⟩
    · rw [if_neg htrunc]
      exact h

theorem Inv.rename (h : s.Inv) (o n : VfsName) : (s.realSysRename o n).Inv := by
  unfold realSysRename
  by_cases hskip : o.path = n.path ∨ vfsFind s.vfs o.path = none
  · rw [if_pos hskip]
    exact h
  rw [if_neg hskip]
  have hne : vfsNormalizePath o.path ≠ vfsNormalizePath n.path := by
    rw [o.normal, n.normal]
    exact fun he => hskip (.inl he)
  -- a file at the target goes first, so that no page of the target is cached
  have hmove : ∀ {t : FileSys}, t.Inv → t.Uncached n.path →
      Inv { t with cache := t.cache.invalidatePath o.path, vfs := (vfsRename o.path n.path t.vfs).2 } := by
    intro t ht huncached
    obtain ⟨hsheds, hnone⟩ := FileCache.invalidatePath_spec ht.sound o.path
    rcases vfsRename_spec ht.vfs o.path n.path hne with ⟨v, data, hr, hinv, -, hmap⟩ | ⟨-, hr⟩
    · rw [hr]
      refine ⟨hinv, hsheds.sound ht.sound, ?_⟩
      refine holds_congr (hsheds.holds ht.holds) fun i hu => ?_
      obtain ⟨hu', hkey⟩ := hsheds.used hu
      have hn : ((t.cache.invalidatePath o.path).key i).path ≠ n.path := by
        rw [hkey]
        exact huncached i hu'
      show absMap v _ = _
      rw [hmap, o.normal, n.normal, update_of_ne hn, update_of_ne (hnone i hu)]
    · rw [hr]
      exact ht.shed hsheds
  cases hf : vfsFind s.vfs n.path with
  | none => exact hmove h (h.uncached hf)
  | some j =>
    refine hmove (h.remove n) fun i hu => ?_
    exact (FileCache.invalidatePath_spec h.sound n.path).2 i hu

theorem Inv.unlink (h : s.Inv) {pid : BitVec 32} {isOpen : Bool}
    (hclean : s.Clean (.unlink n pid isOpen)) : (s.realSysUnlink n pid isOpen).Inv := by
  unfold realSysUnlink
  by_cases hnone : vfsFind s.vfs n.path = none
  · rw [if_pos hnone]
    exact h
  have hsome := isSome_iff_ne_none.2 hnone
  rw [if_neg hnone]
  by_cases hopen : isOpen = true
  · have hhidden := hclean hopen hsome
    rw [if_pos hopen]
    generalize hmdef : VfsName.hidden pid (nextSeq s.deletedSeq) = m
    have hpath : hiddenName pid (nextSeq s.deletedSeq) = m.path := by rw [← hmdef]; rfl
    simp only [hpath] at hhidden ⊢
    by_cases hsame : m.path = n.path
    · have hr : vfsRename n.path m.path s.vfs = (true, s.vfs) := by
        simp only [vfsRename, hsame, if_true]
      simp only [hr, if_true]
      obtain ⟨hsound, hholds⟩ := FileCache.renamePath_spec h.sound h.holds (G := absMap s.vfs)
        n.ne_nil m.ne_nil (.inl hsame) (by rw [hsame]) (fun _ _ _ => rfl)
      exact ⟨h.vfs, hsound, hholds⟩
    · have huncached := hhidden.resolve_left hsame
      have hne : vfsNormalizePath n.path ≠ vfsNormalizePath m.path := by
        rw [n.normal, m.normal]
        exact fun he => hsame he.symm
      rcases vfsRename_spec h.vfs n.path m.path hne with ⟨v, data, hr, hinv, hdata, hmap⟩ | ⟨-, hr⟩
      · rw [n.normal] at hdata
        rw [n.normal, m.normal] at hmap
        simp only [hr, if_true]
        obtain ⟨hsound, hholds⟩ := FileCache.renamePath_spec h.sound h.holds (G := absMap v)
          n.ne_nil m.ne_nil (.inr huncached) (by rw [hmap, update_self, hdata])
          (fun path hp hq => by rw [hmap, update_of_ne hq, update_of_ne hp])
        exact ⟨hinv, hsound, hholds⟩
      · simp only [hr, Bool.false_eq_true, if_false]
        exact ⟨h.vfs, h.sound, h.holds⟩
  · rw [if_neg hopen]
    exact h.remove n

theorem Inv.fault (h : s.Inv) (n : VfsName) (pageOff : ℕ) : (s.fault n pageOff).Inv := by
  unfold FileSys.fault
  cases hr : vfsRead n.path s.vfs with
  | none => exact h
  | some data =>
    rw [n.read_eq h.vfs] at hr
    have hserves := @FileCache.getFrame_spec s.cache ⟨n.path, pageOff⟩ h.sound _ h.holds n.ne_nil _ hr
    exact ⟨h.vfs, hserves.sound, hserves.holds⟩

theorem Inv.anonFault (h : s.Inv) : s.anonFault.Inv := by
  obtain ⟨halloc, hfresh⟩ := FileCache.allocates_allocUserFrame h.sound
  unfold FileSys.anonFault
  by_cases h0 : s.cache.allocUserFrame.1 = 0
  · simp only [if_pos h0]
    exact h.shed halloc
  · obtain ⟨hbase, hfresh⟩ := hfresh h0
    obtain ⟨hfill, -⟩ := FileCache.fill_spec (G := s.cache.allocUserFrame.2.mm.Caches)
      (halloc.sound h.sound) hbase hfresh (List.replicate pageSize 0)
    simp only [if_neg h0]
    exact h.shed (halloc.then hfill)

theorem Inv.exec (h : s.Inv) {op : FileOp} (hclean : s.Clean op) : (s.exec op).Inv := by
  cases op with
  | fault n pageOff => exact h.fault n pageOff
  | anon => exact h.anonFault
  | release phys => exact h.shed (FileCache.Sheds.ofMoves (Mm.moves_release h.sound.tracked phys))
  | reclaim maxPages => exact h.shed (FileCache.sheds_reclaim h.sound maxPages)
  | write n append offset buf ok₁ ok₂ => exact h.writeFile n _ ok₁ ok₂
  | pwrite n offset buf ok₁ ok₂ =>
    simp only [FileSys.exec]
    split_ifs
    · exact h
    · exact h.writeFile n _ ok₁ ok₂
  | truncate n length ok₁ ok₂ =>
    simp only [FileSys.exec]
    split_ifs
    · exact h
    · exact h.writeFile n _ ok₁ ok₂
  | fallocate n offset len ok₁ ok₂ => exact h.writeFile n _ ok₁ ok₂
  | openFile n trunc creat ok₁ ok₂ => exact h.openFile hclean
  | link n bytes ok₁ ok₂ =>
    simp only [FileSys.exec]
    split_ifs with hsome
    · exact h
    · exact h.store (h.uncached (by simpa using hsome)) ok₁ ok₂ _
  | rename o n => exact h.rename o n
  | unlink n pid isOpen => exact h.unlink hclean
  | close n =>
    simp only [FileSys.exec, openSlotTryFree]
    split_ifs
    · exact h.remove n
    · exact h

end FileSys

theorem mountFiles_inv (initrd : List (Bytes × Bytes)) : (mountFiles initrd).Inv := by
  suffices h : ∀ (l : List (Bytes × Bytes)) (s : Vfs), s.Inv →
      (l.foldl (fun s f => (vfsMountFile f.1 f.2 s).2) s).Inv from h initrd vfsInit vfsInit_inv
  intro l
  induction l with
  | nil => exact fun s h => h
  | cons f l ih =>
    intro s h
    rw [foldl_cons]
    apply ih
    rcases vfsMountFile_spec h f.1 f.2 with ⟨s', hr, hinv, -⟩ | hr
    · rw [hr]
      exact hinv
    · rw [hr]
      exact h

theorem FileSys.boot_inv {v : Vfs} (h : v.Inv) (paging : Paging) : (FileSys.boot v paging).Inv where
  vfs := h
  sound :=
    { tracked := ⟨fun _ hj => absurd rfl hj, fun _ hs => absurd rfl hs, fun _ _ hs _ => absurd rfl hs⟩
      bounded := fun _ _ hp => by cases hp
      base := fun _ _ hp => by cases hp
      alive := by
        rintro n ⟨i, p, hp, -⟩
        cases hp
      single := fun _ _ _ hp => by cases hp
      keyed := fun _ _ hu => by cases hu
      named := fun _ hu => by cases hu }
  holds := fun _ _ hp => by cases hp

/-- What a user of the cache relies on: a fault gets the bytes of the file, the hints change nothing, and
no page is cached twice. -/
structure FileSys.Transparent (s : FileSys) : Prop where
  page : ∀ (n : VfsName) (off : ℕ) (data : Bytes), vfsRead n.path s.vfs = some data →
    (s.cache.getFrame ⟨n.path, off⟩ data).1 ≠ 0 →
    (s.cache.getFrame ⟨n.path, off⟩ data).2.page (s.cache.getFrame ⟨n.path, off⟩ data).1 = pageOf data off
  found : ∀ k, (s.cache.findSlot k).1.isSome = (s.cache.scan k).isSome
  once : ∀ i j, s.cache.used i = true → s.cache.used j = true → s.cache.key i = s.cache.key j → i = j

theorem FileSys.Inv.transparent {s : FileSys} (h : s.Inv) : s.Transparent where
  page n off data hr := by
    rw [n.read_eq h.vfs] at hr
    exact (@FileCache.getFrame_spec s.cache ⟨n.path, off⟩ h.sound _ h.holds n.ne_nil _ hr).page
  found k := by rw [(FileCache.findSlot_spec h.sound k).1]
  once := h.sound.keyed

/-- **The page cache is transparent** in every state of every run of clean calls. -/
theorem file_cache_transparent (initrd : List (Bytes × Bytes)) (paging : Paging) {s : FileSys}
    (hrun : Runs FileSys.Clean FileSys.exec (FileSys.boot (mountFiles initrd) paging) s) : s.Transparent :=
  (Runs.invariant (P := FileSys.Inv) (fun _ _ h hop => h.exec hop) hrun
    (FileSys.boot_inv (mountFiles_inv initrd) paging)).transparent

/-- The file of the examples. -/
def sampleName : VfsName := ⟨ascii "/a", by decide⟩

/-- A machine with 512 free frames from 2 MiB on. -/
def cachedPaging : Paging where
  pmm :=
    { bitmap := fun _ => false, ptBitmap := fun _ => false
      total := 1024, free := 512, hint := 512, base := 0x200000 }
  mem := fun _ _ => 0
  kernelPml4 := 0
  spaces := fun _ => none
  nextSpace := 0
  nxEnabled := true

theorem file_cache_transparent_sample :
    ((FileSys.boot (mountFiles [(ascii "/a", [1])]) cachedPaging).exec
      (.fault sampleName 0)).Transparent := by
  apply file_cache_transparent [(ascii "/a", [1])] cachedPaging
  exact (Runs.refl _).tail _ (show FileSys.Clean _ (.fault sampleName 0) from trivial)

theorem mountFiles_sample (data : Bytes) : mountFiles [(ascii "/a", data)] =
    ⟨update (fun _ => VfsFile.zero) 0 ⟨true, false, ascii "/a", data, none, 0⟩, 1⟩ := by
  have hnone : vfsFind vfsInit (vfsNormalizePath (ascii "/a")) = none := by
    cases hf : vfsFind vfsInit (vfsNormalizePath (ascii "/a")) with
    | none => rfl
    | some i => exact absurd (vfsFind_eq_some hf).2.1 Bool.false_ne_true
  have hfree : firstSlot (fun i => !(vfsInit.files i).used) vfsMaxFiles = some 0 := rfl
  have hpath : vfsNormalizePath (ascii "/a") = ascii "/a" := by decide
  simp only [mountFiles, foldl_cons, foldl_nil, vfsMountFile, vfsAlloc, hnone, hfree]
  simp only [hpath, Vfs.set, VfsFile.mounted, update_self, update_idem]
  rfl

/-- The cache after a fault on the file of the examples. -/
def sampleCache : FileCache :=
  ((FileSys.boot vfsInit cachedPaging).cache.newFrame ⟨sampleName.path, 0⟩ [1]).2

theorem sampleCache_stale : (sampleCache.getFrame ⟨sampleName.path, 0⟩ []).1 ≠ 0 ∧
    ((sampleCache.getFrame ⟨sampleName.path, 0⟩ []).2.page
      (sampleCache.getFrame ⟨sampleName.path, 0⟩ []).1).head? = some 1 := by
  decide +kernel

/-- `O_TRUNC` of a file whose first page is cached: the next fault still gets the old page. -/
theorem file_cache_not_transparent : ¬ ∀ (initrd : List (Bytes × Bytes)) (paging : Paging) (s : FileSys),
    Runs (fun _ _ => True) FileSys.exec (FileSys.boot (mountFiles initrd) paging) s → s.Transparent := by
  intro hall
  have h := hall [(ascii "/a", [1])] cachedPaging _ (((Runs.refl _).tail (.fault sampleName 0) trivial).tail
    (.openFile sampleName true false true true) trivial)
  have hinv := mountFiles_inv [(ascii "/a", [1])]
  rw [mountFiles_sample] at h hinv
  generalize hv :
    (⟨update (fun _ => VfsFile.zero) 0 ⟨true, false, ascii "/a", [1], none, 0⟩, 1⟩ : Vfs) = v at h hinv
  have hfind : vfsFind v sampleName.path = some 0 := by
    rw [← hv]
    rfl
  have hread : vfsRead sampleName.path v = some [1] := by
    rw [vfsRead, hfind, ← hv]
    rfl
  have hsize : (v.files 0).roData.length < vfsRwMax := by
    rw [← hv]
    decide
  have hempty := (vfsStore_existing hinv true true sampleName (by rw [hfind]; rfl)).1
    (vfsStore_empties hinv sampleName hfind hsize)
  have hmiss : (FileSys.boot v cachedPaging).cache.findSlot ⟨sampleName.path, 0⟩ =
      (none, (FileSys.boot v cachedPaging).cache) := by
    unfold FileCache.findSlot
    have hscan : firstSlot ((FileSys.boot v cachedPaging).cache.isFor ⟨sampleName.path, 0⟩)
        c3FilepageMax = none := by
      cases hs : firstSlot ((FileSys.boot v cachedPaging).cache.isFor ⟨sampleName.path, 0⟩) c3FilepageMax with
      | none => rfl
      | some i => exact absurd (FileCache.isFor_iff.1 (firstSlot_eq_some hs).2).1 Bool.false_ne_true
    rw [if_neg sampleName.ne_nil, hscan]
    rfl
  have hfault : (FileSys.boot v cachedPaging).exec (.fault sampleName 0) =
      { FileSys.boot v cachedPaging with cache := sampleCache } := by
    have hget : (FileSys.boot v cachedPaging).cache.getFrame ⟨sampleName.path, 0⟩ [1] =
        (FileSys.boot v cachedPaging).cache.newFrame ⟨sampleName.path, 0⟩ [1] := by
      rw [FileCache.getFrame, hmiss]
    have hread' : vfsRead sampleName.path (FileSys.boot v cachedPaging).vfs = some [1] := hread
    simp only [FileSys.exec, FileSys.fault, hread', hget]
    rfl
  have hopen : ((FileSys.boot v cachedPaging).exec (.fault sampleName 0)).exec
      (.openFile sampleName true false true true) =
      { FileSys.boot v cachedPaging with
        cache := sampleCache, vfs := (vfsStore true true sampleName.path [] v).2 } := by
    have hfind' : vfsFind (FileSys.boot v cachedPaging).vfs sampleName.path = some 0 := hfind
    rw [hfault]
    simp only [FileSys.exec, FileSys.realSysOpen, hfind', isSome_some, if_true]
    rfl
  rw [hopen] at h
  have hread' := (sampleName.read_eq (vfsStore_touches hinv true true sampleName []).inv).trans hempty
  have hpage := h.page sampleName 0 [] hread'
  simp only at hpage
  have hstale := sampleCache_stale
  generalize sampleCache.getFrame ⟨sampleName.path, 0⟩ [] = r at hpage hstale
  obtain ⟨h0, hone⟩ := hstale
  rw [hpage h0, FileSys.pageOf_nil, List.head?_replicate, if_neg (by decide)] at hone
  exact absurd (some.inj hone) (by decide)

end Ridux
