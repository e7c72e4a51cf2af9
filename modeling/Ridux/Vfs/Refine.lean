import Ridux.Lib.Run
import Ridux.Vfs.Node

/-!
# The file system as a finite map

The node table stores a map from paths to bytes, and each operation of `vfs_sched.c` changes it
as its caller expects, as long as nothing was cut off and no node was left half created:

* `Vfs.Inv`: the nodes are well formed and no path has two of them;
* `absMap`: the map that the table stores;
* one theorem per operation, and the runs that follow the map.
-/

namespace Ridux

open Lib Function List Option

/-! ### Nodes -/

/-- A node in use: its path is a normal form, and its buffer holds its bytes. -/
structure VfsFile.Good (f : VfsFile) : Prop where
  path_eq : vfsNormalizePath f.path = f.path
  readOnly : f.writable = false → f.rwData = none
  size_le : f.rwSize ≤ f.buf.length

theorem growCap_ge (need k : ℕ) : 256 ≤ growCap need k ∧
    (need ≤ growCap need k ∨ vfsRwMax ≤ growCap need k) := by
  induction k using growCap.induct need with
  | case1 k h ih =>
    rw [growCap, if_pos h]
    exact ih
  | case2 k h =>
    rw [growCap, if_neg h]
    have := Nat.two_pow_pos k
    omega

@[simp] theorem kMemcpy_take (buf src : Bytes) : (kMemcpy buf src).take src.length = src := by
  simp [kMemcpy]

theorem length_kMemcpy {buf src : Bytes} (h : src.length ≤ buf.length) :
    (kMemcpy buf src).length = buf.length := by
  simp only [kMemcpy, length_append, length_drop]
  omega

variable {f : VfsFile}

theorem VfsFile.grown_spec {cap : ℕ} (hf : f.rwSize ≤ f.buf.length) (hcap : f.rwSize < cap) :
    (f.grown cap).length = cap ∧ (f.grown cap).take f.rwSize = f.buf.take f.rwSize := by
  have hlen : (f.buf.take f.rwSize).length = f.rwSize := by
    rw [length_take]
    omega
  simp only [VfsFile.grown, if_neg (not_le.2 hcap)]
  split_ifs with h
  · refine ⟨?_, ?_⟩
    · rw [length_set, length_kMemcpy (by simp; omega), length_replicate]
    · rw [take_set_of_le le_rfl]
      have := kMemcpy_take (List.replicate cap 0) (f.buf.take f.rwSize)
      rwa [hlen] at this
  · refine ⟨length_replicate, ?_⟩
    by_cases h0 : f.rwSize = 0
    · rw [h0, take_zero, take_zero]
    · have hnone : f.rwData = none := by
        rw [← not_isSome_iff_eq_none]
        exact fun hs => h ⟨hs, h0⟩
      rw [VfsFile.buf, hnone] at hf
      simp at hf
      omega

variable {ok : Bool} {f' : VfsFile}

theorem vfsEnsureRwCapacity_some {need : ℕ} (hf : f.rwSize ≤ f.buf.length)
    (h : vfsEnsureRwCapacity ok f need = some f') :
    ∃ buf, f' = { f with rwData := some buf } ∧ need ≤ buf.length ∧ f.rwSize ≤ buf.length ∧
      buf.take f.rwSize = f.buf.take f.rwSize ∧ (f.rwData = none → 256 ≤ buf.length) := by
  simp only [vfsEnsureRwCapacity] at h
  obtain ⟨m, hm⟩ : ∃ m, m = if need = 0 then 1 else need := ⟨_, rfl⟩
  have hneed : need ≤ m := by rw [hm]; split_ifs <;> omega
  rw [← hm] at h
  obtain ⟨cap, hcap⟩ : ∃ cap, cap = if growCap m 0 > vfsRwMax then vfsRwMax else growCap m 0 :=
    ⟨_, rfl⟩
  rw [← hcap] at h
  split_ifs at h with h1 h2 h3 h4
  · obtain rfl := some.inj h
    cases hbuf : f.rwData with
    | none => rw [hbuf] at h2; cases h2
    | some buf =>
      have hlen : m ≤ buf.length := by simpa [hbuf] using h2
      have hb : f.buf = buf := by simp [VfsFile.buf, hbuf]
      rw [hb] at hf ⊢
      refine ⟨buf, ?_, by omega, hf, rfl, fun hn => ?_⟩
      · rw [← hbuf]
      · cases hn
  · obtain rfl := some.inj h
    have hlt : f.rwSize < cap := by
      cases hbuf : f.rwData with
      | none =>
        rw [VfsFile.buf, hbuf] at hf
        have : 0 < m := by rw [hm]; split_ifs <;> omega
        simp at hf
        omega
      | some buf =>
        have hlen : buf.length < m := by simpa [hbuf] using h2
        rw [VfsFile.buf, hbuf] at hf
        simp at hf
        omega
    obtain ⟨hlen, htake⟩ := VfsFile.grown_spec hf hlt
    refine ⟨f.grown cap, rfl, by omega, by omega, htake, fun _ => ?_⟩
    have := (growCap_ge m 0).1
    rw [hlen, hcap]
    split_ifs
    · decide
    · exact this

theorem vfsEnsureRwCapacity_isSome {need : ℕ} (hneed : need ≤ vfsRwMax)
    (hok : ok = true ∨ ∃ buf, f.rwData = some buf ∧ need ≤ buf.length ∧ buf ≠ []) :
    ∃ f', vfsEnsureRwCapacity ok f need = some f' := by
  have hmax : 1 ≤ vfsRwMax := by decide
  simp only [vfsEnsureRwCapacity]
  obtain ⟨m, hm⟩ : ∃ m, m = if need = 0 then 1 else need := ⟨_, rfl⟩
  have hle : m ≤ vfsRwMax := by rw [hm]; split_ifs <;> omega
  rw [← hm]
  have hgrow := (growCap_ge m 0).2
  rcases hok with hok | ⟨buf, hbuf, hlen, hne⟩
  · rw [if_neg (by omega)]
    split_ifs
    all_goals first
      | exact ⟨_, rfl⟩
      | omega
  · have hpos := length_pos_iff.2 hne
    have hm' : m ≤ buf.length := by rw [hm]; split_ifs <;> omega
    rw [if_neg (by omega), if_pos (by simpa [hbuf] using hm')]
    exact ⟨f, rfl⟩

/-- The bytes of a node that is replaced by `f'` are kept, together with its path. -/
structure VfsFile.Same (f f' : VfsFile) : Prop where
  good : f'.Good
  used : f'.used = f.used
  path : f'.path = f.path
  contents : f'.contents = f.contents

theorem VfsFile.Good.grow (hf : f.Good) (hw : f.writable = true) {need : ℕ}
    (h : vfsEnsureRwCapacity ok f need = some f') :
    f.Same f' ∧ f'.writable = true ∧ need ≤ f'.buf.length := by
  obtain ⟨buf, rfl, hneed, hsize, htake, -⟩ := vfsEnsureRwCapacity_some hf.size_le h
  refine ⟨⟨⟨hf.path_eq, fun hr => ?_, hsize⟩, rfl, rfl, ?_⟩, hw, hneed⟩
  · simp only [hw] at hr
    cases hr
  · simp only [VfsFile.contents, hw, if_true]
    exact htake

theorem VfsFile.Good.store (hf : f.Good) {bytes : Bytes} (hroom : bytes.length + 1 ≤ f.buf.length) :
    ({ f.store bytes with writable := true } : VfsFile).Good ∧
      ({ f.store bytes with writable := true } : VfsFile).contents = bytes := by
  have hlen : ((kMemcpy f.buf bytes).set bytes.length 0).length = f.buf.length := by
    rw [length_set, length_kMemcpy (by omega)]
  refine ⟨⟨hf.path_eq, fun h => Bool.noConfusion h, ?_⟩, ?_⟩
  · show bytes.length ≤ ((kMemcpy f.buf bytes).set bytes.length 0).length
    omega
  · show ((kMemcpy f.buf bytes).set bytes.length 0).take bytes.length = bytes
    rw [take_set_of_le le_rfl, kMemcpy_take]

theorem VfsFile.Good.promote (hf : f.Good) (h : vfsPromoteWritable ok f = some f') :
    f.Same f' ∧ f'.writable = true := by
  unfold vfsPromoteWritable at h
  by_cases hw : f.writable = true
  · rw [if_pos hw] at h
    by_cases hd : f.rwData.isSome = true
    · rw [if_pos hd] at h
      obtain rfl := some.inj h
      exact ⟨⟨hf, rfl, rfl, rfl⟩, hw⟩
    · rw [if_neg hd] at h
      obtain ⟨hsame, hw', -⟩ := hf.grow hw h
      exact ⟨hsame, hw'⟩
  · rw [if_neg hw] at h
    split_ifs at h
    cases he : vfsEnsureRwCapacity ok f (f.roData.length + 1) with
    | none => rw [he] at h; cases h
    | some g =>
      rw [he] at h
      obtain rfl := some.inj h
      obtain ⟨buf, rfl, hneed, hsize, -, -⟩ := vfsEnsureRwCapacity_some hf.size_le he
      -- before the flag is set the node counts as writable with its new buffer
      have hgood : ({ f with rwData := some buf, writable := true } : VfsFile).Good :=
        ⟨hf.path_eq, fun hr => Bool.noConfusion hr, hsize⟩
      obtain ⟨hg, hc⟩ := hgood.store hneed
      have hro : f.contents = f.roData := if_neg hw
      exact ⟨⟨hg, rfl, rfl, hc.trans hro.symm⟩, rfl⟩

/-! ### The table -/

/-- What a slot stores. -/
def Vfs.view (s : Vfs) (i : ℕ) : Option (Bytes × Bytes) :=
  if (s.files i).used then some ((s.files i).path, (s.files i).contents) else none

/-- The invariant of the node table. -/
structure Vfs.Inv (s : Vfs) : Prop where
  good : ∀ i < vfsMaxFiles, (s.files i).used = true → (s.files i).Good
  keyed : Keyed s.view vfsMaxFiles

theorem vfsInit_inv : vfsInit.Inv := by
  refine ⟨fun _ _ hu => ?_, fun _ _ _ _ _ _ _ hi _ => ?_⟩
  · cases hu
  · cases hi

/-- The map that the node table stores. -/
def absMap (s : Vfs) : Bytes → Option Bytes := toMap s.view vfsMaxFiles

variable {s : Vfs} {i : ℕ} {k : Bytes}

theorem Vfs.view_of_used (h : (s.files i).used = true) :
    s.view i = some ((s.files i).path, (s.files i).contents) := if_pos h

theorem Vfs.view_eq_some {v : Bytes} (h : s.view i = some (k, v)) :
    (s.files i).used = true ∧ (s.files i).path = k ∧ (s.files i).contents = v := by
  unfold Vfs.view at h
  split_ifs at h with hu
  obtain ⟨h1, h2⟩ := Prod.mk.inj (some.inj h)
  exact ⟨hu, h1, h2⟩

theorem Vfs.view_set (s : Vfs) (i : ℕ) (hf : f.used = true) :
    (s.set i f).view = update s.view i (some (f.path, f.contents)) := by
  funext j
  by_cases hji : j = i
  · subst hji
    simp [Vfs.view, Vfs.set, hf]
  · simp [Vfs.view, Vfs.set, hji]

theorem Vfs.view_set_zero (s : Vfs) (i : ℕ) :
    (s.set i .zero).view = update s.view i none := by
  funext j
  by_cases hji : j = i
  · subst hji
    simp [Vfs.view, Vfs.set, VfsFile.zero]
  · simp [Vfs.view, Vfs.set, hji]

variable {p : Bytes}

theorem vfsFind_eq_some (h : vfsFind s p = some i) :
    i < vfsMaxFiles ∧ (s.files i).used = true ∧ (s.files i).path = vfsNormalizePath p := by
  obtain ⟨hi, hp⟩ := firstSlot_eq_some h
  simp only [Bool.and_eq_true, decide_eq_true_eq] at hp
  exact ⟨hi, hp⟩

theorem vfsFind_eq_none (h : vfsFind s p = none) :
    ∀ i < vfsMaxFiles, ∀ v, s.view i ≠ some (vfsNormalizePath p, v) := by
  intro i hi v hv
  obtain ⟨hu, hp, -⟩ := Vfs.view_eq_some hv
  have := firstSlot_eq_none h i hi
  simp [hu, hp] at this

theorem vfsRead_eq (h : s.Inv) (p : Bytes) : vfsRead p s = absMap s (vfsNormalizePath p) := by
  unfold vfsRead
  cases hf : vfsFind s p with
  | some i =>
    obtain ⟨hi, hu, hp⟩ := vfsFind_eq_some hf
    refine ((toMap_eq_some h.keyed).2 ⟨i, hi, ?_⟩).symm
    rw [Vfs.view_of_used hu, hp]
  | none => exact (toMap_eq_none.2 (vfsFind_eq_none hf)).symm

/-- Slot `i` is the place for the path `k`: it holds `k` or nothing, and no other slot has `k`. -/
structure Vfs.Place (s : Vfs) (i : ℕ) (k : Bytes) : Prop where
  lt : i < vfsMaxFiles
  only : OnlyAt s.view vfsMaxFiles k i
  slot : ∀ e, s.view i = some e → e.1 = k

theorem Vfs.Inv.set (h : s.Inv) (hplace : s.Place i f.path) (hf : f.Good) (hu : f.used = true) :
    (s.set i f).Inv ∧ absMap (s.set i f) = update (absMap s) f.path (some f.contents) ∧
      (s.set i f).Place i f.path := by
  have hview := s.view_set i hu
  have hkeyed : Keyed (s.set i f).view vfsMaxFiles := by
    rw [hview]
    exact h.keyed.set hplace.only
  refine ⟨⟨fun j hj huj => ?_, hkeyed⟩, ?_, hplace.lt, ?_, fun e he => ?_⟩
  · by_cases hji : j = i
    · subst hji
      simpa [Vfs.set] using hf
    · simp only [Vfs.set, update_of_ne hji] at huj ⊢
      exact h.good j hj huj
  · rw [absMap, hview]
    exact toMap_set h.keyed hplace.lt hplace.only hplace.slot
  · have hi : (s.set i f).view i = some (f.path, f.contents) := by
      rw [hview, update_self]
    exact hkeyed.onlyAt hplace.lt hi
  · rw [hview, update_self] at he
    obtain rfl := some.inj he
    rfl

theorem Vfs.Inv.setSame (h : s.Inv) (hi : i < vfsMaxFiles) (hu : (s.files i).used = true)
    (hf : (s.files i).Same f) :
    (s.set i f).Inv ∧ absMap (s.set i f) = absMap s ∧ (s.set i f).Place i f.path := by
  have hv := Vfs.view_of_used hu
  rw [← hf.path] at hv
  have hplace : s.Place i f.path := by
    refine ⟨hi, h.keyed.onlyAt hi hv, fun e he => ?_⟩
    rw [hv] at he
    obtain rfl := some.inj he
    rfl
  obtain ⟨hinv, hmap, hp⟩ := h.set hplace hf.good (hf.used.trans hu)
  refine ⟨hinv, ?_, hp⟩
  have hlook : absMap s f.path = some f.contents := by
    rw [hf.contents]
    exact (toMap_eq_some h.keyed).2 ⟨i, hi, hv⟩
  rw [hmap, ← hlook, update_eq_self]

/-! ### The operations -/

theorem Vfs.Inv.setCount (h : s.Inv) (c : ℕ) : Vfs.Inv { s with count := c } :=
  ⟨h.good, h.keyed⟩

/-- **What `vfs_alloc` does**: it finds the path, takes a free slot for it, or fails. -/
theorem vfsAlloc_cases (h : s.Inv) (p : Bytes) :
    (∃ i, vfsAlloc s p = (some i, s) ∧ i < vfsMaxFiles ∧ (s.files i).used = true ∧
      (s.files i).path = vfsNormalizePath p) ∨
    (vfsFind s p = none ∧ (∃ i < vfsMaxFiles, (s.files i).used = false) ∧
      ∃ i s', vfsAlloc s p = (some i, s') ∧ s'.Inv ∧ i < vfsMaxFiles ∧
        s'.files i = ⟨true, true, vfsNormalizePath p, [], none, 0⟩ ∧
        absMap s' = update (absMap s) (vfsNormalizePath p) (some [])) ∨
    ((∀ i < vfsMaxFiles, (s.files i).used = true) ∧ vfsAlloc s p = (none, s)) := by
  have hfind : vfsFind s (vfsNormalizePath p) = vfsFind s p :=
    congrArg (vfsSlotOf s) (vfsNormalizePath_idem p)
  unfold vfsAlloc
  rw [hfind]
  cases hf : vfsFind s p with
  | some i =>
    obtain ⟨hi, hu, hp⟩ := vfsFind_eq_some hf
    exact .inl ⟨i, rfl, hi, hu, hp⟩
  | none =>
    right
    cases hfree : firstSlot (fun i => !(s.files i).used) vfsMaxFiles with
    | none =>
      refine .inr ⟨fun i hi => ?_, rfl⟩
      simpa using firstSlot_eq_none hfree i hi
    | some i =>
      obtain ⟨hi, hu⟩ := firstSlot_eq_some hfree
      have hu : (s.files i).used = false := by simpa using hu
      have hview : s.view i = none := by simp [Vfs.view, hu]
      have hplace : s.Place i (vfsNormalizePath p) := by
        refine ⟨hi, fun j hj v hv => absurd hv (vfsFind_eq_none hf j hj v), fun e he => ?_⟩
        rw [hview] at he
        cases he
      have hgood : VfsFile.Good ⟨true, true, vfsNormalizePath p, [], none, 0⟩ :=
        ⟨vfsNormalizePath_idem p, fun _ => rfl, Nat.zero_le _⟩
      obtain ⟨hinv, hmap, -⟩ := h.set hplace hgood rfl
      refine .inl ⟨rfl, ⟨i, hi, hu⟩, i,
        { s.set i ⟨true, true, vfsNormalizePath p, [], none, 0⟩ with count := s.count + 1 },
        ?_, hinv.setCount _, hi, ?_, hmap⟩
      · rfl
      · simp [Vfs.set]

/-- A write to a path is clean when it fits and does not run out of memory after taking a new
slot: the first call of `kmalloc` for a new node gets 256 bytes. -/
def cleanStore (kmalloc₁ kmalloc₂ : Bool) (p payload : Bytes) (s : Vfs) : Prop :=
  payload.length < vfsRwMax ∧
    (vfsFind s p = none → (∃ i < vfsMaxFiles, (s.files i).used = false) →
      kmalloc₁ = true ∧ (payload.length < 256 ∨ kmalloc₂ = true))

variable {payload : Bytes} {kmalloc₂ kmalloc₁ : Bool}

theorem vfsStoreAt_spec (h : s.Inv) (hi : i < vfsMaxFiles) (hu : (s.files i).used = true)
    (kmalloc₁ kmalloc₂ : Bool) (hlen : payload.length < vfsRwMax) :
    (∃ s', vfsStoreAt kmalloc₁ kmalloc₂ payload i s = (true, s') ∧ s'.Inv ∧
      absMap s' = update (absMap s) (s.files i).path (some payload)) ∨
    (∃ s', vfsStoreAt kmalloc₁ kmalloc₂ payload i s = (false, s') ∧ s'.Inv ∧
      absMap s' = absMap s) := by
  have hfull : storeLen payload = payload.length := if_neg (not_le.2 hlen)
  simp only [vfsStoreAt, hfull, take_length]
  cases hp : vfsPromoteWritable kmalloc₁ (s.files i) with
  | none => exact .inr ⟨s, rfl, h, rfl⟩
  | some f =>
    obtain ⟨hsame, hw⟩ := (h.good i hi hu).promote hp
    obtain ⟨hinv, hmap, hplace⟩ := h.setSame hi hu hsame
    simp only
    cases he : vfsEnsureRwCapacity kmalloc₂ f (payload.length + 1) with
    | none => exact .inr ⟨s.set i f, rfl, hinv, hmap⟩
    | some f' =>
      refine .inl ⟨_, rfl, ?_⟩
      obtain ⟨hsame', hw', hroom⟩ := hsame.good.grow hw he
      obtain ⟨hgood, hcont⟩ := hsame'.good.store hroom
      have hf' : ({ f'.store payload with writable := true } : VfsFile) = f'.store payload := by
        simp only [VfsFile.store, hw']
      rw [hf'] at hgood hcont
      have hpath : (f'.store payload).path = f.path := hsame'.path
      obtain ⟨hinv', hmap', -⟩ := hinv.set (f := f'.store payload) (by rw [hpath]; exact hplace)
        hgood (hsame'.used.trans (hsame.used.trans hu))
      refine ⟨hinv', ?_⟩
      rw [hmap', hmap, hpath, hsame.path, hcont]

theorem vfsStoreAt_new (hnode : s.files i = ⟨true, true, k, [], none, 0⟩)
    (hlen : payload.length < vfsRwMax) (hmem : payload.length < 256 ∨ kmalloc₂ = true) :
    (vfsStoreAt true kmalloc₂ payload i s).1 = true := by
  have hsize : (s.files i).rwSize ≤ (s.files i).buf.length := by rw [hnode]; exact Nat.zero_le _
  obtain ⟨f, hf⟩ : ∃ f, vfsEnsureRwCapacity true (s.files i) 1 = some f :=
    vfsEnsureRwCapacity_isSome (by decide) (.inl rfl)
  obtain ⟨buf, hfbuf, -, -, -, h256⟩ := vfsEnsureRwCapacity_some hsize hf
  have h256 := h256 (by rw [hnode])
  have hp : vfsPromoteWritable true (s.files i) = some f := by
    rw [hnode] at hf ⊢
    exact hf
  obtain ⟨f', hf'⟩ : ∃ f', vfsEnsureRwCapacity kmalloc₂ f (payload.length + 1) = some f' := by
    refine vfsEnsureRwCapacity_isSome hlen ?_
    rcases hmem with hmem | hmem
    · refine .inr ⟨buf, by rw [hfbuf], by omega, ?_⟩
      rintro rfl
      simp at h256
    · exact .inl hmem
  have hfull : storeLen payload = payload.length := if_neg (not_le.2 hlen)
  simp only [vfsStoreAt, hp, hfull, hf']

/-- **A clean write** stores its payload under its path, or fails and changes nothing. -/
theorem vfsStore_spec (h : s.Inv) (hclean : cleanStore kmalloc₁ kmalloc₂ p payload s) :
    (∃ s', vfsStore kmalloc₁ kmalloc₂ p payload s = (true, s') ∧ s'.Inv ∧
      absMap s' = update (absMap s) (vfsNormalizePath p) (some payload)) ∨
    (∃ s', vfsStore kmalloc₁ kmalloc₂ p payload s = (false, s') ∧ s'.Inv ∧
      absMap s' = absMap s) := by
  obtain ⟨hlen, hnew⟩ := hclean
  unfold vfsStore
  rcases vfsAlloc_cases h p with
    ⟨i, he, hi, hu, hp⟩ | ⟨hnone, hfree, i, s₁, he, hinv, hi, hnode, hmap⟩ | ⟨-, he⟩
  · rw [he, ← hp]
    exact vfsStoreAt_spec h hi hu kmalloc₁ kmalloc₂ hlen
  · obtain ⟨hok, hmem⟩ := hnew hnone hfree
    subst hok
    have hu : (s₁.files i).used = true := by rw [hnode]
    have hp : (s₁.files i).path = vfsNormalizePath p := by rw [hnode]
    have hdone := vfsStoreAt_new hnode hlen hmem
    rw [he]
    rcases vfsStoreAt_spec hinv hi hu true kmalloc₂ hlen with ⟨s', hs, hinv', hmap'⟩ | ⟨s', hs, -⟩
    · refine .inl ⟨s', hs, hinv', ?_⟩
      rw [hmap', hmap, hp, update_idem]
    · rw [hs] at hdone
      cases hdone
  · rw [he]
    exact .inr ⟨s, rfl, h, rfl⟩

theorem vfsStore_new (h : s.Inv) (hclean : cleanStore kmalloc₁ kmalloc₂ p payload s)
    (hnone : vfsFind s p = none) (hfree : ∃ i < vfsMaxFiles, (s.files i).used = false) :
    (vfsStore kmalloc₁ kmalloc₂ p payload s).1 = true := by
  obtain ⟨hlen, hnew⟩ := hclean
  obtain ⟨hok, hmem⟩ := hnew hnone hfree
  subst hok
  unfold vfsStore
  rcases vfsAlloc_cases h p with ⟨i, -, hi, hu, hp⟩ | ⟨-, -, i, s₁, he, -, -, hnode, -⟩ | ⟨hall, -⟩
  · exact absurd (by rw [Vfs.view_of_used hu, hp]) (vfsFind_eq_none hnone i hi _)
  · rw [he]
    exact vfsStoreAt_new hnode hlen hmem
  · obtain ⟨i, hi, hu⟩ := hfree
    rw [hall i hi] at hu
    cases hu

/-- The node can be given `n` bytes: it is or becomes writable, and has or gets the room. -/
def VfsFile.takes (ok₁ ok₂ : Bool) (n : ℕ) (f : VfsFile) : Bool :=
  (vfsPromoteWritable ok₁ f).any fun g => (vfsEnsureRwCapacity ok₂ g (n + 1)).isSome

theorem vfsStore_fst (hf : vfsFind s p = some i) (ok₁ ok₂ : Bool) (hlen : payload.length < vfsRwMax) :
    (vfsStore ok₁ ok₂ p payload s).1 = (s.files i).takes ok₁ ok₂ payload.length := by
  have halloc : vfsAlloc s p = (some i, s) := by
    have hnorm : vfsFind s (vfsNormalizePath p) = some i :=
      (congrArg (vfsSlotOf s) (vfsNormalizePath_idem p)).trans hf
    unfold vfsAlloc
    rw [hnorm]
  have hfull : storeLen payload = payload.length := if_neg (Nat.not_le.2 hlen)
  simp only [vfsStore, halloc, vfsStoreAt, hfull, VfsFile.takes]
  cases vfsPromoteWritable ok₁ (s.files i) with
  | none => rfl
  | some g =>
    simp only [any_some]
    cases vfsEnsureRwCapacity ok₂ g (payload.length + 1) <;> rfl

theorem VfsFile.Good.takes (hf : f.Good) (hsize : f.roData.length < vfsRwMax) {n : ℕ}
    (hn : n < vfsRwMax) : f.takes true true n = true := by
  obtain ⟨g, hpromote⟩ : ∃ g, vfsPromoteWritable true f = some g := by
    unfold vfsPromoteWritable
    by_cases hw : f.writable = true
    · rw [if_pos hw]
      by_cases hd : f.rwData.isSome = true
      · rw [if_pos hd]
        exact ⟨_, rfl⟩
      · have hle := hf.size_le
        rw [not_isSome_iff_eq_none] at hd
        rw [VfsFile.buf, hd, getD_none, length_nil, Nat.le_zero] at hle
        rw [if_neg (by rw [hd]; decide), hle]
        exact vfsEnsureRwCapacity_isSome (by decide) (.inl rfl)
    · rw [if_neg hw, if_neg (not_le.2 hsize)]
      obtain ⟨g, hg⟩ : ∃ g, vfsEnsureRwCapacity true f (f.roData.length + 1) = some g :=
        vfsEnsureRwCapacity_isSome hsize (.inl rfl)
      rw [hg]
      exact ⟨_, rfl⟩
  obtain ⟨g', hgrow⟩ : ∃ g', vfsEnsureRwCapacity true g (n + 1) = some g' :=
    vfsEnsureRwCapacity_isSome hn (.inl rfl)
  rw [VfsFile.takes, hpromote, any_some, hgrow]
  rfl

theorem storeLen_take (payload : Bytes) :
    storeLen (payload.take (vfsRwMax - 1)) = storeLen payload := by
  have hpos : 0 < vfsRwMax := by decide
  unfold storeLen
  rw [length_take]
  split_ifs <;> omega

theorem take_storeLen (payload : Bytes) :
    (payload.take (vfsRwMax - 1)).take (storeLen payload) = payload.take (storeLen payload) := by
  have hle : storeLen payload ≤ vfsRwMax - 1 := by
    unfold storeLen
    split_ifs <;> omega
  rw [take_take, min_eq_left hle]

theorem vfsStore_cut (kmalloc₁ kmalloc₂ : Bool) (p payload : Bytes) (s : Vfs) :
    vfsStore kmalloc₁ kmalloc₂ p payload s =
      vfsStore kmalloc₁ kmalloc₂ p (payload.take (vfsRwMax - 1)) s := by
  have hlen := storeLen_take payload
  have htake := take_storeLen payload
  unfold vfsStore vfsStoreAt
  rw [hlen, htake]

theorem Vfs.Inv.setZero (h : s.Inv) (hi : i < vfsMaxFiles) (hu : (s.files i).used = true) :
    (s.set i .zero).Inv ∧
      absMap (s.set i .zero) = update (absMap s) (s.files i).path none := by
  have hview := s.view_set_zero i
  refine ⟨⟨fun j hj huj => ?_, ?_⟩, ?_⟩
  · by_cases hji : j = i
    · subst hji
      simp [Vfs.set, VfsFile.zero] at huj
    · simp only [Vfs.set, update_of_ne hji] at huj ⊢
      exact h.good j hj huj
  · rw [hview]
    exact h.keyed.erase i
  · rw [absMap, hview]
    exact toMap_erase h.keyed hi (Vfs.view_of_used hu)

/-- **Removal** deletes a path that is there, and fails for one that is not. -/
theorem vfsRemove_spec (h : s.Inv) (p : Bytes) :
    (∃ i s', vfsFind s p = some i ∧ vfsRemove p s = (true, s') ∧ s'.Inv ∧
      s'.files = update s.files i .zero ∧
      absMap s' = update (absMap s) (vfsNormalizePath p) none) ∨
    (absMap s (vfsNormalizePath p) = none ∧ vfsRemove p s = (false, s)) := by
  unfold vfsRemove
  cases hf : vfsFind s p with
  | none => exact .inr ⟨toMap_eq_none.2 (vfsFind_eq_none hf), rfl⟩
  | some i =>
    obtain ⟨hi, hu, hp⟩ := vfsFind_eq_some hf
    obtain ⟨hinv, hmap⟩ := h.setZero hi hu
    rw [hp] at hmap
    exact .inl ⟨i, _, rfl, rfl, hinv.setCount _, rfl, hmap⟩

theorem Vfs.set_set (s : Vfs) (i : ℕ) (f g : VfsFile) : (s.set i f).set i g = s.set i g := by
  simp [Vfs.set]

theorem vfsDropTarget_spec (h : s.Inv) {dst : Bytes} (hdst : vfsNormalizePath dst = dst)
    (hne : (s.files i).path ≠ dst) :
    ∃ s', vfsDropTarget dst i s = (true, s') ∧ s'.Inv ∧ s'.files i = s.files i ∧
      absMap s' = update (absMap s) dst none := by
  unfold vfsDropTarget
  rcases vfsRemove_spec h dst with ⟨j, s', hf, hr, hinv, hfiles, hmap⟩ | ⟨hnone, hr⟩
  · have hji : j ≠ i := by
      rintro rfl
      have := (vfsFind_eq_some hf).2.2
      rw [hdst] at this
      exact hne this
    rw [hdst] at hmap
    rw [hf]
    refine ⟨s', ?_, hinv, ?_, hmap⟩
    · simp only [if_neg hji, hr]
    · rw [hfiles, update_of_ne hji.symm]
  · rw [hdst] at hnone
    have hf : vfsFind s dst = none := by
      cases hf : vfsFind s dst with
      | none => rfl
      | some j =>
        obtain ⟨hj, hu, hp⟩ := vfsFind_eq_some hf
        rw [hdst] at hp
        exact absurd (by rw [Vfs.view_of_used hu, hp]) (toMap_eq_none.1 hnone j hj _)
    rw [hf]
    exact ⟨s, rfl, h, rfl, by rw [← hnone, update_eq_self]⟩

/-- **Renaming** moves the bytes of a path that is there, over those of the target, and fails
for a path that is not. -/
theorem vfsRename_spec (h : s.Inv) (src dst : Bytes)
    (hne : vfsNormalizePath src ≠ vfsNormalizePath dst) :
    (∃ s' v, vfsRename src dst s = (true, s') ∧ s'.Inv ∧
      absMap s (vfsNormalizePath src) = some v ∧
      absMap s' = update (update (absMap s) (vfsNormalizePath src) none)
        (vfsNormalizePath dst) (some v)) ∨
    (absMap s (vfsNormalizePath src) = none ∧ vfsRename src dst s = (false, s)) := by
  have hfind : vfsFind s (vfsNormalizePath src) = vfsFind s src :=
    congrArg (vfsSlotOf s) (vfsNormalizePath_idem src)
  simp only [vfsRename, if_neg hne]
  rw [hfind]
  cases hf : vfsFind s src with
  | none => exact .inr ⟨toMap_eq_none.2 (vfsFind_eq_none hf), rfl⟩
  | some i =>
    obtain ⟨hi, hu, hp⟩ := vfsFind_eq_some hf
    obtain ⟨s₁, hdrop, hinv₁, hfile, hmap₁⟩ :=
      vfsDropTarget_spec h (vfsNormalizePath_idem dst) (by rw [hp]; exact hne)
    have hu₁ : (s₁.files i).used = true := by rw [hfile, hu]
    obtain ⟨hinv₂, hmap₂⟩ := hinv₁.setZero hi hu₁
    obtain ⟨f, hfdef⟩ : ∃ f, f = { s₁.files i with path := vfsNormalizePath dst } := ⟨_, rfl⟩
    rw [hmap₁, hfile, hp] at hmap₂
    have hgone : absMap (s₁.set i .zero) (vfsNormalizePath dst) = none := by
      rw [hmap₂, update_of_ne hne.symm, update_self]
    have hplace : (s₁.set i .zero).Place i f.path := by
      rw [hfdef]
      refine ⟨hi, fun j hj v hv => absurd hv (toMap_eq_none.1 hgone j hj v), fun e he => ?_⟩
      rw [Vfs.view_set_zero, update_self] at he
      cases he
    have hgood := h.good i hi hu
    rw [← hfile] at hgood
    have hf : f.Good := by
      rw [hfdef]
      exact ⟨vfsNormalizePath_idem dst, hgood.readOnly, hgood.size_le⟩
    obtain ⟨hinv₃, hmap₃, -⟩ := hinv₂.set hplace hf (by rw [hfdef]; exact hu₁)
    rw [Vfs.set_set] at hinv₃ hmap₃
    refine .inl ⟨s₁.set i f, (s.files i).contents, ?_, hinv₃, ?_, ?_⟩
    · rw [hfdef]
      simp only [hdrop]
    · refine (toMap_eq_some h.keyed).2 ⟨i, hi, ?_⟩
      rw [Vfs.view_of_used hu, hp]
    · have hcont : f.contents = (s.files i).contents := by rw [hfdef, ← hfile]; rfl
      rw [hmap₃, hmap₂, hcont, hfdef]
      simp only
      rw [update_comm hne, update_idem, update_comm hne.symm]

theorem Vfs.Inv.mount (h : s.Inv) (hi : i < vfsMaxFiles) (hu : (s.files i).used = true) (data : Bytes) :
    (s.set i ((s.files i).mounted data)).Inv ∧ absMap (s.set i ((s.files i).mounted data)) =
      update (absMap s) (s.files i).path (some data) := by
  have hv := Vfs.view_of_used hu
  have hplace : s.Place i ((s.files i).mounted data).path := by
    refine ⟨hi, h.keyed.onlyAt hi hv, fun e he => ?_⟩
    rw [hv] at he
    obtain rfl := some.inj he
    rfl
  have hgood : ((s.files i).mounted data).Good :=
    ⟨(h.good i hi hu).path_eq, fun _ => rfl, Nat.zero_le _⟩
  obtain ⟨hinv, hmap, -⟩ := h.set hplace hgood hu
  exact ⟨hinv, hmap⟩

/-- **Mounting** a file puts its data under its path, unless the table is full. -/
theorem vfsMountFile_spec (h : s.Inv) (path data : Bytes) :
    (∃ s', vfsMountFile path data s = (true, s') ∧ s'.Inv ∧
      absMap s' = update (absMap s) (vfsNormalizePath path) (some data)) ∨
    vfsMountFile path data s = (false, s) := by
  unfold vfsMountFile
  rcases vfsAlloc_cases h path with
    ⟨i, he, hi, hu, hp⟩ | ⟨-, -, i, s₁, he, hinv, hi, hnode, hmap⟩ | ⟨-, he⟩
  · obtain ⟨hinv', hmap'⟩ := h.mount hi hu data
    rw [hp] at hmap'
    exact .inl ⟨_, by rw [he], hinv', hmap'⟩
  · obtain ⟨hinv', hmap'⟩ := hinv.mount hi (by rw [hnode]) data
    have hp : (s₁.files i).path = vfsNormalizePath path := by rw [hnode]
    rw [hp, hmap, update_idem] at hmap'
    exact .inl ⟨_, by rw [he], hinv', hmap'⟩
  · exact .inr (by rw [he])

end Ridux
