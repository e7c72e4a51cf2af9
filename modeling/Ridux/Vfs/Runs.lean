import Ridux.Vfs.Refine

/-!
# Runs of the file system

A run of the file operations beside the map that their callers keep in mind: an operation that
reports success changes the map as its name says, one that reports failure does not.

* `VfsTrace.Faithful`: every read returns what the map says;
* `vfsRun_faithful`: it holds in every state of every run of clean operations;
* `vfsRun_not_faithful`: a payload that is cut off silently breaks it.
-/

namespace Ridux

open Lib Function

/-- A map from paths, in their full normal form, to bytes. -/
abbrev FileMap := Bytes → Option Bytes

/-- A call of a file operation.  The flags answer the calls of `kmalloc` it makes. -/
inductive VfsOp
  | write (kmalloc₁ kmalloc₂ : Bool) (p text : Bytes)
  | writeBytes (kmalloc₁ kmalloc₂ : Bool) (p : Bytes) (data : Option Bytes) (size : ℕ)
  | remove (p : Bytes)
  | rename (src dst : Bytes)
  | mountFile (path data : Bytes)

/-- The call, with the result it reports. -/
def VfsOp.run : VfsOp → Vfs → Bool × Vfs
  | .write k₁ k₂ p text => vfsWrite k₁ k₂ p text
  | .writeBytes k₁ k₂ p data size => vfsWriteBytes k₁ k₂ p data size
  | .remove p => vfsRemove p
  | .rename src dst => vfsRename src dst
  | .mountFile path data => vfsMountFile path data

/-- What the caller of a successful operation expects of the map. -/
def VfsOp.effect : VfsOp → FileMap → FileMap
  | .write _ _ p text, m => update m (fullPath p) (some text)
  | .writeBytes _ _ p data size, m =>
    update m (fullPath p) (some (writePayload data size))
  | .remove p, m => update m (fullPath p) none
  | .rename src dst, m =>
    if fullPath src = fullPath dst then m
    else update (update m (fullPath src) none) (fullPath dst) (m (fullPath src))
  | .mountFile path data, m => update m (fullPath path) (some data)

/-- The file system beside the map its callers keep in mind. -/
structure VfsTrace where
  vfs : Vfs
  map : FileMap

/-- One operation: an operation that fails is expected to leave the map as it was. -/
def VfsTrace.exec (t : VfsTrace) (op : VfsOp) : VfsTrace :=
  match op.run t.vfs with
  | (true, s) => ⟨s, op.effect t.map⟩
  | (false, s) => ⟨s, t.map⟩

/-- The state after `vfs_init`. -/
def VfsTrace.init : VfsTrace := ⟨vfsInit, fun _ => none⟩

/-- Every read of a path that fits its buffer returns what the map says. -/
def VfsTrace.Faithful (t : VfsTrace) : Prop :=
  ∀ p, (fullPath p).length < vfsMaxPath → vfsRead p t.vfs = t.map (fullPath p)

/-- A path that is not cut to the buffer. -/
def PathFits (p : Bytes) : Prop := (fullPath p).length < vfsMaxPath

instance : DecidablePred PathFits := fun _ => inferInstanceAs (Decidable (_ < _))

/-- The operations that cut nothing off and do not run out of memory with a new node taken. -/
def VfsTrace.Clean (t : VfsTrace) : VfsOp → Prop
  | .write k₁ k₂ p text => PathFits p ∧ cleanStore k₁ k₂ p text t.vfs
  | .writeBytes k₁ k₂ p data size => PathFits p ∧ cleanStore k₁ k₂ p (writePayload data size) t.vfs
  | .remove p => PathFits p
  | .rename src dst => PathFits src ∧ PathFits dst
  | .mountFile path _ => PathFits path

/-- The table is well formed and stores the map. -/
structure VfsTrace.Refines (t : VfsTrace) : Prop where
  inv : t.vfs.Inv
  map_eq : absMap t.vfs = t.map

theorem VfsTrace.Refines.faithful {t : VfsTrace} (h : t.Refines) : t.Faithful := by
  intro p hp
  rw [vfsRead_eq h.inv, h.map_eq, vfsNormalizePath_of_short hp]

theorem VfsTrace.init_refines : VfsTrace.init.Refines where
  inv := ⟨fun i _ hu => Bool.noConfusion hu, fun i _ j _ k v w hv => by cases hv⟩
  map_eq := by
    funext k
    exact toMap_eq_none.2 fun i _ v hv => by cases hv

theorem VfsTrace.Refines.exec {t : VfsTrace} (h : t.Refines) {op : VfsOp} (hop : t.Clean op) :
    (t.exec op).Refines := by
  -- the two ends of an operation: done as expected, or failed without a change
  have hdone : ∀ s', op.run t.vfs = (true, s') → s'.Inv → absMap s' = op.effect t.map →
      (t.exec op).Refines := by
    intro s' hr hinv hmap
    rw [VfsTrace.exec, hr]
    exact ⟨hinv, hmap⟩
  have hfailed : ∀ s', op.run t.vfs = (false, s') → s'.Inv → absMap s' = absMap t.vfs →
      (t.exec op).Refines := by
    intro s' hr hinv hmap
    rw [VfsTrace.exec, hr]
    exact ⟨hinv, hmap.trans h.map_eq⟩
  cases op with
  | write k₁ k₂ p text =>
    obtain ⟨hp, hclean⟩ := hop
    rcases vfsStore_spec h.inv hclean with ⟨s', hr, hinv, hmap⟩ | ⟨s', hr, hinv, hmap⟩
    · refine hdone s' hr hinv ?_
      rw [hmap, h.map_eq, vfsNormalizePath_of_short hp]
      rfl
    · exact hfailed s' hr hinv hmap
  | writeBytes k₁ k₂ p data size =>
    obtain ⟨hp, hclean⟩ := hop
    rcases vfsStore_spec h.inv hclean with ⟨s', hr, hinv, hmap⟩ | ⟨s', hr, hinv, hmap⟩
    · refine hdone s' hr hinv ?_
      rw [hmap, h.map_eq, vfsNormalizePath_of_short hp]
      rfl
    · exact hfailed s' hr hinv hmap
  | remove p =>
    rcases vfsRemove_spec h.inv p with ⟨i, s', -, hr, hinv, -, hmap⟩ | ⟨-, hr⟩
    · refine hdone s' hr hinv ?_
      rw [hmap, h.map_eq, vfsNormalizePath_of_short hop]
      rfl
    · exact hfailed _ hr h.inv rfl
  | rename src dst =>
    obtain ⟨hsrc, hdst⟩ := hop
    by_cases he : vfsNormalizePath src = vfsNormalizePath dst
    · refine hdone t.vfs ?_ h.inv ?_
      · simp only [VfsOp.run, vfsRename, if_pos he]
      · rw [vfsNormalizePath_of_short hsrc, vfsNormalizePath_of_short hdst] at he
        rw [h.map_eq, VfsOp.effect, if_pos he]
    · rcases vfsRename_spec h.inv src dst he with ⟨s', v, hr, hinv, hv, hmap⟩ | ⟨-, hr⟩
      · refine hdone s' hr hinv ?_
        rw [vfsNormalizePath_of_short hsrc, vfsNormalizePath_of_short hdst, h.map_eq] at *
        rw [hmap, VfsOp.effect, if_neg he, hv]
      · exact hfailed _ hr h.inv rfl
  | mountFile path data =>
    rcases vfsMountFile_spec h.inv path data with ⟨s', hr, hinv, hmap⟩ | hr
    · refine hdone s' hr hinv ?_
      rw [hmap, h.map_eq, vfsNormalizePath_of_short hop]
      rfl
    · exact hfailed _ hr h.inv rfl

/-- **The file system refines a finite map.**  In every state of every run of clean operations
from `vfs_init`, reads return what the map says. -/
theorem vfsRun_faithful {t : VfsTrace}
    (hrun : Runs VfsTrace.Clean VfsTrace.exec VfsTrace.init t) : t.Faithful :=
  (Runs.invariant (P := VfsTrace.Refines) (fun _ _ h hop => h.exec hop) hrun
    VfsTrace.init_refines).faithful

/-- A write of two bytes to a new file. -/
def sampleWrite : VfsOp := .write true true [slash, 97] [1, 2]

theorem sampleWrite_clean : VfsTrace.init.Clean sampleWrite :=
  ⟨by decide, by decide, fun _ _ => ⟨rfl, .inl (by decide)⟩⟩

theorem sampleWrite_run :
    Runs VfsTrace.Clean VfsTrace.exec VfsTrace.init (VfsTrace.init.exec sampleWrite) :=
  (Runs.refl _).tail sampleWrite sampleWrite_clean

theorem vfsRun_faithful_sample : (VfsTrace.init.exec sampleWrite).Faithful :=
  vfsRun_faithful sampleWrite_run

/-- A write of `VFS_RW_MAX` bytes to a new file reports success and stores one byte less. -/
theorem vfsRun_not_faithful :
    ¬ ∀ t, Runs (fun _ _ => True) VfsTrace.exec VfsTrace.init t → t.Faithful := by
  intro hall
  obtain ⟨payload, hpay⟩ : ∃ l : Bytes, l = List.replicate vfsRwMax 0 := ⟨_, rfl⟩
  have hlen : payload.length = vfsRwMax := by rw [hpay, List.length_replicate]
  have hinit := VfsTrace.init_refines
  have hnone : vfsFind vfsInit [slash] = none := by
    cases hf : vfsFind vfsInit [slash] with
    | none => rfl
    | some i => exact absurd (vfsFind_eq_some hf).2.1 Bool.false_ne_true
  have hcut : (payload.take (vfsRwMax - 1)).length < vfsRwMax := by
    rw [List.length_take, hlen]
    decide
  have hclean : cleanStore true true [slash] (payload.take (vfsRwMax - 1)) vfsInit :=
    ⟨hcut, fun _ _ => ⟨rfl, .inr rfl⟩⟩
  have hok := vfsStore_new hinit.inv hclean hnone ⟨0, by decide, rfl⟩
  have hfaith := hall _ ((Runs.refl _).tail (.write true true [slash] payload) trivial) [slash]
    (by decide)
  rcases vfsStore_spec hinit.inv hclean with ⟨s', hr, hinv, hmap⟩ | ⟨s', hr, -⟩
  · have hexec : VfsTrace.init.exec (.write true true [slash] payload) =
        ⟨s', update (fun _ => none) (fullPath [slash]) (some payload)⟩ := by
      have hrun : (VfsOp.write true true [slash] payload).run VfsTrace.init.vfs = (true, s') :=
        (vfsStore_cut true true [slash] payload vfsInit).trans hr
      rw [VfsTrace.exec, hrun]
      rfl
    rw [hexec] at hfaith
    simp only [update_self] at hfaith
    rw [vfsRead_eq hinv, hmap, update_self] at hfaith
    rw [Option.some.inj hfaith, hlen] at hcut
    omega
  · rw [hr] at hok
    cases hok

end Ridux
