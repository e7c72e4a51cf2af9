import Ridux.Fd.Open
import Ridux.Fd.Position

/-!
# What is left of a call that failed

A failed `open` or `pipe` gives nothing back of what it took before its error, but for the descriptor of a
file of `/proc`.

* `NothingLeft`: no entry of a table was taken, and the files are as before;
* `SlotFree`, `FdFree`, `TrackFree`, `NewFile`, `Stores`: what the tables have for a call;
* `OpenTables.Leaks`: the calls that fail with something taken, for each kind of file;
* `openSlot_nothing_iff`: what is left by a call that ends with a slot and a descriptor;
* `failed_call_leaves_nothing`: a failed call leaves nothing, unless it is one of these.
-/

namespace Ridux

open Lib Function Option

namespace OpenTables

/-- The size of a file that has one of its own. -/
def memfdSize (s : OpenTables) (path : Bytes) : Option (BitVec 64) :=
  (s.memfdTrackFind path).map fun i => (s.memfds i).size

/-- The call took no descriptor, no slot, no pipe and no buffer, made no file, and cut none. -/
@[mk_iff nothingLeft_iff]
structure NothingLeft (s s' : OpenTables) : Prop where
  fds : ∀ i fd, fdValid (s'.tasks.task i) fd = true → fdValid (s.tasks.task i) fd = true
  slots : ∀ i, s.slots i = none → s'.slots i = none
  pipes : ∀ i, (s.pipes i).used = false → (s'.pipes i).used = false
  buffers : ∀ i, s.procBufs i = false → s'.procBufs i = false
  files : absMap s'.vfs = absMap s.vfs
  sizes : s'.memfdSize = s.memfdSize

/-- A step that leaves descriptors, slots, pipes and buffers alone. -/
structure OnlyFiles (s s' : OpenTables) : Prop where
  tasks : s'.tasks = s.tasks
  slots : s'.slots = s.slots
  pipes : s'.pipes = s.pipes
  procBufs : s'.procBufs = s.procBufs

section Conditions

variable (s : OpenTables) (env : OpenEnv) (cur : ℕ) (p : Bytes)

/-- An open slot is free. -/
def SlotFree : Prop := ∃ i < openMaxFiles, s.slots i = none

/-- The task has a free descriptor. -/
def FdFree : Prop := (s.tasks.freeFd cur 0).isSome = true

/-- The task has two free descriptors. -/
def TwoFds : Prop := ∃ fd, s.tasks.freeFd cur 0 = some fd ∧ (s.tasks.freeFd cur (fd + 1)).isSome = true

/-- The file has a size of its own, or can get one. -/
def TrackFree : Prop :=
  p ≠ [] ∧ ((s.memfdTrackFind p).isSome = true ∨ ∃ i < c3MemfdTrackMax, (s.memfds i).used = false)

/-- The path is in no node, and a node is free. -/
def NewFile : Prop := vfsFind s.vfs p = none ∧ ∃ i < vfsMaxFiles, (s.vfs.files i).used = false

/-- A write of no bytes at the path succeeds. -/
def Stores : Prop :=
  (∃ i, vfsFind s.vfs p = some i ∧ (s.vfs.files i).takes env.ok₁ env.ok₂ 0 = true) ∨
    s.NewFile p ∧ env.ok₁ = true

/-- The file of the path has bytes. -/
def HasBytes : Prop := ∃ data, vfsRead p s.vfs = some data ∧ data ≠ []

/-- The calls that fail and have taken something, for each kind of file. -/
def Leaks : OpenCase → Prop
  | .share _ _ => False
  | .dev _ _ => False
  | .memfd _ => s.SlotFree ∧ ¬ s.FdFree cur
  | .slot _ _ _ => s.SlotFree ∧ ¬ s.FdFree cur
  | .file _ => s.SlotFree ∧ ¬ s.FdFree cur
  | .sparse p =>
    ¬ (s.SlotFree ∧ s.FdFree cur) ∧ s.TrackFree p ∧ (s.memfdTrackFind p = none ∨ s.SlotFree)
  | .create p => ¬ (s.SlotFree ∧ s.FdFree cur) ∧ (s.NewFile p ∨ s.SlotFree)
  | .tmpfile =>
    let p := s.tmpfileName cur
    ¬ (s.Stores env p ∧ s.TrackFree p ∧ s.SlotFree ∧ s.FdFree cur) ∧
      (s.NewFile p ∨ s.Stores env p ∧
        (s.HasBytes p ∨ s.TrackFree p ∧ (s.memfdTrackFind p = none ∨ s.SlotFree)))

end Conditions

variable {s s₁ : OpenTables} {env : OpenEnv} {cur fd j : ℕ} {p : Bytes} {ts : Tasks} {t : Task}

theorem OnlyFiles.refl (s : OpenTables) : OnlyFiles s s := ⟨rfl, rfl, rfl, rfl⟩

theorem OnlyFiles.trans {s₂ : OpenTables} (h : OnlyFiles s s₁) (h' : OnlyFiles s₁ s₂) : OnlyFiles s s₂ :=
  ⟨h'.tasks.trans h.tasks, h'.slots.trans h.slots, h'.pipes.trans h.pipes, h'.procBufs.trans h.procBufs⟩

theorem NothingLeft.refl (s : OpenTables) : NothingLeft s s :=
  ⟨fun _ _ h => h, fun _ h => h, fun _ h => h, fun _ h => h, rfl, rfl⟩

theorem OnlyFiles.nothingLeft_iff (h : OnlyFiles s s₁) :
    NothingLeft s s₁ ↔ absMap s₁.vfs = absMap s.vfs ∧ s₁.memfdSize = s.memfdSize := by
  rw [OpenTables.nothingLeft_iff, h.tasks, h.slots, h.pipes, h.procBufs]
  simp only [imp_self, implies_true, true_and]

/-! ### Slots and descriptors -/

theorem openFd_cases (s : OpenTables) (cur : ℕ) (kind : FdKind) (ref : ℕ) (fl : BitVec 16) :
    ¬ s.FdFree cur ∧ s.openFd cur kind ref fl = (.error .emfile, s) ∨
      ∃ fd, s.tasks.freeFd cur 0 = some fd ∧ s.openFd cur kind ref fl =
        (.ok fd, { s with tasks := s.tasks.installFd cur fd ⟨kind, ref, fl, 0⟩ }) := by
  unfold FdFree openFd Tasks.c3FdAllocForTask
  cases h : s.tasks.freeFd cur 0 with
  | none => exact .inl ⟨Bool.false_ne_true, rfl⟩
  | some fd => exact .inr ⟨fd, rfl, rfl⟩

theorem openSlot_cases (s : OpenTables) (cur : ℕ) (kind : FdKind) (path : Bytes) (fl : BitVec 16) :
    ¬ s.SlotFree ∧ s.openSlot cur kind path fl = (.error .emfile, s) ∨
      ∃ i, i < openMaxFiles ∧ s.slots i = none ∧
        (¬ s.FdFree cur ∧ s.openSlot cur kind path fl =
            (.error .emfile, { s with slots := update s.slots i (some path) }) ∨
          s.FdFree cur ∧ ∃ fd, (s.openSlot cur kind path fl).1 = .ok fd) := by
  unfold openSlot c3VfsOpenSlotAlloc
  cases h : freeSlot s.slots openMaxFiles with
  | none =>
    refine .inl ⟨?_, rfl⟩
    rintro ⟨i, hi, hnone⟩
    exact freeSlot_eq_none h i hi hnone
  | some i =>
    obtain ⟨hi, hnone⟩ := freeSlot_eq_some h
    refine .inr ⟨i, hi, hnone, ?_⟩
    simp only
    rcases openFd_cases { s with slots := update s.slots i (some path) } cur kind i fl with
      ⟨hno, heq⟩ | ⟨fd, hfd, heq⟩
    · exact .inl ⟨hno, heq⟩
    · refine .inr ⟨?_, fd, by rw [heq]⟩
      unfold FdFree
      rw [show s.tasks.freeFd cur 0 = some fd from hfd]
      rfl

/-- **The end of most calls**: a slot and a descriptor, after a step on the files. -/
theorem openSlot_nothing_iff (h : OnlyFiles s s₁) (kind : FdKind) (path : Bytes) (fl : BitVec 16) :
    (∀ e, (s₁.openSlot cur kind path fl).1 = .error e → NothingLeft s (s₁.openSlot cur kind path fl).2) ↔
      s.SlotFree ∧ s.FdFree cur ∨ ¬ s.SlotFree ∧ absMap s₁.vfs = absMap s.vfs ∧ s₁.memfdSize = s.memfdSize := by
  have hslot : s₁.SlotFree ↔ s.SlotFree := by
    unfold SlotFree
    rw [h.slots]
  have hfd : s₁.FdFree cur ↔ s.FdFree cur := by
    unfold FdFree
    rw [h.tasks]
  rw [← hslot, ← hfd]
  rcases openSlot_cases s₁ cur kind path fl with ⟨hno, heq⟩ | ⟨i, hi, hnone, ⟨hno, heq⟩ | ⟨hyes, fd, heq⟩⟩
  · rw [heq, ← h.nothingLeft_iff]
    simp only [hno, false_and, false_or, not_false_eq_true, true_and]
    exact ⟨fun hall => hall _ rfl, fun hleft _ _ => hleft⟩
  · -- the slot is used now
    have hfree : s₁.SlotFree := ⟨i, hi, hnone⟩
    rw [heq]
    constructor
    · intro hall
      have hslots := (hall _ rfl).slots i (by rw [← h.slots, hnone])
      simp only [update_self] at hslots
      cases hslots
    · rintro (⟨-, hyes⟩ | ⟨hfull, -⟩)
      · exact absurd hyes hno
      · exact absurd hfree hfull
  · rw [heq]
    refine ⟨fun _ => .inl ⟨⟨i, hi, hnone⟩, hyes⟩, fun _ e he => ?_⟩
    cases he

/-! ### Files -/

theorem onlyFiles_kvfsEmpty (s : OpenTables) (env : OpenEnv) (p : Bytes) :
    OnlyFiles s (s.kvfsEmpty env p).2 := ⟨rfl, rfl, rfl, rfl⟩

theorem noBuffer (f : VfsFile) (hf : f.rwData = none) (need : ℕ) : vfsEnsureRwCapacity false f need = none := by
  unfold vfsEnsureRwCapacity
  rw [hf]
  split_ifs <;> simp_all

theorem kvfsEmpty_fst_iff (hs : s.vfs.Inv) (env : OpenEnv) (p : Bytes) :
    (s.kvfsEmpty env p).1 = true ↔ s.Stores env p := by
  unfold kvfsEmpty vfsWrite Stores
  simp only
  cases hf : vfsFind s.vfs p with
  | some i =>
    rw [vfsStore_fst hf env.ok₁ env.ok₂ (by decide)]
    simp [NewFile, hf]
  | none =>
    have hnew : s.NewFile p ↔ ∃ i < vfsMaxFiles, (s.vfs.files i).used = false := by simp [NewFile, hf]
    simp only [hnew, reduceCtorEq, false_and, exists_false, false_or]
    unfold vfsStore
    rcases vfsAlloc_cases hs p with
      ⟨i, -, hi, hu, hp⟩ | ⟨-, hfree, i, v, he, -, -, hnode, -⟩ | ⟨hall, he⟩
    · exact absurd (by rw [Vfs.view_of_used hu, hp]) (vfsFind_eq_none hf i hi _)
    · rw [he]
      simp only [hfree, true_and]
      cases hok : env.ok₁ with
      | true => exact iff_of_true (vfsStoreAt_new hnode (by decide) (.inl (by decide))) rfl
      | false =>
        -- the new node gets no buffer
        have hdata : (v.files i).rwData = none := by rw [hnode]
        have hno : vfsPromoteWritable false (v.files i) = none := by
          unfold vfsPromoteWritable
          rw [hdata, noBuffer _ hdata]
          rw [hnode]
          rfl
        simp only [vfsStoreAt, hno]
    · rw [he]
      simp only [Bool.false_eq_true, false_iff, not_and]
      rintro ⟨i, hi, hu⟩
      rw [hall i hi] at hu
      cases hu

theorem kvfsEmpty_files_iff (hs : s.vfs.Inv) (env : OpenEnv) (p : Bytes) :
    absMap (s.kvfsEmpty env p).2.vfs = absMap s.vfs ↔ ¬ (s.NewFile p ∨ s.Stores env p ∧ s.HasBytes p) := by
  have hfst := kvfsEmpty_fst_iff hs env p
  have hbytes : s.HasBytes p ↔ ∃ data, absMap s.vfs (vfsNormalizePath p) = some data ∧ data ≠ [] := by
    unfold HasBytes
    rw [vfsRead_eq hs]
  rw [← hfst, hbytes]
  unfold kvfsEmpty vfsWrite vfsStore
  simp only
  rcases vfsAlloc_cases hs p with
    ⟨i, he, hi, hu, hp⟩ | ⟨hnone, hfree, i, v, he, hv, hi, hnode, hmap⟩ | ⟨hall, he⟩
  · -- the path has a file
    have hno : ¬ s.NewFile p := fun hnew =>
      vfsFind_eq_none hnew.1 i hi _ (by rw [Vfs.view_of_used hu, hp])
    have hold : absMap s.vfs (vfsNormalizePath p) = some (s.vfs.files i).contents :=
      (toMap_eq_some hs.keyed).2 ⟨i, hi, by rw [Vfs.view_of_used hu, hp]⟩
    rw [he, hold]
    rcases vfsStoreAt_spec hs hi hu env.ok₁ env.ok₂ (show ([] : Bytes).length < vfsRwMax by decide) with
      ⟨v, hr, -, hm⟩ | ⟨v, hr, -, hm⟩
    · simp only [hr]
      rw [hm, hp, update_eq_self_iff, hold]
      constructor
      · rintro hempty (hnew | ⟨-, data, hdata, hne⟩)
        · exact hno hnew
        · exact hne ((some.inj hdata).symm.trans (some.inj hempty).symm)
      · intro hnot
        by_contra hne
        exact hnot (.inr ⟨trivial, _, rfl, fun h => hne (by rw [h])⟩)
    · simp only [hr]
      refine ⟨fun _ => ?_, fun _ => hm⟩
      rintro (hnew | ⟨hfalse, -⟩)
      · exact hno hnew
      · cases hfalse
  · -- the path gets a node
    have hold : absMap s.vfs (vfsNormalizePath p) = none := toMap_eq_none.2 (vfsFind_eq_none hnone)
    have hu : (v.files i).used = true := by rw [hnode]
    have hgot : absMap (vfsStoreAt env.ok₁ env.ok₂ [] i v).2 (vfsNormalizePath p) = some [] := by
      rcases vfsStoreAt_spec hv hi hu env.ok₁ env.ok₂ (show ([] : Bytes).length < vfsRwMax by decide) with
        ⟨w, hr, -, hm⟩ | ⟨w, hr, -, hm⟩
      · rw [hr, hm, hnode, update_self]
      · rw [hr, hm, hmap, update_self]
    rw [he]
    refine iff_of_false (fun hsame => ?_) fun hnot => hnot (.inl ⟨hnone, hfree⟩)
    rw [hsame, hold] at hgot
    cases hgot
  · -- all nodes are used
    rw [he]
    refine ⟨fun _ => ?_, fun _ => rfl⟩
    rintro (⟨-, i, hi, hu⟩ | ⟨hfalse, -⟩)
    · rw [hall i hi] at hu
      cases hu
    · cases hfalse

theorem memfdSize_congr {m : ℕ → MemfdTrack} (h : ∀ i, (m i).used = (s.memfds i).used ∧
    (m i).path = (s.memfds i).path ∧ (m i).size = (s.memfds i).size) :
    memfdSize { s with memfds := m } = s.memfdSize := by
  funext q
  unfold memfdSize memfdTrackFind
  simp only [fun i => (h i).1, fun i => (h i).2.1, fun i => (h i).2.2]

theorem memfdTrackSet_cases (s : OpenTables) (p : Bytes) (seals : BitVec 32) :
    ¬ s.TrackFree p ∧ s.memfdTrackSet p seals = (false, s) ∨
      s.TrackFree p ∧ ∃ m, s.memfdTrackSet p seals = (true, { s with memfds := m }) ∧
        (memfdSize { s with memfds := m } = s.memfdSize ↔ s.memfdTrackFind p ≠ none) := by
  unfold memfdTrackSet TrackFree
  by_cases hp : p = []
  · rw [if_pos hp]
    exact .inl ⟨fun h => h.1 hp, rfl⟩
  rw [if_neg hp]
  cases hf : s.memfdTrackFind p with
  | some i =>
    refine .inr ⟨⟨hp, .inl rfl⟩, _, rfl, ?_⟩
    simp only [ne_eq, reduceCtorEq, not_false_eq_true, iff_true]
    refine memfdSize_congr fun j => ?_
    by_cases hj : j = i
    · rw [hj, update_self]
      exact ⟨rfl, rfl, rfl⟩
    · rw [update_of_ne hj]
      exact ⟨rfl, rfl, rfl⟩
  | none =>
    cases hfree : firstSlot (fun i => !(s.memfds i).used) c3MemfdTrackMax with
    | none =>
      refine .inl ⟨?_, rfl⟩
      rintro ⟨-, hsome | ⟨i, hi, hu⟩⟩
      · cases hsome
      · have := firstSlot_eq_none hfree i hi
        rw [hu] at this
        cases this
    | some i =>
      obtain ⟨hi, hu⟩ := firstSlot_eq_some hfree
      refine .inr ⟨⟨hp, .inr ⟨i, hi, by simpa using hu⟩⟩, _, rfl, ?_⟩
      simp only [ne_eq, not_true_eq_false, iff_false]
      intro hsame
      have hold : s.memfdSize p = none := by rw [memfdSize, hf, map_none]
      rw [← hsame] at hold
      unfold memfdSize memfdTrackFind at hold
      rw [if_neg hp, map_eq_none_iff] at hold
      have := firstSlot_eq_none hold i hi
      simp at this

theorem onlyFiles_memfds (s : OpenTables) (m : ℕ → MemfdTrack) : OnlyFiles s { s with memfds := m } :=
  ⟨rfl, rfl, rfl, rfl⟩

/-! ### The kinds of files -/

theorem openFd_nothing (s : OpenTables) (cur : ℕ) (kind : FdKind) (ref : ℕ) (fl : BitVec 16) {e : OpenErrno}
    (he : (s.openFd cur kind ref fl).1 = .error e) : NothingLeft s (s.openFd cur kind ref fl).2 := by
  rcases openFd_cases s cur kind ref fl with ⟨-, heq⟩ | ⟨fd, -, heq⟩
  · rw [heq]
    exact .refl s
  · rw [heq] at he
    cases he

theorem fdValid_fdClose (h : fdValid (fdClose t fd) j = true) : j ≠ fd ∧ fdValid t j = true := by
  unfold fdClose at h
  split_ifs at h with hv
  · rw [fdValid_iff] at h ⊢
    by_cases hj : j = fd
    · have hempty : (t.setFd fd .empty).fds fd = .empty := update_self ..
      rw [hj, hempty] at h
      exact absurd rfl h.2
    · refine ⟨hj, h.1, ?_⟩
      rw [← congrArg Fd.kind (update_of_ne hj Fd.empty t.fds)]
      exact h.2
  · refine ⟨?_, h⟩
    rintro rfl
    exact hv h

theorem fdValid_setFd (hj : j ≠ fd) (x : Fd) : fdValid (t.setFd fd x) j = fdValid t j := by
  unfold fdValid Task.setFd
  simp only
  rw [update_of_ne hj]

theorem clear_installFd (hcur : cur < taskMax) (hu : (ts.task cur).used = true) (hfd : fd < taskFdMax)
    (x : Fd) (i j : ℕ)
    (hv : fdValid (((ts.installFd cur fd x).c3FdGroupClearFd cur fd).task i) j = true) :
    fdValid (ts.task i) j = true := by
  have htask : ∀ i, (ts.installFd cur fd x).task i =
      if i = cur ∨ i < taskMax ∧ ts.groupPeer cur i = true then (ts.task i).setFd fd x else ts.task i :=
    Tasks.installFd_task hfd x
  have hself : ((ts.installFd cur fd x).task cur) = (ts.task cur).setFd fd x := by
    rw [htask, if_pos (.inl rfl)]
  unfold Tasks.c3FdGroupClearFd Tasks.forTasks at hv
  rw [if_neg (Nat.not_le.2 hfd)] at hv
  simp only at hv
  rw [htask i, hself] at hv
  by_cases hi : i = cur ∨ i < taskMax ∧ ts.groupPeer cur i = true
  · -- the entry reached this task, and goes again
    have hcleared : i < taskMax ∧ (((ts.task i).setFd fd x).used &&
        c3FdSameGroup ((ts.task i).setFd fd x) ((ts.task cur).setFd fd x)) = true := by
      rcases hi with rfl | ⟨hi, hpeer⟩
      · refine ⟨hcur, ?_⟩
        rw [Bool.and_eq_true]
        refine ⟨hu, ?_⟩
        unfold c3FdSameGroup
        rw [decide_eq_true rfl, Bool.true_or]
      · refine ⟨hi, ?_⟩
        unfold Tasks.groupPeer Task.live at hpeer
        simp only [Bool.and_eq_true] at hpeer ⊢
        exact ⟨hpeer.1.2.1.1, hpeer.2⟩
    rw [if_pos hi, if_pos hcleared] at hv
    obtain ⟨hj, hv⟩ := fdValid_fdClose hv
    rwa [fdValid_setFd hj] at hv
  · rw [if_neg hi] at hv
    split_ifs at hv
    · exact (fdValid_fdClose hv).2
    · exact hv

theorem openDev_nothing (hcur : cur < taskMax) (hu : (s.tasks.task cur).used = true) (kind : FdKind)
    (path : Bytes) {e : OpenErrno} (he : (s.openDev env cur kind path).1 = .error e) :
    NothingLeft s (s.openDev env cur kind path).2 := by
  rcases openFd_cases s cur kind (devRefFromPath path kind) (Sys.openFlags env.flags) with
    ⟨-, heq⟩ | ⟨fd, hfd, heq⟩
  · unfold openDev
    rw [heq]
    exact .refl s
  · -- the descriptor is cleared in every case that fails
    have hclear : ∀ i j, fdValid ((((s.tasks.installFd cur fd ⟨kind, devRefFromPath path kind,
        Sys.openFlags env.flags, 0⟩).c3FdGroupClearFd cur fd).task i)) j = true →
          fdValid (s.tasks.task i) j = true :=
      clear_installFd hcur hu (firstSlot_eq_some hfd).1 _
    unfold openDev at he ⊢
    rw [heq] at he ⊢
    simp only at he ⊢
    -- only a file of `/proc` or `/sys` fails after it has its descriptor
    split_ifs at he ⊢
    cases hbuf : firstSlot (fun i => !s.procBufs i) procBufMax with
    | none => exact ⟨hclear, fun _ h => h, fun _ h => h, fun _ h => h, rfl, rfl⟩
    | some b =>
      cases hgen : env.procGenerate path with
      | some e => exact ⟨hclear, fun _ h => h, fun _ h => h, fun _ h => h, rfl, rfl⟩
      | none =>
        simp only [hbuf, hgen] at he
        cases he

theorem nothing_iff_of_like {r r' : Except OpenErrno ℕ × OpenTables}
    (h : r = r' ∨ (∃ fd, r.1 = .ok fd) ∧ ∃ fd, r'.1 = .ok fd) :
    (∀ e, r.1 = .error e → NothingLeft s r.2) ↔ ∀ e, r'.1 = .error e → NothingLeft s r'.2 := by
  rcases h with rfl | ⟨⟨fd, hfd⟩, fd', hfd'⟩
  · exact Iff.rfl
  · rw [hfd, hfd']
    exact ⟨fun _ _ he => (by cases he), fun _ _ he => (by cases he)⟩

theorem openMemfd_like (s : OpenTables) (env : OpenEnv) (cur : ℕ) (path : Bytes) :
    s.openMemfd env cur path = s.openSlot cur .vfsfile path (Sys.openFlags env.flags) ∨
      (∃ fd, (s.openMemfd env cur path).1 = .ok fd) ∧
        ∃ fd, (s.openSlot cur .vfsfile path (Sys.openFlags env.flags)).1 = .ok fd := by
  unfold openMemfd
  rcases s.openSlot cur .vfsfile path (Sys.openFlags env.flags) with ⟨e | fd, s'⟩
  · exact .inl rfl
  · exact .inr ⟨⟨fd, rfl⟩, fd, rfl⟩

theorem openFile_like (s : OpenTables) (env : OpenEnv) (cur : ℕ) (path : Bytes) :
    s.openFile env cur path = s.openSlot cur .vfsfile path (Sys.openFlags env.flags) ∨
      (∃ fd, (s.openFile env cur path).1 = .ok fd) ∧
        ∃ fd, (s.openSlot cur .vfsfile path (Sys.openFlags env.flags)).1 = .ok fd := by
  unfold openFile
  rcases s.openSlot cur .vfsfile path (Sys.openFlags env.flags) with ⟨e | fd, s'⟩
  · exact .inl rfl
  · exact .inr ⟨⟨fd, rfl⟩, fd, rfl⟩

theorem openSlot_alone_iff (s : OpenTables) (cur : ℕ) (kind : FdKind) (path : Bytes) (fl : BitVec 16) :
    (∀ e, (s.openSlot cur kind path fl).1 = .error e → NothingLeft s (s.openSlot cur kind path fl).2) ↔
      ¬ (s.SlotFree ∧ ¬ s.FdFree cur) := by
  rw [openSlot_nothing_iff (OnlyFiles.refl s)]
  tauto

theorem openSparse_iff (s : OpenTables) (env : OpenEnv) (cur : ℕ) (path : Bytes) :
    (∀ e, (s.openSparse env cur path).1 = .error e → NothingLeft s (s.openSparse env cur path).2) ↔
      ¬ s.Leaks env cur (.sparse path) := by
  unfold openSparse Leaks
  rcases memfdTrackSet_cases s path 0 with ⟨hfull, heq⟩ | ⟨hfree, m, heq, hsize⟩
  · rw [heq]
    exact ⟨fun _ h => hfull h.2.1, fun _ e _ => .refl s⟩
  · rw [heq]
    simp only
    rw [openSlot_nothing_iff (onlyFiles_memfds s m), hsize]
    simp only [hfree, true_and]
    tauto

theorem openCreate_iff (hs : s.vfs.Inv) (env : OpenEnv) (cur : ℕ) {path : Bytes}
    (hnone : vfsFind s.vfs path = none) :
    (∀ e, (s.openAs env cur (.create path)).1 = .error e →
      NothingLeft s (s.openAs env cur (.create path)).2) ↔ ¬ s.Leaks env cur (.create path) := by
  have hno : ¬ s.HasBytes path := by
    rintro ⟨data, hdata, -⟩
    rw [vfsRead, hnone] at hdata
    cases hdata
  unfold openAs Leaks
  simp only
  rw [openSlot_nothing_iff (onlyFiles_kvfsEmpty s env path), kvfsEmpty_files_iff hs]
  have hsizes : (s.kvfsEmpty env path).2.memfdSize = s.memfdSize := rfl
  simp only [hsizes, hno, and_false, or_false, and_true]
  tauto

theorem openTmpfile_iff (hs : s.vfs.Inv) (env : OpenEnv) (cur : ℕ) :
    (∀ e, (s.openTmpfile env cur).1 = .error e → NothingLeft s (s.openTmpfile env cur).2) ↔
      ¬ s.Leaks env cur .tmpfile := by
  unfold openTmpfile Leaks
  simp only
  generalize s.tmpfileName cur = p
  generalize hseq : ({ s with deletedSeq := nextSeq s.deletedSeq + 1 } : OpenTables) = s₀
  have hfst : (s₀.kvfsEmpty env p).1 = true ↔ s.Stores env p := by
    rw [← hseq]
    exact kvfsEmpty_fst_iff hs env p
  have hfiles : absMap (s₀.kvfsEmpty env p).2.vfs = absMap s.vfs ↔
      ¬ (s.NewFile p ∨ s.Stores env p ∧ s.HasBytes p) := by
    rw [← hseq]
    exact kvfsEmpty_files_iff hs env p
  have hsame : OnlyFiles s (s₀.kvfsEmpty env p).2 := by
    rw [← hseq]
    exact ⟨rfl, rfl, rfl, rfl⟩
  have hmemfds : (s₀.kvfsEmpty env p).2.memfds = s.memfds := by
    rw [← hseq]
    rfl
  generalize s₀.kvfsEmpty env p = r at hfst hfiles hsame hmemfds ⊢
  obtain ⟨ok, s₁⟩ := r
  -- the sizes are not touched before the file gets one of its own
  have hsize : s₁.memfdSize = s.memfdSize := by
    unfold memfdSize memfdTrackFind
    rw [hmemfds]
  have hfind : s₁.memfdTrackFind p = s.memfdTrackFind p := by
    unfold memfdTrackFind
    rw [hmemfds]
  have htrack : s₁.TrackFree p ↔ s.TrackFree p := by
    unfold TrackFree
    rw [hfind, hmemfds]
  cases ok with
  | false =>
    have hno : ¬ s.Stores env p := fun h => Bool.false_ne_true (hfst.2 h)
    have hleft : NothingLeft s s₁ ↔ ¬ s.NewFile p := by
      rw [hsame.nothingLeft_iff, hfiles]
      simp only [hsize, hno, false_and, or_false, and_true]
    simp only [hno, false_and, not_false_eq_true, or_false, true_and]
    rw [← hleft]
    exact ⟨fun h => h _ rfl, fun h _ _ => h⟩
  | true =>
    have hyes : s.Stores env p := hfst.1 rfl
    simp only [hyes, true_and] at hfiles ⊢
    rcases memfdTrackSet_cases s₁ p 0 with ⟨hfull, heq⟩ | ⟨hfree, m, heq, hm⟩
    · rw [htrack] at hfull
      have hleft : NothingLeft s s₁ ↔ ¬ (s.NewFile p ∨ s.HasBytes p) := by
        rw [hsame.nothingLeft_iff, hfiles]
        simp only [hsize, and_true]
      rw [heq]
      simp only [hfull, false_and, not_false_eq_true, or_false, true_and]
      rw [← hleft]
      exact ⟨fun h => h _ rfl, fun h _ _ => h⟩
    · rw [htrack] at hfree
      rw [hsize, hfind] at hm
      rw [heq]
      simp only [hfree, true_and]
      rw [openSlot_nothing_iff (hsame.trans (onlyFiles_memfds s₁ m)), hm]
      simp only [hfiles]
      tauto

theorem followedCase_create {q : Bytes} (h : s.followedCase env q = .ok (.create p)) :
    vfsFind s.vfs p = none := by
  unfold followedCase at h
  split_ifs at h <;> cases h
  exact not_isSome_iff_eq_none.1 ‹¬ (vfsFind s.vfs p).isSome = true›

theorem openCase_create (h : s.openCase env cur = .ok (.create p)) : vfsFind s.vfs p = none := by
  unfold openCase at h
  split at h
  · cases h
  split at h
  · cases h
  · unfold shareCase at h
    simp only at h
    split_ifs at h
    cases h
  unfold pathCase at h
  split_ifs at h
  all_goals try cases h
  split at h
  · cases h
  · exact followedCase_create h

/-! ### Pipes -/

theorem groupPeer_installFd (hfd : fd < taskFdMax) (x : Fd) (i : ℕ) :
    (ts.installFd cur fd x).groupPeer cur i = ts.groupPeer cur i := by
  have htask : ∀ i, (ts.installFd cur fd x).task i =
      if i = cur ∨ i < taskMax ∧ ts.groupPeer cur i = true then (ts.task i).setFd fd x else ts.task i :=
    Tasks.installFd_task hfd x
  unfold Tasks.groupPeer
  rw [htask i, htask cur]
  split_ifs <;> rfl

theorem freeFd_installFd {x : Fd} (hfree : ts.freeFd cur 0 = some fd) (hx : x.kind ≠ .none) :
    (ts.installFd cur fd x).freeFd cur 0 = ts.freeFd cur (fd + 1) := by
  have hfd := (firstSlot_eq_some hfree).1
  have htask : ∀ i, (ts.installFd cur fd x).task i =
      if i = cur ∨ i < taskMax ∧ ts.groupPeer cur i = true then (ts.task i).setFd fd x else ts.task i :=
    Tasks.installFd_task hfd x
  have hvalid : ∀ i j, j ≠ fd →
      fdValid ((ts.installFd cur fd x).task i) j = fdValid (ts.task i) j := by
    intro i j hj
    rw [htask i]
    split_ifs
    · exact fdValid_setFd hj x
    · rfl
  have hused : ∀ j, j ≠ fd → (ts.installFd cur fd x).c3FdGroupSlotUsed cur j = ts.c3FdGroupSlotUsed cur j := by
    intro j hj
    unfold Tasks.c3FdGroupSlotUsed Tasks.peerWith
    rw [hvalid cur j hj]
    simp only [groupPeer_installFd hfd, hvalid _ j hj]
  have htaken : (ts.installFd cur fd x).c3FdGroupSlotUsed cur fd = true := by
    unfold Tasks.c3FdGroupSlotUsed
    have hself : fdValid ((ts.installFd cur fd x).task cur) fd = true := by
      rw [htask cur, if_pos (.inl rfl), fdValid_iff]
      have hentry : ((ts.task cur).setFd fd x).fds fd = x := update_self ..
      rw [hentry]
      exact ⟨hfd, hx⟩
    rw [hself, decide_eq_true hfd]
    rfl
  have hbefore : ∀ j, j < fd → ts.c3FdGroupSlotUsed cur j = true := by
    intro j hj
    have := (List.find?_range'_eq_some.1 hfree).2.2 j (Nat.zero_le j) hj
    simpa using this
  unfold Tasks.freeFd
  refine firstSlot_congr fun j _ => ?_
  rcases Nat.lt_trichotomy j fd with hj | hj | hj
  · rw [hused j (Nat.ne_of_lt hj), hbefore j hj, Bool.not_true, Bool.and_false, Bool.and_false]
  · rw [hj, htaken, decide_eq_false (Nat.not_succ_le_self fd), Bool.not_true, Bool.and_false, Bool.false_and]
  · rw [hused j (Nat.ne_of_gt hj), decide_eq_true (Nat.zero_le j), decide_eq_true (Nat.succ_le_of_lt hj)]

theorem pipeFds_cases (s : OpenTables) (cur i : ℕ) :
    s.TwoFds cur ∧ (∃ ends, (s.pipeFds cur i).1 = .ok ends) ∨
      ¬ s.TwoFds cur ∧ ∃ tasks, s.pipeFds cur i = (.error .emfile, { s with tasks := tasks }) := by
  unfold pipeFds
  rcases openFd_cases s cur .pipeR i fdflReadable with ⟨hno, heq⟩ | ⟨fd, hfd, heq⟩
  · right
    refine ⟨?_, ?_⟩
    · rintro ⟨fd, hfd, -⟩
      apply hno
      rw [FdFree, hfd]
      rfl
    · rw [heq]
      simp only
      rcases openFd_cases s cur .pipeW i fdflWritable with ⟨-, heq'⟩ | ⟨fd, hfd, -⟩
      · rw [heq']
        exact ⟨s.tasks, rfl⟩
      · exact absurd (by rw [FdFree, hfd]; rfl) hno
  · have hsecond : FdFree { s with tasks := s.tasks.installFd cur fd ⟨.pipeR, i, fdflReadable, 0⟩ } cur ↔
        s.TwoFds cur := by
      have hnext := freeFd_installFd (x := ⟨.pipeR, i, fdflReadable, 0⟩) hfd
        (by intro h; cases h)
      unfold FdFree TwoFds
      simp only [hnext, hfd, Option.some.injEq, exists_eq_left']
    rw [heq]
    simp only
    rcases openFd_cases { s with tasks := s.tasks.installFd cur fd ⟨.pipeR, i, fdflReadable, 0⟩ } cur .pipeW i
        fdflWritable with ⟨hno, heq'⟩ | ⟨fd', hfd', heq'⟩
    · rw [hsecond] at hno
      rw [heq']
      exact .inr ⟨hno, _, rfl⟩
    · refine .inl ⟨hsecond.1 (by rw [FdFree, hfd']; rfl), ?_⟩
      rw [heq']
      exact ⟨_, rfl⟩

/-- **A failed `pipe` leaves nothing behind** if there is no pipe for it; with a pipe it must not fail. -/
theorem realSysPipe_nothing_iff (s : OpenTables) (cur : ℕ) :
    (∀ e, (s.realSysPipe cur).1 = .error e → NothingLeft s (s.realSysPipe cur).2) ↔
      (∀ i < pipeMax, (s.pipes i).used = true) ∨ s.TwoFds cur := by
  unfold realSysPipe pipeCreate
  cases hp : firstSlot (fun i => !(s.pipes i).used) pipeMax with
  | none =>
    refine iff_of_true (fun _ _ => .refl s) (.inl fun i hi => ?_)
    simpa using firstSlot_eq_none hp i hi
  | some i =>
    obtain ⟨hi, hfree⟩ := firstSlot_eq_some hp
    have hfree : (s.pipes i).used = false := by simpa using hfree
    have hnotfull : ¬ ∀ i < pipeMax, (s.pipes i).used = true := by
      intro hall
      rw [hall i hi] at hfree
      cases hfree
    simp only [hnotfull, false_or]
    rcases pipeFds_cases { s with pipes := update s.pipes i ⟨true, 1, 1⟩ } cur i with
      ⟨htwo, ends, heq⟩ | ⟨hno, tasks, heq⟩
    · rw [heq]
      refine iff_of_true (fun e he => ?_) htwo
      cases he
    · -- the pipe stays
      rw [heq]
      refine iff_of_false (fun hall => ?_) hno
      have hpipe := (hall _ rfl).pipes i hfree
      simp only [update_self] at hpipe
      cases hpipe

/-- **A failed open leaves nothing behind** unless it leaks. -/
theorem realSysOpen_nothing_iff (hs : s.vfs.Inv) (hcur : cur < taskMax) (hu : (s.tasks.task cur).used = true)
    (env : OpenEnv) :
    (∀ e, (s.realSysOpen env cur).1 = .error e → NothingLeft s (s.realSysOpen env cur).2) ↔
      ∀ c, s.openCase env cur = .ok c → ¬ s.Leaks env cur c := by
  unfold realSysOpen
  cases hc : s.openCase env cur with
  | error e =>
    refine iff_of_true (fun _ _ => .refl s) fun c h => ?_
    cases h
  | ok c =>
    have hone : (∀ c', (.ok c : Except OpenErrno OpenCase) = .ok c' → ¬ s.Leaks env cur c') ↔
        ¬ s.Leaks env cur c := by
      constructor
      · intro h
        exact h c rfl
      · rintro h c' ⟨⟩
        exact h
    rw [hone]
    cases c with
    | share owner fdn => exact iff_of_true (fun e he => openFd_nothing s cur _ _ _ he) id
    | tmpfile => exact openTmpfile_iff hs env cur
    | memfd path => exact (nothing_iff_of_like (openMemfd_like s env cur path)).trans (openSlot_alone_iff ..)
    | slot kind path fl => exact openSlot_alone_iff s cur kind path fl
    | dev kind path => exact iff_of_true (fun e he => openDev_nothing hcur hu kind path he) id
    | file path => exact (nothing_iff_of_like (openFile_like s env cur path)).trans (openSlot_alone_iff ..)
    | sparse path => exact openSparse_iff s env cur path
    | create path => exact openCreate_iff hs env cur (openCase_create hc)

end OpenTables

/-- **Failed calls**: an `open` that fails leaves nothing behind exactly if it does not leak, and a `pipe` that
fails leaves nothing exactly if there is no pipe for it, for it does not fail when there is one and two
descriptors are free. -/
theorem failed_call_leaves_nothing (s : OpenTables) (env : OpenEnv) (cur : ℕ) (hs : s.vfs.Inv)
    (hcur : cur < taskMax) (hu : (s.tasks.task cur).used = true) :
    ((∀ e, (s.realSysOpen env cur).1 = .error e → s.NothingLeft (s.realSysOpen env cur).2) ↔
      ∀ c, s.openCase env cur = .ok c → ¬ s.Leaks env cur c) ∧
    ((∀ e, (s.realSysPipe cur).1 = .error e → s.NothingLeft (s.realSysPipe cur).2) ↔
      (∀ i < pipeMax, (s.pipes i).used = true) ∨ s.TwoFds cur) :=
  ⟨OpenTables.realSysOpen_nothing_iff hs hcur hu env, OpenTables.realSysPipe_nothing_iff s cur⟩

/-- A machine whose first task has all descriptors in use. -/
def fullTable : OpenTables where
  tasks := Tasks.init.setTask 0 { Tasks.init.task 0 with fds := fun _ => ⟨.devnull, 0, fdflReadable, 0⟩ }
  slots := fun _ => none
  vfs := vfsInit
  memfds := fun _ => ⟨false, [], 0, 0⟩
  procBufs := fun _ => false
  pipes := fun _ => ⟨false, 0, 0⟩
  deletedSeq := 1

theorem root_isPath : 0 ∉ [slash] ∧ [slash].length < vfsPathMax := by
  constructor
  · decide
  · decide

/-- An `open` of a null pointer. -/
def nullOpen : OpenEnv where
  user := { cwd := ⟨[slash], root_isPath⟩, pid := 1, fd := fun _ => none }
  path := .null
  links := { vboxGpu := false, kvfsRead := fun _ => none, root := by intro data h; cases h }
  isDir := fun _ => false
  procGenerate := fun _ => none
  flags := 0
  ok₁ := true
  ok₂ := true

theorem fullTable_freeFd : fullTable.tasks.freeFd 0 0 = none := by decide +kernel

theorem failed_call_leaves_nothing_sample :
    fullTable.NothingLeft (fullTable.realSysOpen nullOpen 0).2 := by
  apply (failed_call_leaves_nothing fullTable nullOpen 0 vfsInit_inv (by decide) rfl).1.2 ?_ .efault rfl
  intro c hc
  cases hc

/-- A `pipe` without a free descriptor keeps the pipe. -/
theorem failed_call_leaves_something : ¬ ∀ (s : OpenTables) (env : OpenEnv) (cur : ℕ), s.vfs.Inv →
    cur < taskMax → (s.tasks.task cur).used = true →
      (∀ e, (s.realSysOpen env cur).1 = .error e → s.NothingLeft (s.realSysOpen env cur).2) ∧
        ∀ e, (s.realSysPipe cur).1 = .error e → s.NothingLeft (s.realSysPipe cur).2 := by
  intro hall
  have hpipe := (hall fullTable nullOpen 0 vfsInit_inv (by decide) rfl).2
  rcases (OpenTables.realSysPipe_nothing_iff fullTable 0).1 hpipe with hfull | ⟨fd, hfd, -⟩
  · cases hfull 0 (by decide)
  · rw [fullTable_freeFd] at hfd
    cases hfd

end Ridux
