import Ridux.Fd.Group
import Ridux.Fd.Syscall

/-!
# What a call does to the descriptor table

A call of a task whose group is in order (`Grouped`) gives one new array to the whole group.

* `Sys.setTable`, and the group operations in terms of it;
* `handed`: the descriptors that an outcome hands out;
* `TableStep s cur p`: the outcome `p` of a call gives the group of `cur` one array, in which only
  descriptors that were valid before or are handed out are valid;
* one lemma per call.
-/

namespace Ridux

open Lib Function List

/-- The descriptors that a call hands out. -/
def handed : Outcome → List ℕ
  | .ok l => l
  | .error _ => []

namespace Sys

def setTable (s : Sys) (cur : ℕ) (g : ℕ → Fd) : Sys := { s with tasks := s.tasks.setTable cur g }

variable {s : Sys} {cur fd : ℕ} {g g' : ℕ → Fd}

@[simp] theorem setTable_tasks : (s.setTable cur g).tasks = s.tasks.setTable cur g := rfl

@[simp] theorem setTable_objs : (s.setTable cur g).objs = s.objs := rfl

@[simp] theorem setTable_setTable :
    (s.setTable cur g).setTable cur g' = s.setTable cur g' := by
  simp [setTable]

theorem closeEntry_clears (s : Sys) (cur fd : ℕ) (e : Fd) (last : Bool) :
    (s.closeEntry cur fd e last).tasks = s.tasks.c3FdGroupClearFd cur fd := by
  have hfree : ∀ t : Sys, (t.c3VfsOpenSlotTryFree e.ref).tasks = t.tasks := by
    intro t
    rw [c3VfsOpenSlotTryFree]
    repeat' split
    all_goals rfl
  rw [closeEntry]
  by_cases hlast : (last && e.kind.isFile) = true
  · rw [if_pos hlast, hfree]
  · rw [if_neg hlast]

theorem close_clears (hv : s.valid cur fd = true) :
    (s.c3CloseFdForTask cur fd).2.tasks = s.tasks.c3FdGroupClearFd cur fd := by
  have hfd := (fdValid_iff.1 hv).1
  have hsync : s.syncFd cur fd = s := by
    have hown : fdValid (s.tasks.task cur) fd = true := hv
    rw [syncFd, Tasks.c3FdGroupSyncFd, if_neg (by omega), if_pos hown]
  rw [c3CloseFdForTask, hsync, closeSynced, if_pos hv]
  exact closeEntry_clears s cur fd _ _

end Sys

/-! ### The group operations on a system -/

namespace Grouped

variable {s : Sys} {cur fd ref : ℕ} {g : ℕ → Fd} {fl : BitVec 16}

theorem sys (hg : Grouped s.tasks cur g) (g' : ℕ → Fd) :
    Grouped (s.setTable cur g').tasks cur g' := hg.setTable g'

theorem entry (hg : Grouped s.tasks cur g) : s.entry cur fd = g fd := by rw [Sys.entry, hg.own]

theorem valid (hg : Grouped s.tasks cur g) :
    s.valid cur fd = true ↔ fd < taskFdMax ∧ (g fd).kind ≠ .none := by
  rw [Sys.valid, fdValid_iff, hg.own]

theorem syncFd (hg : Grouped s.tasks cur g) (fd : ℕ) : s.syncFd cur fd = s := by
  rw [Sys.syncFd, hg.sync]

theorem installFd (hg : Grouped s.tasks cur g) (hfd : fd < taskFdMax) (e : Fd) :
    s.installFd cur fd e = s.setTable cur (update g fd e) := by
  rw [Sys.installFd, hg.install hfd, Sys.setTable]

theorem allocFd_some (hg : Grouped s.tasks cur g) {kind : FdKind} (h : firstFree g 0 = some fd) :
    s.allocFd cur kind ref fl =
      (some fd, s.setTable cur (update g fd ⟨kind, ref, fl, 0⟩)) := by
  have hfd := (firstFree_eq_some h).1
  simp only [Sys.allocFd, Tasks.c3FdAllocForTask, hg.freeFd, h, hg.install hfd, Sys.setTable]

theorem allocFd_none (hg : Grouped s.tasks cur g) {kind : FdKind} (h : firstFree g 0 = none) :
    s.allocFd cur kind ref fl = (none, s) := by
  simp only [Sys.allocFd, Tasks.c3FdAllocForTask, hg.freeFd, h]

theorem closeEntry_tasks (hg : Grouped s.tasks cur g) (hfd : fd < taskFdMax)
    (hk : (g fd).kind ≠ .none) (e : Fd) (last : Bool) :
    (s.closeEntry cur fd e last).tasks = s.tasks.setTable cur (update g fd .empty) := by
  rw [Sys.closeEntry_clears, hg.clear hfd hk]

theorem close_tasks (hg : Grouped s.tasks cur g) (fd : ℕ) :
    (∃ r, s.c3CloseFdForTask cur fd = (.ok [], r) ∧ fd < taskFdMax ∧ (g fd).kind ≠ .none ∧
        r.tasks = s.tasks.setTable cur (update g fd .empty)) ∨
      (s.c3CloseFdForTask cur fd = (.error .ebadf, s) ∧
        ¬(fd < taskFdMax ∧ (g fd).kind ≠ .none)) := by
  rw [Sys.c3CloseFdForTask, hg.syncFd, Sys.closeSynced]
  split_ifs with hv
  · obtain ⟨hfd, hk⟩ := hg.valid.1 hv
    exact .inl ⟨_, rfl, hfd, hk, hg.closeEntry_tasks hfd hk _ _⟩
  · exact .inr ⟨rfl, fun h => hv (hg.valid.2 h)⟩

theorem close_gone (hg : Grouped s.tasks cur g) (fd : ℕ) :
    ∃ g', (s.c3CloseFdForTask cur fd).2.tasks = s.tasks.setTable cur g' ∧
      (fd < taskFdMax → (g' fd).kind = .none) ∧ ∀ i, (g' i).kind ≠ .none → (g i).kind ≠ .none := by
  rcases hg.close_tasks fd with ⟨r, hr, hfd, hk, ht⟩ | ⟨hr, hno⟩
  · refine ⟨update g fd .empty, by rw [hr, ht], fun _ => ?_, fun i hi => ?_⟩
    · rw [update_self]
      rfl
    · by_cases hif : i = fd
      · rw [hif]
        exact hk
      · rwa [update_of_ne hif] at hi
  · refine ⟨g, by rw [hr, hg.setTable_eq], fun hfd => ?_, fun i hi => hi⟩
    by_contra hk
    exact hno ⟨hfd, hk⟩

end Grouped

/-! ### Calls -/

/-- The outcome `p` of a call gives the group of `cur` one array, and makes valid only what it
hands out. -/
def TableStep (s : Sys) (cur : ℕ) (p : Outcome × Sys) : Prop :=
  ∃ g, p.2.tasks = s.tasks.setTable cur g ∧
    ∀ fd < taskFdMax, (g fd).kind ≠ .none → (s.entry cur fd).kind ≠ .none ∨ fd ∈ handed p.1

namespace TableStep

variable {s t : Sys} {cur fd : ℕ} {g : ℕ → Fd} {p : Outcome × Sys} {rc : Outcome}

theorem same (hg : Grouped s.tasks cur g) (h : t.tasks = s.tasks) : TableStep s cur (rc, t) :=
  ⟨g, by rw [h, hg.setTable_eq], fun fd _ hk => .inl (by rw [hg.entry]; exact hk)⟩

theorem of_setTable (hg : Grouped s.tasks cur g) {g' : ℕ → Fd}
    (h : t.tasks = s.tasks.setTable cur g')
    (hnew : ∀ fd < taskFdMax, (g' fd).kind ≠ .none → (g fd).kind ≠ .none ∨ fd ∈ handed rc) :
    TableStep s cur (rc, t) := by
  refine ⟨g', h, fun fd hfd hk => ?_⟩
  rw [hg.entry]
  exact hnew fd hfd hk

theorem write (hg : Grouped s.tasks cur g) {e : Fd}
    (h : t.tasks = s.tasks.setTable cur (update g fd e)) (hmem : fd ∈ handed rc) :
    TableStep s cur (rc, t) := by
  refine of_setTable hg h fun i _ hk => ?_
  by_cases hi : i = fd
  · exact .inr (hi ▸ hmem)
  · rw [update_of_ne hi] at hk
    exact .inl hk

theorem rewrite (hg : Grouped s.tasks cur g) {e : Fd} (hk : (g fd).kind ≠ .none)
    (h : t.tasks = s.tasks.setTable cur (update g fd e)) : TableStep s cur (rc, t) := by
  refine of_setTable hg h fun i _ hi => ?_
  by_cases hif : i = fd
  · exact .inl (hif ▸ hk)
  · rw [update_of_ne hif] at hi
    exact .inl hi

theorem after (ht : t.tasks = s.tasks) (h : TableStep t cur p) : TableStep s cur p := by
  obtain ⟨g, hp, hnew⟩ := h
  rw [ht] at hp
  refine ⟨g, hp, fun fd hfd hk => ?_⟩
  have := hnew fd hfd hk
  rwa [Sys.entry, ht] at this

theorem trans {g₁ : ℕ → Fd} (hg : Grouped s.tasks cur g)
    (ht : t.tasks = s.tasks.setTable cur g₁) (h : TableStep t cur p)
    (hnew : ∀ fd < taskFdMax, (g₁ fd).kind ≠ .none → (g fd).kind ≠ .none ∨ fd ∈ handed p.1) :
    TableStep s cur p := by
  obtain ⟨g', hp, hnew'⟩ := h
  refine ⟨g', by rw [hp, ht, Tasks.setTable_setTable], fun fd hfd hk => ?_⟩
  rcases hnew' fd hfd hk with h | h
  · have hentry : t.entry cur fd = g₁ fd := by
      rw [Sys.entry, ht]
      exact congrFun (hg.setTable g₁).own fd
    rw [hentry] at h
    rw [hg.entry]
    exact hnew fd hfd h
  · exact .inr h

end TableStep

section Calls

variable {s t : Sys} {cur oldfd newfd fd i r w : ℕ} {g : ℕ → Fd} {ts : Tasks} {generated : Bool}
  {fl : BitVec 16}

theorem handOut_step (hg : Grouped s.tasks cur g) (f : Objects → Objects) (kind : FdKind)
    (ref : ℕ) (fl : BitVec 16) : TableStep s cur (Sys.handOut f (s.allocFd cur kind ref fl)) := by
  cases h : firstFree g 0 with
  | some fd =>
    rw [hg.allocFd_some h]
    exact .write hg rfl (by simp [handed])
  | none =>
    rw [hg.allocFd_none h]
    exact .same hg rfl

theorem openSlot_step (hg : Grouped s.tasks cur g) (kind : FdKind) (path : OpenPath)
    (fl : BitVec 16) : TableStep s cur (s.openSlot cur kind path fl) := by
  rw [Sys.openSlot]
  split
  · exact .same hg rfl
  · rename_i slot objs _
    exact .after rfl (handOut_step (s := s.setObjs objs) hg id kind slot fl)

theorem createPooled_step (hg : Grouped s.tasks cur g) (p : Pool) (kind : FdKind) (fl : BitVec 16)
    (full : Errno) : TableStep s cur (s.createPooled cur p kind fl full) := by
  rw [Sys.createPooled]
  split
  · exact .same hg rfl
  · rename_i i objs _
    exact .after rfl (handOut_step (s := s.setObjs objs) hg _ kind i fl)

theorem dupFrom_step (hg : Grouped s.tasks cur g) (oldfd minfd : ℕ) (cloexec : Bool) :
    TableStep s cur (s.dupFrom cur oldfd minfd cloexec) := by
  rw [Sys.dupFrom, hg.freeFd]
  cases h : firstFree g minfd with
  | some fd =>
    have hfd := (firstFree_eq_some h).1
    exact .write hg (by rw [hg.installFd hfd, Sys.setTable_tasks]) (by simp [handed])
  | none => exact .same hg rfl

theorem c3DupFdMin_step (hg : Grouped s.tasks cur g) (oldfd minfd : ℕ) (cloexec : Bool) :
    TableStep s cur (s.c3DupFdMin cur oldfd minfd cloexec) := by
  rw [Sys.c3DupFdMin, hg.syncFd]
  split_ifs
  · exact .same hg rfl
  · exact .same hg rfl
  · exact dupFrom_step hg oldfd minfd cloexec

theorem dup2Copy_step (hg : Grouped s.tasks cur g) (hnew : newfd < taskFdMax) :
    TableStep s cur (.ok [newfd], s.dup2Copy cur oldfd newfd) := by
  rw [Sys.dup2Copy]
  exact .write hg (by rw [hg.installFd hnew, Sys.setTable_tasks]) (by simp [handed])

theorem dup2Onto_step (hg : Grouped s.tasks cur g) (hnew : newfd < taskFdMax) :
    TableStep s cur (s.dup2Onto cur oldfd newfd) := by
  rw [Sys.dup2Onto, hg.syncFd]
  split_ifs with hv
  · rcases hg.close_tasks newfd with ⟨r, hr, hfd, hk, ht⟩ | ⟨hr, -⟩
    · rw [hr]
      have hgr : Grouped r.tasks cur _ := ht ▸ hg.setTable _
      refine .trans hg ht (dup2Copy_step hgr hnew) fun i _ hi => ?_
      by_cases hin : i = newfd
      · exact .inr (by simp [handed, hin])
      · rw [update_of_ne hin] at hi
        exact .inl hi
    · rw [hr]
      exact .same hg rfl
  · exact dup2Copy_step hg hnew

theorem realSysDup2_step (hg : Grouped s.tasks cur g) (oldfd newfd : ℕ) :
    TableStep s cur (s.realSysDup2 cur oldfd newfd) := by
  rw [Sys.realSysDup2, hg.syncFd]
  split_ifs with h1 h2 h3
  · exact .same hg rfl
  · exact .same hg rfl
  · exact .same hg rfl
  · exact dup2Onto_step hg (by omega)

theorem realSysDup2_ok {l : List ℕ} (h : s.realSysDup2 cur oldfd newfd = (.ok l, t)) :
    l = [newfd] ∧ newfd < taskFdMax := by
  rw [Sys.realSysDup2] at h
  split_ifs at h with h1 h2 h3
  · cases h
  · cases h
  · obtain ⟨h, -⟩ := Prod.mk.inj h
    exact ⟨(Except.ok.inj h).symm, by omega⟩
  · rw [Sys.dup2Onto] at h
    split_ifs at h
    · split at h
      · cases h
      · obtain ⟨h, -⟩ := Prod.mk.inj h
        exact ⟨(Except.ok.inj h).symm, by omega⟩
    · obtain ⟨h, -⟩ := Prod.mk.inj h
      exact ⟨(Except.ok.inj h).symm, by omega⟩

theorem addFlags_copy (hg : Grouped ts cur g) (hfd : fd < taskFdMax) (f : BitVec 16) :
    (ts.addFlags cur fd f).c3FdGroupCopyFd cur fd =
      ts.setTable cur (update g fd { g fd with flags := (g fd).flags ||| f }) := by
  have := hg.install hfd { g fd with flags := (g fd).flags ||| f }
  rw [Tasks.addFlags, hg.own]
  exact this

theorem realSysDup3_step (hg : Grouped s.tasks cur g) (oldfd newfd : ℕ) (flags : BitVec 32) :
    TableStep s cur (s.realSysDup3 cur oldfd newfd flags) := by
  rw [Sys.realSysDup3]
  by_cases h1 : hasMode flags (~~~oCloexec) = true
  · rw [if_pos h1]
    exact .same hg rfl
  · rw [if_neg h1]
    by_cases h2 : oldfd = newfd
    · rw [if_pos h2]
      exact .same hg rfl
    · rw [if_neg h2]
      have hstep := realSysDup2_step hg oldfd newfd
      rcases heq : s.realSysDup2 cur oldfd newfd with ⟨rc, t⟩
      rw [heq] at hstep
      cases rc with
      | error e => exact hstep
      | ok l =>
        obtain ⟨rfl, hfd⟩ := realSysDup2_ok heq
        obtain ⟨g₁, ht, hnew⟩ := hstep
        have hgt : Grouped t.tasks cur g₁ := ht ▸ hg.setTable g₁
        dsimp only
        split_ifs
        · refine .trans (t := t) hg ht ?_ fun i hi hk => ?_
          · exact .write hgt (addFlags_copy hgt hfd _) (by simp [handed])
          · have := hnew i hi hk
            rwa [hg.entry] at this
        · exact ⟨g₁, ht, hnew⟩

theorem setFlags_step (hg : Grouped s.tasks cur g) (hfd : fd < taskFdMax) (hk : (g fd).kind ≠ .none)
    (fl : BitVec 16) (rc : Outcome) : TableStep s cur (rc, s.setFlags cur fd fl) := by
  rw [Sys.setFlags, hg.installFd hfd]
  exact .rewrite hg hk rfl

theorem realSysFcntl_step (hg : Grouped s.tasks cur g) (fd : ℕ) (cmd : Sys.Fcntl) :
    TableStep s cur (s.realSysFcntl cur fd cmd) := by
  unfold Sys.realSysFcntl
  rw [hg.syncFd]
  dsimp only
  split_ifs with hv
  · exact .same hg rfl
  · obtain ⟨hfd, hk⟩ := hg.valid.1 (by simpa using hv)
    cases cmd with
    | dupfd arg =>
      dsimp only
      split_ifs
      · exact .same hg rfl
      · exact c3DupFdMin_step hg fd arg false
    | dupfdCloexec arg =>
      dsimp only
      split_ifs
      · exact .same hg rfl
      · exact c3DupFdMin_step hg fd arg true
    | setfd arg => exact setFlags_step hg hfd hk _ _
    | setfl arg => exact setFlags_step hg hfd hk _ _
    | other => exact .same hg rfl

/-! ### Open -/

theorem openProcFd_step (hg : Grouped s.tasks cur g) (owner fdn : ℕ) (flags : BitVec 32) :
    TableStep s cur (s.openProcFd cur owner fdn flags) := by
  rw [Sys.openProcFd]
  split_ifs
  · exact .same hg rfl
  · exact .same hg rfl
  · exact .same hg rfl
  · exact handOut_step hg id _ _ _

theorem hasLivePeer_setTable (ts : Tasks) (g : ℕ → Fd) :
    (ts.setTable cur g).c3FdGroupHasLivePeer cur = ts.c3FdGroupHasLivePeer cur := by
  have hpeer : (ts.setTable cur g).groupPeer cur = ts.groupPeer cur := by
    funext i
    exact Tasks.groupPeer_put
  rw [Tasks.c3FdGroupHasLivePeer, Tasks.c3FdGroupHasLivePeer, hpeer]

theorem clear_new (hg : Grouped s.tasks cur g) {e : Fd} (hfd : fd < taskFdMax) (hk : e.kind ≠ .none) :
    (s.setTable cur (update g fd e)).tasks.c3FdGroupClearFd cur fd =
      s.tasks.setTable cur (update g fd .empty) := by
  have hg' := hg.sys (update g fd e)
  rw [hg'.clear hfd (by rw [update_self]; exact hk), Sys.setTable_tasks,
    Tasks.setTable_setTable, update_idem]

theorem TableStep.cleared (hg : Grouped s.tasks cur g) {rc : Outcome}
    (h : t.tasks = s.tasks.setTable cur (update g fd .empty)) : TableStep s cur (rc, t) := by
  refine .of_setTable hg h fun i _ hk => .inl ?_
  by_cases hi : i = fd
  · rw [hi, update_self] at hk
    exact absurd rfl hk
  · rwa [update_of_ne hi] at hk

/-- The buffer of a new `/proc` file reaches every array of the group: the caller has no live
peer, or the buffer's index is the one that every array has already. -/
def ProcShared (s : Sys) (cur : ℕ) (generated : Bool) : Prop :=
  generated = true → s.tasks.c3FdGroupHasLivePeer cur = true →
    (s.tasks.freeFd cur 0).isSome = true → ∀ i, (s.objs.poolAlloc .procBuf).1 = some i → i = 0

theorem attachProc_some (hg : Grouped s.tasks cur g) {objs : Objects}
    (hfree : firstFree g 0 = some fd) (hshared : ProcShared s cur true)
    (halloc : s.objs.poolAlloc .procBuf = (some i, objs)) :
    (s.setTable cur (update g fd ⟨.proc, 0, fl, 0⟩)).attachProc cur fd true =
      (.ok [fd], (s.setObjs objs).setTable cur (update g fd ⟨.proc, i, fl, 0⟩)) := by
  have hg' := hg.sys (update g fd ⟨.proc, 0, fl, 0⟩)
  have hset : (s.setTable cur (update g fd ⟨.proc, 0, fl, 0⟩)).tasks.setFd cur fd
      ⟨.proc, i, fl, 0⟩ = s.tasks.setTable cur (update g fd ⟨.proc, i, fl, 0⟩) := by
    by_cases hpeer : s.tasks.c3FdGroupHasLivePeer cur = true
    · -- the peers' entries have the index already
      have hi : i = 0 := by
        refine hshared rfl hpeer (by rw [hg.freeFd, hfree]; rfl) i ?_
        rw [halloc]
      rw [Sys.setTable_tasks, Tasks.setTable, Tasks.setFd_put, hi, update_idem]
      rfl
    · have halone : (s.setTable cur (update g fd
          ⟨.proc, 0, fl, 0⟩)).tasks.c3FdGroupHasLivePeer cur = false := by
        rw [Sys.setTable_tasks, hasLivePeer_setTable]
        simpa using hpeer
      rw [hg'.setFd_alone halone, update_idem, Sys.setTable_tasks,
        Tasks.setTable_setTable]
  rw [Sys.attachProc, Sys.setTable_objs, halloc, hg'.entry, update_self]
  dsimp only
  rw [if_pos rfl, hset]
  rfl

theorem attachProc_none (hg : Grouped s.tasks cur g) (fl : BitVec 16)
    (hfree : firstFree g 0 = some fd) (hno : generated = false ∨ (s.objs.poolAlloc .procBuf).1 = none) :
    ∃ e, (s.setTable cur (update g fd ⟨.proc, 0, fl, 0⟩)).attachProc cur fd generated =
      (.error e, s.setTable cur (update g fd .empty)) := by
  have hclear := clear_new (e := ⟨.proc, 0, fl, 0⟩) hg (firstFree_eq_some hfree).1 (by simp)
  rw [Sys.attachProc, Sys.setTable_objs]
  rcases halloc : s.objs.poolAlloc .procBuf with ⟨_ | i, objs⟩
  · refine ⟨.emfile, ?_⟩
    dsimp only
    rw [hclear]
    rfl
  · rw [halloc] at hno
    have hgen : generated = false := by simpa using hno
    refine ⟨.enoent, ?_⟩
    dsimp only
    rw [hgen, if_neg (by simp), hclear]
    rfl

theorem attachProc_step (hg : Grouped s.tasks cur g) (hfree : firstFree g 0 = some fd)
    (hshared : ProcShared s cur generated) :
    TableStep s cur
      ((s.setTable cur (update g fd ⟨.proc, 0, fl, 0⟩)).attachProc cur fd generated) := by
  by_cases hno : generated = false ∨ (s.objs.poolAlloc .procBuf).1 = none
  · obtain ⟨e, he⟩ := attachProc_none hg fl hfree hno
    rw [he]
    exact .cleared hg rfl
  · push Not at hno
    obtain rfl : generated = true := by simpa using hno.1
    rcases halloc : s.objs.poolAlloc .procBuf with ⟨_ | i, objs⟩
    · rw [halloc] at hno
      exact absurd rfl hno.2
    · rw [attachProc_some hg hfree hshared halloc]
      exact .write hg rfl (by simp [handed])

theorem openProc_step (hg : Grouped s.tasks cur g) (flags : BitVec 32)
    (hshared : ProcShared s cur generated) : TableStep s cur (s.openProc cur flags generated) := by
  rw [Sys.openProc]
  cases hfree : firstFree g 0 with
  | some fd =>
    rw [hg.allocFd_some hfree]
    exact attachProc_step hg hfree hshared
  | none =>
    rw [hg.allocFd_none hfree]
    exact .same hg rfl

theorem openTmpfile_step (hg : Grouped s.tasks cur g) (flags : BitVec 32) :
    TableStep s cur (s.openTmpfile cur flags) := by
  rw [Sys.openTmpfile]
  exact .after rfl (openSlot_step (s := s.setObjs s.objs.newHidden) hg .vfsfile _ _)

theorem realSysMemfdCreate_step (hg : Grouped s.tasks cur g) (cloexec : Bool) :
    TableStep s cur (s.realSysMemfdCreate cur cloexec) := by
  rw [Sys.realSysMemfdCreate]
  exact .after rfl (openSlot_step (s := s.setObjs s.objs.newMemfd) hg .vfsfile _ _)

theorem realSysOpen_step (hg : Grouped s.tasks cur g) (flags : BitVec 32)
    (target : Sys.OpenTarget)
    (hshared : ∀ generated, target = .proc generated → ProcShared s cur generated) :
    TableStep s cur (s.realSysOpen cur flags target) := by
  cases target with
  | procFd pid fdn =>
    rw [Sys.realSysOpen]
    split
    · exact openProcFd_step hg _ fdn flags
    · exact .same hg rfl
  | tmpfile => exact openTmpfile_step hg flags
  | anon path =>
    rw [Sys.realSysOpen]
    split_ifs
    · exact openSlot_step hg .vfsfile path _
    · exact .same hg rfl
  | symlink => exact openSlot_step hg .symlink .named _
  | dir =>
    rw [Sys.realSysOpen]
    split_ifs
    · exact .same hg rfl
    · exact openSlot_step hg .dir .named _
  | dev kind ref => exact handOut_step hg id _ ref _
  | proc generated => exact openProc_step hg flags (hshared generated rfl)
  | file => exact openSlot_step hg .vfsfile .named _
  | refused e => exact .same hg rfl

/-! ### Pipes and sockets -/

/-- Not exactly one descriptor is free. -/
def TwoFree (s : Sys) (cur : ℕ) : Prop :=
  ∀ r, s.tasks.freeFd cur 0 = some r → (s.tasks.freeFd cur (r + 1)).isSome = true

/-- A new pipe finds descriptors for both of its ends, or for none. -/
def PipeRoom (s : Sys) (cur : ℕ) : Prop := (s.objs.pipeCreate).1.isSome = true → TwoFree s cur

theorem firstFree_second {e : Fd} (h : (firstFree g (r + 1)).isSome = true) :
    ∃ w, firstFree (update g r e) 0 = some w := by
  obtain ⟨v, hv⟩ := Option.isSome_iff_exists.1 h
  obtain ⟨hlt, hle, hk⟩ := firstFree_eq_some hv
  cases hw : firstFree (update g r e) 0 with
  | some w => exact ⟨w, rfl⟩
  | none =>
    have := firstSlot_eq_none hw v hlt
    rw [update_of_ne (by omega), hk] at this
    simp at this

theorem pipeFds_some (hg : Grouped s.tasks cur g) (hr : firstFree g 0 = some r)
    (hw : firstFree (update g r ⟨.pipeR, i, fdflReadable, 0⟩) 0 = some w) :
    s.pipeFds cur i = (.ok [r, w], s.setTable cur (update
      (update g r ⟨.pipeR, i, fdflReadable, 0⟩) w ⟨.pipeW, i, fdflWritable, 0⟩)) := by
  have hg₁ := hg.sys (update g r ⟨.pipeR, i, fdflReadable, 0⟩)
  rw [Sys.pipeFds, hg.allocFd_some hr]
  dsimp only
  rw [hg₁.allocFd_some hw, Sys.setTable_setTable]

theorem pipeFds_none (hg : Grouped s.tasks cur g) (i : ℕ) (hr : firstFree g 0 = none) :
    s.pipeFds cur i = (.error .emfile, s) := by
  rw [Sys.pipeFds, hg.allocFd_none hr]
  dsimp only
  rw [hg.allocFd_none hr]

theorem pipeFds_cases (hg : Grouped s.tasks cur g) (i : ℕ) (htwo : TwoFree s cur) :
    s.pipeFds cur i = (.error .emfile, s) ∨
      ∃ r w, firstFree g 0 = some r ∧
        firstFree (update g r ⟨.pipeR, i, fdflReadable, 0⟩) 0 = some w ∧
        s.pipeFds cur i = (.ok [r, w], s.setTable cur (update
          (update g r ⟨.pipeR, i, fdflReadable, 0⟩) w ⟨.pipeW, i, fdflWritable, 0⟩)) := by
  cases hr : firstFree g 0 with
  | none => exact .inl (pipeFds_none hg i hr)
  | some r =>
    have hsecond : (firstFree g (r + 1)).isSome = true := by
      rw [← hg.freeFd]
      exact htwo r (by rw [hg.freeFd, hr])
    obtain ⟨w, hw⟩ := firstFree_second (e := ⟨.pipeR, i, fdflReadable, 0⟩) hsecond
    exact .inr ⟨r, w, rfl, hw, pipeFds_some hg hr hw⟩

theorem pipeFds_step (hg : Grouped s.tasks cur g) (i : ℕ) (htwo : TwoFree s cur) :
    TableStep s cur (s.pipeFds cur i) := by
  rcases pipeFds_cases hg i htwo with h | ⟨r, w, -, -, h⟩
  · rw [h]
    exact .same hg rfl
  · rw [h]
    refine .of_setTable hg rfl fun fd _ hk => ?_
    by_cases hfw : fd = w
    · exact .inr (by simp [handed, hfw])
    · by_cases hfr : fd = r
      · exact .inr (by simp [handed, hfr])
      · rw [update_of_ne hfw, update_of_ne hfr] at hk
        exact .inl hk

theorem realSysPipe_step (hg : Grouped s.tasks cur g) (hroom : PipeRoom s cur) :
    TableStep s cur (s.realSysPipe cur) := by
  rw [Sys.realSysPipe]
  split
  · exact .same hg rfl
  · rename_i i objs heq
    have htwo : TwoFree s cur := hroom (by rw [heq]; rfl)
    exact .after rfl (pipeFds_step (s := s.setObjs objs) hg i htwo)

/-- Add flags to one entry of a table. -/
def withFlag (g : ℕ → Fd) (fd : ℕ) (f : BitVec 16) : ℕ → Fd :=
  update g fd { g fd with flags := (g fd).flags ||| f }

theorem withFlag_of_ne (f : BitVec 16) (h : i ≠ fd) : withFlag g fd f i = g i :=
  update_of_ne h _ _

theorem withFlag_object (fd i : ℕ) (f : BitVec 16) :
    (withFlag g fd f i).kind = (g i).kind ∧ (withFlag g fd f i).ref = (g i).ref := by
  by_cases h : i = fd
  · rw [h, withFlag, update_self]
    exact ⟨rfl, rfl⟩
  · rw [withFlag_of_ne f h]
    exact ⟨rfl, rfl⟩

/-- The table after `pipe2` has set its flags. -/
def pipe2Table (g : ℕ → Fd) (r w : ℕ) (flags : BitVec 32) : ℕ → Fd :=
  let g := if hasMode flags oNonblock then
    withFlag (withFlag g r fdflNonblock) w fdflNonblock else g
  if hasMode flags oCloexec then withFlag (withFlag g r fdflCloexec) w fdflCloexec else g

theorem pipe2Table_object (r w i : ℕ) (flags : BitVec 32) :
    (pipe2Table g r w flags i).kind = (g i).kind ∧
      (pipe2Table g r w flags i).ref = (g i).ref := by
  unfold pipe2Table
  split_ifs <;> simp [withFlag_object]

theorem pipe2Table_of_ne (flags : BitVec 32) (hr : i ≠ r) (hw : i ≠ w) :
    pipe2Table g r w flags i = g i := by
  unfold pipe2Table
  split_ifs <;> simp [withFlag_of_ne, hr, hw]

theorem addFlags_put {h : ℕ → Fd} (fd : ℕ) (f : BitVec 16) :
    (ts.put cur g h).addFlags cur fd f = ts.put cur g (withFlag h fd f) := by
  rw [Tasks.addFlags, Tasks.put_self, fds_withFds, Tasks.setFd_put]
  rfl

theorem pipe2Flags_eq (hg : Grouped ts cur g) (hr : r < taskFdMax) (hw : w < taskFdMax)
    (flags : BitVec 32) :
    Sys.pipe2Flags ts cur r w flags = ts.setTable cur (pipe2Table g r w flags) := by
  have hlocal : Sys.pipe2Flags ts cur r w flags =
      ((ts.put cur g (pipe2Table g r w flags)).c3FdGroupCopyFd cur r).c3FdGroupCopyFd cur w := by
    have hts : ts.put cur g g = ts := hg.setTable_eq
    unfold Sys.pipe2Flags pipe2Table
    split_ifs <;> simp only [← addFlags_put, hts]
  rw [hlocal, Tasks.copyFd_put hr, Tasks.copyFd_put hw, Tasks.setTable]
  congr 1
  funext i
  by_cases hiw : i = w
  · rw [hiw, update_self]
  · rw [update_of_ne hiw]
    by_cases hir : i = r
    · rw [hir, update_self]
    · rw [update_of_ne hir, pipe2Table_of_ne flags hir hiw]

theorem realSysPipe_cases (hg : Grouped s.tasks cur g) (hroom : PipeRoom s cur) :
    (∃ e t, s.realSysPipe cur = (.error e, t) ∧ t.tasks = s.tasks) ∨
      ∃ r w t g', s.realSysPipe cur = (.ok [r, w], t) ∧ r < taskFdMax ∧ w < taskFdMax ∧
        t.tasks = s.tasks.setTable cur g' ∧ ∀ i, i ≠ r → i ≠ w → g' i = g i := by
  rw [Sys.realSysPipe]
  split
  · exact .inl ⟨_, _, rfl, rfl⟩
  · rename_i i objs heq
    have htwo : TwoFree s cur := hroom (by rw [heq]; rfl)
    have hgo : Grouped (s.setObjs objs).tasks cur g := hg
    rcases pipeFds_cases hgo i htwo with h | ⟨r, w, hr, hw, h⟩
    · exact .inl ⟨_, _, h, rfl⟩
    · refine .inr ⟨r, w, _, _, h, (firstFree_eq_some hr).1, (firstFree_eq_some hw).1, rfl, ?_⟩
      intro i hir hiw
      rw [update_of_ne hiw, update_of_ne hir]

theorem realSysPipe2_step (hg : Grouped s.tasks cur g) (flags : BitVec 32)
    (hroom : hasMode flags (~~~(oNonblock ||| oCloexec)) = false → PipeRoom s cur) :
    TableStep s cur (s.realSysPipe2 cur flags) := by
  rw [Sys.realSysPipe2]
  by_cases hflags : hasMode flags (~~~(oNonblock ||| oCloexec)) = true
  · rw [if_pos hflags]
    exact .same hg rfl
  · rw [if_neg hflags]
    rcases realSysPipe_cases hg (hroom (by simpa using hflags)) with ⟨e, t, h, ht⟩ | ⟨r, w, t, g', h, hr, hw, ht, hother⟩
    · rw [h]
      exact .same hg ht
    · have hgt : Grouped t.tasks cur g' := ht ▸ hg.setTable g'
      rw [h]
      refine .trans (t := t) hg ht (.of_setTable hgt (pipe2Flags_eq hgt hr hw flags) ?_) ?_
      · intro fd _ hk
        rw [(pipe2Table_object r w fd flags).1] at hk
        exact .inl hk
      · intro fd _ hk
        by_cases hfr : fd = r
        · exact .inr (by simp [handed, hfr])
        · by_cases hfw : fd = w
          · exact .inr (by simp [handed, hfw])
          · rw [hother fd hfr hfw] at hk
            exact .inl hk

theorem realSysSocket_step (hg : Grouped s.tasks cur g) (domain type : BitVec 32) :
    TableStep s cur (s.realSysSocket cur domain type) := by
  rw [Sys.realSysSocket]
  split_ifs
  · exact .same hg rfl
  · split
    · exact .same hg rfl
    · rename_i i objs _
      exact .after rfl (handOut_step (s := s.setObjs objs) hg _ .socket i _)

theorem socketpairFds_step (hg : Grouped s.tasks cur g) (a b : ℕ) (fl : BitVec 16) :
    TableStep s cur (s.socketpairFds cur a b fl) := by
  rw [Sys.socketpairFds]
  cases h0 : firstFree g 0 with
  | none =>
    rw [hg.allocFd_none h0]
    exact .same hg rfl
  | some fd0 =>
    have hfd := (firstFree_eq_some h0).1
    have hg₁ := hg.sys (update g fd0 ⟨.socket, a, fl, 0⟩)
    rw [hg.allocFd_some h0]
    dsimp only
    cases h1 : firstFree (update g fd0 ⟨.socket, a, fl, 0⟩) 0 with
    | none =>
      rw [hg₁.allocFd_none h1]
      exact .cleared hg (clear_new hg hfd (by simp))
    | some fd1 =>
      rw [hg₁.allocFd_some h1, Sys.setTable_setTable]
      refine .of_setTable hg rfl fun fd _ hk => ?_
      by_cases hf1 : fd = fd1
      · exact .inr (by simp [handed, hf1])
      · by_cases hf0 : fd = fd0
        · exact .inr (by simp [handed, hf0])
        · rw [update_of_ne hf1, update_of_ne hf0] at hk
          exact .inl hk

theorem realSysSocketpair_step (hg : Grouped s.tasks cur g) (domain type : BitVec 32) :
    TableStep s cur (s.realSysSocketpair cur domain type) := by
  rw [Sys.realSysSocketpair]
  split_ifs
  · exact .same hg rfl
  · exact .same hg rfl
  · split
    · exact .same hg rfl
    · rename_i a b objs _
      exact .after rfl (socketpairFds_step (s := s.setObjs objs) hg a b _)

/-! ### Rights -/

theorem sendRight_step (hg : Grouped s.tasks cur g) (sockFd passFd : ℕ) :
    TableStep s cur (s.sendRight cur sockFd passFd) := by
  have hqueue : ∀ (t : Sys) (ref tok : ℕ), t.tasks = s.tasks →
      TableStep s cur (t.queueRight ref tok) := by
    intro t ref tok ht
    rw [Sys.queueRight]
    split
    · exact .same hg ht
    · exact .same hg ht
  rw [Sys.sendRight, Sys.c3ScmRightStore]
  split_ifs
  · exact .same hg rfl
  · exact .same hg rfl
  · cases s.freeRight with
    | some tok => exact hqueue _ _ tok rfl
    | none => exact .same hg rfl

theorem enterRight_some (hg : Grouped s.tasks cur g) {nfd : ℕ} (h : firstFree g 0 = some nfd)
    (e : Fd) (cloexec : Bool) :
    s.enterRight cur e cloexec = (some nfd, s.setTable cur (update g nfd
      ⟨e.kind, e.ref, e.flags &&& ~~~fdflCloexec ||| Sys.flIf cloexec fdflCloexec, e.offset⟩)) := by
  have hnfd := (firstFree_eq_some h).1
  rw [Sys.enterRight, hg.allocFd_some h]
  dsimp only
  have hg₁ := hg.sys (update g nfd
    ⟨e.kind, e.ref, e.flags &&& ~~~fdflCloexec ||| Sys.flIf cloexec fdflCloexec, 0⟩)
  rw [hg₁.installFd hnfd, hg₁.entry, update_self, Sys.setTable_setTable,
    update_idem]

theorem enterRight_none (hg : Grouped s.tasks cur g) (h : firstFree g 0 = none) (e : Fd)
    (cloexec : Bool) : s.enterRight cur e cloexec = (none, s) := by
  rw [Sys.enterRight, hg.allocFd_none h]

theorem c3ScmRightTake_step (hg : Grouped s.tasks cur g) (t : ℕ) (cloexec : Bool) :
    TableStep s cur (s.c3ScmRightTake cur t cloexec) := by
  rw [Sys.c3ScmRightTake]
  split
  · exact .same hg rfl
  · rename_i e _
    cases h : firstFree g 0 with
    | some nfd =>
      rw [enterRight_some hg h]
      exact .write hg rfl (by simp [handed])
    | none =>
      rw [enterRight_none hg h]
      exact .same hg rfl

theorem recvRight_step (hg : Grouped s.tasks cur g) (sockFd : ℕ) (cloexec : Bool) :
    TableStep s cur (s.recvRight cur sockFd cloexec) := by
  rw [Sys.recvRight]
  split_ifs
  · exact .same hg rfl
  · split
    · exact .same hg rfl
    · rename_i t objs _
      exact .after rfl (c3ScmRightTake_step (s := s.setObjs objs) hg t cloexec)

/-! ### Closing many descriptors -/

theorem closeWhere_tasks (p : Fd → Bool) (l : List ℕ) (hg : Grouped s.tasks cur g) :
    ∃ g', (Sys.closeWhere p cur l s).tasks = s.tasks.setTable cur g' ∧
      ∀ i, (g' i).kind ≠ .none → (g i).kind ≠ .none := by
  induction l generalizing s g with
  | nil => exact ⟨g, by rw [Sys.closeWhere, hg.setTable_eq], fun i hi => hi⟩
  | cons fd l ih =>
    rw [Sys.closeWhere]
    split_ifs
    · obtain ⟨g₁, ht, -, hsub⟩ := hg.close_gone fd
      obtain ⟨g₂, ht', hsub'⟩ := ih (s := (s.c3CloseFdForTask cur fd).2) (ht ▸ hg.setTable g₁)
      exact ⟨g₂, by rw [ht', ht, Tasks.setTable_setTable], fun i hi => hsub i (hsub' i hi)⟩
    · exact ih hg

theorem closeAll_tasks (l : List ℕ) (hl : ∀ fd ∈ l, fd < taskFdMax) (hg : Grouped s.tasks cur g) :
    ∃ g', (Sys.closeWhere (fun e => e.kind != .none) cur l s).tasks = s.tasks.setTable cur g' ∧
      (∀ i, (g' i).kind ≠ .none → (g i).kind ≠ .none) ∧ ∀ fd ∈ l, (g' fd).kind = .none := by
  induction l generalizing s g with
  | nil => exact ⟨g, by rw [Sys.closeWhere, hg.setTable_eq], fun i hi => hi, by simp⟩
  | cons fd l ih =>
    have hfd := hl fd mem_cons_self
    have hrest : ∀ i ∈ l, i < taskFdMax := fun i hi => hl i (mem_cons_of_mem fd hi)
    rw [Sys.closeWhere, hg.entry]
    by_cases hk : (g fd).kind = .none
    · rw [if_neg (by simp [hk])]
      obtain ⟨g', ht, hsub, hgone⟩ := ih hrest hg
      refine ⟨g', ht, hsub, fun i hi => ?_⟩
      rcases mem_cons.1 hi with rfl | hi
      · by_contra hne
        exact hsub i hne hk
      · exact hgone i hi
    · rw [if_pos (by simpa using hk)]
      obtain ⟨g₁, ht, hnone, hsub⟩ := hg.close_gone fd
      obtain ⟨g₂, ht', hsub', hgone⟩ :=
        ih (s := (s.c3CloseFdForTask cur fd).2) hrest (ht ▸ hg.setTable g₁)
      refine ⟨g₂, by rw [ht', ht, Tasks.setTable_setTable], fun i hi => hsub i (hsub' i hi), ?_⟩
      intro i hi
      rcases mem_cons.1 hi with rfl | hi
      · by_contra hne
        exact hsub' i hne (hnone hfd)
      · exact hgone i hi

/-! ### All calls -/

/-- What a call must find so that the arrays of its group stay equal and it leaves nothing behind
when it fails. -/
def CallRoom (s : Sys) (cur : ℕ) : Sys.Syscall → Prop
  | .open _ (.proc generated) => ProcShared s cur generated
  | .pipe => PipeRoom s cur
  | .pipe2 flags => hasMode flags (~~~(oNonblock ||| oCloexec)) = false → PipeRoom s cur
  | _ => True

theorem call_step (hg : Grouped s.tasks cur g) (c : Sys.Syscall) (hfork : c ≠ .fork)
    (hclone : ∀ flags st ok, c ≠ .clone flags st ok) (hroom : CallRoom s cur c) :
    TableStep s cur (s.call cur c) := by
  cases c with
  | fork => exact absurd rfl hfork
  | clone flags st ok => exact absurd rfl (hclone flags st ok)
  | «open» flags target =>
    refine realSysOpen_step hg flags target fun generated ht => ?_
    subst ht
    exact hroom
  | memfdCreate cloexec => exact realSysMemfdCreate_step hg cloexec
  | dup oldfd => exact c3DupFdMin_step hg oldfd 0 false
  | dup2 oldfd newfd => exact realSysDup2_step hg oldfd newfd
  | dup3 oldfd newfd flags => exact realSysDup3_step hg oldfd newfd flags
  | fcntl fd cmd => exact realSysFcntl_step hg fd cmd
  | pipe => exact realSysPipe_step hg hroom
  | pipe2 flags => exact realSysPipe2_step hg flags hroom
  | socket domain type => exact realSysSocket_step hg domain type
  | socketpair domain type => exact realSysSocketpair_step hg domain type
  | eventfd2 flags =>
    show TableStep s cur (s.realSysEventfd2 cur flags)
    rw [Sys.realSysEventfd2]
    split_ifs
    · exact .same hg rfl
    · exact createPooled_step hg _ _ _ _
  | epollCreate1 flags =>
    show TableStep s cur (s.realSysEpollCreate1 cur flags)
    rw [Sys.realSysEpollCreate1]
    split_ifs
    · exact .same hg rfl
    · exact createPooled_step hg _ _ _ _
  | timerfdCreate flags =>
    show TableStep s cur (s.realSysTimerfdCreate cur flags)
    rw [Sys.realSysTimerfdCreate]
    split_ifs
    · exact .same hg rfl
    · exact createPooled_step hg _ _ _ _
  | inotifyInit1 flags =>
    show TableStep s cur (s.realSysInotifyInit1 cur flags)
    rw [Sys.realSysInotifyInit1]
    split_ifs
    · exact .same hg rfl
    · exact createPooled_step hg _ _ _ _
  | close fd =>
    show TableStep s cur (s.c3CloseFdForTask cur fd)
    rcases hg.close_tasks fd with ⟨r, h, -, -, ht⟩ | ⟨h, -⟩
    · rw [h]
      exact .cleared hg ht
    · rw [h]
      exact .same hg rfl
  | exec =>
    obtain ⟨g', ht, hsub⟩ := closeWhere_tasks
      (fun e => e.kind != .none && e.flags &&& fdflCloexec != 0) (List.range' 0 taskFdMax) hg
    exact .of_setTable hg ht fun fd _ hk => .inl (hsub fd hk)
  | sendRight sockFd passFd => exact sendRight_step hg sockFd passFd
  | recvRight sockFd cloexec => exact recvRight_step hg sockFd cloexec

end Calls

end Ridux
