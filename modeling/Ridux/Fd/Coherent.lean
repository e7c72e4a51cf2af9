import Ridux.Fd.Effect
import Ridux.Lib.Run

/-!
# Shared descriptor tables stay coherent

`World` adds to the kernel's state the table that each task was given: with `CLONE_FILES` that of
its parent, otherwise a new one, named by the pid of the new task.  The kernel has no tables, only
groups of tasks with equal arrays; `Coherent` says that the groups are the tables.

* `Coherent`: the invariant;
* `Change`: what an operation can do, one constructor for each way;
* `TablesCoherent`: tasks that share a table have equal arrays, tasks that do not never see each
  other's changes, and what was closed stays closed.
-/

namespace Ridux

open Lib Tasks Function

/-- The groups of live tasks are the tables, and their arrays are equal. -/
structure Coherent (ts : Tasks) (table : ℕ → ℕ) : Prop where
  small : ∀ i, (ts.task i).used = true → i < taskMax
  pid : ∀ i, (ts.task i).used = true → 0 < (ts.task i).pid ∧ (ts.task i).pid < ts.nextPid
  tgid : ∀ i, (ts.task i).used = true → 0 < (ts.task i).tgid ∧ (ts.task i).tgid < ts.nextPid
  fdtGroup : ∀ i, (ts.task i).used = true →
    0 < (ts.task i).fdtGroup ∧ (ts.task i).fdtGroup < ts.nextPid
  pid_inj : ∀ i j, (ts.task i).used = true → (ts.task j).used = true →
    (ts.task i).pid = (ts.task j).pid → i = j
  group : ∀ i, (ts.task i).live = true → (ts.task i).fdtGroup = table i
  thread : ∀ i j, (ts.task i).live = true → (ts.task j).live = true →
    (ts.task i).tgid = (ts.task j).tgid → table i = table j
  agree : ∀ i j, (ts.task i).live = true → (ts.task j).live = true → table i = table j →
    (ts.task i).fds = (ts.task j).fds
  dead : ∀ i, (ts.task i).used = true → (ts.task i).live = false →
    ∀ fd < taskFdMax, ((ts.task i).fds fd).kind = .none

theorem used_of_live {t : Task} (h : t.live = true) : t.used = true := by
  simp only [Task.live, Bool.and_eq_true] at h
  exact h.1.1

namespace Coherent

variable {ts : Tasks} {table : ℕ → ℕ} {c i j : ℕ}

theorem fdGroupId (h : Coherent ts table) (hi : (ts.task i).live = true) :
    c3FdGroupId (ts.task i) = table i := by
  have := h.fdtGroup i (used_of_live hi)
  rw [c3FdGroupId, if_pos (by omega), h.group i hi]

theorem threadGroup (h : Coherent ts table) (hi : (ts.task i).used = true) :
    Ridux.threadGroup (ts.task i) = (ts.task i).tgid := by
  have := h.tgid i hi
  rw [Ridux.threadGroup, if_pos (by omega)]

theorem sameGroup_iff (h : Coherent ts table) (hi : (ts.task i).live = true)
    (hj : (ts.task j).live = true) :
    c3FdSameGroup (ts.task i) (ts.task j) = true ↔ table i = table j := by
  rw [c3FdSameGroup, h.fdGroupId hi, h.fdGroupId hj, h.threadGroup (used_of_live hi),
    h.threadGroup (used_of_live hj)]
  simp only [Bool.or_eq_true, Bool.and_eq_true, decide_eq_true_eq]
  constructor
  · rintro (ht | ⟨-, ht⟩)
    · exact ht
    · exact h.thread i j hi hj ht
  · exact .inl

theorem groupPeer_iff (h : Coherent ts table) (hc : (ts.task c).live = true) :
    ts.groupPeer c i = true ↔ i ≠ c ∧ (ts.task i).live = true ∧ table i = table c := by
  rw [Tasks.groupPeer_iff]
  constructor
  · rintro ⟨hne, hl, hs⟩
    exact ⟨hne, hl, (h.sameGroup_iff hl hc).1 hs⟩
  · rintro ⟨hne, hl, ht⟩
    exact ⟨hne, hl, (h.sameGroup_iff hl hc).2 ht⟩

theorem grouped (h : Coherent ts table) (hc : (ts.task c).live = true) :
    Grouped ts c (ts.task c).fds where
  lt := h.small c (used_of_live hc)
  used := used_of_live hc
  own := rfl
  peers := by
    intro i _ hp
    obtain ⟨-, hl, ht⟩ := (h.groupPeer_iff hc).1 hp
    exact h.agree i c hl hc ht
  dead := fun i _ hu hl => h.dead i hu hl

theorem setTable_fds (h : Coherent ts table) (hc : (ts.task c).live = true) (g : ℕ → Fd)
    (hi : (ts.task i).live = true) :
    ((ts.setTable c g).task i).fds = if table i = table c then g else (ts.task i).fds := by
  by_cases hic : i = c
  · subst hic
    rw [Tasks.setTable, put_self, fds_withFds, if_pos rfl]
  · split_ifs with ht
    · have hp := (h.groupPeer_iff hc).2 ⟨hic, hi, ht⟩
      rw [Tasks.setTable, put_peer (h.small i (used_of_live hi)) hp, fds_withFds]
    · rw [Tasks.setTable, put_other hic]
      rintro ⟨-, hp⟩
      exact ht ((h.groupPeer_iff hc).1 hp).2.2

theorem setTable (h : Coherent ts table) (hc : (ts.task c).live = true) (g : ℕ → Fd) :
    Coherent (ts.setTable c g) table := by
  have hput : ∀ i, ∃ k, (ts.setTable c g).task i = (ts.task i).withFds k := put_withFds
  have hlive : ∀ i, ((ts.setTable c g).task i).live = (ts.task i).live := fun _ => live_put
  have hused : ∀ i, ((ts.setTable c g).task i).used = (ts.task i).used := fun _ => used_put
  have hpid : ∀ i, ((ts.setTable c g).task i).pid = (ts.task i).pid := by
    intro i
    obtain ⟨k, hk⟩ := hput i
    rw [hk]
    rfl
  have htgid : ∀ i, ((ts.setTable c g).task i).tgid = (ts.task i).tgid := by
    intro i
    obtain ⟨k, hk⟩ := hput i
    rw [hk]
    rfl
  have hgroup : ∀ i, ((ts.setTable c g).task i).fdtGroup = (ts.task i).fdtGroup := by
    intro i
    obtain ⟨k, hk⟩ := hput i
    rw [hk]
    rfl
  constructor
  · intro i hu
    rw [hused] at hu
    exact h.small i hu
  · intro i hu
    rw [hused] at hu
    rw [hpid]
    exact h.pid i hu
  · intro i hu
    rw [hused] at hu
    rw [htgid]
    exact h.tgid i hu
  · intro i hu
    rw [hused] at hu
    rw [hgroup]
    exact h.fdtGroup i hu
  · intro i j hi hj hp
    rw [hused] at hi hj
    rw [hpid, hpid] at hp
    exact h.pid_inj i j hi hj hp
  · intro i hl
    rw [hlive] at hl
    rw [hgroup]
    exact h.group i hl
  · intro i j hi hj ht
    rw [hlive] at hi hj
    rw [htgid, htgid] at ht
    exact h.thread i j hi hj ht
  · intro i j hi hj ht
    rw [hlive] at hi hj
    rw [h.setTable_fds hc g hi, h.setTable_fds hc g hj, ht, h.agree i j hi hj ht]
  · intro i hu hl fd hfd
    rw [hused] at hu
    rw [hlive] at hl
    have hic : i ≠ c := by
      rintro rfl
      rw [hc] at hl
      cases hl
    rw [Tasks.setTable, put_other hic]
    · exact h.dead i hu hl fd hfd
    · rintro ⟨-, hp⟩
      rw [(Tasks.groupPeer_iff.1 hp).2.1] at hl
      cases hl

theorem congr {table' : ℕ → ℕ} (h : Coherent ts table)
    (ht : ∀ i, (ts.task i).used = true → table' i = table i) : Coherent ts table' where
  small := h.small
  pid := h.pid
  tgid := h.tgid
  fdtGroup := h.fdtGroup
  pid_inj := h.pid_inj
  group := fun i hi => by rw [ht i (used_of_live hi)]; exact h.group i hi
  thread := fun i j hi hj => by
    rw [ht i (used_of_live hi), ht j (used_of_live hj)]
    exact h.thread i j hi hj
  agree := fun i j hi hj => by
    rw [ht i (used_of_live hi), ht j (used_of_live hj)]
    exact h.agree i j hi hj
  dead := h.dead

end Coherent

/-! ### Tasks that end -/

/-- A task that is no longer live, otherwise as before, and holds nothing. -/
structure Ended (t t' : Task) : Prop where
  notLive : t'.live = false
  wasUsed : t'.used = true → t.used = true
  pid : t'.pid = t.pid
  tgid : t'.tgid = t.tgid
  fdtGroup : t'.fdtGroup = t.fdtGroup
  empty : t'.used = true → ∀ fd < taskFdMax, (t'.fds fd).kind = .none

theorem Coherent.setEnded {ts : Tasks} {table : ℕ → ℕ} {i : ℕ} {t : Task}
    (h : Coherent ts table) (ht : Ended (ts.task i) t) : Coherent (ts.setTask i t) table := by
  have hself : (ts.setTask i t).task i = t := update_self _ _ _
  have hother : ∀ j, j ≠ i → (ts.setTask i t).task j = ts.task j :=
    fun j hj => update_of_ne hj _ _
  have hused : ∀ j, ((ts.setTask i t).task j).used = true → (ts.task j).used = true := by
    intro j hu
    by_cases hj : j = i
    · rw [hj, hself] at hu
      rw [hj]
      exact ht.wasUsed hu
    · rwa [hother j hj] at hu
  have hlive : ∀ j, ((ts.setTask i t).task j).live = true →
      j ≠ i ∧ (ts.task j).live = true := by
    intro j hl
    have hj : j ≠ i := by
      rintro rfl
      rw [hself, ht.notLive] at hl
      cases hl
    rw [hother j hj] at hl
    exact ⟨hj, hl⟩
  have hpid : ∀ j, ((ts.setTask i t).task j).pid = (ts.task j).pid := by
    intro j
    by_cases hj : j = i
    · rw [hj, hself, ht.pid]
    · rw [hother j hj]
  have htgid : ∀ j, ((ts.setTask i t).task j).tgid = (ts.task j).tgid := by
    intro j
    by_cases hj : j = i
    · rw [hj, hself, ht.tgid]
    · rw [hother j hj]
  have hgroup : ∀ j, ((ts.setTask i t).task j).fdtGroup = (ts.task j).fdtGroup := by
    intro j
    by_cases hj : j = i
    · rw [hj, hself, ht.fdtGroup]
    · rw [hother j hj]
  constructor
  · exact fun j hu => h.small j (hused j hu)
  · intro j hu
    rw [hpid]
    exact h.pid j (hused j hu)
  · intro j hu
    rw [htgid]
    exact h.tgid j (hused j hu)
  · intro j hu
    rw [hgroup]
    exact h.fdtGroup j (hused j hu)
  · intro j k hj hk hp
    rw [hpid, hpid] at hp
    exact h.pid_inj j k (hused j hj) (hused k hk) hp
  · intro j hl
    rw [hgroup]
    exact h.group j (hlive j hl).2
  · intro j k hj hk hp
    rw [htgid, htgid] at hp
    exact h.thread j k (hlive j hj).2 (hlive k hk).2 hp
  · intro j k hj hk hjk
    obtain ⟨hji, hj⟩ := hlive j hj
    obtain ⟨hki, hk⟩ := hlive k hk
    rw [hother j hji, hother k hki]
    exact h.agree j k hj hk hjk
  · intro j hu hl fd hfd
    by_cases hj : j = i
    · rw [hj, hself] at hu ⊢
      exact ht.empty hu fd hfd
    · rw [hother j hj] at hu hl ⊢
      exact h.dead j hu hl fd hfd

/-! ### New tasks -/

/-- A task that may enter the table as task `i`, with the descriptor table `T`. -/
structure NewTask (ts : Tasks) (table : ℕ → ℕ) (T : ℕ) (t : Task) : Prop where
  pid : t.pid = ts.nextPid
  tgid : 0 < t.tgid ∧ t.tgid ≤ ts.nextPid
  fdtGroup : 0 < t.fdtGroup ∧ t.fdtGroup ≤ ts.nextPid
  group : t.live = true → t.fdtGroup = T
  thread : t.live = true → ∀ j, (ts.task j).live = true → t.tgid = (ts.task j).tgid → T = table j
  agree : t.live = true → ∀ j, (ts.task j).live = true → table j = T → t.fds = (ts.task j).fds
  dead : t.live = false → ∀ fd < taskFdMax, (t.fds fd).kind = .none

theorem Coherent.addTask {ts : Tasks} {table : ℕ → ℕ} {i T : ℕ} {t : Task}
    (h : Coherent ts table) (hi : i < taskMax) (ht : NewTask ts table T t) : Coherent (ts.addTask i t) (update table i T) := by
  have hself : (ts.addTask i t).task i = t := update_self _ _ _
  have hother : ∀ j, j ≠ i → (ts.addTask i t).task j = ts.task j :=
    fun j hj => update_of_ne hj _ _
  have htself : update table i T i = T := update_self _ _ _
  have htother : ∀ j, j ≠ i → update table i T j = table j :=
    fun j hj => update_of_ne hj _ _
  have hnext : (ts.addTask i t).nextPid = ts.nextPid + 1 := rfl
  constructor
  · intro j hu
    by_cases hj : j = i
    · rw [hj]
      exact hi
    · rw [hother j hj] at hu
      exact h.small j hu
  · intro j hu
    rw [hnext]
    by_cases hj : j = i
    · rw [hj, hself, ht.pid]
      have := ht.tgid
      omega
    · rw [hother j hj] at hu ⊢
      have := h.pid j hu
      omega
  · intro j hu
    rw [hnext]
    by_cases hj : j = i
    · rw [hj, hself]
      have := ht.tgid
      omega
    · rw [hother j hj] at hu ⊢
      have := h.tgid j hu
      omega
  · intro j hu
    rw [hnext]
    by_cases hj : j = i
    · rw [hj, hself]
      have := ht.fdtGroup
      omega
    · rw [hother j hj] at hu ⊢
      have := h.fdtGroup j hu
      omega
  · intro j k hj hk hp
    by_cases hji : j = i <;> by_cases hki : k = i
    · rw [hji, hki]
    · rw [hji, hself, ht.pid, hother k hki] at hp
      rw [hother k hki] at hk
      have := h.pid k hk
      omega
    · rw [hki, hself, ht.pid, hother j hji] at hp
      rw [hother j hji] at hj
      have := h.pid j hj
      omega
    · rw [hother j hji] at hj hp
      rw [hother k hki] at hk hp
      exact h.pid_inj j k hj hk hp
  · intro j hl
    by_cases hj : j = i
    · rw [hj, hself] at hl
      rw [hj, hself, htself]
      exact ht.group hl
    · rw [hother j hj] at hl
      rw [hother j hj, htother j hj]
      exact h.group j hl
  · intro j k hj hk hp
    by_cases hji : j = i <;> by_cases hki : k = i
    · rw [hji, hki]
    · rw [hji, hself] at hj
      rw [hother k hki] at hk
      rw [hji, hself, hother k hki] at hp
      rw [hji, htself, htother k hki]
      exact ht.thread hj k hk hp
    · rw [hki, hself] at hk
      rw [hother j hji] at hj
      rw [hki, hself, hother j hji] at hp
      rw [hki, htself, htother j hji]
      exact (ht.thread hk j hj hp.symm).symm
    · rw [hother j hji] at hj hp
      rw [hother k hki] at hk hp
      rw [htother j hji, htother k hki]
      exact h.thread j k hj hk hp
  · intro j k hj hk hp
    by_cases hji : j = i <;> by_cases hki : k = i
    · rw [hji, hki]
    · rw [hji, hself] at hj
      rw [hother k hki] at hk
      rw [hji, htself, htother k hki] at hp
      rw [hji, hself, hother k hki]
      exact ht.agree hj k hk hp.symm
    · rw [hki, hself] at hk
      rw [hother j hji] at hj
      rw [hki, htself, htother j hji] at hp
      rw [hki, hself, hother j hji]
      exact (ht.agree hk j hj hp).symm
    · rw [hother j hji] at hj
      rw [hother k hki] at hk
      rw [htother j hji, htother k hki] at hp
      rw [hother j hji, hother k hki]
      exact h.agree j k hj hk hp
  · intro j hu hl fd hfd
    by_cases hj : j = i
    · rw [hj, hself] at hl ⊢
      exact ht.dead hl fd hfd
    · rw [hother j hj] at hu hl ⊢
      exact h.dead j hu hl fd hfd

end Ridux
