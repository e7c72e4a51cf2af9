import Ridux.Fd.Tasks

/-!
# One table for a group of tasks

When the arrays of the tasks of a group are equal, the group operations act on them as on one
table.

* `Tasks.setTable`: give the array `g` to a task and to its live peers;
* `Grouped ts c g`: `g` is the array of `c` and of its live peers, and the dead of the group hold
  nothing;
* `Grouped.sync`, `Grouped.freeFd`, `Grouped.install`, `Grouped.clear`: the group operations as
  operations on `g`.
-/

namespace Ridux

open Lib Function

/-! ### Tasks that differ in their arrays only -/

def Task.withFds (t : Task) (g : ℕ → Fd) : Task := { t with fds := g }

section

variable (t u : Task) (g h : ℕ → Fd)

@[simp] theorem live_withFds : (t.withFds g).live = t.live := rfl

@[simp] theorem used_withFds : (t.withFds g).used = t.used := rfl

@[simp] theorem fds_withFds : (t.withFds g).fds = g := rfl

@[simp] theorem withFds_withFds : (t.withFds g).withFds h = t.withFds h := rfl

@[simp] theorem withFds_fds : t.withFds t.fds = t := rfl

@[simp] theorem sameGroup_withFds_left :
    c3FdSameGroup (t.withFds g) u = c3FdSameGroup t u := rfl

@[simp] theorem sameGroup_withFds_right :
    c3FdSameGroup u (t.withFds g) = c3FdSameGroup u t := rfl

theorem setFd_eq_withFds (fd : ℕ) (e : Fd) :
    t.setFd fd e = t.withFds (update t.fds fd e) := rfl

end

theorem fdValid_iff {t : Task} {fd : ℕ} :
    fdValid t fd = true ↔ fd < taskFdMax ∧ (t.fds fd).kind ≠ .none := by
  simp [fdValid]

theorem sameGroup_self (t : Task) : c3FdSameGroup t t = true := by simp [c3FdSameGroup]

namespace Tasks

variable {ts : Tasks} {c i fd : ℕ} {g h g' h' : ℕ → Fd}

theorem groupPeer_iff : ts.groupPeer c i = true ↔
    i ≠ c ∧ (ts.task i).live = true ∧ c3FdSameGroup (ts.task i) (ts.task c) = true := by
  simp [groupPeer, and_assoc]

/-- Give the array `h` to the task `c` and the array `g` to its live peers. -/
def put (ts : Tasks) (c : ℕ) (g h : ℕ → Fd) : Tasks :=
  { ts with task := fun i =>
      if i = c then (ts.task i).withFds h
      else if i < taskMax ∧ ts.groupPeer c i then (ts.task i).withFds g
      else ts.task i }

/-- Give the array `g` to the task `c` and to its live peers. -/
def setTable (ts : Tasks) (c : ℕ) (g : ℕ → Fd) : Tasks := ts.put c g g

theorem put_self : (ts.put c g h).task c = (ts.task c).withFds h := if_pos rfl

theorem put_peer (hi : i < taskMax) (hp : ts.groupPeer c i = true) :
    (ts.put c g h).task i = (ts.task i).withFds g := by
  have hne := (groupPeer_iff.1 hp).1
  simp only [put]
  rw [if_neg hne, if_pos ⟨hi, hp⟩]

theorem put_other (hne : i ≠ c) (hp : ¬(i < taskMax ∧ ts.groupPeer c i = true)) :
    (ts.put c g h).task i = ts.task i := by
  simp only [put]
  rw [if_neg hne, if_neg hp]

theorem put_withFds (i : ℕ) : ∃ k, (ts.put c g h).task i = (ts.task i).withFds k := by
  by_cases hc : i = c
  · exact ⟨h, by rw [hc, put_self]⟩
  · by_cases hp : i < taskMax ∧ ts.groupPeer c i = true
    · exact ⟨g, put_peer hp.1 hp.2⟩
    · exact ⟨(ts.task i).fds, by rw [put_other hc hp, withFds_fds]⟩

@[simp] theorem live_put : ((ts.put c g h).task i).live = (ts.task i).live := by
  obtain ⟨k, hk⟩ : ∃ k, (ts.put c g h).task i = (ts.task i).withFds k := put_withFds i
  rw [hk, live_withFds]

@[simp] theorem used_put : ((ts.put c g h).task i).used = (ts.task i).used := by
  obtain ⟨k, hk⟩ : ∃ k, (ts.put c g h).task i = (ts.task i).withFds k := put_withFds i
  rw [hk, used_withFds]

@[simp] theorem sameGroup_put (j : ℕ) :
    c3FdSameGroup ((ts.put c g h).task i) ((ts.put c g h).task j) =
      c3FdSameGroup (ts.task i) (ts.task j) := by
  obtain ⟨k, hk⟩ : ∃ k, (ts.put c g h).task i = (ts.task i).withFds k := put_withFds i
  obtain ⟨l, hl⟩ : ∃ l, (ts.put c g h).task j = (ts.task j).withFds l := put_withFds j
  rw [hk, hl, sameGroup_withFds_left, sameGroup_withFds_right]

@[simp] theorem groupPeer_put : (ts.put c g h).groupPeer c i = ts.groupPeer c i := by
  simp only [groupPeer, live_put, sameGroup_put]

theorem ext_task {us : Tasks} (hn : ts.nextPid = us.nextPid) (ht : ∀ i, ts.task i = us.task i) : ts = us := by
  obtain ⟨f, n⟩ := ts
  obtain ⟨f', n'⟩ := us
  obtain rfl : n = n' := hn
  obtain rfl : f = f' := funext ht
  rfl

theorem put_put : (ts.put c g h).put c g' h' = ts.put c g' h' := by
  refine ext_task rfl fun i => ?_
  by_cases hc : i = c
  · subst hc
    rw [put_self, put_self, put_self, withFds_withFds]
  · by_cases hp : i < taskMax ∧ ts.groupPeer c i = true
    · rw [put_peer hp.1 (by rw [groupPeer_put]; exact hp.2), put_peer hp.1 hp.2,
        put_peer hp.1 hp.2, withFds_withFds]
    · rw [put_other hc (by rw [groupPeer_put]; exact hp), put_other hc hp, put_other hc hp]

@[simp] theorem setTable_setTable : (ts.setTable c g).setTable c g' = ts.setTable c g' := put_put

theorem setFd_put (e : Fd) : (ts.put c g h).setFd c fd e = ts.put c g (update h fd e) := by
  refine ext_task rfl fun i => ?_
  by_cases hc : i = c
  · subst hc
    rw [setFd, setTask, put_self, put_self, setFd_eq_withFds, fds_withFds, withFds_withFds]
    exact update_self _ _ _
  · have hset : ((ts.put c g h).setFd c fd e).task i = (ts.put c g h).task i :=
      update_of_ne hc _ _
    rw [hset]
    by_cases hp : i < taskMax ∧ ts.groupPeer c i = true
    · rw [put_peer hp.1 hp.2, put_peer hp.1 hp.2]
    · rw [put_other hc hp, put_other hc hp]

theorem copyFd_put (hfd : fd < taskFdMax) :
    (ts.put c g h).c3FdGroupCopyFd c fd = ts.put c (update g fd (h fd)) h := by
  rw [c3FdGroupCopyFd, if_neg (by omega)]
  refine ext_task rfl fun i => ?_
  simp only [forTasks, groupPeer_put, put_self, fds_withFds]
  by_cases hp : i < taskMax ∧ ts.groupPeer c i = true
  · rw [if_pos hp, put_peer hp.1 hp.2, put_peer hp.1 hp.2, setFd_eq_withFds, fds_withFds,
      withFds_withFds]
  · rw [if_neg hp]
    by_cases hc : i = c
    · subst hc
      rw [put_self, put_self]
    · rw [put_other hc hp, put_other hc hp]

end Tasks

/-- The first free number of a table from `m` on. -/
def firstFree (g : ℕ → Fd) (m : ℕ) : Option ℕ :=
  firstSlot (fun fd => decide (m ≤ fd) && (g fd).kind == .none) taskFdMax

theorem firstFree_eq_some {g : ℕ → Fd} {m fd : ℕ} (h : firstFree g m = some fd) :
    fd < taskFdMax ∧ m ≤ fd ∧ (g fd).kind = .none := by
  obtain ⟨hlt, hp⟩ := firstSlot_eq_some h
  simp only [Bool.and_eq_true, decide_eq_true_eq, beq_iff_eq] at hp
  exact ⟨hlt, hp.1, hp.2⟩

/-- `g` is the array of `c` and of its live peers, and the dead of its group hold nothing. -/
structure Grouped (ts : Tasks) (c : ℕ) (g : ℕ → Fd) : Prop where
  lt : c < taskMax
  used : (ts.task c).used = true
  own : (ts.task c).fds = g
  peers : ∀ i < taskMax, ts.groupPeer c i = true → (ts.task i).fds = g
  dead : ∀ i, i ≠ c → (ts.task i).used = true → (ts.task i).live = false →
    ∀ fd < taskFdMax, ((ts.task i).fds fd).kind = .none

namespace Grouped

variable {ts : Tasks} {c fd : ℕ} {g : ℕ → Fd}

open Tasks

theorem setTable_eq (hg : Grouped ts c g) : ts.setTable c g = ts := by
  refine ext_task rfl fun i => ?_
  by_cases hc : i = c
  · subst hc
    rw [setTable, put_self, ← hg.own, withFds_fds]
  · by_cases hp : i < taskMax ∧ ts.groupPeer c i = true
    · rw [setTable, put_peer hp.1 hp.2, ← hg.peers i hp.1 hp.2, withFds_fds]
    · rw [setTable, put_other hc hp]

theorem setTable (hg : Grouped ts c g) (g' : ℕ → Fd) : Grouped (ts.setTable c g') c g' where
  lt := hg.lt
  used := by rw [Tasks.setTable, used_put]; exact hg.used
  own := by rw [Tasks.setTable, put_self, fds_withFds]
  peers := by
    intro i hi hp
    rw [Tasks.setTable, groupPeer_put] at hp
    rw [Tasks.setTable, put_peer hi hp, fds_withFds]
  dead := by
    intro i hc hu hl fd hfd
    rw [Tasks.setTable, used_put] at hu
    rw [Tasks.setTable, live_put] at hl
    have hp : ¬(i < taskMax ∧ ts.groupPeer c i = true) := by
      rintro ⟨-, hp⟩
      rw [(groupPeer_iff.1 hp).2.1] at hl
      cases hl
    rw [Tasks.setTable, put_other hc hp]
    exact hg.dead i hc hu hl fd hfd

theorem peerWith_eq_none (hg : Grouped ts c g) (hfd : (g fd).kind = .none) :
    ts.peerWith c fd = none := by
  cases hp : ts.peerWith c fd with
  | none => rfl
  | some i =>
    obtain ⟨hi, hq⟩ := firstSlot_eq_some hp
    rw [Bool.and_eq_true, fdValid_iff] at hq
    rw [hg.peers i hi hq.1, hfd] at hq
    exact absurd rfl hq.2.2

theorem sync (hg : Grouped ts c g) (fd : ℕ) : ts.c3FdGroupSyncFd c fd = ts := by
  rw [c3FdGroupSyncFd]
  split_ifs with h1 h2
  · rfl
  · rfl
  · have hk : (g fd).kind = .none := by
      by_contra hk
      exact h2 (fdValid_iff.2 ⟨by omega, by rw [hg.own]; exact hk⟩)
    rw [hg.peerWith_eq_none hk]

theorem slotUsed (hg : Grouped ts c g) (hfd : fd < taskFdMax) :
    ts.c3FdGroupSlotUsed c fd = ((g fd).kind != .none) := by
  rw [c3FdGroupSlotUsed, fdValid, hg.own]
  by_cases hk : (g fd).kind = .none
  · rw [hg.peerWith_eq_none hk]
    simp [hk]
  · simp [hk, hfd]

theorem freeFd (hg : Grouped ts c g) (m : ℕ) : ts.freeFd c m = firstFree g m := by
  refine firstSlot_congr fun fd hfd => ?_
  rw [hg.slotUsed hfd]
  cases (g fd).kind <;> rfl

theorem install (hg : Grouped ts c g) (hfd : fd < taskFdMax) (e : Fd) :
    ts.installFd c fd e = ts.setTable c (update g fd e) := by
  have hts : ts = ts.put c g g := hg.setTable_eq.symm
  calc ts.installFd c fd e = ((ts.put c g g).setFd c fd e).c3FdGroupCopyFd c fd := by
        rw [← hts]; rfl
    _ = ts.put c (update g fd (update g fd e fd)) (update g fd e) := by
        rw [setFd_put, copyFd_put hfd]
    _ = ts.setTable c (update g fd e) := by
        rw [update_self]; rfl

theorem clear (hg : Grouped ts c g) (hfd : fd < taskFdMax) (hk : (g fd).kind ≠ .none) :
    ts.c3FdGroupClearFd c fd = ts.setTable c (update g fd .empty) := by
  have hclose : ∀ i, (ts.task i).fds = g →
      fdClose (ts.task i) fd = (ts.task i).withFds (update g fd .empty) := by
    intro i hi
    rw [fdClose, if_pos (fdValid_iff.2 ⟨hfd, by rw [hi]; exact hk⟩), setFd_eq_withFds, hi]
  rw [c3FdGroupClearFd, if_neg (by omega)]
  refine ext_task rfl fun i => ?_
  simp only [forTasks, Tasks.setTable]
  by_cases hc : i = c
  · subst hc
    rw [put_self, if_pos ⟨hg.lt, by rw [hg.used, sameGroup_self]; rfl⟩, hclose _ hg.own]
  · by_cases hp : i < taskMax ∧ ts.groupPeer c i = true
    · obtain ⟨-, hl, hs⟩ := groupPeer_iff.1 hp.2
      have hu : (ts.task i).used = true := by
        simp only [Task.live, Bool.and_eq_true] at hl
        exact hl.1.1
      rw [put_peer hp.1 hp.2, if_pos ⟨hp.1, by rw [hu, hs]; rfl⟩, hclose _ (hg.peers i hp.1 hp.2)]
    · rw [put_other hc hp]
      split_ifs with hin
      · -- a task of the group that is not live holds nothing
        obtain ⟨hi, hin⟩ := hin
        rw [Bool.and_eq_true] at hin
        have hl : (ts.task i).live = false := by
          by_contra hl
          rw [Bool.not_eq_false] at hl
          exact hp ⟨hi, groupPeer_iff.2 ⟨hc, hl, hin.2⟩⟩
        rw [fdClose, if_neg]
        rw [fdValid_iff]
        exact fun hv => hv.2 (hg.dead i hc hin.1 hl fd hfd)
      · rfl

theorem setFd_alone (hg : Grouped ts c g) (halone : ts.c3FdGroupHasLivePeer c = false) (e : Fd) :
    ts.setFd c fd e = ts.setTable c (update g fd e) := by
  refine ext_task rfl fun i => ?_
  by_cases hc : i = c
  · subst hc
    rw [Tasks.setTable, put_self, ← hg.own]
    exact update_self _ _ _
  · have hp : ¬(i < taskMax ∧ ts.groupPeer c i = true) := by
      rintro ⟨hi, hp⟩
      have hn : firstSlot (ts.groupPeer c) taskMax = none := by
        simpa [c3FdGroupHasLivePeer] using halone
      rw [firstSlot_eq_none hn i hi] at hp
      cases hp
    rw [Tasks.setTable, put_other hc hp]
    exact update_of_ne hc _ _

end Grouped

end Ridux
