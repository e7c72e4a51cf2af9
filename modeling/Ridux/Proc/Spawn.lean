import Ridux.Proc.Table

/-!
# The address space of a new task

`task_fork` and `task_create` go on when no address space could be created: the first puts the
child into the kernel's, the second leaves the pointer null.

* `Spawn`: the two calls;
* `Safe`: the call fails and changes nothing, or the new task has an address space of its own;
* `Spawn.Meets`: when a call is safe; `spawn_safe_iff`.
-/

namespace Ridux.Proc

open Lib Function

/-- The calls that make a task. -/
inductive Spawn
  | fork (parentPid : ℤ)
  | create (entry : BitVec 64) (isUser : Bool)

/-- What a call returns and leaves. -/
def Spawn.exec (m : Machine) : Spawn → ℤ × Machine
  | .fork parentPid => m.taskFork parentPid
  | .create entry isUser => m.taskCreate entry isUser

/-- The task has a space that was not handed out before and that exists, so no other task has it
and it is not the kernel's. -/
def OwnSpace (m m' : Machine) (t : Task) : Prop :=
  ∃ n, t.addrSpace = some (.user n) ∧ m.mm.paging.nextSpace ≤ n ∧ m'.mm.paging.spaces n ≠ none

/-- A call fails and leaves everything as it was, or it makes a task that has an address space of
its own if it runs in ring 3. -/
def Safe (m : Machine) (r : ℤ × Machine) : Prop :=
  r.1 < 0 ∧ r.2 = m ∨
    ∃ i, (m.task i).used = false ∧ (r.2.task i).used = true ∧ (r.2.task i).pid = r.1 ∧
      ((r.2.task i).ring3 = true → OwnSpace m r.2 (r.2.task i))

/-- An address space can be created. -/
def CanCreate (p : Paging) : Prop := Admits p ∧ Fits p

/-- A call for a task of ring 3 that finds what it is called for and a free slot needs room for an
address space. -/
def Spawn.Meets (m : Machine) : Spawn → Prop
  | .fork parentPid => ∀ p c, m.taskOfPid parentPid = some p → m.freeTask = some c →
      (m.task p).ring3 = true → CanCreate m.mm.paging
  | .create _ isUser => ∀ c, m.freeTask = some c → isUser = true → CanCreate m.mm.paging

variable {m : Machine} {s : Paging} {r : ℤ}

/-! ### Spaces -/

theorem create_cases (h : m.mm.paging.Sound) :
    CanCreate m.mm.paging ∧ (∃ t root, pagingCreateAddressSpace m.mm.paging =
      (some m.mm.paging.nextSpace, t) ∧ t.spaces m.mm.paging.nextSpace = some root) ∨
    ¬CanCreate m.mm.paging ∧ ∃ t, pagingCreateAddressSpace m.mm.paging = (none, t) := by
  obtain ⟨own, h⟩ := h
  by_cases hadm : Admits m.mm.paging
  · rcases createAddressSpace_cases h hadm with ⟨hfits, root, t, he, hsp, -⟩ | ⟨hshort, t, he, -⟩
    · exact .inl ⟨⟨hadm, hfits⟩, t, root, he, by rw [hsp, update_self]⟩
    · exact .inr ⟨fun hc => hshort hc.2, t, he⟩
  · exact .inr ⟨fun hc => hadm hc.1, _, create_of_not_admits hadm⟩

namespace Machine

variable {c p : ℕ} {parentPid : ℤ}

theorem freeTask_unused (h : m.freeTask = some c) : (m.task c).used = false := by
  have := (firstSlot_eq_some h).2
  simp only [Bool.and_eq_true, Bool.not_eq_true'] at this
  exact this.2

theorem taskOfPid_used {pid : ℤ} (h : m.taskOfPid pid = some p) : (m.task p).used = true := by
  have := (firstSlot_eq_some h).2
  simp only [Bool.and_eq_true] at this
  exact this.1

theorem mapStackPage_slots (as : Option Space) (virt : ℕ) :
    SameSlots m.mm.paging (m.mapStackPage as virt).mm.paging := by
  unfold mapStackPage
  cases as with
  | none => exact .refl _
  | some as =>
    dsimp only
    split_ifs
    · exact (pagingMap_slots as virt _ _).after ⟨rfl, rfl⟩
    · exact .refl _

theorem mapUserStack_slots (as : Option Space) (m : Machine) :
    SameSlots m.mm.paging (m.mapUserStack as).mm.paging := by
  have hfold : ∀ (l : List ℕ) (m : Machine), SameSlots m.mm.paging
      (l.foldl (fun m pg => m.mapStackPage as (userStackTop - taskUserStack + pg * pageSize))
        m).mm.paging := by
    intro l
    induction l with
    | nil => exact fun m => .refl _
    | cons pg l ih => exact fun m => (mapStackPage_slots as _).trans (ih _)
  rw [mapUserStack]
  exact hfold _ m

theorem mapUserStack_task (as : Option Space) (m : Machine) : (m.mapUserStack as).task = m.task := by
  have hpage : ∀ (m : Machine) (virt : ℕ), (m.mapStackPage as virt).task = m.task := by
    intro m virt
    unfold mapStackPage
    cases as with
    | none => rfl
    | some as =>
      dsimp only
      split_ifs <;> rfl
  have hfold : ∀ (l : List ℕ) (m : Machine),
      (l.foldl (fun m pg => m.mapStackPage as (userStackTop - taskUserStack + pg * pageSize))
        m).task = m.task := by
    intro l
    induction l with
    | nil => exact fun m => rfl
    | cons pg l ih => exact fun m => (ih _).trans (hpage m _)
  exact hfold (List.range (taskUserStack / pageSize)) m

theorem forkSpace_cases (h : m.mm.paging.Sound) (p : Task) :
    CanCreate m.mm.paging ∧ (forkSpace p m.mm).1 = .user m.mm.paging.nextSpace ∧
      (forkSpace p m.mm).2.paging.spaces m.mm.paging.nextSpace ≠ none ∨
    ¬CanCreate m.mm.paging ∧ (forkSpace p m.mm).1 = .kernel := by
  unfold forkSpace
  rcases create_cases h with ⟨hcan, t, root, he, hroot⟩ | ⟨hcan, t, he⟩
  · rw [he]
    refine .inl ⟨hcan, rfl, ?_⟩
    have hslots := compat3ForkAddressSpace_slots p.addrSpace (some (.user m.mm.paging.nextSpace))
      { m.mm with paging := t }
    dsimp only
    rw [hslots.1, hroot]
    exact Option.some_ne_none root
  · rw [he]
    exact .inr ⟨hcan, rfl⟩

/-! ### Calls -/

theorem taskCreate_of_free (entry : BitVec 64) (hc : m.freeTask = some c)
    (created : Option ℕ × Paging) (he : pagingCreateAddressSpace m.mm.paging = created) :
    m.taskCreate entry true =
      (m.nextPid, ((m.countPid.setPaging created.2).mapUserStack
        (created.1.map Space.user)).setTask c
          (m.newUserTask c entry (created.1.map Space.user))) := by
  subst he
  simp only [taskCreate, hc, if_true]

theorem taskCreate_user (entry : BitVec 64) (hc : m.freeTask = some c) (created : Option ℕ × Paging)
    (he : pagingCreateAddressSpace m.mm.paging = created) :
    ∃ m', m.taskCreate entry true = (m.nextPid, m') ∧
      m'.task = update m.task c (m.newUserTask c entry (created.1.map Space.user)) ∧
      SameSlots created.2 m'.mm.paging := by
  have hslots := mapUserStack_slots (created.1.map Space.user) (m.countPid.setPaging created.2)
  have htask := mapUserStack_task (created.1.map Space.user) (m.countPid.setPaging created.2)
  refine ⟨_, taskCreate_of_free entry hc created he, ?_, ?_⟩
  · rw [setTask_task, htask, setPaging_task, countPid_task]
  · rw [setPaging_paging] at hslots
    rw [setTask_mm]
    exact hslots

theorem taskFork_of_parent (hp : m.taskOfPid parentPid = some p) (hc : m.freeTask = some c) :
    ∃ m', m.taskFork parentPid = (m.nextPid, m') ∧
      m'.task = update m.task c
        (m.childTask (m.task p) c (forkSpace (m.task p) m.mm).1) ∧
      m'.mm = (forkSpace (m.task p) m.mm).2 := by
  unfold taskFork
  rw [hp, hc]
  exact ⟨_, rfl, rfl, rfl⟩

theorem taskFork_of_none (hp : m.taskOfPid parentPid = none) :
    m.taskFork parentPid = (-esrch, m) := by
  unfold taskFork
  rw [hp]

theorem taskFork_of_full (hp : m.taskOfPid parentPid = some p) (hc : m.freeTask = none) :
    m.taskFork parentPid = (-eagain, m) := by
  unfold taskFork
  rw [hp, hc]

end Machine

theorem safe_of_failed (h : r < 0) : Safe m (r, m) := .inl ⟨h, rfl⟩

theorem safe_of_made {m' : Machine} {c : ℕ} {t : Task} (hc : (m.task c).used = false)
    (ht : m'.task = update m.task c t) (hused : t.used = true) (hpid : t.pid = r) :
    Safe m (r, m') ↔ (t.ring3 = true → OwnSpace m m' t) := by
  have hself : m'.task c = t := by rw [ht, update_self]
  constructor
  · rintro (⟨-, rfl⟩ | ⟨i, hi, hi', -, hown⟩)
    · rw [hself] at hc
      rw [hc] at hused
      cases hused
    · have hic : i = c := by
        by_contra hne
        dsimp only at hi'
        rw [ht, update_of_ne hne, hi] at hi'
        cases hi'
      rw [hic] at hown
      dsimp only at hown
      rwa [hself] at hown
  · intro hown
    refine .inr ⟨c, hc, ?_, ?_, ?_⟩ <;> dsimp only <;> rw [hself]
    · exact hused
    · exact hpid
    · exact hown

theorem fork_safe_iff (h : m.mm.paging.Sound) (parentPid : ℤ) :
    Safe m (m.taskFork parentPid) ↔ Spawn.Meets m (.fork parentPid) := by
  cases hp : m.taskOfPid parentPid with
  | none =>
    rw [Machine.taskFork_of_none hp]
    refine iff_of_true (safe_of_failed (by decide)) ?_
    intro p c hp'
    rw [hp] at hp'
    cases hp'
  | some p =>
    cases hc : m.freeTask with
    | none =>
      rw [Machine.taskFork_of_full hp hc]
      refine iff_of_true (safe_of_failed (by decide)) ?_
      intro p c _ hc'
      rw [hc] at hc'
      cases hc'
    | some c =>
      obtain ⟨m', he, htask, hmm⟩ := Machine.taskFork_of_parent hp hc
      have hmeets : Spawn.Meets m (.fork parentPid) ↔
          ((m.task p).ring3 = true → CanCreate m.mm.paging) := by
        constructor
        · exact fun hall => hall p c hp hc
        · intro hcan p' c' hp'
          rw [hp] at hp'
          exact fun _ hring => hcan (Option.some.inj hp' ▸ hring)
      have hused : (m.childTask (m.task p) c (Machine.forkSpace (m.task p) m.mm).1).used = true :=
        Machine.taskOfPid_used hp
      have hpid : (m.childTask (m.task p) c (Machine.forkSpace (m.task p) m.mm).1).pid =
          m.nextPid := rfl
      rw [hmeets, he, safe_of_made (Machine.freeTask_unused hc) htask hused hpid]
      have hring : (m.childTask (m.task p) c (Machine.forkSpace (m.task p) m.mm).1).ring3 =
          (m.task p).ring3 := rfl
      rw [hring]
      refine imp_congr_right fun _ => ?_
      rcases Machine.forkSpace_cases h (m.task p) with ⟨hcan, has, hsp⟩ | ⟨hcan, has⟩
      · exact iff_of_true ⟨_, congrArg some has, le_rfl, hmm ▸ hsp⟩ hcan
      · refine iff_of_false ?_ hcan
        rintro ⟨n, hn, -⟩
        have hn : some (Machine.forkSpace (m.task p) m.mm).1 = some (.user n) := hn
        rw [has] at hn
        cases hn

theorem create_safe_iff (h : m.mm.paging.Sound) (entry : BitVec 64) (isUser : Bool) :
    Safe m (m.taskCreate entry isUser) ↔ Spawn.Meets m (.create entry isUser) := by
  cases hc : m.freeTask with
  | none =>
    have hfail : m.taskCreate entry isUser = (-eagain, m) := by
      unfold Machine.taskCreate
      rw [hc]
    rw [hfail]
    refine iff_of_true (safe_of_failed (by decide)) ?_
    intro c hc'
    rw [hc] at hc'
    cases hc'
  | some c =>
    have hfree := Machine.freeTask_unused hc
    cases isUser with
    | false =>
      obtain ⟨t, he, hring⟩ : ∃ t : Task, m.taskCreate entry false =
          (m.nextPid, m.countPid.setTask c t) ∧ t.ring3 = false ∧ t.used = true ∧
            t.pid = m.nextPid := by
        unfold Machine.taskCreate
        rw [hc]
        exact ⟨_, rfl, rfl, rfl, rfl⟩
      obtain ⟨hring, hused, hpid⟩ := hring
      rw [he, safe_of_made hfree rfl hused hpid, hring]
      exact iff_of_true (fun h => absurd h Bool.false_ne_true) fun _ _ h =>
        absurd h Bool.false_ne_true
    | true =>
      have hmeets : Spawn.Meets m (.create entry true) ↔ CanCreate m.mm.paging :=
        ⟨fun hall => hall c hc rfl, fun hcan _ _ _ => hcan⟩
      rw [hmeets]
      rcases create_cases h with ⟨hcan, p, root, he, hroot⟩ | ⟨hcan, p, he⟩
      · obtain ⟨m', ht, htask, hslots⟩ := Machine.taskCreate_user entry hc _ he
        have hnew := safe_of_made (r := m.nextPid) hfree htask rfl rfl
        rw [ht, hnew]
        refine iff_of_true (fun _ => ⟨_, rfl, le_rfl, ?_⟩) hcan
        rw [hslots.1, hroot]
        exact Option.some_ne_none root
      · obtain ⟨m', ht, htask, -⟩ := Machine.taskCreate_user entry hc _ he
        have hnew := safe_of_made (r := m.nextPid) hfree htask rfl rfl
        rw [ht, hnew]
        refine iff_of_false (fun hown => ?_) hcan
        obtain ⟨n, hn, -⟩ := hown rfl
        cases hn

/-- **When a new task is safe.**  A call for a new task fails and changes nothing, or gives a task of
ring 3 an address space of its own, if and only if an address space can be created or is not asked
for. -/
theorem spawn_safe_iff (h : m.mm.paging.Sound) (call : Spawn) :
    Safe m (call.exec m) ↔ call.Meets m := by
  cases call with
  | fork parentPid => exact fork_safe_iff h parentPid
  | create entry isUser => exact create_safe_iff h entry isUser

/-! ### Samples -/

/-- A task of ring 3 with pid 2, made by the kernel's task, in the address space 0. -/
def sampleUser : Task :=
  { Task.zero with
    used := true
    pid := 2
    tgid := 2
    ppid := 1
    pgid := 2
    fdtGroup := 2
    state := .running
    ctx := { Task.zero.ctx with cs := ring3Cs, ss := 0x30, rflags := 0x200 }
    kernelStack := 0x108000
    kernelStackTop := 0x110000
    kernelRspSaved := 0x10FF00
    addrSpace := some (.user 0) }

/-- The kernel's task and the task of `sampleUser`, over the page tables `p`. -/
def sampleMachine (p : Paging) : Machine where
  mm := ⟨p, fun _ => 0, fun _ => 0, 0, 0, fun _ => none, fun _ => ⟨false, .kernel, 0, 0, 0, false⟩⟩
  task i := if i = 0 then { Task.zero with used := true, pid := 1, addrSpace := some .kernel }
    else if i = 1 then sampleUser else Task.zero
  nextPid := 3
  current := 1
  foreground := true
  kstacks := 0x100000
  trampoline := 0x101000
  stackWord _ := 0

theorem canCreate_sample (p : Paging) (hp : p = samplePaging) :
    CanCreate (sampleMachine p).mm.paging := by
  have hpaging : (sampleMachine p).mm.paging = p := rfl
  rw [hpaging, hp]
  exact ⟨samplePaging_admits, samplePaging_fits⟩

/-- The kernel makes a task for a user while there is room. -/
theorem spawn_safe_sample : Safe (sampleMachine samplePaging)
    (Spawn.exec (sampleMachine samplePaging) (.create 0x400000 true)) := by
  have hsound : (sampleMachine samplePaging).mm.paging.Sound := ⟨_, samplePaging_boot.owned⟩
  exact (spawn_safe_iff hsound (.create 0x400000 true)).2 fun _ _ _ => canCreate_sample _ rfl

theorem pmmAllocFrame_free {p : Pmm} (h : p.Inv) : (pmmAllocFrame p).2.free = p.free - 1 := by
  rcases pmmAllocFrame_cases p with ⟨f, -, -, he⟩ | ⟨hnone, he⟩
  · rw [he]
    rfl
  · rw [he, Pmm.free_eq_zero h hnone]

theorem not_fits (h : s.pmm.free = 0) : ¬Fits s := by
  unfold Fits spaceNeed
  rw [h]
  intro hle
  have hone : (1 : ℕ∞) ≤ 0 := le_trans le_self_add hle
  exact absurd hone (by decide)

/-- The sample machine with one user space, after two more frames were given away. -/
def sampleFull : Paging := (sampleSpaces.exec .allocFrame).exec .allocFrame

theorem sampleFull_run : Runs Paging.enabled Paging.exec samplePaging sampleFull :=
  (sampleSpaces_run.tail .allocFrame trivial).tail .allocFrame trivial

theorem exec_allocFrame_free (h : s.Sound) : (s.exec .allocFrame).pmm.free = s.pmm.free - 1 := by
  obtain ⟨own, h⟩ := h
  exact pmmAllocFrame_free h.pmm

theorem exec_create_free (h : s.Sound) (hadm : Admits s) (hfits : Fits s) :
    ((s.exec .createAddressSpace).pmm.free : ℕ∞) + spaceNeed s = s.pmm.free := by
  obtain ⟨own, h⟩ := h
  rcases createAddressSpace_cases h hadm with ⟨-, root, t, he, -, -, hfree⟩ | ⟨hshort, -⟩
  · show ((pagingCreateAddressSpace s).2.pmm.free : ℕ∞) + spaceNeed s = s.pmm.free
    rw [he]
    exact hfree
  · exact absurd hfits hshort

theorem sampleSpaces_free : sampleSpaces.pmm.free = 2 := by
  have hfree := exec_create_free ⟨_, samplePaging_boot.owned⟩ samplePaging_admits samplePaging_fits
  have hfour : samplePaging.pmm.free = 4 := by decide +kernel
  rw [← sampleSpaces_eq, samplePaging_need, hfour] at hfree
  have hsum : sampleSpaces.pmm.free + 2 = 4 := by exact_mod_cast hfree
  omega

theorem sampleFull_free : sampleFull.pmm.free = 0 := by
  have hspaces := pagingRun_sound samplePaging_boot sampleSpaces_run
  have hone := pagingRun_sound samplePaging_boot (sampleSpaces_run.tail .allocFrame trivial)
  rw [sampleFull, exec_allocFrame_free hone, exec_allocFrame_free hspaces, sampleSpaces_free]

/-- A task of ring 3 forks when there is no frame left: its child runs in the kernel's space. -/
theorem spawn_not_safe : ¬ ∀ (m : Machine) (call : Spawn), m.mm.paging.Sound →
    Safe m (call.exec m) := by
  intro h
  have hsound : (sampleMachine sampleFull).mm.paging.Sound :=
    pagingRun_sound samplePaging_boot sampleFull_run
  have hmeets := (fork_safe_iff hsound 2).1 (h _ (.fork 2) hsound)
  exact not_fits sampleFull_free (hmeets 1 2 rfl rfl rfl).2

end Ridux.Proc
