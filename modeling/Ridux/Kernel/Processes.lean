import Ridux.Lib.Slots
import Ridux.Text

/-!
# The built-in scheduler

The table of the kernel's own processes, and the tick that goes round in it.

* `Process`, `ProcTable`, `ElfImage`;
* `ProcTable.procAlloc`, `procKill`, `schedulerTick`;
* `ProcTable.decisions`: the ticks of a run, each with the table it found and the slot it chose;
* `ProcTable.ahead`: how far the scan of a tick goes to come to a slot;
* `ProcTable.Keeps`: a kill does not send the scan back;
* `ProcTable.scheduler_visits_everyone`: then everyone who waits is visited.
-/

namespace Ridux

open Lib Function List

def procMax : ℕ := 32

def elfMaxImages : ℕ := 12

/-- `elf_image_t`. -/
structure ElfImage where
  used : Bool
  path : Bytes
  baseVaddr : ℕ
  entryVaddr : ℕ
  memSize : ℕ
  loadedSegments : ℕ
  memory : Bytes
  deriving DecidableEq

/-- An image that is not loaded. -/
def ElfImage.zero : ElfImage := ⟨false, [], 0, 0, 0, 0, []⟩

/-- `proc_state_t`. -/
inductive ProcState
  | unused | ready | running | sleep
  deriving DecidableEq

/-- `process_t`. -/
structure Process where
  used : Bool
  pid : ℤ
  name : Bytes
  state : ProcState
  cpuTicks : BitVec 32
  workUnits : BitVec 32
  isUser : Bool
  elfSlot : ℤ
  userPc : BitVec 32
  deriving DecidableEq

namespace Process

/-- A slot after `k_memset`. -/
def zero : Process := ⟨false, 0, [], .unused, 0, 0, false, 0, 0⟩

/-- A tick would run the process. -/
def Runnable (p : Process) : Prop := p.used = true ∧ (p.state = .ready ∨ p.state = .running)

instance (p : Process) : Decidable p.Runnable := inferInstanceAs (Decidable (_ ∧ _))

/-- What a tick lets the process in slot `idx` do: a process with an image takes its next byte. -/
def work (p : Process) (images : ℕ → ElfImage) (idx : ℕ) : Process :=
  let im := images p.elfSlot.toNat
  if p.isUser ∧ 0 ≤ p.elfSlot ∧ p.elfSlot < elfMaxImages ∧ im.used ∧ 0 < im.memSize then
    let pc := p.userPc.toNat % im.memSize
    { p with
      userPc := BitVec.ofNat 32 ((pc + 1) % im.memSize)
      workUnits := p.workUnits + BitVec.ofNat 32 ((im.memory.getD pc 0).toNat % 16 + 1) }
  else { p with workUnits := p.workUnits + BitVec.ofNat 32 (idx + 3) }

@[simp] theorem work_used (p : Process) (images : ℕ → ElfImage) (idx : ℕ) :
    (p.work images idx).used = p.used := by
  unfold work
  dsimp only
  split_ifs <;> rfl

@[simp] theorem work_pid (p : Process) (images : ℕ → ElfImage) (idx : ℕ) :
    (p.work images idx).pid = p.pid := by
  unfold work
  dsimp only
  split_ifs <;> rfl

end Process

/-- The table of processes; `current` is none where `g_proc_current` is -1. -/
structure ProcTable where
  processes : ℕ → Process
  current : Option ℕ
  nextPid : ℤ

namespace ProcTable

def procAlloc (t : ProcTable) (name : Bytes) (isUser : Bool) (elfSlot : ℤ) (pc0 : BitVec 32) :
    ℤ × ProcTable :=
  match firstSlot (fun i => !(t.processes i).used) procMax with
  | none => (-1, t)
  | some i =>
    (t.nextPid,
      { t with
        processes := update t.processes i
          ⟨true, t.nextPid, strlcpy 24 name, .ready, 0, 0, isUser, elfSlot, pc0⟩
        nextPid := t.nextPid + 1 })

/-- The slot of a process identifier. -/
def findPid (t : ProcTable) (pid : ℤ) : Option ℕ :=
  firstSlot (fun i => (t.processes i).used && decide ((t.processes i).pid = pid)) procMax

def procKill (t : ProcTable) (pid : ℤ) : Bool × ProcTable :=
  match t.findPid pid with
  | none => (false, t)
  | some i =>
    (true,
      { t with
        processes := update t.processes i
          { t.processes i with
            used := false, state := .unused, isUser := false, elfSlot := -1, userPc := 0 }
        current := if t.current = some i then none else t.current })

/-- The current process is no longer running, when a tick begins. -/
def demote (t : ProcTable) : ProcTable :=
  match t.current with
  | none => t
  | some c =>
    if c < procMax ∧ (t.processes c).used = true ∧ (t.processes c).state = .running then
      { t with processes := update t.processes c { t.processes c with state := .ready } }
    else t

/-- Where the scan of a tick begins, less one. -/
def base (t : ProcTable) : ℕ := t.current.getD 0

/-- The slot that the scan comes to after `i` others. -/
def scanned (t : ProcTable) (i : ℕ) : ℕ := (t.base + 1 + i) % procMax

/-- The process in slot `idx` is run. -/
def dispatch (t : ProcTable) (images : ℕ → ElfImage) (idx : ℕ) : ProcTable :=
  let p := { t.processes idx with state := .running, cpuTicks := (t.processes idx).cpuTicks + 1 }
  { t with processes := update t.processes idx (p.work images idx), current := some idx }

def schedulerTick (t : ProcTable) (images : ℕ → ElfImage) : ProcTable :=
  let t := t.demote
  match firstSlot (fun i => (t.processes (t.scanned i)).used &&
      decide ((t.processes (t.scanned i)).state = .ready)) procMax with
  | some i => t.dispatch images (t.scanned i)
  | none => { t with current := none }

/-- The names that `proc_bootstrap` spawns. -/
def bootNames : List Bytes :=
  [ascii "kernel", ascii "compositor", ascii "ridux-shell", ascii "flushd", ascii "ridux-fsd",
    ascii "ps2-inputd", ascii "rtc-tickd", ascii "pci-bus"]

def procSpawn (t : ProcTable) (name : Bytes) : ProcTable := (t.procAlloc name false (-1) 0).2

def procBootstrap : ProcTable := bootNames.foldl procSpawn ⟨fun _ => .zero, none, 1⟩

/-! ### Runs -/

/-- What is done to the table; a tick finds the images as they are then. -/
inductive Op
  | alloc (name : Bytes) (isUser : Bool) (elfSlot : ℤ) (pc0 : BitVec 32)
  | kill (pid : ℤ)
  | tick (images : ℕ → ElfImage)

/-- One operation. -/
def exec (t : ProcTable) : Op → ProcTable
  | .alloc name isUser elfSlot pc0 => (t.procAlloc name isUser elfSlot pc0).2
  | .kill pid => (t.procKill pid).2
  | .tick images => t.schedulerTick images

/-- The ticks of a run: the table that each one finds, and the slot that it chooses. -/
def decisions : ProcTable → List Op → List (ProcTable × Option ℕ)
  | _, [] => []
  | t, .tick images :: ops =>
    (t, (t.schedulerTick images).current) :: decisions (t.schedulerTick images) ops
  | t, op :: ops => decisions (t.exec op) ops

/-- In slot `j` is the process `pid`, and a tick would run it. -/
def Waits (t : ProcTable) (j : ℕ) (pid : ℤ) : Prop :=
  j < procMax ∧ (t.processes j).pid = pid ∧ (t.processes j).Runnable

/-- The process `pid` in slot `j` is visited if it waits all the time. -/
def Visits (ds : List (ProcTable × Option ℕ)) : Prop :=
  ∀ j pid, (∀ d ∈ ds, d.1.Waits j pid) → ∃ d ∈ ds, d.2 = some j

/-- No slot is chosen that is free or was killed. -/
def ChoosesUsed (ds : List (ProcTable × Option ℕ)) : Prop :=
  ∀ d ∈ ds, ∀ j, d.2 = some j → j < procMax ∧ (d.1.processes j).Runnable

/-- A kill does not hit the process that ran last, unless that is in slot 0. -/
def Keeps (t : ProcTable) : Op → Prop
  | .kill pid => ∀ i, t.current = some i → t.findPid pid = some i → i = 0
  | _ => True

/-- Every step of a run keeps the place of the scan. -/
def KeepsPlace : ProcTable → List Op → Prop
  | _, [] => True
  | t, op :: ops => t.Keeps op ∧ KeepsPlace (t.exec op) ops

/-! ### One tick -/

variable {t : ProcTable} {ops : List Op} {i : ℕ}

/-- Nobody runs but the current process. -/
structure Wf (t : ProcTable) : Prop where
  current_lt : ∀ i, t.current = some i → i < procMax
  running : ∀ i < procMax, (t.processes i).used = true → (t.processes i).state = .running →
    t.current = some i

@[simp] theorem demote_current (t : ProcTable) : t.demote.current = t.current := by
  unfold demote
  split
  · rfl
  · split_ifs <;> rfl

theorem demote_processes (t : ProcTable) (i : ℕ) :
    t.demote.processes i =
      if t.current = some i ∧ i < procMax ∧ (t.processes i).used = true ∧
          (t.processes i).state = .running
      then { t.processes i with state := .ready } else t.processes i := by
  unfold demote
  cases hc : t.current with
  | none => simp
  | some c =>
    by_cases hic : i = c
    · subst hic
      by_cases hcur : i < procMax ∧ (t.processes i).used = true ∧ (t.processes i).state = .running
      · simp [hcur]
      · simp [hcur]
    · have hne : c ≠ i := fun h => hic h.symm
      dsimp only
      split_ifs <;> simp_all

theorem Wf.ready_iff (h : t.Wf) (hi : i < procMax) :
    (t.demote.processes i).used = true ∧ (t.demote.processes i).state = .ready ↔
      (t.processes i).Runnable := by
  have hrun := h.running i hi
  rw [demote_processes, Process.Runnable]
  split_ifs with hcur
  · simp [hcur.2.2.1, hcur.2.2.2]
  · refine ⟨fun hr => ⟨hr.1, .inl hr.2⟩, fun hr => ⟨hr.1, hr.2.resolve_right fun hs => ?_⟩⟩
    exact hcur ⟨hrun hr.1 hs, hi, hr.1, hs⟩

theorem Wf.demote_ready (h : t.Wf) (hi : i < procMax) (hu : (t.demote.processes i).used = true) :
    (t.demote.processes i).state ≠ .running := by
  intro hs
  rw [demote_processes] at hu hs
  split_ifs at hu hs with hcur
  exact hcur ⟨h.running i hi hu hs, hi, hu, hs⟩

theorem base_demote (t : ProcTable) : t.demote.base = t.base := by simp [base]

theorem scanned_demote (t : ProcTable) (i : ℕ) : t.demote.scanned i = t.scanned i := by
  simp [scanned, base_demote]

theorem scanned_lt (t : ProcTable) (i : ℕ) : t.scanned i < procMax := Nat.mod_lt _ (by decide)

/-- **What a tick does**: it runs the first one who waits, or there is nobody. -/
theorem Wf.tick_cases (h : t.Wf) (images : ℕ → ElfImage) :
    (∃ i < procMax, (t.processes (t.scanned i)).Runnable ∧
      (∀ k < i, ¬ (t.processes (t.scanned k)).Runnable) ∧
      t.schedulerTick images = t.demote.dispatch images (t.scanned i)) ∨
    ((∀ i < procMax, ¬ (t.processes (t.scanned i)).Runnable) ∧
      t.schedulerTick images = { t.demote with current := none }) := by
  have hready : ∀ i, ((t.demote.processes (t.demote.scanned i)).used &&
      decide ((t.demote.processes (t.demote.scanned i)).state = .ready)) = true ↔
      (t.processes (t.scanned i)).Runnable := by
    intro i
    rw [Bool.and_eq_true, decide_eq_true_iff, scanned_demote]
    exact h.ready_iff (scanned_lt t i)
  unfold schedulerTick
  dsimp only
  cases hf : firstSlot (fun i => (t.demote.processes (t.demote.scanned i)).used &&
      decide ((t.demote.processes (t.demote.scanned i)).state = .ready)) procMax with
  | none =>
    refine .inr ⟨fun i hi hr => ?_, rfl⟩
    have hfalse := firstSlot_eq_none hf i hi
    rw [(hready i).2 hr] at hfalse
    cases hfalse
  | some i =>
    obtain ⟨hi, hp, hfirst⟩ := firstSlot_eq_some_iff.1 hf
    refine .inl ⟨i, hi, (hready i).1 hp, fun k hk hr => ?_, ?_⟩
    · have hfalse := hfirst k hk
      rw [(hready k).2 hr] at hfalse
      cases hfalse
    · dsimp only
      rw [scanned_demote]

theorem Wf.tick (h : t.Wf) (images : ℕ → ElfImage) : (t.schedulerTick images).Wf := by
  rcases h.tick_cases images with ⟨i, -, -, -, heq⟩ | ⟨-, heq⟩
  · rw [heq]
    refine ⟨fun j hj => ?_, fun j hj hu hs => ?_⟩
    · obtain rfl := Option.some.inj hj
      exact scanned_lt t i
    · by_cases hji : j = t.scanned i
      · rw [hji]
        rfl
      · simp only [dispatch, update_of_ne hji] at hu hs
        exact absurd hs (h.demote_ready hj hu)
  · rw [heq]
    refine ⟨fun j hj => ?_, fun j hj hu hs => absurd hs (h.demote_ready hj hu)⟩
    cases hj

theorem Wf.alloc (h : t.Wf) (name : Bytes) (isUser : Bool) (elfSlot : ℤ) (pc0 : BitVec 32) :
    (t.procAlloc name isUser elfSlot pc0).2.Wf := by
  unfold procAlloc
  cases hf : firstSlot (fun i => !(t.processes i).used) procMax with
  | none => exact h
  | some i =>
    refine ⟨h.current_lt, fun j hj hu hs => ?_⟩
    by_cases hji : j = i
    · subst hji
      simp at hs
    · simp only [update_of_ne hji] at hu hs
      exact h.running j hj hu hs

theorem Wf.kill (h : t.Wf) (pid : ℤ) : (t.procKill pid).2.Wf := by
  unfold procKill
  cases hf : t.findPid pid with
  | none => exact h
  | some i =>
    refine ⟨fun j hj => ?_, fun j hj hu hs => ?_⟩
    · dsimp only at hj
      split_ifs at hj with hcur
      exact h.current_lt j hj
    · by_cases hji : j = i
      · subst hji
        simp at hu
      · simp only [update_of_ne hji] at hu hs
        have hj := h.running j hj hu hs
        dsimp only
        rw [hj, if_neg (by simpa using hji)]

theorem Wf.exec (h : t.Wf) (op : Op) : (t.exec op).Wf := by
  cases op with
  | alloc name isUser elfSlot pc0 => exact h.alloc name isUser elfSlot pc0
  | kill pid => exact h.kill pid
  | tick images => exact h.tick images

/-! ### How the scan comes round -/

/-- How many slots the scan of a tick looks at until it comes to slot `j`. -/
def ahead (t : ProcTable) (j : ℕ) : ℕ := if t.base < j then j - t.base else j + procMax - t.base

theorem Wf.base_lt (h : t.Wf) : t.base < procMax := by
  unfold base
  cases hc : t.current with
  | none => decide
  | some c => exact h.current_lt c hc

variable {j : ℕ} {pid : ℤ}

theorem ahead_pos (hb : t.base < procMax) : 0 < t.ahead j := by
  unfold ahead
  split_ifs <;> omega

theorem ahead_le (hj : j < procMax) : t.ahead j ≤ procMax := by
  unfold ahead
  split_ifs <;> omega

theorem scanned_ahead (hb : t.base < procMax) (hj : j < procMax) : t.scanned (t.ahead j - 1) = j := by
  unfold scanned ahead procMax at *
  split_ifs <;> omega

theorem ahead_dispatch (hb : t.base < procMax) (hj : j < procMax) (images : ℕ → ElfImage)
    (hi : i + 1 < t.ahead j) :
    (t.demote.dispatch images (t.scanned i)).ahead j + (i + 1) = t.ahead j := by
  have hbase : (t.demote.dispatch images (t.scanned i)).base = t.scanned i := rfl
  unfold ahead at hi ⊢
  rw [hbase]
  unfold scanned procMax at *
  split_ifs at hi ⊢ <;> omega

/-- **One tick**: who waits is chosen, or the scan comes nearer to him. -/
theorem Wf.tick_nearer (h : t.Wf) (images : ℕ → ElfImage) (hw : t.Waits j pid) :
    (t.schedulerTick images).current = some j ∨ (t.schedulerTick images).ahead j < t.ahead j := by
  obtain ⟨hj, -, hrun⟩ := hw
  have hb := h.base_lt
  have hpos := ahead_pos (j := j) hb
  have hle := ahead_le (t := t) hj
  have hlast := scanned_ahead hb hj
  rw [← hlast] at hrun
  rcases h.tick_cases images with ⟨i, -, -, hfirst, heq⟩ | ⟨hnone, -⟩
  · have hi : i ≤ t.ahead j - 1 := by
      by_contra hlt
      exact hfirst _ (by omega) hrun
    rw [heq]
    rcases Nat.eq_or_lt_of_le hi with hie | hlt
    · left
      rw [hie, hlast]
      rfl
    · right
      have := ahead_dispatch hb hj images (i := i) (by omega)
      omega
  · exact absurd hrun (hnone _ (by omega))

theorem base_alloc (t : ProcTable) (name : Bytes) (isUser : Bool) (elfSlot : ℤ) (pc0 : BitVec 32) :
    (t.procAlloc name isUser elfSlot pc0).2.base = t.base := by
  unfold procAlloc base
  cases firstSlot (fun i => !(t.processes i).used) procMax <;> rfl

theorem base_kill (h : t.Keeps (.kill pid)) : (t.procKill pid).2.base = t.base := by
  unfold procKill base
  cases hf : t.findPid pid with
  | none => rfl
  | some i =>
    dsimp only
    split_ifs with hcur
    · rw [hcur, h i hcur hf]
      rfl
    · rfl

theorem ahead_congr {u : ProcTable} (h : u.base = t.base) : u.ahead j = t.ahead j := by
  unfold ahead
  rw [h]

/-! ### Whole runs -/

theorem Wf.exists_chosen (h : t.Wf) (hkeep : KeepsPlace t ops)
    (hw : ∀ d ∈ decisions t ops, d.1.Waits j pid) (hn : t.ahead j ≤ (decisions t ops).length) :
    ∃ d ∈ decisions t ops, d.2 = some j := by
  induction ops generalizing t with
  | nil =>
    have := ahead_pos (j := j) h.base_lt
    simp only [decisions, length_nil] at hn
    omega
  | cons op ops ih =>
    cases op with
    | alloc name isUser elfSlot pc0 =>
      have hahead := ahead_congr (j := j) (base_alloc t name isUser elfSlot pc0)
      exact ih (h.alloc name isUser elfSlot pc0) hkeep.2 hw (hahead ▸ hn)
    | kill pid' =>
      have hahead := ahead_congr (j := j) (base_kill hkeep.1)
      exact ih (h.kill pid') hkeep.2 hw (hahead ▸ hn)
    | tick images =>
      simp only [decisions, mem_cons, forall_eq_or_imp, length_cons] at hw hn
      rcases h.tick_nearer images hw.1 with hnow | hlt
      · exact ⟨_, mem_cons_self, hnow⟩
      · obtain ⟨d, hd, hc⟩ := ih (h.tick images) hkeep.2 hw.2 (by omega)
        exact ⟨d, mem_cons_of_mem _ hd, hc⟩

theorem Wf.choosesUsed (h : t.Wf) (ops : List Op) : ChoosesUsed (decisions t ops) := by
  induction ops generalizing t with
  | nil =>
    intro d hd
    cases hd
  | cons op ops ih =>
    cases op with
    | alloc name isUser elfSlot pc0 => exact ih (h.alloc name isUser elfSlot pc0)
    | kill pid => exact ih (h.kill pid)
    | tick images =>
      intro d hd j hj
      rcases mem_cons.1 hd with rfl | hd
      · rcases h.tick_cases images with ⟨i, -, hrun, -, heq⟩ | ⟨-, heq⟩
        · simp only [heq, dispatch, Option.some.injEq] at hj
          exact hj ▸ ⟨scanned_lt t i, hrun⟩
        · simp [heq] at hj
      · exact ih (h.tick images) d hd j hj

/-- The table after a run from the boot. -/
def run (ops : List Op) : ProcTable := ops.foldl exec procBootstrap

theorem wf_procSpawn (h : t.Wf) (name : Bytes) : (t.procSpawn name).Wf := h.alloc name false (-1) 0

theorem wf_procBootstrap : procBootstrap.Wf := by
  have hstart : Wf ⟨fun _ => .zero, none, 1⟩ := by
    refine ⟨fun i hi => ?_, fun i _ hu => ?_⟩
    · cases hi
    · cases hu
  unfold procBootstrap
  generalize bootNames = names
  induction names using List.reverseRecOn with
  | nil => exact hstart
  | append_singleton names name ih =>
    rw [foldl_append]
    exact wf_procSpawn ih name

theorem wf_run (ops : List Op) : (run ops).Wf := by
  induction ops using List.reverseRecOn with
  | nil => exact wf_procBootstrap
  | append_singleton ops op ih =>
    rw [run, foldl_append]
    exact ih.exec op

/-- **The scheduler never chooses a free slot, and it visits everyone who waits**, as long as no kill
sends its scan back. -/
theorem scheduler_visits_everyone (before ops : List Op) :
    ChoosesUsed (decisions (run before) ops) ∧
      (KeepsPlace (run before) ops → (decisions (run before) ops).length = procMax →
        Visits (decisions (run before) ops)) := by
  have hwf := wf_run before
  refine ⟨hwf.choosesUsed ops, fun hkeep hn j pid hw => ?_⟩
  obtain ⟨d, hd⟩ := exists_mem_of_length_pos (l := decisions (run before) ops) (by
    rw [hn]
    decide)
  have hj := (hw d hd).1
  exact hwf.exists_chosen hkeep hw (hn ▸ ahead_le hj)

theorem keepsPlace_ticks (images : ℕ → ElfImage) (n : ℕ) : KeepsPlace t (List.replicate n (.tick images)) := by
  induction n generalizing t with
  | zero => trivial
  | succ n ih => exact ⟨trivial, ih⟩

/-- The processes of the boot are all visited. -/
theorem scheduler_visits_everyone_boot :
    Visits (decisions (run []) (List.replicate procMax (.tick fun _ => .zero))) :=
  (scheduler_visits_everyone [] (List.replicate procMax (.tick fun _ => .zero))).2
    (keepsPlace_ticks _ _) (by decide)

/-! ### A scan that is always sent back -/

/-- The job in slot 1 is killed when it has run, and started again. -/
def restarts : ℕ → ℤ → ℤ → List Op
  | 0, _, _ => []
  | n + 1, pid, next =>
    .tick (fun _ => .zero) :: .kill pid :: .alloc (ascii "job") false (-1) 0 ::
      restarts n next (next + 1)

/-- The job waits in slot 1 as `pid`; behind it waits the process 3. -/
structure Restarting (t : ProcTable) (pid : ℤ) : Prop where
  wf : t.Wf
  current : t.current = none
  first : (t.processes 0).used = true
  first_pid : (t.processes 0).pid < pid
  pid_lt : pid < t.nextPid
  job : t.Waits 1 pid
  behind : t.Waits 2 3

theorem Restarting.next (h : t.Restarting pid) (images : ℕ → ElfImage) :
    (t.schedulerTick images).current = some 1 ∧
      Restarting (((t.schedulerTick images).procKill pid).2.procAlloc (ascii "job") false (-1) 0).2
        t.nextPid ∧
      (((t.schedulerTick images).procKill pid).2.procAlloc (ascii "job") false (-1) 0).2.nextPid =
        t.nextPid + 1 := by
  have hscan : t.scanned 0 = 1 := by simp [scanned, base, h.current, procMax]
  have hdemote : t.demote = t := by simp [demote, h.current]
  have htick : t.schedulerTick images = t.dispatch images 1 := by
    rcases h.wf.tick_cases images with ⟨i, -, -, hfirst, heq⟩ | ⟨hnone, -⟩
    · obtain rfl : i = 0 := by
        by_contra hi
        exact hfirst 0 (by omega) (hscan ▸ h.job.2.2)
      rw [heq, hdemote, hscan]
    · exact absurd (hscan ▸ h.job.2.2) (hnone 0 (by decide))
  have hpid : (t.processes 1).pid = pid := h.job.2.1
  have hused : (t.processes 1).used = true := h.job.2.2.1
  have hfind : (t.dispatch images 1).findPid pid = some 1 := by
    refine firstSlot_eq_some_iff.2 ⟨by decide, by simp [dispatch, hpid, hused], fun k hk => ?_⟩
    obtain rfl : k = 0 := by omega
    simp [dispatch, h.first, h.first_pid.ne]
  have hkill := (h.wf.tick images).kill pid
  rw [htick] at hkill ⊢
  refine ⟨rfl, ?_⟩
  have hwf := hkill.alloc (ascii "job") false (-1) 0
  unfold procKill at hwf ⊢
  rw [hfind] at hwf ⊢
  have hfree : firstSlot (fun i => !((update (t.dispatch images 1).processes 1
      { (t.dispatch images 1).processes 1 with
        used := false, state := .unused, isUser := false, elfSlot := -1, userPc := 0 }) i).used)
      procMax = some 1 := by
    refine firstSlot_eq_some_iff.2 ⟨by decide, by simp, fun k hk => ?_⟩
    obtain rfl : k = 0 := by omega
    simp [dispatch, h.first]
  unfold procAlloc at hwf ⊢
  dsimp only at hwf hfree ⊢
  rw [hfree] at hwf ⊢
  dsimp only at hwf ⊢
  have hnext := h.pid_lt
  have hfirst := h.first_pid
  obtain ⟨h2, h3, hrun⟩ := h.behind
  refine ⟨⟨hwf, by simp [dispatch], by simp [dispatch, h.first], ?_, ?_, ?_, ?_⟩, rfl⟩
  · simp only [dispatch, ne_eq, zero_ne_one, not_false_eq_true, update_of_ne]
    omega
  · simp only [dispatch]
    omega
  · exact ⟨by decide, by simp [dispatch], by simp [Process.Runnable]⟩
  · exact ⟨h2, by simpa [dispatch] using h3, by simpa [dispatch] using hrun⟩

theorem Restarting.decisions_restarts (h : t.Restarting pid) (n : ℕ) :
    (decisions t (restarts n pid t.nextPid)).length = n ∧
      ∀ d ∈ decisions t (restarts n pid t.nextPid), d.1.Waits 2 3 ∧ d.2 = some 1 := by
  induction n generalizing t pid with
  | zero => exact ⟨rfl, fun d hd => by cases hd⟩
  | succ n ih =>
    obtain ⟨hchosen, hnext, hpid⟩ := h.next fun _ => .zero
    obtain ⟨hlen, hall⟩ := ih hnext
    rw [hpid] at hlen hall
    refine ⟨congrArg (· + 1) hlen, fun d hd => ?_⟩
    rcases mem_cons.1 hd with rfl | hd
    · exact ⟨h.behind, hchosen⟩
    · exact hall d hd

theorem restarting_boot : procBootstrap.Restarting 2 :=
  ⟨wf_procBootstrap, rfl, rfl, by decide, by decide, ⟨by decide, rfl, by decide⟩,
    ⟨by decide, rfl, by decide⟩⟩

/-- Process 3 waits at all of the next ticks, and none chooses it. -/
theorem scheduler_starves : ¬ ∀ before ops : List Op,
    (decisions (run before) ops).length = procMax → Visits (decisions (run before) ops) := by
  intro h
  obtain ⟨hlen, hall⟩ := restarting_boot.decisions_restarts procMax
  obtain ⟨d, hd, hchosen⟩ := h [] _ hlen 2 3 fun d hd => (hall d hd).1
  rw [(hall d hd).2] at hchosen
  cases hchosen

end ProcTable

end Ridux
