import Ridux.Lib.Ledger
import Ridux.Lib.Run
import Ridux.Proc.Exit

/-!
# What becomes of an exited child

A run of `fork`, `exit`, `waitpid` and the scheduler, in any order, with a record of what exits and
of what `waitpid` reports.

* `Sys`, `Op`, `Sys.exec`: the table, the tasks that are in `waitpid`, and one step;
* `Sys.Correct`: every exit is reported once, with its status, to the parent; no parent sleeps while
  a child that it waits for is a zombie; one task runs;
* `Op.Meets`: the exits that keep this; `meetingRun_correct`.
-/

namespace Ridux.Proc

open Lib Function List

/-- The slot and the code of a task that exited. -/
structure Exit where
  slot : ℕ
  code : ℤ

/-- A result of `waitpid`: who called it, the parent in the slot that was found, and what it got. -/
structure Report where
  caller : ℤ
  parent : ℤ
  pid : ℤ
  status : ℤ

/-- The machine, and what has happened in a run. -/
structure Sys where
  m : Machine
  /-- the argument of the `waitpid` in which the task of a slot is -/
  waiting : ℕ → Option ℤ
  exited : List (ℤ × Exit)
  reports : List Report

/-- What the current task does. -/
inductive Op
  | fork (frame : Option Ctx)
  | exit (pid code : ℤ)
  | waitpid (pid : ℤ) (nohang : Bool) (now sp : ℕ) (ret : BitVec 64)
  /-- the scheduler returns in `waitpid` -/
  | resume (now sp : ℕ) (ret : BitVec 64)
  /-- the scheduler is called from elsewhere: by the timer, by a system call -/
  | schedule (now sp : ℕ) (ret : BitVec 64)

namespace Sys

/-- A turn of `waitpid`, and the scheduler if the task goes to sleep. -/
def turn (pid : ℤ) (nohang : Bool) (now sp : ℕ) (ret : BitVec 64) (s : Sys) : Sys :=
  let r := s.m.waitTurn pid nohang
  match r.1 with
  | .reported child status =>
    { s with
      m := r.2
      waiting := update s.waiting s.m.current none
      reports :=
        { caller := s.m.cur.pid
          parent := ((s.m.exitedChild pid).elim 0 fun i => (s.m.task i).ppid)
          pid := child, status := status } :: s.reports }
  | .blocked =>
    { s with
      m := r.2.taskSchedule now sp ret
      waiting := update s.waiting s.m.current (some pid) }
  | _ => { s with m := r.2, waiting := update s.waiting s.m.current none }

/-- `fork`; the slot of the child waits for nothing. -/
def fork (frame : Option Ctx) (s : Sys) : Sys :=
  { s with
    m := (s.m.realSysFork frame).2
    waiting := fun i => if (s.m.task i).used then s.waiting i else none }

/-- `exit`, of any task. -/
def exit (pid code : ℤ) (s : Sys) : Sys :=
  { s with
    m := s.m.taskExit pid code
    exited := match s.m.taskOfPid pid with
      | some i => (pid, ⟨i, code⟩) :: s.exited
      | none => s.exited }

/-- `waitpid` goes on. -/
def resume (now sp : ℕ) (ret : BitVec 64) (s : Sys) : Sys :=
  match s.waiting s.m.current with
  | some pid => { s with m := s.m.waitAgain }.turn pid false now sp ret
  | none => s

/-- One step. -/
def exec (s : Sys) : Op → Sys
  | .fork frame => s.fork frame
  | .exit pid code => s.exit pid code
  | .waitpid pid nohang now sp ret => s.turn pid nohang now sp ret
  | .resume now sp ret => s.resume now sp ret
  | .schedule now sp ret => { s with m := s.m.taskSchedule now sp ret }

/-- The current task can do it: a task in `waitpid` goes on there, an exited one can only be switched
from, and who calls the scheduler is on its own stack. -/
def Enabled (s : Sys) : Op → Prop
  | .fork _ | .exit _ _ => Machine.usable s.m.cur = true ∧ s.waiting s.m.current = none
  | .waitpid _ _ _ sp ret =>
    Machine.usable s.m.cur = true ∧ s.waiting s.m.current = none ∧ s.m.OnStack sp ret
  | .resume _ sp ret => s.waiting s.m.current ≠ none ∧ s.m.OnStack sp ret
  | .schedule _ sp ret => s.waiting s.m.current = none ∧ s.m.OnStack sp ret

/-- Nothing has exited yet and no task waits. -/
structure Start (s : Sys) : Prop where
  wf : s.m.Wf
  living : ∀ i, ¬s.m.Dead i
  waiting : ∀ i, s.waiting i = none
  exited : s.exited = []
  reports : s.reports = []

/-- A zombie in its slot. -/
def held (s : Sys) (pid : ℤ) (e : Exit) : Prop :=
  s.m.Dead e.slot ∧ (s.m.task e.slot).pid = pid ∧ (s.m.task e.slot).exitCode = e.code

/-- Task `j` sleeps in `waitpid`, called for `pid`. -/
def Asleep (s : Sys) (j : ℕ) (pid : ℤ) : Prop :=
  s.m.Has j ∧ (s.m.task j).state = .sleeping ∧ s.waiting j = some pid

/-- A report is that of an exit, and went to the parent. -/
def Right (s : Sys) (r : Report) : Prop :=
  r.caller = r.parent ∧ ∃ e, (r.pid, e) ∈ s.exited ∧ r.status = Machine.statusWord e.code

/-- What exits is accounted for. -/
structure Correct (s : Sys) : Prop where
  /-- every exit was reported once or is still in its slot -/
  balanced : Balanced s.exited (s.reports.map Report.pid) s.held
  right : ∀ r ∈ s.reports, s.Right r
  /-- a parent that asks for what is still in a slot gets it -/
  reports : ∀ i, s.m.Dead i → (s.m.task i).ppid = s.m.cur.pid → ∀ nohang,
    (s.m.waitTurn (s.m.task i).pid nohang).1 =
      .reported (s.m.task i).pid (Machine.statusWord (s.m.task i).exitCode)
  /-- and no parent sleeps that waits for it -/
  awake : ∀ j pid, s.Asleep j pid → ∀ i, s.m.Dead i →
    Machine.waitsFor (s.m.task j) pid (s.m.task i) = false
  single : ∀ i j, s.m.Has i → s.m.Has j → (s.m.task i).state = .running →
    (s.m.task j).state = .running → i = j

end Sys

/-- An exit must be that of a task that has not exited, and none of its zombie children may be one
that task 1 sleeps for, unless the exit itself wakes task 1. -/
def Op.Meets (s : Sys) : Op → Prop
  | .exit pid _ => ∀ i, s.m.taskOfPid pid = some i → (s.m.task i).state ≠ .zombie ∧
      ∀ j want z, s.Asleep j want → s.m.Has z → ((s.m.task z).state = .zombie ∨ z = i) →
        (s.m.task z).ppid = pid →
        Machine.waitsFor (s.m.task j) want { s.m.task z with ppid := 1 } = true →
        (s.m.task i).ppid = 1 ∧ Machine.wants want (s.m.task i) = true
  | _ => True

namespace Sys

open Machine

/-! ### The invariant -/

/-- What the accounts are kept of, beside what they say. -/
structure Inv (s : Sys) : Prop where
  wf : s.m.Wf
  balanced : Balanced s.exited (s.reports.map Report.pid) s.held
  right : ∀ r ∈ s.reports, s.Right r
  /-- pids that exited do not come back -/
  below : ∀ pid ∈ keys s.exited, pid < s.m.nextPid
  dead : ∀ i, s.m.Has i → (s.m.task i).pid ∈ keys s.exited → (s.m.task i).state = .zombie
  /-- a task that sleeps in `waitpid` has written down what for -/
  want : ∀ j pid, s.Asleep j pid → (s.m.task j).waitPid = pid
  awake : ∀ j pid, s.Asleep j pid → ∀ i, s.m.Dead i →
    waitsFor (s.m.task j) pid (s.m.task i) = false
  alive : ∀ pid, s.waiting s.m.current = some pid → s.m.cur.state ≠ .zombie

variable {s : Sys} {t : Task} {sp i : ℕ} {ret : BitVec 64} {pid : ℤ}

theorem Inv.correct (h : s.Inv) : s.Correct where
  balanced := h.balanced
  right := h.right
  reports _ hi hchild := waitTurn_reports h.wf hi hchild
  awake := h.awake
  single i j hi hj hrun hrun' := (h.wf.single i hi hrun).trans (h.wf.single j hj hrun').symm

theorem Start.inv (h : s.Start) : s.Inv where
  wf := h.wf
  balanced := by
    rw [h.exited, h.reports]
    exact .nil fun pid e he => h.living e.slot he.1
  right r hr := by
    rw [h.reports] at hr
    cases hr
  below pid hpid := by
    rw [h.exited] at hpid
    cases hpid
  dead i _ hpid := by
    rw [h.exited] at hpid
    cases hpid
  want j pid hj := by
    have := hj.2.2
    rw [h.waiting] at this
    cases this
  awake j pid hj := by
    have := hj.2.2
    rw [h.waiting] at this
    cases this
  alive pid hw := by
    rw [h.waiting] at hw
    cases hw

/-- What a step that neither makes nor ends a task leaves of each. -/
structure SameChild (t t' : Task) : Prop where
  used : t'.used = t.used
  pid : t'.pid = t.pid
  ppid : t'.ppid = t.ppid
  pgid : t'.pgid = t.pgid
  exitCode : t'.exitCode = t.exitCode
  zombie : t'.state = .zombie ↔ t.state = .zombie

theorem SameChild.refl (t : Task) : SameChild t t := ⟨rfl, rfl, rfl, rfl, rfl, Iff.rfl⟩

theorem SameChild.of_turned {isCur : Prop} {t' : Task} (h : TurnedTask isCur t t') :
    SameChild t t' := ⟨h.used, h.pid, h.ppid, h.pgid, h.exitCode, h.zombie⟩

/-- Such a step keeps the accounts; who sleeps in `waitpid` afterwards did so before, or there is
nothing that it waits for. -/
theorem Inv.quiet {s' : Sys} (h : s.Inv) (hwf : s'.m.Wf)
    (hsame : ∀ i, SameChild (s.m.task i) (s'.m.task i)) (hnext : s'.m.nextPid = s.m.nextPid)
    (hexited : s'.exited = s.exited) (hreports : s'.reports = s.reports)
    (hasleep : ∀ j pid, s'.Asleep j pid → (s'.m.task j).waitPid = pid ∧
      (s.Asleep j pid ∨ ∀ i, s.m.Dead i → waitsFor (s.m.task j) pid (s.m.task i) = false))
    (halive : ∀ pid, s'.waiting s'.m.current = some pid → s'.m.cur.state ≠ .zombie) : s'.Inv := by
  have hhas : ∀ i, s'.m.Has i ↔ s.m.Has i := fun i => and_congr_right fun _ => by
    rw [(hsame i).used]
  have hdead : ∀ i, s'.m.Dead i ↔ s.m.Dead i := fun i => and_congr (hhas i) (hsame i).zombie
  have hheld : ∀ pid e, s'.held pid e ↔ s.held pid e := fun pid e => by
    unfold held
    rw [hdead, (hsame e.slot).pid, (hsame e.slot).exitCode]
  refine
    { wf := hwf, balanced := ?_, right := fun r hr => ?_, below := fun pid hpid => ?_
      dead := fun i hi hpid => ?_, want := fun j pid hj => (hasleep j pid hj).1
      awake := fun j pid hj i hi => ?_, alive := halive }
  · rw [hexited, hreports]
    exact h.balanced.congr hheld
  · unfold Right
    rw [hexited]
    exact h.right r (hreports ▸ hr)
  · rw [hnext]
    exact h.below pid (hexited ▸ hpid)
  · rw [(hsame i).pid, hexited] at hpid
    exact (hsame i).zombie.2 (h.dead i ((hhas i).1 hi) hpid)
  · rw [waitsFor_congr (hsame j).pid (hsame j).pgid (hsame i).pid (hsame i).pgid (hsame i).ppid]
    rcases (hasleep j pid hj).2 with hs | hnone
    · exact h.awake j pid hs i ((hdead i).1 hi)
    · exact hnone i ((hdead i).1 hi)

/-! ### The scheduler -/

theorem Inv.schedule (h : s.Inv) (hsp : s.m.OnStack sp ret)
    (hcur : s.waiting s.m.current = none ∨ s.m.cur.state = .sleeping) (now : ℕ) :
    Inv { s with m := s.m.taskSchedule now sp ret } := by
  obtain ⟨hwf, hturned, hnext, hlaunched⟩ := taskSchedule_spec h.wf hsp now
  refine h.quiet hwf (fun i => .of_turned (hturned i)) hnext rfl rfl (fun j pid hj => ?_) ?_
  · obtain ⟨hhas, hs, hw⟩ := hj
    have hhas' : s.m.Has j := ⟨hhas.1, (hturned j).used ▸ hhas.2⟩
    rcases (hturned j).asleep hs with ⟨hs', hwant⟩ | ⟨hjc, hrun⟩
    · exact ⟨hwant.trans (h.want j pid ⟨hhas', hs', hw⟩), .inl ⟨hhas', hs', hw⟩⟩
    · -- a task that only now falls asleep is not in `waitpid`
      have hw : s.waiting j = some pid := hw
      rw [hjc] at hw hrun
      rcases hcur with hnone | hsleep
      · rw [hnone] at hw
        cases hw
      · rw [cur, hrun] at hsleep
        cases hsleep
  · intro pid hw
    dsimp only at hw ⊢
    rcases hlaunched with he | hrun
    · unfold cur
      rw [he] at hw ⊢
      exact fun hz => h.alive pid hw ((hturned s.m.current).zombie.1 hz)
    · rw [hrun]
      exact TaskState.noConfusion
/-! ### `waitpid` -/

theorem SameChild.turned (ht : t.state ≠ .zombie) (want : ℤ) {state : TaskState}
    (hs : state ≠ .zombie) : SameChild t { t with waitPid := want, state := state } :=
  ⟨rfl, rfl, rfl, rfl, rfl, iff_of_false hs ht⟩

theorem sameChild_setTask {m : Machine} (ht : SameChild (m.task i) t) (j : ℕ) :
    SameChild (m.task j) ((m.setTask i t).task j) := by
  by_cases hji : j = i
  · rw [hji, setTask_task, update_self]
    exact ht
  · rw [setTask_task, update_of_ne hji]
    exact .refl _

theorem Inv.mark (h : s.Inv) (want : ℤ) (state : TaskState) (w : Option ℤ)
    (hcur : s.m.cur.state ≠ .zombie) (hstate : state ≠ .zombie)
    (hw : ∀ pid, w = some pid → state = .sleeping → want = pid ∧ s.m.exitedChild pid = none) :
    Inv { s with
      m := s.m.setTask s.m.current { s.m.cur with waitPid := want, state := state }
      waiting := update s.waiting s.m.current w } := by
  have hwf : (s.m.setTask s.m.current { s.m.cur with waitPid := want, state := state }).Wf :=
    h.wf.remark ⟨rfl, rfl, rfl, rfl, rfl, rfl, rfl⟩ (fun hu => hu) (fun _ => h.wf.cur.2)
      fun _ => .inr rfl
  refine h.quiet hwf (sameChild_setTask (.turned hcur want hstate)) rfl rfl rfl
    (fun j pid hj => ?_) fun pid _ => ?_
  · obtain ⟨hhas, hs, hw'⟩ := hj
    dsimp only at hhas hs hw' ⊢
    rw [Has, setTask_task] at hhas
    rw [setTask_task] at hs ⊢
    by_cases hjc : j = s.m.current
    · rw [hjc, update_self] at hs hw' ⊢
      obtain ⟨hwant, hnone⟩ := hw pid hw' hs
      exact ⟨hwant, .inr fun i hi => exitedChild_eq_none hnone hi⟩
    · rw [update_of_ne hjc] at hs hw' hhas ⊢
      exact ⟨h.want j pid ⟨hhas, hs, hw'⟩, .inl ⟨hhas, hs, hw'⟩⟩
  · show ((s.m.setTask s.m.current _).task s.m.current).state ≠ .zombie
    rw [setTask_task, update_self]
    exact hstate

theorem Inv.report (h : s.Inv) (hcur : s.m.cur.state ≠ .zombie) (hi : s.m.exitedChild pid = some i) :
    Inv { s with
      m := (s.m.setTask i { s.m.task i with used := false }).setWaitPid 0
      waiting := update s.waiting s.m.current none
      reports :=
        { caller := s.m.cur.pid, parent := (s.m.task i).ppid, pid := (s.m.task i).pid
          status := statusWord (s.m.task i).exitCode } :: s.reports } := by
  obtain ⟨hdead, hwaits⟩ := exitedChild_eq_some hi
  have hne : s.m.current ≠ i := by
    intro he
    exact hcur (by rw [cur, he]; exact hdead.2)
  -- the zombie goes, and the current task waits for nothing any more
  generalize hm : (s.m.setTask i { s.m.task i with used := false }).setWaitPid 0 = m'
  have hcurrent : (s.m.setTask i { s.m.task i with used := false }).current = s.m.current := rfl
  have hself : (m'.task i).used = false := by
    rw [← hm, setWaitPid, hcurrent, setTask_task, update_of_ne hne.symm, setTask_task,
      update_self]
  have hothers : ∀ j, j ≠ i → ∃ w, m'.task j = { s.m.task j with waitPid := w } ∧
      (j ≠ s.m.current → w = (s.m.task j).waitPid) := by
    intro j hji
    rw [← hm, setWaitPid]
    have hcurtask : (s.m.setTask i { s.m.task i with used := false }).cur = s.m.cur := by
      show update s.m.task i _ s.m.current = _
      rw [update_of_ne hne]
      rfl
    rw [hcurtask, hcurrent, setTask_task]
    by_cases hjc : j = s.m.current
    · rw [hjc, update_self]
      exact ⟨0, rfl, fun hc => absurd rfl hc⟩
    · rw [update_of_ne hjc, setTask_task, update_of_ne hji]
      exact ⟨_, rfl, fun _ => rfl⟩
  have hrest : m'.nextPid = s.m.nextPid ∧ m'.current = s.m.current := by
    rw [← hm]
    exact ⟨rfl, rfl⟩
  have hhas : ∀ j, m'.Has j ↔ s.m.Has j ∧ j ≠ i := by
    intro j
    by_cases hji : j = i
    · refine iff_of_false (fun hj => ?_) fun hj => hj.2 hji
      rw [hji] at hj
      rw [hj.2] at hself
      cases hself
    · obtain ⟨w, he, -⟩ := hothers j hji
      unfold Has
      rw [he]
      exact ⟨fun hj => ⟨hj, hji⟩, And.left⟩
  have hdead' : ∀ j, m'.Dead j ↔ s.m.Dead j ∧ j ≠ i := by
    intro j
    unfold Dead
    rw [hhas]
    by_cases hji : j = i
    · exact iff_of_false (fun hj => hj.1.2 hji) fun hj => hj.2 hji
    · obtain ⟨w, he, -⟩ := hothers j hji
      rw [he]
      tauto
  have hwf : m'.Wf := by
    have hremoved : (s.m.setTask i { s.m.task i with used := false }).Wf :=
      h.wf.remark ⟨rfl, rfl, rfl, rfl, rfl, rfl, rfl⟩ (fun hu => absurd hu Bool.false_ne_true)
        (fun he => absurd he.symm hne) fun hrun => .inl hrun
    rw [← hm, setWaitPid]
    exact hremoved.remark ⟨rfl, rfl, rfl, rfl, rfl, rfl, rfl⟩ (fun hu => hu)
      (fun _ => hremoved.cur.2) fun _ => .inr rfl
  have hheld : s.held (s.m.task i).pid ⟨i, (s.m.task i).exitCode⟩ := ⟨hdead, rfl, rfl⟩
  have hentered := ((h.balanced.held_iff _ _).1 hheld).1
  refine
    { wf := hwf, balanced := ?_, right := fun r hr => ?_, below := fun pid hpid => ?_
      dead := fun j hj hpid => ?_, want := fun j pid hj => ?_, awake := fun j pid hj k hk => ?_
      alive := fun pid hw => ?_ }
  · refine h.balanced.leave hheld fun pid' e => ?_
    unfold held
    dsimp only
    rw [hdead']
    by_cases hei : e.slot = i
    · refine iff_of_false (fun hd => hd.1.2 hei) fun hd => hd.2 ?_
      rw [← hd.1.2.1, hei]
    · obtain ⟨w, he, -⟩ := hothers e.slot hei
      rw [he]
      constructor
      · rintro ⟨⟨hd, -⟩, hp, hc⟩
        refine ⟨⟨hd, hp, hc⟩, fun hpid => hei ?_⟩
        exact h.wf.unique _ _ hd.1 hdead.1 (hp.trans hpid)
      · rintro ⟨⟨hd, hp, hc⟩, -⟩
        exact ⟨⟨hd, hei⟩, hp, hc⟩
  · rcases mem_cons.1 hr with rfl | hr
    · exact ⟨(waitsFor_child hwaits).symm, _, hentered, rfl⟩
    · exact h.right r hr
  · rw [hrest.1]
    exact h.below pid hpid
  · obtain ⟨hj', hji⟩ := (hhas j).1 hj
    obtain ⟨w, he, -⟩ := hothers j hji
    dsimp only at hpid ⊢
    rw [he] at hpid ⊢
    exact h.dead j hj' hpid
  · obtain ⟨hj, hs, hw⟩ := hj
    obtain ⟨hj', hji⟩ := (hhas j).1 hj
    obtain ⟨w, he, hwant⟩ := hothers j hji
    dsimp only at hs hw ⊢
    by_cases hjc : j = s.m.current
    · rw [hjc, update_self] at hw
      cases hw
    · rw [update_of_ne hjc] at hw
      rw [he] at hs ⊢
      exact (hwant hjc).trans (h.want j pid ⟨hj', hs, hw⟩)
  · obtain ⟨hj, hs, hw⟩ := hj
    obtain ⟨hj', hji⟩ := (hhas j).1 hj
    obtain ⟨hk', hki⟩ := (hdead' k).1 hk
    obtain ⟨w, he, -⟩ := hothers j hji
    obtain ⟨w', he', -⟩ := hothers k hki
    dsimp only at hs hw ⊢
    by_cases hjc : j = s.m.current
    · rw [hjc, update_self] at hw
      cases hw
    · rw [update_of_ne hjc] at hw
      rw [he] at hs
      rw [he, he']
      exact h.awake j pid ⟨hj', hs, hw⟩ k hk'
  · dsimp only at hw
    rw [hrest.2, update_self] at hw
    cases hw

theorem Inv.turn (h : s.Inv) (hcur : s.m.cur.state ≠ .zombie) (hsp : s.m.OnStack sp ret) (pid : ℤ)
    (nohang : Bool) (now : ℕ) : (s.turn pid nohang now sp ret).Inv := by
  unfold Sys.turn
  rcases waitTurn_spec s.m pid nohang with ⟨i, hi, he⟩ | ⟨hnone, ⟨w, hreported, hblocked, he⟩ | he⟩
  · rw [he, hi]
    exact h.report hcur hi
  · rw [he]
    have hmark : Inv { s with
        m := s.m.setWaitPid 0
        waiting := update s.waiting s.m.current none } :=
      h.mark 0 s.m.cur.state none hcur hcur nofun
    cases w with
    | reported p st => exact absurd rfl (hreported p st)
    | blocked => exact absurd rfl hblocked
    | noChild => exact hmark
    | nothing => exact hmark
  · rw [he]
    have hmark := h.mark pid .sleeping (some pid) hcur TaskState.noConfusion fun p hp _ => by
      obtain rfl := Option.some.inj hp
      exact ⟨rfl, hnone⟩
    refine hmark.schedule ⟨hsp.above, hsp.below, hsp.ret⟩ (.inr ?_) now
    show (update s.m.task s.m.current _ s.m.current).state = .sleeping
    rw [update_self]

/-! ### `fork` and `exit` -/

theorem Inv.fork (h : s.Inv) (frame : Option Ctx) : (s.fork frame).Inv := by
  have hwaiting : ∀ j pid, (if (s.m.task j).used then s.waiting j else none) = some pid →
      (s.m.task j).used = true ∧ s.waiting j = some pid := by
    intro j pid hw
    cases hu : (s.m.task j).used with
    | true =>
      rw [hu, if_pos rfl] at hw
      exact ⟨rfl, hw⟩
    | false =>
      rw [hu, if_neg Bool.false_ne_true] at hw
      cases hw
  unfold Sys.fork
  rcases realSysFork_spec h.wf frame with ⟨r, he⟩ | ⟨m', c, he, hf⟩
  · rw [he]
    refine h.quiet h.wf (fun _ => .refl _) rfl rfl rfl (fun j pid hj => ?_) fun pid hw =>
      h.alive pid (hwaiting _ pid hw).2
    have hj' : s.Asleep j pid := ⟨hj.1, hj.2.1, (hwaiting j pid hj.2.2).2⟩
    exact ⟨h.want j pid hj', .inl hj'⟩
  · rw [he]
    -- the child is a new task with a new pid, and no zombie
    have hhas : ∀ j, j ≠ c → (m'.Has j ↔ s.m.Has j) := fun j hjc => by
      unfold Has
      rw [hf.others j hjc]
    have hdead : ∀ j, m'.Dead j ↔ s.m.Dead j := by
      intro j
      by_cases hjc : j = c
      · rw [hjc]
        refine iff_of_false (fun hd => ?_) fun hd => ?_
        · have := hd.2
          rw [hf.state] at this
          cases this
        · have := hd.1.2
          rw [hf.fresh] at this
          cases this
      · unfold Dead
        rw [hhas j hjc, hf.others j hjc]
    have hasleep : ∀ j pid, Asleep { s with
        m := m', waiting := fun i => if (s.m.task i).used then s.waiting i else none } j pid →
        j ≠ c ∧ s.Asleep j pid := by
      rintro j pid ⟨hj, hs, hw⟩
      have hjc : j ≠ c := by
        rintro rfl
        have := (hwaiting j pid hw).1
        rw [hf.fresh] at this
        cases this
      refine ⟨hjc, (hhas j hjc).1 hj, ?_, (hwaiting j pid hw).2⟩
      dsimp only at hs
      rwa [hf.others j hjc] at hs
    have hdeadc : ∀ i, s.m.Dead i → i ≠ c := by
      rintro i hi rfl
      have := hi.1.2
      rw [hf.fresh] at this
      cases this
    have hcur : s.m.current ≠ c := by
      intro heq
      have := h.wf.cur.2
      rw [heq, hf.fresh] at this
      cases this
    refine
      { wf := hf.wf, balanced := ?_, right := h.right, below := fun pid hpid => ?_
        dead := fun j hj hpid => ?_, want := fun j pid hj => ?_, awake := fun j pid hj i hi => ?_
        alive := fun pid hw => ?_ }
    · refine h.balanced.congr fun pid e => ?_
      unfold held
      dsimp only
      rw [hdead]
      refine and_congr_right fun hd => ?_
      rw [hf.others e.slot (hdeadc _ hd)]
    · dsimp only
      rw [hf.nextPid]
      have := h.below pid hpid
      omega
    · dsimp only at hj hpid ⊢
      by_cases hjc : j = c
      · rw [hjc, hf.pid] at hpid
        exact absurd (h.below _ hpid) (lt_irrefl _)
      · rw [hf.others j hjc] at hpid ⊢
        exact h.dead j ((hhas j hjc).1 hj) hpid
    · obtain ⟨hjc, hj⟩ := hasleep j pid hj
      dsimp only
      rw [hf.others j hjc]
      exact h.want j pid hj
    · obtain ⟨hjc, hj⟩ := hasleep j pid hj
      have hi := (hdead i).1 hi
      dsimp only
      rw [hf.others j hjc, hf.others i (hdeadc i hi)]
      exact h.awake j pid hj i hi
    · dsimp only at hw ⊢
      unfold cur
      rw [hf.current] at hw ⊢
      rw [hf.others _ hcur]
      exact h.alive pid (hwaiting _ pid hw).2

theorem Inv.exit (h : s.Inv) {code : ℤ} (hen : s.Enabled (.exit pid code))
    (hmeets : Op.Meets s (.exit pid code)) : (s.exit pid code).Inv := by
  unfold Sys.exit
  cases hp : s.m.taskOfPid pid with
  | none =>
    have he : s.m.taskExit pid code = s.m := by
      unfold taskExit
      rw [hp]
    rw [he]
    exact h
  | some i =>
    obtain ⟨hlt, hslot⟩ := firstSlot_eq_some hp
    simp only [Bool.and_eq_true, decide_eq_true_eq] at hslot
    obtain ⟨hused, rfl⟩ := hslot
    have hi : s.m.Has i := ⟨hlt, hused⟩
    obtain ⟨hfirst, horphans⟩ := hmeets i hp
    have hx := taskExit_spec h.wf hi code
    generalize s.m.taskExit (s.m.task i).pid code = m' at hx ⊢
    have hhas : ∀ j, m'.Has j ↔ s.m.Has j := fun j => and_congr_right fun _ => by rw [hx.used]
    have hdead : ∀ j, m'.Dead j ↔ s.m.Dead j ∨ j = i := by
      intro j
      unfold Dead
      rw [hhas, hx.zombie]
      constructor
      · rintro ⟨hj, hz | hji⟩
        · exact .inl ⟨hj, hz⟩
        · exact .inr hji
      · rintro (⟨hj, hz⟩ | rfl)
        · exact ⟨hj, .inl hz⟩
        · exact ⟨hi, .inr rfl⟩
    have hasleep : ∀ j want, Asleep { s with
        m := m', exited := ((s.m.task i).pid, ⟨i, code⟩) :: s.exited } j want →
        s.Asleep j want ∧ (m'.task j).waitPid = want ∧
          ¬((s.m.task i).ppid = (s.m.task j).pid ∧ wants want (s.m.task i) = true) := by
      rintro j want ⟨hj, hs, hw⟩
      have hj' := (hhas j).1 hj
      have hne : j ≠ s.m.current := by
        rintro rfl
        have hw : s.waiting s.m.current = some want := hw
        rw [hen.2] at hw
        cases hw
      obtain ⟨hs', hwait, hnot⟩ := hx.asleep j hj' hne hs
      have hwant := h.want j want ⟨hj', hs', hw⟩
      rw [hwant] at hwait hnot
      exact ⟨⟨hj', hs', hw⟩, hwait, hnot⟩
    refine
      { wf := hx.wf, balanced := ?_, right := fun r hr => ?_, below := fun p hp => ?_
        dead := fun j hj hp => ?_, want := fun j want hj => (hasleep j want hj).2.1
        awake := fun j want hj z hz => ?_, alive := fun p hw => ?_ }
    · refine h.balanced.enter (fun hmem => hfirst (h.dead i hi hmem)) fun p e => ?_
      unfold held
      dsimp only
      rw [hdead, hx.pid, hx.exitCode]
      by_cases hei : e.slot = i
      · rw [hei, if_pos rfl]
        constructor
        · rintro ⟨-, hpid, hcode⟩
          refine .inr ⟨hpid.symm, ?_⟩
          obtain ⟨slot, c⟩ := e
          obtain rfl : slot = i := hei
          obtain rfl : code = c := hcode
          rfl
        · rintro (⟨hd, -, -⟩ | ⟨hpid, rfl⟩)
          · exact absurd hd.2 hfirst
          · exact ⟨.inr rfl, hpid.symm, rfl⟩
      · rw [if_neg hei]
        constructor
        · rintro ⟨hd, hpid, hcode⟩
          exact .inl ⟨hd.resolve_right hei, hpid, hcode⟩
        · rintro (⟨hd, hpid, hcode⟩ | ⟨-, rfl⟩)
          · exact ⟨.inl hd, hpid, hcode⟩
          · exact absurd rfl hei
    · obtain ⟨hparent, e, he, hstatus⟩ := h.right r hr
      exact ⟨hparent, e, mem_cons_of_mem _ he, hstatus⟩
    · dsimp only at hp ⊢
      rw [hx.nextPid]
      rcases mem_cons.1 hp with rfl | hp
      · exact h.wf.below i hi
      · exact h.below p hp
    · dsimp only at hp ⊢
      rw [hx.zombie]
      rw [hx.pid, Lib.keys_cons, mem_cons] at hp
      have hj := (hhas j).1 hj
      rcases hp with hpid | hp
      · exact .inr (h.wf.unique j i hj hi hpid)
      · exact .inl (h.dead j hj hp)
    · obtain ⟨hj, -, hnot⟩ := hasleep j want hj
      have hz := (hdead z).1 hz
      have hzhas : s.m.Has z := hz.elim And.left fun he => he ▸ hi
      have hppid := hx.ppid z hzhas
      dsimp only
      rw [waitsFor_congr (u := { s.m.task z with ppid := (m'.task z).ppid }) (hx.pid j) (hx.pgid j)
        (hx.pid z) (hx.pgid z) rfl, hppid]
      by_contra hwaits
      rw [Bool.not_eq_false] at hwaits
      by_cases hchild : (s.m.task z).ppid = (s.m.task i).pid
      · -- a child of the exiting task, that task 1 gets
        rw [if_pos hchild] at hwaits
        obtain ⟨hone, hwants⟩ := horphans j want z hj hzhas (hz.imp_left And.right) hchild hwaits
        have hparent : (1 : ℤ) = (s.m.task j).pid := waitsFor_child hwaits
        exact hnot ⟨hone.trans hparent, hwants⟩
      · rw [if_neg hchild] at hwaits
        have hwaits : waitsFor (s.m.task j) want (s.m.task z) = true := hwaits
        rcases hz with hz | rfl
        · exact absurd (h.awake j want hj z hz) (by rw [hwaits]; exact Bool.noConfusion)
        · exact hnot ⟨waitsFor_child hwaits, wants_of_waitsFor hwaits⟩
    · dsimp only at hw
      rw [hx.current, hen.2] at hw
      cases hw

/-! ### Runs -/

theorem Inv.waitAgain (h : s.Inv) : Inv { s with m := s.m.waitAgain } := by
  unfold Machine.waitAgain
  split_ifs with hsleep
  · have hcur : s.m.cur.state ≠ .zombie := by
      rw [hsleep]
      exact TaskState.noConfusion
    have hmark := h.mark s.m.cur.waitPid .running (s.waiting s.m.current) hcur
      TaskState.noConfusion fun _ _ hs => by cases hs
    rwa [update_eq_self] at hmark
  · exact h

theorem Inv.resume (h : s.Inv) (hsp : s.m.OnStack sp ret) (now : ℕ) :
    (s.resume now sp ret).Inv := by
  unfold Sys.resume
  cases hw : s.waiting s.m.current with
  | none => exact h
  | some pid =>
    have hagain := h.waitAgain
    have hsame : s.m.waitAgain.current = s.m.current ∧ s.m.waitAgain.kstacks = s.m.kstacks := by
      unfold Machine.waitAgain
      split_ifs <;> exact ⟨rfl, rfl⟩
    refine hagain.turn (hagain.alive pid ?_) ⟨?_, ?_, hsp.ret⟩ pid false now
    · exact (congrArg s.waiting hsame.1).trans hw
    · show s.m.waitAgain.kstack s.m.waitAgain.current ≤ sp
      rw [kstack, hsame.1, hsame.2]
      exact hsp.above
    · show sp + 64 ≤ s.m.waitAgain.kstack s.m.waitAgain.current + taskKernelStack
      rw [kstack, hsame.1, hsame.2]
      exact hsp.below

theorem Inv.exec (h : s.Inv) (op : Op) (hen : s.Enabled op) (hmeets : op.Meets s) :
    (s.exec op).Inv := by
  have husable : usable s.m.cur = true → s.m.cur.state ≠ .zombie := by
    unfold usable
    rw [Bool.and_eq_true, bne_iff_ne]
    exact And.right
  cases op with
  | fork frame => exact h.fork frame
  | exit pid code => exact h.exit hen hmeets
  | waitpid pid nohang now sp ret => exact h.turn (husable hen.1) hen.2.2 pid nohang now
  | resume now sp ret => exact h.resume hen.2 now
  | schedule now sp ret => exact h.schedule hen.2 (.inl hen.1) now

/-- Any run. -/
def Run : Sys → Sys → Prop := Runs Enabled exec

/-- A run of steps that meet their conditions. -/
def MeetingRun : Sys → Sys → Prop := Runs (fun s op => s.Enabled op ∧ op.Meets s) exec

/-- The task of pid `i` in slot `i`, made by the task of pid `i - 1`. -/
def sampleTask (i : ℕ) (state : TaskState) : Task :=
  { Task.zero with
    used := true
    pid := i
    tgid := i
    ppid := i - 1
    pgid := i
    fdtGroup := i
    state := state
    ctx := { Task.zero.ctx with cs := ring3Cs, ss := 0x30, rflags := 0x200 }
    kernelStack := 0x200000 + i * taskKernelStack
    kernelStackTop := 0x200000 + i * taskKernelStack + taskKernelStack
    kernelRspSaved := 0x200000 + i * taskKernelStack + 0x7000
    addrSpace := some (.user i) }

/-- Task 1 runs; 2 is its child, 3 the child of 2, and 4 the child of 3. -/
def household : Sys where
  m :=
    { mm := ⟨samplePaging, fun _ => 0, fun _ => 0, 0, 0, fun _ => none,
        fun _ => ⟨false, .kernel, 0, 0, 0, false⟩⟩
      task := fun i => if i = 1 then sampleTask 1 .running
        else if 1 < i ∧ i < 5 then sampleTask i .runnable else Task.zero
      nextPid := 5
      current := 1
      foreground := true
      kstacks := 0x200000
      trampoline := 0x101000
      stackWord := fun _ => 0x102000 }
  waiting _ := none
  exited := []
  reports := []

theorem household_task (hi : household.m.Has i) :
    (1 ≤ i ∧ i < 5) ∧
      household.m.task i = sampleTask i (if i = 1 then .running else .runnable) := by
  have htask : household.m.task i = if i = 1 then sampleTask 1 .running
      else if 1 < i ∧ i < 5 then sampleTask i .runnable else Task.zero := rfl
  have hused := hi.2
  rw [htask] at hused ⊢
  by_cases hone : i = 1
  · subst hone
    exact ⟨⟨by omega, by omega⟩, rfl⟩
  · rw [if_neg hone] at hused ⊢
    rw [if_neg hone]
    by_cases hlt : 1 < i ∧ i < 5
    · rw [if_pos hlt]
      exact ⟨⟨by omega, hlt.2⟩, rfl⟩
    · rw [if_neg hlt] at hused
      cases hused

theorem household_frames : ∀ i < 5, 1 ≤ i → household.m.frameValid i = true := by
  decide +kernel

theorem household_start : household.Start := by
  refine ⟨⟨⟨by decide, rfl⟩, fun i j hi hj hpid => ?_, fun i hi => ?_, fun i hi => ?_,
    fun i hi _ => ?_, fun i hi hrun => ?_, rfl, fun i hi => ?_, fun i hi _ => ?_, by decide,
    by decide⟩, fun i hi => ?_, fun _ => rfl, rfl, rfl⟩
  · rw [(household_task hi).2, (household_task hj).2] at hpid
    exact Int.ofNat.inj hpid
  · obtain ⟨hlt, he⟩ := household_task hi
    rw [he]
    exact Int.natCast_pos.2 (by omega)
  · obtain ⟨hlt, he⟩ := household_task hi
    rw [he]
    exact Int.ofNat_lt.2 hlt.2
  · rw [(household_task hi).2]
    rfl
  · rw [(household_task hi).2] at hrun
    by_contra hne
    have hne : i ≠ 1 := hne
    rw [if_neg hne] at hrun
    cases hrun
  · rw [(household_task hi).2]
    exact ⟨rfl, rfl⟩
  · obtain ⟨hlt, -⟩ := household_task hi
    exact household_frames i hlt.2 hlt.1
  · have hz := hi.2
    rw [(household_task hi.1).2] at hz
    by_cases hone : i = 1
    · rw [if_pos hone] at hz
      cases hz
    · rw [if_neg hone] at hz
      cases hz

/-- Task 2 exits, and task 1 waits for it. -/
def bereaved : Sys := (household.exec (.exit 2 7)).exec (.waitpid (-1) false 0 0x20F000 0x102000)

/-- Task 1 waits for any child, and then the tasks 4 and 3 exit. -/
def orphaned : Sys :=
  ((household.exec (.waitpid (-1) false 0 0x20F000 0x102000)).exec (.exit 4 0)).exec (.exit 3 0)

theorem orphaned_run : household.Run orphaned := by
  have hwait : household.Enabled (.waitpid (-1) false 0 0x20F000 0x102000) := by
    refine ⟨?_, rfl, ?_, ?_, ?_⟩ <;> decide +kernel
  have hexit : (household.exec (.waitpid (-1) false 0 0x20F000 0x102000)).Enabled (.exit 4 0) := by
    refine ⟨?_, ?_⟩ <;> decide +kernel
  have hexit' : ((household.exec (.waitpid (-1) false 0 0x20F000 0x102000)).exec
      (.exit 4 0)).Enabled (.exit 3 0) := by
    refine ⟨?_, ?_⟩ <;> decide +kernel
  exact (((Runs.refl household).tail _ hwait).tail _ hexit).tail _ hexit'

end Sys

end Ridux.Proc
