import Ridux.Epoll.Table
import Ridux.Fd.Lifetime

/-!
# What epoll reports

The interest lists beside the descriptor tables of the tasks: any task calls, ends, waits.

* `Registration`: what is known of a descriptor that was added, and what became of it;
* `EpollWorld.exec`: one step, with `real_sys_epoll_ctl` and the rounds of `real_sys_epoll_wait`;
* `EpollWorld.Right`: a report is of a descriptor that was added, of its object, with its data;
* `EpollWorld.Careful`: the steps that the lists stay right in;
* `carefulWaits_right`: every report of such a run is right.
-/

namespace Ridux

open Lib Option

/-- A descriptor that was added and not deleted: the event of the last `ADD` or `MOD`, the object and the
table it was added from, whether the object has always been referred to and the number has always named it
there since, and whether it was not reported since. -/
structure Registration where
  event : EpollEvent
  kind : FdKind
  ref : ℕ
  table : ℕ
  intact : Prop
  kept : Prop
  armed : Prop

/-- The number is the object in each task with the table, and there is one. -/
def World.Names (w : World) (table fd : ℕ) (kind : FdKind) (ref : ℕ) : Prop :=
  (∃ j, w.live j ∧ w.table j = table) ∧
    ∀ j, w.live j → w.table j = table → (w.sys.entry j fd).kind = kind ∧ (w.sys.entry j fd).ref = ref

/-- A step of the rest of the system. -/
def Registration.after (r : Registration) (w : World) (fd : ℕ) : Registration :=
  { r with
    intact := r.intact ∧ w.sys.refs r.kind r.ref
    kept := r.kept ∧ w.Names r.table fd r.kind r.ref }

/-- A report disarms it. -/
def Registration.reported (r : Registration) (hit : Prop) : Registration :=
  { r with armed := r.armed ∧ ¬ hit }

/-- An object that kept its number was not closed, and still has it. -/
def Registration.Sound (r : Registration) (w : World) (fd : ℕ) : Prop :=
  r.kept → r.intact ∧ w.Names r.table fd r.kind r.ref

/-- The descriptor tables, `g_epoll_instances`, the registrations, how often each instance was made, and
the instance that each task waits in. -/
structure EpollWorld where
  world : World
  inst : ℕ → EpollInstance
  reg : ℕ → ℕ → Option Registration
  epoch : ℕ → ℕ
  waits : ℕ → Option (ℕ × ℕ)

/-- The operation of `epoll_ctl`. -/
inductive CtlOp
  | add | del | mod | other

namespace EpollWorld

/-- `c3_epoll_ref_from_fd`. -/
def epollRef (s : EpollWorld) (cur epfd : ℕ) : Option ℕ :=
  let e := s.world.sys.entry cur epfd
  if !s.world.sys.valid cur epfd then none
  else if e.kind ≠ .epoll then none
  else if epollInstances ≤ e.ref then none
  else some e.ref

/-- `c3_fd_ready_mask`; `ready` is what the object of an entry says. -/
def readyMask (s : EpollWorld) (cur : ℕ) (ready : Fd → BitVec 32) (fd : ℕ) : BitVec 32 :=
  if s.world.sys.valid cur fd then ready (s.world.sys.entry cur fd) else epollErr ||| epollHup

/-- Replace an instance and what is registered in it. -/
def setInst (s : EpollWorld) (ref : ℕ) (ep : EpollInstance) (reg : ℕ → Option Registration) : EpollWorld :=
  { s with inst := Function.update s.inst ref ep, reg := Function.update s.reg ref reg }

/-- A new registration. -/
def registered (s : EpollWorld) (cur fd : ℕ) (ev : EpollEvent) : Registration :=
  let e := s.world.sys.entry cur fd
  { event := ev, kind := e.kind, ref := e.ref, table := s.world.table cur
    intact := s.world.sys.refs e.kind e.ref
    kept := s.world.Names (s.world.table cur) fd e.kind e.ref
    armed := True }

/-- `real_sys_epoll_ctl`. -/
def ctl (s : EpollWorld) (cur epfd : ℕ) (op : CtlOp) (fd : ℕ) (ev : Option EpollEvent) :
    Except CtlErr Unit × EpollWorld :=
  match s.epollRef cur epfd with
  | none => (.error .ebadf, s)
  | some ref =>
    let reg := s.reg ref
    match op with
    | .add =>
      if !s.world.sys.valid cur fd then (.error .ebadf, s)
      else
        match (s.inst ref).add fd ev with
        | (.error e, _) => (.error e, s)
        | (.ok (), ep) =>
          (.ok (), s.setInst ref ep
            (Function.update reg fd (some (s.registered cur fd (ev.getD (defaultEvent fd))))))
    | .mod =>
      if !s.world.sys.valid cur fd then (.error .ebadf, s)
      else
        match (s.inst ref).modify fd ev with
        | (.error e, _) => (.error e, s)
        | (.ok (), ep) =>
          (.ok (), s.setInst ref ep (Function.update reg fd ((reg fd).map fun r =>
            { r with event := ev.getD r.event, armed := True })))
    | .del =>
      match (s.inst ref).delete fd with
      | (.error e, _) => (.error e, s)
      | (.ok (), ep) => (.ok (), s.setInst ref ep (Function.update reg fd none))
    | .other => (.error .einval, s)

/-- The events of a round in an instance. -/
def round (s : EpollWorld) (cur ref : ℕ) (ready : Fd → BitVec 32) (maxevents : ℕ) : List EpollReport :=
  (s.inst ref).scan (s.readyMask cur ready) maxevents

/-- What a round leaves behind. -/
def rounded (s : EpollWorld) (ref : ℕ) (reports : List EpollReport) : EpollWorld :=
  s.setInst ref ((s.inst ref).scanned reports) fun fd =>
    (s.reg ref fd).map fun r => r.reported (∃ x ∈ reports, x.fd = fd)

/-- What happens: a step of the rest, `epoll_ctl`, the first round of `epoll_wait`, and a later one. -/
inductive Op
  | sys (op : Sys.Op)
  | ctl (cur epfd : ℕ) (op : CtlOp) (fd : ℕ) (ev : Option EpollEvent)
  | wait (cur epfd : ℕ) (maxevents timeout : ℤ) (ready : Fd → BitVec 32)
  | again (cur : ℕ) (maxevents : ℤ) (ready : Fd → BitVec 32)

/-- The instance that a call of `epoll_create1` makes anew. -/
def created (s : Sys) : Sys.Op → Option ℕ
  | .call _ (.epollCreate1 flags) =>
    if hasMode flags (~~~oCloexec) then none else (s.objs.poolAlloc .epoll).1
  | _ => none

/-- An instance is made anew. -/
def fresh (s : EpollWorld) : Option ℕ → EpollWorld
  | none => s
  | some ref =>
    { s.setInst ref .empty fun _ => none with
      epoch := Function.update s.epoch ref (s.epoch ref + 1) }

/-- The rest of the system takes a step. -/
def sysStep (s : EpollWorld) (op : Sys.Op) : EpollWorld :=
  let w := s.world.exec op
  let s := s.fresh (created s.world.sys op)
  { s with world := w, reg := fun ref fd => (s.reg ref fd).map fun r => r.after w fd }

/-- What a round reports, and to which task and instance. -/
def reports (s : EpollWorld) : Op → List EpollReport
  | .wait cur epfd maxevents _ ready =>
    match s.epollRef cur epfd with
    | none => []
    | some ref => if maxevents ≤ 0 then [] else s.round cur ref ready maxevents.toNat
  | .again cur maxevents ready =>
    match s.waits cur with
    | none => []
    | some (ref, _) => s.round cur ref ready maxevents.toNat
  | _ => []

/-- The wait of a task. -/
def setWait (s : EpollWorld) (cur : ℕ) (wait : Option (ℕ × ℕ)) : EpollWorld :=
  { s with waits := Function.update s.waits cur wait }

/-- One step. -/
def exec (s : EpollWorld) : Op → EpollWorld
  | .sys op => s.sysStep op
  | .ctl cur epfd op fd ev => (s.ctl cur epfd op fd ev).2
  | .wait cur epfd maxevents timeout ready =>
    match s.epollRef cur epfd with
    | none => s
    | some ref =>
      if maxevents ≤ 0 then s
      else
        let found := s.round cur ref ready maxevents.toNat
        (s.rounded ref found).setWait cur
          (if found = [] ∧ timeout ≠ 0 then some (ref, s.epoch ref) else none)
  | .again cur maxevents ready =>
    match s.waits cur with
    | none => s
    | some (ref, made) =>
      let found := s.round cur ref ready maxevents.toNat
      (s.rounded ref found).setWait cur (if found = [] then some (ref, made) else none)

/-- No instance, and the first task. -/
def init : EpollWorld :=
  { world := .init, inst := fun _ => .empty, reg := fun _ _ => none, epoch := fun _ => 0
    waits := fun _ => none }

/-- The calls are those of live tasks. -/
def Legal (s : EpollWorld) : Op → Prop
  | .sys op => s.world.enabled op
  | .ctl cur _ _ _ _ | .wait cur _ _ _ _ | .again cur _ _ => s.world.live cur

/-! ### What is promised -/

/-- The instance of a round, and how often it had been made when the call began. -/
def waited (s : EpollWorld) : Op → Option (ℕ × ℕ × ℕ)
  | .wait cur epfd _ _ _ => (s.epollRef cur epfd).map fun ref => (cur, ref, s.epoch ref)
  | .again cur _ _ => (s.waits cur).map fun w => (cur, w.1, w.2)
  | _ => none

/-- A report is of a descriptor that was added to the instance and not deleted, whose object was not closed
since, with the data and the bits that were asked for, and not again when it is for one shot; when the
number is a descriptor of the task, it is of that object. -/
structure Right (s : EpollWorld) (cur ref made : ℕ) (x : EpollReport) (r : Registration) : Prop where
  same : s.epoch ref = made
  added : s.reg ref x.fd = some r
  intact : r.intact
  object : s.world.sys.valid cur x.fd = true →
    (s.world.sys.entry cur x.fd).kind = r.kind ∧ (s.world.sys.entry cur x.fd).ref = r.ref
  data : x.event.data = r.event.data
  bits : x.event.events &&& ~~~(r.event.events ||| epollErr ||| epollHup) = 0
  once : r.event.events &&& epollOneshot ≠ 0 → r.armed

/-- Every report of a run with such steps is right. -/
def ReportsRight (steps : EpollWorld → Op → Prop) : Prop :=
  ∀ s, Runs steps exec init s → ∀ op, steps s op → ∀ x ∈ s.reports op,
    ∃ cur ref made r, s.waited op = some (cur, ref, made) ∧ s.Right cur ref made x r

/-- An event that asks for something, not for one shot, and with data that are not 0, but for descriptor
0. -/
def Plain (ev : EpollEvent) (fd : ℕ) : Prop :=
  ev.events ≠ 0 ∧ ev.events &&& epollOneshot = 0 ∧ (ev.data = 0 → fd = 0)

/-- What is registered and ready was kept in the table of the task. -/
def Current (s : EpollWorld) (cur ref : ℕ) (ready : Fd → BitVec 32) : Prop :=
  ∀ fd r, s.reg ref fd = some r → s.readyMask cur ready fd &&& r.event.want ≠ 0 →
    r.kept ∧ r.table = s.world.table cur

/-- The steps in which the lists stay right: events are plain, who waits finds its own descriptors as they
were added, and an instance is not made anew under a task that waits in it. -/
def Careful (s : EpollWorld) (op : Op) : Prop :=
  s.Legal op ∧ match op with
    | .sys _ => True
    | .ctl _ _ op fd ev => op = .add ∨ op = .mod → ∀ e, ev = some e → Plain e fd
    | .wait cur epfd _ _ ready => ∀ ref, s.epollRef cur epfd = some ref → s.Current cur ref ready
    | .again cur _ ready => ∀ ref made, s.waits cur = some (ref, made) →
      s.epoch ref = made ∧ s.Current cur ref ready

/-! ### The invariant -/

/-- The instance holds what is registered in it, which is plain and sound. -/
structure Kept (w : World) (ep : EpollInstance) (reg : ℕ → Option Registration) : Prop where
  lists : ep.Lists fun fd => (reg fd).map (·.event)
  plain : ∀ fd r, reg fd = some r → Plain r.event fd ∧ fd < taskFdMax
  sound : ∀ fd r, reg fd = some r → r.Sound w fd

def Inv (s : EpollWorld) : Prop := ∀ ref, Kept s.world (s.inst ref) (s.reg ref)

variable {s : EpollWorld} {cur ref fd : ℕ} {ep : EpollInstance} {reg : ℕ → Option Registration}
  {w w' : World}

theorem kept_empty : Kept w .empty fun _ => none :=
  ⟨EpollInstance.lists_empty, fun _ _ hr => (nomatch hr), fun _ _ hr => (nomatch hr)⟩

theorem init_inv : Inv init := fun _ => kept_empty

/-! ### What is registered -/

theorem plain_default (hfd : fd < taskFdMax) : Plain (defaultEvent fd) fd := by
  have hevents : (epollIn ||| epollOut) ≠ 0 ∧ (epollIn ||| epollOut) &&& epollOneshot = 0 := by decide
  refine ⟨hevents.1, hevents.2, fun hdata => ?_⟩
  have hzero := congrArg BitVec.toNat hdata
  change fd % 2 ^ 64 = 0 at hzero
  change fd < 512 at hfd
  omega

theorem Inv.setInst (h : s.Inv) (hep : Kept s.world ep reg) : (s.setInst ref ep reg).Inv := by
  intro i
  unfold EpollWorld.setInst
  dsimp only
  by_cases hi : i = ref
  · subst hi
    rw [Function.update_self, Function.update_self]
    exact hep
  · rw [Function.update_of_ne hi, Function.update_of_ne hi]
    exact h i

theorem Kept.update {ep' : EpollInstance} (h : Kept w ep reg) {new : Option Registration}
    (hlists : ep'.Lists (Function.update (fun fd => (reg fd).map (·.event)) fd (new.map (·.event))))
    (hnew : ∀ r, new = some r → (Plain r.event fd ∧ fd < taskFdMax) ∧ r.Sound w fd) :
    Kept w ep' (Function.update reg fd new) := by
  have hmap : (fun i => (Function.update reg fd new i).map (·.event)) =
      Function.update (fun i => (reg i).map (·.event)) fd (new.map (·.event)) := by
    funext i
    by_cases hi : i = fd
    · subst hi
      rw [Function.update_self, Function.update_self]
    · rw [Function.update_of_ne hi, Function.update_of_ne hi]
  have hboth : ∀ i r, Function.update reg fd new i = some r →
      (Plain r.event i ∧ i < taskFdMax) ∧ r.Sound w i := by
    intro i r hr
    by_cases hi : i = fd
    · subst hi
      rw [Function.update_self] at hr
      exact hnew r hr
    · rw [Function.update_of_ne hi] at hr
      exact ⟨h.plain i r hr, h.sound i r hr⟩
  refine ⟨?_, fun i r hr => (hboth i r hr).1, fun i r hr => (hboth i r hr).2⟩
  rwa [hmap]

theorem Kept.map (h : Kept w ep reg) {f : ℕ → Registration → Registration}
    (hevent : ∀ fd r, (f fd r).event = r.event)
    (hsound : ∀ fd r, fd < taskFdMax → r.Sound w fd → (f fd r).Sound w' fd) :
    Kept w' ep fun fd => (reg fd).map (f fd) := by
  refine ⟨?_, fun fd r hr => ?_, fun fd r hr => ?_⟩
  · have hsame : (fun fd => ((reg fd).map (f fd)).map (·.event)) = fun fd => (reg fd).map (·.event) := by
      funext fd
      cases hreg : reg fd with
      | none => rfl
      | some r => exact congrArg some (hevent fd r)
    rw [hsame]
    exact h.lists
  · obtain ⟨old, hold, rfl⟩ := map_eq_some_iff.1 hr
    rw [hevent]
    exact h.plain fd old hold
  · obtain ⟨old, hold, rfl⟩ := map_eq_some_iff.1 hr
    exact hsound fd old (h.plain fd old hold).2 (h.sound fd old hold)

theorem refs_of_names {table : ℕ} {kind : FdKind} {r : ℕ} (hfd : fd < taskFdMax)
    (h : w.Names table fd kind r) : w.sys.refs kind r := by
  obtain ⟨⟨j, hj, ht⟩, hall⟩ := h
  exact .inl ⟨j, fd, used_of_live hj, hfd, Tasks.holds_iff.2 (hall j hj ht)⟩

theorem valid_lt (h : s.world.sys.valid cur fd = true) : fd < taskFdMax := by
  unfold Sys.valid at h
  exact (fdValid_iff.1 h).1

theorem registered_ok {ev : EpollEvent} (hev : Plain ev fd) (hfd : fd < taskFdMax) :
    (Plain (s.registered cur fd ev).event fd ∧ fd < taskFdMax) ∧
      (s.registered cur fd ev).Sound s.world fd :=
  ⟨⟨hev, hfd⟩, fun hkept => ⟨refs_of_names hfd hkept, hkept⟩⟩

theorem Inv.ctl (h : s.Inv) {epfd : ℕ} {op : CtlOp} {ev : Option EpollEvent}
    (hev : op = .add ∨ op = .mod → ∀ e, ev = some e → Plain e fd) : (s.ctl cur epfd op fd ev).2.Inv := by
  unfold EpollWorld.ctl
  split
  · exact h
  · next ref href =>
    dsimp only
    cases op with
    | add =>
      dsimp only
      by_cases hvalid : (!s.world.sys.valid cur fd) = true
      · rw [if_pos hvalid]
        exact h
      rw [if_neg hvalid]
      split
      · exact h
      · next ep hadd =>
        have hfd : fd < taskFdMax := valid_lt (by simpa using hvalid)
        refine h.setInst ((h ref).update ((h ref).lists.add hadd) fun r hr => ?_)
        obtain rfl := some.inj hr
        refine registered_ok ?_ hfd
        cases ev with
        | none => exact plain_default hfd
        | some e => exact hev (.inl rfl) e rfl
    | mod =>
      dsimp only
      split_ifs
      · exact h
      · split
        · exact h
        · next ep hmod =>
          obtain ⟨old, hold, hlists⟩ := (h ref).lists.modify hmod
          obtain ⟨r, hr, rfl⟩ := map_eq_some_iff.1 hold
          rw [hr]
          refine h.setInst ((h ref).update hlists fun r' hr' => ?_)
          obtain rfl := some.inj hr'
          obtain ⟨hplain, hfd⟩ := (h ref).plain fd r hr
          refine ⟨⟨?_, hfd⟩, (h ref).sound fd r hr⟩
          cases ev with
          | none => exact hplain
          | some e => exact hev (.inr rfl) e rfl
    | del =>
      dsimp only
      split
      · exact h
      · next ep hdel =>
        exact h.setInst ((h ref).update ((h ref).lists.delete hdel) fun r hr => nomatch hr)
    | other => exact h

theorem Inv.rounded (h : s.Inv) (reports : List EpollReport) : (s.rounded ref reports).Inv := by
  refine h.setInst (Kept.map ?_ (fun fd r => rfl) fun fd r _ hr => hr)
  exact ⟨(h ref).lists.scanned reports, (h ref).plain, (h ref).sound⟩

theorem Inv.setWait (h : s.Inv) (wait : Option (ℕ × ℕ)) : (s.setWait cur wait).Inv := h

theorem Inv.fresh (h : s.Inv) (made : Option ℕ) : (s.fresh made).Inv := by
  cases made with
  | none => exact h
  | some ref => exact h.setInst kept_empty

theorem Inv.sysStep (h : s.Inv) (op : Sys.Op) : (s.sysStep op).Inv := by
  intro ref
  refine (h.fresh (created s.world.sys op) ref).map (fun fd r => rfl) ?_
  rintro fd r hfd hr ⟨hkept, hnames⟩
  exact ⟨⟨(hr hkept).1, refs_of_names hfd hnames⟩, hnames⟩

/-- **One step.** -/
theorem Inv.exec (h : s.Inv) {op : Op} (hop : s.Careful op) : (s.exec op).Inv := by
  cases op with
  | sys op => exact h.sysStep op
  | ctl cur epfd op fd ev => exact h.ctl hop.2
  | wait cur epfd maxevents timeout ready =>
    unfold EpollWorld.exec
    dsimp only
    split
    · exact h
    · split_ifs
      · exact h
      all_goals exact (h.rounded _).setWait _
  | again cur maxevents ready =>
    unfold EpollWorld.exec
    dsimp only
    split
    · exact h
    · exact (h.rounded _).setWait _

/-! ### The reports -/

theorem Inv.right (h : s.Inv) {ready : Fd → BitVec 32} {maxevents : ℕ} {x : EpollReport}
    (hlive : s.world.live cur) (hcur : s.Current cur ref ready)
    (hx : x ∈ s.round cur ref ready maxevents) : ∃ r, s.Right cur ref (s.epoch ref) x r := by
  obtain ⟨ev, hev, hreport⟩ := (h ref).lists.scan hx
  obtain ⟨r, hr, rfl⟩ := map_eq_some_iff.1 hev
  obtain ⟨⟨hsome, honce, hdata⟩, hfd⟩ := (h ref).plain x.fd r hr
  unfold EpollEvent.report at hreport
  by_cases hready : s.readyMask cur ready x.fd &&& r.event.want = 0
  · rw [if_pos hready] at hreport
    cases hreport
  · rw [if_neg hready] at hreport
    obtain ⟨hkept, htable⟩ := hcur x.fd r hr hready
    obtain ⟨hintact, -, hnames⟩ := (h ref).sound x.fd r hr hkept
    have hevent := some.inj hreport
    refine ⟨r, rfl, hr, hintact, fun _ => hnames cur hlive htable.symm, ?_, ?_, fun hno => ?_⟩
    · rw [← hevent]
      dsimp only
      by_cases hzero : r.event.data = 0
      · rw [if_neg (not_not.2 hzero), hdata hzero, hzero]
        rfl
      · rw [if_pos hzero]
    · rw [← hevent]
      unfold EpollEvent.want
      rw [if_pos hsome]
      dsimp only
      rw [BitVec.and_assoc]
      generalize r.event.events ||| epollErr ||| epollHup = want
      rw [BitVec.and_not_self]
      exact BitVec.and_zero
    · exact absurd honce hno

/-- **Careful runs report what was asked for**, and what is still there. -/
theorem carefulWaits_right {s : EpollWorld} (hs : Runs Careful exec init s) {op : Op} (hop : s.Careful op)
    {x : EpollReport} (hx : x ∈ s.reports op) :
    ∃ cur ref made r, s.waited op = some (cur, ref, made) ∧ s.Right cur ref made x r := by
  have hinv : s.Inv := Runs.invariant (fun t op h hop => h.exec hop) hs init_inv
  cases op with
  | sys op => cases hx
  | ctl cur epfd op fd ev => cases hx
  | wait cur epfd maxevents timeout ready =>
    obtain ⟨hlive, hcur⟩ := hop
    unfold reports at hx
    dsimp only at hx
    split at hx
    · cases hx
    · next ref href =>
      split_ifs at hx
      · cases hx
      · obtain ⟨r, hr⟩ := hinv.right hlive (hcur ref href) hx
        refine ⟨cur, ref, s.epoch ref, r, ?_, hr⟩
        unfold waited
        dsimp only
        rw [href]
        rfl
  | again cur maxevents ready =>
    obtain ⟨hlive, hcur⟩ := hop
    unfold reports at hx
    dsimp only at hx
    split at hx
    · cases hx
    · next ref made hwait =>
      obtain ⟨hmade, hcur⟩ := hcur ref made hwait
      obtain ⟨r, hr⟩ := hinv.right hlive hcur hx
      rw [hmade] at hr
      refine ⟨cur, ref, made, r, ?_, hr⟩
      unfold waited
      dsimp only
      rw [hwait]
      rfl

/-- One instance, with descriptor 3. -/
def oneInstance : EpollWorld := init.exec (.sys (.call 0 (.epollCreate1 0)))

theorem oneInstance_live {j : ℕ} (hj : oneInstance.world.live j) : j = 0 := by
  have hgrouped := coherent_init.grouped (show World.live .init 0 by decide)
  have hstep := createPooled_step (s := .init) hgrouped .epoll .epoll (fdflReadable ||| fdflWritable) .enomem
  obtain ⟨g, htasks, -⟩ := hstep
  have hsame : oneInstance.world.sys.tasks = Tasks.init.setTable 0 g := htasks
  rw [World.live, hsame, Tasks.setTable, Tasks.live_put] at hj
  by_contra hne
  have hunused : Tasks.init.task j = Task.unused := by
    show Function.update (fun _ => Task.unused) 0 _ j = Task.unused
    rw [Function.update_of_ne hne]
  rw [hunused] at hj
  cases hj

/-- A wait for one event of a descriptor that is ready. -/
def waitReady : Op := .wait 0 3 1 0 fun _ => epollIn

theorem careful_run : ∃ s, Runs Careful exec init s ∧ s.Careful waitReady ∧ s.reports waitReady ≠ [] := by
  have h1 : Careful init (.sys (.call 0 (.epollCreate1 0))) :=
    ⟨show World.enabled .init (.call 0 (.epollCreate1 0)) by decide, trivial⟩
  have h2 : Careful oneInstance (.ctl 0 3 .add 0 (some ⟨epollIn, 7⟩)) := by
    refine ⟨show oneInstance.world.live 0 by decide +kernel, fun _ e he => ?_⟩
    obtain rfl := some.inj he
    exact ⟨by decide, by decide, by decide⟩
  refine ⟨_, ((Runs.refl _).tail _ h1).tail _ h2, ⟨?_, fun ref href fd r hr _ => ?_⟩, by decide +kernel⟩
  · show World.live _ 0
    decide +kernel
  · have hepoll : (oneInstance.exec (.ctl 0 3 .add 0 (some ⟨epollIn, 7⟩))).epollRef 0 3 = some 0 := by
      decide +kernel
    obtain rfl := some.inj (hepoll.symm.trans href)
    have hreg : (oneInstance.exec (.ctl 0 3 .add 0 (some ⟨epollIn, 7⟩))).reg 0 =
        Function.update (fun _ => none) 0 (some (oneInstance.registered 0 0 ⟨epollIn, 7⟩)) := rfl
    replace hr := (congrFun hreg fd).symm.trans hr
    by_cases hfd : fd = 0
    · subst hfd
      rw [Function.update_self] at hr
      obtain rfl := some.inj hr
      refine ⟨⟨⟨0, by decide +kernel, rfl⟩, fun j hj _ => ?_⟩, rfl⟩
      obtain rfl := oneInstance_live hj
      exact ⟨rfl, rfl⟩
    · rw [Function.update_of_ne hfd] at hr
      cases hr

/-- The event that it reports is right. -/
theorem careful_reports : ∃ (s : EpollWorld) (x : EpollReport) (cur ref made : ℕ) (r : Registration),
    x ∈ s.reports waitReady ∧ s.waited waitReady = some (cur, ref, made) ∧ s.Right cur ref made x r := by
  obtain ⟨s, hs, hop, hne⟩ := careful_run
  obtain ⟨x, hx⟩ := List.exists_mem_of_ne_nil _ hne
  obtain ⟨cur, ref, made, r, hright⟩ := carefulWaits_right hs hop hx
  exact ⟨s, x, cur, ref, made, r, hx, hright⟩

/-- Descriptor 0 is registered for one event. -/
def oneShot : EpollWorld := oneInstance.exec (.ctl 0 3 .add 0 (some ⟨epollIn ||| epollOneshot, 7⟩))

theorem oneShot_ref : oneShot.epollRef 0 3 = some 0 := by decide +kernel

theorem oneShot_round : oneShot.round 0 0 (fun _ => epollIn) 1 = [⟨0, 0, ⟨epollIn, 7⟩⟩] := by decide +kernel

theorem oneShot_waited : (oneShot.exec waitReady).reports waitReady = [⟨0, 0, ⟨epollIn, 7⟩⟩] := by
  decide +kernel

theorem oneShot_reg : ∃ r, oneShot.reg 0 0 = some r ∧ r.event.events &&& epollOneshot ≠ 0 ∧
    (oneShot.exec waitReady).reg 0 0 = some (r.reported (∃ x ∈ [(⟨0, 0, ⟨epollIn, 7⟩⟩ : EpollReport)],
      x.fd = 0)) := by
  have hwait : (oneShot.exec waitReady).reg = (oneShot.rounded 0 [⟨0, 0, ⟨epollIn, 7⟩⟩]).reg := by
    unfold exec waitReady
    dsimp only
    rw [oneShot_ref]
    dsimp only
    rw [if_neg (by decide)]
    have hround := oneShot_round
    unfold setWait
    rw [show (1 : ℤ).toNat = 1 from rfl, hround]
  rw [hwait]
  exact ⟨_, rfl, by decide, rfl⟩

/-- The event comes again, although it was asked for once. -/
theorem reports_not_right : ¬ ReportsRight Legal := by
  intro hall
  have h1 : Legal init (.sys (.call 0 (.epollCreate1 0))) :=
    show World.enabled .init (.call 0 (.epollCreate1 0)) by decide
  have h2 : Legal oneInstance (.ctl 0 3 .add 0 (some ⟨epollIn ||| epollOneshot, 7⟩)) :=
    show World.live _ 0 by decide +kernel
  have h3 : Legal oneShot waitReady := show oneShot.world.live 0 by decide +kernel
  have h4 : Legal (oneShot.exec waitReady) waitReady :=
    show (oneShot.exec waitReady).world.live 0 by decide +kernel
  have hrun : Runs Legal exec init (oneShot.exec waitReady) := (((Runs.refl _).tail _ h1).tail _ h2).tail _ h3
  have hx : (⟨0, 0, ⟨epollIn, 7⟩⟩ : EpollReport) ∈ (oneShot.exec waitReady).reports waitReady := by
    rw [oneShot_waited]
    exact List.mem_singleton_self _
  obtain ⟨cur, ref, made, r, hwaited, hright⟩ := hall _ hrun _ h4 _ hx
  have hepoll : (oneShot.exec waitReady).epollRef 0 3 = some 0 := by decide +kernel
  unfold waited waitReady at hwaited
  dsimp only at hwaited
  change Option.map _ ((oneShot.exec waitReady).epollRef 0 3) = _ at hwaited
  rw [hepoll] at hwaited
  obtain ⟨-, rfl, -⟩ : 0 = cur ∧ 0 = ref ∧ _ = made := by simpa using hwaited
  obtain ⟨r', -, honce, hreg⟩ := oneShot_reg
  obtain rfl := some.inj (hreg.symm.trans hright.added)
  exact (hright.once honce).2 ⟨_, List.mem_singleton_self _, rfl⟩

end EpollWorld

end Ridux
