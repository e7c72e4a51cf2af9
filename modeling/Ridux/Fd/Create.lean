import Ridux.Fd.Release

/-!
# New objects and new descriptors

* `Adds`: the tables of objects with new objects, and one lemma for each way to make one;
* `Life.create`, `Life.share`: a new object with its descriptors, a new descriptor of an object;
* one lemma for each call that makes descriptors, under the condition that it finds room.
-/

namespace Ridux

open Lib Tasks Function

/-! ### New objects -/

namespace Objects

variable {o o' : Objects} {i : ℕ} {new : Object → Prop}

/-- The objects `new` are added and everything else stays. -/
structure Adds (o : Objects) (new : Object → Prop) (o' : Objects) : Prop where
  alive : ∀ y, o'.alive y ↔ o.alive y ∨ new y
  fresh : ∀ y, new y → ¬ o.alive y
  store : StoreOk o'
  waits : o'.waits = o.waits

theorem StoreOk.grow (h : StoreOk o) (hal : ∀ y, o'.alive y ↔ o.alive y ∨ new y)
    (hrange : ∀ y, new y → y.inRange) (hp : o'.pipe = o.pipe) (ho : o'.opened = o.opened)
    (ha : o'.anon = o.anon) (hm : o'.memfdSeq = o.memfdSeq) (hd : o'.deletedSeq = o.deletedSeq) :
    StoreOk o' where
  range := by
    intro y hy
    rcases (hal y).1 hy with hy | hy
    · exact h.range y hy
    · exact hrange y hy
  pipe := by
    rw [hp]
    exact h.pipe
  anon := by
    rw [ho, ha]
    exact h.anon
  memfdSeq := by
    rw [ha, hm]
    exact h.memfdSeq
  deletedSeq := by
    rw [ha, hd]
    exact h.deletedSeq

theorem poolAlloc_adds (h : StoreOk o) {p : Pool} (hi : o.poolAlloc p = (some i, o')) :
    Adds o (· = .pooled p i) o' := by
  rw [poolAlloc] at hi
  cases hf : firstSlot (fun i => !o.pool p i) p.size with
  | none =>
    rw [hf] at hi
    cases hi
  | some j =>
    rw [hf] at hi
    cases hi
    obtain ⟨hlt, hfree⟩ := firstSlot_eq_some hf
    have hal : ∀ y, (o.setPool p i true).alive y ↔ o.alive y ∨ y = .pooled p i := by
      intro y
      rw [alive_setPool]
      by_cases hy : y = .pooled p i <;> simp [hy]
    refine ⟨hal, ?_, ?_, rfl⟩
    · rintro _ rfl hno
      have hno' : o.pool p i = true := hno
      simp [hno'] at hfree
    · refine StoreOk.grow h hal ?_ rfl rfl rfl rfl rfl
      rintro _ rfl
      exact hlt

theorem waits_of_unused {j : ℕ} (h : (o.sock j).used = false) : o.waits j = [] := by
  rw [Objects.waits, h]
  rfl

theorem sockCreate_adds (h : StoreOk o) (hi : o.sockCreate = (some i, o')) :
    Adds o (· = .socket i) o' ∧ (o'.sock i).peer = none := by
  rw [sockCreate] at hi
  cases hf : firstSlot (fun i => !(o.sock i).used) sockMax with
  | none =>
    rw [hf] at hi
    cases hi
  | some j =>
    rw [hf] at hi
    cases hi
    obtain ⟨hlt, hfree⟩ := firstSlot_eq_some hf
    have hunused : (o.sock i).used = false := by simpa using hfree
    have hal : ∀ y, (o.setSock i { Socket.closed with used := true }).alive y ↔
        o.alive y ∨ y = .socket i := by
      intro y
      rw [alive_setSock]
      by_cases hy : y = .socket i <;> simp [hy]
    refine ⟨⟨hal, ?_, ?_, waits_setSock_of_eq (waits_of_unused hunused).symm⟩, ?_⟩
    · rintro _ rfl hno
      have hno' : (o.sock i).used = true := hno
      rw [hunused] at hno'
      cases hno'
    · refine StoreOk.grow h hal ?_ rfl rfl rfl rfl rfl
      rintro _ rfl
      exact hlt
    · show (update o.sock i _ i).peer = none
      rw [update_self]
      rfl

theorem Adds.undo {o'' : Objects} (ha : Adds o new o') (hd : ∀ y, o''.alive y ↔ o'.alive y ∧ ¬ new y)
    (y : Object) : o''.alive y ↔ o.alive y := by
  rw [hd, ha.alive]
  constructor
  · rintro ⟨hy | hy, hno⟩
    · exact hy
    · exact absurd hy hno
  · intro hy
    exact ⟨.inl hy, fun hno => ha.fresh y hno hy⟩

theorem setPeer_same (i : ℕ) (p : Option ℕ) :
    Objects.Same o (o.setSock i { o.sock i with peer := p }) ∧
      (o.setSock i { o.sock i with peer := p }).waits = o.waits := by
  refine ⟨⟨rfl, fun j => ?_, rfl, rfl, rfl, rfl, rfl⟩, waits_setSock_of_eq rfl⟩
  show (update o.sock i _ j).used = _
  by_cases hj : j = i
  · rw [hj, update_self]
  · rw [update_of_ne hj]

theorem sockPairCreate_cases (h : StoreOk o) :
    (o.sockPairCreate.1 = none ∧ (∀ y, o.sockPairCreate.2.alive y ↔ o.alive y) ∧
        StoreOk o.sockPairCreate.2 ∧ o.sockPairCreate.2.waits = o.waits) ∨
      ∃ a b o', o.sockPairCreate = (some (a, b), o') ∧ a ≠ b ∧
        Adds o (fun y => y = .socket a ∨ y = .socket b) o' := by
  cases h1 : o.sockCreate with
  | mk r o₁ =>
    cases r with
    | none =>
      have ho₁ : o₁ = o := by
        rw [sockCreate] at h1
        split at h1 <;> cases h1
        rfl
      refine .inl ?_
      rw [sockPairCreate, h1]
      exact ⟨rfl, fun y => by rw [ho₁], ho₁ ▸ h, by rw [ho₁]⟩
    | some a =>
      obtain ⟨ha, -⟩ := sockCreate_adds h h1
      cases h2 : o₁.sockCreate with
      | mk r o₂ =>
        cases r with
        | none =>
          have ho₂ : o₂ = o₁ := by
            rw [sockCreate] at h2
            split at h2 <;> cases h2
            rfl
          have hal : o₁.alive (.socket a) := (ha.alive _).2 (.inr rfl)
          have hunused : o.waits a = [] := by
            refine waits_of_unused ?_
            by_contra hno
            have hu : (o.sock a).used = true := by simpa using hno
            exact ha.fresh (.socket a) rfl hu
          have hd := sockClose_drops ha.store hal (by rw [ha.waits, hunused])
          refine .inl ?_
          rw [sockPairCreate, h1]
          dsimp only
          rw [h2, ho₂]
          exact ⟨rfl, ha.undo hd.alive, hd.store, hd.waits.trans ha.waits⟩
        | some b =>
          obtain ⟨hb, -⟩ := sockCreate_adds ha.store h2
          obtain ⟨hsa, hwa⟩ := setPeer_same (o := o₂) a (some b)
          have hsock : (o₂.setSock a { o₂.sock a with peer := some b }).sock b = o₂.sock b := by
            refine update_of_ne ?_ _ _
            rintro rfl
            exact hb.fresh (.socket b) rfl ((ha.alive _).2 (.inr rfl))
          obtain ⟨hsb, hwb⟩ := setPeer_same
            (o := o₂.setSock a { o₂.sock a with peer := some b }) b (some a)
          rw [hsock] at hsb hwb
          refine .inr ⟨a, b, _, by rw [sockPairCreate, h1]; dsimp only; rw [h2], ?_, ?_⟩
          · rintro rfl
            exact hb.fresh (.socket a) rfl ((ha.alive _).2 (.inr rfl))
          · refine ⟨fun y => ?_, ?_, hsb.store (hsa.store hb.store), ?_⟩
            · rw [hsb.alive, hsa.alive, hb.alive, ha.alive, or_assoc]
            · rintro _ (rfl | rfl)
              · exact ha.fresh _ rfl
              · intro hno
                exact hb.fresh _ rfl ((ha.alive _).2 (.inl hno))
            · rw [hwb, hwa, hb.waits, ha.waits]

theorem pipeCreate_adds (h : StoreOk o) (hi : o.pipeCreate = (some i, o')) :
    Adds o (fun y => y = .pipeR i ∨ y = .pipeW i) o' := by
  rw [pipeCreate] at hi
  cases hf : firstSlot (fun i => !(o.pipe i).used) pipeMax with
  | none =>
    rw [hf] at hi
    cases hi
  | some j =>
    rw [hf] at hi
    cases hi
    obtain ⟨hlt, hfree⟩ := firstSlot_eq_some hf
    have hunused : (o.pipe i).used = false := by simpa using hfree
    have hself : (o.setPipe i ⟨true, 1, 1⟩).pipe i = ⟨true, 1, 1⟩ := update_self _ _ _
    have hother : ∀ j, j ≠ i → (o.setPipe i ⟨true, 1, 1⟩).pipe j = o.pipe j :=
      fun j hj => update_of_ne hj _ _
    have hal : ∀ y, (o.setPipe i ⟨true, 1, 1⟩).alive y ↔
        o.alive y ∨ (y = .pipeR i ∨ y = .pipeW i) := by
      intro y
      cases y with
      | pipeR j =>
        by_cases hj : j = i
        · subst hj
          simp [Objects.alive, hself]
        · simp [Objects.alive, hother j hj, hj]
      | pipeW j =>
        by_cases hj : j = i
        · subst hj
          simp [Objects.alive, hself]
        · simp [Objects.alive, hother j hj, hj]
      | _ => simp [Objects.alive, setPipe]
    refine ⟨hal, ?_, ⟨?_, ?_, h.anon, h.memfdSeq, h.deletedSeq⟩, rfl⟩
    · rintro _ (rfl | rfl)
      · simp [Objects.alive, hunused]
      · simp [Objects.alive, hunused]
    · intro y hy
      rcases (hal y).1 hy with hy | rfl | rfl
      · exact h.range y hy
      · exact hlt
      · exact hlt
    · intro j hu
      by_cases hj : j = i
      · subst hj
        rw [hself]
        exact ⟨by simp, by simp, .inl (by simp)⟩
      · rw [hother j hj] at hu ⊢
        exact h.pipe j hu

theorem slotAlloc_adds (h : StoreOk o) {p : OpenPath} {o₁ : Objects}
    (hsame : o₁.opened = o.opened ∧ o₁.pipe = o.pipe ∧ o₁.sock = o.sock ∧ o₁.pool = o.pool)
    (hanon : ∀ q, q ≠ .named → (o₁.anon q = true ↔ o.anon q = true ∨ q = p))
    (hmemfd : ∀ n, o₁.anon (.memfd n) = true → n < o₁.memfdSeq)
    (hdeleted : ∀ n, o₁.anon (.deleted n) = true → n < o₁.deletedSeq)
    (hi : o₁.c3VfsOpenSlotAlloc p = (some i, o')) : Adds o (· = .file i) o' := by
  obtain ⟨hopened, hpipe, hsock, hpool⟩ := hsame
  rw [c3VfsOpenSlotAlloc] at hi
  cases hf : firstSlot (fun i => (o₁.opened i).isNone) openMaxFiles with
  | none =>
    rw [hf] at hi
    cases hi
  | some j =>
    rw [hf] at hi
    cases hi
    obtain ⟨hlt, hfree⟩ := firstSlot_eq_some hf
    have hnone : o.opened i = none := by
      rw [← hopened]
      simpa using hfree
    have hself : (o₁.setOpened i (some p)).opened i = some p := update_self _ _ _
    have hother : ∀ j, j ≠ i → (o₁.setOpened i (some p)).opened j = o.opened j := by
      intro j hj
      rw [← hopened]
      exact update_of_ne hj _ _
    have hal₁ : ∀ y, o₁.alive y ↔ o.alive y := by
      intro y
      cases y with
      | pipeR j => rw [Objects.alive, Objects.alive, hpipe]
      | pipeW j => rw [Objects.alive, Objects.alive, hpipe]
      | socket j => rw [Objects.alive, Objects.alive, hsock]
      | pooled q j => rw [Objects.alive, Objects.alive, hpool]
      | file j => rw [Objects.alive, Objects.alive, hopened]
    have hal : ∀ y, (o₁.setOpened i (some p)).alive y ↔ o.alive y ∨ y = .file i := by
      intro y
      rw [alive_setOpened, hal₁]
      by_cases hy : y = .file i <;> simp [hy]
    refine ⟨hal, ?_, ⟨?_, ?_, ?_, hmemfd, hdeleted⟩, ?_⟩
    · rintro _ rfl hno
      exact hno hnone
    · intro y hy
      rcases (hal y).1 hy with hy | rfl
      · exact h.range y hy
      · exact hlt
    · intro j hu
      have hu' : (o.pipe j).used = true := by rw [← hpipe]; exact hu
      show PipeOk (o₁.pipe j)
      rw [hpipe]
      exact h.pipe j hu'
    · intro q hq
      show o₁.anon q = true ↔ _
      rw [hanon q hq, h.anon q hq]
      constructor
      · rintro (⟨j, hj⟩ | rfl)
        · refine ⟨j, ?_⟩
          rw [hother j]
          · exact hj
          · rintro rfl
            rw [hnone] at hj
            cases hj
        · exact ⟨i, hself⟩
      · rintro ⟨j, hj⟩
        by_cases hji : j = i
        · rw [hji, hself] at hj
          exact .inr (Option.some.inj hj).symm
        · rw [hother j hji] at hj
          exact .inl ⟨j, hj⟩
    · funext j
      show (if (o₁.sock j).used then (o₁.sock j).anc else []) = o.waits j
      rw [hsock]
      rfl

end Objects

/-! ### Descriptors -/

section

variable {s t : Sys} {table : ℕ → ℕ} {cur fd r : ℕ} {p : OpenPath} {o o' : Objects} {k : FdKind}

theorem Life.create (h : Life s) {newObj : Object → Prop} (new : FdKind → ℕ → Prop)
    (ha : Objects.Adds s.objs newObj t.objs) (hr : t.rights = s.rights)
    (hheld : ∀ k r, k ≠ .none → (t.tasks.held k r ↔ s.tasks.held k r ∨ new k r))
    (hnew : ∀ y, newObj y ↔ ∃ k r, k.object r = some y ∧ new k r)
    (hone : ∀ k k' r, new k r → new k' r → k.isFile = true → k'.isFile = true → k = k') :
    Life t := by
  refine h.grow new (fun y => by rw [ha.alive, hnew]) ?_ ?_ hone ha.store
    (h.rings.congr ha.waits hr)
  · intro k r o hk
    rw [Sys.refs, Sys.refs, hheld k r (kind_ne_none_of_object hk), queued_congr ha.waits hr,
      or_right_comm]
  · intro k r hkr hf
    exact ha.fresh _ ((hnew _).2 ⟨k, r, isFile_iff.1 hf, hkr⟩)

theorem Life.createOne (h : Life s) (hh : Held s.tasks table cur)
    (hfree : firstFree (s.tasks.task cur).fds 0 = some fd) {objs : Objects} {e : Fd} {x : Object}
    (hx : e.kind.object e.ref = some x) (ha : Objects.Adds s.objs (· = x) objs) :
    Life ((s.setObjs objs).setTable cur (update (s.tasks.task cur).fds fd e)) := by
  obtain ⟨hfd, -, hnone⟩ := firstFree_eq_some hfree
  refine h.create (fun k r => k = e.kind ∧ r = e.ref) ha rfl
    (fun k r hk => hh.held_write hfd hnone e hk) (fun y => ?_) ?_
  · constructor
    · rintro rfl
      exact ⟨e.kind, e.ref, hx, rfl, rfl⟩
    · rintro ⟨k, r, hk, rfl, rfl⟩
      exact Option.some.inj (hk.symm.trans hx)
  · rintro k k' r ⟨rfl, -⟩ ⟨rfl, -⟩ - -
    rfl

/-- Two new objects with their descriptors. -/
theorem Life.createTwo (h : Life s) (hh : Held s.tasks table cur) {fd₁ fd₂ : ℕ}
    {objs : Objects} (e₁ e₂ : Fd) {x₁ x₂ : Object}
    (hfree₁ : firstFree (s.tasks.task cur).fds 0 = some fd₁)
    (hfree₂ : firstFree (update (s.tasks.task cur).fds fd₁ e₁) 0 = some fd₂)
    (hx₁ : e₁.kind.object e₁.ref = some x₁) (hx₂ : e₂.kind.object e₂.ref = some x₂)
    (hne : x₁ ≠ x₂) (ha : Objects.Adds s.objs (fun y => y = x₁ ∨ y = x₂) objs) :
    Life ((s.setObjs objs).setTable cur
      (update (update (s.tasks.task cur).fds fd₁ e₁) fd₂ e₂)) := by
  obtain ⟨hfd₁, -, hnone₁⟩ := firstFree_eq_some hfree₁
  obtain ⟨hfd₂, -, hnone₂⟩ := firstFree_eq_some hfree₂
  have hheld : ∀ k r, k ≠ .none → ((s.tasks.setTable cur
      (update (update (s.tasks.task cur).fds fd₁ e₁) fd₂ e₂)).held k r ↔
        s.tasks.held k r ∨ (k = e₁.kind ∧ r = e₁.ref ∨ k = e₂.kind ∧ r = e₂.ref)) := by
    intro k r hk
    have hown : ((s.tasks.setTable cur
        (update (s.tasks.task cur).fds fd₁ e₁)).task cur).fds =
          update (s.tasks.task cur).fds fd₁ e₁ := by
      rw [Tasks.setTable, put_self, fds_withFds]
    have hsecond := (hh.setTable (update (s.tasks.task cur).fds fd₁ e₁)).held_write (r := r)
      hfd₂ (by rw [hown]; exact hnone₂) e₂ hk
    rw [hown, Tasks.setTable_setTable] at hsecond
    rw [hsecond, hh.held_write hfd₁ hnone₁ e₁ hk, or_assoc]
  refine h.create (fun k r => k = e₁.kind ∧ r = e₁.ref ∨ k = e₂.kind ∧ r = e₂.ref) ha rfl hheld
    (fun y => ?_) ?_
  · constructor
    · rintro (rfl | rfl)
      · exact ⟨e₁.kind, e₁.ref, hx₁, .inl ⟨rfl, rfl⟩⟩
      · exact ⟨e₂.kind, e₂.ref, hx₂, .inr ⟨rfl, rfl⟩⟩
    · rintro ⟨k, r, hk, ⟨rfl, rfl⟩ | ⟨rfl, rfl⟩⟩
      · exact .inl (Option.some.inj (hk.symm.trans hx₁))
      · exact .inr (Option.some.inj (hk.symm.trans hx₂))
  · -- two files would have two slots
    intro k k' r hk hk' hf hf'
    have ho := (isFile_iff (r := r)).1 hf
    have ho' := (isFile_iff (r := r)).1 hf'
    rcases hk with ⟨rfl, rfl⟩ | ⟨rfl, rfl⟩ <;> rcases hk' with ⟨rfl, hr⟩ | ⟨rfl, hr⟩
    · rfl
    · rw [hr] at ho ho'
      rw [hr, ho] at hx₁
      rw [ho'] at hx₂
      exact absurd ((Option.some.inj hx₁).symm.trans (Option.some.inj hx₂)) hne
    · rw [hr] at ho ho'
      rw [hr, ho] at hx₂
      rw [ho'] at hx₁
      exact absurd ((Option.some.inj hx₁).symm.trans (Option.some.inj hx₂)) hne
    · rfl

theorem Life.still (h : Life s) (halive : ∀ y, t.objs.alive y ↔ s.objs.alive y)
    (hstore : StoreOk t.objs) (hw : t.objs.waits = s.objs.waits) (hr : t.rights = s.rights)
    (hheld : ∀ k r, k ≠ .none → (t.tasks.held k r ↔ s.tasks.held k r)) : Life t := by
  refine h.congr halive ?_ hstore (h.rings.congr hw hr)
  intro k r o hk
  rw [Sys.refs, Sys.refs, hheld k r (kind_ne_none_of_object hk), queued_congr hw hr]

theorem Life.arrays (h : Life s) (hobjs : t.objs = s.objs) (hr : t.rights = s.rights)
    (hheld : ∀ k r, k ≠ .none → (t.tasks.held k r ↔ s.tasks.held k r)) : Life t := by
  refine h.still (fun y => by rw [hobjs]) (hobjs ▸ h.store) (by rw [hobjs]) hr hheld

theorem Life.share (h : Life s) (hh : Held s.tasks table cur) (hfd : fd < taskFdMax)
    (hnone : ((s.tasks.task cur).fds fd).kind = .none) {e : Fd}
    (he : (e.kind.object e.ref).isSome = true → s.refs e.kind e.ref) :
    Life (s.setTable cur (update (s.tasks.task cur).fds fd e)) := by
  refine h.congr (fun _ => Iff.rfl) ?_ h.store (h.rings.congr rfl rfl)
  intro k r o hk
  rw [Sys.refs, queued_congr rfl rfl, Sys.setTable_tasks,
    hh.held_write hfd hnone e (kind_ne_none_of_object hk)]
  constructor
  · rintro ((hheld | ⟨rfl, rfl⟩) | hq)
    · exact .inl hheld
    · exact he (by rw [hk]; rfl)
    · exact .inr hq
  · rintro (hheld | hq)
    · exact .inl (.inl hheld)
    · exact .inr hq

/-! ### Calls that make descriptors -/

/-- Some descriptor of the caller is free. -/
def FdRoom (s : Sys) (cur : ℕ) : Prop := (s.tasks.freeFd cur 0).isSome = true

/-- An open slot that is taken finds a descriptor. -/
def SlotRoom (s : Sys) (cur : ℕ) : Prop :=
  (s.objs.c3VfsOpenSlotAlloc .named).1.isSome = true → FdRoom s cur

theorem FdRoom.free (hroom : FdRoom s cur) (hh : Held s.tasks table cur) :
    ∃ fd, firstFree (s.tasks.task cur).fds 0 = some fd := by
  rw [FdRoom, hh.grouped.freeFd] at hroom
  exact Option.isSome_iff_exists.1 hroom

theorem slotAlloc_isSome (ho : o'.opened = o.opened) (p q : OpenPath) :
    (o'.c3VfsOpenSlotAlloc p).1.isSome = (o.c3VfsOpenSlotAlloc q).1.isSome := by
  rw [Objects.c3VfsOpenSlotAlloc, Objects.c3VfsOpenSlotAlloc, ho]
  cases firstSlot (fun i => (o.opened i).isNone) openMaxFiles <;> rfl

theorem handOut_life (h : Life s) (hh : Held s.tasks table cur) {kind : FdKind} {ref : ℕ}
    (fl : BitVec 16) (he : (kind.object ref).isSome = true → s.refs kind ref) :
    Life (Sys.handOut id (s.allocFd cur kind ref fl)).2 := by
  cases hf : firstFree (s.tasks.task cur).fds 0 with
  | some fd =>
    obtain ⟨hfd, -, hnone⟩ := firstFree_eq_some hf
    rw [hh.grouped.allocFd_some hf]
    exact h.share hh hfd hnone he
  | none =>
    rw [hh.grouped.allocFd_none hf]
    exact h

theorem openSlot_life (h : Life s) (hh : Held s.tasks table cur) {kind : FdKind}
    (hkind : kind.isFile = true) (fl : BitVec 16)
    (hadds : ∀ i o', o.c3VfsOpenSlotAlloc p = (some i, o') →
      Objects.Adds s.objs (· = .file i) o')
    (hroom : (o.c3VfsOpenSlotAlloc p).1.isSome = true → FdRoom s cur)
    (hfull : (o.c3VfsOpenSlotAlloc p).1 = none → Life (s.setObjs o)) :
    Life ((s.setObjs o).openSlot cur kind p fl).2 := by
  rw [Sys.openSlot]
  rcases ha : o.c3VfsOpenSlotAlloc p with ⟨slot, o'⟩
  have ha' : (s.setObjs o).objs.c3VfsOpenSlotAlloc p = (slot, o') := ha
  rw [ha']
  cases slot with
  | none => exact hfull (by rw [ha])
  | some i =>
    obtain ⟨fd, hf⟩ := (hroom (by rw [ha]; rfl)).free hh
    have hg : Grouped ((s.setObjs o).setObjs o').tasks cur (s.tasks.task cur).fds := hh.grouped
    dsimp only
    rw [hg.allocFd_some hf]
    exact h.createOne hh hf (isFile_iff.1 hkind) (hadds i o' ha)

theorem openSlot_life_exists (h : Life s) (hh : Held s.tasks table cur) {kind : FdKind}
    (hkind : kind.isFile = true) (hp : p ≠ .named → s.objs.anon p = true) (fl : BitVec 16)
    (hroom : SlotRoom s cur) : Life (s.openSlot cur kind p fl).2 := by
  refine openSlot_life (o := s.objs) h hh hkind fl ?_ ?_ fun _ => h
  · intro i o' ha
    refine Objects.slotAlloc_adds h.store ⟨rfl, rfl, rfl, rfl⟩ (fun q hq => ?_) h.store.memfdSeq
      h.store.deletedSeq ha
    constructor
    · exact .inl
    · rintro (hq' | rfl)
      · exact hq'
      · exact hp hq
  · intro ha
    exact hroom (by rw [← slotAlloc_isSome rfl p]; exact ha)

/-- Opening a file that is made for it. -/
theorem openNew_life (h : Life s) (hh : Held s.tasks table cur) {o₁ : Objects} (fl : BitVec 16)
    (hsame : o₁.opened = s.objs.opened ∧ o₁.pipe = s.objs.pipe ∧
      o₁.sock = s.objs.sock ∧ o₁.pool = s.objs.pool) (hanon : o₁.anon = update s.objs.anon p true)
    (hmemfd : ∀ n, (s.objs.anon (.memfd n) = true ∨ .memfd n = p) → n < o₁.memfdSeq)
    (hdeleted : ∀ n, (s.objs.anon (.deleted n) = true ∨ .deleted n = p) → n < o₁.deletedSeq)
    (hroom : FdRoom s cur) (hslot : (s.objs.c3VfsOpenSlotAlloc .named).1.isSome = true) :
    Life ((s.setObjs o₁).openSlot cur .vfsfile p fl).2 := by
  have hmem : ∀ q, o₁.anon q = true ↔ s.objs.anon q = true ∨ q = p := by
    intro q
    rw [hanon]
    by_cases hq : q = p
    · simp [hq]
    · rw [update_of_ne hq, or_iff_left hq]
  have hadds : ∀ i o', o₁.c3VfsOpenSlotAlloc p = (some i, o') →
      Objects.Adds s.objs (· = .file i) o' := fun i o' ha =>
    Objects.slotAlloc_adds h.store hsame (fun q _ => hmem q) (fun n hn => hmemfd n ((hmem _).1 hn))
      (fun n hn => hdeleted n ((hmem _).1 hn)) ha
  refine openSlot_life h hh rfl fl hadds (fun _ => hroom) fun hno => ?_
  rw [← slotAlloc_isSome hsame.1 p, hno] at hslot
  cases hslot

theorem memfdCreate_life (h : Life s) (hh : Held s.tasks table cur) (cloexec : Bool)
    (hroom : FdRoom s cur) (hslot : (s.objs.c3VfsOpenSlotAlloc .named).1.isSome = true) :
    Life (s.realSysMemfdCreate cur cloexec).2 := by
  rw [Sys.realSysMemfdCreate]
  refine openNew_life h hh _ ⟨rfl, rfl, rfl, rfl⟩ rfl ?_ ?_ hroom hslot
  · rintro n (hn | hn)
    · exact Nat.lt_succ_of_lt (h.store.memfdSeq n hn)
    · obtain rfl : n = s.objs.memfdSeq := by simpa using hn
      exact Nat.lt_succ_self _
  · rintro n (hn | hn)
    · exact h.store.deletedSeq n hn
    · cases hn

theorem openTmpfile_life (h : Life s) (hh : Held s.tasks table cur) (flags : BitVec 32)
    (hroom : FdRoom s cur) (hslot : (s.objs.c3VfsOpenSlotAlloc .named).1.isSome = true) :
    Life (s.openTmpfile cur flags).2 := by
  rw [Sys.openTmpfile]
  refine openNew_life h hh _ ⟨rfl, rfl, rfl, rfl⟩ rfl ?_ ?_ hroom hslot
  · rintro n (hn | hn)
    · exact h.store.memfdSeq n hn
    · cases hn
  · rintro n (hn | hn)
    · exact Nat.lt_succ_of_lt (h.store.deletedSeq n hn)
    · obtain rfl : n = s.objs.deletedSeq := by simpa using hn
      exact Nat.lt_succ_self _

theorem createPooled_life (h : Life s) (hh : Held s.tasks table cur) (p : Pool) (fl : BitVec 16)
    (full : Errno) : Life (s.createPooled cur p p.kind fl full).2 := by
  rw [Sys.createPooled]
  rcases ha : s.objs.poolAlloc p with ⟨slot, o'⟩
  cases slot with
  | none => exact h
  | some i =>
    have hadds := Objects.poolAlloc_adds h.store ha
    have hg : Grouped (s.setObjs o').tasks cur (s.tasks.task cur).fds := hh.grouped
    dsimp only
    cases hf : firstFree (s.tasks.task cur).fds 0 with
    | some fd =>
      rw [hg.allocFd_some hf]
      exact h.createOne (e := ⟨p.kind, i, fl, 0⟩) hh hf (p.kind_object i) hadds
    | none =>
      -- the new object is freed again
      have hd := Objects.poolFree_drops hadds.store ((hadds.alive _).2 (.inr rfl))
      rw [hg.allocFd_none hf]
      exact h.still (hadds.undo hd.alive) hd.store (hd.waits.trans hadds.waits) rfl
        fun _ _ _ => Iff.rfl

theorem realSysSocket_life (h : Life s) (hh : Held s.tasks table cur) (domain type : BitVec 32) :
    Life (s.realSysSocket cur domain type).2 := by
  rw [Sys.realSysSocket]
  by_cases htype : Sys.socketType domain type = true
  · rw [if_neg (by simp [htype])]
    rcases ha : Sys.sockCreateIn s.objs domain with ⟨slot, o'⟩
    cases slot with
    | none => exact h
    | some i =>
      have hcreate : s.objs.sockCreate = (some i, o') := by
        rw [Sys.sockCreateIn] at ha
        split at ha
        · exact ha
        · cases ha
      obtain ⟨hadds, -⟩ := Objects.sockCreate_adds h.store hcreate
      have hg : Grouped (s.setObjs o').tasks cur (s.tasks.task cur).fds := hh.grouped
      dsimp only
      cases hf : firstFree (s.tasks.task cur).fds 0 with
      | some fd =>
        rw [hg.allocFd_some hf]
        exact h.createOne (e := ⟨.socket, i, _, 0⟩) hh hf rfl hadds
      | none =>
        have hring : o'.waits i = [] := by
          rw [hadds.waits]
          refine Objects.waits_of_unused ?_
          by_contra hno
          have hu : (s.objs.sock i).used = true := by simpa using hno
          exact hadds.fresh _ rfl hu
        have hd := Objects.sockClose_drops hadds.store ((hadds.alive _).2 (.inr rfl)) hring
        rw [hg.allocFd_none hf]
        exact h.still (hadds.undo hd.alive) hd.store (hd.waits.trans hadds.waits) rfl
          fun _ _ _ => Iff.rfl
  · rw [if_pos (by simpa using htype)]
    exact h

theorem closePair_undo {a b : ℕ}
    (ha : Objects.Adds s.objs (fun y => y = .socket a ∨ y = .socket b) o') (hne : a ≠ b) :
    (∀ y, ((o'.sockClose a).sockClose b).alive y ↔ s.objs.alive y) ∧
      StoreOk ((o'.sockClose a).sockClose b) ∧
      ((o'.sockClose a).sockClose b).waits = s.objs.waits := by
  have hring : ∀ i, (i = a ∨ i = b) → o'.waits i = [] := by
    intro i hi
    rw [ha.waits]
    refine Objects.waits_of_unused ?_
    by_contra hno
    have hu : (s.objs.sock i).used = true := by simpa using hno
    refine ha.fresh (.socket i) ?_ hu
    rcases hi with rfl | rfl
    · exact .inl rfl
    · exact .inr rfl
  have hda := Objects.sockClose_drops ha.store ((ha.alive (.socket a)).2 (.inr (.inl rfl)))
    (hring a (.inl rfl))
  have hdb := Objects.sockClose_drops hda.store (i := b)
    ((hda.alive _).2 ⟨(ha.alive _).2 (.inr (.inr rfl)), by simpa using hne.symm⟩)
    (by rw [hda.waits]; exact hring b (.inr rfl))
  refine ⟨ha.undo fun y => ?_, hdb.store, hdb.waits.trans (hda.waits.trans ha.waits)⟩
  rw [hdb.alive, hda.alive, and_assoc, not_or]

theorem Held.held_cleared (hh : Held s.tasks table cur) (hfd : fd < taskFdMax)
    (hnone : ((s.tasks.task cur).fds fd).kind = .none) (hk : k ≠ .none) :
    (s.tasks.setTable cur (update (s.tasks.task cur).fds fd .empty)).held k r ↔
      s.tasks.held k r := by
  rw [hh.held_write hfd hnone _ hk, or_iff_left]
  rintro ⟨rfl, -⟩
  exact hk rfl

theorem realSysSocketpair_life (h : Life s) (hh : Held s.tasks table cur)
    (domain type : BitVec 32) : Life (s.realSysSocketpair cur domain type).2 := by
  rw [Sys.realSysSocketpair]
  split_ifs
  · exact h
  · exact h
  · rcases Objects.sockPairCreate_cases h.store with ⟨hnone, hal, hst, hw⟩ | ⟨a, b, o', heq, hne, ha⟩
    · rcases hp : s.objs.sockPairCreate with ⟨pair, o'⟩
      rw [hp] at hnone hal hst hw
      obtain rfl : pair = none := hnone
      exact h.still hal hst hw rfl fun _ _ _ => Iff.rfl
    · rw [heq]
      dsimp only
      obtain ⟨hal, hst, hw⟩ := closePair_undo ha hne
      have hg : Grouped (s.setObjs o').tasks cur (s.tasks.task cur).fds := hh.grouped
      rw [Sys.socketpairFds]
      generalize Sys.modeFlags (fdflReadable ||| fdflWritable) type = fl
      cases h0 : firstFree (s.tasks.task cur).fds 0 with
      | none =>
        rw [hg.allocFd_none h0]
        exact h.still hal hst hw rfl fun _ _ _ => Iff.rfl
      | some fd0 =>
        obtain ⟨hfd, -, hnone⟩ := firstFree_eq_some h0
        have hg₁ := hg.sys (update (s.tasks.task cur).fds fd0 ⟨.socket, a, fl, 0⟩)
        rw [hg.allocFd_some h0]
        dsimp only
        cases h1 : firstFree
            (update (s.tasks.task cur).fds fd0 ⟨.socket, a, fl, 0⟩) 0 with
        | none =>
          rw [hg₁.allocFd_none h1]
          refine h.still hal hst hw rfl fun k r hk => ?_
          have hclear := clear_new (e := ⟨.socket, a, fl, 0⟩) hg hfd (by simp)
          dsimp only
          rw [hclear]
          exact hh.held_cleared hfd hnone hk
        | some fd1 =>
          rw [hg₁.allocFd_some h1, Sys.setTable_setTable]
          exact h.createTwo hh ⟨.socket, a, fl, 0⟩ ⟨.socket, b, fl, 0⟩ h0 h1 rfl rfl
            (by simpa using hne) ha

/-- A new pipe finds two free descriptors. -/
def PipeTwo (s : Sys) (cur : ℕ) : Prop :=
  s.objs.pipeCreate.1.isSome = true →
    ∃ r, s.tasks.freeFd cur 0 = some r ∧ (s.tasks.freeFd cur (r + 1)).isSome = true

theorem PipeTwo.room (h : PipeTwo s cur) : PipeRoom s cur := by
  intro hp r hr
  obtain ⟨r', hr', htwo⟩ := h hp
  obtain rfl : r' = r := Option.some.inj (hr'.symm.trans hr)
  exact htwo

theorem realSysPipe_life (h : Life s) (hh : Held s.tasks table cur) (htwo : PipeTwo s cur) :
    Life (s.realSysPipe cur).2 := by
  rw [Sys.realSysPipe]
  rcases ha : s.objs.pipeCreate with ⟨_ | i, o'⟩
  · exact h
  · obtain ⟨r, hr, hsecond⟩ := htwo (by rw [ha]; rfl)
    rw [hh.grouped.freeFd] at hr hsecond
    obtain ⟨w, hw⟩ := firstFree_second (e := ⟨.pipeR, i, fdflReadable, 0⟩) hsecond
    have hg : Grouped (s.setObjs o').tasks cur (s.tasks.task cur).fds := hh.grouped
    dsimp only
    rw [pipeFds_some hg hr hw]
    exact h.createTwo hh ⟨.pipeR, i, fdflReadable, 0⟩ ⟨.pipeW, i, fdflWritable, 0⟩
      hr hw rfl rfl (by simp) (Objects.pipeCreate_adds h.store ha)

theorem realSysPipe2_life (h : Life s) (hh : Held s.tasks table cur) (flags : BitVec 32)
    (htwo : hasMode flags (~~~(oNonblock ||| oCloexec)) = false → PipeTwo s cur) :
    Life (s.realSysPipe2 cur flags).2 := by
  rw [Sys.realSysPipe2]
  by_cases hflags : hasMode flags (~~~(oNonblock ||| oCloexec)) = true
  · rw [if_pos hflags]
    exact h
  · have htwo' := htwo (by simpa using hflags)
    have hlife := realSysPipe_life h hh htwo'
    rw [if_neg hflags]
    rcases realSysPipe_cases hh.grouped htwo'.room with ⟨e, t, heq, -⟩ | ⟨r, w, t, g', heq, hr, hw, ht, -⟩
    · rw [heq] at hlife ⊢
      exact hlife
    · rw [heq] at hlife ⊢
      have hht : Held t.tasks table cur := ht ▸ hh.setTable g'
      refine hlife.arrays rfl rfl fun k r hk => ?_
      dsimp only
      rw [pipe2Flags_eq hht.grouped hr hw]
      exact hht.held_rewrite (fun fd => (pipe2Table_object _ _ fd flags).1)
        (fun fd _ => (pipe2Table_object _ _ fd flags).2) hk

theorem openProc_life (h : Life s) (hh : Held s.tasks table cur) (flags : BitVec 32)
    {generated : Bool} (hshared : ProcShared s cur generated) :
    Life (s.openProc cur flags generated).2 := by
  rw [Sys.openProc]
  cases hf : firstFree (s.tasks.task cur).fds 0 with
  | none =>
    rw [hh.grouped.allocFd_none hf]
    exact h
  | some fd =>
    obtain ⟨hfd, -, hnone⟩ := firstFree_eq_some hf
    rw [hh.grouped.allocFd_some hf]
    dsimp only
    by_cases hno : generated = false ∨ (s.objs.poolAlloc .procBuf).1 = none
    · obtain ⟨e, he⟩ := attachProc_none hh.grouped (Sys.openFlags flags) hf hno
      rw [he]
      exact h.arrays rfl rfl fun k r hk => hh.held_cleared hfd hnone hk
    · push Not at hno
      obtain rfl : generated = true := by simpa using hno.1
      rcases halloc : s.objs.poolAlloc .procBuf with ⟨_ | i, objs⟩
      · rw [halloc] at hno
        exact absurd rfl hno.2
      · rw [attachProc_some hh.grouped hf hshared halloc]
        exact h.createOne (e := ⟨.proc, i, Sys.openFlags flags, 0⟩) hh hf rfl
          (Objects.poolAlloc_adds h.store halloc)

/-! ### Calls that copy descriptors -/

theorem Held.refs_entry (hh : Held s.tasks table cur) {i : ℕ} (hi : i < taskFdMax) :
    s.refs (s.entry cur i).kind (s.entry cur i).ref :=
  .inl ⟨cur, i, hh.used, hi, holds_iff.2 ⟨rfl, rfl⟩⟩

theorem c3DupFdMin_life (h : Life s) (hh : Held s.tasks table cur) (oldfd minfd : ℕ)
    (cloexec : Bool) : Life (s.c3DupFdMin cur oldfd minfd cloexec).2 := by
  rw [Sys.c3DupFdMin, hh.grouped.syncFd]
  split_ifs with hv
  · exact h
  · exact h
  · obtain ⟨hold, -⟩ := hh.grouped.valid.1 (by simpa using hv)
    rw [Sys.dupFrom, hh.grouped.freeFd]
    cases hf : firstFree (s.tasks.task cur).fds minfd with
    | none => exact h
    | some nfd =>
      obtain ⟨hnfd, -, hnone⟩ := firstFree_eq_some hf
      dsimp only
      rw [hh.grouped.installFd hnfd]
      exact h.share hh hnfd hnone fun _ => hh.refs_entry hold

/-- `dup2` reaches its second part. -/
def Dups (s : Sys) (cur oldfd newfd : ℕ) : Prop :=
  s.valid cur oldfd = true ∧ newfd < taskFdMax ∧ oldfd ≠ newfd

theorem dup2Copy_life (h : Life s) (hh : Held s.tasks table cur) {oldfd newfd : ℕ}
    (hold : oldfd < taskFdMax) (hnew : newfd < taskFdMax)
    (hnone : ((s.tasks.task cur).fds newfd).kind = .none) :
    Life (s.dup2Copy cur oldfd newfd) := by
  rw [Sys.dup2Copy, hh.grouped.installFd hnew]
  exact h.share hh hnew hnone fun _ => hh.refs_entry hold

theorem realSysDup2_life (h : Life s) (hh : Held s.tasks table cur) (oldfd newfd : ℕ)
    (hq : Dups s cur oldfd newfd → s.QuietClose table cur (· = newfd)) :
    Life (s.realSysDup2 cur oldfd newfd).2 := by
  rw [Sys.realSysDup2, hh.grouped.syncFd]
  by_cases hv : s.valid cur oldfd = true
  · obtain ⟨hold, -⟩ := hh.grouped.valid.1 hv
    rw [if_neg (by simp [hv])]
    split_ifs with hlt hne
    · exact h
    · exact h
    · have hnew : newfd < taskFdMax := by omega
      rw [Sys.dup2Onto, hh.grouped.syncFd]
      split_ifs with hvn
      · -- the old object of the number goes first
        obtain ⟨-, hkn⟩ := hh.grouped.valid.1 hvn
        obtain ⟨hlife, hheld, -, htasks⟩ := h.close hh (hq ⟨hv, hnew, hne⟩) rfl hnew hkn
        rcases hh.grouped.close_tasks newfd with ⟨r, hr, -, -, -⟩ | ⟨-, hno⟩
        · rw [hr] at hlife hheld htasks ⊢
          refine dup2Copy_life hlife hheld hold hnew ?_
          rw [htasks, Tasks.setTable, put_self, fds_withFds, update_self]
          rfl
        · exact absurd ⟨hnew, hkn⟩ hno
      · refine dup2Copy_life h hh hold hnew ?_
        by_contra hk
        exact hvn (hh.grouped.valid.2 ⟨hnew, hk⟩)
  · rw [if_pos (by simpa using hv)]
    exact h

theorem held_flags (hh : Held s.tasks table cur) (fl : BitVec 16) (hk : k ≠ .none) :
    (s.tasks.setTable cur (update (s.tasks.task cur).fds fd
      { (s.tasks.task cur).fds fd with flags := fl })).held k r ↔ s.tasks.held k r := by
  refine hh.held_rewrite (fun i => ?_) (fun i _ => ?_) hk
  · by_cases hi : i = fd
    · rw [hi, update_self]
    · rw [update_of_ne hi]
  · by_cases hi : i = fd
    · rw [hi, update_self]
    · rw [update_of_ne hi]

theorem realSysDup3_life (h : Life s) (hh : Held s.tasks table cur) (oldfd newfd : ℕ)
    (flags : BitVec 32) (hq : hasMode flags (~~~oCloexec) = false → Dups s cur oldfd newfd →
      s.QuietClose table cur (· = newfd)) : Life (s.realSysDup3 cur oldfd newfd flags).2 := by
  rw [Sys.realSysDup3]
  by_cases h1 : hasMode flags (~~~oCloexec) = true
  · rw [if_pos h1]
    exact h
  · rw [if_neg h1]
    by_cases h2 : oldfd = newfd
    · rw [if_pos h2]
      exact h
    · rw [if_neg h2]
      have hlife := realSysDup2_life h hh oldfd newfd (hq (by simpa using h1))
      obtain ⟨g₁, ht, -⟩ := realSysDup2_step hh.grouped oldfd newfd
      rcases heq : s.realSysDup2 cur oldfd newfd with ⟨rc, t⟩
      rw [heq] at hlife ht
      cases rc with
      | error e => exact hlife
      | ok l =>
        obtain ⟨-, hfd⟩ := realSysDup2_ok heq
        have hht : Held t.tasks table cur := ht ▸ hh.setTable g₁
        dsimp only
        split_ifs
        · refine hlife.arrays rfl rfl fun k r hk => ?_
          rw [addFlags_copy hht.grouped hfd]
          exact held_flags hht _ hk
        · exact hlife

theorem setFlags_life (h : Life s) (hh : Held s.tasks table cur) (hfd : fd < taskFdMax)
    (fl : BitVec 16) : Life (s.setFlags cur fd fl) := by
  rw [Sys.setFlags, hh.grouped.installFd hfd]
  exact h.arrays rfl rfl fun k r hk => held_flags hh fl hk

theorem realSysFcntl_life (h : Life s) (hh : Held s.tasks table cur) (fd : ℕ) (cmd : Sys.Fcntl) :
    Life (s.realSysFcntl cur fd cmd).2 := by
  unfold Sys.realSysFcntl
  rw [hh.grouped.syncFd]
  dsimp only
  split_ifs with hv
  · exact h
  · obtain ⟨hfd, -⟩ := hh.grouped.valid.1 (by simpa using hv)
    cases cmd with
    | dupfd arg =>
      dsimp only
      split_ifs
      · exact h
      · exact c3DupFdMin_life h hh fd arg false
    | dupfdCloexec arg =>
      dsimp only
      split_ifs
      · exact h
      · exact c3DupFdMin_life h hh fd arg true
    | setfd arg => exact setFlags_life h hh hfd _
    | setfl arg => exact setFlags_life h hh hfd _
    | other => exact h

/-! ### Open -/

/-- What an `open` must find. -/
def OpenTidy (s : Sys) (cur : ℕ) (flags : BitVec 32) : Sys.OpenTarget → Prop
  | .tmpfile => (s.objs.c3VfsOpenSlotAlloc .named).1.isSome = true ∧ FdRoom s cur
  | .anon path => s.objs.anon path = true → SlotRoom s cur
  | .symlink => SlotRoom s cur
  | .dir =>
    (Sys.openFlags flags &&& fdflWritable != 0 || hasMode flags 0x200) = false → SlotRoom s cur
  | .file => SlotRoom s cur
  | _ => True

theorem openProcFd_life (h : Life s) (hh : Held s.tasks table cur) {owner : ℕ}
    (howner : (s.tasks.task owner).used = true) (fdn : ℕ) (flags : BitVec 32) :
    Life (s.openProcFd cur owner fdn flags).2 := by
  rw [Sys.openProcFd]
  split_ifs with hv
  · exact h
  · exact h
  · exact h
  · have hvalid : s.valid owner fdn = true := by simpa using hv
    have hfd := (fdValid_iff.1 hvalid).1
    exact handOut_life h hh _ fun _ => .inl ⟨owner, fdn, howner, hfd, holds_iff.2 ⟨rfl, rfl⟩⟩

theorem realSysOpen_life (h : Life s) (hh : Held s.tasks table cur) (flags : BitVec 32)
    (target : Sys.OpenTarget) (htidy : OpenTidy s cur flags target)
    (hshared : ∀ generated, target = .proc generated → ProcShared s cur generated) :
    Life (s.realSysOpen cur flags target).2 := by
  cases target with
  | procFd pid fdn =>
    rw [Sys.realSysOpen]
    cases ho : s.procOwner cur pid with
    | none => exact h
    | some owner =>
      refine openProcFd_life h hh ?_ fdn flags
      cases pid with
      | none =>
        obtain rfl : cur = owner := Option.some.inj ho
        exact hh.used
      | some pid =>
        obtain ⟨-, hp⟩ := firstSlot_eq_some ho
        simp only [Bool.and_eq_true] at hp
        exact hp.1
  | tmpfile => exact openTmpfile_life h hh flags htidy.2 htidy.1
  | anon path =>
    rw [Sys.realSysOpen]
    split_ifs with hp
    · exact openSlot_life_exists h hh rfl (fun _ => hp) _ (htidy hp)
    · exact h
  | symlink => exact openSlot_life_exists h hh rfl (fun hno => absurd rfl hno) _ htidy
  | dir =>
    rw [Sys.realSysOpen]
    split_ifs with hrefused
    · exact h
    · exact openSlot_life_exists h hh rfl (fun hno => absurd rfl hno) _
        (htidy (by simpa using hrefused))
  | dev kind ref =>
    refine handOut_life h hh _ fun hobj => ?_
    cases kind <;> cases hobj
  | proc generated => exact openProc_life h hh flags (hshared generated rfl)
  | file => exact openSlot_life_exists h hh rfl (fun hno => absurd rfl hno) _ htidy
  | refused e => exact h

end

end Ridux
