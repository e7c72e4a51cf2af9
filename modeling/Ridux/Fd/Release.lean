import Ridux.Fd.Lifetime

/-!
# Closing descriptors and the end of objects

* `destroy_drop`, `tryFree_drop`: the last close of an object frees that object and nothing else;
* `Sys.keeps`, `Sys.QuietEnd`, `Sys.QuietClose`: when the objects that an operation closes last
  can go, because nothing else depends on them;
* `Life.close`: one close; `Life.closeWhere`: a loop of closes.
-/

namespace Ridux

open Lib Tasks Function Option

/-! ### One object goes -/

theorem StoreOk.of_alive {o o' : Objects} (h : StoreOk o) (hsub : ∀ y, o'.alive y → o.alive y)
    (hp : o'.pipe = o.pipe) (ho : o'.opened = o.opened) (ha : o'.anon = o.anon)
    (hm : o'.memfdSeq = o.memfdSeq) (hd : o'.deletedSeq = o.deletedSeq) : StoreOk o' where
  range := fun x hx => h.range x (hsub x hx)
  pipe := by
    rw [hp]
    exact h.pipe
  anon := by
    rw [ho, ha]
    exact h.anon
  memfdSeq := by
    rw [ha, hm]
    exact h.memfdSeq
  deletedSeq := by
    rw [ha, hd]
    exact h.deletedSeq

namespace Objects

variable {o : Objects} {i ref : ℕ} {x : Object}

theorem alive_setPool (p : Pool) (i : ℕ) (b : Bool) (x : Object) :
    (o.setPool p i b).alive x ↔
      (x = .pooled p i ∧ b = true) ∨ (x ≠ .pooled p i ∧ o.alive x) := by
  cases x with
  | pooled q j =>
    show update o.pool p (update (o.pool p) i b) q j = true ↔ _
    by_cases hq : q = p
    · subst hq
      rw [update_self]
      by_cases hj : j = i
      · subst hj
        rw [update_self]
        simp
      · rw [update_of_ne hj]
        simp [hj, alive]
    · rw [update_of_ne hq]
      simp [hq, alive]
  | _ => simp [alive, setPool]

theorem alive_setOpened (i : ℕ) (v : Option OpenPath) (x : Object) :
    (o.setOpened i v).alive x ↔
      (x = .file i ∧ v ≠ none) ∨ (x ≠ .file i ∧ o.alive x) := by
  cases x with
  | file j =>
    show update o.opened i v j ≠ none ↔ _
    by_cases hj : j = i
    · subst hj
      rw [update_self]
      simp
    · rw [update_of_ne hj]
      simp [hj, alive]
  | _ => simp [alive, setOpened]

theorem alive_setSock (i : ℕ) (t : Socket) (x : Object) :
    (o.setSock i t).alive x ↔
      (x = .socket i ∧ t.used = true) ∨ (x ≠ .socket i ∧ o.alive x) := by
  cases x with
  | socket j =>
    show (update o.sock i t j).used = true ↔ _
    by_cases hj : j = i
    · subst hj
      rw [update_self]
      simp
    · rw [update_of_ne hj]
      simp [hj, alive]
  | _ => simp [alive, setSock]

theorem waits_setSock_of_eq {t : Socket} (h : (if t.used then t.anc else []) = o.waits i) :
    (o.setSock i t).waits = o.waits := by
  funext j
  by_cases hj : j = i
  · subst hj
    rw [← h, waits]
    show (if (update o.sock j t j).used then (update o.sock j t j).anc else []) = _
    rw [update_self]
  · show (if (update o.sock i t j).used then (update o.sock i t j).anc else []) = _
    rw [update_of_ne hj]
    rfl

theorem detachPeer_same (i : ℕ) :
    Objects.Same o (o.detachPeer i) ∧ (o.detachPeer i).waits = o.waits ∧
      (o.detachPeer i).mapped = o.mapped := by
  rw [detachPeer]
  split
  · rename_i p _
    split_ifs
    · refine ⟨⟨rfl, fun j => ?_, rfl, rfl, rfl, rfl, rfl⟩, waits_setSock_of_eq rfl, rfl⟩
      show (update o.sock p _ j).used = _
      by_cases hj : j = p
      · rw [hj, update_self]
      · rw [update_of_ne hj]
    · exact ⟨.refl o, rfl, rfl⟩
  · exact ⟨.refl o, rfl, rfl⟩

/-- The object `x` is freed and everything else stays. -/
structure Drops (o : Objects) (x : Object) (o' : Objects) : Prop where
  alive : ∀ y, o'.alive y ↔ o.alive y ∧ y ≠ x
  store : StoreOk o'
  waits : o'.waits = o.waits
  mapped : o'.mapped = o.mapped
  opened : ∀ j, o'.opened j = o.opened j ∨ o'.opened j = none

theorem poolFree_drops (h : StoreOk o) {p : Pool} (ha : o.alive (.pooled p i)) :
    Drops o (.pooled p i) (o.poolFree p i) := by
  have hi : i < p.size := h.range _ ha
  have hal : ∀ y, (o.setPool p i false).alive y ↔ o.alive y ∧ y ≠ .pooled p i := by
    intro y
    rw [alive_setPool]
    simp [and_comm]
  rw [poolFree, if_pos hi]
  exact ⟨hal, h.of_alive (fun y hy => ((hal y).1 hy).1) rfl rfl rfl rfl rfl, rfl, rfl,
    fun _ => .inl rfl⟩

theorem sockClose_drops (h : StoreOk o) (ha : o.alive (.socket i)) (hring : o.waits i = []) :
    Drops o (.socket i) (o.sockClose i) := by
  have hi : i < sockMax := h.range _ ha
  have hu : (o.sock i).used = true := ha
  obtain ⟨hsame, hw, hm⟩ := detachPeer_same (o := o) i
  have hal : ∀ y, ((o.detachPeer i).setSock i .closed).alive y ↔ o.alive y ∧ y ≠ .socket i := by
    intro y
    rw [alive_setSock, hsame.alive]
    simp [Socket.closed, and_comm]
  rw [sockClose, if_pos ⟨hi, hu⟩]
  refine ⟨hal, h.of_alive (fun y hy => ((hal y).1 hy).1) hsame.pipe hsame.opened hsame.anon
    hsame.memfdSeq hsame.deletedSeq, ?_, hm, fun j => .inl (congrFun hsame.opened j)⟩
  rw [waits_setSock_of_eq, hw]
  rw [hw, hring]
  rfl

theorem setPipe_drops (h : StoreOk o) {p : Pipe} (hx : x = .pipeR i ∨ x = .pipeW i) (hi : i < pipeMax)
    (hok : p.used = true → PipeOk p)
    (hr : p.used = true ∧ 0 < p.readers ↔ o.alive (.pipeR i) ∧ Object.pipeR i ≠ x)
    (hw : p.used = true ∧ 0 < p.writers ↔ o.alive (.pipeW i) ∧ Object.pipeW i ≠ x) :
    Drops o x (o.setPipe i p) := by
  have hne : ∀ y, y ≠ .pipeR i → y ≠ .pipeW i → y ≠ x := by
    rintro y h1 h2 rfl
    rcases hx with hx | hx
    · exact h1 hx
    · exact h2 hx
  have hself : (o.setPipe i p).pipe i = p := update_self _ _ _
  have hother : ∀ j, j ≠ i → (o.setPipe i p).pipe j = o.pipe j :=
    fun j hj => update_of_ne hj _ _
  have hal : ∀ y, (o.setPipe i p).alive y ↔ o.alive y ∧ y ≠ x := by
    intro y
    cases y with
    | pipeR j =>
      by_cases hj : j = i
      · subst hj
        rw [← hr, alive, hself]
      · rw [alive, hother j hj]
        exact (and_iff_left (hne _ (by simpa using hj) (by simp))).symm
    | pipeW j =>
      by_cases hj : j = i
      · subst hj
        rw [← hw, alive, hself]
      · rw [alive, hother j hj]
        exact (and_iff_left (hne _ (by simp) (by simpa using hj))).symm
    | _ => exact (and_iff_left (hne _ (by simp) (by simp))).symm
  refine ⟨hal, ⟨fun y hy => h.range y ((hal y).1 hy).1, fun j hu => ?_, h.anon, h.memfdSeq,
    h.deletedSeq⟩, rfl, rfl, fun _ => .inl rfl⟩
  by_cases hj : j = i
  · subst hj
    rw [hself] at hu ⊢
    exact hok hu
  · rw [hother j hj] at hu ⊢
    exact h.pipe j hu

theorem pipeCloseRead_drops (h : StoreOk o) (ha : o.alive (.pipeR i)) :
    Drops o (.pipeR i) (o.pipeCloseRead i) := by
  have hi : i < pipeMax := h.range _ ha
  obtain ⟨⟨hr0, hr1⟩, ⟨hw0, hw1⟩, -⟩ := h.pipe i ha.1
  have hread : (o.pipe i).readers = 1 := by
    have := ha.2
    omega
  rw [pipeCloseRead, if_pos ⟨hi, ha.1⟩]
  have hused := ha.1
  by_cases hw : 0 < (o.pipe i).writers
  · have hs : pipeSettle { o.pipe i with readers := (o.pipe i).readers - 1 } =
        { o.pipe i with readers := (o.pipe i).readers - 1 } := if_neg fun hno => by
      have : (o.pipe i).writers ≤ 0 := hno.2
      omega
    rw [hs]
    refine setPipe_drops h (.inl rfl) hi (fun _ => ⟨?_, ⟨hw0, hw1⟩, .inr hw⟩) ?_ ?_
    · show 0 ≤ (o.pipe i).readers - 1 ∧ (o.pipe i).readers - 1 ≤ 1
      omega
    · simp [hread]
    · simp [alive]
  · have hs : pipeSettle { o.pipe i with readers := (o.pipe i).readers - 1 } =
        { o.pipe i with readers := (o.pipe i).readers - 1, used := false } := if_pos ⟨by
      show (o.pipe i).readers - 1 ≤ 0
      omega, by
      show (o.pipe i).writers ≤ 0
      omega⟩
    rw [hs]
    refine setPipe_drops h (.inl rfl) hi (fun hno => by cases hno) ?_ ?_
    · simp
    · simp [alive, hw]

theorem pipeCloseWrite_drops (h : StoreOk o) (ha : o.alive (.pipeW i)) :
    Drops o (.pipeW i) (o.pipeCloseWrite i) := by
  have hi : i < pipeMax := h.range _ ha
  obtain ⟨⟨hr0, hr1⟩, ⟨hw0, hw1⟩, -⟩ := h.pipe i ha.1
  have hwrite : (o.pipe i).writers = 1 := by
    have := ha.2
    omega
  rw [pipeCloseWrite, if_pos ⟨hi, ha.1⟩]
  have hused := ha.1
  by_cases hr : 0 < (o.pipe i).readers
  · have hs : pipeSettle { o.pipe i with writers := (o.pipe i).writers - 1 } =
        { o.pipe i with writers := (o.pipe i).writers - 1 } := if_neg fun hno => by
      have : (o.pipe i).readers ≤ 0 := hno.1
      omega
    rw [hs]
    refine setPipe_drops h (.inr rfl) hi (fun _ => ⟨⟨hr0, hr1⟩, ?_, .inl hr⟩) ?_ ?_
    · show 0 ≤ (o.pipe i).writers - 1 ∧ (o.pipe i).writers - 1 ≤ 1
      omega
    · simp [alive]
    · simp [hwrite]
  · have hs : pipeSettle { o.pipe i with writers := (o.pipe i).writers - 1 } =
        { o.pipe i with writers := (o.pipe i).writers - 1, used := false } := if_pos ⟨by
      show (o.pipe i).readers ≤ 0
      omega, by
      show (o.pipe i).writers - 1 ≤ 0
      omega⟩
    rw [hs]
    refine setPipe_drops h (.inr rfl) hi (fun hno => by cases hno) ?_ ?_
    · simp [alive, hr]
    · simp

theorem destroy_drops (h : StoreOk o) {kind : FdKind} (hx : kind.object ref = some x)
    (hnf : kind.isFile = false) (ha : o.alive x) (hring : kind = .socket → o.waits ref = []) :
    Drops o x (o.destroy kind ref) := by
  cases kind <;> cases hx
  case vfsfile => cases hnf
  case dir => cases hnf
  case symlink => cases hnf
  case socket => exact sockClose_drops h ha (hring rfl)
  case pipeR => exact pipeCloseRead_drops h ha
  case pipeW => exact pipeCloseWrite_drops h ha
  all_goals exact poolFree_drops h ha

theorem destroy_of_not_object {kind : FdKind} (h : kind.object ref = none ∨ kind.isFile = true) :
    o.destroy kind ref = o := by
  cases kind <;> first | rfl | (rcases h with h | h <;> cases h)

end Objects

/-! ### When objects can go -/

namespace Sys

variable (s : Sys) (table : ℕ → ℕ) (cur : ℕ) (F : ℕ → Prop)

/-- Does an entry refer to the object, other than the entries `F` of the table of `cur`? -/
def keeps (kind : FdKind) (ref : ℕ) : Prop :=
  ∃ i fd, (s.tasks.task i).used = true ∧ fd < taskFdMax ∧
    s.tasks.holds kind ref i fd = true ∧ ¬(table i = table cur ∧ F fd)

/-- The slot stays open when the entries `F` are closed. -/
def slotStays (j : ℕ) : Prop :=
  ∃ kind : FdKind, kind.isFile = true ∧ (s.keeps table cur F kind j ∨ s.queued kind j)

/-- The file of an open slot can go with the slot: a memfd is open in another slot, which stays;
a hidden file is neither mapped nor open in another slot. -/
def QuietFile (ref : ℕ) : Prop :=
  match s.objs.opened ref with
  | some (.memfd n) =>
    ∃ j, j ≠ ref ∧ s.objs.opened j = some (.memfd n) ∧ s.slotStays table cur F j
  | some (.deleted n) =>
    s.objs.mapped n = false ∧ ∀ j, s.objs.opened j = some (.deleted n) → j = ref
  | _ => True

/-- The object can go with its last entry: no right for it is queued (a queued right keeps the
slot of a file or of a directory), no right waits in the socket. -/
structure QuietEnd (kind : FdKind) (ref : ℕ) : Prop where
  queued : kind ≠ .vfsfile → kind ≠ .dir → ¬ s.queued kind ref
  ring : kind = .socket → s.objs.waits ref = []
  file : kind.isFile = true → ¬ s.queued kind ref → s.QuietFile table cur F ref

/-- The objects that go when the entries `F` are closed can go. -/
def QuietClose : Prop :=
  ∀ fd < taskFdMax, F fd → ((s.entry cur fd).kind.object (s.entry cur fd).ref).isSome = true →
    ¬ s.keeps table cur F (s.entry cur fd).kind (s.entry cur fd).ref →
    s.QuietEnd table cur F (s.entry cur fd).kind (s.entry cur fd).ref

end Sys

/-! ### One close -/

section

variable {s s' t : Sys} {table : ℕ → ℕ} {cur fd : ℕ} {F : ℕ → Prop} {k : FdKind} {r ref : ℕ}

theorem Held.keeps_iff (h : Held s.tasks table cur) (hk : k ≠ .none) :
    s.keeps table cur F k r ↔
      (∃ i < taskFdMax, ¬ F i ∧ (s.entry cur i).kind = k ∧ (s.entry cur i).ref = r) ∨
        s.tasks.heldOutside table cur k r := by
  constructor
  · rintro ⟨i, j, hu, hj, hh, hno⟩
    have hkr := holds_iff.1 hh
    have hm := h.mem hu hj (by rw [hkr.1]; exact hk)
    by_cases ht : table i = table cur
    · have hfds : (s.tasks.task i).fds = (s.tasks.task cur).fds := by
        rcases hm with hl | rfl
        · exact h.agree i hl ht
        · rfl
      rw [hfds] at hkr
      exact .inl ⟨j, hj, fun hF => hno ⟨ht, hF⟩, hkr⟩
    · refine .inr ⟨i, j, ?_, ht, hj, hh⟩
      rcases hm with hl | rfl
      · exact hl
      · exact absurd rfl ht
  · rintro (⟨j, hj, hF, hkr⟩ | ⟨i, j, hl, ht, hj, hh⟩)
    · exact ⟨cur, j, h.used, hj, holds_iff.2 hkr, fun hno => hF hno.2⟩
    · exact ⟨i, j, used_of_live hl, hj, hh, fun hno => ht hno.1⟩

theorem Held.keeps_clear (h : Held s.tasks table cur) (hF : F fd) (htasks : s'.tasks =
      s.tasks.setTable cur (update (s.tasks.task cur).fds fd .empty)) (hk : k ≠ .none) :
    s'.keeps table cur (fun i => F i ∧ i ≠ fd) k r ↔ s.keeps table cur F k r := by
  have h' : Held s'.tasks table cur := htasks ▸ h.setTable _
  have hentry : ∀ i, s'.entry cur i = update (s.tasks.task cur).fds fd .empty i := by
    intro i
    rw [Sys.entry, htasks, Tasks.setTable, put_self, fds_withFds]
  have hempty : ∀ i, i = fd → (s'.entry cur i).kind ≠ k := by
    rintro i rfl heq
    rw [hentry, update_self] at heq
    exact hk heq.symm
  have hother : ∀ i, i ≠ fd → s'.entry cur i = s.entry cur i := by
    intro i hi
    rw [hentry, update_of_ne hi, Sys.entry]
  have hout : s'.tasks.heldOutside table cur k r ↔ s.tasks.heldOutside table cur k r := by
    rw [htasks]
    exact h.heldOutside_setTable _
  rw [h'.keeps_iff hk, h.keeps_iff hk, hout]
  constructor
  · rintro (⟨i, hi, hno, hik, hir⟩ | hout)
    · have hif : i ≠ fd := fun hif => hempty i hif hik
      rw [hother i hif] at hik hir
      exact .inl ⟨i, hi, fun hFi => hno ⟨hFi, hif⟩, hik, hir⟩
    · exact .inr hout
  · rintro (⟨i, hi, hno, hik, hir⟩ | hout)
    · have hif : i ≠ fd := by
        rintro rfl
        exact hno hF
      rw [← hother i hif] at hik hir
      exact .inl ⟨i, hi, fun hFi => hno hFi.1, hik, hir⟩
    · exact .inr hout

/-- What closes leave alone. -/
structure CloseFrame (s s' : Sys) : Prop where
  waits : s'.objs.waits = s.objs.waits
  rights : s'.rights = s.rights
  mapped : s'.objs.mapped = s.objs.mapped
  opened : ∀ j, s'.objs.opened j = s.objs.opened j ∨ s'.objs.opened j = none

theorem slotStays_clear (h : Held s.tasks table cur) (hF : F fd) (htasks : s'.tasks =
      s.tasks.setTable cur (update (s.tasks.task cur).fds fd .empty)) (hf : CloseFrame s s') (j : ℕ) :
    s'.slotStays table cur (fun i => F i ∧ i ≠ fd) j ↔ s.slotStays table cur F j := by
  have hiff : ∀ kind : FdKind, kind.isFile = true →
      (s'.keeps table cur (fun i => F i ∧ i ≠ fd) kind j ∨ s'.queued kind j ↔
        s.keeps table cur F kind j ∨ s.queued kind j) := by
    intro kind hkind
    have hne := kind_ne_none_of_object (isFile_iff (r := j).1 hkind)
    rw [h.keeps_clear hF htasks hne, queued_congr hf.waits hf.rights]
  constructor
  · rintro ⟨kind, hkind, hst⟩
    exact ⟨kind, hkind, (hiff kind hkind).1 hst⟩
  · rintro ⟨kind, hkind, hst⟩
    exact ⟨kind, hkind, (hiff kind hkind).2 hst⟩

theorem refs_of_slotStays {j : ℕ} (h : s.slotStays table cur F j) :
    ∃ kind : FdKind, kind.isFile = true ∧ s.refs kind j := by
  obtain ⟨kind, hkind, ⟨i, fd, hu, hfd, hh, -⟩ | hq⟩ := h
  · exact ⟨kind, hkind, .inl ⟨i, fd, hu, hfd, hh⟩⟩
  · exact ⟨kind, hkind, .inr hq⟩

theorem Sys.QuietClose.next (hq : s.QuietClose table cur F) (h : Held s.tasks table cur) (hF : F fd)
    (htasks : s'.tasks =
      s.tasks.setTable cur (update (s.tasks.task cur).fds fd .empty)) (hf : CloseFrame s s')
    (hlife : Life s') : s'.QuietClose table cur (fun i => F i ∧ i ≠ fd) := by
  rintro i hi ⟨hFi, hif⟩ hobj hkeep
  have hentry : s'.entry cur i = s.entry cur i := by
    rw [Sys.entry, htasks, Tasks.setTable, put_self, fds_withFds, update_of_ne hif,
      Sys.entry]
  rw [hentry] at hobj hkeep ⊢
  obtain ⟨x, hx⟩ := isSome_iff_exists.1 hobj
  have hne := kind_ne_none_of_object hx
  rw [h.keeps_clear hF htasks hne] at hkeep
  have hend := hq i hi hFi hobj hkeep
  -- a slot that is referenced is still open
  have hopen : ∀ (kind : FdKind) j, kind.isFile = true → s'.refs kind j →
      s'.objs.opened j = s.objs.opened j := by
    intro kind j hkind hr
    have hal : s'.objs.opened j ≠ none := hlife.alive_of_refs (isFile_iff.1 hkind) hr
    rcases hf.opened j with heq | hnone
    · exact heq
    · exact absurd hnone hal
  refine ⟨fun h1 h2 => ?_, fun hsock => ?_, fun hfile hnq => ?_⟩
  · rw [queued_congr hf.waits hf.rights]
    exact hend.queued h1 h2
  · rw [hf.waits]
    exact hend.ring hsock
  · rw [queued_congr hf.waits hf.rights] at hnq
    have hquiet := hend.file hfile hnq
    have hu' : (s'.tasks.task cur).used = true := by
      rw [htasks, Tasks.setTable, used_put]
      exact h.used
    have hown : s'.refs (s.entry cur i).kind (s.entry cur i).ref := by
      refine .inl ⟨cur, i, hu', hi, holds_iff.2 ?_⟩
      rw [← hentry]
      exact ⟨rfl, rfl⟩
    rw [Sys.QuietFile] at hquiet ⊢
    rw [hopen _ _ hfile hown]
    split
    · rename_i n hn
      rw [hn] at hquiet
      obtain ⟨j, hj, hopened, hstays⟩ := hquiet
      rw [← slotStays_clear h hF htasks hf] at hstays
      obtain ⟨kind, hkind, hr⟩ := refs_of_slotStays hstays
      exact ⟨j, hj, (hopen kind j hkind hr).trans hopened, hstays⟩
    · rename_i n hn
      rw [hn] at hquiet
      refine ⟨by rw [hf.mapped]; exact hquiet.1, fun j hj => hquiet.2 j ?_⟩
      rcases hf.opened j with heq | hnone
      · rw [← heq]
        exact hj
      · rw [hnone] at hj
        cases hj
    · trivial

theorem setOpened_drops {o : Objects} (h : StoreOk o) (ha : o.alive (.file ref)) {a : OpenPath → Bool}
    (hsub : ∀ p, a p = true → o.anon p = true)
    (hanon : ∀ p, p ≠ .named → (a p = true ↔ ∃ j, j ≠ ref ∧ o.opened j = some p)) :
    Objects.Drops o (.file ref) { o.setOpened ref none with anon := a } := by
  have hal : ∀ y, (o.setOpened ref none).alive y ↔ o.alive y ∧ y ≠ .file ref := by
    intro y
    rw [Objects.alive_setOpened]
    simp [and_comm]
  have hself : (o.setOpened ref none).opened ref = none := update_self _ _ _
  have hother : ∀ j, j ≠ ref → (o.setOpened ref none).opened j = o.opened j :=
    fun j hj => update_of_ne hj _ _
  refine ⟨hal, ⟨fun y hy => h.range y ((hal y).1 hy).1, h.pipe, fun p hp => ?_,
    fun n hn => h.memfdSeq n (hsub _ hn), fun n hn => h.deletedSeq n (hsub _ hn)⟩, rfl, rfl,
    fun j => ?_⟩
  · show a p = true ↔ ∃ j, (o.setOpened ref none).opened j = some p
    rw [hanon p hp]
    constructor
    · rintro ⟨j, hj, hop⟩
      exact ⟨j, by rw [hother j hj]; exact hop⟩
    · rintro ⟨j, hop⟩
      have hj : j ≠ ref := by
        rintro rfl
        rw [hself] at hop
        cases hop
      exact ⟨j, hj, by rw [← hother j hj]; exact hop⟩
  · by_cases hj : j = ref
    · exact .inr (hj ▸ hself)
    · exact .inl (hother j hj)

theorem Sys.QuietFile.objs (hq : s.QuietFile table cur F ref) :
    (∀ n, s.objs.opened ref = some (.memfd n) →
      ∃ j, j ≠ ref ∧ s.objs.opened j = some (.memfd n)) ∧
    ∀ n, s.objs.opened ref = some (.deleted n) →
      s.objs.mapped n = false ∧ ∀ j, s.objs.opened j = some (.deleted n) → j = ref := by
  rw [Sys.QuietFile] at hq
  constructor
  · intro n hn
    rw [hn] at hq
    obtain ⟨j, hj, hopen, -⟩ := hq
    exact ⟨j, hj, hopen⟩
  · intro n hn
    rw [hn] at hq
    exact hq

/-- A slot that nothing else needs is freed, and its hidden file with it. -/
theorem tryFree_drops (h : StoreOk s.objs) (ha : s.objs.alive (.file ref))
    (hno : s.c3VfsOpenSlotRefUsedAnywhere ref = false)
    (hmem : ∀ n, s.objs.opened ref = some (.memfd n) →
      ∃ j, j ≠ ref ∧ s.objs.opened j = some (.memfd n))
    (hdel : ∀ n, s.objs.opened ref = some (.deleted n) →
      s.objs.mapped n = false ∧ ∀ j, s.objs.opened j = some (.deleted n) → j = ref) :
    Objects.Drops s.objs (.file ref) (s.c3VfsOpenSlotTryFree ref).objs ∧
      (s.c3VfsOpenSlotTryFree ref).rights = s.rights := by
  have hr : ref < openMaxFiles := h.range _ ha
  -- a path that is open elsewhere keeps its file
  have hplain : (∀ p, p ≠ .named → s.objs.opened ref = some p →
      ∃ j, j ≠ ref ∧ s.objs.opened j = some p) →
      Objects.Drops s.objs (.file ref) (s.objs.setOpened ref none) := by
    intro helse
    refine setOpened_drops h ha (fun _ hp => hp) fun p hp => ?_
    rw [h.anon p hp]
    constructor
    · rintro ⟨j, hj⟩
      by_cases hjr : j = ref
      · exact helse p hp (hjr ▸ hj)
      · exact ⟨j, hjr, hj⟩
    · rintro ⟨j, -, hj⟩
      exact ⟨j, hj⟩
  rw [Sys.c3VfsOpenSlotTryFree, if_neg (by omega), if_neg (by simp [hno])]
  cases hpath : s.objs.opened ref with
  | none => exact absurd hpath ha
  | some path =>
    rw [hpath] at hplain
    cases path with
    | named =>
      refine ⟨hplain fun p hp hnamed => ?_, rfl⟩
      exact absurd (some.inj hnamed).symm hp
    | memfd n =>
      obtain ⟨j, hj, hopen⟩ := hmem n hpath
      refine ⟨hplain fun p _ hp => ⟨j, hj, ?_⟩, rfl⟩
      rw [hopen, hp]
    | deleted n =>
      obtain ⟨hmap, honly⟩ := hdel n hpath
      dsimp only
      rw [if_neg (by simp [hmap])]
      refine ⟨setOpened_drops h ha (fun p hp => ?_) (fun p hp => ?_), rfl⟩
      · show s.objs.anon p = true
        have hp' : update s.objs.anon (.deleted n) false p = true := hp
        by_cases hpd : p = .deleted n
        · rw [hpd, update_self] at hp'
          cases hp'
        · rwa [update_of_ne hpd] at hp'
      · show update s.objs.anon (.deleted n) false p = true ↔ _
        by_cases hpd : p = .deleted n
        · rw [hpd, update_self]
          constructor
          · intro hf
            cases hf
          · rintro ⟨j, hj, hopen⟩
            exact absurd (honly j hopen) hj
        · rw [update_of_ne hpd, h.anon p hp]
          constructor
          · rintro ⟨j, hopen⟩
            refine ⟨j, ?_, hopen⟩
            rintro rfl
            exact hpd (some.inj (hopen.symm.trans hpath))
          · rintro ⟨j, -, hopen⟩
            exact ⟨j, hopen⟩

theorem usedAnywhere_iff (hr : RingsOk s) (h1 : ¬ s.tasks.held .vfsfile ref)
    (h2 : ¬ s.tasks.held .dir ref) :
    s.c3VfsOpenSlotRefUsedAnywhere ref = true ↔ s.queued .vfsfile ref ∨ s.queued .dir ref := by
  rw [Sys.c3VfsOpenSlotRefUsedAnywhere, Bool.or_eq_true, decide_eq_true_eq, decide_eq_true_eq]
  constructor
  · rintro (⟨t, -, e, he, hk, hre⟩ | ⟨i, -, hl, fd, hfd, hh | hh⟩)
    · have he' : s.rights t = some e := he
      obtain ⟨-, j, pos, hm⟩ := hr.queued t e he'
      rcases hk with hk | hk
      · exact .inl ⟨j, t, pos, e, hm, he', hk, hre⟩
      · exact .inr ⟨j, t, pos, e, hm, he', hk, hre⟩
    · exact absurd ⟨i, fd, used_of_live hl, hfd, hh⟩ h1
    · exact absurd ⟨i, fd, used_of_live hl, hfd, hh⟩ h2
  · rintro (⟨j, t, pos, e, hm, he, hk, hre⟩ | ⟨j, t, pos, e, hm, he, hk, hre⟩)
    · exact .inl ⟨t, (hr.queued t e he).1, e, he, .inl hk, hre⟩
    · exact .inl ⟨t, (hr.queued t e he).1, e, he, .inr hk, hre⟩

theorem Held.not_keeps (h : Held s.tasks table cur) (hF : F fd) (hfd : fd < taskFdMax)
    (hv : (s.entry cur fd).kind ≠ .none)
    (hlast : s.tasks.c3FdRefCount (s.entry cur fd).kind (s.entry cur fd).ref ≤ 1) :
    ¬ s.keeps table cur F (s.entry cur fd).kind (s.entry cur fd).ref := by
  rintro ⟨i, j, hu, hj, hh, hno⟩
  obtain ⟨ht, rfl⟩ := (h.refCount_le_one_iff hv hfd (holds_iff.2 ⟨rfl, rfl⟩)).1 hlast i j hu hj hh
  exact hno ⟨ht, hF⟩

theorem Held.refs_clear (h : Held s.tasks table cur) (hfd : fd < taskFdMax)
    (hv : (s.entry cur fd).kind ≠ .none)
    (htasks : t.tasks = s.tasks.setTable cur (update (s.tasks.task cur).fds fd .empty))
    (hw : t.objs.waits = s.objs.waits) (hr : t.rights = s.rights) (hk : k ≠ .none) :
    t.refs k r ↔ (s.tasks.held k r ∧ ¬(k = (s.entry cur fd).kind ∧ r = (s.entry cur fd).ref ∧
      s.tasks.c3FdRefCount (s.entry cur fd).kind (s.entry cur fd).ref ≤ 1)) ∨ s.queued k r := by
  rw [Sys.refs, queued_congr hw hr, htasks, h.held_clear hfd hv hk]
  rfl

theorem Life.keep (h : Life s) (hobjs : t.objs = s.objs) (hr : t.rights = s.rights)
    (hrefs : ∀ k r o, k.object r = some o → (t.refs k r ↔ s.refs k r)) :
    Life t ∧ CloseFrame s t := by
  have hw : t.objs.waits = s.objs.waits := by rw [hobjs]
  refine ⟨h.congr (fun o => by rw [hobjs]) hrefs (hobjs ▸ h.store) (h.rings.congr hw hr),
    ⟨hw, hr, by rw [hobjs], fun j => .inl (by rw [hobjs])⟩⟩

theorem Life.free (h : Life s) (hh : Held s.tasks table cur) (hfd : fd < taskFdMax)
    (hlast : s.tasks.c3FdRefCount (s.entry cur fd).kind (s.entry cur fd).ref ≤ 1) {x : Object}
    (hx : (s.entry cur fd).kind.object (s.entry cur fd).ref = some x)
    (hnq : ¬ s.queued (s.entry cur fd).kind (s.entry cur fd).ref)
    (htasks : t.tasks = s.tasks.setTable cur (update (s.tasks.task cur).fds fd .empty))
    (hr : t.rights = s.rights) (hd : Objects.Drops s.objs x t.objs) : Life t ∧ CloseFrame s t := by
  have hv := kind_ne_none_of_object hx
  have hown : s.refs (s.entry cur fd).kind (s.entry cur fd).ref :=
    .inl ⟨cur, fd, hh.used, hfd, holds_iff.2 ⟨rfl, rfl⟩⟩
  refine ⟨h.drop x hd.alive ?_ hd.store (h.rings.congr hd.waits hr),
    ⟨hd.waits, hr, hd.mapped, hd.opened⟩⟩
  intro k r o hk
  rw [hh.refs_clear hfd hv htasks hd.waits hr (kind_ne_none_of_object hk)]
  constructor
  · intro hrefs
    have hold : s.refs k r := hrefs.imp And.left id
    refine ⟨hold, ?_⟩
    rintro rfl
    obtain ⟨rfl, rfl⟩ := h.refs_unique hx hk hown hold
    rcases hrefs with ⟨-, hno⟩ | hqd
    · exact hno ⟨rfl, rfl, hlast⟩
    · exact hnq hqd
  · rintro ⟨hrefs, hne⟩
    refine hrefs.imp (fun hheld => ⟨hheld, ?_⟩) id
    rintro ⟨rfl, rfl, -⟩
    rw [hx] at hk
    exact hne (some.inj hk).symm

theorem Life.closeFile (h : Life s) (hh : Held s.tasks table cur) (hfd : fd < taskFdMax)
    (hlast : s.tasks.c3FdRefCount (s.entry cur fd).kind (s.entry cur fd).ref ≤ 1)
    (hf : (s.entry cur fd).kind.isFile = true)
    (hend : s.QuietEnd table cur F (s.entry cur fd).kind (s.entry cur fd).ref)
    (htasks : t.tasks = s.tasks.setTable cur (update (s.tasks.task cur).fds fd .empty))
    (hobjs : t.objs = s.objs) (hr : t.rights = s.rights) :
    Life (t.c3VfsOpenSlotTryFree (s.entry cur fd).ref) ∧
      CloseFrame s (t.c3VfsOpenSlotTryFree (s.entry cur fd).ref) := by
  have hx := (isFile_iff (r := (s.entry cur fd).ref)).1 hf
  have hv := kind_ne_none_of_object hx
  have hown : s.refs (s.entry cur fd).kind (s.entry cur fd).ref :=
    .inl ⟨cur, fd, hh.used, hfd, holds_iff.2 ⟨rfl, rfl⟩⟩
  have hw : t.objs.waits = s.objs.waits := by rw [hobjs]
  have hunique : ∀ k : FdKind, k.isFile = true → s.refs k (s.entry cur fd).ref →
      k = (s.entry cur fd).kind := fun k hk hrefs => h.kinds k _ _ hk hf hrefs hown
  -- no entry holds the file any more
  have hnone : ∀ k : FdKind, k.isFile = true → ¬ t.tasks.held k (s.entry cur fd).ref := by
    intro k hk hheld
    rw [htasks, hh.held_clear hfd hv
      (kind_ne_none_of_object (isFile_iff (r := (s.entry cur fd).ref).1 hk))] at hheld
    exact hheld.2 ⟨hunique k hk (.inl hheld.1), rfl, hlast⟩
  have hany := usedAnywhere_iff (h.rings.congr hw hr) (hnone _ rfl) (hnone _ rfl)
  rw [queued_congr hw hr, queued_congr hw hr] at hany
  by_cases hqd : s.queued (s.entry cur fd).kind (s.entry cur fd).ref
  · have hused : t.c3VfsOpenSlotRefUsedAnywhere (s.entry cur fd).ref = true := by
      rw [hany]
      by_cases hk : (s.entry cur fd).kind = .vfsfile
      · exact .inl (hk ▸ hqd)
      · by_cases hk' : (s.entry cur fd).kind = .dir
        · exact .inr (hk' ▸ hqd)
        · exact absurd hqd (hend.queued hk hk')
    have hstay : t.c3VfsOpenSlotTryFree (s.entry cur fd).ref = t := by
      rw [Sys.c3VfsOpenSlotTryFree, hused]
      simp
    rw [hstay]
    refine h.keep hobjs hr fun k r o hk => ?_
    rw [hh.refs_clear hfd hv htasks hw hr (kind_ne_none_of_object hk), Sys.refs]
    constructor
    · exact fun hrefs => hrefs.imp And.left id
    · rintro (hheld | hqk)
      · by_cases hke : k = (s.entry cur fd).kind ∧ r = (s.entry cur fd).ref
        · rw [hke.1, hke.2]
          exact .inr hqd
        · exact .inl ⟨hheld, fun hno => hke ⟨hno.1, hno.2.1⟩⟩
      · exact .inr hqk
  · have hunused : t.c3VfsOpenSlotRefUsedAnywhere (s.entry cur fd).ref = false := by
      by_contra hno
      rcases hany.1 (by simpa using hno) with hqk | hqk
      · exact hqd (hunique .vfsfile rfl (.inr hqk) ▸ hqk)
      · exact hqd (hunique .dir rfl (.inr hqk) ▸ hqk)
    obtain ⟨hmem, hdel⟩ := (hend.file hf hqd).objs
    rw [← hobjs] at hmem hdel
    obtain ⟨hd, hrights⟩ := tryFree_drops (hobjs ▸ h.store)
      (hobjs ▸ h.alive_of_refs hx hown) hunused hmem hdel
    have htasks' : (t.c3VfsOpenSlotTryFree (s.entry cur fd).ref).tasks = t.tasks := by
      rw [Sys.c3VfsOpenSlotTryFree]
      repeat' split
      all_goals rfl
    rw [hobjs] at hd
    exact h.free hh hfd hlast hx hqd (htasks'.trans htasks) (hrights.trans hr) hd

/-- **One close** keeps the invariant when the object of a last entry can go. -/
theorem Life.closeEntry (h : Life s) (hh : Held s.tasks table cur) (hfd : fd < taskFdMax)
    (hv : (s.entry cur fd).kind ≠ .none) {last : Bool}
    (hlast : last = true ↔
      s.tasks.c3FdRefCount (s.entry cur fd).kind (s.entry cur fd).ref ≤ 1)
    (hq : last = true → ((s.entry cur fd).kind.object (s.entry cur fd).ref).isSome = true →
      s.QuietEnd table cur F (s.entry cur fd).kind (s.entry cur fd).ref) :
    Life (s.closeEntry cur fd (s.entry cur fd) last) ∧
      CloseFrame s (s.closeEntry cur fd (s.entry cur fd) last) := by
  have hclear := hh.grouped.clear hfd hv
  have hown : s.refs (s.entry cur fd).kind (s.entry cur fd).ref :=
    .inl ⟨cur, fd, hh.used, hfd, holds_iff.2 ⟨rfl, rfl⟩⟩
  -- nothing is freed when the references of objects stay
  have hkeep : ¬(last = true ∧ ((s.entry cur fd).kind.object (s.entry cur fd).ref).isSome) →
      Life { s with tasks := s.tasks.c3FdGroupClearFd cur fd } ∧
        CloseFrame s { s with tasks := s.tasks.c3FdGroupClearFd cur fd } := by
    intro hno
    refine h.keep rfl rfl fun k r o hk => ?_
    rw [hh.refs_clear (t := { s with tasks := s.tasks.c3FdGroupClearFd cur fd }) hfd hv hclear rfl
      rfl (kind_ne_none_of_object hk), Sys.refs, and_iff_left]
    rintro ⟨rfl, rfl, hle⟩
    exact hno ⟨hlast.2 hle, by rw [hk]; rfl⟩
  rw [Sys.closeEntry]
  cases last with
  | false =>
    rw [if_neg (by simp)]
    exact hkeep (by simp)
  | true =>
    have hle := hlast.1 rfl
    cases hx : (s.entry cur fd).kind.object (s.entry cur fd).ref with
    | none =>
      have hnf : (s.entry cur fd).kind.isFile = false := by
        by_contra hf
        rw [isFile_iff.1 (by simpa using hf)] at hx
        cases hx
      rw [if_neg (by simp [hnf]), Objects.destroy_of_not_object (.inl hx)]
      exact hkeep (by simp [hx])
    | some x =>
      have hend := hq rfl (by rw [hx]; rfl)
      cases hf : (s.entry cur fd).kind.isFile with
      | true =>
        rw [if_pos (by simp), Objects.destroy_of_not_object (.inr hf)]
        exact h.closeFile hh hfd hle hf hend hclear rfl rfl
      | false =>
        have hnq : ¬ s.queued (s.entry cur fd).kind (s.entry cur fd).ref := by
          refine hend.queued ?_ ?_
          · intro hno
            rw [hno] at hf
            cases hf
          · intro hno
            rw [hno] at hf
            cases hf
        rw [if_neg (by simp)]
        exact h.free hh hfd hle hx hnq hclear rfl
          (Objects.destroy_drops h.store hx hf (h.alive_of_refs hx hown) hend.ring)

theorem Life.close (h : Life s) (hh : Held s.tasks table cur) (hq : s.QuietClose table cur F)
    (hF : F fd) (hfd : fd < taskFdMax) (hv : (s.entry cur fd).kind ≠ .none) :
    Life (s.c3CloseFdForTask cur fd).2 ∧ Held (s.c3CloseFdForTask cur fd).2.tasks table cur ∧
      (s.c3CloseFdForTask cur fd).2.QuietClose table cur (fun i => F i ∧ i ≠ fd) ∧
      (s.c3CloseFdForTask cur fd).2.tasks =
        s.tasks.setTable cur (update (s.tasks.task cur).fds fd .empty) := by
  have htasks := hh.grouped.closeEntry_tasks hfd hv (s.entry cur fd)
    (decide (s.tasks.c3FdRefCount (s.entry cur fd).kind (s.entry cur fd).ref ≤ 1))
  have hcall : (s.c3CloseFdForTask cur fd).2 = s.closeEntry cur fd (s.entry cur fd)
      (decide (s.tasks.c3FdRefCount (s.entry cur fd).kind (s.entry cur fd).ref ≤ 1)) := by
    rw [Sys.c3CloseFdForTask, hh.grouped.syncFd, Sys.closeSynced,
      if_pos (hh.grouped.valid.2 ⟨hfd, hv⟩)]
  rw [hcall]
  obtain ⟨hlife, hframe⟩ := h.closeEntry (F := F) hh hfd hv (decide_eq_true_iff) (by
    intro hle hobj
    exact hq fd hfd hF hobj (hh.not_keeps hF hfd hv (by simpa using hle)))
  refine ⟨hlife, ?_, hq.next hh hF htasks hframe hlife, htasks⟩
  rw [htasks]
  exact hh.setTable _

/-! ### A loop of closes -/

theorem Life.closeWhere {p : Fd → Bool} (hp : ∀ e, p e = true → e.kind ≠ .none) (l : List ℕ)
    (hl : ∀ i ∈ l, i < taskFdMax) (h : Life s) (hh : Held s.tasks table cur)
    (hq : s.QuietClose table cur fun i => p (s.entry cur i) = true) :
    Life (Sys.closeWhere p cur l s) := by
  induction l generalizing s with
  | nil => exact h
  | cons fd l ih =>
    have hrest : ∀ i ∈ l, i < taskFdMax := fun i hi => hl i (List.mem_cons_of_mem fd hi)
    rw [Sys.closeWhere]
    by_cases hpe : p (s.entry cur fd) = true
    · rw [if_pos hpe]
      obtain ⟨hlife, hheld, hnext, htasks⟩ := h.close hh hq hpe (hl fd List.mem_cons_self) (hp _ hpe)
      refine ih hrest hlife hheld ?_
      -- the entries left to close are those of before without this one
      have hset : (fun i => p ((s.c3CloseFdForTask cur fd).2.entry cur i) = true) =
          fun i => p (s.entry cur i) = true ∧ i ≠ fd := by
        funext i
        rw [eq_iff_iff, Sys.entry, htasks, Tasks.setTable, put_self, fds_withFds]
        by_cases hi : i = fd
        · subst hi
          rw [update_self]
          constructor
          · intro hempty
            exact absurd rfl (hp _ hempty)
          · rintro ⟨-, hno⟩
            exact absurd rfl hno
        · rw [update_of_ne hi]
          exact (and_iff_left hi).symm
      rw [hset]
      exact hnext
    · rw [if_neg hpe]
      exact ih hrest h hh hq

end

end Ridux
