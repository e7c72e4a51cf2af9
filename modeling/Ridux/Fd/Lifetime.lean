import Ridux.Fd.Refs
import Ridux.Fd.Sharing

/-!
# Lifetime of the objects behind descriptors

* `Object`, `Objects.alive`: what a descriptor can refer to, and whether it is allocated;
* `Sys.refs`, `Sys.referenced`: the references, entries of the tasks' arrays and queued rights;
* `ExactLifetime`: an object is allocated exactly while something refers to it;
* `Life`: the invariant behind it;
* `Life.congr`, `Life.grow`, `Life.drop`: references that move, appear and disappear.
-/

namespace Ridux

open Lib Tasks

/-- What a descriptor refers to.  The ends of a pipe count as two objects. -/
inductive Object
  | pipeR (i : ℕ)
  | pipeW (i : ℕ)
  | socket (i : ℕ)
  | pooled (p : Pool) (i : ℕ)
  | file (i : ℕ)
  deriving DecidableEq

/-- The object of an entry; a device has none. -/
def FdKind.object (kind : FdKind) (ref : ℕ) : Option Object :=
  match kind with
  | .vfsfile => .some (.file ref)
  | .dir => .some (.file ref)
  | .symlink => .some (.file ref)
  | .socket => .some (.socket ref)
  | .pipeR => .some (.pipeR ref)
  | .pipeW => .some (.pipeW ref)
  | .proc => .some (.pooled .procBuf ref)
  | .epoll => .some (.pooled .epoll ref)
  | .eventfd => .some (.pooled .eventfd ref)
  | .timerfd => .some (.pooled .timerfd ref)
  | .inotify => .some (.pooled .inotify ref)
  | _ => Option.none

def Pool.kind : Pool → FdKind
  | .epoll => .epoll
  | .eventfd => .eventfd
  | .timerfd => .timerfd
  | .inotify => .inotify
  | .procBuf => .proc

@[simp] theorem Pool.kind_object (p : Pool) (i : ℕ) : p.kind.object i = some (.pooled p i) := by
  cases p <;> rfl

variable {o : Object} {ref r : ℕ}

theorem kind_ne_none_of_object {kind : FdKind} (h : kind.object ref = some o) : kind ≠ .none := by
  rintro rfl
  cases h

theorem isFile_iff {kind : FdKind} : kind.isFile = true ↔ kind.object r = some (.file r) := by
  cases kind <;> simp [FdKind.isFile, FdKind.object]

theorem object_inj {kind kind' : FdKind} {ref' : ℕ} (h : kind.object ref = some o)
    (h' : kind'.object ref' = some o) :
    ref' = ref ∧ (kind' = kind ∨ kind.isFile = true ∧ kind'.isFile = true) := by
  cases kind <;> cases kind' <;> simp_all [FdKind.object, FdKind.isFile] <;>
    (subst h; simp_all)

namespace Object

def inRange : Object → Prop
  | .pipeR i => i < pipeMax
  | .pipeW i => i < pipeMax
  | .socket i => i < sockMax
  | .pooled p i => i < p.size
  | .file i => i < openMaxFiles

end Object

namespace Objects

/-- Is the object allocated? -/
def alive (o : Objects) : Object → Prop
  | .pipeR i => (o.pipe i).used = true ∧ 0 < (o.pipe i).readers
  | .pipeW i => (o.pipe i).used = true ∧ 0 < (o.pipe i).writers
  | .socket i => (o.sock i).used = true
  | .pooled p i => o.pool p i = true
  | .file i => o.opened i ≠ none

/-- The rights that wait in a socket. -/
def waits (o : Objects) (j : ℕ) : List (ℕ × BitVec 32) :=
  if (o.sock j).used then (o.sock j).anc else []

theorem waits_used {o : Objects} {j : ℕ} (h : (o.sock j).used = true) :
    o.waits j = (o.sock j).anc := if_pos h

end Objects

namespace Sys

/-- A right that waits in a socket refers to the object. -/
def queued (s : Sys) (kind : FdKind) (ref : ℕ) : Prop :=
  ∃ j t pos e, (t, pos) ∈ s.objs.waits j ∧ s.rights t = some e ∧ e.kind = kind ∧ e.ref = ref

/-- Something refers to the object `ref` of this kind. -/
def refs (s : Sys) (kind : FdKind) (ref : ℕ) : Prop := s.tasks.held kind ref ∨ s.queued kind ref

def referenced (s : Sys) (o : Object) : Prop :=
  ∃ kind ref, kind.object ref = some o ∧ s.refs kind ref

end Sys

/-- **The property**: an object is allocated exactly while an entry of some task's array or a
queued right refers to it; a memfd or hidden file exists exactly while a referenced slot is open
on it. -/
structure ExactLifetime (s : Sys) : Prop where
  object : ∀ o, s.objs.alive o ↔ s.referenced o
  anon : ∀ p, p ≠ .named →
    (s.objs.anon p = true ↔ ∃ i, s.objs.opened i = some p ∧ s.referenced (.file i))

/-! ### The invariant -/

/-- A pipe in use has at most one end of each sort, and one at least. -/
structure PipeOk (p : Pipe) : Prop where
  readers : 0 ≤ p.readers ∧ p.readers ≤ 1
  writers : 0 ≤ p.writers ∧ p.writers ≤ 1
  some : 0 < p.readers ∨ 0 < p.writers

/-- The tables of objects are in order. -/
structure StoreOk (o : Objects) : Prop where
  range : ∀ x, o.alive x → x.inRange
  pipe : ∀ i, (o.pipe i).used = true → PipeOk (o.pipe i)
  anon : ∀ p, p ≠ .named → (o.anon p = true ↔ ∃ i, o.opened i = some p)
  memfdSeq : ∀ n, o.anon (.memfd n) = true → n < o.memfdSeq
  deletedSeq : ∀ n, o.anon (.deleted n) = true → n < o.deletedSeq

/-- The queues of rights: a right in use waits in exactly one place. -/
structure RingsOk (s : Sys) : Prop where
  queued : ∀ t e, s.rights t = some e → t < c3ScmRightsMax ∧ ∃ j pos, (t, pos) ∈ s.objs.waits j
  right : ∀ j t pos, (t, pos) ∈ s.objs.waits j → ∃ e, s.rights t = some e
  nodup : ∀ j, ((s.objs.waits j).map Prod.fst).Nodup
  disjoint : ∀ i j t p q, (t, p) ∈ s.objs.waits i → (t, q) ∈ s.objs.waits j → i = j

structure Life (s : Sys) : Prop where
  object : ∀ o, s.objs.alive o ↔ s.referenced o
  kinds : ∀ k k' ref, k.isFile = true → k'.isFile = true → s.refs k ref → s.refs k' ref → k = k'
  store : StoreOk s.objs
  rings : RingsOk s

theorem Life.exact {s : Sys} (h : Life s) : ExactLifetime s where
  object := h.object
  anon := by
    intro p hp
    rw [h.store.anon p hp]
    constructor
    · rintro ⟨i, hi⟩
      refine ⟨i, hi, (h.object (.file i)).1 ?_⟩
      show s.objs.opened i ≠ none
      rw [hi]
      simp
    · rintro ⟨i, hi, -⟩
      exact ⟨i, hi⟩

/-- Two tables of objects that differ in nothing but positions of streams, peers and mappings. -/
structure Objects.Same (o o' : Objects) : Prop where
  pipe : o'.pipe = o.pipe
  used : ∀ j, (o'.sock j).used = (o.sock j).used
  pool : o'.pool = o.pool
  opened : o'.opened = o.opened
  anon : o'.anon = o.anon
  memfdSeq : o'.memfdSeq = o.memfdSeq
  deletedSeq : o'.deletedSeq = o.deletedSeq

namespace Objects.Same

variable {o o' : Objects}

theorem refl (o : Objects) : Objects.Same o o :=
  ⟨rfl, fun _ => rfl, rfl, rfl, rfl, rfl, rfl⟩

theorem alive (h : Objects.Same o o') (x : Object) : o'.alive x ↔ o.alive x := by
  cases x with
  | pipeR i => rw [Objects.alive, Objects.alive, h.pipe]
  | pipeW i => rw [Objects.alive, Objects.alive, h.pipe]
  | socket i => rw [Objects.alive, Objects.alive, h.used]
  | pooled p i => rw [Objects.alive, Objects.alive, h.pool]
  | file i => rw [Objects.alive, Objects.alive, h.opened]

theorem store (h : Objects.Same o o') (ho : StoreOk o) : StoreOk o' where
  range := by
    intro x hx
    rw [h.alive] at hx
    exact ho.range x hx
  pipe := by
    intro i hu
    rw [h.pipe] at hu ⊢
    exact ho.pipe i hu
  anon := by
    intro p hp
    rw [h.anon, h.opened]
    exact ho.anon p hp
  memfdSeq := by
    intro n hn
    rw [h.anon] at hn
    rw [h.memfdSeq]
    exact ho.memfdSeq n hn
  deletedSeq := by
    intro n hn
    rw [h.anon] at hn
    rw [h.deletedSeq]
    exact ho.deletedSeq n hn

end Objects.Same

section

variable {s s' : Sys} {k : FdKind}

theorem queued_congr (hw : s'.objs.waits = s.objs.waits) (hr : s'.rights = s.rights)
    (kind : FdKind) (ref : ℕ) : s'.queued kind ref ↔ s.queued kind ref := by
  rw [Sys.queued, Sys.queued, hw, hr]

theorem RingsOk.congr (h : RingsOk s) (hw : s'.objs.waits = s.objs.waits)
    (hr : s'.rights = s.rights) : RingsOk s' where
  queued := by
    rw [hr, hw]
    exact h.queued
  right := by
    rw [hr, hw]
    exact h.right
  nodup := by
    rw [hw]
    exact h.nodup
  disjoint := by
    rw [hw]
    exact h.disjoint

theorem Life.refs_unique (h : Life s) {k' : FdKind} {r' : ℕ} (hk : k.object r = some o)
    (hk' : k'.object r' = some o) (hr : s.refs k r) (hr' : s.refs k' r') : k' = k ∧ r' = r := by
  obtain ⟨rfl, rfl | ⟨hf, hf'⟩⟩ := object_inj hk hk'
  · exact ⟨rfl, rfl⟩
  · exact ⟨h.kinds k' k r' hf' hf hr' hr, rfl⟩

theorem Life.alive_of_refs (h : Life s) (hk : k.object r = some o) (hr : s.refs k r) : s.objs.alive o :=
  (h.object o).2 ⟨k, r, hk, hr⟩

theorem Life.congr (h : Life s) (halive : ∀ o, s'.objs.alive o ↔ s.objs.alive o)
    (hrefs : ∀ k r o, k.object r = some o → (s'.refs k r ↔ s.refs k r))
    (hstore : StoreOk s'.objs) (hrings : RingsOk s') : Life s' where
  object := by
    intro o
    rw [halive, h.object]
    constructor
    · rintro ⟨k, r, hk, hr⟩
      exact ⟨k, r, hk, (hrefs k r o hk).2 hr⟩
    · rintro ⟨k, r, hk, hr⟩
      exact ⟨k, r, hk, (hrefs k r o hk).1 hr⟩
  kinds := by
    intro k k' r hk hk' hr hr'
    exact h.kinds k k' r hk hk' ((hrefs k r _ (isFile_iff.1 hk)).1 hr)
      ((hrefs k' r _ (isFile_iff.1 hk')).1 hr')
  store := hstore
  rings := hrings

theorem Life.grow (h : Life s) (new : FdKind → ℕ → Prop)
    (halive : ∀ o, s'.objs.alive o ↔ s.objs.alive o ∨ ∃ k r, k.object r = some o ∧ new k r)
    (hrefs : ∀ k r o, k.object r = some o → (s'.refs k r ↔ s.refs k r ∨ new k r))
    (hfresh : ∀ k r, new k r → k.isFile = true → ¬ s.objs.alive (.file r))
    (hone : ∀ k k' r, new k r → new k' r → k.isFile = true → k'.isFile = true → k = k')
    (hstore : StoreOk s'.objs) (hrings : RingsOk s') : Life s' where
  object := by
    intro o
    rw [halive, h.object]
    constructor
    · rintro (⟨k, r, hk, hr⟩ | ⟨k, r, hk, hr⟩)
      · exact ⟨k, r, hk, (hrefs k r o hk).2 (.inl hr)⟩
      · exact ⟨k, r, hk, (hrefs k r o hk).2 (.inr hr)⟩
    · rintro ⟨k, r, hk, hr⟩
      rcases (hrefs k r o hk).1 hr with hr | hr
      · exact .inl ⟨k, r, hk, hr⟩
      · exact .inr ⟨k, r, hk, hr⟩
  kinds := by
    intro k k' r hk hk' hr hr'
    have ho := (isFile_iff (r := r)).1 hk
    have ho' := (isFile_iff (r := r)).1 hk'
    rcases (hrefs k r _ ho).1 hr with hr | hr <;> rcases (hrefs k' r _ ho').1 hr' with hr' | hr'
    · exact h.kinds k k' r hk hk' hr hr'
    · exact absurd (h.alive_of_refs ho hr) (hfresh k' r hr' hk')
    · exact absurd (h.alive_of_refs ho' hr') (hfresh k r hr hk)
    · exact hone k k' r hr hr' hk hk'
  store := hstore
  rings := hrings

theorem Life.drop (h : Life s) (x : Object)
    (halive : ∀ o, s'.objs.alive o ↔ s.objs.alive o ∧ o ≠ x)
    (hrefs : ∀ k r o, k.object r = some o → (s'.refs k r ↔ s.refs k r ∧ o ≠ x))
    (hstore : StoreOk s'.objs) (hrings : RingsOk s') : Life s' where
  object := by
    intro o
    rw [halive, h.object]
    constructor
    · rintro ⟨⟨k, r, hk, hr⟩, hne⟩
      exact ⟨k, r, hk, (hrefs k r o hk).2 ⟨hr, hne⟩⟩
    · rintro ⟨k, r, hk, hr⟩
      obtain ⟨hr, hne⟩ := (hrefs k r o hk).1 hr
      exact ⟨⟨k, r, hk, hr⟩, hne⟩
  kinds := by
    intro k k' r hk hk' hr hr'
    exact h.kinds k k' r hk hk' ((hrefs k r _ (isFile_iff.1 hk)).1 hr).1
      ((hrefs k' r _ (isFile_iff.1 hk')).1 hr').1
  store := hstore
  rings := hrings

end

/-! ### Writing and clearing an entry -/

namespace Held

variable {ts : Tasks} {table : ℕ → ℕ} {c fd : ℕ} {k : FdKind} {r : ℕ} {g : ℕ → Fd}

theorem held_write (h : Held ts table c) (hfd : fd < taskFdMax)
    (hfree : ((ts.task c).fds fd).kind = .none) (e : Fd) (hk : k ≠ .none) :
    (ts.setTable c (Function.update (ts.task c).fds fd e)).held k r ↔
      ts.held k r ∨ (k = e.kind ∧ r = e.ref) := by
  rw [h.held_setTable hk, h.held_iff hk, inTable_update_free hfd hfree hk]
  constructor
  · rintro ((⟨rfl, rfl⟩ | hin) | hout)
    · exact .inr ⟨rfl, rfl⟩
    · exact .inl (.inl hin)
    · exact .inl (.inr hout)
  · rintro ((hin | hout) | ⟨rfl, rfl⟩)
    · exact .inl (.inr hin)
    · exact .inr hout
    · exact .inl (.inl ⟨rfl, rfl⟩)

theorem held_rewrite (h : Held ts table c)
    (hkind : ∀ fd, (g fd).kind = ((ts.task c).fds fd).kind)
    (href : ∀ fd, (g fd).kind ≠ .none → (g fd).ref = ((ts.task c).fds fd).ref) (hk : k ≠ .none) :
    (ts.setTable c g).held k r ↔ ts.held k r := by
  have hin : inTable g k r ↔ inTable (ts.task c).fds k r := by
    constructor
    · rintro ⟨fd, hfd, h1, h2⟩
      have hr := href fd (by rw [h1]; exact hk)
      exact ⟨fd, hfd, (hkind fd).symm.trans h1, hr.symm.trans h2⟩
    · rintro ⟨fd, hfd, h1, h2⟩
      have hk' := (hkind fd).trans h1
      exact ⟨fd, hfd, hk', (href fd (by rw [hk']; exact hk)).trans h2⟩
  rw [h.held_setTable hk, h.held_iff hk, hin]

theorem held_clear (h : Held ts table c) (hfd : fd < taskFdMax)
    (hv : ((ts.task c).fds fd).kind ≠ .none) (hk : k ≠ .none) :
    (ts.setTable c (Function.update (ts.task c).fds fd .empty)).held k r ↔
      ts.held k r ∧ ¬(k = ((ts.task c).fds fd).kind ∧ r = ((ts.task c).fds fd).ref ∧
        ts.c3FdRefCount ((ts.task c).fds fd).kind ((ts.task c).fds fd).ref ≤ 1) := by
  have hlast := h.refCount_le_one_iff hv hfd (holds_iff.2 ⟨rfl, rfl⟩)
  have hempty : ¬(Fd.empty.kind = k ∧ Fd.empty.ref = r) := fun he => hk he.1.symm
  rw [h.held_setTable hk, inTable_update hfd, h.held_iff hk, hlast]
  constructor
  · rintro ((he | ⟨i, hi, hif, hik, hir⟩) | hout)
    · exact absurd he hempty
    · refine ⟨.inl ⟨i, hi, hik, hir⟩, ?_⟩
      rintro ⟨rfl, rfl, hall⟩
      exact hif (hall c i h.used hi (holds_iff.2 ⟨hik, hir⟩)).2
    · refine ⟨.inr hout, ?_⟩
      obtain ⟨i, j, hl, ht, hj, hh⟩ := hout
      rintro ⟨rfl, rfl, hall⟩
      exact ht (hall i j (used_of_live hl) hj hh).1
  · rintro ⟨hheld, hno⟩
    by_cases hkr : k = ((ts.task c).fds fd).kind ∧ r = ((ts.task c).fds fd).ref
    · -- another entry refers to the object
      obtain ⟨rfl, rfl⟩ := hkr
      have hex : ¬ ∀ i j, (ts.task i).used = true → j < taskFdMax →
          ts.holds ((ts.task c).fds fd).kind ((ts.task c).fds fd).ref i j = true →
          table i = table c ∧ j = fd := fun hall => hno ⟨rfl, rfl, hall⟩
      push Not at hex
      obtain ⟨i, j, hu, hj, hh, hne⟩ := hex
      have hkr := holds_iff.1 hh
      by_cases ht : table i = table c
      · have hfds : (ts.task i).fds = (ts.task c).fds := by
          rcases h.mem hu hj (by rw [hkr.1]; exact hk) with hl | rfl
          · exact h.agree i hl ht
          · rfl
        rw [hfds] at hkr
        exact .inl (.inr ⟨j, hj, hne ht, hkr⟩)
      · refine .inr ⟨i, j, ?_, ht, hj, hh⟩
        rcases h.mem hu hj (by rw [hkr.1]; exact hk) with hl | rfl
        · exact hl
        · exact absurd rfl ht
    · rcases hheld with ⟨i, hi, hik, hir⟩ | hout
      · refine .inl (.inr ⟨i, hi, ?_, hik, hir⟩)
        rintro rfl
        exact hkr ⟨hik.symm, hir.symm⟩
      · exact .inr hout

end Held

end Ridux
