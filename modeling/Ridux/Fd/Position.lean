import Ridux.Fd.Coherent
import Ridux.Text

/-!
# The position of an open file

A descriptor has a position of its own, and `dup`, `dup2`, `fcntl` and `fork` copy it.  `read`, `write`
and `lseek` store the new position in the descriptor that they are called with, and
`c3_fd_group_copy_fd` copies it to the same number of the same group.

* `SlotFile`, `Positions`: the descriptors with what their open slots lead to;
* `readPos`, `writeTo`, `seekPos`: where the calls leave the position;
* `PosOp`, `PosTrace`: the calls, beside the position that the last one left;
* `OnePosition`: all descriptors of an open have the position that the last call left;
* `file_position_shared`: it holds in every run whose calls satisfy `PosTrace.Meets`.

Of a file only the size is kept, and the positions of descriptors of other kinds are left alone.
-/

namespace Ridux

open Lib Option

/-- What the path of an open slot leads to. -/
inductive SlotFile
  | missing
  | plain (size : ℕ)
  | memfd (size : BitVec 64) (seals : BitVec 32)

/-- `C3_VFS_FILE_MAX`, as the calls on open files use it. -/
def slotFileMax : ℕ := 65536
/-- `C3_F_SEAL_WRITE | C3_F_SEAL_FUTURE_WRITE`. -/
def sealsWrite : BitVec 32 := 0x18

/-- The `whence` of `lseek`. -/
inductive Whence
  | set | cur | fromEnd | other
  deriving DecidableEq

/-- The descriptors, and the files behind `g_c3_vfs_open`. -/
structure Positions where
  sys : Sys
  path : ℕ → Bytes
  file : Bytes → SlotFile

/-- The number of bytes that a read at `off` gets of `count`. -/
def readLen (size off count : ℕ) : ℕ := min count (size - off)

/-- Where a write of `count` bytes through `e` leaves the file and the position; no position if it stores
none.  `room` is how many bytes the cache finds frames for, and `stored` says that the file took them. -/
def writeTo (f : SlotFile) (e : Fd) (count room : ℕ) (stored : Bool) : SlotFile × Option (BitVec 64) :=
  let append := e.flags &&& fdflAppend ≠ 0
  let plain (size : ℕ) : SlotFile × Option (BitVec 64) :=
    let base := min (if append ∧ 0 < size then size else e.offset.toNat) (slotFileMax - 1)
    let last := base + min count (slotFileMax - 1 - base)
    (if stored then .plain last else f, some (BitVec.ofNat 64 last))
  match f with
  | .missing => plain 0
  | .plain size => plain size
  | .memfd size seals =>
    let base := if append then size else e.offset
    let last := base + BitVec.ofNat 64 count
    if seals &&& sealsWrite ≠ 0 then (f, none)
    else if 2 ^ 64 - 1 - base.toNat < count then (f, none)
    else if count ≤ room then
      (.memfd (if size < last then last else size) seals, if 0 < count then some last else none)
    else (f, if 0 < room then some (base + BitVec.ofNat 64 room) else none)

namespace Positions

variable (w : Positions)

/-- The file behind an open slot, none if the slot is not used. -/
def slotFile (ref : ℕ) : Option SlotFile :=
  if (w.sys.objs.opened ref).isSome then some (w.file (w.path ref)) else none

/-- Store a position, and copy the descriptor to the group. -/
def setPos (cur fd : ℕ) (pos : BitVec 64) : Positions :=
  { w with sys := w.sys.installFd cur fd { w.sys.entry cur fd with offset := pos } }

/-- The position that `real_sys_read` stores, if it stores one.  `copied` says that the buffer is there and
the bytes were copied to it. -/
def readPos (cur fd count : ℕ) (copied : Bool) : Option (BitVec 64) :=
  let e := w.sys.entry cur fd
  if !w.sys.valid cur fd || e.kind != .vfsfile then none
  else
    match w.slotFile e.ref with
    | none => none
    | some .missing => none
    | some (.memfd size _) =>
      if copied then
        some (e.offset + BitVec.ofNat 64 (readLen size.toNat e.offset.toNat (min count slotFileMax)))
      else none
    | some (.plain size) =>
      if size ≤ e.offset.toNat then none
      else if copied then some (e.offset + BitVec.ofNat 64 (readLen size e.offset.toNat count))
      else none

/-- The file and the position that `real_sys_write` leaves, if it gets to write. -/
def writePos (cur fd count room : ℕ) (stored : Bool) : Option (SlotFile × Option (BitVec 64)) :=
  let e := w.sys.entry cur fd
  if !w.sys.valid cur fd || e.kind != .vfsfile then none
  else if e.flags &&& fdflWritable = 0 then none
  else (w.slotFile e.ref).map fun f => writeTo f e count room stored

/-- The end of a file for `SEEK_END`, zero where there is none. -/
def seekEnd (e : Fd) : BitVec 64 :=
  if e.kind = .vfsfile then
    match w.slotFile e.ref with
    | some (.memfd size _) => size
    | some (.plain size) => BitVec.ofNat 64 size
    | _ => 0
  else 0

/-- The position that `real_sys_lseek` stores, if it stores one. -/
def seekPos (cur fd : ℕ) (offset : BitVec 64) (whence : Whence) : Option (BitVec 64) :=
  let e := w.sys.entry cur fd
  if !w.sys.valid cur fd then none
  else
    match whence with
    | .set => some offset
    | .cur => some (e.offset + offset)
    | .fromEnd => some (w.seekEnd e + offset)
    | .other => none

end Positions

namespace Sys

variable (s : Sys)

/-- The descriptor is one of the open file of slot `r`. -/
def isFor (r cur fd : ℕ) : Bool :=
  s.valid cur fd && decide ((s.entry cur fd).kind = .vfsfile) && decide ((s.entry cur fd).ref = r)

/-- A descriptor of a task, of the open file of slot `r`. -/
structure Alias (r i fd : ℕ) : Prop where
  task : i < taskMax
  used : (s.tasks.task i).used = true
  bound : fd < taskFdMax
  kind : (s.entry i fd).kind = .vfsfile
  ref : (s.entry i fd).ref = r

/-- All descriptors of the open file have the number `fd`, in tasks that share descriptors with `cur`. -/
def Alone (r cur fd : ℕ) : Prop :=
  ∀ i j, s.Alias r i j → j = fd ∧ (i = cur ∨ s.tasks.groupPeer cur i = true)

/-- All descriptors of the open file have one position. -/
def AllAt (r : ℕ) (pos : BitVec 64) : Prop := ∀ i fd, s.Alias r i fd → (s.entry i fd).offset = pos

end Sys

/-- A call on an open file, a call that makes descriptors, or a change to the files by anything else. -/
inductive PosOp
  | read (cur fd count : ℕ) (copied : Bool)
  | write (cur fd count room : ℕ) (stored : Bool)
  | lseek (cur fd : ℕ) (offset : BitVec 64) (whence : Whence)
  | call (cur : ℕ) (c : Sys.Syscall)
  | file (p : Bytes) (f : SlotFile)

/-- The calls that copy descriptors. -/
def Sys.Syscall.copies : Sys.Syscall → Bool
  | .dup _ => true
  | .dup2 _ _ => true
  | .dup3 _ _ _ => true
  | .fcntl _ _ => true
  | .fork => true
  | _ => false

/-- The task and the descriptor of a call on an open file. -/
def PosOp.descriptor : PosOp → Option (ℕ × ℕ)
  | .read cur fd _ _ => some (cur, fd)
  | .write cur fd _ _ _ => some (cur, fd)
  | .lseek cur fd _ _ => some (cur, fd)
  | .call _ _ => none
  | .file _ _ => none

namespace Positions

variable (w : Positions)

/-- The position that a call stores in its descriptor. -/
def target : PosOp → Option (BitVec 64)
  | .read cur fd count copied => w.readPos cur fd count copied
  | .write cur fd count room stored => (w.writePos cur fd count room stored).bind Prod.snd
  | .lseek cur fd offset whence => w.seekPos cur fd offset whence
  | .call _ _ => none
  | .file _ _ => none

/-- Store the position of a call, if there is one. -/
def store (cur fd : ℕ) : Option (BitVec 64) → Positions
  | none => w
  | some pos => w.setPos cur fd pos

def exec : PosOp → Positions
  | .read cur fd count copied => w.store cur fd (w.readPos cur fd count copied)
  | .write cur fd count room stored =>
    match w.writePos cur fd count room stored with
    | none => w
    | some (f, pos) =>
      { w.store cur fd pos with file := Function.update w.file (w.path (w.sys.entry cur fd).ref) f }
  | .lseek cur fd offset whence => w.store cur fd (w.seekPos cur fd offset whence)
  | .call cur c => { w with sys := (w.sys.call cur c).2 }
  | .file p f => { w with file := Function.update w.file p f }

end Positions

/-- The descriptors beside the position that the last call on the open file left. -/
structure PosTrace where
  w : Positions
  pos : BitVec 64
  /-- no `lseek` on the open file has left a negative position -/
  seekOk : Bool

namespace PosTrace

variable (r : ℕ) (t : PosTrace)

/-- The call is one on the open file of slot `r`. -/
def concerns (op : PosOp) : Bool := op.descriptor.any fun d => t.w.sys.isFor r d.1 d.2

/-- Is the operation an `lseek`? -/
def isSeek : PosOp → Bool
  | .lseek _ _ _ _ => true
  | _ => false

def exec (op : PosOp) : PosTrace :=
  let w' := t.w.exec op
  let pos := op.descriptor.elim t.pos fun d =>
    if t.concerns r op then (w'.sys.entry d.1 d.2).offset else t.pos
  { w := w'
    pos := pos
    seekOk := t.seekOk &&
      (!(isSeek op && t.concerns r op) || (t.w.target op).all fun p => decide (0 ≤ p.toInt)) }

/-- A call needs a live task, and only descriptors are copied. -/
def Enabled : PosOp → Prop
  | .read cur _ _ _ => cur < taskMax ∧ (t.w.sys.tasks.task cur).live = true
  | .write cur _ _ _ _ => cur < taskMax ∧ (t.w.sys.tasks.task cur).live = true
  | .lseek cur _ _ _ => cur < taskMax ∧ (t.w.sys.tasks.task cur).live = true
  | .call cur c => cur < taskMax ∧ (t.w.sys.tasks.task cur).live = true ∧ c.copies = true
  | .file _ _ => True

/-- A call that moves the position of the open file is made while all its descriptors have the same number
in one group, and an `lseek` on it does not aim before the start of the file. -/
def Meets (op : PosOp) : Prop :=
  t.Enabled op ∧ ∀ d, op.descriptor = some d → t.w.sys.isFor r d.1 d.2 = true →
    ∀ pos, t.w.target op = some pos →
      (pos = (t.w.sys.entry d.1 d.2).offset ∨ t.w.sys.Alone r d.1 d.2) ∧ (isSeek op = true → 0 ≤ pos.toInt)

/-- Every descriptor of the open file has the position that the last call on it left, so the next call uses
that one; and no `lseek` has left a negative position. -/
structure OnePosition : Prop where
  same : t.w.sys.AllAt r t.pos
  seek : t.seekOk = true

end PosTrace

/-! ### What holds of every descriptor -/

namespace Tasks

variable {ts : Tasks} {P : Fd → Prop} {cur fd : ℕ} {e : Fd}

/-- Every descriptor of every task satisfies `P`, and the task `cur` is there. -/
structure Every (P : Fd → Prop) (cur : ℕ) (ts : Tasks) : Prop where
  every : ∀ i < taskMax, (ts.task i).used = true → ∀ fd < taskFdMax, P ((ts.task i).fds fd)
  small : cur < taskMax
  used : (ts.task cur).used = true

namespace Every

theorem update {t : Task} (ht : ∀ fd < taskFdMax, P (t.fds fd)) (he : fd < taskFdMax → P e) :
    ∀ j < taskFdMax, P ((t.setFd fd e).fds j) := by
  intro j hj
  have hfds : (t.setFd fd e).fds = Function.update t.fds fd e := rfl
  rw [hfds]
  by_cases hjf : j = fd
  · rw [hjf, Function.update_self]
    exact he (hjf ▸ hj)
  · rw [Function.update_of_ne hjf]
    exact ht j hj

theorem setFd (h : Every P cur ts) (he : fd < taskFdMax → P e) : Every P cur (ts.setFd cur fd e) := by
  have hother : ∀ i, i ≠ cur → (ts.setFd cur fd e).task i = ts.task i := fun i hi =>
      Function.update_of_ne hi ..
  have hself : (ts.setFd cur fd e).task cur = (ts.task cur).setFd fd e := Function.update_self ..
  refine ⟨fun i hi hu j hj => ?_, h.small, by rw [hself]; exact h.used⟩
  by_cases hic : i = cur
  · rw [hic, hself]
    exact update (h.every cur h.small h.used) he j hj
  · rw [hother i hic] at hu ⊢
    exact h.every i hi hu j hj

theorem forTasks (h : Every P cur ts) {p : ℕ → Bool} {body : Task → Task}
    (hused : ∀ t, (body t).used = t.used)
    (hbody : ∀ t, (∀ fd < taskFdMax, P (t.fds fd)) → ∀ fd < taskFdMax, P ((body t).fds fd)) :
    Every P cur (ts.forTasks p body) := by
  have hcases : ∀ i, (ts.forTasks p body).task i = body (ts.task i) ∨ (ts.forTasks p body).task i =
      ts.task i := by
    intro i
    unfold Tasks.forTasks
    simp only
    split_ifs
    · exact .inl rfl
    · exact .inr rfl
  refine ⟨fun i hi hu => ?_, h.small, ?_⟩
  · rcases hcases i with hb | hb
    · rw [hb, hused] at hu
      rw [hb]
      exact hbody _ (h.every i hi hu)
    · rw [hb] at hu ⊢
      exact h.every i hi hu
  · rcases hcases cur with hb | hb
    · rw [hb, hused, h.used]
    · rw [hb, h.used]

theorem copyFd (h : Every P cur ts) : Every P cur (ts.c3FdGroupCopyFd cur fd) := by
  unfold c3FdGroupCopyFd
  split_ifs with hfd
  · exact h
  · exact h.forTasks (fun _ => rfl) fun t ht => update ht (h.every cur h.small h.used fd)

theorem install (h : Every P cur ts) (he : fd < taskFdMax → P e) :
    Every P cur (ts.installFd cur fd e) := (h.setFd he).copyFd

theorem clear (h : Every P cur ts) (hempty : P .empty) : Every P cur (ts.c3FdGroupClearFd cur fd) := by
  unfold c3FdGroupClearFd
  split_ifs
  · exact h
  · refine h.forTasks (fun t => ?_) fun t ht => ?_
    · unfold fdClose
      split_ifs <;> rfl
    · unfold fdClose
      split_ifs
      · exact update ht fun _ => hempty
      · exact ht

theorem sync (h : Every P cur ts) : Every P cur (ts.c3FdGroupSyncFd cur fd) := by
  unfold c3FdGroupSyncFd
  split_ifs with hfd hv
  · exact h
  · exact h
  · cases hp : ts.peerWith cur fd with
    | none => exact h
    | some i =>
      obtain ⟨hi, hpeer⟩ := firstSlot_eq_some hp
      rw [Bool.and_eq_true] at hpeer
      have hlive := (groupPeer_iff.1 hpeer.1).2.1
      exact h.setFd (h.every i hi (used_of_live hlive) fd)

theorem fork (h : Every P cur ts) : Every P cur (ts.realSysFork cur).2 := by
  unfold realSysFork taskFork
  cases hp : ts.taskIndexByPid (ts.task cur).pid with
  | none => exact h
  | some p =>
    obtain ⟨hplt, hpu⟩ := firstSlot_eq_some hp
    rw [Bool.and_eq_true] at hpu
    simp only
    cases hf : ts.freeTask with
    | none => exact h
    | some i =>
      obtain ⟨hi, hfree⟩ := firstSlot_eq_some hf
      rw [Bool.and_eq_true, Bool.not_eq_true'] at hfree
      have hne : cur ≠ i := by
        rintro rfl
        rw [h.used] at hfree
        cases hfree.2
      simp only
      set t := ts.freshTask .runnable (ts.task p).user (ts.task p).fds
      have hself : (ts.addTask i t).task i = t := Function.update_self ..
      have hother : ∀ j, j ≠ i → (ts.addTask i t).task j = ts.task j := fun j hj =>
          Function.update_of_ne hj ..
      refine ⟨fun j hj hu => ?_, h.small, by rw [hother cur hne, h.used]⟩
      by_cases hji : j = i
      · rw [hji, hself]
        exact h.every p hplt hpu.1
      · rw [hother j hji] at hu ⊢
        exact h.every j hj hu

end Every

end Tasks

/-! ### The calls that copy descriptors -/

section Copies

variable {s : Sys} {P : Fd → Prop} {cur : ℕ}

/-- A property of descriptors that only the kind, the object and the position decide. -/
structure FlagFree (P : Fd → Prop) : Prop where
  empty : P .empty
  flags : ∀ e fl, P e → P { e with flags := fl }

theorem FlagFree.entry (hP : FlagFree P) (h : Tasks.Every P cur s.tasks) (fd : ℕ) (fl : BitVec 16)
    (hfd : fd < taskFdMax) : P { s.entry cur fd with flags := fl } :=
  hP.flags _ _ (h.every cur h.small h.used fd hfd)

theorem lt_of_valid {fd : ℕ} (hv : ¬ (!s.valid cur fd) = true) : fd < taskFdMax := by
  rw [Bool.not_eq_true', Bool.not_eq_false] at hv
  exact (fdValid_iff.1 hv).1

theorem every_close (hP : FlagFree P) (h : Tasks.Every P cur s.tasks) (fd : ℕ) :
    Tasks.Every P cur (s.c3CloseFdForTask cur fd).2.tasks := by
  have hsync : Tasks.Every P cur (s.syncFd cur fd).tasks := h.sync
  unfold Sys.c3CloseFdForTask Sys.closeSynced
  split_ifs
  · rw [Sys.closeEntry_clears]
    exact hsync.clear hP.empty
  · exact hsync

theorem every_dupMin (hP : FlagFree P) (h : Tasks.Every P cur s.tasks) {oldfd : ℕ} (minfd : ℕ) (cloexec :
    Bool) :
    Tasks.Every P cur (s.c3DupFdMin cur oldfd minfd cloexec).2.tasks := by
  have hsync : Tasks.Every P cur (s.syncFd cur oldfd).tasks := h.sync
  unfold Sys.c3DupFdMin
  simp only
  split_ifs with hv hmin
  · exact hsync
  · exact hsync
  · unfold Sys.dupFrom
    cases hf : (s.syncFd cur oldfd).tasks.freeFd cur minfd with
    | none => exact hsync
    | some nfd =>
      exact hsync.install fun _ => hP.entry hsync oldfd _ (lt_of_valid hv)

theorem every_dup2 (hP : FlagFree P) (h : Tasks.Every P cur s.tasks) (oldfd newfd : ℕ) :
    Tasks.Every P cur (s.realSysDup2 cur oldfd newfd).2.tasks := by
  have hsync : Tasks.Every P cur (s.syncFd cur oldfd).tasks := h.sync
  unfold Sys.realSysDup2
  simp only
  split_ifs with hv hnew heq
  · exact hsync
  · exact hsync
  · exact hsync
  · have hcopy : ∀ u : Sys, Tasks.Every P cur u.tasks →
      Tasks.Every P cur (u.dup2Copy cur oldfd newfd).tasks :=
      fun u hu => hu.install fun _ => hP.entry hu oldfd _ (lt_of_valid hv)
    have hsync₂ : Tasks.Every P cur ((s.syncFd cur oldfd).syncFd cur newfd).tasks := hsync.sync
    unfold Sys.dup2Onto
    simp only
    split_ifs
    · have hclose := every_close hP hsync₂ newfd
      generalize ((s.syncFd cur oldfd).syncFd cur newfd).c3CloseFdForTask cur newfd = c at hclose ⊢
      obtain ⟨rc, u⟩ := c
      cases rc with
      | error e => exact hclose
      | ok l => exact hcopy u hclose
    · exact hcopy _ hsync₂

theorem every_dup3 (hP : FlagFree P) (h : Tasks.Every P cur s.tasks) (oldfd newfd : ℕ) (flags : BitVec 32) :
    Tasks.Every P cur (s.realSysDup3 cur oldfd newfd flags).2.tasks := by
  have hdup := every_dup2 hP h oldfd newfd
  unfold Sys.realSysDup3
  split_ifs with hflags heq hcloexec
  · exact h
  · exact h
  · generalize s.realSysDup2 cur oldfd newfd = c at hdup ⊢
    obtain ⟨rc, u⟩ := c
    cases rc with
    | error e => exact hdup
    | ok l => exact (hdup.setFd (hP.entry hdup newfd _)).copyFd
  · generalize s.realSysDup2 cur oldfd newfd = c at hdup ⊢
    obtain ⟨rc, u⟩ := c
    cases rc <;> exact hdup

theorem every_fcntl (hP : FlagFree P) (h : Tasks.Every P cur s.tasks) (fd : ℕ) (cmd : Sys.Fcntl) :
    Tasks.Every P cur (s.realSysFcntl cur fd cmd).2.tasks := by
  have hsync : Tasks.Every P cur (s.syncFd cur fd).tasks := h.sync
  unfold Sys.realSysFcntl
  simp only
  split_ifs with hv
  · exact hsync
  · have hset : ∀ fl, Tasks.Every P cur ((s.syncFd cur fd).setFlags cur fd fl).tasks := fun fl =>
      hsync.install (hP.entry hsync fd fl)
    cases cmd with
    | dupfd arg =>
      simp only
      split_ifs
      · exact hsync
      · exact every_dupMin hP hsync arg false
    | dupfdCloexec arg =>
      simp only
      split_ifs
      · exact hsync
      · exact every_dupMin hP hsync arg true
    | setfd arg => exact hset _
    | setfl arg => exact hset _
    | other => exact hsync

theorem every_copies (hP : FlagFree P) (h : Tasks.Every P cur s.tasks) {c : Sys.Syscall} (hc : c.copies =
    true) :
    Tasks.Every P cur (s.call cur c).2.tasks := by
  cases c with
  | dup oldfd => exact every_dupMin hP h 0 false
  | dup2 oldfd newfd => exact every_dup2 hP h oldfd newfd
  | dup3 oldfd newfd flags => exact every_dup3 hP h oldfd newfd flags
  | fcntl fd cmd => exact every_fcntl hP h fd cmd
  | fork =>
    have hfork := h.fork
    unfold Sys.call
    simp only
    generalize s.tasks.realSysFork cur = r at hfork ⊢
    obtain ⟨o, ts⟩ := r
    cases o <;> exact hfork
  | _ => cases hc

end Copies

/-! ### Storing a position -/

namespace Tasks

variable {ts : Tasks} {cur fd : ℕ}

theorem installFd_task (hfd : fd < taskFdMax) (e : Fd) (i : ℕ) : (ts.installFd cur fd e).task i =
    if i = cur ∨ i < taskMax ∧ ts.groupPeer cur i = true then (ts.task i).setFd fd e else ts.task i := by
  have hother : ∀ j, j ≠ cur → (ts.setFd cur fd e).task j = ts.task j := fun j hj =>
      Function.update_of_ne hj ..
  have hself : (ts.setFd cur fd e).task cur = (ts.task cur).setFd fd e := Function.update_self ..
  have hpeer : (ts.setFd cur fd e).groupPeer cur i = ts.groupPeer cur i := by
    unfold groupPeer
    rw [hself]
    by_cases hi : i = cur
    · simp [hi]
    · rw [hother i hi]
      rfl
  unfold installFd c3FdGroupCopyFd
  rw [if_neg (Nat.not_le.2 hfd)]
  unfold Tasks.forTasks
  simp only [hpeer]
  have hentry : ((ts.task cur).setFd fd e).fds fd = e := Function.update_self ..
  by_cases hi : i = cur
  · have hno : ts.groupPeer cur cur = false := by
      unfold groupPeer
      simp
    rw [hi, hno, if_neg fun h => Bool.false_ne_true h.2, if_pos (.inl rfl), hself]
  · rw [hother i hi, hself, hentry]
    simp only [hi, false_or]

end Tasks

namespace Positions

variable {w : Positions} {r cur fd : ℕ}

/-- The position of a descriptor, if it is one of the open file. -/
def AtPos (r : ℕ) (pos : BitVec 64) (e : Fd) : Prop := e.kind = .vfsfile → e.ref = r → e.offset = pos

theorem flagFree_atPos (r : ℕ) (pos : BitVec 64) : FlagFree (AtPos r pos) where
  empty h := by cases h
  flags _ _ h := h

theorem allAt_iff {s : Sys} {pos : BitVec 64} (hcur : cur < taskMax) (hu : (s.tasks.task cur).used = true) :
    s.AllAt r pos ↔ Tasks.Every (AtPos r pos) cur s.tasks := by
  constructor
  · intro h
    exact ⟨fun i hi hui fd hfd hk hr => h i fd ⟨hi, hui, hfd, hk, hr⟩, hcur, hu⟩
  · intro h i fd ha
    exact h.every i ha.task ha.used fd ha.bound ha.kind ha.ref

theorem isFor_iff : w.sys.isFor r cur fd = true ↔ w.sys.valid cur fd = true ∧
    (w.sys.entry cur fd).kind = .vfsfile ∧ (w.sys.entry cur fd).ref = r := by
  simp [Sys.isFor, and_assoc]

theorem entry_setPos (hfd : fd < taskFdMax) (pos : BitVec 64) (i j : ℕ) :
    (w.setPos cur fd pos).sys.entry i j =
    if (i = cur ∨ i < taskMax ∧ w.sys.tasks.groupPeer cur i = true) ∧ j = fd then
      { w.sys.entry cur fd with offset := pos }
    else w.sys.entry i j := by
  unfold setPos Sys.installFd Sys.entry
  simp only
  rw [Tasks.installFd_task hfd]
  by_cases hi : i = cur ∨ i < taskMax ∧ w.sys.tasks.groupPeer cur i = true
  · rw [if_pos hi]
    have hfds : ∀ e, ((w.sys.tasks.task i).setFd fd e).fds = Function.update (w.sys.tasks.task i).fds fd e :=
      fun _ => rfl
    rw [hfds]
    by_cases hj : j = fd
    · rw [if_pos ⟨hi, hj⟩, hj, Function.update_self]
    · rw [if_neg fun h => hj h.2, Function.update_of_ne hj]
  · rw [if_neg hi, if_neg fun h => hi h.1]

theorem used_setPos (hfd : fd < taskFdMax) (pos : BitVec 64) (i : ℕ) :
    ((w.setPos cur fd pos).sys.tasks.task i).used = (w.sys.tasks.task i).used := by
  unfold setPos Sys.installFd
  simp only
  rw [Tasks.installFd_task hfd]
  split_ifs <;> rfl

/-- A stored position reaches all descriptors of the open file if it is the old one or if they are
together. -/
theorem allAt_setPos_iff {pos : BitVec 64} (h : w.sys.AllAt r pos) (ha : w.sys.Alias r cur fd) (p :
    BitVec 64) :
    (w.setPos cur fd p).sys.AllAt r p ↔ p = (w.sys.entry cur fd).offset ∨ w.sys.Alone r cur fd := by
  have hent : ∀ i j, (w.setPos cur fd p).sys.entry i j = _ := fun i j => entry_setPos ha.bound p i j
  constructor
  · intro hall
    by_contra hno
    rw [not_or] at hno
    obtain ⟨hmoved, halone⟩ := hno
    refine halone fun i j hij => ?_
    by_contra hapart
    -- this descriptor is left where it was
    have hkeep : (w.setPos cur fd p).sys.entry i j = w.sys.entry i j := by
      rw [hent, if_neg]
      rintro ⟨hi, hj⟩
      exact hapart ⟨hj, hi.imp_right And.right⟩
    have hij' : (w.setPos cur fd p).sys.Alias r i j :=
      ⟨hij.task, (used_setPos ha.bound p i).trans hij.used, hij.bound, hkeep ▸ hij.kind, hkeep ▸ hij.ref⟩
    have hp := hall i j hij'
    rw [hkeep, h i j hij] at hp
    exact hmoved (hp.symm.trans (h cur fd ha).symm)
  · intro hcond i j hij
    by_cases hin : (i = cur ∨ i < taskMax ∧ w.sys.tasks.groupPeer cur i = true) ∧ j = fd
    · rw [hent, if_pos hin]
    · have hkeep : (w.setPos cur fd p).sys.entry i j = w.sys.entry i j := by rw [hent, if_neg hin]
      have hold : w.sys.Alias r i j :=
        ⟨hij.task, (used_setPos ha.bound p i).symm.trans hij.used, hij.bound, hkeep ▸ hij.kind,
            hkeep ▸ hij.ref⟩
      rw [hkeep]
      rcases hcond with hsame | halone
      · rw [hsame, h i j hold, h cur fd ha]
      · obtain ⟨hj, hi⟩ := halone i j hold
        exact absurd ⟨hi.imp_right fun hp => ⟨hold.task, hp⟩, hj⟩ hin

theorem allAt_setPos_other {pos : BitVec 64} (h : w.sys.AllAt r pos) (hfd : fd < taskFdMax)
    (hno : ¬ ((w.sys.entry cur fd).kind = .vfsfile ∧ (w.sys.entry cur fd).ref = r)) (p : BitVec 64) :
    (w.setPos cur fd p).sys.AllAt r pos := by
  intro i j hij
  have hent : (w.setPos cur fd p).sys.entry i j = _ := entry_setPos hfd p i j
  have hkind := hij.kind
  have href := hij.ref
  split_ifs at hent
  · rw [hent] at hkind href
    exact absurd ⟨hkind, href⟩ hno
  · rw [hent] at hkind href ⊢
    exact h i j ⟨hij.task, (used_setPos hfd p i).symm.trans hij.used, hij.bound, hkind, href⟩

theorem valid_of_target {op : PosOp} {pos : BitVec 64} (hd : op.descriptor = some (cur, fd))
    (h : w.target op = some pos) : w.sys.valid cur fd = true := by
  by_contra hno
  rw [Bool.not_eq_true] at hno
  have hno' : (!w.sys.valid cur fd) = true := by rw [hno]; rfl
  cases op with
  | read c f count copied =>
    cases hd
    simp [target, readPos, hno] at h
  | write c f count room stored =>
    cases hd
    simp [target, writePos, hno] at h
  | lseek c f offset whence =>
    cases hd
    simp [target, seekPos, hno] at h
  | call c call => cases hd
  | file p f => cases hd

theorem exec_sys {op : PosOp} (hd : op.descriptor = some (cur, fd)) :
    (w.exec op).sys = (w.store cur fd (w.target op)).sys := by
  cases op with
  | read c f count copied =>
    cases hd
    rfl
  | write c f count room stored =>
    cases hd
    simp only [exec, target]
    cases w.writePos cur fd count room stored <;> rfl
  | lseek c f offset whence =>
    cases hd
    rfl
  | call c call => cases hd
  | file p f => cases hd

end Positions

namespace PosTrace

variable {r fd : ℕ} {t : PosTrace} {op : PosOp}

theorem Enabled.live {cur : ℕ} (h : t.Enabled op) (hd : op.descriptor = some (cur, fd)) :
    cur < taskMax ∧ (t.w.sys.tasks.task cur).live = true := by
  cases op with
  | read c f count copied => cases hd; exact h
  | write c f count room stored => cases hd; exact h
  | lseek c f offset whence => cases hd; exact h
  | call c call => cases hd
  | file p f => cases hd

theorem exec_concerned_iff (h : t.OnePosition r) (hen : t.Enabled op) {cur : ℕ}
    (hd : op.descriptor = some (cur, fd)) (hfor : t.w.sys.isFor r cur fd = true) :
    (t.exec r op).OnePosition r ↔ t.Meets r op := by
  obtain ⟨hcur, hlive⟩ := hen.live hd
  obtain ⟨hv, hk, hr⟩ := Positions.isFor_iff.1 hfor
  have ha : t.w.sys.Alias r cur fd := ⟨hcur, used_of_live hlive, (fdValid_iff.1 hv).1, hk, hr⟩
  have hsys := Positions.exec_sys (w := t.w) hd
  have hconcerns : t.concerns r op = true := by
    rw [concerns, hd]
    exact hfor
  have hpos : (t.exec r op).pos = ((t.w.exec op).sys.entry cur fd).offset := by
    simp only [exec, hd, elim_some, hconcerns, if_true]
  have hseek : (t.exec r op).seekOk = true ↔
      ∀ p, t.w.target op = some p → isSeek op = true → 0 ≤ p.toInt := by
    simp only [exec, h.seek, hconcerns, Bool.true_and, Bool.and_true]
    cases t.w.target op with
    | none => simp
    | some p => cases isSeek op <;> simp
  have hmeets : t.Meets r op ↔ ∀ p, t.w.target op = some p →
      (p = (t.w.sys.entry cur fd).offset ∨ t.w.sys.Alone r cur fd) ∧ (isSeek op = true → 0 ≤ p.toInt) := by
    constructor
    · exact fun hm => hm.2 (cur, fd) hd hfor
    · refine fun hm => ⟨hen, fun d hd' _ => ?_⟩
      obtain rfl := some.inj (hd.symm.trans hd')
      exact hm
  rw [hmeets]
  cases htarget : t.w.target op with
  | none =>
    rw [htarget] at hsys hseek
    refine iff_of_true ⟨?_, hseek.2 fun p hp => by cases hp⟩ fun p hp => by cases hp
    rw [hpos]
    show (t.w.exec op).sys.AllAt r _
    rw [hsys]
    show t.w.sys.AllAt r (t.w.sys.entry cur fd).offset
    rw [h.same cur fd ha]
    exact h.same
  | some p =>
    rw [htarget] at hsys hseek
    have hafter : ((t.w.exec op).sys.entry cur fd).offset = p := by
      rw [hsys]
      show ((t.w.setPos cur fd p).sys.entry cur fd).offset = p
      rw [Positions.entry_setPos ha.bound, if_pos ⟨.inl rfl, rfl⟩]
    have hsame : (t.exec r op).w.sys.AllAt r (t.exec r op).pos ↔
        p = (t.w.sys.entry cur fd).offset ∨ t.w.sys.Alone r cur fd := by
      rw [hpos, hafter]
      show (t.w.exec op).sys.AllAt r p ↔ _
      rw [hsys]
      exact Positions.allAt_setPos_iff h.same ha p
    constructor
    · rintro ⟨hs, hk⟩ q hq
      obtain rfl := some.inj hq
      exact ⟨hsame.1 hs, hseek.1 hk p rfl⟩
    · intro hm
      refine ⟨hsame.2 (hm p rfl).1, hseek.2 fun q hq => ?_⟩
      exact (hm q hq).2

theorem exec_unconcerned (h : t.OnePosition r) {cur : ℕ} (hd : op.descriptor = some (cur, fd))
    (hfor : t.w.sys.isFor r cur fd = false) : (t.exec r op).OnePosition r := by
  have hsys := Positions.exec_sys (w := t.w) hd
  have hconcerns : t.concerns r op = false := by
    rw [concerns, hd]
    exact hfor
  have hpos : (t.exec r op).pos = t.pos := by
    simp only [exec, hd, elim_some, hconcerns, Bool.false_eq_true, if_false]
  have hseek : (t.exec r op).seekOk = true := by
    simp only [exec, h.seek, hconcerns, Bool.and_false, Bool.not_false, Bool.true_or, Bool.and_self]
  refine ⟨?_, hseek⟩
  rw [hpos]
  show (t.w.exec op).sys.AllAt r t.pos
  rw [hsys]
  cases htarget : t.w.target op with
  | none => exact h.same
  | some p =>
    have hv := Positions.valid_of_target hd htarget
    refine Positions.allAt_setPos_other h.same (fdValid_iff.1 hv).1 (fun hno => ?_) p
    rw [Positions.isFor_iff.2 ⟨hv, hno⟩] at hfor
    cases hfor

/-- **One step**: it keeps the position shared exactly when it meets the condition. -/
theorem exec_iff (h : t.OnePosition r) (hen : t.Enabled op) :
    (t.exec r op).OnePosition r ↔ t.Meets r op := by
  cases hd : op.descriptor with
  | some d =>
    obtain ⟨cur, fd⟩ := d
    cases hfor : t.w.sys.isFor r cur fd with
    | true => exact exec_concerned_iff h hen hd hfor
    | false =>
      refine iff_of_true (exec_unconcerned h hd hfor) ⟨hen, fun d hd' hfor' => ?_⟩
      obtain rfl := some.inj (hd.symm.trans hd')
      rw [hfor] at hfor'
      cases hfor'
  | none =>
    refine iff_of_true ?_ ⟨hen, fun d hd' => by rw [hd] at hd'; cases hd'⟩
    cases op with
    | call cur c =>
      obtain ⟨hcur, hlive, hc⟩ := hen
      have hu := used_of_live hlive
      have hevery := every_copies (Positions.flagFree_atPos r t.pos) ((Positions.allAt_iff hcur hu).1
          h.same) hc
      refine ⟨(Positions.allAt_iff hevery.small hevery.used).2 hevery, ?_⟩
      simp only [exec, h.seek, isSeek, Bool.false_and, Bool.not_false, Bool.true_or, Bool.and_self]
    | file p f =>
      refine ⟨h.same, ?_⟩
      simp only [exec, h.seek, isSeek, Bool.false_and, Bool.not_false, Bool.true_or, Bool.and_self]
    | read c f count copied => cases hd
    | write c f count room stored => cases hd
    | lseek c f offset whence => cases hd

end PosTrace

/-! ### Runs -/

theorem allAt_openSlot {s : Sys} {r cur : ℕ} (hcur : cur < taskMax) (hu : (s.tasks.task cur).used = true)
    (h : s.AllAt r 0) (path : OpenPath) (fl : BitVec 16) : (s.openSlot cur .vfsfile path fl).2.AllAt r 0 := by
  have hevery : ∀ o : Objects, Tasks.Every (Positions.AtPos r 0) cur (s.setObjs o).tasks := fun _ =>
    (Positions.allAt_iff hcur hu).1 h
  unfold Sys.openSlot
  generalize s.objs.c3VfsOpenSlotAlloc path = a
  obtain ⟨slot, objs⟩ := a
  cases slot with
  | none => exact h
  | some slot =>
    have hafter : Tasks.Every (Positions.AtPos r 0) cur
        (Sys.handOut id ((s.setObjs objs).allocFd cur .vfsfile slot fl)).2.tasks := by
      unfold Sys.allocFd Tasks.c3FdAllocForTask
      cases (s.setObjs objs).tasks.freeFd cur 0 with
      | none => exact hevery objs
      | some fd => exact (hevery objs).install fun _ _ _ => rfl
    exact (Positions.allAt_iff hafter.small hafter.used).2 hafter

/-- **Duplicated descriptors share one position** in every state of every run, from an open file whose
descriptors have one position, whose calls meet the condition; and a further call keeps that exactly when it
meets the condition. -/
theorem file_position_shared (w : Positions) (r : ℕ) (pos : BitVec 64) (hopen : w.sys.AllAt r pos)
    {t : PosTrace} (hrun : Runs (PosTrace.Meets r) (PosTrace.exec r) ⟨w, pos, true⟩ t) :
    t.OnePosition r ∧ ∀ op, t.Enabled op → ((t.exec r op).OnePosition r ↔ t.Meets r op) := by
  have hone : t.OnePosition r :=
    Runs.invariant (P := fun t => t.OnePosition r) (fun _ _ h hop => (PosTrace.exec_iff h hop.1).2 hop) hrun
      ⟨hopen, rfl⟩
  exact ⟨hone, fun _ hen => PosTrace.exec_iff hone hen⟩

/-- The kernel task has opened a file of three bytes, and its descriptor 3 is at the start. -/
def openedOnce : Positions where
  sys := (Sys.init.openSlot 0 .vfsfile .named fdflReadable).2
  path := fun _ => []
  file := fun _ => .plain 3

theorem openedOnce_start : openedOnce.sys.AllAt 0 0 := by
  refine allAt_openSlot (by decide) rfl (fun i fd ha => ?_) _ _
  -- the descriptors of the kernel task are terminals
  have hkind := ha.kind
  by_cases hi : i = 0
  · subst hi
    simp only [Sys.entry, Sys.init, Tasks.init, Function.update_self] at hkind
    split_ifs at hkind
    cases hkind
  · have hunused : Sys.init.tasks.task i = Task.unused := by
      show Function.update (fun _ => Task.unused) 0 _ i = Task.unused
      rw [Function.update_of_ne hi]
    have hu := ha.used
    rw [hunused] at hu
    cases hu

/-- Descriptor 3 is duplicated, and the copy asks for its position. -/
theorem file_position_shared_sample :
    let t := (PosTrace.mk openedOnce 0 true).exec 0 (.call 0 (.dup 3))
    (t.exec 0 (.lseek 0 4 0 .cur)).OnePosition 0 := by
  intro t
  have hdup : (PosTrace.mk openedOnce 0 true).Meets 0 (.call 0 (.dup 3)) :=
    ⟨⟨by decide, by decide, rfl⟩, fun d hd => by cases hd⟩
  have hseek : t.Meets 0 (.lseek 0 4 0 .cur) := by
    have hzero : t.w.target (.lseek 0 4 0 .cur) = some 0 := by decide +kernel
    have hoffset : (t.w.sys.entry 0 4).offset = 0 := by decide +kernel
    refine ⟨⟨by decide, by decide +kernel⟩, fun d hd _ p hp => ?_⟩
    cases hd
    obtain rfl := some.inj (hzero.symm.trans hp)
    exact ⟨.inl hoffset.symm, fun _ => by decide⟩
  exact (file_position_shared openedOnce 0 0 openedOnce_start
    (((Runs.refl _).tail _ hdup).tail _ hseek)).1

/-- A seek through descriptor 3 leaves its copy behind. -/
theorem file_position_not_shared : ¬ ∀ (w : Positions) (r : ℕ) (pos : BitVec 64), w.sys.AllAt r pos →
    ∀ t, Runs PosTrace.Enabled (PosTrace.exec r) ⟨w, pos, true⟩ t → t.OnePosition r := by
  intro hall
  have hdup : (PosTrace.mk openedOnce 0 true).Enabled (.call 0 (.dup 3)) := ⟨by decide, by decide, rfl⟩
  have hseek : ((PosTrace.mk openedOnce 0 true).exec 0 (.call 0 (.dup 3))).Enabled (.lseek 0 3 2 .set) :=
    ⟨by decide, by decide +kernel⟩
  have hone := hall openedOnce 0 0 openedOnce_start _ (((Runs.refl _).tail _ hdup).tail _ hseek)
  have hold := hone.same 0 4 ⟨by decide, by decide +kernel, by decide, by decide +kernel, by decide +kernel⟩
  revert hold
  decide +kernel

end Ridux
