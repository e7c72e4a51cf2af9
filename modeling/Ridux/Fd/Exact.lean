import Ridux.Fd.Rights

/-!
# Objects live exactly as long as their references

* `CallTidy`, `World.Tidy`: the condition on one operation;
* `call_life`, `World.life_exec`: one operation keeps the invariant;
* `fdObjects_exact`: in every run whose steps satisfy the condition, an object is allocated exactly
  while something refers to it.
-/

namespace Ridux

open Lib Tasks Function

/-- Is the descriptor closed by `exec`? -/
def closesOnExec (e : Fd) : Bool := e.kind != .none && e.flags &&& fdflCloexec != 0

/-- What a call must find so that it frees what it should and leaves nothing behind. -/
def CallTidy (s : Sys) (table : ℕ → ℕ) (cur : ℕ) : Sys.Syscall → Prop
  | .open flags target => OpenTidy s cur flags target
  | .memfdCreate _ => (s.objs.c3VfsOpenSlotAlloc .named).1.isSome = true ∧ FdRoom s cur
  | .dup2 oldfd newfd => Dups s cur oldfd newfd → s.QuietClose table cur (· = newfd)
  | .dup3 oldfd newfd flags => hasMode flags (~~~oCloexec) = false →
    Dups s cur oldfd newfd → s.QuietClose table cur (· = newfd)
  | .pipe => PipeTwo s cur
  | .pipe2 flags => hasMode flags (~~~(oNonblock ||| oCloexec)) = false → PipeTwo s cur
  | .close fd => s.QuietClose table cur (· = fd)
  | .exec => s.QuietClose table cur fun fd => closesOnExec (s.entry cur fd) = true
  | .recvRight sockFd _ => RightRoom s cur sockFd
  | _ => True

/-! ### Calls -/

section

variable {s : Sys} {table : ℕ → ℕ} {cur : ℕ}

theorem realSysClose_life (h : Life s) (hh : Held s.tasks table cur) (fd : ℕ)
    (hq : s.QuietClose table cur (· = fd)) : Life (s.realSysClose cur fd).2 := by
  rw [Sys.realSysClose]
  rcases hh.grouped.close_tasks fd with ⟨-, -, hfd, hk, -⟩ | ⟨hno, -⟩
  · exact (h.close hh hq rfl hfd hk).1
  · rw [hno]
    exact h

theorem exec_life (h : Life s) (hh : Held s.tasks table cur)
    (hq : s.QuietClose table cur fun fd => closesOnExec (s.entry cur fd) = true) :
    Life (s.c3ExecCloseCloexecFds cur) := by
  refine Life.closeWhere (p := closesOnExec) (fun e he => ?_) _ (fun i hi => mem_slots.1 hi) h hh hq
  rw [closesOnExec, Bool.and_eq_true, bne_iff_ne] at he
  exact he.1

theorem call_life (h : Life s) (hh : Held s.tasks table cur) (c : Sys.Syscall) (hfork : c ≠ .fork)
    (hclone : ∀ flags st ok, c ≠ .clone flags st ok) (hroom : CallRoom s cur c)
    (htidy : CallTidy s table cur c) : Life (s.call cur c).2 := by
  cases c with
  | fork => exact absurd rfl hfork
  | clone flags st ok => exact absurd rfl (hclone flags st ok)
  | «open» flags target =>
    refine realSysOpen_life h hh flags target htidy fun generated ht => ?_
    subst ht
    exact hroom
  | memfdCreate cloexec => exact memfdCreate_life h hh cloexec htidy.2 htidy.1
  | dup oldfd => exact c3DupFdMin_life h hh oldfd 0 false
  | dup2 oldfd newfd => exact realSysDup2_life h hh oldfd newfd htidy
  | dup3 oldfd newfd flags => exact realSysDup3_life h hh oldfd newfd flags htidy
  | fcntl fd cmd => exact realSysFcntl_life h hh fd cmd
  | pipe => exact realSysPipe_life h hh htidy
  | pipe2 flags => exact realSysPipe2_life h hh flags htidy
  | socket domain type => exact realSysSocket_life h hh domain type
  | socketpair domain type => exact realSysSocketpair_life h hh domain type
  | eventfd2 flags =>
    show Life (s.realSysEventfd2 cur flags).2
    rw [Sys.realSysEventfd2]
    split_ifs
    · exact h
    · exact createPooled_life h hh .eventfd _ _
  | epollCreate1 flags =>
    show Life (s.realSysEpollCreate1 cur flags).2
    rw [Sys.realSysEpollCreate1]
    split_ifs
    · exact h
    · exact createPooled_life h hh .epoll _ _
  | timerfdCreate flags =>
    show Life (s.realSysTimerfdCreate cur flags).2
    rw [Sys.realSysTimerfdCreate]
    split_ifs
    · exact h
    · exact createPooled_life h hh .timerfd _ _
  | inotifyInit1 flags =>
    show Life (s.realSysInotifyInit1 cur flags).2
    rw [Sys.realSysInotifyInit1]
    split_ifs
    · exact h
    · exact createPooled_life h hh .inotify _ _
  | close fd => exact realSysClose_life h hh fd htidy
  | exec =>
    rw [Sys.call]
    dsimp only
    exact exec_life h hh htidy
  | sendRight sockFd passFd => exact sendRight_life h hh sockFd passFd
  | recvRight sockFd cloexec => exact recvRight_life h hh sockFd cloexec htidy

end

/-! ### Tasks that come and go -/

namespace Tasks

variable {ts : Tasks} {i : ℕ} {t : Task} {k : FdKind} {r : ℕ}

/-- The task holds no descriptor. -/
def HoldsNothing (t : Task) : Prop := t.used = true → ∀ fd < taskFdMax, (t.fds fd).kind = .none

theorem held_setTask
    (hold : ∀ fd < taskFdMax, (ts.task i).used = true → ts.holds k r i fd = true →
      (ts.setTask i t).held k r)
    (hnew : ∀ fd < taskFdMax, t.used = true → (t.fds fd).kind = k → (t.fds fd).ref = r →
      ts.held k r) : (ts.setTask i t).held k r ↔ ts.held k r := by
  constructor
  · rintro ⟨j, fd, hu, hfd, hh⟩
    by_cases hj : j = i
    · subst hj
      rw [holds_iff, setTask_self] at hh
      rw [setTask_self] at hu
      exact hnew fd hfd hu hh.1 hh.2
    · rw [holds_iff, setTask_other t hj] at hh
      rw [setTask_other t hj] at hu
      exact ⟨j, fd, hu, hfd, holds_iff.2 hh⟩
  · rintro ⟨j, fd, hu, hfd, hh⟩
    by_cases hj : j = i
    · subst hj
      exact hold fd hfd hu hh
    · refine ⟨j, fd, ?_, hfd, ?_⟩
      · rw [setTask_other t hj]
        exact hu
      · rw [holds_iff, setTask_other t hj]
        exact holds_iff.1 hh

theorem held_setTask_nothing (hk : k ≠ .none) (hold : HoldsNothing (ts.task i))
    (hnew : HoldsNothing t) : (ts.setTask i t).held k r ↔ ts.held k r := by
  refine held_setTask (fun fd hfd hu hh => ?_) fun fd hfd hu hkind _ => ?_
  · exact absurd ((holds_iff.1 hh).1.symm.trans (hold hu fd hfd)) hk
  · exact absurd (hkind.symm.trans (hnew hu fd hfd)) hk

theorem held_setTask_state (hu : t.used = (ts.task i).used)
    (hf : t.fds = (ts.task i).fds) : (ts.setTask i t).held k r ↔ ts.held k r := by
  refine held_setTask (fun fd hfd hused hh => ?_) fun fd hfd hused hkind href => ?_
  · refine ⟨i, fd, by rw [setTask_self, hu]; exact hused, hfd, ?_⟩
    rw [holds_iff, setTask_self, hf]
    exact holds_iff.1 hh
  · rw [hf] at hkind href
    exact ⟨i, fd, hu ▸ hused, hfd, holds_iff.2 ⟨hkind, href⟩⟩

end Tasks

section

variable {s : Sys} {table : ℕ → ℕ} {i : ℕ}

theorem Sys.QuietClose.setState {F : ℕ → Prop} (hu : (s.tasks.task i).used = true) (st : TaskState)
    (hq : s.QuietClose table i F) : (s.setState i st true).QuietClose table i F := by
  have hused : ∀ j, ((s.setState i st true).tasks.task j).used = (s.tasks.task j).used := by
    intro j
    by_cases hj : j = i
    · rw [hj, Sys.setState, setTask_self, hu]
    · rw [Sys.setState, setTask_other _ hj]
  have hfds : ∀ j, ((s.setState i st true).tasks.task j).fds = (s.tasks.task j).fds := by
    intro j
    by_cases hj : j = i
    · rw [hj, Sys.setState, setTask_self]
    · rw [Sys.setState, setTask_other _ hj]
  have hentry : ∀ fd, (s.setState i st true).entry i fd = s.entry i fd := by
    intro fd
    rw [Sys.entry, hfds, Sys.entry]
  have hkeeps : (s.setState i st true).keeps table i F = s.keeps table i F := by
    funext k r
    simp only [Sys.keeps, hused, Tasks.holds, hfds]
  have hqueued : (s.setState i st true).queued = s.queued := rfl
  intro fd hfd hF hobj hkeep
  rw [hentry] at hobj hkeep ⊢
  rw [hkeeps] at hkeep
  obtain ⟨h1, h2, h3⟩ := hq fd hfd hF hobj hkeep
  refine ⟨h1, h2, fun hfile hnq => ?_⟩
  have hquiet := h3 hfile hnq
  simp only [Sys.QuietFile, Sys.slotStays] at hquiet ⊢
  rw [hkeeps]
  exact hquiet

theorem held_zombie (h : Coherent s.tasks table) (hl : (s.tasks.task i).live = true)
    (halone : s.tasks.c3FdGroupHasLivePeer i = false) :
    Held (s.setState i .zombie true).tasks table i := by
  have hself : (s.setState i .zombie true).tasks.task i =
      { s.tasks.task i with state := .zombie, used := true } := by
    rw [Sys.setState, setTask_self]
  have hother : ∀ j, j ≠ i → (s.setState i .zombie true).tasks.task j = s.tasks.task j := by
    intro j hj
    rw [Sys.setState, setTask_other _ hj]
  have hdead : ((s.setState i .zombie true).tasks.task i).live = false := by
    rw [hself]
    simp [Task.live]
  have hne : ∀ j, ((s.setState i .zombie true).tasks.task j).live = true → j ≠ i := by
    rintro j hj rfl
    rw [hdead] at hj
    cases hj
  -- nobody else has the table
  have hapart : ∀ j, ((s.setState i .zombie true).tasks.task j).live = true →
      table j ≠ table i := by
    intro j hj ht
    have hji := hne j hj
    rw [hother j hji] at hj
    have hpeer := Tasks.groupPeer_iff.2 ⟨hji, hj, (h.sameGroup_iff hj hl).2 ht⟩
    have hnone : firstSlot (s.tasks.groupPeer i) taskMax = none := by
      simpa [c3FdGroupHasLivePeer] using halone
    rw [firstSlot_eq_none hnone j (h.small j (used_of_live hj))] at hpeer
    cases hpeer
  refine ⟨fun j hu => ?_, by rw [hself], fun j k hj hk => ?_, fun j hj ht => ?_,
    fun _ => hapart, fun j hu hd hji fd hfd => ?_⟩
  · by_cases hj : j = i
    · rw [hj]
      exact h.small i (used_of_live hl)
    · rw [hother j hj] at hu
      exact h.small j hu
  · have hji := hne j hj
    rw [hother j hji] at hj ⊢
    have hkl : (s.tasks.task k).live = true := by
      rcases hk with hk | rfl
      · rwa [hother k (hne k hk)] at hk
      · exact hl
    have hgroup : ∀ u, c3FdSameGroup u ((s.setState i .zombie true).tasks.task k) =
        c3FdSameGroup u (s.tasks.task k) := by
      intro u
      by_cases hki : k = i
      · rw [hki, hself]
        rfl
      · rw [hother k hki]
    rw [hgroup]
    exact h.sameGroup_iff hj hkl
  · exact absurd ht (hapart j hj)
  · rw [hother j hji] at hu hd ⊢
    exact h.dead j hu hd fd hfd

theorem hasLivePeer_zombie :
    (s.setState i .zombie true).tasks.c3FdGroupHasLivePeer i = s.tasks.c3FdGroupHasLivePeer i := by
  have hpeer : (s.setState i .zombie true).tasks.groupPeer i = s.tasks.groupPeer i := by
    funext j
    by_cases hj : j = i
    · simp [groupPeer, hj]
    · rw [groupPeer, groupPeer, Sys.setState, setTask_other _ hj, setTask_self]
      rfl
  rw [c3FdGroupHasLivePeer, c3FdGroupHasLivePeer, hpeer]

theorem closeAllFds_life (h : Life s) (hc : Coherent s.tasks table)
    (hl : (s.tasks.task i).live = true) (hq : s.tasks.c3FdGroupHasLivePeer i = false →
      s.QuietClose table i fun fd => ((s.entry i fd).kind != .none) = true) :
    Life ((s.setState i .zombie true).compat3TaskCloseAllFds i) := by
  have hu := used_of_live hl
  have hzombie : Life (s.setState i .zombie true) :=
    h.arrays rfl rfl fun k r _ => held_setTask_state hu.symm rfl
  rw [Sys.compat3TaskCloseAllFds, hasLivePeer_zombie]
  by_cases hpeer : s.tasks.c3FdGroupHasLivePeer i = true
  · -- a peer still holds every descriptor
    rw [if_pos hpeer]
    rw [c3FdGroupHasLivePeer] at hpeer
    obtain ⟨j, hj⟩ := Option.isSome_iff_exists.1 hpeer
    obtain ⟨-, hgp⟩ := firstSlot_eq_some hj
    obtain ⟨hji, hjl, hsame⟩ := Tasks.groupPeer_iff.1 hgp
    have hfds := hc.agree j i hjl hl ((hc.sameGroup_iff hjl hl).1 hsame)
    refine hzombie.arrays rfl rfl fun k r hk => held_setTask (fun fd hfd _ hh => ?_) ?_
    · refine ⟨j, fd, ?_, hfd, ?_⟩
      · rw [setTask_other _ hji, Sys.setState, setTask_other _ hji]
        exact used_of_live hjl
      · rw [holds_iff, Sys.setState, setTask_self] at hh
        rw [holds_iff, setTask_other _ hji, Sys.setState, setTask_other _ hji, hfds]
        exact hh
    · intro fd hfd _ hkind _
      dsimp only at hkind
      rw [if_pos hfd] at hkind
      exact absurd hkind.symm hk
  · rw [if_neg hpeer]
    have halone : s.tasks.c3FdGroupHasLivePeer i = false := by simpa using hpeer
    have hq' := (hq halone).setState hu .zombie
    refine Life.closeWhere (p := fun e => e.kind != .none) (fun e he => by simpa using he) _
      (fun fd hfd => mem_slots.1 hfd) hzombie (held_zombie hc hl halone) ?_
    have hentry : ∀ fd, (s.setState i .zombie true).entry i fd = s.entry i fd := by
      intro fd
      rw [Sys.entry, Sys.setState, setTask_self, Sys.entry]
    simp only [hentry]
    exact hq'

theorem taskExit_life (h : Life s) (hc : Coherent s.tasks table)
    (hl : (s.tasks.task i).live = true) (hq : s.tasks.c3FdGroupHasLivePeer i = false →
      s.QuietClose table i fun fd => ((s.entry i fd).kind != .none) = true) :
    Life (s.taskExit i) := by
  have hclosed := closeAllFds_life h hc hl hq
  obtain ⟨g, hnone, ht⟩ := closeAllFds_tasks hc hl
  rw [Sys.taskExit]
  split_ifs
  · refine hclosed.arrays rfl rfl fun k r hk => held_setTask_nothing hk ?_ ?_
    · rw [ht, setTask_self]
      exact fun _ => hnone
    · intro hu
      cases hu
  · exact hclosed

theorem reap_life (h : Life s) (hc : Coherent s.tasks table) (hu : (s.tasks.task i).used = true)
    (hz : (s.tasks.task i).state = .zombie) : Life (s.reap i) := by
  have hd : (s.tasks.task i).live = false := by simp [Task.live, hz]
  refine h.arrays rfl rfl fun k r hk => held_setTask_nothing hk (fun _ => hc.dead i hu hd) ?_
  intro hu'
  cases hu'

theorem held_addTask {ts : Tasks} {cur T : ℕ} {t : Task} {k : FdKind} {r : ℕ}
    (hcur : (ts.task cur).live = true) (hfree : ts.freeTask = some i)
    (hnew : NewTask ts table T t) (hfds : t.live = true → t.fds = (ts.task cur).fds)
    (hk : k ≠ .none) : (ts.addTask i t).held k r ↔ ts.held k r := by
  have hunused := (freeTask_eq_some hfree).2
  refine held_setTask (t := t) (fun fd _ hu _ => ?_) fun fd hfd hu hkind href => ?_
  · rw [hunused] at hu
    cases hu
  · by_cases hl : t.live = true
    · rw [hfds hl] at hkind href
      exact ⟨cur, fd, used_of_live hcur, hfd, holds_iff.2 ⟨hkind, href⟩⟩
    · exact absurd (hkind.symm.trans (hnew.dead (by simpa using hl) fd hfd)) hk

end

/-! ### Runs -/

namespace World

variable {w : World} {op : Sys.Op}

/-- The condition on one operation. -/
def Tidy (w : World) (op : Sys.Op) : Prop :=
  w.Meets op ∧
    match op with
    | .call cur c => CallTidy w.sys w.table cur c
    | .exit i => w.sys.tasks.c3FdGroupHasLivePeer i = false →
      w.sys.QuietClose w.table i fun fd => ((w.sys.entry i fd).kind != .none) = true
    | _ => True

theorem life_birth {cur : ℕ} {w' : World} (h : Life w.sys) (hcur : w.live cur)
    (hbirth : Birth w cur w') (ho : w'.sys.objs = w.sys.objs) (hr : w'.sys.rights = w.sys.rights) :
    Life w'.sys := by
  refine h.arrays ho hr fun k r hk => ?_
  cases hbirth with
  | child i T t hfree htasks htable hnew hfds =>
    rw [htasks]
    exact held_addTask hcur hfree hnew (fun hl => (hfds hl).1) hk
  | same htasks htable => rw [htasks]

theorem taskOutcome_frame (s : Sys) (p : Option ℕ × Tasks) :
    (s.taskOutcome p).2.objs = s.objs ∧ (s.taskOutcome p).2.rights = s.rights := by
  rcases p with ⟨_ | _, ts⟩
  · exact ⟨rfl, rfl⟩
  · exact ⟨rfl, rfl⟩

/-- **One operation** keeps the invariant. -/
theorem life_exec (h : Life w.sys) (hc : Coherent w.sys.tasks w.table) (hop : w.Tidy op) :
    Life (w.exec op).sys := by
  obtain ⟨⟨hen, hmeets⟩, htidy⟩ := hop
  cases op with
  | call cur c =>
    have hcur : w.live cur := hen.2
    have hcall : c ≠ .fork → (∀ flags st ok, c ≠ .clone flags st ok) → CallRoom w.sys cur c →
        Life (w.exec (.call cur c)).sys := by
      intro hfork hclone hroom
      exact call_life h (hc.held hcur) c hfork hclone hroom htidy
    cases c with
    | fork =>
      obtain ⟨ho, hr⟩ := taskOutcome_frame w.sys (w.sys.tasks.realSysFork cur)
      exact life_birth h hcur (birth_fork hc hcur) ho hr
    | clone flags st ok =>
      obtain ⟨ho, hr⟩ := taskOutcome_frame w.sys (w.sys.tasks.realSysClone cur flags st ok)
      exact life_birth h hcur (birth_clone hc hcur hmeets) ho hr
    | _ => exact hcall (by simp) (by simp) hmeets
  | exit i => exact taskExit_life h hc hen.2 htidy
  | reap i => exact reap_life h hc hen.2.1 hen.2.2
  | stream i rxHead rxTail =>
    have hsame : Objects.Same w.sys.objs (w.sys.objs.setSock i
        { w.sys.objs.sock i with rxHead := rxHead, rxTail := rxTail }) := by
      refine ⟨rfl, fun j => ?_, rfl, rfl, rfl, rfl, rfl⟩
      show (update w.sys.objs.sock i _ j).used = _
      by_cases hj : j = i
      · rw [hj, update_self]
      · rw [update_of_ne hj]
    exact h.still hsame.alive (hsame.store h.store) (Objects.waits_setSock_of_eq rfl) rfl
      fun _ _ _ => Iff.rfl
  | mapping n b =>
    have hsame : Objects.Same w.sys.objs { w.sys.objs with
        mapped := update w.sys.objs.mapped n b } :=
      ⟨rfl, fun _ => rfl, rfl, rfl, rfl, rfl, rfl⟩
    exact h.still hsame.alive (hsame.store h.store) rfl rfl fun _ _ _ => Iff.rfl

theorem life_init : Life World.init.sys := by
  have hwaits : ∀ j, World.init.sys.objs.waits j = [] := fun j => rfl
  have hqueued : ∀ k r, ¬ World.init.sys.queued k r := by
    rintro k r ⟨j, t, pos, e, hm, -⟩
    rw [hwaits] at hm
    cases hm
  have hrefs : ∀ k r o, k.object r = some o → ¬ World.init.sys.refs k r := by
    rintro k r o hk (⟨i, fd, hu, -, hh⟩ | hq)
    · obtain ⟨rfl, rfl⟩ := holds_iff.1 hh
      by_cases hi : i = 0
      · subst hi
        have hfds : ((World.init.sys.tasks.task 0).fds fd).kind = .devtty ∨
            ((World.init.sys.tasks.task 0).fds fd).kind = .none := by
          have hinit : (World.init.sys.tasks.task 0).fds fd =
              if fd = 0 then ⟨.devtty, 0, fdflReadable, 0⟩
              else if fd = 1 ∨ fd = 2 then ⟨.devtty, 0, fdflWritable, 0⟩
              else .empty := rfl
          rw [hinit]
          split_ifs
          · exact .inl rfl
          · exact .inl rfl
          · exact .inr rfl
        rcases hfds with hf | hf
        · rw [hf] at hk
          cases hk
        · rw [hf] at hk
          cases hk
      · have hunused : World.init.sys.tasks.task i = Task.unused := by
          show update (fun _ => Task.unused) 0 _ i = Task.unused
          rw [update_of_ne hi]
        rw [hunused] at hu
        cases hu
    · exact hqueued k r hq
  have hdead : ∀ o, ¬ World.init.sys.objs.alive o := by
    intro o ho
    cases o with
    | pipeR i => cases ho.1
    | pipeW i => cases ho.1
    | socket i => cases ho
    | pooled p i => cases ho
    | file i => exact ho rfl
  refine ⟨fun o => ⟨fun ho => absurd ho (hdead o), ?_⟩, ?_, ?_, ?_⟩
  · rintro ⟨k, r, hk, hr⟩
    exact absurd hr (hrefs k r o hk)
  · intro k k' r hk _ hr _
    exact absurd hr (hrefs k r _ (isFile_iff.1 hk))
  · constructor
    · intro o ho
      exact absurd ho (hdead o)
    · intro i hu
      cases hu
    · intro p _
      constructor
      · intro hp
        cases hp
      · rintro ⟨i, hi⟩
        cases hi
    · intro n hn
      cases hn
    · intro n hn
      cases hn
  · constructor
    · intro t e he
      cases he
    · intro j t pos hm
      rw [hwaits] at hm
      cases hm
    · intro j
      rw [hwaits]
      exact List.nodup_nil
    · intro i j t p q hm
      rw [hwaits] at hm
      cases hm

theorem life_run (h : Runs Tidy exec init w) : Life w.sys ∧ Coherent w.sys.tasks w.table := by
  refine Runs.invariant (P := fun w => Life w.sys ∧ Coherent w.sys.tasks w.table) ?_ h
    ⟨life_init, coherent_init⟩
  rintro w op ⟨hl, hc⟩ hop
  exact ⟨life_exec hl hc hop, (change hc hop.1).coherent hc⟩

end World

/-- **Objects live exactly as long as their references** in every run whose steps meet the
condition. -/
theorem fdObjects_exact {w : World} (hrun : Runs World.Tidy World.exec World.init w) :
    ExactLifetime w.sys := (World.life_run hrun).1.exact

/-- An eventfd is made and shared with a new process, and the first process closes it. -/
theorem fdObjects_exact_sample : ExactLifetime
    (((World.init.exec (.call 0 (.eventfd2 0))).exec (.call 0 .fork)).exec
      (.call 0 (.close 3))).sys := by
  have h0 : World.Tidy .init (.call 0 (.eventfd2 0)) := ⟨⟨by decide, trivial⟩, trivial⟩
  have h1 : World.Tidy (World.init.exec (.call 0 (.eventfd2 0))) (.call 0 .fork) :=
    ⟨⟨by decide, trivial⟩, trivial⟩
  have h2 : World.Tidy ((World.init.exec (.call 0 (.eventfd2 0))).exec (.call 0 .fork))
      (.call 0 (.close 3)) := by
    refine ⟨⟨by decide, trivial⟩, ?_⟩
    rintro fd - rfl - hkeep
    -- the new process keeps the eventfd
    exact absurd ⟨1, 3, by decide, by decide, by decide, fun hno => absurd hno.1 (by decide)⟩ hkeep
  exact fdObjects_exact ((((Runs.refl _).tail _ h0).tail _ h1).tail _ h2)

/-! ### A memfd is never freed -/

theorem closeEntry_memfd (s : Sys) (cur fd : ℕ) (e : Fd) (last : Bool) (n : ℕ) :
    (s.closeEntry cur fd e last).objs.anon (.memfd n) = s.objs.anon (.memfd n) ∧
      (s.closeEntry cur fd e last).rights = s.rights := by
  have hfree : ∀ t : Sys, (t.c3VfsOpenSlotTryFree e.ref).objs.anon (.memfd n) =
      t.objs.anon (.memfd n) ∧ (t.c3VfsOpenSlotTryFree e.ref).rights = t.rights := by
    intro t
    rw [Sys.c3VfsOpenSlotTryFree]
    split_ifs
    · exact ⟨rfl, rfl⟩
    · exact ⟨rfl, rfl⟩
    · split
      · split_ifs
        · exact ⟨rfl, rfl⟩
        · rename_i m _ _
          have hne : OpenPath.memfd n ≠ .deleted m := by simp
          exact ⟨update_of_ne hne false t.objs.anon, rfl⟩
      · exact ⟨rfl, rfl⟩
  have hdestroy : ∀ o : Objects, (o.destroy e.kind e.ref).anon = o.anon := by
    intro o
    cases e.kind <;> simp only [Objects.destroy, Objects.poolFree, Objects.pipeCloseRead,
      Objects.pipeCloseWrite, Objects.sockClose] <;> split_ifs <;>
      first | rfl | exact (Objects.detachPeer_same _).1.anon
  rw [Sys.closeEntry]
  by_cases hlast : (last && e.kind.isFile) = true
  · rw [if_pos hlast]
    refine ⟨(hfree _).1.trans ?_, (hfree _).2⟩
    cases last
    · rfl
    · exact congrFun (hdestroy s.objs) _
  · rw [if_neg hlast]
    refine ⟨?_, rfl⟩
    cases last
    · rfl
    · exact congrFun (hdestroy s.objs) _

theorem close_memfd (s : Sys) (cur fd n : ℕ) :
    (s.c3CloseFdForTask cur fd).2.objs.anon (.memfd n) = s.objs.anon (.memfd n) ∧
      (s.c3CloseFdForTask cur fd).2.rights = s.rights := by
  rw [Sys.c3CloseFdForTask, Sys.closeSynced]
  split_ifs
  · exact closeEntry_memfd (s.syncFd cur fd) cur fd _ _ n
  · exact ⟨rfl, rfl⟩

/-- A task that has made a memfd. -/
def memfdMade : World := World.init.exec (.call 0 (.memfdCreate false))

theorem memfdMade_sys : memfdMade.sys =
    (World.init.sys.setObjs (World.init.sys.objs.newMemfd.setOpened 0 (some (.memfd 1)))).setTable 0
      (update (World.init.sys.tasks.task 0).fds 3
        ⟨.vfsfile, 0, fdflReadable ||| fdflWritable ||| Sys.flIf false fdflCloexec, 0⟩) := by
  have hlive : (World.init.sys.tasks.task 0).live = true := by decide
  have hg : Grouped ((World.init.sys.setObjs World.init.sys.objs.newMemfd).setObjs
      (World.init.sys.objs.newMemfd.setOpened 0 (some (.memfd 1)))).tasks 0
      (World.init.sys.tasks.task 0).fds := coherent_init.grouped hlive
  have hfree : firstFree (World.init.sys.tasks.task 0).fds 0 = some 3 := by decide
  show ((World.init.sys.setObjs World.init.sys.objs.newMemfd).openSlot 0 .vfsfile (.memfd 1)
    (fdflReadable ||| fdflWritable ||| Sys.flIf false fdflCloexec)).2 = _
  have hslot : (World.init.sys.setObjs World.init.sys.objs.newMemfd).objs.c3VfsOpenSlotAlloc
      (.memfd 1) = (some 0, World.init.sys.objs.newMemfd.setOpened 0 (some (.memfd 1))) := rfl
  rw [Sys.openSlot, hslot]
  dsimp only
  rw [hg.allocFd_some hfree]
  rfl

/-- The file of a memfd is still there when its only descriptor has been closed. -/
theorem fdObjects_not_exact :
    ¬ ∀ w, Runs World.enabled World.exec World.init w → ExactLifetime w.sys := by
  intro hall
  have h0 : World.enabled .init (.call 0 (.memfdCreate false)) := by decide
  have h1 : World.enabled memfdMade (.call 0 (.close 3)) := by decide
  have hrun : Runs World.enabled World.exec World.init (memfdMade.exec (.call 0 (.close 3))) :=
    ((Runs.refl _).tail _ h0).tail _ h1
  have hexact := hall _ hrun
  have hsys : ∀ w : World, (w.exec (.call 0 (.close 3))).sys =
      (w.sys.c3CloseFdForTask 0 3).2 := fun _ => rfl
  rw [hsys] at hexact
  obtain ⟨hanon, hrights⟩ := close_memfd memfdMade.sys 0 3 1
  have hclear : (memfdMade.sys.c3CloseFdForTask 0 3).2.tasks =
      memfdMade.sys.tasks.c3FdGroupClearFd 0 3 := Sys.close_clears (by decide)
  generalize (memfdMade.sys.c3CloseFdForTask 0 3).2 = t at *
  have hmade : memfdMade.sys.objs.anon (.memfd 1) = true := by
    rw [memfdMade_sys]
    rfl
  obtain ⟨i, -, k, r, hobj, hr⟩ := (hexact.anon (.memfd 1) (by simp)).1 (hanon.trans hmade)
  have hk := kind_ne_none_of_object hobj
  have hlive : (World.init.sys.tasks.task 0).live = true := by decide
  have hh := coherent_init.held hlive
  -- nothing refers to an object any more
  have htasks : t.tasks = World.init.sys.tasks.setTable 0
      (update (World.init.sys.tasks.task 0).fds 3 .empty) := by
    rw [hclear, memfdMade_sys]
    exact clear_new (s := World.init.sys) hh.grouped (by decide) (by simp)
  rcases hr with hheld | ⟨j, n, pos, e, -, he, -⟩
  · rw [htasks, hh.held_cleared (by decide) (by decide) hk] at hheld
    have hal := World.life_init.alive_of_refs hobj (.inl hheld)
    cases k <;> cases hobj
    all_goals exact hal rfl
  · rw [hrights, memfdMade_sys] at he
    cases he

end Ridux
