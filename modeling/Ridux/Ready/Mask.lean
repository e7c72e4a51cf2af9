import Ridux.Lib.Search
import Ridux.Ready.Sockets

/-!
# The readiness of a descriptor

What one task's descriptors stand for, and the evaluation of `c3_fd_ready_mask` with epoll instances
inside each other.

* `Io`: the descriptors and the objects behind them;
* `Io.leafMask`, `nestedMask`, `Io.readyMask`: the mask, with so many calls inside each other;
* `Io.epollWait`: `real_sys_epoll_wait` that must not wait;
* `Io.Shines`, `Io.Visits`: an item is ready, and one epoll descriptor is evaluated for another, both said of
  the registrations;
* `Io.evaluates_iff`: the evaluation ends exactly when it comes to no cycle of registrations.
-/

namespace Ridux

open Lib

/-- The descriptors of a task, and the objects they stand for.  Pipes have not counted to the end of an
`int`, the queues of listeners keep their indices in their arrays, and what waits at the network card has
been taken in. -/
structure Io where
  fds : ℕ → Fd
  pipe : ℕ → BytePipe
  inRange : ∀ i, BytePipe.InRange (pipe i).ring
  net : Net
  queues : ∀ i, (net.socks i).acceptQ.Ok
  types : ∀ i, net.live i = true → (net.socks i).type = 1 ∨ (net.socks i).type = 2
  out : Outside
  quiet : out.poll net = net
  /-- `c3_netlink_queue_*` -/
  reply : Net → ℕ → Bytes → Net
  eventfd : ℕ → Eventfd
  timerfd : ℕ → Timerfd
  inotify : ℕ → Inotify
  epollUsed : ℕ → Bool
  epoll : ℕ → EpollInstance
  counted : ∀ i, (epoll i).count ≤ epollMaxEvents
  now : BitVec 64
  signal : Bool
  /-- The masks of the devices and of processes. -/
  device : Fd → ℕ → BitVec 32

/-- The registrations, in the order of their slots. -/
def EpollInstance.listed (ep : EpollInstance) : List (ℕ × EpollEvent) :=
  (List.range ep.count).filterMap ep.items

theorem EpollInstance.mem_listed {ep : EpollInstance} {x : ℕ × EpollEvent} :
    x ∈ ep.listed ↔ ∃ i < ep.count, ep.items i = some x := by
  simp [listed]

/-- The loop of `c3_fd_ready_mask` over the items of an instance. -/
def nestedMask (mask : ℕ → Option (BitVec 32)) : List (ℕ × EpollEvent) → Option (BitVec 32)
  | [] => some 0
  | x :: rest => (mask x.1).bind fun m => if m &&& x.2.want ≠ 0 then some epollIn else nestedMask mask rest

/-- A round of `epoll_wait`, with the slots in their order. -/
def EpollInstance.tryScan (ep : EpollInstance) (mask : ℕ → Option (BitVec 32)) :
    List ℕ → ℕ → Option (List EpollReport)
  | [], _ => some []
  | _, 0 => some []
  | i :: slots, n + 1 =>
    match ep.items i with
    | none => ep.tryScan mask slots (n + 1)
    | some x =>
      (mask x.1).bind fun m =>
        match x.2.report x.1 m with
        | none => ep.tryScan mask slots (n + 1)
        | some ev => (ep.tryScan mask slots n).map (⟨i, x.1, ev⟩ :: ·)

namespace Io

variable (io : Io)

/-- `fd_valid`. -/
def valid (fd : ℕ) : Bool := decide (fd < taskFdMax) && (io.fds fd).kind != .none

/-- The mask of a descriptor that is no epoll instance in use. -/
def leafMask (fd : ℕ) : BitVec 32 :=
  let e := io.fds fd
  if !io.valid fd then maskGone
  else
    match e.kind with
    | .socket => io.net.sockMask e.ref
    | .pipeR => if e.ref < pipeMax then (io.pipe e.ref).readMask else maskGone
    | .pipeW => if e.ref < pipeMax then (io.pipe e.ref).writeMask else maskGone
    | .eventfd => if e.ref < Pool.eventfd.size then (io.eventfd e.ref).mask else maskGone
    | .timerfd => if e.ref < Pool.timerfd.size then (io.timerfd e.ref).mask io.now else maskGone
    | .inotify => if e.ref < Pool.inotify.size then (io.inotify e.ref).mask else maskGone
    | .signalfd => flag (io.signal = true) epollIn
    | .devsnd => epollOut
    | .devfuse => if e.offset = 0 then epollIn ||| epollOut else epollOut
    | .devinput | .devfb | .pidfd => io.device e fd
    | .vfsfile | .devnull | .devzero | .devrandom | .devtty | .proc | .dir => epollIn ||| epollOut
    | _ => maskGone

/-- The descriptor is that of an instance; what the descriptor says is all that `epoll_wait` asks. -/
def instanceOf (fd : ℕ) : Option EpollInstance :=
  if io.valid fd ∧ (io.fds fd).kind = .epoll ∧ (io.fds fd).ref < epollInstances then
    some (io.epoll (io.fds fd).ref)
  else none

/-- The instance of a descriptor, when it is in use. -/
def nested (fd : ℕ) : Option EpollInstance :=
  if io.epollUsed (io.fds fd).ref then io.instanceOf fd else none

/-- `c3_fd_ready_mask`, with so many calls inside each other. -/
def readyMask : ℕ → ℕ → Option (BitVec 32)
  | 0, _ => none
  | k + 1, fd =>
    match io.nested fd with
    | none => some (io.leafMask fd)
    | some ep => nestedMask (readyMask k) ep.listed

/-- `real_sys_epoll_wait` that must not wait, with so many calls inside each other. -/
def epollWait (k fd maxevents : ℕ) : Option (List EpollReport) :=
  (io.instanceOf fd).bind fun ep => ep.tryScan (io.readyMask k) ep.scanOrder maxevents

/-- The call returns a mask. -/
def Mask (fd : ℕ) (mask : BitVec 32) : Prop := ∃ k, io.readyMask k fd = some mask

/-! ### Said of the registrations -/

def kids (fd : ℕ) : Option (List (ℕ × EpollEvent)) := (io.nested fd).map EpollInstance.listed

def hit (fd : ℕ) (ev : EpollEvent) : Bool := decide (HasBit (io.leafMask fd) ev.want)

def pass (ev : EpollEvent) : Bool := decide (HasBit epollIn ev.want)

/-- What an item is registered for is there, at the end of a chain of instances. -/
def Shines (x : ℕ × EpollEvent) : Prop := Shows io.kids io.hit pass x

/-- The evaluation of one epoll descriptor goes on to another descriptor: no item before shines. -/
def Visits (fd fd' : ℕ) : Prop := Lib.Visits io.kids io.hit pass fd fd'

end Io

/-! ### The evaluation is a search -/

section Nested

variable {mask : ℕ → Option (BitVec 32)} {found : ℕ × EpollEvent → Option Bool} {xs : List (ℕ × EpollEvent)}

theorem nestedMask_eq (h : ∀ x ∈ xs, (mask x.1).map (fun m => decide (HasBit m x.2.want)) = found x) :
    nestedMask mask xs = (anyOf found xs).map fun b => if b then epollIn else 0 := by
  induction xs with
  | nil => rfl
  | cons x xs ih =>
    have hx := h x List.mem_cons_self
    have ih := ih fun y hy => h y (List.mem_cons_of_mem _ hy)
    rw [nestedMask, anyOf, ← hx]
    cases mask x.1 with
    | none => rfl
    | some m =>
      rw [Option.bind_some, Option.map_some, Option.bind_some]
      by_cases hm : HasBit m x.2.want
      · rw [if_pos (show m &&& x.2.want ≠ 0 from hm), decide_eq_true hm]
        rfl
      · rw [if_neg (show ¬ m &&& x.2.want ≠ 0 from hm), decide_eq_false hm, ih]
        rfl

theorem tryScan_eq_nil {ep : EpollInstance} {slots : List ℕ} {n : ℕ} :
    ep.tryScan mask slots (n + 1) = some [] ↔
      ∀ i ∈ slots, ∀ x, ep.items i = some x → ∃ m, mask x.1 = some m ∧ ¬ HasBit m x.2.want := by
  induction slots with
  | nil => exact iff_of_true rfl nofun
  | cons i slots ih =>
    rw [List.forall_mem_cons, ← ih, EpollInstance.tryScan]
    cases hitem : ep.items i with
    | none => simp
    | some x =>
      simp only [Option.some.injEq, forall_eq']
      cases hmask : mask x.1 with
      | none => simp
      | some m =>
        rw [Option.bind_some]
        unfold EpollEvent.report
        by_cases hm : m &&& x.2.want = 0
        · rw [if_pos hm]
          have hno : ¬ HasBit m x.2.want := not_not.2 hm
          simp [hno]
        · rw [if_neg hm]
          have hyes : HasBit m x.2.want := hm
          simp [hyes]

end Nested

namespace Io

variable {io : Io} {fd k : ℕ} {m : BitVec 32} {ep : EpollInstance} {xs : List (ℕ × EpollEvent)}

theorem readyMask_search (io : Io) (k : ℕ) (x : ℕ × EpollEvent) :
    (io.readyMask k x.1).map (fun m => decide (HasBit m x.2.want)) = search io.kids io.hit pass k x := by
  induction k generalizing x with
  | zero => rfl
  | succ k ih =>
    unfold readyMask search kids
    cases io.nested x.1 with
    | none => rfl
    | some ep =>
      dsimp only [Option.map_some]
      rw [nestedMask_eq fun y _ => ih y, Option.map_map]
      congr 1
      funext b
      cases b with
      | true => rfl
      | false => exact decide_eq_false hasBit_zero

theorem nested_mask (hep : io.nested fd = some ep) :
    io.readyMask (k + 1) fd = (anyOf (search io.kids io.hit pass k) ep.listed).map fun b =>
      if b then epollIn else 0 := by
  rw [readyMask, hep]
  exact nestedMask_eq fun y _ => readyMask_search io k y

theorem mask_leaf (hfd : io.nested fd = none) : io.Mask fd m ↔ m = io.leafMask fd := by
  constructor
  · rintro ⟨k, hk⟩
    cases k with
    | zero => cases hk
    | succ k =>
      rw [readyMask, hfd] at hk
      exact (Option.some.inj hk).symm
  · rintro rfl
    exact ⟨1, by rw [readyMask, hfd]⟩

theorem mask_nested (hep : io.nested fd = some ep) (hm : io.Mask fd m) :
    (m = epollIn ∧ ∃ x ∈ ep.listed, io.Shines x) ∨
      m = 0 ∧ ∃ k, ∀ x ∈ ep.listed, search io.kids io.hit pass k x = some false := by
  obtain ⟨k, hk⟩ := hm
  cases k with
  | zero => cases hk
  | succ k =>
    rw [nested_mask hep] at hk
    obtain ⟨b, hb, rfl⟩ := Option.map_eq_some_iff.1 hk
    cases b with
    | true =>
      obtain ⟨x, hx, hfound⟩ := anyOf_eq_true hb
      exact .inl ⟨rfl, x, hx, (search_eq_true_iff hfound).1 rfl⟩
    | false => exact .inr ⟨rfl, k, anyOf_eq_false hb⟩

theorem lt_of_kids (h : io.kids fd = some xs) : fd < taskFdMax := by
  obtain ⟨ep, hep, -⟩ := Option.map_eq_some_iff.1 h
  unfold nested instanceOf valid at hep
  split_ifs at hep with hused hinst
  simp only [Bool.and_eq_true, decide_eq_true_eq] at hinst
  exact hinst.1.1

theorem search_false_iff (io : Io) (x : ℕ × EpollEvent) :
    (∃ k, search io.kids io.hit pass k x = some false) ↔ ¬ io.Shines x ∧ ¬ LeadsToCycle io.Visits x.1 := by
  have hfinite : {i | i < taskFdMax}.Finite := Set.finite_lt_nat taskFdMax
  have hends : (∃ k b, search io.kids io.hit pass k x = some b) ↔ ¬ LeadsToCycle io.Visits x.1 :=
    search_ends_iff.trans (halts_iff hfinite (fun a xs h => lt_of_kids h) x.1)
  rw [← hends]
  constructor
  · rintro ⟨k, hk⟩
    exact ⟨fun h => absurd ((search_eq_true_iff hk).2 h) Bool.false_ne_true, k, false, hk⟩
  · rintro ⟨hdark, k, b, hk⟩
    refine ⟨k, ?_⟩
    cases b with
    | true => exact absurd ((search_eq_true_iff hk).1 rfl) hdark
    | false => exact hk

/-- **The evaluation ends** exactly when it comes to no cycle of registrations. -/
theorem evaluates_iff (io : Io) (fd : ℕ) : (∃ m, io.Mask fd m) ↔ ¬ LeadsToCycle io.Visits fd := by
  have hfinite : {i | i < taskFdMax}.Finite := Set.finite_lt_nat taskFdMax
  have hhalts : Halts io.kids io.hit pass fd ↔ ¬ LeadsToCycle (Lib.Visits io.kids io.hit pass) fd :=
    halts_iff hfinite (fun a xs h => lt_of_kids h) fd
  have hcycle : LeadsToCycle io.Visits fd ↔ LeadsToCycle (Lib.Visits io.kids io.hit pass) fd := Iff.rfl
  rw [hcycle, ← hhalts]
  unfold Halts kids
  cases hep : io.nested fd with
  | none =>
    refine iff_of_true ⟨io.leafMask fd, (mask_leaf hep).2 rfl⟩ ?_
    exact nofun
  | some ep =>
    simp only [Option.map_some, Option.some.injEq, forall_eq']
    constructor
    · rintro ⟨m, k, hk⟩
      cases k with
      | zero => cases hk
      | succ k =>
        rw [nested_mask hep] at hk
        obtain ⟨b, hb, -⟩ := Option.map_eq_some_iff.1 hk
        exact ⟨k, b, hb⟩
    · rintro ⟨k, b, hb⟩
      exact ⟨_, k + 1, by rw [nested_mask hep]; exact Option.map_eq_some_iff.2 ⟨b, hb, rfl⟩⟩

/-! ### What `epoll_wait` finds -/

theorem mem_scanOrder (hcount : ep.count ≤ epollMaxEvents) {i : ℕ} :
    i ∈ ep.scanOrder ↔ i < ep.count := by
  unfold EpollInstance.scanOrder
  rw [Nat.min_eq_left hcount]
  dsimp only
  generalize hstart : (if ep.nextScan < ep.count then ep.nextScan else 0) = start
  have hlt : ep.count ≠ 0 → start < ep.count := by
    intro hne
    rw [← hstart]
    split_ifs
    · assumption
    · omega
  rw [List.mem_map]
  constructor
  · rintro ⟨j, hj, rfl⟩
    have hpos := List.mem_range.1 hj
    exact Nat.mod_lt _ (by omega)
  · intro hi
    have hs := hlt (by omega)
    by_cases hle : start ≤ i
    · refine ⟨i - start, List.mem_range.2 (by omega), ?_⟩
      rw [Nat.add_sub_cancel' hle, Nat.mod_eq_of_lt hi]
    · refine ⟨i + ep.count - start, List.mem_range.2 (by omega), ?_⟩
      rw [show start + (i + ep.count - start) = i + ep.count by omega, Nat.add_mod_right, Nat.mod_eq_of_lt hi]

theorem search_all {b : Bool} (h : ∀ x ∈ xs, ∃ k, search io.kids io.hit pass k x = some b) :
    ∃ k, ∀ x ∈ xs, search io.kids io.hit pass k x = some b := by
  induction xs with
  | nil => exact ⟨0, nofun⟩
  | cons x xs ih =>
    obtain ⟨k, hk⟩ := h x List.mem_cons_self
    obtain ⟨l, hl⟩ := ih fun y hy => h y (List.mem_cons_of_mem _ hy)
    refine ⟨max k l, fun y hy => ?_⟩
    rcases List.mem_cons.1 hy with rfl | hy
    · exact search_mono (le_max_left k l) hk
    · exact search_mono (le_max_right k l) (hl y hy)

/-- **A wait finds nothing** exactly when no item shines. -/
theorem epollWait_nil (hep : io.instanceOf fd = some ep)
    (hcount : ep.count ≤ epollMaxEvents) (n : ℕ) :
    (∃ k, io.epollWait k fd (n + 1) = some []) ↔
      ∃ k, ∀ x ∈ ep.listed, search io.kids io.hit pass k x = some false := by
  refine exists_congr fun k => ?_
  unfold epollWait
  rw [hep, Option.bind_some, tryScan_eq_nil]
  have hitem : ∀ x, search io.kids io.hit pass k x = some false ↔
      ∃ m, io.readyMask k x.1 = some m ∧ ¬ HasBit m x.2.want := by
    intro x
    rw [← readyMask_search io k x, Option.map_eq_some_iff]
    simp only [decide_eq_false_iff_not]
  simp only [hitem, EpollInstance.mem_listed, mem_scanOrder hcount]
  constructor
  · rintro h x ⟨i, hi, hx⟩
    exact h i hi x hx
  · intro h i hi x hx
    exact h x ⟨i, hi, hx⟩

end Io

end Ridux
