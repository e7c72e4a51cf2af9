import Ridux.Fd.Sharing

/-!
# Interest lists

The interest list of an epoll instance is a table of slots; `real_sys_epoll_ctl` keeps it, and
`real_sys_epoll_wait` goes through it.

* `EpollInstance`: the table (`epoll_instance_t`);
* `EpollInstance.add`, `modify`, `delete`: what `epoll_ctl` does to it;
* `EpollInstance.scan`: one round of `epoll_wait`;
* `EpollInstance.Lists`: the table stores a map from descriptors to events, and the operations are those
  of the map.
-/

namespace Ridux

open Lib Function List Option

def epollMaxEvents : ℕ := 64
def epollInstances : ℕ := 64

def epollIn : BitVec 32 := 0x001
def epollOut : BitVec 32 := 0x004
def epollErr : BitVec 32 := 0x008
def epollHup : BitVec 32 := 0x010

/-- `C8_EPOLLONESHOT`. -/
def epollOneshot : BitVec 32 := 0x40000000

/-- `epoll_event_t`. -/
structure EpollEvent where
  events : BitVec 32
  data : BitVec 64
  deriving DecidableEq

/-- `epoll_instance_t`, without `used`; an item is a descriptor with its event. -/
structure EpollInstance where
  items : ℕ → Option (ℕ × EpollEvent)
  count : ℕ
  nextScan : ℕ

/-- What can be wrong with a call of `epoll_ctl`. -/
inductive CtlErr
  | ebadf | eexist | enomem | enoent | einval
  deriving DecidableEq

/-- The event of a descriptor that comes without one. -/
def defaultEvent (fd : ℕ) : EpollEvent := ⟨epollIn ||| epollOut, BitVec.ofNat 64 fd⟩

/-- What a registration is told of: nothing asked for is both. -/
def EpollEvent.want (ev : EpollEvent) : BitVec 32 :=
  (if ev.events ≠ 0 then ev.events else epollIn ||| epollOut) ||| epollErr ||| epollHup

/-- What is reported of an item, when its descriptor is ready as `mask` says. -/
def EpollEvent.report (ev : EpollEvent) (fd : ℕ) (mask : BitVec 32) : Option EpollEvent :=
  if mask &&& ev.want = 0 then none
  else some ⟨mask &&& ev.want, if ev.data ≠ 0 then ev.data else BitVec.ofNat 64 fd⟩

/-- One event of `epoll_wait`: its item, and what is reported. -/
structure EpollReport where
  slot : ℕ
  fd : ℕ
  event : EpollEvent
  deriving DecidableEq

namespace EpollInstance

/-- As `memset` leaves it. -/
def empty : EpollInstance := ⟨fun _ => none, 0, 0⟩

/-- The slot of a descriptor. -/
def found (ep : EpollInstance) (fd : ℕ) : Option ℕ :=
  firstSlot (fun i => (ep.items i).any fun item => item.1 = fd) epollMaxEvents

def freeSlot (ep : EpollInstance) : Option ℕ :=
  firstSlot (fun i => (ep.items i).isNone) epollMaxEvents

def setItem (ep : EpollInstance) (i : ℕ) (item : Option (ℕ × EpollEvent)) : EpollInstance :=
  { ep with items := update ep.items i item }

/-- `EPOLL_CTL_ADD`. -/
def add (ep : EpollInstance) (fd : ℕ) (ev : Option EpollEvent) : Except CtlErr Unit × EpollInstance :=
  match ep.found fd, ep.freeSlot with
  | some _, _ => (.error .eexist, ep)
  | none, none => (.error .enomem, ep)
  | none, some i =>
    (.ok (), { ep.setItem i (some (fd, ev.getD (defaultEvent fd))) with count := max ep.count (i + 1) })

/-- `EPOLL_CTL_MOD`. -/
def modify (ep : EpollInstance) (fd : ℕ) (ev : Option EpollEvent) : Except CtlErr Unit × EpollInstance :=
  match ep.found fd with
  | none => (.error .enoent, ep)
  | some i => (.ok (), ep.setItem i ((ep.items i).map fun item => (item.1, ev.getD item.2)))

/-- The slots at the end that are free do not count. -/
def trim (items : ℕ → Option (ℕ × EpollEvent)) : ℕ → ℕ
  | 0 => 0
  | k + 1 => if (items k).isNone then trim items k else k + 1

/-- `EPOLL_CTL_DEL`. -/
def delete (ep : EpollInstance) (fd : ℕ) : Except CtlErr Unit × EpollInstance :=
  match ep.found fd with
  | none => (.error .enoent, ep)
  | some i =>
    (.ok (), { ep.setItem i none with count := trim (update ep.items i none) ep.count })

/-- The slots in the order of a round. -/
def scanOrder (ep : EpollInstance) : List ℕ :=
  let count := min ep.count epollMaxEvents
  let start := if ep.nextScan < count then ep.nextScan else 0
  (List.range count).map fun scan => (start + scan) % count

/-- One round of `epoll_wait`; `mask` says how the descriptors are ready. -/
def scan (ep : EpollInstance) (mask : ℕ → BitVec 32) (maxevents : ℕ) : List EpollReport :=
  (ep.scanOrder.filterMap fun i => (ep.items i).bind fun item =>
    (item.2.report item.1 (mask item.1)).map fun ev => ⟨i, item.1, ev⟩).take maxevents

/-- The next round starts behind the last item that was reported. -/
def scanned (ep : EpollInstance) (reports : List EpollReport) : EpollInstance :=
  match reports.getLast? with
  | none => ep
  | some last => { ep with nextScan := (last.slot + 1) % min ep.count epollMaxEvents }

/-! ### The map -/

/-- The table stores the map. -/
structure Lists (ep : EpollInstance) (m : ℕ → Option EpollEvent) : Prop where
  keyed : Keyed ep.items epollMaxEvents
  map : toMap ep.items epollMaxEvents = m

variable {ep ep' : EpollInstance} {m : ℕ → Option EpollEvent} {fd i : ℕ} {ev : Option EpollEvent}

theorem lists_empty : empty.Lists fun _ => none := by
  refine ⟨fun i _ j _ k v w hi => ?_, ?_⟩
  · cases hi
  · funext fd
    exact toMap_eq_none.2 fun i _ v => nofun

theorem found_eq_some (h : ep.found fd = some i) :
    i < epollMaxEvents ∧ ∃ v, ep.items i = some (fd, v) := by
  obtain ⟨hi, hany⟩ := firstSlot_eq_some h
  refine ⟨hi, ?_⟩
  cases hitem : ep.items i with
  | none =>
    rw [hitem] at hany
    cases hany
  | some item =>
    rw [hitem] at hany
    obtain rfl : item.1 = fd := of_decide_eq_true hany
    exact ⟨item.2, rfl⟩

theorem found_eq_none (h : ep.found fd = none) : ∀ j < epollMaxEvents, ∀ v, ep.items j ≠ some (fd, v) := by
  intro j hj v hv
  have hany := firstSlot_eq_none h j hj
  rw [hv] at hany
  exact absurd (decide_eq_true rfl) (Bool.eq_false_iff.1 hany)

theorem freeSlot_eq_some (h : ep.freeSlot = some i) : i < epollMaxEvents ∧ ep.items i = none := by
  obtain ⟨hi, hnone⟩ := firstSlot_eq_some h
  exact ⟨hi, isNone_iff_eq_none.1 hnone⟩

theorem Lists.get (h : ep.Lists m) {v : EpollEvent} (hi : i < epollMaxEvents)
    (hv : ep.items i = some (fd, v)) : m fd = some v := by
  rw [← h.map]
  exact (toMap_eq_some h.keyed).2 ⟨i, hi, hv⟩

theorem Lists.add (h : ep.Lists m) (hok : ep.add fd ev = (.ok (), ep')) :
    ep'.Lists (update m fd (some (ev.getD (defaultEvent fd)))) := by
  unfold EpollInstance.add at hok
  split at hok
  · cases (Prod.mk.inj hok).1
  · cases (Prod.mk.inj hok).1
  · next i hfound hfree =>
    obtain rfl := (Prod.mk.inj hok).2
    obtain ⟨hi, hnone⟩ := freeSlot_eq_some hfree
    have honly : OnlyAt ep.items epollMaxEvents fd i :=
      fun j hj v hv => absurd hv (found_eq_none hfound j hj v)
    refine ⟨h.keyed.set honly, ?_⟩
    rw [← h.map]
    refine toMap_set h.keyed hi honly fun e he => ?_
    rw [hnone] at he
    cases he

theorem Lists.modify (h : ep.Lists m) (hok : ep.modify fd ev = (.ok (), ep')) :
    ∃ old, m fd = some old ∧ ep'.Lists (update m fd (some (ev.getD old))) := by
  unfold EpollInstance.modify at hok
  split at hok
  · cases (Prod.mk.inj hok).1
  · next i hfound =>
    obtain rfl := (Prod.mk.inj hok).2
    obtain ⟨hi, old, hold⟩ := found_eq_some hfound
    have honly := h.keyed.onlyAt hi hold
    refine ⟨old, h.get hi hold, ?_⟩
    rw [hold]
    refine ⟨h.keyed.set honly, ?_⟩
    rw [← h.map]
    refine toMap_set h.keyed hi honly fun e he => ?_
    rw [hold] at he
    obtain rfl := some.inj he
    rfl

theorem Lists.delete (h : ep.Lists m) (hok : ep.delete fd = (.ok (), ep')) :
    ep'.Lists (update m fd none) := by
  unfold EpollInstance.delete at hok
  split at hok
  · cases (Prod.mk.inj hok).1
  · next i hfound =>
    obtain rfl := (Prod.mk.inj hok).2
    obtain ⟨hi, old, hold⟩ := found_eq_some hfound
    refine ⟨h.keyed.erase i, ?_⟩
    rw [← h.map]
    exact toMap_erase h.keyed hi hold

theorem Lists.scanned (h : ep.Lists m) (reports : List EpollReport) : (ep.scanned reports).Lists m := by
  unfold EpollInstance.scanned
  split
  · exact h
  · exact ⟨h.keyed, h.map⟩

/-- **What a round reports** is in the list, and ready. -/
theorem Lists.scan (h : ep.Lists m) {mask : ℕ → BitVec 32} {maxevents : ℕ} {x : EpollReport}
    (hx : x ∈ ep.scan mask maxevents) :
    ∃ old, m x.fd = some old ∧ old.report x.fd (mask x.fd) = some x.event := by
  have hx := mem_of_mem_take hx
  obtain ⟨i, hi, hx⟩ := mem_filterMap.1 hx
  obtain ⟨⟨fd, old⟩, hitem, hx⟩ := bind_eq_some_iff.1 hx
  obtain ⟨e, he, rfl⟩ := map_eq_some_iff.1 hx
  have hlt : i < epollMaxEvents := by
    unfold scanOrder at hi
    obtain ⟨k, hk, rfl⟩ := mem_map.1 hi
    have hpos : k < min ep.count epollMaxEvents := mem_range.1 hk
    exact (Nat.mod_lt _ (by omega)).trans_le (min_le_right _ _)
  exact ⟨old, h.get hlt hitem, he⟩

/-! ### The slots that count -/

theorem trim_le (items : ℕ → Option (ℕ × EpollEvent)) (k : ℕ) : trim items k ≤ k := by
  induction k with
  | zero => exact le_refl 0
  | succ k ih =>
    unfold trim
    split_ifs
    · exact ih.trans (Nat.le_succ k)
    · exact le_refl _

theorem count_add (h : ep.count ≤ epollMaxEvents) (fd : ℕ) (ev : Option EpollEvent) :
    (ep.add fd ev).2.count ≤ epollMaxEvents := by
  unfold EpollInstance.add
  split
  · exact h
  · exact h
  · next i _ hfree =>
    have hi := (freeSlot_eq_some hfree).1
    exact max_le h hi

end EpollInstance

end Ridux
