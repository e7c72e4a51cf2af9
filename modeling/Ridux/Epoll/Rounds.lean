import Ridux.Epoll.Table
import Ridux.Lib.Run
import Ridux.Lib.Scan
import Mathlib.Data.Set.Card

/-!
# Calls of `epoll_wait` in a row

An interest list that stays as it is, with descriptors that stay as ready as they are.

* `EpollInstance.interest`: the map that the list stores;
* `EpollInstance.ListOp`, `listRun_sound`: any calls before, and what they keep of the list;
* `EpollInstance.queue`: the ready items in the order of the next round;
* `EpollInstance.queue_scanned`: a round goes on behind what it reported;
* `EpollInstance.waits_complete`: enough calls in a row report every descriptor that is ready.
-/

namespace Ridux.EpollInstance

open Lib Function List

/-- The descriptors of the list, with their events. -/
def interest (ep : EpollInstance) : ℕ → Option EpollEvent := toMap ep.items epollMaxEvents

/-- A call: one of `epoll_ctl`, or a round of `epoll_wait`. -/
inductive ListOp
  | add (fd : ℕ) (ev : Option EpollEvent)
  | modify (fd : ℕ) (ev : Option EpollEvent)
  | delete (fd : ℕ)
  | wait (mask : ℕ → BitVec 32) (maxevents : ℕ)

/-- What a call does to the list. -/
def exec (ep : EpollInstance) : ListOp → EpollInstance
  | .add fd ev => (ep.add fd ev).2
  | .modify fd ev => (ep.modify fd ev).2
  | .delete fd => (ep.delete fd).2
  | .wait mask maxevents => ep.scanned (ep.scan mask maxevents)

/-- No descriptor is in two slots, and the slots from `count` on are free. -/
structure Sound (ep : EpollInstance) : Prop where
  keyed : Keyed ep.items epollMaxEvents
  count : ep.count ≤ epollMaxEvents
  free : ∀ i, ep.count ≤ i → ep.items i = none

variable {ep : EpollInstance} {mask : ℕ → BitVec 32} {maxevents fd i : ℕ}

theorem trim_free {items : ℕ → Option (ℕ × EpollEvent)} (k : ℕ) (h : ∀ i, k ≤ i → items i = none) :
    ∀ i, trim items k ≤ i → items i = none := by
  induction k with
  | zero => exact h
  | succ k ih =>
    unfold trim
    split_ifs with hk
    · refine ih fun i hi => ?_
      rcases hi.eq_or_lt with rfl | hlt
      · exact Option.isNone_iff_eq_none.1 hk
      · exact h i hlt
    · exact h

theorem Sound.exec (h : ep.Sound) (op : ListOp) : (ep.exec op).Sound := by
  cases op with
  | add fd ev =>
    unfold EpollInstance.exec EpollInstance.add
    dsimp only
    split
    · exact h
    · exact h
    · next i hfound hfree =>
      have hi := (freeSlot_eq_some hfree).1
      refine ⟨h.keyed.set fun j hj v hv => absurd hv (found_eq_none hfound j hj v), max_le h.count hi,
        fun j hj => ?_⟩
      have hij : j ≠ i := by
        rintro rfl
        exact absurd ((le_max_right _ _).trans hj) (by omega)
      exact (update_of_ne hij _ _).trans (h.free j ((le_max_left _ _).trans hj))
  | modify fd ev =>
    unfold EpollInstance.exec EpollInstance.modify
    dsimp only
    split
    · exact h
    · next i hfound =>
      obtain ⟨hi, old, hold⟩ := found_eq_some hfound
      rw [hold]
      refine ⟨h.keyed.set (h.keyed.onlyAt hi hold), h.count, fun j hj => ?_⟩
      have hij : j ≠ i := by
        rintro rfl
        exact Option.some_ne_none _ (hold.symm.trans (h.free j hj))
      exact (update_of_ne hij _ _).trans (h.free j hj)
  | delete fd =>
    unfold EpollInstance.exec EpollInstance.delete
    dsimp only
    split
    · exact h
    · next i _ =>
      refine ⟨h.keyed.erase i, (trim_le _ _).trans h.count, trim_free _ fun j hj => ?_⟩
      by_cases hij : j = i
      · rw [hij, update_self]
      · exact (update_of_ne hij _ _).trans (h.free j hj)
  | wait mask maxevents =>
    unfold EpollInstance.exec scanned
    dsimp only
    split
    · exact h
    · exact ⟨h.keyed, h.count, h.free⟩

theorem listRun_sound (h : Runs (fun _ _ => True) exec empty ep) : ep.Sound :=
  h.invariant (fun _ op hs _ => hs.exec op)
    ⟨lists_empty.keyed, Nat.zero_le _, fun _ _ => rfl⟩

/-! ### Rounds -/

/-- What is reported of a slot. -/
def slotReport (ep : EpollInstance) (mask : ℕ → BitVec 32) (i : ℕ) : Option EpollReport :=
  (ep.items i).bind fun item => (item.2.report item.1 (mask item.1)).map fun ev => ⟨i, item.1, ev⟩

/-- The ready items in the order of the next round. -/
def queue (ep : EpollInstance) (mask : ℕ → BitVec 32) : List EpollReport :=
  ep.scanOrder.filterMap (ep.slotReport mask)

theorem slotReport_eq_some {x : EpollReport} : ep.slotReport mask i = some x →
    x.slot = i ∧ ∃ ev, ep.items i = some (x.fd, ev) ∧ mask x.fd &&& ev.want ≠ 0 := by
  intro h
  obtain ⟨⟨fd, ev⟩, hitem, hx⟩ := Option.bind_eq_some_iff.1 h
  obtain ⟨e, he, rfl⟩ := Option.map_eq_some_iff.1 hx
  refine ⟨rfl, ev, hitem, fun h0 => ?_⟩
  rw [EpollEvent.report, if_pos h0] at he
  cases he

theorem scanOrder_eq (ep : EpollInstance) :
    ∃ s, ep.scanOrder = (List.range (min ep.count epollMaxEvents)).rotate s := by
  unfold scanOrder
  dsimp only
  rw [map_add_mod]
  exact ⟨_, rfl⟩

theorem queue_scanned (hm : 1 ≤ maxevents) :
    (ep.scanned (ep.scan mask maxevents)).queue mask =
      (ep.queue mask).rotate (min maxevents (ep.queue mask).length) := by
  obtain ⟨s, hs⟩ := ep.scanOrder_eq
  have hscan : ep.scan mask maxevents = (ep.queue mask).take maxevents := rfl
  rcases eq_nil_or_concat (ep.scan mask maxevents) with hnil | ⟨ys, x, hx⟩
  · have hq : ep.queue mask = [] := by
      rw [hscan, take_eq_nil_iff] at hnil
      exact hnil.resolve_left (by omega)
    rw [hnil, hq, rotate_nil]
    exact hq
  · have hnext : ep.scanned (ep.scan mask maxevents) =
        { ep with nextScan := (x.slot + 1) % min ep.count epollMaxEvents } := by
      unfold scanned
      rw [hx, concat_eq_append, getLast?_concat]
    have hlen : min maxevents (ep.queue mask).length = (ys ++ [x]).length := by
      rw [← length_take, ← hscan, hx, concat_eq_append]
    have hfirst : (((List.range (min ep.count epollMaxEvents)).rotate s).filterMap (ep.slotReport mask)).take
        maxevents = ys ++ [x] := by
      rw [← hs, ← concat_eq_append, ← hx]
      rfl
    have hbehind : ((List.range (min ep.count epollMaxEvents)).rotate (x.slot + 1)).filterMap
        (ep.slotReport mask) = _ :=
      filterMap_rotate_behind (fun i y hy => (slotReport_eq_some hy).1) hfirst
    rw [hnext, hlen]
    refine Eq.trans ?_ (hbehind.trans (by rw [← hs]; rfl))
    refine congrArg (filterMap (ep.slotReport mask)) ?_
    unfold scanOrder
    dsimp only
    rw [map_add_mod]
    rcases Nat.eq_zero_or_pos (min ep.count epollMaxEvents) with h0 | hpos
    · rw [h0, range_zero, rotate_nil, rotate_nil]
    · have hmod := rotate_mod (List.range (min ep.count epollMaxEvents)) (x.slot + 1)
      rw [length_range] at hmod
      rw [if_pos (Nat.mod_lt _ hpos), hmod]

/-- Calls in a row, and what each reports. -/
def waits (mask : ℕ → BitVec 32) (maxevents : ℕ) : ℕ → EpollInstance → List (List EpollReport)
  | 0, _ => []
  | n + 1, ep =>
    let found := ep.scan mask maxevents
    found :: waits mask maxevents n (ep.scanned found)

theorem mem_waits (hm : 1 ≤ maxevents) (n : ℕ) (ep : EpollInstance) (r : List EpollReport) :
    r ∈ waits mask maxevents n ep ↔
      ∃ t < n, r = ((ep.queue mask).rotate (t * min maxevents (ep.queue mask).length)).take maxevents := by
  induction n generalizing ep with
  | zero => exact iff_of_false not_mem_nil fun ⟨_, ht, _⟩ => absurd ht (Nat.not_lt_zero _)
  | succ n ih =>
    unfold waits
    dsimp only
    rw [mem_cons, ih, queue_scanned hm, length_rotate]
    simp only [rotate_rotate]
    constructor
    · rintro (rfl | ⟨t, ht, rfl⟩)
      · exact ⟨0, Nat.succ_pos n, by rw [zero_mul, rotate_zero]; rfl⟩
      · exact ⟨t + 1, Nat.succ_lt_succ ht, by rw [add_mul, one_mul, add_comm]⟩
    · rintro ⟨t, ht, rfl⟩
      cases t with
      | zero => exact .inl (by rw [zero_mul, rotate_zero]; rfl)
      | succ t => exact .inr ⟨t, Nat.lt_of_succ_lt_succ ht, by rw [add_mul, one_mul, add_comm]⟩

/-- The descriptors of the list. -/
def registered (ep : EpollInstance) : Set ℕ := {fd | ep.interest fd ≠ none}

/-- Those that are ready. -/
def ready (ep : EpollInstance) (mask : ℕ → BitVec 32) : Set ℕ :=
  {fd | ∃ ev, ep.interest fd = some ev ∧ mask fd &&& ev.want ≠ 0}

theorem Sound.lt (h : ep.Sound) {item : ℕ × EpollEvent} (hi : ep.items i = some item) :
    i < ep.count := by
  by_contra hge
  rw [h.free i (not_lt.1 hge)] at hi
  cases hi

theorem Sound.nodup_queue (h : ep.Sound) (mask : ℕ → BitVec 32) : ((ep.queue mask).map (·.fd)).Nodup := by
  obtain ⟨s, hs⟩ := ep.scanOrder_eq
  unfold queue
  rw [map_filterMap, hs]
  refine Nodup.filterMap (fun i j fd hi hj => ?_) (nodup_rotate.2 nodup_range)
  obtain ⟨x, hx, rfl⟩ := Option.map_eq_some_iff.1 hi
  obtain ⟨y, hy, hfd⟩ := Option.map_eq_some_iff.1 hj
  obtain ⟨-, ev, hix, -⟩ := slotReport_eq_some hx
  obtain ⟨-, ev', hjy, -⟩ := slotReport_eq_some hy
  rw [hfd] at hjy
  exact h.keyed i ((h.lt hix).trans_le h.count) j ((h.lt hjy).trans_le h.count) _ _ _ hix hjy

theorem Sound.mem_queue (h : ep.Sound) : (∃ x ∈ ep.queue mask, x.fd = fd) ↔ fd ∈ ep.ready mask := by
  obtain ⟨s, hs⟩ := ep.scanOrder_eq
  constructor
  · rintro ⟨x, hx, rfl⟩
    obtain ⟨i, -, hi⟩ := mem_filterMap.1 hx
    obtain ⟨-, ev, hitem, hready⟩ := slotReport_eq_some hi
    exact ⟨ev, (toMap_eq_some h.keyed).2 ⟨i, (h.lt hitem).trans_le h.count, hitem⟩, hready⟩
  · rintro ⟨ev, hev, hready⟩
    obtain ⟨i, hi, hitem⟩ := (toMap_eq_some h.keyed).1 hev
    have hmem : i ∈ ep.scanOrder := by
      rw [hs, mem_rotate, mem_range]
      exact lt_min (h.lt hitem) hi
    refine ⟨⟨i, fd, mask fd &&& ev.want, if ev.data ≠ 0 then ev.data else BitVec.ofNat 64 fd⟩,
      mem_filterMap.2 ⟨i, hmem, ?_⟩, rfl⟩
    unfold slotReport EpollEvent.report
    rw [hitem, Option.bind_some, if_neg hready]
    rfl

theorem Sound.ncard_ready (h : ep.Sound) : (ep.ready mask).ncard = (ep.queue mask).length := by
  have hset : ep.ready mask = ((ep.queue mask).map (·.fd)).toFinset := by
    ext fd
    rw [← h.mem_queue]
    simp
  rw [hset, Set.ncard_coe_finset, toFinset_card_of_nodup (h.nodup_queue mask), length_map]

theorem Sound.ncard_ready_le (h : ep.Sound) : (ep.ready mask).ncard ≤ ep.registered.ncard := by
  refine Set.ncard_le_ncard (fun fd ⟨ev, hev, _⟩ => Option.ne_none_iff_exists'.2 ⟨ev, hev⟩) ?_
  refine ((Finset.range epollMaxEvents).image fun i => ((ep.items i).map Prod.fst).getD 0).finite_toSet.subset ?_
  intro fd hfd
  obtain ⟨ev, hev⟩ := Option.ne_none_iff_exists'.1 hfd
  obtain ⟨i, hi, hitem⟩ := (toMap_eq_some h.keyed).1 hev
  exact Finset.mem_coe.2 (Finset.mem_image.2 ⟨i, Finset.mem_range.2 hi, by rw [hitem]; rfl⟩)

/-- **Calls in a row.** After any calls before, a call on a list that stays as it is reports as many ready
descriptors as there is room for, none of them twice; and as many calls as it takes to go through the whole
list report every one. -/
theorem waits_complete (h : Runs (fun _ _ => True) exec empty ep) (mask : ℕ → BitVec 32) (hm : 1 ≤ maxevents) :
    (∀ n, ∀ r ∈ waits mask maxevents n ep,
      r.length = min maxevents (ep.ready mask).ncard ∧ (r.map (·.fd)).Nodup) ∧
    ∀ fd ∈ ep.ready mask, ∃ r ∈ waits mask maxevents ((ep.registered.ncard + maxevents - 1) / maxevents) ep,
      ∃ x ∈ r, x.fd = fd := by
  have hs := listRun_sound h
  refine ⟨fun n r hr => ?_, fun fd hfd => ?_⟩
  · obtain ⟨t, -, rfl⟩ := (mem_waits hm n ep r).1 hr
    refine ⟨by rw [length_take, length_rotate, hs.ncard_ready], ?_⟩
    rw [map_take, map_rotate]
    exact (nodup_rotate.2 (hs.nodup_queue mask)).sublist (take_sublist _ _)
  · obtain ⟨x, hx, rfl⟩ := hs.mem_queue.2 hfd
    obtain ⟨p, hp, hget⟩ := getElem_of_mem hx
    have hlen : (ep.queue mask).length ≤ ep.registered.ncard := hs.ncard_ready ▸ hs.ncard_ready_le
    -- the item stands in the call of the number `p / maxevents`
    refine ⟨_, (mem_waits hm _ ep _).2 ⟨p / maxevents, ?_, rfl⟩, x, ?_, rfl⟩
    · have hdiv : (p + maxevents) / maxevents ≤ (ep.registered.ncard + maxevents - 1) / maxevents :=
        Nat.div_le_div_right (by omega)
      rw [Nat.add_div_right _ hm] at hdiv
      exact hdiv
    · rcases Nat.lt_or_ge p maxevents with hlt | hge
      · rw [Nat.div_eq_of_lt hlt, zero_mul, rotate_zero]
        refine mem_of_getElem? (i := p) ?_
        rw [getElem?_take_of_lt hlt, getElem?_eq_getElem hp, hget]
      · have hmod := Nat.mod_lt p hm
        rw [min_eq_left (by omega)]
        refine mem_of_getElem? (i := p % maxevents) ?_
        rw [getElem?_take_of_lt hmod, getElem?_rotate (by omega), mul_comm, Nat.mod_add_div,
          Nat.mod_eq_of_lt hp, getElem?_eq_getElem hp, hget]

/-- Two calls with room for one report both of two ready descriptors, the later one first when it is next. -/
theorem waits_complete_sample :
    ∃ ep, Runs (fun _ _ => True) exec empty ep ∧ ep.nextScan = 1 ∧ ∀ fd ∈ ep.ready fun _ => epollIn,
      ∃ r ∈ waits (fun _ => epollIn) 1 ((ep.registered.ncard + 1 - 1) / 1) ep, ∃ x ∈ r, x.fd = fd := by
  have hrun : Runs (fun _ _ => True) exec empty _ :=
    Runs.of_list (fun _ _ => trivial) empty [.add 5 none, .add 7 none, .wait (fun _ => epollIn) 1]
  exact ⟨_, hrun, by decide, (waits_complete hrun (fun _ => epollIn) le_rfl).2⟩

end Ridux.EpollInstance
