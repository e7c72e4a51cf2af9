import Ridux.Fd.Coherent
import Mathlib.Data.List.ProdSigma
import Mathlib.Data.Finset.Card

/-!
# Counting references

`c3_fd_ref_count` counts the entries that refer to an object, an entry of a shared table once.

* `Held ts table c`: who may hold descriptors, the live tasks and `c` (which may be a zombie that
  is closing its descriptors);
* `refCount_le_one_iff`: the count is at most one exactly when every entry for the object is the
  entry of `c`, in its table;
* `Tasks.held`: some entry refers to the object; `held_iff` splits it into the table of `c` and
  the other tables.
-/

namespace Ridux

open Lib Tasks Function List

/-- The live tasks and `c` are grouped by their tables; no other task holds a descriptor. -/
structure Held (ts : Tasks) (table : ℕ → ℕ) (c : ℕ) : Prop where
  small : ∀ i, (ts.task i).used = true → i < taskMax
  used : (ts.task c).used = true
  same : ∀ i j, (ts.task i).live = true → ((ts.task j).live = true ∨ j = c) →
    (c3FdSameGroup (ts.task i) (ts.task j) = true ↔ table i = table j)
  agree : ∀ i, (ts.task i).live = true → table i = table c → (ts.task i).fds = (ts.task c).fds
  alone : (ts.task c).live = false → ∀ i, (ts.task i).live = true → table i ≠ table c
  dead : ∀ i, (ts.task i).used = true → (ts.task i).live = false → i ≠ c →
    ∀ fd < taskFdMax, ((ts.task i).fds fd).kind = .none

namespace Tasks

/-- Some entry refers to the object. -/
def held (ts : Tasks) (kind : FdKind) (ref : ℕ) : Prop :=
  ∃ i fd, (ts.task i).used = true ∧ fd < taskFdMax ∧ ts.holds kind ref i fd = true

/-- Some entry outside the table of `c` refers to the object. -/
def heldOutside (ts : Tasks) (table : ℕ → ℕ) (c : ℕ) (kind : FdKind) (ref : ℕ) : Prop :=
  ∃ i fd, (ts.task i).live = true ∧ table i ≠ table c ∧ fd < taskFdMax ∧
    ts.holds kind ref i fd = true

theorem holds_iff {ts : Tasks} {kind : FdKind} {ref i fd : ℕ} :
    ts.holds kind ref i fd = true ↔
      ((ts.task i).fds fd).kind = kind ∧ ((ts.task i).fds fd).ref = ref := by
  simp [holds]

end Tasks

/-- Some entry of a table refers to the object. -/
def inTable (g : ℕ → Fd) (kind : FdKind) (ref : ℕ) : Prop :=
  ∃ fd < taskFdMax, (g fd).kind = kind ∧ (g fd).ref = ref

theorem inTable_update {g : ℕ → Fd} {fd : ℕ} {e : Fd} {kind : FdKind} {ref : ℕ}
    (hfd : fd < taskFdMax) :
    inTable (update g fd e) kind ref ↔ (e.kind = kind ∧ e.ref = ref) ∨
      ∃ i < taskFdMax, i ≠ fd ∧ (g i).kind = kind ∧ (g i).ref = ref := by
  constructor
  · rintro ⟨i, hi, hk, hr⟩
    by_cases hif : i = fd
    · rw [hif, update_self] at hk hr
      exact .inl ⟨hk, hr⟩
    · rw [update_of_ne hif] at hk hr
      exact .inr ⟨i, hi, hif, hk, hr⟩
  · rintro (⟨hk, hr⟩ | ⟨i, hi, hif, hk, hr⟩)
    · exact ⟨fd, hfd, by rw [update_self]; exact ⟨hk, hr⟩⟩
    · exact ⟨i, hi, by rw [update_of_ne hif]; exact ⟨hk, hr⟩⟩

theorem inTable_update_free {g : ℕ → Fd} {fd : ℕ} {e : Fd} {kind : FdKind} {ref : ℕ}
    (hfd : fd < taskFdMax) (hfree : (g fd).kind = .none) (hk : kind ≠ .none) :
    inTable (update g fd e) kind ref ↔
      (e.kind = kind ∧ e.ref = ref) ∨ inTable g kind ref := by
  rw [inTable_update hfd]
  constructor
  · rintro (h | ⟨i, hi, -, h⟩)
    · exact .inl h
    · exact .inr ⟨i, hi, h⟩
  · rintro (h | ⟨i, hi, hik, hir⟩)
    · exact .inl h
    · refine .inr ⟨i, hi, ?_, hik, hir⟩
      rintro rfl
      exact hk (hik.symm.trans hfree)

namespace Held

variable {ts : Tasks} {table : ℕ → ℕ} {c fd : ℕ} {kind : FdKind} {ref i : ℕ}

theorem grouped (h : Held ts table c) : Grouped ts c (ts.task c).fds where
  lt := h.small c h.used
  used := h.used
  own := rfl
  peers := by
    intro i _ hp
    obtain ⟨-, hl, hs⟩ := Tasks.groupPeer_iff.1 hp
    exact h.agree i hl ((h.same i c hl (.inr rfl)).1 hs)
  dead := fun i hne hu hl => h.dead i hu hl hne

theorem mem (h : Held ts table c) (hu : (ts.task i).used = true) (hfd : fd < taskFdMax)
    (hk : ((ts.task i).fds fd).kind ≠ .none) : (ts.task i).live = true ∨ i = c := by
  by_contra hno
  push Not at hno
  exact hk (h.dead i hu (by simpa using hno.1) hno.2 fd hfd)

theorem not_peer (h : Held ts table c) (hl : (ts.task i).live = true) (ht : table i ≠ table c) :
    i ≠ c ∧ ¬(i < taskMax ∧ ts.groupPeer c i = true) := by
  constructor
  · rintro rfl
    exact ht rfl
  · rintro ⟨-, hp⟩
    exact ht ((h.same i c hl (.inr rfl)).1 (Tasks.groupPeer_iff.1 hp).2.2)

theorem setTable (h : Held ts table c) (g : ℕ → Fd) : Held (ts.setTable c g) table c where
  small := by
    intro i hu
    rw [Tasks.setTable, used_put] at hu
    exact h.small i hu
  used := by
    rw [Tasks.setTable, used_put]
    exact h.used
  same := by
    intro i j hi hj
    rw [Tasks.setTable, live_put] at hi hj
    rw [Tasks.setTable, sameGroup_put]
    exact h.same i j hi hj
  agree := by
    intro i hi ht
    rw [Tasks.setTable, live_put] at hi
    by_cases hic : i = c
    · rw [hic]
    · have hp := Tasks.groupPeer_iff.2 ⟨hic, hi, (h.same i c hi (.inr rfl)).2 ht⟩
      rw [Tasks.setTable, put_self, put_peer (h.small i (used_of_live hi)) hp, fds_withFds,
        fds_withFds]
  alone := by
    intro hc i hi
    rw [Tasks.setTable, live_put] at hc hi
    exact h.alone hc i hi
  dead := by
    intro i hu hl hne fd hfd
    rw [Tasks.setTable, used_put] at hu
    rw [Tasks.setTable, live_put] at hl
    rw [Tasks.setTable, put_other hne]
    · exact h.dead i hu hl hne fd hfd
    · rintro ⟨-, hp⟩
      rw [(Tasks.groupPeer_iff.1 hp).2.1] at hl
      cases hl

/-! ### The count -/

theorem exists_counted (h : Held ts table c) (hi : (ts.task i).live = true ∨ i = c)
    (hh : ts.holds kind ref i fd = true) :
    ∃ j, ts.counted kind ref (j, fd) = true ∧
      (j = i ∨ (ts.task j).live = true ∧ table j = table i) := by
  induction i using Nat.strong_induction_on with
  | _ i ih =>
    cases hseen : firstSlot (fun j => (ts.task j).live &&
        c3FdSameGroup (ts.task j) (ts.task i) && ts.holds kind ref j fd) i with
    | none =>
      have hu : (ts.task i).used = true := by
        rcases hi with hl | rfl
        · exact used_of_live hl
        · exact h.used
      refine ⟨i, ?_, .inl rfl⟩
      simp [Tasks.counted, Tasks.seen, hu, hh, hseen]
    | some j =>
      obtain ⟨hji, hp⟩ := firstSlot_eq_some hseen
      simp only [Bool.and_eq_true] at hp
      obtain ⟨⟨hl, hs⟩, hhj⟩ := hp
      have hji' : table j = table i := (h.same j i hl hi).1 hs
      obtain ⟨k, hk, hkj⟩ := ih j hji (.inl hl) hhj
      refine ⟨k, hk, .inr ?_⟩
      rcases hkj with rfl | ⟨hkl, hkt⟩
      · exact ⟨hl, hji'⟩
      · exact ⟨hkl, hkt.trans hji'⟩

theorem mem_entries {p : ℕ × ℕ} :
    p ∈ (List.range' 0 taskMax ×ˢ List.range' 0 taskFdMax) ↔
      p.1 < taskMax ∧ p.2 < taskFdMax := by
  obtain ⟨i, fd⟩ := p
  show (i, fd) ∈ List.product (List.range' 0 taskMax) (List.range' 0 taskFdMax) ↔ _
  rw [pair_mem_product, mem_slots, mem_slots]

theorem refCount_le_one (hk : kind ≠ .none) :
    ts.c3FdRefCount kind ref ≤ 1 ↔ ∀ p q : ℕ × ℕ, p.1 < taskMax ∧ p.2 < taskFdMax →
      q.1 < taskMax ∧ q.2 < taskFdMax → ts.counted kind ref p = true →
      ts.counted kind ref q = true → p = q := by
  have hnodup : ((List.range' 0 taskMax ×ˢ List.range' 0 taskFdMax).filter
      (ts.counted kind ref)).Nodup :=
    (List.Nodup.product nodup_range' nodup_range').filter _
  rw [Tasks.c3FdRefCount, if_neg hk, ← toFinset_card_of_nodup hnodup, Finset.card_le_one]
  simp only [mem_toFinset, mem_filter, mem_entries]
  constructor
  · intro hall p q hp hq hcp hcq
    exact hall p ⟨hp, hcp⟩ q ⟨hq, hcq⟩
  · rintro hall p ⟨hp, hcp⟩ q ⟨hq, hcq⟩
    exact hall p q hp hq hcp hcq

/-- **The count is exact**: it is at most one when, and only when, the entry of `c` is the last. -/
theorem refCount_le_one_iff (h : Held ts table c) (hk : kind ≠ .none) (hfd : fd < taskFdMax)
    (hown : ts.holds kind ref c fd = true) :
    ts.c3FdRefCount kind ref ≤ 1 ↔ ∀ i j, (ts.task i).used = true → j < taskFdMax →
      ts.holds kind ref i j = true → table i = table c ∧ j = fd := by
  have hmem : ∀ i j, (ts.task i).used = true → j < taskFdMax →
      ts.holds kind ref i j = true → (ts.task i).live = true ∨ i = c := by
    intro i j hu hj hh
    refine h.mem hu hj ?_
    rw [(holds_iff.1 hh).1]
    exact hk
  have hused : ∀ j, (ts.task j).live = true ∨ j = c → j < taskMax := by
    rintro j (hl | rfl)
    · exact h.small j (used_of_live hl)
    · exact h.small j h.used
  rw [refCount_le_one hk]
  constructor
  · intro hall i j hu hj hh
    have hi := hmem i j hu hj hh
    obtain ⟨a, hca, ha⟩ := h.exists_counted hi hh
    obtain ⟨b, hcb, hb⟩ := h.exists_counted (.inr rfl) hown
    have ham : (ts.task a).live = true ∨ a = c := by
      rcases ha with rfl | ha
      · exact hi
      · exact .inl ha.1
    have hbm : (ts.task b).live = true ∨ b = c := by
      rcases hb with rfl | hb
      · exact .inr rfl
      · exact .inl hb.1
    have heq := hall (a, j) (b, fd) ⟨hused a ham, hj⟩ ⟨hused b hbm, hfd⟩ hca hcb
    obtain ⟨rfl, rfl⟩ := Prod.mk.inj heq
    have hai : table a = table i := by
      rcases ha with rfl | ha
      · rfl
      · exact ha.2
    have hac : table a = table c := by
      rcases hb with rfl | hb
      · rfl
      · exact hb.2
    exact ⟨hai.symm.trans hac, rfl⟩
  · -- two counted entries would both be the first of the table of `c`
    rintro hall ⟨i, j⟩ ⟨i', j'⟩ ⟨-, hj⟩ ⟨-, hj'⟩ hc hc'
    simp only [Tasks.counted, Bool.and_eq_true, Bool.not_eq_true'] at hc hc'
    obtain ⟨⟨hu, hh⟩, hns⟩ := hc
    obtain ⟨⟨hu', hh'⟩, hns'⟩ := hc'
    obtain ⟨ht, rfl⟩ := hall i j hu hj hh
    obtain ⟨ht', rfl⟩ := hall i' j' hu' hj' hh'
    have hfirst : ∀ a b, a < b → (ts.task a).live = true →
        ((ts.task b).live = true ∨ b = c) → table a = table b →
        ts.holds kind ref a j' = true → ts.seen kind ref b j' = true := by
      intro a b hab hl hb htab hha
      rw [Tasks.seen]
      by_contra hno
      have hnone := Option.not_isSome_iff_eq_none.1 hno
      have := firstSlot_eq_none hnone a hab
      simp [hl, (h.same a b hl hb).2 htab, hha] at this
    have hi := hmem i j' hu hj hh
    have hi' := hmem i' j' hu' hj hh'
    have hearlier : ∀ a b, a < b → ((ts.task a).live = true ∨ a = c) →
        ((ts.task b).live = true ∨ b = c) → table b = table c → table a = table b →
        ts.holds kind ref a j' = true → ts.seen kind ref b j' = true := by
      intro a b hab ha hb hbc htab hha
      by_cases hl : (ts.task a).live = true
      · exact hfirst a b hab hl hb htab hha
      · -- a zombie is alone in its table
        rcases ha with ha | rfl
        · exact absurd ha hl
        · rcases hb with hb | rfl
          · exact absurd hbc (h.alone (by simpa using hl) b hb)
          · omega
    rcases Nat.lt_trichotomy i i' with hlt | rfl | hlt
    · rw [hearlier i i' hlt hi hi' ht' (ht.trans ht'.symm) hh] at hns'
      cases hns'
    · rfl
    · rw [hearlier i' i hlt hi' hi ht (ht'.trans ht.symm) hh'] at hns
      cases hns

/-! ### Who holds an object -/

theorem held_iff (h : Held ts table c) (hk : kind ≠ .none) :
    ts.held kind ref ↔
      inTable (ts.task c).fds kind ref ∨ ts.heldOutside table c kind ref := by
  constructor
  · rintro ⟨i, fd, hu, hfd, hh⟩
    have hkr := holds_iff.1 hh
    rcases h.mem hu hfd (by rw [hkr.1]; exact hk) with hl | rfl
    · by_cases ht : table i = table c
      · rw [h.agree i hl ht] at hkr
        exact .inl ⟨fd, hfd, hkr⟩
      · exact .inr ⟨i, fd, hl, ht, hfd, hh⟩
    · exact .inl ⟨fd, hfd, hkr⟩
  · rintro (⟨fd, hfd, hkr⟩ | ⟨i, fd, hl, -, hfd, hh⟩)
    · exact ⟨c, fd, h.used, hfd, holds_iff.2 hkr⟩
    · exact ⟨i, fd, used_of_live hl, hfd, hh⟩

theorem heldOutside_setTable (h : Held ts table c) (g : ℕ → Fd) :
    (ts.setTable c g).heldOutside table c kind ref ↔ ts.heldOutside table c kind ref := by
  have hsame : ∀ i, (ts.task i).live = true → table i ≠ table c →
      (ts.setTable c g).task i = ts.task i := by
    intro i hl ht
    obtain ⟨hne, hp⟩ := h.not_peer hl ht
    rw [Tasks.setTable, put_other hne hp]
  constructor
  · rintro ⟨i, fd, hl, ht, hfd, hh⟩
    rw [Tasks.setTable, live_put] at hl
    rw [holds_iff, hsame i hl ht] at hh
    exact ⟨i, fd, hl, ht, hfd, holds_iff.2 hh⟩
  · rintro ⟨i, fd, hl, ht, hfd, hh⟩
    rw [holds_iff, ← hsame i hl ht] at hh
    exact ⟨i, fd, by rw [Tasks.setTable, live_put]; exact hl, ht, hfd, holds_iff.2 hh⟩

theorem held_setTable (h : Held ts table c) (hk : kind ≠ .none) (g : ℕ → Fd) :
    (ts.setTable c g).held kind ref ↔
      inTable g kind ref ∨ ts.heldOutside table c kind ref := by
  rw [(h.setTable g).held_iff hk, h.heldOutside_setTable, Tasks.setTable, put_self, fds_withFds]

end Held

theorem Coherent.held {ts : Tasks} {table : ℕ → ℕ} {c : ℕ} (h : Coherent ts table)
    (hc : (ts.task c).live = true) : Held ts table c where
  small := h.small
  used := used_of_live hc
  same := by
    intro i j hi hj
    refine h.sameGroup_iff hi ?_
    rcases hj with hj | rfl
    · exact hj
    · exact hc
  agree := fun i hi ht => h.agree i c hi hc ht
  alone := by
    intro hno
    rw [hc] at hno
    cases hno
  dead := fun i hu hl _ => h.dead i hu hl

end Ridux
