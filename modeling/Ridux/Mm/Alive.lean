import Ridux.Mm.PhysRef

/-!
# Frames that are alive

A frame is alive while the allocator has given it out and, if it is counted at all, its count is not
zero.  A frame in the quarantine is not alive.

* `Mm.Alive`, `Mm.Tracked`: the frames, and the invariant of the counts and the quarantine;
* `Mm.Moves`: a step that keeps the invariant, adds no cached page, and lets only cached pages go;
* `Mm.moves_release`, `Mm.moves_drain`, `Mm.moves_alloc`: the steps.
-/

namespace Ridux

open Lib Function

/-- The page number of a count. -/
def countedPage (idx : ℕ) : ℕ := c3PmmBase / pageSize + idx

namespace Mm

/-- A page that is given out, and counted if there is a count for it. -/
def Alive (m : Mm) (n : ℕ) : Prop :=
  n ≠ 0 ∧ m.paging.pmm.bitmap n = true ∧ ∀ idx < pmmMaxPages, n = countedPage idx → m.refcnt idx ≠ 0

/-- The invariant of the counts and the quarantine. -/
structure Tracked (m : Mm) : Prop where
  counted : ∀ idx, m.refcnt idx ≠ 0 → m.paging.pmm.bitmap (countedPage idx) = true
  waiting : ∀ s, m.quarantine s ≠ 0 → ∃ idx < pmmMaxPages,
    m.quarantine s = countedPage idx * pageSize ∧ m.refcnt idx = 0 ∧
      m.paging.pmm.bitmap (countedPage idx) = true
  apart : ∀ s t, m.quarantine s ≠ 0 → m.quarantine s = m.quarantine t → s = t

/-- A cached page has this frame. -/
def Caches (m : Mm) (n : ℕ) : Prop := ∃ i p, m.filePages i = some p ∧ p / pageSize = n

/-- A step that keeps the invariant, adds no cached page, and lets pages of `G` go, which are then
not cached. -/
structure Moves (G : ℕ → Prop) (m m' : Mm) : Prop where
  tracked : m'.Tracked
  files : ∀ i p, m'.filePages i = some p → m.filePages i = some p
  alive : ∀ n, m.Alive n → m'.Alive n ∨ G n ∧ ¬ m'.Caches n

variable {m m' m'' : Mm} {G G' : ℕ → Prop} {idx p n i q head : ℕ}

theorem Moves.caches (h : Moves G m m') (hn : m'.Caches n) : m.Caches n := by
  obtain ⟨i, p, hp, rfl⟩ := hn
  exact ⟨i, p, h.files i p hp, rfl⟩

theorem Moves.refl (h : m.Tracked) : Moves G m m := ⟨h, fun _ _ hp => hp, fun _ hn => .inl hn⟩

theorem Moves.trans (h : Moves G m m') (h' : Moves G m' m'') : Moves G m m'' where
  tracked := h'.tracked
  files i p hp := h.files i p (h'.files i p hp)
  alive n hn := by
    rcases h.alive n hn with hn' | ⟨hg, hnot⟩
    · exact h'.alive n hn'
    · exact .inr ⟨hg, fun hc => hnot (h'.caches hc)⟩

theorem Moves.mono (h : Moves G m m') (hle : ∀ n, G n → G' n) : Moves G' m m' where
  tracked := h.tracked
  files := h.files
  alive n hn := (h.alive n hn).imp_right fun ⟨hg, hnot⟩ => ⟨hle n hg, hnot⟩

/-! ### Counts by page -/

theorem countedPage_inj {j : ℕ} : countedPage i = countedPage j ↔ i = j := by
  unfold countedPage
  omega

theorem countedPage_lt (h : idx < pmmMaxPages) : countedPage idx < 2 ^ 32 := by
  have hmax : pmmMaxPages = 2097152 := rfl
  have hbase : c3PmmBase / pageSize = 512 := rfl
  unfold countedPage
  omega

theorem c3PhysRefIndex_eq_some :
    c3PhysRefIndex p = some idx ↔ p / pageSize = countedPage idx ∧ idx < pmmMaxPages := by
  have hmax : pmmMaxPages = 2097152 := rfl
  have hbase : c3PmmBase = 512 * pageSize := rfl
  have hpage : c3PmmBase / pageSize = 512 := rfl
  have hsize : 0 < pageSize := by decide
  have hsub : (pageBase p - c3PmmBase) / pageSize = p / pageSize - 512 := by
    rw [pageBase, hbase, ← Nat.sub_mul, Nat.mul_div_cancel _ hsize]
  have hlt : pageBase p < c3PmmBase ↔ p / pageSize < 512 := by
    rw [pageBase, hbase, Nat.mul_lt_mul_right hsize]
  unfold c3PhysRefIndex countedPage
  rw [hsub, hpage]
  simp only [hlt]
  by_cases h0 : p = 0
  · subst h0
    have hzero : 0 / pageSize = 0 := Nat.zero_div _
    rw [if_pos rfl]
    exact ⟨fun h => (by cases h), fun h => (by omega)⟩
  · rw [if_neg h0]
    split_ifs with h1 h2
    · exact ⟨fun h => (by cases h), fun h => (by omega)⟩
    · exact ⟨fun h => (by cases h), fun h => (by omega)⟩
    · simp only [Option.some.injEq]
      omega

theorem c3PhysRefIndex_pageBase (p : ℕ) : c3PhysRefIndex (pageBase p) = c3PhysRefIndex p := by
  have hdiv : pageBase p / pageSize = p / pageSize := by
    rw [pageBase, Nat.mul_div_cancel _ (by decide)]
  cases h : c3PhysRefIndex p with
  | some idx =>
    rw [c3PhysRefIndex_eq_some] at h ⊢
    rwa [hdiv]
  | none =>
    cases h' : c3PhysRefIndex (pageBase p) with
    | none => rfl
    | some idx =>
      rw [c3PhysRefIndex_eq_some, hdiv, ← c3PhysRefIndex_eq_some, h] at h'
      cases h'

theorem freeFrame_bitmap (m : Mm) (hidx : idx < pmmMaxPages) (hn : n ≠ countedPage idx) :
    (m.freeFrame (countedPage idx * pageSize)).paging.pmm.bitmap n = m.paging.pmm.bitmap n := by
  have hbase : pageBase (countedPage idx * pageSize) = countedPage idx * pageSize := by
    rw [pageBase, Nat.mul_div_cancel _ (by decide)]
  have hdown : pageDown (countedPage idx * pageSize) = countedPage idx * pageSize := hbase
  simp only [freeFrame, hbase]
  rcases pmmFreeFrame_cases (countedPage idx * pageSize) m.paging.pmm with ⟨j, hj, -, -, he⟩ | he
  · obtain ⟨-, -, hj⟩ := pmmFrameIndex_eq_some hj
    rw [hdown, Nat.mul_div_cancel _ (by decide), u32_of_lt (countedPage_lt hidx)] at hj
    rw [he]
    simp only
    rw [update_of_ne (by rw [hj]; exact hn)]
  · rw [he]

/-! ### The quarantine -/

theorem Tracked.free (h : m.Tracked) {s : ℕ} (hs : m.quarantine s ≠ 0) :
    (∀ n, m.Alive n → (m.freeFrame (m.quarantine s)).Alive n) ∧
      ∀ idx, m.quarantine s ≠ countedPage idx * pageSize →
        (m.freeFrame (m.quarantine s)).paging.pmm.bitmap (countedPage idx) =
          m.paging.pmm.bitmap (countedPage idx) := by
  obtain ⟨idx, hidx, hq, hzero, -⟩ := h.waiting s hs
  rw [hq]
  constructor
  · rintro n ⟨hn, hbit, hcount⟩
    have hne : n ≠ countedPage idx := fun he => hcount idx hidx he hzero
    exact ⟨hn, by rwa [freeFrame_bitmap m hidx hne], hcount⟩
  · intro j hj
    apply freeFrame_bitmap m hidx
    rintro he
    rw [he] at hj
    exact hj rfl

/-- A page that can go to the quarantine: its count is zero, it is given out, and it does not wait. -/
structure Ready (m : Mm) (idx : ℕ) : Prop where
  lt : idx < pmmMaxPages
  zero : m.refcnt idx = 0
  taken : m.paging.pmm.bitmap (countedPage idx) = true
  fresh : ∀ t, m.quarantine t ≠ countedPage idx * pageSize

theorem countedPage_mul_ne_zero (idx : ℕ) : countedPage idx * pageSize ≠ 0 := by
  have hbase : c3PmmBase / pageSize = 512 := rfl
  have hsize : 0 < pageSize := by decide
  unfold countedPage
  exact Nat.mul_ne_zero (by omega) hsize.ne'

/-- What entry `s` of the quarantine becomes: nothing, or a page that can go there. -/
def Entry (m : Mm) (q : ℕ) : Prop := q = 0 ∨ ∃ idx, q = countedPage idx * pageSize ∧ m.Ready idx

theorem Tracked.put (h : m.Tracked) (s : ℕ) {count : ℕ} (hq : m.Entry q) :
    Moves G m { m with
      quarantine := update m.quarantine s q
      quarantineHead := head
      quarantineCount := count } := by
  have hfresh : q ≠ 0 → ∀ t, m.quarantine t ≠ q := by
    intro h0 t
    rcases hq with hq | ⟨idx, rfl, hready⟩
    · exact absurd hq h0
    · exact hready.fresh t
  refine ⟨⟨h.counted, fun t ht => ?_, fun t u ht htu => ?_⟩, fun _ _ hp => hp, fun n hn => .inl hn⟩
  · by_cases hts : t = s
    · subst hts
      simp only [update_self] at ht ⊢
      rcases hq with hq | ⟨idx, hidx, hready⟩
      · exact absurd hq ht
      · exact ⟨idx, hready.lt, hidx, hready.zero, hready.taken⟩
    · simp only [update_of_ne hts] at ht ⊢
      exact h.waiting t ht
  · by_cases hts : t = s <;> by_cases hus : u = s
    · rw [hts, hus]
    · subst hts
      simp only [update_self, update_of_ne hus] at ht htu
      exact absurd htu.symm (hfresh ht u)
    · subst hus
      simp only [update_self, update_of_ne hts] at ht htu
      exact absurd htu (hfresh (htu ▸ ht) t)
    · simp only [update_of_ne hts, update_of_ne hus] at ht htu
      exact h.apart t u ht htu

theorem Tracked.replace (h : m.Tracked) (s : ℕ) {count : ℕ} (hq : m.Entry q) :
    Moves G m { if m.quarantine s ≠ 0 then m.freeFrame (m.quarantine s) else m with
      quarantine := update m.quarantine s q
      quarantineHead := head
      quarantineCount := count } := by
  have hput : Moves G m { m with
      quarantine := update m.quarantine s q
      quarantineHead := head
      quarantineCount := count } := h.put s hq
  by_cases hs : m.quarantine s = 0
  · rw [if_neg (not_not.2 hs)]
    exact hput
  · rw [if_pos hs]
    obtain ⟨halive, hbits⟩ := h.free hs
    obtain ⟨idx, hidx, hqs, hzero, -⟩ := h.waiting s hs
    have hcounted : ∀ j, m.refcnt j ≠ 0 → m.quarantine s ≠ countedPage j * pageSize := by
      intro j hj
      rw [hqs, Ne, Nat.mul_left_inj (by decide), countedPage_inj]
      rintro rfl
      exact hj hzero
    refine ⟨⟨fun j hj => ?_, fun t ht => ?_, hput.tracked.apart⟩, fun _ _ hp => hp,
      fun n hn => .inl (halive n hn)⟩
    · exact (hbits j (hcounted j hj)).trans (h.counted j hj)
    · obtain ⟨j, hj, hqj, hz, hbit⟩ := hput.tracked.waiting t ht
      refine ⟨j, hj, hqj, hz, (hbits j ?_).trans hbit⟩
      by_cases hts : t = s
      · subst hts
        simp only [update_self] at hqj
        rcases hq with hq | ⟨i, hi, hready⟩
        · exact absurd (hqj.symm.trans hq) (countedPage_mul_ne_zero j)
        · rw [← hqj, hi]
          exact hready.fresh _
      · simp only [update_of_ne hts] at hqj
        rw [← hqj]
        exact fun he => hts (h.apart s t hs he).symm

theorem Ready.take (h : m.Tracked) (hready : m.Ready idx) : m.quarantineTake.Ready idx := by
  refine ⟨hready.lt, ?_, ?_, fun t => ?_⟩
  · unfold quarantineTake
    split_ifs <;> exact hready.zero
  · unfold quarantineTake
    split_ifs with hs
    · exact ((h.free hs).2 idx (hready.fresh _)).trans hready.taken
    · exact hready.taken
  · show update m.quarantine m.quarantineHead 0 t ≠ _
    by_cases ht : t = m.quarantineHead
    · rw [ht, update_self]
      exact (countedPage_mul_ne_zero idx).symm
    · rw [update_of_ne ht]
      exact hready.fresh t

theorem moves_drain (h : m.Tracked) (n : ℕ) : Moves G m (c3PhysQuarantineDrain n m) ∧
    ∀ idx, m.Ready idx → (c3PhysQuarantineDrain n m).Ready idx := by
  induction n generalizing m with
  | zero => exact ⟨Moves.refl h, fun _ hr => hr⟩
  | succ n ih =>
    unfold c3PhysQuarantineDrain
    split_ifs
    · exact ⟨Moves.refl h, fun _ hr => hr⟩
    · have htake : Moves G m m.quarantineTake := h.replace _ (.inl rfl)
      obtain ⟨hmoves, hready⟩ := ih htake.tracked
      exact ⟨htake.trans hmoves, fun idx hr => hready idx (hr.take h)⟩

theorem moves_quarantine (h : m.Tracked) (hready : m.Ready idx) :
    Moves G m (c3PhysQuarantineFrame (countedPage idx * pageSize) m) := by
  have hbase : pageBase (countedPage idx * pageSize) = countedPage idx * pageSize := by
    rw [pageBase, Nat.mul_div_cancel _ (by decide)]
  have hput : ∀ {m : Mm}, m.Tracked → m.Ready idx →
      Moves G m (quarantinePut (countedPage idx * pageSize) m) := by
    intro m h hready
    unfold quarantinePut
    rw [hbase]
    by_cases hroom : m.quarantineCount < c3PhysQuarantineMax
    · rw [if_pos hroom]
      exact h.put _ (.inr ⟨idx, rfl, hready⟩)
    · rw [if_neg hroom]
      exact h.replace _ (.inr ⟨idx, rfl, hready⟩)
  unfold c3PhysQuarantineFrame
  rw [if_neg (countedPage_mul_ne_zero idx)]
  split_ifs
  · obtain ⟨hmoves, hdrained⟩ := moves_drain (G := G) h 256
    exact hmoves.trans (hput hmoves.tracked (hdrained idx hready))
  · exact hput h hready

/-! ### References -/

theorem moves_release (h : m.Tracked) (p : ℕ) :
    Moves (fun n => n = p / pageSize) m (m.c3PhysRefRelease p) := by
  unfold c3PhysRefRelease
  cases hp : c3PhysRefIndex p with
  | none => exact Moves.refl h
  | some idx =>
    obtain ⟨hpage, hlt⟩ := c3PhysRefIndex_eq_some.1 hp
    simp only
    by_cases h0 : m.refcnt idx = 0
    · rw [if_pos h0]
      exact Moves.refl h
    rw [if_neg h0]
    by_cases h1 : 1 < m.refcnt idx
    · rw [if_pos h1]
      have hsame : ∀ j, update m.refcnt idx (m.refcnt idx - 1) j = 0 ↔ m.refcnt j = 0 := by
        intro j
        by_cases hj : j = idx
        · subst hj
          rw [update_self]
          omega
        · rw [update_of_ne hj]
      refine ⟨⟨fun j hj => h.counted j (mt (hsame j).2 hj), fun t ht => ?_, h.apart⟩, fun _ _ hq => hq, ?_⟩
      · obtain ⟨j, hj, hqj, hz, hbit⟩ := h.waiting t ht
        exact ⟨j, hj, hqj, (hsame j).2 hz, hbit⟩
      · rintro n ⟨hn, hbit, hcount⟩
        exact .inl ⟨hn, hbit, fun j hj hnj => mt (hsame j).1 (hcount j hj hnj)⟩
    · rw [if_neg h1]
      -- the last reference: the count is zero, and no cached page has the frame any more
      have hzero : Moves (fun n => n = p / pageSize) m
          (c3FilePageInvalidatePhys p { m with refcnt := update m.refcnt idx 0 }) := by
        refine ⟨⟨fun j hj => ?_, fun t ht => ?_, h.apart⟩, fun i q hq => ?_, ?_⟩
        · have hj : update m.refcnt idx 0 j ≠ 0 := hj
          by_cases hji : j = idx
          · subst hji
            simp at hj
          · rw [update_of_ne hji] at hj
            exact h.counted j hj
        · obtain ⟨j, hj, hqj, hz, hbit⟩ := h.waiting t ht
          refine ⟨j, hj, hqj, ?_, hbit⟩
          show update m.refcnt idx 0 j = 0
          by_cases hji : j = idx
          · rw [hji, update_self]
          · rw [update_of_ne hji]
            exact hz
        · exact (Option.filter_eq_some_iff.1 hq).1
        · rintro n ⟨hn, hbit, hcount⟩
          by_cases hnp : n = p / pageSize
          · refine .inr ⟨hnp, ?_⟩
            rintro ⟨i, q, hq, rfl⟩
            have := (Option.filter_eq_some_iff.1 hq).2
            simp only [pageBase, hnp, ne_eq, not_true_eq_false, decide_false, Bool.false_eq_true] at this
          · refine .inl ⟨hn, hbit, fun j hj hnj => ?_⟩
            show update m.refcnt idx 0 j ≠ 0
            rw [update_of_ne]
            · exact hcount j hj hnj
            · rintro rfl
              exact hnp (hnj.trans hpage.symm)
      have hready :
          (c3FilePageInvalidatePhys p { m with refcnt := update m.refcnt idx 0 }).Ready idx := by
        refine ⟨hlt, update_self .., h.counted idx h0, fun t ht => ?_⟩
        have ht : m.quarantine t = countedPage idx * pageSize := ht
        obtain ⟨j, -, hqj, hz, -⟩ := h.waiting t (by rw [ht]; exact countedPage_mul_ne_zero idx)
        rw [ht, Nat.mul_left_inj (by decide), countedPage_inj] at hqj
        exact h0 (hqj ▸ hz)
      have hbase : pageBase p = countedPage idx * pageSize := by rw [pageBase, hpage]
      rw [hbase]
      exact hzero.trans (moves_quarantine hzero.tracked hready)

theorem Tracked.recount (h : m.Tracked) {refcnt : ℕ → ℕ}
    (hsame : ∀ idx, refcnt idx = 0 ↔ m.refcnt idx = 0) : Moves G m { m with refcnt := refcnt } := by
  refine ⟨⟨fun j hj => h.counted j (mt (hsame j).2 hj), fun t ht => ?_, h.apart⟩, fun _ _ hq => hq, ?_⟩
  · obtain ⟨j, hj, hqj, hz, hbit⟩ := h.waiting t ht
    exact ⟨j, hj, hqj, (hsame j).2 hz, hbit⟩
  · rintro n ⟨hn, hbit, hcount⟩
    exact .inl ⟨hn, hbit, fun j hj hnj => mt (hsame j).1 (hcount j hj hnj)⟩

theorem moves_retain (h : m.Tracked) (hp : m.Alive (p / pageSize)) :
    Moves G m (m.c3PhysRefRetain p) := by
  unfold c3PhysRefRetain
  cases hidx : c3PhysRefIndex p with
  | none => exact Moves.refl h
  | some idx =>
    obtain ⟨hpage, hlt⟩ := c3PhysRefIndex_eq_some.1 hidx
    have h0 := hp.2.2 idx hlt hpage
    simp only
    rw [if_neg h0]
    split_ifs
    · apply h.recount
      intro j
      by_cases hj : j = idx
      · subst hj
        rw [update_self]
        omega
      · rw [update_of_ne hj]
    · exact Moves.refl h

/-! ### New frames -/

/-- A page that was just given out: nobody counts it, caches it or waits for it. -/
structure Fresh (m : Mm) (n : ℕ) : Prop where
  pos : n ≠ 0
  taken : m.paging.pmm.bitmap n = true
  uncounted : ∀ idx < pmmMaxPages, n = countedPage idx → m.refcnt idx = 0
  uncached : ¬ m.Caches n
  fresh : ∀ t, m.quarantine t ≠ n * pageSize

theorem moves_alloc (h : m.Tracked) (hcached : ∀ n, m.Caches n → m.Alive n) :
    let r := pmmAllocFrame m.paging.pmm
    let m' : Mm := { m with paging := { m.paging with pmm := r.2 } }
    Moves G m m' ∧ (r.1 ≠ 0 → r.1 = r.1 / pageSize * pageSize ∧ m'.Fresh (r.1 / pageSize)) := by
  have hgrow : ∀ {s : Pmm}, (∀ n, m.paging.pmm.bitmap n = true → s.bitmap n = true) →
      Moves G m { m with paging := { m.paging with pmm := s } } := by
    intro s hs
    refine ⟨⟨fun j hj => hs _ (h.counted j hj), fun t ht => ?_, h.apart⟩, fun _ _ hp => hp, ?_⟩
    · obtain ⟨j, hj, hqj, hz, hbit⟩ := h.waiting t ht
      exact ⟨j, hj, hqj, hz, hs _ hbit⟩
    · rintro n ⟨hn, hbit, hcount⟩
      exact .inl ⟨hn, hs n hbit, hcount⟩
  rcases pmmAllocFrame_cases m.paging.pmm with ⟨n, -, hfree, he⟩ | ⟨-, he⟩
  · have hbit : m.paging.pmm.bitmap n = false := by
      simp only [Pmm.isFree, Bool.and_eq_true, Bool.not_eq_true'] at hfree
      exact hfree.1
    have hdiv : n * pageSize / pageSize = n := Nat.mul_div_cancel _ (by decide)
    rw [he]
    refine ⟨hgrow fun j hj => Pmm.setBlock_eq_true_of n 1 hj, fun h0 => ?_⟩
    simp only at h0 ⊢
    rw [hdiv]
    refine ⟨rfl, ?_, ?_, fun idx _ hidx => ?_, fun hc => ?_, fun t ht => ?_⟩
    · rintro rfl
      simp at h0
    · simp [setBlock]
    · by_contra hcount
      rw [hidx, h.counted idx hcount] at hbit
      cases hbit
    · rw [(hcached n hc).2.1] at hbit
      cases hbit
    · have ht : m.quarantine t = n * pageSize := ht
      obtain ⟨idx, -, hq, -, hb⟩ := h.waiting t (by rw [ht]; exact h0)
      rw [ht, Nat.mul_left_inj (by decide)] at hq
      rw [hq, hb] at hbit
      cases hbit
  · rw [he]
    exact ⟨hgrow fun _ hj => hj, fun h0 => absurd rfl h0⟩

theorem moves_setInitial (h : m.Tracked) (hfresh : m.Fresh (p / pageSize)) :
    Moves G m (m.c3PhysRefSetInitial p) ∧ (m.c3PhysRefSetInitial p).Alive (p / pageSize) := by
  unfold c3PhysRefSetInitial
  cases hidx : c3PhysRefIndex p with
  | none =>
    refine ⟨Moves.refl h, hfresh.pos, hfresh.taken, fun idx hlt he => ?_⟩
    rw [c3PhysRefIndex_eq_some.2 ⟨he, hlt⟩] at hidx
    cases hidx
  | some idx =>
    obtain ⟨hpage, hlt⟩ := c3PhysRefIndex_eq_some.1 hidx
    simp only
    rw [if_pos (hfresh.uncounted idx hlt hpage)]
    refine ⟨⟨⟨fun j hj => ?_, fun t ht => ?_, h.apart⟩, fun _ _ hq => hq, ?_⟩, hfresh.pos, hfresh.taken, ?_⟩
    · by_cases hji : j = idx
      · subst hji
        rw [← hpage]
        exact hfresh.taken
      · simp only [update_of_ne hji] at hj
        exact h.counted j hj
    · obtain ⟨j, hj, hqj, hz, hbit⟩ := h.waiting t ht
      refine ⟨j, hj, hqj, ?_, hbit⟩
      simp only
      rw [update_of_ne]
      · exact hz
      · rintro rfl
        exact hfresh.fresh t (by rw [hqj, hpage])
    · rintro n ⟨hn, hbit, hcount⟩
      refine .inl ⟨hn, hbit, fun j hj hnj => ?_⟩
      simp only
      by_cases hji : j = idx
      · rw [hji, update_self]
        decide
      · rw [update_of_ne hji]
        exact hcount j hj hnj
    · intro j _ hnj
      rw [countedPage_inj.1 (hnj.symm.trans hpage)]
      simp

theorem moves_reclaim (h : m.Tracked) (hi : m.filePages i = some p)
    (hsingle : ∀ j q, m.filePages j = some q → q / pageSize = p / pageSize → j = i)
    (hidx : c3PhysRefIndex (pageBase p) = some idx) (hone : m.refcnt idx = 1) :
    Moves m.Caches m (Mm.freeFrame { m with
      filePages := update m.filePages i none
      refcnt := update m.refcnt idx 0 } p) := by
  rw [c3PhysRefIndex_pageBase] at hidx
  obtain ⟨hpage, hlt⟩ := c3PhysRefIndex_eq_some.1 hidx
  have hfree : ∀ m' : Mm, m'.freeFrame p = m'.freeFrame (countedPage idx * pageSize) := by
    intro m'
    have hbase : pageBase (countedPage idx * pageSize) = pageBase p := by
      rw [pageBase, pageBase, hpage, Nat.mul_div_cancel _ (by decide)]
    rw [freeFrame, freeFrame, hbase]
  rw [hfree]
  generalize hm' : ({ m with
    filePages := update m.filePages i none
    refcnt := update m.refcnt idx 0 } : Mm) = m'
  have hbits : ∀ n, n ≠ countedPage idx →
      (m'.freeFrame (countedPage idx * pageSize)).paging.pmm.bitmap n = m.paging.pmm.bitmap n := by
    intro n hn
    rw [freeFrame_bitmap m' hlt hn, ← hm']
  have hcount : ∀ j, j ≠ idx → m'.refcnt j = m.refcnt j := by
    intro j hj
    rw [← hm']
    exact update_of_ne hj _ _
  have hzero : m'.refcnt idx = 0 := by
    rw [← hm']
    exact update_self ..
  refine ⟨⟨fun j hj => ?_, fun t ht => ?_, ?_⟩, fun j q hq => ?_, ?_⟩
  · have hj : m'.refcnt j ≠ 0 := hj
    have hji : j ≠ idx := by
      rintro rfl
      exact hj hzero
    rw [hbits _ (mt countedPage_inj.1 hji)]
    rw [hcount j hji] at hj
    exact h.counted j hj
  · have hq : (m'.freeFrame (countedPage idx * pageSize)).quarantine = m.quarantine := by
      rw [← hm']
      rfl
    rw [hq] at ht ⊢
    obtain ⟨j, hj, hqj, hz, hbit⟩ := h.waiting t ht
    have hji : j ≠ idx := by
      rintro rfl
      omega
    exact ⟨j, hj, hqj, (hcount j hji).trans hz, by rwa [hbits _ (mt countedPage_inj.1 hji)]⟩
  · have hq : (m'.freeFrame (countedPage idx * pageSize)).quarantine = m.quarantine := by
      rw [← hm']
      rfl
    rw [hq]
    exact h.apart
  · have hq : m'.filePages j = some q := hq
    rw [← hm'] at hq
    simp only [update_apply] at hq
    split_ifs at hq
    exact hq
  · rintro n ⟨hn, hbit, hall⟩
    by_cases hni : n = countedPage idx
    · refine .inr ⟨⟨i, p, hi, hpage.trans hni.symm⟩, ?_⟩
      rintro ⟨j, q, hq, hqn⟩
      have hq : m'.filePages j = some q := hq
      rw [← hm'] at hq
      simp only [update_apply] at hq
      split_ifs at hq with hji
      exact hji (hsingle j q hq (by rw [hqn, hni, hpage]))
    · refine .inl ⟨hn, by rwa [hbits n hni], fun j hj hnj => ?_⟩
      have hji : j ≠ idx := by
        rintro rfl
        exact hni hnj
      show m'.refcnt j ≠ 0
      rw [hcount j hji]
      exact hall j hj hnj

end Mm

end Ridux
