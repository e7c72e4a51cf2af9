import Ridux.Mm.Alive
import Ridux.Mm.FileCache

/-!
# What the page cache holds

* `FileCache.Sound`: cached frames are alive and apart, and no page is cached twice;
* `FileCache.Holds`: each cached frame has the bytes of its page;
* `FileCache.Sheds`: a step that may drop cached pages, and leaves alone what stays;
* `getFrame_spec`, `invalidatePath_spec`, `renamePath_spec`: the operations.
-/

namespace Ridux

open Lib Function Option

namespace FileCache

/-- The invariant of the array. -/
structure Sound (c : FileCache) : Prop where
  tracked : c.mm.Tracked
  bounded : ∀ i p, c.mm.filePages i = some p → i < c3FilepageMax
  base : ∀ i p, c.mm.filePages i = some p → pageBase p = p
  alive : ∀ n, c.mm.Caches n → c.mm.Alive n
  single : ∀ i j p, c.mm.filePages i = some p → c.mm.filePages j = some p → i = j
  keyed : ∀ i j, c.used i = true → c.used j = true → c.key i = c.key j → i = j
  named : ∀ i, c.used i = true → (c.key i).path ≠ []

/-- Each cached frame has the bytes of its page of the file. -/
def Holds (files : Bytes → Option Bytes) (c : FileCache) : Prop :=
  ∀ i p, c.mm.filePages i = some p →
    ∃ data, files (c.key i).path = some data ∧ c.page p = pageOf data (c.key i).pageOff

/-- A step that caches nothing new and leaves alone what stays cached. -/
structure Sheds (G : ℕ → Prop) (c c' : FileCache) : Prop where
  moves : Mm.Moves G c.mm c'.mm
  kept : ∀ i p, c'.mm.filePages i = some p → c'.key i = c.key i ∧ c'.page p = c.page p

variable {c c' c'' : FileCache} {G : ℕ → Prop} {k : FileKey} {i : ℕ} {files : Bytes → Option Bytes}
  {oldPath newPath data : Bytes}

theorem used_iff : c.used i = true ↔ ∃ p, c.mm.filePages i = some p := isSome_iff_exists

theorem isFor_iff : c.isFor k i = true ↔ c.used i = true ∧ c.key i = k := by
  rw [isFor, Bool.and_eq_true, decide_eq_true_eq]

theorem Sheds.used (h : Sheds G c c') (hi : c'.used i = true) : c.used i = true ∧ c'.key i = c.key i := by
  obtain ⟨p, hp⟩ := used_iff.1 hi
  exact ⟨used_iff.2 ⟨p, h.moves.files i p hp⟩, (h.kept i p hp).1⟩

theorem Sheds.sound (h : Sheds G c c') (hc : c.Sound) : c'.Sound where
  tracked := h.moves.tracked
  bounded i p hp := hc.bounded i p (h.moves.files i p hp)
  base i p hp := hc.base i p (h.moves.files i p hp)
  alive n hn := by
    rcases h.moves.alive n (hc.alive n (h.moves.caches hn)) with ha | ⟨-, hnot⟩
    · exact ha
    · exact absurd hn hnot
  single i j p hi hj := hc.single i j p (h.moves.files i p hi) (h.moves.files j p hj)
  keyed i j hi hj he := by
    obtain ⟨hui, hki⟩ := h.used hi
    obtain ⟨huj, hkj⟩ := h.used hj
    rw [hki, hkj] at he
    exact hc.keyed i j hui huj he
  named i hi := by
    obtain ⟨hui, hki⟩ := h.used hi
    rw [hki]
    exact hc.named i hui

theorem Sheds.holds (h : Sheds G c c') (hc : c.Holds files) : c'.Holds files := by
  intro i p hp
  obtain ⟨data, hfile, hpage⟩ := hc i p (h.moves.files i p hp)
  obtain ⟨hkey, hkept⟩ := h.kept i p hp
  exact ⟨data, by rw [hkey, hfile], by rw [hkept, hkey, hpage]⟩

theorem Sheds.refl (hc : c.Sound) : Sheds G c c := ⟨Mm.Moves.refl hc.tracked, fun _ _ _ => ⟨rfl, rfl⟩⟩

theorem Sheds.trans (h : Sheds G c c') (h' : Sheds G c' c'') : Sheds G c c'' where
  moves := h.moves.trans h'.moves
  kept i p hp := by
    obtain ⟨hkey, hpage⟩ := h'.kept i p hp
    obtain ⟨hkey', hpage'⟩ := h.kept i p (h'.moves.files i p hp)
    exact ⟨hkey.trans hkey', hpage.trans hpage'⟩

theorem Sheds.mono {G' : ℕ → Prop} (h : Sheds G c c') (hle : ∀ n, G n → G' n) :
    Sheds G' c c' := ⟨h.moves.mono hle, h.kept⟩

theorem Sheds.then (h : Sheds c.mm.Caches c c') (h' : Sheds c'.mm.Caches c' c'') :
    Sheds c.mm.Caches c c'' := h.trans (h'.mono fun _ hn => h.moves.caches hn)

theorem Sheds.ofMoves {m : Mm} (h : Mm.Moves G c.mm m) : Sheds G c { c with mm := m } :=
  ⟨h, fun _ _ _ => ⟨rfl, rfl⟩⟩

theorem Sheds.stays (h : Sheds c.mm.Caches c c') {n : ℕ} (hn : c.mm.Alive n) (hnot : ¬ c.mm.Caches n) :
    c'.mm.Alive n ∧ ¬ c'.mm.Caches n :=
  ⟨(h.moves.alive n hn).resolve_right fun hg => hnot hg.1, fun hn => hnot (h.moves.caches hn)⟩

/-- No element is used for a key. -/
def Lacks (c : FileCache) (k : FileKey) : Prop := ∀ i, c.used i = true → c.key i ≠ k

theorem Sheds.lacks (h : Sheds G c c') (hk : c.Lacks k) : c'.Lacks k := by
  intro i hi
  obtain ⟨hui, hki⟩ := h.used hi
  rw [hki]
  exact hk i hui

/-! ### Dropping -/

theorem clear_filePages (i j : ℕ) (p : ℕ) (h : (c.clear i).mm.filePages j = some p) :
    j ≠ i ∧ c.mm.filePages j = some p := by
  rcases update_cases (t := c.mm.filePages) h with ⟨-, h⟩ | h
  · cases h
  · exact h

theorem used_clear (i j : ℕ) : (c.clear i).used j = (c.used j && decide (j ≠ i)) := by
  by_cases hj : j = i
  · subst hj
    simp [used, clear]
  · simp [used, clear, hj]

theorem sheds_clear (hc : c.mm.Tracked) (i : ℕ) : Sheds G c (c.clear i) where
  moves :=
    ⟨⟨hc.counted, hc.waiting, hc.apart⟩, fun j p hp => (clear_filePages i j p hp).2, fun _ hn => .inl hn⟩
  kept _ _ _ := ⟨rfl, rfl⟩

theorem sheds_dropSlot (hc : c.Sound) (i : ℕ) : Sheds c.mm.Caches c (c.dropSlot i) := by
  unfold dropSlot
  cases hp : c.mm.filePages i with
  | none => exact Sheds.refl hc
  | some p =>
    simp only
    split_ifs
    · have hrelease : Sheds c.mm.Caches c { c with mm := c.mm.c3PhysRefRelease (pageBase p) } := by
        refine Sheds.ofMoves ((Mm.moves_release hc.tracked (pageBase p)).mono ?_)
        rintro n rfl
        exact ⟨i, p, hp, by rw [hc.base i p hp]⟩
      exact hrelease.trans (sheds_clear hrelease.moves.tracked i)
    · exact sheds_clear hc.tracked i

theorem used_dropSlot (i : ℕ) : (c.dropSlot i).used i = false := by
  unfold dropSlot
  cases hp : c.mm.filePages i with
  | none => rw [used, hp]; rfl
  | some p => simp [used_clear]

theorem page_dropSlot (i : ℕ) : (c.dropSlot i).page = c.page := by
  unfold dropSlot
  split <;> rfl

theorem invalidatePath_spec (hc : c.Sound) (path : Bytes) :
    Sheds c.mm.Caches c (c.invalidatePath path) ∧
      ∀ i, (c.invalidatePath path).used i = true → ((c.invalidatePath path).key i).path ≠ path := by
  unfold invalidatePath
  by_cases hpath : path = []
  · rw [if_pos hpath]
    refine ⟨Sheds.refl hc, fun i hi => ?_⟩
    rw [hpath]
    exact hc.named i hi
  rw [if_neg hpath]
  -- the loop has dropped the pages of the path among the elements that it has passed
  have hloop := foldl_range_invariant
    (P := fun n c' => Sheds c.mm.Caches c c' ∧ ∀ i < n, c'.used i = true → (c'.key i).path ≠ path)
    (f := fun c i => if c.used i ∧ (c.key i).path = path then c.dropSlot i else c)
    (n := c3FilepageMax) (s := c) ⟨Sheds.refl hc, fun _ h => absurd h (Nat.not_lt_zero _)⟩ ?_
  · obtain ⟨hsheds, hnone⟩ := hloop
    refine ⟨hsheds, fun i hi => ?_⟩
    obtain ⟨p, hp⟩ := used_iff.1 hi
    exact hnone i ((hsheds.sound hc).bounded i p hp) hi
  · rintro n - c' ⟨hsheds, hnone⟩
    by_cases hn : c'.used n ∧ (c'.key n).path = path
    · simp only [if_pos hn]
      have hdrop := sheds_dropSlot (hsheds.sound hc) n
      refine ⟨hsheds.then hdrop, fun i hi hu => ?_⟩
      by_cases hin : i = n
      · rw [hin, used_dropSlot] at hu
        cases hu
      · obtain ⟨hu', hkey⟩ := hdrop.used hu
        rw [hkey]
        exact hnone i (by omega) hu'
    · simp only [if_neg hn]
      refine ⟨hsheds, fun i hi hu => ?_⟩
      by_cases hin : i = n
      · subst hin
        exact fun he => hn ⟨hu, he⟩
      · exact hnone i (by omega) hu

/-! ### Reclaiming -/

theorem sheds_reclaimOne (hc : c.Sound) : Sheds c.mm.Caches c c.reclaimOne.2 := by
  unfold reclaimOne
  cases hs : firstSlot c.reclaimable c3FilepageMax with
  | none => exact Sheds.refl hc
  | some i =>
    have hi := (firstSlot_eq_some hs).2
    unfold reclaimable at hi
    cases hp : c.mm.filePages i with
    | none =>
      simp only [hp] at hi
      cases hi
    | some p =>
      simp only [hp, Bool.and_eq_true] at hi
      obtain ⟨idx, hidx, hone⟩ := (any_eq_true ..).1 hi.2
      rw [decide_eq_true_eq] at hone
      have hsingle : ∀ j q, c.mm.filePages j = some q → q / pageSize = p / pageSize → j = i := by
        intro j q hq hqp
        have hbase := hc.base j q hq
        rw [pageBase, hqp, ← pageBase, hc.base i p hp] at hbase
        exact hc.single j i p (hbase ▸ hq) hp
      have hmoves := Mm.moves_reclaim hc.tracked hp hsingle hidx hone
      simp only [hp, hidx]
      exact ⟨hmoves, fun _ _ _ => ⟨rfl, rfl⟩⟩

theorem sheds_reclaim (hc : c.Sound) (n : ℕ) : Sheds c.mm.Caches c (c.reclaim n) := by
  induction n generalizing c with
  | zero => exact Sheds.refl hc
  | succ n ih =>
    have hone := sheds_reclaimOne hc
    unfold reclaim
    simp only
    split_ifs
    · exact hone.then (ih (hone.sound hc))
    · exact hone

theorem sheds_drain (hc : c.Sound) (n : ℕ) : Sheds G c (c.drain n) :=
  Sheds.ofMoves (Mm.moves_drain hc.tracked n).1

/-! ### New frames -/

/-- The frame that an allocation returns, if any, is new. -/
def Allocates (c : FileCache) (r : ℕ × FileCache) : Prop :=
  Sheds c.mm.Caches c r.2 ∧ (r.1 ≠ 0 → pageBase r.1 = r.1 ∧ r.2.mm.Fresh (r.1 / pageSize))

theorem allocates_allocFrame (hc : c.Sound) : c.Allocates c.allocFrame := by
  obtain ⟨hmoves, hfresh⟩ := Mm.moves_alloc (G := c.mm.Caches) hc.tracked hc.alive
  exact ⟨Sheds.ofMoves hmoves, fun h0 => ⟨(hfresh h0).1.symm, (hfresh h0).2⟩⟩

theorem Allocates.after {r : ℕ × FileCache} (h : Sheds c.mm.Caches c c') (hr : c'.Allocates r) :
    c.Allocates r := ⟨h.then hr.1, hr.2⟩

theorem allocates_retry (hc : c.Sound) (n : ℕ) : c.Allocates ((c.reclaim n).drain n).allocFrame := by
  have hreclaim := sheds_reclaim hc n
  have hdrain := hreclaim.then (sheds_drain (hreclaim.sound hc) n)
  exact (allocates_allocFrame (hdrain.sound hc)).after hdrain

theorem allocates_allocUserFrame (hc : c.Sound) : c.Allocates c.allocUserFrame := by
  have hfirst : ∀ {c : FileCache}, c.Sound → c.Allocates (
      if c.allocFrame.1 ≠ 0 then c.allocFrame
      else
        let r := ((c.allocFrame.2.reclaim 512).drain 512).allocFrame
        if r.1 ≠ 0 then r else ((r.2.reclaim 2048).drain 2048).allocFrame) := by
    intro c hc
    have h₁ := allocates_allocFrame hc
    have h₂ := allocates_retry (h₁.1.sound hc) 512
    have h₃ := allocates_retry (h₂.1.sound (h₁.1.sound hc)) 2048
    simp only
    split_ifs
    · exact h₁
    · exact h₂.after h₁.1
    · exact (h₃.after h₂.1).after h₁.1
  unfold allocUserFrame
  by_cases hlow : pmmFreeCount c.mm.paging.pmm < 256
  · have hreclaim := sheds_reclaim hc 128
    have hdrain := hreclaim.then (sheds_drain (hreclaim.sound hc) 128)
    simp only [if_pos hlow]
    exact (hfirst (hdrain.sound hc)).after hdrain
  · simp only [if_neg hlow]
    exact hfirst hc

/-- A frame that no element has, with the bytes of a page. -/
structure Filled (frame : ℕ) (bytes : Bytes) (c : FileCache) : Prop where
  base : pageBase frame = frame
  alive : c.mm.Alive (frame / pageSize)
  uncached : ¬ c.mm.Caches (frame / pageSize)
  page : c.page frame = bytes

theorem fill_spec (hc : c.Sound) {frame : ℕ} (hbase : pageBase frame = frame)
    (hfresh : c.mm.Fresh (frame / pageSize)) (bytes : Bytes) :
    Sheds G c (c.fill frame bytes) ∧ (c.fill frame bytes).Filled frame bytes := by
  obtain ⟨hmoves, halive⟩ := Mm.moves_setInitial (G := G) hc.tracked hfresh
  refine ⟨⟨hmoves, fun i p hp => ⟨rfl, update_of_ne ?_ _ _⟩⟩,
    ⟨hbase, halive, fun hn => hfresh.uncached (hmoves.caches hn), update_self ..⟩⟩
  rintro rfl
  exact hfresh.uncached ⟨i, p, hmoves.files i p hp, rfl⟩

theorem Filled.sheds {frame : ℕ} {bytes : Bytes} (h : c.Filled frame bytes)
    (hs : Sheds c.mm.Caches c c') (hpage : c'.page = c.page) : c'.Filled frame bytes := by
  obtain ⟨halive, huncached⟩ := hs.stays h.alive h.uncached
  exact ⟨h.base, halive, huncached, by rw [hpage, h.page]⟩

/-! ### Elements -/

theorem allocSlot_spec (hc : c.Sound) (path : Bytes) :
    Sheds c.mm.Caches c (c.allocSlot path).2 ∧ (c.allocSlot path).2.page = c.page ∧
      ∀ i, (c.allocSlot path).1 = some i → i < c3FilepageMax ∧ (c.allocSlot path).2.used i = false := by
  unfold allocSlot
  cases hfree : firstSlot (fun i => !c.used i) c3FilepageMax with
  | some i =>
    refine ⟨Sheds.refl hc, rfl, fun j hj => ?_⟩
    obtain rfl := some.inj hj
    obtain ⟨hlt, hu⟩ := firstSlot_eq_some hfree
    exact ⟨hlt, by simpa using hu⟩
  | none =>
    simp only
    split_ifs
    · cases hdrop : firstSlot (fun i => c.used i && !filePageMustKeep (c.key i).path) c3FilepageMax with
      | some i =>
        refine ⟨sheds_dropSlot hc i, page_dropSlot i, fun j hj => ?_⟩
        obtain rfl := some.inj hj
        exact ⟨(firstSlot_eq_some hdrop).1, used_dropSlot i⟩
      | none => exact ⟨Sheds.refl hc, rfl, fun j hj => by cases hj⟩
    · exact ⟨Sheds.refl hc, rfl, fun j hj => by cases hj⟩

/-- The cache without its hints. -/
structure Same (c c' : FileCache) : Prop where
  mm : c'.mm = c.mm
  key : c'.key = c.key
  page : c'.page = c.page

theorem Same.sheds (h : Same c c') (hc : c.Sound) : Sheds G c c' where
  moves := by
    rw [h.mm]
    exact Mm.Moves.refl hc.tracked
  kept _ _ _ := ⟨by rw [h.key], by rw [h.page]⟩

theorem same_cacheSlot (c : FileCache) (i : ℕ) : Same c (c.cacheSlot i) := by
  unfold cacheSlot
  split_ifs <;> exact ⟨rfl, rfl, rfl⟩

theorem setSlot_spec (hc : c.Sound) (hfiles : c.Holds files) (hi : i < c3FilepageMax)
    (hfree : c.used i = false) (hk : c.Lacks k) (hpath : k.path ≠ []) {frame : ℕ}
    (hdata : files k.path = some data) (hfilled : c.Filled frame (pageOf data k.pageOff)) :
    (c.setSlot i k frame).Sound ∧ (c.setSlot i k frame).Holds files ∧
      (c.setSlot i k frame).page frame = pageOf data k.pageOff := by
  -- the element is written first, then the reference of the cache is counted
  generalize hc₁ : ({ c with
    mm := { c.mm with filePages := update c.mm.filePages i (some frame) }
    key := update c.key i k
    hash := update c.hash i (filePageHashFor k.path k.pageOff) } : FileCache) = c₁
  have hfp : c₁.mm.filePages = update c.mm.filePages i (some frame) := by rw [← hc₁]
  have hkey : c₁.key = update c.key i k := by rw [← hc₁]
  have hpage : c₁.page = c.page := by rw [← hc₁]
  have halive : ∀ n, c₁.mm.Alive n ↔ c.mm.Alive n := by
    intro n
    rw [← hc₁]
    exact Iff.rfl
  have hcases : ∀ j p, c₁.mm.filePages j = some p →
      (j = i ∧ p = frame) ∨ (j ≠ i ∧ c.mm.filePages j = some p) := by
    intro j p hp
    rw [hfp] at hp
    exact (update_cases hp).imp_left fun h => ⟨h.1, (some.inj h.2).symm⟩
  have huncached : ∀ j p, c.mm.filePages j = some p → p ≠ frame := by
    rintro j p hp rfl
    exact hfilled.uncached ⟨j, p, hp, rfl⟩
  have hsound₁ : c₁.Sound := by
    refine ⟨?_, fun j p hp => ?_, fun j p hp => ?_, ?_, fun j l p hj hl => ?_, fun j l hj hl he => ?_,
      fun j hj => ?_⟩
    · rw [← hc₁]
      exact ⟨hc.tracked.counted, hc.tracked.waiting, hc.tracked.apart⟩
    · rcases hcases j p hp with ⟨rfl, -⟩ | ⟨-, hp⟩
      · exact hi
      · exact hc.bounded j p hp
    · rcases hcases j p hp with ⟨-, rfl⟩ | ⟨-, hp⟩
      · exact hfilled.base
      · exact hc.base j p hp
    · rintro n ⟨j, p, hp, rfl⟩
      rw [halive]
      rcases hcases j p hp with ⟨-, rfl⟩ | ⟨-, hp⟩
      · exact hfilled.alive
      · exact hc.alive _ ⟨j, p, hp, rfl⟩
    · rcases hcases j p hj with ⟨rfl, rfl⟩ | ⟨-, hj⟩ <;> rcases hcases l _ hl with ⟨rfl, hf⟩ | ⟨-, hl⟩
      · rfl
      · exact absurd rfl (huncached l _ hl)
      · exact absurd hf (huncached j p hj)
      · exact hc.single j l p hj hl
    · obtain ⟨p, hp⟩ := used_iff.1 hj
      obtain ⟨q, hq⟩ := used_iff.1 hl
      rw [hkey] at he
      rcases hcases j p hp with ⟨rfl, -⟩ | ⟨hji, hp⟩ <;> rcases hcases l q hq with ⟨rfl, -⟩ | ⟨hli, hq⟩
      · rfl
      · rw [update_self, update_of_ne hli] at he
        exact absurd he.symm (hk l (used_iff.2 ⟨q, hq⟩))
      · rw [update_self, update_of_ne hji] at he
        exact absurd he (hk j (used_iff.2 ⟨p, hp⟩))
      · rw [update_of_ne hji, update_of_ne hli] at he
        exact hc.keyed j l (used_iff.2 ⟨p, hp⟩) (used_iff.2 ⟨q, hq⟩) he
    · obtain ⟨p, hp⟩ := used_iff.1 hj
      rw [hkey]
      rcases hcases j p hp with ⟨rfl, -⟩ | ⟨hji, hp⟩
      · rwa [update_self]
      · rw [update_of_ne hji]
        exact hc.named j (used_iff.2 ⟨p, hp⟩)
  have hholds₁ : c₁.Holds files := by
    intro j p hp
    rw [hkey, hpage]
    rcases hcases j p hp with ⟨rfl, rfl⟩ | ⟨hji, hp⟩
    · rw [update_self]
      exact ⟨data, hdata, hfilled.page⟩
    · rw [update_of_ne hji]
      exact hfiles j p hp
  have hsame := same_cacheSlot c₁ i
  have hretain : Sheds c₁.mm.Caches c₁ (c.setSlot i k frame) := by
    refine (hsame.sheds hsound₁).trans ?_
    simp only [setSlot, hc₁]
    refine Sheds.ofMoves (Mm.moves_retain (hsame.sheds (G := c₁.mm.Caches) hsound₁).moves.tracked ?_)
    rw [hsame.mm, halive]
    exact hfilled.alive
  have hpage' : (c.setSlot i k frame).page = c.page := by
    simp only [setSlot, hc₁]
    exact hsame.page.trans hpage
  exact ⟨hretain.sound hsound₁, hretain.holds hholds₁, by rw [hpage', hfilled.page]⟩

/-! ### Finding -/

theorem scan_eq_none : c.scan k = none → ∀ i < c3FilepageMax, c.used i = true → c.key i ≠ k := by
  intro h i hi hu hk
  have := firstSlot_eq_none h i hi
  rw [Bool.eq_false_iff] at this
  exact this (isFor_iff.2 ⟨hu, hk⟩)

theorem findSlot_spec (hc : c.Sound) (k : FileKey) :
    (c.findSlot k).1 = c.scan k ∧ Same c (c.findSlot k).2 := by
  have hscan : ∀ i < c3FilepageMax, c.isFor k i = true → c.scan k = some i := by
    intro i hi hk
    obtain ⟨hu, hki⟩ := isFor_iff.1 hk
    cases hs : c.scan k with
    | none => exact absurd hki (scan_eq_none hs i hi hu)
    | some j =>
      obtain ⟨-, hj⟩ := firstSlot_eq_some hs
      obtain ⟨huj, hkj⟩ := isFor_iff.1 hj
      rw [hc.keyed i j hu huj (hki.trans hkj.symm)]
  unfold findSlot
  by_cases hpath : k.path = []
  · rw [if_pos hpath]
    refine ⟨?_, rfl, rfl, rfl⟩
    cases hs : c.scan k with
    | none => rfl
    | some i =>
      obtain ⟨hu, hk⟩ := isFor_iff.1 (firstSlot_eq_some hs).2
      exact absurd (by rw [hk, hpath]) (hc.named i hu)
  rw [if_neg hpath]
  simp only
  split_ifs with hhint
  · obtain ⟨-, hlt, -, hk⟩ := hhint
    exact ⟨(hscan _ hlt hk).symm, rfl, rfl, rfl⟩
  · cases hs : firstSlot (c.isFor k) c3FilepageMax with
    | none => exact ⟨hs.symm, rfl, rfl, rfl⟩
    | some i => exact ⟨hs.symm, rfl, rfl, rfl⟩

/-- What a page request keeps and returns. -/
structure Serves (files : Bytes → Option Bytes) (bytes : Bytes) (r : ℕ × FileCache) : Prop where
  sound : r.2.Sound
  holds : r.2.Holds files
  page : r.1 ≠ 0 → r.2.page r.1 = bytes

theorem newFrame_spec (hc : c.Sound) (hfiles : c.Holds files) (hk : c.Lacks k) (hpath : k.path ≠ [])
    (hdata : files k.path = some data) :
    Serves files (pageOf data k.pageOff) (c.newFrame k data) := by
  obtain ⟨halloc, hfresh⟩ := allocates_allocUserFrame hc
  unfold newFrame
  generalize c.allocUserFrame = r at halloc hfresh ⊢
  obtain ⟨frame, c₁⟩ := r
  simp only at halloc hfresh ⊢
  by_cases h0 : frame = 0
  · rw [if_pos h0]
    exact ⟨halloc.sound hc, halloc.holds hfiles, fun h => absurd rfl h⟩
  rw [if_neg h0]
  obtain ⟨hbase, hfresh⟩ := hfresh h0
  obtain ⟨hfill, hfilled⟩ :=
    fill_spec (G := c₁.mm.Caches) (halloc.sound hc) hbase hfresh (pageOf data k.pageOff)
  have hc₂ := hfill.sound (halloc.sound hc)
  obtain ⟨hslot, hpage, hfree⟩ := allocSlot_spec hc₂ k.path
  generalize (c₁.fill frame (pageOf data k.pageOff)).allocSlot k.path = s at hslot hpage hfree ⊢
  obtain ⟨o, c₃⟩ := s
  simp only at hslot hpage hfree ⊢
  have hsheds := halloc.then (hfill.then hslot)
  have hfilled₃ := hfilled.sheds hslot hpage
  cases o with
  | some i =>
    obtain ⟨hi, hu⟩ := hfree i rfl
    obtain ⟨hsound, hholds, hbytes⟩ := setSlot_spec (hsheds.sound hc) (hsheds.holds hfiles) hi hu
      (hsheds.lacks hk) hpath hdata hfilled₃
    exact ⟨hsound, hholds, fun _ => hbytes⟩
  | none =>
    simp only
    split_ifs
    · have hrelease := Sheds.ofMoves (Mm.moves_release (hsheds.sound hc).tracked frame)
      exact ⟨hrelease.sound (hsheds.sound hc), hrelease.holds (hsheds.holds hfiles), fun h => absurd rfl h⟩
    · exact ⟨hsheds.sound hc, hsheds.holds hfiles, fun _ => hfilled₃.page⟩

theorem getFrame_spec (hc : c.Sound) {files : Bytes → Option Bytes} (hfiles : c.Holds files)
    (hpath : k.path ≠ []) {data : Bytes} (hdata : files k.path = some data) :
    Serves files (pageOf data k.pageOff) (c.getFrame k data) := by
  obtain ⟨hscan, hsame⟩ := findSlot_spec hc k
  unfold getFrame
  generalize c.findSlot k = f at hscan hsame ⊢
  obtain ⟨o, c₁⟩ := f
  simp only at hscan hsame ⊢
  have hsheds : Sheds c.mm.Caches c c₁ := hsame.sheds hc
  have hc₁ := hsheds.sound hc
  cases o with
  | none =>
    refine newFrame_spec hc₁ (hsheds.holds hfiles) (hsheds.lacks fun i hu => ?_) hpath hdata
    obtain ⟨p, hp⟩ := used_iff.1 hu
    exact scan_eq_none hscan.symm i (hc.bounded i p hp) hu
  | some i =>
    obtain ⟨hu, hki⟩ := isFor_iff.1 (firstSlot_eq_some hscan.symm).2
    obtain ⟨p, hp⟩ := used_iff.1 hu
    have hp₁ : c₁.mm.filePages i = some p := by rw [hsame.mm, hp]
    have halive := hc₁.alive _ ⟨i, p, hp₁, rfl⟩
    -- the frame of a used element is never null
    have h0 : p ≠ 0 := by
      rintro rfl
      exact halive.1 (Nat.zero_div _)
    simp only [hp₁, getD_some, hc₁.base i p hp₁, if_pos h0]
    have hretain := Sheds.ofMoves (Mm.moves_retain (G := c₁.mm.Caches) hc₁.tracked halive)
    refine ⟨hretain.sound hc₁, hretain.holds (hsheds.holds hfiles), fun _ => ?_⟩
    obtain ⟨data', hfile, hbytes⟩ := hfiles i p hp
    rw [hki, hdata] at hfile
    obtain rfl := some.inj hfile
    rw [hki] at hbytes
    exact (congrFun hsame.page p).trans hbytes

/-! ### Renaming -/

/-- The key of an element after a rename. -/
def renamedKey (oldPath newPath : Bytes) (k : FileKey) : FileKey :=
  if k.path = oldPath then ⟨newPath, k.pageOff⟩ else k

theorem renamePath_eq (hc : c.Sound) (ho : oldPath ≠ []) (hn : newPath ≠ []) :
    (c.renamePath oldPath newPath).mm = c.mm ∧ (c.renamePath oldPath newPath).page = c.page ∧
      ∀ i, c.used i = true → (c.renamePath oldPath newPath).key i = renamedKey oldPath newPath (c.key i) := by
  unfold renamePath
  rw [if_neg (by rintro (h | h); exacts [ho h, hn h])]
  -- the loop has renamed the elements that it has passed, and not the others
  have hloop := foldl_range_invariant
    (P := fun n c' => c'.mm = c.mm ∧ c'.page = c.page ∧
      ∀ i, c.used i = true → c'.key i = if i < n then renamedKey oldPath newPath (c.key i) else c.key i)
    (f := fun c i =>
      if c.used i ∧ (c.key i).path = oldPath then
        cacheSlot i { c with
          key := update c.key i ⟨newPath, (c.key i).pageOff⟩
          hash := update c.hash i (filePageHashFor newPath (c.key i).pageOff) }
      else c)
    (n := c3FilepageMax) (s := c) ⟨rfl, rfl, fun i _ => rfl⟩ ?_
  · obtain ⟨hmm, hpage, hkey⟩ := hloop
    refine ⟨hmm, hpage, fun i hu => ?_⟩
    obtain ⟨p, hp⟩ := used_iff.1 hu
    rw [hkey i hu, if_pos (hc.bounded i p hp)]
  · rintro n - c' ⟨hmm, hpage, hkey⟩
    have hused : ∀ i, c'.used i = c.used i := by
      intro i
      rw [used, used, hmm]
    -- only element `n` is new among those that the loop has passed
    have hothers : ∀ i, i ≠ n → c.used i = true →
        c'.key i = if i < n + 1 then renamedKey oldPath newPath (c.key i) else c.key i := by
      intro i hin hu
      have hlt : i < n + 1 ↔ i < n := by omega
      simp only [hlt]
      exact hkey i hu
    by_cases h : c'.used n ∧ (c'.key n).path = oldPath
    · simp only [if_pos h]
      have hsame := same_cacheSlot { c' with
        key := update c'.key n ⟨newPath, (c'.key n).pageOff⟩
        hash := update c'.hash n (filePageHashFor newPath (c'.key n).pageOff) } n
      refine ⟨hsame.mm.trans hmm, hsame.page.trans hpage, fun i hu => ?_⟩
      rw [hsame.key]
      show update c'.key n _ i = _
      by_cases hin : i = n
      · subst hin
        have hi := hkey i hu
        rw [if_neg (Nat.lt_irrefl i)] at hi
        rw [update_self, if_pos i.lt_succ_self, renamedKey, hi, if_pos (hi ▸ h.2)]
      · rw [update_of_ne hin]
        exact hothers i hin hu
    · simp only [if_neg h]
      refine ⟨hmm, hpage, fun i hu => ?_⟩
      by_cases hin : i = n
      · subst hin
        have hi := hkey i hu
        rw [if_neg (Nat.lt_irrefl i)] at hi
        have hne : (c.key i).path ≠ oldPath := fun he => h ⟨(hused i).trans hu, by rw [hi, he]⟩
        rw [if_pos i.lt_succ_self, renamedKey, if_neg hne, hi]
      · exact hothers i hin hu

theorem renamedKey_inj {k' : FileKey} (h : k.path ≠ newPath ∨ newPath = oldPath)
    (h' : k'.path ≠ newPath ∨ newPath = oldPath)
    (he : renamedKey oldPath newPath k = renamedKey oldPath newPath k') : k = k' := by
  obtain ⟨path, off⟩ := k
  obtain ⟨path', off'⟩ := k'
  unfold renamedKey at he
  simp only [FileKey.mk.injEq] at h h' he ⊢
  split_ifs at he <;> simp only [FileKey.mk.injEq] at he
  · rename_i hp hp'
    exact ⟨hp.trans hp'.symm, he.2⟩
  · rename_i hp hp'
    rcases h' with hne | heq
    · exact absurd he.1.symm hne
    · exact absurd (he.1.symm.trans heq) hp'
  · rename_i hp hp'
    rcases h with hne | heq
    · exact absurd he.1 hne
    · exact absurd (he.1.trans heq) hp
  · exact he

theorem renamePath_spec (hc : c.Sound) {G : Bytes → Option Bytes} (hfiles : c.Holds files)
    (ho : oldPath ≠ []) (hn : newPath ≠ [])
    (hnew : newPath = oldPath ∨ ∀ i, c.used i = true → (c.key i).path ≠ newPath)
    (hmoved : G newPath = files oldPath)
    (hothers : ∀ path, path ≠ oldPath → path ≠ newPath → G path = files path) :
    (c.renamePath oldPath newPath).Sound ∧ (c.renamePath oldPath newPath).Holds G := by
  obtain ⟨hmm, hpage, hkey⟩ := renamePath_eq hc ho hn
  generalize c.renamePath oldPath newPath = c' at hmm hpage hkey ⊢
  have hused : ∀ i, c'.used i = true → c.used i = true := by
    intro i
    rw [used, used, hmm]
    exact id
  have hclash : ∀ i, c.used i = true → (c.key i).path ≠ newPath ∨ newPath = oldPath :=
    fun i hu => hnew.symm.imp_left fun h => h i hu
  refine ⟨⟨?_, ?_, ?_, ?_, ?_, fun i j hi hj he => ?_, fun i hi => ?_⟩, fun i p hp => ?_⟩
  · rw [hmm]
    exact hc.tracked
  · rw [hmm]
    exact hc.bounded
  · rw [hmm]
    exact hc.base
  · rw [hmm]
    exact hc.alive
  · rw [hmm]
    exact hc.single
  · rw [hkey i (hused i hi), hkey j (hused j hj)] at he
    exact hc.keyed i j (hused i hi) (hused j hj)
      (renamedKey_inj (hclash i (hused i hi)) (hclash j (hused j hj)) he)
  · rw [hkey i (hused i hi), renamedKey]
    split_ifs
    · exact hn
    · exact hc.named i (hused i hi)
  · rw [hmm] at hp
    have hu : c.used i = true := used_iff.2 ⟨p, hp⟩
    obtain ⟨data, hfile, hbytes⟩ := hfiles i p hp
    rw [hkey i hu, hpage, renamedKey]
    by_cases hold : (c.key i).path = oldPath
    · rw [if_pos hold]
      refine ⟨data, ?_, hbytes⟩
      show G newPath = some data
      rw [hmoved, ← hold, hfile]
    · rw [if_neg hold]
      refine ⟨data, ?_, hbytes⟩
      rw [hothers _ hold, hfile]
      rcases hclash i hu with hne | hne
      · exact hne
      · rwa [hne]

end FileCache

end Ridux
