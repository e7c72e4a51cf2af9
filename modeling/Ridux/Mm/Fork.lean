import Ridux.Lib.Slots
import Ridux.Mm.PhysRef
import Ridux.Paging.Lifecycle

/-!
# The pages of a child

`compat3_fork_address_space` gives a child the user pages of its parent: shared pages as they are,
private pages for both to read only, marked for a copy at the first write.

* `c3MmapRegionFindWalk`: the region of a page, with the cache of the walk;
* `regionsAlong_eq`: what the walk finds is what `c3MmapRegionFind` finds;
* `forkPage`, `forkTable`: one page, and the loop over a table;
* `compat3ForkAddressSpace`.
-/

namespace Ridux

open Lib

def mmapRegionMax : ℕ := 16384

def c3PageSoftCow : Pte := 0x200

def enomem : ℤ := 12
def einval : ℤ := 22
def esrch : ℤ := 3
def eagain : ℤ := 11

namespace MmapEntry

/-- `c3_mmap_is_shared`, of the flags of the region. -/
def isShared (e : MmapEntry) : Bool := e.flags.getLsbD 0

/-- `c3_mmap_owns_phys`. -/
def ownsPhys (e : MmapEntry) : Bool := !(e.used && e.noFreePhys)

/-- Does the region belong to the space? -/
def isOf (e : MmapEntry) (as : Space) : Bool := e.used && decide (e.as = as)

end MmapEntry

/-! ### Regions -/

/-- `c3_mmap_walk_cache_t`. -/
structure MmapWalkCache where
  idx : Option ℕ
  nextStart : ℕ

/-- All bits set: no region, and no next one. -/
def allOnes : ℕ := 2 ^ 64 - 1

/-- The state of the search for the smallest region around an address. -/
structure RegionSearch where
  best : Option ℕ
  bestSize : ℕ
  next : ℕ

/-- One round of the search. -/
def RegionSearch.look (as : Space) (va : ℕ) (table : ℕ → MmapEntry) (r : RegionSearch) (i : ℕ) :
    RegionSearch :=
  let e := table i
  if ¬ e.isOf as then r
  else
    let r := if va < e.virt ∧ e.virt < r.next then { r with next := e.virt } else r
    if va < e.virt ∨ u64 (e.virt + e.size) ≤ va then r
    -- the rounds come in order, so a later region of the same size replaces an earlier one
    else if e.size ≤ r.bestSize then { r with best := some i, bestSize := e.size }
    else r

def c3MmapRegionFindWalk (as : Space) (va : ℕ) (table : ℕ → MmapEntry) (cache : MmapWalkCache) :
    Option ℕ × MmapWalkCache :=
  let hit := cache.idx.filter fun i => (table i).isOf as &&
    decide ((table i).virt ≤ va ∧ va < u64 ((table i).virt + (table i).size))
  match hit with
  | some i => (some i, cache)
  | none =>
    if cache.nextStart ≠ 0 ∧ cache.nextStart ≠ allOnes ∧ va < cache.nextStart then (none, cache)
    else
      let r := (List.range mmapRegionMax).foldl (RegionSearch.look as va table)
        ⟨none, allOnes, allOnes⟩
      match r.best with
      | some i => (some i, ⟨some i, u64 ((table i).virt + (table i).size)⟩)
      | none => (none, ⟨none, r.next⟩)

/-- Does the region hold the address? -/
def MmapEntry.covers (e : MmapEntry) (as : Space) (va : ℕ) : Prop :=
  e.isOf as ∧ e.virt ≤ va ∧ va < u64 (e.virt + e.size)

instance (e : MmapEntry) (as : Space) (va : ℕ) : Decidable (e.covers as va) :=
  inferInstanceAs (Decidable (_ ∧ _))

/-- One round of `c3_mmap_region_find`: the best region so far and its size. -/
def findRound (as : Space) (va : ℕ) (table : ℕ → MmapEntry) (r : Option ℕ × ℕ) (i : ℕ) :
    Option ℕ × ℕ :=
  let e := table i
  if e.covers as va ∧ (e.size < r.2 ∨ e.size = r.2 ∧ ∀ b ∈ r.1, b < i) then (some i, e.size) else r

def c3MmapRegionFind (as : Space) (va : ℕ) (table : ℕ → MmapEntry) : Option ℕ :=
  ((List.range mmapRegionMax).foldl (findRound as va table) (none, allOnes)).1

/-- The walk, along a list of addresses. -/
def regionsAlong (as : Space) (table : ℕ → MmapEntry) : MmapWalkCache → List ℕ → List (Option ℕ)
  | _, [] => []
  | c, va :: vas =>
    let r := c3MmapRegionFindWalk as va table c
    r.1 :: regionsAlong as table r.2 vas

section

variable {as : Space} {table : ℕ → MmapEntry} {va va' k size i : ℕ} {best : Option ℕ} {c : MmapWalkCache}

/-- No address lies in two regions of the space. -/
def RegionsDisjoint (as : Space) (table : ℕ → MmapEntry) : Prop :=
  ∀ i < mmapRegionMax, ∀ j < mmapRegionMax, ∀ va,
    (table i).covers as va → (table j).covers as va → i = j

/-- The region is in the table, and its size is one of 64 bits. -/
def RegionAt (as : Space) (table : ℕ → MmapEntry) (k va i : ℕ) : Prop :=
  i < k ∧ (table i).covers as va ∧ (table i).size ≤ allOnes

/-- What both searches know after `k` rounds: a region of the address, if there is one. -/
structure Best (as : Space) (table : ℕ → MmapEntry) (k va : ℕ) (best : Option ℕ) (size : ℕ) :
    Prop where
  holds : ∀ i ∈ best, RegionAt as table k va i ∧ size = (table i).size
  misses : best = none → size = allOnes ∧ ∀ i, ¬ RegionAt as table k va i

theorem RegionAt.succ (h : RegionAt as table k va i) : RegionAt as table (k + 1) va i :=
  ⟨h.1.trans k.lt_succ_self, h.2⟩

theorem Best.zero : Best as table 0 va none allOnes :=
  ⟨by simp, fun _ => ⟨rfl, fun i h => absurd h.1 i.not_lt_zero⟩⟩

theorem Best.round (h : Best as table k va best size) :
    let r := if (table k).covers as va ∧ (table k).size ≤ size then (some k, (table k).size)
      else (best, size)
    Best as table (k + 1) va r.1 r.2 := by
  intro r
  by_cases hk : (table k).covers as va ∧ (table k).size ≤ size
  · rw [show r = (some k, (table k).size) from if_pos hk]
    refine ⟨fun i hi => ?_, by simp⟩
    obtain rfl := Option.some_inj.1 hi
    refine ⟨⟨k.lt_succ_self, hk.1, hk.2.trans ?_⟩, rfl⟩
    cases best with
    | none => exact (h.misses rfl).1.le
    | some b =>
      obtain ⟨⟨_, _, hb⟩, rfl⟩ := h.holds b rfl
      exact hb
  · rw [show r = (best, size) from if_neg hk]
    refine ⟨fun i hi => ⟨(h.holds i hi).1.succ, (h.holds i hi).2⟩, fun hn => ?_⟩
    obtain ⟨rfl, hm⟩ := h.misses hn
    refine ⟨rfl, fun i ⟨hi, hc, hs⟩ => ?_⟩
    rcases Nat.lt_succ_iff_lt_or_eq.1 hi with hlt | rfl
    · exact hm i ⟨hlt, hc, hs⟩
    · exact hk ⟨hc, hs⟩

theorem findRound_eq {r : Option ℕ × ℕ} (hlast : ∀ b ∈ r.1, b < k) :
    findRound as va table r k =
      if (table k).covers as va ∧ (table k).size ≤ r.2 then (some k, (table k).size) else r := by
  simp only [findRound, le_iff_lt_or_eq, and_iff_left hlast]

theorem look_best (r : RegionSearch) :
    ((r.look as va table k).best, (r.look as va table k).bestSize) =
      if (table k).covers as va ∧ (table k).size ≤ r.bestSize then (some k, (table k).size)
      else (r.best, r.bestSize) := by
  unfold RegionSearch.look MmapEntry.covers
  grind

theorem look_next (r : RegionSearch) : (r.look as va table k).next =
    if (table k).isOf as ∧ va < (table k).virt ∧ (table k).virt < r.next then (table k).virt
    else r.next := by
  unfold RegionSearch.look
  grind

theorem best_findRound (as : Space) (va : ℕ) (table : ℕ → MmapEntry) (n : ℕ) :
    let r := (List.range n).foldl (findRound as va table) (none, allOnes)
    Best as table n va r.1 r.2 := by
  refine foldl_range_invariant (P := fun k (r : Option ℕ × ℕ) => Best as table k va r.1 r.2)
    Best.zero fun k _ r h => ?_
  rw [findRound_eq fun b hb => (h.holds b hb).1.1]
  exact h.round

theorem best_look (as : Space) (va : ℕ) (table : ℕ → MmapEntry) (n : ℕ) :
    let r := (List.range n).foldl (RegionSearch.look as va table) ⟨none, allOnes, allOnes⟩
    Best as table n va r.best r.bestSize ∧
      ∀ i < n, (table i).isOf as → va < (table i).virt → r.next ≤ (table i).virt := by
  refine foldl_range_invariant (P := fun k (r : RegionSearch) =>
    Best as table k va r.best r.bestSize ∧
      ∀ i < k, (table i).isOf as → va < (table i).virt → r.next ≤ (table i).virt)
    ⟨Best.zero, by simp⟩ fun k _ r ⟨h, hnext⟩ => ⟨?_, fun i hi hof hva => ?_⟩
  · have hround := h.round
    rw [← look_best r] at hround
    exact hround
  · rw [look_next]
    rcases Nat.lt_succ_iff_lt_or_eq.1 hi with hlt | rfl
    · have := hnext i hlt hof hva
      split_ifs <;> omega
    · split_ifs with hn
      · exact le_rfl
      · exact not_lt.1 fun hlt => hn ⟨hof, hva, hlt⟩

theorem best_find (as : Space) (va : ℕ) (table : ℕ → MmapEntry) : ∃ size,
    Best as table mmapRegionMax va (c3MmapRegionFind as va table) size :=
  ⟨_, best_findRound as va table mmapRegionMax⟩

theorem Best.eq_some (hd : RegionsDisjoint as table) (h : Best as table mmapRegionMax va best size)
    (hi : RegionAt as table mmapRegionMax va i) : best = some i := by
  cases hb : best with
  | none => exact absurd hi ((h.misses hb).2 i)
  | some b =>
    obtain ⟨⟨hlt, hc, _⟩, _⟩ := h.holds b hb
    rw [hd b hlt i hi.1 va hc hi.2.1]

theorem c3MmapRegionFind_eq (hd : RegionsDisjoint as table)
    (h : Best as table mmapRegionMax va best size) : c3MmapRegionFind as va table = best := by
  obtain ⟨_, hf⟩ := best_find as va table
  cases hb : best with
  | none =>
    cases hfind : c3MmapRegionFind as va table with
    | none => rfl
    | some i => exact absurd (hf.holds i hfind).1 ((h.misses hb).2 i)
  | some b => exact hf.eq_some hd (h.holds b hb).1

/-- What the walk may rely on at every address from `va` on: the region that it remembers is one of
the table, and below the next start there is no other. -/
structure MmapWalkCache.Sound (as : Space) (table : ℕ → MmapEntry) (va : ℕ) (c : MmapWalkCache) :
    Prop where
  remembered : ∀ i ∈ c.idx, i < mmapRegionMax ∧ (table i).size ≤ allOnes
  skipped : ∀ x, va ≤ x → x < c.nextStart → c.nextStart ≠ allOnes →
    (∃ i ∈ c.idx, (table i).covers as x) ∨ ∀ i, ¬ RegionAt as table mmapRegionMax x i

theorem MmapWalkCache.Sound.mono (h : c.Sound as table va) (hva : va ≤ va') :
    c.Sound as table va' :=
  ⟨h.remembered, fun x hx => h.skipped x (hva.trans hx)⟩

theorem Best.sound {next : ℕ} (h : Best as table mmapRegionMax va best size)
    (hnext : ∀ i < mmapRegionMax, (table i).isOf as → va < (table i).virt → next ≤ (table i).virt) :
    (match best with
      | some i => (⟨some i, u64 ((table i).virt + (table i).size)⟩ : MmapWalkCache)
      | none => ⟨none, next⟩).Sound as table va := by
  cases best with
  | some i =>
    obtain ⟨⟨hi, ⟨hof, hle, _⟩, hs⟩, _⟩ := h.holds i rfl
    refine ⟨fun j hj => by obtain rfl := Option.some_inj.1 hj; exact ⟨hi, hs⟩, fun x hx hlt _ => ?_⟩
    exact .inl ⟨i, rfl, hof, hle.trans hx, hlt⟩
  | none =>
    refine ⟨by simp, fun x hx hlt _ => .inr fun i ⟨hi, ⟨hof, hle, hend⟩, hs⟩ => ?_⟩
    have hva : (table i).virt ≤ va := by
      by_contra hgt
      exact absurd ((hnext i hi hof (not_le.1 hgt)).trans hle) (not_le.2 hlt)
    exact (h.misses rfl).2 i ⟨hi, ⟨hof, hva, hx.trans_lt hend⟩, hs⟩

theorem c3MmapRegionFindWalk_sound (hd : RegionsDisjoint as table) (h : c.Sound as table va) :
    (c3MmapRegionFindWalk as va table c).1 = c3MmapRegionFind as va table ∧
      (c3MmapRegionFindWalk as va table c).2.Sound as table va := by
  obtain ⟨_, hf⟩ := best_find as va table
  simp only [c3MmapRegionFindWalk]
  split
  · next i hhit =>
    obtain ⟨hi, hc⟩ := Option.filter_eq_some_iff.1 hhit
    simp only [Bool.and_eq_true, decide_eq_true_eq] at hc
    have ⟨hlt, hs⟩ := h.remembered i hi
    exact ⟨(hf.eq_some hd ⟨hlt, hc, hs⟩).symm, h⟩
  · next hmiss =>
    split_ifs with hskip
    · refine ⟨?_, h⟩
      rcases h.skipped va le_rfl hskip.2.2 hskip.2.1 with ⟨i, hi, hof, hc⟩ | hnone
      · have := Option.filter_eq_none_iff.1 hmiss i hi
        simp [hof, hc] at this
      · cases hfind : c3MmapRegionFind as va table with
        | none => rfl
        | some i => exact absurd (hf.holds i hfind).1 (hnone i)
    · have ⟨hb, hnext⟩ := best_look as va table mmapRegionMax
      have hsound := hb.sound hnext
      have heq := c3MmapRegionFind_eq hd hb
      split <;> simp_all

theorem regionsAlong_eq (hd : RegionsDisjoint as table) {vas : List ℕ} (hvas : vas.Pairwise (· ≤ ·)) :
    regionsAlong as table ⟨none, 0⟩ vas = vas.map fun va => c3MmapRegionFind as va table := by
  suffices hall : ∀ (c : MmapWalkCache) (lo : ℕ), c.Sound as table lo → (∀ va ∈ vas, lo ≤ va) →
      regionsAlong as table c vas = vas.map fun va => c3MmapRegionFind as va table from
    hall _ 0 ⟨by simp, fun x _ hx => absurd hx x.not_lt_zero⟩ fun va _ => va.zero_le
  induction vas with
  | nil => intros; rfl
  | cons va vas ih =>
    intro c lo hc hlo
    obtain ⟨hva, hrest⟩ := List.pairwise_cons.1 hvas
    obtain ⟨heq, hsound⟩ := c3MmapRegionFindWalk_sound hd (hc.mono (hlo va List.mem_cons_self))
    rw [regionsAlong, heq, List.map_cons, ih hrest _ va hsound hva]

/-- A table with one region, of the pages at 4096 and 8192. -/
def oneRegion (i : ℕ) : MmapEntry :=
  if i = 3 then ⟨true, .user 0, 4096, 8192, 0, false⟩ else ⟨false, .kernel, 0, 0, 0, false⟩

theorem regionsAlong_eq_oneRegion :
    regionsAlong (.user 0) oneRegion ⟨none, 0⟩ [0, 4096, 8192, 12288] =
      [0, 4096, 8192, 12288].map fun va => c3MmapRegionFind (.user 0) va oneRegion := by
  have hthree : ∀ i va, (oneRegion i).covers (.user 0) va → i = 3 := by
    intro i va h
    by_contra hi
    simp [MmapEntry.covers, MmapEntry.isOf, oneRegion, hi] at h
  exact regionsAlong_eq (fun i _ j _ va hi hj => (hthree i va hi).trans (hthree j va hj).symm)
    (by decide)

end

/-! ### Pages -/

/-- The memory during the walk, and the cache of the walk. -/
structure ForkWalk where
  mm : Mm
  cache : MmapWalkCache

/-- The private pages that could be written, or are to be copied at the next write already. -/
def cowPage (shared : Bool) (flags : Pte) : Bool :=
  !shared && (flags.writable || decide (flags &&& c3PageSoftCow ≠ 0))

/-- The flags that parent and child have for a page. -/
def forkFlags (shared : Bool) (flags : Pte) : Pte :=
  if cowPage shared flags then (flags &&& ~~~pageWritable) ||| c3PageSoftCow else flags

namespace ForkWalk

def setMm (w : ForkWalk) (m : Mm) : ForkWalk := { w with mm := m }

def setPaging (p : Paging) (w : ForkWalk) : ForkWalk :=
  { w with mm := { w.mm with paging := p } }

/-- Find the region of a page, and keep the cache. -/
def region (as : Space) (va : ℕ) : Code ForkWalk (Option ℕ) := fun w =>
  let r := c3MmapRegionFindWalk as va w.mm.mmapTable w.cache
  (some r.1, { w with cache := r.2 })

/-- Count the frame for the child, if it is counted at all. -/
def retain (phys : ℕ) (nofree : Bool) : Code ForkWalk Unit :=
  .change fun w =>
    if nofree then w else w.setMm ((w.mm.c3PhysRefSetInitial phys).c3PhysRefRetain phys)

/-- `paging_map` for the child; without room for it the frame is released, if it was counted. -/
def mapChild (cas : Space) (va phys : ℕ) (flags : Pte) (nofree : Bool) : Code ForkWalk Unit :=
  fun w =>
    match Code.focus (fun w => w.mm.paging) setPaging (pagingMap cas va phys flags) w with
    | (some (), w) => (some (), w)
    | (none, w) => (none, if nofree then w else w.setMm (w.mm.c3PhysRefRelease phys))

end ForkWalk

/-- The body of the innermost loop, for the entry at index `i` of the last-level table `pt`. -/
def forkPage (pas cas : Space) (pt base i : ℕ) : Code ForkWalk Unit := do
  let va := base + i * 2 ^ 12
  let entry ← .read fun w => w.mm.paging.mem pt i
  if ¬ entry.present then pure ()
  else do
    let phys := entry &&& pteAddrMask
    let flags := entry &&& ~~~pteAddrMask
    if ¬ flags.user ∨ phys = 0 then pure ()
    else do
      let midx ← ForkWalk.region pas va
      let table ← .read fun w => w.mm.mmapTable
      let shared := midx.any fun m => (table m).isShared
      let nofree := midx.any fun m => !(table m).ownsPhys
      let flags' := forkFlags shared flags
      .change fun w =>
        if cowPage shared flags then w.setPaging (w.mm.paging.write pt i (phys ||| flags')) else w
      ForkWalk.retain phys.toNat nofree
      ForkWalk.mapChild cas va phys.toNat flags' nofree

/-- The table that the walk finds behind an entry, at `PHYS_TO_DMAP(entry & ~0xFFF)`. -/
def rawTable (entry : Pte) : ℕ := (entry &&& ~~~0xFFF).toNat / pageSize

/-- A loop over the first `n` entries of a table of an upper level: absent entries are passed
over, and huge ones, where the level can have them. -/
def forkTable (hasHuge : Bool) (shift : ℕ) (below : ℕ → ℕ → Code ForkWalk Unit) (n tbl base : ℕ) :
    Code ForkWalk Unit :=
  .forEach (fun i => do
    let entry ← .read fun w => w.mm.paging.mem tbl i
    if ¬ entry.present then pure ()
    else if hasHuge ∧ entry.huge then pure ()
    else below (rawTable entry) (base + i * 2 ^ shift)) (List.range n)

/-- The four nested loops, from the root of the parent. -/
def forkPages (pas cas : Space) (pml4 : ℕ) : Code ForkWalk Unit :=
  forkTable false 39 (forkTable true 30 (forkTable true 21
    (fun pt base => .forEach (forkPage pas cas pt base) (List.range 512)) 512) 512) 256 pml4 0

/-- The first free region from `i` on, `MMAP_REGION_MAX` for none. -/
def freeRegion (table : ℕ → MmapEntry) (i : ℕ) : ℕ :=
  ((List.range' i (mmapRegionMax - i)).find? fun j => !(table j).used).getD mmapRegionMax

/-- The loop that gives the child a copy of each region of its parent, at the free regions from
`free` on, until they run out. -/
def mirrorRegions (pas cas : Space) : List ℕ → ℕ → (ℕ → MmapEntry) → ℕ → MmapEntry
  | [], _, table => table
  | i :: rest, free, table =>
    if ¬ (table i).isOf pas then mirrorRegions pas cas rest free table
    else
      let j := freeRegion table free
      if mmapRegionMax ≤ j then table
      else mirrorRegions pas cas rest (j + 1)
        (Function.update table j { table i with as := cas, used := true })

/-- `compat3_fork_address_space`, for the spaces of a parent and of its child. -/
def compat3ForkAddressSpace (pas cas : Option Space) (m : Mm) : ℤ × Mm :=
  match pas, cas with
  | some pas, some cas =>
    if pas = .kernel ∨ cas = .kernel then (-einval, m)
    else
      let walk : Code ForkWalk Unit := do
        let pml4 ← .find fun w => w.mm.paging.pml4 pas
        forkPages pas cas pml4
      match walk ⟨m, ⟨none, 0⟩⟩ with
      | (none, w) => (-enomem, w.mm)
      | (some (), w) =>
        (0, { w.mm with
          mmapTable := mirrorRegions pas cas (List.range mmapRegionMax) 0 w.mm.mmapTable })
  | _, _ => (-einval, m)

/-! ### Slots of spaces -/

theorem SameSlots.refl (s : Paging) : SameSlots s s := ⟨rfl, rfl⟩

theorem SameSlots.trans {s t u : Paging} (h : SameSlots s t) (h' : SameSlots t u) : SameSlots s u :=
  ⟨h'.1.trans h.1, h'.2.trans h.2⟩

namespace Mm

/-- What an operation on the counts leaves as it was. -/
def KeepsSlots (op : Mm → Mm) : Prop := ∀ m, SameSlots m.paging (op m).paging

theorem c3PhysRefSetInitial_slots (phys : ℕ) : KeepsSlots (c3PhysRefSetInitial phys) := by
  intro m
  unfold c3PhysRefSetInitial
  cases c3PhysRefIndex phys with
  | none => exact .refl _
  | some idx =>
    dsimp only
    split_ifs <;> exact .refl _

theorem c3PhysRefRetain_slots (phys : ℕ) : KeepsSlots (c3PhysRefRetain phys) := by
  intro m
  unfold c3PhysRefRetain
  cases c3PhysRefIndex phys with
  | none => exact .refl _
  | some idx =>
    dsimp only
    split_ifs <;> exact .refl _

theorem quarantineTake_slots : KeepsSlots quarantineTake := by
  intro m
  unfold quarantineTake
  split_ifs <;> exact .refl _

theorem c3PhysQuarantineDrain_slots (maxPages : ℕ) : KeepsSlots (c3PhysQuarantineDrain maxPages) := by
  induction maxPages with
  | zero => exact fun m => .refl _
  | succ maxPages ih =>
    intro m
    rw [c3PhysQuarantineDrain]
    split_ifs
    · exact .refl _
    · exact (quarantineTake_slots m).trans (ih _)

theorem quarantinePut_slots (phys : ℕ) : KeepsSlots (quarantinePut phys) := by
  intro m
  unfold quarantinePut
  split_ifs <;> exact .refl _

theorem c3PhysQuarantineFrame_slots (phys : ℕ) : KeepsSlots (c3PhysQuarantineFrame phys) := by
  intro m
  unfold c3PhysQuarantineFrame
  split_ifs
  · exact .refl _
  · exact (c3PhysQuarantineDrain_slots 256 m).trans (quarantinePut_slots phys _)
  · exact quarantinePut_slots phys m

theorem c3PhysRefRelease_slots (phys : ℕ) : KeepsSlots (c3PhysRefRelease phys) := by
  intro m
  unfold c3PhysRefRelease
  cases c3PhysRefIndex phys with
  | none => exact .refl _
  | some idx =>
    dsimp only
    split_ifs
    · exact .refl _
    · exact .refl _
    · have hframe := c3PhysQuarantineFrame_slots (pageBase phys)
        (c3FilePageInvalidatePhys phys { m with refcnt := Function.update m.refcnt idx 0 })
      exact (SameSlots.refl m.paging).trans hframe

end Mm

variable {s₀ : Paging}

/-- The slots are those of `s₀`. -/
def ForkWalk.SlotsOf (s₀ : Paging) (w : ForkWalk) : Prop := SameSlots s₀ w.mm.paging

theorem ForkWalk.retain_slots (phys : ℕ) (nofree : Bool) :
    Triple (SlotsOf s₀) (retain phys nofree) (fun _ => SlotsOf s₀) (SlotsOf s₀) := by
  refine Triple.change fun w hw => ?_
  split_ifs
  · exact hw
  · exact hw.trans
      ((Mm.c3PhysRefSetInitial_slots phys w.mm).trans (Mm.c3PhysRefRetain_slots phys _))

theorem ForkWalk.mapChild_slots (cas : Space) (va phys : ℕ) (flags : Pte) (nofree : Bool) :
    Triple (SlotsOf s₀) (mapChild cas va phys flags nofree) (fun _ => SlotsOf s₀) (SlotsOf s₀) := by
  intro w hw
  have hmap := Triple.focus (fun w : ForkWalk => w.mm.paging) setPaging (fun _ _ => rfl)
    (pagingMap_slots cas va phys flags) w hw
  unfold mapChild
  rcases hmap with ⟨a, w', he, hw'⟩ | ⟨w', he, hw'⟩
  · exact .inl ⟨(), w', by rw [he], hw'⟩
  · refine .inr ⟨_, by rw [he], ?_⟩
    split_ifs
    · exact hw'
    · exact hw'.trans (Mm.c3PhysRefRelease_slots phys _)

theorem forkPage_slots (pas cas : Space) (pt base i : ℕ) :
    Triple (ForkWalk.SlotsOf s₀) (forkPage pas cas pt base i) (fun _ => ForkWalk.SlotsOf s₀)
      (ForkWalk.SlotsOf s₀) := by
  refine Triple.bind (Triple.read (Q := fun _ => ForkWalk.SlotsOf s₀) fun _ hw => hw) fun entry => ?_
  refine Triple.ite (fun _ => Triple.pure fun _ hw => hw) fun _ => ?_
  refine Triple.ite (fun _ => Triple.pure fun _ hw => hw) fun _ => ?_
  have hregion : Triple (ForkWalk.SlotsOf s₀) (ForkWalk.region pas (base + i * 2 ^ 12))
      (fun _ => ForkWalk.SlotsOf s₀) (ForkWalk.SlotsOf s₀) :=
    fun w hw => .inl ⟨_, _, rfl, hw⟩
  refine Triple.bind hregion fun midx => ?_
  refine Triple.bind (Triple.read (Q := fun _ => ForkWalk.SlotsOf s₀) fun _ hw => hw) fun table => ?_
  refine Triple.bind (Triple.change (Q := fun _ => ForkWalk.SlotsOf s₀) fun w hw => ?_) fun _ => ?_
  · split_ifs <;> exact hw
  exact Triple.bind (ForkWalk.retain_slots _ _) fun _ => ForkWalk.mapChild_slots _ _ _ _ _

theorem forkTable_slots {hasHuge : Bool} {shift : ℕ} {below : ℕ → ℕ → Code ForkWalk Unit}
    (hbelow : ∀ tbl base, Triple (ForkWalk.SlotsOf s₀) (below tbl base)
      (fun _ => ForkWalk.SlotsOf s₀) (ForkWalk.SlotsOf s₀)) (n tbl base : ℕ) :
    Triple (ForkWalk.SlotsOf s₀) (forkTable hasHuge shift below n tbl base)
      (fun _ => ForkWalk.SlotsOf s₀) (ForkWalk.SlotsOf s₀) := by
  refine Triple.forEach _ fun i _ => ?_
  refine Triple.bind (Triple.read (Q := fun _ => ForkWalk.SlotsOf s₀) fun _ hw => hw) fun entry => ?_
  refine Triple.ite (fun _ => Triple.pure fun _ hw => hw) fun _ => ?_
  exact Triple.ite (fun _ => Triple.pure fun _ hw => hw) fun _ => hbelow _ _

theorem forkPages_slots (pas cas : Space) (pml4 : ℕ) :
    Triple (ForkWalk.SlotsOf s₀) (forkPages pas cas pml4) (fun _ => ForkWalk.SlotsOf s₀)
      (ForkWalk.SlotsOf s₀) := by
  refine forkTable_slots (fun _ _ => ?_) 256 pml4 0
  refine forkTable_slots (fun _ _ => ?_) 512 _ _
  refine forkTable_slots (fun pt base => ?_) 512 _ _
  exact Triple.forEach _ fun i _ => forkPage_slots pas cas pt base i

theorem compat3ForkAddressSpace_slots (pas cas : Option Space) (m : Mm) :
    SameSlots m.paging (compat3ForkAddressSpace pas cas m).2.paging := by
  cases pas with
  | none => exact .refl _
  | some pas =>
    cases cas with
    | none => exact .refl _
    | some cas =>
      by_cases hk : pas = .kernel ∨ cas = .kernel
      · rw [compat3ForkAddressSpace, if_pos hk]
        exact .refl _
      · rw [compat3ForkAddressSpace, if_neg hk]
        have hwalk := Triple.bind (Triple.find (P := ForkWalk.SlotsOf m.paging)
          (E := ForkWalk.SlotsOf m.paging) (Q := fun _ => ForkWalk.SlotsOf m.paging)
          (f := fun w => w.mm.paging.pml4 pas) (fun _ _ hw _ => hw) fun _ hw _ => hw)
          (fun pml4 => forkPages_slots pas cas pml4) ⟨m, ⟨none, 0⟩⟩ (.refl _)
        dsimp only
        rcases hwalk with ⟨a, w, he, hw⟩ | ⟨w, he, hw⟩ <;> rw [he] <;> exact hw

end Ridux
