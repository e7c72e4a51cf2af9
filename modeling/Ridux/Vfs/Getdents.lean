import Ridux.Lib.Cursor
import Ridux.Vfs.DirNames

/-!
# Reading a directory to its end

Successive calls of `real_sys_getdents64` read the entries of a directory in pages.

* `emitAll_pages`: a call emits the entries from its offset on, as many as have room;
* `DirWorld.lists_iff`: the calls return each child once exactly when the entries do;
* `DirWorld.Listable`: when they do;
* `directory_listing_exact`: the result for every directory.
-/

namespace Ridux

open Lib List Option

/-! ### One call -/

/-- The records of entries, from a place in the buffer and a position on. -/
def direntsAt (pos seq : ℕ) : List DirEntry → List (ℕ × Dirent)
  | [] => []
  | e :: es =>
      (pos, ⟨seq + 1, seq + 1, direntSize, e.2.code, strlcpy direntNameMax e.1⟩) ::
        direntsAt (pos + direntSize) (seq + 1) es

variable {count off : ℕ}

theorem emitAll_append (es fs : List DirEntry) (b : DirBuf) :
    emitAll count off (es ++ fs) b =
      if (emitAll count off es b).1 then emitAll count off es b
      else emitAll count off fs (emitAll count off es b).2 := by
  induction es generalizing b with
  | nil => rfl
  | cons e es ih =>
    simp only [cons_append, emitAll]
    by_cases hfull : (getdentsEmit count off b e).1 = true
    · simp [hfull]
    · simp [hfull, ih]

theorem emitAll_skip {es : List DirEntry} {b : DirBuf} (h : b.seq + es.length ≤ off) :
    emitAll count off es b = (false, { b with seq := b.seq + es.length }) := by
  induction es generalizing b with
  | nil => rfl
  | cons e es ih =>
    rw [length_cons] at h
    simp only [emitAll, getdentsEmit, if_pos (show b.seq < off by omega), Bool.false_eq_true, if_false]
    rw [ih (by simp only; omega)]
    simp only [length_cons, Prod.mk.injEq, DirBuf.mk.injEq, true_and, and_true]
    omega

theorem emitAll_emit {es : List DirEntry} {b : DirBuf} (h : off ≤ b.seq) :
    let fit := es.take ((count - b.written) / direntSize)
    emitAll count off es b = (decide (fit.length < es.length),
      ⟨b.written + direntSize * fit.length, b.seq + fit.length,
        b.records ++ direntsAt b.written b.seq fit⟩) := by
  induction es generalizing b with
  | nil => simp [emitAll, direntsAt]
  | cons e es ih =>
    have hseq : ¬ b.seq < off := by omega
    have hsize : direntSize = 280 := rfl
    unfold emitAll
    by_cases hfull : b.written + direntSize > count
    · have hemit : getdentsEmit count off b e = (true, b) := by
        rw [getdentsEmit, if_neg hseq, if_pos hfull]
      have hroom : (count - b.written) / direntSize = 0 := by
        rw [Nat.div_eq_zero_iff]
        right
        omega
      simp [hemit, hroom, direntsAt]
    · have hemit : getdentsEmit count off b e = (false, ⟨b.written + direntSize, b.seq + 1, b.records ++
          [(b.written, ⟨b.seq + 1, b.seq + 1, direntSize, e.2.code, strlcpy direntNameMax e.1⟩)]⟩) := by
        rw [getdentsEmit, if_neg hseq, if_neg hfull]
      have hroom : (count - b.written) / direntSize = (count - (b.written + direntSize)) / direntSize + 1 := by
        rw [show count - b.written = count - (b.written + direntSize) + direntSize by omega,
          Nat.add_div_right _ (by decide)]
      rw [hemit]
      simp only [Bool.false_eq_true, if_false]
      rw [ih (by simp only; omega), hroom]
      simp only [take_succ_cons, length_cons, direntsAt, Nat.add_lt_add_iff_right,
        Prod.mk.injEq, DirBuf.mk.injEq, true_and, append_assoc, singleton_append, and_true]
      constructor
      · rw [Nat.mul_add]
        omega
      · omega

theorem emitAll_pages {es : List DirEntry} (h : off ≤ es.length) :
    let fit := page es off (count / direntSize)
    (emitAll count off es ⟨0, 0, []⟩).2 =
      ⟨direntSize * fit.length, off + fit.length, direntsAt 0 off fit⟩ := by
  have hlen : (es.take off).length = off := by
    rw [length_take]
    omega
  have hskip : emitAll count off (es.take off) ⟨0, 0, []⟩ = (false, ⟨0, off, []⟩) := by
    rw [emitAll_skip (by simp only; omega)]
    simp only [hlen]
    rw [Nat.zero_add]
  have hemit := @emitAll_emit count off (es.drop off) ⟨0, off, []⟩ (le_refl off)
  intro fit
  rw [← take_append_drop off es, emitAll_append, hskip]
  simp only [Bool.false_eq_true, if_false, hemit]
  simp only [Nat.zero_add, Nat.sub_zero, nil_append]
  rfl

theorem direntsAt_names (es : List DirEntry) (pos seq : ℕ) :
    ((direntsAt pos seq es).map fun r => r.2.name) = es.map fun e => strlcpy direntNameMax e.1 := by
  induction es generalizing pos seq with
  | nil => rfl
  | cons e es ih =>
    simp only [direntsAt, map_cons]
    rw [ih]

theorem laid_direntsAt (es : List DirEntry) {pos : ℕ} (seq : ℕ) (h : 8 ∣ pos) :
    Laid pos (direntsAt pos seq es) (pos + direntSize * es.length) := by
  have hsize : direntSize = 280 := rfl
  induction es generalizing pos seq with
  | nil => rfl
  | cons e es ih =>
    have hnext : 8 ∣ pos + direntSize := by omega
    have hih := ih (seq + 1) hnext
    rw [show pos + direntSize + direntSize * es.length = pos + direntSize * (e :: es).length by
      rw [length_cons, Nat.mul_add]; omega] at hih
    refine ⟨rfl, h, ?_, hih⟩
    simp only [length_cons, Nat.mul_add]
    omega

/-! ### Calls one after the other -/

namespace DirWorld

variable {w : DirWorld} {d : DirPath} {es : List DirEntry} {n : Bytes}

theorem getdents_page (hes : w.entries d.val = some es) (hoff : off ≤ (dotEntries ++ es).length)
    (hcount : direntSize ≤ count) :
    let fit := page (dotEntries ++ es) off (count / direntSize)
    w.realSysGetdents64 (.dir (some d.val) off) true count =
      (.ok ⟨direntSize * fit.length, off + fit.length, direntsAt 0 off fit⟩,
        .dir (some d.val) (off + fit.length)) := by
  have hpage := @emitAll_pages count off _ hoff
  rw [emitAll_append] at hpage
  simp only [realSysGetdents64, Bool.not_true, Bool.false_eq_true, if_false, if_neg (not_lt.2 hcount), hes]
  by_cases hfull : (emitAll count off dotEntries ⟨0, 0, []⟩).1 = true
  · rw [if_pos hfull] at hpage ⊢
    rw [hpage]
  · rw [if_neg hfull] at hpage ⊢
    rw [hpage]

theorem fdAt_eq (hes : w.entries d.val = some es) {count : ℕ → ℕ} (hcount : ∀ i, direntSize ≤ count i)
    (i : ℕ) : w.fdAt d count i =
      .dir (some d.val) (position (dotEntries ++ es) (fun j => count j / direntSize) i) := by
  induction i with
  | zero => rfl
  | succ i ih =>
    have hle := position_le (dotEntries ++ es) (fun j => count j / direntSize) i
    rw [fdAt, ih, getdents_page hes hle (hcount i)]
    rfl

theorem call_eq (hes : w.entries d.val = some es) {count : ℕ → ℕ} (hcount : ∀ i, direntSize ≤ count i)
    (i : ℕ) :
    let pos := position (dotEntries ++ es) (fun j => count j / direntSize) i
    let fit := page (dotEntries ++ es) pos (count i / direntSize)
    w.call d count i = .ok ⟨direntSize * fit.length, pos + fit.length, direntsAt 0 pos fit⟩ := by
  have hle := position_le (dotEntries ++ es) (fun j => count j / direntSize) i
  rw [call, fdAt_eq hes hcount, getdents_page hes hle (hcount i)]

theorem namesReturned_eq (hes : w.entries d.val = some es) {count : ℕ → ℕ}
    (hcount : ∀ i, direntSize ≤ count i) (n : ℕ) :
    w.namesReturned d count n = (pages (dotEntries ++ es) (fun j => count j / direntSize) n).map
      fun e => strlcpy direntNameMax e.1 := by
  rw [namesReturned, pages, map_flatMap]
  congr 1
  funext i
  rw [call_eq hes hcount]
  exact direntsAt_names _ _ _

theorem lists_iff (hes : w.entries d.val = some es) {count : ℕ → ℕ}
    (hcount : ∀ i, direntSize ≤ count i) :
    w.Lists d count ↔ ListsOnce ((dotEntries ++ es).map fun e => strlcpy direntNameMax e.1)
      fun x => x ∈ dotEntries.map Prod.fst ∨ w.Child d x := by
  obtain ⟨n, hbefore, hall, hafter⟩ := exists_exhausted (dotEntries ++ es) (fun j => count j / direntSize)
    fun j => Nat.div_pos (hcount j) (by decide)
  have hwritten : ∀ i b, w.call d count i = .ok b → (b.written = 0 ↔ n ≤ i) := by
    intro i b hb
    rw [call_eq hes hcount] at hb
    obtain rfl := Except.ok.inj hb
    have hpos : ¬ direntSize = 0 := by decide
    rw [Nat.mul_eq_zero, or_iff_right hpos, length_eq_zero_iff]
    constructor
    · intro h0
      by_contra hlt
      exact hbefore i (by omega) h0
    · exact hafter i
  constructor
  · rintro ⟨m, hcalls, honce⟩
    obtain rfl : m = n := by
      obtain ⟨b, hb, -, -, hm⟩ := hcalls m
      obtain ⟨b', hb', -, -, hn⟩ := hcalls n
      have h1 := (hwritten m b hb).1 (hm.2 le_rfl)
      have h2 := hn.1 ((hwritten n b' hb').2 le_rfl)
      omega
    rwa [namesReturned_eq hes hcount, hall] at honce
  · intro honce
    refine ⟨n, fun i => ⟨_, call_eq hes hcount i, ?_, ?_, hwritten i _ (call_eq hes hcount i)⟩, ?_⟩
    · simpa using laid_direntsAt _ _ (Nat.dvd_zero 8)
    · have hroom := Nat.div_mul_le_self (count i) direntSize
      have hlen : (page (dotEntries ++ es) (position (dotEntries ++ es) (fun j => count j / direntSize) i)
          (count i / direntSize)).length ≤ count i / direntSize := by
        rw [page, length_take]
        omega
      have := Nat.mul_le_mul_left direntSize hlen
      rw [Nat.mul_comm] at hroom
      simp only
      omega
    · rwa [namesReturned_eq hes hcount, hall]

theorem not_lists_of_gone (hes : w.entries d.val = none) : ¬ w.Lists d fun _ => 3 * direntSize := by
  rintro ⟨n, hcalls, -⟩
  obtain ⟨b, hb, -⟩ := hcalls 0
  have hdots : (emitAll (3 * direntSize) 0 dotEntries ⟨0, 0, []⟩).1 = false := by decide
  simp [call, fdAt, realSysGetdents64, hes, hdots] at hb
  split_ifs at hb

/-! ### Which directories are listed -/

/-- The directory of a thread, which the source lists without a look at sockets and files. -/
def Closed (w : DirWorld) (d : DirPath) : Prop := (w.firstEntries d.val).2 = true

instance (w : DirWorld) (d : DirPath) : Decidable (w.Closed d) := by
  unfold Closed
  infer_instance

/-- The names that do not come from the VFS, in the order of the entries. -/
def fixedNames (w : DirWorld) (d : DirPath) : List Bytes :=
  (dotEntries.map Prod.fst ++ ((w.firstEntries d.val).1.getD []).map Prod.fst) ++
    if w.Closed d then []
    else w.displayNames d.val ++ (w.tableEntries d.val).map Prod.fst ++ w.socketNames d.val

/-- The process or the thread of the directory is there, the names of its sources are distinct, each
file and socket in it comes from one of them, and the listing of the VFS has lines and room for all
of its names. -/
structure Listable (w : DirWorld) (d : DirPath) : Prop where
  present : (w.firstEntries d.val).1 ≠ none
  distinct : (w.fixedNames d).Nodup
  displays : ¬ w.Closed d → ∀ n ∈ w.displayNames d.val, slash ∉ n
  sockets : ∀ n, w.HasSocket d n →
    n ∈ w.fixedNames d ∨ ¬ w.Closed d ∧ w.vfs.Has d n ∧ n ≠ dirMarker
  files : ∀ n, w.vfs.Has d n → n ≠ dirMarker → (n ∈ w.fixedNames d ↔ w.Closed d)
  lines : ∀ n, w.vfs.Has d n → newline ∉ n
  room : w.vfs.listingRoom d ≤ direntListMax

theorem dotEntries_plain : ∀ n ∈ dotEntries.map Prod.fst, PlainName n := by decide

theorem Child.slash (h : w.Child d n) : Ridux.slash ∉ n := by
  rcases h with h | ⟨i, -, -, hseg, -⟩ | ⟨⟨i, -, -, hleads⟩, -⟩
  · exact (builtinNames_plain n h).1.2
  · exact hseg.2
  · exact hleads.1.2

theorem entries_names (hes : w.entries d.val = some es) : (dotEntries ++ es).map Prod.fst =
    w.fixedNames d ++ if w.Closed d then [] else w.fileNames d.val := by
  obtain ⟨first, hfirst, rfl⟩ := map_eq_some_iff.1 hes
  unfold fixedNames Closed
  rw [hfirst, getD_some]
  by_cases hclosed : (w.firstEntries d.val).2 = true
  · simp [hclosed]
  · simp [hclosed, Function.comp_def]

theorem entries_fit (hline : ∀ n, w.vfs.Has d n → newline ∉ n)
    (hroom : w.vfs.listingRoom d ≤ direntListMax) (hes : w.entries d.val = some es) :
    ((dotEntries ++ es).map fun e => strlcpy direntNameMax e.1) = (dotEntries ++ es).map Prod.fst := by
  have hfits : ∀ n ∈ (dotEntries ++ es).map Prod.fst, FitsBuf n := by
    intro n hn
    rw [entries_names hes, fixedNames] at hn
    rcases mem_append.1 hn with hn | hn
    · rcases mem_append.1 hn with hn | hn
      · rcases mem_append.1 hn with hn | hn
        · exact (dotEntries_plain n hn).2
        · obtain ⟨e, he, rfl⟩ := mem_map.1 hn
          cases hfirst : (w.firstEntries d.val).1 with
          | none => rw [hfirst] at he; cases he
          | some l => rw [hfirst] at he; exact (firstEntries_plain hfirst e he).2
      · split_ifs at hn
        · cases hn
        · rcases mem_append.1 hn with hn | hn
          · rcases mem_append.1 hn with hn | hn
            · obtain ⟨-, i, -, -, hi⟩ := mem_displayNames hn
              exact fits_of_bound hi
            · obtain ⟨e, he, rfl⟩ := mem_map.1 hn
              exact (tableEntries_plain d.val e he).2
          · obtain ⟨i, -, -, -, -, hi⟩ := mem_socketNames.1 hn
            exact fits_of_bound hi
    · split_ifs at hn
      · cases hn
      · exact fits_of_has (((fileNames_spec hline hroom).2 n).1 hn).1
  apply map_congr_left
  intro e he
  exact strlcpy_of_fits (hfits e.1 (mem_map_of_mem he))

theorem mem_builtinNames : n ∈ w.builtinNames d ↔
    n ∈ ((w.firstEntries d.val).1.getD []).map Prod.fst ∨
      ¬ w.Closed d ∧ n ∈ (w.tableEntries d.val).map Prod.fst := by
  unfold builtinNames Closed
  simp only
  split_ifs with h
  · simp [h]
  · simp [h]

theorem listsOnce_iff (hline : ∀ n, w.vfs.Has d n → newline ∉ n)
    (hroom : w.vfs.listingRoom d ≤ direntListMax) (hes : w.entries d.val = some es) :
    ListsOnce ((dotEntries ++ es).map Prod.fst)
      (fun x => x ∈ dotEntries.map Prod.fst ∨ w.Child d x) ↔ w.Listable d := by
  obtain ⟨hfnd, hfmem⟩ := fileNames_spec hline hroom
  rw [entries_names hes]
  constructor
  · rintro ⟨hnd, hmem⟩
    obtain ⟨hfixed, hfiles, hdisj⟩ := nodup_append.1 hnd
    refine ⟨?_, hfixed, ?_, ?_, ?_, hline, hroom⟩
    · obtain ⟨first, hfirst, -⟩ := map_eq_some_iff.1 hes
      rw [hfirst]
      simp
    · intro hclosed n hn
      have hlisted : n ∈ w.fixedNames d := by
        unfold fixedNames
        rw [if_neg hclosed]
        simp [hn]
      rcases (hmem n).1 (mem_append_left _ hlisted) with h | h
      · exact (dotEntries_plain n h).1.2
      · exact h.slash
    · intro n hn
      rcases mem_append.1 ((hmem n).2 (.inr (.inr (.inl hn)))) with h | h
      · exact .inl h
      · right
        split_ifs at h with hclosed
        · cases h
        · exact ⟨hclosed, (hfmem n).1 h⟩
    · intro n hn hmark
      have hlisted := (hmem n).2 (.inr (.inr (.inr ⟨hn, hmark⟩)))
      by_cases hclosed : w.Closed d
      · rw [if_pos hclosed, append_nil] at hlisted
        exact iff_of_true hlisted hclosed
      · rw [if_neg hclosed] at hdisj
        exact iff_of_false (fun h => hdisj n h n ((hfmem n).2 ⟨hn, hmark⟩) rfl) hclosed
  · intro h
    refine ⟨?_, fun n => ⟨?_, ?_⟩⟩
    · by_cases hclosed : w.Closed d
      · rw [if_pos hclosed, append_nil]
        exact h.distinct
      · rw [if_neg hclosed, nodup_append]
        refine ⟨h.distinct, hfnd, ?_⟩
        rintro n hn m hm rfl
        obtain ⟨hhas, hmark⟩ := (hfmem n).1 hm
        exact hclosed ((h.files n hhas hmark).1 hn)
    · intro hn
      rcases mem_append.1 hn with hn | hn
      · rcases mem_append.1 hn with hn | hn
        · rcases mem_append.1 hn with hn | hn
          · exact .inl hn
          · exact .inr (.inl (mem_builtinNames.2 (.inl hn)))
        · split_ifs at hn with hclosed
          · cases hn
          · right
            rcases mem_append.1 hn with hn | hn
            · rcases mem_append.1 hn with hn | hn
              · obtain ⟨hne, i, hi, hl, hpath⟩ := mem_displayNames hn
                exact .inr (.inl ⟨i, hi, hl, ⟨hne, h.displays hclosed n hn⟩, hpath⟩)
              · exact .inl (mem_builtinNames.2 (.inr ⟨hclosed, hn⟩))
            · obtain ⟨i, hi, hl, -, hseg, hpath⟩ := mem_socketNames.1 hn
              exact .inr (.inl ⟨i, hi, hl, hseg, hpath⟩)
      · split_ifs at hn
        · cases hn
        · exact .inr (.inr (.inr ((hfmem n).1 hn)))
    · rintro (hn | hn | hn | ⟨hn, hmark⟩)
      · exact mem_append_left _ (mem_append_left _ (mem_append_left _ hn))
      · apply mem_append_left
        rcases mem_builtinNames.1 hn with hn | ⟨hclosed, hn⟩
        · exact mem_append_left _ (mem_append_right _ hn)
        · unfold fixedNames
          rw [if_neg hclosed]
          exact mem_append_right _ (mem_append_left _ (mem_append_right _ hn))
      · rcases h.sockets n hn with hn | ⟨hclosed, hn⟩
        · exact mem_append_left _ hn
        · rw [if_neg hclosed]
          exact mem_append_right _ ((hfmem n).2 hn)
      · by_cases hclosed : w.Closed d
        · exact mem_append_left _ ((h.files n hn hmark).2 hclosed)
        · rw [if_neg hclosed]
          exact mem_append_right _ ((hfmem n).2 ⟨hn, hmark⟩)

theorem entries_isSome (h : (w.firstEntries d.val).1 ≠ none) : ∃ es, w.entries d.val = some es := by
  obtain ⟨first, hfirst⟩ := ne_none_iff_exists'.1 h
  exact ⟨_, by rw [entries, hfirst]; rfl⟩

end DirWorld

/-- **Directories are listed completely and without repetition** exactly when their sources have
distinct names that a listing of the VFS can hold. -/
theorem directory_listing_exact (w : DirWorld) (d : DirPath) :
    ((∀ count : ℕ → ℕ, (∀ i, direntSize ≤ count i) → w.Lists d count) ∧
      w.vfs.ListdirExact d direntListMax) ↔ w.Listable d := by
  rw [kvfsListdir_exact_iff w.vfs_paths d (show vfsMaxPath < direntListMax by decide)]
  constructor
  · rintro ⟨hlists, hline, hroom⟩
    have hcount : ∀ i : ℕ, direntSize ≤ (fun _ => 3 * direntSize) i :=
      fun _ => show direntSize ≤ 3 * direntSize by decide
    cases hes : w.entries d.val with
    | none => exact absurd (hlists _ hcount) (DirWorld.not_lists_of_gone hes)
    | some es =>
      have hlist := (DirWorld.lists_iff hes hcount).1 (hlists _ hcount)
      rw [DirWorld.entries_fit hline hroom hes] at hlist
      exact (DirWorld.listsOnce_iff hline hroom hes).1 hlist
  · intro h
    refine ⟨fun count hcount => ?_, h.lines, h.room⟩
    obtain ⟨es, hes⟩ := DirWorld.entries_isSome h.present
    rw [DirWorld.lists_iff hes hcount, DirWorld.entries_fit h.lines h.room hes]
    exact (DirWorld.listsOnce_iff h.lines h.room hes).2 h

/-- The root directory. -/
def rootDir : DirPath where
  val := [slash]
  fits := ⟨by decide, by decide⟩
  absolute := rfl
  trimmed h := absurd rfl h

/-- A system with the one file `/etc/passwd`. -/
def etcWorld : DirWorld where
  vbox := false
  cur := ⟨1, 1, true, fun _ => false⟩
  tasks := [⟨1, 1, true, fun _ => false⟩]
  sockets := .boot
  vfs := vfsInit.set 0 { VfsFile.zero with used := true, path := ascii "/etc/passwd" }
  isDir _ := false
  vfs_paths i h := by
    by_cases hi : i = 0
    · subst hi
      decide
    · simp [Vfs.set, vfsInit, VfsFile.zero, hi] at h
  bound_paths _ := show 0 ∉ ([] : Bytes) ∧ ([] : Bytes).length < 108 by decide

theorem etcWorld_has {n : Bytes} : etcWorld.vfs.Has rootDir n ↔ n = ascii "etc" := by
  have hlisted : listedName rootDir.val (ascii "/etc/passwd") = some (ascii "etc") := by decide
  have hleads : ∀ {m : Bytes}, rootDir.Leads m (ascii "/etc/passwd") ↔ m = ascii "etc" := by
    intro m
    rw [← listedName_eq_some rootDir (by decide), hlisted, some_inj, eq_comm]
  constructor
  · rintro ⟨i, -, hu, hl⟩
    by_cases hi : i = 0
    · subst hi
      exact hleads.1 hl
    · simp [etcWorld, Vfs.set, vfsInit, VfsFile.zero, hi] at hu
  · rintro rfl
    exact ⟨0, by decide, by decide, hleads.2 rfl⟩

/-- `etc` is in the root directory both as a name of the source and as one of the VFS. -/
theorem directory_listing_not_exact : ¬ etcWorld.Lists rootDir fun _ => 4096 := by
  have hline : ∀ n, etcWorld.vfs.Has rootDir n → newline ∉ n := by
    intro n hn
    obtain rfl := etcWorld_has.1 hn
    decide
  have hroom : etcWorld.vfs.listingRoom rootDir ≤ direntListMax := by
    have hsub : listedNames etcWorld.vfs rootDir.val ⊆ [ascii "etc"] := fun n hn => by
      rw [mem_singleton]
      exact etcWorld_has.1 ((mem_listedNames etcWorld.vfs_paths rootDir).1 hn)
    exact (roomFor_mono hsub).trans (by decide)
  obtain ⟨es, hes⟩ := DirWorld.entries_isSome (w := etcWorld) (d := rootDir) (by decide)
  rw [DirWorld.lists_iff hes fun _ => by decide, DirWorld.entries_fit hline hroom hes,
    DirWorld.listsOnce_iff hline hroom hes]
  intro h
  have hfixed : ascii "etc" ∈ etcWorld.fixedNames rootDir := mem_append_left _ (by decide)
  exact absurd ((h.files _ (etcWorld_has.2 rfl) (by decide)).1 hfixed) (by decide)

end Ridux
