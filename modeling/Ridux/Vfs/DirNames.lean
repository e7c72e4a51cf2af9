import Mathlib.Data.Nat.Digits.Lemmas
import Ridux.Vfs.Dirents

/-!
# The names that a directory is listed with

Where the entries of `real_sys_getdents64` come from, name by name.

* `PlainName`: a name that a record holds whole;
* `DirWorld.builtinNames_plain`: every name of the source is one;
* `DirWorld.mem_displayNames`, `DirWorld.mem_socketNames`: the names of listening sockets;
* `DirWorld.fileNames_spec`: the names of the VFS, while its listing is exact.
-/

namespace Ridux

open Lib

/-- A name that fits in `d_name`: a component of a path, of at most 255 bytes. -/
def PlainName (n : Bytes) : Prop := IsSegment n ∧ FitsBuf n

instance (n : Bytes) : Decidable (PlainName n) := by
  unfold PlainName IsSegment FitsBuf
  infer_instance

variable {n : Bytes} {lines : List Bytes}

theorem strlcpy_of_fits (h : FitsBuf n) : strlcpy direntNameMax n = n := by
  have hmax : vfsPathMax = direntNameMax := rfl
  have hlen := h.2
  rw [strlcpy_of_not_mem h.1, List.take_of_length_le (by omega)]

/-! ### Names of the source -/

theorem decimal_plain {v : ℕ} (hv : v < 2 ^ 32) : PlainName (decimal v) := by
  have hlen : (decimal v).length ≤ 10 := by
    unfold decimal
    split_ifs with h0
    · decide
    · rw [List.length_map, List.length_reverse, Nat.digits_length_le_iff (by decide)]
      omega
  refine ⟨⟨?_, slash_not_mem_decimal v⟩, zero_not_mem_decimal v, lt_of_le_of_lt hlen (by decide)⟩
  unfold decimal
  split_ifs with h0
  · decide
  · rw [Ne, List.map_eq_nil_iff, List.reverse_eq_nil_iff]
    exact Nat.digits_ne_nil_iff_ne_zero.2 h0

theorem builtinDirents_spec (vbox : Bool) : ∀ row ∈ builtinDirents vbox,
    (row.2.map Prod.fst).Nodup ∧ ∀ e ∈ row.2, PlainName e.1 := by
  cases vbox <;> decide +kernel

namespace DirWorld

variable {w : DirWorld} {d : DirPath}

theorem fdEntries_plain (t : DirTask) : ∀ e ∈ fdEntries t, PlainName e.1 := by
  intro e he
  obtain ⟨i, hi, rfl⟩ := List.mem_map.1 he
  have hlt := List.mem_range.1 (List.mem_filter.1 hi).1
  exact decimal_plain (lt_trans hlt (by decide))

theorem taskEntries_plain (tasks : List DirTask) : ∀ e ∈ taskEntries tasks, PlainName e.1 := by
  intro e he
  obtain ⟨t, -, rfl⟩ := List.mem_map.1 he
  exact decimal_plain t.pid.toNat_lt

theorem firstEntries_plain {d : Bytes} {es : List DirEntry} (h : (w.firstEntries d).1 = some es) :
    ∀ e ∈ es, PlainName e.1 := by
  have hroot : ∀ e ∈ rootNames, PlainName e.1 := by decide +kernel
  have hproc : ∀ e ∈ procNames, PlainName e.1 := by decide +kernel
  have hpid : ∀ e ∈ pidNames, PlainName e.1 := by decide +kernel
  have hself : ∀ e ∈ selfNames, PlainName e.1 := by decide +kernel
  have htask : ∀ e ∈ taskNames, PlainName e.1 := by decide +kernel
  have hconst : ∀ {o : Option DirTask} {l : List DirEntry}, (∀ e ∈ l, PlainName e.1) →
      (o.map fun _ => l) = some es → ∀ e ∈ es, PlainName e.1 := by
    intro o l hl ho
    cases o with
    | none => cases ho
    | some t => cases ho; exact hl
  unfold firstEntries at h
  by_cases h1 : d = ascii "/"
  · rw [if_pos h1] at h
    cases h
    exact hroot
  rw [if_neg h1] at h
  by_cases h2 : d = ascii "/proc"
  · rw [if_pos h2] at h
    cases h
    intro e he
    rcases List.mem_append.1 he with he | he
    · exact hproc e he
    · exact taskEntries_plain _ e he
  rw [if_neg h2] at h
  split at h
  · exact hconst hpid h
  · split_ifs at h
    · obtain ⟨p, -, hp⟩ := Option.bind_eq_some_iff.1 h
      obtain ⟨t, -, rfl⟩ := Option.map_eq_some_iff.1 hp
      exact fdEntries_plain t
    · cases h
      exact hself
    · cases h
      exact taskEntries_plain _
    · split at h
      · exact hconst htask h
      · cases h
        simp

theorem tableEntries_plain (d : Bytes) : ∀ e ∈ w.tableEntries d, PlainName e.1 := by
  unfold tableEntries
  split_ifs
  · exact fdEntries_plain _
  · cases hrow : (builtinDirents w.vbox).find? fun row => row.1.any fun key => ascii key = d with
    | none => simp
    | some row => exact (builtinDirents_spec w.vbox row (List.mem_of_find?_eq_some hrow)).2

theorem builtinNames_plain : ∀ n ∈ w.builtinNames d, PlainName n := by
  intro n hn
  obtain ⟨e, he, rfl⟩ := List.mem_map.1 hn
  rcases List.mem_append.1 he with he | he
  · cases hfirst : (w.firstEntries d.val).1 with
    | none => rw [hfirst] at he; cases he
    | some es => rw [hfirst] at he; exact firstEntries_plain hfirst e he
  · split_ifs at he
    · cases he
    · exact tableEntries_plain d.val e he

/-! ### Names of sockets -/

theorem boundSocketChildName_eq_some (d : DirPath) {path : Bytes} :
    boundSocketChildName d.val path = some n ↔ IsSegment n ∧ path = d.front ++ n := by
  have hne : d.val ≠ [] := by
    intro h
    have := d.absolute
    rw [h] at this
    cases this
  have htoken : ∀ {s : Bytes}, hasToken s (ascii "/") = true ↔ slash ∈ s := by
    intro s
    have hlit : ascii "/" = [slash] := by decide
    rw [hasToken, hlit]
    simp only [ne_eq, List.cons_ne_self, not_false_eq_true, true_and,
      List.any_eq_true, List.mem_range, List.isPrefixOf_iff_prefix, decide_eq_true_eq]
    constructor
    · rintro ⟨i, -, h⟩
      exact List.mem_of_mem_drop (h.subset (by simp))
    · intro h
      obtain ⟨a, b, rfl⟩ := List.append_of_mem h
      exact ⟨a.length, by simp, by simp⟩
  have hname : ∀ {t : Bytes}, (if t = [] ∨ hasToken t (ascii "/") = true then none else some t) = some n ↔
      IsSegment n ∧ t = n := by
    intro t
    simp only [htoken]
    constructor
    · intro h
      split_ifs at h with hcase
      obtain rfl := Option.some.inj h
      exact ⟨not_or.1 hcase, rfl⟩
    · rintro ⟨hseg, rfl⟩
      rw [if_neg (not_or.2 hseg)]
  by_cases hroot : d.val = [slash]
  · simp only [boundSocketChildName, hroot, DirPath.front, if_true]
    cases path with
    | nil => simp
    | cons c t =>
      by_cases hc : c = slash
      · subst hc
        simpa using hname (t := t)
      · simp [hc]
  · have hfront : d.front = d.val ++ [slash] := if_neg hroot
    rw [hfront, boundSocketChildName]
    by_cases hpre : d.val ++ [slash] <+: path
    · obtain ⟨t, rfl⟩ := hpre
      have hnil : ¬ (d.val = [] ∨ d.val ++ [slash] ++ t = []) := by simp [hne]
      have hstart : startsWith (d.val ++ [slash] ++ t) d.val = true ∧
          ((d.val ++ [slash] ++ t).drop d.val.length).head? = some slash := by
        rw [startsWith, List.isPrefixOf_iff_prefix, List.append_assoc, List.drop_left]
        exact ⟨List.prefix_append _ _, rfl⟩
      have hdrop : (d.val ++ [slash] ++ t).drop (d.val.length + 1) = t :=
        List.drop_left' (by simp)
      simp only [if_neg hnil, if_neg hroot, if_pos hstart, hdrop, Option.bind_some]
      rw [hname, List.append_right_inj]
    · have hcond : ¬ (startsWith path d.val = true ∧ (path.drop d.val.length).head? = some slash) := by
        rintro ⟨hs, hh⟩
        rw [startsWith, List.isPrefixOf_iff_prefix] at hs
        obtain ⟨t, rfl⟩ := hs
        rw [List.drop_left] at hh
        obtain ⟨t', rfl⟩ := List.head?_eq_some_iff.1 hh
        exact hpre ⟨t', by simp⟩
      have hpath : path ≠ d.val ++ [slash] ++ n := by
        rintro rfl
        exact hpre (List.prefix_append _ _)
      simp only [if_neg hroot, if_neg hcond, hpath, ite_self, Option.bind_none, and_false]
      simp

theorem mem_socketNames : n ∈ w.socketNames d.val ↔ ∃ i < sockMax,
    w.sockets.boundPathIsListener i = true ∧ hiddenSocket (w.sockets.boundPath i) = false ∧
      IsSegment n ∧ w.sockets.boundPath i = d.front ++ n := by
  simp only [socketNames, List.mem_filterMap, List.mem_filter, List.mem_range,
    boundSocketChildName_eq_some, decide_eq_true_eq, Bool.not_eq_true']
  constructor
  · rintro ⟨i, ⟨hi, hl, hh⟩, hn⟩
    exact ⟨i, hi, hl, hh, hn⟩
  · rintro ⟨i, hi, hl, hh, hn⟩
    exact ⟨i, ⟨hi, hl, hh⟩, hn⟩

theorem mem_displayNames (h : n ∈ w.displayNames d.val) : n ≠ [] ∧ ∃ i < sockMax,
    w.sockets.boundPathIsListener i = true ∧ w.sockets.boundPath i = d.front ++ n := by
  have key : ∀ {lit dir : String} {k : ℕ}, d.val = ascii dir → ascii lit = (ascii lit).take k ++ ascii "wayland-" →
      d.front = (ascii lit).take k → (ascii lit).take k ≠ [] → k ≤ (ascii lit).length →
      n ∈ ((((List.range sockMax).filter w.sockets.boundPathIsListener).map w.sockets.boundPath).filter
        fun p => startsWith p (ascii lit)).map (List.drop k) →
      n ≠ [] ∧ ∃ i < sockMax, w.sockets.boundPathIsListener i = true ∧ w.sockets.boundPath i = d.front ++ n := by
    intro lit dir k hd hlit hfront hne hk hn
    obtain ⟨p, hp, rfl⟩ := List.mem_map.1 hn
    obtain ⟨hp, hs⟩ := List.mem_filter.1 hp
    obtain ⟨i, hi, rfl⟩ := List.mem_map.1 hp
    obtain ⟨hi, hl⟩ := List.mem_filter.1 hi
    rw [startsWith, List.isPrefixOf_iff_prefix] at hs
    obtain ⟨t, ht⟩ := hs
    have hlen : ((ascii lit).take k).length = k := by
      rw [List.length_take]
      omega
    have hpath : w.sockets.boundPath i = (ascii lit).take k ++ (ascii "wayland-" ++ t) := by
      rw [← ht, ← List.append_assoc, ← hlit]
    have hdrop : (w.sockets.boundPath i).drop k = ascii "wayland-" ++ t := by
      rw [hpath]
      nth_rewrite 1 [← hlen]
      rw [List.drop_left]
    rw [hdrop]
    refine ⟨?_, i, List.mem_range.1 hi, hl, by rw [hpath, hfront]⟩
    intro hnil
    exact absurd (List.append_eq_nil_iff.1 hnil).1 (by decide)
  unfold displayNames at h
  simp only at h
  split_ifs at h with h0 h1000
  · exact key h0 (by decide) (by rw [DirPath.front, h0]; decide) (by decide) (by decide) h
  · exact key h1000 (by decide) (by rw [DirPath.front, h1000]; decide) (by decide) (by decide) h
  · cases h

theorem fits_of_bound {i : ℕ} (h : w.sockets.boundPath i = d.front ++ n) : FitsBuf n := by
  obtain ⟨h0, hlen⟩ := w.bound_paths i
  rw [h] at h0 hlen
  rw [List.length_append] at hlen
  exact ⟨fun hm => h0 (List.mem_append_right _ hm), lt_of_le_of_lt (by omega) (show 107 < vfsPathMax by decide)⟩

end DirWorld

/-! ### Names of the VFS -/

theorem dropWhile_textOf (h : ∀ l ∈ lines, IsLine newline l) :
    (textOf newline lines).dropWhile (· == newline) = textOf newline lines := by
  cases lines with
  | nil => rfl
  | cons l ls =>
    obtain ⟨hne, hnl⟩ := h l (by simp)
    obtain ⟨c, cs, rfl⟩ := List.exists_cons_of_ne_nil hne
    have hc : c ≠ newline := by
      rintro rfl
      exact hnl (by simp)
    by_cases hls : ls = []
    · subst hls
      simp [textOf, hc]
    · rw [textOf_cons _ hls, List.cons_append, List.dropWhile_cons_of_neg (by simpa using hc)]

theorem listingNames_textOf (h : ∀ l ∈ lines, IsLine newline l)
    (hlen : ∀ l ∈ lines, l.length < direntNameMax) {n : ℕ} (hn : (textOf newline lines).length ≤ n) :
    listingNames n (textOf newline lines) = lines := by
  induction lines generalizing n with
  | nil => cases n <;> rfl
  | cons l ls ih =>
    obtain ⟨hne, hnl⟩ := h l (by simp)
    have hpos := List.length_pos_iff.2 hne
    have hl := hlen l (by simp)
    have hls : ∀ m ∈ ls, IsLine newline m := fun m hm => h m (List.mem_cons_of_mem l hm)
    have hlens : ∀ m ∈ ls, m.length < direntNameMax := fun m hm => hlen m (List.mem_cons_of_mem l hm)
    have hall : ∀ x ∈ l, (x != newline) = true := by
      intro x hx
      rw [bne_iff_ne]
      rintro rfl
      exact hnl hx
    obtain ⟨rest, htext, hrest⟩ : ∃ rest, textOf newline (l :: ls) = l ++ rest ∧
        (l ++ rest).takeWhile (· != newline) = l ∧
        rest.dropWhile (· == newline) = textOf newline ls ∧ (textOf newline ls).length ≤ rest.length := by
      by_cases hnil : ls = []
      · subst hnil
        exact ⟨[], by simp [textOf], by rwa [List.append_nil, List.takeWhile_eq_self_iff], rfl, le_rfl⟩
      · refine ⟨newline :: textOf newline ls, textOf_cons l hnil, ?_, ?_, by simp⟩
        · rw [List.takeWhile_append_of_pos hall]
          simp
        · rw [List.dropWhile_cons_of_pos (by simp), dropWhile_textOf hls]
    obtain ⟨htake, hdrop, hle⟩ := hrest
    rw [htext] at hn ⊢
    rw [List.length_append] at hn
    obtain ⟨m, rfl⟩ : ∃ m, n = m + 1 := ⟨n - 1, by omega⟩
    obtain ⟨c, cs, rfl⟩ := List.exists_cons_of_ne_nil hne
    rw [List.cons_append, listingNames]
    · rw [← List.cons_append, htake, List.take_of_length_le (by omega), List.drop_left, hdrop,
        ih hls hlens (by simp only [List.length_cons] at hn; omega)]
    · simp

namespace DirWorld

variable {w : DirWorld} {d : DirPath}

theorem fits_of_has (h : w.vfs.Has d n) : FitsBuf n := by
  have hlen := h.length_lt w.vfs_paths
  obtain ⟨i, -, hu, -, hcase⟩ := h
  have h0 := (w.vfs_paths i hu).1
  have hmax : vfsMaxPath = vfsPathMax := rfl
  refine ⟨fun hm => h0 ?_, by omega⟩
  rcases hcase with he | hpre
  · rw [he]
    exact List.mem_append_right _ hm
  · exact hpre.subset (List.mem_append_left _ (List.mem_append_right _ hm))

theorem fileNames_spec (hline : ∀ n, w.vfs.Has d n → newline ∉ n)
    (hroom : w.vfs.listingRoom d ≤ direntListMax) :
    ListsOnce (w.fileNames d.val) fun n => w.vfs.Has d n ∧ n ≠ dirMarker := by
  obtain ⟨lines, heq, hnd, hhas, hiff⟩ := kvfsListdir_spec w.vfs_paths d
    (show vfsMaxPath < direntListMax by decide) hline
  have hmem : ∀ n, n ∈ lines ↔ w.vfs.Has d n := fun n => ⟨hhas n, hiff.2 hroom n⟩
  have hlines : ∀ l ∈ lines, IsLine newline l := by
    intro l hl
    obtain ⟨i, -, -, hleads⟩ := hhas l hl
    exact ⟨hleads.1.1, hline l (hhas l hl)⟩
  have hlens : ∀ l ∈ lines, l.length < direntNameMax := by
    intro l hl
    exact (fits_of_has (hhas l hl)).2
  have hnames : w.fileNames d.val = lines.filter fun n => n ≠ [] ∧ n ≠ dirMarker := by
    rw [fileNames, heq, Option.elim_some, listingNames_textOf hlines hlens le_rfl]
  rw [hnames]
  refine ⟨hnd.filter _, fun n => ?_⟩
  rw [List.mem_filter, hmem, decide_eq_true_eq]
  constructor
  · rintro ⟨h, -, hm⟩
    exact ⟨h, hm⟩
  · rintro ⟨h, hm⟩
    exact ⟨h, (hlines n ((hmem n).2 h)).1, hm⟩

end DirWorld

end Ridux
