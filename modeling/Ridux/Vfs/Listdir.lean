import Ridux.Lib.Lines
import Ridux.Vfs.Node
import Ridux.Vfs.Resolve

/-!
# Listings of the VFS

`kvfs_listdir` of `vfs_sched.c`: the first components of the paths in a directory, as lines of a
text in a buffer.

* `vfsListHasName`, `listFrom`, `kvfsListdir`: the functions of the source;
* `DirPath`: the path of an open directory;
* `Vfs.Has`: the first components of the paths in a directory;
* `kvfsListdir_exact_iff`: the text holds each of them once exactly when none has a newline in it
  and the buffer has room for all of them.
-/

namespace Ridux

open Lib List Option

/-- The character between two names of a listing. -/
def newline : UInt8 := 10

/-! ### The listing -/

/-- `vfs_list_has_name`, with the line read so far. -/
def vfsListHasName (name : Bytes) : Bytes → Bytes → Bool
  | line, [] => line ≠ [] ∧ line = name
  | line, c :: list =>
      if c = newline then line = name || vfsListHasName name [] list
      else vfsListHasName name (line ++ [c]) list

/-- `prefix` of `kvfs_listdir`. -/
def listdirPrefix (norm : Bytes) : Bytes :=
  if norm ≠ [slash] ∧ norm.length + 1 < vfsMaxPath ∧ norm.getLast? ≠ some slash then norm ++ [slash]
  else norm

/-- The name that a path contributes to a listing, none where the loop continues. -/
def listedName (norm path : Bytes) : Option Bytes :=
  let rest :=
    if norm = [slash] then if path.head? = some slash then some (path.drop 1) else none
    else if startsWith path (listdirPrefix norm) then some (path.drop (listdirPrefix norm).length)
    else none
  rest.bind fun rest =>
    let name := (rest.takeWhile (· != slash)).take (vfsMaxPath - 1)
    if name = [] then none else some name

/-- The rest of the loop of `kvfs_listdir`, with `out` written so far. -/
def listFrom (cap : ℕ) : List Bytes → Bytes → Bytes
  | [], out => out
  | name :: names, out =>
      if vfsListHasName name [] out then listFrom cap names out
      else if out.length + name.length + 2 > cap then out
      else listFrom cap names ((if out = [] then [] else out ++ [newline]) ++ name)

/-- The names that the paths of the VFS contribute, in the order of the table. -/
def listedNames (s : Vfs) (norm : Bytes) : List Bytes :=
  (List.range vfsMaxFiles).filterMap fun i =>
    if (s.files i).used then listedName norm (s.files i).path else none

/-- `kvfs_listdir` into a buffer of `cap` bytes. -/
def kvfsListdir (s : Vfs) (dir : Bytes) (cap : ℕ) : Option Bytes :=
  if cap = 0 then none
  else some (listFrom cap (listedNames s (vfsNormalizePath (if dir = [] then [slash] else dir))) [])

/-! ### What a directory holds -/

/-- The path of a directory that is open: absolute, and with no slash at its end but in the root. -/
structure DirPath where
  val : Bytes
  fits : FitsBuf val
  absolute : val.head? = some slash
  trimmed : val ≠ [slash] → val.getLast? ≠ some slash

/-- What stands before the names in a directory. -/
def DirPath.front (d : DirPath) : Bytes := if d.val = [slash] then [slash] else d.val ++ [slash]

/-- The path leads through the name `n` in the directory, or to it. -/
def DirPath.Leads (d : DirPath) (n path : Bytes) : Prop :=
  IsSegment n ∧ (path = d.front ++ n ∨ d.front ++ n ++ [slash] <+: path)

/-- The paths of the table are strings in buffers of `VFS_MAX_PATH` bytes. -/
def Vfs.PathsFit (s : Vfs) : Prop :=
  ∀ i, (s.files i).used = true → 0 ∉ (s.files i).path ∧ (s.files i).path.length < vfsMaxPath

/-- The VFS has the name `n` in a directory. -/
def Vfs.Has (s : Vfs) (d : DirPath) (n : Bytes) : Prop :=
  ∃ i < vfsMaxFiles, (s.files i).used = true ∧ d.Leads n (s.files i).path

/-- The lines are the names with a property, each once. -/
def ListsOnce (lines : List Bytes) (p : Bytes → Prop) : Prop := lines.Nodup ∧ ∀ n, n ∈ lines ↔ p n

/-- `kvfs_listdir` yields each name in the directory once. -/
def Vfs.ListdirExact (s : Vfs) (d : DirPath) (cap : ℕ) : Prop :=
  ∃ out, kvfsListdir s d.val cap = some out ∧ ListsOnce (linesOf newline out) (s.Has d)

/-- The room that the names in a directory need in a listing. -/
def Vfs.listingRoom (s : Vfs) (d : DirPath) : ℕ := roomFor (listedNames s d.val)

/-! ### Names of paths -/

variable {n : Bytes}

theorem takeWhile_slash_iff {t : Bytes} (hn : n ≠ []) :
    t.takeWhile (· != slash) = n ↔ IsSegment n ∧ (t = n ∨ n ++ [slash] <+: t) := by
  constructor
  · rintro rfl
    refine ⟨⟨hn, fun h => by simpa using mem_takeWhile_imp h⟩, ?_⟩
    have hsplit := takeWhile_append_dropWhile (p := (· != slash)) (l := t)
    cases hd : t.dropWhile (· != slash) with
    | nil =>
      left
      rw [hd, append_nil] at hsplit
      exact hsplit.symm
    | cons c cs =>
      right
      have hc : c = slash := by
        have := head_dropWhile_not (p := (· != slash)) (l := t) (by rw [hd]; simp)
        simpa [hd] using this
      refine ⟨cs, ?_⟩
      rw [hd, hc] at hsplit
      simpa using hsplit
  · rintro ⟨⟨-, hs⟩, rfl | ⟨rest, rfl⟩⟩
    · rw [takeWhile_eq_self_iff]
      intro x hx
      rw [bne_iff_ne]
      rintro rfl
      exact hs hx
    · have hall : ∀ x ∈ n, (x != slash) = true := by
        intro x hx
        rw [bne_iff_ne]
        rintro rfl
        exact hs hx
      rw [append_assoc, takeWhile_append_of_pos hall]
      simp

theorem DirPath.front_length (d : DirPath) : d.val.length ≤ d.front.length := by
  unfold front
  split_ifs with h
  · simp [h]
  · simp

theorem listedName_eq_some (d : DirPath) {path : Bytes} (hp : path.length < vfsMaxPath) :
    listedName d.val path = some n ↔ d.Leads n path := by
  have hname : ∀ {t : Bytes}, t.length < vfsMaxPath →
      ((if (t.takeWhile (· != slash)).take (vfsMaxPath - 1) = [] then none
        else some ((t.takeWhile (· != slash)).take (vfsMaxPath - 1))) = some n ↔
      IsSegment n ∧ (t = n ∨ n ++ [slash] <+: t)) := by
    intro t ht
    have hlen := (List.takeWhile_prefix (· != slash) (l := t)).length_le
    rw [take_of_length_le (by omega)]
    by_cases hn : n = []
    · subst hn
      constructor
      · intro h
        split_ifs at h with hnil
        exact absurd (some.inj h) hnil
      · rintro ⟨h, -⟩
        exact absurd rfl h.1
    · rw [← takeWhile_slash_iff hn]
      constructor
      · intro h
        split_ifs at h
        exact some.inj h
      · intro h
        rw [if_neg (by rwa [h]), h]
  by_cases hroot : d.val = [slash]
  · simp only [listedName, hroot, if_true, DirPath.Leads, DirPath.front]
    cases path with
    | nil =>
      simp
    | cons c t =>
      by_cases hc : c = slash
      · subst hc
        have := hname (t := t) (by rw [length_cons] at hp; omega)
        simpa using this
      · have hns : ¬ (slash :: (n ++ [slash])) <+: c :: t := by
          rw [cons_prefix_cons]
          rintro ⟨rfl, -⟩
          exact hc rfl
        simp [hc, hns]
  · have hlast := d.trimmed hroot
    simp only [listedName, if_neg hroot, DirPath.Leads, DirPath.front]
    by_cases hfit : d.val.length + 1 < vfsMaxPath
    · have hlead : listdirPrefix d.val = d.val ++ [slash] := if_pos ⟨hroot, hfit, hlast⟩
      rw [hlead]
      by_cases hpre : d.val ++ [slash] <+: path
      · obtain ⟨t, rfl⟩ := hpre
        have := hname (t := t) (by rw [length_append] at hp; omega)
        simpa [startsWith] using this
      · have hns : ¬ (d.val ++ [slash] ++ n ++ [slash] <+: path) := fun h =>
          hpre (((prefix_append _ _).trans (prefix_append _ _)).trans h)
        have hne : path ≠ d.val ++ [slash] ++ n := by
          rintro rfl
          exact hpre (prefix_append _ _)
        simp only [startsWith, isPrefixOf_iff_prefix, if_neg hpre, bind_none, hns, hne]
        simp
    · -- the buffer has no room for the slash, and no path for a name behind it
      have hlead : listdirPrefix d.val = d.val := if_neg fun h => hfit h.2.1
      rw [hlead]
      constructor
      · intro h
        by_cases hpre : d.val <+: path
        · have hlen := hpre.length_le
          obtain rfl : d.val = path := hpre.eq_of_length (by omega)
          simp [startsWith] at h
        · simp [startsWith, isPrefixOf_iff_prefix, hpre] at h
      · rintro ⟨hseg, hcase⟩
        have hpos := length_pos_iff.2 hseg.1
        exfalso
        rcases hcase with rfl | h
        · simp only [length_append, length_singleton] at hp
          omega
        · have := h.length_le
          simp only [length_append, length_singleton] at this
          omega

variable {s : Vfs} {cap : ℕ}

theorem mem_listedNames (hs : s.PathsFit) (d : DirPath) : n ∈ listedNames s d.val ↔ s.Has d n := by
  simp only [listedNames, mem_filterMap, mem_range, Vfs.Has]
  constructor
  · rintro ⟨i, hi, h⟩
    split_ifs at h with hu
    exact ⟨i, hi, hu, (listedName_eq_some d (hs i hu).2).1 h⟩
  · rintro ⟨i, hi, hu, h⟩
    exact ⟨i, hi, by rw [if_pos hu]; exact (listedName_eq_some d (hs i hu).2).2 h⟩

theorem Vfs.Has.length_lt (hs : s.PathsFit) {d : DirPath} (h : s.Has d n) :
    n.length + 1 < vfsMaxPath := by
  obtain ⟨i, -, hu, -, hcase⟩ := h
  have hlen := (hs i hu).2
  have hfront : 1 ≤ d.front.length := by
    have := d.front_length
    have hpos : 0 < d.val.length := by
      have := d.absolute
      cases hv : d.val with
      | nil => rw [hv] at this; cases this
      | cons c cs => simp
    omega
  rcases hcase with he | h
  · rw [he, length_append] at hlen
    omega
  · have := h.length_le
    simp only [length_append, length_singleton] at this
    omega

/-! ### The text -/

theorem vfsListHasName_from {name : Bytes} (hname : name ≠ []) (list : Bytes) {line : Bytes}
    (hline : newline ∉ line) :
    vfsListHasName name line list = true ↔ name ∈ (line ++ list).splitOn newline := by
  induction list generalizing line with
  | nil =>
    rw [append_nil, splitOn_eq_singleton hline, mem_singleton, vfsListHasName]
    simp only [decide_eq_true_eq]
    constructor
    · rintro ⟨-, rfl⟩
      rfl
    · rintro rfl
      exact ⟨hname, rfl⟩
  | cons c list ih =>
    unfold vfsListHasName
    by_cases hc : c = newline
    · subst hc
      rw [if_pos rfl, splitOn_append_cons_self_of_not_mem hline, Bool.or_eq_true, ih (by simp),
        mem_cons, decide_eq_true_eq, eq_comm]
      rfl
    · rw [if_neg hc, ih (by simp [hline, Ne.symm hc]), append_assoc]
      rfl

theorem vfsListHasName_iff {name : Bytes} (hname : name ≠ []) (list : Bytes) :
    vfsListHasName name [] list = true ↔ name ∈ linesOf newline list := by
  rw [vfsListHasName_from hname list (by simp), nil_append, linesOf]
  by_cases h : list = []
  · subst h
    simp [hname]
  · rw [if_neg h]

theorem listFrom_eq (cap : ℕ) {names : List Bytes} (hnames : ∀ n ∈ names, n ≠ []) (out : Bytes) :
    listFrom cap names out = collect newline cap names out := by
  induction names generalizing out with
  | nil => rfl
  | cons n names ih =>
    have hn : n ≠ [] := hnames n (by simp)
    have hih := fun out => ih (fun m hm => hnames m (mem_cons_of_mem n hm)) out
    simp only [listFrom, collect, vfsListHasName_iff hn, hih]
    congr 2
    split_ifs <;> simp

theorem DirPath.normalize (d : DirPath) :
    vfsNormalizePath (if d.val = [] then [slash] else d.val) = d.val := by
  have hne : d.val ≠ [] := by
    intro h
    have := d.absolute
    rw [h] at this
    cases this
  have hfull := fullPath_of_head d.absolute
  rw [if_neg hne, vfsNormalizePath_of_short, hfull]
  rw [hfull]
  exact d.fits.2

theorem kvfsListdir_spec (hs : s.PathsFit) (d : DirPath) (hcap : vfsMaxPath < cap)
    (hline : ∀ n, s.Has d n → newline ∉ n) :
    ∃ lines : List Bytes, kvfsListdir s d.val cap = some (textOf newline lines) ∧ lines.Nodup ∧
      (∀ n ∈ lines, s.Has d n) ∧ ((∀ n, s.Has d n → n ∈ lines) ↔ s.listingRoom d ≤ cap) := by
  have hmem := fun n => mem_listedNames hs d (n := n)
  have hseg : ∀ n ∈ listedNames s d.val, IsLine newline n := by
    intro n hn
    have hhas := (hmem n).1 hn
    obtain ⟨i, -, -, hl⟩ := hhas
    exact ⟨hl.1.1, hline n ((hmem n).1 hn)⟩
  have hroom : ∀ n ∈ listedNames s d.val, n.length + 2 ≤ cap := by
    intro n hn
    have := ((hmem n).1 hn).length_lt hs
    omega
  obtain ⟨lines, heq, hnd, hsub, hiff⟩ := collect_spec hseg hroom
  refine ⟨lines, ?_, hnd, fun n hn => (hmem n).1 (hsub hn), ?_⟩
  · rw [kvfsListdir, if_neg (by omega), d.normalize, listFrom_eq cap (fun n hn => (hseg n hn).1), heq]
  · rw [Vfs.listingRoom, ← hiff]
    constructor
    · intro h n hn
      exact h n ((hmem n).1 hn)
    · intro h n hn
      exact h ((hmem n).2 hn)

theorem kvfsListdir_exact_iff (hs : s.PathsFit) (d : DirPath) (hcap : vfsMaxPath < cap) :
    s.ListdirExact d cap ↔ (∀ n, s.Has d n → newline ∉ n) ∧ s.listingRoom d ≤ cap := by
  have hlines : ∀ {lines : List Bytes}, (∀ n, s.Has d n → newline ∉ n) → (∀ n ∈ lines, s.Has d n) →
      linesOf newline (textOf newline lines) = lines := by
    intro lines hline hhas
    apply linesOf_textOf
    intro n hn
    obtain ⟨i, -, -, hl⟩ := hhas n hn
    exact ⟨hl.1.1, hline n (hhas n hn)⟩
  constructor
  · rintro ⟨out, heq, -, hexact⟩
    have hline : ∀ n, s.Has d n → newline ∉ n := fun n hn => not_mem_of_mem_linesOf ((hexact n).2 hn)
    obtain ⟨lines, heq', -, hhas, hiff⟩ := kvfsListdir_spec hs d hcap hline
    refine ⟨hline, hiff.1 fun n hn => ?_⟩
    rw [heq] at heq'
    have hmem := (hexact n).2 hn
    rwa [some.inj heq', hlines hline hhas] at hmem
  · rintro ⟨hline, hroom⟩
    obtain ⟨lines, heq, hnd, hhas, hiff⟩ := kvfsListdir_spec hs d hcap hline
    refine ⟨_, heq, ?_⟩
    rw [hlines hline hhas]
    exact ⟨hnd, fun n => ⟨hhas n, hiff.2 hroom n⟩⟩

end Ridux
