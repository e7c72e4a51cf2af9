import Ridux.Lib.Strip
import Ridux.Lib.Buffer
import Ridux.Proc.ShellC

/-!
# Scripts that name their interpreter

`execve` of a script runs the interpreter of its first line, which may be a script again.  The strings of the
line and the path of the script are put in one pool, from its start on, at every level; the arguments are
pointers.

* `applyShebang`, `execLoop`, `execArgv`: the arguments as the source computes them;
* `LineFits`, `scriptArgs`: the arguments that the lines ask for, with an error for a line that does not fit;
* `Script`, `scripts`: the scripts on the way to the program, by their lines;
* `Kept`, `Intact`: no level's strings are lost;
* `script_args_exact`: then, and only then, the program gets its arguments.
-/

namespace Ridux

open Lib List

/-- The scripts that may stand in front of a program. -/
def shebangChainMax : ℕ := 4

/-- The size of `g_c3_exec_shebang_pool`. -/
def shebangPoolSize : ℕ := 512

/-- The bytes of a line that are read, behind `#!`. -/
def shebangLineMax : ℕ := 256

inductive ExecErr
  | enoent | enoexec | e2big
  deriving DecidableEq

/-- An argument: a string of the caller, or a pointer into the pool. -/
inductive ArgRef
  | own (s : Bytes)
  | pool (off : ℕ)
  deriving DecidableEq

/-- The string that an argument points to. -/
def ArgRef.text (pool : Bytes) : ArgRef → Bytes
  | .own s => s
  | .pool off => cstr (pool.drop off)

/-- `g_c3_exec_shebang_pool` and `g_c3_exec_argv`. -/
structure ExecArgs where
  pool : Bytes
  argv : List ArgRef
  deriving DecidableEq

def elf64Validate (d : Bytes) : Bool :=
  decide (64 ≤ d.length) && startsWith d [0x7F, 0x45, 0x4C, 0x46, 2, 1]

def isLineBlank (c : UInt8) : Bool := c == 0x20 || c == 0x09

def isLineEnd (c : UInt8) : Bool := c == 0x0A || c == 0x0D

/-- The text of a line: it holds no end of a line. -/
def Line : Type := { l : Bytes // ∀ c ∈ l, isLineEnd c = false }

/-- The text up to the end of the line. -/
def Line.of (text : Bytes) : Line :=
  ⟨text.takeWhile (!isLineEnd ·), fun _ hc => by simpa using mem_takeWhile_imp hc⟩

/-- The line up to `line_end`, without the blanks in front. -/
def lineWords (line : Line) : Bytes := (line.1.take shebangLineMax).dropWhile isLineBlank

/-- `sb_arg`, after the blanks behind it are trimmed; empty if there is none. -/
def shebangArg (p : Bytes) : Bytes := (afterWord isLineBlank p).rdropWhile fun c => isLineBlank c || c == 0x0D

/-- Where the zero in front of the script's path is put. -/
def shebangEnd (p : Bytes) : ℕ :=
  if afterWord isLineBlank p = [] then (firstWord isLineBlank p).length
  else (firstWord isLineBlank p).length + 1 + (shebangArg p).length

/-- The pool with the strings of a level.  The argument is copied with the blanks behind it. -/
def shebangPark (pool p path : Bytes) : Bytes :=
  overwrite (overwrite pool 0 (firstWord isLineBlank p ++ 0 :: afterWord isLineBlank p)) (shebangEnd p)
    (0 :: (path ++ [0]))

/-- The arguments of a level behind the interpreter. -/
def shebangRefs (p : Bytes) : List ArgRef :=
  (if cstr (shebangArg p) = [] then [] else [.pool ((firstWord isLineBlank p).length + 1)]) ++
    [.pool (shebangEnd p + 1)]

/-- `c3_exec_apply_shebang`: nothing if the file is no script, else the interpreter's path and the new
arguments. -/
def applyShebang (npath : PathBuf) (data : Bytes) (a : ExecArgs) : Except ExecErr (Option (Bytes × ExecArgs)) :=
  match data with
  | 0x23 :: 0x21 :: text =>
    let p := lineWords (.of text)
    let interp := firstWord isLineBlank p
    let argv := .pool 0 :: (shebangRefs p ++ a.argv.tail)
    if p = [] then .error .enoexec
    else if shebangPoolSize - 1 ≤ interp.length then .error .e2big
    else if interp.head? = some 0 then .error .enoexec
    else if shebangPoolSize - 1 ≤ shebangEnd p then .error .e2big
    else if shebangPoolSize < shebangEnd p + 1 + npath.1.length + 1 then .error .e2big
    else if execArgMax < argv.length then .error .e2big
    else .ok (some (strlcpy vfsPathMax interp, ⟨shebangPark a.pool p npath.1, argv⟩))
  | _ => .ok none

section Loop

-- `c3_kvfs_read_follow`: the file under a path, and the path without symlinks
variable (read : Bytes → Option (Bytes × PathBuf))

/-- The loop of `real_sys_execve`, with `n` scripts still allowed: the program and its arguments. -/
def execLoop (n : ℕ) (npath : Bytes) (a : ExecArgs) : Except ExecErr (PathBuf × ExecArgs) :=
  match read npath with
  | none => .error .enoent
  | some (data, npath) =>
    if elf64Validate data then .ok (npath, a)
    else
      match n with
      | 0 => .error .enoexec
      | n + 1 =>
        match applyShebang npath data a with
        | .error e => .error e
        | .ok none => .error .enoexec
        | .ok (some (npath, a)) => execLoop n npath a

/-- A program gets at least its path. -/
def atLeastPath (npath : PathBuf) (argv : List Bytes) : List Bytes := if argv = [] then [npath.1] else argv

/-- The arguments that the program gets. -/
def execArgv (npath : PathBuf) (a : ExecArgs) : List Bytes := atLeastPath npath (a.argv.map (·.text a.pool))

/-! ### What the lines ask for -/

/-- The first line of a script, behind `#!`. -/
def scriptLine (data : Bytes) : Option Line :=
  match data with
  | 0x23 :: 0x21 :: text => some (.of text)
  | _ => none

/-- The interpreter of a line. -/
def lineInterp (line : Line) : Bytes := firstWord isLineBlank (strip isLineBlank line.1)

/-- The argument of a line: all that stands behind the interpreter. -/
def lineArg (line : Line) : Bytes := afterWord isLineBlank (strip isLineBlank line.1)

/-- A line of which nothing is lost: it is a text that a C string can hold, all of it is read, and the
interpreter is a path. -/
def LineFits (line : Line) : Prop :=
  strip isLineBlank line.1 ≠ [] ∧ 0 ∉ strip isLineBlank line.1 ∧
    (line.1.drop shebangLineMax).all isLineBlank = true ∧ (lineInterp line).length < vfsPathMax

instance (line : Line) : Decidable (LineFits line) := inferInstanceAs (Decidable (_ ∧ _ ∧ _ ∧ _))

/-- A script, by its path and its first line. -/
structure Script where
  path : PathBuf
  line : Line

namespace Script

/-- The arguments of a script behind the interpreter. -/
def args (s : Script) : List Bytes := (if lineArg s.line = [] then [] else [lineArg s.line]) ++ [s.path.1]

/-- The arguments of a script behind the interpreter, as pointers. -/
def refs (s : Script) : List ArgRef := shebangRefs (lineWords s.line)

/-- The pool with the strings of a script. -/
def park (pool : Bytes) (s : Script) : Bytes := shebangPark pool (lineWords s.line) s.path.1

end Script

/-- **What a program is run with**: the interpreter and the argument of the last line, the path of its script,
and so on outwards, and then the arguments of the caller.  There is nothing to run if a line does not fit. -/
def scriptArgs (n : ℕ) (npath : Bytes) (argv : List Bytes) : Option (PathBuf × List Bytes) :=
  match read npath with
  | none => none
  | some (data, npath) =>
    if elf64Validate data then some (npath, atLeastPath npath argv)
    else
      match n with
      | 0 => none
      | n + 1 =>
        match scriptLine data with
        | none => none
        | some line =>
          if LineFits line then
            scriptArgs n (lineInterp line) (lineInterp line :: (Script.args ⟨npath, line⟩ ++ argv.tail))
          else none

/-- The scripts on the way to a program, as their lines say. -/
def scripts (n : ℕ) (npath : Bytes) : List Script :=
  match read npath with
  | none => []
  | some (data, npath) =>
    if elf64Validate data then []
    else
      match n with
      | 0 => []
      | n + 1 =>
        match scriptLine data with
        | none => []
        | some line => ⟨npath, line⟩ :: scripts n (lineInterp line)

/-- The pool after the scripts have been put there. -/
def parkAll (pool : Bytes) (l : List Script) : Bytes := l.foldl Script.park pool

/-- What the scripts put over each other is the same text: in the end all pointers give their own strings. -/
def Kept (pool : Bytes) (l : List Script) : Prop := ∀ s ∈ l, s.refs.map (·.text (parkAll pool l)) = s.args

/-- **No level loses anything**: the lines fit, and the scripts do not disturb each other. -/
def Intact (pool : Bytes) (n : ℕ) (npath : Bytes) : Prop :=
  (∀ s ∈ scripts read n npath, LineFits s.line) ∧ Kept pool (scripts read n npath)

end Loop

/-! ### One script -/

section Level

variable {line : Line}

theorem cstr_append_zero {s : Bytes} (h : 0 ∉ s) (r : Bytes) : cstr (s ++ 0 :: r) = s := by
  have hpos : ∀ c ∈ s, (c != 0) = true := by
    intro c hc
    rw [bne_iff_ne]
    rintro rfl
    exact h hc
  rw [cstr, takeWhile_append_of_pos hpos, takeWhile_cons]
  exact append_nil s

theorem lineWords_of_fits (h : LineFits line) :
    ∃ b, lineWords line = strip isLineBlank line.1 ++ b ∧ ∀ c ∈ b, isLineBlank c = true := by
  have hsame : strip isLineBlank line.1 = strip isLineBlank (line.1.take shebangLineMax) := by
    conv_lhs => rw [← take_append_drop shebangLineMax line.1]
    exact strip_append (all_eq_true.1 h.2.2.1)
  rw [hsame]
  exact dropWhile_eq_strip _ _

theorem firstWord_of_fits (h : LineFits line) : firstWord isLineBlank (lineWords line) = lineInterp line := by
  obtain ⟨b, hw, hb⟩ := lineWords_of_fits h
  rw [hw, firstWord_append hb]
  rfl

theorem afterWord_of_fits (h : LineFits line) :
    afterWord isLineBlank (lineWords line) = [] ↔ lineArg line = [] := by
  obtain ⟨b, hw, hb⟩ := lineWords_of_fits h
  rw [hw, afterWord_append hb]
  unfold lineArg
  split_ifs with hnil
  · exact iff_of_true rfl hnil
  · exact iff_of_false (fun he => hnil (append_eq_nil_iff.1 he).1) hnil

theorem shebangArg_of_fits (h : LineFits line) : shebangArg (lineWords line) = lineArg line := by
  obtain ⟨b, hw, hb⟩ := lineWords_of_fits h
  rw [shebangArg, hw, afterWord_append hb]
  unfold lineArg
  split_ifs with hnil
  · rw [hnil]
    rfl
  · have htrim : ∀ c ∈ b, (isLineBlank c || c == 0x0D) = true := by
      intro c hc
      rw [hb c hc]
      rfl
    rw [rdropWhile_append_of_pos htrim, rdropWhile_eq_self_iff]
    intro hne
    have hsuffix := afterWord_suffix isLineBlank (strip isLineBlank line.1)
    have hend := line.2 _ (mem_of_mem_strip (hsuffix.subset (getLast_mem hne)))
    unfold isLineEnd at hend
    rw [Bool.or_eq_false_iff] at hend
    rw [strip_last hsuffix hne, hend.2]
    decide

theorem shebangPark_eq (pool p path : Bytes) : ∃ r, shebangPark pool p path = firstWord isLineBlank p ++
    0 :: ((if afterWord isLineBlank p = [] then [] else shebangArg p ++ [0]) ++ (path ++ 0 :: r)) := by
  have hfirst : ∀ xs : Bytes, overwrite pool 0 xs = xs ++ pool.drop xs.length := by
    intro xs
    rw [overwrite, take_zero, nil_append, Nat.zero_add]
  unfold shebangPark shebangEnd
  rw [hfirst]
  generalize pool.drop _ = rest
  split_ifs with hnil
  · rw [hnil, append_assoc, overwrite_append]
    refine ⟨List.drop (0 :: (path ++ [0])).length (0 :: rest), ?_⟩
    simp only [append_assoc, cons_append, nil_append]
  · obtain ⟨t, ht⟩ : shebangArg p <+: afterWord isLineBlank p := rdropWhile_prefix _ _
    have hsplit : firstWord isLineBlank p ++ 0 :: afterWord isLineBlank p ++ rest
        = (firstWord isLineBlank p ++ 0 :: shebangArg p) ++ (t ++ rest) := by
      rw [← ht]
      simp only [append_assoc, cons_append]
    have hlen : (firstWord isLineBlank p).length + 1 + (shebangArg p).length
        = (firstWord isLineBlank p ++ 0 :: shebangArg p).length := by
      rw [length_append, length_cons]
      omega
    rw [hsplit, hlen, overwrite_append]
    refine ⟨List.drop (0 :: (path ++ [0])).length (t ++ rest), ?_⟩
    simp only [append_assoc, cons_append, nil_append]

variable {s : Script}

theorem not_mem_lineInterp (h : LineFits line) : 0 ∉ lineInterp line :=
  fun hm => h.2.1 ((List.takeWhile_prefix _).subset hm)

theorem not_mem_lineArg (h : LineFits line) : 0 ∉ lineArg line :=
  fun hm => h.2.1 ((afterWord_suffix _ _).subset hm)

theorem Script.park_eq (h : LineFits s.line) (pool : Bytes) : ∃ r, s.park pool = lineInterp s.line ++
    0 :: ((if lineArg s.line = [] then [] else lineArg s.line ++ [0]) ++ (s.path.1 ++ 0 :: r)) := by
  obtain ⟨r, hr⟩ := shebangPark_eq pool (lineWords s.line) s.path.1
  refine ⟨r, ?_⟩
  rw [Script.park, hr, firstWord_of_fits h, shebangArg_of_fits h]
  simp only [afterWord_of_fits h]

theorem Script.text_interp (h : LineFits s.line) (pool : Bytes) :
    ArgRef.text (s.park pool) (.pool 0) = lineInterp s.line := by
  obtain ⟨r, hr⟩ := Script.park_eq h pool
  rw [ArgRef.text, drop_zero, hr, cstr_append_zero (not_mem_lineInterp h)]

theorem Script.refs_eq (h : LineFits s.line) : s.refs =
    (if lineArg s.line = [] then [] else [.pool ((lineInterp s.line).length + 1)]) ++
      [.pool ((if lineArg s.line = [] then (lineInterp s.line).length
        else (lineInterp s.line).length + 1 + (lineArg s.line).length) + 1)] := by
  rw [Script.refs, shebangRefs, shebangEnd, firstWord_of_fits h, shebangArg_of_fits h,
    cstr_of_not_mem (not_mem_lineArg h)]
  simp only [afterWord_of_fits h]

theorem Script.length_refs (h : LineFits s.line) : s.refs.length = s.args.length := by
  rw [Script.refs_eq h, Script.args]
  split_ifs <;> rfl

end Level

/-! ### All scripts -/

/-- The arguments after the scripts: each of them takes the place of the first argument. -/
def argvAfter {β : Type} (head : Script → β) (args : Script → List β) (l : List Script) (argv : List β) : List β :=
  l.foldl (fun argv s => head s :: (args s ++ argv.tail)) argv

section Chain

variable {β : Type} {head : Script → β} {args : Script → List β} {l : List Script} {s : Script}

theorem tail_argvAfter (argv : List β) :
    (argvAfter head args l argv).tail = l.reverse.flatMap args ++ argv.tail := by
  induction l generalizing argv with
  | nil => rfl
  | cons s l ih =>
    have hstep := ih (head s :: (args s ++ argv.tail))
    rw [tail_cons] at hstep
    rw [reverse_cons, flatMap_append, flatMap_cons, flatMap_nil, append_nil,
      append_assoc]
    exact hstep

theorem argvAfter_concat (argv : List β) : argvAfter head args (l ++ [s]) argv =
    head s :: ((l ++ [s]).reverse.flatMap args ++ argv.tail) := by
  have hlast : argvAfter head args (l ++ [s]) argv = head s :: (args s ++ (argvAfter head args l argv).tail) := by
    unfold argvAfter
    rw [foldl_append]
    rfl
  rw [hlast, tail_argvAfter, reverse_append, reverse_singleton, singleton_append, flatMap_cons,
    append_assoc]

theorem flatMap_eq_iff {f g : Script → List β} (hlen : ∀ s ∈ l, (f s).length = (g s).length) :
    l.flatMap f = l.flatMap g ↔ ∀ s ∈ l, f s = g s := by
  induction l with
  | nil => exact iff_of_true rfl fun s hs => absurd hs not_mem_nil
  | cons s l ih =>
    rw [forall_mem_cons] at hlen ⊢
    rw [← ih hlen.2, flatMap_cons, flatMap_cons]
    constructor
    · exact fun h => append_inj h hlen.1
    · rintro ⟨h1, h2⟩
      rw [h1, h2]

theorem map_own (pool : Bytes) (argv : List Bytes) : (argv.map ArgRef.own).map (·.text pool) = argv := by
  rw [map_map]
  exact map_id argv

theorem texts_eq_iff (hl : ∀ s ∈ l, LineFits s.line) (pool : Bytes) (npath : PathBuf) (argv : List Bytes) :
    execArgv npath ⟨parkAll pool l, argvAfter (fun _ => .pool 0) Script.refs l (argv.map .own)⟩ =
      atLeastPath npath (argvAfter (fun s => lineInterp s.line) Script.args l argv) ↔ Kept pool l := by
  induction l using List.reverseRecOn with
  | nil =>
    refine iff_of_true ?_ fun s hs => absurd hs not_mem_nil
    exact congrArg (atLeastPath npath) (map_own _ argv)
  | append_singleton l s _ =>
    have hs : LineFits s.line := hl s (mem_append_right _ mem_cons_self)
    have hpool : parkAll pool (l ++ [s]) = s.park (parkAll pool l) := by
      unfold parkAll
      rw [foldl_append]
      rfl
    have hhead := Script.text_interp hs (parkAll pool l)
    rw [← hpool] at hhead
    have hlen : ∀ t ∈ (l ++ [s]).reverse, (t.refs.map (·.text (parkAll pool (l ++ [s])))).length = t.args.length := by
      intro t ht
      rw [length_map]
      exact Script.length_refs (hl t (mem_reverse.1 ht))
    have hown : ((argv.map ArgRef.own).tail).map (·.text (parkAll pool (l ++ [s]))) = argv.tail := by
      rw [map_tail, map_own]
    unfold execArgv atLeastPath Kept
    rw [argvAfter_concat, argvAfter_concat, map_cons, map_append, map_flatMap, hown, hhead,
      if_neg (cons_ne_nil _ _), if_neg (cons_ne_nil _ _), cons_inj_right, append_left_inj,
      flatMap_eq_iff hlen]
    simp only [mem_reverse]

end Chain

section Runs

variable {read : Bytes → Option (Bytes × PathBuf)} {n : ℕ} {npath : Bytes} {a a' : ExecArgs} {p : PathBuf}

theorem applyShebang_ok {npath : PathBuf} {data : Bytes} {r : Option (Bytes × ExecArgs)}
    (h : applyShebang npath data a = .ok r) : (r = none ∧ scriptLine data = none) ∨
      ∃ line, scriptLine data = some line ∧
        r = some (strlcpy vfsPathMax (firstWord isLineBlank (lineWords line)),
          ⟨Script.park a.pool ⟨npath, line⟩, .pool 0 :: (Script.refs ⟨npath, line⟩ ++ a.argv.tail)⟩) := by
  unfold applyShebang at h
  split at h
  · rename_i text
    simp only at h
    split_ifs at h
    exact .inr ⟨.of text, rfl, (Except.ok.inj h).symm⟩
  · rename_i hno
    left
    refine ⟨(Except.ok.inj h).symm, ?_⟩
    unfold scriptLine
    split
    · exact absurd rfl (hno _)
    · rfl

theorem strlcpy_lineInterp {line : Line} (h : LineFits line) :
    strlcpy vfsPathMax (firstWord isLineBlank (lineWords line)) = lineInterp line := by
  rw [firstWord_of_fits h, strlcpy_of_not_mem (not_mem_lineInterp h)]
  apply take_of_length_le
  have hlt := h.2.2.2
  omega

/-- **A run through scripts whose lines fit**: the pool, the pointers, and what the lines ask for. -/
theorem execLoop_of_fits (hall : ∀ s ∈ scripts read n npath, LineFits s.line)
    (h : execLoop read n npath a = .ok (p, a')) :
    a' = ⟨parkAll a.pool (scripts read n npath),
        argvAfter (fun _ => .pool 0) Script.refs (scripts read n npath) a.argv⟩ ∧
      ∀ argv, scriptArgs read n npath argv = some (p, atLeastPath p
        (argvAfter (fun s => lineInterp s.line) Script.args (scripts read n npath) argv)) := by
  induction n generalizing npath a with
  | zero =>
    unfold execLoop at h
    unfold scripts scriptArgs
    cases hr : read npath with
    | none =>
      rw [hr] at h
      cases h
    | some r =>
      obtain ⟨data, path⟩ := r
      rw [hr] at h
      simp only at h ⊢
      split_ifs at h with helf
      obtain ⟨rfl, rfl⟩ := Prod.mk.inj (Except.ok.inj h)
      rw [if_pos helf]
      exact ⟨rfl, fun argv => if_pos helf⟩
  | succ n ih =>
    unfold execLoop at h
    unfold scripts at hall ⊢
    unfold scriptArgs
    cases hr : read npath with
    | none =>
      rw [hr] at h
      cases h
    | some r =>
      obtain ⟨data, path⟩ := r
      rw [hr] at h hall
      simp only at h hall ⊢
      by_cases helf : elf64Validate data = true
      · rw [if_pos helf] at h
        obtain ⟨rfl, rfl⟩ := Prod.mk.inj (Except.ok.inj h)
        simp only [if_pos helf]
        exact ⟨rfl, fun argv => rfl⟩
      · simp only [if_neg helf] at h hall ⊢
        cases hstep : applyShebang path data a with
        | error e =>
          rw [hstep] at h
          cases h
        | ok r =>
          rw [hstep] at h
          rcases applyShebang_ok hstep with ⟨rfl, -⟩ | ⟨line, hline, rfl⟩
          · cases h
          · simp only [hline] at h hall ⊢
            rw [forall_mem_cons] at hall
            have hfits : LineFits line := hall.1
            rw [strlcpy_lineInterp hfits] at h
            obtain ⟨ha, hargs⟩ := ih hall.2 h
            refine ⟨ha, fun argv => ?_⟩
            rw [if_pos hfits, hargs]
            rfl

theorem fits_of_scriptArgs {argv : List Bytes} {r : PathBuf × List Bytes} (h : scriptArgs read n npath argv = some r) :
    ∀ s ∈ scripts read n npath, LineFits s.line := by
  induction n generalizing npath argv with
  | zero =>
    unfold scripts
    intro s hs
    split at hs
    · exact absurd hs not_mem_nil
    · split_ifs at hs
      · exact absurd hs not_mem_nil
      · exact absurd hs not_mem_nil
  | succ n ih =>
    unfold scriptArgs at h
    unfold scripts
    cases hr : read npath with
    | none =>
      rw [hr] at h
      cases h
    | some r =>
      obtain ⟨data, path⟩ := r
      rw [hr] at h
      simp only at h ⊢
      split_ifs at h ⊢ with helf
      · exact fun s hs => absurd hs not_mem_nil
      · cases hline : scriptLine data with
        | none =>
          rw [hline] at h
          cases h
        | some line =>
          rw [hline] at h
          simp only at h ⊢
          split_ifs at h with hfits
          exact forall_mem_cons.2 ⟨hfits, ih h⟩

end Runs

/-- The files of a list, without symlinks. -/
def readFrom (files : List (Bytes × Bytes)) (path : Bytes) : Option (Bytes × PathBuf) :=
  if h : 0 ∉ path ∧ path.length < vfsPathMax then (files.lookup path).map fun data => (data, ⟨path, h⟩) else none

/-- The header of a program. -/
def elfSample : Bytes := [0x7F, 0x45, 0x4C, 0x46, 2, 1] ++ List.replicate 58 0

/-- A script `/s` with an interpreter and an argument. -/
def oneScript : Bytes → Option (Bytes × PathBuf) :=
  readFrom [(ascii "/s", ascii "#!/b -e\n"), (ascii "/b", elfSample)]

/-- A script `/s` whose interpreter is a script. -/
def twoScripts : Bytes → Option (Bytes × PathBuf) :=
  readFrom [(ascii "/s", ascii "#!/a\n"), (ascii "/a", ascii "#!/b\n"), (ascii "/b", elfSample)]

/-- `s x`, with a pool that was never used. -/
def argsSample : ExecArgs where
  pool := List.replicate shebangPoolSize 0
  argv := [ascii "s", ascii "x"].map .own

theorem exists_run {read : Bytes → Option (Bytes × PathBuf)} {a : ExecArgs} {argv : List Bytes}
    (h : ((execLoop read shebangChainMax (ascii "/s") a).toOption.map fun r => execArgv r.1 r.2) = some argv) :
    ∃ p a', execLoop read shebangChainMax (ascii "/s") a = .ok (p, a') ∧ execArgv p a' = argv := by
  cases hrun : execLoop read shebangChainMax (ascii "/s") a with
  | error e =>
    rw [hrun] at h
    cases h
  | ok r =>
    rw [hrun] at h
    exact ⟨r.1, r.2, rfl, Option.some.inj h⟩

end Ridux
