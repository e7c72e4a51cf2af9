import Mathlib.Data.List.DropRight
import Ridux.Lib.Shell
import Ridux.Vfs.Path

/-!
# `sh -c` without a shell

`execve` of a shell with `-c` and a command string that looks simple runs the program of the string itself,
with the words that it finds there.

* `refuses`, `splitCmd`, `rewriteShellC`: which strings, and their words;
* `cmdWords`: the words without the limit on their number;
* `WholeWords`: the strings made of words that are quoted as a whole or not at all;
* `WholeWords.agree`: the shell and the loop find the same words in them.
-/

namespace Ridux

open Lib

/-- `C3_EXEC_ARG_MAX`. -/
def execArgMax : ℕ := 256

/-- `c3_exec_cmd_space`. -/
def cmdSpace (c : UInt8) : Bool := c == 0x20 || c == 0x09 || c == 0x0D || c == 0x0A

/-- `c3_exec_is_shell_path`. -/
def isShellPath (path : Bytes) : Bool :=
  (["/bin/sh", "/usr/bin/sh", "/bin/dash", "/usr/bin/dash"].map ascii).contains path

/-- The loop that looks for operators outside of quotes. -/
def refuses : Option UInt8 → Bytes → Bool
  | _, [] => false
  | some q, c :: s => if c = q then refuses none s else refuses (some q) s
  | none, c :: s =>
    if c = doubleQuote ∨ c = singleQuote then refuses (some c) s
    else if (ascii "|&;<>()" ++ [backquoteByte, dollarByte]).contains c then true
    else refuses none s

/-- The word that begins with `c`, and what is behind it.  Only a quote at its start counts. -/
def nextWord (c : UInt8) (t : Bytes) : Bytes × Bytes :=
  if c = doubleQuote ∨ c = singleQuote then (t.takeWhile (· != c), (t.dropWhile (· != c)).drop 1)
  else (c :: t.takeWhile (!cmdSpace ·), (t.dropWhile (!cmdSpace ·)).drop 1)

/-- The loop that finds the words, `n` of them at most. -/
def splitCmd : ℕ → Bytes → List Bytes
  | 0, _ => []
  | n + 1, s =>
    match s.dropWhile cmdSpace with
    | [] => []
    | c :: t => (nextWord c t).1 :: splitCmd n (nextWord c t).2

/-- `exec` in front of the command is skipped. -/
def skipExec (p : Bytes) : Bytes :=
  if startsWith p (ascii "exec") && (p.drop 4).head?.any cmdSpace then (p.drop 4).dropWhile cmdSpace else p

/-- `c3_exec_rewrite_shell_c`: the new program and arguments, or nothing. -/
def rewriteShellC (npath : Bytes) (argv : List Bytes) : Option (Bytes × List Bytes) :=
  match argv with
  | _ :: flag :: cmd :: _ =>
    if !isShellPath npath || flag ≠ ascii "-c" then none
    else if cmd = [] then none
    else if refuses none cmd then none
    else
      match splitCmd execArgMax (skipExec (cmd.dropWhile cmdSpace)) with
      | [] => none
      | prog :: args => some (prog.take (vfsPathMax - 1), prog :: args)
  | _ => none

/-! ### The words of the loop -/

theorem length_nextWord_le (c : UInt8) (t : Bytes) : (nextWord c t).2.length ≤ t.length := by
  unfold nextWord
  split_ifs
  · exact ((List.drop_suffix _ _).trans (List.dropWhile_suffix _)).length_le
  · exact ((List.drop_suffix _ _).trans (List.dropWhile_suffix _)).length_le

/-- The words of a string, however many there are. -/
def cmdWords (s : Bytes) : List Bytes :=
  match _h : s.dropWhile cmdSpace with
  | [] => []
  | c :: t => (nextWord c t).1 :: cmdWords (nextWord c t).2
termination_by s.length
decreasing_by
  have hle := length_nextWord_le c t
  have hdrop := (List.dropWhile_suffix (l := s) cmdSpace).length_le
  rw [_h, List.length_cons] at hdrop
  omega

variable {s : Bytes}

theorem cmdWords_nil (h : s.dropWhile cmdSpace = []) : cmdWords s = [] := by
  rw [cmdWords]
  split
  · rfl
  · rename_i c t he
    rw [h] at he
    cases he

variable {c b : UInt8} {w : Bytes}

theorem cmdWords_cons {t : Bytes} (h : s.dropWhile cmdSpace = c :: t) :
    cmdWords s = (nextWord c t).1 :: cmdWords (nextWord c t).2 := by
  rw [cmdWords]
  split
  · rename_i he
    rw [h] at he
    cases he
  · rename_i c' t' he
    rw [h] at he
    obtain ⟨rfl, rfl⟩ := List.cons.inj he
    rfl

theorem splitCmd_eq (n : ℕ) (s : Bytes) : splitCmd n s = (cmdWords s).take n := by
  induction n generalizing s with
  | zero => rw [List.take_zero, splitCmd]
  | succ n ih =>
    rw [splitCmd]
    cases h : s.dropWhile cmdSpace with
    | nil => rw [cmdWords_nil h, List.take_nil]
    | cons c t =>
      simp only
      rw [cmdWords_cons h, List.take_succ_cons, ih]

theorem cmdWords_dropWhile (s : Bytes) : cmdWords (s.dropWhile cmdSpace) = cmdWords s := by
  have htwice : (s.dropWhile cmdSpace).dropWhile cmdSpace = s.dropWhile cmdSpace := List.dropWhile_idempotent cmdSpace s
  cases h : s.dropWhile cmdSpace with
  | nil => rw [cmdWords_nil h, cmdWords_nil rfl]
  | cons c t =>
    rw [h] at htwice
    rw [cmdWords_cons h, cmdWords_cons htwice]

theorem cmdWords_space (hc : cmdSpace c = true) (s : Bytes) : cmdWords (c :: s) = cmdWords s := by
  rw [← cmdWords_dropWhile (c :: s), List.dropWhile_cons_of_pos hc, cmdWords_dropWhile]

theorem cmdWords_of_not (hc : cmdSpace c = false) (t : Bytes) :
    cmdWords (c :: t) = (nextWord c t).1 :: cmdWords (nextWord c t).2 := by
  apply cmdWords_cons
  rw [List.dropWhile_cons_of_neg]
  rw [hc]
  decide

/-- What the loop leaves out of its words. -/
def isDropped (b : UInt8) : Bool := cmdSpace b || b == doubleQuote || b == singleQuote

theorem nextWord_parts (c : UInt8) (t : Bytes) : ∃ front back : Bytes,
    c :: t = front ++ ((nextWord c t).1 ++ (back ++ (nextWord c t).2)) ∧
      (∀ b ∈ front, isDropped b = true) ∧ ∀ b ∈ back, isDropped b = true := by
  have htail : ∀ (q : UInt8 → Bool), (∀ b, q b = false → isDropped b = true) →
      ∃ back, t.dropWhile q = back ++ (t.dropWhile q).drop 1 ∧ ∀ b ∈ back, isDropped b = true := by
    intro q hq
    cases h : t.dropWhile q with
    | nil => exact ⟨[], rfl, fun b hb => absurd hb List.not_mem_nil⟩
    | cons d r =>
      refine ⟨[d], rfl, fun b hb => ?_⟩
      rw [List.mem_singleton] at hb
      have hd := List.head?_dropWhile_not q t
      rw [h] at hd
      rw [hb]
      exact hq d (by simpa using hd)
  unfold nextWord
  split_ifs with hc
  · have hquote : isDropped c = true := by
      rcases hc with rfl | rfl <;> decide
    obtain ⟨back, hback, hall⟩ := htail (· != c) (by
      intro b hb
      have hbc : b = c := by simpa using hb
      rw [hbc, hquote])
    refine ⟨[c], back, ?_, ?_, hall⟩
    · simp only
      rw [← hback, List.takeWhile_append_dropWhile]
      rfl
    · intro b hb
      rw [List.mem_singleton] at hb
      rw [hb, hquote]
  · obtain ⟨back, hback, hall⟩ := htail (!cmdSpace ·) (by
      intro b hb
      have hsp : cmdSpace b = true := by simpa using hb
      rw [isDropped, hsp]
      rfl)
    refine ⟨[], back, ?_, fun b hb => absurd hb List.not_mem_nil, hall⟩
    simp only [List.nil_append, List.cons_append]
    rw [← hback, List.takeWhile_append_dropWhile]

theorem count_dropped (hb : isDropped b = false) {l : Bytes} (hl : ∀ d ∈ l, isDropped d = true) :
    l.count b = 0 := by
  rw [List.count_eq_zero]
  intro hmem
  rw [hl b hmem] at hb
  cases hb

theorem count_cmdWords (hb : isDropped b = false) (s : Bytes) :
    (cmdWords s).flatten.count b = s.count b := by
  have hsplit : ∀ s : Bytes, s.count b = (s.dropWhile cmdSpace).count b := by
    intro s
    have hspaces : (s.takeWhile cmdSpace).count b = 0 := by
      apply count_dropped hb
      intro d hd
      rw [isDropped, List.mem_takeWhile_imp hd]
      rfl
    conv_lhs => rw [← List.takeWhile_append_dropWhile (p := cmdSpace) (l := s)]
    rw [List.count_append, hspaces, Nat.zero_add]
  fun_induction cmdWords s with
  | case1 s h =>
    rw [hsplit s, h]
    rfl
  | case2 s c t h ih =>
    obtain ⟨front, back, hparts, hfront, hback⟩ := nextWord_parts c t
    rw [hsplit s, h, hparts, List.flatten_cons, List.count_append, List.count_append, List.count_append,
      List.count_append, count_dropped hb hfront, count_dropped hb hback, ih]
    omega

theorem cmdWords_sublist (s : Bytes) : (cmdWords s).flatten.Sublist s := by
  fun_induction cmdWords s with
  | case1 s h => exact List.nil_sublist s
  | case2 s c t h ih =>
    obtain ⟨front, back, hparts, -, -⟩ := nextWord_parts c t
    have hword : ((nextWord c t).1 ++ (cmdWords (nextWord c t).2).flatten).Sublist (c :: t) := by
      rw [hparts]
      refine List.Sublist.trans ?_ (List.sublist_append_right _ _)
      exact (List.Sublist.refl _).append (ih.trans (List.sublist_append_right _ _))
    rw [List.flatten_cons]
    exact hword.trans (h ▸ (List.dropWhile_suffix cmdSpace).sublist)

theorem cmdWords_run (hquote : ¬ (c = doubleQuote ∨ c = singleQuote))
    (hw : ∀ d ∈ c :: w, cmdSpace d = false) (hs : ∀ d ∈ s.head?, cmdSpace d = true) :
    cmdWords (c :: (w ++ s)) = (c :: w) :: cmdWords s := by
  rw [List.forall_mem_cons] at hw
  have hpos : ∀ d ∈ w, (!cmdSpace d) = true := by
    intro d hd
    rw [hw.2 d hd]
    rfl
  rw [cmdWords_of_not hw.1, nextWord, if_neg hquote, List.takeWhile_append_of_pos hpos,
    List.dropWhile_append_of_pos hpos]
  cases s with
  | nil =>
    rw [List.takeWhile_nil, List.append_nil]
    rfl
  | cons d s =>
    have hd : cmdSpace d = true := hs d rfl
    simp only [List.takeWhile_cons, List.dropWhile_cons, hd, Bool.not_true, Bool.false_eq_true, if_false,
      List.append_nil, List.drop_succ_cons, List.drop_zero]
    rw [cmdWords_space hd]

theorem cmdWords_quoted {q : UInt8} (hq : q = doubleQuote ∨ q = singleQuote) (hw : q ∉ w) :
    cmdWords (q :: (w ++ q :: s)) = w :: cmdWords s := by
  have hspace : cmdSpace q = false := by
    rcases hq with rfl | rfl <;> decide
  have hpos : ∀ d ∈ w, (d != q) = true := by
    intro d hd
    rw [bne_iff_ne]
    rintro rfl
    exact hw hd
  rw [cmdWords_of_not hspace, nextWord, if_pos hq, List.takeWhile_append_of_pos hpos,
    List.dropWhile_append_of_pos hpos]
  simp only [List.takeWhile_cons, List.dropWhile_cons, bne_self_eq_false, Bool.false_eq_true, if_false,
    List.append_nil, List.drop_succ_cons, List.drop_zero]

/-! ### Whole words -/

/-- A word ends here. -/
def EndsWord (r : Bytes) : Prop := ∀ c ∈ r.head?, isShBlank c = true ∨ c = newlineByte

/-- A letter that stands for itself, for the shell and for the loop. -/
def wordByte (c : UInt8) : Bool := isShPlain c && !cmdSpace c

theorem wordByte_eq_true : wordByte c = true ↔ isShPlain c = true ∧ cmdSpace c = false := by
  rw [wordByte, Bool.and_eq_true, Bool.not_eq_true']

/-- A string of words that are quoted as a whole, or are letters that stand for themselves. -/
inductive WholeWords : Bytes → Prop
  | finish {s : Bytes} (h : ∀ c ∈ s, isShBlank c = true ∨ c = newlineByte) : WholeWords s
  | blank {c : UInt8} {s : Bytes} (hc : isShBlank c = true) (hs : WholeWords s) : WholeWords (c :: s)
  | plain {c : UInt8} {w s : Bytes} (hhash : c ≠ hashByte) (hw : ∀ d ∈ c :: w, wordByte d = true)
      (he : EndsWord s) (hs : WholeWords s) : WholeWords (c :: (w ++ s))
  | single {w s : Bytes} (hw : singleQuote ∉ w) (he : EndsWord s) (hs : WholeWords s) :
      WholeWords (singleQuote :: (w ++ singleQuote :: s))
  | double {w s : Bytes} (hw : DoubleText w) (he : EndsWord s) (hs : WholeWords s) :
      WholeWords (doubleQuote :: (w ++ doubleQuote :: s))

theorem cmdSpace_of_blank (h : isShBlank c = true ∨ c = newlineByte) : cmdSpace c = true := by
  rcases h with h | rfl
  · unfold isShBlank at h
    rw [Bool.or_eq_true] at h
    rcases h with h | h
    · rw [cmdSpace, h]
      rfl
    · rw [cmdSpace, h, Bool.or_true]
      rfl
  · decide

theorem cmdSpace_cases (h : cmdSpace c = true) :
    isShBlank c = true ∨ c = newlineByte ∨ isShPlain c = true := by
  unfold cmdSpace at h
  simp only [Bool.or_eq_true, beq_iff_eq] at h
  rcases h with ((rfl | rfl) | rfl) | rfl
  · exact .inl (by decide)
  · exact .inl (by decide)
  · exact .inr (.inr (by decide))
  · exact .inr (.inl rfl)

theorem lex_word_of_endsWord {r : Bytes} (he : EndsWord r) {ws : List ShWord} (h : lex (.out .gap) r = some ws) :
    lex (.out .word) r = some ([] :: ws) := by
  cases r with
  | nil =>
    obtain rfl := Option.some.inj h
    rfl
  | cons c r =>
    rcases he c rfl with hb | rfl
    · rw [lex_out_blank hb] at h ⊢
      exact congrArg (Option.map ([] :: ·)) h
    · rw [lex_out_newline] at h ⊢
      exact congrArg (Option.map ([] :: ·)) h

theorem lex_done_blanks (h : ∀ c ∈ s, isShBlank c = true ∨ c = newlineByte) :
    lex (.out .done) s = some [] := by
  induction s with
  | nil => rfl
  | cons c s ih =>
    rw [List.forall_mem_cons] at h
    rcases h.1 with hb | rfl
    · rw [lex_out_blank hb]
      exact ih h.2
    · rw [lex_out_newline]
      exact ih h.2

theorem lex_gap_blanks (h : ∀ c ∈ s, isShBlank c = true ∨ c = newlineByte) :
    lex (.out .gap) s = some [] := by
  induction s with
  | nil => rfl
  | cons c s ih =>
    rw [List.forall_mem_cons] at h
    rcases h.1 with hb | rfl
    · rw [lex_out_blank hb]
      exact ih h.2
    · rw [lex_out_newline]
      exact lex_done_blanks h.2

theorem cmdWords_blanks (h : ∀ c ∈ s, isShBlank c = true ∨ c = newlineByte) : cmdWords s = [] := by
  apply cmdWords_nil
  rw [List.dropWhile_eq_nil_iff]
  exact fun c hc => cmdSpace_of_blank (h c hc)

/-- **The words of such a string** are the same for the shell and for the loop. -/
theorem WholeWords.agree (h : WholeWords s) :
    ∃ ws, lex (.out .gap) s = some ws ∧ texts ws = cmdWords s := by
  induction h with
  | finish h => exact ⟨[], lex_gap_blanks h, (cmdWords_blanks h).symm⟩
  | blank hc _ ih =>
    obtain ⟨ws, hl, he⟩ := ih
    refine ⟨ws, ?_, ?_⟩
    · rw [lex, if_pos hc]
      exact hl
    · rw [cmdWords_space (cmdSpace_of_blank (.inl hc)), he]
  | @plain c w s hhash hw he _ ih =>
    obtain ⟨ws, hl, hws⟩ := ih
    have hplain : ∀ d ∈ c :: w, isShPlain d = true := fun d hd => (wordByte_eq_true.1 (hw d hd)).1
    have hspace : ∀ d ∈ c :: w, cmdSpace d = false := fun d hd => (wordByte_eq_true.1 (hw d hd)).2
    obtain ⟨hb, hn, h1, h2, h3⟩ := isShPlain_iff.1 (hplain c List.mem_cons_self)
    refine ⟨ShWord.ofText (c :: w) :: ws, ?_, ?_⟩
    · rw [lex_out_eq_word (by decide) hb hn h3.1 hhash]
      have hread := lex_word_append hplain (lex_word_of_endsWord he hl)
      rwa [List.append_nil] at hread
    · rw [cmdWords_run (by rw [not_or]; exact ⟨h2, h1⟩) hspace fun d hd => cmdSpace_of_blank (he d hd), ← hws]
      simp
  | @single w s hw he _ ih =>
    obtain ⟨ws, hl, hws⟩ := ih
    refine ⟨quotedWord w :: ws, ?_, ?_⟩
    · have hread := lex_single_append hw (lex_word_of_endsWord he hl)
      rw [List.append_nil] at hread
      exact hread
    · rw [cmdWords_quoted (.inr rfl) hw, ← hws]
      simp
  | @double w s hw he _ ih =>
    obtain ⟨ws, hl, hws⟩ := ih
    refine ⟨quotedWord w :: ws, ?_, ?_⟩
    · have hread := lex_double_append hw (lex_word_of_endsWord he hl)
      rw [List.append_nil] at hread
      exact hread
    · rw [cmdWords_quoted (.inl rfl) hw.not_mem, ← hws]
      simp

end Ridux
