import Ridux.Proc.ShellC

/-!
# Where the shell and `execve` agree about a command string

The words of `execve` are those of the shell only if every word is quoted as a whole, or not at all.  The two
readers go through the string together.  As long as they agree, they are at the same place, but `execve` may
have found empty words that the shell has not; none of this is made up for later.

* `GapAgrees`, `TailAgrees`: what follows from two equal lists of words, between words and behind a word;
* `gap_step`, `tail_step`: from the shorter strings to a string;
* `wholeWords_of_agree`: equal words mean whole words;
* `PlainCommand`, `shell_c_agrees`: when the shell is not needed.
-/

namespace Ridux

open Lib

/-- Between words: if the shell has the same words, but for `k` empty ones in front. -/
def GapAgrees (s : Bytes) : Prop := ∀ k ws, lex (.out .gap) s = some ws →
  texts ws = List.replicate k [] ++ cmdWords s → k = 0 ∧ WholeWords s

/-- Behind a word to which the shell adds nothing more. -/
def TailAgrees (r : Bytes) : Prop := ∀ k ws, lex (.out .word) r = some ([] :: ws) →
  texts ws = List.replicate k [] ++ cmdWords r → k = 0 ∧ EndsWord r ∧ WholeWords r

section Steps

variable {s r t : Bytes} {ws : List ShWord} {k : ℕ} {c : UInt8}

theorem flatten_empties (k : ℕ) (l : List Bytes) : (List.replicate k [] ++ l).flatten = l.flatten := by
  rw [List.flatten_append, List.flatten_replicate_nil, List.nil_append]

theorem keeps_of_texts (h : texts ws = List.replicate k [] ++ cmdWords s) :
    s.count backslashByte ≤ backslashes ws := by
  unfold backslashes
  rw [h, flatten_empties, count_cmdWords (by decide)]

theorem empties_eq_nil (h : [] = List.replicate k ([] : Bytes) ++ cmdWords s) : k = 0 := by
  cases k with
  | zero => rfl
  | succ k => cases h

theorem lex_done_eq_some (h : lex (.out .done) s = some ws) (hkeep : s.count backslashByte ≤ backslashes ws) :
    ws = [] ∧ ∀ c ∈ s, isShBlank c = true ∨ c = newlineByte := by
  induction s with
  | nil => exact ⟨(Option.some.inj h).symm, fun c hc => absurd hc List.not_mem_nil⟩
  | cons c s ih =>
    have hmono : s.count backslashByte ≤ (c :: s).count backslashByte := by
      rw [List.count_cons]
      omega
    by_cases hb : isShBlank c = true
    · rw [lex_out_blank hb] at h
      obtain ⟨hws, hall⟩ := ih h (hmono.trans hkeep)
      exact ⟨hws, List.forall_mem_cons.2 ⟨.inl hb, hall⟩⟩
    · by_cases hn : c = newlineByte
      · rw [hn, lex_out_newline] at h
        obtain ⟨hws, hall⟩ := ih h (hmono.trans hkeep)
        exact ⟨hws, List.forall_mem_cons.2 ⟨.inr hn, hall⟩⟩
      · rw [lex, if_neg hb, if_neg hn] at h
        by_cases h1 : c = backslashByte
        · rw [if_pos h1] at h
          rw [h1] at hkeep
          exact absurd hkeep (not_keeps_escaped h)
        · rw [if_neg h1, if_pos rfl] at h
          cases h

/-- **A quoted word**: `x` is what the shell adds to it behind the closing quote. -/
theorem quoted_step {w : Bytes} {y : ShWord} (htail : TailAgrees r)
    (hread : lex (.out .word) r = some (y :: ws))
    (he : (w ++ y.text) :: texts ws = List.replicate k [] ++ w :: cmdWords r) :
    k = 0 ∧ EndsWord r ∧ WholeWords r := by
  have hnil : y.text = [] → y = [] := List.map_eq_nil_iff.1
  cases k with
  | zero =>
    obtain ⟨hw, hrest⟩ := List.cons.inj he
    obtain rfl := hnil (List.append_right_eq_self.1 hw)
    exact htail 0 ws hread hrest
  | succ k =>
    rw [List.replicate_succ, List.cons_append] at he
    obtain ⟨hw, hrest⟩ := List.cons.inj he
    obtain ⟨rfl, hy⟩ := List.append_eq_nil_iff.1 hw
    obtain rfl := hnil hy
    have hmore : texts ws = List.replicate (k + 1) [] ++ cmdWords r := by
      rw [hrest, List.replicate_succ', List.append_assoc]
      rfl
    exact absurd (htail (k + 1) ws hread hmore).1 (Nat.succ_ne_zero k)

theorem tail_step (hgap : ∀ s, s.length < r.length → GapAgrees s)
    (htail : ∀ s, s.length < r.length → TailAgrees s) : TailAgrees r := by
  intro k ws h he
  have hkeep := keeps_of_texts he
  cases r with
  | nil =>
    obtain ⟨-, rfl⟩ := List.cons.inj (Option.some.inj h)
    exact ⟨empties_eq_nil he, fun c hc => (by cases hc), .finish fun c hc => absurd hc List.not_mem_nil⟩
  | cons c t =>
    have hclose : ∀ {r' : Option (List ShWord)}, r'.map ([] :: ·) = some ([] :: ws) → r' = some ws := by
      intro r' hx
      obtain ⟨ws', hr, he⟩ := Option.map_eq_some_iff.1 hx
      rw [hr, (List.cons.inj he).2]
    by_cases hb : isShBlank c = true
    · rw [lex_out_blank hb] at h
      rw [cmdWords_space (cmdSpace_of_blank (.inl hb))] at he
      obtain ⟨hk, hwhole⟩ := hgap t (Nat.lt_succ_self _) k ws (hclose h) he
      refine ⟨hk, fun d hd => ?_, .blank hb hwhole⟩
      obtain rfl := Option.some.inj hd
      exact .inl hb
    by_cases hn : c = newlineByte
    · rw [hn, lex_out_newline] at h
      rw [hn, List.count_cons_of_ne (by decide)] at hkeep
      obtain ⟨rfl, hall⟩ := lex_done_eq_some (hclose h) hkeep
      refine ⟨empties_eq_nil he, fun d hd => ?_, .finish (List.forall_mem_cons.2 ⟨.inr hn, hall⟩)⟩
      obtain rfl := Option.some.inj hd
      exact .inr hn
    -- an empty text in quotes, which is a word of `cmdWords`
    have hempty : ∀ {w s : Bytes} {y : ShWord} {ws' : List ShWord}, c = doubleQuote ∨ c = singleQuote → c ∉ w →
        t = w ++ c :: s → [] :: ws = (quotedWord w ++ y) :: ws' → lex (.out .word) s = some (y :: ws') →
        k = 0 ∧ EndsWord (c :: t) ∧ WholeWords (c :: t) := by
      intro w s y ws' hc hmem ht hws hread
      obtain ⟨hnil, rfl⟩ := List.cons.inj hws
      obtain ⟨hw, hy⟩ := List.append_eq_nil_iff.1 hnil.symm
      obtain rfl : w = [] := List.map_eq_nil_iff.1 hw
      rw [hy] at hread
      rw [ht, cmdWords_quoted hc hmem] at he
      have hlt : s.length < (c :: t).length := by
        rw [ht, List.nil_append, List.length_cons, List.length_cons]
        omega
      have hmore : texts ws = List.replicate (k + 1) [] ++ cmdWords s := by
        rw [he, List.replicate_succ', List.append_assoc]
        rfl
      exact absurd (htail s hlt (k + 1) ws hread hmore).1 (Nat.succ_ne_zero k)
    rw [lex, if_neg hb, if_neg hn] at h
    split_ifs at h with h1 h2 h3 h4 h5
    · rw [h1] at hkeep
      exact absurd hkeep fun hk => not_keeps_escaped h hk
    · obtain ⟨w, s, y, ws', ht, hmem, hws, hread⟩ := lex_single_eq_some h
      exact hempty (.inr h4) (h4 ▸ hmem) (h4 ▸ ht) hws hread
    · rw [List.count_cons_of_ne h1] at hkeep
      obtain ⟨w, s, y, ws', ht, htext, hws, hread⟩ := lex_double_eq_some h hkeep
      exact hempty (.inl h5) (h5 ▸ htext.not_mem) (h5 ▸ ht) hws hread
    · obtain ⟨w, ws', -, hws⟩ := putLetter_eq_some.1 h
      cases hws

theorem gap_step (hgap : ∀ t, t.length < s.length → GapAgrees t)
    (htail : ∀ t, t.length < s.length → TailAgrees t) : GapAgrees s := by
  intro k ws h he
  have hkeep := keeps_of_texts he
  cases s with
  | nil =>
    obtain rfl := Option.some.inj h
    exact ⟨empties_eq_nil he, .finish fun c hc => absurd hc List.not_mem_nil⟩
  | cons c t =>
    by_cases hb : isShBlank c = true
    · rw [lex_out_blank hb] at h
      rw [cmdWords_space (cmdSpace_of_blank (.inl hb))] at he
      obtain ⟨hk, hwhole⟩ := hgap t (Nat.lt_succ_self _) k ws h he
      exact ⟨hk, .blank hb hwhole⟩
    by_cases hn : c = newlineByte
    · rw [hn, lex_out_newline] at h
      rw [hn, List.count_cons_of_ne (by decide)] at hkeep
      obtain ⟨rfl, hall⟩ := lex_done_eq_some h hkeep
      exact ⟨empties_eq_nil he, .finish (List.forall_mem_cons.2 ⟨.inr hn, hall⟩)⟩
    -- a carriage return is a letter for the shell
    have hspace : cmdSpace c = false := by
      by_contra hsp
      rw [Bool.not_eq_false] at hsp
      have hplain := ((cmdSpace_cases hsp).resolve_left hb).resolve_left hn
      have htaken : isShTaken c = false := by
        obtain ⟨g1, g2, g3, g4, g5, -⟩ := isShPlain_iff.1 hplain
        exact isShTaken_eq_false.2 ⟨g1, g2, g3, g4, g5⟩
      have hcount := count_lex htaken h
      have hle := (cmdWords_sublist t).count_le c
      rw [he, flatten_empties, cmdWords_space hsp, List.count_cons_self] at hcount
      omega
    have hquoted : ∀ {w r : Bytes} {y : ShWord} {ws' : List ShWord}, c = doubleQuote ∨ c = singleQuote → c ∉ w →
        t = w ++ c :: r → ws = (quotedWord w ++ y) :: ws' → lex (.out .word) r = some (y :: ws') →
        k = 0 ∧ EndsWord r ∧ WholeWords r := by
      intro w r y ws' hc hmem ht hws hread
      have hlt : r.length < (c :: t).length := by
        rw [ht, List.length_cons, List.length_append, List.length_cons]
        omega
      rw [hws, ht, cmdWords_quoted hc hmem, texts_cons, text_quotedWord_append] at he
      exact quoted_step (htail r hlt) hread he
    have hread := h
    rw [lex, if_neg hb, if_neg hn] at hread
    split_ifs at hread with h1 h2 h3 h4 h5 h6
    · rw [h1] at hkeep
      exact absurd hkeep (not_keeps_escaped hread)
    · obtain ⟨w, r, y, ws', ht, hmem, hws, hrest⟩ := lex_single_eq_some hread
      obtain ⟨hk, hends, hwhole⟩ := hquoted (.inr h4) (h4 ▸ hmem) (h4 ▸ ht) hws hrest
      rw [h4, ht]
      exact ⟨hk, .single hmem hends hwhole⟩
    · rw [List.count_cons_of_ne h1] at hkeep
      obtain ⟨w, r, y, ws', ht, htext, hws, hrest⟩ := lex_double_eq_some hread hkeep
      obtain ⟨hk, hends, hwhole⟩ := hquoted (.inl h5) (h5 ▸ htext.not_mem) (h5 ▸ ht) hws hrest
      rw [h5, ht]
      exact ⟨hk, .double htext hends hwhole⟩
    · -- a run of letters
      obtain ⟨w, ws', -, rfl⟩ := putLetter_eq_some.1 hread
      have hhash : c ≠ hashByte := fun hc => h3 ⟨hc, by decide⟩
      rw [Bool.not_eq_true] at hb
      rw [lex_out_eq_word (by decide) hb hn h1 hhash] at h
      have hrun : ∀ d ∈ c :: t.takeWhile (!cmdSpace ·), cmdSpace d = false := by
        rw [List.forall_mem_cons]
        refine ⟨hspace, fun d hd => ?_⟩
        simpa using List.mem_takeWhile_imp hd
      have hrest : ∀ d ∈ (t.dropWhile (!cmdSpace ·)).head?, cmdSpace d = true := by
        intro d hd
        have := List.head?_dropWhile_not (!cmdSpace ·) t
        rw [Option.mem_def.1 hd] at this
        simpa using this
      have ht : c :: t = (c :: t.takeWhile (!cmdSpace ·)) ++ t.dropWhile (!cmdSpace ·) := by
        rw [List.cons_append, List.takeWhile_append_dropWhile]
      have hlt : (t.dropWhile (!cmdSpace ·)).length < (c :: t).length :=
        Nat.lt_succ_of_le (List.dropWhile_suffix _).length_le
      generalize t.takeWhile (!cmdSpace ·) = v at hrun ht
      generalize t.dropWhile (!cmdSpace ·) = rest at hrest ht hlt
      rw [ht, List.cons_append, cmdWords_run (by rw [not_or]; exact ⟨h5, h4⟩) hrun hrest] at he
      rw [ht] at h hkeep
      cases k with
      | zero =>
        obtain ⟨hword, hwords⟩ := List.cons.inj he
        obtain ⟨hall, hbehind⟩ := lex_run_eq (fun _ => cmdSpace_of_blank) (fun _ => cmdSpace_cases) hrun hrest h
          hkeep hword
        obtain ⟨-, hends, hwhole⟩ := htail rest hlt 0 ws' hbehind hwords
        rw [ht]
        exact ⟨rfl, .plain hhash (fun d hd => wordByte_eq_true.2 ⟨hall d hd, hrun d hd⟩) hends hwhole⟩
      | succ k =>
        rw [List.replicate_succ, List.cons_append] at he
        cases (List.cons.inj he).1

end Steps

theorem agrees (s : Bytes) : GapAgrees s ∧ TailAgrees s := by
  generalize hn : s.length = n
  induction n using Nat.strong_induction_on generalizing s with
  | _ n ih =>
    have hgap : ∀ t, t.length < s.length → GapAgrees t := fun t ht => (ih t.length (hn ▸ ht) t rfl).1
    have htail : ∀ t, t.length < s.length → TailAgrees t := fun t ht => (ih t.length (hn ▸ ht) t rfl).2
    exact ⟨gap_step hgap htail, tail_step hgap htail⟩

/-! ### Commands -/

/-- What may stand in front of a command. -/
def lineSpace (c : UInt8) : Bool := isShBlank c || c == newlineByte

theorem lineSpace_eq_true {c : UInt8} : lineSpace c = true ↔ isShBlank c = true ∨ c = newlineByte := by
  rw [lineSpace, Bool.or_eq_true, beq_iff_eq]

/-- The command string from its first word on. -/
def commandText (cmd : Bytes) : Bytes := cmd.dropWhile lineSpace

theorem cmdWords_commandText (cmd : Bytes) : cmdWords (commandText cmd) = cmdWords cmd := by
  unfold commandText
  induction cmd with
  | nil => rfl
  | cons c s ih =>
    by_cases hc : lineSpace c = true
    · rw [List.dropWhile_cons_of_pos hc, ih, cmdWords_space (cmdSpace_of_blank (lineSpace_eq_true.1 hc))]
    · rw [List.dropWhile_cons_of_neg hc]

variable {cmd : Bytes}

theorem head_commandText {c : UInt8} {s : Bytes} (h : commandText cmd = c :: s) :
    isShBlank c = false ∧ c ≠ newlineByte := by
  have hno := List.head?_dropWhile_not lineSpace cmd
  unfold commandText at h
  rw [h] at hno
  simpa [lineSpace] using hno

theorem shellWords_commandText (cmd : Bytes) : shellWords cmd = lex (.out .start) (commandText cmd) := by
  unfold shellWords commandText
  induction cmd with
  | nil => rfl
  | cons c s ih =>
    by_cases hc : lineSpace c = true
    · rw [List.dropWhile_cons_of_pos hc, ← ih]
      rcases lineSpace_eq_true.1 hc with hb | rfl
      · exact lex_out_blank hb .start s
      · exact lex_out_newline .start s
    · rw [List.dropWhile_cons_of_neg hc]

theorem lex_start_eq (hback : ∀ c ∈ (commandText cmd).head?, c ≠ backslashByte) :
    lex (.out .start) (commandText cmd) = lex (.out .gap) (commandText cmd) := by
  cases h : commandText cmd with
  | nil => rfl
  | cons c s =>
    obtain ⟨hb, hn⟩ := head_commandText h
    have hc : c ≠ backslashByte := hback c (by rw [h]; rfl)
    simp only [lex, hb, hn, hc, if_false, Bool.false_eq_true, reduceCtorEq, ne_eq, not_false_eq_true]

variable {ws : List ShWord} {p : Bytes}

/-- **Equal words mean whole words.** -/
theorem wholeWords_of_agree (h : shellWords cmd = some ws) (he : texts ws = cmdWords cmd) :
    WholeWords (commandText cmd) := by
  rw [← cmdWords_commandText] at he
  have hkeep : (commandText cmd).count backslashByte ≤ backslashes ws := keeps_of_texts (k := 0) he
  rw [shellWords_commandText] at h
  have hback : ∀ c ∈ (commandText cmd).head?, c ≠ backslashByte := by
    rintro c hc rfl
    cases hs : commandText cmd with
    | nil =>
      rw [hs] at hc
      cases hc
    | cons d s =>
      rw [hs] at hc h hkeep
      obtain rfl := Option.some.inj hc
      rw [lex, if_neg (by decide), if_neg (by decide), if_pos rfl] at h
      exact not_keeps_escaped h hkeep
  rw [lex_start_eq hback] at h
  exact ((agrees _).1 0 ws h he).2

theorem texts_of_whole (hwhole : WholeWords (commandText cmd)) (h : shellWords cmd = some ws) :
    lex (.out .gap) (commandText cmd) = some ws ∧ texts ws = cmdWords cmd := by
  have hback : ∀ c ∈ (commandText cmd).head?, c ≠ backslashByte := by
    rintro c hc rfl
    generalize commandText cmd = s at hwhole hc
    cases hwhole with
    | finish h =>
      rcases h _ (List.mem_of_mem_head? hc) with hb | hn
      · cases hb
      · cases hn
    | blank hb =>
      obtain rfl := Option.some.inj hc
      cases hb
    | plain hhash hw =>
      obtain rfl := Option.some.inj hc
      cases hw _ List.mem_cons_self
    | single => cases hc
    | double => cases hc
  rw [shellWords_commandText, lex_start_eq hback] at h
  obtain ⟨ws', hl, he⟩ := hwhole.agree
  obtain rfl := Option.some.inj (hl.symm.trans h)
  exact ⟨h, he.trans (cmdWords_commandText cmd)⟩

/-! ### `exec` in front of the command -/

/-- The words that the loop finds after `exec`. -/
def readWords (cmd : Bytes) : List Bytes := cmdWords (skipExec (cmd.dropWhile cmdSpace))

/-- The string begins with `exec` and a blank. -/
def startsExec (p : Bytes) : Bool := startsWith p (ascii "exec") && (p.drop 4).head?.any cmdSpace

theorem startsExec_iff : startsExec p = true ↔ ∃ d r, p = ascii "exec" ++ d :: r ∧ cmdSpace d = true := by
  unfold startsExec startsWith
  rw [Bool.and_eq_true, List.isPrefixOf_iff_prefix]
  constructor
  · rintro ⟨⟨r, rfl⟩, hd⟩
    have hdrop : (ascii "exec" ++ r).drop 4 = r := rfl
    rw [hdrop] at hd
    cases r with
    | nil => cases hd
    | cons d r => exact ⟨d, r, rfl, hd⟩
  · rintro ⟨d, r, rfl, hd⟩
    exact ⟨⟨d :: r, rfl⟩, hd⟩

theorem exec_not_space : ∀ c ∈ ascii "exec", cmdSpace c = false := by
  have hall : (ascii "exec").all (!cmdSpace ·) = true := by decide
  intro c hc
  simpa using List.all_eq_true.1 hall c hc

theorem cmdWords_of_startsExec (h : startsExec (cmd.dropWhile cmdSpace) = true) :
    cmdWords cmd = ascii "exec" :: readWords cmd := by
  have hskip : skipExec (cmd.dropWhile cmdSpace) = ((cmd.dropWhile cmdSpace).drop 4).dropWhile cmdSpace := if_pos h
  rw [readWords, hskip, cmdWords_dropWhile, ← cmdWords_dropWhile cmd]
  obtain ⟨d, r, hp, hd⟩ := startsExec_iff.1 h
  rw [hp]
  exact cmdWords_run (by decide) exec_not_space (by rintro e ⟨⟩; exact hd)

theorem readWords_of_not (h : startsExec (cmd.dropWhile cmdSpace) = false) :
    readWords cmd = cmdWords cmd := by
  have hskip : skipExec (cmd.dropWhile cmdSpace) = cmd.dropWhile cmdSpace := by
    refine if_neg ?_
    rw [show (startsWith _ _ && _) = startsExec (cmd.dropWhile cmdSpace) from rfl, h]
    decide
  rw [readWords, hskip, cmdWords_dropWhile]

theorem texts_of_argv (h : shellWords cmd = some ws) (he : argvOf ws = readWords cmd) :
    texts ws = cmdWords cmd := by
  -- no letter of `exec` gets lost, so either both have skipped it or none
  have hcount : (texts ws).flatten.count 0x65 = (cmdWords cmd).flatten.count 0x65 := by
    rw [count_lex (by decide) h, count_cmdWords (by decide)]
  have hexec : (ascii "exec").count 0x65 = 2 := by decide
  unfold argvOf at he
  cases hs : startsExec (cmd.dropWhile cmdSpace) with
  | true =>
    have hwords := cmdWords_of_startsExec hs
    split_ifs at he with hw
    · obtain ⟨ws', rfl⟩ := List.head?_eq_some_iff.1 hw
      rw [hwords, ← he]
      rfl
    · rw [hwords, he, List.flatten_cons, List.count_append, hexec] at hcount
      omega
  | false =>
    have hwords := readWords_of_not hs
    split_ifs at he with hw
    · obtain ⟨ws', rfl⟩ := List.head?_eq_some_iff.1 hw
      have htexts : texts (ShWord.execWord :: ws') = ascii "exec" :: texts ws' := rfl
      rw [← hwords, ← he, htexts, List.flatten_cons, List.count_append, hexec] at hcount
      simp only [List.tail_cons] at hcount
      omega
    · rw [he, hwords]

theorem dropWhile_cmdSpace (hwhole : WholeWords (commandText cmd)) :
    cmd.dropWhile cmdSpace = commandText cmd := by
  have hskip : cmd.dropWhile cmdSpace = (commandText cmd).dropWhile cmdSpace := by
    unfold commandText
    induction cmd with
    | nil => rfl
    | cons c s ih =>
      by_cases hc : lineSpace c = true
      · rw [List.dropWhile_cons_of_pos (cmdSpace_of_blank (lineSpace_eq_true.1 hc)), List.dropWhile_cons_of_pos hc]
        apply ih
        unfold commandText at hwhole ⊢
        rwa [List.dropWhile_cons_of_pos hc] at hwhole
      · rw [List.dropWhile_cons_of_neg hc]
  rw [hskip]
  cases hp : commandText cmd with
  | nil => rfl
  | cons c s =>
    obtain ⟨hb, hn⟩ := head_commandText hp
    apply List.dropWhile_cons_of_neg
    intro hspace
    rcases cmdSpace_cases hspace with h | h | hplain
    · rw [hb] at h
      cases h
    · exact hn h
    · -- a carriage return begins no whole word
      have hno : ∀ {p : Bytes}, WholeWords p → p = c :: s → False := by
        intro p h he
        cases h with
        | finish h =>
          rcases h c (he ▸ List.mem_cons_self) with h | h
          · rw [hb] at h
            cases h
          · exact hn h
        | blank h =>
          obtain ⟨rfl, -⟩ := List.cons.inj he
          rw [hb] at h
          cases h
        | plain _ hw =>
          obtain ⟨rfl, -⟩ := List.cons.inj he
          rw [(wordByte_eq_true.1 (hw _ List.mem_cons_self)).2] at hspace
          cases hspace
        | single =>
          obtain ⟨rfl, -⟩ := List.cons.inj he
          cases hspace
        | double =>
          obtain ⟨rfl, -⟩ := List.cons.inj he
          cases hspace
      exact hno hwhole hp

theorem WholeWords.first {w : ShWord} (hwhole : WholeWords p)
    (hp : ∀ c ∈ p.head?, isShBlank c = false ∧ c ≠ newlineByte)
    (h : lex (.out .gap) p = some (w :: ws)) :
    (∃ v s, p = v ++ s ∧ w = ShWord.ofText v ∧ EndsWord s ∧ lex (.out .gap) s = some ws ∧
      ∀ c ∈ v, wordByte c = true) ∨
    ∃ v, w = quotedWord v ∧ ∀ c ∈ p.head?, isShPlain c = false := by
  cases hwhole with
  | finish hall =>
    rw [lex_gap_blanks hall] at h
    cases h
  | blank hc =>
    rw [(hp _ rfl).1] at hc
    cases hc
  | @plain c v s hhash hw he hs =>
    left
    obtain ⟨ws', hl, -⟩ := hs.agree
    have hplain : ∀ d ∈ c :: v, isShPlain d = true := fun d hd => (wordByte_eq_true.1 (hw d hd)).1
    obtain ⟨hb, hn, -, -, hback, -⟩ := isShPlain_iff.1 (hplain c List.mem_cons_self)
    have hread := lex_word_append hplain (lex_word_of_endsWord he hl)
    rw [List.append_nil] at hread
    rw [lex_out_eq_word (by decide) hb hn hback hhash] at h
    obtain ⟨rfl, rfl⟩ := List.cons.inj (Option.some.inj (h.symm.trans hread))
    exact ⟨c :: v, s, rfl, rfl, he, hl, hw⟩
  | @single v s hv he hs =>
    right
    obtain ⟨ws', hl, -⟩ := hs.agree
    have hread := lex_single_append hv (lex_word_of_endsWord he hl)
    rw [List.append_nil] at hread
    have hsame : lex (.out .gap) (singleQuote :: (v ++ singleQuote :: s)) = lex .single (v ++ singleQuote :: s) := rfl
    rw [hsame] at h
    obtain ⟨rfl, -⟩ := List.cons.inj (Option.some.inj (h.symm.trans hread))
    refine ⟨v, rfl, fun c hc => ?_⟩
    obtain rfl := Option.some.inj hc
    decide
  | @double v s hv he hs =>
    right
    obtain ⟨ws', hl, -⟩ := hs.agree
    have hread := lex_double_append hv (lex_word_of_endsWord he hl)
    rw [List.append_nil] at hread
    have hsame : lex (.out .gap) (doubleQuote :: (v ++ doubleQuote :: s)) = lex .double (v ++ doubleQuote :: s) := rfl
    rw [hsame] at h
    obtain ⟨rfl, -⟩ := List.cons.inj (Option.some.inj (h.symm.trans hread))
    refine ⟨v, rfl, fun c hc => ?_⟩
    obtain rfl := Option.some.inj hc
    decide

theorem head_eq_execWord (hwhole : WholeWords (commandText cmd)) (h : shellWords cmd = some ws)
    (hsimple : SimpleCommand ws = true) :
    ws.head? = some ShWord.execWord ↔ startsExec (cmd.dropWhile cmdSpace) = true := by
  obtain ⟨hl, -⟩ := texts_of_whole hwhole h
  have hhead : ∀ c ∈ (commandText cmd).head?, isShBlank c = false ∧ c ≠ newlineByte := by
    intro c hc
    cases hp : commandText cmd with
    | nil =>
      rw [hp] at hc
      cases hc
    | cons d s =>
      rw [hp] at hc
      obtain rfl := Option.some.inj hc
      exact head_commandText hp
  rw [dropWhile_cmdSpace hwhole]
  constructor
  · intro hw
    obtain ⟨ws', rfl⟩ := List.head?_eq_some_iff.1 hw
    rcases hwhole.first hhead hl with ⟨v, s, hp, hv, he, hs, -⟩ | ⟨v, hv, -⟩
    · have hexec : v = ascii "exec" := by
        rw [← text_ofText v, ← hv]
        exact text_ofText _
      cases s with
      | nil =>
        -- `exec` alone runs nothing
        obtain rfl := Option.some.inj hs
        cases hsimple
      | cons d s =>
        rw [startsExec_iff]
        exact ⟨d, s, by rw [hp, hexec], cmdSpace_of_blank (he d rfl)⟩
    · -- a quoted `exec` is not the word without quotes
      have hflag : (ShWord.execWord.all fun x => x.2) = true := by
        rw [hv, quotedWord, List.all_map, List.all_eq_true]
        exact fun c _ => rfl
      cases hflag
  · intro hstarts
    obtain ⟨d, r, hp, hd⟩ := startsExec_iff.1 hstarts
    cases ws with
    | nil => cases hsimple
    | cons w ws =>
      rcases hwhole.first hhead hl with ⟨v, s, hparts, hv, he, -, hw⟩ | ⟨v, -, hquote⟩
      · -- both runs of letters end at the first blank
        have hrun : ∀ {u t : Bytes}, (∀ c ∈ u, cmdSpace c = false) → (∀ c ∈ t.head?, cmdSpace c = true) →
            (u ++ t).takeWhile (!cmdSpace ·) = u := by
          intro u t hu ht
          rw [List.takeWhile_append_of_pos fun c hc => by rw [hu c hc]; rfl]
          cases t with
          | nil => exact List.append_nil u
          | cons c t =>
            rw [List.takeWhile_cons, ht c rfl, Bool.not_true, if_neg (by decide), List.append_nil]
        have hv' := hrun (fun c hc => (wordByte_eq_true.1 (hw c hc)).2) fun c hc => cmdSpace_of_blank (he c hc)
        have hexec : ((ascii "exec") ++ d :: r).takeWhile (!cmdSpace ·) = ascii "exec" := by
          apply hrun exec_not_space
          rintro c ⟨⟩
          exact hd
        rw [← hparts, hp, hexec] at hv'
        rw [hv, ← hv']
        rfl
      · rw [hp] at hquote
        cases hquote _ rfl

theorem argv_of_whole (hwhole : WholeWords (commandText cmd)) (h : shellWords cmd = some ws)
    (hsimple : SimpleCommand ws = true) : argvOf ws = readWords cmd := by
  have htexts := (texts_of_whole hwhole h).2
  have hboth := head_eq_execWord hwhole h hsimple
  unfold argvOf
  cases hs : startsExec (cmd.dropWhile cmdSpace) with
  | true =>
    have hw := hboth.2 hs
    obtain ⟨ws', rfl⟩ := List.head?_eq_some_iff.1 hw
    rw [cmdWords_of_startsExec hs] at htexts
    rw [if_pos hw]
    exact (List.cons.inj htexts).2
  | false =>
    have hw : ¬ ws.head? = some ShWord.execWord := by
      rw [hboth, hs]
      decide
    rw [if_neg hw, htexts, readWords_of_not hs]

/-! ### When the shell is not needed -/

/-- A simple command of whole words that fits: `execArgMax` words, and a path for the program. -/
def PlainCommand (cmd : Bytes) : Prop :=
  WholeWords (commandText cmd) ∧ ∃ ws, shellWords cmd = some ws ∧ SimpleCommand ws = true ∧
    (argvOf ws).length ≤ execArgMax ∧ ∀ prog ∈ (argvOf ws).head?, prog.length < vfsPathMax

/-- The program and its arguments are those that the shell runs, and the shell does nothing else. -/
def AgreesWithShell (cmd prog : Bytes) (args : List Bytes) : Prop :=
  shellCommand cmd = some args ∧ args.head? = some prog

/-- There are more words than the loop reads. -/
def PastLimit (cmd : Bytes) : Prop := execArgMax < (readWords cmd).length

theorem rewriteShellC_eq_some {npath prog : Bytes} {argv args : List Bytes}
    (hcmd : argv[2]? = some cmd) (h : rewriteShellC npath argv = some (prog, args)) :
    args = (readWords cmd).take execArgMax ∧ ∃ p, args.head? = some p ∧ prog = p.take (vfsPathMax - 1) := by
  unfold rewriteShellC at h
  split at h
  · rename_i sh flag cmd' rest
    obtain rfl : cmd' = cmd := Option.some.inj hcmd
    split_ifs at h
    rw [splitCmd_eq] at h
    split at h
    · cases h
    · rename_i p args' hwords
      obtain ⟨rfl, rfl⟩ := Prod.mk.inj (Option.some.inj h)
      exact ⟨hwords.symm, p, rfl, rfl⟩
  · cases h

theorem shellCommand_eq_some {args : List Bytes} :
    shellCommand cmd = some args ↔ ∃ ws, shellWords cmd = some ws ∧ SimpleCommand ws = true ∧ argvOf ws = args := by
  unfold shellCommand
  rw [Option.bind_eq_some_iff]
  constructor
  · rintro ⟨ws, hws, h⟩
    split_ifs at h with hs
    exact ⟨ws, hws, hs, Option.some.inj h⟩
  · rintro ⟨ws, hws, hs, he⟩
    exact ⟨ws, hws, by rw [if_pos hs, he]⟩

theorem take_path_eq : p.take (vfsPathMax - 1) = p ↔ p.length < vfsPathMax := by
  unfold vfsPathMax
  constructor
  · intro h
    have hlen := congrArg List.length h
    rw [List.length_take] at hlen
    omega
  · intro h
    apply List.take_of_length_le
    omega

/-- **`sh -c` without a shell** runs what the shell runs for a simple command of whole words that fits, and up
to the limit on the words for nothing else. -/
theorem shell_c_agrees {npath cmd prog : Bytes} {argv args : List Bytes} (hcmd : argv[2]? = some cmd)
    (h : rewriteShellC npath argv = some (prog, args)) :
    (PlainCommand cmd → AgreesWithShell cmd prog args) ∧
      (AgreesWithShell cmd prog args → PlainCommand cmd ∨ PastLimit cmd) := by
  obtain ⟨hargs, p, hhead, hprog⟩ := rewriteShellC_eq_some hcmd h
  constructor
  · rintro ⟨hwhole, ws, hws, hsimple, hlen, hpath⟩
    have hall := argv_of_whole hwhole hws hsimple
    rw [← hall, List.take_of_length_le hlen] at hargs
    refine ⟨shellCommand_eq_some.2 ⟨ws, hws, hsimple, hargs.symm⟩, ?_⟩
    rw [hargs] at hhead
    rw [hargs, hhead, hprog, take_path_eq.2 (hpath p hhead)]
  · rintro ⟨hshell, hfirst⟩
    obtain ⟨ws, hws, hsimple, he⟩ := shellCommand_eq_some.1 hshell
    by_cases hlimit : PastLimit cmd
    · exact .inr hlimit
    left
    have hfits : (readWords cmd).length ≤ execArgMax := Nat.not_lt.1 hlimit
    rw [List.take_of_length_le hfits] at hargs
    have hread : argvOf ws = readWords cmd := he.trans hargs
    refine ⟨wholeWords_of_agree hws (texts_of_argv hws hread), ws, hws, hsimple, hread ▸ hfits, ?_⟩
    intro q hq
    rw [he, hhead] at hq
    obtain rfl := Option.some.inj hq
    rw [hhead] at hfirst
    rw [← take_path_eq, ← hprog]
    exact (Option.some.inj hfirst).symm

theorem shell_c_agrees_quoted :
    AgreesWithShell (ascii "ls 'a b'") (ascii "ls") [ascii "ls", ascii "a b"] := by
  have hwhole : WholeWords (commandText (ascii "ls 'a b'")) := by
    have hword : (ascii "ls").all wordByte = true := by decide
    apply WholeWords.plain (w := ascii "s") (by decide) (List.all_eq_true.1 hword) (by rintro c ⟨⟩; decide)
    apply WholeWords.blank (by decide)
    apply WholeWords.single (w := ascii "a b") (by decide) (by rintro c ⟨⟩)
    exact .finish fun c hc => absurd hc List.not_mem_nil
  have hplain : PlainCommand (ascii "ls 'a b'") :=
    ⟨hwhole, _, rfl, by decide, by decide, by rintro prog ⟨⟩; decide⟩
  have hdirect : rewriteShellC (ascii "/bin/sh") [ascii "sh", ascii "-c", ascii "ls 'a b'"]
      = some (ascii "ls", [ascii "ls", ascii "a b"]) := by decide
  exact (shell_c_agrees (by rfl) hdirect).1 hplain

/-- A pattern is run as it stands. -/
theorem shell_c_differs :
    rewriteShellC (ascii "/bin/sh") [ascii "sh", ascii "-c", ascii "ls *.c"]
        = some (ascii "ls", [ascii "ls", ascii "*.c"]) ∧
      ¬ AgreesWithShell (ascii "ls *.c") (ascii "ls") [ascii "ls", ascii "*.c"] := by
  refine ⟨by decide, ?_⟩
  rintro ⟨h, -⟩
  have hnone : shellCommand (ascii "ls *.c") = none := by decide
  rw [hnone] at h
  cases h

end Ridux
