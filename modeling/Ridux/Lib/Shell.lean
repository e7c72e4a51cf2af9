import Ridux.Text

/-!
# Words of a shell command

How a POSIX shell reads a command string, up to what it takes from the string alone: the words, and the
quotes that are removed from them.  What is more than one simple command, or is expanded, is no word list.

* `Letter`, `ShWord`: the words, with the letters that were quoted marked;
* `lex`: the words of a string, none if it is not finished or has an operator or an expansion;
* `SimpleCommand`, `argvOf`, `shellCommand`: the arguments, if the words are a program and its arguments;
* `count_lex`, `count_lex_backslash`: the bytes of a string that reach its words;
* `lex_single_eq_some`, `lex_double_eq_some`: what stands between two quotes;
* `lex_run`: a run of letters with a quote in it does not read as itself.
-/

namespace Ridux.Lib

open List Option

/-- A byte of a word, and whether it was quoted. -/
abbrev Letter := UInt8 × Bool

/-- A word, with its quotes removed. -/
abbrev ShWord := List Letter

def newlineByte : UInt8 := 0x0A
def backslashByte : UInt8 := 0x5C
def singleQuote : UInt8 := 0x27
def doubleQuote : UInt8 := 0x22
def dollarByte : UInt8 := 0x24
def backquoteByte : UInt8 := 0x60
def hashByte : UInt8 := 0x23

/-- A `<blank>`: a space or a tab. -/
def isShBlank (c : UInt8) : Bool := c == 0x20 || c == 0x09

/-- The letters of operators, and those that begin an expansion. -/
def isShSpecial (c : UInt8) : Bool := (ascii "|&;<>()" ++ [dollarByte, backquoteByte]).contains c

/-- The letters that a backslash quotes between double quotes, beside a newline. -/
def isShEscapable (c : UInt8) : Bool := [dollarByte, backquoteByte, doubleQuote, backslashByte].contains c

/-- Where the shell is outside of quotes: before the command, between words, in a word, or behind the line. -/
inductive LexPlace
  | start | gap | word | done
  deriving DecidableEq

inductive LexState
  | out (o : LexPlace)
  /-- behind a backslash outside of quotes -/
  | escaped (o : LexPlace)
  | single
  | double
  /-- behind a backslash between double quotes -/
  | doubleEscaped
  deriving DecidableEq

/-- The place behind a blank. -/
def LexPlace.blank : LexPlace → LexPlace
  | .word => .gap
  | o => o

/-- The place behind a newline: only before the command it does not end the line. -/
def LexPlace.newline : LexPlace → LexPlace
  | .start => .start
  | _ => .done

/-- A word that ends here, if there is one. -/
def LexPlace.close (o : LexPlace) (r : Option (List ShWord)) : Option (List ShWord) :=
  if o = .word then r.map ([] :: ·) else r

/-- Put a letter in front of the word that begins the rest. -/
def putLetter (x : Letter) : Option (List ShWord) → Option (List ShWord)
  | some (w :: ws) => some ((x :: w) :: ws)
  | _ => none

/-- The words of a string.  In the middle of a word the first one is what is left of it. -/
def lex : LexState → List UInt8 → Option (List ShWord)
  | .out o, [] => o.close (some [])
  | .escaped _, [] => none
  | .single, [] => none
  | .double, [] => none
  | .doubleEscaped, [] => none
  | .out o, c :: s =>
    if isShBlank c then o.close (lex (.out o.blank) s)
    else if c = newlineByte then o.close (lex (.out o.newline) s)
    else if c = backslashByte then lex (.escaped o) s
    else if o = .done then none
    else if c = hashByte ∧ o ≠ .word then none
    else if c = singleQuote then lex .single s
    else if c = doubleQuote then lex .double s
    else if isShSpecial c then none
    else putLetter (c, false) (lex (.out .word) s)
  | .escaped o, c :: s =>
    -- a backslash before a newline continues the line
    if c = newlineByte then lex (.out o) s
    else if o = .done then none
    else putLetter (c, true) (lex (.out .word) s)
  | .single, c :: s => if c = singleQuote then lex (.out .word) s else putLetter (c, true) (lex .single s)
  | .double, c :: s =>
    if c = doubleQuote then lex (.out .word) s
    else if c = dollarByte ∨ c = backquoteByte then none
    else if c = backslashByte then lex .doubleEscaped s
    else putLetter (c, true) (lex .double s)
  | .doubleEscaped, c :: s =>
    if c = newlineByte then lex .double s
    else if isShEscapable c then putLetter (c, true) (lex .double s)
    else putLetter (backslashByte, true) (putLetter (c, true) (lex .double s))

/-! ### Commands -/

namespace ShWord

/-- The word after quote removal. -/
def text (w : ShWord) : List UInt8 := w.map Prod.fst

/-- A word that is written without quotes. -/
def ofText (s : List UInt8) : ShWord := s.map fun c => (c, false)

/-- The word is a pattern for file names. -/
def isPattern (w : ShWord) : Bool :=
  w.contains (0x2A, false) || w.contains (0x3F, false) ||
    (w.dropWhile (· != (0x5B, false))).contains (0x5D, false)

/-- The word begins with a tilde prefix. -/
def isTilde (w : ShWord) : Bool := w.head? == some (0x7E, false)

def isNameByte (c : UInt8) : Bool :=
  (0x41 ≤ c && c ≤ 0x5A) || (0x61 ≤ c && c ≤ 0x7A) || c == 0x5F

/-- The word assigns a variable: a name and an equals sign, both without quotes. -/
def isAssignment (w : ShWord) : Bool :=
  let name : ShWord := w.takeWhile (· != (0x3D, false))
  w.contains (0x3D, false) && name.all (fun x => !x.2) && (name.text.head?.any isNameByte) &&
    name.text.all fun c => isNameByte c || (0x30 ≤ c && c ≤ 0x39)

/-- The reserved words; the first two are braces. -/
def reserved : List (List UInt8) :=
  [[0x7B], [0x7D]] ++ ["!", "case", "do", "done", "elif", "else", "esac", "fi", "for", "if", "in", "then", "until",
    "while"].map ascii

/-- The special built-in utilities, and those that are about the shell itself. -/
def builtins : List (List UInt8) :=
  ["break", ":", "continue", ".", "eval", "exec", "exit", "export", "readonly", "return", "set", "shift", "times",
    "trap", "unset", "alias", "bg", "cd", "command", "fc", "fg", "getopts", "hash", "jobs", "kill", "read",
    "type", "ulimit", "umask", "unalias", "wait"].map ascii

/-- `exec`, which runs its operands in place of the shell. -/
def execWord : ShWord := ofText (ascii "exec")

end ShWord

/-- The texts of words. -/
def texts (ws : List ShWord) : List (List UInt8) := ws.map ShWord.text

/-- The words are a program and its arguments, and nothing that the shell does itself. -/
def SimpleCommand (ws : List ShWord) : Bool :=
  ws.all (fun w => !w.isPattern && !w.isTilde) &&
    match ws with
    | [] => false
    | w :: ws =>
      if w = ShWord.execWord then ws.head?.any fun v => v.text.head? != some 0x2D
      else !w.isAssignment && !(ShWord.reserved.map ShWord.ofText).contains w && !ShWord.builtins.contains w.text

/-- The program and its arguments. -/
def argvOf (ws : List ShWord) : List (List UInt8) :=
  if ws.head? = some ShWord.execWord then texts ws.tail else texts ws

/-- The words of a command string. -/
def shellWords (cmd : List UInt8) : Option (List ShWord) := lex (.out .start) cmd

/-- The arguments that a shell runs for a command string; none unless this is all that it does. -/
def shellCommand (cmd : List UInt8) : Option (List (List UInt8)) :=
  (shellWords cmd).bind fun ws => if SimpleCommand ws then some (argvOf ws) else none

/-! ### What reaches the words -/

section Lexing

variable {st : LexState} {o : LexPlace} {s : List UInt8} {b c : UInt8} {x : Letter} {w y : ShWord}
  {ws : List ShWord} {r : Option (List ShWord)}

theorem lex_out_blank (hc : isShBlank c = true) (o : LexPlace) (s : List UInt8) :
    lex (.out o) (c :: s) = o.close (lex (.out o.blank) s) := by rw [lex, if_pos hc]

theorem lex_out_newline (o : LexPlace) (s : List UInt8) :
    lex (.out o) (newlineByte :: s) = o.close (lex (.out o.newline) s) := by
  rw [lex, if_neg (by decide), if_pos rfl]

theorem putLetter_eq_some :
    putLetter x r = some ws ↔ ∃ w ws', r = some (w :: ws') ∧ ws = (x :: w) :: ws' := by
  constructor
  · intro h
    cases r with
    | none => cases h
    | some l =>
      cases l with
      | nil => cases h
      | cons w ws' => exact ⟨w, ws', rfl, (some.inj h).symm⟩
  · rintro ⟨w, ws', rfl, rfl⟩
    rfl

theorem close_eq_some (h : o.close r = some ws) :
    ∃ ws', r = some ws' ∧ (texts ws).flatten = (texts ws').flatten := by
  unfold LexPlace.close at h
  split_ifs at h
  · obtain ⟨ws', hr, rfl⟩ := map_eq_some_iff.1 h
    exact ⟨ws', hr, rfl⟩
  · exact ⟨ws, h, rfl⟩

@[simp] theorem flatten_put (x : Letter) (w : ShWord) (ws : List ShWord) :
    (texts ((x :: w) :: ws)).flatten = x.1 :: (texts (w :: ws)).flatten := rfl

/-- The bytes that the shell takes away. -/
def isShTaken (b : UInt8) : Bool :=
  isShBlank b || [newlineByte, singleQuote, doubleQuote, backslashByte].contains b

theorem count_cons_of_taken (hb : isShTaken b = false) (hc : isShTaken c = true) (s : List UInt8) :
    (c :: s).count b = s.count b := by
  apply count_cons_of_ne
  rintro rfl
  rw [hb] at hc
  cases hc

theorem count_lex (hb : isShTaken b = false) (h : lex st s = some ws) : (texts ws).flatten.count b = s.count b := by
  have hback : b ≠ backslashByte := by
    rintro rfl
    cases hb
  induction s generalizing st ws with
  | nil =>
    cases st with
    | out o =>
      rw [lex] at h
      obtain ⟨ws', hws, hflat⟩ := close_eq_some h
      rw [hflat, ← some.inj hws]
      rfl
    | escaped o => cases h
    | single => cases h
    | double => cases h
    | doubleEscaped => cases h
  | cons c s ih =>
    have hput : ∀ {x st'}, x.1 = c → putLetter x (lex st' s) = some ws →
        (texts ws).flatten.count b = (c :: s).count b := by
      rintro x st' rfl hx
      obtain ⟨w, ws', hl, rfl⟩ := putLetter_eq_some.1 hx
      rw [flatten_put, count_cons, count_cons, ih hl]
    have htaken : ∀ {st'}, isShTaken c = true → lex st' s = some ws →
        (texts ws).flatten.count b = (c :: s).count b := by
      intro st' hc hl
      rw [count_cons_of_taken hb hc, ih hl]
    have hclose : ∀ {o st'}, isShTaken c = true → LexPlace.close o (lex st' s) = some ws →
        (texts ws).flatten.count b = (c :: s).count b := by
      intro o st' hc hl
      obtain ⟨ws', hws, hflat⟩ := close_eq_some hl
      rw [count_cons_of_taken hb hc, hflat, ih hws]
    cases st with
    | out o =>
      rw [lex] at h
      split_ifs at h with h1 h2 h3 h4 h5 h6 h7
      · exact hclose (by simp [isShTaken, h1]) h
      · exact hclose (by simp [isShTaken, h2]) h
      · exact htaken (by simp [isShTaken, h3]) h
      · exact htaken (by simp [isShTaken, h6]) h
      · exact htaken (by simp [isShTaken, h7]) h
      · exact hput rfl h
    | escaped o =>
      rw [lex] at h
      split_ifs at h with h1
      · exact htaken (by simp [isShTaken, h1]) h
      · exact hput rfl h
    | single =>
      rw [lex] at h
      split_ifs at h with h1
      · exact htaken (by simp [isShTaken, h1]) h
      · exact hput rfl h
    | double =>
      rw [lex] at h
      split_ifs at h with h1 h2 h3
      · exact htaken (by simp [isShTaken, h1]) h
      · exact htaken (by simp [isShTaken, h3]) h
      · exact hput rfl h
    | doubleEscaped =>
      rw [lex] at h
      split_ifs at h with h1
      · exact htaken (by simp [isShTaken, h1]) h
      · exact hput rfl h
      · obtain ⟨w, ws', hl, rfl⟩ := putLetter_eq_some.1 h
        obtain ⟨w', ws'', hl', he⟩ := putLetter_eq_some.1 hl
        obtain ⟨rfl, rfl⟩ := List.cons.inj he
        rw [flatten_put, flatten_put, count_cons_of_ne hback.symm, count_cons, count_cons, ih hl']

/-- The backslashes that a state still owes to the word. -/
def LexState.owes : LexState → ℕ
  | .doubleEscaped => 1
  | _ => 0

/-- The number of backslashes in words. -/
def backslashes (ws : List ShWord) : ℕ := (texts ws).flatten.count backslashByte

theorem backslashes_put_of_ne (hx : x.1 ≠ backslashByte) (w : ShWord) (ws : List ShWord) :
    backslashes ((x :: w) :: ws) = backslashes (w :: ws) := by
  unfold backslashes
  rw [flatten_put, count_cons_of_ne hx]

theorem count_lex_backslash (h : lex st s = some ws) : backslashes ws ≤ s.count backslashByte + st.owes := by
  induction s generalizing st ws with
  | nil =>
    cases st with
    | out o =>
      rw [lex] at h
      obtain ⟨ws', hws, hflat⟩ := close_eq_some h
      unfold backslashes
      rw [hflat, ← some.inj hws]
      exact Nat.zero_le _
    | escaped o => cases h
    | single => cases h
    | double => cases h
    | doubleEscaped => cases h
  | cons c s ih =>
    have hput : ∀ {x st'}, x.1 = c → st'.owes = 0 → putLetter x (lex st' s) = some ws →
        backslashes ws ≤ (c :: s).count backslashByte := by
      rintro x st' rfl howes hx
      obtain ⟨w, ws', hl, rfl⟩ := putLetter_eq_some.1 hx
      have hle := ih hl
      unfold backslashes at hle ⊢
      rw [flatten_put, count_cons, count_cons]
      omega
    have hmono : s.count backslashByte ≤ (c :: s).count backslashByte := by
      rw [count_cons]
      omega
    have hclose : ∀ {o st'}, st'.owes = 0 → LexPlace.close o (lex st' s) = some ws →
        backslashes ws ≤ s.count backslashByte := by
      intro o st' howes hl
      obtain ⟨ws', hws, hflat⟩ := close_eq_some hl
      have hle := ih hws
      unfold backslashes at hle ⊢
      rw [hflat]
      omega
    cases st with
    | out o =>
      rw [lex] at h
      split_ifs at h with h1 h2 h3 h4 h5 h6 h7
      · exact Nat.le_trans (hclose rfl h) hmono
      · exact Nat.le_trans (hclose rfl h) hmono
      · exact Nat.le_trans (ih h) hmono
      · exact Nat.le_trans (ih h) hmono
      · exact Nat.le_trans (ih h) hmono
      · exact hput rfl rfl h
    | escaped o =>
      rw [lex] at h
      split_ifs at h with h1
      · exact Nat.le_trans (ih h) hmono
      · exact hput rfl rfl h
    | single =>
      rw [lex] at h
      split_ifs at h with h1
      · exact Nat.le_trans (ih h) hmono
      · exact hput rfl rfl h
    | double =>
      rw [lex] at h
      split_ifs at h with h1 h2 h3
      · exact Nat.le_trans (ih h) hmono
      · have hle := ih h
        rw [h3, count_cons_self]
        exact hle
      · exact hput rfl rfl h
    | doubleEscaped =>
      rw [lex] at h
      simp only [LexState.owes]
      split_ifs at h with h1
      · exact Nat.le_trans (ih h) (Nat.le_trans hmono (Nat.le_succ _))
      · exact Nat.le_trans (hput rfl rfl h) (Nat.le_succ _)
      · obtain ⟨w, ws', hl, rfl⟩ := putLetter_eq_some.1 h
        obtain ⟨w', ws'', hl', he⟩ := putLetter_eq_some.1 hl
        obtain ⟨rfl, rfl⟩ := List.cons.inj he
        have hle := ih hl'
        unfold backslashes at hle ⊢
        rw [flatten_put, flatten_put, count_cons_self, count_cons, count_cons]
        simp only at hle ⊢
        simp only [LexState.owes, Nat.add_zero] at hle
        split_ifs <;> omega

/-! ### Quoted text -/

/-- A letter is in progress. -/
def LexState.inWord : LexState → Bool
  | .out o => o = .word
  | .escaped o => o = .word
  | _ => true

theorem lex_ne_nil (hst : st.inWord = true) (h : lex st s = some ws) : ws ≠ [] := by
  have hput : ∀ {x r}, putLetter x r = some ws → ws ≠ [] := by
    intro x r hx
    obtain ⟨w, ws', -, rfl⟩ := putLetter_eq_some.1 hx
    exact cons_ne_nil _ _
  have hclose : ∀ {o r}, o = .word → LexPlace.close o r = some ws → ws ≠ [] := by
    rintro o r rfl hx
    obtain ⟨ws', -, rfl⟩ := map_eq_some_iff.1 hx
    exact cons_ne_nil _ _
  induction s generalizing st with
  | nil =>
    cases st with
    | out o => exact hclose (of_decide_eq_true hst) h
    | escaped o => cases h
    | single => cases h
    | double => cases h
    | doubleEscaped => cases h
  | cons c s ih =>
    cases st with
    | out o =>
      have ho : o = .word := of_decide_eq_true hst
      rw [lex] at h
      split_ifs at h
      · exact hclose ho h
      · exact hclose ho h
      · have hesc : (LexState.escaped o).inWord = true := hst
        exact ih hesc h
      · exact ih rfl h
      · exact ih rfl h
      · exact hput h
    | escaped o =>
      rw [lex] at h
      split_ifs at h
      · have hout : (LexState.out o).inWord = true := hst
        exact ih hout h
      · exact hput h
    | single =>
      rw [lex] at h
      split_ifs at h
      · exact ih rfl h
      · exact hput h
    | double =>
      rw [lex] at h
      split_ifs at h
      · exact ih rfl h
      · exact ih rfl h
      · exact hput h
    | doubleEscaped =>
      rw [lex] at h
      split_ifs at h
      · exact ih rfl h
      · exact hput h
      · exact hput h

/-- The letters of a quoted text. -/
def quotedWord (c : List UInt8) : ShWord := c.map fun b => (b, true)

@[simp] theorem text_quotedWord_append (c : List UInt8) (y : ShWord) :
    ShWord.text (quotedWord c ++ y) = c ++ y.text := by
  simp [ShWord.text, quotedWord, Function.comp_def]

@[simp] theorem text_quotedWord (c : List UInt8) : ShWord.text (quotedWord c) = c := by
  simp [ShWord.text, quotedWord, Function.comp_def]

/-- **Single quotes**: a text without another one, and then the rest of the word. -/
theorem lex_single_eq_some (h : lex .single s = some ws) :
    ∃ c r y ws', s = c ++ singleQuote :: r ∧ singleQuote ∉ c ∧ ws = (quotedWord c ++ y) :: ws' ∧
      lex (.out .word) r = some (y :: ws') := by
  induction s generalizing ws with
  | nil => cases h
  | cons b s ih =>
    rw [lex] at h
    split_ifs at h with hb
    · obtain ⟨y, ws', rfl⟩ := exists_cons_of_ne_nil (lex_ne_nil rfl h)
      exact ⟨[], s, y, ws', by rw [hb]; rfl, by simp, rfl, h⟩
    · obtain ⟨w, ws', hl, rfl⟩ := putLetter_eq_some.1 h
      obtain ⟨c, r, y, ws'', rfl, hc, he, hr⟩ := ih hl
      obtain ⟨rfl, rfl⟩ := List.cons.inj he
      refine ⟨b :: c, r, y, ws', rfl, ?_, rfl, hr⟩
      rw [mem_cons, not_or]
      exact ⟨Ne.symm hb, hc⟩

theorem lex_single_append {c r : List UInt8} (hc : singleQuote ∉ c)
    (h : lex (.out .word) r = some (y :: ws)) :
    lex .single (c ++ singleQuote :: r) = some ((quotedWord c ++ y) :: ws) := by
  induction c with
  | nil =>
    rw [nil_append, lex, if_pos rfl, h]
    rfl
  | cons b c ih =>
    rw [mem_cons, not_or] at hc
    rw [cons_append, lex, if_neg (Ne.symm hc.1), ih hc.2]
    rfl

/-- A text that double quotes keep as it is. -/
inductive DoubleText : List UInt8 → Prop
  | nil : DoubleText []
  | plain {b : UInt8} {c : List UInt8} (hb : isShEscapable b = false) (hc : DoubleText c) : DoubleText (b :: c)
  /-- a backslash stays where it quotes nothing -/
  | backslash {b : UInt8} {c : List UInt8} (hb : isShEscapable b = false) (hn : b ≠ newlineByte) (hc : DoubleText c) :
    DoubleText (backslashByte :: b :: c)

theorem isShEscapable_eq_false : isShEscapable b = false ↔
    b ≠ dollarByte ∧ b ≠ backquoteByte ∧ b ≠ doubleQuote ∧ b ≠ backslashByte := by
  simp [isShEscapable]

theorem DoubleText.not_mem {c : List UInt8} (h : DoubleText c) : doubleQuote ∉ c := by
  induction h with
  | nil => exact not_mem_nil
  | plain hb _ ih =>
    rw [mem_cons, not_or]
    exact ⟨(isShEscapable_eq_false.1 hb).2.2.1.symm, ih⟩
  | backslash hb _ _ ih =>
    rw [mem_cons, mem_cons, not_or, not_or]
    exact ⟨by decide, (isShEscapable_eq_false.1 hb).2.2.1.symm, ih⟩

theorem lex_double_append {c r : List UInt8} (hc : DoubleText c)
    (h : lex (.out .word) r = some (y :: ws)) :
    lex .double (c ++ doubleQuote :: r) = some ((quotedWord c ++ y) :: ws) := by
  induction hc with
  | nil =>
    rw [nil_append, lex, if_pos rfl, h]
    rfl
  | plain hb _ ih =>
    obtain ⟨h1, h2, h3, h4⟩ := isShEscapable_eq_false.1 hb
    rw [cons_append, lex, if_neg h3, if_neg (by rw [not_or]; exact ⟨h1, h2⟩), if_neg h4, ih]
    rfl
  | backslash hb hn _ ih =>
    rw [cons_append, cons_append, lex, if_neg (by decide), if_neg (by decide), if_pos rfl, lex, if_neg hn,
      if_neg (by rw [hb]; decide), ih]
    rfl

/-- **Double quotes** with no backslash taken away: a text that they keep, and then the rest of the word. -/
theorem lex_double_eq_some (h : lex .double s = some ws) (hkeep : s.count backslashByte ≤ backslashes ws) :
    ∃ c r y ws', s = c ++ doubleQuote :: r ∧ DoubleText c ∧ ws = (quotedWord c ++ y) :: ws' ∧
      lex (.out .word) r = some (y :: ws') := by
  generalize hn : s.length = n
  induction n using Nat.strong_induction_on generalizing s ws with
  | _ n ih =>
    cases s with
    | nil => cases h
    | cons b s =>
      rw [lex] at h
      split_ifs at h with h1 h2 h3
      · obtain ⟨y, ws', rfl⟩ := exists_cons_of_ne_nil (lex_ne_nil rfl h)
        exact ⟨[], s, y, ws', by rw [h1]; rfl, .nil, rfl, h⟩
      · -- the backslash stays, so it quotes nothing
        cases s with
        | nil => cases h
        | cons d s =>
          rw [lex] at h
          rw [h3, count_cons_self] at hkeep
          split_ifs at h with h4 h5
          · have hle := count_lex_backslash h
            have hd : d ≠ backslashByte := by
              rw [h4]
              decide
            rw [count_cons_of_ne hd] at hkeep
            simp only [LexState.owes, Nat.add_zero] at hle
            exact absurd hkeep (Nat.not_le.2 (Nat.lt_succ_of_le hle))
          · obtain ⟨w, ws', hl, rfl⟩ := putLetter_eq_some.1 h
            have hle := count_lex_backslash hl
            unfold backslashes at hkeep hle
            rw [flatten_put, count_cons, count_cons] at hkeep
            simp only [LexState.owes, Nat.add_zero] at hle hkeep
            exact absurd hkeep (by omega)
          · obtain ⟨w, ws', hl, rfl⟩ := putLetter_eq_some.1 h
            obtain ⟨w, ws'', hl, he⟩ := putLetter_eq_some.1 hl
            obtain ⟨rfl, rfl⟩ := List.cons.inj he
            rw [Bool.not_eq_true] at h5
            have hd : d ≠ backslashByte := (isShEscapable_eq_false.1 h5).2.2.2
            unfold backslashes at hkeep
            rw [flatten_put, flatten_put, count_cons_self, count_cons_of_ne hd, count_cons_of_ne hd]
              at hkeep
            have hlt : s.length < n := by
              rw [← hn, length_cons, length_cons]
              omega
            obtain ⟨c, r, y, ws'', rfl, hc, he, hr⟩ := ih s.length hlt hl (Nat.le_of_succ_le_succ hkeep) rfl
            obtain ⟨rfl, rfl⟩ := List.cons.inj he
            exact ⟨backslashByte :: d :: c, r, y, ws', by rw [h3]; rfl, .backslash h5 h4 hc, rfl, hr⟩
      · obtain ⟨w, ws', hl, rfl⟩ := putLetter_eq_some.1 h
        have hb : b ≠ backslashByte := h3
        rw [backslashes_put_of_ne hb, count_cons_of_ne hb] at hkeep
        obtain ⟨c, r, y, ws'', rfl, hc, he, hr⟩ := ih s.length (by rw [← hn]; exact Nat.lt_succ_self _) hl hkeep rfl
        obtain ⟨rfl, rfl⟩ := List.cons.inj he
        rw [not_or] at h2
        exact ⟨b :: c, r, y, ws', rfl, .plain (isShEscapable_eq_false.2 ⟨h2.1, h2.2, h1, h3⟩) hc, rfl, hr⟩

/-! ### Runs of letters -/

/-- A letter that stands for itself outside of quotes. -/
def isShPlain (c : UInt8) : Bool :=
  !isShTaken c && !isShSpecial c

theorem isShTaken_eq_false : isShTaken b = false ↔ isShBlank b = false ∧ b ≠ newlineByte ∧ b ≠ singleQuote ∧
    b ≠ doubleQuote ∧ b ≠ backslashByte := by
  simp [isShTaken]

theorem isShPlain_iff : isShPlain b = true ↔ isShBlank b = false ∧ b ≠ newlineByte ∧ b ≠ singleQuote ∧
    b ≠ doubleQuote ∧ b ≠ backslashByte ∧ isShSpecial b = false := by
  rw [isShPlain, Bool.and_eq_true, Bool.not_eq_true', Bool.not_eq_true', isShTaken_eq_false]
  simp only [and_assoc]

theorem lex_word_plain (hc : isShPlain c = true) (s : List UInt8) :
    lex (.out .word) (c :: s) = putLetter (c, false) (lex (.out .word) s) := by
  obtain ⟨h1, h2, h3, h4, h5, h6⟩ := isShPlain_iff.1 hc
  rw [lex, if_neg (by rw [h1]; decide), if_neg h2, if_neg h5, if_neg (by decide), if_neg (by simp), if_neg h3,
    if_neg h4, if_neg (by rw [h6]; decide)]

theorem keeps_of_put {q : Bool} (h : (c :: s).count backslashByte ≤ backslashes (((c, q) :: w) :: ws)) :
    s.count backslashByte ≤ backslashes (w :: ws) := by
  unfold backslashes at h ⊢
  rw [flatten_put, count_cons, count_cons] at h
  simp only at h
  omega

theorem not_keeps_escaped (h : lex (.escaped o) s = some ws) :
    ¬ (backslashByte :: s).count backslashByte ≤ backslashes ws := by
  have hle := count_lex_backslash h
  rw [count_cons_self]
  simp only [LexState.owes] at hle
  omega

theorem quotes_nothing (h : isShBlank c = true ∨ c = newlineByte ∨ isShPlain c = true) :
    c ≠ singleQuote ∧ isShEscapable c = false := by
  rcases h with h | rfl | h
  · unfold isShBlank at h
    rw [Bool.or_eq_true, beq_iff_eq, beq_iff_eq] at h
    rcases h with rfl | rfl <;> decide
  · decide
  · obtain ⟨-, -, h3, h4, h5, h6⟩ := isShPlain_iff.1 h
    refine ⟨h3, isShEscapable_eq_false.2 ⟨?_, ?_, h4, h5⟩⟩
    · rintro rfl
      cases h6
    · rintro rfl
      cases h6

/-- In the middle of a word, and not behind a backslash outside of quotes. -/
def LexState.inText : LexState → Bool
  | .out o => o = .word
  | .escaped _ => false
  | _ => true

section Runs

variable {p : UInt8 → Bool} {u rest : List UInt8}

/-- **A run of letters that begins in quotes** does not read as itself and the quote before it: the closing
quote is missing in what is read, or the word goes on behind the end of the run.  Here `p` says where another
reader ends its words. -/
theorem lex_run (hblank : ∀ c, isShBlank c = true ∨ c = newlineByte → p c = true)
    (hplain : ∀ c, p c = true → isShBlank c = true ∨ c = newlineByte ∨ isShPlain c = true)
    (hst : st.inText = true) (hu : ∀ c ∈ u, p c = false)
    (hrest : ∀ c ∈ rest.head?, p c = true) (h : lex st (u ++ rest) = some (w :: ws))
    (hkeep : (u ++ rest).count backslashByte + st.owes ≤ backslashes (w :: ws)) :
    (∃ c ∈ w.text, p c = true) ∨ w.length ≤ u.length + st.owes := by
  induction u generalizing st w with
  | nil =>
    rw [nil_append] at h hkeep
    cases rest with
    | nil =>
      cases st with
      | out o =>
        obtain rfl : o = .word := of_decide_eq_true hst
        obtain ⟨rfl, -⟩ := List.cons.inj (some.inj h)
        exact .inr (Nat.le_refl _)
      | escaped o => cases h
      | single => cases h
      | double => cases h
      | doubleEscaped => cases h
    | cons c r =>
      have hpc : p c = true := hrest c rfl
      have hkind := hplain c hpc
      obtain ⟨hsingle, hescapable⟩ := quotes_nothing hkind
      obtain ⟨h1, h2, h3, h4⟩ := isShEscapable_eq_false.1 hescapable
      -- the word goes on with `c`
      have hput : ∀ {x : Letter} {r'}, x.1 = c → putLetter x r' = some (w :: ws) → ∃ c ∈ w.text, p c = true := by
        rintro x r' rfl hx
        obtain ⟨w', ws', -, he⟩ := putLetter_eq_some.1 hx
        obtain ⟨rfl, -⟩ := List.cons.inj he
        exact ⟨x.1, mem_cons_self, hpc⟩
      cases st with
      | out o =>
        obtain rfl : o = .word := of_decide_eq_true hst
        have hclose : ∀ {r' : Option (List ShWord)}, r'.map ([] :: ·) = some (w :: ws) → w = [] := by
          intro r' hx
          obtain ⟨ws', -, he⟩ := map_eq_some_iff.1 hx
          exact (List.cons.inj he).1.symm
        rcases hkind with hb | hn | hp
        · rw [lex, if_pos hb] at h
          obtain rfl := hclose h
          exact .inr (Nat.zero_le _)
        · rw [lex, if_neg (by rw [hn]; decide), if_pos hn] at h
          obtain rfl := hclose h
          exact .inr (Nat.zero_le _)
        · rw [lex_word_plain hp] at h
          exact .inl (hput rfl h)
      | escaped o => cases hst
      | single =>
        rw [lex, if_neg hsingle] at h
        exact .inl (hput rfl h)
      | double =>
        rw [lex, if_neg h3, if_neg (by rw [not_or]; exact ⟨h1, h2⟩), if_neg h4] at h
        exact .inl (hput rfl h)
      | doubleEscaped =>
        rw [lex] at h
        split_ifs at h with hn hx
        · have hle := count_lex_backslash h
          rw [count_cons_of_ne h4] at hkeep
          simp only [LexState.owes] at hle hkeep
          omega
        · rw [hescapable] at hx
          cases hx
        · obtain ⟨w', ws', hl, he⟩ := putLetter_eq_some.1 h
          obtain ⟨rfl, -⟩ := List.cons.inj he
          obtain ⟨w'', ws'', -, he⟩ := putLetter_eq_some.1 hl
          obtain ⟨rfl, -⟩ := List.cons.inj he
          exact .inl ⟨c, mem_cons_of_mem _ mem_cons_self, hpc⟩
  | cons c u ih =>
    rw [cons_append] at h hkeep
    rw [forall_mem_cons] at hu
    have hno : ¬ (isShBlank c = true ∨ c = newlineByte) := by
      intro hb
      rw [hblank c hb] at hu
      cases hu.1
    rw [not_or] at hno
    -- a letter that stays
    have hput : ∀ {x : Letter} {st'}, x.1 = c → st'.inText = true → st'.owes = 0 →
        (c :: (u ++ rest)).count backslashByte ≤ backslashes (w :: ws) →
        putLetter x (lex st' (u ++ rest)) = some (w :: ws) →
        (∃ c ∈ w.text, p c = true) ∨ w.length ≤ u.length + 1 := by
      rintro x st' rfl hst' howes hk hx
      obtain ⟨w', ws', hl, he⟩ := putLetter_eq_some.1 hx
      obtain ⟨rfl, rfl⟩ := List.cons.inj he
      rcases ih hst' hu.2 hl (by rw [howes]; exact keeps_of_put hk) with ⟨d, hd, hpd⟩ | hle
      · exact .inl ⟨d, mem_cons_of_mem _ hd, hpd⟩
      · rw [howes] at hle
        exact .inr (Nat.succ_le_succ hle)
    have hmono : (u ++ rest).count backslashByte ≤ (c :: (u ++ rest)).count backslashByte := by
      rw [count_cons]
      omega
    -- a quote that is taken away
    have hquote : ∀ {st'}, st'.inText = true → st'.owes = 0 →
        (c :: (u ++ rest)).count backslashByte ≤ backslashes (w :: ws) → lex st' (u ++ rest) = some (w :: ws) →
        (∃ c ∈ w.text, p c = true) ∨ w.length ≤ u.length + 1 := by
      intro st' hst' howes hk hl
      rcases ih hst' hu.2 hl (by rw [howes]; exact Nat.le_trans hmono hk) with hd | hle
      · exact .inl hd
      · rw [howes] at hle
        exact .inr (Nat.le_succ_of_le hle)
    rw [length_cons]
    cases st with
    | out o =>
      obtain rfl : o = .word := of_decide_eq_true hst
      rw [lex, if_neg hno.1, if_neg hno.2] at h
      split_ifs at h with h1
      · rw [h1] at hkeep
        exact absurd hkeep (not_keeps_escaped h)
      · exact hquote rfl rfl hkeep h
      · exact hquote rfl rfl hkeep h
      · exact hput rfl rfl rfl hkeep h
    | escaped o => cases hst
    | single =>
      rw [lex] at h
      split_ifs at h with h1
      · exact hquote rfl rfl hkeep h
      · exact hput rfl rfl rfl hkeep h
    | double =>
      rw [lex] at h
      split_ifs at h with h1 h2 h3
      · exact hquote rfl rfl hkeep h
      · rw [h3, count_cons_self] at hkeep
        rcases ih rfl hu.2 h hkeep with hd | hle
        · exact .inl hd
        · exact .inr hle
      · exact hput rfl rfl rfl hkeep h
    | doubleEscaped =>
      rw [lex, if_neg hno.2] at h
      simp only [LexState.owes] at hkeep ⊢
      split_ifs at h with h1
      · obtain ⟨w', ws', hl, he⟩ := putLetter_eq_some.1 h
        obtain ⟨rfl, rfl⟩ := List.cons.inj he
        have hle := count_lex_backslash hl
        unfold backslashes at hkeep hle
        rw [flatten_put, count_cons, count_cons] at hkeep
        simp only [LexState.owes, Nat.add_zero] at hle hkeep
        exact absurd hkeep (by omega)
      · obtain ⟨w', ws', hl, he⟩ := putLetter_eq_some.1 h
        obtain ⟨rfl, rfl⟩ := List.cons.inj he
        obtain ⟨w'', ws'', hl, he⟩ := putLetter_eq_some.1 hl
        obtain ⟨rfl, rfl⟩ := List.cons.inj he
        have hk : (u ++ rest).count backslashByte + LexState.double.owes ≤ backslashes (w'' :: ws) := by
          unfold backslashes at hkeep ⊢
          rw [flatten_put, flatten_put, count_cons, count_cons, count_cons] at hkeep
          simp only [LexState.owes, Nat.add_zero, beq_self_eq_true, if_true] at hkeep ⊢
          omega
        rcases ih rfl hu.2 hl hk with ⟨d, hd, hpd⟩ | hle
        · exact .inl ⟨d, mem_cons_of_mem _ (mem_cons_of_mem _ hd), hpd⟩
        · simp only [LexState.owes, Nat.add_zero] at hle
          exact .inr (Nat.succ_le_succ (Nat.succ_le_succ hle))

theorem lex_run_eq (hblank : ∀ c, isShBlank c = true ∨ c = newlineByte → p c = true)
    (hplain : ∀ c, p c = true → isShBlank c = true ∨ c = newlineByte ∨ isShPlain c = true)
    (hu : ∀ c ∈ u, p c = false) (hrest : ∀ c ∈ rest.head?, p c = true)
    (h : lex (.out .word) (u ++ rest) = some (w :: ws))
    (hkeep : (u ++ rest).count backslashByte ≤ backslashes (w :: ws)) (he : w.text = u) :
    (∀ c ∈ u, isShPlain c = true) ∧ lex (.out .word) rest = some ([] :: ws) := by
  induction u generalizing w with
  | nil =>
    obtain rfl : w = [] := map_eq_nil_iff.1 he
    exact ⟨fun c hc => absurd hc not_mem_nil, h⟩
  | cons c u ih =>
    have hhead : p c = false := hu c mem_cons_self
    have htail : ∀ d ∈ u, p d = false := fun d hd => hu d (mem_cons_of_mem _ hd)
    have hlen : w.length = u.length + 1 := by
      rw [← length_cons, ← he]
      exact (length_map ..).symm
    have hno : ¬ (isShBlank c = true ∨ c = newlineByte) := by
      intro hb
      rw [hblank c hb] at hhead
      cases hhead
    rw [not_or] at hno
    -- what begins with a quote is read as something else
    have hquote : ∀ {st'}, st'.inText = true → st'.owes = 0 →
        lex st' (u ++ rest) ≠ some (w :: ws) := by
      intro st' hst howes hl
      have hk : (u ++ rest).count backslashByte + st'.owes ≤ backslashes (w :: ws) := by
        rw [cons_append, count_cons] at hkeep
        omega
      rcases lex_run hblank hplain hst htail hrest hl hk with ⟨d, hd, hpd⟩ | hle
      · rw [he] at hd
        rw [hu d hd] at hpd
        cases hpd
      · omega
    have hread := h
    rw [cons_append, lex, if_neg hno.1, if_neg hno.2] at hread
    split_ifs at hread with h1 h2 h3 h4 h5 h6
    · rw [h1] at hkeep
      exact absurd hkeep (not_keeps_escaped hread)
    · exact absurd hread (hquote rfl rfl)
    · exact absurd hread (hquote rfl rfl)
    · have hc : isShPlain c = true := by
        rw [Bool.not_eq_true] at hno h6
        exact isShPlain_iff.2 ⟨hno.1, hno.2, h4, h5, h1, h6⟩
      obtain ⟨w', ws', hl, hw⟩ := putLetter_eq_some.1 hread
      obtain ⟨rfl, rfl⟩ := List.cons.inj hw
      rw [cons_append] at hkeep
      obtain ⟨hall, hrest'⟩ := ih htail hl (keeps_of_put hkeep) (List.cons.inj he).2
      exact ⟨forall_mem_cons.2 ⟨hc, hall⟩, hrest'⟩

end Runs

theorem lex_word_append {u rest : List UInt8} (hu : ∀ c ∈ u, isShPlain c = true)
    (h : lex (.out .word) rest = some (y :: ws)) :
    lex (.out .word) (u ++ rest) = some ((ShWord.ofText u ++ y) :: ws) := by
  induction u with
  | nil => exact h
  | cons c u ih =>
    rw [forall_mem_cons] at hu
    rw [cons_append, lex_word_plain hu.1, ih hu.2]
    rfl

@[simp] theorem text_ofText (c : List UInt8) : ShWord.text (ShWord.ofText c) = c := by
  simp [ShWord.text, ShWord.ofText, Function.comp_def]

@[simp] theorem texts_cons (w : ShWord) (ws : List ShWord) : texts (w :: ws) = w.text :: texts ws := rfl

theorem lex_out_eq_word (ho : o ≠ .done) (hb : isShBlank c = false) (hn : c ≠ newlineByte)
    (hback : c ≠ backslashByte) (hhash : c ≠ hashByte) (s : List UInt8) :
    lex (.out o) (c :: s) = lex (.out .word) (c :: s) := by
  simp only [lex, hb, hn, hback, ho, hhash, if_false, Bool.false_eq_true, false_and, reduceCtorEq]

end Lexing

end Ridux.Lib
