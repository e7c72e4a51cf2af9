import Mathlib.Data.List.Induction
import Ridux.Lib.Circular
import Ridux.Lib.Edit
import Ridux.Text

/-!
# The lines of the terminal

* `Termios`, `TtyDevice`;
* `ttyInputChar`, `ttyRead`;
* `Termios.keyOf`: what a character is to the editor of lines;
* `TtyRun`: characters typed and reads, in any order;
* `canonical_lines_delivered`: the reads deliver the finished lines exactly as long as every line finds
  room in the ring when it is finished.
-/

namespace Ridux

open Lib List

/-- `termios_t`, without the speeds. -/
structure Termios where
  iflag : BitVec 32
  oflag : BitVec 32
  cflag : BitVec 32
  lflag : BitVec 32
  cc : List UInt8

namespace Termios

/-- `ISIG`, `ICANON` and `ICRNL`. -/
def isig (t : Termios) : Bool := t.lflag &&& 0x01 != 0

def icanon (t : Termios) : Bool := t.lflag &&& 0x02 != 0

def icrnl (t : Termios) : Bool := t.iflag &&& 0x100 != 0

/-- `c_cc` at `VINTR`, `VQUIT`, `VERASE`, `VKILL`, `VEOF` and `VSUSP`. -/
def vintr (t : Termios) : UInt8 := t.cc.getD 0 0

def vquit (t : Termios) : UInt8 := t.cc.getD 1 0

def verase (t : Termios) : UInt8 := t.cc.getD 2 0

def vkill (t : Termios) : UInt8 := t.cc.getD 3 0

def veof (t : Termios) : UInt8 := t.cc.getD 4 0

def vsusp (t : Termios) : UInt8 := t.cc.getD 10 0

/-- The settings of `tty_init`. -/
def init : Termios where
  iflag := 0x500
  oflag := 0x05
  cflag := 0xB0
  lflag := 0x803B
  cc := [3, 28, 127, 21, 4, 0, 1, 0, 17, 19, 26] ++ List.replicate 21 0

/-- The signal of a character: `SIGINT`, `SIGQUIT` or `SIGTSTP`. -/
def signalOf (t : Termios) (c : UInt8) : Option ℕ :=
  if t.isig then
    if c = t.vintr then some 2 else if c = t.vquit then some 3 else if c = t.vsusp then some 20 else none
  else none

/-- A return is a newline, when the settings say so. -/
def mapChar (t : Termios) (c : UInt8) : UInt8 := if t.icrnl ∧ c = 13 then 10 else c

end Termios

/-- The size of `input_buf`, and the characters that `line_buf` takes. -/
def ttyBufSize : ℕ := 4096

def ttyLineMax : ℕ := 4095

/-- `tty_device_t`; `line` is `line_buf` up to `line_len`. -/
structure TtyDevice where
  tio : Termios
  input : Circular UInt8 ttyBufSize
  line : Bytes
  fgPgid : ℤ

namespace TtyDevice

/-- `tty_input_char` with `ICANON`, for a character that is no signal. -/
def canonChar (tty : TtyDevice) (c : UInt8) : TtyDevice :=
  if c = tty.tio.verase then { tty with line := tty.line.dropLast }
  else if c = tty.tio.vkill then { tty with line := [] }
  else if c = 10 ∨ c = tty.tio.veof then
    let input := Circular.fill tty.line tty.input
    { tty with input := if c = 10 then input.offer 10 else input, line := [] }
  else if tty.line.length < ttyLineMax then { tty with line := tty.line ++ [c] }
  else tty

/-- `tty_input_char`; the first part is the `sig_send`, with its target. -/
def ttyInputChar (tty : TtyDevice) (c : UInt8) : Option (ℤ × ℕ) × TtyDevice :=
  match tty.tio.signalOf c with
  | some sig => (some (-tty.fgPgid, sig), tty)
  | none =>
    let c := tty.tio.mapChar c
    (none, if tty.tio.icanon then tty.canonChar c else { tty with input := tty.input.offer c })

def ttyRead (tty : TtyDevice) (count : ℕ) : Bytes × TtyDevice :=
  ((tty.input.drain count).1, { tty with input := (tty.input.drain count).2 })

end TtyDevice

/-- What a character is to the editor of lines; `eof` is what `VEOF` does. -/
def Termios.keyOf (t : Termios) (eof : Key UInt8) (c : UInt8) : Key UInt8 :=
  if (t.signalOf c).isSome then .idle
  else
    let c := t.mapChar c
    if c = t.verase then .erase
    else if c = t.vkill then .kill
    else if c = 10 then .finish [10]
    else if c = t.veof then eof
    else .put c

/-! ### Runs -/

/-- A character is typed, or `tty_read` is called. -/
inductive TtyOp
  | input (c : UInt8)
  | read (count : ℕ)

/-- The characters that were typed. -/
def typed (ops : List TtyOp) : Bytes := ops.filterMap fun op =>
  match op with
  | .input c => some c
  | .read _ => none

/-- The device, and everything that reads have returned. -/
structure TtyRun where
  tty : TtyDevice
  returned : Bytes

namespace TtyRun

/-- Nothing has been typed. -/
def start (tio : Termios) : TtyRun := ⟨⟨tio, ⟨fun _ => 0, 0, 0⟩, [], 1⟩, []⟩

def exec (s : TtyRun) : TtyOp → TtyRun
  | .input c => { s with tty := (s.tty.ttyInputChar c).2 }
  | .read count => ⟨(s.tty.ttyRead count).2, s.returned ++ (s.tty.ttyRead count).1⟩

def run (s : TtyRun) (ops : List TtyOp) : TtyRun := ops.foldl exec s

/-- The reads have returned the first bytes of `done`, and a read returns the next ones. -/
def Delivers (s : TtyRun) (done : Bytes) : Prop :=
  ∃ rest, done = s.returned ++ rest ∧ ∀ count, (s.tty.ttyRead count).1 = rest.take count

/-- What a character finishes finds room in the ring. -/
def Fits (s : TtyRun) : TtyOp → Prop
  | .input c => (Edit.finished s.tty.line (s.tty.tio.keyOf (.finish []) c)).length ≤ s.tty.input.room
  | .read _ => True

instance (s : TtyRun) (op : TtyOp) : Decidable (s.Fits op) :=
  match op with
  | .input _ => inferInstanceAs (Decidable (_ ≤ _))
  | .read _ => inferInstanceAs (Decidable True)

/-- Every line finds room when it is finished. -/
def LinesFit : TtyRun → List TtyOp → Prop
  | _, [] => True
  | s, op :: ops => s.Fits op ∧ LinesFit (s.exec op) ops

end TtyRun

/-- The lines that characters make, with room for `cap` of them in a line. -/
def ttyLines (tio : Termios) (cap : ℕ∞) (eof : Key UInt8) (cs : Bytes) : Edit UInt8 :=
  Edit.edited cap (cs.map (tio.keyOf eof))

/-! ### One character -/

variable {tty : TtyDevice}

theorem contents_fill_offer {cap : ℕ} {q : Circular UInt8 cap} (h : q.Ok) (line : Bytes) (c : UInt8) :
    ((Circular.fill line q).offer c).contents = q.contents ++ (line ++ [c]).take q.room := by
  have hroom : (Circular.fill line q).room = q.room - line.length := by
    rw [Circular.room_eq, h.contents_fill, length_append, length_take, Circular.room_eq]
    omega
  rw [(h.fill line).contents_offer, h.contents_fill, hroom, append_assoc, take_append]

/-- **What a character does to the line and to the ring.** -/
theorem TtyDevice.ttyInputChar_spec (hq : tty.input.Ok) (hcanon : tty.tio.icanon = true) (c : UInt8) :
    let key := tty.tio.keyOf (.finish []) c
    (tty.ttyInputChar c).2.tio = tty.tio ∧ (tty.ttyInputChar c).2.input.Ok ∧
      (tty.ttyInputChar c).2.line = ((Edit.mk [] tty.line).press ttyLineMax key).line ∧
      (tty.ttyInputChar c).2.input.contents =
        tty.input.contents ++ (Edit.finished tty.line key).take tty.input.room := by
  intro key
  unfold TtyDevice.ttyInputChar
  cases hsig : tty.tio.signalOf c with
  | some sig =>
    have hkey : key = .idle := by simp [key, Termios.keyOf, hsig]
    simp [hkey, hq, Edit.press, Edit.finished]
  | none =>
    dsimp only
    rw [if_pos hcanon]
    have hkey : key = tty.tio.keyOf (.finish []) c := rfl
    unfold Termios.keyOf at hkey
    rw [hsig, Option.isSome_none, if_neg Bool.false_ne_true] at hkey
    dsimp only at hkey
    unfold TtyDevice.canonChar
    generalize tty.tio.mapChar c = d at hkey ⊢
    -- the cases of the source, in its order
    by_cases herase : d = tty.tio.verase
    · rw [if_pos herase] at hkey ⊢
      simp [hkey, hq, Edit.press, Edit.finished]
    rw [if_neg herase] at hkey ⊢
    by_cases hkill : d = tty.tio.vkill
    · rw [if_pos hkill] at hkey ⊢
      simp [hkey, hq, Edit.press, Edit.finished]
    rw [if_neg hkill] at hkey ⊢
    by_cases hnl : d = 10
    · rw [if_pos hnl] at hkey
      rw [if_pos (.inl hnl), hkey]
      simp only [hnl, if_true]
      exact ⟨trivial, (hq.fill _).offer _, rfl, contents_fill_offer hq tty.line 10⟩
    rw [if_neg hnl] at hkey
    by_cases heof : d = tty.tio.veof
    · rw [if_pos heof] at hkey
      rw [if_pos (.inr heof), hkey]
      simp only [hnl, if_false, Edit.finished, append_nil]
      exact ⟨trivial, hq.fill _, rfl, hq.contents_fill tty.line⟩
    rw [if_neg heof] at hkey
    rw [if_neg (not_or.2 ⟨hnl, heof⟩), hkey]
    have hcast : ((tty.line.length : ℕ∞) < (ttyLineMax : ℕ∞)) ↔ tty.line.length < ttyLineMax :=
      Nat.cast_lt
    simp only [Edit.press, Edit.finished, hcast, take_nil, append_nil]
    split_ifs <;> simp [hq]

theorem TtyDevice.ttyRead_spec (hq : tty.input.Ok) (count : ℕ) :
    (tty.ttyRead count).1 = tty.input.contents.take count ∧
      (tty.ttyRead count).2.input.contents = tty.input.contents.drop count ∧
      (tty.ttyRead count).2.input.Ok :=
  ⟨(hq.drain_eq count).1, (hq.drain_eq count).2, hq.drain count⟩

/-! ### Whole runs -/

namespace TtyRun

variable {s : TtyRun} {tio : Termios} {e : Edit UInt8}

/-- What a run keeps, as long as the lines fit. -/
structure Follows (s : TtyRun) (tio : Termios) (e : Edit UInt8) : Prop where
  tio_eq : s.tty.tio = tio
  ok : s.tty.input.Ok
  line : s.tty.line = e.line
  done : s.returned ++ s.tty.input.contents = e.done

theorem delivers_iff (hq : s.tty.input.Ok) (done : Bytes) :
    s.Delivers done ↔ s.returned ++ s.tty.input.contents = done := by
  constructor
  · rintro ⟨rest, rfl, hread⟩
    have h := hread (s.tty.input.contents.length + rest.length)
    rw [(TtyDevice.ttyRead_spec hq _).1, take_of_length_le (by omega),
      take_of_length_le (by omega)] at h
    rw [h]
  · rintro rfl
    exact ⟨_, rfl, fun count => (TtyDevice.ttyRead_spec hq count).1⟩

/-- What one operation does to the finished lines. -/
def pressed (tio : Termios) (e : Edit UInt8) : TtyOp → Edit UInt8
  | .input c => e.press ttyLineMax (tio.keyOf (.finish []) c)
  | .read _ => e

/-- **One operation**: the lines are kept exactly when what it finishes fits. -/
theorem Follows.exec (h : s.Follows tio e) (hcanon : tio.icanon = true) (op : TtyOp) :
    (s.exec op).tty.input.Ok ∧
      (s.Fits op → (s.exec op).Follows tio (pressed tio e op)) ∧
      ((s.exec op).Delivers (pressed tio e op).done → s.Fits op) := by
  have htio := h.tio_eq
  cases op with
  | read count =>
    obtain ⟨hout, hrest, hok⟩ := TtyDevice.ttyRead_spec h.ok count
    refine ⟨hok, fun _ => ⟨htio, hok, h.line, ?_⟩, fun _ => trivial⟩
    show (s.returned ++ (s.tty.ttyRead count).1) ++ (s.tty.ttyRead count).2.input.contents = e.done
    rw [hout, hrest, append_assoc, take_append_drop, h.done]
  | input c =>
    obtain ⟨htio', hok, hline, hring⟩ := TtyDevice.ttyInputChar_spec h.ok (htio ▸ hcanon) c
    rw [htio] at htio' hline hring
    have hdone : (pressed tio e (.input c)).done = e.done ++
        Edit.finished s.tty.line (tio.keyOf (.finish []) c) := by
      rw [pressed, Edit.press_done, h.line]
    have hqueued : s.returned ++ (s.exec (.input c)).tty.input.contents = e.done ++
        (Edit.finished s.tty.line (tio.keyOf (.finish []) c)).take s.tty.input.room := by
      rw [← h.done, append_assoc]
      exact congrArg _ hring
    refine ⟨hok, fun hfits => ⟨htio', hok, ?_, ?_⟩, fun hdel => ?_⟩
    · exact hline.trans (Edit.press_line _ h.line _)
    · have hfits : (Edit.finished s.tty.line (tio.keyOf (.finish []) c)).length ≤
          s.tty.input.room := htio ▸ hfits
      rw [hdone, ← take_of_length_le hfits]
      exact hqueued
    · have heq := (delivers_iff hok _).1 hdel
      have hsame := append_cancel_left (hqueued.symm.trans (heq.trans hdone))
      show (Edit.finished s.tty.line (s.tty.tio.keyOf (.finish []) c)).length ≤ s.tty.input.room
      rw [htio, ← hsame, length_take]
      exact Nat.min_le_left _ _

/-- The lines after the operations of a list, from given ones on. -/
def pressedAll (tio : Termios) (e : Edit UInt8) (ops : List TtyOp) : Edit UInt8 :=
  ops.foldl (pressed tio) e

/-- **A run delivers its lines in every state exactly when every line fits.** -/
theorem Follows.run_iff (h : s.Follows tio e) (hcanon : tio.icanon = true) (ops : List TtyOp) :
    (∀ pre, pre <+: ops → (s.run pre).Delivers (pressedAll tio e pre).done) ↔ LinesFit s ops := by
  induction ops generalizing s e with
  | nil =>
    refine iff_of_true (fun pre hpre => ?_) trivial
    rw [prefix_nil.1 hpre]
    exact (delivers_iff h.ok _).2 h.done
  | cons op ops ih =>
    obtain ⟨hok, hkeep, honly⟩ := h.exec hcanon op
    constructor
    · intro hall
      have hfits : s.Fits op := honly (hall [op] (prefix_append [op] ops))
      refine ⟨hfits, (ih (hkeep hfits)).1 fun pre hpre => hall (op :: pre) ?_⟩
      exact cons_prefix_cons.2 ⟨rfl, hpre⟩
    · rintro ⟨hfits, hrest⟩ pre hpre
      cases pre with
      | nil => exact (delivers_iff h.ok _).2 h.done
      | cons op' pre =>
        obtain ⟨rfl, hpre'⟩ := cons_prefix_cons.1 hpre
        exact (ih (hkeep hfits)).2 hrest pre hpre'

theorem pressedAll_eq (tio : Termios) (ops : List TtyOp) :
    pressedAll tio ⟨[], []⟩ ops = ttyLines tio ttyLineMax (.finish []) (typed ops) := by
  unfold pressedAll ttyLines Edit.edited typed
  generalize (⟨[], []⟩ : Edit UInt8) = e
  induction ops generalizing e with
  | nil => rfl
  | cons op ops ih =>
    cases op with
    | input c => exact ih _
    | read count => exact ih _

theorem start_follows (tio : Termios) : (start tio).Follows tio ⟨[], []⟩ := by
  have hok : (start tio).tty.input.Ok := ⟨Nat.zero_lt_succ _, Nat.zero_lt_succ _⟩
  have hnil : (start tio).tty.input.contents = [] := hok.contents_eq_nil.2 rfl
  exact ⟨rfl, hok, rfl, by rw [hnil]; rfl⟩

end TtyRun

/-- **The reads deliver the finished lines, each when it is finished, as long as every line finds room
in the ring**: a line ends with its newline or with `VEOF`, and takes 4095 characters. -/
theorem canonical_lines_delivered (tio : Termios) (hcanon : tio.icanon = true) (ops : List TtyOp) :
    (∀ pre, pre <+: ops → ((TtyRun.start tio).run pre).Delivers
      (ttyLines tio ttyLineMax (.finish []) (typed pre)).done) ↔
      TtyRun.LinesFit (TtyRun.start tio) ops := by
  rw [← (TtyRun.start_follows tio).run_iff hcanon]
  simp only [TtyRun.pressedAll_eq]

/-- A line with a letter erased, read in two pieces. -/
def shortLine : List TtyOp :=
  [.input 97, .input 98, .read 3, .input 127, .input 10, .read 1, .read 5]

theorem canonical_lines_delivered_short : TtyRun.LinesFit (TtyRun.start .init) shortLine ∧
    ∀ pre, pre <+: shortLine → ((TtyRun.start .init).run pre).Delivers
      (ttyLines .init ttyLineMax (.finish []) (typed pre)).done := by
  have hfit : TtyRun.LinesFit (TtyRun.start .init) shortLine :=
    ⟨by decide, by decide, trivial, by decide, by decide, trivial, trivial, trivial⟩
  exact ⟨hfit, (canonical_lines_delivered .init (by decide) shortLine).2 hfit⟩

/-! ### Lines that are not delivered as they were typed -/

namespace TtyRun

/-- The reads deliver lines without a limit, each when its newline is typed. -/
def Exact (tio : Termios) (ops : List TtyOp) : Prop :=
  ∀ pre, pre <+: ops → ((start tio).run pre).Delivers (ttyLines tio ⊤ .idle (typed pre)).done

theorem typed_input (cs : Bytes) : typed (cs.map .input) = cs := by
  induction cs with
  | nil => rfl
  | cons c cs ih => exact congrArg (c :: ·) ih

theorem length_le_of_delivers {tio : Termios} (hcanon : tio.icanon = true) (cs : Bytes) {done : Bytes}
    (h : ((start tio).run (cs.map .input)).Delivers done) : done.length < ttyBufSize := by
  have hkeep : ((start tio).run (cs.map .input)).returned = [] ∧
      ((start tio).run (cs.map .input)).tty.tio = tio ∧
      ((start tio).run (cs.map .input)).tty.input.Ok := by
    clear h
    induction cs using List.reverseRecOn with
    | nil => exact ⟨rfl, rfl, (start_follows tio).ok⟩
    | append_singleton cs c ih =>
      obtain ⟨hret, htio, hok⟩ := ih
      rw [map_append, run, foldl_append]
      obtain ⟨htio', hok', -, -⟩ := TtyDevice.ttyInputChar_spec hok (htio.symm ▸ hcanon) c
      exact ⟨hret, htio'.trans htio, hok'⟩
  obtain ⟨hret, -, hok⟩ := hkeep
  rw [← (delivers_iff hok _).1 h, hret, nil_append, Circular.length_contents]
  exact hok.len_lt

theorem ttyLines_letters (n : ℕ) (cs : Bytes) :
    ttyLines .init ⊤ .idle (List.replicate n 97 ++ cs) =
      (cs.map (Termios.init.keyOf .idle)).foldl (Edit.press ⊤) ⟨[], List.replicate n 97⟩ := by
  have hkey : Termios.init.keyOf .idle 97 = .put 97 := rfl
  rw [ttyLines, Edit.edited, map_append, foldl_append, map_replicate, hkey]
  congr 1
  exact Edit.edited_put n le_top

end TtyRun

/-- An unfinished line is delivered at `VEOF`; a line that was too long for `line_buf` lost a letter,
also when it was made shorter again; and a line that finds the ring full is lost. -/
theorem tty_lines_not_exact :
    ¬ TtyRun.Exact .init (([97, 4] : Bytes).map .input) ∧
      ¬ TtyRun.Exact .init ((List.replicate 4096 97 ++ [127, 10] : Bytes).map .input) ∧
      ¬ TtyRun.Exact .init ((List.replicate 4094 97 ++ [10, 98, 10] : Bytes).map .input) := by
  refine ⟨fun h => ?_, fun h => ?_, fun h => ?_⟩
  · obtain ⟨rest, hdone, hread⟩ := h _ prefix_rfl
    have hnil := append_eq_nil_iff.1 hdone.symm
    have hfirst := hread 1
    rw [hnil.2] at hfirst
    revert hfirst
    decide
  · have hlt := TtyRun.length_le_of_delivers (by decide) _ (h _ prefix_rfl)
    rw [TtyRun.typed_input, TtyRun.ttyLines_letters] at hlt
    have herase : Termios.init.keyOf .idle 127 = .erase := rfl
    have hend : Termios.init.keyOf .idle 10 = .finish [10] := rfl
    simp only [map_cons, map_nil, herase, hend, foldl_cons, foldl_nil, Edit.press,
      length_append, length_dropLast, length_replicate, length_nil,
      length_singleton, ttyBufSize] at hlt
    omega
  · have hlt := TtyRun.length_le_of_delivers (by decide) _ (h _ prefix_rfl)
    rw [TtyRun.typed_input, TtyRun.ttyLines_letters] at hlt
    have hput : Termios.init.keyOf .idle 98 = .put 98 := rfl
    have hend : Termios.init.keyOf .idle 10 = .finish [10] := rfl
    simp only [map_cons, map_nil, hput, hend, foldl_cons, foldl_nil, Edit.press,
      ENat.natCast_lt_top, if_true, length_append, length_replicate, length_nil, length_singleton,
      ttyBufSize] at hlt
    omega

end Ridux
