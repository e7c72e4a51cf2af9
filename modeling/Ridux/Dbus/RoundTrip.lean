import Mathlib.Data.List.Infix
import Ridux.Dbus.Codec

/-!
# The wire codec round trip

What `dbusv_queue_message` builds is read back by `dbusv_parse_message`.

* `DbusvField`: a header field; `DbusvField.body` its bytes, `DbusvField.store` what it sets;
* `dbusvLayout`: fields one after the other, each at a multiple of eight;
* `dbusvBuild_roundTrip`: the message is read back, its strings cut to the parser's buffers.
-/

namespace Ridux

open DbusvWriter (pad)

/-- A header field. -/
inductive DbusvField
  | str (code stype : UInt8) (s : Bytes)
  | num (code : UInt8) (v : ℕ)
  | sig (code : UInt8) (s : Bytes)

namespace DbusvField

/-- The bytes of a field at a multiple of eight. -/
def body : DbusvField → Bytes
  | .str code stype s => [code, 1, stype, 0] ++ dbusvWrU32 s.length ++ s ++ [0]
  | .num code v => [code, 1, 0x75, 0] ++ dbusvWrU32 v
  | .sig code s => [code, 1, 0x67, 0, UInt8.ofNat (min s.length 255)] ++ s.take 255 ++ [0]

/-- What reading a field does to the message. -/
def store (f : DbusvField) (m : DbusvMsg) : DbusvMsg :=
  match f with
  | .str code _ s => m.setStr code (s.take 159)
  | .num code v => if code = 5 then { m with replySerial := v } else m
  | .sig code s => if code = 8 then { m with signature := strlcpy 48 (s.take 47) } else m

/-- What the parser can read. -/
def Fits : DbusvField → Prop
  | .str _ stype s => (stype = 0x73 ∨ stype = 0x6F) ∧ s.length < 2 ^ 32
  | .num _ v => v < 2 ^ 32
  | .sig _ _ => True

theorem body_length_pos (f : DbusvField) : 0 < f.body.length := by
  cases f <;> simp [body]

end DbusvField

/-- Fields one after the other, from an offset on. -/
def dbusvLayout : ℕ → List DbusvField → Bytes
  | _, [] => []
  | off, f :: fs =>
    pad 8 off ++ f.body ++ dbusvLayout (off + (pad 8 off).length + f.body.length) fs

variable {a : ℕ}

theorem dbusvAlign_eq (n : ℕ) (ha : 0 < a) : dbusvAlign n a = n + (pad a n).length := by
  have := dbusvAlign_ge n ha
  simp [pad]
  omega

theorem dvd_dbusvAlign (n a : ℕ) : a ∣ dbusvAlign n a := Nat.dvd_mul_left _ _

variable {k : ℕ} {w : DbusvWriter}

theorem dbusvAlign_add (ha : 0 < a) (h : a ∣ k) (n : ℕ) :
    dbusvAlign (k + n) a = k + dbusvAlign n a := by
  obtain ⟨c, rfl⟩ := h
  unfold dbusvAlign
  rw [Nat.add_assoc, Nat.mul_add_div ha, Nat.add_mul, Nat.mul_comm c]

theorem pad_add (ha : 0 < a) (h : a ∣ k) (n : ℕ) : pad a (k + n) = pad a n := by
  simp only [pad, dbusvAlign_add ha h]
  congr 1
  omega

theorem dbusvLayout_add (h : 8 ∣ k) (off : ℕ) (fs : List DbusvField) :
    dbusvLayout (k + off) fs = dbusvLayout off fs := by
  induction fs generalizing off with
  | nil => rfl
  | cons f fs ih => simp only [dbusvLayout, pad_add (by decide : 0 < 8) h, Nat.add_assoc, ih]

/-! ### The writer -/

namespace DbusvWriter

variable {w : DbusvWriter} {s : Bytes}

theorem bytes_ok (h : (w.bytes s).ok) : w.ok ∧ (w.bytes s).buf = w.buf ++ s := by
  unfold bytes at h ⊢
  split_ifs at h ⊢ with h1 h2
  · simp [h] at h1
  · exact ⟨h, rfl⟩

theorem align_ok (h : (w.align a).ok) :
    w.ok ∧ (w.align a).buf = w.buf ++ pad a w.pos := bytes_ok h

theorem u8_ok {v : UInt8} (h : (w.u8 v).ok) :
    w.ok ∧ (w.u8 v).buf = w.buf ++ [v] := bytes_ok h

theorem u32_ok {v : ℕ} (h : (w.u32 v).ok) :
    w.ok ∧ (w.u32 v).buf = w.buf ++ dbusvWrU32 v := bytes_ok h

/-- A writer that has not run over its buffer. -/
def Within (w : DbusvWriter) : Prop := w.pos ≤ w.cap ∧ w.cap = 2048

theorem bytes_within (s : Bytes) (h : w.Within) : (w.bytes s).Within := by
  obtain ⟨hp, hc⟩ := h
  unfold bytes
  split_ifs with h1 h2
  · exact ⟨hp, hc⟩
  · exact ⟨hp, hc⟩
  · refine ⟨?_, hc⟩
    simp only [pos, List.length_append] at h2 ⊢
    omega

theorem cstr_ok (h : (w.cstr s).ok) :
    w.ok ∧ (w.cstr s).buf = w.buf ++ (pad 4 w.pos ++ dbusvWrU32 s.length ++ s ++ [0]) := by
  obtain ⟨h1, e1⟩ := u8_ok h
  obtain ⟨h2, e2⟩ := bytes_ok h1
  obtain ⟨h3, e3⟩ := u32_ok h2
  obtain ⟨h4, e4⟩ := align_ok h3
  refine ⟨h4, e1.trans ?_⟩
  rw [e2, e3, e4]
  simp only [List.append_assoc]

theorem sig_ok (h : (w.sig s).ok) :
    w.ok ∧ (w.sig s).buf = w.buf ++ ([UInt8.ofNat (min s.length 255)] ++ s.take 255 ++ [0]) := by
  have hl : (if s.length > 255 then 255 else s.length) = min s.length 255 := by
    split_ifs <;> omega
  have ht : s.take (min s.length 255) = s.take 255 := by rw [List.take_eq_take_iff]; omega
  unfold sig at h ⊢
  simp only [hl, ht] at h ⊢
  obtain ⟨h1, e1⟩ := u8_ok h
  obtain ⟨h2, e2⟩ := bytes_ok h1
  obtain ⟨h3, e3⟩ := u8_ok h2
  refine ⟨h3, e1.trans ?_⟩
  rw [e2, e3]
  simp only [List.append_assoc]

theorem head_ok {code t : UInt8} (h : (((w.align 8).u8 code).sig [t]).ok) :
    w.ok ∧ (((w.align 8).u8 code).sig [t]).buf = w.buf ++ (pad 8 w.pos ++ [code, 1, t, 0]) ∧
      pad 4 (((w.align 8).u8 code).sig [t]).pos = [] := by
  obtain ⟨h1, e1⟩ := sig_ok h
  obtain ⟨h2, e2⟩ := u8_ok h1
  obtain ⟨h3, e3⟩ := align_ok h2
  have e : (((w.align 8).u8 code).sig [t]).buf = w.buf ++ (pad 8 w.pos ++ [code, 1, t, 0]) := by
    rw [e1, e2, e3]
    simp
  refine ⟨h3, e, ?_⟩
  -- four bytes behind a multiple of eight
  have hp : (((w.align 8).u8 code).sig [t]).pos = dbusvAlign w.pos 8 + 4 := by
    rw [dbusvAlign_eq w.pos (by decide : 0 < 8), pos, e]
    simp [pos]
    omega
  have hd : 4 ∣ dbusvAlign w.pos 8 := Nat.dvd_trans (by decide) (dvd_dbusvAlign w.pos 8)
  rw [hp, pad_add (by decide) hd]
  rfl

end DbusvWriter

namespace DbusvField

/-- The call that writes a field. -/
def add (f : DbusvField) (w : DbusvWriter) : DbusvWriter :=
  match f with
  | .str code stype s => w.fieldAddStr code s stype
  | .num code v => w.fieldAddU32 code v
  | .sig code s => w.fieldAddSig code s

theorem add_within {w : DbusvWriter} (f : DbusvField) (h : w.Within) : (f.add w).Within := by
  cases f <;>
    simp only [add, DbusvWriter.fieldAddStr, DbusvWriter.fieldAddU32, DbusvWriter.fieldAddSig,
      DbusvWriter.cstr, DbusvWriter.sig, DbusvWriter.u8, DbusvWriter.u32, DbusvWriter.align] <;>
    repeat' apply DbusvWriter.bytes_within
  all_goals exact h

theorem add_ok {w : DbusvWriter} {f : DbusvField} (h : (f.add w).ok) :
    w.ok ∧ (f.add w).buf = w.buf ++ (pad 8 w.pos ++ f.body) := by
  cases f with
  | str code stype s =>
    obtain ⟨h1, e1⟩ := DbusvWriter.cstr_ok h
    obtain ⟨h2, e2, hp⟩ := DbusvWriter.head_ok h1
    refine ⟨h2, e1.trans ?_⟩
    rw [e2, hp]
    simp [body]
  | num code v =>
    obtain ⟨h1, e1⟩ := DbusvWriter.u32_ok h
    obtain ⟨h2, e2⟩ := DbusvWriter.align_ok h1
    obtain ⟨h3, e3, hp⟩ := DbusvWriter.head_ok h2
    refine ⟨h3, e1.trans ?_⟩
    rw [e2, e3, hp]
    simp [body]
  | sig code s =>
    obtain ⟨h1, e1⟩ := DbusvWriter.sig_ok h
    obtain ⟨h2, e2, -⟩ := DbusvWriter.head_ok h1
    refine ⟨h2, e1.trans ?_⟩
    rw [e2]
    simp [body]

end DbusvField

/-- Writing fields one after the other. -/
def dbusvAddAll (fs : List DbusvField) (w : DbusvWriter) : DbusvWriter :=
  fs.foldl (fun w f => f.add w) w

theorem dbusvAddAll_within (fs : List DbusvField) (h : w.Within) : (dbusvAddAll fs w).Within := by
  induction fs generalizing w with
  | nil => exact h
  | cons f fs ih => exact ih (f.add_within h)

variable {fs : List DbusvField} {f : DbusvField} {pkt : Bytes}

theorem dbusvAddAll_ok (h : (dbusvAddAll fs w).ok) :
    w.ok ∧ (dbusvAddAll fs w).buf = w.buf ++ dbusvLayout w.pos fs := by
  induction fs generalizing w with
  | nil => exact ⟨h, by simp [dbusvAddAll, dbusvLayout]⟩
  | cons f fs ih =>
    obtain ⟨h1, e1⟩ := ih (w := f.add w) h
    obtain ⟨h2, e2⟩ := DbusvField.add_ok h1
    refine ⟨h2, e1.trans ?_⟩
    rw [DbusvWriter.pos, e2]
    simp [dbusvLayout, DbusvWriter.pos, Nat.add_assoc]

/-! ### The reader -/

theorem dbusvRdU32_wrU32 {v : ℕ} (h : v < 2 ^ 32) (post : Bytes) :
    dbusvRdU32 (dbusvWrU32 v ++ post) 0 true = v := by
  simp [dbusvRdU32, dbusvWrU32, byteAt]
  omega

theorem slice_clamp (pre s post : Bytes) (cap : ℕ) (hc : 0 < cap) :
    slice (pre ++ (s ++ post)) pre.length (clampLen cap s.length) = s.take (cap - 1) := by
  have e := slice_shift pre (s ++ post) 0 (clampLen cap s.length)
  rw [Nat.add_zero] at e
  rw [e, slice, List.drop_zero, List.take_append_of_le_length (clampLen_le _ _),
    List.take_eq_take_iff]
  unfold clampLen
  split_ifs <;> omega

section Read

variable {fe : ℕ} (code t : UInt8) (post : Bytes)

theorem dbusvReadSig_head (h : 4 ≤ fe) :
    dbusvReadSig ([code, 1, t, 0] ++ post) fe (0 + 1) 8 = some ([t], 4) := by
  have h1 : ¬(0 + 1 + 1 > fe) := by omega
  have h2 : ¬(0 + 1 + 1 + 1 + 1 > fe) := by omega
  unfold dbusvReadSig
  simp [byteAt, slice, clampLen, h1, h2]

theorem dbusvReadCstr_body {s : Bytes} (hs : s.length < 2 ^ 32) (h : 8 + s.length + 1 ≤ fe) :
    dbusvReadCstr ([code, 1, t, 0] ++ (dbusvWrU32 s.length ++ (s ++ ([0] ++ post)))) fe 4 true 160 =
      some (s.take 159, 8 + s.length + 1) := by
  have e : dbusvRdU32 ([code, 1, t, 0] ++ (dbusvWrU32 s.length ++ (s ++ ([0] ++ post)))) 4 true =
      s.length := (dbusvRdU32_shift [code, 1, t, 0] _ 0 true).trans (dbusvRdU32_wrU32 hs _)
  have es := slice_clamp ([code, 1, t, 0] ++ dbusvWrU32 s.length) s ([0] ++ post) 160 (by decide)
  rw [List.append_assoc] at es
  have ha : dbusvAlign 4 4 = 4 := rfl
  unfold dbusvReadCstr
  simp only [ha, e]
  rw [if_neg (by omega), if_neg (by omega)]
  exact congrArg some (Prod.ext es rfl)

theorem dbusvReadSig_body (s : Bytes) (h : 5 + min s.length 255 + 1 ≤ fe) :
    dbusvReadSig ([code, 1, t, 0, UInt8.ofNat (min s.length 255)] ++ (s.take 255 ++ ([0] ++ post)))
      fe 4 48 = some (s.take 47, 5 + min s.length 255 + 1) := by
  have hb : (byteAt ([code, 1, t, 0, UInt8.ofNat (min s.length 255)] ++
      (s.take 255 ++ ([0] ++ post))) 4).toNat = min s.length 255 := by
    show (UInt8.ofNat (min s.length 255)).toNat = min s.length 255
    exact UInt8.toNat_ofNat_of_lt' (show min s.length 255 < 256 by omega)
  have hl : (s.take 255).length = min s.length 255 := by simp [Nat.min_comm]
  have es := slice_clamp [code, 1, t, 0, UInt8.ofNat (min s.length 255)] (s.take 255)
    ([0] ++ post) 48 (by decide)
  rw [hl, List.take_take] at es
  unfold dbusvReadSig
  rw [if_neg (by omega)]
  simp only [hb]
  rw [if_neg (by omega)]
  exact congrArg some (Prod.ext es rfl)

theorem dbusvReadU32_body {v : ℕ} (hv : v < 2 ^ 32) (h : 8 ≤ fe) :
    dbusvReadU32 ([code, 1, t, 0] ++ (dbusvWrU32 v ++ post)) fe 4 true = some (v, 8) := by
  have e : dbusvRdU32 ([code, 1, t, 0] ++ (dbusvWrU32 v ++ post)) 4 true = v :=
    (dbusvRdU32_shift [code, 1, t, 0] _ 0 true).trans (dbusvRdU32_wrU32 hv _)
  have ha : dbusvAlign 4 4 = 4 := rfl
  unfold dbusvReadU32
  simp only [ha]
  rw [if_neg (by omega)]
  exact congrArg some (Prod.ext e rfl)

theorem dbusvReadField_head (h : 4 ≤ fe) (m : DbusvMsg) :
    dbusvReadField ([code, 1, t, 0] ++ post) fe 0 m =
      dbusvReadValue ([code, 1, t, 0] ++ post) fe code t 4 m := by
  unfold dbusvReadField
  rw [dbusvReadSig_head code t post h]
  rfl

end Read

theorem dbusvReadField_body (hf : f.Fits) (post : Bytes) {fe : ℕ} (h : f.body.length ≤ fe)
    {m : DbusvMsg} (hm : m.le = true) :
    dbusvReadField (f.body ++ post) fe 0 m = some (f.store m, f.body.length) := by
  cases f with
  | str code stype s =>
    obtain ⟨ht, hs⟩ := hf
    have hl : (DbusvField.str code stype s).body.length = 8 + s.length + 1 := by
      simp [DbusvField.body, dbusvWrU32]
      omega
    have hb : (DbusvField.str code stype s).body ++ post =
        [code, 1, stype, 0] ++ (dbusvWrU32 s.length ++ (s ++ ([0] ++ post))) := by
      simp [DbusvField.body]
    rw [hl] at h ⊢
    rw [hb, dbusvReadField_head _ _ _ (by omega), dbusvReadValue, if_pos ht, hm,
      dbusvReadCstr_body code stype post hs h]
    rfl
  | num code v =>
    have hl : (DbusvField.num code v).body.length = 8 := rfl
    have hb : (DbusvField.num code v).body ++ post =
        [code, 1, 0x75, 0] ++ (dbusvWrU32 v ++ post) := by
      simp [DbusvField.body]
    rw [hl] at h ⊢
    have e := dbusvReadU32_body code 0x75 post hf h
    rw [← hm] at e
    rw [hb, dbusvReadField_head _ _ _ (by omega), dbusvReadValue, if_neg (by decide),
      if_neg (by decide), if_pos rfl]
    exact congrArg (Option.map _) e
  | sig code s =>
    have hl : (DbusvField.sig code s).body.length = 5 + min s.length 255 + 1 := by
      simp [DbusvField.body, Nat.min_comm]
      omega
    have hb : (DbusvField.sig code s).body ++ post =
        [code, 1, 0x67, 0, UInt8.ofNat (min s.length 255)] ++ (s.take 255 ++ ([0] ++ post)) := by
      simp [DbusvField.body]
    have e := dbusvReadSig_body code 0x67 post s (hl ▸ h)
    rw [hl] at h ⊢
    rw [hb]
    change dbusvReadField ([code, 1, 0x67, 0] ++ _) fe 0 m = _
    rw [dbusvReadField_head _ _ _ (by omega), dbusvReadValue, if_neg (by decide), if_pos rfl]
    exact congrArg (Option.map _) e

/-! ### Reading at an offset -/

section Shift

variable (pre b : Bytes) {fe : ℕ}

theorem dbusvReadSig_shift (off cap : ℕ) :
    dbusvReadSig (pre ++ b) (pre.length + fe) (pre.length + off) cap =
      (dbusvReadSig b fe off cap).map fun r => (r.1, pre.length + r.2) := by
  unfold dbusvReadSig
  simp only [Nat.add_assoc, byteAt_shift, slice_shift, gt_iff_lt, Nat.add_lt_add_iff_left]
  split_ifs <;> rfl

theorem dbusvReadCstr_shift (h : 8 ∣ pre.length) (off : ℕ) (le : Bool) (cap : ℕ) :
    dbusvReadCstr (pre ++ b) (pre.length + fe) (pre.length + off) le cap =
      (dbusvReadCstr b fe off le cap).map fun r => (r.1, pre.length + r.2) := by
  have h4 : 4 ∣ pre.length := Nat.dvd_trans (by decide) h
  unfold dbusvReadCstr
  simp only [dbusvAlign_add (by decide : 0 < 4) h4, Nat.add_assoc, dbusvRdU32_shift, slice_shift,
    gt_iff_lt, Nat.add_lt_add_iff_left]
  split_ifs <;> rfl

theorem dbusvReadU32_shift (h : 8 ∣ pre.length) (off : ℕ) (le : Bool) :
    dbusvReadU32 (pre ++ b) (pre.length + fe) (pre.length + off) le =
      (dbusvReadU32 b fe off le).map fun r => (r.1, pre.length + r.2) := by
  have h4 : 4 ∣ pre.length := Nat.dvd_trans (by decide) h
  unfold dbusvReadU32
  simp only [dbusvAlign_add (by decide : 0 < 4) h4, Nat.add_assoc, dbusvRdU32_shift,
    gt_iff_lt, Nat.add_lt_add_iff_left]
  split_ifs <;> rfl

theorem dbusvReadField_shift (h : 8 ∣ pre.length) (off : ℕ) (m : DbusvMsg) :
    dbusvReadField (pre ++ b) (pre.length + fe) (pre.length + off) m =
      (dbusvReadField b fe off m).map fun r => (r.1, pre.length + r.2) := by
  unfold dbusvReadField
  rw [Nat.add_assoc, dbusvReadSig_shift, byteAt_shift]
  cases dbusvReadSig b fe (off + 1) 8 with
  | none => rfl
  | some r =>
    simp only [Option.map_some, dbusvReadValue, dbusvReadSig_shift, dbusvReadCstr_shift _ _ h,
      dbusvReadU32_shift _ _ h, Option.map_map]
    split_ifs <;> simp only [Option.map_map, Function.comp_def, Option.map_none]

end Shift

theorem DbusvField.store_le (f : DbusvField) (m : DbusvMsg) : (f.store m).le = m.le := by
  cases f <;> simp only [store, DbusvMsg.setStr] <;> split_ifs <;> rfl

theorem dbusvParseFields_layout (hfs : ∀ f ∈ fs, f.Fits) (pre post : Bytes) {m : DbusvMsg}
    (hm : m.le = true) :
    dbusvParseFields (pre ++ (dbusvLayout pre.length fs ++ post))
      (pre.length + (dbusvLayout pre.length fs).length) pre.length m =
        some (fs.foldl (fun m f => f.store m) m) := by
  induction fs generalizing pre m with
  | nil =>
    rw [dbusvParseFields_end]
    · rfl
    · exact dbusvAlign_ge _ (by decide)
  | cons f fs ih =>
    have hp := f.body_length_pos
    have ha := dbusvAlign_eq pre.length (by decide : 0 < 8)
    have ha' : dbusvAlign pre.length 8 = (pre ++ pad 8 pre.length).length + 0 := by
      simp [ha]
    set rest := dbusvLayout (pre.length + (pad 8 pre.length).length + f.body.length) fs with hr
    have hl : (dbusvLayout pre.length (f :: fs)).length =
        (pad 8 pre.length).length + f.body.length + rest.length := by
      simp [dbusvLayout, hr, Nat.add_assoc]
    have hfe : pre.length + (dbusvLayout pre.length (f :: fs)).length =
        (pre ++ pad 8 pre.length).length + (f.body.length + rest.length) := by
      rw [hl, List.length_append]
      omega
    have hbuf : pre ++ (dbusvLayout pre.length (f :: fs) ++ post) =
        (pre ++ pad 8 pre.length) ++ (f.body ++ (rest ++ post)) := by
      simp [dbusvLayout, hr]
    have hd : 8 ∣ (pre ++ pad 8 pre.length).length := by
      have := dvd_dbusvAlign pre.length 8
      rwa [ha', Nat.add_zero] at this
    have hread := dbusvReadField_body (hfs f (by simp)) (rest ++ post)
      (Nat.le_add_right f.body.length rest.length) hm
    -- the fields behind `f` start where its bytes end
    have hnext := ih (fun g hg => hfs g (by simp [hg])) (pre ++ pad 8 pre.length ++ f.body)
      (m := f.store m) ((f.store_le m).trans hm)
    have hlen : (pre ++ pad 8 pre.length ++ f.body).length =
        pre.length + (pad 8 pre.length).length + f.body.length := by simp [Nat.add_assoc]
    rw [hlen, ← hr] at hnext
    rw [dbusvParseFields_step (by rw [hl, ha]; omega), hbuf, hfe, ha', dbusvReadField_shift _ _ hd,
      hread, Option.map_some, Option.bind_some]
    rw [List.foldl_cons, ← hnext]
    congr 1
    · simp
    · rw [List.length_append]; omega
    · rw [List.length_append]

/-! ### The fields of a message -/

/-- A string field, when it is there. -/
def dbusvOptField (code : UInt8) (s : Bytes) (stype : UInt8) : List DbusvField :=
  if s ≠ [] then [.str code stype s] else []

/-- The header fields of a message in the order they are written. -/
def DbusvOut.fields (m : DbusvOut) : List DbusvField :=
  dbusvOptField 1 m.path 0x6F ++ dbusvOptField 2 m.iface 0x73 ++ dbusvOptField 3 m.member 0x73 ++
    dbusvOptField 4 m.errName 0x73 ++
    (if m.replySerial ≠ 0 then [.num 5 m.replySerial.toNat] else []) ++
    dbusvOptField 6 m.dest 0x73 ++ dbusvOptField 7 m.sender 0x73 ++
    (if m.sig.val ≠ [] then [.sig 8 m.sig] else [])

theorem dbusvAddAll_append (fs gs : List DbusvField) (w : DbusvWriter) :
    dbusvAddAll (fs ++ gs) w = dbusvAddAll gs (dbusvAddAll fs w) := List.foldl_append

theorem dbusvAddAll_opt (code : UInt8) (s : Bytes) (stype : UInt8) (w : DbusvWriter) :
    dbusvAddAll (dbusvOptField code s stype) w = dbusvOptStr code s stype w := by
  unfold dbusvOptField dbusvOptStr
  split_ifs <;> rfl

theorem dbusvFields_eq (m : DbusvOut) : dbusvFields m = dbusvAddAll m.fields (.init 2048) := by
  simp only [DbusvOut.fields, dbusvAddAll_append, dbusvAddAll_opt]
  unfold dbusvFields
  split_ifs <;> rfl

theorem dbusvLayout_length (h : f ∈ fs) (off : ℕ) :
    f.body.length ≤ (dbusvLayout off fs).length := by
  induction fs generalizing off with
  | nil => simp at h
  | cons g fs ih =>
    simp only [dbusvLayout, List.length_append]
    rcases List.mem_cons.1 h with rfl | h
    · omega
    · exact (ih h _).trans (Nat.le_add_left _ _)

theorem DbusvOut.fields_fit (m : DbusvOut) (h : (dbusvLayout 0 m.fields).length ≤ 2048) :
    ∀ f ∈ m.fields, f.Fits := by
  have hopt : ∀ {code stype : UInt8} {s : Bytes}, stype = 0x73 ∨ stype = 0x6F →
      ∀ f ∈ dbusvOptField code s stype, f.body.length ≤ 2048 → f.Fits := by
    intro code stype s ht f hf hl
    unfold dbusvOptField at hf
    split_ifs at hf
    · obtain rfl := List.mem_singleton.1 hf
      refine ⟨ht, ?_⟩
      simp only [DbusvField.body, List.length_append] at hl
      omega
    · simp at hf
  intro f hf
  have hl := (dbusvLayout_length hf 0).trans h
  simp only [DbusvOut.fields, List.mem_append, or_assoc] at hf
  rcases hf with hf | hf | hf | hf | hf | hf | hf | hf
  · exact hopt (.inr rfl) f hf hl
  · exact hopt (.inl rfl) f hf hl
  · exact hopt (.inl rfl) f hf hl
  · exact hopt (.inl rfl) f hf hl
  · split_ifs at hf
    · obtain rfl := List.mem_singleton.1 hf
      exact m.replySerial.toNat_lt
    · simp at hf
  · exact hopt (.inl rfl) f hf hl
  · exact hopt (.inl rfl) f hf hl
  · split_ifs at hf
    · obtain rfl := List.mem_singleton.1 hf
      trivial
    · simp at hf

/-- Reading the fields back, string by string. -/
def DbusvOut.readBack (m : DbusvOut) (r : DbusvMsg) : DbusvMsg where
  le := r.le
  type := r.type
  flags := r.flags
  version := r.version
  serial := r.serial
  replySerial := m.replySerial.toNat
  bodyLen := r.bodyLen
  bodyOff := r.bodyOff
  msgLen := r.msgLen
  body := r.body
  path := strlcpy 160 (m.path.val.take 159)
  iface := strlcpy 160 (m.iface.val.take 159)
  member := strlcpy 160 (m.member.val.take 159)
  dest := strlcpy 160 (m.dest.val.take 159)
  sender := strlcpy 160 (m.sender.val.take 159)
  errName := strlcpy 160 (m.errName.val.take 159)
  signature := strlcpy 48 (m.sig.val.take 47)

theorem store_opt (code : UInt8) (s : Bytes) (stype : UInt8) (r : DbusvMsg)
    (h : r.setStr code [] = r) :
    (dbusvOptField code s stype).foldl (fun m f => f.store m) r = r.setStr code (s.take 159) := by
  unfold dbusvOptField
  split_ifs with hs
  · rfl
  · rw [not_not.1 hs]
    exact h.symm

theorem strlcpy_take (s : CString) {cap : ℕ} (h : k ≤ cap - 1) :
    strlcpy cap (s.val.take k) = s.val.take k := by
  rw [strlcpy_of_not_mem (zero_not_mem_take s.2 k), List.take_take, Nat.min_eq_right h]

theorem DbusvOut.fields_store (m : DbusvOut) (buf : Bytes) :
    m.fields.foldl (fun r f => f.store r) (dbusvHead buf) = m.readBack (dbusvHead buf) := by
  have hr : ∀ r : DbusvMsg, r.replySerial = 0 →
      (if m.replySerial ≠ 0 then [DbusvField.num 5 m.replySerial.toNat] else []).foldl
        (fun r f => f.store r) r = { r with replySerial := m.replySerial.toNat } := by
    intro r h0
    split_ifs with h
    · rfl
    · rw [not_not.1 h]
      cases r
      simpa using h0
  have hs : ∀ r : DbusvMsg, r.signature = [] →
      (if m.sig.val ≠ [] then [DbusvField.sig 8 m.sig] else []).foldl
        (fun r f => f.store r) r = { r with signature := strlcpy 48 (m.sig.val.take 47) } := by
    intro r h0
    split_ifs with h
    · rfl
    · rw [not_not.1 h]
      cases r
      simpa [strlcpy, cstr] using h0
  simp only [DbusvOut.fields, List.foldl_append]
  rw [store_opt 1 m.path, store_opt 2 m.iface, store_opt 3 m.member, store_opt 4 m.errName, hr,
    store_opt 6 m.dest, store_opt 7 m.sender, hs]
  · rfl
  all_goals rfl

/-! ### The message -/

/-- The first sixteen bytes of a message. -/
def dbusvFixed (type : UInt8) (bl sr fl : ℕ) : Bytes :=
  [0x6C, type, 0, 1] ++ dbusvWrU32 bl ++ dbusvWrU32 sr ++ dbusvWrU32 fl

theorem dbusvFixed_read (type : UInt8) {bl sr fl : ℕ} (hb : bl < 2 ^ 32) (hs : sr < 2 ^ 32)
    (hf : fl < 2 ^ 32) (tail : Bytes) :
    dbusvRdU32 (dbusvFixed type bl sr fl ++ tail) 4 true = bl ∧
      dbusvRdU32 (dbusvFixed type bl sr fl ++ tail) 8 true = sr ∧
      dbusvRdU32 (dbusvFixed type bl sr fl ++ tail) 12 true = fl := by
  simp only [dbusvFixed, List.append_assoc]
  refine ⟨?_, ?_, ?_⟩
  · exact (dbusvRdU32_shift [0x6C, type, 0, 1] _ 0 true).trans (dbusvRdU32_wrU32 hb _)
  · have e := dbusvRdU32_shift ([0x6C, type, 0, 1] ++ dbusvWrU32 bl)
      (dbusvWrU32 sr ++ (dbusvWrU32 fl ++ tail)) 0 true
    rw [List.append_assoc] at e
    exact e.trans (dbusvRdU32_wrU32 hs _)
  · have e := dbusvRdU32_shift ([0x6C, type, 0, 1] ++ dbusvWrU32 bl ++ dbusvWrU32 sr)
      (dbusvWrU32 fl ++ tail) 0 true
    rw [List.append_assoc, List.append_assoc] at e
    exact e.trans (dbusvRdU32_wrU32 hf _)

theorem dbusvBuild_some {serial : UInt32} {m : DbusvOut} (h : dbusvBuild serial m = some pkt) :
    (dbusvLayout 0 m.fields).length ≤ 2048 ∧ m.body.length ≤ 6144 ∧
      pkt = dbusvFixed m.type m.body.length serial.toNat (dbusvLayout 0 m.fields).length ++
        (dbusvLayout 0 m.fields ++
          (pad 8 (16 + (dbusvLayout 0 m.fields).length) ++ m.body)) := by
  unfold dbusvBuild at h
  simp only at h
  split_ifs at h with hok hcap
  rw [Bool.not_eq_true', Bool.not_eq_false, dbusvFields_eq] at hok
  obtain ⟨-, hbuf⟩ := dbusvAddAll_ok hok
  obtain ⟨hpos, hc⟩ := dbusvAddAll_within m.fields (w := .init 2048) ⟨Nat.zero_le _, rfl⟩
  have hbuf' : (dbusvFields m).buf = dbusvLayout 0 m.fields := by
    rw [dbusvFields_eq, hbuf]
    rfl
  have hpos' : (dbusvFields m).pos = (dbusvLayout 0 m.fields).length := congrArg _ hbuf'
  rw [hc, ← dbusvFields_eq, hpos'] at hpos
  refine ⟨hpos, by omega, ?_⟩
  rw [← Option.some.inj h, hbuf', hpos']
  simp only [dbusvFixed, pad, List.append_assoc]

theorem dbusvParse_build {serial : UInt32} {m : DbusvOut} (h : dbusvBuild serial m = some pkt) :
    dbusvParseMessage pkt = .done (m.readBack (dbusvHead pkt)) pkt.length ∧
      (dbusvHead pkt).type = m.type ∧ (dbusvHead pkt).serial = serial.toNat ∧
        (dbusvHead pkt).body = m.body := by
  obtain ⟨hfl, hbl, hpkt⟩ := dbusvBuild_some h
  set fields := dbusvLayout 0 m.fields with hfields
  set fixed := dbusvFixed m.type m.body.length serial.toNat fields.length with hfixed
  have hfix : fixed.length = 16 := by simp [hfixed, dbusvFixed, dbusvWrU32]
  obtain ⟨e4, e8, e12⟩ := dbusvFixed_read m.type (show m.body.length < 2 ^ 32 by omega)
    serial.toNat_lt (show fields.length < 2 ^ 32 by omega)
    (fields ++ (pad 8 (16 + fields.length) ++ m.body))
  rw [← hfixed, ← hpkt] at e4 e8 e12
  have h0 : byteAt pkt 0 = 0x6C := by rw [hpkt, hfixed]; rfl
  have h1 : byteAt pkt 1 = m.type := by rw [hpkt, hfixed]; rfl
  have hle : dbusvLe pkt = true := by simp [dbusvLe, h0]
  have hfe : dbusvFieldsEnd pkt = 16 + fields.length := by rw [dbusvFieldsEnd, hle, e12]
  have hoff := dbusvAlign_eq (16 + fields.length) (by decide : 0 < 8)
  have htotal : dbusvTotal pkt = pkt.length := by
    rw [dbusvTotal, hfe, hle, e4, hoff, hpkt]
    simp [hfix]
    omega
  have hlen : 16 ≤ pkt.length := by rw [hpkt, List.length_append]; omega
  have hbody : (dbusvHead pkt).body = m.body := by
    have e := slice_shift (fixed ++ (fields ++ pad 8 (16 + fields.length))) m.body 0 m.body.length
    have hl : (fixed ++ (fields ++ pad 8 (16 + fields.length))).length + 0 =
        dbusvAlign (16 + fields.length) 8 := by
      simp [hoff, hfix]
      omega
    rw [hl] at e
    change slice pkt (dbusvAlign (dbusvFieldsEnd pkt) 8) (dbusvRdU32 pkt 4 (dbusvLe pkt)) = _
    rw [hfe, hle, e4, hpkt]
    simp only [List.append_assoc] at e ⊢
    rw [e]
    simp [slice]
  have hparse := dbusvParseFields_layout (m.fields_fit hfl) fixed
    (pad 8 (16 + fields.length) ++ m.body) (m := dbusvHead pkt) hle
  have h16 : dbusvLayout fixed.length m.fields = fields := by
    rw [hfix]
    exact dbusvLayout_add (by decide) 0 _
  rw [h16, hfix, ← hpkt, DbusvOut.fields_store] at hparse
  refine ⟨?_, h1, ?_, hbody⟩
  · rw [dbusvParseMessage_eq, htotal, hfe, hparse, if_neg (by omega), if_neg (by simp [h0]),
      if_neg (by omega)]
  · change dbusvRdU32 pkt 8 (dbusvLe pkt) = _
    rw [hle, e8]

/-- A message that `dbusv_queue_message` builds is read back with its length, whatever follows it,
and of its strict prefixes more is asked for. The parser cuts a string at 159 bytes and the
signature at 47. -/
theorem dbusvBuild_roundTrip {serial : UInt32} {m : DbusvOut} {pkt : Bytes}
    (h : dbusvBuild serial m = some pkt) :
    (∀ rest, ∃ r, dbusvParseMessage (pkt ++ rest) = .done r pkt.length ∧
      r.type = m.type ∧ r.serial = serial.toNat ∧ r.replySerial = m.replySerial.toNat ∧
      r.path = m.path.val.take 159 ∧ r.iface = m.iface.val.take 159 ∧
      r.member = m.member.val.take 159 ∧ r.dest = m.dest.val.take 159 ∧
      r.sender = m.sender.val.take 159 ∧ r.errName = m.errName.val.take 159 ∧
      r.signature = m.sig.val.take 47 ∧ r.body = m.body) ∧
    ∀ pre, pre <+: pkt → pre ≠ pkt → dbusvParseMessage pre = .more := by
  obtain ⟨hp, ht, hs, hb⟩ := dbusvParse_build h
  constructor
  · intro rest
    have h159 : 159 ≤ 160 - 1 := le_rfl
    exact ⟨_, dbusvParseMessage_append hp rest, ht, hs, rfl, strlcpy_take _ h159,
      strlcpy_take _ h159, strlcpy_take _ h159, strlcpy_take _ h159, strlcpy_take _ h159,
      strlcpy_take _ h159, strlcpy_take _ le_rfl, hb⟩
  · intro pre hpre hne
    have hk : pre.length < pkt.length := by
      refine lt_of_le_of_ne hpre.length_le fun he => hne ?_
      exact hpre.eq_of_length he
    rw [List.prefix_iff_eq_take.1 hpre]
    exact dbusvParseMessage_take hp hk

/-- A method call with a path, a member, a signature and a body. -/
def dbusvPing : DbusvOut where
  type := 1
  path := ⟨ascii "/a", by decide⟩
  iface := .empty
  member := ⟨ascii "Ping", by decide⟩
  dest := .empty
  sender := .empty
  errName := .empty
  replySerial := 3
  sig := ⟨ascii "u", by decide⟩
  body := dbusvWrU32 5

theorem dbusvPing_roundTrip :
    ∃ pkt, dbusvBuild 7 dbusvPing = some pkt ∧
      (∀ rest, ∃ r, dbusvParseMessage (pkt ++ rest) = .done r pkt.length ∧
        r.path = ascii "/a" ∧ r.member = ascii "Ping" ∧ r.replySerial = 3 ∧
        r.signature = ascii "u" ∧ r.body = [5, 0, 0, 0]) ∧
      ∀ pre, pre <+: pkt → pre ≠ pkt → dbusvParseMessage pre = .more := by
  obtain ⟨pkt, h⟩ := Option.isSome_iff_exists.1 (show (dbusvBuild 7 dbusvPing).isSome by decide)
  obtain ⟨hr, hmore⟩ := dbusvBuild_roundTrip h
  refine ⟨pkt, h, fun rest => ?_, hmore⟩
  obtain ⟨r, hp, -, -, hrs, hpath, -, hmem, -, -, -, hsig, hbody⟩ := hr rest
  exact ⟨r, hp, hpath, hmem, hrs, hsig, hbody⟩

/-- A signal whose path is longer than the parser's buffer. -/
def dbusvLongPath : DbusvOut where
  type := 4
  path := ⟨List.replicate 160 0x61, fun h => absurd (List.eq_of_mem_replicate h) (by decide)⟩
  iface := .empty
  member := .empty
  dest := .empty
  sender := .empty
  errName := .empty
  replySerial := 0
  sig := .empty
  body := []

/-- A path of 160 bytes loses its last byte. -/
theorem dbusvLongPath_cut :
    ∃ pkt, dbusvBuild 7 dbusvLongPath = some pkt ∧
      ¬∃ r, dbusvParseMessage (pkt ++ []) = .done r pkt.length ∧ r.path = dbusvLongPath.path.val := by
  obtain ⟨pkt, h⟩ :=
    Option.isSome_iff_exists.1 (show (dbusvBuild 7 dbusvLongPath).isSome by decide +kernel)
  refine ⟨pkt, h, ?_⟩
  rintro ⟨r, hp, hpath⟩
  rw [List.append_nil, (dbusvParse_build h).1] at hp
  injection hp with hr
  have hcut : r.path = strlcpy 160 (dbusvLongPath.path.val.take 159) := by rw [← hr]; rfl
  have hlen := congrArg List.length (hcut.symm.trans hpath)
  rw [strlcpy_take _ le_rfl] at hlen
  simp [dbusvLongPath] at hlen

end Ridux
