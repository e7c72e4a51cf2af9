import Ridux.Dbus.Wire

/-!
# Reading a message out of a longer buffer

* `dbusvParseMessage_append`: what follows a complete message does not change how it is read;
* `dbusvParseMessage_take`: of a strict prefix the parser asks for more.
-/

namespace Ridux

open List Option

/-! ### Buffers -/

theorem byteAt_append {b : Bytes} {p : ℕ} (h : p < b.length) (rest : Bytes) :
    byteAt (b ++ rest) p = byteAt b p := by
  simp [byteAt, List.getElem?_append_left h]

theorem byteAt_shift (pre b : Bytes) (p : ℕ) : byteAt (pre ++ b) (pre.length + p) = byteAt b p := by
  simp [byteAt, List.getElem?_append_right]

variable {n : ℕ}

theorem slice_append {b : Bytes} {p : ℕ} (h : p + n ≤ b.length) (rest : Bytes) :
    slice (b ++ rest) p n = slice b p n := by
  unfold slice
  rw [drop_append_of_le_length (by omega), take_append_of_le_length]
  simp
  omega

theorem slice_shift (pre b : Bytes) (p n : ℕ) :
    slice (pre ++ b) (pre.length + p) n = slice b p n := by
  unfold slice
  rw [← drop_drop, drop_left]

theorem dbusvRdU32_append {b : Bytes} {p : ℕ} (h : p + 4 ≤ b.length) (rest : Bytes) (le : Bool) :
    dbusvRdU32 (b ++ rest) p le = dbusvRdU32 b p le := by
  have e : ∀ i < 4, byteAt (b ++ rest) (p + i) = byteAt b (p + i) :=
    fun i hi => byteAt_append (by omega) rest
  simp only [dbusvRdU32, e 0 (by decide), e 1 (by decide), e 2 (by decide), e 3 (by decide)]

theorem dbusvRdU32_shift (pre b : Bytes) (p : ℕ) (le : Bool) :
    dbusvRdU32 (pre ++ b) (pre.length + p) le = dbusvRdU32 b p le := by
  simp [dbusvRdU32, Nat.add_assoc, byteAt_shift]

theorem clampLen_le (cap sl : ℕ) : clampLen cap sl ≤ sl := by
  unfold clampLen
  split_ifs <;> omega

/-! ### What follows the fields -/

section Append

variable {b : Bytes} {fe : ℕ} (rest : Bytes) (hfe : fe ≤ b.length)
include hfe

theorem dbusvReadSig_append (off cap : ℕ) :
    dbusvReadSig (b ++ rest) fe off cap = dbusvReadSig b fe off cap := by
  unfold dbusvReadSig
  by_cases h1 : off + 1 > fe
  · simp [h1]
  have e := byteAt_append (show off < b.length by omega) rest
  have hc := clampLen_le cap (byteAt b off).toNat
  simp only [e]
  by_cases h2 : off + 1 + (byteAt b off).toNat + 1 > fe
  · simp [h2]
  rw [slice_append (by omega)]

theorem dbusvReadCstr_append (off : ℕ) (le : Bool) (cap : ℕ) :
    dbusvReadCstr (b ++ rest) fe off le cap = dbusvReadCstr b fe off le cap := by
  unfold dbusvReadCstr
  by_cases h1 : dbusvAlign off 4 + 4 > fe
  · simp [h1]
  have e := dbusvRdU32_append (show dbusvAlign off 4 + 4 ≤ b.length by omega) rest le
  have hc := clampLen_le cap (dbusvRdU32 b (dbusvAlign off 4) le)
  simp only [e]
  by_cases h2 : dbusvAlign off 4 + 4 + dbusvRdU32 b (dbusvAlign off 4) le + 1 > fe
  · simp [h2]
  rw [slice_append (by omega)]

theorem dbusvReadU32_append (off : ℕ) (le : Bool) :
    dbusvReadU32 (b ++ rest) fe off le = dbusvReadU32 b fe off le := by
  unfold dbusvReadU32
  by_cases h1 : dbusvAlign off 4 + 4 > fe
  · simp [h1]
  · simp only [dbusvRdU32_append (show dbusvAlign off 4 + 4 ≤ b.length by omega) rest le]

theorem dbusvReadField_append {off : ℕ} (h : off < fe) (m : DbusvMsg) :
    dbusvReadField (b ++ rest) fe off m = dbusvReadField b fe off m := by
  unfold dbusvReadField dbusvReadValue
  rw [dbusvReadSig_append rest hfe, byteAt_append (by omega)]
  simp only [dbusvReadSig_append rest hfe, dbusvReadCstr_append rest hfe,
    dbusvReadU32_append rest hfe]

theorem dbusvParseFields_append (off : ℕ) (m : DbusvMsg) :
    dbusvParseFields (b ++ rest) fe off m = dbusvParseFields b fe off m := by
  -- by induction on what is left of the fields
  induction hn : fe - off using Nat.strong_induction_on generalizing off m with
  | _ n ih =>
    by_cases h : dbusvAlign off 8 < fe
    · have ha := dbusvAlign_ge off (a := 8) (by decide)
      rw [dbusvParseFields_step h, dbusvParseFields_step h, dbusvReadField_append rest hfe h]
      cases hr : dbusvReadField b fe (dbusvAlign off 8) m with
      | none => rw [bind_none, bind_none]
      | some r =>
        obtain ⟨m', p⟩ := r
        have hlt := dbusvReadField_lt hr
        rw [bind_some, bind_some]
        exact ih (fe - p) (by omega) p m' rfl
    · rw [dbusvParseFields_end (by omega), dbusvParseFields_end (by omega)]

end Append

/-! ### The whole message -/

/-- The header of a message: where its fields, its head and the message end. -/
def dbusvLe (buf : Bytes) : Bool := byteAt buf 0 = 0x6C

@[inherit_doc dbusvLe]
def dbusvFieldsEnd (buf : Bytes) : ℕ := 16 + dbusvRdU32 buf 12 (dbusvLe buf)

@[inherit_doc dbusvLe]
def dbusvTotal (buf : Bytes) : ℕ :=
  dbusvAlign (dbusvFieldsEnd buf) 8 + dbusvRdU32 buf 4 (dbusvLe buf)

/-- The message before its fields are read. -/
def dbusvHead (buf : Bytes) : DbusvMsg where
  le := dbusvLe buf
  type := byteAt buf 1
  flags := byteAt buf 2
  version := byteAt buf 3
  serial := dbusvRdU32 buf 8 (dbusvLe buf)
  replySerial := 0
  bodyLen := dbusvRdU32 buf 4 (dbusvLe buf)
  bodyOff := dbusvAlign (dbusvFieldsEnd buf) 8
  msgLen := dbusvTotal buf
  body := slice buf (dbusvAlign (dbusvFieldsEnd buf) 8) (dbusvRdU32 buf 4 (dbusvLe buf))
  path := []
  iface := []
  member := []
  dest := []
  sender := []
  errName := []
  signature := []

theorem dbusvFieldsEnd_le_total (buf : Bytes) : dbusvFieldsEnd buf ≤ dbusvTotal buf :=
  (dbusvAlign_ge _ (by decide)).trans (Nat.le_add_right _ _)

theorem dbusvParseMessage_eq (buf : Bytes) :
    dbusvParseMessage buf =
      if buf.length < 16 then .more
      else if byteAt buf 0 ≠ 0x6C ∧ byteAt buf 0 ≠ 0x42 then .bad
      else if dbusvTotal buf > buf.length then .more
      else
        match dbusvParseFields buf (dbusvFieldsEnd buf) 16 (dbusvHead buf) with
        | none => .bad
        | some m => .done m (dbusvTotal buf) := by
  have h1 := dbusvAlign_ge (dbusvFieldsEnd buf) (a := 8) (by decide)
  have h2 : dbusvAlign (dbusvFieldsEnd buf) 8 ≤ dbusvTotal buf := Nat.le_add_right _ _
  change (if buf.length < 16 then DbusvParsed.more
    else if byteAt buf 0 ≠ 0x6C ∧ byteAt buf 0 ≠ 0x42 then .bad
    else if dbusvFieldsEnd buf > buf.length ∨ dbusvAlign (dbusvFieldsEnd buf) 8 > buf.length then
      .more
    else if dbusvTotal buf > buf.length then .more
    else
      match dbusvParseFields buf (dbusvFieldsEnd buf) 16 (dbusvHead buf) with
      | none => .bad
      | some m => .done m (dbusvTotal buf)) = _
  by_cases ht : dbusvTotal buf > buf.length
  · simp only [if_pos ht, ite_self]
  · rw [if_neg (show ¬(dbusvFieldsEnd buf > buf.length ∨
      dbusvAlign (dbusvFieldsEnd buf) 8 > buf.length) by omega)]

variable {m : DbusvMsg}

theorem dbusvParseMessage_done {buf : Bytes} (h : dbusvParseMessage buf = .done m n) :
    16 ≤ buf.length ∧ (byteAt buf 0 = 0x6C ∨ byteAt buf 0 = 0x42) ∧ n = dbusvTotal buf ∧
      n ≤ buf.length ∧ dbusvParseFields buf (dbusvFieldsEnd buf) 16 (dbusvHead buf) = some m := by
  rw [dbusvParseMessage_eq] at h
  split_ifs at h with h1 h2 h3
  split at h
  · cases h
  · next hm =>
    injection h with hm' hn
    subst hm' hn
    exact ⟨by omega, by tauto, rfl, by omega, hm⟩

section Append

variable {buf : Bytes} (rest : Bytes) (h : 16 ≤ buf.length)
include h

theorem dbusvLe_append : dbusvLe (buf ++ rest) = dbusvLe buf := by
  simp only [dbusvLe, byteAt_append (show 0 < buf.length by omega)]

theorem dbusvFieldsEnd_append : dbusvFieldsEnd (buf ++ rest) = dbusvFieldsEnd buf := by
  simp only [dbusvFieldsEnd, dbusvLe_append rest h,
    dbusvRdU32_append (show 12 + 4 ≤ buf.length by omega)]

theorem dbusvTotal_append : dbusvTotal (buf ++ rest) = dbusvTotal buf := by
  simp only [dbusvTotal, dbusvFieldsEnd_append rest h, dbusvLe_append rest h,
    dbusvRdU32_append (show 4 + 4 ≤ buf.length by omega)]

theorem dbusvHead_append (hn : dbusvTotal buf ≤ buf.length) :
    dbusvHead (buf ++ rest) = dbusvHead buf := by
  have e : ∀ i < 16, byteAt (buf ++ rest) i = byteAt buf i :=
    fun i hi => byteAt_append (by omega) rest
  simp only [dbusvHead, dbusvTotal_append rest h, dbusvFieldsEnd_append rest h,
    dbusvLe_append rest h, dbusvRdU32_append (show 4 + 4 ≤ buf.length by omega),
    dbusvRdU32_append (show 8 + 4 ≤ buf.length by omega), e 1 (by decide), e 2 (by decide),
    e 3 (by decide)]
  rw [slice_append hn]

end Append

theorem dbusvParseMessage_append {buf : Bytes} (h : dbusvParseMessage buf = .done m n) (rest : Bytes) :
    dbusvParseMessage (buf ++ rest) = .done m n := by
  obtain ⟨h16, h0, rfl, hn, hm⟩ := dbusvParseMessage_done h
  have hfe := dbusvFieldsEnd_le_total buf
  rw [dbusvParseMessage_eq, dbusvTotal_append rest h16, dbusvHead_append rest h16 hn,
    dbusvFieldsEnd_append rest h16, dbusvParseFields_append rest (hfe.trans hn), hm,
    byteAt_append (by omega), length_append, if_neg (by omega), if_neg (by tauto),
    if_neg (by omega)]

theorem dbusvParseMessage_take {buf : Bytes} {k : ℕ} (h : dbusvParseMessage buf = .done m n)
    (hk : k < n) : dbusvParseMessage (buf.take k) = .more := by
  obtain ⟨h16, h0, rfl, hn, -⟩ := dbusvParseMessage_done h
  have hl : (buf.take k).length = k := by rw [length_take]; omega
  rw [dbusvParseMessage_eq]
  by_cases hs : (buf.take k).length < 16
  · rw [if_pos hs]
  have h16' : 16 ≤ (buf.take k).length := by omega
  have e0 : byteAt (buf.take k) 0 = byteAt buf 0 := by
    rw [← byteAt_append (by omega) (buf.drop k), take_append_drop]
  have et : dbusvTotal (buf.take k) = dbusvTotal buf := by
    rw [← dbusvTotal_append (buf.drop k) h16', take_append_drop]
  rw [if_neg hs, e0, if_neg (by tauto), et, if_pos (by omega)]

end Ridux
