import Ridux.Lib.Buffer
import Ridux.Lib.Records
import Ridux.Pmm.Basic
import Ridux.Vfs.Refine

/-!
# The archive of the boot files

* `vfsMountInitrd`: the walk over the headers of a tar archive, and the files it mounts; it has no result
  when something outside the archive is used;
* `tarMember`, `tarArchive`: what the archive holds, by the fields of its headers;
* `InitrdFaithful`: the walk stays inside, and mounts members of the archive only;
* `initrd_faithful_iff`: exactly when no field runs on, no size wraps and every payload is there.
-/

namespace Ridux

open Lib List Option

/-- `sizeof(tar_header_t)`. -/
def tarHeaderSize : ℕ := 512

theorem tarHeaderSize_pos : 0 < tarHeaderSize := by decide

/-- `g_vfs_files`, `g_vfs_mount_dropped_paths` and `g_vfs_mount_dropped_slots`. -/
structure InitrdMount where
  vfs : Vfs
  droppedPaths : ℕ
  droppedSlots : ℕ

/-! ### The fields of a header -/

/-- A byte of the header at `off`. -/
def tarByte (bs : Bytes) (off i : ℕ) : UInt8 := bs[off + i]?.getD 0

def isOctal (c : UInt8) : Bool := 0x30 ≤ c ∧ c ≤ 0x37

def parseOctal (buf : Bytes) : ℕ :=
  (buf.takeWhile isOctal).foldl (fun v c => u32 (v * 8 + (c.toNat - 0x30))) 0

/-- The number that octal digits stand for. -/
def octalValue (buf : Bytes) : ℕ := (buf.takeWhile isOctal).foldl (fun v c => v * 8 + (c.toNat - 0x30)) 0

/-- `h->size`. -/
def tarSizeField (bs : Bytes) (off : ℕ) : Bytes := (bs.drop (off + 124)).take 12

/-- The header is not empty. -/
def tarLive (bs : Bytes) (off : ℕ) : Bool := ((bs.drop off).take tarHeaderSize).any (· ≠ 0)

/-- The header is that of a file with a name. -/
def tarIsFile (bs : Bytes) (off : ℕ) : Bool :=
  (tarByte bs off 156 = 0x30 ∨ tarByte bs off 156 = 0) ∧ tarByte bs off 0 ≠ 0

/-- The place of the name, behind a leading `./`. -/
def tarNameStart (bs : Bytes) (off : ℕ) : ℕ :=
  if tarByte bs off 0 = 0x2e ∧ tarByte bs off 1 = slash then off + 2 else off

/-! ### Mounting -/

/-- The path that is copied from a header, and whether it was cut. -/
def tarPath (bs : Bytes) (off : ℕ) : Option (Bytes × Bool) :=
  let dir : Option (Bytes × Bool) :=
    if tarByte bs off 345 ≠ 0 then
      (copyText 0 bs (vfsMaxPath - 2) (off + 345)).map fun r =>
        let path := slash :: r.1
        if path.getLast? = some slash then (path, r.2)
        else if path.length + 1 < vfsMaxPath then (path ++ [slash], r.2)
        else (path, true)
    else some ([slash], false)
  dir.bind fun d =>
    (copyText 0 bs (vfsMaxPath - 1 - d.1.length) (tarNameStart bs off)).map fun r => (d.1 ++ r.1, d.2 || r.2)

/-- What becomes of a header. -/
inductive TarEntry
  | skip | dropped
  | file (path data : Bytes)
  deriving DecidableEq

/-- One header of `vfs_mount_initrd`. -/
def tarEntry (bs : Bytes) (off : ℕ) : Option TarEntry :=
  if tarIsFile bs off then
    match tarPath bs off with
    | none => none
    | some (_, true) => some .dropped
    | some (path, false) =>
      (block bs (off + tarHeaderSize) (parseOctal (tarSizeField bs off))).map (.file path)
  else some .skip

/-- The node of a file is taken, when there is one. -/
def mountEntry (s : InitrdMount) : TarEntry → InitrdMount
  | .skip => s
  | .dropped => { s with droppedPaths := s.droppedPaths + 1 }
  | .file path data =>
    match vfsMountFile path data s.vfs with
    | (true, vfs) => { s with vfs := vfs }
    | (false, vfs) => { s with vfs := vfs, droppedSlots := s.droppedSlots + 1 }

/-- `aligned`: from a payload to the header behind it. -/
def tarAligned (bs : Bytes) (off : ℕ) : ℕ := u32 (parseOctal (tarSizeField bs off) + 511) / 512 * 512

/-- The loop of `vfs_mount_initrd`, at `off`. -/
def mountInitrdFrom (bs : Bytes) (off : ℕ) (s : InitrdMount) : Option InitrdMount :=
  if off + tarHeaderSize ≤ bs.length then
    if tarLive bs off then
      match tarEntry bs off with
      | none => none
      | some e =>
        if bs.length < off + tarHeaderSize + tarAligned bs off then some (mountEntry s e)
        else mountInitrdFrom bs (off + tarHeaderSize + tarAligned bs off) (mountEntry s e)
    else some s
  else some s
termination_by bs.length + 1 - off
decreasing_by
  have := tarHeaderSize_pos
  omega

def vfsMountInitrd (bs : Bytes) (s : InitrdMount) : Option InitrdMount := mountInitrdFrom bs 0 s

/-! ### The archive -/

/-- The text in a field of `width` bytes. -/
def fieldText (bs : Bytes) (pos width : ℕ) : Bytes := (textAt 0 bs pos).take width

/-- A directory in front of a name. -/
def tarDir (prefixText : Bytes) : Bytes :=
  if prefixText = [] then [] else if prefixText.getLast? = some slash then prefixText else prefixText ++ [slash]

/-- The path of a member, by its fields. -/
def memberPath (bs : Bytes) (off : ℕ) : Bytes :=
  slash :: (tarDir (fieldText bs (off + 345) 155) ++
    fieldText bs (tarNameStart bs off) (off + 100 - tarNameStart bs off))

/-- The size of a member. -/
def memberSize (bs : Bytes) (off : ℕ) : ℕ := octalValue (tarSizeField bs off)

/-- The member with its header at `off`, when its payload is there. -/
def tarMember (bs : Bytes) (off : ℕ) : Option (Bytes × Bytes) :=
  (block bs (off + tarHeaderSize) (memberSize bs off)).map fun data => (memberPath bs off, data)

/-- From a payload to the next header. -/
def memberAligned (bs : Bytes) (off : ℕ) : ℕ := (memberSize bs off + 511) / 512 * 512

/-- The headers of the archive. -/
def tarArchive (bs : Bytes) : List ℕ := records tarHeaderSize_pos bs.length (tarLive bs) (memberAligned bs) 0

/-- The headers that the walk visits. -/
def tarHeaders (bs : Bytes) : List ℕ := records tarHeaderSize_pos bs.length (tarLive bs) (tarAligned bs) 0

/-- The walk visits the headers of the archive, uses nothing outside, and mounts members only, each under its
own path. -/
structure InitrdFaithful (bs : Bytes) : Prop where
  walk : tarHeaders bs = tarArchive bs
  inside : ∀ s, (vfsMountInitrd bs s).isSome = true
  files : ∀ off ∈ tarHeaders bs, ∀ path data, tarEntry bs off = some (.file path data) →
    tarMember bs off = some (path, data) ∧ vfsNormalizePath path = path

/-- The text of a field ends in it, or right behind it. -/
def FieldEnds (bs : Bytes) (pos width : ℕ) : Prop := (textAt 0 bs pos).length ≤ width

/-- The prefix ends in its field, or only the slash that would follow it runs on. -/
def PrefixEnds (bs : Bytes) (off : ℕ) : Prop :=
  FieldEnds bs (off + 345) 155 ∨
    (fieldText bs (off + 345) 155).getLast? ≠ some slash ∧
      textAt 0 bs (off + 345) = fieldText bs (off + 345) 155 ++ [slash]

/-- A header leads to the next one, and its path is cut, or its fields end, its size fits and its payload is
there. -/
structure TarFits (bs : Bytes) (off : ℕ) : Prop where
  next : nextRecord tarHeaderSize bs.length (tarLive bs) (tarAligned bs) off =
    nextRecord tarHeaderSize bs.length (tarLive bs) (memberAligned bs) off
  file : tarIsFile bs off = true → ∃ p, tarPath bs off = some p ∧ (p.2 = true ∨
    FieldEnds bs (tarNameStart bs off) (off + 100 - tarNameStart bs off) ∧ PrefixEnds bs off ∧
      memberSize bs off < 2 ^ 32 ∧ off + tarHeaderSize + memberSize bs off ≤ bs.length)

/-! ### Sizes and paths -/

variable {bs p data : Bytes} {off : ℕ}

theorem parseOctal_eq (buf : Bytes) : parseOctal buf = octalValue buf % 2 ^ 32 := by
  have hfold : ∀ (l : Bytes) (v : ℕ), l.foldl (fun v c => u32 (v * 8 + (c.toNat - 0x30))) (v % 2 ^ 32) =
      l.foldl (fun v c => v * 8 + (c.toNat - 0x30)) v % 2 ^ 32 := by
    intro l
    induction l with
    | nil => exact fun _ => rfl
    | cons c l ih =>
      intro v
      have hdigit : u32 (v % 2 ^ 32 * 8 + (c.toNat - 0x30)) = (v * 8 + (c.toNat - 0x30)) % 2 ^ 32 := by
        unfold u32
        omega
      rw [foldl_cons, foldl_cons, hdigit, ih]
  exact hfold _ 0

theorem length_tarDir (p : Bytes) : p.length ≤ (tarDir p).length ∧ (tarDir p).length ≤ p.length + 1 := by
  unfold tarDir
  split_ifs with hnil hlast
  · subst hnil
    simp
  · omega
  · simp

theorem tarDir_slash (p : Bytes) : tarDir (p ++ [slash]) = p ++ [slash] := by
  unfold tarDir
  rw [if_neg (by simp), if_pos (by simp)]

theorem tarDir_open (hne : p ≠ []) (hlast : p.getLast? ≠ some slash) : tarDir p = p ++ [slash] := by
  unfold tarDir
  rw [if_neg hne, if_neg hlast]

theorem tarDir_closed (hlast : p.getLast? = some slash) : tarDir p = p := by
  unfold tarDir
  split_ifs with hnil
  · exact hnil.symm
  · rfl

/-- **A path of texts that are cut to their fields** is the path of the texts, only when nothing is cut but
the slash that would follow anyway. -/
theorem tarDir_append_eq {n : Bytes} {m w : ℕ} (hm : 0 < m) :
    tarDir p ++ n = tarDir (p.take m) ++ n.take w ↔
      n.length ≤ w ∧ (p.length ≤ m ∨ (p.take m).getLast? ≠ some slash ∧ p = p.take m ++ [slash]) := by
  constructor
  · intro h
    obtain ⟨hlow, hhigh⟩ := length_tarDir p
    obtain ⟨hlow', hhigh'⟩ := length_tarDir (p.take m)
    have htake := length_take (i := m) (l := p)
    have hname := length_take (i := w) (l := n)
    have hlen := congrArg List.length h
    rw [length_append, length_append] at hlen
    have hdir : (tarDir (p.take m)).length ≤ (tarDir p).length := by
      by_cases hle : p.length ≤ m
      · rw [take_of_length_le hle]
      · omega
    refine ⟨by omega, ?_⟩
    by_cases hle : p.length ≤ m
    · exact .inl hle
    -- the directory is one longer than its field
    obtain ⟨heq, -⟩ := append_inj h (by omega)
    have hlast : (p.take m).getLast? ≠ some slash := by
      intro hclosed
      rw [tarDir_closed hclosed] at hdir hlen
      omega
    have hne : p.take m ≠ [] := by
      rw [← length_pos_iff]
      omega
    rw [tarDir_open hne hlast] at heq
    have hclosed : p.getLast? = some slash := by
      by_contra hopen
      have hp : p ≠ [] := by
        rintro rfl
        simp at hle
      rw [tarDir_open hp hopen] at heq
      have := congrArg List.length heq
      rw [length_append, length_append] at this
      omega
    rw [tarDir_closed hclosed] at heq
    exact .inr ⟨hlast, heq⟩
  · rintro ⟨hn, hle | ⟨hlast, heq⟩⟩
    · rw [take_of_length_le hle, take_of_length_le hn]
    · have hne : p.take m ≠ [] := by
        intro hnil
        rw [hnil] at heq
        have hp : p ≠ [] := by simp [heq]
        exact hp (take_eq_nil_iff.1 hnil |>.resolve_left (by omega))
      rw [take_of_length_le hn, tarDir_open hne hlast]
      conv_lhs => rw [heq, tarDir_slash]

theorem tarByte_eq_zero (bs : Bytes) (off i : ℕ) : tarByte bs off i = 0 ↔ textAt 0 bs (off + i) = [] := by
  unfold tarByte
  cases hget : bs[off + i]? with
  | none => simp [textAt_of_le (List.getElem?_eq_none_iff.1 hget)]
  | some c =>
    by_cases hc : c = 0
    · subst hc
      simp [textAt_stop hget]
    · simp [textAt_cons hget hc, hc]

/-- **A path that is not cut** is that of the texts which begin at the two fields. -/
theorem tarPath_kept {path : Bytes} (h : tarPath bs off = some (path, false)) :
    path = slash :: (tarDir (textAt 0 bs (off + 345)) ++ textAt 0 bs (tarNameStart bs off)) := by
  unfold tarPath at h
  obtain ⟨⟨dir, cut⟩, hdir, h⟩ := bind_eq_some_iff.1 h
  obtain ⟨⟨name, more⟩, hname, h⟩ := map_eq_some_iff.1 h
  obtain ⟨rfl, hcut⟩ := Prod.mk.inj h
  obtain ⟨rfl, rfl⟩ := Bool.or_eq_false_iff.1 hcut
  have hkept : ∀ {room pos : ℕ} {text : Bytes}, copyText 0 bs room pos = some (text, false) →
      text = textAt 0 bs pos := by
    intro room pos text ht
    rw [copyText_eq] at ht
    split_ifs at ht
    · cases ht
    · exact (Prod.mk.inj (some.inj ht)).1.symm
  rw [hkept hname, ← cons_append]
  congr 1
  split_ifs at hdir with hbyte
  · obtain ⟨⟨text, more⟩, htext, hd⟩ := map_eq_some_iff.1 hdir
    dsimp only at hd
    have hne := mt (tarByte_eq_zero bs off 345).2 hbyte
    split_ifs at hd with hslash hroom
    · obtain ⟨rfl, rfl⟩ := Prod.mk.inj hd
      obtain rfl := hkept htext
      have hlast : (textAt 0 bs (off + 345)).getLast? = some slash := by
        rwa [List.getLast?_cons_of_ne_nil hne] at hslash
      rw [tarDir_closed hlast]
    · obtain ⟨rfl, rfl⟩ := Prod.mk.inj hd
      obtain rfl := hkept htext
      have hlast : (textAt 0 bs (off + 345)).getLast? ≠ some slash := by
        rwa [List.getLast?_cons_of_ne_nil hne] at hslash
      rw [tarDir_open hne hlast, cons_append]
    · cases (Prod.mk.inj hd).2
  · have hnil := (tarByte_eq_zero bs off 345).1 (by simpa using hbyte)
    rw [hnil]
    exact (Prod.mk.inj (some.inj hdir)).1.symm

theorem length_copyText {room pos : ℕ} {r : Bytes × Bool} (h : copyText 0 bs room pos = some r) :
    r.1.length ≤ room := by
  rw [copyText_eq] at h
  split_ifs at h with hroom
  · obtain rfl := some.inj h
    simp
  · obtain rfl := some.inj h
    exact Nat.not_lt.1 hroom

theorem length_tarPath {p : Bytes × Bool} (h : tarPath bs off = some p) : p.1.length < vfsMaxPath := by
  have hmax : vfsMaxPath = 256 := rfl
  unfold tarPath at h
  obtain ⟨dir, hdir, h⟩ := bind_eq_some_iff.1 h
  obtain ⟨name, hname, rfl⟩ := map_eq_some_iff.1 h
  have hlen := length_copyText hname
  have hdirlen : dir.1.length < vfsMaxPath := by
    split_ifs at hdir with hbyte
    · obtain ⟨text, htext, hd⟩ := map_eq_some_iff.1 hdir
      have htextlen := length_copyText htext
      dsimp only at hd
      split_ifs at hd with hslash hroom <;> subst hd
      · rw [length_cons]
        omega
      · rw [length_append]
        exact hroom
      · rw [length_cons]
        omega
    · obtain rfl := some.inj hdir
      decide
  rw [length_append]
  omega

theorem tarEntry_path {path : Bytes} (h : tarEntry bs off = some (.file path data)) :
    vfsNormalizePath path = path := by
  unfold tarEntry at h
  split_ifs at h with hfile
  · split at h
    · cases h
    · cases h
    next kept hpath =>
      obtain ⟨data', -, heq⟩ := map_eq_some_iff.1 h
      obtain ⟨rfl, -⟩ := TarEntry.file.inj heq
      have hfull : fullPath kept = kept := fullPath_of_head (by rw [tarPath_kept hpath]; rfl)
      rw [vfsNormalizePath_of_short, hfull]
      rw [hfull]
      exact length_tarPath hpath
  · cases h

theorem path_eq_iff {path : Bytes} (h : tarPath bs off = some (path, false)) : memberPath bs off = path ↔
    FieldEnds bs (tarNameStart bs off) (off + 100 - tarNameStart bs off) ∧ PrefixEnds bs off := by
  have hdir := tarDir_append_eq (p := textAt 0 bs (off + 345)) (n := textAt 0 bs (tarNameStart bs off))
    (m := 155) (w := off + 100 - tarNameStart bs off) (by omega)
  rw [tarPath_kept h, memberPath, cons_inj_right, eq_comm]
  exact hdir

theorem payload_eq_iff
    (h : block bs (off + tarHeaderSize) (parseOctal (tarSizeField bs off)) = some data) :
    block bs (off + tarHeaderSize) (memberSize bs off) = some data ↔
      memberSize bs off < 2 ^ 32 ∧ off + tarHeaderSize + memberSize bs off ≤ bs.length := by
  have hsize := parseOctal_eq (tarSizeField bs off)
  have hlen := length_block h
  constructor
  · intro hmember
    have hlen' := length_block hmember
    have hin := (block_eq_some hmember).1
    unfold memberSize at hlen' hin ⊢
    exact ⟨by omega, hin⟩
  · rintro ⟨hlt, -⟩
    unfold memberSize at hlt ⊢
    rw [← h, hsize, Nat.mod_eq_of_lt hlt]

/-- What is used of a header lies in the archive, and the file that it gives is its member. -/
def EntryFaithful (bs : Bytes) (off : ℕ) : Prop :=
  (tarEntry bs off).isSome = true ∧ ∀ path data, tarEntry bs off = some (.file path data) →
    tarMember bs off = some (path, data)

/-- **One header** gives its member exactly when its path is cut, or its fields end, its size fits and its
payload is there. -/
theorem entryFaithful_iff (bs : Bytes) (off : ℕ) : EntryFaithful bs off ↔
    (tarIsFile bs off = true → ∃ p, tarPath bs off = some p ∧ (p.2 = true ∨
      FieldEnds bs (tarNameStart bs off) (off + 100 - tarNameStart bs off) ∧ PrefixEnds bs off ∧
        memberSize bs off < 2 ^ 32 ∧ off + tarHeaderSize + memberSize bs off ≤ bs.length)) := by
  unfold EntryFaithful
  cases hfile : tarIsFile bs off with
  | false => simp [tarEntry, hfile]
  | true =>
    cases hpath : tarPath bs off with
    | none => simp [tarEntry, hfile, hpath]
    | some p =>
      obtain ⟨path, cut⟩ := p
      cases cut with
      | true => simp [tarEntry, hfile, hpath]
      | false =>
        have hp := path_eq_iff hpath
        cases hdata : block bs (off + tarHeaderSize) (parseOctal (tarSizeField bs off)) with
        | none =>
          have hentry : tarEntry bs off = none := by simp [tarEntry, hfile, hpath, hdata]
          rw [hentry]
          refine ⟨fun h => absurd h.1 (by decide), fun h => ?_⟩
          obtain ⟨p, hsome, hcut | ⟨-, -, hlt, hin⟩⟩ := h rfl
          · obtain rfl := some.inj hsome
            cases hcut
          -- the payload would be there
          · have hsize := parseOctal_eq (tarSizeField bs off)
            rw [show octalValue (tarSizeField bs off) = memberSize bs off from rfl,
              Nat.mod_eq_of_lt hlt] at hsize
            rw [hsize, block_of_le hin] at hdata
            cases hdata
        | some data =>
          have hentry : tarEntry bs off = some (.file path data) := by simp [tarEntry, hfile, hpath, hdata]
          have hd := payload_eq_iff hdata
          have hmember : tarMember bs off = some (path, data) ↔
              memberPath bs off = path ∧ block bs (off + tarHeaderSize) (memberSize bs off) = some data := by
            unfold tarMember
            rw [map_eq_some_iff]
            constructor
            · rintro ⟨data', hdata', heq⟩
              obtain ⟨rfl, rfl⟩ := Prod.mk.inj heq
              exact ⟨rfl, hdata'⟩
            · rintro ⟨rfl, hdata'⟩
              exact ⟨data, hdata', rfl⟩
          rw [hp, hd] at hmember
          rw [hentry]
          constructor
          · rintro ⟨-, hfiles⟩ -
            obtain ⟨⟨hname, hprefix⟩, hfits⟩ := hmember.1 (hfiles path data rfl)
            exact ⟨_, rfl, .inr ⟨hname, hprefix, hfits⟩⟩
          · intro h
            obtain ⟨p, hsome, hcut | ⟨hname, hprefix, hfits⟩⟩ := h rfl
            · obtain rfl := some.inj hsome
              cases hcut
            · refine ⟨rfl, fun path' data' heq => ?_⟩
              obtain ⟨rfl, rfl⟩ := TarEntry.file.inj (some.inj heq)
              exact hmember.2 ⟨⟨hname, hprefix⟩, hfits⟩

/-! ### The walk -/

theorem mountInitrdFrom_eq (bs : Bytes) (off : ℕ) (s : InitrdMount) : mountInitrdFrom bs off s =
    (records tarHeaderSize_pos bs.length (tarLive bs) (tarAligned bs) off).foldlM
      (fun s o => (tarEntry bs o).map (mountEntry s)) s := by
  induction hn : bs.length + 1 - off using Nat.strong_induction_on generalizing off s with
  | _ n ih =>
    have hpos := tarHeaderSize_pos
    by_cases hlive : off + tarHeaderSize ≤ bs.length ∧ tarLive bs off = true
    · rw [records_live hlive, mountInitrdFrom, if_pos hlive.1, if_pos hlive.2, foldlM_cons]
      cases tarEntry bs off with
      | none => rfl
      | some e =>
        simp only [map_some, bind_eq_bind, bind_some]
        split_ifs with hlast
        · rw [records_end (by omega)]
          rfl
        · exact ih _ (by omega) _ _ rfl
    · rw [records_end hlive, mountInitrdFrom]
      split_ifs <;> simp_all

theorem isSome_foldlM {f : ℕ → Option TarEntry} (l : List ℕ) (s : InitrdMount) :
    (l.foldlM (fun s o => (f o).map (mountEntry s)) s).isSome = true ↔ ∀ o ∈ l, (f o).isSome = true := by
  induction l generalizing s with
  | nil => simp
  | cons o l ih =>
    rw [foldlM_cons]
    cases hf : f o with
    | none => simp [hf]
    | some e => simp [hf, ih]

theorem initrdFaithful_iff (bs : Bytes) :
    InitrdFaithful bs ↔ tarHeaders bs = tarArchive bs ∧ ∀ off ∈ tarHeaders bs, EntryFaithful bs off := by
  have hinside : (∀ s, (vfsMountInitrd bs s).isSome = true) ↔
      ∀ off ∈ tarHeaders bs, (tarEntry bs off).isSome = true := by
    unfold vfsMountInitrd
    simp only [mountInitrdFrom_eq, isSome_foldlM]
    exact ⟨fun h => h ⟨vfsInit, 0, 0⟩, fun h _ => h⟩
  constructor
  · rintro ⟨hwalk, hin, hfiles⟩
    exact ⟨hwalk, fun off hoff => ⟨hinside.1 hin off hoff, fun path data h => (hfiles off hoff path data h).1⟩⟩
  · rintro ⟨hwalk, hall⟩
    refine ⟨hwalk, hinside.2 fun off hoff => (hall off hoff).1, fun off hoff path data h => ?_⟩
    exact ⟨(hall off hoff).2 path data h, tarEntry_path h⟩

/-- **The boot files are the members of their archive** exactly when each of its headers leads to the next
one, and each file's fields end, its size fits and its payload is there. -/
theorem initrd_faithful_iff (bs : Bytes) : InitrdFaithful bs ↔ ∀ off ∈ tarArchive bs, TarFits bs off := by
  rw [initrdFaithful_iff]
  have hwalk : tarHeaders bs = tarArchive bs ↔ _ := records_eq_iff 0
  constructor
  · rintro ⟨hsame, hall⟩ off hoff
    exact ⟨hwalk.1 hsame off hoff, (entryFaithful_iff bs off).1 (hall off (hsame ▸ hoff))⟩
  · intro h
    have hsame := hwalk.2 fun off hoff => (h off hoff).next
    refine ⟨hsame, fun off hoff => (entryFaithful_iff bs off).2 ?_⟩
    rw [hsame] at hoff
    exact (h off hoff).file

/-! ### A name that fills its field -/

/-- A member whose name has 100 characters, of mode 0000644. -/
def longEntry : Bytes :=
  List.replicate 100 0x61 ++ [0x30, 0x30, 0x30, 0x30, 0x36, 0x34, 0x34, 0] ++ List.replicate 16 0 ++ [0x30] ++
    List.replicate 31 0 ++ [0x30] ++ List.replicate 355 0

/-- The mode runs into the name. -/
theorem longEntry_not_faithful : ¬ InitrdFaithful longEntry := by
  intro h
  have hfirst : 0 ∈ tarHeaders longEntry := by
    unfold tarHeaders
    rw [records_live (by decide +kernel)]
    exact mem_cons_self
  have hentry : tarEntry longEntry 0 = some (.file (slash :: longEntry.take 107) []) := by decide +kernel
  have hmember : tarMember longEntry 0 = some (slash :: longEntry.take 100, []) := by decide +kernel
  have heq := (h.files 0 hfirst _ _ hentry).1.symm.trans hmember
  exact absurd heq (by decide +kernel)

end Ridux
