import Ridux.Kernel.Elf32
import Ridux.Proc.Shebang

/-!
# The parsers of 64-bit images

* `elf64Load`, `c3ExecExtractInterp`, `c3ExecCollectElfInfo`: the three parsers; they have no result when
  something outside the file or the slot is used;
* `scanPhdrs`: the loop over the program headers that they share;
* `Elf64Sound`: the table and the segments lie in the file;
* `elf_faithful_iff`: for each parser, and the loader of 32-bit images, exactly when it uses nothing outside,
  accepts sound files only, and gives the interpreter as the file has it.
-/

namespace Ridux

open Lib Function

/-- `elf64_phdr_t`, as far as it is used. -/
structure Elf64Phdr where
  pType : ℕ
  pOffset : ℕ
  pVaddr : ℕ
  pFilesz : ℕ
  pMemsz : ℕ

/-- `sizeof(elf64_ehdr_t)` and `sizeof(elf64_phdr_t)`. -/
def elf64EhdrSize : ℕ := 64

def elf64PhdrSize : ℕ := 56

/-- `elf64_image_t`; the buffer of the interpreter is there with all its bytes. -/
structure Elf64Image where
  used : Bool
  path : Bytes
  entry : ℕ
  baseVaddr : ℕ
  loadEnd : ℕ
  brk : ℕ
  phdrCount : ℕ
  isDynamic : Bool
  interp : Bytes

def elf64MaxImages : ℕ := 8

/-- The size of `interp`. -/
def elf64InterpMax : ℕ := 128

def Elf64Image.zero : Elf64Image := ⟨false, [], 0, 0, 0, 0, 0, false, List.replicate elf64InterpMax 0⟩

/-! ### Headers -/

def elf64Type (bs : Bytes) : ℕ := leField bs 16 2

def elf64Machine (bs : Bytes) : ℕ := leField bs 18 2

def elf64Entry (bs : Bytes) : ℕ := leField bs 24 8

def elf64Phoff (bs : Bytes) : ℕ := leField bs 32 8

def elf64Phentsize (bs : Bytes) : ℕ := leField bs 54 2

def elf64Phnum (bs : Bytes) : ℕ := leField bs 56 2

/-- The fields of a program header. -/
def Elf64Phdr.of (b : Bytes) : Elf64Phdr where
  pType := leField b 0 4
  pOffset := leField b 8 8
  pVaddr := leField b 16 8
  pFilesz := leField b 32 8
  pMemsz := leField b 40 8

/-- The program header `i`, as the loops read it: `some none` ends a loop, and there is no result for a
header outside the file. -/
def elf64Phdr (bs : Bytes) (i : ℕ) : Option (Option Elf64Phdr) :=
  let off := u64 (elf64Phoff bs + i * elf64Phentsize bs)
  if bs.length < u64 (off + elf64PhdrSize) then some none
  else (block bs off elf64PhdrSize).map fun b => some (.of b)

def elf64Phdrs (bs : Bytes) : List (Option (Option Elf64Phdr)) := (List.range (elf64Phnum bs)).map (elf64Phdr bs)

/-- A loop over the program headers; `f` says what it does with one, and whether it is left. -/
def scanPhdrs {σ : Type} (f : Elf64Phdr → σ → Option (σ × Bool)) :
    List (Option (Option Elf64Phdr)) → σ → Option σ
  | [], s => some s
  | none :: _, _ => none
  | some none :: _, s => some s
  | some (some ph) :: l, s => (f ph s).bind fun r => if r.2 then some r.1 else scanPhdrs f l r.1

/-! ### The loader -/

/-- One program header of `elf64_load`. -/
def elf64LoadPhdr (bs : Bytes) (ph : Elf64Phdr) (im : Elf64Image) : Option Elf64Image :=
  let im := if ph.pType = 1 then
      { im with
        baseVaddr := if im.baseVaddr = 0 ∨ ph.pVaddr < im.baseVaddr then ph.pVaddr else im.baseVaddr
        loadEnd := max im.loadEnd (u64 (ph.pVaddr + ph.pMemsz)) }
    else im
  if ph.pType = 3 ∧ u64 (ph.pOffset + ph.pFilesz) ≤ bs.length then
    (block bs ph.pOffset (min ph.pFilesz 127)).bind fun part =>
      (poke im.interp 0 (part ++ [0])).map fun interp => { im with interp := interp }
  else some im

/-- The file is of a kind that `elf64_load` takes. -/
def elf64Takes (bs : Bytes) : Bool :=
  elf64Validate bs ∧ elf64Machine bs = 62 ∧ (elf64Type bs = 2 ∨ elf64Type bs = 3)

/-- An image before its program headers are read. -/
def elf64Fresh (bs name : Bytes) : Elf64Image where
  used := true
  path := strlcpy 128 name
  entry := elf64Entry bs
  baseVaddr := 0
  loadEnd := 0
  brk := 0
  phdrCount := elf64Phnum bs
  isDynamic := decide (elf64Type bs = 3)
  interp := List.replicate elf64InterpMax 0

/-- `elf64_load`: the slot, if there is no failure. -/
def elf64Load (bs name : Bytes) (images : ℕ → Elf64Image) : Option (Option ℕ × (ℕ → Elf64Image)) :=
  if !elf64Takes bs then some (none, images)
  else
    match firstSlot (fun i => !(images i).used) elf64MaxImages with
    | none => some (none, images)
    | some slot =>
      (scanPhdrs (fun ph im => (elf64LoadPhdr bs ph im).map fun im => (im, false)) (elf64Phdrs bs)
        (elf64Fresh bs name)).map fun im =>
        (some slot, update images slot { im with brk := im.loadEnd })

/-! ### The parsers of `execve` -/

/-- `-EINVAL` and `-ENOEXEC`. -/
inductive ExecError
  | einval | enoexec
  deriving DecidableEq

/-- The segment of an interpreter is refused. -/
def interpRefused (bs : Bytes) (ph : Elf64Phdr) : Prop :=
  bs.length < u64 (ph.pOffset + ph.pFilesz) ∨ ph.pFilesz = 0

instance (bs : Bytes) (ph : Elf64Phdr) : Decidable (interpRefused bs ph) := instDecidableOr

/-- One program header of `c3_exec_extract_interp`. -/
def extractPhdr (bs : Bytes) (outCap : ℕ) (ph : Elf64Phdr) (found : Option (Except ExecError Bytes)) :
    Option (Option (Except ExecError Bytes) × Bool) :=
  if ph.pType ≠ 3 then some (found, false)
  else if interpRefused bs ph then some (some (.error .enoexec), true)
  else
    let il := if outCap ≤ ph.pFilesz then outCap - 1 else ph.pFilesz
    (if 0 < il then block bs ph.pOffset il else some []).map fun part => (some (.ok (part ++ [0])), true)

/-- `c3_exec_extract_interp`: the interpreter, and whether the file needs one. -/
def c3ExecExtractInterp (bs : Bytes) (outCap : ℕ) : Option (Except ExecError (Bytes × Bool)) :=
  if bs = [] ∨ outCap = 0 then some (.error .einval)
  else if !elf64Validate bs then some (.error .enoexec)
  else
    (scanPhdrs (extractPhdr bs outCap) (elf64Phdrs bs) none).map fun found =>
      (found.getD (.ok [0])).map fun out => (out, decide (elf64Type bs = 3))

/-- What `c3_exec_collect_elf_info` gives. -/
structure ElfInfo where
  loadBias : ℕ
  entry : ℕ
  phdr : ℕ
  phent : ℕ
  phnum : ℕ

/-- One program header of the loop for the lowest page, and of that for the table. -/
def lowestPhdr (ph : Elf64Phdr) (minVaddr : ℕ) : Option (ℕ × Bool) :=
  some (if ph.pType ≠ 1 then minVaddr else min minVaddr (ph.pVaddr / 4096 * 4096), false)

def tablePhdr (lb : ℕ) (ph : Elf64Phdr) (phdrVa : ℕ) : Option (ℕ × Bool) :=
  some (if ph.pType = 6 then (u64 (ph.pVaddr + lb), true) else (phdrVa, false))

/-- `lb`, from where the image may lie and its lowest page. -/
def loadBiasOf (mmapSeed minVaddr : ℕ) : ℕ :=
  let minVaddr := if minVaddr = 2 ^ 64 - 1 then 0 else minVaddr
  u64 (max mmapSeed 0x40000000 + 2 ^ 64 - minVaddr) / 4096 * 4096

def c3ExecCollectElfInfo (bs : Bytes) (mmapSeed : ℕ) : Option (Except ExecError ElfInfo) :=
  if bs = [] then some (.error .einval)
  else if !elf64Validate bs then some (.error .enoexec)
  else
    let bias := if elf64Type bs = 3 then
        (scanPhdrs lowestPhdr (elf64Phdrs bs) (2 ^ 64 - 1)).map (loadBiasOf mmapSeed)
      else some 0
    bias.bind fun lb =>
      (scanPhdrs (tablePhdr lb) (elf64Phdrs bs) 0).map fun phdrVa =>
        .ok ⟨lb, u64 (elf64Entry bs + lb), if phdrVa = 0 then u64 (lb + elf64Phoff bs) else phdrVa,
          if elf64Phentsize bs = 0 then elf64PhdrSize else elf64Phentsize bs, elf64Phnum bs⟩

/-! ### What is promised -/

/-- The program headers at their places in the file. -/
def elf64Table (bs : Bytes) : List Elf64Phdr :=
  (List.range (elf64Phnum bs)).map fun i =>
    .of ((bs.drop (elf64Phoff bs + i * elf64Phentsize bs)).take elf64PhdrSize)

/-- The header and the table lie in the file, the segments that are loaded and those of an interpreter too,
and what is loaded lies in the address space. -/
structure Elf64Sound (bs : Bytes) : Prop where
  header : elf64EhdrSize ≤ bs.length
  table : ∀ i < elf64Phnum bs, elf64Phoff bs + i * elf64Phentsize bs + elf64PhdrSize ≤ bs.length
  segments : ∀ ph ∈ elf64Table bs, ph.pType = 1 ∨ ph.pType = 3 → ph.pOffset + ph.pFilesz ≤ bs.length
  space : ∀ ph ∈ elf64Table bs, ph.pType = 1 → ph.pVaddr + ph.pMemsz < 2 ^ 64

/-- The segments of interpreters. -/
def interpSegments (bs : Bytes) (phs : List Elf64Phdr) : List Bytes :=
  (phs.filter fun ph => decide (ph.pType = 3)).map fun ph => (bs.drop ph.pOffset).take ph.pFilesz

/-- The segment ends with a zero, and what is before it has so much room. -/
def InterpFits (cap : ℕ) (seg : Bytes) : Prop := 0 ∈ seg ∧ (cstr seg).length < cap

/-- `elf64_load` uses nothing outside the file and the slot; a file that it takes is sound, and the
interpreter is the string of the last segment. -/
def Elf64LoadFaithful (file : ElfFile) : Prop :=
  ∀ name images, ∃ r images', elf64Load file.1 name images = some (r, images') ∧
    ∀ slot, r = some slot → Elf64Sound file.1 ∧ ∀ seg,
      (interpSegments file.1 (elf64Table file.1)).getLast? = some seg →
        0 ∈ seg ∧ cstr (images' slot).interp = cstr seg

/-- `c3_exec_collect_elf_info` uses nothing outside the file, and a file that it takes is sound. -/
def CollectFaithful (file : ElfFile) : Prop :=
  ∀ mmapSeed, ∃ r, c3ExecCollectElfInfo file.1 mmapSeed = some r ∧ ∀ info, r = .ok info → Elf64Sound file.1

/-- `c3_exec_extract_interp` uses nothing outside the file; a file that it takes is sound, and the
interpreter is the string of the first segment. -/
def ExtractFaithful (file : ElfFile) (outCap : ℕ) : Prop :=
  ∃ r, c3ExecExtractInterp file.1 outCap = some r ∧ ∀ out needs, r = .ok (out, needs) →
    Elf64Sound file.1 ∧ ∀ seg, (interpSegments file.1 (elf64Table file.1)).head? = some seg →
      0 ∈ seg ∧ cstr out = cstr seg

/-- The first interpreter header that the loop reads has a segment that is refused. -/
def FirstRefused (bs : Bytes) : Prop :=
  ∃ (before : List Elf64Phdr) (ph : Elf64Phdr) (after : List (Option (Option Elf64Phdr))),
    elf64Phdrs bs = before.map (fun p => some (some p)) ++ some (some ph) :: after ∧
      (∀ p ∈ before, p.pType ≠ 3) ∧ ph.pType = 3 ∧ interpRefused bs ph

/-! ### Texts -/

theorem exists_cstr {seg : Bytes} (h : 0 ∈ seg) : ∃ t, seg = cstr seg ++ 0 :: t := by
  unfold cstr
  induction seg with
  | nil => cases h
  | cons c seg ih =>
    by_cases hc : c = 0
    · subst hc
      exact ⟨seg, by simp⟩
    · obtain ⟨t, ht⟩ := ih ((List.mem_cons.1 h).resolve_left (Ne.symm hc))
      refine ⟨t, ?_⟩
      rw [List.takeWhile_cons_of_pos (by simpa using hc), List.cons_append, ← ht]

theorem length_cstr_append_zero (s t : Bytes) : (cstr (s ++ 0 :: t)).length ≤ s.length := by
  induction s with
  | nil => simp [cstr]
  | cons c s ih =>
    unfold cstr at ih ⊢
    by_cases hc : c = 0
    · simp [hc]
    · rw [List.cons_append, List.takeWhile_cons_of_pos (by simpa using hc), List.length_cons, List.length_cons]
      omega

/-- **A text that is cut** to `n` bytes is whole exactly when it has no more. -/
theorem cstr_take_iff {seg : Bytes} (h : 0 ∈ seg) (n : ℕ) (t : Bytes) :
    cstr (seg.take n ++ 0 :: t) = cstr seg ↔ (cstr seg).length ≤ n := by
  constructor
  · intro heq
    have hlen := length_cstr_append_zero (seg.take n) t
    rw [heq, List.length_take] at hlen
    omega
  · intro hle
    obtain ⟨rest, hrest⟩ := exists_cstr h
    have hno := zero_not_mem_cstr seg
    have htake : seg.take n ++ 0 :: t =
        cstr seg ++ 0 :: (((0 :: rest).take (n - (cstr seg).length) ++ 0 :: t).tail) := by
      conv_lhs => rw [hrest]
      rw [List.take_append, List.take_of_length_le hle, List.append_assoc]
      cases n - (cstr seg).length <;> simp
    rw [htake, cstr_append_zero hno]

/-! ### The table -/

variable {bs : Bytes}

theorem elf64Phdrs_eq (hlen : bs.length < 2 ^ 32)
    (h : ∀ i < elf64Phnum bs, elf64Phoff bs + i * elf64Phentsize bs + elf64PhdrSize ≤ bs.length) :
    elf64Phdrs bs = (elf64Table bs).map fun ph => some (some ph) := by
  unfold elf64Phdrs elf64Table
  rw [List.map_map]
  refine List.map_congr_left fun i hi => ?_
  have hrow := h i (List.mem_range.1 hi)
  have hsize : elf64PhdrSize = 56 := rfl
  have hoff : u64 (elf64Phoff bs + i * elf64Phentsize bs) = elf64Phoff bs + i * elf64Phentsize bs :=
    Nat.mod_eq_of_lt (by omega)
  have hend : u64 (elf64Phoff bs + i * elf64Phentsize bs + elf64PhdrSize) =
      elf64Phoff bs + i * elf64Phentsize bs + elf64PhdrSize := Nat.mod_eq_of_lt (by omega)
  unfold elf64Phdr
  dsimp only
  rw [hoff, hend, if_neg (by omega), block_of_le hrow]
  rfl

section Scan

variable {σ : Type} {f : Elf64Phdr → σ → Option (σ × Bool)}

theorem scanPhdrs_cons (ph : Elf64Phdr) (l : List (Option (Option Elf64Phdr))) (s : σ) :
    scanPhdrs f (some (some ph) :: l) s = (f ph s).bind fun r => if r.2 then some r.1 else scanPhdrs f l r.1 := by
  rw [scanPhdrs]

theorem scanPhdrs_isSome (phs : List Elf64Phdr) (s : σ) (h : ∀ ph ∈ phs, ∀ s, (f ph s).isSome = true) :
    (scanPhdrs f (phs.map fun ph => some (some ph)) s).isSome = true := by
  induction phs generalizing s with
  | nil => rfl
  | cons ph phs ih =>
    obtain ⟨hph, hphs⟩ := List.forall_mem_cons.1 h
    obtain ⟨r, hr⟩ := Option.isSome_iff_exists.1 (hph s)
    rw [List.map_cons, scanPhdrs_cons, hr, Option.bind_some]
    split_ifs
    · rfl
    · exact ih r.1 hphs

end Scan

/-! ### The loader -/

theorem interpSegments_cons (ph : Elf64Phdr) (phs : List Elf64Phdr) : interpSegments bs (ph :: phs) =
    if ph.pType = 3 then (bs.drop ph.pOffset).take ph.pFilesz :: interpSegments bs phs
    else interpSegments bs phs := by
  unfold interpSegments
  rw [List.filter_cons]
  split_ifs <;> simp_all

theorem elf64LoadPhdr_spec (hlen : bs.length < 2 ^ 32) {ph : Elf64Phdr} (im : Elf64Image)
    (hbuf : im.interp.length = elf64InterpMax) (hseg : ph.pType = 3 → ph.pOffset + ph.pFilesz ≤ bs.length) :
    ∃ im', elf64LoadPhdr bs ph im = some im' ∧ im'.interp.length = elf64InterpMax ∧
      (ph.pType = 3 → ∃ t, im'.interp = ((bs.drop ph.pOffset).take ph.pFilesz).take 127 ++ 0 :: t) ∧
      (ph.pType ≠ 3 → im'.interp = im.interp) := by
  unfold elf64LoadPhdr
  dsimp only
  by_cases hinterp : ph.pType = 3
  · have hload : ph.pType ≠ 1 := by omega
    have hin := hseg hinterp
    have hsum : u64 (ph.pOffset + ph.pFilesz) ≤ bs.length := by
      unfold u64
      omega
    have hmax : elf64InterpMax = 128 := rfl
    have hpart : (bs.drop ph.pOffset).take (min ph.pFilesz 127) =
        ((bs.drop ph.pOffset).take ph.pFilesz).take 127 := by rw [List.take_take, Nat.min_comm]
    obtain ⟨interp, hinterp', hlen', -⟩ := poke_eq_some im.interp 0
      ((bs.drop ph.pOffset).take (min ph.pFilesz 127) ++ [0]) (by simp; omega)
    rw [if_neg hload, if_pos ⟨hinterp, hsum⟩, block_of_le (by omega), Option.bind_some, hinterp', Option.map_some]
    have hshape : ∃ t, interp = ((bs.drop ph.pOffset).take ph.pFilesz).take 127 ++ 0 :: t := by
      unfold poke within at hinterp'
      split_ifs at hinterp'
      rw [hpart, List.take_zero, List.nil_append, List.append_assoc] at hinterp'
      exact ⟨_, (Option.some.inj hinterp').symm⟩
    exact ⟨_, rfl, hlen'.trans hbuf, fun _ => hshape, fun h => absurd hinterp h⟩
  · rw [if_neg fun h => hinterp h.1]
    refine ⟨_, rfl, ?_, fun h => absurd h hinterp, fun _ => ?_⟩ <;> split_ifs <;> first | exact hbuf | rfl

/-- **The loop of the loader**: what it leaves in the buffer is the last interpreter, cut to its room. -/
theorem scan_elf64Load (hlen : bs.length < 2 ^ 32) (phs : List Elf64Phdr) (im : Elf64Image)
    (hbuf : im.interp.length = elf64InterpMax)
    (hseg : ∀ ph ∈ phs, ph.pType = 3 → ph.pOffset + ph.pFilesz ≤ bs.length) :
    ∃ im', scanPhdrs (fun ph im => (elf64LoadPhdr bs ph im).map fun im => (im, false))
        (phs.map fun ph => some (some ph)) im = some im' ∧
      (interpSegments bs phs = [] → im'.interp = im.interp) ∧
      ∀ seg, (interpSegments bs phs).getLast? = some seg → ∃ t, im'.interp = seg.take 127 ++ 0 :: t := by
  induction phs generalizing im with
  | nil => exact ⟨im, rfl, fun _ => rfl, fun _ h => nomatch h⟩
  | cons ph phs ih =>
    obtain ⟨hph, hphs⟩ := List.forall_mem_cons.1 hseg
    obtain ⟨im₁, hstep, hbuf₁, hset, hkeep⟩ := elf64LoadPhdr_spec hlen im hbuf hph
    obtain ⟨im', hscan, hnone, hlast⟩ := ih im₁ hbuf₁ hphs
    refine ⟨im', ?_, ?_, ?_⟩
    · rw [List.map_cons, scanPhdrs_cons, hstep]
      exact hscan
    · intro hnil
      rw [interpSegments_cons] at hnil
      split_ifs at hnil with hinterp
      rw [hnone hnil, hkeep hinterp]
    · intro seg hseg'
      rw [interpSegments_cons] at hseg'
      split_ifs at hseg' with hinterp
      · cases hrest : interpSegments bs phs with
        | nil =>
          rw [hrest, List.getLast?_singleton] at hseg'
          rw [← Option.some.inj hseg', hnone hrest]
          exact hset hinterp
        | cons x xs =>
          rw [hrest, List.getLast?_cons_cons, ← hrest] at hseg'
          exact hlast seg hseg'
      · exact hlast seg hseg'

/-- **The loader** meets what is promised exactly for the files that it does not take, and for sound ones
whose last interpreter fits its buffer. -/
theorem elf64Load_faithful_iff (file : ElfFile) : Elf64LoadFaithful file ↔
    (elf64Takes file.1 = true → Elf64Sound file.1 ∧ ∀ seg,
      (interpSegments file.1 (elf64Table file.1)).getLast? = some seg → InterpFits elf64InterpMax seg) := by
  have hsegs : Elf64Sound file.1 → ∀ ph ∈ elf64Table file.1, ph.pType = 3 →
      ph.pOffset + ph.pFilesz ≤ file.1.length := fun h ph hph hinterp => h.segments ph hph (.inr hinterp)
  constructor
  · intro h htakes
    obtain ⟨r, images', hload, hok⟩ := h [] fun _ => .zero
    have hslot : firstSlot (fun i => !((fun _ => Elf64Image.zero) i : Elf64Image).used) elf64MaxImages = some 0 := by
      decide
    unfold elf64Load at hload
    simp only [htakes, hslot, Bool.not_true, Bool.false_eq_true, if_false] at hload
    obtain ⟨im, hscan, heq⟩ := Option.map_eq_some_iff.1 hload
    obtain ⟨rfl, rfl⟩ := Prod.mk.inj heq
    obtain ⟨hsound, hstr⟩ := hok 0 rfl
    refine ⟨hsound, fun seg hseg => ?_⟩
    obtain ⟨hzero, hcstr⟩ := hstr seg hseg
    rw [elf64Phdrs_eq file.2 hsound.table] at hscan
    obtain ⟨im', hscan', -, hlast⟩ := scan_elf64Load file.2 (elf64Table file.1)
      (elf64Fresh file.1 []) (List.length_replicate ..) (hsegs hsound)
    obtain rfl := Option.some.inj (hscan.symm.trans hscan')
    obtain ⟨t, ht⟩ := hlast seg hseg
    rw [update_self, ht, cstr_take_iff hzero] at hcstr
    exact ⟨hzero, Nat.lt_succ_of_le hcstr⟩
  · intro h name images
    unfold elf64Load
    split_ifs with htakes
    · exact ⟨_, _, rfl, fun _ hr => nomatch hr⟩
    obtain ⟨hsound, hfits⟩ := h (by simpa using htakes)
    cases firstSlot (fun i => !(images i).used) elf64MaxImages with
    | none => exact ⟨_, _, rfl, fun _ hr => nomatch hr⟩
    | some slot =>
      dsimp only
      rw [elf64Phdrs_eq file.2 hsound.table]
      obtain ⟨im', hscan, -, hlast⟩ := scan_elf64Load file.2 (elf64Table file.1)
        (elf64Fresh file.1 name) (List.length_replicate ..) (hsegs hsound)
      rw [hscan]
      refine ⟨_, _, rfl, fun slot' hr => ⟨hsound, fun seg hseg => ?_⟩⟩
      obtain rfl := Option.some.inj hr
      obtain ⟨hzero, hlt⟩ := hfits seg hseg
      obtain ⟨t, ht⟩ := hlast seg hseg
      refine ⟨hzero, ?_⟩
      rw [update_self, ht, cstr_take_iff hzero]
      exact Nat.le_of_lt_succ hlt

/-! ### The parsers of `execve` -/

theorem ne_nil_of_validate (h : elf64Validate bs = true) : bs ≠ [] := by
  rintro rfl
  revert h
  decide

/-- **The parser of the addresses** meets what is promised exactly for the files that it does not take, and
for sound ones. -/
theorem collect_faithful_iff (file : ElfFile) : CollectFaithful file ↔
    (elf64Validate file.1 = true → Elf64Sound file.1) := by
  constructor
  · intro h hvalid
    obtain ⟨r, hr, hok⟩ := h 0
    unfold c3ExecCollectElfInfo at hr
    simp only [ne_nil_of_validate hvalid, hvalid, Bool.not_true, Bool.false_eq_true, if_false] at hr
    obtain ⟨lb, -, hr⟩ := Option.bind_eq_some_iff.1 hr
    obtain ⟨phdrVa, -, rfl⟩ := Option.map_eq_some_iff.1 hr
    exact hok _ rfl
  · intro h mmapSeed
    unfold c3ExecCollectElfInfo
    by_cases hnil : file.1 = []
    · rw [if_pos hnil]
      exact ⟨_, rfl, fun _ hr => nomatch hr⟩
    rw [if_neg hnil]
    by_cases hvalid : elf64Validate file.1 = true
    case neg =>
      rw [if_pos (by simpa using hvalid)]
      exact ⟨_, rfl, fun _ hr => nomatch hr⟩
    rw [if_neg (by simpa using hvalid)]
    have hsound := h hvalid
    rw [elf64Phdrs_eq file.2 hsound.table]
    obtain ⟨m, hm⟩ := Option.isSome_iff_exists.1 (scanPhdrs_isSome (f := lowestPhdr) (elf64Table file.1)
      (2 ^ 64 - 1) fun _ _ _ => rfl)
    have hbias : ∃ lb, (if elf64Type file.1 = 3 then
        (scanPhdrs lowestPhdr ((elf64Table file.1).map fun ph => some (some ph)) (2 ^ 64 - 1)).map
          (loadBiasOf mmapSeed) else some 0) = some lb := by
      split_ifs
      · exact ⟨_, by rw [hm]; rfl⟩
      · exact ⟨0, rfl⟩
    obtain ⟨lb, hlb⟩ := hbias
    obtain ⟨va, hva⟩ := Option.isSome_iff_exists.1 (scanPhdrs_isSome (f := tablePhdr lb) (elf64Table file.1)
      0 fun _ _ _ => rfl)
    dsimp only
    rw [hlb, Option.bind_some, hva]
    exact ⟨_, rfl, fun _ _ => hsound⟩

theorem scan_extract_error (outCap : ℕ) (hs : List (Option (Option Elf64Phdr))) (e : ExecError) :
    scanPhdrs (extractPhdr bs outCap) hs none = some (some (.error e)) ↔ e = .enoexec ∧
      ∃ (before : List Elf64Phdr) (ph : Elf64Phdr) (after : List (Option (Option Elf64Phdr))),
        hs = before.map (fun p => some (some p)) ++ some (some ph) :: after ∧
          (∀ p ∈ before, p.pType ≠ 3) ∧ ph.pType = 3 ∧ interpRefused bs ph := by
  constructor
  · intro h
    induction hs with
    | nil => cases Option.some.inj h
    | cons o hs ih =>
      match o with
      | none => cases h
      | some none => cases Option.some.inj h
      | some (some ph) =>
        rw [scanPhdrs_cons] at h
        unfold extractPhdr at h
        dsimp only at h
        split_ifs at h with htype hrefused
        -- a header of another kind
        · obtain ⟨he, before, ph', after, rfl, hbefore, hph'⟩ := ih h
          exact ⟨he, ph :: before, ph', after, rfl, List.forall_mem_cons.2 ⟨htype, hbefore⟩, hph'⟩
        · obtain rfl := Except.error.inj (Option.some.inj (Option.some.inj h))
          exact ⟨rfl, [], ph, hs, rfl, by simp, not_not.1 htype, hrefused⟩
        all_goals
          obtain ⟨r, hr, hres⟩ := Option.bind_eq_some_iff.1 h
          obtain ⟨part, -, rfl⟩ := Option.map_eq_some_iff.1 hr
          cases Option.some.inj hres
  · rintro ⟨rfl, before, ph, after, rfl, hbefore, htype, hrefused⟩
    induction before with
    | nil =>
      rw [List.map_nil, List.nil_append, scanPhdrs_cons]
      unfold extractPhdr
      rw [if_neg (not_not.2 htype), if_pos hrefused]
      rfl
    | cons p before ih =>
      obtain ⟨hp, hrest⟩ := List.forall_mem_cons.1 hbefore
      rw [List.map_cons, List.cons_append, scanPhdrs_cons]
      unfold extractPhdr
      rw [if_pos hp]
      exact ih hrest

/-- **The loop over a table that lies in the file**: it finds nothing, refuses the first interpreter, or gives
as much of it as there is room for. -/
theorem scan_extract {outCap : ℕ} (hcap : 0 < outCap) (phs : List Elf64Phdr)
    (hseg : ∀ ph ∈ phs, ph.pType = 3 → ph.pOffset + ph.pFilesz ≤ bs.length) :
    interpSegments bs phs = [] ∧
        scanPhdrs (extractPhdr bs outCap) (phs.map fun ph => some (some ph)) none = some none ∨
      ∃ seg, (interpSegments bs phs).head? = some seg ∧
        (scanPhdrs (extractPhdr bs outCap) (phs.map fun ph => some (some ph)) none = some (some (.error .enoexec)) ∨
          scanPhdrs (extractPhdr bs outCap) (phs.map fun ph => some (some ph)) none =
            some (some (.ok (seg.take (outCap - 1) ++ [0])))) := by
  induction phs with
  | nil => exact .inl ⟨rfl, rfl⟩
  | cons ph phs ih =>
    obtain ⟨hph, hphs⟩ := List.forall_mem_cons.1 hseg
    rw [List.map_cons, scanPhdrs_cons, interpSegments_cons]
    by_cases htype : ph.pType = 3
    · right
      refine ⟨(bs.drop ph.pOffset).take ph.pFilesz, by rw [if_pos htype]; rfl, ?_⟩
      have hin := hph htype
      unfold extractPhdr
      rw [if_neg (not_not.2 htype)]
      by_cases hrefused : interpRefused bs ph
      · rw [if_pos hrefused]
        exact .inl rfl
      · right
        have hil : ((bs.drop ph.pOffset).take ph.pFilesz).take (outCap - 1) =
            (bs.drop ph.pOffset).take (if outCap ≤ ph.pFilesz then outCap - 1 else ph.pFilesz) := by
          rw [List.take_take]
          congr 1
          split_ifs <;> omega
        have hle : (if outCap ≤ ph.pFilesz then outCap - 1 else ph.pFilesz) ≤ ph.pFilesz := by
          split_ifs <;> omega
        rw [if_neg hrefused, hil]
        dsimp only
        by_cases hpos : 0 < if outCap ≤ ph.pFilesz then outCap - 1 else ph.pFilesz
        · rw [if_pos hpos, block_of_le (by omega)]
          rfl
        · rw [if_neg hpos, Nat.eq_zero_of_not_pos hpos]
          rfl
    · unfold extractPhdr
      rw [if_pos htype, if_neg htype]
      exact ih hphs

/-- **The parser of the interpreter** meets what is promised exactly for the files that it does not take, for
those whose first interpreter header can be read and is refused, and for sound ones whose first interpreter
fits the buffer. -/
theorem extract_faithful_iff (file : ElfFile) (outCap : ℕ) : ExtractFaithful file outCap ↔
    (0 < outCap → elf64Validate file.1 = true → FirstRefused file.1 ∨ Elf64Sound file.1 ∧ ∀ seg,
      (interpSegments file.1 (elf64Table file.1)).head? = some seg → InterpFits outCap seg) := by
  have hsegs : Elf64Sound file.1 → ∀ ph ∈ elf64Table file.1, ph.pType = 3 →
      ph.pOffset + ph.pFilesz ≤ file.1.length := fun h ph hph hinterp => h.segments ph hph (.inr hinterp)
  unfold ExtractFaithful c3ExecExtractInterp
  constructor
  · intro h hcap hvalid
    simp only [ne_nil_of_validate hvalid, hcap.ne', hvalid, or_self, Bool.not_true, Bool.false_eq_true,
      if_false] at h
    obtain ⟨r, hr, hok⟩ := h
    obtain ⟨found, hscan, rfl⟩ := Option.map_eq_some_iff.1 hr
    by_cases herr : found = some (.error .enoexec)
    · rw [herr] at hscan
      exact .inl ((scan_extract_error outCap _ _).1 hscan).2
    -- what is not refused is taken
    · right
      have hsound : Elf64Sound file.1 := by
        match found, hscan, herr, hok with
        | none, _, _, hok => exact (hok _ _ rfl).1
        | some (.ok out), _, _, hok => exact (hok _ _ rfl).1
        | some (.error e), hscan, herr, _ => exact absurd (by rw [((scan_extract_error outCap _ e).1 hscan).1]) herr
      refine ⟨hsound, fun seg hseg => ?_⟩
      rw [elf64Phdrs_eq file.2 hsound.table] at hscan
      rcases scan_extract hcap (elf64Table file.1) (hsegs hsound) with
        ⟨hnil, -⟩ | ⟨seg', hseg', herr' | hfound⟩
      · rw [hnil] at hseg
        cases hseg
      · exact absurd (Option.some.inj (hscan.symm.trans herr')) herr
      · obtain rfl := Option.some.inj (hseg.symm.trans hseg')
        obtain rfl := Option.some.inj (hscan.symm.trans hfound)
        obtain ⟨hzero, hcstr⟩ := (hok _ _ rfl).2 seg hseg
        have hle := (cstr_take_iff hzero (outCap - 1) []).1 hcstr
        exact ⟨hzero, by omega⟩
  · intro h
    split_ifs with harg hvalid
    · exact ⟨_, rfl, fun _ _ hr => nomatch hr⟩
    · exact ⟨_, rfl, fun _ _ hr => nomatch hr⟩
    have hcap : 0 < outCap := Nat.pos_of_ne_zero (not_or.1 harg).2
    rcases h hcap (by simpa using hvalid) with hrefused | ⟨hsound, hfits⟩
    · rw [(scan_extract_error outCap _ .enoexec).2 ⟨rfl, hrefused⟩]
      exact ⟨_, rfl, fun _ _ hr => nomatch hr⟩
    · rw [elf64Phdrs_eq file.2 hsound.table]
      rcases scan_extract hcap (elf64Table file.1) (hsegs hsound) with
        ⟨hnil, hscan⟩ | ⟨seg, hseg, hscan | hscan⟩
      · rw [hscan]
        refine ⟨_, rfl, fun _ _ _ => ⟨hsound, fun seg hseg => ?_⟩⟩
        rw [hnil] at hseg
        cases hseg
      · rw [hscan]
        exact ⟨_, rfl, fun _ _ hr => nomatch hr⟩
      · rw [hscan]
        refine ⟨_, rfl, fun out needs hr => ⟨hsound, fun seg' hseg' => ?_⟩⟩
        obtain ⟨rfl, -⟩ := Prod.mk.inj (Except.ok.inj hr)
        obtain rfl := Option.some.inj (hseg.symm.trans hseg')
        obtain ⟨hzero, hlt⟩ := hfits seg hseg
        exact ⟨hzero, (cstr_take_iff hzero (outCap - 1) []).2 (by omega)⟩

/-- **The parsers of images**, each with the files for which it uses nothing outside the file and its
destination, takes sound files only, and gives the interpreter as the file has it: the loader of 32-bit images,
the loader of 64-bit images, and the two parsers of `execve`. -/
theorem elf_faithful_iff (file : ElfFile) (outCap : ℕ) :
    (Elf32Faithful file ↔ ∀ sp, elf32Validate file.1 = some (.ok sp) → Elf32NoWrap file.1) ∧
    (Elf64LoadFaithful file ↔ (elf64Takes file.1 = true → Elf64Sound file.1 ∧ ∀ seg,
      (interpSegments file.1 (elf64Table file.1)).getLast? = some seg → InterpFits elf64InterpMax seg)) ∧
    (CollectFaithful file ↔ (elf64Validate file.1 = true → Elf64Sound file.1)) ∧
    (ExtractFaithful file outCap ↔ (0 < outCap → elf64Validate file.1 = true →
      FirstRefused file.1 ∨ Elf64Sound file.1 ∧ ∀ seg,
        (interpSegments file.1 (elf64Table file.1)).head? = some seg → InterpFits outCap seg)) :=
  ⟨elf32_faithful_iff file, elf64Load_faithful_iff file, collect_faithful_iff file,
    extract_faithful_iff file outCap⟩

/-- A header of 64 bytes with one program header, 56 bytes before the end of the address space. -/
def wrapFile : ElfFile :=
  ⟨[0x7F, 0x45, 0x4C, 0x46, 2, 1] ++ List.replicate 10 0 ++ [2, 0, 62, 0] ++ List.replicate 12 0 ++
    [0xC8, 0xFF, 0xFF, 0xFF, 0xFF, 0xFF, 0xFF, 0xFF] ++ List.replicate 16 0 ++ [1, 0] ++ List.replicate 6 0,
    by decide⟩

/-- Its program header is read outside the file. -/
theorem wrapFile_not_faithful :
    ¬ ExtractFaithful wrapFile 256 ∧ ¬ CollectFaithful wrapFile ∧ ¬ Elf64LoadFaithful wrapFile := by
  have hextract : c3ExecExtractInterp wrapFile.1 256 = none := by decide +kernel
  refine ⟨?_, ?_, ?_⟩
  · rintro ⟨r, hr, -⟩
    rw [hextract] at hr
    cases hr
  · intro h
    have hsound := (collect_faithful_iff wrapFile).1 h (by decide +kernel)
    exact absurd (hsound.table 0 (by decide +kernel)) (by decide +kernel)
  · intro h
    have hsound := ((elf64Load_faithful_iff wrapFile).1 h (by decide +kernel)).1
    exact absurd (hsound.table 0 (by decide +kernel)) (by decide +kernel)

end Ridux
