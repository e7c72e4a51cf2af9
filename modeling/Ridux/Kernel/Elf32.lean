import Ridux.Kernel.Processes
import Ridux.Lib.Overlay
import Ridux.Lib.Words
import Ridux.Pmm.Basic
import Ridux.Vfs.Node

/-!
# The loader of 32-bit images

* `ElfFile`, `leField`: a file, and the numbers in it;
* `elfLoadFromVfs`: `elf_load_from_vfs`; it has no result when something outside the file or outside the
  memory of the image is used;
* `Elf32Faithful`: nothing outside is used, and what is loaded is sound and looks as its segments say;
* `elf32_faithful_iff`: exactly when no segment of a file that passes the tests wraps.
-/

namespace Ridux

open Lib Function List Option

/-- The bytes of a file, whose size is an `uint32_t`. -/
abbrev ElfFile := {data : Bytes // data.length < 2 ^ 32}

def elfImageMemMax : ℕ := 131072

/-- The results of `elf_load_from_vfs` that are not `ELF_LOAD_OK`. -/
inductive ElfLoadError
  | notFound | badFormat | tooLarge | noSlot
  deriving DecidableEq

/-- `elf32_phdr_t`, as far as it is used. -/
structure Elf32Phdr where
  pType : ℕ
  pOffset : ℕ
  pVaddr : ℕ
  pFilesz : ℕ
  pMemsz : ℕ

/-- `sizeof(elf32_ehdr_t)` and `sizeof(elf32_phdr_t)`. -/
def elf32EhdrSize : ℕ := 52

def elf32PhdrSize : ℕ := 32

/-! ### Headers -/

/-- The fields of the header of a file. -/
def elf32Entry (bs : Bytes) : ℕ := leField bs 24 4

def elf32Phoff (bs : Bytes) : ℕ := leField bs 28 4

def elf32Phentsize (bs : Bytes) : ℕ := leField bs 42 2

def elf32Phnum (bs : Bytes) : ℕ := leField bs 44 2

/-- The fields of a program header. -/
def Elf32Phdr.of (b : Bytes) : Elf32Phdr where
  pType := leField b 0 4
  pOffset := leField b 4 4
  pVaddr := leField b 8 4
  pFilesz := leField b 16 4
  pMemsz := leField b 20 4

/-- The program header `i`, when it lies in the file. -/
def elf32Phdr (bs : Bytes) (i : ℕ) : Option Elf32Phdr :=
  (block bs (elf32Phoff bs + i * elf32PhdrSize) elf32PhdrSize).map .of

/-- The program headers, as a loop reads them. -/
def elf32Phdrs (bs : Bytes) : List (Option Elf32Phdr) := (List.range (elf32Phnum bs)).map (elf32Phdr bs)

/-! ### The tests -/

/-- `minv`, `maxv` and `has_load`. -/
structure Elf32Span where
  minv : ℕ
  maxv : ℕ
  hasLoad : Bool

/-- The first loop of `elf_load_from_vfs`. -/
def elf32Check (size : ℕ) : List (Option Elf32Phdr) → Elf32Span → Option (Except ElfLoadError Elf32Span)
  | [], sp => some (.ok sp)
  | none :: _, _ => none
  | some ph :: l, sp =>
    if ph.pType ≠ 1 then elf32Check size l sp
    else if ph.pMemsz < ph.pFilesz then some (.error .badFormat)
    else if size < u32 (ph.pOffset + ph.pFilesz) then some (.error .badFormat)
    else if ph.pMemsz = 0 then elf32Check size l sp
    else elf32Check size l ⟨min sp.minv ph.pVaddr, max sp.maxv (u32 (ph.pVaddr + ph.pMemsz)), true⟩

/-- `e_ident` of a 32-bit little-endian file. -/
def elf32Ident : Bytes := [0x7F, 0x45, 0x4C, 0x46, 1, 1]

/-- The tests of `elf_load_from_vfs` on a file that was found. -/
def elf32Validate (bs : Bytes) : Option (Except ElfLoadError Elf32Span) :=
  if bs.length < elf32EhdrSize then some (.error .badFormat)
  else if bs.take 6 ≠ elf32Ident then some (.error .badFormat)
  else if elf32Phentsize bs ≠ elf32PhdrSize ∨ elf32Phnum bs = 0 then some (.error .badFormat)
  else if bs.length < elf32Phoff bs + elf32Phnum bs * elf32PhdrSize then some (.error .badFormat)
  else
    match elf32Check bs.length (elf32Phdrs bs) ⟨0xFFFFFFFF, 0, false⟩ with
    | some (.ok sp) =>
      if !sp.hasLoad ∨ sp.maxv ≤ sp.minv then some (.error .badFormat)
      else if sp.maxv - sp.minv = 0 ∨ elfImageMemMax < sp.maxv - sp.minv then some (.error .tooLarge)
      else if elf32Entry bs < sp.minv ∨ sp.maxv ≤ elf32Entry bs then some (.error .badFormat)
      else some (.ok sp)
    | r => r

/-! ### Loading -/

def elfFindByPath (path : Bytes) (images : ℕ → ElfImage) : Option ℕ :=
  firstSlot (fun i => (images i).used && decide ((images i).path = vfsNormalizePath path)) elfMaxImages

def elfAllocSlot (path : Bytes) (images : ℕ → ElfImage) : Option (ℕ × (ℕ → ElfImage)) :=
  match elfFindByPath path images with
  | some i => some (i, images)
  | none =>
    (firstSlot (fun i => !(images i).used) elfMaxImages).map fun i =>
      (i, update images i
        ⟨true, vfsNormalizePath path, 0, 0, 0, 0, List.replicate elfImageMemMax 0⟩)

/-- The difference of two numbers of type `uint32_t`. -/
def sub32 (a b : ℕ) : ℕ := u32 (a + 2 ^ 32 - b)

/-- `k_memcpy` of a segment to the memory of the image. -/
def elf32CopyOne (bs : Bytes) (minv : ℕ) (ph : Elf32Phdr) (mem : Bytes) : Option Bytes :=
  if ph.pFilesz = 0 then some mem
  else (block bs ph.pOffset ph.pFilesz).bind fun part => poke mem (sub32 ph.pVaddr minv) part

/-- The second loop of `elf_load_from_vfs`: what is copied to the memory of the image, and how many
segments. -/
def elf32Copy (bs : Bytes) (minv : ℕ) : List (Option Elf32Phdr) → Bytes → ℕ → Option (Bytes × ℕ)
  | [], mem, n => some (mem, n)
  | none :: _, _, _ => none
  | some ph :: l, mem, n =>
    if ph.pType = 1 ∧ 0 < ph.pMemsz then
      (elf32CopyOne bs minv ph mem).bind fun mem => elf32Copy bs minv l mem (n + 1)
    else elf32Copy bs minv l mem n

/-- `elf_load_from_vfs`, when `vfs_read` has found `file`. -/
def elfLoadFromVfs (path : Bytes) (file : Option ElfFile) (images : ℕ → ElfImage) :
    Option (Except ElfLoadError ℕ × (ℕ → ElfImage)) :=
  match file with
  | none => some (.error .notFound, images)
  | some file =>
    match elf32Validate file.1 with
    | none => none
    | some (.error e) => some (.error e, images)
    | some (.ok sp) =>
      match elfAllocSlot path images with
      | none => some (.error .noSlot, images)
      | some (slot, images) =>
        (elf32Copy file.1 sp.minv (elf32Phdrs file.1) (List.replicate elfImageMemMax 0) 0).map fun r =>
          (.ok slot, update images slot
            { images slot with
              baseVaddr := sp.minv, entryVaddr := elf32Entry file.1, memSize := sp.maxv - sp.minv
              loadedSegments := r.2, memory := r.1 })

/-! ### What is promised -/

/-- A segment that is loaded. -/
def Elf32Phdr.loads (ph : Elf32Phdr) : Prop := ph.pType = 1

/-- The header and the table lie in the file, and every segment that is loaded lies in the file and in the
address space. -/
structure Elf32Sound (bs : Bytes) : Prop where
  header : elf32EhdrSize ≤ bs.length
  table : elf32Phoff bs + elf32Phnum bs * elf32PhdrSize ≤ bs.length
  segments : ∀ ph, some ph ∈ elf32Phdrs bs → ph.loads →
    ph.pOffset + ph.pFilesz ≤ bs.length ∧ ph.pVaddr + ph.pMemsz < 2 ^ 32

/-- No sum of a segment that is loaded wraps. -/
def Elf32NoWrap (bs : Bytes) : Prop :=
  ∀ ph, some ph ∈ elf32Phdrs bs → ph.loads →
    ph.pOffset + ph.pFilesz < 2 ^ 32 ∧ ph.pVaddr + ph.pMemsz < 2 ^ 32

/-- The parts of the file that are laid out in an image with this base, each with its place. -/
def elf32Parts (bs : Bytes) (base : ℕ) (phs : List (Option Elf32Phdr)) : List (ℕ × Bytes) :=
  phs.filterMap fun o => o.bind fun ph =>
    if ph.pType = 1 ∧ 0 < ph.pMemsz then
      some (ph.pVaddr - base, (bs.drop ph.pOffset).take ph.pFilesz) else none

/-- The image is the parts of the file at their places, and zero elsewhere. -/
structure Elf32Image (bs : Bytes) (im : ElfImage) : Prop where
  inside : ∀ part ∈ elf32Parts bs im.baseVaddr (elf32Phdrs bs), part.1 + part.2.length ≤ im.memSize
  reserved : im.memSize ≤ elfImageMemMax
  memory : ∀ a < elfImageMemMax,
    im.memory[a]? = some ((cover (elf32Parts bs im.baseVaddr (elf32Phdrs bs)) a).getD 0)

/-- Nothing outside the file or the image is used, and a file that is loaded is sound. -/
def Elf32Faithful (file : ElfFile) : Prop :=
  ∀ path images, ∃ r images', elfLoadFromVfs path (some file) images = some (r, images') ∧
    ∀ slot, r = .ok slot → Elf32Sound file.1 ∧ Elf32Image file.1 (images' slot)

/-! ### The tests -/

variable {bs : Bytes} {size base : ℕ} {sp sp' : Elf32Span} {phs : List (Option Elf32Phdr)} {ph : Elf32Phdr}

theorem none_notMem_phdrs (h : elf32Phoff bs + elf32Phnum bs * elf32PhdrSize ≤ bs.length) :
    none ∉ elf32Phdrs bs := by
  intro hmem
  obtain ⟨i, hi, hnone⟩ := mem_map.1 hmem
  rw [mem_range] at hi
  have hrow : (i + 1) * elf32PhdrSize ≤ elf32Phnum bs * elf32PhdrSize := Nat.mul_le_mul_right _ hi
  rw [Nat.add_mul, Nat.one_mul] at hrow
  unfold elf32Phdr at hnone
  rw [block_of_le (by omega)] at hnone
  cases hnone

theorem elf32Check_isSome (h : none ∉ phs) (sp : Elf32Span) : (elf32Check size phs sp).isSome = true := by
  induction phs generalizing sp with
  | nil => rfl
  | cons o phs ih =>
    rw [mem_cons, not_or] at h
    cases o with
    | none => exact absurd rfl h.1
    | some ph =>
      unfold elf32Check
      split_ifs <;> first | exact ih h.2 _ | rfl

/-- What the tests have found out about a segment. -/
structure Elf32Fits (size : ℕ) (sp : Elf32Span) (ph : Elf32Phdr) : Prop where
  filesz_le : ph.pFilesz ≤ ph.pMemsz
  inFile : u32 (ph.pOffset + ph.pFilesz) ≤ size
  minv_le : 0 < ph.pMemsz → sp.minv ≤ ph.pVaddr
  le_maxv : 0 < ph.pMemsz → u32 (ph.pVaddr + ph.pMemsz) ≤ sp.maxv

/-- **The first loop** tests every segment, and the span covers all of them. -/
theorem elf32Check_ok (h : elf32Check size phs sp = some (.ok sp')) :
    sp'.minv ≤ sp.minv ∧ sp.maxv ≤ sp'.maxv ∧ ∀ ph, some ph ∈ phs → ph.loads → Elf32Fits size sp' ph := by
  induction phs generalizing sp with
  | nil =>
    obtain rfl := Except.ok.inj (some.inj h)
    exact ⟨le_rfl, le_rfl, fun _ hph => nomatch hph⟩
  | cons o phs ih =>
    cases o with
    | none => cases h
    | some ph =>
      unfold elf32Check at h
      split_ifs at h with htype hfile hin hmem
      -- a header of another kind
      · obtain ⟨hmin, hmax, hall⟩ := ih h
        refine ⟨hmin, hmax, fun ph' hph' hloads => ?_⟩
        rcases mem_cons.1 hph' with heq | hph'
        · obtain rfl := some.inj heq
          exact absurd hloads htype
        · exact hall ph' hph' hloads
      · cases some.inj h
      · cases some.inj h
      -- an empty segment
      · obtain ⟨hmin, hmax, hall⟩ := ih h
        refine ⟨hmin, hmax, fun ph' hph' hloads => ?_⟩
        rcases mem_cons.1 hph' with heq | hph'
        · obtain rfl := some.inj heq
          exact ⟨by omega, by omega, by omega, by omega⟩
        · exact hall ph' hph' hloads
      · obtain ⟨hmin, hmax, hall⟩ := ih h
        dsimp only at hmin hmax
        refine ⟨by omega, by omega, fun ph' hph' hloads => ?_⟩
        rcases mem_cons.1 hph' with heq | hph'
        · obtain rfl := some.inj heq
          exact ⟨by omega, by omega, by omega, by omega⟩
        · exact hall ph' hph' hloads

/-- What a file that passes the tests is like. -/
structure Elf32Passes (bs : Bytes) (sp : Elf32Span) : Prop where
  header : elf32EhdrSize ≤ bs.length
  table : elf32Phoff bs + elf32Phnum bs * elf32PhdrSize ≤ bs.length
  lt : sp.minv < sp.maxv
  reserved : sp.maxv - sp.minv ≤ elfImageMemMax
  fits : ∀ ph, some ph ∈ elf32Phdrs bs → ph.loads → Elf32Fits bs.length sp ph

theorem elf32Validate_ok (h : elf32Validate bs = some (.ok sp)) : Elf32Passes bs sp := by
  unfold elf32Validate at h
  split_ifs at h with hsize hident hentries htable
  · cases some.inj h
  · cases some.inj h
  · cases some.inj h
  · cases some.inj h
  · split at h
    next sp' hcheck =>
      split_ifs at h with hload hlarge hentry
      · cases some.inj h
      · cases some.inj h
      · cases some.inj h
      · obtain rfl := Except.ok.inj (some.inj h)
        rw [not_or] at hload hlarge
        exact ⟨by omega, by omega, by omega, by omega, (elf32Check_ok hcheck).2.2⟩
    next r hr => exact absurd h (hr sp)

theorem elf32Validate_isSome (bs : Bytes) : (elf32Validate bs).isSome = true := by
  unfold elf32Validate
  split_ifs with hsize hident hentries htable
  · rfl
  · rfl
  · rfl
  · rfl
  · have hnone : none ∉ elf32Phdrs bs := none_notMem_phdrs (by omega)
    split
    · split_ifs <;> rfl
    · exact elf32Check_isSome hnone _

/-! ### Loading -/

theorem elf32Parts_cons (h : ph.pType = 1 ∧ 0 < ph.pMemsz) : elf32Parts bs base (some ph :: phs) =
    (ph.pVaddr - base, (bs.drop ph.pOffset).take ph.pFilesz) :: elf32Parts bs base phs := by
  unfold elf32Parts
  rw [filterMap_cons, bind_some, if_pos h]

theorem elf32Parts_skip (h : ¬(ph.pType = 1 ∧ 0 < ph.pMemsz)) :
    elf32Parts bs base (some ph :: phs) = elf32Parts bs base phs := by
  unfold elf32Parts
  rw [filterMap_cons, bind_some, if_neg h]

theorem mem_elf32Parts {part : ℕ × Bytes} : part ∈ elf32Parts bs base phs ↔
    ∃ ph, some ph ∈ phs ∧ (ph.pType = 1 ∧ 0 < ph.pMemsz) ∧
      part = (ph.pVaddr - base, (bs.drop ph.pOffset).take ph.pFilesz) := by
  unfold elf32Parts
  rw [mem_filterMap]
  constructor
  · rintro ⟨o, ho, hpart⟩
    obtain ⟨ph, rfl, hph⟩ := bind_eq_some_iff.1 hpart
    split_ifs at hph with hload
    exact ⟨ph, ho, hload, (some.inj hph).symm⟩
  · rintro ⟨ph, hph, hload, rfl⟩
    exact ⟨some ph, hph, if_pos hload⟩

/-- **The second loop** lays the parts of the file over the memory. -/
theorem elf32Copy_eq (hnone : none ∉ phs) (mem : Bytes) (n : ℕ)
    (hin : ∀ ph, some ph ∈ phs → ph.pType = 1 ∧ 0 < ph.pMemsz → ph.pOffset + ph.pFilesz ≤ bs.length ∧
      base ≤ ph.pVaddr ∧ ph.pVaddr < 2 ^ 32 ∧ ph.pVaddr - base + ph.pFilesz ≤ mem.length) :
    ∃ n', elf32Copy bs base phs mem n = (pokes (elf32Parts bs base phs) mem).map fun mem' => (mem', n') := by
  induction phs generalizing mem n with
  | nil => exact ⟨n, rfl⟩
  | cons o phs ih =>
    rw [mem_cons, not_or] at hnone
    cases o with
    | none => exact absurd rfl hnone.1
    | some ph =>
      have htail : ∀ ph', some ph' ∈ phs → some ph' ∈ some ph :: phs := fun _ h => mem_cons_of_mem _ h
      unfold elf32Copy
      by_cases hload : ph.pType = 1 ∧ 0 < ph.pMemsz
      · obtain ⟨hfile, hbase, hlt, hroom⟩ := hin ph mem_cons_self hload
        have hoff : sub32 ph.pVaddr base = ph.pVaddr - base := by
          unfold sub32 u32
          omega
        have hlen : ((bs.drop ph.pOffset).take ph.pFilesz).length = ph.pFilesz := by
          rw [length_take, length_drop]
          omega
        obtain ⟨mid, hmid, hmidlen, -⟩ := poke_eq_some mem (ph.pVaddr - base)
          ((bs.drop ph.pOffset).take ph.pFilesz) (by omega)
        have hpokes : pokes (elf32Parts bs base (some ph :: phs)) mem = pokes (elf32Parts bs base phs) mid := by
          rw [elf32Parts_cons hload, pokes, foldlM_cons, hmid]
          rfl
        have hone : elf32CopyOne bs base ph mem = some mid := by
          unfold elf32CopyOne
          split_ifs with hempty
          -- nothing is copied
          · rw [← hmid, hempty, take_zero, poke_of_le (by simp; omega)]
            simp
          · rw [block_of_le hfile, hoff, bind_some, hmid]
        rw [if_pos hload, hpokes, hone, bind_some]
        exact ih hnone.2 mid (n + 1) fun ph' hph' => by
          rw [hmidlen]
          exact hin ph' (htail ph' hph')
      · rw [if_neg hload, elf32Parts_skip hload]
        exact ih hnone.2 mem n fun ph' hph' => hin ph' (htail ph' hph')

theorem Elf32Passes.sound (h : Elf32Passes bs sp) (hwrap : Elf32NoWrap bs) : Elf32Sound bs := by
  refine ⟨h.header, h.table, fun ph hph hloads => ?_⟩
  obtain ⟨hoff, hva⟩ := hwrap ph hph hloads
  have hin := (h.fits ph hph hloads).inFile
  rw [u32_of_lt hoff] at hin
  exact ⟨hin, hva⟩

theorem Elf32Passes.inside (h : Elf32Passes bs sp) (hwrap : Elf32NoWrap bs)
    (hph : some ph ∈ elf32Phdrs bs) (hload : ph.pType = 1 ∧ 0 < ph.pMemsz) :
    sp.minv ≤ ph.pVaddr ∧ ph.pVaddr - sp.minv + ph.pFilesz ≤ sp.maxv - sp.minv := by
  obtain ⟨-, hva⟩ := hwrap ph hph hload.1
  have hfits := h.fits ph hph hload.1
  have hmin := hfits.minv_le hload.2
  have hmax := hfits.le_maxv hload.2
  have hfile := hfits.filesz_le
  rw [u32_of_lt hva] at hmax
  exact ⟨hmin, by omega⟩

/-- **A file that passes the tests is loaded** as its segments say, when no sum wraps. -/
theorem elf32Copy_image (h : Elf32Passes bs sp) (hwrap : Elf32NoWrap bs) :
    ∃ mem n, elf32Copy bs sp.minv (elf32Phdrs bs) (List.replicate elfImageMemMax 0) 0 = some (mem, n) ∧
      ∀ a < elfImageMemMax, mem[a]? = some ((cover (elf32Parts bs sp.minv (elf32Phdrs bs)) a).getD 0) := by
  have hsound := h.sound hwrap
  have hreserved := h.reserved
  obtain ⟨n, hcopy⟩ := @elf32Copy_eq bs sp.minv _ (none_notMem_phdrs h.table)
    (List.replicate elfImageMemMax 0) 0 fun ph hph hload => by
      obtain ⟨hbase, hroom⟩ := h.inside hwrap hph hload
      obtain ⟨hfile, hva⟩ := hsound.segments ph hph hload.1
      refine ⟨hfile, hbase, by omega, ?_⟩
      rw [length_replicate]
      omega
  obtain ⟨mem, hmem, -, hcell⟩ := pokes_eq_some (elf32Parts bs sp.minv (elf32Phdrs bs))
    (List.replicate elfImageMemMax (0 : UInt8)) fun part hpart => by
      obtain ⟨ph, hph, hload, rfl⟩ := mem_elf32Parts.1 hpart
      have := (h.inside hwrap hph hload).2
      simp only [length_take, length_drop, length_replicate]
      omega
  rw [hmem] at hcopy
  refine ⟨mem, n, hcopy, fun a ha => ?_⟩
  rw [hcell, List.getElem?_replicate, if_pos ha]
  cases cover (elf32Parts bs sp.minv (elf32Phdrs bs)) a <;> rfl

/-- **The loader stays inside the file and the image, and loads sound files only**, exactly when no segment
of a file that passes the tests wraps. -/
theorem elf32_faithful_iff (file : ElfFile) : Elf32Faithful file ↔
    ∀ sp, elf32Validate file.1 = some (.ok sp) → Elf32NoWrap file.1 := by
  have hmax : 0 < elfImageMemMax := by decide
  constructor
  · intro h sp hvalid ph hph hloads
    obtain ⟨r, images', hload, hok⟩ := h [] fun _ => .zero
    -- with a free slot, a file that passes the tests is loaded
    have hslot : ∃ images, elfAllocSlot [] (fun _ => ElfImage.zero) = some (0, images) := by
      have hfind : elfFindByPath [] (fun _ => ElfImage.zero) = none := by decide
      exact ⟨_, by rw [elfAllocSlot, hfind]; rfl⟩
    obtain ⟨images, hslot⟩ := hslot
    have hr : r = .ok 0 := by
      simp only [elfLoadFromVfs, hvalid, hslot] at hload
      obtain ⟨_, -, heq⟩ := map_eq_some_iff.1 hload
      exact (Prod.mk.inj heq).1.symm
    obtain ⟨hoff, hva⟩ := (hok 0 hr).1.segments ph hph hloads
    exact ⟨by have := file.2; omega, hva⟩
  · intro h path images
    obtain ⟨v, hv⟩ := isSome_iff_exists.1 (elf32Validate_isSome file.1)
    unfold elfLoadFromVfs
    simp only [hv]
    cases v with
    | error e => exact ⟨_, _, rfl, fun _ hr => nomatch hr⟩
    | ok sp =>
      have hpass := elf32Validate_ok hv
      have hwrap := h sp hv
      obtain ⟨mem, n, hcopy, hmem⟩ := elf32Copy_image hpass hwrap
      cases elfAllocSlot path images with
      | none => exact ⟨_, _, rfl, fun _ hr => nomatch hr⟩
      | some p =>
        obtain ⟨slot, images⟩ := p
        simp only [hcopy, map_some]
        refine ⟨_, _, rfl, fun slot' hr => ?_⟩
        obtain rfl := Except.ok.inj hr
        rw [update_self]
        refine ⟨hpass.sound hwrap, fun part hpart => ?_, hpass.reserved, hmem⟩
        obtain ⟨ph, hph, hload, rfl⟩ := mem_elf32Parts.1 hpart
        have hroom := (hpass.inside hwrap hph hload).2
        simp only [length_take, length_drop]
        omega

end Ridux
