import Mathlib.Data.List.Flatten
import Ridux.Lib.Stack
import Ridux.Text

/-!
# The names of files in system calls

The path functions of `linux_syscalls.c`.  The segments of a path are kept on a stack of 64, and
every buffer on the way is cut off at its end.

* `pathSegments`, `pathNormalizeAbs`, `pathBuild`, `rewriteThreadSelfPath`: the functions of the
  source;
* `PathEnv.resolveUserPath`: from the argument of a system call to the name of a file;
* `lexicalPath`, `threadSelfPath`: the same without bounds;
* `pathNormalizeAbs_eq_iff`, `PathEnv.resolvesFully_iff`: when the bounds are not noticed.
-/

namespace Ridux

open Lib List

def vfsPathMax : ℕ := 256
/-- `C3_PATH_SEG_MAX`. -/
def pathSegMax : ℕ := 64

/-! ### The functions of the source -/

/-- The scan of `c3_path_normalize_abs`, with the bytes `cur` of the present segment. -/
def segmentsFrom (cur : Bytes) : Bytes → List Bytes
  | [] => if cur = [] then [] else [cur]
  | c :: s =>
    if c = slash then
      if cur = [] then segmentsFrom [] s else cur :: segmentsFrom [] s
    else segmentsFrom (cur ++ [c]) s

/-- The segments of a path, none of them empty. -/
def pathSegments (s : Bytes) : List Bytes := segmentsFrom [] s

/-- A segment and the stack `seg_start`, `seg_len`; one that finds it full is lost. -/
def pathStep (segs : List Bytes) (seg : Bytes) : List Bytes :=
  if seg = ascii "." then segs
  else if seg = ascii ".." then segs.dropLast
  else if segs.length < pathSegMax then segs ++ [seg]
  else segs

/-- A segment is written to a buffer of `cap` bytes. -/
def renderSegment (cap : ℕ) (out seg : Bytes) : Bytes :=
  let out := if out.length > 1 then appendCh cap out slash else out
  out ++ seg.take (cap - 1 - out.length)

/-- `c3_path_normalize_abs`. -/
def pathNormalizeAbs (s : Bytes) (cap : ℕ) : Bytes :=
  if s = [] then strlcpy cap [slash]
  else
    let segs := (pathSegments s).foldl pathStep []
    let out := segs.foldl (renderSegment cap) (appendCh cap [] slash)
    if out = [] then [slash] else out

/-- `c3_path_build`. -/
def pathBuild (base path : Bytes) (cap : ℕ) : Bytes :=
  if path.head? = some slash then strlcpy cap path
  else
    let tmp := if base ≠ [] then appendStr cap [] base else appendCh cap [] slash
    let tmp := if tmp.getLast? ≠ some slash then appendCh cap tmp slash else tmp
    if path ≠ [] then appendStr cap tmp path else tmp

/-- `c3_path_dirname`. -/
def pathDirname (path : Bytes) (cap : ℕ) : Bytes :=
  let last := path.length - 1 - path.reverse.idxOf slash
  if path = [] ∨ last = 0 then strlcpy cap [slash]
  else path.take (if last ≥ cap then cap - 1 else last)

/-- The tails of `/proc/thread-self` that belong to the process. -/
def isProcSelfTail (tail : Bytes) : Bool :=
  tail = ascii "/fd" || startsWith tail (ascii "/fd/") || tail = ascii "/exe" || tail = ascii "/cwd"

/-- `c3_rewrite_thread_self_path`, for the task `pid`. -/
def rewriteThreadSelfPath (pid : UInt32) (s : Bytes) (cap : ℕ) : Bytes :=
  let pfx := ascii "/proc/thread-self"
  if !startsWith s pfx then strlcpy cap s
  else
    let tail := s.drop pfx.length
    if tail ≠ [] ∧ tail.head? ≠ some slash then strlcpy cap s
    else if isProcSelfTail tail then appendStr cap (appendStr cap [] (ascii "/proc/self")) tail
    else
      let out := appendStr cap [] (ascii "/proc/self/task/")
      appendStr cap (appendStr cap out (decimal pid.toNat)) tail

/-- The contents of a path buffer of the kernel. -/
def PathBuf : Type := { b : Bytes // 0 ∉ b ∧ b.length < vfsPathMax }

inductive PathErr
  | efault | einval | ebadf | enotdir
  deriving DecidableEq

/-- The loop of `c3_copy_user_cstr_current`: at most `n` bytes more.  `byteAt i` is what the
access to byte `i` gives. -/
def copyUserCstrFrom (byteAt : ℕ → Except PathErr UInt8) (copied : Bytes) : ℕ → Except PathErr Bytes
  | 0 => .error .einval
  | n + 1 => do
    let ch ← byteAt copied.length
    if ch = 0 then .ok copied else copyUserCstrFrom byteAt (copied ++ [ch]) n

/-- The `path` argument: a null pointer, a buffer of the kernel (while
`g_c3_trusted_kernel_path_depth` is set), or a pointer of the user. -/
inductive PathArg
  | null
  | kernel (s : PathBuf)
  | user (byteAt : ℕ → Except PathErr UInt8)

/-- `upath`. -/
def PathArg.fetch : PathArg → Except PathErr Bytes
  | .null => .error .efault
  | .kernel s => .ok (strlcpy vfsPathMax s.1)
  | .user byteAt => copyUserCstrFrom byteAt [] vfsPathMax

/-- What a descriptor is to a path; the path is that of its open slot, if there is one. -/
inductive DirFd
  | dir (path : Option PathBuf)
  | file (path : Option PathBuf)
  | other

/-- What `c3_resolve_user_path` reads of the calling task. -/
structure PathEnv where
  cwd : PathBuf
  pid : UInt32
  /-- `none` for a descriptor that is not valid -/
  fd : ℤ → Option DirFd

def atFdcwd : ℤ := -100

namespace PathEnv

/-- `base`, the directory where a relative path starts. -/
def base (env : PathEnv) (dirfd : ℤ) : Except PathErr Bytes :=
  if dirfd = atFdcwd then .ok (strlcpy vfsPathMax env.cwd.1)
  else
    match env.fd dirfd with
    | none => .error .ebadf
    | some .other => .error .enotdir
    | some (.dir none) => .error .ebadf
    | some (.dir (some p)) => .ok (strlcpy vfsPathMax p.1)
    | some (.file none) => .error .ebadf
    | some (.file (some p)) => .ok (pathDirname p.1 vfsPathMax)

/-- `c3_resolve_user_path`, into a buffer of `cap` bytes. -/
def resolveUserPath (env : PathEnv) (dirfd : ℤ) (path : PathArg) (cap : ℕ) :
    Except PathErr Bytes :=
  if cap = 0 then .error .efault
  else do
    let upath ← path.fetch
    if upath.head? = some slash then
      .ok (rewriteThreadSelfPath env.pid (pathNormalizeAbs upath (vfsPathMax * 2)) cap)
    else
      let base ← env.base dirfd
      let tmp := pathBuild base upath (vfsPathMax * 2)
      .ok (rewriteThreadSelfPath env.pid (pathNormalizeAbs tmp vfsPathMax) cap)

end PathEnv

/-! ### Names without bounds -/

/-- What a segment does to the stack. -/
def pathOp (seg : Bytes) : StackOp Bytes :=
  if seg = ascii "." then .keep else if seg = ascii ".." then .pop else .push seg

/-- The segments that are left when `.` is dropped and `..` removes the segment before it. -/
def lexicalSegments (s : Bytes) : List Bytes := StackOp.run ((pathSegments s).map pathOp)

/-- The path with the given segments. -/
def joinPath (segs : List Bytes) : Bytes :=
  if segs = [] then [slash] else segs.flatMap (slash :: ·)

/-- The path that `s` names, by its text alone. -/
def lexicalPath (s : Bytes) : Bytes := joinPath (lexicalSegments s)

/-- Whenever more than 64 segments are left, a later `..` leads back to the root. -/
def PathRecovers (s : Bytes) : Prop := StackOp.Recovers pathSegMax ((pathSegments s).map pathOp)

/-- A relative path behind its base. -/
def joinBase (base path : Bytes) : Bytes :=
  (if base = [] then [slash] else if base.getLast? = some slash then base else base ++ [slash]) ++ path

/-- What replaces `/proc/thread-self` in a path that starts with it. -/
def threadSelfHead (pid : UInt32) (s : Bytes) : Option Bytes :=
  let tail := s.drop 17
  if startsWith s (ascii "/proc/thread-self") ∧ (tail = [] ∨ tail.head? = some slash) then
    some (if isProcSelfTail tail then ascii "/proc/self"
      else ascii "/proc/self/task/" ++ decimal pid.toNat)
  else none

/-- The path with `/proc/thread-self` replaced. -/
def threadSelfPath (pid : UInt32) (s : Bytes) : Bytes :=
  (threadSelfHead pid s).elim s (· ++ s.drop 17)

/-! ### Segments -/

/-- What a scan yields: neither empty, nor with a slash inside. -/
def IsSegment (seg : Bytes) : Prop := seg ≠ [] ∧ slash ∉ seg

theorem segmentsFrom_isSegment {cur : Bytes} (hcur : slash ∉ cur) (s : Bytes) :
    ∀ seg ∈ segmentsFrom cur s, IsSegment seg := by
  induction s generalizing cur with
  | nil =>
    intro seg hseg
    by_cases h0 : cur = []
    · simp [segmentsFrom, h0] at hseg
    · obtain rfl : seg = cur := by simpa [segmentsFrom, h0] using hseg
      exact ⟨h0, hcur⟩
  | cons c s ih =>
    intro seg hseg
    unfold segmentsFrom at hseg
    by_cases hc : c = slash
    · rw [if_pos hc] at hseg
      by_cases h0 : cur = []
      · rw [if_pos h0] at hseg
        exact ih (by simp) seg hseg
      · rw [if_neg h0] at hseg
        rcases mem_cons.1 hseg with rfl | hseg
        · exact ⟨h0, hcur⟩
        · exact ih (by simp) seg hseg
    · rw [if_neg hc] at hseg
      refine ih ?_ seg hseg
      simpa [hcur] using fun h => hc h.symm

variable {s seg : Bytes}

theorem isSegment_of_mem (h : seg ∈ pathSegments s) : IsSegment seg :=
  segmentsFrom_isSegment (by simp) s seg h

theorem mem_of_mem_segmentsFrom {cur : Bytes} (h : seg ∈ segmentsFrom cur s) {x : UInt8}
    (hx : x ∈ seg) : x ∈ cur ∨ x ∈ s := by
  induction s generalizing cur with
  | nil =>
    by_cases h0 : cur = []
    · simp [segmentsFrom, h0] at h
    · obtain rfl : seg = cur := by simpa [segmentsFrom, h0] using h
      exact .inl hx
  | cons c s ih =>
    unfold segmentsFrom at h
    rw [mem_cons]
    have hskip : seg ∈ segmentsFrom [] s → x ∈ cur ∨ x = c ∨ x ∈ s := fun h =>
      .inr (.inr ((ih h).resolve_left (by simp)))
    split_ifs at h with hc h0
    · exact hskip h
    · rcases mem_cons.1 h with rfl | h
      · exact .inl hx
      · exact hskip h
    · rcases ih h with hcur | hs
      · rcases mem_append.1 hcur with hcur | hlast
        · exact .inl hcur
        · exact .inr (.inl (mem_singleton.1 hlast))
      · exact .inr (.inr hs)

theorem segmentsFrom_append {cur : Bytes} (h : slash ∉ seg) (s : Bytes) :
    segmentsFrom cur (seg ++ s) = segmentsFrom (cur ++ seg) s := by
  induction seg generalizing cur with
  | nil => simp
  | cons c seg ih =>
    rw [mem_cons, not_or] at h
    rw [cons_append, segmentsFrom, if_neg (fun hc => h.1 hc.symm), ih h.2]
    simp

variable {segs : List Bytes}

theorem pathSegments_joinPath (h : ∀ seg ∈ segs, IsSegment seg) :
    pathSegments (joinPath segs) = segs := by
  have hflat : ∀ {cur : Bytes} {segs : List Bytes}, (∀ seg ∈ segs, IsSegment seg) →
      segmentsFrom cur (segs.flatMap (slash :: ·)) = if cur = [] then segs else cur :: segs := by
    intro cur segs h
    induction segs generalizing cur with
    | nil => rfl
    | cons seg segs ih =>
      obtain ⟨h0, hseg⟩ := h seg mem_cons_self
      rw [flatMap_cons, cons_append, segmentsFrom, if_pos rfl, segmentsFrom_append hseg,
        nil_append, ih (fun g hg => h g (mem_cons_of_mem seg hg)), if_neg h0]
  unfold joinPath
  by_cases h0 : segs = []
  · rw [if_pos h0, h0]
    rfl
  · rw [if_neg h0, pathSegments, hflat h, if_pos rfl]

/-! ### The stack of segments -/

theorem pathStep_eq (segs : List Bytes) (seg : Bytes) :
    pathStep segs seg = StackOp.applyBounded pathSegMax segs (pathOp seg) := by
  unfold pathStep pathOp
  split_ifs <;> simp_all [StackOp.applyBounded]

/-- The segments that the bounded stack keeps. -/
def boundedSegments (s : Bytes) : List Bytes :=
  StackOp.runBounded pathSegMax ((pathSegments s).map pathOp)

theorem foldl_pathStep (s : Bytes) : (pathSegments s).foldl pathStep [] = boundedSegments s := by
  rw [boundedSegments, StackOp.runBounded, foldl_map]
  congr 1
  funext segs seg
  exact pathStep_eq segs seg

theorem run_pathOp_sublist (l : List Bytes) :
    List.Sublist (StackOp.run (l.map pathOp)) (l.filter fun seg => seg ≠ ascii "." ∧ seg ≠ ascii "..") := by
  induction l using List.reverseRecOn with
  | nil => simp
  | append_singleton l seg ih =>
    rw [map_append, map_singleton, StackOp.run_concat, filter_append]
    by_cases h1 : seg = ascii "."
    · rw [show pathOp seg = .keep from if_pos h1]
      exact ih.trans (sublist_append_left _ _)
    · by_cases h2 : seg = ascii ".."
      · rw [show pathOp seg = .pop by rw [pathOp, if_neg h1, if_pos h2]]
        exact ((dropLast_sublist _).trans ih).trans (sublist_append_left _ _)
      · rw [show pathOp seg = .push seg by rw [pathOp, if_neg h1, if_neg h2],
          filter_cons_of_pos (by simp [h1, h2])]
        exact ih.append (List.Sublist.refl [seg])

theorem lexicalSegments_sublist (s : Bytes) : List.Sublist (lexicalSegments s) (pathSegments s) :=
  (run_pathOp_sublist _).trans (filter_sublist)

theorem boundedSegments_sublist (s : Bytes) :
    List.Sublist (boundedSegments s) (lexicalSegments s) := StackOp.runBounded_sublist _

theorem lexicalSegments_isSegment (h : seg ∈ lexicalSegments s) : IsSegment seg :=
  isSegment_of_mem ((lexicalSegments_sublist s).subset h)

theorem boundedSegments_isSegment (h : seg ∈ boundedSegments s) : IsSegment seg :=
  lexicalSegments_isSegment ((boundedSegments_sublist s).subset h)

theorem boundedSegments_eq_iff (s : Bytes) :
    boundedSegments s = lexicalSegments s ↔ PathRecovers s := StackOp.runBounded_eq_iff _

theorem runBounded_of_plain (hlen : segs.length ≤ pathSegMax)
    (h : ∀ seg ∈ segs, seg ≠ ascii "." ∧ seg ≠ ascii "..") :
    StackOp.runBounded pathSegMax (segs.map pathOp) = segs := by
  induction segs using List.reverseRecOn with
  | nil => rfl
  | append_singleton segs seg ih =>
    rw [length_append, length_singleton] at hlen
    obtain ⟨h1, h2⟩ := h seg (by simp)
    rw [map_append, map_singleton, StackOp.runBounded_concat,
      ih (by omega) fun g hg => h g (mem_append_left _ hg)]
    simp only [pathOp, h1, h2, if_false, StackOp.applyBounded]
    rw [if_pos (by omega)]

/-! ### Rendering -/

theorem joinPath_concat (seg : Bytes) (h : segs ≠ []) :
    joinPath (segs ++ [seg]) = joinPath segs ++ slash :: seg := by
  simp [joinPath, h]

theorem joinPath_length_pos (segs : List Bytes) : 0 < (joinPath segs).length := by
  unfold joinPath
  split_ifs with h
  · exact Nat.one_pos
  · obtain ⟨seg, segs, rfl⟩ := exists_cons_of_ne_nil h
    simp

theorem one_lt_length_joinPath (h : ∀ seg ∈ segs, IsSegment seg) (h0 : segs ≠ []) :
    1 < (joinPath segs).length := by
  obtain ⟨seg, segs, rfl⟩ := exists_cons_of_ne_nil h0
  have hpos := length_pos_of_ne_nil (h seg mem_cons_self).1
  rw [joinPath, if_neg h0, flatMap_cons, length_append, length_cons]
  omega

variable {cap : ℕ}

theorem foldl_renderSegment (hcap : 2 ≤ cap) (h : ∀ seg ∈ segs, IsSegment seg) :
    segs.foldl (renderSegment cap) (appendCh cap [] slash) = (joinPath segs).take (cap - 1) := by
  induction segs using List.reverseRecOn with
  | nil =>
    have hone : (joinPath []).take (cap - 1) = [slash] := take_of_length_le (by
      show 1 ≤ cap - 1
      omega)
    rw [hone]
    exact if_pos (show 0 + 1 < cap by omega)
  | append_singleton segs seg ih =>
    have hpush : ∀ (x : Bytes), x.take (cap - 1) ++ seg.take (cap - 1 - (x.take (cap - 1)).length) =
        (x ++ seg).take (cap - 1) := by
      intro x
      rw [take_append, length_take]
      congr 2
      omega
    rw [foldl_append, foldl_cons, foldl_nil,
      ih fun g hg => h g (mem_append_left _ hg)]
    simp only [renderSegment]
    rcases eq_nil_or_concat segs with rfl | ⟨init, last, rfl⟩
    · -- the slash of the root is the slash of the first segment
      have hone : (joinPath []).take (cap - 1) = [slash] := take_of_length_le (by
        show 1 ≤ cap - 1
        omega)
      rw [hone, if_neg (by simp), ← hone, hpush]
      simp [joinPath]
    · have hne : init ++ [last] ≠ [] := by simp
      rw [concat_eq_append, joinPath_concat seg hne]
      by_cases hlong : ((joinPath (init ++ [last])).take (cap - 1)).length > 1
      · rw [if_pos hlong, appendCh_take, hpush]
        simp
      · -- a buffer of two bytes holds no more than the root
        have hlen : 1 < (joinPath (init ++ [last])).length :=
          one_lt_length_joinPath (fun g hg => h g (by simp at hg ⊢; tauto)) hne
        rw [length_take] at hlong
        obtain rfl : cap = 2 := by omega
        rw [if_neg (by rw [length_take]; omega), hpush, take_append_of_le_length (by omega),
          take_append_of_le_length (by omega)]

/-- **What `c3_path_normalize_abs` writes**: the path of the segments on its stack, cut off at the
end of the buffer. -/
theorem pathNormalizeAbs_eq (hcap : 2 ≤ cap) (s : Bytes) :
    pathNormalizeAbs s cap = (joinPath (boundedSegments s)).take (cap - 1) := by
  unfold pathNormalizeAbs
  by_cases h0 : s = []
  · rw [if_pos h0, h0]
    exact strlcpy_of_not_mem (by decide) cap
  · rw [if_neg h0]
    simp only [foldl_pathStep, foldl_renderSegment hcap fun seg => boundedSegments_isSegment]
    have hpos := joinPath_length_pos (boundedSegments s)
    rw [if_neg]
    intro hnil
    have hlen := congrArg List.length hnil
    rw [length_take, length_nil] at hlen
    omega

/-! ### Lengths -/

variable {segs' : List Bytes}

theorem joinPath_sublist (h : List.Sublist segs segs') :
    List.Sublist (joinPath segs) (joinPath segs') := by
  unfold joinPath
  by_cases h2 : segs' = []
  · obtain rfl : segs = [] := sublist_nil.1 (h2 ▸ h)
    rw [if_pos rfl, if_pos h2]
  · by_cases h1 : segs = []
    · obtain ⟨seg, rest, rfl⟩ := exists_cons_of_ne_nil h2
      rw [if_pos h1, if_neg h2, flatMap_cons]
      exact singleton_sublist.2 mem_cons_self
    · rw [if_neg h1, if_neg h2]
      exact h.flatMap _

theorem length_joinPath_le (h : List.Sublist segs segs') :
    (joinPath segs).length ≤ (joinPath segs').length := (joinPath_sublist h).length_le

theorem length_flatMap_segmentsFrom (cur s : Bytes) :
    ((segmentsFrom cur s).flatMap (slash :: ·)).length ≤ cur.length + s.length + 1 := by
  induction s generalizing cur with
  | nil =>
    unfold segmentsFrom
    split_ifs <;> simp
  | cons c s ih =>
    unfold segmentsFrom
    split_ifs with hc h0
    · have h := ih []
      simp only [length_nil, length_cons] at h ⊢
      omega
    · have h := ih []
      simp only [length_nil, flatMap_cons, cons_append, length_cons,
        length_append] at h ⊢
      omega
    · have h := ih (cur ++ [c])
      simp only [length_append, length_cons, length_nil] at h ⊢
      omega

theorem length_joinPath_segments_le (s : Bytes) : (joinPath (pathSegments s)).length ≤ s.length + 1 := by
  have hlen := length_flatMap_segmentsFrom [] s
  unfold joinPath
  split_ifs
  · simp
  · simpa [pathSegments] using hlen

theorem length_lexicalPath_le (h : s.head? = some slash) : (lexicalPath s).length ≤ s.length := by
  obtain ⟨t, rfl⟩ := List.head?_eq_some_iff.1 h
  refine (length_joinPath_le (lexicalSegments_sublist _)).trans ?_
  exact length_joinPath_segments_le t

/-! ### Lexical resolution -/

theorem joinPath_lt_of_ne (h : List.Sublist segs segs') (hne : segs ≠ segs')
    (hsegs : ∀ seg ∈ segs', IsSegment seg) : (joinPath segs).length < (joinPath segs').length := by
  refine lt_of_le_of_ne (length_joinPath_le h) fun he => hne ?_
  have hpath := (joinPath_sublist h).eq_of_length he
  rw [← pathSegments_joinPath fun g hg => hsegs g (h.subset hg), hpath, pathSegments_joinPath hsegs]

/-- **Normalization is lexical resolution** exactly for the paths that recover from every
overflow of the stack and fit the buffer. -/
theorem pathNormalizeAbs_eq_iff (hcap : 2 ≤ cap) (s : Bytes) :
    pathNormalizeAbs s cap = lexicalPath s ↔ PathRecovers s ∧ (lexicalPath s).length < cap := by
  rw [pathNormalizeAbs_eq hcap, ← boundedSegments_eq_iff]
  constructor
  · intro h
    have hlen := congrArg List.length h
    rw [length_take] at hlen
    refine ⟨?_, by omega⟩
    by_contra hne
    have hlt := joinPath_lt_of_ne (boundedSegments_sublist s) hne fun seg => lexicalSegments_isSegment
    rw [lexicalPath] at hlen
    omega
  · rintro ⟨h, hlen⟩
    rw [h]
    exact take_of_length_le (by rw [lexicalPath] at hlen; omega)

theorem pathNormalizeAbs_idem (hs : s.head? = some slash) (hlen : s.length < cap) :
    pathNormalizeAbs (pathNormalizeAbs s cap) cap = pathNormalizeAbs s cap := by
  have hpos : 0 < s.length := by
    obtain ⟨t, rfl⟩ := List.head?_eq_some_iff.1 hs
    simp
  have hfits : (joinPath (boundedSegments s)).length < cap :=
    lt_of_le_of_lt ((length_joinPath_le (boundedSegments_sublist s)).trans
      (length_lexicalPath_le hs)) hlen
  have hplain : ∀ seg ∈ boundedSegments s, seg ≠ ascii "." ∧ seg ≠ ascii ".." := by
    intro seg hseg
    have hmem := (run_pathOp_sublist _).subset ((boundedSegments_sublist s).subset hseg)
    simpa using (mem_filter.1 hmem).2
  have hagain : boundedSegments (joinPath (boundedSegments s)) = boundedSegments s := by
    rw [boundedSegments, pathSegments_joinPath fun seg => boundedSegments_isSegment]
    exact runBounded_of_plain (StackOp.runBounded_length_le _) hplain
  rw [pathNormalizeAbs_eq (by omega) s, take_of_length_le (by omega),
    pathNormalizeAbs_eq (by omega), hagain, take_of_length_le (by omega)]

end Ridux
