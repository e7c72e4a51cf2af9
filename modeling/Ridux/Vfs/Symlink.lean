import Mathlib.Logic.Relation
import Ridux.Vfs.Resolve

/-!
# Symbolic links

`c3_resolve_builtin_symlink_path` of `linux_syscalls.c`: at most sixteen times, the first component
of the path that is a symbolic link is replaced by its target.

* `builtinSymlinkTarget`, `SymlinkEnv.kvfsSymlinkTarget`: the two kinds of links;
* `SymlinkEnv.resolvePath`: the function of the source, with its buffers;
* `SymlinkEnv.firstLink`, `SymlinkEnv.LinkStep`, `SymlinkEnv.reference`: the resolution without
  bounds, and one that reports every bound that it meets;
* `SymlinkEnv.resolvePath_eq_iff`: the source agrees with it exactly while no buffer is exceeded.
-/

namespace Ridux

open Lib List Option

/-! ### Links -/

/-- `c3_drm_pci_driver_dir`, which asks `c3_vbox_gpu_mode`. -/
def drmPciDriverDir (vbox : Bool) : String :=
  if vbox then "/sys/bus/pci/drivers/vmwgfx" else "/sys/bus/pci/drivers/virtio-pci"

/-- The comparisons of `c3_builtin_symlink_target`, in their order, with what they return. -/
def builtinSymlinks (vbox : Bool) : List (List String × String) :=
  [(["/sys/dev/char/226:0"], "/sys/devices/pci0000:00/0000:00:02.0/drm/card0"),
   (["/sys/dev/char/226:128"], "/sys/devices/pci0000:00/0000:00:02.0/drm/renderD128"),
   (["/sys/class/drm/card0"], "/sys/devices/pci0000:00/0000:00:02.0/drm/card0"),
   (["/sys/class/drm/renderD128"], "/sys/devices/pci0000:00/0000:00:02.0/drm/renderD128"),
   (["/sys/bus/pci/devices/0000:00:02.0"], "/sys/devices/pci0000:00/0000:00:02.0"),
   (["/sys/dev/char/226:0/device", "/sys/dev/char/226:128/device", "/sys/class/drm/card0/device",
      "/sys/class/drm/renderD128/device", "/sys/devices/pci0000:00/0000:00:02.0/drm/card0/device",
      "/sys/devices/pci0000:00/0000:00:02.0/drm/renderD128/device"],
      "/sys/devices/pci0000:00/0000:00:02.0"),
   (["/sys/dev/char/226:0/subsystem", "/sys/dev/char/226:128/subsystem",
      "/sys/class/drm/card0/subsystem", "/sys/class/drm/renderD128/subsystem",
      "/sys/devices/pci0000:00/0000:00:02.0/drm/card0/subsystem",
      "/sys/devices/pci0000:00/0000:00:02.0/drm/renderD128/subsystem"], "/sys/class/drm"),
   (["/sys/dev/char/226:0/device/subsystem", "/sys/dev/char/226:128/device/subsystem",
      "/sys/class/drm/card0/device/subsystem", "/sys/class/drm/renderD128/device/subsystem",
      "/sys/devices/pci0000:00/0000:00:02.0/subsystem"], "/sys/bus/pci"),
   (["/sys/dev/char/226:0/device/driver", "/sys/dev/char/226:128/device/driver",
      "/sys/class/drm/card0/device/driver", "/sys/class/drm/renderD128/device/driver",
      "/sys/devices/pci0000:00/0000:00:02.0/driver"], drmPciDriverDir vbox),
   (["/sys/class/input/event0"], "/sys/devices/virtual/input/input0/event0"),
   (["/sys/class/input/event1"], "/sys/devices/virtual/input/input1/event1"),
   (["/sys/class/input/mice"], "/sys/devices/virtual/input/input1"),
   (["/sys/class/input/event0/device"], "/sys/devices/virtual/input/input0"),
   (["/sys/class/input/event1/device"], "/sys/devices/virtual/input/input1"),
   (["/sys/class/input/mice/device"], "/sys/devices/virtual/input/input1"),
   (["/sys/class/input/event0/subsystem", "/sys/class/input/event1/subsystem",
      "/sys/class/input/mice/subsystem"], "/sys/bus/input"),
   (["/sys/bus/input/devices/input0"], "/sys/devices/virtual/input/input0"),
   (["/sys/bus/input/devices/input1"], "/sys/devices/virtual/input/input1"),
   (["/sys/bus/input/devices/event0"], "/sys/devices/virtual/input/input0/event0"),
   (["/sys/bus/input/devices/event1"], "/sys/devices/virtual/input/input1/event1"),
   (["/sys/bus/input/devices/input0/event0/device"], "/sys/devices/virtual/input/input0"),
   (["/sys/bus/input/devices/input1/event1/device"], "/sys/devices/virtual/input/input1"),
   (["/sys/bus/input/devices/event0/device"], "/sys/devices/virtual/input/input0"),
   (["/sys/bus/input/devices/event1/device"], "/sys/devices/virtual/input/input1"),
   (["/sys/devices/virtual/input/input0/event0/device"], "/sys/devices/virtual/input/input0"),
   (["/sys/devices/virtual/input/input1/event1/device"], "/sys/devices/virtual/input/input1"),
   (["/sys/devices/virtual/input/input0/event0/subsystem",
      "/sys/devices/virtual/input/input1/event1/subsystem",
      "/sys/devices/virtual/input/input0/subsystem", "/sys/devices/virtual/input/input1/subsystem"],
      "/sys/bus/input"),
   (["/sys/devices/virtual/input/subsystem"], "/sys/bus/input"),
   (["/sys/devices/virtual/subsystem", "/sys/devices/subsystem"], "/sys/bus"),
   (["/sys/dev/char/13:64"], "/sys/devices/virtual/input/input0/event0"),
   (["/sys/dev/char/13:65"], "/sys/devices/virtual/input/input1/event1"),
   (["/sys/dev/char/13:64/subsystem", "/sys/dev/char/13:65/subsystem"], "/sys/bus/input")]

/-- `c3_builtin_symlink_target`. -/
def builtinSymlinkTarget (vbox : Bool) (path : Bytes) : Option Bytes :=
  ((builtinSymlinks vbox).find? fun l => l.1.any fun key => ascii key == path).map fun l => ascii l.2

/-- `C3_SYMLINK_PREFIX`. -/
def symlinkPrefix : Bytes := ascii "RIDUX_SYMLINK:"

/-- What the resolution reads: the display adapter, and the contents of files (`kvfs_read`).  The
root directory is no link. -/
structure SymlinkEnv where
  vboxGpu : Bool
  kvfsRead : Bytes → Option Bytes
  root : ∀ data, kvfsRead [slash] = some data → ¬ symlinkPrefix <+: data

inductive SymlinkErr
  | efault | einval | eloop | enametoolong
  deriving DecidableEq

namespace SymlinkEnv

/-- `c3_kvfs_symlink_target`. -/
def kvfsSymlinkTarget (env : SymlinkEnv) (path : Bytes) : Option Bytes :=
  match env.kvfsRead path with
  | none => none
  | some data => if startsWith data symlinkPrefix then some (data.drop symlinkPrefix.length) else none

end SymlinkEnv

/-- `c3_symlink_target_to_abs`. -/
def symlinkTargetToAbs (linkPath target : Bytes) (cap : ℕ) : Except SymlinkErr Bytes :=
  if cap = 0 then .error .einval
  else
    let buf := (cstr target).take (vfsPathMax - 1)
    if buf = [] then .error .einval
    else if buf.head? = some slash then .ok (pathNormalizeAbs buf cap)
    else
      let tmp := pathBuild (pathDirname linkPath vfsPathMax) buf (vfsPathMax * 2)
      .ok (pathNormalizeAbs tmp cap)

namespace SymlinkEnv

/-- `target_abs` for the path of a component; it is empty when the component is no link. -/
def targetAbs (env : SymlinkEnv) (path : Bytes) : Except SymlinkErr Bytes :=
  match builtinSymlinkTarget env.vboxGpu path with
  | some target => .ok (strlcpy vfsPathMax target)
  | none =>
    match env.kvfsSymlinkTarget path with
    | some target => symlinkTargetToAbs path target vfsPathMax
    | none => .ok []

/-- The inner loop: `path` is the buffer `prefix`, `s` what is left of `cur`; every turn takes a
byte of `s` or more.  The result is `target_abs` of the first link and what follows it. -/
def scanLinks (env : SymlinkEnv) (path : Bytes) : ℕ → Bytes → Except SymlinkErr (Option (Bytes × Bytes))
  | 0, _ => .ok none
  | n + 1, s =>
    if s = [] then .ok none
    else
      let path := if path.length > 1 then appendCh vfsPathMax path slash else path
      let path := appendStr vfsPathMax path (s.takeWhile (· ≠ slash))
      let rest := s.dropWhile (· ≠ slash)
      match env.targetAbs path with
      | .error e => .error e
      | .ok [] => scanLinks env path n (rest.dropWhile (· = slash))
      | .ok target => .ok (some (target, rest))

/-- `next`: the target and what follows the link. -/
def nextPath (target rest : Bytes) : Bytes :=
  let next := appendStr vfsPathMax [] target
  if rest = [] then next
  else
    let next := if next = [] ∨ next.getLast? ≠ some slash then appendCh vfsPathMax next slash else next
    appendStr vfsPathMax next (rest.drop 1)

/-- The outer loop, for so many turns. -/
def resolveFrom (env : SymlinkEnv) (cap : ℕ) : ℕ → Bytes → Except SymlinkErr Bytes
  | 0, _ => .error .eloop
  | limit + 1, cur =>
    if cur.head? ≠ some slash then .error .einval
    else
      match env.scanLinks [slash] cur.length (cur.drop 1) with
      | .error e => .error e
      | .ok none => .ok (strlcpy cap cur)
      | .ok (some (target, rest)) =>
        resolveFrom env cap limit (pathNormalizeAbs (nextPath target rest) vfsPathMax)

/-- `c3_resolve_builtin_symlink_path`. -/
def resolvePath (env : SymlinkEnv) (s : Bytes) (cap : ℕ) : Except SymlinkErr Bytes :=
  if cap = 0 then .error .efault else env.resolveFrom cap 16 (strlcpy vfsPathMax s)

/-! ### Resolution without bounds -/

/-- The text of the link at `path`. -/
def linkText (env : SymlinkEnv) (path : Bytes) : Option Bytes :=
  (builtinSymlinkTarget env.vboxGpu path).orElse fun _ => (env.kvfsSymlinkTarget path).map cstr

/-- The first component of `s`, behind the directory `path`, that is a link: its path, its text,
and what follows it. -/
def firstLinkFrom (env : SymlinkEnv) (path : Bytes) : ℕ → Bytes → Option (Bytes × Bytes × Bytes)
  | 0, _ => none
  | n + 1, s =>
    if s = [] then none
    else
      let path := (if path.length > 1 then path ++ [slash] else path) ++ s.takeWhile (· ≠ slash)
      let rest := s.dropWhile (· ≠ slash)
      (env.linkText path).elim (firstLinkFrom env path n (rest.dropWhile (· = slash)))
        fun text => some (path, text, rest)

def firstLink (env : SymlinkEnv) (s : Bytes) : Option (Bytes × Bytes × Bytes) :=
  env.firstLinkFrom [slash] s.length (s.drop 1)

/-- The text of a link at `path`, a relative one behind the directory of the link. -/
def absText (path text : Bytes) : Bytes :=
  if text.head? = some slash then text else joinBase (joinPath (pathSegments path).dropLast) text

/-- What a link at `path` leads to. -/
def linkTarget (path text : Bytes) : Bytes := lexicalPath (absText path text)

/-- The path with the link at `path` replaced. -/
def replaced (path text rest : Bytes) : Bytes :=
  if rest = [] then linkTarget path text else joinBase (linkTarget path text) (rest.drop 1)

/-- The first link of `s` is replaced, and the path normalized. -/
def LinkStep (env : SymlinkEnv) (s s' : Bytes) : Prop :=
  ∃ path text rest, env.firstLink s = some (path, text, rest) ∧ text ≠ [] ∧
    s' = lexicalPath (replaced path text rest)

/-- Replacing a link exceeds no buffer: its text, what it leads to, and the new path are shorter
than 256 bytes, and both normalizations recover from overflows of the segment stack. -/
def LinkFits (path text rest : Bytes) : Prop :=
  text.length < vfsPathMax ∧ PathRecovers (absText path text) ∧
    (linkTarget path text).length < vfsPathMax ∧ (replaced path text rest).length < vfsPathMax ∧
    PathRecovers (replaced path text rest)

instance (s : Bytes) : Decidable (PathRecovers s) := decidable_of_iff _ (boundedSegments_eq_iff s)

instance (path text rest : Bytes) : Decidable (LinkFits path text rest) :=
  inferInstanceAs (Decidable (_ ∧ _))

/-- Link after link is replaced, and whatever stands in the way is reported: too many links, an
empty link, or a path that does not fit. -/
def referenceFrom (env : SymlinkEnv) (cap : ℕ) : ℕ → Bytes → Except SymlinkErr Bytes
  | 0, _ => .error .eloop
  | limit + 1, s =>
    match env.firstLink s with
    | none => if s.length < cap then .ok s else .error .enametoolong
    | some (path, text, rest) =>
      if text = [] then .error .einval
      else if LinkFits path text rest then
        referenceFrom env cap limit (lexicalPath (replaced path text rest))
      else .error .enametoolong

/-- The resolution of the path `s` into a buffer of `cap` bytes. -/
def reference (env : SymlinkEnv) (s : Bytes) (cap : ℕ) : Except SymlinkErr Bytes :=
  if cap = 0 then .error .efault
  else if s.head? ≠ some slash then .error .einval
  else if s.length < vfsPathMax then env.referenceFrom cap 16 s
  else .error .enametoolong

end SymlinkEnv

/-! ### The built-in links -/

theorem builtinSymlinks_plain : ∀ vbox, ∀ l ∈ builtinSymlinks vbox,
    (0 ∉ ascii l.2 ∧ (ascii l.2).length < vfsPathMax) ∧ (ascii l.2).head? = some slash ∧
      lexicalPath (ascii l.2) = ascii l.2 ∧ boundedSegments (ascii l.2) = lexicalSegments (ascii l.2) := by
  decide +kernel

theorem builtinSymlinkTarget_plain {vbox : Bool} {path target : Bytes}
    (h : builtinSymlinkTarget vbox path = some target) :
    FitsBuf target ∧ target.head? = some slash ∧ lexicalPath target = target ∧ PathRecovers target := by
  obtain ⟨l, hl, rfl⟩ := map_eq_some_iff.1 h
  obtain ⟨h1, h2, h3, h4⟩ := builtinSymlinks_plain vbox l (mem_of_find?_eq_some hl)
  exact ⟨h1, h2, h3, (boundedSegments_eq_iff _).1 h4⟩

theorem builtinSymlinkTarget_root : ∀ vbox, builtinSymlinkTarget vbox [slash] = none := by
  decide +kernel

/-! ### Components -/

theorem pathSegments_dropWhile (s : Bytes) :
    pathSegments (s.dropWhile (· = slash)) = pathSegments s := by
  induction s with
  | nil => rfl
  | cons c s ih =>
    by_cases hc : c = slash
    · rw [dropWhile_cons_of_pos (by simpa using hc), ih, pathSegments, pathSegments,
        segmentsFrom.eq_2, if_pos hc, if_pos rfl]
    · rw [dropWhile_cons_of_neg (by simpa using hc)]

theorem pathSegments_component {comp rest : Bytes} (hcomp : slash ∉ comp) (h0 : comp ≠ [])
    (hrest : rest = [] ∨ rest.head? = some slash) :
    pathSegments (comp ++ rest) = comp :: pathSegments rest := by
  rw [pathSegments, segmentsFrom_append hcomp, nil_append]
  rcases hrest with rfl | hrest
  · rw [segmentsFrom, if_neg h0]
    rfl
  · obtain ⟨t, rfl⟩ := List.head?_eq_some_iff.1 hrest
    rw [segmentsFrom, if_pos rfl, if_neg h0]
    rfl

theorem slash_not_mem_takeWhile (s : Bytes) : slash ∉ s.takeWhile (· ≠ slash) := by
  intro h
  simpa using mem_takeWhile_imp h

theorem dropWhile_slash (s : Bytes) :
    s.dropWhile (· ≠ slash) = [] ∨ (s.dropWhile (· ≠ slash)).head? = some slash := by
  cases h : s.dropWhile (· ≠ slash) with
  | nil => exact .inl rfl
  | cons c t =>
    right
    have hc := List.head?_dropWhile_not (fun c : UInt8 => decide (c ≠ slash)) s
    rw [h] at hc
    simpa using hc

theorem pathDirname_joinPath {pre : List Bytes} {seg : Bytes} (hseg : IsSegment seg)
    (hlen : (joinPath (pre ++ [seg])).length < vfsPathMax) :
    pathDirname (joinPath (pre ++ [seg])) vfsPathMax = joinPath pre := by
  have hsplit : ∃ d : Bytes, joinPath (pre ++ [seg]) = d ++ slash :: seg ∧
      joinPath pre = if d = [] then [slash] else d := by
    by_cases h0 : pre = []
    · exact ⟨[], by simp [joinPath, h0], by simp [joinPath, h0]⟩
    · refine ⟨joinPath pre, joinPath_concat seg h0, ?_⟩
      rw [if_neg (ne_nil_of_length_pos (joinPath_length_pos pre))]
  obtain ⟨d, he, hpre⟩ := hsplit
  have hidx : (d ++ slash :: seg).reverse.idxOf slash = seg.length := by
    rw [reverse_append, reverse_cons, append_assoc,
      idxOf_append_of_notMem (by simpa using hseg.2)]
    simp
  rw [he, length_append, length_cons] at hlen
  have hlast : (d ++ slash :: seg).length - 1 - seg.length = d.length := by
    rw [length_append, length_cons]
    omega
  rw [he, hpre]
  simp only [pathDirname, hidx, hlast]
  by_cases hd : d = []
  · rw [if_pos (.inr (by rw [hd]; rfl)), if_pos hd]
    rfl
  · rw [if_neg (by simp [hd]), if_neg hd, if_neg (by omega), take_left]

namespace SymlinkEnv

variable {env : SymlinkEnv} {n cap : ℕ} {s : Bytes}

theorem linkText_root (env : SymlinkEnv) : env.linkText [slash] = none := by
  rw [linkText, builtinSymlinkTarget_root]
  unfold kvfsSymlinkTarget
  split
  · rfl
  · rename_i data hdata
    rw [if_neg]
    · rfl
    · rw [startsWith, isPrefixOf_iff_prefix]
      exact env.root data hdata

/-- **The scan finds the first component that is a link.**  The components of `s` behind the
directory of `pre` are no links, or those before number `k` are none and number `k` is one. -/
theorem firstLinkFrom_spec (env : SymlinkEnv) {pre : List Bytes} (hpre : ∀ seg ∈ pre, IsSegment seg)
    (hn : s.length ≤ n) (hs : s.head? = some slash → pre = []) :
    (env.firstLinkFrom (joinPath pre) n s = none ∧ ∀ j, 0 < j → j ≤ (pathSegments s).length →
      env.linkText (joinPath (pre ++ (pathSegments s).take j)) = none) ∨
    ∃ k seg text rest, (pathSegments s)[k]? = some seg ∧
      (∀ j, 0 < j → j ≤ k → env.linkText (joinPath (pre ++ (pathSegments s).take j)) = none) ∧
      env.linkText (joinPath (pre ++ (pathSegments s).take k ++ [seg])) = some text ∧
      env.firstLinkFrom (joinPath pre) n s =
        some (joinPath (pre ++ (pathSegments s).take k ++ [seg]), text, rest) ∧
      pathSegments rest = (pathSegments s).drop (k + 1) ∧ (rest = [] ∨ rest.head? = some slash) := by
  induction n generalizing pre s with
  | zero =>
    obtain rfl : s = [] := eq_nil_of_length_eq_zero (by omega)
    exact .inl ⟨rfl, fun j hj hle => absurd hle (by simp [pathSegments, segmentsFrom]; omega)⟩
  | succ n ih =>
    by_cases h0 : s = []
    · subst h0
      exact .inl ⟨rfl, fun j hj hle => absurd hle (by simp [pathSegments, segmentsFrom]; omega)⟩
    have hcut := takeWhile_append_dropWhile (p := fun c : UInt8 => decide (c ≠ slash)) (l := s)
    have hcomp := slash_not_mem_takeWhile s
    have hrest := dropWhile_slash s
    unfold firstLinkFrom
    rw [if_neg h0]
    simp only
    generalize s.takeWhile (· ≠ slash) = comp at *
    generalize s.dropWhile (· ≠ slash) = rest at *
    have hshort : (rest.dropWhile (· = slash)).length ≤ rest.length :=
      (dropWhile_suffix _).length_le
    by_cases hc0 : comp = []
    · -- slashes at the start, which only the root has
      subst hc0
      rw [nil_append] at hcut
      subst hcut
      obtain ⟨t, rfl⟩ := List.head?_eq_some_iff.1 (hrest.resolve_left h0)
      obtain rfl := hs rfl
      have hlen : ((slash :: t).dropWhile (· = slash)).length ≤ n := by
        rw [dropWhile_cons_of_pos (by simp)]
        have := (dropWhile_suffix (l := t) (fun c : UInt8 => decide (c = slash))).length_le
        rw [length_cons] at hn
        omega
      have hroot : (if (joinPath []).length > 1 then joinPath [] ++ [slash] else joinPath []) ++ [] =
          [slash] := rfl
      rw [hroot, env.linkText_root, elim_none, ← pathSegments_dropWhile]
      exact ih hpre hlen fun _ => rfl
    · have hseg : IsSegment comp := ⟨hc0, hcomp⟩
      have hsegs : pathSegments s = comp :: pathSegments (rest.dropWhile (· = slash)) := by
        rw [← hcut, pathSegments_component hcomp hc0 hrest, pathSegments_dropWhile]
      have hpath : (if (joinPath pre).length > 1 then joinPath pre ++ [slash] else joinPath pre) ++ comp =
          joinPath (pre ++ [comp]) := by
        by_cases hp0 : pre = []
        · subst hp0
          simp [joinPath]
        · rw [if_pos (one_lt_length_joinPath hpre hp0), joinPath_concat comp hp0, append_assoc]
          rfl
      have hlen : (rest.dropWhile (· = slash)).length ≤ n := by
        have hpos := length_pos_of_ne_nil hc0
        rw [← hcut, length_append] at hn
        omega
      have hhead : (rest.dropWhile (· = slash)).head? ≠ some slash := by
        intro h
        have hd := List.head?_dropWhile_not (fun c : UInt8 => decide (c = slash)) rest
        rw [h] at hd
        simp at hd
      rw [hpath, hsegs]
      cases ht : env.linkText (joinPath (pre ++ [comp])) with
      | some text =>
        refine .inr ⟨0, comp, text, rest, rfl, fun j hj hle => by omega, ?_, ?_, ?_, hrest⟩
        · simpa using ht
        · simp
        · simp [pathSegments_dropWhile]
      | none =>
        rw [elim_none]
        have hone : ∀ j, 0 < j → j ≤ 1 → env.linkText (joinPath (pre ++
            (comp :: pathSegments (rest.dropWhile (· = slash))).take j)) = none := by
          intro j hj hle
          obtain rfl : j = 1 := by omega
          simpa using ht
        have hpre' : ∀ seg ∈ pre ++ [comp], IsSegment seg := by
          intro seg hmem
          rcases mem_append.1 hmem with hmem | hmem
          · exact hpre seg hmem
          · exact mem_singleton.1 hmem ▸ hseg
        rcases ih hpre' hlen fun h => absurd h hhead with ⟨hnone, hall⟩ |
          ⟨k, seg, text, r, hk, hbefore, htext, hfirst, hr, hrslash⟩
        · refine .inl ⟨hnone, fun j hj hle => ?_⟩
          by_cases hj1 : j ≤ 1
          · exact hone j hj hj1
          · obtain ⟨j, rfl⟩ : ∃ i, j = i + 1 := ⟨j - 1, by omega⟩
            rw [length_cons] at hle
            simpa using hall j (by omega) (by omega)
        · refine .inr ⟨k + 1, seg, text, r, by simpa using hk, fun j hj hle => ?_, by simpa using htext,
            by simpa using hfirst, by simpa using hr, hrslash⟩
          by_cases hj1 : j ≤ 1
          · exact hone j hj hj1
          · obtain ⟨j, rfl⟩ : ∃ i, j = i + 1 := ⟨j - 1, by omega⟩
            simpa using hbefore j (by omega) (by omega)

theorem firstLinkFrom_suffix {path : Bytes} {p text rest : Bytes}
    (h : env.firstLinkFrom path n s = some (p, text, rest)) : rest <:+ s := by
  induction n generalizing path s with
  | zero => cases h
  | succ n ih =>
    unfold firstLinkFrom at h
    by_cases h0 : s = []
    · rw [if_pos h0] at h
      cases h
    · rw [if_neg h0] at h
      simp only at h
      generalize (if path.length > 1 then path ++ [slash] else path) ++ s.takeWhile (· ≠ slash) = q at h
      have hrest : s.dropWhile (· ≠ slash) <:+ s := dropWhile_suffix _
      cases ht : env.linkText q with
      | some t =>
        rw [ht, elim_some] at h
        obtain ⟨-, he⟩ := Prod.mk.inj (some.inj h)
        obtain ⟨-, rfl⟩ := Prod.mk.inj he
        exact hrest
      | none =>
        rw [ht, elim_none] at h
        exact ((ih h).trans (dropWhile_suffix _)).trans hrest

theorem zero_not_mem_linkText {path text : Bytes} (h : env.linkText path = some text) : 0 ∉ text := by
  unfold linkText at h
  cases hb : builtinSymlinkTarget env.vboxGpu path with
  | some target =>
    rw [hb] at h
    obtain rfl := some.inj h
    exact (builtinSymlinkTarget_plain hb).1.1
  | none =>
    rw [hb] at h
    obtain ⟨data, -, rfl⟩ := map_eq_some_iff.1 h
    exact zero_not_mem_cstr data

theorem firstLink_spec {path text rest : Bytes} (hs : FitsBuf s) (habs : s.head? = some slash)
    (h : env.firstLink s = some (path, text, rest)) :
    (∃ pre seg, IsSegment seg ∧ pathSegments path = pre ++ [seg] ∧ path = joinPath (pre ++ [seg])) ∧
      FitsBuf path ∧ 0 ∉ text ∧ 0 ∉ rest := by
  obtain ⟨t, rfl⟩ := List.head?_eq_some_iff.1 habs
  have hsegs : ∀ seg ∈ pathSegments t, IsSegment seg := fun seg => isSegment_of_mem
  have hrest : 0 ∉ rest := fun h0 =>
    hs.1 (mem_cons_of_mem slash ((firstLinkFrom_suffix h).subset h0))
  have hlen : t.length ≤ (slash :: t).length := by simp
  have hroot : env.firstLink (slash :: t) = env.firstLinkFrom (joinPath []) (slash :: t).length t := rfl
  have hnil : ∀ seg ∈ ([] : List Bytes), IsSegment seg := by simp
  rcases env.firstLinkFrom_spec hnil hlen (fun _ => rfl) with ⟨hnone, -⟩ |
    ⟨k, seg, text', rest', hk, -, htext, hfirst, -, -⟩
  · rw [hroot, hnone] at h
    cases h
  · rw [hroot, hfirst] at h
    obtain ⟨rfl, he⟩ := Prod.mk.inj (some.inj h)
    obtain ⟨rfl, -⟩ := Prod.mk.inj he
    have hseg : IsSegment seg := hsegs seg (mem_of_getElem? hk)
    have hsub : List.Sublist ((pathSegments t).take k ++ [seg]) (pathSegments t) := by
      have htake : (pathSegments t).take (k + 1) = (pathSegments t).take k ++ [seg] := by
        rw [take_add_one, hk]
        rfl
      rw [← htake]
      exact take_sublist _ _
    rw [nil_append] at htext ⊢
    refine ⟨⟨_, seg, hseg, pathSegments_joinPath fun g hg => hsegs g (hsub.subset hg), rfl⟩,
      ⟨zero_not_mem_joinPath (fun h0 => hs.1 (mem_cons_of_mem slash h0)) hsub, ?_⟩,
      zero_not_mem_linkText htext, hrest⟩
    have hle := length_joinPath_le hsub
    have hall := length_joinPath_segments_le t
    have hbound := hs.2
    rw [length_cons] at hbound
    omega

/-! ### The buffers of one turn -/

/-- What is left of a link's text in `target_abs`. -/
def boundedTarget (path text : Bytes) : Bytes :=
  let buf := text.take (vfsPathMax - 1)
  if buf.head? = some slash then pathNormalizeAbs buf vfsPathMax
  else pathNormalizeAbs (pathBuild (pathDirname path vfsPathMax) buf (vfsPathMax * 2)) vfsPathMax

theorem pathNormalizeAbs_ne_nil (hcap : 2 ≤ cap) (s : Bytes) : pathNormalizeAbs s cap ≠ [] := by
  have hpos := joinPath_length_pos (boundedSegments s)
  rw [pathNormalizeAbs_eq hcap]
  intro hnil
  have hlen := congrArg List.length hnil
  rw [length_take, length_nil] at hlen
  omega

theorem boundedTarget_ne_nil (path text : Bytes) : boundedTarget path text ≠ [] := by
  unfold boundedTarget
  simp only
  split_ifs
  all_goals exact pathNormalizeAbs_ne_nil (by decide) _

/-- **The target of a component**, in terms of the text of its link. -/
theorem targetAbs_eq (env : SymlinkEnv) (path : Bytes) :
    env.targetAbs path = (env.linkText path).elim (.ok []) fun text =>
      if text = [] then .error .einval else .ok (boundedTarget path text) := by
  unfold targetAbs linkText
  cases hb : builtinSymlinkTarget env.vboxGpu path with
  | some target =>
    obtain ⟨⟨h0, hlen⟩, habs, hlex, hrec⟩ := builtinSymlinkTarget_plain hb
    have hne : target ≠ [] := by
      rintro rfl
      cases habs
    have hcut : target.take (vfsPathMax - 1) = target := take_of_length_le (by omega)
    have hnorm : boundedTarget path target = target := by
      simp only [boundedTarget, hcut, habs, if_true]
      rw [(pathNormalizeAbs_eq_iff (by decide) target).2 ⟨hrec, by rw [hlex]; exact hlen⟩, hlex]
    simp only [Option.orElse, elim_some]
    rw [if_neg hne, hnorm, strlcpy_of_not_mem h0, hcut]
  | none =>
    cases hk : env.kvfsSymlinkTarget path with
    | none => rfl
    | some target =>
      simp only [Option.orElse, map_some, elim_some, symlinkTargetToAbs]
      rw [if_neg (by decide)]
      by_cases h0 : cstr target = []
      · rw [if_pos h0, if_pos (by rw [h0]; rfl)]
      · have hbuf : (cstr target).take (vfsPathMax - 1) ≠ [] := by
          intro hnil
          have hpos := length_pos_of_ne_nil h0
          have hlen := congrArg List.length hnil
          rw [length_take, length_nil] at hlen
          have : vfsPathMax = 256 := rfl
          omega
        rw [if_neg h0, if_neg hbuf, boundedTarget]
        split_ifs
        · rfl
        · rfl

theorem scanLinks_eq (env : SymlinkEnv) {path : Bytes} (n : ℕ) (h0 : 0 ∉ s)
    (hlen : s ≠ [] → path.length + (if path.length > 1 then 1 else 0) + s.length < vfsPathMax) :
    env.scanLinks path n s = (env.firstLinkFrom path n s).elim (.ok none) fun l =>
      if l.2.1 = [] then .error .einval else .ok (some (boundedTarget l.1 l.2.1, l.2.2)) := by
  induction n generalizing path s with
  | zero => rfl
  | succ n ih =>
    unfold scanLinks firstLinkFrom
    by_cases hs : s = []
    · rw [if_pos hs, if_pos hs]
      rfl
    rw [if_neg hs, if_neg hs]
    have hfits := hlen hs
    have hcut := takeWhile_append_dropWhile (p := fun c : UInt8 => decide (c ≠ slash)) (l := s)
    have hrest := dropWhile_slash s
    simp only
    generalize s.takeWhile (· ≠ slash) = comp at *
    generalize s.dropWhile (· ≠ slash) = rest at *
    have hlen2 := congrArg List.length hcut
    rw [length_append] at hlen2
    have hslash : (if path.length > 1 then appendCh vfsPathMax path slash else path) =
        if path.length > 1 then path ++ [slash] else path := by
      split_ifs with hp
      · rw [appendCh, if_pos]
        rw [if_pos hp] at hfits
        have := length_pos_of_ne_nil hs
        omega
      · rfl
    have hpath : appendStr vfsPathMax (if path.length > 1 then path ++ [slash] else path) comp =
        (if path.length > 1 then path ++ [slash] else path) ++ comp := by
      refine appendStr_of_fits (fun hz => h0 (hcut ▸ mem_append_left rest hz)) ?_
      split_ifs at hfits ⊢
      · rw [length_append, length_singleton]
        omega
      · omega
    rw [hslash, hpath]
    have hq : ((if path.length > 1 then path ++ [slash] else path) ++ comp).length + rest.length <
        vfsPathMax := by
      rw [length_append]
      split_ifs at hfits ⊢
      · rw [length_append, length_singleton]
        omega
      · omega
    generalize (if path.length > 1 then path ++ [slash] else path) ++ comp = q at *
    rw [targetAbs_eq]
    cases ht : env.linkText q with
    | none =>
      simp only [elim_none]
      refine ih (fun hz => h0 ?_) fun hne => ?_
      · exact hcut ▸ mem_append_right comp ((dropWhile_suffix _).subset hz)
      · rcases hrest with rfl | hrest
        · exact absurd rfl hne
        · obtain ⟨t, rfl⟩ := List.head?_eq_some_iff.1 hrest
          rw [dropWhile_cons_of_pos (by simp)]
          have := (dropWhile_suffix (l := t) (fun c : UInt8 => decide (c = slash))).length_le
          rw [length_cons] at hq
          split_ifs <;> omega
    | some text =>
      simp only [elim_some]
      by_cases hnil : text = []
      · rw [if_pos hnil, if_pos hnil]
      · rw [if_neg hnil, if_neg hnil]
        cases hb : boundedTarget q text with
        | nil => exact absurd hb (boundedTarget_ne_nil q text)
        | cons c b => rfl

theorem head?_joinPath (segs : List Bytes) : (joinPath segs).head? = some slash := by
  unfold joinPath
  split_ifs with h
  · rfl
  · obtain ⟨seg, segs, rfl⟩ := exists_cons_of_ne_nil h
    rfl

theorem fitsBuf_lexicalPath (h0 : 0 ∉ s) (hlen : (lexicalPath s).length < vfsPathMax) :
    FitsBuf (lexicalPath s) := ⟨zero_not_mem_joinPath h0 (lexicalSegments_sublist s), hlen⟩

theorem nextPath_eq {target rest : Bytes} (h0 : 0 ∉ target) (hr : 0 ∉ rest) (hne : target ≠ [])
    (hlen : (if rest = [] then target else joinBase target (rest.drop 1)).length < vfsPathMax) :
    nextPath target rest = if rest = [] then target else joinBase target (rest.drop 1) := by
  have htarget : target.length < vfsPathMax := by
    split_ifs at hlen with h
    · exact hlen
    · unfold joinBase at hlen
      rw [if_neg hne, length_append] at hlen
      split_ifs at hlen
      · omega
      · rw [length_append] at hlen
        omega
  have hfirst : appendStr vfsPathMax [] target = target := by
    rw [appendStr_of_fits h0 (by simpa using htarget), nil_append]
  unfold nextPath
  simp only [hfirst]
  by_cases hrest : rest = []
  · rw [if_pos hrest, if_pos hrest]
  · rw [if_neg hrest] at hlen
    rw [if_neg hrest, if_neg hrest]
    have hdrop : 0 ∉ rest.drop 1 := fun h => hr (mem_of_mem_drop h)
    unfold joinBase at hlen ⊢
    rw [if_neg hne] at hlen ⊢
    by_cases hlast : target.getLast? = some slash
    · rw [if_pos hlast] at hlen ⊢
      rw [if_neg (by simp [hne, hlast]), appendStr_of_fits hdrop (by rwa [length_append] at hlen)]
    · rw [if_neg hlast] at hlen ⊢
      rw [length_append, length_append, length_singleton] at hlen
      rw [if_pos (.inr hlast), appendCh, if_pos (by omega), appendStr_of_fits hdrop]
      rw [length_append, length_singleton]
      omega

/-- **One turn of the source is one step of the reference**, when the link fits. -/
theorem turn_eq {path text rest : Bytes} (hs : FitsBuf s) (habs : s.head? = some slash)
    (hlink : env.firstLink s = some (path, text, rest)) (hfits : LinkFits path text rest) :
    pathNormalizeAbs (nextPath (boundedTarget path text) rest) vfsPathMax =
        lexicalPath (replaced path text rest) ∧
      FitsBuf (lexicalPath (replaced path text rest)) := by
  obtain ⟨⟨pre, seg, hseg, hsegs, hpath⟩, hpfits, htext, hrest⟩ := firstLink_spec hs habs hlink
  obtain ⟨hlen, hrec1, htarget, hnext, hrec2⟩ := hfits
  have hcut : text.take (vfsPathMax - 1) = text := take_of_length_le (by omega)
  have hdir : pathDirname path vfsPathMax = joinPath pre := by
    rw [hpath]
    exact pathDirname_joinPath hseg (hpath ▸ hpfits.2)
  have hbound : boundedTarget path text = pathNormalizeAbs (absText path text) vfsPathMax := by
    unfold boundedTarget absText
    simp only [hcut]
    by_cases ha : text.head? = some slash
    · rw [if_pos ha, if_pos ha]
    · rw [if_neg ha, if_neg ha, pathBuild_eq (pathDirname_fits hpfits.1) ⟨htext, hlen⟩ ha, hdir, hsegs,
        dropLast_concat]
  have htgt : boundedTarget path text = linkTarget path text :=
    hbound.trans ((pathNormalizeAbs_eq_iff (by decide) _).2 ⟨hrec1, htarget⟩)
  have habs0 : 0 ∉ absText path text := by
    unfold absText
    split_ifs
    · exact htext
    · have hdir0 : 0 ∉ joinPath (pathSegments path).dropLast :=
        zero_not_mem_joinPath hpfits.1 (dropLast_sublist _)
      have hslash : (0 : UInt8) ≠ slash := by decide
      unfold joinBase
      split_ifs <;> simp [hdir0, htext, hslash]
  have htgt0 : 0 ∉ linkTarget path text := (fitsBuf_lexicalPath habs0 htarget).1
  have hne : linkTarget path text ≠ [] := ne_nil_of_length_pos (joinPath_length_pos _)
  have hstep : nextPath (linkTarget path text) rest = replaced path text rest :=
    nextPath_eq htgt0 hrest hne hnext
  have hhead : (replaced path text rest).head? = some slash := by
    have htl : (linkTarget path text).head? = some slash := head?_joinPath _
    obtain ⟨t, ht⟩ := List.head?_eq_some_iff.1 htl
    unfold replaced joinBase
    rw [ht]
    split_ifs <;> simp
  have hshort : (lexicalPath (replaced path text rest)).length < vfsPathMax :=
    lt_of_le_of_lt (length_lexicalPath_le hhead) hnext
  have hrep0 : 0 ∉ replaced path text rest := by
    have hdrop : 0 ∉ rest.tail := fun h => hrest (mem_of_mem_tail h)
    have hslash : (0 : UInt8) ≠ slash := by decide
    unfold replaced joinBase
    split_ifs <;> simp [htgt0, hdrop, hslash]
  rw [htgt, hstep]
  exact ⟨(pathNormalizeAbs_eq_iff (by decide) _).2 ⟨hrec2, hshort⟩, fitsBuf_lexicalPath hrep0 hshort⟩

/-! ### Whole resolutions -/

theorem resolveFrom_succ (env : SymlinkEnv) (cap limit : ℕ) {cur : Bytes} (hcur : FitsBuf cur)
    (habs : cur.head? = some slash) :
    env.resolveFrom cap (limit + 1) cur = (env.firstLink cur).elim (.ok (strlcpy cap cur)) fun l =>
      if l.2.1 = [] then .error .einval
      else env.resolveFrom cap limit
        (pathNormalizeAbs (nextPath (boundedTarget l.1 l.2.1) l.2.2) vfsPathMax) := by
  obtain ⟨t, rfl⟩ := List.head?_eq_some_iff.1 habs
  have hlen := hcur.2
  rw [length_cons] at hlen
  have h0 : 0 ∉ t := fun h => hcur.1 (mem_cons_of_mem slash h)
  have hroom : t ≠ [] → [slash].length + (if [slash].length > 1 then 1 else 0) + t.length < vfsPathMax :=
    fun _ => by simp; omega
  have hscan := env.scanLinks_eq (slash :: t).length h0 hroom
  conv_lhs => unfold resolveFrom
  unfold firstLink
  rw [if_neg (not_not.2 habs), drop_one, tail_cons, hscan]
  rcases env.firstLinkFrom [slash] (slash :: t).length t with _ | ⟨path, text, rest⟩
  · rfl
  · simp only [elim_some]
    split_ifs
    · rfl
    · rfl

theorem scanLinks_error {path : Bytes} {e : SymlinkErr} (h : env.scanLinks path n s = .error e) :
    e = .einval := by
  induction n generalizing path s with
  | zero => cases h
  | succ n ih =>
    unfold scanLinks at h
    by_cases h0 : s = []
    · rw [if_pos h0] at h
      cases h
    rw [if_neg h0] at h
    simp only [targetAbs_eq] at h
    generalize appendStr vfsPathMax _ _ = q at h
    cases ht : env.linkText q with
    | none =>
      rw [ht] at h
      exact ih h
    | some text =>
      rw [ht, elim_some] at h
      by_cases hnil : text = []
      · rw [if_pos hnil] at h
        exact (Except.error.inj h).symm
      · rw [if_neg hnil] at h
        cases hb : boundedTarget q text with
        | nil => exact absurd hb (boundedTarget_ne_nil q text)
        | cons c b =>
          rw [hb] at h
          cases h

theorem resolvePath_ne_toolong (env : SymlinkEnv) (s : Bytes) (cap : ℕ) :
    env.resolvePath s cap ≠ .error .enametoolong := by
  have hfrom : ∀ limit cur, env.resolveFrom cap limit cur ≠ .error .enametoolong := by
    intro limit
    induction limit with
    | zero =>
      intro cur h
      cases h
    | succ limit ih =>
      intro cur h
      unfold resolveFrom at h
      by_cases habs : cur.head? ≠ some slash
      · rw [if_pos habs] at h
        cases h
      rw [if_neg habs] at h
      cases hscan : env.scanLinks [slash] cur.length (cur.drop 1) with
      | error e =>
        rw [hscan, scanLinks_error hscan] at h
        cases h
      | ok found =>
        rw [hscan] at h
        cases found with
        | none => cases h
        | some l => exact ih _ h
  intro h
  unfold resolvePath at h
  by_cases hcap : cap = 0
  · rw [if_pos hcap] at h
    cases h
  · rw [if_neg hcap] at h
    exact hfrom _ _ h

theorem resolveFrom_eq (env : SymlinkEnv) (hcap : 0 < cap) (limit : ℕ) (hs : FitsBuf s)
    (habs : s.head? = some slash) (h : env.referenceFrom cap limit s ≠ .error .enametoolong) :
    env.resolveFrom cap limit s = env.referenceFrom cap limit s := by
  induction limit generalizing s with
  | zero => rfl
  | succ limit ih =>
    rw [env.resolveFrom_succ cap limit hs habs]
    unfold referenceFrom at h ⊢
    cases hl : env.firstLink s with
    | none =>
      rw [hl] at h
      change (if s.length < cap then _ else _) ≠ _ at h
      change Except.ok (strlcpy cap s) = if s.length < cap then _ else _
      by_cases hlen : s.length < cap
      · rw [if_pos hlen, strlcpy_of_not_mem hs.1, take_of_length_le (by omega)]
      · rw [if_neg hlen] at h
        exact absurd rfl h
    | some l =>
      obtain ⟨path, text, rest⟩ := l
      rw [hl] at h
      simp only at h ⊢
      rw [elim_some]
      by_cases h0 : text = []
      · rw [if_pos h0, if_pos h0]
      · rw [if_neg h0] at h ⊢
        rw [if_neg h0]
        by_cases hfits : LinkFits path text rest
        · rw [if_pos hfits] at h ⊢
          obtain ⟨hturn, hnext⟩ := turn_eq hs habs hl hfits
          rw [hturn]
          exact ih hnext (head?_joinPath _) h
        · rw [if_neg hfits] at h
          exact absurd rfl h

/-- **The source agrees with the reference** exactly while no buffer is exceeded. -/
theorem resolvePath_eq_iff (env : SymlinkEnv) (s : CString) (cap : ℕ) :
    env.resolvePath s cap = env.reference s cap ↔ env.reference s cap ≠ .error .enametoolong := by
  constructor
  · intro h
    rw [← h]
    exact env.resolvePath_ne_toolong s cap
  · intro h
    unfold resolvePath
    unfold reference at h ⊢
    by_cases hcap : cap = 0
    · rw [if_pos hcap, if_pos hcap]
    rw [if_neg hcap] at h ⊢
    rw [if_neg hcap]
    rw [strlcpy_of_not_mem s.2]
    by_cases habs : (s : Bytes).head? = some slash
    · rw [if_neg (not_not.2 habs)] at h ⊢
      by_cases hlen : (s : Bytes).length < vfsPathMax
      · rw [if_pos hlen] at h ⊢
        rw [take_of_length_le (by omega)]
        exact env.resolveFrom_eq (by omega) 16 ⟨s.2, hlen⟩ habs h
      · rw [if_neg hlen] at h
        exact absurd rfl h
    · rw [if_pos habs]
      have hhead : ((s : Bytes).take (vfsPathMax - 1)).head? ≠ some slash := by
        rwa [List.head?_take, if_neg (by decide)]
      unfold resolveFrom
      rw [if_pos hhead]

theorem referenceFrom_ok {limit : ℕ} {r : Bytes} (h : env.referenceFrom cap limit s = .ok r) :
    Relation.ReflTransGen env.LinkStep s r ∧ env.firstLink r = none ∧ r.length < cap := by
  induction limit generalizing s with
  | zero => cases h
  | succ limit ih =>
    unfold referenceFrom at h
    cases hl : env.firstLink s with
    | none =>
      rw [hl] at h
      change (if s.length < cap then _ else _) = _ at h
      split_ifs at h with hlen
      obtain rfl := Except.ok.inj h
      exact ⟨.refl, hl, hlen⟩
    | some l =>
      obtain ⟨path, text, rest⟩ := l
      rw [hl] at h
      simp only at h
      split_ifs at h with h0 hfits
      obtain ⟨hsteps, hend⟩ := ih h
      exact ⟨.head ⟨path, text, rest, hl, h0, rfl⟩ hsteps, hend⟩

theorem referenceFrom_ne_efault (env : SymlinkEnv) (cap limit : ℕ) (s : Bytes) :
    env.referenceFrom cap limit s ≠ .error .efault := by
  induction limit generalizing s with
  | zero =>
    intro h
    cases h
  | succ limit ih =>
    unfold referenceFrom
    cases env.firstLink s with
    | none =>
      simp only
      split_ifs <;> simp
    | some l =>
      simp only
      split_ifs
      · simp
      · exact ih _
      · simp

theorem referenceFrom_eloop {limit : ℕ} (h : env.referenceFrom cap limit s = .error .eloop) :
    ∃ f : ℕ → Bytes, f 0 = s ∧ ∀ i < limit, env.LinkStep (f i) (f (i + 1)) := by
  induction limit generalizing s with
  | zero => exact ⟨fun _ => s, rfl, fun i hi => absurd hi (Nat.not_lt_zero i)⟩
  | succ limit ih =>
    unfold referenceFrom at h
    cases hl : env.firstLink s with
    | none =>
      rw [hl] at h
      change (if s.length < cap then _ else _) = _ at h
      split_ifs at h
      all_goals cases h
    | some l =>
      obtain ⟨path, text, rest⟩ := l
      rw [hl] at h
      simp only at h
      split_ifs at h with h0 hfits
      · cases h
      · obtain ⟨f, hf, hsteps⟩ := ih h
        refine ⟨fun i => i.casesOn s f, rfl, fun i hi => ?_⟩
        cases i with
        | zero => exact ⟨path, text, rest, hl, h0, hf⟩
        | succ i => exact hsteps i (by omega)
      · cases h

theorem referenceFrom_einval {limit : ℕ} (h : env.referenceFrom cap limit s = .error .einval) :
    ∃ r path rest, Relation.ReflTransGen env.LinkStep s r ∧ env.firstLink r = some (path, [], rest) := by
  induction limit generalizing s with
  | zero => cases h
  | succ limit ih =>
    unfold referenceFrom at h
    cases hl : env.firstLink s with
    | none =>
      rw [hl] at h
      change (if s.length < cap then _ else _) = _ at h
      split_ifs at h
      all_goals cases h
    | some l =>
      obtain ⟨path, text, rest⟩ := l
      rw [hl] at h
      simp only at h
      split_ifs at h with h0 hfits
      · exact ⟨s, path, rest, .refl, h0 ▸ hl⟩
      · obtain ⟨r, q, rest', hsteps, hend⟩ := ih h
        exact ⟨r, q, rest', .head ⟨path, text, rest, hl, h0, rfl⟩ hsteps, hend⟩
      · cases h

/-- What the reference answers, said of the links: the path without links that the replacement of
the first link leads to; or sixteen replacements; or a link without a text. -/
def Answers (env : SymlinkEnv) (s : Bytes) (cap : ℕ) : Except SymlinkErr Bytes → Prop
  | .ok r => Relation.ReflTransGen env.LinkStep s r ∧ env.firstLink r = none ∧ r.length < cap
  | .error .eloop => ∃ f : ℕ → Bytes, f 0 = s ∧ ∀ i < 16, env.LinkStep (f i) (f (i + 1))
  | .error .einval => s.head? ≠ some slash ∨
      ∃ r path rest, Relation.ReflTransGen env.LinkStep s r ∧ env.firstLink r = some (path, [], rest)
  | .error .efault => cap = 0
  | .error .enametoolong => True

/-- **Symbolic links.**  For any links and any path, the source answers as the reference exactly
when the reference meets no bound of a buffer; and the reference answers by what the replacement
of the first link leads to, step by step. -/
theorem symlink_resolution_exact (env : SymlinkEnv) (s : CString) (cap : ℕ) :
    (env.resolvePath s cap = env.reference s cap ↔ env.reference s cap ≠ .error .enametoolong) ∧
      env.Answers s cap (env.reference s cap) := by
  refine ⟨env.resolvePath_eq_iff s cap, ?_⟩
  unfold reference
  by_cases hcap : cap = 0
  · rw [if_pos hcap]
    exact hcap
  rw [if_neg hcap]
  by_cases habs : (s : Bytes).head? ≠ some slash
  · rw [if_pos habs]
    exact .inl habs
  rw [if_neg habs]
  by_cases hlen : (s : Bytes).length < vfsPathMax
  · rw [if_pos hlen]
    cases hr : env.referenceFrom cap 16 s with
    | ok r => exact referenceFrom_ok hr
    | error e =>
      cases e with
      | efault => exact absurd hr (env.referenceFrom_ne_efault cap 16 s)
      | einval => exact .inr (referenceFrom_einval hr)
      | eloop => exact referenceFrom_eloop hr
      | enametoolong => trivial
  · rw [if_neg hlen]
    trivial

end SymlinkEnv

/-- One file, a link whose text has 301 bytes. -/
def longLink : SymlinkEnv where
  vboxGpu := false
  kvfsRead path :=
    if path = ascii "/l" then some (symlinkPrefix ++ slash :: List.replicate 300 0x61) else none
  root data h := by
    rw [if_neg (by decide)] at h
    cases h

/-- The text of the link is cut off, and the result is the path of another file. -/
theorem symlink_resolution_not_exact :
    longLink.resolvePath (ascii "/l") vfsPathMax = .ok (slash :: List.replicate 254 0x61) ∧
      longLink.reference (ascii "/l") vfsPathMax = .error .enametoolong := by
  decide +kernel

end Ridux
