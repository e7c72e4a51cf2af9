import Ridux.Vfs.Path

/-!
# Path arguments of system calls

`c3_resolve_user_path` against lexical resolution.

* `rewriteThreadSelfPath_eq`: the rewriting of `/proc/thread-self`, cut off at the buffer;
* `not_prefix_of_sublist`: a path that lost a segment stays another path when it is rewritten;
* `PathEnv.resolvesFully_iff`: when the result is the path that the argument names.
-/

namespace Ridux

open Lib List Option

/-! ### The bytes of a path -/

variable {segs : List Bytes}

theorem mem_joinPath {x : UInt8} (h : x ∈ joinPath segs) : x = slash ∨ ∃ seg ∈ segs, x ∈ seg := by
  unfold joinPath at h
  split_ifs at h
  · exact .inl (mem_singleton.1 h)
  · obtain ⟨seg, hseg, hx⟩ := mem_flatMap.1 h
    rcases mem_cons.1 hx with rfl | hx
    · exact .inl rfl
    · exact .inr ⟨seg, hseg, hx⟩

variable {s h b : Bytes} {k n : ℕ} {pid : UInt32}

theorem zero_not_mem_joinPath (hs : 0 ∉ s) (h : List.Sublist segs (pathSegments s)) : 0 ∉ joinPath segs := by
  intro h0
  rcases mem_joinPath h0 with h0 | ⟨seg, hseg, h0⟩
  · exact absurd h0 (by decide)
  · exact hs ((mem_of_mem_segmentsFrom (h.subset hseg) h0).resolve_left (by simp))

theorem count_joinPath (h : ∀ seg ∈ segs, IsSegment seg) (h0 : segs ≠ []) :
    (joinPath segs).count slash = segs.length := by
  rw [joinPath, if_neg h0, count_flatMap]
  have hone : ∀ seg ∈ segs, (List.count slash ∘ (slash :: ·)) seg = 1 := by
    intro seg hseg
    rw [Function.comp_apply, count_cons_self, count_eq_zero_of_not_mem (h seg hseg).2]
  rw [map_congr_left hone]
  simp

/-! ### The path of the calling thread -/

theorem threadSelfHead_take (pid : UInt32) (s : Bytes) (hk : 22 ≤ k) :
    threadSelfHead pid (s.take k) = threadSelfHead pid s := by
  have hstarts : ∀ (lit t : Bytes) (n : ℕ), lit.length ≤ n →
      startsWith (t.take n) lit = startsWith t lit := by
    intro lit t n hn
    have hiff : lit <+: t.take n ↔ lit <+: t := by
      constructor
      · exact fun h => h.trans (List.take_prefix n t)
      · intro h
        obtain ⟨r, rfl⟩ := h
        rw [take_append]
        exact ⟨_, by rw [take_of_length_le hn]⟩
    unfold startsWith
    rw [Bool.eq_iff_iff, isPrefixOf_iff_prefix, isPrefixOf_iff_prefix]
    exact hiff
  have hequal : ∀ (lit t : Bytes) (n : ℕ), lit.length < n → (t.take n = lit ↔ t = lit) := by
    intro lit t n hn
    constructor
    · intro h
      have hlen := congrArg List.length h
      rw [length_take] at hlen
      rwa [take_of_length_le (by omega)] at h
    · rintro rfl
      exact take_of_length_le hn.le
  have htail : (s.take k).drop 17 = (s.drop 17).take (k - 17) := by rw [drop_take]
  have hhead : ((s.drop 17).take (k - 17)).head? = (s.drop 17).head? := by
    rw [List.head?_take, if_neg (by omega)]
  unfold threadSelfHead isProcSelfTail
  rw [hstarts _ _ _ (le_trans (by decide) hk), htail]
  simp only [hhead, hstarts (ascii "/fd/") _ _ (le_trans (by decide) (show 5 ≤ k - 17 by omega)),
    hequal [] _ _ (show 0 < k - 17 by omega),
    hequal (ascii "/fd") _ _ (lt_of_lt_of_le (by decide) (show 5 ≤ k - 17 by omega)),
    hequal (ascii "/exe") _ _ (lt_of_lt_of_le (by decide) (show 5 ≤ k - 17 by omega)),
    hequal (ascii "/cwd") _ _ (lt_of_lt_of_le (by decide) (show 5 ≤ k - 17 by omega))]

theorem threadSelfHead_some (hs : threadSelfHead pid s = some h) :
    s = ascii "/proc/thread-self" ++ s.drop 17 ∧
      (h = ascii "/proc/self/task/" ++ decimal pid.toNat ∨
        h = ascii "/proc/self" ∧ isProcSelfTail (s.drop 17) = true) := by
  unfold threadSelfHead at hs
  by_cases hc : startsWith s (ascii "/proc/thread-self") ∧
      (s.drop 17 = [] ∨ (s.drop 17).head? = some slash)
  · rw [if_pos hc] at hs
    obtain ⟨t, rfl⟩ := isPrefixOf_iff_prefix.1 hc.1
    refine ⟨rfl, ?_⟩
    by_cases htail : isProcSelfTail ((ascii "/proc/thread-self" ++ t).drop 17) = true
    · rw [if_pos htail] at hs
      exact .inr ⟨(some.inj hs).symm, htail⟩
    · rw [if_neg htail] at hs
      exact .inl (some.inj hs).symm
  · rw [if_neg hc] at hs
    cases hs

/-- **What `c3_rewrite_thread_self_path` writes.** -/
theorem rewriteThreadSelfPath_eq (pid : UInt32) (h0 : 0 ∉ s) (cap : ℕ) :
    rewriteThreadSelfPath pid s cap = (threadSelfPath pid s).take (cap - 1) := by
  have htail : 0 ∉ s.drop 17 := fun h => h0 (mem_of_mem_drop h)
  have hnil : ∀ t : Bytes, 0 ∉ t → appendStr cap [] t = t.take (cap - 1) := fun t ht => by
    simpa using appendStr_take ht cap []
  have hlen : (ascii "/proc/thread-self").length = 17 := by decide
  unfold rewriteThreadSelfPath threadSelfPath threadSelfHead
  simp only [hlen]
  by_cases hpfx : startsWith s (ascii "/proc/thread-self") = true
  · rw [if_neg (show ¬ (!startsWith s (ascii "/proc/thread-self")) = true by simp [hpfx])]
    by_cases hend : s.drop 17 = [] ∨ (s.drop 17).head? = some slash
    · rw [if_neg (show ¬ (s.drop 17 ≠ [] ∧ (s.drop 17).head? ≠ some slash) by tauto)]
      simp only [hpfx, hend, and_self, if_true]
      by_cases hself : isProcSelfTail (s.drop 17) = true
      · rw [if_pos hself, if_pos hself, hnil _ (by decide), appendStr_take htail]
        rfl
      · rw [if_neg hself, if_neg hself, hnil _ (by decide),
          appendStr_take (zero_not_mem_decimal _), appendStr_take htail]
        rfl
    · rw [if_pos (show s.drop 17 ≠ [] ∧ (s.drop 17).head? ≠ some slash by tauto),
        strlcpy_of_not_mem h0]
      simp only [hend, and_false, if_false]
      rfl
  · rw [if_pos (show (!startsWith s (ascii "/proc/thread-self")) = true by simp [hpfx]),
      strlcpy_of_not_mem h0]
    simp only [hpfx]
    rfl

theorem slash_not_mem_decimal (v : ℕ) : slash ∉ decimal v := by
  intro h
  exact absurd (mem_decimal h).1 (by decide)

theorem count_taskHead (v : ℕ) : (ascii "/proc/self/task/" ++ decimal v).count slash = 4 := by
  rw [count_append, count_eq_zero_of_not_mem (slash_not_mem_decimal v)]
  decide

theorem isProcSelfTail_cases {tail : Bytes} (h : isProcSelfTail tail = true) :
    ∃ c r, tail = slash :: c :: r ∧ c ≠ 0x74 := by
  simp only [isProcSelfTail, Bool.or_eq_true, decide_eq_true_eq] at h
  rcases h with ((rfl | hfd) | rfl) | rfl
  · exact ⟨0x66, [0x64], by decide, by decide⟩
  · obtain ⟨t, rfl⟩ := isPrefixOf_iff_prefix.1 hfd
    exact ⟨0x66, 0x64 :: slash :: t, by rfl, by decide⟩
  · exact ⟨0x65, [0x78, 0x65], by decide, by decide⟩
  · exact ⟨0x63, [0x77, 0x64], by decide, by decide⟩

theorem count_threadSelfPath (hs : threadSelfHead pid s = some h) :
    s.count slash = 2 + (s.drop 17).count slash ∧
      (threadSelfPath pid s).count slash = h.count slash + (s.drop 17).count slash ∧
      (h.count slash = 2 ∨ h.count slash = 4) := by
  obtain ⟨he, hh⟩ := threadSelfHead_some hs
  refine ⟨?_, ?_, ?_⟩
  · conv_lhs => rw [he, count_append]
    rw [show (ascii "/proc/thread-self").count slash = 2 by decide]
  · rw [threadSelfPath, hs, elim_some, count_append]
  · rcases hh with rfl | ⟨rfl, -⟩
    · exact .inr (count_taskHead _)
    · exact .inl (by decide)

section Lost

variable {segs segs' : List Bytes}

/-- A rewritten head with a task number does not make up for lost segments: the bytes of
`thread-self` are not among its bytes. -/
theorem not_prefix_taskHead {s' : Bytes} (hs : s = ascii "/proc/thread-self" ++ s.drop 17)
    (hsub : List.Sublist s s') (v : ℕ) :
    ¬ s' <+: (ascii "/proc/self/task/" ++ decimal v) ++ s.drop 17 := by
  intro hp
  generalize s.drop 17 = t at hs hp
  subst hs
  obtain ⟨l1, l2, hl, h1, h2⟩ := sublist_append_iff.1 (hsub.trans hp.sublist)
  have hlen1 := congrArg List.length hl
  have hlen2 := h2.length_le
  rw [length_append, length_append] at hlen1
  have hpfx : ascii "/proc/thread-self" <+: l1 :=
    prefix_of_prefix_length_le (prefix_append _ t) (hl ▸ prefix_append l1 l2) (by omega)
  have hmem : (0x68 : UInt8) ∈ l1 := hpfx.subset (by decide)
  rcases mem_append.1 (h1.subset hmem) with hmem | hmem
  · exact absurd hmem (by decide)
  · exact absurd (mem_decimal hmem).2 (by decide)

/-- **A path that lost a segment names another file**, also after `/proc/thread-self` is replaced
in it and when it is compared with what is left of it in a buffer. -/
theorem not_prefix_of_sublist (h : List.Sublist segs segs') (hne : segs ≠ segs')
    (hsegs : ∀ seg ∈ segs', IsSegment seg) (pid : UInt32) :
    ¬ threadSelfPath pid (joinPath segs') <+: threadSelfPath pid (joinPath segs) := by
  intro hp
  have hlen : segs.length < segs'.length :=
    lt_of_le_of_ne h.length_le fun he => hne (h.eq_of_length he)
  have hbytes := joinPath_lt_of_ne h hne hsegs
  have hcount := List.Sublist.count_le slash hp.sublist
  have hU : (joinPath segs').count slash = segs'.length :=
    count_joinPath hsegs (ne_nil_of_length_pos (by omega))
  have hB : (joinPath segs).count slash = max 1 segs.length := by
    by_cases h0 : segs = []
    · rw [h0]
      rfl
    · rw [count_joinPath (fun g hg => hsegs g (h.subset hg)) h0]
      have hpos := length_pos_of_ne_nil h0
      omega
  cases hheadB : threadSelfHead pid (joinPath segs) with
  | none =>
    have heB : threadSelfPath pid (joinPath segs) = joinPath segs := by rw [threadSelfPath, hheadB]; rfl
    rw [heB] at hp hcount
    cases hheadU : threadSelfHead pid (joinPath segs') with
    | none =>
      have heU : threadSelfPath pid (joinPath segs') = joinPath segs' := by
        rw [threadSelfPath, hheadU]; rfl
      rw [heU] at hp
      have hle := hp.length_le
      omega
    | some hU' =>
      obtain ⟨hc1, hc2, hc3⟩ := count_threadSelfPath hheadU
      omega
  | some hB' =>
    obtain ⟨hb1, hb2, hb3⟩ := count_threadSelfPath hheadB
    obtain ⟨hsplit, hform⟩ := threadSelfHead_some hheadB
    cases hheadU : threadSelfHead pid (joinPath segs') with
    | none =>
      have heU : threadSelfPath pid (joinPath segs') = joinPath segs' := by
        rw [threadSelfPath, hheadU]; rfl
      rw [heU] at hp hcount
      rcases hform with rfl | ⟨rfl, -⟩
      · rw [threadSelfPath, hheadB, elim_some] at hp
        exact not_prefix_taskHead hsplit (joinPath_sublist h) _ hp
      · have hc : (ascii "/proc/self").count slash = 2 := by decide
        omega
    | some hU' =>
      obtain ⟨hc1, hc2, hc3⟩ := count_threadSelfPath hheadU
      obtain ⟨-, hformU⟩ := threadSelfHead_some hheadU
      rcases hform with rfl | ⟨rfl, -⟩
      · rcases hformU with rfl | ⟨rfl, htail⟩
        · omega
        · -- `/proc/self/fd` and the like are no prefix of `/proc/self/task/…`
          obtain ⟨c, r, htl, hc⟩ := isProcSelfTail_cases htail
          rw [threadSelfPath, hheadU, threadSelfPath, hheadB, elim_some, elim_some,
            htl] at hp
          obtain ⟨t, ht⟩ := hp
          have hbyte := congrArg (fun l : Bytes => l[11]?) ht
          simp [ascii] at hbyte
          exact hc hbyte
      · have hc : (ascii "/proc/self").count slash = 2 := by decide
        omega

end Lost

/-! ### Cut off paths -/

theorem threadSelfPath_take (pid : UInt32) (s : Bytes) (hk : 22 ≤ k) :
    threadSelfPath pid (s.take k) <+: threadSelfPath pid s ∧
      (threadSelfPath pid (s.take k)).length + (s.length - k) = (threadSelfPath pid s).length := by
  unfold threadSelfPath
  rw [threadSelfHead_take pid s hk]
  cases hh : threadSelfHead pid s with
  | none =>
    refine ⟨List.take_prefix k s, ?_⟩
    simp only [elim_none, length_take]
    omega
  | some h =>
    have hlen := congrArg List.length (threadSelfHead_some hh).1
    rw [length_append, show (ascii "/proc/thread-self").length = 17 by decide] at hlen
    simp only [elim_some, drop_take, length_append, length_take,
      length_drop]
    refine ⟨(prefix_append_right_inj h).2 (List.take_prefix _ _), ?_⟩
    rw [length_drop] at hlen
    omega

/-- The bounded path is the full one, after all cuts, when no segment was lost and nothing was
cut off. -/
theorem threadSelfPath_take_eq_iff (pid : UInt32) (s : Bytes) (hk : 22 ≤ k) :
    (threadSelfPath pid ((joinPath (boundedSegments s)).take k)).take n =
        threadSelfPath pid (lexicalPath s) ↔
      PathRecovers s ∧ (lexicalPath s).length ≤ k ∧
        (threadSelfPath pid (lexicalPath s)).length ≤ n := by
  rw [← boundedSegments_eq_iff]
  constructor
  · intro h
    obtain ⟨hpre, hlen⟩ := threadSelfPath_take pid (joinPath (boundedSegments s)) hk
    have hsegs : boundedSegments s = lexicalSegments s := by
      by_contra hne
      refine not_prefix_of_sublist (boundedSegments_sublist s) hne
        (fun seg => lexicalSegments_isSegment) pid ?_
      rw [← lexicalPath, ← h]
      exact (List.take_prefix _ _).trans hpre
    rw [hsegs, ← lexicalPath] at h hlen
    have hcut := congrArg List.length h
    rw [length_take] at hcut
    exact ⟨hsegs, by omega, by omega⟩
  · rintro ⟨hsegs, hle, hn⟩
    rw [hsegs, ← lexicalPath, take_of_length_le hle, take_of_length_le hn]

/-! ### The argument of a system call -/

theorem appendStr_of_fits {cap : ℕ} {d : Bytes} (h0 : 0 ∉ s) (h : d.length + s.length < cap) :
    appendStr cap d s = d ++ s := by
  rw [appendStr, cstr_of_not_mem h0, take_of_length_le (by omega)]

/-- What a path buffer can hold. -/
def FitsBuf (b : Bytes) : Prop := 0 ∉ b ∧ b.length < vfsPathMax

theorem copyUserCstrFrom_fits {byteAt : ℕ → Except PathErr UInt8} {copied : Bytes} (h0 : 0 ∉ copied)
    (hn : copied.length + n = vfsPathMax) (h : copyUserCstrFrom byteAt copied n = .ok s) : FitsBuf s := by
  induction n generalizing copied with
  | zero => cases h
  | succ n ih =>
    unfold copyUserCstrFrom at h
    cases hb : byteAt copied.length with
    | error e =>
      rw [hb] at h
      cases h
    | ok ch =>
      rw [hb] at h
      change (if ch = 0 then _ else _) = _ at h
      split_ifs at h with hz
      · obtain rfl := Except.ok.inj h
        exact ⟨h0, by omega⟩
      · refine ih ?_ ?_ h
        · simp only [mem_append, mem_singleton, not_or]
          exact ⟨h0, fun h => hz h.symm⟩
        · rw [length_append, length_singleton]
          omega

theorem strlcpy_buf (b : PathBuf) : strlcpy vfsPathMax b.1 = b.1 := by
  have hlen := b.2.2
  rw [strlcpy_of_not_mem b.2.1, take_of_length_le (by omega)]

theorem PathArg.fetch_fits {path : PathArg} (h : path.fetch = .ok s) : FitsBuf s := by
  cases path with
  | null => cases h
  | kernel b =>
    obtain rfl := Except.ok.inj h
    rw [strlcpy_buf]
    exact b.2
  | user byteAt => exact copyUserCstrFrom_fits (by simp) (by simp) h

theorem pathDirname_fits (hb : 0 ∉ b) : FitsBuf (pathDirname b vfsPathMax) := by
  simp only [pathDirname]
  split_ifs with h1 h2
  · exact ⟨by decide, by decide⟩
  · exact ⟨zero_not_mem_take hb _, lt_of_le_of_lt (length_take_le _ _) (by decide)⟩
  · refine ⟨zero_not_mem_take hb _, lt_of_le_of_lt (length_take_le _ _) (by omega)⟩

theorem pathBuild_eq {base path : Bytes} (hb : FitsBuf base) (hp : FitsBuf path)
    (hrel : path.head? ≠ some slash) : pathBuild base path (vfsPathMax * 2) = joinBase base path := by
  obtain ⟨hb0, hblen⟩ := hb
  obtain ⟨hp0, hplen⟩ := hp
  have hfirst : (if base ≠ [] then appendStr (vfsPathMax * 2) [] base
      else appendCh (vfsPathMax * 2) [] slash) = if base = [] then [slash] else base := by
    by_cases h0 : base = []
    · rw [if_neg (not_not.2 h0), if_pos h0]
      rfl
    · rw [if_pos h0, if_neg h0, appendStr_of_fits hb0 (by rw [length_nil]; omega), nil_append]
  have hsecond : (if (if base = [] then [slash] else base).getLast? ≠ some slash then
      appendCh (vfsPathMax * 2) (if base = [] then [slash] else base) slash
      else if base = [] then [slash] else base) =
      if base = [] then [slash] else if base.getLast? = some slash then base else base ++ [slash] := by
    by_cases h0 : base = []
    · simp only [h0, if_true]
      rfl
    · simp only [h0, if_false]
      by_cases hl : base.getLast? = some slash
      · rw [if_neg (not_not.2 hl), if_pos hl]
      · rw [if_pos hl, if_neg hl, appendCh, if_pos (by omega)]
  unfold pathBuild joinBase
  rw [if_neg hrel]
  simp only [hfirst, hsecond]
  by_cases hnil : path = []
  · rw [if_neg (not_not.2 hnil), hnil, append_nil]
  · rw [if_pos hnil]
    refine appendStr_of_fits hp0 ?_
    split_ifs
    · rw [length_singleton]
      omega
    · omega
    · rw [length_append, length_singleton]
      omega

namespace PathEnv

theorem base_fits {env : PathEnv} {dirfd : ℤ} (h : env.base dirfd = .ok b) : FitsBuf b := by
  unfold base at h
  split_ifs at h
  · obtain rfl := Except.ok.inj h
    rw [strlcpy_buf]
    exact env.cwd.2
  · split at h
    case h_4 p _ =>
      obtain rfl := Except.ok.inj h
      rw [strlcpy_buf]
      exact p.2
    case h_6 p _ =>
      obtain rfl := Except.ok.inj h
      exact pathDirname_fits p.2.1
    all_goals cases h

/-- The absolute path that the argument names: the argument itself, or behind its base. -/
def named (env : PathEnv) (dirfd : ℤ) (path : PathArg) : Option Bytes := do
  let upath ← path.fetch.toOption
  if upath.head? = some slash then some upath
  else (env.base dirfd).toOption.map (joinBase · upath)

/-- The call fails, or gives the path that the argument names by lexical resolution. -/
def ResolvesFully (env : PathEnv) (dirfd : ℤ) (path : PathArg) (cap : ℕ) : Prop :=
  ∀ out, env.resolveUserPath dirfd path cap = .ok out →
    ∃ full, env.named dirfd path = some full ∧ out = threadSelfPath env.pid (lexicalPath full)

/-- The stack of segments recovers, the normalized path fits the limit of paths, and the
rewritten path the buffer. -/
def Fits (env : PathEnv) (dirfd : ℤ) (path : PathArg) (cap : ℕ) : Prop :=
  ∀ full, env.named dirfd path = some full → 0 < cap →
    PathRecovers full ∧ (lexicalPath full).length < vfsPathMax ∧
      (threadSelfPath env.pid (lexicalPath full)).length < cap

/-- **What `c3_resolve_user_path` does**: it fails, or it normalizes the named path in a buffer of
its own and rewrites what is there. -/
theorem resolveUserPath_cases (env : PathEnv) (dirfd : ℤ) (path : PathArg) (cap : ℕ) :
    ((∃ e, env.resolveUserPath dirfd path cap = .error e) ∧
        (cap = 0 ∨ env.named dirfd path = none)) ∨
    ∃ full k, 0 < cap ∧ env.named dirfd path = some full ∧ vfsPathMax ≤ k + 1 ∧
      (k + 1 = vfsPathMax ∨ (lexicalPath full).length < vfsPathMax) ∧
      env.resolveUserPath dirfd path cap =
        .ok ((threadSelfPath env.pid ((joinPath (boundedSegments full)).take k)).take (cap - 1)) := by
  have hrewrite : ∀ s k, 0 ∉ s → 2 ≤ k →
      rewriteThreadSelfPath env.pid (pathNormalizeAbs s k) cap =
        (threadSelfPath env.pid ((joinPath (boundedSegments s)).take (k - 1))).take (cap - 1) := by
    intro s k h0 hk
    have hz := zero_not_mem_joinPath h0 ((boundedSegments_sublist s).trans (lexicalSegments_sublist s))
    rw [pathNormalizeAbs_eq hk, rewriteThreadSelfPath_eq _ (zero_not_mem_take hz _)]
  unfold resolveUserPath named
  by_cases hcap : cap = 0
  · exact .inl ⟨⟨.efault, if_pos hcap⟩, .inl hcap⟩
  rw [if_neg hcap]
  cases hf : path.fetch with
  | error e => exact .inl ⟨⟨e, rfl⟩, .inr rfl⟩
  | ok upath =>
    have hfits := PathArg.fetch_fits hf
    simp only [bind, Except.bind, Except.toOption, Option.bind]
    by_cases habs : upath.head? = some slash
    · rw [if_pos habs, if_pos habs]
      refine .inr ⟨upath, vfsPathMax * 2 - 1, by omega, rfl, by decide, .inr ?_, ?_⟩
      · exact lt_of_le_of_lt (length_lexicalPath_le habs) hfits.2
      · rw [hrewrite _ _ hfits.1 (by decide)]
    · rw [if_neg habs, if_neg habs]
      cases hb : env.base dirfd with
      | error e => exact .inl ⟨⟨e, rfl⟩, .inr rfl⟩
      | ok base =>
        have hbase := base_fits hb
        refine .inr ⟨joinBase base upath, vfsPathMax - 1, by omega, rfl, by decide, .inl rfl, ?_⟩
        have hzero : 0 ∉ joinBase base upath := by
          have hslash : (0 : UInt8) ≠ slash := by decide
          unfold joinBase
          split_ifs <;> simp [hbase.1, hfits.1, hslash]
        simp only [pathBuild_eq hbase hfits habs]
        rw [hrewrite _ _ hzero (by decide)]

/-- **Resolution is lexical** exactly when everything fits. -/
theorem resolvesFully_iff (env : PathEnv) (dirfd : ℤ) (path : PathArg) (cap : ℕ) :
    env.ResolvesFully dirfd path cap ↔ env.Fits dirfd path cap := by
  unfold ResolvesFully Fits
  rcases env.resolveUserPath_cases dirfd path cap with ⟨⟨e, he⟩, hnone⟩ | ⟨full, k, hcap, hn, hk, hshort, he⟩
  · rw [he]
    constructor
    · intro _ full hfull hcap
      rcases hnone with h0 | hnone
      · omega
      · rw [hnone] at hfull
        cases hfull
    · intro _ out hout
      cases hout
  · have hk' : 22 ≤ k := by
      have : vfsPathMax = 256 := rfl
      omega
    have hiff := threadSelfPath_take_eq_iff env.pid full (n := cap - 1) hk'
    rw [he, hn]
    constructor
    · intro h full' hfull' _
      obtain rfl := some.inj hfull'
      obtain ⟨full', hfull', hout⟩ := h _ rfl
      obtain rfl := some.inj hfull'
      obtain ⟨h1, h2, h3⟩ := hiff.1 hout
      exact ⟨h1, by omega, by omega⟩
    · intro h out hout
      obtain rfl := Except.ok.inj hout
      obtain ⟨h1, h2, h3⟩ := h full rfl hcap
      exact ⟨full, rfl, hiff.2 ⟨h1, by omega, by omega⟩⟩

end PathEnv

/-- Sixty-five directories down and one up. -/
def deepPath : Bytes := (List.replicate 65 (ascii "/a")).flatten ++ ascii "/.."

/-- A task deep in the tree. -/
def deepEnv : PathEnv where
  cwd := ⟨slash :: List.replicate 126 0x61, by decide +kernel⟩
  pid := 1
  fd _ := none

/-- A long name in that directory. -/
def longName : PathArg := .kernel ⟨List.replicate 200 0x62, by decide +kernel⟩

/-- **Paths are resolved by their text alone.**  Normalization of an absolute path within the
limit is idempotent, and it is lexical resolution exactly when the path recovers from every
overflow of the stack of segments; the path of a system call is the one that its argument names
exactly when everything fits. -/
theorem path_names_exact (env : PathEnv) (dirfd : ℤ) (path : PathArg) (room : ℕ) {s : Bytes} {cap : ℕ}
    (hs : FitsBuf s) (habs : s.head? = some slash) (hcap : vfsPathMax ≤ cap) :
    (pathNormalizeAbs s cap = lexicalPath s ↔ PathRecovers s) ∧
      pathNormalizeAbs (pathNormalizeAbs s cap) cap = pathNormalizeAbs s cap ∧
      (env.ResolvesFully dirfd path room ↔ env.Fits dirfd path room) := by
  refine ⟨?_, ?_, env.resolvesFully_iff dirfd path room⟩
  · have hlen := length_lexicalPath_le habs
    have hlimit := hs.2
    rw [pathNormalizeAbs_eq_iff (le_trans (by decide) hcap)]
    exact and_iff_left (by omega)
  · exact pathNormalizeAbs_idem habs (lt_of_lt_of_le hs.2 hcap)

theorem path_names_exact_usr :
    FitsBuf (ascii "/usr/lib/../bin/.") ∧
      (pathNormalizeAbs (ascii "/usr/lib/../bin/.") 256 = ascii "/usr/bin" ↔
        PathRecovers (ascii "/usr/lib/../bin/.")) := by
  have hbuf : FitsBuf (ascii "/usr/lib/../bin/.") := by
    rw [FitsBuf]
    decide
  have hlex : lexicalPath (ascii "/usr/lib/../bin/.") = ascii "/usr/bin" := by decide
  exact ⟨hbuf, hlex ▸ (path_names_exact deepEnv atFdcwd longName 256 hbuf (by decide) (by decide)).1⟩

/-- The 65th segment is lost, and `..` then removes the 64th too; and a name that does not fit
behind its directory is cut off. -/
theorem path_names_not_exact :
    FitsBuf deepPath ∧ pathNormalizeAbs deepPath vfsPathMax ≠ lexicalPath deepPath ∧
      ¬ deepEnv.ResolvesFully atFdcwd longName vfsPathMax := by
  refine ⟨by rw [FitsBuf]; decide +kernel, by decide +kernel, fun h => ?_⟩
  rw [PathEnv.resolvesFully_iff] at h
  have hnamed : deepEnv.named atFdcwd longName =
      some (slash :: List.replicate 126 0x61 ++ slash :: List.replicate 200 0x62) := by decide +kernel
  have hshort := (h _ hnamed (by decide)).2.1
  revert hshort
  decide +kernel

end Ridux
