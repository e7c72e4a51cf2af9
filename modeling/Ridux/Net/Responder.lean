import Ridux.Net.Dns

/-!
# What the built-in name server answers

* `dotted`: the text of a name; `dnsReadQname_spec`: when a name is read, and as what;
* `Answers`: a message that answers a query;
* `dns_build_response_sound`: which answers are sound.
-/

namespace Ridux

open Lib

/-! ### Names as text -/

/-- The labels with dots between them, in small letters. -/
def dotted (ls : List Bytes) : Bytes := textOf dot (ls.map fun l => l.map dnsTolower)

/-- The text of a name; that of the root is a dot. -/
def hostText (ls : List Bytes) : Bytes := if ls = [] then [dot] else dotted ls

@[simp] theorem dotted_nil : dotted [] = [] := rfl

theorem dotted_singleton (l : Bytes) : dotted [l] = l.map dnsTolower := by simp [dotted, textOf]

variable {ls : List Bytes}

theorem dotted_concat (h : ls ≠ []) (l : Bytes) :
    dotted (ls ++ [l]) = dotted ls ++ dot :: l.map dnsTolower := by
  rw [dotted, List.map_append, List.map_singleton, textOf_concat (by simpa using h)]
  rfl

theorem dotted_ne_nil (h : ls ≠ []) (hne : ∀ l ∈ ls, l ≠ []) : dotted ls ≠ [] := by
  obtain ⟨ls, l, rfl⟩ := (List.eq_nil_or_concat' ls).resolve_left h
  by_cases hnil : ls = []
  · subst hnil
    rw [List.nil_append, dotted_singleton]
    simpa using hne l (by simp)
  · rw [dotted_concat hnil]
    simp

theorem length_dotted_le (ds : List Bytes) : ∀ ls : List Bytes,
    (dotted ds).length ≤ (dotted (ds ++ ls)).length := by
  intro ls
  induction ls using List.reverseRecOn with
  | nil => rw [List.append_nil]
  | append_singleton ls l ih =>
    rw [← List.append_assoc]
    by_cases hnil : ds ++ ls = []
    · rw [hnil] at ih
      exact ih.trans (Nat.zero_le _)
    · rw [dotted_concat hnil, List.length_append]
      omega

/-! ### Reading a name -/

variable {pkt req l : Bytes} {cap p q n : ℕ} {cache : DnsCache}

theorem hostPut_of_lt {host : Bytes} (h : host.length < cap) (c : UInt8) :
    hostPut cap host c = some (host ++ [c]) := if_pos h

theorem readLabel_spec (l : ℕ) : ∀ (p : ℕ) (host : Bytes), p + l ≤ pkt.length → host.length + 1 ≤ cap →
    readLabel pkt cap l p host = some (if host.length + l + 1 ≤ cap then
      .ok (p + l, host ++ ((pkt.drop p).take l).map dnsTolower) else .error .enospc) := by
  induction l with
  | zero =>
    intro p host hp hhost
    rw [if_pos (by omega), List.take_zero, List.map_nil, List.append_nil]
    rfl
  | succ l ih =>
    intro p host hp hhost
    rw [readLabel]
    by_cases hfull : cap ≤ host.length + 1
    · rw [if_pos hfull, if_neg (by omega)]
    have hlen : (host ++ [dnsTolower (pkt.getD p 0)]).length = host.length + 1 := by
      rw [List.length_append, List.length_singleton]
    have hdrop : pkt.drop p = pkt.getD p 0 :: pkt.drop (p + 1) := by
      rw [List.getD_eq_getElem _ _ (by omega), List.drop_eq_getElem_cons (by omega)]
    rw [if_neg hfull, within_of_le (by omega), Option.bind_some, hostPut_of_lt (by omega),
      Option.bind_some, ih (p + 1) _ (by omega) (by omega), hlen, hdrop, List.take_succ_cons,
      List.map_cons, List.append_assoc, List.singleton_append]
    have hadd : host.length + 1 + l + 1 = host.length + (l + 1) + 1 := by omega
    have hp' : p + 1 + l = p + (l + 1) := by omega
    rw [hadd, hp']

theorem readNext_spec {ds : List Bytes} (hp : p + n ≤ pkt.length)
    (hhost : (dotted ds).length + 1 ≤ cap) :
    readNext pkt cap ds.length n p (dotted ds) = some (if (dotted (ds ++ [(pkt.drop p).take n])).length + 1 ≤ cap then
      .ok (p + n, dotted (ds ++ [(pkt.drop p).take n])) else .error .enospc) := by
  have hlen : ((pkt.drop p).take n).length = n := by
    rw [List.length_take, List.length_drop]
    omega
  unfold readNext
  by_cases hnil : ds = []
  · subst hnil
    have hread : readLabel pkt cap n p [] = _ := readLabel_spec n p [] hp (by simpa using hhost)
    rw [List.nil_append, dotted_singleton, List.length_map, hlen]
    rw [List.length_nil, Nat.zero_add, List.nil_append] at hread
    exact hread
  · have hds : ds.length ≠ 0 := by simpa using hnil
    rw [readDot, if_neg hds, dotted_concat hnil, List.length_append, List.length_cons, List.length_map, hlen]
    by_cases hfull : cap ≤ (dotted ds).length + 1
    · rw [if_pos hfull, if_neg (by omega)]
      rfl
    · rw [if_neg hfull, hostPut_of_lt (by omega), Option.bind_some, Option.bind_some]
      dsimp only
      rw [readLabel_spec n p _ hp (by rw [List.length_append, List.length_singleton]; omega),
        List.length_append, List.length_singleton, List.append_assoc, List.singleton_append]
      congr 2
      simp only [eq_iff_iff]
      omega

theorem labelsAt_zero (h : LabelsAt pkt p ls q) (h0 : pkt.getD p 0 = 0) : ls = [] ∧ q = p + 1 := by
  have hp : p < pkt.length := h.lt.trans_le h.le_length
  exact h.unique (.root hp h0)

theorem labelsAt_iff (hp : p + 1 + n ≤ pkt.length) (hn : (pkt.getD p 0).toNat = n) (hpos : 0 < n)
    (hlt : n < 64) : LabelsAt pkt p ls q ↔
      ∃ ms, ls = (pkt.drop (p + 1)).take n :: ms ∧ LabelsAt pkt (p + 1 + n) ms q := by
  constructor
  · intro h
    cases h with
    | root hp' h0 =>
      rw [h0] at hn
      exact absurd hn (by have : (0 : UInt8).toNat = 0 := rfl; omega)
    | label hp' hn' hpos' hlt' hl hrest =>
      obtain rfl := hn'.symm.trans hn
      exact ⟨_, by rw [hl], hrest⟩
  · rintro ⟨ms, rfl, hrest⟩
    exact .label hp hn hpos hlt rfl hrest

/-- The loop ends, inside of the query and of the text's buffer.  It gives the text of the name at `p`,
when the buffer has room for it behind the labels `ds`. -/
theorem readLabels_spec (pkt : Bytes) (hcap : 2 ≤ cap) (fuel : ℕ) : ∀ (p : ℕ) (ds : List Bytes),
    p ≤ pkt.length → pkt.length < fuel + p → (dotted ds).length + 1 ≤ cap → (∀ l ∈ ds, l ≠ []) →
    ∃ r, readLabels pkt cap fuel p ds.length (dotted ds) = some r ∧
      ∀ h q, r = .ok (h, q) ↔ ∃ ls, LabelsAt pkt p ls q ∧ h = hostText (ds ++ ls) ∧
        (dotted (ds ++ ls)).length + 1 ≤ cap := by
  induction fuel with
  | zero =>
    intro p ds hp hfuel
    omega
  | succ fuel ih =>
    intro p ds hp hfuel hhost hne
    rw [readLabels]
    by_cases hend : pkt.length ≤ p
    · rw [if_pos hend]
      refine ⟨_, rfl, fun h q => ⟨fun hc => absurd hc (by simp), ?_⟩⟩
      rintro ⟨ls, hls, -⟩
      have := hls.lt.trans_le hls.le_length
      omega
    rw [if_neg hend, peek_of_lt (by omega), Option.bind_some]
    by_cases hzero : (pkt.getD p 0).toNat = 0
    · have h0 : pkt.getD p 0 = 0 := UInt8.toNat_inj.1 hzero
      have hds : dotted ds = [] ↔ ds = [] :=
        ⟨fun h => by_contra fun hc => dotted_ne_nil hc hne h, fun h => by rw [h]; rfl⟩
      rw [if_pos hzero]
      refine ⟨.ok (hostText ds, p + 1), ?_, fun h q => ?_⟩
      · by_cases hnil : ds = []
        · rw [if_pos (hds.2 hnil), hostPut_of_lt (by rw [hds.2 hnil]; exact hcap), hostText, if_pos hnil]
          rfl
        · rw [if_neg (fun hc => hnil (hds.1 hc)), hostPut_of_lt (by omega), hostText, if_neg hnil]
          rfl
      · constructor
        · intro hc
          cases hc
          exact ⟨[], .root (by omega) h0, by rw [List.append_nil], by rwa [List.append_nil]⟩
        · rintro ⟨ls, hls, rfl, -⟩
          obtain ⟨rfl, rfl⟩ := labelsAt_zero hls h0
          rw [List.append_nil]
    rw [if_neg hzero]
    by_cases hbig : 64 ≤ (pkt.getD p 0).toNat
    · rw [if_pos hbig]
      refine ⟨_, rfl, fun h q => ⟨fun hc => absurd hc (by simp), ?_⟩⟩
      rintro ⟨ls, hls, -⟩
      cases hls with
      | root hp h0 => exact absurd (by rw [h0]; rfl) hzero
      | label hp hn hpos hlt => omega
    rw [if_neg hbig]
    by_cases hlong : pkt.length < p + 1 + (pkt.getD p 0).toNat
    · rw [if_pos hlong]
      refine ⟨_, rfl, fun h q => ⟨fun hc => absurd hc (by simp), ?_⟩⟩
      rintro ⟨ls, hls, -⟩
      cases hls with
      | root hp h0 => exact absurd (by rw [h0]; rfl) hzero
      | label hp hn hpos hlt => omega
    rw [if_neg hlong, readNext_spec (by omega) hhost, Option.bind_some]
    set n := (pkt.getD p 0).toNat with hn
    have hiff : ∀ ls q, LabelsAt pkt p ls q ↔
        ∃ ms, ls = (pkt.drop (p + 1)).take n :: ms ∧ LabelsAt pkt (p + 1 + n) ms q :=
      fun _ _ => labelsAt_iff (by omega) hn.symm (by omega) (by omega)
    set l := (pkt.drop (p + 1)).take n with hl
    have hlen : l.length = n := by
      rw [hl, List.length_take, List.length_drop]
      omega
    by_cases hfits : (dotted (ds ++ [l])).length + 1 ≤ cap
    · rw [if_pos hfits]
      dsimp only
      have hds : ∀ k ∈ ds ++ [l], k ≠ [] := by
        intro k hk
        rcases List.mem_append.1 hk with hk | hk
        · exact hne k hk
        · rw [List.mem_singleton.1 hk]
          intro hnil
          rw [hnil, List.length_nil] at hlen
          omega
      obtain ⟨r, hr, hspec⟩ := ih (p + 1 + n) (ds ++ [l]) (by omega) (by omega) hfits hds
      rw [List.length_append, List.length_singleton] at hr
      refine ⟨r, hr, fun h q => (hspec h q).trans ?_⟩
      constructor
      · rintro ⟨ms, hms, hh, hcapms⟩
        rw [List.append_assoc, List.singleton_append] at hh hcapms
        exact ⟨l :: ms, (hiff _ _).2 ⟨ms, rfl, hms⟩, hh, hcapms⟩
      · rintro ⟨ls, hls, hh, hcapls⟩
        obtain ⟨ms, rfl, hms⟩ := (hiff _ _).1 hls
        refine ⟨ms, hms, ?_, ?_⟩
        · rw [List.append_assoc, List.singleton_append, hh]
        · rwa [List.append_assoc, List.singleton_append]
    · rw [if_neg hfits]
      refine ⟨_, rfl, fun h q => ⟨fun hc => absurd hc (by simp), ?_⟩⟩
      rintro ⟨ls, hls, -, hcapls⟩
      obtain ⟨ms, rfl, hms⟩ := (hiff _ _).1 hls
      have hmono := length_dotted_le (ds ++ [l]) ms
      rw [List.append_assoc, List.singleton_append] at hmono
      omega

/-! ### Queries -/

/-- The query asks for the name with the labels `ls`, which ends before `q`. -/
structure AsksName (req : Bytes) (ls : List Bytes) (q : ℕ) : Prop where
  count : be16 req 4 ≠ 0
  name : LabelsAt req 12 ls q
  fits : (dotted ls).length ≤ 255
  whole : q + 4 ≤ req.length

/-- The address for the answer: that of the text, up to a zero byte. -/
def dnsAnswer (req : Bytes) (cache : DnsCache) (ls : List Bytes) (q : ℕ) : Option Ip :=
  (dnsResolve cache (cstr (hostText ls))).1.filter fun _ =>
    be16 req (q + 2) = 1 ∧ (be16 req q = 1 ∨ be16 req q = 255)

/-- The length of the answer. -/
def replyLen (q : ℕ) (answer : Option Ip) : ℕ := q + 4 + if answer.isSome then 16 else 0

/-- The answer. -/
def dnsReply (req : Bytes) (cache : DnsCache) (ls : List Bytes) (q : ℕ) : Bytes :=
  dnsHeader (be16 req 0) (be16 req 2) (dnsResolve cache (cstr (hostText ls))).1.isSome
      (dnsAnswer req cache ls q).isSome ++
    ((req.drop 12).take (q + 4 - 12) ++ (dnsAnswer req cache ls q).elim [] dnsRecord)

theorem dnsReadQname_spec (req : Bytes) (h : 12 ≤ req.length) : ∃ r, dnsReadQname req 12 256 = some r ∧
    ∀ host q, r = .ok (host, q) ↔
      ∃ ls, LabelsAt req 12 ls q ∧ host = hostText ls ∧ (dotted ls).length ≤ 255 := by
  obtain ⟨r, hr, hspec⟩ := readLabels_spec req (by decide : 2 ≤ 256) (req.length + 1) 12 []
    h (by omega) (by decide) (fun l hl => absurd hl List.not_mem_nil)
  refine ⟨r, by rw [dnsReadQname, if_neg (by decide)]; exact hr, fun host q => (hspec host q).trans ?_⟩
  refine exists_congr fun ls => ?_
  rw [List.nil_append]
  refine and_congr_right fun _ => and_congr_right fun _ => ?_
  omega

@[simp] theorem length_dnsHeader (id flags : BitVec 16) (found answer : Bool) :
    (dnsHeader id flags found answer).length = 12 := rfl

@[simp] theorem length_dnsRecord (ip : Ip) : (dnsRecord ip).length = 16 := rfl

/-- The question and the record are written when they fit. -/
theorem dnsWrite_spec (req rest : Bytes) {hdr : Bytes} (hhdr : hdr.length = 12) (hq : 12 ≤ q)
    (hreq : q ≤ req.length) (answer : Option Ip) :
    ∃ w out, dnsWrite req (hdr ++ rest) q answer = some (w, out) ∧
      (q + (if answer.isSome then 16 else 0) ≤ 12 + rest.length →
        w = q + (if answer.isSome then 16 else 0) ∧
          out.take w = hdr ++ ((req.drop 12).take (q - 12) ++ answer.elim [] dnsRecord)) ∧
      (12 + rest.length < q + (if answer.isSome then 16 else 0) → w = 0) := by
  have hquestion : ((req.drop 12).take (q - 12)).length = q - 12 := by
    rw [List.length_take, List.length_drop]
    omega
  set question := (req.drop 12).take (q - 12) with hqu
  unfold dnsWrite
  rw [List.length_append, hhdr]
  by_cases hfits : 12 + rest.length < 12 + (q - 12)
  · rw [if_pos hfits]
    refine ⟨0, _, rfl, fun hc => ?_, fun _ => rfl⟩
    omega
  have hpoke : poke (hdr ++ rest) 12 question = some (hdr ++ question ++ rest.drop (q - 12)) := by
    have h : question.length ≤ rest.length := by omega
    have hp : poke (hdr ++ rest) hdr.length question =
        some (hdr ++ question ++ rest.drop question.length) := poke_append h
    rwa [hhdr, hquestion] at hp
  rw [if_neg hfits, block_of_le (by omega), Option.bind_some, ← hqu, hpoke, Option.bind_some]
  have hlen : (hdr ++ question).length = q := by
    rw [List.length_append, hhdr, hquestion]
    omega
  cases answer with
  | none =>
    refine ⟨q, _, rfl, fun _ => ⟨rfl, ?_⟩, fun hc => ?_⟩
    · rw [Option.elim_none, List.append_nil, List.take_left' hlen]
    · simp only [Option.isSome_none, Bool.false_eq_true, if_false] at hc
      omega
  | some ip =>
    rw [Option.elim_some, Option.isSome_some, if_pos rfl, List.length_append, hlen, List.length_drop]
    by_cases hroom : q + (rest.length - (q - 12)) < q + 16
    · rw [if_pos hroom]
      exact ⟨0, _, rfl, fun hc => by omega, fun _ => rfl⟩
    · have hrec : poke (hdr ++ question ++ rest.drop (q - 12)) q (dnsRecord ip) =
          some (hdr ++ question ++ dnsRecord ip ++ (rest.drop (q - 12)).drop 16) := by
        have h : (dnsRecord ip).length ≤ (rest.drop (q - 12)).length := by
          rw [length_dnsRecord, List.length_drop]
          omega
        have hp : poke (hdr ++ question ++ rest.drop (q - 12)) (hdr ++ question).length (dnsRecord ip) =
          some (hdr ++ question ++ dnsRecord ip ++ (rest.drop (q - 12)).drop (dnsRecord ip).length) :=
          poke_append h
        rwa [hlen, length_dnsRecord] at hp
      rw [if_neg hroom, hrec, Option.bind_some]
      refine ⟨q + 16, _, rfl, fun _ => ⟨rfl, ?_⟩, fun hc => by omega⟩
      rw [Option.elim_some, ← List.append_assoc]
      exact List.take_left' (by rw [List.length_append, hlen, length_dnsRecord])

/-- **What is answered to a query**: the answer, when it has room, and else nothing. -/
theorem AsksName.build_eq {out : Bytes} (h : AsksName req ls q) (cache : DnsCache)
    (hout : 12 ≤ out.length) : ∃ w out', dnsBuildResponse req out cache =
      some (w, out', (dnsResolve cache (cstr (hostText ls))).2) ∧
      (replyLen q (dnsAnswer req cache ls q) ≤ out.length →
        w = replyLen q (dnsAnswer req cache ls q) ∧ out'.take w = dnsReply req cache ls q) ∧
      (out.length < replyLen q (dnsAnswer req cache ls q) → w = 0) := by
  have hwhole := h.whole
  have hq := h.name.lt
  obtain ⟨r, hr, hspec⟩ := dnsReadQname_spec req (by omega)
  obtain rfl := (hspec (hostText ls) q).2 ⟨ls, h.name, rfl, h.fits⟩
  set hdr := dnsHeader (be16 req 0) (be16 req 2) (dnsResolve cache (cstr (hostText ls))).1.isSome
    (dnsAnswer req cache ls q).isSome with hhdr
  have hpoke : poke out 0 hdr = some (hdr ++ out.drop 12) := by
    rw [poke_of_le (by rw [hhdr, length_dnsHeader]; omega), List.take_zero, List.nil_append, hhdr,
      length_dnsHeader]
  obtain ⟨w, out', hw, hfits, hshort⟩ := dnsWrite_spec req (out.drop 12)
    (hhdr ▸ length_dnsHeader .. : hdr.length = 12) (by omega : 12 ≤ q + 4) hwhole
    (dnsAnswer req cache ls q)
  refine ⟨w, out', ?_, fun hle => ?_, fun hlt => ?_⟩
  · unfold dnsBuildResponse
    rw [if_neg (by omega), peek16_of_le (by omega), Option.bind_some, if_neg h.count, hr,
      Option.bind_some]
    dsimp only
    rw [if_neg (by omega), peek16_of_le (by omega), Option.bind_some, peek16_of_le (by omega),
      Option.bind_some, peek16_of_le (by omega), Option.bind_some, peek16_of_le (by omega),
      Option.bind_some]
    show (poke out 0 hdr).bind (fun o => (dnsWrite req o (q + 4) (dnsAnswer req cache ls q)).map _) = _
    rw [hpoke, Option.bind_some, hw]
    rfl
  · rw [List.length_drop] at hfits
    exact hfits (by unfold replyLen at hle; omega)
  · rw [List.length_drop] at hshort
    exact hshort (by unfold replyLen at hlt; omega)

theorem build_of_not_asks {out : Bytes} (cache : DnsCache)
    (h : out.length < 12 ∨ ∀ ls q, ¬ AsksName req ls q) :
    dnsBuildResponse req out cache = some (0, out, cache) := by
  unfold dnsBuildResponse
  by_cases hlen : req.length < 12 ∨ out.length < 12
  · rw [if_pos hlen]
  rw [if_neg hlen, peek16_of_le (by omega), Option.bind_some]
  by_cases hcount : be16 req 4 = 0
  · rw [if_pos hcount]
  obtain ⟨r, hr, hspec⟩ := dnsReadQname_spec req (by omega)
  rw [if_neg hcount, hr, Option.bind_some]
  cases r with
  | error e => rfl
  | ok name =>
    obtain ⟨ls, hls, -, hfits⟩ := (hspec name.1 name.2).1 rfl
    dsimp only
    rw [if_pos]
    by_contra hwhole
    exact (h.resolve_left (by omega)) ls name.2 ⟨hcount, hls, hfits, by omega⟩

/-! ### Sound answers -/

/-- A message that answers a query for the name `ls`, with its record if there is one: an address of the
internet class, under the name at offset 12. -/
structure Answers (req m : Bytes) (ls : List Bytes) (q : ℕ) (record : Option Ip) : Prop where
  id : be16 m 0 = be16 req 0
  response : be16 m 2 &&& 0x8000#16 ≠ 0
  counts : be16 m 4 = 1 ∧ be16 m 6 = (if record.isSome then 1 else 0) ∧ be16 m 8 = 0 ∧ be16 m 10 = 0
  asked : LabelsAt req 12 ls q
  name : LabelsAt m 12 ls q
  short : q - 12 ≤ 255
  question : (m.drop 12).take (q + 4 - 12) = (req.drop 12).take (q + 4 - 12)
  rest : m.drop (q + 4) = record.elim [] fun ip =>
    [0xC0, 0x0C, 0, 1, 0, 1, 0, 0, 1, 44, 0, 4] ++ be32Bytes ip

/-- The labels of a text. -/
def labelsOf (t : Bytes) : List Bytes := if t = [dot] then [] else linesOf dot t

/-- The address of exactly the name `ls`: that of a text which has its labels. -/
def ResolvesTo (cache : DnsCache) (ls : List Bytes) (ip : Ip) : Prop :=
  ∃ t, 0 ∉ t ∧ labelsOf t = ls.map (fun l => l.map dnsTolower) ∧ (dnsResolve cache t).1 = some ip

/-- The responder ends, reads in the query and writes in the buffer; an answer is well formed, repeats the
question, and has the address of exactly its name. -/
structure DnsSound (req out : Bytes) (cache : DnsCache) : Prop where
  ends : dnsBuildResponse req out cache ≠ none
  sound : ∀ w out' cache', dnsBuildResponse req out cache = some (w, out', cache') → w ≠ 0 →
    w ≤ out.length ∧ ∃ ls q record, Answers req (out'.take w) ls q record ∧
      ∀ ip, record = some ip → ResolvesTo cache ls ip

/-- No byte of the labels is a zero or a dot. -/
def Plain (ls : List Bytes) : Prop := ∀ l ∈ ls, 0 ∉ l ∧ dot ∉ l

/-- A query that has room for its answer asks for a name of at most 255 bytes; and where its answer has
an address, the labels of the name are plain. -/
def DnsFine (req out : Bytes) (cache : DnsCache) : Prop :=
  ∀ ls q, AsksName req ls q → 12 ≤ out.length → replyLen q (dnsAnswer req cache ls q) ≤ out.length →
    q - 12 ≤ 255 ∧ ((dnsAnswer req cache ls q).isSome → Plain ls)

/-! ### Names and their texts -/

theorem dnsTolower_eq_iff (c : UInt8) :
    (dnsTolower c = 0 ↔ c = 0) ∧ (dnsTolower c = dot ↔ c = dot) := by
  have h0 : (0 : UInt8).toNat = 0 := rfl
  have hdot : dot.toNat = 46 := rfl
  have hlt := c.toNat_lt
  have hlower : (dnsTolower c).toNat = if 0x41 ≤ c.toNat ∧ c.toNat ≤ 0x5A then c.toNat + 32 else c.toNat := by
    by_cases hc : 0x41 ≤ c.toNat ∧ c.toNat ≤ 0x5A
    · have h32 : (32 : UInt8).toNat = 32 := rfl
      have hupper : dnsTolower c = c + 32 := if_pos hc
      rw [hupper, if_pos hc, UInt8.toNat_add]
      omega
    · have hother : dnsTolower c = c := if_neg hc
      rw [hother, if_neg hc]
  constructor
  · rw [← UInt8.toNat_inj, ← UInt8.toNat_inj, hlower, h0]
    by_cases hc : 0x41 ≤ c.toNat ∧ c.toNat ≤ 0x5A
    · rw [if_pos hc]
      omega
    · rw [if_neg hc]
  · rw [← UInt8.toNat_inj, ← UInt8.toNat_inj, hlower, hdot]
    split_ifs <;> omega

theorem mem_lower {c : UInt8} (hc : ∀ x, dnsTolower x = c ↔ x = c) :
    c ∈ l.map dnsTolower ↔ c ∈ l := by
  rw [List.mem_map]
  constructor
  · rintro ⟨x, hx, hxc⟩
    rwa [← (hc x).1 hxc]
  · exact fun h => ⟨c, h, (hc c).2 rfl⟩

theorem mem_lower_zero : 0 ∈ l.map dnsTolower ↔ 0 ∈ l :=
  mem_lower fun x => (dnsTolower_eq_iff x).1

theorem mem_lower_dot : dot ∈ l.map dnsTolower ↔ dot ∈ l :=
  mem_lower fun x => (dnsTolower_eq_iff x).2

theorem labelsAt_ne_nil {b : Bytes} (h : LabelsAt b p ls q) : ∀ l ∈ ls, l ≠ [] := by
  induction h with
  | root hp h0 => exact fun l hl => absurd hl List.not_mem_nil
  | @label p n q l ls hp hn hpos hlt hl hrest ih =>
    intro k hk
    rcases List.mem_cons.1 hk with rfl | hk
    · intro hnil
      have := congrArg List.length (hl.trans hnil)
      rw [List.length_take, List.length_drop, List.length_nil] at this
      omega
    · exact ih k hk

theorem Plain.resolvesTo (hplain : Plain ls) (hne : ∀ l ∈ ls, l ≠ []) {ip : Ip}
    (h : (dnsResolve cache (cstr (hostText ls))).1 = some ip) : ResolvesTo cache ls ip := by
  have hline : ∀ l ∈ ls.map (fun l => l.map dnsTolower), IsLine dot l := by
    intro l hl
    obtain ⟨k, hk, rfl⟩ := List.mem_map.1 hl
    exact ⟨by simpa using hne k hk, fun hd => (hplain k hk).2 (mem_lower_dot.1 hd)⟩
  have hzero : 0 ∉ hostText ls := by
    unfold hostText
    split_ifs with hnil
    · decide
    · intro h0
      rcases mem_textOf h0 with hc | ⟨l, hl, hx⟩
      · exact absurd hc (by decide)
      · obtain ⟨k, hk, rfl⟩ := List.mem_map.1 hl
        exact (hplain k hk).1 (mem_lower_zero.1 hx)
  rw [cstr_of_not_mem hzero] at h
  refine ⟨hostText ls, hzero, ?_, h⟩
  unfold labelsOf hostText
  by_cases hnil : ls = []
  · subst hnil
    rfl
  have hlines : linesOf dot (dotted ls) = ls.map fun l => l.map dnsTolower := linesOf_textOf hline
  rw [if_neg hnil, if_neg, hlines]
  intro hdot
  rw [hdot] at hlines
  have hmem : [] ∈ ls.map fun l => l.map dnsTolower := by
    rw [← hlines]
    decide
  exact (hline [] hmem).1 rfl

theorem ResolvesTo.plain {cache : DnsCache} {ls : List Bytes} {ip : Ip} (h : ResolvesTo cache ls ip) :
    Plain ls := by
  obtain ⟨t, hzero, hlabels, -⟩ := h
  intro k hk
  have hmem : k.map dnsTolower ∈ labelsOf t := by
    rw [hlabels]
    exact List.mem_map_of_mem hk
  unfold labelsOf linesOf at hmem
  split_ifs at hmem with hdot hnil
  · exact absurd hmem List.not_mem_nil
  · exact absurd hmem List.not_mem_nil
  · refine ⟨fun h0 => hzero ?_, fun hd => not_mem_of_mem_splitOn hmem (mem_lower_dot.2 hd)⟩
    have htext : 0 ∈ textOf dot (t.splitOn dot) := mem_textOf_of_mem hmem (mem_lower_zero.2 h0)
    rwa [textOf, List.intercalate_splitOn] at htext

/-! ### The answer -/

theorem length_dnsReply (h : AsksName req ls q) (cache : DnsCache) :
    (dnsReply req cache ls q).length = replyLen q (dnsAnswer req cache ls q) := by
  have hq := h.name.lt
  have hwhole := h.whole
  rw [dnsReply, List.length_append, List.length_append, List.length_take, List.length_drop,
    length_dnsHeader, replyLen]
  cases dnsAnswer req cache ls q with
  | none =>
    simp only [Option.elim_none, List.length_nil, Option.isSome_none, Bool.false_eq_true, if_false]
    omega
  | some ip =>
    simp only [Option.elim_some, length_dnsRecord, Option.isSome_some, if_true]
    omega

theorem AsksName.answers (h : AsksName req ls q) (cache : DnsCache) (hshort : q - 12 ≤ 255) :
    Answers req (dnsReply req cache ls q) ls q (dnsAnswer req cache ls q) := by
  have hq := h.name.lt
  have hwhole := h.whole
  have hlen := length_dnsReply h cache
  set question := (req.drop 12).take (q + 4 - 12) with hqu
  have hquestion : question.length = q + 4 - 12 := by
    rw [hqu, List.length_take, List.length_drop]
    omega
  set hdr := dnsHeader (be16 req 0) (be16 req 2) (dnsResolve cache (cstr (hostText ls))).1.isSome
    (dnsAnswer req cache ls q).isSome with hhdr
  have hreply : dnsReply req cache ls q =
      hdr ++ (question ++ (dnsAnswer req cache ls q).elim [] dnsRecord) := rfl
  refine ⟨be16_eq rfl rfl, ?_, ⟨be16_eq rfl rfl, ?_, be16_eq rfl rfl, be16_eq rfl rfl⟩, h.name, ?_, hshort,
    ?_, ?_⟩
  · have hflags : be16 (dnsReply req cache ls q) 2 = 0x8000#16 ||| (be16 req 2 &&& 0x0100#16) ||| 0x0080#16 |||
        (if (dnsResolve cache (cstr (hostText ls))).1.isSome then 0 else 3) := be16_eq rfl rfl
    rw [hflags]
    intro hc
    have hbit := congrArg (fun v : BitVec 16 => v.getLsbD 15) hc
    simp at hbit
  · exact be16_eq rfl rfl
  · refine h.name.congr (by rw [hlen, replyLen]; omega) fun i hi hiq => ?_
    have hhlen : hdr.length = 12 := length_dnsHeader ..
    have hinside : i - 12 < ((req.drop 12).take (q + 4 - 12)).length := by
      rw [← hqu, hquestion]
      omega
    rw [hreply, List.getD_append_right _ _ _ _ (by omega), hhlen,
      List.getD_append _ _ _ _ (by omega), hqu, List.getD_eq_getElem _ _ hinside,
      List.getD_eq_getElem _ _ (by omega), List.getElem_take, List.getElem_drop]
    congr 1
    omega
  · rw [hreply, List.drop_left' (length_dnsHeader ..)]
    exact List.take_left' hquestion
  · rw [hreply, ← List.append_assoc, List.drop_left' (by
      rw [List.length_append, hquestion, hhdr, length_dnsHeader]; omega)]
    cases dnsAnswer req cache ls q with
    | none => rfl
    | some ip => rfl

theorem DnsSound.fine {out : Bytes} (h : DnsSound req out cache) : DnsFine req out cache := by
  intro ls q hasks hout hroom
  have hlen := length_dnsReply hasks cache
  obtain ⟨w, out', hbuild, hfits, -⟩ := hasks.build_eq cache hout
  obtain ⟨rfl, htake⟩ := hfits hroom
  have hw : replyLen q (dnsAnswer req cache ls q) ≠ 0 := by
    unfold replyLen
    omega
  obtain ⟨-, ms, q', record, hanswers, hresolves⟩ := h.sound _ _ _ hbuild hw
  obtain ⟨rfl, rfl⟩ := hasks.name.unique hanswers.asked
  refine ⟨hanswers.short, fun hsome => ?_⟩
  cases record with
  | some ip => exact (hresolves ip rfl).plain
  | none =>
    -- a reply with a record is longer than one without
    have hrest := congrArg List.length hanswers.rest
    rw [htake, List.length_drop, hlen, replyLen, if_pos hsome] at hrest
    simp only [Option.elim_none, List.length_nil] at hrest
    omega

theorem DnsFine.sound {out : Bytes} (h : DnsFine req out cache) : DnsSound req out cache := by
  by_cases hasks : 12 ≤ out.length ∧ ∃ ls q, AsksName req ls q
  · obtain ⟨hout, ls, q, hasks⟩ := hasks
    obtain ⟨w, out', hbuild, hfits, hshort⟩ := hasks.build_eq cache hout
    refine ⟨by rw [hbuild]; exact Option.some_ne_none _, fun v o c hrun hv => ?_⟩
    obtain ⟨rfl, rfl, -⟩ : w = v ∧ out' = o ∧ _ = c := by simpa [hbuild] using hrun
    have hroom : replyLen q (dnsAnswer req cache ls q) ≤ out.length := by
      by_contra hlt
      exact hv (hshort (by omega))
    obtain ⟨rfl, htake⟩ := hfits hroom
    obtain ⟨hname, hplain⟩ := h ls q hasks hout hroom
    refine ⟨hroom, ls, q, dnsAnswer req cache ls q, htake ▸ hasks.answers cache hname, ?_⟩
    intro ip hip
    refine (hplain (by rw [hip]; rfl)).resolvesTo (labelsAt_ne_nil hasks.name) ?_
    exact (Option.filter_eq_some_iff.1 hip).1
  · have hnone : out.length < 12 ∨ ∀ ls q, ¬ AsksName req ls q := by
      by_contra hc
      push Not at hc
      exact hasks hc
    have hbuild := build_of_not_asks cache hnone
    refine ⟨by rw [hbuild]; exact Option.some_ne_none _, fun w o c hrun hw => ?_⟩
    obtain ⟨rfl, -, -⟩ : 0 = w ∧ out = o ∧ cache = c := by simpa [hbuild] using hrun
    exact absurd rfl hw

/-- **The built-in name server answers soundly exactly for short names**, and for plain ones where it
answers with an address. -/
theorem dns_build_response_sound (req out : Bytes) (cache : DnsCache) :
    DnsSound req out cache ↔ DnsFine req out cache :=
  ⟨DnsSound.fine, DnsFine.sound⟩

/-- A query for a name of one label, in which a zero byte follows a name that is known. -/
def zeroQuery : Bytes :=
  [0x12, 0x34, 1, 0, 0, 1, 0, 0, 0, 0, 0, 0] ++ (10 :: ascii "localhost" ++ [0]) ++ [0, 0, 1, 0, 1]

/-- It is answered with the address of the other name. -/
theorem dns_build_response_truncates :
    ¬ ∀ (req out : Bytes) (cache : DnsCache), DnsSound req out cache := by
  intro h
  have hname : LabelsAt zeroQuery 12 [ascii "localhost" ++ [0]] 24 :=
    .label (by decide) rfl (by decide) (by decide) rfl (.root (by decide) rfl)
  have hasks : AsksName zeroQuery [ascii "localhost" ++ [0]] 24 := ⟨by decide, hname, by decide, by decide⟩
  have hfine := (h zeroQuery (List.replicate 512 0) fun _ => none).fine _ _ hasks
    (by rw [List.length_replicate]; decide) (by rw [List.length_replicate]; decide +kernel)
  exact (hfine.2 (by decide +kernel) _ List.mem_cons_self).1 (by decide)

end Ridux
