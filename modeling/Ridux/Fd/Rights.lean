import Ridux.Fd.Create

/-!
# Passed rights

A right that is queued in a socket refers to its object; taking it makes a descriptor of it.

* `RingsOk.push`, `RingsOk.pop`: one right enters a queue, or leaves it;
* `sendRight_life`, `recvRight_life`: the calls.
-/

namespace Ridux

open Lib Tasks Function List

section

variable {s s' : Sys} {t p : ℕ} {pos : BitVec 32} {e : Fd}

/-! ### The queues -/

theorem RingsOk.not_mem (h : RingsOk s) (hfree : s.rights t = none) (j : ℕ) (q : BitVec 32) :
    (t, q) ∉ s.objs.waits j := by
  intro hm
  obtain ⟨e, he⟩ := h.right j t q hm
  rw [hfree] at he
  cases he

theorem RingsOk.push (h : RingsOk s) (ht : t < c3ScmRightsMax) (hfree : s.rights t = none)
    (hw : s'.objs.waits = update s.objs.waits p (s.objs.waits p ++ [(t, pos)]))
    (hr : s'.rights = update s.rights t (some e)) :
    RingsOk s' ∧ ∀ k r, s'.queued k r ↔ s.queued k r ∨ (k = e.kind ∧ r = e.ref) := by
  have hmem : ∀ j u q, (u, q) ∈ s'.objs.waits j ↔
      (u, q) ∈ s.objs.waits j ∨ (j = p ∧ u = t ∧ q = pos) := by
    intro j u q
    rw [hw]
    by_cases hj : j = p
    · subst hj
      rw [update_self]
      simp
    · rw [update_of_ne hj]
      simp [hj]
  have hself : s'.rights t = some e := by rw [hr, update_self]
  have hother : ∀ u, u ≠ t → s'.rights u = s.rights u := by
    intro u hu
    rw [hr, update_of_ne hu]
  -- a right that waits already is not the new one
  have hold : ∀ j u q, (u, q) ∈ s.objs.waits j → u ≠ t := by
    rintro j u q hm rfl
    exact h.not_mem hfree j q hm
  refine ⟨⟨?_, ?_, ?_, ?_⟩, ?_⟩
  · intro u f hf
    by_cases hu : u = t
    · exact ⟨hu ▸ ht, p, pos, (hmem _ _ _).2 (.inr ⟨rfl, hu, rfl⟩)⟩
    · rw [hother u hu] at hf
      obtain ⟨hlt, j, q, hm⟩ := h.queued u f hf
      exact ⟨hlt, j, q, (hmem _ _ _).2 (.inl hm)⟩
  · intro j u q hm
    rcases (hmem j u q).1 hm with hm | ⟨-, rfl, -⟩
    · rw [hother u (hold j u q hm)]
      exact h.right j u q hm
    · exact ⟨e, hself⟩
  · intro j
    rw [hw]
    by_cases hj : j = p
    · subst hj
      rw [update_self, map_append, nodup_append]
      refine ⟨h.nodup j, by simp, ?_⟩
      intro a ha b hb
      obtain ⟨⟨u, q⟩, hm, rfl⟩ := mem_map.1 ha
      obtain rfl : b = t := by simpa using hb
      exact hold j u q hm
    · rw [update_of_ne hj]
      exact h.nodup j
  · intro i j u q q' hi hj
    rcases (hmem i u q).1 hi with hi | ⟨rfl, rfl, rfl⟩ <;>
      rcases (hmem j u q').1 hj with hj | ⟨rfl, hu, rfl⟩
    · exact h.disjoint i j u q q' hi hj
    · exact absurd hu (hold i u q hi)
    · exact absurd hj (h.not_mem hfree j q')
    · rfl
  · intro k r
    constructor
    · rintro ⟨j, u, q, f, hm, hf, hk, hr'⟩
      rcases (hmem j u q).1 hm with hm | ⟨-, rfl, -⟩
      · rw [hother u (hold j u q hm)] at hf
        exact .inl ⟨j, u, q, f, hm, hf, hk, hr'⟩
      · obtain rfl : e = f := Option.some.inj (hself.symm.trans hf)
        exact .inr ⟨hk.symm, hr'.symm⟩
    · rintro (⟨j, u, q, f, hm, hf, hk, hr'⟩ | ⟨rfl, rfl⟩)
      · refine ⟨j, u, q, f, (hmem _ _ _).2 (.inl hm), ?_, hk, hr'⟩
        rw [hother u (hold j u q hm)]
        exact hf
      · exact ⟨p, t, pos, e, (hmem _ _ _).2 (.inr ⟨rfl, rfl, rfl⟩), hself, rfl, rfl⟩

theorem RingsOk.pop (h : RingsOk s) {rest : List (ℕ × BitVec 32)}
    (hp : s.objs.waits p = (t, pos) :: rest) (he : s.rights t = some e)
    (hw : s'.objs.waits = update s.objs.waits p rest)
    (hr : s'.rights = update s.rights t none) :
    RingsOk s' ∧ ∀ k r, s.queued k r ↔ s'.queued k r ∨ (k = e.kind ∧ r = e.ref) := by
  have hfirst : (t, pos) ∈ s.objs.waits p := by
    rw [hp]
    exact mem_cons_self
  have hnodup := h.nodup p
  rw [hp, map_cons, nodup_cons] at hnodup
  have hmem : ∀ j u q, (u, q) ∈ s'.objs.waits j ↔ (u, q) ∈ s.objs.waits j ∧ u ≠ t := by
    intro j u q
    rw [hw]
    by_cases hj : j = p
    · subst hj
      rw [update_self, hp, mem_cons, Prod.mk.injEq]
      constructor
      · intro hm
        refine ⟨.inr hm, ?_⟩
        rintro rfl
        exact hnodup.1 (mem_map.2 ⟨(u, q), hm, rfl⟩)
      · rintro ⟨⟨rfl, -⟩ | hm, hu⟩
        · exact absurd rfl hu
        · exact hm
    · rw [update_of_ne hj]
      refine (and_iff_left_of_imp ?_).symm
      rintro hm rfl
      exact hj (h.disjoint j p u q pos hm hfirst)
  have hself : s'.rights t = none := by rw [hr, update_self]
  have hother : ∀ u, u ≠ t → s'.rights u = s.rights u := by
    intro u hu
    rw [hr, update_of_ne hu]
  refine ⟨⟨?_, ?_, ?_, ?_⟩, ?_⟩
  · intro u f hf
    have hu : u ≠ t := by
      rintro rfl
      rw [hself] at hf
      cases hf
    rw [hother u hu] at hf
    obtain ⟨hlt, j, q, hm⟩ := h.queued u f hf
    exact ⟨hlt, j, q, (hmem _ _ _).2 ⟨hm, hu⟩⟩
  · intro j u q hm
    obtain ⟨hm, hu⟩ := (hmem j u q).1 hm
    rw [hother u hu]
    exact h.right j u q hm
  · intro j
    rw [hw]
    by_cases hj : j = p
    · subst hj
      rw [update_self]
      exact hnodup.2
    · rw [update_of_ne hj]
      exact h.nodup j
  · intro i j u q q' hi hj
    exact h.disjoint i j u q q' ((hmem _ _ _).1 hi).1 ((hmem _ _ _).1 hj).1
  · intro k r
    constructor
    · rintro ⟨j, u, q, f, hm, hf, hk, hr'⟩
      by_cases hu : u = t
      · subst hu
        obtain rfl : e = f := Option.some.inj (he.symm.trans hf)
        exact .inr ⟨hk.symm, hr'.symm⟩
      · exact .inl ⟨j, u, q, f, (hmem _ _ _).2 ⟨hm, hu⟩, by rw [hother u hu]; exact hf, hk, hr'⟩
    · rintro (⟨j, u, q, f, hm, hf, hk, hr'⟩ | ⟨rfl, rfl⟩)
      · obtain ⟨hm, hu⟩ := (hmem j u q).1 hm
        exact ⟨j, u, q, f, hm, by rw [← hother u hu]; exact hf, hk, hr'⟩
      · exact ⟨p, t, pos, e, hfirst, he, rfl, rfl⟩

end

theorem setAnc_same {o : Objects} {p : ℕ} (hu : (o.sock p).used = true)
    (l : List (ℕ × BitVec 32)) :
    Objects.Same o (o.setSock p { o.sock p with anc := l }) ∧
      (o.setSock p { o.sock p with anc := l }).waits = update o.waits p l := by
  refine ⟨⟨rfl, fun j => ?_, rfl, rfl, rfl, rfl, rfl⟩, ?_⟩
  · show (update o.sock p _ j).used = _
    by_cases hj : j = p
    · rw [hj, update_self]
    · rw [update_of_ne hj]
  · funext j
    by_cases hj : j = p
    · subst hj
      rw [update_self]
      show (if (update o.sock j _ j).used then (update o.sock j _ j).anc else []) = l
      rw [update_self]
      exact if_pos hu
    · rw [update_of_ne hj]
      show (if (update o.sock p _ j).used then (update o.sock p _ j).anc else []) = _
      rw [update_of_ne hj]
      rfl

/-! ### The calls -/

section

variable {s : Sys} {table : ℕ → ℕ} {cur t : ℕ}

theorem freeRight_eq_some (h : s.freeRight = some t) : t < c3ScmRightsMax ∧ s.rights t = none := by
  rw [Sys.freeRight, Option.map_eq_some_iff] at h
  obtain ⟨n, hn, rfl⟩ := h
  obtain ⟨-, hfree⟩ := firstSlot_eq_some hn
  exact ⟨Nat.mod_lt _ (by decide), by simpa using hfree⟩

theorem sockSendRight_cases (o : Objects) (i t : ℕ) :
    o.sockSendRight i t = (false, o) ∨ ∃ p, (o.sock p).used = true ∧
      o.sockSendRight i t = (true, o.setSock p
        { o.sock p with anc := (o.sock p).anc ++ [(t, (o.sock p).rxHead)] }) := by
  rw [Objects.sockSendRight]
  split_ifs with hi
  · split
    · rename_i p _
      split_ifs with hp
      · exact .inl rfl
      · exact .inr ⟨p, hp.2, rfl⟩
      · exact .inl rfl
    · exact .inl rfl
  · exact .inl rfl

theorem queueRight_life (h : Life s) {e : Fd} (hlt : t < c3ScmRightsMax) (hnone : s.rights t = none)
    (he : s.tasks.held e.kind e.ref) (next ref : ℕ) :
    Life ((⟨s.tasks, s.objs, update s.rights t (some e), next⟩ : Sys).queueRight ref t).2 := by
  rw [Sys.queueRight]
  dsimp only
  rcases sockSendRight_cases s.objs ref t with hno | ⟨p, hu, hyes⟩
  · rw [hno]
    refine h.arrays rfl ?_ fun _ _ _ => Iff.rfl
    show update (update s.rights t _) t none = s.rights
    rw [update_idem, ← hnone, update_eq_self]
  · rw [hyes]
    obtain ⟨hsame, hw⟩ := setAnc_same hu ((s.objs.sock p).anc ++ [(t, (s.objs.sock p).rxHead)])
    dsimp only
    generalize hs' : (⟨s.tasks, s.objs, update s.rights t (some e), next⟩ : Sys).setObjs
      (s.objs.setSock p { s.objs.sock p with
        anc := (s.objs.sock p).anc ++ [(t, (s.objs.sock p).rxHead)] }) = s'
    have hobjs : s'.objs = s.objs.setSock p { s.objs.sock p with
        anc := (s.objs.sock p).anc ++ [(t, (s.objs.sock p).rxHead)] } := by rw [← hs']; rfl
    have htasks : s'.tasks = s.tasks := by rw [← hs']; rfl
    rw [← hobjs] at hsame hw
    rw [← Objects.waits_used hu] at hw
    obtain ⟨hrings, hqueued⟩ := h.rings.push hlt hnone hw (by rw [← hs']; rfl)
    refine h.congr hsame.alive ?_ (hsame.store h.store) hrings
    intro k r o _
    rw [Sys.refs, htasks, hqueued, Sys.refs, ← or_assoc]
    refine or_iff_left_of_imp ?_
    rintro ⟨rfl, rfl⟩
    exact .inl he

theorem sendRight_life (h : Life s) (hh : Held s.tasks table cur) (sockFd passFd : ℕ) :
    Life (s.sendRight cur sockFd passFd).2 := by
  rw [Sys.sendRight, Sys.c3ScmRightStore]
  split_ifs with hsock hpass
  · exact h
  · exact h
  · obtain ⟨hfd, -⟩ := hh.grouped.valid.1 (by simpa using hpass)
    cases hfree : s.freeRight with
    | none => exact h
    | some t =>
      obtain ⟨hlt, hnone⟩ := freeRight_eq_some hfree
      exact queueRight_life h (e := { s.entry cur passFd with
        flags := (s.entry cur passFd).flags &&& ~~~fdflCloexec }) hlt hnone
        ⟨cur, passFd, hh.used, hfd, holds_iff.2 ⟨rfl, rfl⟩⟩ _ _

theorem sockRecvRight_cases (o : Objects) (i : ℕ) :
    (∃ o', o.sockRecvRight i = (none, o')) ∨ ∃ t pos rest, (o.sock i).used = true ∧
      (o.sock i).anc = (t, pos) :: rest ∧
      o.sockRecvRight i = (some t, o.setSock i { o.sock i with anc := rest }) := by
  rw [Objects.sockRecvRight]
  split_ifs with hi
  · split
    · rename_i t pos rest heq
      split_ifs
      · exact .inl ⟨_, rfl⟩
      · exact .inr ⟨t, pos, rest, hi.2, heq, rfl⟩
    · exact .inl ⟨_, rfl⟩
  · exact .inl ⟨_, rfl⟩

/-- A right that is taken finds a descriptor. -/
def RightRoom (s : Sys) (cur sockFd : ℕ) : Prop :=
  s.valid cur sockFd = true → (s.entry cur sockFd).kind = .socket →
    (s.objs.sockRecvRight (s.entry cur sockFd).ref).1.isSome = true → FdRoom s cur

theorem recvRight_life (h : Life s) (hh : Held s.tasks table cur) (sockFd : ℕ) (cloexec : Bool)
    (hroom : RightRoom s cur sockFd) : Life (s.recvRight cur sockFd cloexec).2 := by
  rw [Sys.recvRight]
  by_cases hsock : s.valid cur sockFd = true ∧ (s.entry cur sockFd).kind = .socket
  · rw [if_neg (by simp [hsock])]
    generalize hi : (s.entry cur sockFd).ref = i
    rcases sockRecvRight_cases s.objs i with ⟨o', hno⟩ | ⟨t, pos, rest, hu, hanc, hyes⟩
    · rw [hno]
      exact h
    · rw [hyes]
      obtain ⟨nfd, hf⟩ := (hroom hsock.1 hsock.2 (by rw [hi, hyes]; rfl)).free hh
      obtain ⟨hnfd, -, hnone⟩ := firstFree_eq_some hf
      rw [← Objects.waits_used hu] at hanc
      obtain ⟨e, he⟩ := h.rings.right i t pos (by rw [hanc]; exact mem_cons_self)
      obtain ⟨hsame, hw⟩ := setAnc_same hu rest
      dsimp only
      generalize hobjs : s.objs.setSock i { s.objs.sock i with anc := rest } = objs at hsame hw
      have hg : Grouped (s.setObjs objs).tasks cur (s.tasks.task cur).fds := hh.grouped
      have he' : (s.setObjs objs).rights t = some e := he
      rw [Sys.c3ScmRightTake, he']
      dsimp only
      rw [enterRight_some hg hf]
      dsimp only
      generalize hs' : (Sys.c3ScmRightDiscard _ t : Sys) = s'
      have hw' : s'.objs.waits = update s.objs.waits i rest := by
        rw [← hs']
        exact hw
      obtain ⟨hrings, hqueued⟩ := h.rings.pop hanc he hw' (by rw [← hs']; rfl)
      have hobjs' : s'.objs = objs := by rw [← hs']; rfl
      rw [← hobjs'] at hsame
      refine h.congr hsame.alive ?_ (hsame.store h.store) hrings
      intro k r o hk
      have hheld : s'.tasks.held k r ↔ s.tasks.held k r ∨ (k = e.kind ∧ r = e.ref) := by
        rw [← hs']
        exact hh.held_write hnfd hnone _ (kind_ne_none_of_object hk)
      rw [Sys.refs, Sys.refs, hheld, hqueued, or_assoc, or_comm (a := k = e.kind ∧ r = e.ref)]
  · rw [if_pos]
    · exact h
    · rw [not_and_or] at hsock
      rcases hsock with hv | hk
      · simp [hv]
      · simp [hk]

end

end Ridux
