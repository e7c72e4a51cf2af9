import Ridux.Wl.Protocol

/-!
# Configures

What `display_wayland.c` keeps about the configures of shell and layer surfaces, compared with what has
gone over the sockets.

* `WlConfigure.Kept`: the flags of a role agree with its history;
* `WlRoles`: the part of the state that is about roles; `WlRoles.Ok`: all roles are kept;
* one lemma for each way in which a role changes.
-/

namespace Ridux

open Lib Function Option

/-- A serial; `0` is none. -/
def serialOf (n : ℕ) : Option ℕ := if n = 0 then none else some n

theorem serialOf_of_ne {n : ℕ} (h : n ≠ 0) : serialOf n = some n := if_neg h

theorem serialOf_inj {n m : ℕ} : serialOf n = serialOf m ↔ n = m := by
  unfold serialOf
  split_ifs <;> simp_all
  omega

namespace WlConfigure

/-- What the protocols ask of a role: it counts as configured only when the last serial acknowledged is the
last one sent, at most one configure waits for its acknowledgement, and a configure that became
necessary while one waits is recorded. -/
structure InTurn (k : WlConfigure) (o : Offers ℕ) : Prop where
  configured : k.configured = true → o.last ≠ none ∧ o.acked = o.last
  waiting : o.waiting.length ≤ 1
  owed : o.owed = true → k.configurePending = true ∧ o.waiting ≠ []

/-- The serials and the flags are those of the history. -/
structure Sound (k : WlConfigure) (o : Offers ℕ) : Prop where
  turns : o.Turns (serialOf k.lastConfigureSerial) (serialOf k.lastAckSerial)
  seen : k.lastConfigureSerial ≠ 0 → k.initialCommitSeen = true
  unsent : k.lastConfigureSerial = 0 → k.lastAckSerial = 0
  configured : k.configured = true →
    k.lastConfigureSerial ≠ 0 ∧ k.lastAckSerial = k.lastConfigureSerial

/-- And a configure that is owed is pending, behind one that waits. -/
structure Kept (k : WlConfigure) (o : Offers ℕ) : Prop extends k.Sound o where
  owed : o.owed = true → k.configurePending = true ∧ k.lastAckSerial ≠ k.lastConfigureSerial

variable {k : WlConfigure} {o : Offers ℕ} {s : ℕ}

theorem outstanding_eq_true (h : k.Sound o) :
    k.outstanding = true ↔ k.lastAckSerial ≠ k.lastConfigureSerial := by
  rw [outstanding, decide_eq_true_iff]
  refine ⟨fun hk => hk.2, fun hk => ⟨fun h0 => ?_, hk⟩⟩
  exact hk ((h.unsent h0).trans h0.symm)

theorem outstanding_eq_false (h : k.Sound o) :
    k.outstanding = false ↔ k.lastAckSerial = k.lastConfigureSerial := by
  rw [← Bool.not_eq_true, outstanding_eq_true h, ne_eq, not_not]

theorem Kept.inTurn (h : k.Kept o) : k.InTurn o where
  configured hc := by
    obtain ⟨hne, heq⟩ := h.configured hc
    rw [h.turns.last, h.turns.acked, heq, serialOf_of_ne hne]
    exact ⟨some_ne_none _, rfl⟩
  waiting := h.turns.length_waiting_le
  owed ho := by
    obtain ⟨hp, hne⟩ := h.owed ho
    refine ⟨hp, ?_⟩
    have hl : k.lastConfigureSerial ≠ 0 := fun h0 => hne ((h.unsent h0).trans h0.symm)
    have hturns := h.turns
    rw [serialOf_of_ne hl] at hturns
    refine hturns.waiting_ne_nil ?_
    rw [← serialOf_of_ne hl]
    exact fun he => hne (serialOf_inj.1 he)

theorem kept_fresh (p : Bool) : (fresh p).Kept .start where
  turns := .start
  seen h := absurd rfl h
  unsent _ := rfl
  configured h := by cases h
  owed h := by cases h

theorem Kept.flags (h : k.Kept o) {pending initial : Bool}
    (hp : k.configurePending = true → pending = true)
    (hi : k.initialCommitSeen = true → initial = true) :
    ({ k with configurePending := pending, initialCommitSeen := initial }).Kept o where
  turns := h.turns
  seen hne := hi (h.seen hne)
  unsent := h.unsent
  configured := h.configured
  owed ho := ⟨hp (h.owed ho).1, (h.owed ho).2⟩

theorem Kept.defer (h : k.Kept o) : k.defer.Kept o := h.flags (fun _ => rfl) fun hi => hi

theorem Kept.commitSeen (h : k.Kept o) : k.commitSeen.Kept o := h.flags (fun _ => rfl) fun _ => rfl

theorem Kept.need (h : k.Kept o) (hp : k.configurePending = true) : k.Kept o.need where
  turns := h.turns.need
  seen := h.seen
  unsent := h.unsent
  configured := h.configured
  owed ho := by
    have hne : serialOf k.lastAckSerial ≠ serialOf k.lastConfigureSerial :=
      h.turns.need_owed (fun ho he => (h.owed ho).2 (serialOf_inj.1 he)) ho
    exact ⟨hp, fun he => hne (congrArg serialOf he)⟩

theorem Sound.sent (h : k.Sound o) (hseen : k.initialCommitSeen = true)
    (hout : k.lastAckSerial = k.lastConfigureSerial) (hs : s ≠ 0) (hack : k.lastAckSerial ≠ s) :
    (k.sent s).Kept (o.send s) where
  turns := by
    have hturns := h.turns
    rw [hout] at hturns hack
    have hne : serialOf k.lastConfigureSerial ≠ some s := by
      rw [← serialOf_of_ne hs]
      exact fun he => hack (serialOf_inj.1 he)
    have hsend := hturns.send hne
    rw [← serialOf_of_ne hs, ← hout] at hsend
    exact hsend
  seen _ := hseen
  unsent h0 := absurd h0 hs
  configured hc := by cases hc
  owed ho := by cases ho

theorem Sound.need (h : k.Sound o) : k.Sound o.need :=
  ⟨h.turns.need, h.seen, h.unsent, h.configured⟩

theorem Sound.acked (h : k.Sound o) (hs : k.lastConfigureSerial = s) (hne : s ≠ 0)
    {configured pending : Bool} :
    ({ k with lastAckSerial := s, configured := configured, configurePending := pending }).Sound
      (o.ack s) where
  turns := by
    have hturns := h.turns
    rw [hs, serialOf_of_ne hne] at hturns
    have hack := hturns.ack
    rw [← serialOf_of_ne hne] at hack
    rw [← hs] at hack ⊢
    exact hack
  seen := h.seen
  unsent h0 := absurd (hs.symm.trans h0) hne
  configured _ := ⟨hs ▸ hne, hs.symm⟩

theorem Sound.kept (h : k.Sound o) (ho : o.owed = false) : k.Kept o where
  toSound := h
  owed ht := by
    rw [ho] at ht
    cases ht

theorem Kept.not_owed (h : k.Kept o) (hp : k.configurePending = false) : o.owed = false := by
  by_contra ho
  rw [Bool.not_eq_false] at ho
  have hpend := (h.owed ho).1
  rw [hp] at hpend
  cases hpend

end WlConfigure

/-! ### The roles of all surfaces -/

/-- What links a toplevel to its shell surface. -/
structure WlTop where
  id : ℕ
  clientIdx : ℕ
  surfaceId : ℕ
  xdgSurfaceId : ℕ

/-- What links a toplevel to its shell surface. -/
def WlXdgToplevel.top (tl : WlXdgToplevel) : WlTop :=
  ⟨tl.id, tl.clientIdx, tl.surfaceId, tl.xdgSurfaceId⟩

/-- The part of the state that is about roles. -/
structure WlRoles where
  xdg : ℕ → Option WlXdgSurface
  top : ℕ → Option WlTop
  layer : ℕ → Option WlLayerSurface
  offers : WlRole → Offers ℕ
  shellOf : ℕ × ℕ → Option ℕ

namespace WlRoles

variable (v : WlRoles)

/-- A slot of the shell surfaces is written. -/
def setXdg (i : ℕ) (xs : Option WlXdgSurface) : WlRoles :=
  { v with xdg := update v.xdg i xs }

/-- A slot of the toplevels is written. -/
def setTop (j : ℕ) (t : Option WlTop) : WlRoles := { v with top := update v.top j t }

/-- A slot of the layer surfaces is written. -/
def setLayer (i : ℕ) (ls : Option WlLayerSurface) : WlRoles :=
  { v with layer := update v.layer i ls }

/-- Something happens to the configures of a role. -/
def offer (r : WlRole) (f : Offers ℕ → Offers ℕ) : WlRoles :=
  { v with offers := update v.offers r (f (v.offers r)) }

/-- All roles agree with what has gone over the sockets; the tables have one entry for an object and
one for a surface; and a toplevel stands with its shell surface. -/
structure Ok : Prop where
  xdg : ∀ i xs, v.xdg i = some xs →
    i < wl7MaxSurfaces ∧ xs.conf.Kept (v.offers (.xdg xs.clientIdx xs.id))
  xdgOnly : ∀ i j xs ys, v.xdg i = some xs → v.xdg j = some ys →
    xs.id = ys.id ∨ xs.surfaceId = ys.surfaceId → i = j
  layer : ∀ i ls, v.layer i = some ls →
    i < wl7MaxSurfaces ∧ ls.conf.Kept (v.offers (.layer ls.clientIdx ls.id))
  layerOnly : ∀ i j ls ks, v.layer i = some ls → v.layer j = some ks →
    ls.id = ks.id ∨ ls.surfaceId = ks.surfaceId → i = j
  topLt : ∀ j t, v.top j = some t → j < wl7MaxSurfaces ∧ (t.id = 0 → t.surfaceId = 0)
  top : ∀ j t, v.top j = some t → t.id ≠ 0 →
    ∃ i xs, v.xdg i = some xs ∧ xs.id = t.xdgSurfaceId ∧ xs.clientIdx = t.clientIdx ∧
      xs.surfaceId = t.surfaceId ∧ xs.toplevelId = t.id ∧
      v.shellOf (t.clientIdx, t.id) = some t.xdgSurfaceId
  topOnly : ∀ i j t u, v.top i = some t → v.top j = some u → t.id ≠ 0 → t.id = u.id → i = j
  shell : ∀ c id, id ≠ 0 → ∀ i xs, v.xdg i = some xs → xs.clientIdx = c →
    v.shellOf (c, id) = some xs.id → ∃ j t, v.top j = some t ∧ t.id = id ∧ t.clientIdx = c
  owned : ∀ i xs, v.xdg i = some xs → xs.toplevelId ≠ 0 →
    ∃ j t, v.top j = some t ∧ t.id = xs.toplevelId ∧ t.xdgSurfaceId = xs.id

variable {v} {i j c : ℕ} {xs : WlXdgSurface} {ls : WlLayerSurface} {f : Offers ℕ → Offers ℕ}
  {k : WlConfigure}

theorem offer_id (r : WlRole) : v.offer r id = v := by
  simp [offer]

theorem offers_self (r : WlRole) : (v.offer r f).offers r = f (v.offers r) :=
  update_self _ _ _

theorem offers_of_ne {r r' : WlRole} (h : r' ≠ r) : (v.offer r f).offers r' = v.offers r' :=
  update_of_ne h _ _

theorem Ok.offer_xdg (h : v.Ok) {id : ℕ}
    (hdead : ∀ i xs, v.xdg i = some xs → ¬(xs.clientIdx = c ∧ xs.id = id)) :
    (v.offer (.xdg c id) f).Ok := by
  refine { h with xdg := fun i xs hi => ?_, layer := fun i ls hi => ?_ }
  · have hne : WlRole.xdg xs.clientIdx xs.id ≠ .xdg c id := by
      intro he
      exact hdead i xs hi (WlRole.xdg.inj he)
    rw [offers_of_ne hne]
    exact h.xdg i xs hi
  · have hne : WlRole.layer ls.clientIdx ls.id ≠ .xdg c id := by simp
    rw [offers_of_ne hne]
    exact h.layer i ls hi

theorem Ok.offer_layer (h : v.Ok) {id : ℕ}
    (hdead : ∀ i ls, v.layer i = some ls → ¬(ls.clientIdx = c ∧ ls.id = id)) :
    (v.offer (.layer c id) f).Ok := by
  refine { h with xdg := fun i xs hi => ?_, layer := fun i ls hi => ?_ }
  · have hne : WlRole.xdg xs.clientIdx xs.id ≠ .layer c id := by simp
    rw [offers_of_ne hne]
    exact h.xdg i xs hi
  · have hne : WlRole.layer ls.clientIdx ls.id ≠ .layer c id := by
      intro he
      exact hdead i ls hi (WlRole.layer.inj he)
    rw [offers_of_ne hne]
    exact h.layer i ls hi

theorem Ok.changeXdg (h : v.Ok) (hi : v.xdg i = some xs)
    (hk : k.Kept (f (v.offers (.xdg xs.clientIdx xs.id)))) :
    ((v.setXdg i (some { xs with conf := k })).offer (.xdg xs.clientIdx xs.id) f).Ok := by
  -- every slot holds the entry it held, up to its flags
  have hslot : ∀ j ys, update v.xdg i (some { xs with conf := k }) j = some ys →
      ∃ zs, v.xdg j = some zs ∧ zs.id = ys.id ∧ zs.clientIdx = ys.clientIdx ∧
        zs.surfaceId = ys.surfaceId ∧ zs.toplevelId = ys.toplevelId :=
    fun _ _ hz => by apply entry_back hi _ _ hz <;> simp
  refine { h with
    xdg := fun j ys hj => ?_
    xdgOnly := apart_replace h.xdgOnly hi (fun _ => id) fun _ => id
    layer := fun j ls hj => ?_
    top := fun j t hj hne => ?_
    shell := fun c id hne j ys hj hc hof => ?_
    owned := fun j ys hj hne => ?_ }
  · change update v.xdg i _ j = some ys at hj
    rcases update_some_cases hj with ⟨rfl, rfl⟩ | ⟨hji, hj⟩
    · refine ⟨(h.xdg j xs hi).1, ?_⟩
      rw [offers_self]
      exact hk
    · have hne : WlRole.xdg ys.clientIdx ys.id ≠ .xdg xs.clientIdx xs.id := by
        intro he
        exact hji (h.xdgOnly j i ys xs hj hi (.inl (WlRole.xdg.inj he).2))
      rw [offers_of_ne hne]
      exact h.xdg j ys hj
  · have hne : WlRole.layer ls.clientIdx ls.id ≠ .xdg xs.clientIdx xs.id := by simp
    rw [offers_of_ne hne]
    exact h.layer j ls hj
  · obtain ⟨i', xs', hi', hrest⟩ := h.top j t hj hne
    by_cases hii : i' = i
    · subst hii
      obtain rfl := some.inj (hi.symm.trans hi')
      exact ⟨i', { xs with conf := k }, update_self _ _ _, hrest⟩
    · exact ⟨i', xs', entry_update hi' hii, hrest⟩
  · obtain ⟨zs, hz, hzid, hzc, -⟩ := hslot j ys hj
    exact h.shell c id hne j zs hz (hzc.trans hc) (by rw [hzid]; exact hof)
  · obtain ⟨zs, hz, hzid, -, -, hztl⟩ := hslot j ys hj
    rw [← hzid, ← hztl]
    exact h.owned j zs hz (hztl ▸ hne)

theorem Ok.changeLayer (h : v.Ok) (hi : v.layer i = some ls) {ls' : WlLayerSurface}
    (hid : ls'.id = ls.id) (hc : ls'.clientIdx = ls.clientIdx) (hs : ls'.surfaceId = ls.surfaceId)
    (hk : ls'.conf.Kept (f (v.offers (.layer ls.clientIdx ls.id)))) :
    ((v.setLayer i (some ls')).offer (.layer ls.clientIdx ls.id) f).Ok := by
  refine { h with
    xdg := fun j xs hj => ?_
    layer := fun j ks hj => ?_
    layerOnly := apart_replace h.layerOnly hi (fun _ => by rw [hid, hs]; exact id)
      fun _ => by rw [hid, hs]; exact id }
  · have hne : WlRole.xdg xs.clientIdx xs.id ≠ .layer ls.clientIdx ls.id := by simp
    rw [offers_of_ne hne]
    exact h.xdg j xs hj
  · change update v.layer i _ j = some ks at hj
    rcases update_some_cases hj with ⟨rfl, rfl⟩ | ⟨hji, hj⟩
    · refine ⟨(h.layer j ls hi).1, ?_⟩
      rw [hid, hc, offers_self]
      exact hk
    · have hne : WlRole.layer ks.clientIdx ks.id ≠ .layer ls.clientIdx ls.id := by
        intro he
        exact hji (h.layerOnly j i ks ls hj hi (.inl (WlRole.layer.inj he).2))
      rw [offers_of_ne hne]
      exact h.layer j ks hj

/-! ### Roles come and go -/

theorem Ok.newXdg (h : v.Ok) (hfree : v.xdg i = none) (hi : i < wl7MaxSurfaces) {id surface : ℕ}
    (hnew : ∀ j ys, v.xdg j = some ys → ys.id ≠ id ∧ ys.surfaceId ≠ surface)
    {shellOf : ℕ × ℕ → Option ℕ} (hshell : ∀ a, v.shellOf a ≠ some id → shellOf a = v.shellOf a)
    (hsub : ∀ a x, shellOf a = some x → v.shellOf a = some x) (hold : ∀ a, shellOf (c, a) ≠ some id) :
    { (v.setXdg i (some ⟨id, c, surface, 0, .fresh false⟩)).offer (.xdg c id) fun _ => .start with
      shellOf := shellOf }.Ok := by
  refine
    { xdg := fun j ys hj => ?_
      xdgOnly := apart_add h.xdgOnly (fun _ _ he => he.imp Eq.symm Eq.symm)
        fun j ys hj => not_or.2 (hnew j ys hj)
      layer := fun j ls hj => ?_
      layerOnly := h.layerOnly
      topLt := h.topLt
      top := fun j t hj hne => ?_
      topOnly := h.topOnly
      shell := fun c' id' hne j ys hj hc hof => ?_
      owned := fun j ys hj hne => ?_ }
  · change update v.xdg i _ j = some ys at hj
    rcases update_some_cases hj with ⟨rfl, rfl⟩ | ⟨-, hj⟩
    · refine ⟨hi, ?_⟩
      rw [offers_self]
      exact WlConfigure.kept_fresh false
    · have hne : WlRole.xdg ys.clientIdx ys.id ≠ .xdg c id := by
        intro he
        exact (hnew j ys hj).1 (WlRole.xdg.inj he).2
      rw [offers_of_ne hne]
      exact h.xdg j ys hj
  · have hne : WlRole.layer ls.clientIdx ls.id ≠ .xdg c id := by simp
    rw [offers_of_ne hne]
    exact h.layer j ls hj
  · obtain ⟨i', xs, hi', hid, hc, hs, htop, hof⟩ := h.top j t hj hne
    refine ⟨i', xs, entry_of_free hi' hfree, hid, hc, hs, htop, ?_⟩
    have hne' : v.shellOf (t.clientIdx, t.id) ≠ some id := by
      rw [hof, ← hid]
      exact fun he => (hnew i' xs hi').1 (some.inj he)
    exact (hshell _ hne').trans hof
  · change update v.xdg i _ j = some ys at hj
    rcases update_some_cases hj with ⟨rfl, rfl⟩ | ⟨-, hj⟩
    · subst hc
      exact absurd hof (hold id')
    · exact h.shell c' id' hne j ys hj hc (hsub _ _ hof)
  · change update v.xdg i _ j = some ys at hj
    rcases update_some_cases hj with ⟨rfl, rfl⟩ | ⟨-, hj⟩
    · exact absurd rfl hne
    · exact h.owned j ys hj hne

theorem Ok.dropXdg (h : v.Ok) (hi : v.xdg i = some xs) {top : ℕ → Option WlTop}
    (hsub : ∀ j t, top j = some t → v.top j = some t)
    (hgone : ∀ j t, top j = some t → t.id ≠ 0 → t.xdgSurfaceId ≠ xs.id)
    (hkeep : ∀ j t, v.top j = some t → t.id ≠ 0 → t.xdgSurfaceId ≠ xs.id → top j = some t) :
    { v.setXdg i none with top := top }.Ok := by
  refine { h with
    xdg := fun j ys hj => h.xdg j ys (update_none_cases hj).2
    xdgOnly := apart_erase h.xdgOnly
    topLt := fun j t hj => h.topLt j t (hsub j t hj)
    top := fun j t hj hne => ?_
    topOnly := fun j j' t u hj hu => h.topOnly j j' t u (hsub j t hj) (hsub j' u hu)
    shell := fun c id hne j ys hj hc hof => ?_
    owned := fun j ys hj hne => ?_ }
  · obtain ⟨i', xs', hi', hid, hrest⟩ := h.top j t (hsub j t hj) hne
    have hii : i' ≠ i := by
      refine ne_of_entry hi' hi ?_
      rintro rfl
      exact hgone j t hj hne hid.symm
    exact ⟨i', xs', entry_update hi' hii, hid, hrest⟩
  · obtain ⟨hji, hj⟩ := update_none_cases hj
    obtain ⟨j', t, ht, htid, htc⟩ := h.shell c id hne j ys hj hc hof
    have htne : t.id ≠ 0 := htid ▸ hne
    obtain ⟨-, -, -, -, -, -, -, htof⟩ := h.top j' t ht htne
    have hown : t.xdgSurfaceId = ys.id := by
      rw [htc, htid] at htof
      exact some.inj (htof.symm.trans hof)
    refine ⟨j', t, hkeep j' t ht htne fun he => ?_, htid, htc⟩
    exact hji (h.xdgOnly j i ys xs hj hi (.inl (hown.symm.trans he)))
  · obtain ⟨hji, hj⟩ := update_none_cases hj
    obtain ⟨j', t, ht, htid, hown⟩ := h.owned j ys hj hne
    refine ⟨j', t, hkeep j' t ht (htid ▸ hne) fun he => ?_, htid, hown⟩
    exact hji (h.xdgOnly j i ys xs hj hi (.inl (hown.symm.trans he)))

theorem Ok.idleTop (h : v.Ok) (hfree : v.top j = none) (hj : j < wl7MaxSurfaces) :
    (v.setTop j (some ⟨0, 0, 0, 0⟩)).Ok := by
  have hslot : ∀ i t, update v.top j (some ⟨0, 0, 0, 0⟩) i = some t → t.id ≠ 0 →
      v.top i = some t := by
    intro i t hi hne
    rcases update_some_cases hi with ⟨-, rfl⟩ | ⟨-, hi⟩
    · exact absurd rfl hne
    · exact hi
  refine { h with
    topLt := fun i t hi => ?_
    top := fun i t hi hne => h.top i t (hslot i t hi hne) hne
    topOnly := fun i i' t u hi hu hne he =>
      h.topOnly i i' t u (hslot i t hi hne) (hslot i' u hu (he ▸ hne)) hne he
    shell := fun c id hne i xs hi hc hof => ?_
    owned := fun i xs hi hne => ?_ }
  · change update v.top j _ i = some t at hi
    rcases update_some_cases hi with ⟨hij, rfl⟩ | ⟨-, hi⟩
    · exact ⟨hij ▸ hj, fun _ => rfl⟩
    · exact h.topLt i t hi
  · obtain ⟨j', t, ht, hrest⟩ := h.shell c id hne i xs hi hc hof
    exact ⟨j', t, entry_of_free ht hfree, hrest⟩
  · obtain ⟨j', t, ht, hrest⟩ := h.owned i xs hi hne
    exact ⟨j', t, entry_of_free ht hfree, hrest⟩

theorem Ok.newTop (h : v.Ok) (hi : v.xdg i = some xs) (hnone : xs.toplevelId = 0)
    (hfree : v.top j = none) (hj : j < wl7MaxSurfaces) {id : ℕ} (hid : id ≠ 0)
    (hnew : ∀ j t, v.top j = some t → t.id ≠ id) :
    { (v.setTop j (some ⟨id, xs.clientIdx, xs.surfaceId, xs.id⟩)).setXdg i
        (some { xs with toplevelId := id }) with
      shellOf := update v.shellOf (xs.clientIdx, id) (some xs.id) }.Ok := by
  have hslot : ∀ i' ys, update v.xdg i (some { xs with toplevelId := id }) i' = some ys →
      ∃ zs, v.xdg i' = some zs ∧ zs.id = ys.id ∧ zs.clientIdx = ys.clientIdx ∧
        zs.surfaceId = ys.surfaceId ∧ zs.conf = ys.conf :=
    fun _ _ hz => by apply entry_back hi _ _ hz <;> simp
  refine { h with
    xdg := fun i' ys hy => ?_
    xdgOnly := apart_replace h.xdgOnly hi (fun _ he => he) fun _ he => he
    topLt := fun j' t ht => ?_
    top := fun j' t ht hne => ?_
    topOnly := fun j' j'' t u ht hu hne he => ?_
    shell := fun c' id' hne i' ys hy hc hof => ?_
    owned := fun i' ys hy hne => ?_ }
  · obtain ⟨zs, hz, hzid, hzc, -, hconf⟩ := hslot i' ys hy
    rw [← hzid, ← hzc, ← hconf]
    exact h.xdg i' zs hz
  · rcases update_some_cases ht with ⟨rfl, rfl⟩ | ⟨-, ht⟩
    · exact ⟨hj, fun h0 => absurd h0 hid⟩
    · exact h.topLt j' t ht
  · rcases update_some_cases ht with ⟨rfl, rfl⟩ | ⟨-, ht⟩
    · exact ⟨i, { xs with toplevelId := id }, update_self _ _ _, rfl, rfl, rfl, rfl,
        update_self _ _ _⟩
    · obtain ⟨i', xs', hi', hxid, hc, hs, htl, hof⟩ := h.top j' t ht hne
      have hii : i' ≠ i := by
        refine ne_of_entry hi' hi ?_
        rintro rfl
        exact hne (htl.symm.trans hnone)
      have hkey : (t.clientIdx, t.id) ≠ (xs.clientIdx, id) := by
        intro he
        exact hnew j' t ht (Prod.mk.inj he).2
      exact ⟨i', xs', entry_update hi' hii, hxid, hc, hs, htl,
        (update_of_ne hkey _ _).trans hof⟩
  · rcases update_some_cases ht with ⟨rfl, rfl⟩ | ⟨-, ht'⟩ <;>
      rcases update_some_cases hu with ⟨rfl, rfl⟩ | ⟨-, hu'⟩
    · rfl
    · exact absurd he.symm (hnew j'' u hu')
    · exact absurd he (hnew j' t ht')
    · exact h.topOnly j' j'' t u ht' hu' hne he
  · obtain ⟨zs, hz, hzid, hzc, -⟩ := hslot i' ys hy
    by_cases hkey : (c', id') = (xs.clientIdx, id)
    · obtain ⟨rfl, rfl⟩ := Prod.mk.inj hkey
      exact ⟨j, _, update_self _ _ _, rfl, rfl⟩
    · change update v.shellOf _ _ _ = _ at hof
      rw [update_of_ne hkey, ← hzid] at hof
      obtain ⟨j', t, ht, hrest⟩ := h.shell c' id' hne i' zs hz (hzc.trans hc) hof
      exact ⟨j', t, entry_of_free ht hfree, hrest⟩
  · change update v.xdg i _ i' = some ys at hy
    rcases update_some_cases hy with ⟨rfl, rfl⟩ | ⟨-, hy⟩
    · exact ⟨j, _, update_self _ _ _, rfl, rfl⟩
    · obtain ⟨j', t, ht, hrest⟩ := h.owned i' ys hy hne
      exact ⟨j', t, entry_of_free ht hfree, hrest⟩

theorem Ok.dropTop (h : v.Ok) {t : WlTop} (hj : v.top j = some t) (hne : t.id ≠ 0)
    (hi : v.xdg i = some xs) (hid : xs.id = t.xdgSurfaceId) :
    { (v.setXdg i (some { xs with toplevelId := 0 })).setTop j none with
      shellOf := update v.shellOf (t.clientIdx, t.id) none }.Ok := by
  have hslot : ∀ i' ys, update v.xdg i (some { xs with toplevelId := 0 }) i' = some ys →
      ∃ zs, v.xdg i' = some zs ∧ zs.id = ys.id ∧ zs.clientIdx = ys.clientIdx ∧
        zs.surfaceId = ys.surfaceId ∧ zs.conf = ys.conf :=
    fun _ _ hz => by apply entry_back hi _ _ hz <;> simp
  refine { h with
    xdg := fun i' ys hy => ?_
    xdgOnly := apart_replace h.xdgOnly hi (fun _ => id) fun _ => id
    topLt := fun j' u hu => h.topLt j' u (update_none_cases hu).2
    top := fun j' u hu hne' => ?_
    topOnly := fun j' j'' u u' hu hu' => h.topOnly j' j'' u u' (update_none_cases hu).2 (update_none_cases hu').2
    shell := fun c' id' hne' i' ys hy hc hof => ?_
    owned := fun i' ys hy hne' => ?_ }
  · obtain ⟨zs, hz, hzid, hzc, -, hconf⟩ := hslot i' ys hy
    rw [← hzid, ← hzc, ← hconf]
    exact h.xdg i' zs hz
  · obtain ⟨hjj, hu'⟩ := update_none_cases hu
    -- the toplevel that goes is that of the shell surface in slot `i`
    obtain ⟨i₀, xs₀, hi₀, hid₀, -, -, htl₀, -⟩ := h.top j t hj hne
    have hii₀ : i₀ = i := h.xdgOnly i₀ i xs₀ xs hi₀ hi (.inl (hid₀.trans hid.symm))
    subst hii₀
    rw [hi] at hi₀
    obtain rfl := some.inj hi₀
    obtain ⟨i', xs', hi', hxid, hc, hs, htl, hof⟩ := h.top j' u hu' hne'
    have hidne : u.id ≠ t.id := fun he => hjj (h.topOnly j' j u t hu' hj hne' he)
    have hii : i' ≠ i₀ := by
      refine ne_of_entry hi' hi ?_
      rintro rfl
      exact hidne (htl.symm.trans htl₀)
    have hkey : (u.clientIdx, u.id) ≠ (t.clientIdx, t.id) := fun he => hidne (Prod.mk.inj he).2
    exact ⟨i', xs', entry_update hi' hii, hxid, hc, hs, htl,
      (update_of_ne hkey _ _).trans hof⟩
  · obtain ⟨zs, hz, hzid, hzc, -⟩ := hslot i' ys hy
    change update v.shellOf _ _ _ = _ at hof
    by_cases hkey : (c', id') = (t.clientIdx, t.id)
    · rw [hkey, update_self] at hof
      cases hof
    · rw [update_of_ne hkey, ← hzid] at hof
      obtain ⟨j', u, hu, huid, huc⟩ := h.shell c' id' hne' i' zs hz (hzc.trans hc) hof
      have hjj : j' ≠ j := by
        refine ne_of_entry hu hj ?_
        rintro rfl
        exact hkey (by rw [huid, huc])
      exact ⟨j', u, entry_update hu hjj, huid, huc⟩
  · change update v.xdg i _ i' = some ys at hy
    rcases update_some_cases hy with ⟨rfl, rfl⟩ | ⟨hii, hy⟩
    · exact absurd rfl hne'
    · obtain ⟨j', u, hu, huid, hown⟩ := h.owned i' ys hy hne'
      have hjj : j' ≠ j := by
        refine ne_of_entry hu hj ?_
        rintro rfl
        exact hii (h.xdgOnly i' i ys xs hy hi (.inl (hown.symm.trans hid.symm)))
      exact ⟨j', u, entry_update hu hjj, huid, hown⟩

theorem Ok.newLayer (h : v.Ok) (hi : i < wl7MaxSurfaces) (hconf : ls.conf = .fresh true)
    (hnew : ∀ j ks, v.layer j = some ks → ks.id ≠ ls.id ∧ ks.surfaceId ≠ ls.surfaceId) :
    ((v.setLayer i (some ls)).offer (.layer ls.clientIdx ls.id) fun _ => .start).Ok := by
  refine { h with
    xdg := fun j xs hj => ?_
    layer := fun j ks hj => ?_
    layerOnly := apart_add h.layerOnly (fun _ _ he => he.imp Eq.symm Eq.symm)
      fun j ks hj => not_or.2 (hnew j ks hj) }
  · have hne : WlRole.xdg xs.clientIdx xs.id ≠ .layer ls.clientIdx ls.id := by simp
    rw [offers_of_ne hne]
    exact h.xdg j xs hj
  · rcases update_some_cases hj with ⟨rfl, rfl⟩ | ⟨-, hj⟩
    · refine ⟨hi, ?_⟩
      rw [offers_self, hconf]
      exact WlConfigure.kept_fresh true
    · have hne : WlRole.layer ks.clientIdx ks.id ≠ .layer ls.clientIdx ls.id := by
        intro he
        exact (hnew j ks hj).1 (WlRole.layer.inj he).2
      rw [offers_of_ne hne]
      exact h.layer j ks hj

theorem Ok.dropLayer (h : v.Ok) (i : ℕ) : (v.setLayer i none).Ok :=
  { h with
    layer := fun j ks hj => h.layer j ks (update_none_cases hj).2
    layerOnly := apart_erase h.layerOnly }

end WlRoles

end Ridux
