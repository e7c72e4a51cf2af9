import Ridux.Wl.Roles

/-!
# Configures in turn

A fair request keeps the roles of all surfaces.

* `Ok.schedule`, `Ok.maybeSend`: a configure that became necessary is sent or recorded;
* one lemma for each request that is about roles;
* `Wl7.ok_request`: all of them.
-/

namespace Ridux

open Lib Function Option

/-- A change of a history that asks for no more than one configure. -/
def Asks (f : Offers ℕ → Offers ℕ) : Prop :=
  ∀ k o, WlConfigure.Kept k o → k.Sound (f o) ∧ (k.configurePending = true → k.Kept (f o))

theorem asks_id : Asks id := fun _ _ h => ⟨h.toSound, fun _ => h⟩

theorem asks_need : Asks Offers.need := fun _ _ h => ⟨h.toSound.need, h.need⟩

namespace WlRoles

variable {v : WlRoles} {f g : Offers ℕ → Offers ℕ} {i : ℕ}

theorem offer_offer (r : WlRole) : (v.offer r f).offer r g = v.offer r fun o => g (f o) := by
  simp [offer]

theorem setXdg_offer (r : WlRole) (x : Option WlXdgSurface) :
    (v.offer r f).setXdg i x = (v.setXdg i x).offer r f := rfl

theorem setLayer_offer (r : WlRole) (x : Option WlLayerSurface) :
    (v.offer r f).setLayer i x = (v.setLayer i x).offer r f := rfl

theorem setLayer_setLayer (x y : Option WlLayerSurface) :
    (v.setLayer i x).setLayer i y = v.setLayer i y := by
  simp [setLayer]

theorem setXdg_setXdg (x y : Option WlXdgSurface) :
    (v.setXdg i x).setXdg i y = v.setXdg i y := by
  simp [setXdg]

theorem setXdg_self (x : Option WlXdgSurface) : (v.setXdg i x).xdg i = x :=
  update_self _ _ _

theorem setLayer_self (x : Option WlLayerSurface) : (v.setLayer i x).layer i = x :=
  update_self _ _ _

theorem Ok.changeLayerConf (h : v.Ok) {ls : WlLayerSurface} (hi : v.layer i = some ls)
    {k : WlConfigure} (hk : k.Kept (f (v.offers (.layer ls.clientIdx ls.id)))) :
    ((v.setLayer i (some { ls with conf := k })).offer (.layer ls.clientIdx ls.id) f).Ok :=
  h.changeLayer hi rfl rfl rfl hk

/-- A toplevel is named that is not there, for a shell surface that is not there, or for none. -/
theorem Ok.setShell (h : v.Ok) {c id : ℕ} {o : Option ℕ} (hnew : ∀ j t, v.top j = some t → t.id ≠ id)
    (hnone : ∀ i xs, v.xdg i = some xs → o ≠ some xs.id) :
    { v with shellOf := update v.shellOf (c, id) o }.Ok := by
  refine { h with
    top := fun j t hj hne => ?_
    shell := fun c' id' hne i xs hi hc hof => ?_ }
  · obtain ⟨i, xs, hi, hxid, hc, hs, htl, hof⟩ := h.top j t hj hne
    have hkey : (t.clientIdx, t.id) ≠ (c, id) := fun he => hnew j t hj (Prod.mk.inj he).2
    exact ⟨i, xs, hi, hxid, hc, hs, htl, (update_of_ne hkey _ _).trans hof⟩
  · change update v.shellOf _ _ _ = _ at hof
    by_cases hkey : (c', id') = (c, id)
    · rw [hkey, update_self] at hof
      exact absurd hof (hnone i xs hi)
    · rw [update_of_ne hkey] at hof
      exact h.shell c' id' hne i xs hi hc hof

end WlRoles

namespace Wl7

variable {st st' : Wl7} {v : WlRoles} {f : Offers ℕ → Offers ℕ} {c i obj surface s : ℕ}
  {xs : WlXdgSurface} {ls : WlLayerSurface} {r : WlReq} {t : WlTop}

theorem nextSerial_ne_zero : st.nextSerial.1 ≠ 0 := by
  unfold nextSerial
  split_ifs with h
  · exact one_ne_zero
  · exact h

theorem nextSerial_congr (h : st'.serial = st.serial) : st'.nextSerial.1 = st.nextSerial.1 := by
  unfold nextSerial
  rw [h]
  split_ifs <;> rfl

theorem serial_nextSerial_congr (h : st'.serial = st.serial) :
    st'.nextSerial.2.serial = st.nextSerial.2.serial := by
  unfold nextSerial
  rw [h]
  split_ifs <;> rfl

@[simp] theorem serial_metaSet (st : Wl7) (c id : ℕ) (kind : WlKind) (ref : ℕ) :
    (st.metaSet c id kind ref).serial = st.serial := by
  unfold metaSet
  split_ifs
  · rfl
  · split
    · rfl
    · split <;> rfl

/-! ### Shell surfaces -/

theorem ok_schedule (hv : v.Ok) (hf : Asks f)
    (hst : st.roles = v.offer (.xdg xs.clientIdx xs.id) f) (hi : v.xdg i = some xs)
    (hsurf : xs.surfaceId = surface) (hc : xs.clientIdx = c)
    (hfresh : xs.conf.lastAckSerial ≠ st.nextSerial.1) :
    (st.scheduleXdgConfigure c surface).roles.Ok := by
  have hfind : st.findXdgSurfaceBySurface surface = some (i, xs) := by
    change findEntry st.roles.xdg _ _ = _
    rw [hst]
    exact hv.find_xdgBySurface hi hsurf
  have hkept := (hv.xdg i xs hi).2
  by_cases hwait : xs.conf.initialCommitSeen = false ∨ xs.conf.outstanding = true
  · rw [roles_schedule_wait hfind hwait, hst, WlRoles.setXdg_offer]
    exact hv.changeXdg hi ((hf _ _ hkept.defer).2 rfl)
  · rw [not_or, Bool.not_eq_false, Bool.not_eq_true] at hwait
    obtain ⟨hseen, hout⟩ := hwait
    rw [roles_schedule_send hfind hseen hout, hst, WlRoles.setXdg_offer, ← hc, WlRoles.offer_offer]
    have hsound := (hf _ _ hkept).1
    refine hv.changeXdg hi (hsound.sent hseen ?_ nextSerial_ne_zero hfresh)
    exact (WlConfigure.outstanding_eq_false hsound).1 hout

theorem ok_commitXdg (hst : st.roles.Ok)
    (howns : ∀ i xs, st.xdgSurfaces i = some xs → xs.surfaceId = surface → xs.clientIdx = c)
    (hfresh : st.Unused st.nextSerial.1) : (st.commitXdg c surface).roles.Ok := by
  unfold commitXdg
  cases hfind : st.findXdgSurfaceBySurface surface with
  | none => exact hst
  | some p =>
    obtain ⟨i, xs⟩ := p
    obtain ⟨-, hi, hsurf⟩ := findEntry_eq_some hfind
    have hc : xs.clientIdx = c := howns i xs hi hsurf
    have hack : xs.conf.lastAckSerial ≠ st.nextSerial.1 := (hfresh.xdg i xs hi).2
    by_cases hseen : xs.conf.initialCommitSeen = true
    · simp only [hseen, Bool.not_true, Bool.false_eq_true, if_false]
      split_ifs
      · exact ok_schedule hst asks_id (WlRoles.offer_id _).symm hi hsurf hc hack
      · exact hst
    · rw [Bool.not_eq_true] at hseen
      simp only [hseen, Bool.not_false, if_true]
      rw [if_pos (.inl rfl)]
      -- the first commit leaves a configure pending
      have hfirst := hst.changeXdg hi (f := id) (hst.xdg i xs hi).2.commitSeen
      rw [WlRoles.offer_id] at hfirst
      refine ok_schedule hfirst asks_id ?_
        (WlRoles.setXdg_self (some { xs with conf := xs.conf.commitSeen })) hsurf hc ?_
      · rw [WlRoles.offer_id, roles_send]
        rfl
      · exact fun he => hack (he.trans (nextSerial_congr rfl))

theorem ok_ackXdg (hv : v.Ok) (hst : st.roles = v.offer (.xdg c obj) fun o => o.ack s)
    (howns : ∀ i xs, v.xdg i = some xs → xs.id = obj → xs.clientIdx = c)
    (hs : ∀ i xs, v.xdg i = some xs → xs.id = obj → xs.conf.lastConfigureSerial = s ∧ s ≠ 0)
    (hfresh : st.Unused st.nextSerial.1) : (st.ackXdg c obj s).roles.Ok := by
  have hfindeq : st.findXdgSurface obj = findEntry v.xdg (fun xs => xs.id = obj) wl7MaxSurfaces := by
    change findEntry st.roles.xdg _ _ = _
    rw [hst]
    rfl
  unfold ackXdg
  cases hfind : st.findXdgSurface obj with
  | none =>
    dsimp only
    rw [hst]
    exact hv.offer_xdg fun i xs hi he => hv.not_xdg (hfindeq.symm.trans hfind) hi he.2
  | some p =>
    obtain ⟨i, xs⟩ := p
    rw [hfindeq] at hfind
    obtain ⟨-, hi, hid⟩ := findEntry_eq_some hfind
    obtain ⟨hlast, hne⟩ := hs i xs hi hid
    have hc : xs.clientIdx = c := howns i xs hi hid
    have hkept := (hv.xdg i xs hi).2
    have hsound : (xs.conf.ackedXdg s).Sound ((v.offers (.xdg xs.clientIdx xs.id)).ack s) :=
      hkept.toSound.acked hlast hne
    dsimp only
    rw [roles_ackToplevel]
    by_cases hp : xs.conf.configurePending = true
    · rw [if_pos ⟨hp, hlast.symm⟩]
      -- the shell surface is found again, and nothing waits now
      have hset : (st.setXdgSurface i (some { xs with conf := xs.conf.ackedXdg s })).roles =
          (v.setXdg i (some { xs with conf := xs.conf.ackedXdg s })).offer
            (.xdg xs.clientIdx xs.id) fun o => o.ack s := by
        rw [(faces_setXdgSurface ..).2.1, hst, hc, hid, WlRoles.setXdg_offer]
      have hfind' : (st.setXdgSurface i
          (some { xs with conf := xs.conf.ackedXdg s })).findXdgSurfaceBySurface xs.surfaceId =
            some (i, { xs with conf := xs.conf.ackedXdg s }) := by
        change findEntry (st.setXdgSurface i _).roles.xdg _ _ = _
        rw [hset]
        refine findEntry_eq (hv.xdg i xs hi).1 (update_self _ _ _) (by simp)
          fun j _ ys hj hy => ?_
        by_contra hji
        change update v.xdg i _ j = some ys at hj
        rw [update_of_ne hji] at hj
        exact hji (hv.xdgOnly j i ys xs hj hi (.inr hy))
      have hseen : xs.conf.initialCommitSeen = true := hkept.seen (hlast ▸ hne)
      have hout : (xs.conf.ackedXdg s).outstanding = false := by
        rw [WlConfigure.outstanding_eq_false hsound]
        exact hlast.symm
      rw [roles_schedule_send hfind' hseen hout, hset, WlRoles.setXdg_offer, WlRoles.setXdg_setXdg,
        ← hc, WlRoles.offer_offer]
      have hthere : st.xdgSurfaces i = some xs := by
        change st.roles.xdg i = _
        rw [hst]
        exact hi
      have hun : s ≠ st.nextSerial.1 := hlast ▸ (hfresh.xdg i xs hthere).1
      have hun' : s ≠ (st.setXdgSurface i
          (some { xs with conf := xs.conf.ackedXdg s })).nextSerial.1 :=
        fun he => hun (he.trans (nextSerial_congr rfl))
      have hsent := hv.changeXdg hi (f := fun o => (o.ack s).send _)
        (hsound.sent hseen hlast.symm nextSerial_ne_zero hun')
      exact hsent
    · rw [if_neg fun h => hp h.1, (faces_setXdgSurface ..).2.1, hst, ← hc, ← hid, WlRoles.setXdg_offer]
      rw [Bool.not_eq_true] at hp
      exact hv.changeXdg hi (hsound.kept (hkept.not_owed hp))

theorem top_of_toplevel {j : ℕ} {tl : WlXdgToplevel} (hj : st.xdgToplevels j = some tl) :
    st.roles.top j = some tl.top := by
  change (st.xdgToplevels j).map _ = _
  rw [hj]
  rfl

theorem find_toplevel_none (hv : v.Ok) (htop : st.roles.top = v.top)
    (hnone : st.findXdgToplevel obj = none) {j : ℕ} (ht : v.top j = some t) : t.id ≠ obj := by
  intro hid
  rw [← htop] at ht
  obtain ⟨tl, htl, rfl⟩ := map_eq_some_iff.1 ht
  have hlt := (hv.topLt j tl.top (by rw [← htop]; exact ht)).1
  exact findEntry_eq_none.1 hnone j hlt tl htl hid

theorem ok_setActivated (hv : v.Ok) {a : Bool}
    (hst : st.roles = (v.shellOf (c, obj)).elim v fun id => v.offer (.xdg c id) .need)
    (hobj : obj ≠ 0) (howns : ∀ j t, v.top j = some t → t.id = obj → t.clientIdx = c)
    (hfresh : st.Unused st.nextSerial.1) : (st.setActivated c obj a).roles.Ok := by
  have htop : st.roles.top = v.top := by
    rw [hst]
    cases v.shellOf (c, obj) <;> rfl
  unfold setActivated
  cases hfind : st.findXdgToplevel obj with
  | none =>
    dsimp only
    rw [hst]
    cases hof : v.shellOf (c, obj) with
    | none => exact hv
    | some id =>
      refine hv.offer_xdg fun i xs hi he => ?_
      obtain ⟨j, t, ht, htid, -⟩ := hv.shell c obj hobj i xs hi he.1 (by rw [hof, he.2])
      exact find_toplevel_none hv htop hfind ht htid
  | some p =>
    obtain ⟨j, tl⟩ := p
    obtain ⟨-, hj, hid⟩ := findEntry_eq_some hfind
    have ht : v.top j = some tl.top := htop ▸ top_of_toplevel hj
    have hc : tl.clientIdx = c := howns j tl.top ht hid
    obtain ⟨i, xs, hi, hxid, hxc, hxs, -, hof⟩ := hv.top j tl.top ht (by rw [← hid] at hobj; exact hobj)
    have hof' : v.shellOf (c, obj) = some xs.id := by
      rw [← hc, ← hid, hxid]
      exact hof
    have hx : st.xdgSurfaces i = some xs := by
      change st.roles.xdg i = _
      rw [hst, hof']
      exact hi
    refine ok_schedule hv asks_need ?_ hi hxs (hxc.trans hc) fun he => ?_
    · refine (roles_setXdgToplevel_same hj (by rfl)).trans ?_
      rw [hst, hof', hxc]
      change _ = v.offer (.xdg tl.clientIdx xs.id) .need
      rw [hc]
      rfl
    · exact (hfresh.xdg i xs hx).2 (he.trans (nextSerial_congr rfl))

theorem ok_getToplevel (hv : v.Ok) {id : ℕ}
    (hst : st.roles =
      { v.offer (.xdg c obj) .need with shellOf := update v.shellOf (c, id) (some obj) })
    (howns : ∀ i xs, v.xdg i = some xs → xs.id = obj → xs.clientIdx = c)
    (hid : id ≠ 0) (hnew : ∀ j t, v.top j = some t → t.id ≠ id)
    (hone : ∀ i xs, v.xdg i = some xs → xs.id = obj →
      xs.toplevelId = 0 ∧ freeSlot st.xdgToplevels wl7MaxSurfaces ≠ none)
    (hfresh : st.Unused st.nextSerial.1) : (st.getToplevel c obj id).roles.Ok := by
  have hxdg : st.roles.xdg = v.xdg := by rw [hst]; rfl
  have htop : st.roles.top = v.top := by rw [hst]; rfl
  -- a shell surface that is not there has no history to keep
  have hdead : (∀ i xs, v.xdg i = some xs → xs.id ≠ obj) → st.roles.Ok := by
    intro hnone
    rw [hst]
    have hoff : (v.offer (.xdg c obj) .need).Ok :=
      hv.offer_xdg fun i xs hi he => hnone i xs hi he.2
    exact hoff.setShell hnew fun i xs hi he => hnone i xs hi (some.inj he).symm
  unfold getToplevel
  cases hfree : freeSlot st.xdgToplevels wl7MaxSurfaces with
  | none => exact hdead fun i xs hi hxid => (hone i xs hi hxid).2 hfree
  | some j =>
    obtain ⟨hj, hnone⟩ := freeSlot_eq_some hfree
    have htopj : st.roles.top j = none := by
      change (st.xdgToplevels j).map _ = _
      rw [hnone]
      rfl
    cases hfind : st.findXdgSurface obj with
    | none =>
      dsimp only
      rw [roles_setXdgToplevel]
      refine (hdead fun i xs hi => ?_).idleTop htopj hj
      exact hv.not_xdg (p := fun xs => xs.id = obj) (by rw [← hxdg]; exact hfind) hi
    | some q =>
      obtain ⟨i, xs⟩ := q
      obtain ⟨-, hi, hxid⟩ := findEntry_eq_some hfind
      have hix : v.xdg i = some xs := by
        rw [← hxdg]
        exact hi
      have hc : xs.clientIdx = c := howns i xs hix hxid
      have hnewtop := hv.newTop hix (hone i xs hix hxid).1 (htop ▸ htopj) hj hid hnew
      refine ok_schedule hnewtop asks_need ?_
        (WlRoles.setXdg_self (some { xs with toplevelId := id })) rfl hc fun he => ?_
      · rw [(faces_metaSet ..).2.1, (faces_setXdgSurface ..).2.1, roles_setXdgToplevel, hst, ← hc, ← hxid]
        rfl
      · refine (hfresh.xdg i xs hi).2 (he.trans (nextSerial_congr ?_))
        exact serial_metaSet _ _ _ _ _

theorem ok_getXdgSurface (hv : v.Ok) {id : ℕ}
    (hst : st.roles =
      { v.offer (.xdg c id) fun _ => .start with
        shellOf := fun a => if a.1 = c ∧ v.shellOf a = some id then none else v.shellOf a })
    (hnew : ∀ i xs, v.xdg i = some xs → xs.id ≠ id ∧ xs.surfaceId ≠ surface) :
    (st.getXdgSurface c id surface).roles.Ok := by
  have hsub : ∀ a x, (if a.1 = c ∧ v.shellOf a = some id then none else v.shellOf a) = some x →
      v.shellOf a = some x := by
    intro a x hx
    split_ifs at hx
    exact hx
  have hshell : ∀ a, v.shellOf a ≠ some id →
      (if a.1 = c ∧ v.shellOf a = some id then none else v.shellOf a) = v.shellOf a :=
    fun a ha => if_neg fun h => ha h.2
  have hold : ∀ a, (if (c, a).1 = c ∧ v.shellOf (c, a) = some id then none
      else v.shellOf (c, a)) ≠ some id := by
    intro a
    split_ifs with h
    · exact some_ne_none id |>.symm
    · exact fun he => h ⟨rfl, he⟩
  have hxdg : st.roles.xdg = v.xdg := by rw [hst]; rfl
  unfold getXdgSurface
  cases hfree : freeSlot st.xdgSurfaces wl7MaxSurfaces with
  | none =>
    dsimp only
    rw [hst]
    have hoff : (v.offer (.xdg c id) fun _ => .start).Ok :=
      hv.offer_xdg fun i xs hi he => (hnew i xs hi).1 he.2
    refine { hoff with
      top := fun j t hj hne => ?_
      shell := fun c' id' hne i xs hi hc hof => hoff.shell c' id' hne i xs hi hc (hsub _ _ hof) }
    obtain ⟨i, xs, hi, hxid, hc, hs, htl, hof⟩ := hoff.top j t hj hne
    refine ⟨i, xs, hi, hxid, hc, hs, htl, (hshell _ ?_).trans hof⟩
    intro he
    have hid : t.xdgSurfaceId = id := some.inj (hof.symm.trans he)
    exact (hnew i xs hi).1 (hxid.trans hid)
  | some i =>
    obtain ⟨hi, hnone⟩ := freeSlot_eq_some hfree
    have hiv : v.xdg i = none := by
      rw [← hxdg]
      exact hnone
    dsimp only
    rw [(faces_metaSet ..).2.1, (faces_setXdgSurface ..).2.1, hst]
    exact hv.newXdg hiv hi hnew hshell hsub hold

theorem top_drop {j : Option ℕ} {top : ℕ → Option WlTop}
    (hdrop : top = j.elim v.top fun j => update v.top j none) :
    (∀ k t, top k = some t → v.top k = some t ∧ j ≠ some k) ∧
      ∀ k t, v.top k = some t → j ≠ some k → top k = some t := by
  subst hdrop
  cases j with
  | none => exact ⟨fun k t hk => ⟨hk, by simp⟩, fun k t hk _ => hk⟩
  | some j =>
    refine ⟨fun k t hk => ?_, fun k t hk hne => ?_⟩
    · obtain ⟨hkj, hk⟩ := update_none_cases hk
      exact ⟨hk, fun he => hkj (some.inj he).symm⟩
    · have hkj : k ≠ j := fun he => hne (by rw [he])
      exact entry_update hk hkj

theorem ok_dropXdg (hv : v.Ok) (hi : v.xdg i = some xs) {j : Option ℕ}
    (hj : ∀ k t, v.top k = some t → t.id ≠ 0 → (t.xdgSurfaceId = xs.id ↔ j = some k)) :
    { v.setXdg i none with top := j.elim v.top fun j => update v.top j none }.Ok := by
  obtain ⟨hsub, hkeep⟩ := top_drop (v := v) (j := j) rfl
  refine hv.dropXdg hi (fun k t hk => (hsub k t hk).1) (fun k t hk hne he => ?_)
    fun k t hk hne he => hkeep k t hk fun hjk => he ((hj k t hk hne).2 hjk)
  obtain ⟨hk', hne'⟩ := hsub k t hk
  exact hne' ((hj k t hk' hne).1 he)

theorem own_top (hv : v.Ok) (hi : v.xdg i = some xs) {k : ℕ} (hk : v.top k = some t) (hne : t.id ≠ 0) :
    (t.xdgSurfaceId = xs.id ↔ t.id = xs.toplevelId) ∧
      (t.xdgSurfaceId = xs.id ↔ t.surfaceId = xs.surfaceId) := by
  obtain ⟨i', xs', hi', hxid, -, hxs, htl, -⟩ := hv.top k t hk hne
  have hsame : i' = i → xs' = xs := by
    rintro rfl
    exact some.inj (hi'.symm.trans hi)
  have hfwd : t.xdgSurfaceId = xs.id → xs' = xs := fun he =>
    hsame (hv.xdgOnly i' i xs' xs hi' hi (.inl (hxid.trans he)))
  refine ⟨⟨fun he => ?_, fun he => ?_⟩, fun he => ?_, fun he => ?_⟩
  · rw [← htl, hfwd he]
  · obtain ⟨k', t', hk', htid, hown⟩ := hv.owned i xs hi (he ▸ hne)
    have hkk : k = k' := hv.topOnly k k' t t' hk hk' hne (he.trans htid.symm)
    subst hkk
    obtain rfl := some.inj (hk.symm.trans hk')
    exact hown
  · rw [← hxs, hfwd he]
  · rw [← hxid, hsame (hv.xdgOnly i' i xs' xs hi' hi (.inr (hxs.trans he)))]

theorem ok_destroyXdgSurface (hst : st.roles.Ok) : (st.destroyXdgSurface c obj).roles.Ok := by
  unfold destroyXdgSurface
  rw [(faces_metaDrop ..).2.1]
  split
  · exact hst
  next i xs hfind =>
    obtain ⟨-, hi, -⟩ := findEntry_eq_some hfind
    dsimp only
    rw [(faces_setXdgSurface ..).2.1]
    split_ifs with hzero
    · refine ok_dropXdg hst hi (j := none) fun k t hk hne => ?_
      rw [(own_top hst hi hk hne).1, hzero]
      simp [hne]
    · split
      next hnone =>
        refine ok_dropXdg hst hi (j := none) fun k t hk hne => ?_
        rw [(own_top hst hi hk hne).1]
        simp [find_toplevel_none hst rfl hnone hk]
      next j tl htl =>
        obtain ⟨-, hj, hid⟩ := findEntry_eq_some htl
        rw [roles_setXdgToplevel, (faces_metaDrop ..).2.1]
        refine ok_dropXdg hst hi (j := some j) fun k t hk hne => ?_
        rw [(own_top hst hi hk hne).1, ← hid]
        constructor
        · intro he
          exact congrArg some (hst.topOnly k j t tl.top hk (top_of_toplevel hj) hne he).symm
        · intro he
          obtain rfl := some.inj he
          rw [top_of_toplevel hj] at hk
          exact congrArg WlTop.id (some.inj hk).symm

theorem ok_destroyToplevel (hv : v.Ok)
    (hst : st.roles = { v with shellOf := update v.shellOf (c, obj) none }) (hobj : obj ≠ 0)
    (howns : ∀ j t, v.top j = some t → t.id = obj → t.clientIdx = c) :
    (st.destroyToplevel c obj).roles.Ok := by
  have hxdg : st.roles.xdg = v.xdg := by rw [hst]
  have htop : st.roles.top = v.top := by rw [hst]
  unfold destroyToplevel
  split
  next hnone =>
    rw [hst]
    exact hv.setShell (fun j t ht => find_toplevel_none hv htop hnone ht) fun _ _ _ he => by cases he
  next j tl hfind =>
    obtain ⟨-, hj, hid⟩ := findEntry_eq_some hfind
    have ht : v.top j = some tl.top := htop ▸ top_of_toplevel hj
    have hne : tl.top.id ≠ 0 := by
      rw [← hid] at hobj
      exact hobj
    have hc : tl.top.clientIdx = c := howns j tl.top ht hid
    obtain ⟨i, xs, hi, hxid, -⟩ := hv.top j tl.top ht hne
    have hfindx : st.findXdgSurface tl.xdgSurfaceId = some (i, xs) := by
      change findEntry st.roles.xdg _ _ = _
      rw [hxdg]
      exact hv.find_xdg hi hxid
    dsimp only
    rw [hfindx]
    dsimp only
    rw [(faces_metaDrop ..).2.1, roles_setXdgToplevel, (faces_setXdgSurface ..).2.1, hst, ← hc, ← hid]
    exact hv.dropTop ht hne hi hxid

theorem ok_dropSurfaceRelated (hst : st.roles.Ok) (hsurf : surface ≠ 0) :
    (st.dropSurfaceRelated c surface).roles.Ok := by
  have hcallbacks : ∀ s : Wl7,
      ((List.range wl7MaxCallbacks).foldl (fun s i => dropCallback s c surface i) s).roles = s.roles :=
    fun s => foldl_same (fun s i => (s.faces_dropCallback c i surface).1) _ s
  -- the layer surface goes last
  have hlayer : ∀ s : Wl7, s.roles.Ok → (s.dropLayerOf c surface).roles.Ok := by
    intro s hs
    unfold dropLayerOf
    split
    · exact hs
    · rw [(faces_setLayerSurface ..).2.1, (faces_metaDrop ..).2.1]
      exact hs.dropLayer _
  unfold dropSurfaceRelated
  dsimp only
  rw [hcallbacks]
  apply hlayer
  cases hfind : st.findXdgSurfaceBySurface surface with
  | none =>
    -- a toplevel would stand with its shell surface
    have hnone : st.findXdgToplevelBySurface surface = none := by
      refine findEntry_eq_none.2 fun j _ tl hj => ?_
      intro hs
      have htl := top_of_toplevel hj
      have hne : tl.top.id ≠ 0 := fun h0 => hsurf (hs.symm.trans ((hst.topLt j _ htl).2 h0))
      obtain ⟨i, xs, hi, -, -, hxs, -⟩ := hst.top j tl.top htl hne
      exact hst.not_xdg (p := fun xs => xs.surfaceId = surface) hfind hi (hxs.trans hs)
    dsimp only
    rw [hnone]
    exact hst
  | some p =>
    obtain ⟨i, xs⟩ := p
    obtain ⟨-, hi, hxs⟩ := findEntry_eq_some hfind
    have hown : ∀ k t, st.roles.top k = some t → t.id ≠ 0 →
        (t.xdgSurfaceId = xs.id ↔ t.surfaceId = surface) := by
      intro k t hk hne
      rw [(own_top hst hi hk hne).2, hxs]
    dsimp only
    split
    next hnone =>
      refine ok_dropXdg hst hi (j := none) fun k t hk hne => ?_
      rw [hown k t hk hne]
      obtain ⟨tl, htl, rfl⟩ := map_eq_some_iff.1 hk
      have := findEntry_eq_none.1 hnone k (hst.topLt k _ hk).1 tl htl
      exact ⟨fun he => absurd he this, fun he => by cases he⟩
    next j tl htl =>
      obtain ⟨-, hj, hs⟩ := findEntry_eq_some htl
      have hjt := top_of_toplevel hj
      change st.roles.top j = _ at hjt
      have hjne : tl.top.id ≠ 0 := fun h0 => hsurf (hs.symm.trans ((hst.topLt j _ hjt).2 h0))
      rw [roles_setXdgToplevel, (faces_setXdgSurface ..).2.1]
      refine ok_dropXdg hst hi (j := some j) fun k t hk hne => ?_
      constructor
      · intro he
        have hj' : tl.top.xdgSurfaceId = xs.id := (hown j _ hjt hjne).2 hs
        have hsame : t.id = tl.top.id :=
          ((own_top hst hi hk hne).1.1 he).trans ((own_top hst hi hjt hjne).1.1 hj').symm
        exact congrArg some (hst.topOnly k j t tl.top hk hjt hne hsame).symm
      · intro he
        obtain rfl := some.inj he
        rw [hjt] at hk
        obtain rfl := some.inj hk
        exact (hown _ _ hjt hjne).2 hs

theorem ok_destroySurface (hst : st.roles.Ok) (hobj : obj ≠ 0) :
    (st.destroySurface c obj).roles.Ok := by
  unfold destroySurface
  split
  · exact hst
  next i s hfind =>
    obtain ⟨-, -, hid⟩ := findEntry_eq_some hfind
    dsimp only
    rw [(faces_metaDrop ..).2.1, roles_setSurface, (faces_clearDamage ..).2.1]
    refine ok_dropSurfaceRelated ?_ (hid ▸ hobj)
    rw [(faces_releaseSurfaceBuffers ..).2, roles_send]
    exact hst

theorem roles_setWindowGeometry (x y w h : BitVec 32) :
    (st.setWindowGeometry obj x y w h).roles = st.roles := by
  unfold setWindowGeometry
  split
  · rfl
  next i xs hfind =>
    dsimp only
    split
    next hnone => exact (faces_moveSurface ..).2.1
    next j tl htl =>
      have hj : (st.moveSurface xs.surfaceId x y).xdgToplevels j = some tl := (findEntry_eq_some htl).2.1
      split_ifs
      · exact (roles_setXdgToplevel_same hj (by rfl)).trans (faces_moveSurface ..).2.1
      · exact (faces_moveSurface ..).2.1

/-! ### Layer surfaces -/

theorem ok_maybeSend (hv : v.Ok) (b : Option WlBuffer)
    (hst : st.roles = v) (hi : v.layer i = some ls) (hc : ls.clientIdx = c)
    (hseen : ls.conf.initialCommitSeen = true)
    (hfresh : ls.conf.lastAckSerial ≠ st.nextSerial.1) :
    (st.maybeSendLayerConfigure c i ls b).roles.Ok := by
  subst hst
  have hkept := (hv.layer i ls hi).2
  by_cases hout : ls.conf.outstanding = true
  · rw [roles_maybeSend_wait b hout]
    have hdefer := hv.changeLayerConf hi (f := id) hkept.defer
    rw [WlRoles.offer_id] at hdefer
    exact hdefer
  · rw [Bool.not_eq_true] at hout
    by_cases hid : ls.id = 0
    · rw [roles_maybeSend_zero b hout hid]
      exact hv
    · rw [roles_maybeSend_send b hout hid, ← hc]
      refine hv.changeLayerConf hi (hkept.toSound.sent hseen ?_ nextSerial_ne_zero hfresh)
      exact (WlConfigure.outstanding_eq_false hkept.toSound).1 hout

theorem ok_commitLayer (hst : st.roles.Ok) (b : Option WlBuffer)
    (howns : ∀ i ls, st.layerSurfaces i = some ls → ls.surfaceId = surface → ls.clientIdx = c)
    (hfresh : ∀ i ls, st.layerSurfaces i = some ls → ls.conf.lastAckSerial ≠ st.nextSerial.1) :
    (st.commitLayer c surface b).roles.Ok := by
  unfold commitLayer
  cases hfind : st.findLayerSurfaceBySurface surface with
  | none => exact hst
  | some p =>
    obtain ⟨i, ls⟩ := p
    obtain ⟨-, hi, hsurf⟩ := findEntry_eq_some hfind
    have hc : ls.clientIdx = c := howns i ls hi hsurf
    have hack := hfresh i ls hi
    by_cases hseen : ls.conf.initialCommitSeen = true
    · simp only [hseen, Bool.not_true, Bool.false_eq_true, if_false]
      split_ifs
      · exact ok_maybeSend hst b rfl hi hc hseen hack
      · exact hst
    · rw [Bool.not_eq_true] at hseen
      simp only [hseen, Bool.not_false, if_true]
      rw [if_pos (.inl rfl)]
      have hfirst := hst.changeLayerConf hi (f := id) (hst.layer i ls hi).2.commitSeen
      rw [WlRoles.offer_id] at hfirst
      refine ok_maybeSend hfirst b ?_
        (WlRoles.setLayer_self (some { ls with conf := ls.conf.commitSeen })) hc rfl ?_
      · rw [roles_send]
        rfl
      · exact fun he => hack (he.trans (nextSerial_congr rfl))

theorem ok_layerNone (hv : v.Ok) (hst : st.roles = v.offer (.layer c obj) f)
    (hfind : st.findLayerSurface obj = none) : st.roles.Ok := by
  rw [hst]
  refine hv.offer_layer fun i ls hi he => ?_
  have hi' : st.roles.layer i = some ls := by rw [hst]; exact hi
  exact findEntry_eq_none.1 hfind i (hv.layer i ls hi).1 ls hi' he.2

theorem ok_ackLayer (hv : v.Ok) (hst : st.roles = v.offer (.layer c obj) fun o => o.ack s)
    (howns : ∀ i ls, v.layer i = some ls → ls.id = obj → ls.clientIdx = c)
    (hs : ∀ i ls, v.layer i = some ls → ls.id = obj → ls.conf.lastConfigureSerial = s ∧ s ≠ 0)
    (hobj : obj ≠ 0) (hfresh : st.Unused st.nextSerial.1) : (st.ackLayer c obj s).roles.Ok := by
  have hlayer : st.roles.layer = v.layer := by rw [hst]; rfl
  unfold ackLayer
  cases hfind : st.findLayerSurface obj with
  | none =>
    exact ok_layerNone hv hst hfind
  | some p =>
    obtain ⟨i, ls⟩ := p
    obtain ⟨-, hi, hid⟩ := findEntry_eq_some hfind
    have hiv : v.layer i = some ls := by
      rw [← hlayer]
      exact hi
    obtain ⟨hlast, hne⟩ := hs i ls hiv hid
    have hc : ls.clientIdx = c := howns i ls hiv hid
    have hkept := (hv.layer i ls hiv).2
    have hsound : (ls.conf.ackedLayer s).Sound ((v.offers (.layer ls.clientIdx ls.id)).ack s) :=
      hkept.toSound.acked hlast hne
    have hset : (st.setLayerSurface i (some { ls with conf := ls.conf.ackedLayer s })).roles =
        (v.setLayer i (some { ls with conf := ls.conf.ackedLayer s })).offer
          (.layer ls.clientIdx ls.id) fun o => o.ack s := by
      rw [(faces_setLayerSurface ..).2.1, hst, hc, hid, WlRoles.setLayer_offer]
    have hconf : (ls.conf.ackedLayer s).configured = true := by
      simp [WlConfigure.ackedLayer, hlast]
    dsimp only
    by_cases hp : ls.conf.configurePending = true
    · rw [if_pos ⟨hp, hconf⟩]
      have hout : (ls.conf.ackedLayer s).outstanding = false := by
        rw [WlConfigure.outstanding_eq_false hsound]
        exact hlast.symm
      have hseen : ls.conf.initialCommitSeen = true := hkept.seen (hlast ▸ hne)
      have hun : s ≠ st.nextSerial.1 := hlast ▸ (hfresh.layer i ls hi).1
      have hun' : s ≠ (st.setLayerSurface i
          (some { ls with conf := ls.conf.ackedLayer s })).nextSerial.1 :=
        fun he => hun (he.trans (nextSerial_congr rfl))
      rw [roles_maybeSend_send none hout (hid ▸ hobj), hset, WlRoles.setLayer_offer,
        WlRoles.setLayer_setLayer, ← hc, WlRoles.offer_offer]
      have hsent := hv.changeLayerConf hiv (f := fun o => (o.ack s).send _)
        (hsound.sent hseen hlast.symm nextSerial_ne_zero hun')
      exact hsent
    · rw [if_neg fun h => hp h.1, hset]
      rw [Bool.not_eq_true] at hp
      exact hv.changeLayerConf hiv (hsound.kept (hkept.not_owed hp))

theorem ok_changeLayer (hv : v.Ok) {g : WlLayerSurface → WlLayerSurface}
    (hst : st.roles = v.offer (.layer c obj) f)
    (howns : ∀ i ls, v.layer i = some ls → ls.id = obj → ls.clientIdx = c)
    (hk : ∀ ls o, ls.conf.Kept o → (g ls).conf.Kept (f o))
    (hid : ∀ ls, (g ls).id = ls.id := by exact fun _ => rfl)
    (hc : ∀ ls, (g ls).clientIdx = ls.clientIdx := by exact fun _ => rfl)
    (hs : ∀ ls, (g ls).surfaceId = ls.surfaceId := by exact fun _ => rfl) :
    (st.changeLayer obj g).roles.Ok := by
  have hlayer : st.roles.layer = v.layer := by rw [hst]; rfl
  unfold changeLayer
  cases hfind : st.findLayerSurface obj with
  | none =>
    exact ok_layerNone hv hst hfind
  | some p =>
    obtain ⟨i, ls⟩ := p
    obtain ⟨-, hi, hobj⟩ := findEntry_eq_some hfind
    have hiv : v.layer i = some ls := by
      rw [← hlayer]
      exact hi
    dsimp only
    rw [(faces_setLayerSurface ..).2.1, hst, ← howns i ls hiv hobj, ← hobj, WlRoles.setLayer_offer]
    exact hv.changeLayer hiv (hid ls) (hc ls) (hs ls) (hk ls _ (hv.layer i ls hiv).2)

theorem ok_getLayerSurface (hv : v.Ok) {id output layer : ℕ}
    (hst : st.roles = v.offer (.layer c id) fun _ => .start)
    (hnew : ∀ i ls, v.layer i = some ls → ls.id ≠ id ∧ ls.surfaceId ≠ surface) :
    (st.getLayerSurface c id surface output layer).roles.Ok := by
  unfold getLayerSurface
  split
  next i _ hfree =>
    obtain ⟨hi, -⟩ := freeSlot_eq_some hfree
    dsimp only
    rw [(faces_markDamage ..).2.1, (faces_metaSet ..).2.1, (faces_setLayerSurface ..).2.1, hst, WlRoles.setLayer_offer]
    exact hv.newLayer hi rfl hnew
  next =>
    rw [hst]
    exact hv.offer_layer fun i ls hi he => (hnew i ls hi).1 he.2

theorem ok_destroyLayerSurface (hst : st.roles.Ok) : (st.destroyLayerSurface c obj).roles.Ok := by
  unfold destroyLayerSurface
  split
  · exact hst
  · dsimp only
    rw [(faces_metaDrop ..).2.1, (faces_setLayerSurface ..).2.1]
    split
    · exact hst.dropLayer _
    · exact hst.dropLayer _

/-! ### All requests -/

theorem serial_sendToplevelConfigure (n : ℕ) :
    (st.sendToplevelConfigure c n xs).serial = st.serial := by
  unfold sendToplevelConfigure
  split_ifs
  · rfl
  · split <;> rfl

theorem serial_schedule : (st.scheduleXdgConfigure c surface).serial = st.serial ∨
    (st.scheduleXdgConfigure c surface).serial = st.nextSerial.2.serial := by
  unfold scheduleXdgConfigure
  split
  · exact .inl rfl
  · split_ifs
    · exact .inl rfl
    · exact .inl rfl
    · exact .inr (serial_sendToplevelConfigure _)

theorem serial_commitXdg (st : Wl7) (c surface : ℕ) :
    (st.commitXdg c surface).serial = st.serial ∨
      (st.commitXdg c surface).serial = st.nextSerial.2.serial := by
  unfold commitXdg
  split
  · exact .inl rfl
  · dsimp only
    split_ifs
    · exact serial_schedule.imp (fun h => h.trans rfl) fun h =>
        h.trans (serial_nextSerial_congr rfl)
    · exact .inl rfl
    · exact serial_schedule
    · exact .inl rfl

theorem layer_schedule :
    (st.scheduleXdgConfigure c surface).layerSurfaces = st.layerSurfaces := by
  have htop : ∀ (s : Wl7) n xs, (s.sendToplevelConfigure c n xs).layerSurfaces = s.layerSurfaces := by
    intro s n xs
    exact congrArg WlRoles.layer (roles_sendToplevelConfigure n)
  unfold scheduleXdgConfigure
  split
  · rfl
  · split_ifs
    · rfl
    · rfl
    · refine (htop _ _ _).trans ?_
      change st.nextSerial.2.roles.layer = st.roles.layer
      rw [(faces_nextSerial ..).2.1]

theorem layer_commitXdg : (st.commitXdg c surface).layerSurfaces = st.layerSurfaces := by
  unfold commitXdg
  split
  · rfl
  · dsimp only
    split_ifs
    · exact layer_schedule
    · rfl
    · exact layer_schedule
    · rfl

theorem ok_commit (hst : st.roles.Ok) (howns : st.Owns c obj) (hfresh : st.SerialsFresh) :
    (st.commit c obj).roles.Ok := by
  unfold commit
  cases hfind : st.findSurface obj with
  | none => exact hst
  | some p =>
    obtain ⟨i, s⟩ := p
    obtain ⟨-, -, hid⟩ := findEntry_eq_some hfind
    have hroles : ∀ b, (st.commitBuffer i s b).roles = st.roles := fun b => st.roles_commitBuffer i s b
    have hserial : ∀ b, (st.commitBuffer i s b).serial = st.serial := by
      intro b
      unfold commitBuffer
      cases b <;> rfl
    have hxdg : ∀ b, ((st.commitBuffer i s b).commitXdg c s.id).roles.Ok := by
      intro b
      refine ok_commitXdg (hroles b ▸ hst) (fun k xs hk hs => ?_) ?_
      · have hk' : st.roles.xdg k = some xs := hroles b ▸ hk
        exact howns.xdg k xs hk' (.inr (hs.trans hid))
      · rw [nextSerial_congr (hserial b)]
        have hun := hfresh.1
        exact ⟨fun k xs hk => hun.xdg k xs (by
          have hk' : st.roles.xdg k = some xs := hroles b ▸ hk
          exact hk'), fun k ls hk => hun.layer k ls (by
          have hk' : st.roles.layer k = some ls := hroles b ▸ hk
          exact hk')⟩
    have hlayer : ∀ b b', (((st.commitBuffer i s b).commitXdg c s.id).commitLayer c s.id b').roles.Ok := by
      intro b b'
      have hsame : ∀ k ls, ((st.commitBuffer i s b).commitXdg c s.id).layerSurfaces k = some ls →
          st.layerSurfaces k = some ls := by
        intro k ls hk
        rw [layer_commitXdg] at hk
        have hk' : st.roles.layer k = some ls := hroles b ▸ hk
        exact hk'
      refine ok_commitLayer (hxdg b) b' (fun k ls hk hs => ?_) fun k ls hk => ?_
      · exact howns.layer k ls (hsame k ls hk) (.inr (hs.trans hid))
      · rcases (st.commitBuffer i s b).serial_commitXdg c s.id with h | h
        · rw [nextSerial_congr (h.trans (hserial b))]
          exact (hfresh.1.layer k ls (hsame k ls hk)).2
        · rw [nextSerial_congr (h.trans (serial_nextSerial_congr (hserial b)))]
          exact (hfresh.2.layer k ls (hsame k ls hk)).2
    dsimp only
    split
    · rw [(faces_clearDamage ..).2.1]
      exact hlayer _ _
    · rw [roles_mapSurface]
      exact hlayer _ _

theorem roles_logRequest (st : Wl7) (c obj : ℕ) (r : WlReq) :
    (st.logRequest c obj r).roles =
      { st.roles with
        offers := (st.seen.request c obj r).offers
        shellOf := (st.seen.request c obj r).shellOf } := by
  unfold roles
  rw [seen_logRequest]
  rfl

theorem owns_logRequest (h : st.Owns c obj) : (st.logRequest c obj r).Owns c obj :=
  ⟨h.surface, h.callback, h.xdg, h.toplevel, h.layer⟩

theorem unused_logRequest {n : ℕ} (h : st.Unused n) : (st.logRequest c obj r).Unused n :=
  ⟨h.xdg, h.layer⟩

theorem serialsFresh_logRequest (h : st.SerialsFresh) : (st.logRequest c obj r).SerialsFresh := by
  have hserial : (st.logRequest c obj r).serial = st.serial := rfl
  unfold SerialsFresh
  rw [nextSerial_congr (serial_nextSerial_congr hserial), nextSerial_congr hserial]
  exact ⟨unused_logRequest h.1, unused_logRequest h.2⟩

theorem ok_request (hst : st.roles.Ok) {right : Option ℕ} (hobj : obj ≠ 0) (hfair : st.Fair c obj r) :
    (st.request c obj right r).roles.Ok := by
  obtain ⟨howns, hreq⟩ := hfair
  have hlog := st.roles_logRequest c obj r
  have htopOwn : ∀ j t, st.roles.top j = some t → t.id = obj → t.clientIdx = c := by
    intro j t ht hid
    obtain ⟨tl, htl, rfl⟩ := map_eq_some_iff.1 ht
    exact howns.toplevel j tl htl (.inl hid)
  have hxdgOwn : ∀ i xs, st.roles.xdg i = some xs → xs.id = obj → xs.clientIdx = c :=
    fun i xs hi hid => howns.xdg i xs hi (.inl hid)
  have hlayerOwn : ∀ i ls, st.roles.layer i = some ls → ls.id = obj → ls.clientIdx = c :=
    fun i ls hi hid => howns.layer i ls hi (.inl hid)
  unfold request
  cases r with
  | getXdgSurface id surface => exact ok_getXdgSurface hst hlog hreq
  | getLayerSurface id surface output layer => exact ok_getLayerSurface hst hlog hreq
  | getToplevel id =>
    obtain ⟨hid, hnew, hone, hfresh⟩ := hreq
    refine ok_getToplevel hst hlog hxdgOwn hid (fun j t ht => ?_) hone
      (serialsFresh_logRequest hfresh).1
    obtain ⟨tl, htl, rfl⟩ := map_eq_some_iff.1 ht
    exact hnew j tl htl
  | setActivated a =>
    refine ok_setActivated hst ?_ hobj htopOwn (serialsFresh_logRequest hreq).1
    rw [hlog]
    have hshell : st.roles.shellOf (c, obj) = st.seen.shellOf (c, obj) := rfl
    rw [hshell]
    unfold WlSeen.request
    dsimp only
    cases st.seen.shellOf (c, obj) <;> rfl
  | ackConfigure s =>
    exact ok_ackXdg hst hlog hxdgOwn hreq.1 (serialsFresh_logRequest hreq.2).1
  | ackLayerConfigure s =>
    exact ok_ackLayer hst hlog hlayerOwn hreq.1 hobj (serialsFresh_logRequest hreq.2).1
  | setSize w h =>
    exact ok_changeLayer hst hlog hlayerOwn fun ls o hk => hk.defer.need rfl
  | setAnchor a =>
    exact ok_changeLayer hst hlog hlayerOwn fun ls o hk => hk.defer.need rfl
  | setExclusiveZone z =>
    exact ok_changeLayer hst hlog hlayerOwn fun ls o hk => hk.defer.need rfl
  | setMargin t r b l =>
    exact ok_changeLayer hst hlog hlayerOwn fun ls o hk => hk.defer.need rfl
  | setLayer l =>
    exact ok_changeLayer hst hlog hlayerOwn fun ls o hk => hk.defer.need rfl
  | setKeyboardInteractivity m =>
    refine ok_changeLayer (f := id) hst ?_ hlayerOwn fun ls o hk => hk
    rw [WlRoles.offer_id]
    exact hlog
  | destroyToplevel => exact ok_destroyToplevel hst hlog hobj htopOwn
  | destroyXdgSurface => exact ok_destroyXdgSurface (hlog ▸ hst)
  | destroyLayerSurface => exact ok_destroyLayerSurface (hlog ▸ hst)
  | destroySurface => exact ok_destroySurface (hlog ▸ hst) hobj
  | commit => exact ok_commit (hlog ▸ hst) (owns_logRequest howns) (serialsFresh_logRequest hreq.2)
  | setWindowGeometry x y w h =>
    change ((st.logRequest c obj _).setWindowGeometry obj x y w h).roles.Ok
    rw [roles_setWindowGeometry, hlog]
    exact hst
  | _ =>
    simp only [exec, faces_sync, faces_metaSet, faces_bind, roles_createSurface, faces_createPool,
      faces_createBuffer, faces_destroyPool, faces_resizePool, faces_attach, faces_damageSurface,
      roles_frame, faces_destroyBuffer, faces_moveOrResize, roles_destroyCallback, faces_metaDrop, hlog]
    exact hst

end Wl7

end Ridux
