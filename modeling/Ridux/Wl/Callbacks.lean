import Ridux.Wl.Turns

/-!
# Frame callbacks are done once

Fair requests and ticks keep track of all frame callbacks.

* `WlFrames.Ok`: each callback that was committed is done, or waits for the next frame;
* `Wl7.framesOk_request`: a fair request keeps this;
* `Wl7.framesOk_finishTick`: the end of a tick does, and answers every callback that is due.
-/

namespace Ridux

open Lib Function List Option

namespace WlFrames

/-- Each frame callback belongs to its surface; the callbacks that were requested and not committed are
in the table and do not wait; and of those that were committed, the ones that are not done wait. -/
structure Ok (v : WlFrames) : Prop where
  surfaceLt : ∀ i s, v.surfaces i = some s → i < wl7MaxSurfaces
  surfaceOnly : ∀ i j s t, v.surfaces i = some s → v.surfaces j = some t → s.id = t.id → i = j
  surface : ∀ j s, v.surfaces j = some s → s.frameCallbackId ≠ 0 →
    ∃ i cb, v.callbacks i = some cb ∧ cb.id = s.frameCallbackId ∧ cb.surfaceId = s.id ∧
      cb.clientIdx = s.clientIdx
  callbackLt : ∀ i cb, v.callbacks i = some cb →
    i < wl7MaxCallbacks ∧ cb.id ≠ 0 ∧ cb.surfaceId ≠ 0 ∧ v.clients cb.clientIdx = true
  callback : ∀ i cb, v.callbacks i = some cb → ∃ j s, v.surfaces j = some s ∧ s.id = cb.surfaceId ∧
    s.clientIdx = cb.clientIdx ∧ s.frameCallbackId = cb.id
  callbackOnly : ∀ i j cb cb', v.callbacks i = some cb → v.callbacks j = some cb' →
    cb.id = cb'.id → i = j
  requested : ∀ i cb, v.callbacks i = some cb →
    v.requested (cb.clientIdx, cb.surfaceId) = if cb.pending then [] else [cb.id]
  idle : ∀ c id, (∀ i cb, v.callbacks i = some cb → ¬(cb.clientIdx = c ∧ cb.surfaceId = id)) →
    v.requested (c, id) = []
  waiting : ∀ i cb, v.callbacks i = some cb → cb.pending = true →
    v.committed.count (cb.clientIdx, cb.id) = v.done.count (cb.clientIdx, cb.id) + 1
  settled : ∀ c k, (∀ i cb, v.callbacks i = some cb → cb.pending = true →
    ¬(cb.clientIdx = c ∧ cb.id = k)) → v.committed.count (c, k) = v.done.count (c, k)
  due : ∀ i cb, v.callbacks i = some cb → cb.pending = true →
    cb.dueMs = v.clock ∨ cb.dueMs = (v.clock + 16) % 2 ^ 32

/-- A callback that does not wait for this frame has had its surface committed since the commits `m`.
Between two ticks, which is when `calm` holds, no callback waits for this frame. -/
structure Recent (v : WlFrames) (calm : Prop) (m : List (ℕ × ℕ)) : Prop where
  le : ∀ a, m.count a ≤ v.commits.count a
  callback : ∀ i cb, v.callbacks i = some cb → cb.pending = true → cb.dueMs ≠ v.clock →
    m.count (cb.clientIdx, cb.surfaceId) < v.commits.count (cb.clientIdx, cb.surfaceId)
  calm : calm → ∀ i cb, v.callbacks i = some cb → cb.pending = true → cb.dueMs ≠ v.clock

theorem ext_callbacks {v w : WlFrames}
    (hrest : { v with callbacks := fun _ => none } = { w with callbacks := fun _ => none })
    (hcall : v.callbacks = w.callbacks) : v = w := by
  cases v
  cases w
  simp_all

/-- The callbacks of a surface of the client `c` go. -/
def dropCallbacks (v : WlFrames) (c id : ℕ) : WlFrames :=
  { v with
    callbacks := fun i =>
      if i < wl7MaxCallbacks ∧ (v.callbacks i).any (fun cb => cb.clientIdx = c ∧ cb.surfaceId = id) then
        none
      else v.callbacks i }

variable {v : WlFrames} {i j c id k : ℕ} {s : WlOwner} {cb : WlCallback} {m : List (ℕ × ℕ)} {calm : Prop}

theorem Ok.callback_of_surface (h : v.Ok) (hj : v.surfaces j = some s) (hi : v.callbacks i = some cb)
    (hs : cb.surfaceId = s.id) : s.clientIdx = cb.clientIdx ∧ s.frameCallbackId = cb.id := by
  obtain ⟨j', s', hj', hid, hc, hcb⟩ := h.callback i cb hi
  have hjj : j' = j := h.surfaceOnly j' j s' s hj' hj (hid.trans hs)
  subst hjj
  rw [hj] at hj'
  obtain rfl := some.inj hj'
  exact ⟨hc, hcb⟩

theorem Ok.no_callback (h : v.Ok) (hj : v.surfaces j = some s) (hs : s.frameCallbackId = 0)
    (hi : v.callbacks i = some cb) : cb.surfaceId ≠ s.id := by
  intro he
  obtain ⟨-, hcb⟩ := h.callback_of_surface hj hi he
  exact (h.callbackLt i cb hi).2.1 (hcb.symm.trans hs)

theorem Ok.find_callback (h : v.Ok) (hi : v.callbacks i = some cb) (hk : cb.id = k) :
    findEntry v.callbacks (fun cb => cb.id = k) wl7MaxCallbacks = some (i, cb) := by
  refine findEntry_eq (h.callbackLt i cb hi).1 hi hk fun j _ cb' hj hk' => ?_
  exact h.callbackOnly j i cb' cb hj hi (hk'.trans hk.symm)

/-! ### Surfaces come and go -/

theorem Ok.newSurface (h : v.Ok) (hfree : v.surfaces j = none) (hj : j < wl7MaxSurfaces)
    (hnew : ∀ i s, v.surfaces i = some s → s.id ≠ id) :
    (v.setSurface j (some ⟨id, c, 0⟩)).Ok := by
  refine { h with
    surfaceLt := fun i s hi => ?_
    surfaceOnly := apart_add h.surfaceOnly (fun _ _ => Eq.symm) hnew
    surface := fun i s hi hne => ?_
    callback := fun i cb hi => ?_ }
  · rcases update_some_cases hi with ⟨rfl, -⟩ | ⟨-, hi'⟩
    · exact hj
    · exact h.surfaceLt i s hi'
  · rcases update_some_cases hi with ⟨-, rfl⟩ | ⟨-, hi'⟩
    · exact absurd rfl hne
    · exact h.surface i s hi' hne
  · obtain ⟨k, s, hk, hrest⟩ := h.callback i cb hi
    exact ⟨k, s, entry_of_free hk hfree, hrest⟩

theorem Ok.dropSurface (h : v.Ok) (hj : v.surfaces j = some s) {callbacks : ℕ → Option WlCallback}
    (hcall : ∀ i, callbacks i = (v.callbacks i).filter fun cb => cb.surfaceId ≠ s.id)
    (hidle : ∀ i cb, v.callbacks i = some cb → cb.surfaceId = s.id → cb.pending = false) :
    { v.setSurface j none with
      callbacks := callbacks
      requested := update v.requested (s.clientIdx, s.id) [] }.Ok := by
  have hsub : ∀ i cb, callbacks i = some cb ↔ v.callbacks i = some cb ∧ cb.surfaceId ≠ s.id := by
    intro i cb
    rw [hcall, filter_eq_some_iff]
    simp
  refine
    { surfaceLt := fun i t hi => h.surfaceLt i t (update_none_cases hi).2
      surfaceOnly := apart_erase h.surfaceOnly
      surface := fun i t hi hne => ?_
      callbackLt := fun i cb hi => h.callbackLt i cb ((hsub i cb).1 hi).1
      callback := fun i cb hi => ?_
      callbackOnly := fun i i' cb cb' hi hi' =>
        h.callbackOnly i i' cb cb' ((hsub i cb).1 hi).1 ((hsub i' cb').1 hi').1
      requested := fun i cb hi => ?_
      idle := fun c id hnone => ?_
      waiting := fun i cb hi => h.waiting i cb ((hsub i cb).1 hi).1
      settled := fun c k hnone => h.settled c k fun i cb hi hp => ?_
      due := fun i cb hi => h.due i cb ((hsub i cb).1 hi).1 }
  · obtain ⟨hij, ht⟩ := update_none_cases hi
    obtain ⟨k, cb, hk, hid, hs, hc⟩ := h.surface i t ht hne
    refine ⟨k, cb, (hsub k cb).2 ⟨hk, fun he => ?_⟩, hid, hs, hc⟩
    exact hij (h.surfaceOnly i j t s ht hj (hs.symm.trans he))
  · obtain ⟨hi', hne⟩ := (hsub i cb).1 hi
    obtain ⟨k, t, hk, hid, hrest⟩ := h.callback i cb hi'
    have hkj : k ≠ j := by
      refine ne_of_entry hk hj ?_
      rintro rfl
      exact hne hid.symm
    exact ⟨k, t, entry_update hk hkj, hid, hrest⟩
  · obtain ⟨hi', hne⟩ := (hsub i cb).1 hi
    have hkey : (cb.clientIdx, cb.surfaceId) ≠ (s.clientIdx, s.id) :=
      fun he => hne (Prod.mk.inj he).2
    exact (update_of_ne hkey _ _).trans (h.requested i cb hi')
  · by_cases hkey : (c, id) = (s.clientIdx, s.id)
    · change update v.requested _ _ (c, id) = _
      rw [hkey, update_self]
    · refine (update_of_ne hkey _ _).trans (h.idle c id fun i cb hi he => ?_)
      by_cases hs : cb.surfaceId = s.id
      · obtain ⟨hc, -⟩ := h.callback_of_surface hj hi hs
        exact hkey (by rw [← he.1, ← he.2, hc, hs])
      · exact hnone i cb ((hsub i cb).2 ⟨hi, hs⟩) he
  · by_cases hs : cb.surfaceId = s.id
    · rw [hidle i cb hi hs] at hp
      cases hp
    · exact hnone i cb ((hsub i cb).2 ⟨hi, hs⟩) hp

/-! ### Callbacks come and go -/

theorem Ok.newCallback (h : v.Ok) (hj : v.surfaces j = some s) (hnone : s.frameCallbackId = 0)
    (hid : s.id ≠ 0) (hc : v.clients s.clientIdx = true) (hfree : v.callbacks i = none)
    (hi : i < wl7MaxCallbacks) (hk : k ≠ 0) (hnew : ∀ i cb, v.callbacks i = some cb → cb.id ≠ k) :
    { (v.setCallback i (some ⟨k, s.clientIdx, s.id, false, 0⟩)).setSurface j
        (some ⟨s.id, s.clientIdx, k⟩) with
      requested := update v.requested (s.clientIdx, s.id)
        (v.requested (s.clientIdx, s.id) ++ [k]) }.Ok := by
  have hold : ∀ i' cb, v.callbacks i' = some cb →
      update v.callbacks i (some ⟨k, s.clientIdx, s.id, false, 0⟩) i' = some cb :=
    fun _ _ hi' => entry_of_free hi' hfree
  refine
    { surfaceLt := fun j' t hj' => ?_
      surfaceOnly := apart_replace h.surfaceOnly hj (fun _ => id) fun _ => id
      surface := fun j' t hj' hne => ?_
      callbackLt := fun i' cb hi' => ?_
      callback := fun i' cb hi' => ?_
      callbackOnly := apart_add h.callbackOnly (fun _ _ => Eq.symm) hnew
      requested := fun i' cb hi' => ?_
      idle := fun c id hnone' => ?_
      waiting := fun i' cb hi' hp => ?_
      settled := fun c k' hnone' => h.settled c k' fun i' cb hi' hp =>
        hnone' i' cb (hold i' cb hi') hp
      due := fun i' cb hi' hp => ?_ }
  · rcases update_some_cases hj' with ⟨rfl, -⟩ | ⟨-, hj'⟩
    · exact h.surfaceLt j' s hj
    · exact h.surfaceLt j' t hj'
  · rcases update_some_cases hj' with ⟨rfl, rfl⟩ | ⟨-, hj'⟩
    · exact ⟨i, _, update_self _ _ _, rfl, rfl, rfl⟩
    · obtain ⟨i', cb, hi', hrest⟩ := h.surface j' t hj' hne
      exact ⟨i', cb, hold i' cb hi', hrest⟩
  · rcases update_some_cases hi' with ⟨rfl, rfl⟩ | ⟨-, hi''⟩
    · exact ⟨hi, hk, hid, hc⟩
    · exact h.callbackLt i' cb hi''
  · rcases update_some_cases hi' with ⟨rfl, rfl⟩ | ⟨-, hi''⟩
    · exact ⟨j, _, update_self _ _ _, rfl, rfl, rfl⟩
    · obtain ⟨j', t, hj', hrest⟩ := h.callback i' cb hi''
      have hjj : j' ≠ j := by
        refine ne_of_entry hj' hj ?_
        rintro rfl
        exact h.no_callback hj hnone hi'' hrest.1.symm
      exact ⟨j', t, entry_update hj' hjj, hrest⟩
  · rcases update_some_cases hi' with ⟨rfl, rfl⟩ | ⟨-, hi''⟩
    · refine (update_self _ _ _).trans ?_
      rw [h.idle s.clientIdx s.id fun i' cb hi' he => h.no_callback hj hnone hi' he.2]
      rfl
    · have hkey : (cb.clientIdx, cb.surfaceId) ≠ (s.clientIdx, s.id) :=
        fun he => h.no_callback hj hnone hi'' (Prod.mk.inj he).2
      exact (update_of_ne hkey _ _).trans (h.requested i' cb hi'')
  · have hkey : (c, id) ≠ (s.clientIdx, s.id) := by
      rintro he
      obtain ⟨rfl, rfl⟩ := Prod.mk.inj he
      exact hnone' i _ (update_self _ _ _) ⟨rfl, rfl⟩
    exact (update_of_ne hkey _ _).trans
      (h.idle c id fun i' cb hi' => hnone' i' cb (hold i' cb hi'))
  · rcases update_some_cases hi' with ⟨rfl, rfl⟩ | ⟨-, hi''⟩
    · cases hp
    · exact h.waiting i' cb hi'' hp
  · rcases update_some_cases hi' with ⟨rfl, rfl⟩ | ⟨-, hi''⟩
    · cases hp
    · exact h.due i' cb hi'' hp

theorem Ok.count_commit (h : v.Ok) (hi : v.callbacks i = some cb) (a : ℕ × ℕ) :
    (v.committed ++ (v.requested (cb.clientIdx, cb.surfaceId)).map fun k => (cb.clientIdx, k)).count a =
      v.committed.count a + if cb.pending = false ∧ a = (cb.clientIdx, cb.id) then 1 else 0 := by
  rw [count_append, h.requested i cb hi]
  cases hp : cb.pending
  · by_cases ha : a = (cb.clientIdx, cb.id)
    · simp [ha]
    · have ha' : (cb.clientIdx, cb.id) ≠ a := fun he => ha he.symm
      simp [ha, ha']
  · simp

theorem Ok.commitCallback (h : v.Ok) (hi : v.callbacks i = some cb) :
    { v.setCallback i (some { cb with pending := true, dueMs := (v.clock + 16) % 2 ^ 32 }) with
      commits := v.commits ++ [(cb.clientIdx, cb.surfaceId)]
      requested := update v.requested (cb.clientIdx, cb.surfaceId) []
      committed := v.committed ++
        (v.requested (cb.clientIdx, cb.surfaceId)).map fun k => (cb.clientIdx, k) }.Ok := by
  -- every slot holds the callback it held, up to its state
  have hback : ∀ i' cb', update v.callbacks i
      (some { cb with pending := true, dueMs := (v.clock + 16) % 2 ^ 32 }) i' = some cb' →
      ∃ cb₀, v.callbacks i' = some cb₀ ∧ cb₀.id = cb'.id ∧ cb₀.clientIdx = cb'.clientIdx ∧
        cb₀.surfaceId = cb'.surfaceId :=
    fun _ _ hz => by apply entry_back hi _ _ hz <;> simp
  have hfwd : ∀ i' cb', v.callbacks i' = some cb' → ∃ cb₁, update v.callbacks i
      (some { cb with pending := true, dueMs := (v.clock + 16) % 2 ^ 32 }) i' = some cb₁ ∧
        cb₁.id = cb'.id ∧ cb₁.clientIdx = cb'.clientIdx ∧ cb₁.surfaceId = cb'.surfaceId ∧
        (cb'.pending = true → cb₁.pending = true) := by
    intro i' cb' hi'
    by_cases hii : i' = i
    · subst hii
      obtain rfl := some.inj (hi.symm.trans hi')
      exact ⟨_, update_self _ _ _, rfl, rfl, rfl, fun _ => rfl⟩
    · exact ⟨cb', entry_update hi' hii, rfl, rfl, rfl, fun hp => hp⟩
  refine
    { surfaceLt := h.surfaceLt
      surfaceOnly := h.surfaceOnly
      surface := fun j s hj hne => ?_
      callbackLt := fun i' cb' hi' => ?_
      callback := fun i' cb' hi' => ?_
      callbackOnly := apart_replace h.callbackOnly hi (fun _ => id) fun _ => id
      requested := fun i' cb' hi' => ?_
      idle := fun c id hnone => ?_
      waiting := fun i' cb' hi' hp => ?_
      settled := fun c k hnone => ?_
      due := fun i' cb' hi' hp => ?_ }
  · obtain ⟨i', cb', hi', hid, hs, hc⟩ := h.surface j s hj hne
    obtain ⟨cb₁, h₁, hid₁, hc₁, hs₁, -⟩ := hfwd i' cb' hi'
    exact ⟨i', cb₁, h₁, hid₁.trans hid, hs₁.trans hs, hc₁.trans hc⟩
  · obtain ⟨cb₀, h₀, hid, hc, hs⟩ := hback i' cb' hi'
    rw [← hid, ← hc, ← hs]
    exact h.callbackLt i' cb₀ h₀
  · obtain ⟨cb₀, h₀, hid, hc, hs⟩ := hback i' cb' hi'
    rw [← hid, ← hc, ← hs]
    exact h.callback i' cb₀ h₀
  · rcases update_some_cases hi' with ⟨rfl, rfl⟩ | ⟨hii, hi''⟩
    · exact update_self _ _ _
    · have hkey : (cb'.clientIdx, cb'.surfaceId) ≠ (cb.clientIdx, cb.surfaceId) := by
        intro he
        obtain ⟨j, s, hj, hs, -, hcb⟩ := h.callback i cb hi
        obtain ⟨-, hcb'⟩ := h.callback_of_surface hj hi'' ((Prod.mk.inj he).2.trans hs.symm)
        exact hii (h.callbackOnly i' i cb' cb hi'' hi (hcb'.symm.trans hcb))
      exact (update_of_ne hkey _ _).trans (h.requested i' cb' hi'')
  · by_cases hkey : (c, id) = (cb.clientIdx, cb.surfaceId)
    · change update v.requested _ _ (c, id) = _
      rw [hkey, update_self]
    · refine (update_of_ne hkey _ _).trans (h.idle c id fun i' cb' hi' he => ?_)
      obtain ⟨cb₁, h₁, -, hc₁, hs₁, -⟩ := hfwd i' cb' hi'
      exact hnone i' cb₁ h₁ ⟨hc₁.trans he.1, hs₁.trans he.2⟩
  · refine (h.count_commit hi _).trans ?_
    change _ = v.done.count _ + 1
    rcases update_some_cases hi' with ⟨rfl, rfl⟩ | ⟨hii, hi''⟩
    · by_cases hpend : cb.pending = true
      · rw [if_neg fun hf => by rw [hpend] at hf; cases hf.1]
        exact h.waiting i' cb hi hpend
      · rw [Bool.not_eq_true] at hpend
        rw [if_pos ⟨hpend, rfl⟩, h.settled cb.clientIdx cb.id fun i'' cb'' hi'' hp'' he => ?_]
        have hsame : i'' = i' := h.callbackOnly i'' i' cb'' cb hi'' hi he.2
        subst hsame
        rw [hi] at hi''
        obtain rfl := some.inj hi''
        rw [hpend] at hp''
        cases hp''
    · rw [if_neg fun hf => hii (h.callbackOnly i' i cb' cb hi'' hi (Prod.mk.inj hf.2).2)]
      exact h.waiting i' cb' hi'' hp
  · refine (h.count_commit hi _).trans ?_
    have hne : (c, k) ≠ (cb.clientIdx, cb.id) := by
      intro he
      obtain ⟨rfl, rfl⟩ := Prod.mk.inj he
      exact hnone i _ (update_self _ _ _) rfl ⟨rfl, rfl⟩
    rw [if_neg fun hf => hne hf.2]
    refine h.settled c k fun i' cb' hi' hp he => ?_
    obtain ⟨cb₁, h₁, hid₁, hc₁, -, hp₁⟩ := hfwd i' cb' hi'
    exact hnone i' cb₁ h₁ (hp₁ hp) ⟨hc₁.trans he.1, hid₁.trans he.2⟩
  · rcases update_some_cases hi' with ⟨rfl, rfl⟩ | ⟨-, hi''⟩
    · exact .inr rfl
    · exact h.due i' cb' hi'' hp

theorem Ok.commitIdle (h : v.Ok) (hreq : v.requested (c, id) = []) :
    { v with
      commits := v.commits ++ [(c, id)]
      requested := update v.requested (c, id) []
      committed := v.committed ++ (v.requested (c, id)).map fun k => (c, k) }.Ok := by
  have hsame : update v.requested (c, id) [] = v.requested := by
    rw [← hreq, update_eq_self]
  rw [hsame, hreq, map_nil, append_nil]
  exact ⟨h.surfaceLt, h.surfaceOnly, h.surface, h.callbackLt, h.callback, h.callbackOnly, h.requested,
    h.idle, h.waiting, h.settled, h.due⟩

theorem Ok.finish (h : v.Ok) (hi : v.callbacks i = some cb) (hp : cb.pending = true)
    (hj : v.surfaces j = some s) (hs : s.id = cb.surfaceId) :
    { (v.setSurface j (some ⟨s.id, s.clientIdx, 0⟩)).setCallback i none with
      done := v.done ++ [(cb.clientIdx, cb.id)] }.Ok := by
  obtain ⟨-, hscb⟩ := h.callback_of_surface hj hi hs.symm
  have hdone : ∀ a, (v.done ++ [(cb.clientIdx, cb.id)]).count a =
      v.done.count a + if a = (cb.clientIdx, cb.id) then 1 else 0 := by
    intro a
    by_cases ha : a = (cb.clientIdx, cb.id)
    · simp [ha]
    · have ha' : (cb.clientIdx, cb.id) ≠ a := fun he => ha he.symm
      simp [ha, ha']
  refine
    { surfaceLt := fun j' t hj' => ?_
      surfaceOnly := apart_replace h.surfaceOnly hj (fun _ => id) fun _ => id
      surface := fun j' t hj' hne => ?_
      callbackLt := fun i' cb' hi' => h.callbackLt i' cb' (update_none_cases hi').2
      callback := fun i' cb' hi' => ?_
      callbackOnly := apart_erase h.callbackOnly
      requested := fun i' cb' hi' => h.requested i' cb' (update_none_cases hi').2
      idle := fun c id hnone => ?_
      waiting := fun i' cb' hi' hp' => ?_
      settled := fun c k hnone => ?_
      due := fun i' cb' hi' => h.due i' cb' (update_none_cases hi').2 }
  · rcases update_some_cases hj' with ⟨rfl, -⟩ | ⟨-, hj'⟩
    · exact h.surfaceLt j' s hj
    · exact h.surfaceLt j' t hj'
  · rcases update_some_cases hj' with ⟨-, rfl⟩ | ⟨hjj, ht⟩
    · exact absurd rfl hne
    obtain ⟨i', cb', hi', hid, hs', hc⟩ := h.surface j' t ht hne
    have hii : i' ≠ i := by
      refine ne_of_entry hi' hi ?_
      rintro rfl
      exact hjj (h.surfaceOnly j' j t s ht hj (hs'.symm.trans hs.symm))
    exact ⟨i', cb', entry_update hi' hii, hid, hs', hc⟩
  · obtain ⟨hii, hi''⟩ := update_none_cases hi'
    obtain ⟨j', t, hj', hid, hc, hcb⟩ := h.callback i' cb' hi''
    have hjj : j' ≠ j := by
      refine ne_of_entry hj' hj ?_
      rintro rfl
      exact hii (h.callbackOnly i' i cb' cb hi'' hi (hcb.symm.trans hscb))
    exact ⟨j', t, entry_update hj' hjj, hid, hc, hcb⟩
  · by_cases hkey : c = cb.clientIdx ∧ id = cb.surfaceId
    · obtain ⟨rfl, rfl⟩ := hkey
      change v.requested _ = _
      rw [h.requested i cb hi, if_pos hp]
    · refine h.idle c id fun i' cb' hi' he => ?_
      have hii : i' ≠ i := by
        refine ne_of_entry hi' hi ?_
        rintro rfl
        exact hkey ⟨he.1.symm, he.2.symm⟩
      exact hnone i' cb' (entry_update hi' hii) he
  · obtain ⟨hii, hi''⟩ := update_none_cases hi'
    refine Eq.trans ?_ (congrArg (· + 1) (hdone _).symm)
    rw [if_neg fun he => hii (h.callbackOnly i' i cb' cb hi'' hi (Prod.mk.inj he).2)]
    exact h.waiting i' cb' hi'' hp'
  · refine Eq.trans ?_ (hdone _).symm
    by_cases hkey : (c, k) = (cb.clientIdx, cb.id)
    · rw [if_pos hkey, hkey]
      exact h.waiting i cb hi hp
    · rw [if_neg hkey]
      refine h.settled c k fun i' cb' hi' hp' he => ?_
      have hii : i' ≠ i := by
        refine ne_of_entry hi' hi ?_
        rintro rfl
        exact hkey (by rw [he.1, he.2])
      exact hnone i' cb' (entry_update hi' hii) hp' he

theorem Recent.of_sub {v' : WlFrames} (h : v.Recent calm m) (hclock : v'.clock = v.clock)
    (hle : ∀ a, v.commits.count a ≤ v'.commits.count a)
    (hsub : ∀ i cb, v'.callbacks i = some cb → cb.pending = true → v.callbacks i = some cb) :
    v'.Recent calm m where
  le a := (h.le a).trans (hle a)
  callback i cb hi hp hd := by
    rw [hclock] at hd
    exact (h.callback i cb (hsub i cb hi hp) hp hd).trans_le (hle _)
  calm hcalm i cb hi hp := by
    rw [hclock]
    exact h.calm hcalm i cb (hsub i cb hi hp) hp

theorem Recent.commitCallback (h : v.Recent calm m) {requested : ℕ × ℕ → List ℕ}
    {committed : List (ℕ × ℕ)} {cb' : WlCallback} (hc : cb'.clientIdx = cb.clientIdx)
    (hs : cb'.surfaceId = cb.surfaceId) (hdue : cb'.dueMs ≠ v.clock) :
    { v.setCallback i (some cb') with
      commits := v.commits ++ [(cb.clientIdx, cb.surfaceId)]
      requested := requested
      committed := committed }.Recent calm m where
  le a := by
    refine (h.le a).trans ?_
    rw [count_append]
    exact Nat.le_add_right _ _
  callback i' cb'' hi' hp hd := by
    change update v.callbacks i _ i' = _ at hi'
    change _ < (v.commits ++ [_]).count _
    rw [count_append]
    rcases update_some_cases hi' with ⟨rfl, rfl⟩ | ⟨-, hi'⟩
    · rw [hc, hs, count_singleton_self]
      exact Nat.lt_succ_of_le (h.le _)
    · exact (h.callback i' cb'' hi' hp hd).trans_le (Nat.le_add_right _ _)
  calm hcalm i' cb'' hi' hp := by
    change update v.callbacks i _ i' = _ at hi'
    rcases update_some_cases hi' with ⟨rfl, rfl⟩ | ⟨-, hi'⟩
    · exact hdue
    · exact h.calm hcalm i' cb'' hi' hp

end WlFrames

namespace Wl7

variable {st : Wl7} {c i obj k : ℕ} {m : List (ℕ × ℕ)} {calm : Prop} {s : WlSurface}

/-- All frame callbacks are accounted for, and those that do not wait for this frame have had their
surface committed since `m`. -/
structure FramesOk (st : Wl7) (calm : Prop) (m : List (ℕ × ℕ)) : Prop where
  ok : st.frames.Ok
  recent : st.frames.Recent calm m

theorem FramesOk.congr {st' : Wl7} (h : st.FramesOk calm m) (he : st'.frames = st.frames) :
    st'.FramesOk calm m :=
  ⟨he ▸ h.ok, he ▸ h.recent⟩

theorem frames_logRequest (r : WlReq) :
    (st.logRequest c obj r).frames =
      { st.frames with
        commits := (st.seen.request c obj r).commits
        requested := (st.seen.request c obj r).requested
        committed := (st.seen.request c obj r).committed
        done := (st.seen.request c obj r).done } := by
  unfold frames
  rw [seen_logRequest]
  rfl

theorem owner_of_surface {j : ℕ} (hj : st.surfaces j = some s) :
    st.frames.surfaces j = some s.owner := by
  change (st.surfaces j).map _ = _
  rw [hj]
  rfl

/-! ### Requests -/

theorem framesOk_createSurface (h : st.FramesOk calm m) {id : ℕ}
    (hnew : ∀ i s, st.surfaces i = some s → s.id ≠ id) :
    ((st.logRequest c obj (.createSurface id)).createSurface c id).FramesOk calm m := by
  have hnew' : ∀ i s, st.frames.surfaces i = some s → s.id ≠ id := by
    intro i s hi
    obtain ⟨s', hs', rfl⟩ := map_eq_some_iff.1 hi
    exact hnew i s' hs'
  -- nothing was requested for a surface that is not there
  have hidle : st.seen.requested (c, id) = [] := by
    refine h.ok.idle c id fun i cb hi he => ?_
    obtain ⟨j, s, hj, hid, -⟩ := h.ok.callback i cb hi
    exact hnew' j s hj (hid.trans he.2)
  have hlog : (st.logRequest c obj (.createSurface id)).frames = st.frames := by
    rw [frames_logRequest]
    change { st.frames with
      requested := update st.seen.requested (c, id) [], .. } = _
    rw [← hidle, update_eq_self]
    rfl
  unfold createSurface
  split
  · exact h.congr hlog
  next j hfree =>
    obtain ⟨hj, hnone⟩ := freeSlot_eq_some hfree
    have hv : ((((st.logRequest c obj (.createSurface id)).setSurface j
        (some ⟨id, c, 0, 0, 0, 0, 0, false⟩)).metaSet c id .surface 0).markDamage
          id 0 0 0 0 true).frames = st.frames.setSurface j (some ⟨id, c, 0⟩) := by
      rw [(faces_markDamage ..).1, (faces_metaSet ..).1, frames_setSurface, hlog]
      rfl
    have hfreev : st.frames.surfaces j = none := by
      change (st.surfaces j).map _ = _
      rw [show st.surfaces j = none from hnone]
      rfl
    refine ⟨?_, ?_⟩
    · dsimp only
      rw [hv]
      exact h.ok.newSurface hfreev hj hnew'
    · dsimp only
      rw [hv]
      exact h.recent.of_sub rfl (fun _ => le_rfl) fun _ _ hi _ => hi

theorem framesOk_frame (h : st.FramesOk calm m) (hobj : obj ≠ 0) (hc : st.clients c = true)
    (howns : ∀ i s, st.surfaces i = some s → s.id = obj → s.clientIdx = c)
    (hsurf : ∃ i s, st.findSurface obj = some (i, s) ∧ s.frameCallbackId = 0) (hk : k ≠ 0)
    (hnew : ∀ i cb, st.callbacks i = some cb → cb.id ≠ k)
    (hroom : freeSlot st.callbacks wl7MaxCallbacks ≠ none) :
    ((st.logRequest c obj (.frame k)).frame c obj k).FramesOk calm m := by
  obtain ⟨j, s, hfind, hnone⟩ := hsurf
  obtain ⟨-, hj, hid⟩ := findEntry_eq_some hfind
  obtain ⟨i, hfree⟩ := ne_none_iff_exists'.1 hroom
  obtain ⟨hi, hinone⟩ := freeSlot_eq_some hfree
  have hsc : s.clientIdx = c := howns j s hj hid
  have hold : st.findCallback s.frameCallbackId = none := by
    refine findEntry_eq_none.2 fun i _ cb hcb => ?_
    rw [hnone]
    exact (h.ok.callbackLt i cb hcb).2.1
  have hv : ((st.logRequest c obj (.frame k)).frame c obj k).frames =
      { (st.frames.setCallback i (some ⟨k, s.owner.clientIdx, s.owner.id, false, 0⟩)).setSurface j
          (some ⟨s.owner.id, s.owner.clientIdx, k⟩) with
        requested := update st.frames.requested (s.owner.clientIdx, s.owner.id)
          (st.frames.requested (s.owner.clientIdx, s.owner.id) ++ [k]) } := by
    have hfind' : (st.logRequest c obj (.frame k)).findSurface obj = some (j, s) := hfind
    have hold' : (st.logRequest c obj (.frame k)).findCallback s.frameCallbackId = none := hold
    have hfree' : freeSlot (st.logRequest c obj (.frame k)).callbacks wl7MaxCallbacks = some i := hfree
    unfold frame
    simp only [hfind', hold', hfree', dropOldCallback]
    rw [(faces_metaSet ..).1, frames_setSurface, (faces_setCallback ..).1, frames_logRequest]
    change _ = { (st.frames.setCallback i (some ⟨k, s.clientIdx, s.id, false, 0⟩)).setSurface j
          (some ⟨s.id, s.clientIdx, k⟩) with
        requested := update st.frames.requested (s.clientIdx, s.id)
          (st.frames.requested (s.clientIdx, s.id) ++ [k]) }
    rw [hsc, hid]
    rfl
  refine ⟨?_, ?_⟩
  · rw [hv]
    refine h.ok.newCallback (owner_of_surface hj) hnone ?_ ?_ hinone hi hk hnew
    · exact fun h0 => hobj (hid.symm.trans h0)
    · rw [show s.owner.clientIdx = c from hsc]
      exact hc
  · rw [hv]
    refine h.recent.of_sub rfl (fun _ => le_rfl) fun i' cb hi' hp => ?_
    change update st.callbacks i _ i' = _ at hi'
    by_cases hii : i' = i
    · rw [hii, update_self] at hi'
      obtain rfl := some.inj hi'
      cases hp
    · rwa [update_of_ne hii] at hi'

theorem frames_commitCallback_none (h : k = 0 ∨ st.findCallback k = none) :
    (st.commitCallback k).frames = st.frames := by
  unfold commitCallback
  rcases h with h | h
  · rw [if_pos h]
  · split_ifs
    · rfl
    · rw [h]

theorem frames_commitCallback_some {cb : WlCallback} (hk : k ≠ 0)
    (h : st.findCallback k = some (i, cb)) :
    (st.commitCallback k).frames = st.frames.setCallback i
      (some { cb with pending := true, dueMs := (st.frames.clock + 16) % 2 ^ 32 }) := by
  unfold commitCallback
  rw [if_neg hk, h]
  rfl

theorem owner_applyLayerSurfaceLayout (st : Wl7) (s : WlSurface) (ls : Option WlLayerSurface)
    (b : Option WlBuffer) : (ls.elim s fun ls => st.applyLayerSurfaceLayout ls b s).owner = s.owner := by
  cases ls with
  | none => rfl
  | some ls =>
    dsimp only [elim_some]
    unfold applyLayerSurfaceLayout
    dsimp only
    split_ifs <;> rfl

theorem frames_mapSurface (hi : st.surfaces i = some s) (mapped : Bool) (b : Option WlBuffer) :
    ∃ st' : Wl7, st'.frames = st.frames ∧
      (st.mapSurface c i mapped b).frames = (st'.commitCallback s.frameCallbackId).frames := by
  have ho := st.owner_applyLayerSurfaceLayout s ((st.findLayerSurfaceBySurface s.id).map Prod.snd) b
  unfold mapSurface
  rw [hi]
  dsimp only
  generalize (((st.findLayerSurfaceBySurface s.id).map Prod.snd).elim s fun ls =>
    st.applyLayerSurfaceLayout ls b s) = s' at ho
  have hk : s.frameCallbackId = s'.frameCallbackId := (congrArg WlOwner.frameCallbackId ho).symm
  rw [hk]
  refine ⟨_, ?_, rfl⟩
  have hset : (st.setSurface i (some { s' with mapped := true })).frames = st.frames :=
    frames_setSurface_same hi ho
  split_ifs <;> simp [hset]

theorem frames_commitBuffer (hi : st.surfaces i = some s) (b : Option (ℕ × WlBuffer)) :
    (st.commitBuffer i s b).frames = st.frames := by
  unfold commitBuffer
  cases b with
  | none =>
    refine frames_setSurface_same hi ?_
    split_ifs <;> rfl
  | some p =>
    refine frames_setSurface_same hi ?_
    split_ifs <;> rfl

theorem frames_commit (hfind : st.findSurface obj = some (i, s)) :
    ∃ st' : Wl7, st'.frames = st.frames ∧ (st.commit c obj).frames =
      if st.findBuffer s.attachedBuffer = none then st.frames
      else (st'.commitCallback s.frameCallbackId).frames := by
  obtain ⟨-, hi, -⟩ := findEntry_eq_some hfind
  unfold commit
  rw [hfind]
  dsimp only
  cases hb : st.findBuffer s.attachedBuffer with
  | none =>
    refine ⟨st, rfl, ?_⟩
    rw [if_pos rfl]
    simp [frames_commitBuffer hi]
  | some p =>
    have hsame : (((st.commitBuffer i s (some p)).commitXdg c s.id).commitLayer c s.id
        (some p.2)).frames = st.frames := by
      simp [frames_commitBuffer hi]
    -- the surface is still in its slot, with the same callback
    have howner := congrArg (fun v : WlFrames => v.surfaces i) hsame
    rw [owner_of_surface hi] at howner
    obtain ⟨s', hs', ho⟩ := map_eq_some_iff.1 howner
    obtain ⟨st', hst', hmap⟩ := frames_mapSurface (c := c) hs' s.mapped (some p.2)
    refine ⟨st', hst'.trans hsame, ?_⟩
    have hk : s'.frameCallbackId = s.frameCallbackId := congrArg WlOwner.frameCallbackId ho
    rw [if_neg (by simp), ← hk]
    exact hmap

theorem frames_logCommit :
    (st.logRequest c obj .commit).frames =
      { st.frames with
        commits := st.frames.commits ++ [(c, obj)]
        requested := update st.frames.requested (c, obj) []
        committed := st.frames.committed ++ (st.frames.requested (c, obj)).map fun k => (c, k) } := by
  rw [frames_logRequest]
  rfl

theorem framesOk_commitIdle (h : st.FramesOk calm m) (hreq : st.frames.requested (c, obj) = [])
    (hsame : ((st.logRequest c obj .commit).commit c obj).frames =
      (st.logRequest c obj .commit).frames) :
    ((st.logRequest c obj .commit).commit c obj).FramesOk calm m := by
  refine FramesOk.congr ⟨?_, ?_⟩ hsame
  · rw [frames_logCommit]
    exact h.ok.commitIdle hreq
  · rw [frames_logCommit]
    refine h.recent.of_sub rfl (fun a => ?_) fun _ _ hi _ => hi
    rw [count_append]
    exact Nat.le_add_right _ _

theorem framesOk_commit (h : st.FramesOk calm m) (howns : st.Owns c obj)
    (hfair : ∀ i cb, st.callbacks i = some cb → cb.surfaceId = obj → cb.pending = false →
      ∃ j s, st.findSurface obj = some (j, s) ∧ st.findBuffer s.attachedBuffer ≠ none) :
    ((st.logRequest c obj .commit).commit c obj).FramesOk calm m := by
  by_cases hcb : ∃ i cb, st.callbacks i = some cb ∧ cb.surfaceId = obj
  · obtain ⟨i, cb, hi, hs⟩ := hcb
    have hc : cb.clientIdx = c := howns.callback i cb hi (.inr hs)
    obtain ⟨j, o, hj, hid, -, hk⟩ := h.ok.callback i cb hi
    obtain ⟨s, hsj, rfl⟩ := map_eq_some_iff.1 hj
    have hfind : st.findSurface obj = some (j, s) := by
      refine findEntry_eq (h.ok.surfaceLt j _ hj) hsj (hid.trans hs) fun k _ t ht he => ?_
      refine h.ok.surfaceOnly k j _ _ (owner_of_surface ht) hj ?_
      exact he.trans (hid.trans hs).symm
    have hlog : (st.logRequest c obj .commit).findSurface obj = some (j, s) := hfind
    obtain ⟨st', hst', hcommit⟩ := frames_commit (c := c) hlog
    by_cases hbuf : st.findBuffer s.attachedBuffer = none
    · have hp : cb.pending = true := by
        by_contra hp
        obtain ⟨j', s', hfind', hb⟩ := hfair i cb hi hs (Bool.eq_false_of_not_eq_true hp)
        rw [hfind] at hfind'
        obtain ⟨-, rfl⟩ := Prod.mk.inj (some.inj hfind')
        exact hb hbuf
      refine framesOk_commitIdle h ?_ ?_
      · have hreq := h.ok.requested i cb hi
        rw [hc, hs, if_pos hp] at hreq
        exact hreq
      · rw [hcommit]
        exact if_pos hbuf
    · -- the callback of the surface waits now
      have hne : cb.id ≠ 0 := (h.ok.callbackLt i cb hi).2.1
      have hcalls : st'.callbacks = st.callbacks := congrArg WlFrames.callbacks hst'
      have hfindcb : st'.findCallback cb.id = some (i, cb) := by
        have hf := h.ok.find_callback hi rfl
        change findEntry st'.callbacks _ _ = _
        rw [hcalls]
        exact hf
      have hv : ((st.logRequest c obj .commit).commit c obj).frames =
          { st.frames.setCallback i
              (some { cb with pending := true, dueMs := (st.frames.clock + 16) % 2 ^ 32 }) with
            commits := st.frames.commits ++ [(cb.clientIdx, cb.surfaceId)]
            requested := update st.frames.requested (cb.clientIdx, cb.surfaceId) []
            committed := st.frames.committed ++
              (st.frames.requested (cb.clientIdx, cb.surfaceId)).map fun k => (cb.clientIdx, k) } := by
        subst hc hs
        have hk' : s.frameCallbackId = cb.id := hk
        rw [hcommit, hk']
        refine (if_neg hbuf).trans ?_
        rw [frames_commitCallback_some hne hfindcb, hst', frames_logCommit]
        rfl
      have hdue : (st.frames.clock + 16) % 2 ^ 32 ≠ st.frames.clock := by omega
      refine ⟨?_, ?_⟩
      · rw [hv]
        exact h.ok.commitCallback hi
      · rw [hv]
        exact h.recent.commitCallback rfl rfl hdue
  · have hnone : ∀ i cb, st.frames.callbacks i = some cb → cb.surfaceId ≠ obj :=
      fun i cb hi hs => hcb ⟨i, cb, hi, hs⟩
    refine framesOk_commitIdle h (h.ok.idle c obj fun i cb hi he => hnone i cb hi he.2) ?_
    cases hfind : (st.logRequest c obj .commit).findSurface obj with
    | none =>
      unfold commit
      rw [hfind]
    | some p =>
      obtain ⟨j, s⟩ := p
      obtain ⟨-, hj, hid⟩ := findEntry_eq_some hfind
      have hk : s.frameCallbackId = 0 := by
        by_contra hk
        obtain ⟨i, cb, hi, -, hs, -⟩ := h.ok.surface j s.owner (owner_of_surface hj) hk
        exact hnone i cb hi (hs.trans hid)
      obtain ⟨st', hst', hcommit⟩ := frames_commit (c := c) hfind
      rw [hcommit, frames_commitCallback_none (.inl hk), hst']
      exact ite_self _

/-! ### Surfaces go -/

theorem callbacks_dropCallback (st : Wl7) (c id i : ℕ) :
    (st.dropCallback c id i).callbacks =
      if (st.callbacks i).any (fun cb => cb.clientIdx = c ∧ cb.surfaceId = id) then
        update st.callbacks i none
      else st.callbacks := by
  have hdrop : ∀ (st : Wl7) k, (st.metaDrop c k).callbacks = st.callbacks :=
    fun st k => congrArg WlFrames.callbacks (st.faces_metaDrop c k).1
  unfold dropCallback
  cases hi : st.callbacks i with
  | none => simp
  | some cb =>
    by_cases hcb : cb.clientIdx = c ∧ cb.surfaceId = id
    · simp only [any_some, decide_eq_true hcb, if_true, if_pos hcb]
      change update ((st.send c (.deleteId cb.id)).metaDrop c cb.id).callbacks i none = _
      rw [hdrop]
      rfl
    · simp [hcb]

theorem frames_dropCallback (st : Wl7) (c id i : ℕ) :
    { (st.dropCallback c id i).frames with callbacks := fun _ => none } =
      { st.frames with callbacks := fun _ => none } := by
  unfold dropCallback
  split
  · rfl
  · split_ifs
    · rw [(faces_setCallback ..).1, (faces_metaDrop ..).1, frames_send]
      rfl
    · rfl

theorem frames_dropSurfaceRelated (id : ℕ) :
    (st.dropSurfaceRelated c id).frames = st.frames.dropCallbacks c id := by
  have hloop : ∀ st' : Wl7, st'.frames = st.frames →
      ((List.range wl7MaxCallbacks).foldl (fun st i => dropCallback st c id i) st').frames =
        st.frames.dropCallbacks c id := by
    intro st' hst'
    have hrest := foldl_same (g := fun st : Wl7 => { st.frames with callbacks := fun _ => none })
      (fun st i => st.frames_dropCallback c id i) (List.range wl7MaxCallbacks) st'
    have htable := foldl_sweep (fun st : Wl7 => st.callbacks)
      (fun o => (o.any fun cb => cb.clientIdx = c ∧ cb.surfaceId = id) = true)
      (fun st i => st.callbacks_dropCallback c id i) wl7MaxCallbacks st'
    generalize (List.range wl7MaxCallbacks).foldl (fun st i => dropCallback st c id i) st' = st''
      at hrest htable ⊢
    refine WlFrames.ext_callbacks (hrest.trans ?_) ((funext htable).trans ?_)
    · rw [hst']
      rfl
    · rw [← hst']
      rfl
  have hlayer : ∀ st' : Wl7, (st'.dropLayerOf c id).frames = st'.frames := by
    intro st'
    unfold dropLayerOf
    split <;> simp
  unfold dropSurfaceRelated
  refine hloop _ ((hlayer _).trans ?_)
  split
  · split <;> rfl
  · split <;> rfl

theorem framesOk_destroySurface (h : st.FramesOk calm m) (howns : st.Owns c obj)
    (hfair : ∀ i cb, st.callbacks i = some cb → cb.surfaceId = obj → cb.pending = false) :
    ((st.logRequest c obj .destroySurface).destroySurface c obj).FramesOk calm m := by
  have hlog : (st.logRequest c obj .destroySurface).frames =
      { st.frames with requested := update st.frames.requested (c, obj) [] } := by
    rw [frames_logRequest]
    rfl
  unfold destroySurface
  cases hfind : st.findSurface obj with
  | none =>
    -- no surface, so nothing was requested for it
    have hidle : st.frames.requested (c, obj) = [] := by
      refine h.ok.idle c obj fun i cb hi he => ?_
      obtain ⟨j, o, hj, hid, -⟩ := h.ok.callback i cb hi
      obtain ⟨s, hs, rfl⟩ := map_eq_some_iff.1 hj
      have hno := findEntry_eq_none.1 hfind j (h.ok.surfaceLt j _ hj) s hs
      exact hno (hid.trans he.2)
    have hfind' : (st.logRequest c obj .destroySurface).findSurface obj = none := hfind
    rw [hfind']
    refine h.congr (hlog.trans ?_)
    rw [← hidle, update_eq_self]
  | some p =>
    obtain ⟨j, s⟩ := p
    obtain ⟨-, hj, hid⟩ := findEntry_eq_some hfind
    subst hid
    have hc : s.clientIdx = c := howns.surface j s hj rfl
    have hfind' : (st.logRequest c s.id .destroySurface).findSurface s.id = some (j, s) := hfind
    rw [hfind']
    dsimp only
    subst hc
    have hcall : ∀ i, (st.frames.dropCallbacks s.clientIdx s.id).callbacks i =
        (st.frames.callbacks i).filter fun cb => cb.surfaceId ≠ s.owner.id := by
      intro i
      cases hi : st.frames.callbacks i with
      | none => simp [WlFrames.dropCallbacks, hi]
      | some cb =>
        have hlt := (h.ok.callbackLt i cb hi).1
        by_cases hs : cb.surfaceId = s.id
        · obtain ⟨hcs, -⟩ := h.ok.callback_of_surface (owner_of_surface hj) hi hs
          have hcs' : cb.clientIdx = s.clientIdx := hcs.symm
          simp [WlFrames.dropCallbacks, Option.filter, hi, hlt, hs, hcs', WlSurface.owner]
        · simp [WlFrames.dropCallbacks, Option.filter, hi, hs, WlSurface.owner]
    have hv : ((st.logRequest s.clientIdx s.id .destroySurface).frames.dropCallbacks s.clientIdx
        s.id).setSurface j none =
          { st.frames.setSurface j none with
            callbacks := (st.frames.dropCallbacks s.clientIdx s.id).callbacks
            requested := update st.frames.requested (s.owner.clientIdx, s.owner.id) [] } := by
      rw [hlog]
      rfl
    have hquiet : (((((((st.logRequest s.clientIdx s.id .destroySurface).send s.clientIdx
        (.surfaceLeave s.id ((st.logRequest s.clientIdx s.id .destroySurface).clientOutput
          s.clientIdx))).releaseSurfaceBuffers s.id).dropSurfaceRelated s.clientIdx s.id).clearDamage
            j).setSurface j none).metaDrop s.clientIdx s.id).frames =
        ((st.logRequest s.clientIdx s.id .destroySurface).frames.dropCallbacks s.clientIdx
          s.id).setSurface j none := by
      rw [(faces_metaDrop ..).1, frames_setSurface, (faces_clearDamage ..).1, frames_dropSurfaceRelated,
        (faces_releaseSurfaceBuffers ..).1, frames_send]
      rfl
    rw [hv] at hquiet
    refine ⟨?_, ?_⟩
    · rw [hquiet]
      exact h.ok.dropSurface (owner_of_surface hj) hcall hfair
    · rw [hquiet]
      refine h.recent.of_sub rfl (fun _ => le_rfl) fun i cb hi _ => ?_
      change (st.frames.dropCallbacks s.clientIdx s.id).callbacks i = some cb at hi
      rw [hcall, filter_eq_some_iff] at hi
      exact hi.1

theorem framesOk_request (h : st.FramesOk calm m) {right : Option ℕ} {r : WlReq} (hobj : obj ≠ 0)
    (hc : st.clients c = true) (hfair : st.Fair c obj r) :
    (st.request c obj right r).FramesOk calm m := by
  have hquiet : (st.logRequest c obj r).frames = st.frames →
      ((st.logRequest c obj r).exec c obj right r).frames = (st.logRequest c obj r).frames →
      (st.request c obj right r).FramesOk calm m :=
    fun hlog hexec => h.congr (hexec.trans hlog)
  have hreq := hfair.req
  cases r with
  | createSurface id => exact framesOk_createSurface h hreq
  | frame k =>
    obtain ⟨hsurf, hk, hnew, hroom⟩ := hreq
    exact framesOk_frame h hobj hc (fun i s hi hid => hfair.owns.surface i s hi hid) hsurf hk hnew hroom
  | commit => exact framesOk_commit h hfair.owns hreq.1
  | destroySurface => exact framesOk_destroySurface h hfair.owns hreq
  | destroyCallback =>
    have hnone : (st.logRequest c obj .destroyCallback).findCallback obj = none :=
      findEntry_eq_none.2 fun i _ cb hi => hreq i cb hi
    refine hquiet (by rw [frames_logRequest]; rfl) ?_
    unfold exec destroyCallback
    rw [(faces_metaDrop ..).1, hnone]
  | setActivated a =>
    refine hquiet ?_ (by simp [exec])
    rw [frames_logRequest]
    unfold WlSeen.request
    dsimp only
    split <;> rfl
  | _ => exact hquiet (by rw [frames_logRequest]; rfl) (by simp [exec])

/-! ### The end of a tick -/

theorem framesOk_finishCallback (h : st.FramesOk False m) (i : ℕ) :
    (st.finishCallback i).FramesOk False m ∧ (st.finishCallback i).frameClockMs = st.frameClockMs ∧
      (∀ j cb, (st.finishCallback i).callbacks j = some cb → st.callbacks j = some cb) ∧
      ∀ cb, (st.finishCallback i).callbacks i = some cb → cb.pending = true →
        st.frameClockMs < cb.dueMs := by
  unfold finishCallback
  cases hi : st.callbacks i with
  | none =>
    refine ⟨h, rfl, fun _ _ hj => hj, fun cb hcb => ?_⟩
    rw [show st.callbacks i = none from hi] at hcb
    cases hcb
  | some cb =>
    dsimp only
    by_cases hp : cb.pending = true
    swap
    · rw [Bool.not_eq_true] at hp
      rw [hp, Bool.not_false, if_pos rfl]
      refine ⟨h, rfl, fun _ _ hj => hj, fun cb' hcb' hp' => ?_⟩
      rw [hi] at hcb'
      obtain rfl := some.inj hcb'
      rw [hp] at hp'
      cases hp'
    rw [hp, Bool.not_true, if_neg Bool.false_ne_true]
    by_cases hdue : st.frameClockMs < cb.dueMs
    · rw [if_pos hdue]
      refine ⟨h, rfl, fun _ _ hj => hj, fun cb' hcb' _ => ?_⟩
      rw [hi] at hcb'
      obtain rfl := some.inj hcb'
      exact hdue
    · rw [if_neg hdue]
      obtain ⟨-, -, hs0, hclient⟩ := h.ok.callbackLt i cb hi
      obtain ⟨j, o, hj, hid, hoc, hok⟩ := h.ok.callback i cb hi
      obtain ⟨s, hsj, rfl⟩ := map_eq_some_iff.1 hj
      have hfind : st.findSurface cb.surfaceId = some (j, s) := by
        refine findEntry_eq (h.ok.surfaceLt j _ hj) hsj hid fun k _ t ht he => ?_
        exact h.ok.surfaceOnly k j _ _ (owner_of_surface ht) hj (he.trans hid.symm)
      have hfind' : ((st.send cb.clientIdx (.callbackDone cb.id st.frameClockMs)).send cb.clientIdx
          (.deleteId cb.id)).findSurface cb.surfaceId = some (j, s) := hfind
      have hclient' : st.clients cb.clientIdx = true := hclient
      have hok' : s.frameCallbackId = cb.id := hok
      simp only [hclient', if_true, if_neg hs0, hfind', if_pos hok']
      have hv : (((((st.send cb.clientIdx (.callbackDone cb.id st.frameClockMs)).send cb.clientIdx
          (.deleteId cb.id)).setSurface j (some { s with frameCallbackId := 0 })).metaDrop cb.clientIdx
            cb.id).setCallback i none).frames =
          { (st.frames.setSurface j (some ⟨s.owner.id, s.owner.clientIdx, 0⟩)).setCallback i none with
            done := st.frames.done ++ [(cb.clientIdx, cb.id)] } := by
        rw [(faces_setCallback ..).1, (faces_metaDrop ..).1, frames_setSurface, frames_send, frames_send]
        rfl
      generalize (((((st.send cb.clientIdx (.callbackDone cb.id st.frameClockMs)).send cb.clientIdx
          (.deleteId cb.id)).setSurface j (some { s with frameCallbackId := 0 })).metaDrop cb.clientIdx
            cb.id).setCallback i none) = st' at hv ⊢
      have hcalls : st'.callbacks = update st.frames.callbacks i none :=
        congrArg WlFrames.callbacks hv
      refine ⟨⟨?_, ?_⟩, congrArg WlFrames.clock hv, fun k cb' hk => ?_, fun cb' hk => ?_⟩
      · rw [hv]
        exact h.ok.finish hi hp hj hid
      · rw [hv]
        exact h.recent.of_sub rfl (fun _ => le_rfl) fun k cb' hk _ => (update_none_cases hk).2
      · rw [hcalls] at hk
        exact (update_none_cases hk).2
      · rw [hcalls] at hk
        exact absurd rfl (update_none_cases hk).1

theorem framesOk_finishCallbacks (h : st.FramesOk False m) (k : ℕ) :
    ((List.range k).foldl finishCallback st).FramesOk False m ∧
      ((List.range k).foldl finishCallback st).frameClockMs = st.frameClockMs ∧
      ∀ i < k, ∀ cb, ((List.range k).foldl finishCallback st).callbacks i = some cb →
        cb.pending = true → st.frameClockMs < cb.dueMs := by
  induction k with
  | zero => exact ⟨h, rfl, fun i hi => absurd hi (Nat.not_lt_zero i)⟩
  | succ k ih =>
    obtain ⟨hok, hclock, hlate⟩ := ih
    rw [range_succ, foldl_append, foldl_cons, foldl_nil]
    obtain ⟨hok', hclock', hsub, hlast⟩ := framesOk_finishCallback hok k
    refine ⟨hok', hclock'.trans hclock, fun i hi cb hcb hp => ?_⟩
    by_cases hik : i = k
    · subst hik
      exact hclock ▸ hlast cb hcb hp
    · exact hlate i (by omega) cb (hsub i cb hcb) hp

theorem framesOk_finishTick (h : st.FramesOk False m) (src : ℕ → ℕ → ℕ → WlRead) :
    (st.finishTick src).FramesOk True m := by
  obtain ⟨hok, hclock, hlate⟩ := framesOk_finishCallbacks h wl7MaxCallbacks
  have hsame := st.frames_finishTick src
  generalize (List.range wl7MaxCallbacks).foldl finishCallback st = st' at hok hclock hlate hsame
  have hcalm : st'.FramesOk True m := by
    refine ⟨hok.ok, ⟨hok.recent.le, hok.recent.callback, fun _ i cb hi hp hd => ?_⟩⟩
    have hlt := hlate i (hok.ok.callbackLt i cb hi).1 cb hi hp
    have hd' : cb.dueMs = st'.frameClockMs := hd
    omega
  exact hcalm.congr hsame

end Wl7

end Ridux
