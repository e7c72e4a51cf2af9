import Ridux.Wl.Pools

/-!
# A render pass

The invariant of `Ridux.Wl.Owing` while `wl7_tick` reads buffers, draws surfaces and releases buffers.

* `Ok.touch`, `Ok.refresh`, `Ok.drawn`, `Ok.release`: what happens to one surface;
* `Wl7.Ready`: what is damaged was committed, and what was committed can be read;
* `Wl7.stageOk_finishTick`: after a tick every commit is released.
-/

namespace Ridux

open Lib Function List Option

namespace WlStage

variable {v : WlStage} {i j : ℕ} {s : WlShown} {b : WlBuffer} {bs : Bytes}

theorem Ok.refill (h : v.Ok) (hj : v.buffers j = some b) {data : Option Bytes} {dirty : Bool}
    {copy : ℕ × ℕ → Option Bytes} (hdata : ∀ d, data = some d → d.length = b.need)
    (hother : ∀ k, k.2 ≠ b.id → copy k = v.ledger.copy k)
    (hcopy : ∀ c, v.ledger.buffers (c, b.id) ≠ none → dirty = false →
      data ≠ none ∧ copy (c, b.id) = data)
    (howing : dirty = true → ∀ i s, v.surfaces i = some s → b.id = s.bufferId →
      (s.clientIdx, b.id) ∈ v.ledger.owing) :
    { v.setBuffer j (some { b with data := data, dirty := dirty }) with
      ledger := { v.ledger with copy := copy } }.Ok := by
  refine { h with
    buffer := fun k d hk => ?_
    bufferOnly := apart_replace h.bufferOnly hj (fun _ => id) fun _ => id
    made := fun c k sh hk => ?_
    copy := fun k d c hk hd hclean => ?_
    dirty := fun i s k d hi hk he hd => ?_ }
  · rcases update_some_cases hk with ⟨rfl, rfl⟩ | ⟨-, hk⟩
    · obtain ⟨hlt, hdraw, hmade⟩ := h.buffer k b hj
      exact ⟨hlt, ⟨hdraw.id, hdraw.fd, hdraw.width, hdraw.height, hdraw.stride, hdraw.need, hdata⟩,
        hmade⟩
    · exact h.buffer k d hk
  · obtain ⟨hfits, ⟨m, d, hm, hd, hshape⟩, hpool⟩ := h.made c k sh hk
    refine ⟨hfits, ?_, hpool⟩
    by_cases hmj : m = j
    · subst hmj
      obtain rfl := some.inj (hj.symm.trans hm)
      exact ⟨m, _, update_self _ _ _, hd, ⟨hshape.1, hshape.2, hshape.3, hshape.4, hshape.5⟩⟩
    · exact ⟨m, d, entry_update hm hmj, hd, hshape⟩
  · rcases update_some_cases hk with ⟨rfl, rfl⟩ | ⟨hkj, hk⟩
    · exact hcopy c hd hclean
    · obtain ⟨hsome, hsame⟩ := h.copy k d c hk hd hclean
      exact ⟨hsome, (hother _ fun he => hkj (h.bufferOnly k j d b hk hj he)).trans hsame⟩
  · rcases update_some_cases hk with ⟨rfl, rfl⟩ | ⟨-, hk⟩
    · exact howing hd i s hi he
    · exact h.dirty i s k d hi hk he hd

theorem Ok.touch (h : v.Ok) (hj : v.buffers j = some b)
    (howing : ∀ i s, v.surfaces i = some s → b.id = s.bufferId → (s.clientIdx, b.id) ∈ v.ledger.owing) :
    (v.setBuffer j (some { b with dirty := true })).Ok :=
  h.refill hj (h.buffer j b hj).2.1.data (fun _ _ => rfl) (fun _ _ hd => by cases hd) fun _ => howing

theorem Ok.live (h : v.Ok) (hi : v.surfaces i = some s) (hj : v.buffers j = some b)
    (hid : b.id = s.bufferId) : v.ledger.buffers (s.clientIdx, b.id) ≠ none := by
  rw [hid]
  exact (h.current i s hi).2 (hid ▸ (h.buffer j b hj).2.1.id)

theorem Ok.refresh (h : v.Ok) (hi : v.surfaces i = some s) (hj : v.buffers j = some b)
    (hid : b.id = s.bufferId) (hdirty : b.dirty = true) (hlen : bs.length = b.need) :
    ((v.setBuffer j (some { b with data := some bs, dirty := false })).record s.clientIdx
      (.read b.id bs)).Ok := by
  have hlive := h.live hi hj hid
  have hreadable : v.ledger.Readable s.clientIdx b.id := by
    refine ⟨h.dirty i s j b hi hj hid hdirty, ?_⟩
    obtain ⟨sh, hsh⟩ := ne_none_iff_exists'.1 hlive
    rw [hsh]
    exact decide_eq_true (h.made s.clientIdx b.id sh hsh).1
  have hledger : v.ledger.item s.clientIdx (.read b.id bs) =
      { v.ledger with copy := update v.ledger.copy (s.clientIdx, b.id) (some bs) } :=
    if_pos hreadable
  unfold record
  change WlStage.Ok { v.setBuffer j _ with ledger := v.ledger.item s.clientIdx (.read b.id bs) }
  rw [hledger]
  refine h.refill hj (fun d hd => ?_) (fun k hk => ?_) (fun c hc _ => ?_) fun hd => by cases hd
  · obtain rfl := some.inj hd
    exact hlen
  · exact update_of_ne (fun he => hk (congrArg Prod.snd he)) _ _
  · rw [h.owner c s.clientIdx b.id hc hlive]
    exact ⟨some_ne_none bs, update_self _ _ _⟩

theorem Ok.drawn (h : v.Ok) (hi : v.surfaces i = some s) (hj : v.buffers j = some b)
    (hid : b.id = s.bufferId) (hclean : b.dirty = false) (hdata : b.data = some bs) :
    v.record s.clientIdx (.drawn s.id b.id bs) = v := by
  have hb : b.id ≠ 0 := (h.buffer j b hj).2.1.id
  have hcur := (h.current i s hi).1
  have hcopy := (h.copy j b s.clientIdx hj (h.live hi hj hid) hclean).2
  have hshows : v.ledger.Shows s.clientIdx s.id b.id bs := ⟨hb, hcur.trans hid.symm, hcopy.trans hdata⟩
  have hledger : v.ledger.item s.clientIdx (.drawn s.id b.id bs) = v.ledger := if_pos hshows
  unfold record
  rw [hledger]

theorem pending_of_setPending {k : ℕ} (hp : (v.setPending i false).pending k = true) :
    v.pending k = true := by
  unfold setPending at hp
  dsimp only at hp
  by_cases hki : k = i
  · rw [hki, update_self] at hp
    cases hp
  · rwa [update_of_ne hki] at hp

theorem Ok.unpend (h : v.Ok) (hnone : v.holder i = none) : (v.setPending i false).Ok := by
  refine { h with
    mapped := fun k s hk hp hs => ?_
    owing := ?_ }
  · exact h.mapped k s hk (pending_of_setPending hp) hs
  · refine h.owing.trans (List.Perm.of_eq (holders_eq fun k => ?_).symm)
    by_cases hki : k = i
    · subst hki
      rw [hnone]
      simp [holder, setPending]
    · simp [holder, setPending, hki]

theorem Ok.release (h : v.Ok) (hi : v.surfaces i = some s) (hp : v.pending i = true)
    (hj : v.buffers j = some b) (hid : b.id = s.bufferId) (hclean : b.dirty = false) :
    ((v.record s.clientIdx (.event (.bufferRelease s.bufferId))).setPending i false).Ok := by
  have hb : s.bufferId ≠ 0 := hid ▸ (h.buffer j b hj).2.1.id
  have hmem := h.owing_of_pending hi hp hb
  have hledger : v.ledger.item s.clientIdx (.event (.bufferRelease s.bufferId)) =
      { v.ledger with owing := v.ledger.owing.erase (s.clientIdx, s.bufferId) } := if_pos hmem
  unfold record setPending
  dsimp only
  rw [hledger]
  refine { h with
    mapped := fun k t hk hpk hs => ?_
    dirty := fun k t l d hk hl he hd => ?_
    owing := ?_ }
  · exact h.mapped k t hk (pending_of_setPending hpk) hs
  · have hne : (t.clientIdx, d.id) ≠ (s.clientIdx, s.bufferId) := by
      intro heq
      have hlj : l = j := h.bufferOnly l j d b hl hj ((Prod.mk.inj heq).2.trans hid.symm)
      subst hlj
      rw [hj] at hl
      obtain rfl := some.inj hl
      rw [hclean] at hd
      cases hd
    exact (mem_erase_of_ne hne).2 (h.dirty k t l d hk hl he hd)
  · have hsplit : v.holders.Perm ((s.clientIdx, s.bufferId) :: (v.setPending i false).holders) := by
      refine filterMap_range_perm (h.surfaceLt i s hi).1 ?_ ?_ fun k hki => ?_
      · simp [holder, setPending]
      · rw [holder_of_some hi, if_pos ⟨hp, hb⟩]
      · simp [holder, setPending, hki]
    have herase := (h.owing.trans hsplit).erase (s.clientIdx, s.bufferId)
    rwa [erase_cons_head] at herase

theorem holder_congr {w : WlStage} (hs : w.surfaces = v.surfaces) (hp : w.pending i = v.pending i) :
    w.holder i = v.holder i := by
  unfold holder
  rw [hs, hp]

end WlStage

namespace Wl7

variable {st st₀ st' : Wl7} {src : ℕ → ℕ → ℕ → WlRead} {i j pass : ℕ} {s : WlSurface} {b : WlBuffer}

theorem stage_surfaces (hi : st.surfaces i = some s) : st.stage.surfaces i = some s.shown := by
  change (st.surfaces i).map _ = _
  rw [hi]
  rfl

theorem stage_setPending (st : Wl7) (i : ℕ) (due : Bool) :
    ({ st with releasePending := update st.releasePending i due } : Wl7).stage =
      st.stage.setPending i due := rfl

theorem sourceFd_congr (hpools : st'.pools = st.pools) : st'.sourceFd b = st.sourceFd b := by
  unfold sourceFd findPool
  rw [hpools]

/-- What is damaged was committed, and what was committed can be read. -/
structure Ready (st : Wl7) (src : ℕ → ℕ → ℕ → WlRead) : Prop where
  damaged : ∀ i s, st.stage.surfaces i = some s → s.mapped = true → s.bufferId ≠ 0 →
    (st.damage i).has = true → st.releasePending i = true
  read : ∀ i s j b fd, st.stage.surfaces i = some s → st.releasePending i = true →
    st.buffers j = some b → b.id = s.bufferId → st.sourceFd b = some fd →
    ∃ bs, src fd b.offset b.need = .got bs

theorem Ready.congr (h : st.Ready src) (hstage : st'.stage = st.stage)
    (hdamage : st'.damage = st.damage) : st'.Ready src := by
  have hpending : st'.releasePending = st.releasePending := congrArg WlStage.pending hstage
  have hbuffers : st'.buffers = st.buffers := congrArg WlStage.buffers hstage
  have hpools : st'.pools = st.pools := congrArg WlStage.pools hstage
  constructor
  · rw [hstage, hdamage, hpending]
    exact h.damaged
  · intro i s j b fd
    rw [hstage, hpending, hbuffers, sourceFd_congr hpools]
    exact h.read i s j b fd

/-! ### Buffers that have changed -/

/-- The state while buffers are marked. -/
structure Touching (st : Wl7) (src : ℕ → ℕ → ℕ → WlRead) : Prop where
  ok : st.stage.Ok
  ready : st.Ready src

theorem Touching.touchBuffer (h : st.Touching src) (i : ℕ) : (st.touchBuffer i).Touching src := by
  unfold Wl7.touchBuffer
  split
  · exact h
  next s hi =>
    split_ifs with hmapped hidle
    · exact h
    · exact h
    · split
      · exact h
      next j b hfind =>
        obtain ⟨-, hj, hid⟩ := findEntry_eq_some hfind
        have hshown := stage_surfaces hi
        have hb : s.bufferId ≠ 0 := hid ▸ (h.ok.buffer j b hj).2.1.id
        have hp : st.releasePending i = true := by
          by_contra hp
          have hm : s.mapped = true := by simpa using hmapped
          have hhas : (st.damage i).has = true := by
            by_contra hhas
            exact hidle ⟨by simpa using hhas, by simpa using hp⟩
          exact hp (h.ready.damaged i s.shown hshown hm hb hhas)
        refine ⟨h.ok.touch hj fun k t hk ht => ?_, h.ready.damaged, ?_⟩
        · -- all surfaces with this buffer belong to one client
          have hown := h.ok.owner t.clientIdx s.clientIdx b.id (h.ok.live hk hj ht)
            (h.ok.live hshown hj hid)
          rw [hown, hid]
          exact h.ok.owing_of_pending hshown hp hb
        · intro k t l d fd hk hpk hl he hfd
          rcases update_some_cases hl with ⟨rfl, rfl⟩ | ⟨-, hl⟩
          · exact h.ready.read k t l b fd hk hpk hj he hfd
          · exact h.ready.read k t l d fd hk hpk hl he hfd

/-! ### Drawing -/

/-- The state while the surfaces of `st₀` are drawn. -/
structure Rendering (st₀ : Wl7) (src : ℕ → ℕ → ℕ → WlRead) (st : Wl7) : Prop where
  ok : st.stage.Ok
  surfaces : st.surfaces = st₀.surfaces
  layers : st.layerSurfaces = st₀.layerSurfaces
  read : ∀ i s j b fd, st.surfaces i = some s → st.buffers j = some b → b.id = s.bufferId →
    b.dirty = true → st.sourceFd b = some fd → ∃ bs, src fd b.offset b.need = .got bs

theorem Touching.rendering (h : st.Touching src) : Rendering st src st := by
  refine ⟨h.ok, rfl, rfl, fun i s j b fd hi hj hid hd hfd => ?_⟩
  have hmem := h.ok.dirty i s.shown j b (stage_surfaces hi) hj hid hd
  obtain ⟨k, -, hk⟩ := WlStage.mem_holders.1 (h.ok.owing.mem_iff.1 hmem)
  obtain ⟨t, ht, hif⟩ := bind_eq_some_iff.1 hk
  split_ifs at hif with hp
  obtain ⟨-, hb⟩ := Prod.mk.inj (some.inj hif)
  exact h.ready.read k t j b fd ht hp.1 hj hb.symm hfd

theorem Rendering.congr (h : Rendering st₀ src st) (hstage : st'.stage = st.stage)
    (hsurfaces : st'.surfaces = st.surfaces) (hlayers : st'.layerSurfaces = st.layerSurfaces) :
    Rendering st₀ src st' := by
  have hbuffers : st'.buffers = st.buffers := congrArg WlStage.buffers hstage
  have hpools : st'.pools = st.pools := congrArg WlStage.pools hstage
  refine ⟨hstage ▸ h.ok, hsurfaces.trans h.surfaces, hlayers.trans h.layers, ?_⟩
  intro i s j b fd
  rw [hsurfaces, hbuffers, sourceFd_congr hpools]
  exact h.read i s j b fd

theorem length_fillTo (n : ℕ) (bs : Bytes) : (fillTo n bs).length = n := by
  unfold fillTo
  rw [length_take, length_append, length_replicate]
  omega

theorem refreshedData_got {old : Option Bytes} {need : ℕ} (hold : ∀ d, old = some d → d.length = need)
    (bs : Bytes) : refreshedData old need (.got bs) = (some (fillTo need bs), true) := by
  cases old with
  | none => rfl
  | some d =>
    unfold refreshedData
    dsimp only
    rw [drop_eq_nil_of_le (hold d rfl).le, append_nil]

theorem Rendering.fresh (h : Rendering st₀ src st) (hi : st.surfaces i = some s)
    (hj : st.buffers j = some b) (hid : b.id = s.bufferId) :
    ∃ st', (if b.dirty then st.refreshBufferData s.clientIdx src j else st) = st' ∧
      Rendering st₀ src st' ∧ st'.releasePending = st.releasePending ∧
      ∃ d bs, st'.buffers j = some d ∧ d.id = s.bufferId ∧ d.dirty = false ∧ d.data = some bs := by
  have hshown := stage_surfaces hi
  obtain ⟨-, hdraw, -⟩ := h.ok.buffer j b hj
  refine ⟨_, rfl, ?_⟩
  cases hdirty : b.dirty with
  | false =>
    obtain ⟨hdata, -⟩ := h.ok.copy j b s.clientIdx hj (h.ok.live hshown hj hid) hdirty
    obtain ⟨bs, hbs⟩ := ne_none_iff_exists'.1 hdata
    exact ⟨h, rfl, b, bs, hj, hid, hdirty, hbs⟩
  | true =>
    obtain ⟨fd, hfd⟩ : ∃ fd, st.sourceFd b = some fd := by
      obtain ⟨fd, hfd⟩ := ne_none_iff_exists'.1 hdraw.fd
      unfold sourceFd
      rw [hfd]
      cases (st.findPool b.pool).bind fun p => p.2.fd with
      | none => exact ⟨fd, rfl⟩
      | some k => exact ⟨k, rfl⟩
    obtain ⟨bs, hbs⟩ := h.read i s j b fd hi hj hid hdirty hfd
    have hneed : ¬(b.stride * b.height = 0 ∨ 16 * 1024 * 1024 < b.stride * b.height) := by
      rintro (h0 | hlarge)
      · rcases Nat.mul_eq_zero.1 h0 with h0 | h0
        · have hstride := hdraw.stride
          omega
        · exact hdraw.height h0
      · exact absurd hdraw.need (not_le.2 hlarge)
    have heq : st.refreshBufferData s.clientIdx src j =
        (st.setBuffer j (some { b with data := some (fillTo b.need bs), dirty := false })).record
          s.clientIdx (.read b.id (fillTo b.need bs)) := by
      unfold refreshBufferData
      rw [hj]
      dsimp only
      rw [hfd]
      dsimp only
      have hsrc : src fd b.offset (b.stride * b.height) = .got bs := hbs
      have hcopy : refreshedData b.data (b.stride * b.height) (.got bs) =
          (some (fillTo b.need bs), true) := refreshedData_got hdraw.data bs
      rw [if_neg hneed, hsrc, hcopy, hdirty]
      rfl
    rw [if_pos rfl, heq]
    refine ⟨⟨?_, h.surfaces, h.layers, ?_⟩, rfl, _, _, update_self _ _ _, hid, rfl, rfl⟩
    · rw [stage_record, (faces_setBuffer ..).2.2]
      exact h.ok.refresh hshown hj hid hdirty (length_fillTo _ bs)
    · intro k t l d fd' hk hl he hd hfd'
      rcases update_some_cases hl with ⟨rfl, rfl⟩ | ⟨-, hl⟩
      · cases hd
      · exact h.read k t l d fd' hk hl he hd hfd'

theorem Rendering.renderFrom (h : Rendering st₀ src st) (hi : st.surfaces i = some s)
    (hj : st.buffers j = some b) (hid : b.id = s.bufferId) (hclean : b.dirty = false) {bs : Bytes}
    (hdata : b.data = some bs) :
    ∃ st', st.renderFrom i j s = st'.releaseBuffer i s ∧ st'.stage = st.stage ∧
      Rendering st₀ src st' := by
  obtain ⟨-, hdraw, -⟩ := h.ok.buffer j b hj
  have hstride := hdraw.stride
  have hsize : ¬(b.width = 0 ∨ b.height = 0 ∨ b.stride < 4) := by
    rintro (h0 | h0 | h0)
    · exact hdraw.width h0
    · exact hdraw.height h0
    · omega
  unfold Wl7.renderFrom
  rw [hj]
  dsimp only
  rw [hdata]
  dsimp only
  rw [if_neg hsize]
  split_ifs with hout hzero
  · exact ⟨_, rfl, rfl, h.congr rfl rfl rfl⟩
  · exact absurd hzero h.ok.stride
  · refine ⟨_, rfl, ?_, ?_⟩
    · rw [(faces_clearDamage ..).2.2, stage_record, (faces_blit ..).2.2]
      exact h.ok.drawn (stage_surfaces hi) hj hid hclean hdata
    · refine h.congr ?_ rfl rfl
      rw [(faces_clearDamage ..).2.2, stage_record, (faces_blit ..).2.2]
      exact h.ok.drawn (stage_surfaces hi) hj hid hclean hdata

theorem Rendering.releaseBuffer (h : Rendering st₀ src st) (hi : st.surfaces i = some s)
    (hj : st.buffers j = some b) (hid : b.id = s.bufferId) (hclean : b.dirty = false) :
    Rendering st₀ src (st.releaseBuffer i s) ∧ (st.releaseBuffer i s).releasePending i = false ∧
      ∀ k, k ≠ i → (st.releaseBuffer i s).releasePending k = st.releasePending k := by
  have hshown := stage_surfaces hi
  have hclient : st.clients s.clientIdx = true := (h.ok.surfaceLt i s.shown hshown).2
  unfold Wl7.releaseBuffer
  by_cases hp : st.releasePending i = true
  · rw [if_pos hp, if_pos hclient]
    refine ⟨⟨?_, h.surfaces, h.layers, h.read⟩, update_self _ _ _,
      fun k hk => update_of_ne hk _ _⟩
    rw [stage_setPending]
    unfold send
    rw [stage_record]
    exact h.ok.release hshown hp hj hid hclean
  · rw [if_neg hp]
    exact ⟨h, by simpa using hp, fun k _ => rfl⟩

theorem Rendering.renderSurface (h : Rendering st₀ src st) (pass i : ℕ) :
    Rendering st₀ src (st.renderSurface src pass i) ∧
      (∀ k, st.stage.holder k = none → (st.renderSurface src pass i).stage.holder k = none) ∧
      ∀ s, st.surfaces i = some s → st.surfaceRenderPriority s = pass →
        (st.renderSurface src pass i).stage.holder i = none := by
  unfold Wl7.renderSurface
  cases hi : st.surfaces i with
  | none => exact ⟨h, fun k hk => hk, fun s hs => by cases hs⟩
  | some s =>
    have hshown := stage_surfaces hi
    dsimp only
    split_ifs with hmapped hpass
    · refine ⟨h, fun k hk => hk, fun t _ _ => ?_⟩
      rw [WlStage.holder_of_some hshown, if_neg]
      rintro ⟨hp, hb⟩
      have hm : s.mapped = true := h.ok.mapped i s.shown hshown hp hb
      rw [hm] at hmapped
      cases hmapped
    · refine ⟨h, fun k hk => hk, fun t ht hprio => ?_⟩
      obtain rfl := some.inj ht
      exact absurd hprio hpass
    · cases hfind : st.findBuffer s.bufferId with
      | none =>
        -- only a surface without a buffer comes here
        have hzero : s.bufferId = 0 := by
          by_contra hb
          obtain ⟨sh, hsh⟩ := ne_none_iff_exists'.1 ((h.ok.current i s.shown hshown).2 hb)
          obtain ⟨-, ⟨j, b, hj, hid, -⟩, -⟩ := h.ok.made _ _ sh hsh
          have hsome : st.findBuffer s.bufferId = some (j, b) := h.ok.find_buffer hj hid
          rw [hfind] at hsome
          cases hsome
        have hnone : st.stage.holder i = none := by
          rw [WlStage.holder_of_some hshown, if_neg fun hb => hb.2 hzero]
        have hkeep : ∀ k, (st.stage.setPending i false).holder k = st.stage.holder k := by
          intro k
          by_cases hki : k = i
          · rw [hki, hnone]
            simp [WlStage.holder, WlStage.setPending]
          · simp [WlStage.holder, WlStage.setPending, hki]
        refine ⟨⟨h.ok.unpend hnone, h.surfaces, h.layers, h.read⟩, fun k hk => ?_,
          fun t _ _ => ?_⟩
        · exact (hkeep k).trans hk
        · exact (hkeep i).trans hnone
      | some p =>
        obtain ⟨j, b⟩ := p
        obtain ⟨-, hj, hid⟩ := findEntry_eq_some hfind
        obtain ⟨st₁, heq, h₁, hp₁, d, bs, hd, hdid, hclean, hdata⟩ :=
          h.fresh hi hj hid
        dsimp only
        rw [heq]
        have hi₁ : st₁.surfaces i = some s := by rw [h₁.surfaces, ← h.surfaces, hi]
        obtain ⟨st₂, heq₂, hstage₂, h₂⟩ := h₁.renderFrom hi₁ hd hdid hclean hdata
        rw [heq₂]
        have hi₂ : st₂.surfaces i = some s := by rw [h₂.surfaces, ← h.surfaces, hi]
        have hd₂ : st₂.buffers j = some d := (congrFun (congrArg WlStage.buffers hstage₂) j).trans hd
        have hp₂ : st₂.releasePending = st.releasePending :=
          (congrArg WlStage.pending hstage₂).trans hp₁
        obtain ⟨h₃, hdone, hother⟩ := h₂.releaseBuffer hi₂ hd₂ hdid hclean
        have hdone' : (st₂.releaseBuffer i s).stage.holder i = none := by
          have hi₃ : (st₂.releaseBuffer i s).surfaces i = some s := by rw [h₃.surfaces, ← h.surfaces, hi]
          rw [WlStage.holder_of_some (stage_surfaces hi₃), if_neg]
          rintro ⟨hp, -⟩
          exact absurd (hp.symm.trans hdone) (by decide)
        refine ⟨h₃, fun k hk => ?_, fun t _ _ => hdone'⟩
        by_cases hki : k = i
        · rw [hki]
          exact hdone'
        · refine (WlStage.holder_congr ?_ ?_).trans hk
          · change (fun m => ((st₂.releaseBuffer i s).surfaces m).map WlSurface.shown) =
              fun m => (st.surfaces m).map WlSurface.shown
            rw [h₃.surfaces, h.surfaces]
          · exact (hother k hki).trans (congrFun hp₂ k)

/-! ### The end of a tick -/

/-- The state when `k` surfaces are done in a pass: those before them, and those of an earlier pass,
have nothing to release. -/
structure Drawn (st₀ : Wl7) (src : ℕ → ℕ → ℕ → WlRead) (pass k : ℕ) (st : Wl7) : Prop where
  rendering : Rendering st₀ src st
  done : ∀ i s, st₀.surfaces i = some s →
    st₀.surfaceRenderPriority s < pass ∨ st₀.surfaceRenderPriority s = pass ∧ i < k →
    st.stage.holder i = none

theorem Drawn.renderSurface {k : ℕ} (h : Drawn st₀ src pass k st) :
    Drawn st₀ src pass (k + 1) (st.renderSurface src pass k) := by
  obtain ⟨hrendering, hkeep, hnone⟩ := h.rendering.renderSurface pass k
  refine ⟨hrendering, fun i s hi hbefore => ?_⟩
  by_cases hik : st₀.surfaceRenderPriority s = pass ∧ i = k
  · obtain ⟨hprio, rfl⟩ := hik
    refine hnone s (by rw [h.rendering.surfaces, hi]) ?_
    rw [← hprio]
    unfold surfaceRenderPriority findLayerSurfaceBySurface
    rw [h.rendering.layers]
  · refine hkeep i (h.done i s hi (hbefore.imp_right fun hb => ⟨hb.1, ?_⟩))
    have hne : i ≠ k := fun he => hik ⟨hb.1, he⟩
    omega

theorem surfaceRenderPriority_lt (st : Wl7) (s : WlSurface) : st.surfaceRenderPriority s < 5 := by
  unfold surfaceRenderPriority
  split
  · decide
  · split_ifs <;> decide

theorem Rendering.owing_eq_nil (h : Rendering st₀ src st)
    (hdone : ∀ i s, st₀.surfaces i = some s → st.stage.holder i = none) : st.ledger.owing = [] := by
  have hnone : st.stage.holders = [] := by
    refine filterMap_eq_nil_iff.2 fun i _ => ?_
    cases hi : st₀.surfaces i with
    | none =>
      unfold WlStage.holder
      change ((st.surfaces i).map WlSurface.shown).bind _ = none
      rw [h.surfaces, hi]
      rfl
    | some s => exact hdone i s hi
  have howing := h.ok.owing
  rw [hnone] at howing
  exact howing.eq_nil

theorem Rendering.renderSurfaces (h : Rendering st₀ src st) :
    Rendering st₀ src (st.renderSurfaces src) ∧ (st.renderSurfaces src).ledger.owing = [] := by
  have hall : Drawn st₀ src 5 0 (st.renderSurfaces src) := by
    refine foldl_range_invariant (P := fun pass st => Drawn st₀ src pass 0 st) ⟨h, ?_⟩ ?_
    · intro i s _ hbefore
      omega
    · intro pass _ st hst
      have hpass : Drawn st₀ src pass wl7MaxSurfaces
          ((List.range wl7MaxSurfaces).foldl (fun st i => st.renderSurface src pass i) st) :=
        foldl_range_invariant (P := fun k st => Drawn st₀ src pass k st) hst
          fun _ _ _ hk => hk.renderSurface
      refine ⟨hpass.rendering, fun i s hi hbefore => hpass.done i s hi ?_⟩
      have hlt := (hst.rendering.ok.surfaceLt i s.shown
        (stage_surfaces (by rw [hst.rendering.surfaces, hi]))).1
      omega
  refine ⟨hall.rendering, ?_⟩
  exact hall.rendering.owing_eq_nil fun i s hi => hall.done i s hi (.inl (st₀.surfaceRenderPriority_lt s))

theorem damage_metaDrop (c id : ℕ) : (st.metaDrop c id).damage = st.damage := by
  unfold metaDrop
  split <;> rfl

theorem damage_finishCallback (st : Wl7) (i : ℕ) : (st.finishCallback i).damage = st.damage := by
  unfold finishCallback
  split
  · rfl
  · split_ifs
    · rfl
    · rfl
    · exact damage_metaDrop _ _
    · refine (damage_metaDrop _ _).trans ?_
      dsimp only
      split
      · rfl
      · split_ifs <;> rfl
    · exact damage_metaDrop _ _

theorem Touching.finishCallback (h : st.Touching src) (i : ℕ) : (st.finishCallback i).Touching src :=
  ⟨(st.stage_finishCallback i).symm ▸ h.ok,
    h.ready.congr (st.stage_finishCallback i) (st.damage_finishCallback i)⟩

theorem stageOk_finishTick (h : st.stage.Ok) (hready : st.Ready src) :
    (st.finishTick src).stage.Ok ∧ (st.finishTick src).ledger.owing = [] := by
  have hcallbacks := foldl_range_invariant (f := Wl7.finishCallback) (P := fun _ st => st.Touching src)
    (n := wl7MaxCallbacks) (s := st) ⟨h, hready⟩ fun i _ _ hs => hs.finishCallback i
  have htouched := foldl_range_invariant (f := Wl7.touchBuffer) (P := fun _ st => st.Touching src)
    (n := wl7MaxSurfaces) hcallbacks fun i _ _ hs => hs.touchBuffer i
  obtain ⟨hrendering, howing⟩ := htouched.rendering.renderSurfaces
  exact ⟨hrendering.ok, howing⟩

end Wl7

end Ridux
