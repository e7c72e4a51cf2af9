import Ridux.Wl.Display
import Ridux.Wl.Fair

/-!
# The life of a buffer

Runs of the compositor whose clients use pools and buffers in an orderly way.

* `Wl7.Orderly`: such a request;
* `Wl7.stageOk_request`: it keeps the invariant of `Ridux.Wl.Owing`;
* `Wl7.orderlyRun_displayed`: what is shown is the buffer of the last commit, every commit is released
  once, and only buffers that wait for their release are read.
-/

namespace Ridux

open Lib Function

theorem WlStage.setSurface_twice (v : WlStage) (i j : ℕ) (s t : Option WlShown) (b : Option WlBuffer) :
    (((v.setSurface i s).setBuffer j b).setPending i true).setSurface i t =
      ((v.setSurface i t).setBuffer j b).setPending i true := by
  unfold setSurface setBuffer setPending
  simp only [update_idem]

namespace Wl7

variable {st : Wl7} {c obj id i j stride w : ℕ} {right : Option ℕ} {r : WlReq} {src : ℕ → ℕ → ℕ → WlRead}
  {msg : WlMsg}

/-! ### Orderly requests -/

/-- No release is due for the surface `id`. -/
def Idle (st : Wl7) (id : ℕ) : Prop :=
  ∀ i s, st.surfaces i = some s → s.id = id → st.releasePending i = true → s.bufferId = 0

/-- An orderly request: a new object has an id that is not in use, and there is room for a buffer; a
buffer has pixels and lies in its pool, and its lines hold its pixels; a pool grows, and goes after its
buffers; a buffer that is attached is there, and so is its surface; and a surface is committed, or goes,
when the buffer of its last commit was released. -/
def OrderlyReq (st : Wl7) (c obj : ℕ) (right : Option ℕ) : WlReq → Prop
  | .createSurface id => ∀ i s, st.surfaces i = some s → s.id ≠ id
  | .createPool id _ => right ≠ none ∧ ∀ i p, st.pools i = some p → p.id ≠ id
  | .createBuffer id offset w h stride _ =>
    id ≠ 0 ∧ (∀ j b, st.buffers j = some b → b.id ≠ id) ∧
      (freeSlot st.buffers wl7MaxBuffers).isSome ∧ w ≠ 0 ∧ h ≠ 0 ∧ 4 * w ≤ stride ∧
      stride * h ≤ 16 * 1024 * 1024 ∧
      ∃ i p, st.findPool obj = some (i, p) ∧ offset + stride * h ≤ p.size
  | .destroyPool => ∀ j b, st.buffers j = some b → b.pool ≠ obj
  | .resizePool size => ∀ i p, st.pools i = some p → p.id = obj → p.size ≤ size
  | .attach buffer _ _ =>
    (st.findSurface obj).isSome ∧ (buffer ≠ 0 → st.ledger.buffers (c, buffer) ≠ none)
  | .commit => (st.findSurface obj).isSome ∧ st.Idle obj
  | .destroySurface => st.Idle obj
  | .destroyLayerSurface =>
    ∀ i ls, st.findLayerSurface obj = some (i, ls) → st.Idle ls.surfaceId
  | _ => True

/-- The client `c` has made what has the id `id`. -/
structure Made (st : Wl7) (c id : ℕ) : Prop where
  surface : ∀ i s, st.surfaces i = some s → s.id = id → s.clientIdx = c
  pool : ∀ i p, st.pools i = some p → p.id = id → p.clientIdx = c
  buffer : ∀ j b, st.buffers j = some b → b.id = id → st.ledger.buffers (c, id) ≠ none

/-- An orderly request of the client that has made the object. -/
def Orderly (st : Wl7) (c obj : ℕ) (right : Option ℕ) (r : WlReq) : Prop :=
  st.Made c obj ∧ st.OrderlyReq c obj right r

/-- The requests of an operation are orderly; and after those of a tick, what is damaged was committed,
and what was committed can be read. -/
def OrderlyOp : Wl7 → Wl7Op → Prop := OpMeets Orderly Ready

/-! ### Surfaces -/

theorem stage_logRequest : (st.logRequest c obj r).stage =
    { st.stage with ledger := st.stage.ledger.request c obj r } := st.stage_record c (.request obj r)

theorem stageOk_quiet (h : st.stage.Ok) (hexec : ((st.logRequest c obj r).exec c obj right r).stage =
    (st.logRequest c obj r).stage) (hledger : st.stage.ledger.request c obj r = st.stage.ledger) :
    (st.request c obj right r).stage.Ok := by
  unfold request
  rw [hexec, stage_logRequest, hledger]
  exact h

theorem stageOk_createSurface (h : st.stage.Ok) (hc : st.clients c = true)
    (hnew : ∀ i s, st.surfaces i = some s → s.id ≠ id) :
    (st.request c obj right (.createSurface id)).stage.Ok := by
  have hnew' : ∀ i s, st.stage.surfaces i = some s → s.id ≠ id := by
    intro i s hi
    obtain ⟨s', hs', rfl⟩ := Option.map_eq_some_iff.1 hi
    exact hnew i s' hs'
  have hreset := h.resetSurface (c := c) obj hnew'
  change ((st.logRequest c obj (.createSurface id)).createSurface c id).stage.Ok
  unfold createSurface
  split
  · rw [stage_logRequest]
    exact hreset
  next i hfree =>
    obtain ⟨hi, hnone⟩ := freeSlot_eq_some hfree
    dsimp only
    rw [(faces_markDamage ..).2.2, (faces_metaSet ..).2.2, stage_setSurface, stage_logRequest]
    refine hreset.addSurface ?_ hi hnew' hc (update_self _ _ _) (update_self _ _ _)
    change (st.surfaces i).map _ = none
    have hsurface : st.surfaces i = none := hnone
    rw [hsurface]
    rfl

theorem stageOk_attach (h : st.stage.Ok) {buffer : ℕ} (x y : BitVec 32)
    (hown : ∀ i s, st.surfaces i = some s → s.id = obj → s.clientIdx = c)
    (hthere : (st.findSurface obj).isSome)
    (hlive : buffer ≠ 0 → st.ledger.buffers (c, buffer) ≠ none) :
    (st.request c obj right (.attach buffer x y)).stage.Ok := by
  obtain ⟨⟨i, s⟩, hfind⟩ := Option.isSome_iff_exists.1 hthere
  obtain ⟨-, hi, rfl⟩ := findEntry_eq_some hfind
  obtain rfl : s.clientIdx = c := hown i s hi rfl
  change ((st.logRequest s.clientIdx s.id (.attach buffer x y)).attach s.id buffer x y).stage.Ok
  have hfind' : (st.logRequest s.clientIdx s.id (.attach buffer x y)).findSurface s.id = some (i, s) :=
    hfind
  unfold attach
  rw [hfind']
  dsimp only
  rw [(faces_markDamage ..).2.2, stage_setSurface, stage_logRequest]
  exact h.attach (stage_surfaces hi) x y hlive

theorem shown_applyLayerSurfaceLayout (ls : WlLayerSurface) (b : Option WlBuffer) (s : WlSurface) :
    (st.applyLayerSurfaceLayout ls b s).shown = s.shown := by
  unfold applyLayerSurfaceLayout
  dsimp only
  split_ifs <;> rfl

theorem stage_mapSurface (st : Wl7) (c : ℕ) {t : WlShown} (hi : st.stage.surfaces i = some t)
    (wasMapped : Bool) (b : Option WlBuffer) :
    (st.mapSurface c i wasMapped b).stage =
      st.stage.setSurface i (some { t with mapped := true }) := by
  obtain ⟨s, hs, rfl⟩ := Option.map_eq_some_iff.1 hi
  unfold mapSurface
  rw [hs]
  dsimp only
  rw [(faces_commitCallback ..).2]
  generalize hls : (st.findLayerSurfaceBySurface s.id).map Prod.snd = ls
  have hshown : (ls.elim s fun ls => st.applyLayerSurfaceLayout ls b s).shown = s.shown := by
    cases ls with
    | none => rfl
    | some ls => exact shown_applyLayerSurfaceLayout ls b s
  generalize (ls.elim s fun ls => st.applyLayerSurfaceLayout ls b s) = s' at hshown ⊢
  have hset : (st.setSurface i (some { s' with mapped := true })).stage =
      st.stage.setSurface i (some { s.shown with mapped := true }) := by
    rw [stage_setSurface, ← hshown]
    rfl
  split_ifs <;> simp [hset]

theorem stageOk_commit (h : st.stage.Ok)
    (hown : ∀ i s, st.surfaces i = some s → s.id = obj → s.clientIdx = c)
    (hthere : (st.findSurface obj).isSome) (hidle : st.Idle obj) :
    (st.request c obj right .commit).stage.Ok := by
  obtain ⟨⟨i, s⟩, hfind⟩ := Option.isSome_iff_exists.1 hthere
  obtain ⟨-, hi, rfl⟩ := findEntry_eq_some hfind
  obtain rfl : s.clientIdx = c := hown i s hi rfl
  have hidle : st.stage.pending i = true → s.shown.bufferId = 0 := hidle i s hi rfl
  have hshown := stage_surfaces hi
  change ((st.logRequest s.clientIdx s.id .commit).commit s.clientIdx s.id).stage.Ok
  have hfind' : (st.logRequest s.clientIdx s.id .commit).findSurface s.id = some (i, s) := hfind
  have hbuffer : ∀ k, (st.logRequest s.clientIdx s.id .commit).findBuffer k = st.findBuffer k := fun _ => rfl
  unfold commit
  rw [hfind']
  dsimp only
  rw [hbuffer]
  by_cases hatt : s.attachedBuffer = 0
  · have hnone : st.findBuffer s.attachedBuffer = none := by
      refine findEntry_eq_none.2 fun j _ b hj => ?_
      rw [hatt]
      exact (h.buffer j b hj).2.1.id
    rw [hnone]
    dsimp only
    unfold commitBuffer
    dsimp only
    rw [if_pos hatt, (faces_clearDamage ..).2.2, Option.map_none, (faces_commitLayer ..).2, (faces_commitXdg ..).2,
      stage_setSurface, stage_logRequest]
    exact h.commitNone hshown hatt hidle
  · obtain ⟨sh, hsh⟩ := Option.ne_none_iff_exists'.1 ((h.attached i s.shown hshown).2 hatt)
    obtain ⟨-, ⟨j, b, hj, hbid, -⟩, -⟩ := h.made _ _ sh hsh
    have hsome : st.findBuffer s.attachedBuffer = some (j, b) := h.find_buffer hj hbid
    rw [hsome]
    dsimp only
    generalize hst₁ : ((((st.logRequest s.clientIdx s.id .commit).commitBuffer i s
      (some (j, b))).commitXdg s.clientIdx s.id).commitLayer s.clientIdx s.id
        ((some (j, b)).map Prod.snd)) = st₁
    have hstage : st₁.stage = ((({ st.stage with
        ledger := st.stage.ledger.request s.clientIdx s.id .commit } : WlStage).setSurface i
          (some { s.shown with bufferId := b.id })).setBuffer j
            (some { b with dirty := true })).setPending i true := by
      rw [← hst₁, (faces_commitLayer ..).2, (faces_commitXdg ..).2]
      unfold commitBuffer
      dsimp only
      rw [if_neg hatt, stage_setPending, (faces_setBuffer ..).2.2, stage_setSurface, stage_logRequest, hbid]
      rfl
    have hi₁ : st₁.stage.surfaces i = some { s.shown with bufferId := b.id } := by
      rw [hstage]
      exact update_self _ _ _
    rw [stage_mapSurface st₁ s.clientIdx hi₁, hstage, WlStage.setSurface_twice]
    exact h.commitSome hshown hj hbid hidle

theorem stage_releaseSurfaceBuffers {s : WlSurface} (hfind : st.findSurface id = some (i, s)) :
    ∃ pending : ℕ → Bool, (st.releaseSurfaceBuffers id).stage = { st.stage with pending := pending } ∧
      ∀ k, k ≠ i → pending k = st.stage.pending k := by
  unfold releaseSurfaceBuffers
  rw [hfind]
  dsimp only
  split_ifs
  · exact ⟨_, rfl, fun k hk => update_of_ne hk _ _⟩
  · exact ⟨_, rfl, fun k _ => rfl⟩

theorem stageOk_destroySurface (h : st.stage.Ok) (hidle : st.Idle obj) :
    (st.request c obj right .destroySurface).stage.Ok := by
  change ((st.logRequest c obj .destroySurface).destroySurface c obj).stage.Ok
  have hlog : (st.logRequest c obj .destroySurface).stage = st.stage := stage_logRequest
  unfold destroySurface
  cases hfind : (st.logRequest c obj .destroySurface).findSurface obj with
  | none => exact hlog.symm ▸ h
  | some p =>
    obtain ⟨i, s⟩ := p
    obtain ⟨-, hi, hid⟩ := findEntry_eq_some hfind
    have hi : st.surfaces i = some s := hi
    have hfind' : ((st.logRequest c obj .destroySurface).send c
        (.surfaceLeave s.id (st.clientOutput c))).findSurface s.id = some (i, s) := by
      rw [hid]
      exact hfind
    obtain ⟨pending, hstage, hkeep⟩ := stage_releaseSurfaceBuffers hfind'
    rw [stage_send _ _ rfl, hlog] at hstage hkeep
    dsimp only
    rw [(faces_metaDrop ..).2.2, stage_setSurface, (faces_clearDamage ..).2.2, stage_dropSurfaceRelated]
    have hout : (st.logRequest c obj .destroySurface).clientOutput c = st.clientOutput c := rfl
    rw [hout, hstage]
    exact h.dropSurface (stage_surfaces hi) (hidle i s hi hid) hkeep

theorem stage_moveOrResize (st : Wl7) (obj : ℕ) :
    (st.moveOrResize obj).stage = st.stage ∨ ∃ i t, st.stage.surfaces i = some t ∧
      (st.moveOrResize obj).stage = st.stage.setSurface i (some { t with mapped := true }) := by
  unfold moveOrResize
  split
  · exact .inl rfl
  · split
    · exact .inl rfl
    next i s hfind =>
      exact .inr ⟨i, s.shown, stage_surfaces (findEntry_eq_some hfind).2.1, stage_setSurface _ _ _⟩

theorem stageOk_moveOrResize (h : st.stage.Ok) :
    (st.request c obj right .moveOrResize).stage.Ok := by
  have hlog : (st.logRequest c obj .moveOrResize).stage = st.stage := stage_logRequest
  change ((st.logRequest c obj .moveOrResize).moveOrResize obj).stage.Ok
  rcases stage_moveOrResize (st.logRequest c obj .moveOrResize) obj with
    hstage | ⟨i, t, hi, hstage⟩
  · rw [hstage, hlog]
    exact h
  · rw [hlog] at hi
    rw [hstage, hlog]
    exact h.showSurface hi (.inl rfl)

theorem stageOk_destroyLayerSurface (h : st.stage.Ok)
    (hidle : ∀ i ls, st.findLayerSurface obj = some (i, ls) → st.Idle ls.surfaceId) :
    (st.request c obj right .destroyLayerSurface).stage.Ok := by
  have hlog : (st.logRequest c obj .destroyLayerSurface).stage = st.stage := stage_logRequest
  change ((st.logRequest c obj .destroyLayerSurface).destroyLayerSurface c obj).stage.Ok
  unfold destroyLayerSurface
  cases hfind : (st.logRequest c obj .destroyLayerSurface).findLayerSurface obj with
  | none => exact hlog.symm ▸ h
  | some p =>
    obtain ⟨k, ls⟩ := p
    have hidle := hidle k ls hfind
    dsimp only
    rw [(faces_metaDrop ..).2.2, (faces_setLayerSurface ..).2.2]
    cases hsurf : (st.logRequest c obj .destroyLayerSurface).findSurface ls.surfaceId with
    | none => exact hlog.symm ▸ h
    | some p =>
      obtain ⟨i, s⟩ := p
      obtain ⟨-, hi, hid⟩ := findEntry_eq_some hsurf
      dsimp only
      rw [stage_setSurface, hlog]
      exact h.showSurface (stage_surfaces hi) (.inr (hidle i s hi hid))

/-! ### Pools and buffers -/

theorem findPool_none (hfind : st.findPool obj = none) (hlt : st.stage.Ok) :
    ∀ i p, st.stage.pools i = some p → p.id ≠ obj := by
  intro i p hi
  exact findEntry_eq_none.1 hfind i (hlt.pool i p hi).1 p hi

theorem stageOk_createPool (h : st.stage.Ok) {size : ℕ} (hright : right ≠ none)
    (hnew : ∀ i p, st.pools i = some p → p.id ≠ id) :
    (st.request c obj right (.createPool id size)).stage.Ok := by
  obtain ⟨fd, rfl⟩ := Option.ne_none_iff_exists'.1 hright
  change ((st.logRequest c obj (.createPool id size)).createPool c id size (some fd)).stage.Ok
  unfold createPool
  split
  · rw [stage_logRequest]
    exact h.notePool obj size hnew
  next i hfree =>
    obtain ⟨hi, hnone⟩ := freeSlot_eq_some hfree
    rw [(faces_metaSet ..).2.2, (faces_setPool ..).2.2, stage_logRequest]
    exact h.createPool obj fd size hi hnone hnew

theorem stageOk_resizePool (h : st.stage.Ok) {size : ℕ}
    (hown : ∀ i p, st.pools i = some p → p.id = obj → p.clientIdx = c)
    (hgrow : ∀ i p, st.pools i = some p → p.id = obj → p.size ≤ size) :
    (st.request c obj right (.resizePool size)).stage.Ok := by
  change ((st.logRequest c obj (.resizePool size)).resizePool obj size).stage.Ok
  have hsame : (st.logRequest c obj (.resizePool size)).findPool obj = st.findPool obj := rfl
  unfold resizePool
  rw [hsame]
  cases hfind : st.findPool obj with
  | none =>
    dsimp only
    rw [stage_logRequest]
    exact h.resizeNone size (findPool_none hfind h)
  | some q =>
    obtain ⟨i, p⟩ := q
    obtain ⟨-, hi, rfl⟩ := findEntry_eq_some hfind
    obtain rfl : p.clientIdx = c := hown i p hi rfl
    dsimp only
    rw [(faces_setPool ..).2.2, stage_logRequest]
    exact h.resizePool hi (hgrow i p hi rfl)

theorem stageOk_destroyPool (h : st.stage.Ok)
    (hown : ∀ i p, st.pools i = some p → p.id = obj → p.clientIdx = c)
    (hempty : ∀ j b, st.buffers j = some b → b.pool ≠ obj) :
    (st.request c obj right .destroyPool).stage.Ok := by
  change ((st.logRequest c obj .destroyPool).destroyPool c obj).stage.Ok
  have hsame : (st.logRequest c obj .destroyPool).findPool obj = st.findPool obj := rfl
  unfold destroyPool
  dsimp only
  rw [(faces_metaDrop ..).2.2, hsame]
  cases hfind : st.findPool obj with
  | none =>
    dsimp only
    rw [stage_logRequest]
    exact h.destroyNone (findPool_none hfind h)
  | some q =>
    obtain ⟨i, p⟩ := q
    obtain ⟨-, hi, rfl⟩ := findEntry_eq_some hfind
    obtain rfl : p.clientIdx = c := hown i p hi rfl
    -- no buffer goes with the pool
    have hdrop : (List.range wl7MaxBuffers).foldl (fun st j => st.dropPoolBuffer p.clientIdx p.id j)
        (st.logRequest p.clientIdx p.id .destroyPool) = st.logRequest p.clientIdx p.id .destroyPool := by
      refine List.foldl_fixed' (fun j => ?_) _
      unfold dropPoolBuffer
      split
      · rfl
      next b hj => exact if_neg (hempty j b hj)
    dsimp only
    rw [hdrop, (faces_setPool ..).2.2, stage_logRequest]
    exact h.destroyPool hi hempty

theorem stageOk_createBuffer (h : st.stage.Ok) {offset height format : ℕ}
    (hown : ∀ i p, st.pools i = some p → p.id = obj → p.clientIdx = c)
    (hreq : st.OrderlyReq c obj right (.createBuffer id offset w height stride format)) :
    (st.request c obj right (.createBuffer id offset w height stride format)).stage.Ok := by
  obtain ⟨hid0, hnew, hroom, hw, hheight, hstride, hneed, i, p, hfind, hfits⟩ := hreq
  obtain ⟨j, hfree⟩ := Option.isSome_iff_exists.1 hroom
  obtain ⟨hj, hnone⟩ := freeSlot_eq_some hfree
  obtain ⟨-, hi, rfl⟩ := findEntry_eq_some hfind
  obtain rfl : p.clientIdx = c := hown i p hi rfl
  generalize hr : WlReq.createBuffer id offset w height stride format = r
  change ((st.logRequest p.clientIdx p.id r).exec p.clientIdx p.id right r).stage.Ok
  have hfind' : (st.logRequest p.clientIdx p.id r).findPool p.id = some (i, p) := hfind
  have hfree' : freeSlot (st.logRequest p.clientIdx p.id r).buffers wl7MaxBuffers = some j := hfree
  have hbad : ¬(p.fd = none ∨ w = 0 ∨ height = 0 ∨ stride = 0) := by
    rintro (h0 | h0 | h0 | h0)
    · exact (h.pool i p hi).2.1 h0
    · exact hw h0
    · exact hheight h0
    · omega
  rw [← hr]
  change ((st.logRequest p.clientIdx p.id _).createBuffer p.clientIdx p.id id offset w height stride
    format).stage.Ok
  unfold createBuffer
  rw [hr, hfind']
  dsimp only
  rw [if_neg hbad, hfree']
  dsimp only
  rw [(faces_metaSet ..).2.2, (faces_setBuffer ..).2.2, stage_logRequest, ← hr]
  exact h.createBuffer hi hj hnone hnew hid0 format hw hheight hstride hneed hfits

theorem stage_forgetBuffer : (st.forgetBuffer id).stage =
    { st.stage with surfaces := fun i => (st.stage.surfaces i).map (WlStage.forget id) } := by
  unfold stage forgetBuffer forSurfaces
  congr 1
  funext i
  dsimp only
  rw [Option.map_map, Option.map_map]
  rfl

theorem stageOk_destroyBuffer (h : st.stage.Ok) (hobj : obj ≠ 0)
    (hown : ∀ j b, st.buffers j = some b → b.id = obj → st.ledger.buffers (c, obj) ≠ none) :
    (st.request c obj right .destroyBuffer).stage.Ok := by
  change ((st.logRequest c obj .destroyBuffer).destroyBuffer c obj).stage.Ok
  have hsame : (st.logRequest c obj .destroyBuffer).findBuffer obj = st.findBuffer obj := rfl
  unfold destroyBuffer
  dsimp only
  rw [(faces_metaDrop ..).2.2, hsame]
  cases hfind : st.findBuffer obj with
  | none =>
    dsimp only
    rw [stage_logRequest]
    refine h.destroyBufferNone (fun k b hk => ?_) hobj
    exact findEntry_eq_none.1 hfind k (h.buffer k b hk).1 b hk
  | some q =>
    obtain ⟨j, b⟩ := q
    obtain ⟨-, hj, hid⟩ := findEntry_eq_some hfind
    have hj' : ((st.logRequest c obj .destroyBuffer).forgetBuffer obj).buffers j = some b := hj
    dsimp only
    unfold bufferResetSlot
    rw [hj']
    dsimp only
    rw [if_neg fun hb => Bool.false_ne_true hb.1, (faces_setBuffer ..).2.2, stage_forgetBuffer, stage_logRequest]
    exact h.destroyBuffer hj hid (hown j b hj hid)

/-! ### Runs -/

theorem stageOk_request (h : st.stage.Ok) (hobj : obj ≠ 0) (hc : st.clients c = true)
    (horderly : st.Orderly c obj right r) : (st.request c obj right r).stage.Ok := by
  obtain ⟨hmade, hreq⟩ := horderly
  cases r with
  | createSurface id => exact stageOk_createSurface h hc hreq
  | createPool id size => exact stageOk_createPool h hreq.1 hreq.2
  | createBuffer id offset w height stride format => exact stageOk_createBuffer h hmade.pool hreq
  | destroyPool => exact stageOk_destroyPool h hmade.pool hreq
  | resizePool size => exact stageOk_resizePool h hmade.pool hreq
  | destroySurface => exact stageOk_destroySurface h hreq
  | attach buffer x y => exact stageOk_attach h x y hmade.surface hreq.1 hreq.2
  | commit => exact stageOk_commit h hmade.surface hreq.1 hreq.2
  | destroyBuffer => exact stageOk_destroyBuffer h hobj hmade.buffer
  | destroyLayerSurface => exact stageOk_destroyLayerSurface h hreq
  | moveOrResize => exact stageOk_moveOrResize h
  | _ => exact stageOk_quiet h (by simp [exec]) rfl

theorem stageOk_handle (h : st.stage.Ok) (hc : st.clients c = true)
    (hmeets : st.MsgMeets Orderly c msg right) : (st.handle c msg right).stage.Ok := by
  have hlook : (st.lookup c msg.obj).2.stage = st.stage :=
    (st.faces_lookup c msg.obj).2.2
  have hclients : (st.lookup c msg.obj).2.clients = st.clients := congrArg WlStage.clients hlook
  exact handle_keeps (Q := fun st => st.stage.Ok) (hlook.symm ▸ h)
    (fun r hobj hreq => stageOk_request (hlook.symm ▸ h) hobj (hclients ▸ hc) hreq) hmeets

theorem stageOk_tick {msgs : ℕ → List (WlMsg × Option ℕ)} (h : st.stage.Ok)
    (hop : st.OrderlyOp (.tick msgs src)) (hwork : st.hasWork = true) :
    (st.tick msgs src).stage.Ok ∧ (st.tick msgs src).ledger.owing = [] := by
  obtain ⟨hall, hready⟩ := hop hwork
  have hok : (st.advanceClock.handleAll (st.tickMessages msgs)).stage.Ok :=
    handleAll_keeps (Q := fun st => st.stage.Ok)
      (fun _ _ _ _ hs hc hreq => stageOk_handle hs hc hreq) (st.faces_advanceClock.2.symm ▸ h)
      (fun x hx => mem_tickMessages hx) hall
  unfold tick
  rw [hwork]
  exact stageOk_finishTick hok hready

theorem stageOk_start (w h : ℕ) (hstride : stride ≠ 0) :
    (start w h stride).stage.Ok where
  surfaceLt _ _ hi := by cases hi
  surfaceOnly _ _ _ _ hi := by cases hi
  attached _ _ hi := by cases hi
  current _ _ hi := by cases hi
  mapped _ _ hi := by cases hi
  buffer _ _ hi := by cases hi
  bufferOnly _ _ _ _ hi := by cases hi
  made _ _ _ hi := by cases hi
  owner _ _ _ hi := absurd rfl hi
  pool _ _ hi := by cases hi
  poolOnly _ _ _ _ hi := by cases hi
  copy _ _ _ hi := by cases hi
  dirty _ _ _ _ hi := by cases hi
  owing := by
    have hnone : (start w h stride).stage.holders = [] :=
      List.filterMap_eq_nil_iff.2 fun _ _ => rfl
    rw [hnone]
    exact List.Perm.nil
  stride := hstride
  wrong := rfl

theorem stageOk_attachClient (h : st.stage.Ok) : st.attachClient.stage.Ok := by
  unfold attachClient
  split
  · exact h
  next c _ =>
    dsimp only
    rw [(faces_metaSet ..).2.2]
    refine { h with surfaceLt := fun i s hi => ?_ }
    obtain ⟨hlt, hc⟩ := h.surfaceLt i s hi
    refine ⟨hlt, ?_⟩
    change update st.clients c true s.clientIdx = true
    by_cases hcc : s.clientIdx = c
    · rw [hcc, update_self]
    · rwa [update_of_ne hcc]

theorem stageOk_step (h : st.stage.Ok) {op : Wl7Op} (hop : st.OrderlyOp op) :
    (st.step op).stage.Ok := by
  cases op with
  | attach => exact stageOk_attachClient h
  | message c msg right =>
    change (if st.clients c then st.handle c msg right else st).stage.Ok
    by_cases hc : st.clients c = true
    · rw [if_pos hc]
      exact stageOk_handle h hc (hop hc)
    · rw [if_neg hc]
      exact h
  | tick msgs src =>
    change (st.tick msgs src).stage.Ok
    cases hwork : st.hasWork with
    | false =>
      unfold tick
      rw [hwork]
      exact h
    | true => exact (stageOk_tick h hop hwork).1
  | serial => exact st.faces_nextSerial.2.2.symm ▸ h

theorem stageOk_of_run {h : ℕ} (hstride : stride ≠ 0)
    (hrun : Runs OrderlyOp step (start w h stride) st) : st.stage.Ok :=
  Runs.invariant (P := fun st => st.stage.Ok) (fun _ _ hst hop => stageOk_step hst hop) hrun
    (stageOk_start w h hstride)

theorem owing_eq_nil_of_idle (h : st.stage.Ok) (hidle : st.hasWork = false) : st.ledger.owing = [] := by
  have hnone : st.stage.holders = [] := by
    refine List.filterMap_eq_nil_iff.2 fun i hi => ?_
    unfold hasWork at hidle
    rw [Bool.or_eq_false_iff, Bool.or_eq_false_iff] at hidle
    have hslot := List.any_eq_false.1 hidle.1.2 i hi
    cases hs : st.surfaces i with
    | none =>
      unfold WlStage.holder
      change ((st.surfaces i).map WlSurface.shown).bind _ = none
      rw [hs]
      rfl
    | some s =>
      rw [WlStage.holder_of_some (stage_surfaces hs), if_neg]
      rintro ⟨hp, -⟩
      have hp : st.releasePending i = true := hp
      simp [hs, hp] at hslot
  have howing := h.owing
  rw [hnone] at howing
  exact howing.eq_nil

/-- Nothing has happened that should not have, and each buffer that a client made is there as it was
made. -/
structure Displayed (st : Wl7) : Prop where
  right : st.ledger.wrong = []
  kept : ∀ c k sh, st.ledger.buffers (c, k) = some sh →
    ∃ j b, st.findBuffer k = some (j, b) ∧ b.Shaped sh

/-- Every commit was released, and the buffer of the last commit of each surface was read after it. -/
structure Settled (st : Wl7) : Prop where
  released : st.ledger.owing = []
  copied : ∀ i s, st.surfaces i = some s → st.ledger.current (s.clientIdx, s.id) ≠ 0 →
    st.ledger.copy (s.clientIdx, st.ledger.current (s.clientIdx, s.id)) ≠ none

theorem settled_of_released (h : st.stage.Ok) (hnone : st.ledger.owing = []) : st.Settled := by
  refine ⟨hnone, fun i s hi hcur => ?_⟩
  have hshown := stage_surfaces hi
  obtain ⟨hsame, hlive⟩ := h.current i s.shown hshown
  have hsame : st.ledger.current (s.clientIdx, s.id) = s.bufferId := hsame
  rw [hsame] at hcur ⊢
  obtain ⟨sh, hsh⟩ := Option.ne_none_iff_exists'.1 (hlive hcur)
  obtain ⟨-, ⟨j, b, hj, hid, -⟩, -⟩ := h.made _ _ sh hsh
  have hid : b.id = s.bufferId := hid
  cases hd : b.dirty with
  | true =>
    have hmem : (s.clientIdx, b.id) ∈ st.ledger.owing := h.dirty i s.shown j b hshown hj hid hd
    rw [hnone] at hmem
    cases hmem
  | false =>
    obtain ⟨hsome, hcopy⟩ := h.copy j b s.clientIdx hj (h.live hshown hj hid) hd
    rw [← hid]
    exact ne_of_eq_of_ne hcopy hsome

/-- In a run in which all requests are orderly, what is drawn for a surface is the buffer of its last
commit, every release is that of a commit, only buffers that wait for their release and lie in their
pools are read, and no buffer is lost; and after a tick no commit waits for its release. -/
theorem orderlyRun_displayed {w h stride : ℕ} (hstride : stride ≠ 0)
    (hrun : Runs OrderlyOp step (start w h stride) st) :
    st.Displayed ∧ ∀ msgs src, st.OrderlyOp (.tick msgs src) → (st.tick msgs src).Settled := by
  have hok := stageOk_of_run hstride hrun
  refine ⟨⟨hok.wrong, fun c k sh hk => ?_⟩, fun msgs src hop => ?_⟩
  · obtain ⟨-, ⟨j, b, hj, hid, hshape⟩, -⟩ := hok.made c k sh hk
    exact ⟨j, b, hok.find_buffer hj hid, hshape⟩
  · cases hwork : st.hasWork with
    | false =>
      unfold tick
      rw [hwork]
      exact settled_of_released hok (owing_eq_nil_of_idle hok hwork)
    | true =>
      obtain ⟨hok', hnone⟩ := stageOk_tick hok hop hwork
      exact settled_of_released hok' hnone

/-! ### Two short runs -/

/-- A request of the first client to make a pool of four bytes with the id 6. -/
def makePool : Wl7Op := .message 0 ⟨4, 0, [6, 4].flatMap (leBytes 4)⟩ (some 7)

/-- A client that makes a surface. -/
def surfaceAndShmOps : List Wl7Op :=
  [.attach] ++ [ask 2 0 [3, 0, 1, 3]] ++ [ask 2 0 [4, 0, 1, 4]] ++ [ask 3 0 [5]]

/-- And a buffer. -/
def bufferOps : List Wl7Op := surfaceAndShmOps ++ [makePool] ++ [ask 6 0 [7, 0, 1, 1, 4, 0]]

/-- And shows it. -/
def shownOps : List Wl7Op := bufferOps ++ [ask 5 1 [7, 0, 0]] ++ [ask 5 6 []]

/-- A client that destroys the pool of its buffer. -/
def goneOps : List Wl7Op := bufferOps ++ [ask 6 1 []]

theorem orderly_after (ops : List Wl7Op) (op : Wl7Op)
    (hrun : Runs OrderlyOp step (start 640 480 640) (after ops)) (hop : (after ops).OrderlyOp op) :
    Runs OrderlyOp step (start 640 480 640) (after (ops ++ [op])) := by
  unfold after
  rw [List.foldl_append]
  exact hrun.tail op hop

/-- The first client has made everything. -/
def MadeAll (st : Wl7) : Prop :=
  (∀ i < wl7MaxSurfaces, ∀ s ∈ st.surfaces i, s.clientIdx = 0) ∧
    (∀ i < wl7MaxPools, ∀ p ∈ st.pools i, p.clientIdx = 0) ∧
      ∀ j < wl7MaxBuffers, ∀ b ∈ st.buffers j, (st.ledger.buffers (0, b.id)).isSome

instance : Decidable st.MadeAll := inferInstanceAs (Decidable (_ ∧ _ ∧ _))

theorem made_of (h : st.stage.Ok) (hall : st.MadeAll) (id : ℕ) : st.Made 0 id where
  surface i s hi _ := hall.1 i (h.surfaceLt i s.shown (stage_surfaces hi)).1 s hi
  pool i p hi _ := hall.2.1 i (h.pool i p hi).1 p hi
  buffer j b hj hid := by
    have hsome := hall.2.2 j (h.buffer j b hj).1 b hj
    rw [hid] at hsome
    exact Option.isSome_iff_ne_none.1 hsome

theorem orderlyOp_message (kind : WlKind) (r : WlReq)
    (hrun : Runs OrderlyOp step (start 640 480 640) st) (hk : (st.lookup 0 msg.obj).1 = some kind)
    (hd : msg.decode kind = some r) (hall : (st.lookup 0 msg.obj).2.MadeAll)
    (hreq : (st.lookup 0 msg.obj).2.OrderlyReq 0 msg.obj right r) :
    st.OrderlyOp (.message 0 msg right) := by
  intro _
  have hok := stageOk_of_run (by decide) hrun
  exact msgMeets_of kind r hk hd ⟨made_of ((st.faces_lookup 0 msg.obj).2.2.symm ▸ hok) hall _, hreq⟩

theorem orderly_surfaceAndShmOps :
    Runs OrderlyOp step (start 640 480 640) (after surfaceAndShmOps) := by
  have h1 := orderly_after [] .attach (Runs.refl _) trivial
  have h2 := orderly_after [.attach] (ask 2 0 [3, 0, 1, 3]) h1
    (orderlyOp_message .registry (.bind 3 3) h1 (by decide +kernel) (by decide +kernel)
      (by decide +kernel) trivial)
  have h3 := orderly_after ([.attach] ++ [ask 2 0 [3, 0, 1, 3]]) (ask 2 0 [4, 0, 1, 4]) h2
    (orderlyOp_message .registry (.bind 4 4) h2 (by decide +kernel) (by decide +kernel)
      (by decide +kernel) trivial)
  exact orderly_after _ (ask 3 0 [5]) h3
    (orderlyOp_message .compositor (.createSurface 5) h3 (by decide +kernel) (by decide +kernel)
      (by decide +kernel) fun _ _ hi => by cases hi)

theorem orderly_bufferOps : Runs OrderlyOp step (start 640 480 640) (after bufferOps) := by
  have h5 := orderly_after surfaceAndShmOps makePool orderly_surfaceAndShmOps
    (orderlyOp_message .shm (.createPool 6 4) orderly_surfaceAndShmOps (by decide +kernel)
      (by decide +kernel) (by decide +kernel) ⟨Option.some_ne_none 7, fun _ _ hi => by cases hi⟩)
  have hnone : ∀ j b, ((after (surfaceAndShmOps ++ [makePool])).lookup 0 6).2.buffers j = some b →
      b.id ≠ 7 := fun _ _ hi => by cases hi
  exact orderly_after _ (ask 6 0 [7, 0, 1, 1, 4, 0]) h5
    (orderlyOp_message .pool (.createBuffer 7 0 1 1 4 0) h5 (by decide +kernel) (by decide +kernel)
      (by decide +kernel) ⟨by decide, hnone, by decide +kernel, by decide, by decide,
        by decide, by decide, 0, ⟨6, 0, some 7, 4⟩, by decide +kernel, by decide⟩)

/-- A buffer that is shown and released. -/
theorem orderlyRun_displayed_shown :
    (after shownOps).Displayed ∧
      ((after shownOps).tick (fun _ => []) fun _ _ _ => .got [1, 2, 3, 4]).Settled := by
  have h7 := orderly_after bufferOps (ask 5 1 [7, 0, 0]) orderly_bufferOps
    (orderlyOp_message .surface (.attach 7 0 0) orderly_bufferOps (by decide +kernel)
      (by decide +kernel) (by decide +kernel)
      ⟨by decide +kernel, fun _ => Option.isSome_iff_ne_none.1 (by decide +kernel)⟩)
  have h8 : Runs OrderlyOp step (start 640 480 640) (after shownOps) := orderly_after _ _ h7
    (orderlyOp_message .surface .commit h7 (by decide +kernel) (by decide +kernel) (by decide +kernel)
      ⟨by decide +kernel, fun _ _ _ _ hp => by cases hp⟩)
  obtain ⟨hshown, htick⟩ := orderlyRun_displayed (by decide) h8
  have hnone : (after shownOps).tickMessages (fun _ => []) = [] := by
    refine List.flatMap_eq_nil_iff.2 fun c _ => ?_
    split_ifs <;> rfl
  have hpending : ∀ i < wl7MaxSurfaces, ∀ s ∈ (after shownOps).surfaces i,
      (after shownOps).releasePending i = true := by decide +kernel
  have hready : (after shownOps).Ready fun _ _ _ => .got [1, 2, 3, 4] := by
    refine ⟨fun i s hi _ _ _ => ?_, fun _ _ _ _ _ _ _ _ _ _ => ⟨_, rfl⟩⟩
    obtain ⟨t, ht, -⟩ := Option.map_eq_some_iff.1 hi
    exact hpending i ((stageOk_of_run (by decide) h8).surfaceLt i s hi).1 t ht
  refine ⟨hshown, htick _ _ fun _ => ?_⟩
  rw [hnone]
  exact ⟨trivial, hready.congr (faces_advanceClock _).2 rfl⟩

/-- A buffer whose pool is destroyed is lost. -/
theorem not_displayed_gone :
    ¬ ∀ st, Runs (fun _ _ => True) step (start 640 480 640) st → st.Displayed := by
  intro h
  have hst := h (after goneOps) (.of_list (fun _ _ => trivial) _ goneOps)
  have hmade : ((after goneOps).ledger.buffers (0, 7)).isSome := by decide +kernel
  have hgone : (after goneOps).findBuffer 7 = none := by decide +kernel
  obtain ⟨sh, hsh⟩ := Option.isSome_iff_exists.1 hmade
  obtain ⟨j, b, hfind, -⟩ := hst.kept 0 7 sh hsh
  rw [hgone] at hfind
  cases hfind

end Wl7

end Ridux
