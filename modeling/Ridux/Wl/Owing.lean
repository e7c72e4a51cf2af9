import Mathlib.Data.List.Perm.Basic
import Ridux.Wl.Runs

/-!
# Commits and their releases

The tables of surfaces, pools and buffers agree with the ledger, and every commit that was not released
is that of a surface whose release is due.

* `WlStage.holders`: the buffers of the surfaces whose release is due;
* `WlStage.Ok`: the invariant;
* one lemma for each way in which surfaces, pools and buffers change.
-/

namespace Ridux

open Lib Function List Option

/-- The buffer is as its client made it. -/
structure WlBuffer.Shaped (b : WlBuffer) (sh : WlShape) : Prop where
  pool : b.pool = sh.pool
  offset : b.offset = sh.offset
  width : b.width = sh.width
  height : b.height = sh.height
  stride : b.stride = sh.stride

/-- The memory of a buffer, in bytes. -/
def WlBuffer.need (b : WlBuffer) : ℕ := b.stride * b.height

namespace WlStage

/-- The buffer that the surface in slot `i` waits to release. -/
def holder (v : WlStage) (i : ℕ) : Option (ℕ × ℕ) :=
  (v.surfaces i).bind fun s =>
    if v.pending i = true ∧ s.bufferId ≠ 0 then some (s.clientIdx, s.bufferId) else none

/-- The buffers that wait for their release. -/
def holders (v : WlStage) : List (ℕ × ℕ) := (List.range wl7MaxSurfaces).filterMap v.holder

/-- A buffer in the table can be drawn, and its copy is as long as its memory. -/
structure Drawable (b : WlBuffer) : Prop where
  id : b.id ≠ 0
  fd : b.fd ≠ none
  width : b.width ≠ 0
  height : b.height ≠ 0
  stride : 4 ≤ b.stride
  need : b.need ≤ 16 * 1024 * 1024
  data : ∀ d, b.data = some d → d.length = b.need

/-- The tables agree with the ledger: a surface has the buffers that it was given, and these are there;
each buffer that a client made is in the table, in a pool that holds it; a copy that is fresh is what
was read last, and one that is not belongs to a commit that waits for its release; and the commits that
wait are those of the surfaces whose release is due. -/
structure Ok (v : WlStage) : Prop where
  surfaceLt : ∀ i s, v.surfaces i = some s → i < wl7MaxSurfaces ∧ v.clients s.clientIdx = true
  surfaceOnly : ∀ i j s t, v.surfaces i = some s → v.surfaces j = some t → s.id = t.id → i = j
  attached : ∀ i s, v.surfaces i = some s →
    v.ledger.attached (s.clientIdx, s.id) = s.attachedBuffer ∧
      (s.attachedBuffer ≠ 0 → v.ledger.buffers (s.clientIdx, s.attachedBuffer) ≠ none)
  current : ∀ i s, v.surfaces i = some s →
    v.ledger.current (s.clientIdx, s.id) = s.bufferId ∧
      (s.bufferId ≠ 0 → v.ledger.buffers (s.clientIdx, s.bufferId) ≠ none)
  mapped : ∀ i s, v.surfaces i = some s → v.pending i = true → s.bufferId ≠ 0 → s.mapped = true
  buffer : ∀ j b, v.buffers j = some b → j < wl7MaxBuffers ∧ Drawable b ∧
    ∃ c, v.ledger.buffers (c, b.id) ≠ none
  bufferOnly : ∀ i j b d, v.buffers i = some b → v.buffers j = some d → b.id = d.id → i = j
  made : ∀ c k sh, v.ledger.buffers (c, k) = some sh → sh.Fits ∧
    (∃ j b, v.buffers j = some b ∧ b.id = k ∧ b.Shaped sh) ∧
      ∃ i p, v.pools i = some p ∧ p.id = sh.pool ∧ p.clientIdx = c ∧ p.size = sh.size
  owner : ∀ c d k, v.ledger.buffers (c, k) ≠ none → v.ledger.buffers (d, k) ≠ none → c = d
  pool : ∀ i p, v.pools i = some p → i < wl7MaxPools ∧ p.fd ≠ none ∧
    v.ledger.pools (p.clientIdx, p.id) = some p.size
  poolOnly : ∀ i j p q, v.pools i = some p → v.pools j = some q → p.id = q.id → i = j
  copy : ∀ j b c, v.buffers j = some b → v.ledger.buffers (c, b.id) ≠ none → b.dirty = false →
    b.data ≠ none ∧ v.ledger.copy (c, b.id) = b.data
  dirty : ∀ i s j b, v.surfaces i = some s → v.buffers j = some b → b.id = s.bufferId →
    b.dirty = true → (s.clientIdx, b.id) ∈ v.ledger.owing
  owing : v.ledger.owing.Perm v.holders
  stride : v.stride ≠ 0
  wrong : v.ledger.wrong = []

variable {v : WlStage} {i j c id k : ℕ} {s : WlShown} {b : WlBuffer}

theorem holder_of_some (hi : v.surfaces i = some s) :
    v.holder i = if v.pending i = true ∧ s.bufferId ≠ 0 then some (s.clientIdx, s.bufferId) else none := by
  rw [holder, hi]
  rfl

theorem mem_holders {a : ℕ × ℕ} : a ∈ v.holders ↔ ∃ i < wl7MaxSurfaces, v.holder i = some a := by
  unfold holders
  rw [mem_filterMap]
  simp only [mem_range]

theorem Ok.owing_of_pending (h : v.Ok) (hi : v.surfaces i = some s) (hp : v.pending i = true)
    (hs : s.bufferId ≠ 0) : (s.clientIdx, s.bufferId) ∈ v.ledger.owing := by
  refine h.owing.mem_iff.2 (mem_holders.2 ⟨i, (h.surfaceLt i s hi).1, ?_⟩)
  rw [holder_of_some hi, if_pos ⟨hp, hs⟩]

theorem Ok.find_buffer (h : v.Ok) (hj : v.buffers j = some b) (hk : b.id = k) :
    findEntry v.buffers (fun b => b.id = k) wl7MaxBuffers = some (j, b) := by
  refine findEntry_eq (h.buffer j b hj).1 hj hk fun i _ d hi hd => ?_
  exact h.bufferOnly i j d b hi hj (hd.trans hk.symm)

/-! ### Surfaces -/

theorem Ok.resetSurface (h : v.Ok) (obj : ℕ) (hnew : ∀ i s, v.surfaces i = some s → s.id ≠ id) :
    { v with ledger := v.ledger.request c obj (.createSurface id) }.Ok := by
  have hne : ∀ i s, v.surfaces i = some s → (s.clientIdx, s.id) ≠ (c, id) :=
    fun i s hi he => hnew i s hi (Prod.mk.inj he).2
  refine { h with
    attached := fun i s hi => ?_
    current := fun i s hi => ?_ }
  · exact ⟨(update_of_ne (hne i s hi) _ _).trans (h.attached i s hi).1, (h.attached i s hi).2⟩
  · exact ⟨(update_of_ne (hne i s hi) _ _).trans (h.current i s hi).1, (h.current i s hi).2⟩

theorem holders_eq {w : WlStage} (hsame : ∀ i, w.holder i = v.holder i) : w.holders = v.holders :=
  filterMap_congr fun i _ => hsame i

theorem Ok.addSurface (h : v.Ok) (hfree : v.surfaces j = none) (hj : j < wl7MaxSurfaces)
    (hnew : ∀ i s, v.surfaces i = some s → s.id ≠ id) (hc : v.clients c = true)
    (hatt : v.ledger.attached (c, id) = 0) (hcur : v.ledger.current (c, id) = 0) :
    (v.setSurface j (some ⟨id, c, 0, 0, false⟩)).Ok := by
  refine { h with
    surfaceLt := fun i s hi => ?_
    surfaceOnly := apart_add h.surfaceOnly (fun _ _ => Eq.symm) hnew
    attached := fun i s hi => ?_
    current := fun i s hi => ?_
    mapped := fun i s hi hp hs => ?_
    dirty := fun i s k b hi hk he hd => ?_
    owing := ?_ }
  · rcases update_some_cases hi with ⟨rfl, rfl⟩ | ⟨-, hi⟩
    · exact ⟨hj, hc⟩
    · exact h.surfaceLt i s hi
  · rcases update_some_cases hi with ⟨rfl, rfl⟩ | ⟨-, hi⟩
    · exact ⟨hatt, fun h0 => absurd rfl h0⟩
    · exact h.attached i s hi
  · rcases update_some_cases hi with ⟨rfl, rfl⟩ | ⟨-, hi⟩
    · exact ⟨hcur, fun h0 => absurd rfl h0⟩
    · exact h.current i s hi
  · rcases update_some_cases hi with ⟨rfl, rfl⟩ | ⟨-, hi⟩
    · exact absurd rfl hs
    · exact h.mapped i s hi hp hs
  · rcases update_some_cases hi with ⟨rfl, rfl⟩ | ⟨-, hi⟩
    · exact absurd he (h.buffer k b hk).2.1.id
    · exact h.dirty i s k b hi hk he hd
  · have hsame : ∀ i, (v.setSurface j (some ⟨id, c, 0, 0, false⟩)).holder i = v.holder i := by
      intro i
      unfold holder setSurface
      by_cases hij : i = j
      · subst hij
        simp [hfree]
      · simp [hij]
    rw [holders_eq hsame]
    exact h.owing

theorem Ok.dropSurface (h : v.Ok) (hj : v.surfaces j = some s)
    (hidle : v.pending j = true → s.bufferId = 0) {pending : ℕ → Bool}
    (hp : ∀ i, i ≠ j → pending i = v.pending i) :
    { v.setSurface j none with pending := pending }.Ok := by
  refine { h with
    surfaceLt := fun i t hi => h.surfaceLt i t (update_none_cases hi).2
    surfaceOnly := apart_erase h.surfaceOnly
    attached := fun i t hi => h.attached i t (update_none_cases hi).2
    current := fun i t hi => h.current i t (update_none_cases hi).2
    mapped := fun i t hi hpi => ?_
    dirty := fun i t k b hi => h.dirty i t k b (update_none_cases hi).2
    owing := ?_ }
  · obtain ⟨hij, hi⟩ := update_none_cases hi
    exact h.mapped i t hi ((hp i hij).symm.trans hpi)
  have hsame : ∀ i, { v.setSurface j none with pending := pending }.holder i = v.holder i := by
    intro i
    unfold holder setSurface
    by_cases hij : i = j
    · subst hij
      simp only [update_self, bind_none, hj, bind_some]
      rw [if_neg fun hb => hb.2 (hidle hb.1)]
    · simp [hij, hp i hij]
  rw [holders_eq hsame]
  exact h.owing

/-- The surface of a slot changes, and what the ledger has of it. -/
theorem Ok.changeSurface (h : v.Ok) (hj : v.surfaces j = some s) {t : WlShown} (hid : t.id = s.id)
    (hc : t.clientIdx = s.clientIdx) {attached current : ℕ × ℕ → ℕ}
    (hatt : ∀ a ≠ (s.clientIdx, s.id), attached a = v.ledger.attached a)
    (hcur : ∀ a ≠ (s.clientIdx, s.id), current a = v.ledger.current a)
    (hattached : attached (s.clientIdx, s.id) = t.attachedBuffer ∧
      (t.attachedBuffer ≠ 0 → v.ledger.buffers (s.clientIdx, t.attachedBuffer) ≠ none))
    (hcurrent : current (s.clientIdx, s.id) = t.bufferId ∧
      (t.bufferId ≠ 0 → v.ledger.buffers (s.clientIdx, t.bufferId) ≠ none))
    (hmapped : v.pending j = true → t.bufferId ≠ 0 → t.mapped = true)
    (hbuf : t.bufferId = s.bufferId ∨ t.bufferId = 0 ∧ (v.pending j = true → s.bufferId = 0)) :
    { v.setSurface j (some t) with
      ledger := { v.ledger with attached := attached, current := current } }.Ok := by
  have hkey : ∀ {i u}, i ≠ j → v.surfaces i = some u → (u.clientIdx, u.id) ≠ (s.clientIdx, s.id) :=
    fun hij hi he => hij (h.surfaceOnly _ j _ s hi hj (Prod.mk.inj he).2)
  refine { h with
    surfaceLt := fun i u hi => ?_
    surfaceOnly := apart_replace h.surfaceOnly hj (fun _ he => he.trans hid) fun _ => hid.symm.trans
    attached := fun i u hi => ?_
    current := fun i u hi => ?_
    mapped := fun i u hi hp hs => ?_
    dirty := fun i u k b hi hk he hd => ?_
    owing := ?_ }
  · rcases update_some_cases hi with ⟨rfl, rfl⟩ | ⟨-, hi⟩
    · rw [hc]
      exact h.surfaceLt i s hj
    · exact h.surfaceLt i u hi
  · rcases update_some_cases hi with ⟨rfl, rfl⟩ | ⟨hij, hi⟩
    · rw [hid, hc]
      exact hattached
    · exact ⟨(hatt _ (hkey hij hi)).trans (h.attached i u hi).1, (h.attached i u hi).2⟩
  · rcases update_some_cases hi with ⟨rfl, rfl⟩ | ⟨hij, hi⟩
    · rw [hid, hc]
      exact hcurrent
    · exact ⟨(hcur _ (hkey hij hi)).trans (h.current i u hi).1, (h.current i u hi).2⟩
  · rcases update_some_cases hi with ⟨rfl, rfl⟩ | ⟨-, hi⟩
    · exact hmapped hp hs
    · exact h.mapped i u hi hp hs
  · rcases update_some_cases hi with ⟨rfl, rfl⟩ | ⟨-, hi⟩
    · rw [hc]
      rcases hbuf with hsame | ⟨hzero, -⟩
      · exact h.dirty i s k b hj hk (he.trans hsame) hd
      · exact absurd (he.trans hzero) (h.buffer k b hk).2.1.id
    · exact h.dirty i u k b hi hk he hd
  · refine h.owing.trans (List.Perm.of_eq (holders_eq fun i => ?_).symm)
    unfold holder setSurface
    by_cases hij : i = j
    · subst hij
      simp only [update_self, hj, bind_some, hc]
      rcases hbuf with hsame | ⟨hzero, hidle⟩
      · rw [hsame]
      · rw [if_neg fun hb => hb.2 hzero, if_neg fun hb => hb.2 (hidle hb.1)]
    · simp [hij]

theorem Ok.showSurface (h : v.Ok) (hj : v.surfaces j = some s) {m : Bool}
    (hm : m = true ∨ (v.pending j = true → s.bufferId = 0)) :
    (v.setSurface j (some { s with mapped := m })).Ok :=
  h.changeSurface (t := { s with mapped := m }) hj rfl rfl (fun _ _ => rfl) (fun _ _ => rfl)
    (h.attached j s hj) (h.current j s hj) (fun hp hs => hm.resolve_right fun h0 => hs (h0 hp)) (.inl rfl)

theorem Ok.attach (h : v.Ok) (hj : v.surfaces j = some s) (x y : BitVec 32)
    (hk : k ≠ 0 → v.ledger.buffers (s.clientIdx, k) ≠ none) :
    { v.setSurface j (some { s with attachedBuffer := k }) with
      ledger := v.ledger.request s.clientIdx s.id (.attach k x y) }.Ok :=
  h.changeSurface (t := { s with attachedBuffer := k }) hj rfl rfl (fun _ ha => update_of_ne ha _ _)
    (fun _ _ => rfl) ⟨update_self _ _ _, hk⟩ (h.current j s hj) (fun hp hs => h.mapped j s hj hp hs) (.inl rfl)

/-! ### Commits -/

theorem Ok.commitNone (h : v.Ok) (hj : v.surfaces j = some s) (hatt : s.attachedBuffer = 0)
    (hidle : v.pending j = true → s.bufferId = 0) :
    { v.setSurface j (some { s with bufferId := 0, mapped := false }) with
      ledger := v.ledger.request s.clientIdx s.id .commit }.Ok := by
  have hledger : v.ledger.request s.clientIdx s.id .commit =
      { v.ledger with current := update v.ledger.current (s.clientIdx, s.id) 0 } := by
    have h0 : v.ledger.attached (s.clientIdx, s.id) = 0 := (h.attached j s hj).1.trans hatt
    simp [WlLedger.request, h0]
  rw [hledger]
  exact h.changeSurface (t := { s with bufferId := 0, mapped := false }) hj rfl rfl (fun _ _ => rfl)
    (fun _ ha => update_of_ne ha _ _) (h.attached j s hj) ⟨update_self _ _ _, fun h0 => absurd rfl h0⟩
    (fun _ hs => absurd rfl hs) (.inr ⟨rfl, hidle⟩)

theorem Ok.commitSome (h : v.Ok) (hj : v.surfaces j = some s) {n : ℕ} (hn : v.buffers n = some b)
    (hatt : b.id = s.attachedBuffer) (hidle : v.pending j = true → s.bufferId = 0) :
    { ((v.setSurface j (some { s with bufferId := b.id, mapped := true })).setBuffer n
        (some { b with dirty := true })).setPending j true with
      ledger := v.ledger.request s.clientIdx s.id .commit }.Ok := by
  have hb0 : b.id ≠ 0 := (h.buffer n b hn).2.1.id
  have hlive : v.ledger.buffers (s.clientIdx, b.id) ≠ none := by
    rw [hatt]
    exact (h.attached j s hj).2 (hatt ▸ hb0)
  have hledger : v.ledger.request s.clientIdx s.id .commit =
      { v.ledger with
        current := update v.ledger.current (s.clientIdx, s.id) b.id
        owing := (s.clientIdx, b.id) :: v.ledger.owing
        copy := update v.ledger.copy (s.clientIdx, b.id) none } := by
    have h0 : v.ledger.attached (s.clientIdx, s.id) = b.id := (h.attached j s hj).1.trans hatt.symm
    simp [WlLedger.request, h0, hb0]
  rw [hledger]
  have hold : ∀ {i t}, update v.surfaces j (some { s with bufferId := b.id, mapped := true }) i =
      some t → ∃ u, v.surfaces i = some u ∧ t.id = u.id ∧ t.clientIdx = u.clientIdx ∧
        t.attachedBuffer = u.attachedBuffer ∧
          (i = j ∧ u = s ∧ t.bufferId = b.id ∧ t.mapped = true ∨ i ≠ j ∧ t = u) := by
    intro i t hi
    rcases update_some_cases hi with ⟨rfl, rfl⟩ | ⟨hij, hi⟩
    · exact ⟨s, hj, rfl, rfl, rfl, .inl ⟨rfl, rfl, rfl, rfl⟩⟩
    · exact ⟨t, hi, rfl, rfl, rfl, .inr ⟨hij, rfl⟩⟩
  have hbuf : ∀ {k d}, update v.buffers n (some { b with dirty := true }) k = some d →
      ∃ e, v.buffers k = some e ∧ d.id = e.id ∧ (k = n ∧ d = { b with dirty := true } ∨ k ≠ n ∧ d = e) := by
    intro k d hk
    rcases update_some_cases hk with ⟨rfl, rfl⟩ | ⟨hkn, hk⟩
    · exact ⟨b, hn, rfl, .inl ⟨rfl, rfl⟩⟩
    · exact ⟨d, hk, rfl, .inr ⟨hkn, rfl⟩⟩
  refine { h with
    surfaceLt := fun i t hi => ?_
    surfaceOnly := apart_replace h.surfaceOnly hj (fun _ => id) fun _ => id
    attached := fun i t hi => ?_
    current := fun i t hi => ?_
    mapped := fun i t hi hp hs => ?_
    buffer := fun k d hk => ?_
    bufferOnly := apart_replace h.bufferOnly hn (fun _ => id) fun _ => id
    made := fun c k sh hk => ?_
    copy := fun k d c hk hd hdirty => ?_
    dirty := fun i t k d hi hk he hd => ?_
    owing := ?_ }
  · obtain ⟨u, hu, -, hc, -⟩ := hold hi
    rw [hc]
    exact h.surfaceLt i u hu
  · obtain ⟨u, hu, hid, hc, ha, -⟩ := hold hi
    rw [hid, hc, ha]
    exact h.attached i u hu
  · obtain ⟨u, hu, hid, hc, -, ⟨rfl, rfl, hb, -⟩ | ⟨hij, rfl⟩⟩ := hold hi
    · rw [hid, hc, hb]
      exact ⟨update_self _ _ _, fun _ => hlive⟩
    · have hne : (t.clientIdx, t.id) ≠ (s.clientIdx, s.id) :=
        fun he => hij (h.surfaceOnly i j t s hu hj (Prod.mk.inj he).2)
      exact ⟨(update_of_ne hne _ _).trans (h.current i t hu).1, (h.current i t hu).2⟩
  · obtain ⟨u, hu, -, -, -, ⟨-, -, -, hm⟩ | ⟨hij, rfl⟩⟩ := hold hi
    · exact hm
    · exact h.mapped i t hu ((update_of_ne hij _ _).symm.trans hp) hs
  · obtain ⟨e, he, hid, ⟨rfl, rfl⟩ | ⟨-, rfl⟩⟩ := hbuf hk
    · obtain ⟨hlt, hdraw, hmade⟩ := h.buffer k b hn
      exact ⟨hlt, ⟨hdraw.id, hdraw.fd, hdraw.width, hdraw.height, hdraw.stride, hdraw.need, hdraw.data⟩,
        hmade⟩
    · exact h.buffer k d he
  · obtain ⟨hfits, ⟨m, d, hm, hid, hshape⟩, hpool⟩ := h.made c k sh hk
    refine ⟨hfits, ?_, hpool⟩
    by_cases hmn : m = n
    · subst hmn
      obtain rfl := some.inj (hn.symm.trans hm)
      exact ⟨m, _, update_self _ _ _, hid, ⟨hshape.1, hshape.2, hshape.3, hshape.4, hshape.5⟩⟩
    · exact ⟨m, d, entry_update hm hmn, hid, hshape⟩
  · obtain ⟨e, he, hid, ⟨-, rfl⟩ | ⟨hkn, rfl⟩⟩ := hbuf hk
    · cases hdirty
    · have hne : (c, d.id) ≠ (s.clientIdx, b.id) :=
        fun heq => hkn (h.bufferOnly k n d b he hn (Prod.mk.inj heq).2)
      obtain ⟨hsome, hcopy⟩ := h.copy k d c he hd hdirty
      exact ⟨hsome, (update_of_ne hne _ _).trans hcopy⟩
  · obtain ⟨e, hke, hid, hd'⟩ := hbuf hk
    obtain ⟨u, hu, -, hc, -, hu'⟩ := hold hi
    change (t.clientIdx, d.id) ∈ (s.clientIdx, b.id) :: v.ledger.owing
    rcases hu' with ⟨rfl, rfl, hb, -⟩ | ⟨-, rfl⟩
    · rw [hc, he, hb]
      exact mem_cons_self
    · rcases hd' with ⟨rfl, rfl⟩ | ⟨-, rfl⟩
      · -- another surface that has the buffer belongs to the same client
        have hid' : b.id = t.bufferId := he
        have hlive' : v.ledger.buffers (t.clientIdx, b.id) ≠ none := by
          rw [hid']
          exact (h.current i t hu).2 (hid' ▸ hb0)
        rw [h.owner t.clientIdx s.clientIdx b.id hlive' hlive]
        exact mem_cons_self
      · exact mem_cons_of_mem _ (h.dirty i t k d hu hke he hd)
  · refine (h.owing.cons (s.clientIdx, b.id)).trans (List.Perm.symm ?_)
    refine filterMap_range_perm (h.surfaceLt j s hj).1 ?_ ?_ fun i hij => ?_
    · rw [holder_of_some hj, if_neg fun hb => hb.2 (hidle hb.1)]
    · simp [holder, setSurface, setBuffer, setPending, hb0]
    · simp [holder, setSurface, setBuffer, setPending, hij]

end WlStage

end Ridux
