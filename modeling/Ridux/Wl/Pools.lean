import Ridux.Wl.Owing

/-!
# Pools and their buffers

The invariant of `Ridux.Wl.Owing` when pools and buffers come, change and go.

* `reshape_eq_self`: a pool without buffers leaves the buffers alone;
* `Ok.createPool`, `Ok.resizePool`, `Ok.destroyPool`: the requests on pools;
* `Ok.createBuffer`, `Ok.destroyBuffer`: those on buffers.
-/

namespace Ridux

open Lib Function List Option

namespace WlStage

variable {v : WlStage} {i j c obj id size : ℕ} {s : WlShown} {p : WlPool}

/-! ### Pools -/

theorem Ok.writePool (h : v.Ok) (hnew : ∀ i p, v.pools i = some p → p.id ≠ id) (o : Option ℕ) :
    { v with ledger := { v.ledger with pools := update v.ledger.pools (c, id) o } }.Ok := by
  refine { h with pool := fun i p hi => ?_ }
  obtain ⟨hlt, hfd, hpool⟩ := h.pool i p hi
  have hne : (p.clientIdx, p.id) ≠ (c, id) := fun he => hnew i p hi (Prod.mk.inj he).2
  exact ⟨hlt, hfd, entry_update hpool hne⟩

theorem Ok.notePool (h : v.Ok) (obj size : ℕ) (hnew : ∀ i p, v.pools i = some p → p.id ≠ id) :
    { v with ledger := v.ledger.request c obj (.createPool id size) }.Ok :=
  h.writePool hnew (some size)

theorem Ok.createPool (h : v.Ok) (obj fd size : ℕ) (hj : j < wl7MaxPools) (hfree : v.pools j = none)
    (hnew : ∀ i p, v.pools i = some p → p.id ≠ id) :
    { v.setPool j (some ⟨id, c, some fd, size⟩) with
      ledger := v.ledger.request c obj (.createPool id size) }.Ok := by
  refine { h.notePool obj size hnew with
    made := fun c k sh hk => ?_
    pool := fun i p hi => ?_
    poolOnly := apart_add h.poolOnly (fun _ _ => Eq.symm) hnew }
  · obtain ⟨hfits, hbuf, i, p, hi, hpool⟩ := h.made c k sh hk
    exact ⟨hfits, hbuf, i, p, entry_of_free hi hfree, hpool⟩
  · rcases update_some_cases hi with ⟨rfl, rfl⟩ | ⟨-, hi⟩
    · exact ⟨hj, some_ne_none fd, update_self _ _ _⟩
    · exact (h.notePool obj size hnew).pool i p hi

theorem reshape_eq_self (f : WlShape → WlShape)
    (hnone : ∀ k sh, v.ledger.buffers (c, k) = some sh → sh.pool ≠ obj) :
    v.ledger.reshape c obj f = v.ledger.buffers := by
  funext k
  unfold WlLedger.reshape
  cases hk : v.ledger.buffers k with
  | none => rfl
  | some sh =>
    rw [map_some, if_neg]
    rintro ⟨rfl, hpool⟩
    exact hnone k.2 sh hk hpool

theorem Ok.pool_ne_of_none (h : v.Ok) (hnone : ∀ i p, v.pools i = some p → p.id ≠ obj) :
    ∀ k sh, v.ledger.buffers (c, k) = some sh → sh.pool ≠ obj := by
  intro k sh hk he
  obtain ⟨-, -, i, p, hi, hid, -⟩ := h.made c k sh hk
  exact hnone i p hi (hid.trans he)

theorem Ok.resizeNone (h : v.Ok) (size : ℕ) (hnone : ∀ i p, v.pools i = some p → p.id ≠ obj) :
    { v with ledger := v.ledger.request c obj (.resizePool size) }.Ok := by
  have hsame := reshape_eq_self (c := c) (fun b => { b with size := size }) (h.pool_ne_of_none hnone)
  unfold WlLedger.request
  dsimp only
  rw [hsame]
  exact h.writePool hnone _

theorem Ok.destroyNone (h : v.Ok) (hnone : ∀ i p, v.pools i = some p → p.id ≠ obj) :
    { v with ledger := v.ledger.request c obj .destroyPool }.Ok := by
  have hsame := reshape_eq_self (c := c) (fun b => { b with pool := 0 }) (h.pool_ne_of_none hnone)
  unfold WlLedger.request
  dsimp only
  rw [hsame]
  exact h.writePool hnone _

theorem Ok.destroyPool (h : v.Ok) (hj : v.pools j = some p)
    (hnone : ∀ i b, v.buffers i = some b → b.pool ≠ p.id) :
    { v.setPool j none with ledger := v.ledger.request p.clientIdx p.id .destroyPool }.Ok := by
  have hempty : ∀ c k sh, v.ledger.buffers (c, k) = some sh → sh.pool ≠ p.id := by
    intro c k sh hk he
    obtain ⟨-, ⟨i, b, hi, -, hshape⟩, -⟩ := h.made c k sh hk
    exact hnone i b hi (hshape.pool.trans he)
  have hsame := reshape_eq_self (fun b => { b with pool := 0 }) (hempty p.clientIdx)
  unfold WlLedger.request
  dsimp only
  rw [hsame]
  refine { h with
    made := fun c k sh hk => ?_
    pool := fun i q hi => ?_
    poolOnly := apart_erase h.poolOnly }
  · obtain ⟨hfits, hbuf, i, q, hi, hid, hpool⟩ := h.made c k sh hk
    have hij : i ≠ j := by
      refine ne_of_entry hi hj ?_
      rintro rfl
      exact hempty c k sh hk hid.symm
    exact ⟨hfits, hbuf, i, q, entry_update hi hij, hid, hpool⟩
  · obtain ⟨hij, hi⟩ := update_none_cases hi
    obtain ⟨hlt, hfd, hpool⟩ := h.pool i q hi
    have hne : (q.clientIdx, q.id) ≠ (p.clientIdx, p.id) :=
      fun he => hij (h.poolOnly i j q p hi hj (Prod.mk.inj he).2)
    exact ⟨hlt, hfd, entry_update hpool hne⟩

theorem Ok.resizePool (h : v.Ok) (hj : v.pools j = some p) (hsize : p.size ≤ size) :
    { v.setPool j (some { p with size := size }) with
      ledger := v.ledger.request p.clientIdx p.id (.resizePool size) }.Ok := by
  -- a buffer has the shape that it had before, in a pool that may be larger
  have hold : ∀ {k sh},
      v.ledger.reshape p.clientIdx p.id (fun b => { b with size := size }) k = some sh →
      ∃ sh', v.ledger.buffers k = some sh' ∧
        (k.1 = p.clientIdx ∧ sh'.pool = p.id ∧ sh = { sh' with size := size } ∨
          ¬(k.1 = p.clientIdx ∧ sh'.pool = p.id) ∧ sh = sh') := by
    intro k sh hk
    obtain ⟨sh', hk', rfl⟩ := map_eq_some_iff.1 hk
    refine ⟨sh', hk', ?_⟩
    split_ifs with hc
    · exact .inl ⟨hc.1, hc.2, rfl⟩
    · exact .inr ⟨hc, rfl⟩
  have hlive : ∀ k, v.ledger.reshape p.clientIdx p.id (fun b => { b with size := size }) k ≠ none ↔
      v.ledger.buffers k ≠ none := by
    intro k
    unfold WlLedger.reshape
    rw [ne_eq, map_eq_none_iff]
  have hpools : ∀ {i q}, update v.pools j (some { p with size := size }) i = some q →
      ∃ q', v.pools i = some q' ∧ q.id = q'.id ∧ q.clientIdx = q'.clientIdx ∧ q.fd = q'.fd ∧
        (i = j ∧ q' = p ∧ q.size = size ∨ i ≠ j ∧ q = q') := by
    intro i q hi
    rcases update_some_cases hi with ⟨rfl, rfl⟩ | ⟨hij, hi⟩
    · exact ⟨p, hj, rfl, rfl, rfl, .inl ⟨rfl, rfl, rfl⟩⟩
    · exact ⟨q, hi, rfl, rfl, rfl, .inr ⟨hij, rfl⟩⟩
  refine { h with
    attached := fun i s hi => ?_
    current := fun i s hi => ?_
    buffer := fun k b hk => ?_
    made := fun c k sh hk => ?_
    owner := fun c d k hc hd => h.owner c d k ((hlive _).1 hc) ((hlive _).1 hd)
    pool := fun i q hi => ?_
    poolOnly := apart_replace h.poolOnly hj (fun _ => id) fun _ => id
    copy := fun k b c hk hb hdirty => h.copy k b c hk ((hlive _).1 hb) hdirty }
  · exact ⟨(h.attached i s hi).1, fun h0 => (hlive _).2 ((h.attached i s hi).2 h0)⟩
  · exact ⟨(h.current i s hi).1, fun h0 => (hlive _).2 ((h.current i s hi).2 h0)⟩
  · obtain ⟨hlt, hdraw, c, hc⟩ := h.buffer k b hk
    exact ⟨hlt, hdraw, c, (hlive _).2 hc⟩
  · obtain ⟨sh', hk', hsh⟩ := hold hk
    obtain ⟨hfits, ⟨m, b, hm, hid, hshape⟩, i, q, hi, hq, hqc, hqs⟩ := h.made c k sh' hk'
    rcases hsh with ⟨rfl, hpool, rfl⟩ | ⟨hother, rfl⟩
    · have hij : i = j := h.poolOnly i j q p hi hj (hq.trans hpool)
      subst hij
      obtain rfl := some.inj (hj.symm.trans hi)
      refine ⟨⟨hfits.1, hfits.2.trans (hqs.symm.trans_le hsize)⟩,
        ⟨m, b, hm, hid, ⟨hshape.1, hshape.2, hshape.3, hshape.4, hshape.5⟩⟩,
        i, _, update_self _ _ _, hq, hqc, rfl⟩
    · have hij : i ≠ j := by
        refine ne_of_entry hi hj ?_
        rintro rfl
        exact hother ⟨hqc.symm, hq.symm⟩
      exact ⟨hfits, ⟨m, b, hm, hid, hshape⟩, i, q, entry_update hi hij, hq, hqc, hqs⟩
  · obtain ⟨q', hi', hid, hc, hfd, hq⟩ := hpools hi
    obtain ⟨hlt, hfd', hpool⟩ := h.pool i q' hi'
    refine ⟨hlt, hfd ▸ hfd', ?_⟩
    rw [hid, hc]
    rcases hq with ⟨rfl, rfl, hs⟩ | ⟨hij, rfl⟩
    · rw [hs]
      exact update_self _ _ _
    · have hne : (q.clientIdx, q.id) ≠ (p.clientIdx, p.id) :=
        fun he => hij (h.poolOnly i j q p hi' hj (Prod.mk.inj he).2)
      exact entry_update hpool hne

/-! ### Buffers -/

theorem Ok.ne_of_new (h : v.Ok) (hnew : ∀ k b, v.buffers k = some b → b.id ≠ id) {k : ℕ × ℕ}
    (hk : v.ledger.buffers k ≠ none) : k.2 ≠ id := by
  obtain ⟨sh, hsh⟩ := ne_none_iff_exists'.1 hk
  obtain ⟨-, ⟨j, b, hj, hid, -⟩, -⟩ := h.made k.1 k.2 sh hsh
  rw [← hid]
  exact hnew j b hj

theorem Ok.createBuffer (h : v.Ok) (hi : v.pools i = some p) (hj : j < wl7MaxBuffers)
    (hfree : v.buffers j = none) (hnew : ∀ k b, v.buffers k = some b → b.id ≠ id) (hid : id ≠ 0)
    {offset w height stride : ℕ} (format : ℕ) (hw : w ≠ 0) (hheight : height ≠ 0)
    (hstride : 4 * w ≤ stride) (hneed : stride * height ≤ 16 * 1024 * 1024)
    (hfits : offset + stride * height ≤ p.size) :
    { v.setBuffer j (some ⟨id, p.fd, w, height, stride, format, none, p.id, offset, true, false⟩) with
      ledger := v.ledger.request p.clientIdx p.id
        (.createBuffer id offset w height stride format) }.Ok := by
  obtain ⟨-, hfd, hpool⟩ := h.pool i p hi
  have hledger : v.ledger.request p.clientIdx p.id (.createBuffer id offset w height stride format) =
      { v.ledger with
        buffers := update v.ledger.buffers (p.clientIdx, id)
          (some ⟨p.id, offset, w, height, stride, p.size⟩)
        copy := update v.ledger.copy (p.clientIdx, id) none } := by
    unfold WlLedger.request
    rw [hpool]
    rfl
  rw [hledger]
  have hne : ∀ {k}, v.ledger.buffers k ≠ none → k ≠ (p.clientIdx, id) :=
    fun hk he => h.ne_of_new hnew hk (congrArg Prod.snd he)
  have hlive : ∀ {k}, v.ledger.buffers k ≠ none →
      update v.ledger.buffers (p.clientIdx, id)
        (some ⟨p.id, offset, w, height, stride, p.size⟩) k ≠ none := by
    intro k hk
    rwa [update_of_ne (hne hk)]
  refine { h with
    attached := fun k s hk => ⟨(h.attached k s hk).1, fun h0 => hlive ((h.attached k s hk).2 h0)⟩
    current := fun k s hk => ⟨(h.current k s hk).1, fun h0 => hlive ((h.current k s hk).2 h0)⟩
    buffer := fun k b hk => ?_
    bufferOnly := apart_add h.bufferOnly (fun _ _ => Eq.symm) hnew
    made := fun c k sh hk => ?_
    owner := fun c d k hc hd => ?_
    copy := fun k b c hk hb hdirty => ?_
    dirty := fun k s l b hk hl he hd => ?_ }
  · rcases update_some_cases hk with ⟨rfl, rfl⟩ | ⟨-, hk⟩
    · refine ⟨hj, ⟨hid, hfd, hw, hheight, ?_, hneed, fun d hd => by cases hd⟩, p.clientIdx, ?_⟩
      · change 4 ≤ stride
        omega
      · exact ne_of_eq_of_ne (update_self _ _ _) (some_ne_none _)
    · obtain ⟨hlt, hdraw, c, hc⟩ := h.buffer k b hk
      exact ⟨hlt, hdraw, c, hlive hc⟩
  · rcases update_cases hk with ⟨heq, hsh⟩ | ⟨-, hk⟩
    · obtain ⟨rfl, rfl⟩ := Prod.mk.inj heq
      obtain rfl := some.inj hsh
      exact ⟨⟨hstride, hfits⟩, ⟨j, _, update_self _ _ _, rfl, ⟨rfl, rfl, rfl, rfl, rfl⟩⟩,
        i, p, hi, rfl, rfl, rfl⟩
    · obtain ⟨hsh, ⟨m, b, hm, hb, hshape⟩, hown⟩ := h.made c k sh hk
      exact ⟨hsh, ⟨m, b, entry_of_free hm hfree, hb, hshape⟩, hown⟩
  · -- nobody else has made a buffer with this object
    have hold : ∀ {e}, update v.ledger.buffers (p.clientIdx, id)
        (some ⟨p.id, offset, w, height, stride, p.size⟩) (e, k) ≠ none →
          (k = id ∧ e = p.clientIdx) ∨ (k ≠ id ∧ v.ledger.buffers (e, k) ≠ none) := by
      intro e he
      by_cases hek : (e, k) = (p.clientIdx, id)
      · exact .inl ⟨(Prod.mk.inj hek).2, (Prod.mk.inj hek).1⟩
      · rw [update_of_ne hek] at he
        exact .inr ⟨h.ne_of_new hnew he, he⟩
    rcases hold hc with ⟨rfl, rfl⟩ | ⟨hk, hc'⟩ <;> rcases hold hd with ⟨hkd, rfl⟩ | ⟨hk', hd'⟩
    · rfl
    · exact absurd rfl hk'
    · exact absurd hkd hk
    · exact h.owner c d k hc' hd'
  · rcases update_some_cases hk with ⟨rfl, rfl⟩ | ⟨-, hk⟩
    · cases hdirty
    · have hne' : (c, b.id) ≠ (p.clientIdx, id) := fun he => hnew k b hk (Prod.mk.inj he).2
      have hb' : v.ledger.buffers (c, b.id) ≠ none :=
        ne_of_eq_of_ne (update_of_ne hne' _ _).symm hb
      obtain ⟨hsome, hcopy⟩ := h.copy k b c hk hb' hdirty
      exact ⟨hsome, (update_of_ne hne' _ _).trans hcopy⟩
  · rcases update_some_cases hl with ⟨rfl, rfl⟩ | ⟨-, hl⟩
    · have hs : s.bufferId = id := he.symm
      exact absurd hs (h.ne_of_new hnew ((h.current k s hk).2 (hs ▸ hid)))
    · exact h.dirty k s l b hk hl he hd

/-- A surface has the buffer `k` no more. -/
def forget (k : ℕ) (s : WlShown) : WlShown :=
  { s with
    bufferId := if s.bufferId = k then 0 else s.bufferId
    attachedBuffer := if s.attachedBuffer = k then 0 else s.attachedBuffer }

theorem Ok.destroyBufferNone (h : v.Ok) (hnone : ∀ k b, v.buffers k = some b → b.id ≠ obj)
    (h0 : obj ≠ 0) : { v with ledger := v.ledger.request c obj .destroyBuffer }.Ok := by
  have hdead : v.ledger.buffers (c, obj) = none := by
    by_contra hk
    exact h.ne_of_new hnone hk rfl
  have hbuffers : update v.ledger.buffers (c, obj) none = v.ledger.buffers := by
    rw [← hdead, update_eq_self]
  have howing : v.ledger.owing.filter (· ≠ (c, obj)) = v.ledger.owing := by
    refine filter_eq_self.2 fun a ha => decide_eq_true ?_
    obtain ⟨i, -, hi⟩ := mem_holders.1 (h.owing.mem_iff.1 ha)
    obtain ⟨s, hs, hif⟩ := bind_eq_some_iff.1 hi
    split_ifs at hif with hp
    obtain rfl := some.inj hif
    intro he
    obtain ⟨-, hb⟩ := Prod.mk.inj he
    exact h.ne_of_new hnone ((h.current i s hs).2 hp.2) hb
  have hledger : v.ledger.request c obj .destroyBuffer =
      { v.ledger with
        attached := WlLedger.without v.ledger.attached c obj
        current := WlLedger.without v.ledger.current c obj } := by
    unfold WlLedger.request
    dsimp only
    rw [hbuffers, howing]
  rw [hledger]
  refine { h with
    attached := fun i s hi => ⟨?_, (h.attached i s hi).2⟩
    current := fun i s hi => ⟨?_, (h.current i s hi).2⟩ }
  · obtain ⟨ha, hlive⟩ := h.attached i s hi
    refine (if_neg fun he => ?_).trans ha
    have hobj : s.attachedBuffer = obj := ha.symm.trans he.2
    exact h.ne_of_new hnone (hlive (hobj.symm ▸ h0)) hobj
  · obtain ⟨ha, hlive⟩ := h.current i s hi
    refine (if_neg fun he => ?_).trans ha
    have hobj : s.bufferId = obj := ha.symm.trans he.2
    exact h.ne_of_new hnone (hlive (hobj.symm ▸ h0)) hobj

theorem Ok.destroyBuffer (h : v.Ok) {b : WlBuffer} (hj : v.buffers j = some b) (hb : b.id = obj)
    (hlive : v.ledger.buffers (c, obj) ≠ none) :
    { v.setBuffer j none with
      surfaces := fun i => (v.surfaces i).map (forget obj)
      ledger := v.ledger.request c obj .destroyBuffer }.Ok := by
  have h0 : obj ≠ 0 := hb ▸ (h.buffer j b hj).2.1.id
  have hold : ∀ {i t}, (v.surfaces i).map (forget obj) = some t →
      ∃ s, v.surfaces i = some s ∧ t = forget obj s := by
    intro i t hi
    obtain ⟨s, hs, rfl⟩ := map_eq_some_iff.1 hi
    exact ⟨s, hs, rfl⟩
  have hbuf : ∀ {i d}, update v.buffers j none i = some d →
      v.buffers i = some d ∧ d.id ≠ obj := by
    intro i d hi
    obtain ⟨hij, hi⟩ := update_none_cases hi
    exact ⟨hi, fun hd => hij (h.bufferOnly i j d b hi hj (hd.trans hb.symm))⟩
  have hkeep : ∀ {e k}, k ≠ obj → v.ledger.buffers (e, k) ≠ none →
      update v.ledger.buffers (c, obj) none (e, k) ≠ none := by
    intro e k hk he
    rwa [update_of_ne fun heq => hk (Prod.mk.inj heq).2]
  have hmade' : ∀ {k}, update v.ledger.buffers (c, obj) none k ≠ none →
      v.ledger.buffers k ≠ none := by
    intro k hk
    obtain ⟨sh, hsh⟩ := ne_none_iff_exists'.1 hk
    rw [(update_none_cases hsh).2]
    exact some_ne_none sh
  refine { h with
    surfaceLt := fun i t hi => ?_
    surfaceOnly := fun i k t u hi hk he => ?_
    attached := fun i t hi => ?_
    current := fun i t hi => ?_
    mapped := fun i t hi hp hs => ?_
    buffer := fun k d hk => ?_
    bufferOnly := fun k l d e hk hl he => h.bufferOnly k l d e (hbuf hk).1 (hbuf hl).1 he
    made := fun e k sh hk => ?_
    owner := fun d e k hd he => h.owner d e k (hmade' hd) (hmade' he)
    copy := fun k d e hk he hdirty => h.copy k d e (hbuf hk).1 (hmade' he) hdirty
    dirty := fun i t k d hi hk he hd => ?_
    owing := ?_ }
  · obtain ⟨s, hs, rfl⟩ := hold hi
    exact h.surfaceLt i s hs
  · obtain ⟨s, hs, rfl⟩ := hold hi
    obtain ⟨s', hs', rfl⟩ := hold hk
    exact h.surfaceOnly i k s s' hs hs' he
  · obtain ⟨s, hs, rfl⟩ := hold hi
    obtain ⟨ha, hl⟩ := h.attached i s hs
    by_cases hobj : s.attachedBuffer = obj
    · have hc : s.clientIdx = c := h.owner s.clientIdx c obj (hobj ▸ hl (hobj.symm ▸ h0)) hlive
      refine ⟨(if_pos ⟨hc, ha.trans hobj⟩).trans (if_pos hobj).symm, fun hne => ?_⟩
      exact absurd (if_pos hobj) hne
    · have hsame : (forget obj s).attachedBuffer = s.attachedBuffer := if_neg hobj
      rw [hsame]
      refine ⟨(if_neg fun he => hobj (ha.symm.trans he.2)).trans ha, fun hne => ?_⟩
      exact hkeep hobj (hl hne)
  · obtain ⟨s, hs, rfl⟩ := hold hi
    obtain ⟨ha, hl⟩ := h.current i s hs
    by_cases hobj : s.bufferId = obj
    · have hc : s.clientIdx = c := h.owner s.clientIdx c obj (hobj ▸ hl (hobj.symm ▸ h0)) hlive
      refine ⟨(if_pos ⟨hc, ha.trans hobj⟩).trans (if_pos hobj).symm, fun hne => ?_⟩
      exact absurd (if_pos hobj) hne
    · have hsame : (forget obj s).bufferId = s.bufferId := if_neg hobj
      rw [hsame]
      refine ⟨(if_neg fun he => hobj (ha.symm.trans he.2)).trans ha, fun hne => ?_⟩
      exact hkeep hobj (hl hne)
  · obtain ⟨s, hs', rfl⟩ := hold hi
    refine h.mapped i s hs' hp fun hz => hs ?_
    change (if s.bufferId = obj then 0 else s.bufferId) = 0
    rw [hz, ite_self]
  · obtain ⟨hk', hne⟩ := hbuf hk
    obtain ⟨hlt, hdraw, e, he⟩ := h.buffer k d hk'
    exact ⟨hlt, hdraw, e, hkeep hne he⟩
  · obtain ⟨hne, hk'⟩ := update_none_cases hk
    obtain ⟨hfits, ⟨m, d, hm, hd, hshape⟩, hpool⟩ := h.made e k sh hk'
    have hmj : m ≠ j := by
      refine ne_of_entry hm hj ?_
      rintro rfl
      obtain rfl : obj = k := hb.symm.trans hd
      refine hne (congrArg (·, obj) ?_)
      refine h.owner e c obj ?_ hlive
      rw [hk']
      exact some_ne_none sh
    exact ⟨hfits, ⟨m, d, entry_update hm hmj, hd, hshape⟩, hpool⟩
  · obtain ⟨s, hs, rfl⟩ := hold hi
    obtain ⟨hk', hne⟩ := hbuf hk
    have hsame : s.bufferId ≠ obj := by
      intro hobj
      refine (h.buffer k d hk').2.1.id (he.trans ?_)
      exact if_pos hobj
    have hd' : d.id = s.bufferId := he.trans (if_neg hsame)
    refine mem_filter.2 ⟨h.dirty i s k d hs hk' hd' hd, decide_eq_true fun heq => ?_⟩
    exact hne (Prod.mk.inj heq).2
  · have hholder : ∀ i, { v.setBuffer j none with
        surfaces := fun i => (v.surfaces i).map (forget obj)
        ledger := v.ledger.request c obj .destroyBuffer }.holder i =
          (v.holder i).filter fun a => decide (a ≠ (c, obj)) := by
      intro i
      unfold holder setBuffer
      dsimp only
      cases hs : v.surfaces i with
      | none => rfl
      | some s =>
        obtain ⟨-, hl⟩ := h.current i s hs
        rw [map_some, bind_some, bind_some]
        by_cases hobj : s.bufferId = obj
        · have hc : s.clientIdx = c := h.owner s.clientIdx c obj (hobj ▸ hl (hobj.symm ▸ h0)) hlive
          cases v.pending i <;> simp [forget, hobj, hc, h0, filter_some]
        · by_cases hz : s.bufferId = 0
          · simp [forget, hz]
          · cases v.pending i <;> simp [forget, hobj, hz, filter_some]
    refine (h.owing.filter fun a => decide (a ≠ (c, obj))).trans (List.Perm.of_eq ?_)
    unfold holders
    rw [filter_filterMap]
    exact filterMap_congr fun i _ => (hholder i).symm

end WlStage

end Ridux
