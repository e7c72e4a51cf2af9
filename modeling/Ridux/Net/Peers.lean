import Mathlib.Data.List.Nodup
import Mathlib.Logic.Function.Basic
import Mathlib.Tactic.Common

/-!
# Links and queues

What a table of sockets is for, without the sockets: which slots are in use, who is linked to whom,
and which slots wait in the queue of a listener.

* `PeerTable`: the view of the table;
* `Linked`: links are mutual, and a slot that waits is in use, waits once, and belongs to nobody;
* `Linked.touch`, `Linked.opened`, `Linked.link`, `Linked.push`, `Linked.pop`, `Linked.take`, `Linked.drop`: what
  the calls are made of.

A slot that somebody has a descriptor for is *held*. The two kinds of slot that nobody holds are those
that wait in a queue and the far ends of bridges.
-/

namespace Ridux

open Function List Option

/-- A slot in use: its peer, the connections that wait, and whether it is the client end of a bridge,
which takes its peer along when it closes. -/
structure EndView where
  peer : Option ℕ
  queue : List ℕ
  bridge : Bool

/-- The slots in use. -/
abbrev PeerTable := ℕ → Option EndView

namespace PeerTable

/-- A slot that waits in some queue. -/
def Waiting (v : PeerTable) (q : ℕ) : Prop := ∃ l a, v l = some a ∧ q ∈ a.queue

/-- A slot is freed, and its peer is left alone or freed with it. -/
def drop (v : PeerTable) (q : ℕ) : PeerTable := fun j =>
  if j = q then none
  else if (v q).bind EndView.peer = some j then
    if ((v q).map EndView.bridge).getD false then none
    else (v j).map fun b => { b with peer := none }
  else v j

/-- Mutual links, and queues of slots that nobody holds. -/
structure Linked (v : PeerTable) (held : ℕ → Bool) : Prop where
  both : ∀ i a p, v i = some a → a.peer = some p → ∃ b, v p = some b ∧ b.peer = some i
  unheld : ∀ i a, v i = some a → held i = false → a.queue = [] ∧ a.bridge = false
  live : ∀ l a q, v l = some a → q ∈ a.queue → (v q).isSome ∧ held q = false
  nodup : ∀ l a, v l = some a → a.queue.Nodup
  apart : ∀ l l' a a' q, v l = some a → v l' = some a' → q ∈ a.queue → q ∈ a'.queue → l = l'
  bridged : ∀ i a p, v i = some a → a.bridge = true → a.peer = some p →
    held p = false ∧ ¬v.Waiting p

namespace Linked

variable {v : PeerTable} {held held' : ℕ → Bool} {i q l : ℕ} {a b : EndView}

theorem peer_inj (h : Linked v held) {j p : ℕ} (hi : v i = some a) (hj : v j = some b)
    (ha : a.peer = some p) (hb : b.peer = some p) : i = j := by
  obtain ⟨c, hc, hci⟩ := h.both i a p hi ha
  obtain ⟨c', hc', hcj⟩ := h.both j b p hj hb
  obtain rfl := some.inj (hc.symm.trans hc')
  exact some.inj (hci.symm.trans hcj)

theorem waiting (h : Linked v held) (hw : v.Waiting q) :
    held q = false ∧ ∃ b, v q = some b ∧ b.queue = [] ∧ b.bridge = false := by
  obtain ⟨l, a, hl, hq⟩ := hw
  obtain ⟨hs, hu⟩ := h.live l a q hl hq
  obtain ⟨b, hb⟩ := isSome_iff_exists.1 hs
  exact ⟨hu, b, hb, h.unheld q b hb hu⟩

theorem congr_held (h : Linked v held) (hh : ∀ i, (v i).isSome → held' i = held i) :
    Linked v held' where
  both := h.both
  unheld i a hi hu := h.unheld i a hi (by rw [← hh i (by rw [hi]; rfl)]; exact hu)
  live l a q hl hq := by
    obtain ⟨hs, hu⟩ := h.live l a q hl hq
    exact ⟨hs, (hh q hs).trans hu⟩
  nodup := h.nodup
  apart := h.apart
  bridged i a p hi hb hp := by
    obtain ⟨hu, hw⟩ := h.bridged i a p hi hb hp
    obtain ⟨b, hb', -⟩ := h.both i a p hi hp
    exact ⟨(hh p (by rw [hb']; rfl)).trans hu, hw⟩

theorem shrink (h : Linked v held) {v' : PeerTable}
    (hget : ∀ j c, v' j = some c → ∃ c', v j = some c' ∧ c.queue.Sublist c'.queue ∧
      (∀ q ∈ c.queue, (v' q).isSome) ∧
      (∀ p, c.peer = some p → c'.peer = some p ∧ ∃ d, v' p = some d ∧ d.peer = some j) ∧
      (c.bridge = true → c'.bridge = true ∨ c.peer = none ∧ held j = true)) :
    Linked v' held := by
  refine ⟨fun j c p hj hp => ?_, fun j c hj hu => ?_, fun l c q hl hq => ?_, fun l c hl => ?_,
    fun l l' c c' q hl hl' hq hq' => ?_, fun j c p hj hb hp => ?_⟩
  · obtain ⟨_, _, -, -, hpeer, -⟩ := hget j c hj
    exact (hpeer p hp).2
  · obtain ⟨c', hc', hsub, -, -, hbridge⟩ := hget j c hj
    obtain ⟨h1, h2⟩ := h.unheld j c' hc' hu
    refine ⟨sublist_nil.1 (h1 ▸ hsub), Bool.eq_false_iff.2 fun hct => ?_⟩
    rcases hbridge hct with hbt | ⟨-, hh⟩
    · rw [h2] at hbt
      cases hbt
    · rw [hu] at hh
      cases hh
  · obtain ⟨c', hc', hsub, hlive, -⟩ := hget l c hl
    exact ⟨hlive q hq, (h.live l c' q hc' (hsub.subset hq)).2⟩
  · obtain ⟨c', hc', hsub, -⟩ := hget l c hl
    exact (h.nodup l c' hc').sublist hsub
  · obtain ⟨d, hd, hsub, -⟩ := hget l c hl
    obtain ⟨d', hd', hsub', -⟩ := hget l' c' hl'
    exact h.apart l l' d d' q hd hd' (hsub.subset hq) (hsub'.subset hq')
  · obtain ⟨c', hc', -, -, hpeer, hbridge⟩ := hget j c hj
    rcases hbridge hb with hbt | ⟨hno, -⟩
    · obtain ⟨hu, hw⟩ := h.bridged j c' p hc' hbt (hpeer p hp).1
      refine ⟨hu, ?_⟩
      rintro ⟨l, d, hd, hpd⟩
      obtain ⟨d', hd', hsub, -⟩ := hget l d hd
      exact hw ⟨l, d', hd', hsub.subset hpd⟩
    · rw [hno] at hp
      cases hp

theorem touch (h : Linked v held) (hi : v i = some a) (hp : b.peer = a.peer)
    (hq : b.queue.Sublist a.queue)
    (hb : b.bridge = true → a.bridge = true ∨ a.peer = none ∧ held i = true) :
    Linked (update v i (some b)) held := by
  have hset : ∀ j c, v j = some c → ∃ c', update v i (some b) j = some c' ∧
      c'.peer = c.peer := by
    intro j c hc
    by_cases hj : j = i
    · subst hj
      obtain rfl := some.inj (hi.symm.trans hc)
      exact ⟨b, update_self .., hp⟩
    · exact ⟨c, by rw [update_of_ne hj]; exact hc, rfl⟩
  have hlive : ∀ q, (v q).isSome → (update v i (some b) q).isSome := by
    intro q hs
    obtain ⟨c, hc⟩ := isSome_iff_exists.1 hs
    obtain ⟨c', hc', -⟩ := hset q c hc
    rw [hc']
    rfl
  have hlink : ∀ j c p, v j = some c → c.peer = some p →
      ∃ d, update v i (some b) p = some d ∧ d.peer = some j := by
    intro j c p hc hcp
    obtain ⟨d, hd, hdj⟩ := h.both j c p hc hcp
    obtain ⟨d', hd', hdp⟩ := hset p d hd
    exact ⟨d', hd', hdp.trans hdj⟩
  refine h.shrink fun j c hc => ?_
  by_cases hj : j = i
  · subst hj
    rw [update_self] at hc
    obtain rfl := some.inj hc
    exact ⟨a, hi, hq, fun q hq' => hlive q (h.live j a q hi (hq.subset hq')).1,
      fun p hp' => ⟨hp ▸ hp', hlink j a p hi (hp ▸ hp')⟩, hp ▸ hb⟩
  · rw [update_of_ne hj] at hc
    exact ⟨c, hc, .refl _, fun q hq' => hlive q (h.live j c q hc hq').1,
      fun p hp' => ⟨hp', hlink j c p hc hp'⟩, .inl⟩

theorem drop (h : Linked v held) (hq : v q = some a) (hw : ¬v.Waiting q) :
    Linked (v.drop q) held := by
  -- what is left of a slot
  have hget : ∀ j c, v.drop q j = some c → j ≠ q ∧ ∃ c', v j = some c' ∧ c.queue = c'.queue ∧
      c.bridge = c'.bridge ∧
      (a.peer = some j ∧ a.bridge = false ∧ c.peer = none ∨ a.peer ≠ some j ∧ c = c') := by
    intro j c hc
    unfold PeerTable.drop at hc
    rw [hq] at hc
    dsimp only [bind_some, map_some, getD_some] at hc
    split_ifs at hc with hj hp hb
    · obtain ⟨c', hc', rfl⟩ := map_eq_some_iff.1 hc
      exact ⟨hj, c', hc', rfl, rfl, .inl ⟨hp, by simpa using hb, rfl⟩⟩
    · exact ⟨hj, c, hc, rfl, rfl, .inr ⟨hp, rfl⟩⟩
  have hset : ∀ j c, j ≠ q → a.peer ≠ some j → v j = some c → v.drop q j = some c := by
    intro j c hj hp hc
    unfold PeerTable.drop
    rw [hq, if_neg hj]
    exact (if_neg hp).trans hc
  refine h.shrink fun j c hc => ?_
  obtain ⟨hj, c', hc', hqu, hbr, hcase⟩ := hget j c hc
  refine ⟨c', hc', hqu ▸ .refl _, fun r hr => ?_, fun p hp => ?_, fun hb => .inl (hbr ▸ hb)⟩
  · -- a slot that waits is neither the freed one nor the end of its bridge
    have hr' : v.Waiting r := ⟨j, c', hc', hqu ▸ hr⟩
    have hrq : r ≠ q := by
      rintro rfl
      exact hw hr'
    obtain ⟨hu, b, hb, -⟩ := h.waiting hr'
    unfold PeerTable.drop
    rw [hq, if_neg hrq]
    dsimp only [bind_some, map_some, getD_some]
    split_ifs with hp hbridge
    · exact absurd hr' (h.bridged q a r hq hbridge hp).2
    · rw [hb]
      rfl
    · rw [hb]
      rfl
  · rcases hcase with ⟨-, -, hno⟩ | ⟨hne, rfl⟩
    · rw [hno] at hp
      cases hp
    · obtain ⟨d, hd, hdj⟩ := h.both j c p hc' hp
      refine ⟨hp, d, hset p d ?_ ?_ hd, hdj⟩
      · rintro rfl
        obtain rfl := some.inj (hq.symm.trans hd)
        exact hne hdj
      · intro hap
        obtain ⟨d', hd', hdq⟩ := h.both q a p hq hap
        obtain rfl := some.inj (hd.symm.trans hd')
        exact hj (some.inj (hdj.symm.trans hdq))

theorem opened (h : Linked v held) (hi : v i = none) (hh : ∀ j, j ≠ i → held' j = held j) :
    Linked (update v i (some ⟨none, [], false⟩)) held' := by
  have hne : ∀ j c, v j = some c → j ≠ i := by
    rintro j c hc rfl
    rw [hi] at hc
    cases hc
  have hget : ∀ j c, update v i (some ⟨none, [], false⟩) j = some c →
      v j = some c ∨ j = i ∧ c = ⟨none, [], false⟩ := by
    intro j c hc
    by_cases hj : j = i
    · subst hj
      rw [update_self] at hc
      exact .inr ⟨rfl, (some.inj hc).symm⟩
    · rw [update_of_ne hj] at hc
      exact .inl hc
  have hset : ∀ j c, v j = some c → update v i (some ⟨none, [], false⟩) j = some c := by
    intro j c hc
    rw [update_of_ne (hne j c hc)]
    exact hc
  refine ⟨fun j c p hj hp => ?_, fun j c hj hu => ?_, fun l c q hl hq => ?_, fun l c hl => ?_,
    fun l l' c c' q hl hl' hq hq' => ?_, fun j c p hj hb hp => ?_⟩
  · rcases hget j c hj with hc | ⟨rfl, rfl⟩
    · obtain ⟨d, hd, hdj⟩ := h.both j c p hc hp
      exact ⟨d, hset p d hd, hdj⟩
    · cases hp
  · rcases hget j c hj with hc | ⟨rfl, rfl⟩
    · exact h.unheld j c hc (by rw [← hh j (hne j c hc)]; exact hu)
    · exact ⟨rfl, rfl⟩
  · rcases hget l c hl with hc | ⟨rfl, rfl⟩
    · obtain ⟨hu, b, hb, -⟩ := h.waiting ⟨l, c, hc, hq⟩
      exact ⟨by rw [hset q b hb]; rfl, (hh q (hne q b hb)).trans hu⟩
    · exact absurd hq not_mem_nil
  · rcases hget l c hl with hc | ⟨rfl, rfl⟩
    · exact h.nodup l c hc
    · exact nodup_nil
  · rcases hget l c hl with hc | ⟨rfl, rfl⟩
    · rcases hget l' c' hl' with hc' | ⟨rfl, rfl⟩
      · exact h.apart l l' c c' q hc hc' hq hq'
      · exact absurd hq' not_mem_nil
    · exact absurd hq not_mem_nil
  · rcases hget j c hj with hc | ⟨rfl, rfl⟩
    · obtain ⟨hu, hw⟩ := h.bridged j c p hc hb hp
      obtain ⟨d, hd, -⟩ := h.both j c p hc hp
      refine ⟨(hh p (hne p d hd)).trans hu, ?_⟩
      rintro ⟨l, e, he, hpe⟩
      rcases hget l e he with he' | ⟨rfl, rfl⟩
      · exact hw ⟨l, e, he', hpe⟩
      · exact absurd hpe not_mem_nil
    · cases hp

/-- Two slots without a peer become each other's peer; the first may become the client end of a
bridge to the second, when that is new. -/
theorem link (h : Linked v held) {i j : ℕ} {a b : EndView} (hi : v i = some a) (hj : v j = some b)
    (hij : i ≠ j) (ha : a.peer = none) (hb : b.peer = none) {x : Bool}
    (hx : x = true → held i = true ∧ held j = false ∧ ¬v.Waiting j) (hbb : b.bridge = false) :
    Linked (update (update v j (some { b with peer := some i })) i
      (some { a with peer := some j, bridge := x })) held := by
  generalize hv' : update (update v j (some { b with peer := some i })) i
    (some { a with peer := some j, bridge := x }) = v'
  have hvi : v' i = some { a with peer := some j, bridge := x } := by
    rw [← hv', update_self]
  have hvj : v' j = some { b with peer := some i } := by
    rw [← hv', update_of_ne hij.symm, update_self]
  have hvk : ∀ k, k ≠ i → k ≠ j → v' k = v k := by
    intro k hki hkj
    rw [← hv', update_of_ne hki, update_of_ne hkj]
  -- a slot keeps its queue
  have hget : ∀ k c, v' k = some c → ∃ c', v k = some c' ∧ c.queue = c'.queue ∧
      (c.bridge = true → k = i ∧ x = true ∨ k ≠ i ∧ k ≠ j ∧ c = c') := by
    intro k c hc
    by_cases hki : k = i
    · subst hki
      rw [hvi] at hc
      obtain rfl := some.inj hc
      exact ⟨a, hi, rfl, fun hbr => .inl ⟨rfl, hbr⟩⟩
    · by_cases hkj : k = j
      · subst hkj
        rw [hvj] at hc
        obtain rfl := some.inj hc
        exact ⟨b, hj, rfl, fun hbr => by rw [hbb] at hbr; cases hbr⟩
      · rw [hvk k hki hkj] at hc
        exact ⟨c, hc, rfl, fun _ => .inr ⟨hki, hkj, rfl⟩⟩
  have hset : ∀ k, (v k).isSome → (v' k).isSome := by
    intro k hk
    by_cases hki : k = i
    · rw [hki, hvi]
      rfl
    · by_cases hkj : k = j
      · rw [hkj, hvj]
        rfl
      · rw [hvk k hki hkj]
        exact hk
  have hwait : ∀ k, PeerTable.Waiting v' k → v.Waiting k := by
    rintro k ⟨l, c, hc, hk⟩
    obtain ⟨c', hc', hq, -⟩ := hget l c hc
    exact ⟨l, c', hc', hq ▸ hk⟩
  refine ⟨fun k c p hk hp => ?_, fun k c hk hu => ?_, fun l c q hl hq => ?_, fun l c hl => ?_,
    fun l l' c c' q hl hl' hq hq' => ?_, fun k c p hk hbr hp => ?_⟩
  · by_cases hki : k = i
    · subst hki
      rw [hvi] at hk
      obtain rfl := some.inj hk
      obtain rfl := some.inj hp
      exact ⟨_, hvj, rfl⟩
    · by_cases hkj : k = j
      · subst hkj
        rw [hvj] at hk
        obtain rfl := some.inj hk
        obtain rfl := some.inj hp
        exact ⟨_, hvi, rfl⟩
      · rw [hvk k hki hkj] at hk
        obtain ⟨d, hd, hdk⟩ := h.both k c p hk hp
        refine ⟨d, ?_, hdk⟩
        rw [hvk]
        · exact hd
        · rintro rfl
          rw [hi] at hd
          rw [← some.inj hd, ha] at hdk
          cases hdk
        · rintro rfl
          rw [hj] at hd
          rw [← some.inj hd, hb] at hdk
          cases hdk
  · obtain ⟨c', hc', hq, hbr⟩ := hget k c hk
    obtain ⟨h1, h2⟩ := h.unheld k c' hc' hu
    refine ⟨hq.trans h1, Bool.eq_false_iff.2 fun hct => ?_⟩
    rcases hbr hct with ⟨rfl, hxt⟩ | ⟨-, -, rfl⟩
    · rw [(hx hxt).1] at hu
      cases hu
    · rw [h2] at hct
      cases hct
  · obtain ⟨c', hc', hqq, -⟩ := hget l c hl
    obtain ⟨hs, hu⟩ := h.live l c' q hc' (hqq ▸ hq)
    exact ⟨hset q hs, hu⟩
  · obtain ⟨c', hc', hq, -⟩ := hget l c hl
    rw [hq]
    exact h.nodup l c' hc'
  · obtain ⟨d, hd, hdq, -⟩ := hget l c hl
    obtain ⟨d', hd', hdq', -⟩ := hget l' c' hl'
    exact h.apart l l' d d' q hd hd' (hdq ▸ hq) (hdq' ▸ hq')
  · obtain ⟨c', hc', -, hcase⟩ := hget k c hk
    rcases hcase hbr with ⟨rfl, hxt⟩ | ⟨hki, hkj, rfl⟩
    · rw [hvi] at hk
      obtain rfl := some.inj hk
      obtain rfl := some.inj hp
      exact ⟨(hx hxt).2.1, fun hw => (hx hxt).2.2 (hwait _ hw)⟩
    · obtain ⟨hu, hw⟩ := h.bridged k c p hc' hbr hp
      exact ⟨hu, fun hw' => hw (hwait p hw')⟩

theorem push (h : Linked v held) (hl : v l = some a) (hq : v q = some b) (hheld : held l = true)
    (hu : held q = false) (hw : ¬v.Waiting q)
    (hbr : ∀ i c, v i = some c → c.bridge = true → c.peer ≠ some q) :
    Linked (update v l (some { a with queue := a.queue ++ [q] })) held := by
  generalize hv' : update v l (some { a with queue := a.queue ++ [q] }) = v'
  have hvl : v' l = some { a with queue := a.queue ++ [q] } := by rw [← hv', update_self]
  have hvk : ∀ k, k ≠ l → v' k = v k := fun k hk => by rw [← hv', update_of_ne hk]
  have hget : ∀ k c, v' k = some c → ∃ c', v k = some c' ∧ c.peer = c'.peer ∧
      c.bridge = c'.bridge ∧ (k = l ∧ c' = a ∧ c.queue = a.queue ++ [q] ∨ k ≠ l ∧ c = c') := by
    intro k c hc
    by_cases hk : k = l
    · subst hk
      rw [hvl] at hc
      obtain rfl := some.inj hc
      exact ⟨a, hl, rfl, rfl, .inl ⟨rfl, rfl, rfl⟩⟩
    · rw [hvk k hk] at hc
      exact ⟨c, hc, rfl, rfl, .inr ⟨hk, rfl⟩⟩
  have hset : ∀ k c, v k = some c → ∃ c', v' k = some c' ∧ c'.peer = c.peer := by
    intro k c hc
    by_cases hk : k = l
    · subst hk
      obtain rfl := some.inj (hl.symm.trans hc)
      exact ⟨_, hvl, rfl⟩
    · exact ⟨c, (hvk k hk).trans hc, rfl⟩
  -- what waits in the new table waited before, or is `q` in the queue of `l`
  have hmem : ∀ k c r, v' k = some c → r ∈ c.queue →
      (∃ c', v k = some c' ∧ r ∈ c'.queue) ∨ k = l ∧ r = q := by
    intro k c r hc hr
    obtain ⟨c', hc', -, -, ⟨rfl, rfl, hqq⟩ | ⟨-, rfl⟩⟩ := hget k c hc
    · rw [hqq, mem_append, mem_singleton] at hr
      rcases hr with hr | rfl
      · exact .inl ⟨_, hc', hr⟩
      · exact .inr ⟨rfl, rfl⟩
    · exact .inl ⟨_, hc', hr⟩
  refine ⟨fun k c p hk hp => ?_, fun k c hk hku => ?_, fun k c r hk hr => ?_, fun k c hk => ?_,
    fun k k' c c' r hk hk' hr hr' => ?_, fun k c p hk hb hp => ?_⟩
  · obtain ⟨c', hc', hpeer, -, -⟩ := hget k c hk
    obtain ⟨d, hd, hdk⟩ := h.both k c' p hc' (hpeer ▸ hp)
    obtain ⟨d', hd', hdp⟩ := hset p d hd
    exact ⟨d', hd', hdp.trans hdk⟩
  · obtain ⟨c', hc', -, hbridge, ⟨rfl, rfl, -⟩ | ⟨-, rfl⟩⟩ := hget k c hk
    · rw [hheld] at hku
      cases hku
    · exact h.unheld k c hc' hku
  · rcases hmem k c r hk hr with ⟨c', hc', hr'⟩ | ⟨-, rfl⟩
    · obtain ⟨hru, d, hd, -⟩ := h.waiting ⟨k, c', hc', hr'⟩
      obtain ⟨d', hd', -⟩ := hset r d hd
      exact ⟨by rw [hd']; rfl, hru⟩
    · obtain ⟨d', hd', -⟩ := hset r b hq
      exact ⟨by rw [hd']; rfl, hu⟩
  · obtain ⟨c', hc', -, -, ⟨rfl, rfl, hqq⟩ | ⟨-, rfl⟩⟩ := hget k c hk
    · rw [hqq, nodup_append]
      refine ⟨h.nodup _ _ hc', nodup_singleton q, ?_⟩
      rintro r hr r' hr' rfl
      rw [mem_singleton] at hr'
      subst hr'
      exact hw ⟨_, _, hc', hr⟩
    · exact h.nodup k c hc'
  · rcases hmem k c r hk hr with ⟨d, hd, hrd⟩ | ⟨rfl, rfl⟩
    · rcases hmem k' c' r hk' hr' with ⟨d', hd', hrd'⟩ | ⟨rfl, rfl⟩
      · exact h.apart k k' d d' r hd hd' hrd hrd'
      · exact absurd ⟨k, d, hd, hrd⟩ hw
    · rcases hmem k' c' r hk' hr' with ⟨d', hd', hrd'⟩ | ⟨rfl, -⟩
      · exact absurd ⟨k', d', hd', hrd'⟩ hw
      · rfl
  · obtain ⟨c', hc', hpeer, hbridge, -⟩ := hget k c hk
    obtain ⟨hpu, hpw⟩ := h.bridged k c' p hc' (hbridge ▸ hb) (hpeer ▸ hp)
    refine ⟨hpu, ?_⟩
    rintro ⟨m, d, hd, hpd⟩
    rcases hmem m d p hd hpd with ⟨d', hd', hpd'⟩ | ⟨-, rfl⟩
    · exact hpw ⟨m, d', hd', hpd'⟩
    · exact hbr k c' hc' (hbridge ▸ hb) (hpeer ▸ hp)

theorem pop (h : Linked v held) {rest : List ℕ} (hl : v l = some a) (hq : a.queue = q :: rest) :
    Linked (update v l (some { a with queue := rest })) held ∧
      ¬PeerTable.Waiting (update v l (some { a with queue := rest })) q := by
  refine ⟨h.touch hl rfl (hq ▸ sublist_cons_self q rest) .inl, ?_⟩
  have hnodup := h.nodup l a hl
  rw [hq, nodup_cons] at hnodup
  rintro ⟨k, c, hc, hqc⟩
  by_cases hk : k = l
  · subst hk
    rw [update_self] at hc
    obtain rfl := some.inj hc
    exact hnodup.1 hqc
  · rw [update_of_ne hk] at hc
    exact hk (h.apart k l c a q hc hl hqc (by rw [hq]; exact mem_cons_self))

theorem take (h : Linked v held) (hw : ¬v.Waiting q)
    (hbr : ∀ i c, v i = some c → c.bridge = true → c.peer ≠ some q)
    (hh : ∀ j, j ≠ q → held' j = held j) (hq : held' q = true) : Linked v held' where
  both := h.both
  unheld i a hi hu := by
    have hne : i ≠ q := by
      rintro rfl
      rw [hq] at hu
      cases hu
    exact h.unheld i a hi (by rw [← hh i hne]; exact hu)
  live l a r hl hr := by
    have hne : r ≠ q := by
      rintro rfl
      exact hw ⟨l, a, hl, hr⟩
    obtain ⟨hs, hu⟩ := h.live l a r hl hr
    exact ⟨hs, (hh r hne).trans hu⟩
  nodup := h.nodup
  apart := h.apart
  bridged i a p hi hb hp := by
    obtain ⟨hu, hpw⟩ := h.bridged i a p hi hb hp
    have hne : p ≠ q := by
      rintro rfl
      exact hbr i a hi hb hp
    exact ⟨(hh p hne).trans hu, hpw⟩

end Linked

end PeerTable

end Ridux
