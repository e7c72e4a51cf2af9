import Ridux.Net.Stream

/-!
# Connected pairs

Two stream sockets that are each other's peer, and what the calls do to them.

* `Ends`: each end that is still open is a local stream, linked to the other end while that is open;
* `Ends.send`, `Ends.recv`, `Ends.close`: the calls on an end, described once;
* `Connected`: both ends are open.
-/

namespace Ridux

open Lib

/-- The ends of a pair. -/
inductive Side
  | left | right
  deriving DecidableEq

namespace Side

def other : Side → Side
  | .left => .right
  | .right => .left

@[simp] theorem other_other (i : Side) : i.other.other = i := by cases i <;> rfl

@[simp] theorem other_ne (i : Side) : i.other ≠ i := by cases i <;> decide

theorem eq_or_eq_other (i j : Side) : j = i ∨ j = i.other := by cases i <;> cases j <;> decide

end Side

namespace Net

/-! ### The end of a socket -/

theorem detachPeer_socks (n : Net) (fd j : ℕ) :
    (n.detachPeer fd).socks j =
      if n.livePeer (n.socks fd) = some j ∧ (n.socks j).peer = some fd then
        if internalBridge (n.socks fd) then .zeroed else orphan (n.socks j)
      else n.socks j := by
  unfold detachPeer
  cases hp : n.livePeer (n.socks fd) with
  | none => simp
  | some p =>
    by_cases hj : j = p
    · subst hj
      by_cases hb : (n.socks j).peer = some fd <;> simp [hb]
    · have hne : ¬(some p = some j ∧ (n.socks j).peer = some fd) :=
        fun h => hj (Option.some.inj h.1).symm
      rw [if_neg hne]
      dsimp only
      split_ifs
      · exact setSock_of_ne _ hj _
      · exact setSock_of_ne _ hj _
      · rfl

theorem shut_self (n : Net) (fd : ℕ) : (n.shut fd).socks fd = .zeroed := setSock_self ..

variable {j fd : ℕ}

theorem shut_of_ne (n : Net) (h : j ≠ fd) :
    (n.shut fd).socks j =
      if n.livePeer (n.socks fd) = some j ∧ (n.socks j).peer = some fd then
        if internalBridge (n.socks fd) then .zeroed else orphan (n.socks j)
      else n.socks j := by
  rw [shut, setSock_of_ne _ h, detachPeer_socks]

theorem not_live_of_zeroed {n : Net} (h : n.socks j = .zeroed) : ¬n.live j = true := by
  rw [live_iff, h]
  simp [Sock.zeroed]

theorem live_congr {n n' : Net} (h : (n'.socks j).used = (n.socks j).used) :
    n'.live j = n.live j := by
  simp [live, h]

theorem shut_live {n : Net} (h : (n.shut fd).live j = true) :
    j ≠ fd ∧ n.live j = true ∧
      ((n.shut fd).socks j = n.socks j ∨ (n.shut fd).socks j = orphan (n.socks j)) := by
  have hj : j ≠ fd := by
    rintro rfl
    exact not_live_of_zeroed (shut_self n j) h
  have hs := shut_of_ne n hj
  have hused := (live_iff.1 h).2
  split_ifs at hs with h1 h2
  · rw [hs] at hused
    exact absurd hused (by simp [Sock.zeroed])
  · exact ⟨hj, by rwa [← live_congr (show ((n.shut fd).socks j).used = _ by rw [hs]; rfl)],
      .inr hs⟩
  · exact ⟨hj, by rwa [← live_congr (show ((n.shut fd).socks j).used = _ by rw [hs])], .inl hs⟩

theorem live_setSock {n : Net} {s : Sock} (h : s.used = (n.socks j).used) (k : ℕ) :
    (n.setSock j s).live k = n.live k := by
  refine live_congr ?_
  by_cases hk : k = j
  · rw [hk, setSock_self, h]
  · rw [setSock_of_ne _ hk]

end Net

/-! ### Pairs -/

/-- A socket in which only data changed. -/
structure SameLink (s s' : Sock) : Prop where
  used : s'.used = s.used
  type : s'.type = s.type
  virtService : s'.virtService = s.virtService
  remoteIp : s'.remoteIp = s.remoteIp
  peer : s'.peer = s.peer
  tcpState : s'.tcpState = s.tcpState

theorem SameLink.refl (s : Sock) : SameLink s s := ⟨rfl, rfl, rfl, rfl, rfl, rfl⟩

/-- An open end: a local stream without a virtual service, whose peer is the other end while that
is open; when it is not, the connection is closed. -/
structure EndOpen (n : Net) (e : Side → ℕ) (i : Side) : Prop where
  type : (n.socks (e i)).type = 1
  plain : (n.socks (e i)).virtService = .none
  here : netIsRealExternal (n.socks (e i)).remoteIp = false
  linked : n.live (e i.other) = true →
    (n.socks (e i)).peer = some (e i.other) ∧ (n.socks (e i)).tcpState = .established
  alone : ¬n.live (e i.other) = true →
    (n.socks (e i)).peer = none ∧ (n.socks (e i)).tcpState = .closed

/-- Two ends, each open or closed. -/
structure Ends (n : Net) (e : Side → ℕ) : Prop where
  ne : ∀ i, e i ≠ e i.other
  isOpen : ∀ i, n.live (e i) = true → EndOpen n e i

/-- A connected pair of local streams. -/
structure Connected (n : Net) (e : Side → ℕ) : Prop extends Ends n e where
  live : ∀ i, n.live (e i) = true

variable {n : Net} {e : Side → ℕ} {i : Side} (out : Outside) {a b : ℕ}

namespace Ends

theorem congr {n' : Net} (h : Ends n e) (hs : ∀ i, SameLink (n.socks (e i)) (n'.socks (e i))) :
    Ends n' e := by
  refine ⟨h.ne, fun i hi => ?_⟩
  have hlive : ∀ j, n'.live (e j) = n.live (e j) := fun j => Net.live_congr (hs j).used
  rw [hlive] at hi
  have ho := h.isOpen i hi
  exact ⟨(hs i).type ▸ ho.type, (hs i).virtService ▸ ho.plain, (hs i).remoteIp ▸ ho.here,
    by rw [hlive, (hs i).peer, (hs i).tcpState]; exact ho.linked,
    by rw [hlive, (hs i).peer, (hs i).tcpState]; exact ho.alone⟩

theorem setSock (h : Ends n e) {j : ℕ} {s : Sock} (hs : SameLink (n.socks j) s) :
    Ends (n.setSock j s) e := by
  refine h.congr fun i => ?_
  by_cases hi : e i = j
  · rw [hi, Net.setSock_self]
    exact hs
  · rw [Net.setSock_of_ne _ hi]
    exact .refl _

theorem send (h : Ends n e) (i : Side) (src : Bytes) :
    (∃ err, n.sockSend out (e i) src = (.error err, n)) ∨
      n.live (e i) = true ∧ n.live (e i.other) = true ∧
        n.sockSend out (e i) src = (.ok ((n.socks (e i.other)).pushRx src).1,
          n.setSock (e i.other) ((n.socks (e i.other)).pushRx src).2) := by
  unfold Net.sockSend
  dsimp only
  by_cases hl : n.live (e i) = true
  · have ho := h.isOpen i hl
    simp only [hl, ho.type, ho.here, Bool.not_true, Bool.false_eq_true, if_false, true_and,
      OfNat.one_ne_ofNat, and_false]
    by_cases hest : (n.socks (e i)).tcpState = .established
    · simp only [hest, ne_eq, not_true, if_false]
      split_ifs with hsh
      · exact .inl ⟨_, rfl⟩
      · by_cases hl' : n.live (e i.other) = true
        · have hp : n.livePeer (n.socks (e i)) = some (e i.other) :=
            Net.livePeer_eq_some.2 ⟨(ho.linked hl').1, hl'⟩
          have hb : Net.internalBridge (n.socks (e i)) = false := by
            simp [Net.internalBridge, ho.plain]
          rw [hp]
          simp only [Net.sendPeer, hb, Bool.false_eq_true, if_false]
          split_ifs
          · exact .inl ⟨_, rfl⟩
          · exact .inr ⟨hl', rfl⟩
        · have := (ho.alone hl').2
          rw [hest] at this
          cases this
    · simp only [ne_eq, hest, not_false_eq_true, if_true]
      exact .inl ⟨_, rfl⟩
  · simp only [hl, Bool.not_false, if_true]
    exact .inl ⟨_, rfl⟩

theorem recv (h : Ends n e) (i : Side) (len : ℕ) (dontWait : Bool) :
    (∃ r, n.sockRecv out (e i) len dontWait = (r, n) ∧ (r = .ok [] ∨ ∃ err, r = .error err) ∧
      (n.live (e i) = true → (n.socks (e i)).rx.used = 0)) ∨
      n.live (e i) = true ∧ ∃ k, k = min len (min (n.socks (e i)).rx.used sockBufSize) ∧
        0 < (n.socks (e i)).rx.used ∧
        n.sockRecv out (e i) len dontWait = (.ok (Ring.pop k (n.socks (e i)).rx).1,
          n.setSock (e i) { n.socks (e i) with rx := (Ring.pop k (n.socks (e i)).rx).2 }) := by
  unfold Net.sockRecv
  dsimp only
  by_cases hl : n.live (e i) = true
  · have ho := h.isOpen i hl
    have hpos : 0 < sockBufSize := by decide
    simp only [hl, ho.type, ho.here, Bool.not_true, Bool.false_eq_true, if_false, true_and,
      OfNat.one_ne_ofNat]
    split_ifs with hav
    · exact .inl ⟨_, rfl, .inl rfl, fun _ => by omega⟩
    · exact .inl ⟨_, rfl, .inr ⟨_, rfl⟩, fun _ => by omega⟩
    · exact .inl ⟨_, rfl, .inl rfl, fun _ => by omega⟩
    · exact .inr ⟨_, rfl, by omega, rfl⟩
  · simp only [hl, Bool.not_false, if_true]
    exact .inl ⟨_, rfl, .inr ⟨_, rfl⟩, fun hl' => absurd hl' (by simp)⟩

theorem shut (h : Ends n e) (fd : ℕ) : Ends (n.shut fd) e := by
  refine ⟨h.ne, fun i hi => ?_⟩
  obtain ⟨hfd, hl, hs⟩ := Net.shut_live hi
  have ho := h.isOpen i hl
  have hsame : ((n.shut fd).socks (e i)).type = 1 ∧
      ((n.shut fd).socks (e i)).virtService = .none ∧
      netIsRealExternal ((n.shut fd).socks (e i)).remoteIp = false := by
    rcases hs with hs | hs <;> rw [hs] <;> exact ⟨ho.type, ho.plain, ho.here⟩
  refine ⟨hsame.1, hsame.2.1, hsame.2.2, fun hl' => ?_, fun hl' => ?_⟩
  · -- the other end is still open, so `fd` is neither end and touches neither
    obtain ⟨hfd', hlo, -⟩ := Net.shut_live hl'
    obtain ⟨hp, hc⟩ := ho.linked hlo
    rw [Net.shut_of_ne n hfd, if_neg]
    · exact ⟨hp, hc⟩
    · rintro ⟨-, hpf⟩
      rw [hp] at hpf
      exact hfd' (Option.some.inj hpf)
  · by_cases hlo : n.live (e i.other) = true
    · -- the other end was open: it is `fd`
      obtain ⟨hp, hc⟩ := ho.linked hlo
      have hoo := h.isOpen i.other hlo
      obtain ⟨hpo, -⟩ := hoo.linked (by rwa [Side.other_other])
      rw [Side.other_other] at hpo
      have hfo : e i.other = fd := by
        by_contra hne
        apply hl'
        rw [← hlo]
        refine Net.live_congr ?_
        rw [Net.shut_of_ne n hne, if_neg]
        rintro ⟨-, hpf⟩
        rw [hpo] at hpf
        exact hfd (Option.some.inj hpf)
      have hpeer : n.livePeer (n.socks fd) = some (e i) :=
        Net.livePeer_eq_some.2 ⟨hfo ▸ hpo, hl⟩
      have hb : Net.internalBridge (n.socks fd) = false := by
        rw [← hfo]
        simp [Net.internalBridge, hoo.plain]
      rw [Net.shut_of_ne n hfd, if_pos ⟨hpeer, hfo ▸ hp⟩, hb]
      simp [Net.orphan, ho.type]
    · obtain ⟨hp, hc⟩ := ho.alone hlo
      rw [Net.shut_of_ne n hfd, if_neg]
      · exact ⟨hp, hc⟩
      · rintro ⟨-, hpf⟩
        rw [hp] at hpf
        cases hpf

/-- What `sock_close` of any socket leaves to the ends that stay open. -/
def Kept (n : Net) (e : Side → ℕ) (n' : Net) : Prop :=
  Ends n' e ∧ ∀ i, n'.live (e i) = true → n.live (e i) = true ∧
    (n'.socks (e i)).rx = (n.socks (e i)).rx ∧ (n'.socks (e i)).anc = (n.socks (e i)).anc

theorem Kept.setSock {n' : Net} (h : Kept n e n') {fd : ℕ} {s : Sock}
    (hs : SameLink (n'.socks fd) s) (hrx : s.rx = (n'.socks fd).rx)
    (hanc : s.anc = (n'.socks fd).anc) : Kept n e (n'.setSock fd s) := by
  refine ⟨h.1.setSock hs, fun i hi => ?_⟩
  rw [Net.live_setSock hs.used] at hi
  obtain ⟨hl, hr, ha⟩ := h.2 i hi
  by_cases hj : e i = fd
  · rw [hj, Net.setSock_self, hrx, hanc, ← hj]
    exact ⟨hl, hr, ha⟩
  · rw [Net.setSock_of_ne _ hj]
    exact ⟨hl, hr, ha⟩

theorem close (h : Ends n e) (fd : ℕ) : Kept n e (n.sockClose fd).2 := by
  have h0 : Kept n e n := ⟨h, fun i hi => ⟨hi, rfl, rfl⟩⟩
  unfold Net.sockClose
  split_ifs
  · exact h0
  · refine Net.sockCloseFuel_induct ?_ ?_ ?_ _ n fd h0
    · -- the bus does not know the ends
      intro m m' hb hm
      have hsock : ∀ i, m'.live (e i) = true → m.live (e i) = true := by
        intro i hi
        obtain ⟨r, hr, -⟩ := hb (e i)
        rwa [← Net.live_congr (show (m'.socks (e i)).used = (m.socks (e i)).used by rw [hr])]
      have heq : ∀ i, m.live (e i) = true → m'.socks (e i) = m.socks (e i) := by
        intro i hi
        refine hb.eq ?_
        rw [(hm.1.isOpen i hi).plain]
        decide
      refine ⟨⟨h.ne, fun i hi => ?_⟩, fun i hi => ?_⟩
      · have ho := hm.1.isOpen i (hsock i hi)
        have hlive : m'.live (e i.other) = m.live (e i.other) := by
          obtain ⟨r, hr, -⟩ := hb (e i.other)
          exact Net.live_congr (by rw [hr])
        have hi' := heq i (hsock i hi)
        exact ⟨hi' ▸ ho.type, hi' ▸ ho.plain, hi' ▸ ho.here, by rw [hi', hlive]; exact ho.linked,
          by rw [hi', hlive]; exact ho.alone⟩
      · rw [heq i (hsock i hi)]
        exact hm.2 i (hsock i hi)
    · intro m fd hm
      exact hm.setSock ⟨rfl, rfl, rfl, rfl, rfl, rfl⟩ rfl rfl
    · intro m fd hm
      refine ⟨hm.1.shut fd, fun i hi => ?_⟩
      obtain ⟨-, hl, hs⟩ := Net.shut_live hi
      rcases hs with hs | hs <;> rw [hs] <;> exact hm.2 i hl

end Ends

/-! ### Where pairs come from -/

/-- The ends of a pair of sockets. -/
def pairEnds (a b : ℕ) : Side → ℕ
  | .left => a
  | .right => b

theorem connected_pairEnds (hab : a ≠ b) (ha : n.live a = true) (hb : n.live b = true)
    (hs : ∀ i, ((n.socks (pairEnds a b i)).type = 1 ∧
      (n.socks (pairEnds a b i)).virtService = .none ∧
      netIsRealExternal (n.socks (pairEnds a b i)).remoteIp = false ∧
      (n.socks (pairEnds a b i)).peer = some (pairEnds a b i.other) ∧
      (n.socks (pairEnds a b i)).tcpState = .established)) : Connected n (pairEnds a b) := by
  have hlive : ∀ i, n.live (pairEnds a b i) = true := by
    intro i
    cases i
    · exact ha
    · exact hb
  refine ⟨⟨fun i => ?_, fun i _ => ?_⟩, hlive⟩
  · cases i
    · exact hab
    · exact hab.symm
  · obtain ⟨ht, hv, hr, hp, hc⟩ := hs i
    exact ⟨ht, hv, hr, fun _ => ⟨hp, hc⟩, fun h => absurd (hlive i.other) h⟩

theorem sockPairCreate_connected {n' : Net} {domain : ℕ} {protocol : ℤ}
    (h : n.sockPairCreate domain 1 protocol = (.ok (a, b), n')) :
    Connected n' (pairEnds a b) ∧ ∀ i, (n'.socks (pairEnds a b i)).rx = Sock.zeroed.rx ∧
      (n'.socks (pairEnds a b i)).anc = Sock.zeroed.anc := by
  unfold Net.sockPairCreate at h
  split at h
  · cases (Prod.mk.inj h).1
  · next a' n1 ha =>
    split at h
    · cases (Prod.mk.inj h).1
    · next b' n2 hb =>
      obtain ⟨hr, hn⟩ := Prod.mk.inj h
      obtain ⟨rfl, rfl⟩ := Prod.mk.inj (Except.ok.inj hr)
      obtain ⟨hlt, -, t, p, -, ht, rfl⟩ := Net.sockCreate_ok ha
      obtain ⟨hlt', hfree, t', p', -, ht', rfl⟩ := Net.sockCreate_ok hb
      obtain rfl := ht rfl
      obtain rfl := ht' rfl
      have hne : a' ≠ b' := by
        rintro rfl
        rw [Net.setSock_self] at hfree
        cases hfree
      subst hn
      generalize hx : (Net.allocEph _) = r
      have hrs : r.2.socks =
          ((n.setSock a' (.fresh domain 1 p)).setSock b' (.fresh domain 1 p')).socks := by
        rw [← hx]
        rfl
      have hra : r.2.socks a' = .fresh domain 1 p := by
        rw [hrs, Net.setSock_of_ne _ hne, Net.setSock_self]
      have hrb : r.2.socks b' = .fresh domain 1 p' := by rw [hrs, Net.setSock_self]
      rw [hra, Net.setSock_of_ne _ hne.symm, hrb]
      have hsa : ∀ s t, ((r.2.setSock a' s).setSock b' t).socks a' = s := by
        intro s t
        rw [Net.setSock_of_ne _ hne, Net.setSock_self]
      have hsb : ∀ s t, ((r.2.setSock a' s).setSock b' t).socks b' = t :=
        fun s t => Net.setSock_self _ _ _
      refine ⟨connected_pairEnds hne ?_ ?_ fun i => ?_, fun i => ?_⟩
      · exact Net.live_iff.2 ⟨hlt, by rw [hsa]; rfl⟩
      · exact Net.live_iff.2 ⟨hlt', by rw [hsb]; rfl⟩
      · have hlo : netIsRealExternal 0x7F000001#32 = false := by decide
        cases i
        · rw [pairEnds, hsa]
          exact ⟨rfl, rfl, hlo, rfl, rfl⟩
        · rw [pairEnds, hsb]
          exact ⟨rfl, rfl, hlo, rfl, rfl⟩
      · cases i
        · rw [pairEnds, hsa]
          exact ⟨rfl, rfl⟩
        · rw [pairEnds, hsb]
          exact ⟨rfl, rfl⟩

/-- A socket pair of the table at boot. -/
def bootPair : Net := (Net.boot.sockPairCreate 1 1 0).2

theorem connected_bootPair :
    Connected bootPair (pairEnds 0 1) ∧ ∀ i, (bootPair.socks (pairEnds 0 1 i)).rx = Sock.zeroed.rx ∧
      (bootPair.socks (pairEnds 0 1 i)).anc = Sock.zeroed.anc := by
  have h : (Net.boot.sockPairCreate 1 1 0).1 = .ok (0, 1) := by decide +kernel
  exact sockPairCreate_connected (Prod.ext h rfl)

end Ridux
