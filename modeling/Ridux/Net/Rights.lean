import Mathlib.Data.List.Infix
import Ridux.Lib.Run
import Ridux.Net.Pair

/-!
# Rights stay with their bytes

Runs of sends, receives and closes on a connected pair that passes descriptors.

* `RightsLog`: what was sent to an end and what the end has received, with the place of each right
  in the stream;
* `RightsRun.takeRight`, `RightsRun.takeBytes`: the calls of the receiver, recorded;
* `RightsRun.drainRights`, `RightsRun.recvIov`: the two halves of `real_sys_recvmsg`;
* `rightsRun_attached`: the rights stay with their bytes as long as no receive reads on over a right
  that it has not taken.
-/

namespace Ridux

open Lib List

/-- What went to one end of a pair: how many bytes the sends took and how many came out, and the
rights that were sent and those that came out, each with the number of bytes before it. -/
structure RightsLog where
  accepted : ℕ
  received : ℕ
  given : List (ℕ × ℕ)
  taken : List (ℕ × ℕ)

namespace RightsLog

def start : RightsLog := ⟨0, 0, [], []⟩

/-- The rights that have not come out. -/
def pending (l : RightsLog) : List (ℕ × ℕ) := l.given.drop l.taken.length

/-- Every right came out once, in order and at its place, and the others still can: the bytes that
follow them are not read yet. -/
structure Attached (l : RightsLog) : Prop where
  ordered : l.taken <+: l.given
  ahead : ∀ g ∈ l.pending, l.received ≤ g.2

end RightsLog

/-- A call on an end of a pair. A `recvmsg` without room for rights, or one that cannot take them
all, is `recvIov` alone; `read`, `recvfrom` and a `recvmsg` that has slept go on as `recv`. -/
inductive RightsOp
  | send (i : Side) (src : Bytes)
  | sendRight (i : Side) (right : ℕ)
  | recvRight (i : Side)
  | recvmsg (i : Side) (lens : List ℕ) (dontWait : Bool)
  | recvIov (i : Side) (lens : List ℕ) (dontWait : Bool)
  | recv (i : Side) (len : ℕ) (dontWait : Bool)
  | close (i : Side)

/-- The sockets, with a record for each end. -/
structure RightsRun where
  net : Net
  log : Side → RightsLog

namespace RightsRun

def start (n : Net) : RightsRun := ⟨n, fun _ => .start⟩

/-- The record of one end and the sockets change. -/
def update (s : RightsRun) (i : Side) (n : Net) (l : RightsLog) : RightsRun :=
  ⟨n, Function.update s.log i l⟩

theorem update_log_self (s : RightsRun) (i : Side) (n : Net) (l : RightsLog) :
    (s.update i n l).log i = l := Function.update_self ..

theorem update_log_of_ne (s : RightsRun) {i j : Side} (h : j ≠ i) (n : Net) (l : RightsLog) :
    (s.update i n l).log j = s.log j := Function.update_of_ne h ..

theorem update_net (s : RightsRun) (i : Side) (n : Net) (l : RightsLog) :
    (s.update i n l).net = n := rfl

variable (out : Outside) (e : Side → ℕ)

/-- `sock_recv_right`, recorded; whether there was a right. -/
def takeRight (s : RightsRun) (i : Side) : Bool × RightsRun :=
  match s.net.sockRecvRight (e i) with
  | (.ok right, n) =>
    let l := s.log i
    (true, s.update i n { l with taken := l.taken ++ [(right, l.received)] })
  | (.error _, n) => (false, { s with net := n })

/-- `sock_recv`, recorded; how many bytes there were. -/
def takeBytes (s : RightsRun) (i : Side) (len : ℕ) (dontWait : Bool) : ℕ × RightsRun :=
  match s.net.sockRecv out (e i) len dontWait with
  | (.ok bytes, n) =>
    let l := s.log i
    (bytes.length, s.update i n { l with received := l.received + bytes.length })
  | (.error _, n) => (0, { s with net := n })

/-- The loop of `c3_recvmsg_drain_rights`. -/
def drainRights (i : Side) : ℕ → RightsRun → RightsRun
  | 0, s => s
  | k + 1, s =>
    match s.takeRight e i with
    | (true, s) => drainRights i k s
    | (false, s) => s

/-- The loop of `c3_recvmsg_iov`; `c3_socket_recv_wait` hands over at most 4096 bytes. -/
def recvPieces (i : Side) (dontWait : Bool) : List ℕ → ℕ → RightsRun → RightsRun
  | [], _, s => s
  | len :: lens, remain, s =>
    if remain = 0 then s
    else if len = 0 then recvPieces i dontWait lens remain s
    else
      let want := min len remain
      let r := s.takeBytes out e i (min want 4096) dontWait
      if r.1 = 0 ∨ r.1 < want then r.2
      else recvPieces i dontWait lens (remain - r.1) r.2

/-- `c3_recvmsg_iov` for a stream. -/
def recvIov (s : RightsRun) (i : Side) (lens : List ℕ) (dontWait : Bool) : RightsRun :=
  let cap := min lens.sum (2 ^ 64 - 1)
  if cap = 0 then s
  else recvPieces out e i dontWait lens (min (s.net.sockRecvLimitBeforeRight (e i) cap) cap) s

def exec (s : RightsRun) : RightsOp → RightsRun
  | .send i src =>
    match s.net.sockSend out (e i) src with
    | (.ok k, n) =>
      let l := s.log i.other
      s.update i.other n { l with accepted := l.accepted + k }
    | (.error _, n) => { s with net := n }
  | .sendRight i right =>
    match s.net.sockSendRight (e i) right with
    | (.ok (), n) =>
      let l := s.log i.other
      s.update i.other n { l with given := l.given ++ [(right, l.accepted)] }
    | (.error _, n) => { s with net := n }
  | .recvRight i => (s.takeRight e i).2
  | .recvmsg i lens dontWait => (drainRights e i sockAncq s).recvIov out e i lens dontWait
  | .recvIov i lens dontWait => s.recvIov out e i lens dontWait
  | .recv i len dontWait => (s.takeBytes out e i len dontWait).2
  | .close i => { s with net := (s.net.sockClose (e i)).2 }

/-- A receive that does not take the rights itself finds none in what it reads: none before the last
byte that `sock_recv` has to give, none that is due before `c3_recvmsg_iov`. -/
def Heeds (s : RightsRun) : RightsOp → Prop
  | .recv i len _ => s.net.live (e i) = true →
      ∀ g ∈ (s.log i).pending,
        (s.log i).received + min len (s.net.socks (e i)).rx.used ≤ g.2
  | .recvIov i lens _ => s.net.live (e i) = true → 0 < lens.sum →
      0 < (s.net.socks (e i)).rx.used → ∀ g ∈ (s.log i).pending, (s.log i).received < g.2
  | _ => True

/-- The rights of both ends stay with their bytes, and one that is due comes out next. -/
structure Attached (s : RightsRun) : Prop where
  side : ∀ i, (s.log i).Attached
  due : ∀ i, s.net.live (e i) = true → ∀ right rest,
    (s.log i).pending = (right, (s.log i).received) :: rest →
      (s.net.sockRecvRight (e i)).1 = .ok right

end RightsRun

namespace RightsRun

variable (out : Outside) (e : Side → ℕ)

theorem takeBytes_log (s : RightsRun) (i : Side) (len : ℕ) (dontWait : Bool) :
    (s.takeBytes out e i len dontWait).2.log i = { s.log i with
      received := (s.log i).received + (s.takeBytes out e i len dontWait).1 } := by
  unfold takeBytes
  split
  · exact update_log_self _ _ _ _
  · rfl

theorem recvPieces_log (i : Side) (dontWait : Bool) (lens : List ℕ) :
    ∀ (remain : ℕ) (s : RightsRun), ∃ k, (s.recvPieces out e i dontWait lens remain).log i =
      { s.log i with received := (s.log i).received + k } := by
  induction lens with
  | nil => exact fun _ _ => ⟨0, rfl⟩
  | cons len lens ih =>
    intro remain s
    have htake := s.takeBytes_log out e i (min (min len remain) 4096) dontWait
    unfold recvPieces
    dsimp only
    split_ifs
    · exact ⟨0, rfl⟩
    · exact ih remain s
    · exact ⟨_, htake⟩
    · obtain ⟨k, hk⟩ := ih (remain - (s.takeBytes out e i (min (min len remain) 4096) dontWait).1)
        (s.takeBytes out e i (min (min len remain) 4096) dontWait).2
      rw [hk, htake]
      exact ⟨_, by rw [Nat.add_assoc]⟩

end RightsRun

/-! ### One end -/

theorem sub_add_ofNat (p : BitVec 32) {d : ℕ} (h : d ≤ sockBufSize) :
    (p + BitVec.ofNat 32 d - p).toNat = d ∧ (p + BitVec.ofNat 32 d - p).toInt = d := by
  have hsub : p + BitVec.ofNat 32 d - p = BitVec.ofNat 32 d := by bv_omega
  have hlt : d < 2 ^ 31 := h.trans_lt (by decide)
  have hnat : (BitVec.ofNat 32 d).toNat = d := by
    rw [BitVec.toNat_ofNat]
    exact Nat.mod_eq_of_lt (by omega)
  rw [hsub, hnat, BitVec.toInt_eq_toNat_of_lt (by omega), hnat]
  exact ⟨rfl, rfl⟩

theorem posAfter_add (p : BitVec 32) {d : ℕ} (h : d ≤ sockBufSize) :
    Net.posAfter (p + BitVec.ofNat 32 d) p = true ↔ 0 < d := by
  rw [Net.posAfter, (sub_add_ofNat p h).2, decide_eq_true_iff, Int.natCast_pos]

namespace RightsLog

/-- The record of an end agrees with its socket: a pending right is marked with the place where the
tail of the ring will be when it is due. -/
structure Tracks (l : RightsLog) (s : Sock) : Prop where
  fits : s.rx.used ≤ sockBufSize
  count : l.accepted = l.received + s.rx.used
  ok : s.anc.Ok
  queue : s.anc.contents =
    l.pending.map fun g => (g.1, s.rx.tail + BitVec.ofNat 32 (g.2 - l.received))
  within : ∀ g ∈ l.pending, g.2 ≤ l.accepted
  sorted : l.pending.Pairwise fun g g' => g.2 ≤ g'.2

variable {l : RightsLog} {s : Sock} {g : ℕ × ℕ}

theorem Tracks.start (hrx : s.rx.used = 0) (hok : s.anc.Ok) (hanc : s.anc.contents = []) :
    Tracks .start s where
  fits := by omega
  count := by rw [hrx]; rfl
  ok := hok
  queue := hanc
  within := fun g hg => absurd hg not_mem_nil
  sorted := List.Pairwise.nil

theorem Tracks.push (h : Tracks l s) (src : Bytes) :
    Tracks { l with accepted := l.accepted + (s.pushRx src).1 } (s.pushRx src).2 := by
  obtain ⟨hc, hf⟩ := Sock.contents_pushRx h.fits src
  have hlen := congrArg List.length hc
  rw [length_append, Ring.length_contents, Ring.length_contents, length_take] at hlen
  have hle : (s.pushRx src).1 ≤ src.length := Nat.min_le_left _ _
  have htail : (s.pushRx src).2.rx.tail = s.rx.tail := Ring.push_tail _ _
  refine ⟨hf, ?_, h.ok, ?_, fun g hg => (h.within g hg).trans (Nat.le_add_right _ _), h.sorted⟩
  · have := h.count
    dsimp only
    omega
  · rw [htail]
    exact h.queue

theorem Tracks.putRight (h : Tracks l s) (ha : l.Attached) (right : ℕ)
    (hfull : Circular.succ sockAncq s.anc.head ≠ s.anc.tail) :
    Tracks { l with given := l.given ++ [(right, l.accepted)] }
        { s with anc := s.anc.put (right, s.rx.head) } ∧
      Attached { l with given := l.given ++ [(right, l.accepted)] } := by
  have hp : pending { l with given := l.given ++ [(right, l.accepted)] } =
      l.pending ++ [(right, l.accepted)] := drop_append_of_le_length ha.ordered.length_le
  have hcount := h.count
  refine ⟨⟨h.fits, h.count, h.ok.put _, ?_, ?_, ?_⟩, ?_, ?_⟩
  · rw [hp, h.ok.contents_put _ hfull, h.queue, map_append, map_singleton, Ring.head_eq,
      hcount, Nat.add_sub_cancel_left]
  · intro g hg
    rw [hp, mem_append, mem_singleton] at hg
    rcases hg with hg | rfl
    · exact h.within g hg
    · exact le_rfl
  · rw [hp, pairwise_append]
    refine ⟨h.sorted, pairwise_singleton _ _, fun g hg g' hg' => ?_⟩
    rw [mem_singleton] at hg'
    rw [hg']
    exact h.within g hg
  · exact ha.ordered.trans (prefix_append _ _)
  · intro g hg
    rw [hp, mem_append, mem_singleton] at hg
    rcases hg with hg | rfl
    · exact ha.ahead g hg
    · show l.received ≤ l.accepted
      omega

theorem Tracks.first (h : Tracks l s) (hne : s.anc.head ≠ s.anc.tail) :
    ∃ g rest, l.pending = g :: rest ∧ s.anc.slots s.anc.tail =
        (g.1, s.rx.tail + BitVec.ofNat 32 (g.2 - l.received)) ∧
      s.anc.next.contents =
        rest.map fun g => (g.1, s.rx.tail + BitVec.ofNat 32 (g.2 - l.received)) := by
  have hq := h.queue
  rw [h.ok.contents_cons hne] at hq
  cases hp : l.pending with
  | nil =>
    rw [hp] at hq
    cases hq
  | cons g rest =>
    rw [hp, map_cons] at hq
    exact ⟨g, rest, rfl, (List.cons.inj hq).1, (List.cons.inj hq).2⟩

theorem Tracks.nonempty (h : Tracks l s) (hg : g ∈ l.pending) : s.anc.head ≠ s.anc.tail := by
  intro heq
  have hq := h.queue
  rw [h.ok.contents_eq_nil.2 heq] at hq
  exact ne_nil_of_mem hg (map_eq_nil_iff.1 hq.symm)

theorem Tracks.first_le (h : Tracks l s) {rest : List (ℕ × ℕ)} (hp : l.pending = g :: rest) :
    ∀ g' ∈ l.pending, g.2 ≤ g'.2 := by
  have hsorted := h.sorted
  rw [hp, pairwise_cons] at hsorted
  intro g' hg'
  rw [hp, mem_cons] at hg'
  rcases hg' with rfl | hg'
  · exact le_rfl
  · exact hsorted.1 g' hg'

theorem Tracks.pop (h : Tracks l s) (ha : l.Attached) {k : ℕ} (hk : k ≤ s.rx.used)
    (hfree : ∀ g ∈ l.pending, l.received + k ≤ g.2) :
    Tracks { l with received := l.received + k } { s with rx := (Ring.pop k s.rx).2 } ∧
      Attached { l with received := l.received + k } := by
  have hused := Ring.used_pop k s.rx hk
  have hcount := h.count
  have hfits := h.fits
  refine ⟨⟨?_, ?_, h.ok, ?_, h.within, h.sorted⟩, ha.ordered, hfree⟩
  · dsimp only
    omega
  · dsimp only
    omega
  · refine h.queue.trans (map_congr_left fun g hg => ?_)
    have hg' := hfree g hg
    dsimp only
    rw [Ring.pop_tail, BitVec.add_assoc, ← BitVec.ofNat_add,
      show k + (g.2 - (l.received + k)) = g.2 - l.received by omega]

end RightsLog

/-! ### The calls -/

theorem Ends.sendRight {n : Net} {e : Side → ℕ} (h : Ends n e) (i : Side) (right : ℕ) :
    (∃ err, n.sockSendRight (e i) right = (.error err, n)) ∨
      n.live (e i.other) = true ∧ Circular.succ sockAncq (n.socks (e i.other)).anc.head ≠
          (n.socks (e i.other)).anc.tail ∧
        n.sockSendRight (e i) right = (.ok (), n.setSock (e i.other) { n.socks (e i.other) with
          anc := (n.socks (e i.other)).anc.put (right, (n.socks (e i.other)).rx.head) }) := by
  unfold Net.sockSendRight
  by_cases hl : n.live (e i) = true
  · have ho := h.isOpen i hl
    rw [if_neg (by simp [hl])]
    by_cases hl' : n.live (e i.other) = true
    · rw [Net.livePeer_eq_some.2 ⟨(ho.linked hl').1, hl'⟩]
      dsimp only
      split_ifs with hfull
      · exact .inl ⟨_, rfl⟩
      · exact .inr ⟨hl', hfull, rfl⟩
    · have hp : n.livePeer (n.socks (e i)) = none := by simp [Net.livePeer, (ho.alone hl').1]
      rw [hp]
      exact .inl ⟨_, rfl⟩
  · rw [if_pos (by simp [hl])]
    exact .inl ⟨_, rfl⟩

/-- What `sock_recv_right` does: nothing, or the first right leaves the queue. -/
theorem Net.sockRecvRight_cases (n : Net) (fd : ℕ) :
    (∃ err, n.sockRecvRight fd = (.error err, n) ∧
      (n.live fd = true → (n.socks fd).anc.head ≠ (n.socks fd).anc.tail →
        Net.posAfter ((n.socks fd).anc.slots (n.socks fd).anc.tail).2 (n.socks fd).rx.tail = true)) ∨
      n.live fd = true ∧ (n.socks fd).anc.head ≠ (n.socks fd).anc.tail ∧
        ¬Net.posAfter ((n.socks fd).anc.slots (n.socks fd).anc.tail).2 (n.socks fd).rx.tail = true ∧
        n.sockRecvRight fd = (.ok ((n.socks fd).anc.slots (n.socks fd).anc.tail).1,
          n.setSock fd { n.socks fd with anc := (n.socks fd).anc.next }) := by
  unfold Net.sockRecvRight
  dsimp only
  split_ifs with hl hq hp
  · exact .inl ⟨_, rfl, fun hl' => by simp [hl'] at hl⟩
  · exact .inl ⟨_, rfl, fun _ hne => absurd hq hne⟩
  · exact .inl ⟨_, rfl, fun _ _ => hp⟩
  · exact .inr ⟨by simpa using hl, hq, hp, rfl⟩

/-! ### Runs -/

namespace RightsRun

/-- The invariant of a run. -/
structure Inv (e : Side → ℕ) (s : RightsRun) : Prop where
  ends : Ends s.net e
  attached : ∀ i, (s.log i).Attached
  tracks : ∀ i, s.net.live (e i) = true → (s.log i).Tracks (s.net.socks (e i))

namespace Inv

variable (out : Outside) {e : Side → ℕ} {s : RightsRun} {i : Side}

theorem update (h : Inv e s) {l : RightsLog} {t : Sock} (hsame : SameLink (s.net.socks (e i)) t)
    (ht : l.Tracks t) (ha : l.Attached) : Inv e (s.update i (s.net.setSock (e i) t) l) := by
  refine ⟨h.ends.setSock hsame, fun j => ?_, fun j hj => ?_⟩
  · by_cases hji : j = i
    · rw [hji, update_log_self]
      exact ha
    · rw [update_log_of_ne s hji]
      exact h.attached j
  · have hl : s.net.live (e j) = true := (Net.live_setSock hsame.used (e j)).symm.trans hj
    rcases Side.eq_or_eq_other i j with rfl | rfl
    · rw [update_log_self, update_net, Net.setSock_self]
      exact ht
    · rw [update_log_of_ne s (Side.other_ne i), update_net,
        Net.setSock_of_ne _ (h.ends.ne i).symm]
      exact h.tracks _ hl

theorem send (h : Inv e s) (i : Side) (src : Bytes) : Inv e (s.exec out e (.send i src)) := by
  rcases h.ends.send out i src with ⟨err, hs⟩ | ⟨-, hl, hs⟩
  · simp only [exec, hs]
    exact h
  · simp only [exec, hs]
    have ha := h.attached i.other
    exact h.update ⟨rfl, rfl, rfl, rfl, rfl, rfl⟩ ((h.tracks _ hl).push src) ⟨ha.ordered, ha.ahead⟩

theorem sendRight (h : Inv e s) (i : Side) (right : ℕ) :
    Inv e (s.exec out e (.sendRight i right)) := by
  rcases h.ends.sendRight i right with ⟨err, hs⟩ | ⟨hl, hfull, hs⟩
  · simp only [exec, hs]
    exact h
  · simp only [exec, hs]
    obtain ⟨ht, ha⟩ := (h.tracks _ hl).putRight (h.attached _) right hfull
    exact h.update ⟨rfl, rfl, rfl, rfl, rfl, rfl⟩ ht ha

theorem close (h : Inv e s) (i : Side) : Inv e (s.exec out e (.close i)) := by
  obtain ⟨hends, hkept⟩ := h.ends.close (e i)
  refine ⟨hends, h.attached, fun j hj => ?_⟩
  obtain ⟨hl, hrx, hanc⟩ := hkept j hj
  have ht := h.tracks j hl
  refine ⟨?_, ?_, ?_, ?_, ht.within, ht.sorted⟩ <;> simp only [exec, hrx, hanc]
  · exact ht.fits
  · exact ht.count
  · exact ht.ok
  · exact ht.queue

theorem takeRight (h : Inv e s) (i : Side) :
    (s.takeRight e i = (false, s) ∧ (s.net.live (e i) = true →
        ∀ g ∈ (s.log i).pending, (s.log i).received < g.2)) ∨
      s.net.live (e i) = true ∧
        ∃ right rest, (s.log i).pending = (right, (s.log i).received) :: rest ∧
        (s.net.sockRecvRight (e i)).1 = .ok right ∧ (s.takeRight e i).1 = true ∧
        Inv e (s.takeRight e i).2 ∧ ((s.takeRight e i).2.log i).pending = rest := by
  rcases s.net.sockRecvRight_cases (e i) with ⟨err, hs, hlate⟩ | ⟨hl, hne, hdue, hs⟩
  · refine .inl ⟨by simp only [RightsRun.takeRight, hs], fun hl g hg => ?_⟩
    have ht := h.tracks i hl
    have hne := ht.nonempty hg
    obtain ⟨g0, rest, hp, hslot, -⟩ := ht.first hne
    have hin : g0.2 ≤ (s.log i).accepted := ht.within g0 (by rw [hp]; exact mem_cons_self)
    have hcount := ht.count
    have hfits := ht.fits
    have hlt := hlate hl hne
    rw [hslot, posAfter_add _ (by omega)] at hlt
    have := ht.first_le hp g hg
    omega
  · have ht := h.tracks i hl
    have ha := h.attached i
    obtain ⟨g, rest, hp, hslot, hrest⟩ := ht.first hne
    have hmem : g ∈ (s.log i).pending := by rw [hp]; exact mem_cons_self
    have hin := ht.within g hmem
    have hahead := ha.ahead g hmem
    have hcount := ht.count
    have hfits := ht.fits
    rw [hslot, posAfter_add _ (by omega)] at hdue
    have hg : g = (g.1, (s.log i).received) := Prod.ext rfl (by dsimp only; omega)
    have hs1 : s.takeRight e i = (true, s.update i
        (s.net.setSock (e i) { s.net.socks (e i) with anc := (s.net.socks (e i)).anc.next })
        { s.log i with taken := (s.log i).taken ++ [(g.1, (s.log i).received)] }) := by
      simp only [RightsRun.takeRight, hs, hslot]
    have hgiven : (s.log i).given = (s.log i).taken ++ g :: rest := by
      conv_lhs => rw [prefix_iff_eq_append.1 ha.ordered |>.symm]
      exact congrArg _ hp
    have hpend : RightsLog.pending
        { s.log i with taken := (s.log i).taken ++ [(g.1, (s.log i).received)] } = rest := by
      show (s.log i).given.drop ((s.log i).taken ++ [_]).length = rest
      rw [hgiven, length_append, length_singleton, drop_length_add_append]
      rfl
    refine .inr ⟨hl, g.1, rest, by rw [hp, ← hg], by rw [hs, hslot], by rw [hs1], ?_, ?_⟩
    · rw [hs1]
      refine h.update ⟨rfl, rfl, rfl, rfl, rfl, rfl⟩
        ⟨ht.fits, ht.count, ht.ok.next, ?_, fun g' hg' => ?_, ?_⟩ ⟨?_, fun g' hg' => ?_⟩
      · rw [hpend]
        exact hrest
      · rw [hpend] at hg'
        exact ht.within g' (by rw [hp]; exact mem_cons_of_mem _ hg')
      · rw [hpend]
        have := ht.sorted
        rw [hp] at this
        exact this.of_cons
      · rw [← hg]
        show (s.log i).taken ++ [g] <+: (s.log i).given
        rw [hgiven]
        exact ⟨rest, by simp⟩
      · rw [hpend] at hg'
        exact ha.ahead g' (by rw [hp]; exact mem_cons_of_mem _ hg')
    · rw [hs1]
      dsimp only
      rw [update_log_self]
      exact hpend

theorem takeBytes_cases (h : Inv e s) (i : Side) (len : ℕ) (dontWait : Bool) :
    (s.takeBytes out e i len dontWait = (0, s) ∧
        (s.net.live (e i) = true → (s.net.socks (e i)).rx.used = 0)) ∨
      s.net.live (e i) = true ∧ 0 < (s.net.socks (e i)).rx.used ∧
        ∃ k, k = min len (s.net.socks (e i)).rx.used ∧
          s.takeBytes out e i len dontWait = (k, s.update i (s.net.setSock (e i)
            { s.net.socks (e i) with rx := (Ring.pop k (s.net.socks (e i)).rx).2 })
            { s.log i with received := (s.log i).received + k }) := by
  rcases h.ends.recv out i len dontWait with
    ⟨r, hs, rfl | ⟨err, rfl⟩, h0⟩ | ⟨hl, k, hk, hpos, hs⟩
  · refine .inl ⟨?_, h0⟩
    simp only [RightsRun.takeBytes, hs, length_nil, Nat.add_zero, RightsRun.update,
      Function.update_eq_self]
  · exact .inl ⟨by simp only [RightsRun.takeBytes, hs], h0⟩
  · have hfits := (h.tracks i hl).fits
    refine .inr ⟨hl, hpos, k, by omega, ?_⟩
    simp only [RightsRun.takeBytes, hs, Ring.length_pop]

theorem takeBytes (h : Inv e s) (i : Side) (len : ℕ) (dontWait : Bool)
    (hfree : s.net.live (e i) = true → ∀ g ∈ (s.log i).pending,
      (s.log i).received + min len (s.net.socks (e i)).rx.used ≤ g.2) :
    Inv e (s.takeBytes out e i len dontWait).2 := by
  rcases h.takeBytes_cases out i len dontWait with ⟨hs, -⟩ | ⟨hl, -, k, rfl, hs⟩
  · rw [hs]
    exact h
  · obtain ⟨ht, ha⟩ := (h.tracks i hl).pop (h.attached i) (Nat.min_le_right _ _) (hfree hl)
    rw [hs]
    exact h.update ⟨rfl, rfl, rfl, rfl, rfl, rfl⟩ ht ha

theorem takeBytes_fst_le (h : Inv e s) (i : Side) (len : ℕ) (dontWait : Bool) :
    (s.takeBytes out e i len dontWait).1 ≤ len := by
  rcases h.takeBytes_cases out i len dontWait with ⟨hs, -⟩ | ⟨-, -, k, rfl, hs⟩ <;> rw [hs]
  · exact Nat.zero_le _
  · exact Nat.min_le_left _ _

/-- Pieces that end before the first pending right. The induction is on the buffers; what remains
to be read never reaches a right. -/
theorem recvPieces (i : Side) (dontWait : Bool) (lens : List ℕ) :
    ∀ (remain : ℕ) (s : RightsRun), Inv e s →
      (∀ g ∈ (s.log i).pending, (s.log i).received + remain ≤ g.2) →
      Inv e (s.recvPieces out e i dontWait lens remain) := by
  induction lens with
  | nil => exact fun _ _ h _ => h
  | cons len lens ih =>
    intro remain s h hfree
    unfold RightsRun.recvPieces
    dsimp only
    split_ifs with h0 hlen hstop
    · exact h
    · exact ih remain s h hfree
    all_goals
      have h' := h.takeBytes out i (min (min len remain) 4096) dontWait
        fun _ g hg => by have := hfree g hg; omega
    · exact h'
    · refine ih _ _ h' fun g hg => ?_
      rw [takeBytes_log] at hg ⊢
      have := hfree g hg
      have hle := h.takeBytes_fst_le out i (min (min len remain) 4096) dontWait
      dsimp only
      omega

theorem limit (h : Inv e s) (i : Side) (cap : ℕ) (hl : s.net.live (e i) = true)
    (hlate : ∀ g ∈ (s.log i).pending, (s.log i).received < g.2) :
    ∀ g ∈ (s.log i).pending,
      (s.log i).received + s.net.sockRecvLimitBeforeRight (e i) cap ≤ g.2 := by
  intro g hg
  have ht := h.tracks i hl
  have hne := ht.nonempty hg
  obtain ⟨g0, rest, hp, hslot, -⟩ := ht.first hne
  have hmem : g0 ∈ (s.log i).pending := by rw [hp]; exact mem_cons_self
  have hin := ht.within g0 hmem
  have hlate0 := hlate g0 hmem
  have hcount := ht.count
  have hfits := ht.fits
  obtain ⟨hnat, hint⟩ := sub_add_ofNat (s.net.socks (e i)).rx.tail
    (d := g0.2 - (s.log i).received) (by omega)
  refine le_trans ?_ (ht.first_le hp g hg)
  unfold Net.sockRecvLimitBeforeRight
  dsimp only
  rw [if_neg (by simp [hl]), if_neg (by simp [(h.ends.isOpen i hl).type]), if_neg hne, hslot, hnat,
    hint]
  split_ifs <;> omega

theorem recvPieces_idle (i : Side) (dontWait : Bool)
    (h0 : s.net.live (e i) = true → (s.net.socks (e i)).rx.used = 0) (h : Inv e s)
    (lens : List ℕ) :
    ∀ remain, s.recvPieces out e i dontWait lens remain = s := by
  induction lens with
  | nil => exact fun _ => rfl
  | cons len lens ih =>
    intro remain
    unfold RightsRun.recvPieces
    dsimp only
    rcases h.takeBytes_cases out i (min (min len remain) 4096) dontWait with
      ⟨hs, -⟩ | ⟨hl, hpos, -⟩
    · simp only [hs, ih, true_or, ite_self]
    · have := h0 hl
      omega

theorem recvPieces_some (h : Inv e s) (i : Side) (dontWait : Bool) (hl : s.net.live (e i) = true)
    (hpos : 0 < (s.net.socks (e i)).rx.used) {remain : ℕ} (hr : remain ≠ 0) (lens : List ℕ)
    (hsum : 0 < lens.sum) : ∃ k, (s.recvPieces out e i dontWait lens remain).log i =
      { s.log i with received := (s.log i).received + (k + 1) } := by
  induction lens with
  | nil => exact absurd hsum (lt_irrefl 0)
  | cons len lens ih =>
    unfold RightsRun.recvPieces
    dsimp only
    rw [if_neg hr]
    by_cases hlen : len = 0
    · rw [if_pos hlen]
      rw [sum_cons, hlen, Nat.zero_add] at hsum
      exact ih hsum
    · rw [if_neg hlen]
      have htake := s.takeBytes_log out e i (min (min len remain) 4096) dontWait
      rcases h.takeBytes_cases out i (min (min len remain) 4096) dontWait with
        ⟨-, h0⟩ | ⟨-, -, k, hk, hs⟩
      · have := h0 hl
        omega
      · obtain ⟨j, hj⟩ : ∃ j, (s.takeBytes out e i (min (min len remain) 4096) dontWait).1 =
            j + 1 := ⟨k - 1, by rw [hs]; dsimp only; omega⟩
        rw [hj] at htake
        generalize s.takeBytes out e i (min (min len remain) 4096) dontWait = r at htake hj
        by_cases hstop : r.1 = 0 ∨ r.1 < min len remain
        · rw [if_pos hstop]
          exact ⟨j, htake⟩
        · rw [if_neg hstop]
          obtain ⟨k', hk'⟩ := recvPieces_log out e i dontWait lens (remain - r.1) r.2
          rw [hk', htake]
          exact ⟨j + k', by rw [Nat.add_assoc, Nat.add_right_comm]⟩

theorem recvIov (h : Inv e s) (i : Side) (lens : List ℕ) (dontWait : Bool)
    (hop : s.Heeds e (.recvIov i lens dontWait)) : Inv e (s.recvIov out e i lens dontWait) := by
  unfold RightsRun.recvIov
  dsimp only
  by_cases h0 : s.net.live (e i) = true → (s.net.socks (e i)).rx.used = 0
  · rw [recvPieces_idle out i dontWait h0 h, ite_self]
    exact h
  · rw [Classical.not_imp] at h0
    obtain ⟨hl, hpos⟩ := h0
    split_ifs with hcap
    · exact h
    · refine h.recvPieces out i dontWait lens _ s fun g hg => ?_
      have := h.limit i (min lens.sum (2 ^ 64 - 1)) hl
        (hop hl (by omega) (Nat.pos_of_ne_zero hpos)) g hg
      omega

theorem drainRights (i : Side) (k : ℕ) :
    ∀ s : RightsRun, Inv e s →
      Inv e (s.drainRights e i k) ∧ ((s.net.live (e i) = true → (s.log i).pending.length < k) →
        (s.drainRights e i k).net.live (e i) = true →
          ∀ g ∈ ((s.drainRights e i k).log i).pending,
            ((s.drainRights e i k).log i).received < g.2) := by
  induction k with
  | zero => exact fun s h => ⟨h, fun hlt hl => absurd (hlt hl) (Nat.not_lt_zero _)⟩
  | succ k ih =>
    intro s h
    unfold RightsRun.drainRights
    rcases h.takeRight i with ⟨hs, hlate⟩ | ⟨hl, right, rest, hp, -, ht, hinv, hrest⟩
    · rw [hs]
      exact ⟨h, fun _ => hlate⟩
    · obtain ⟨hi, hlate⟩ := ih _ hinv
      generalize hr : s.takeRight e i = r at *
      obtain ⟨b, s'⟩ := r
      obtain rfl : b = true := ht
      refine ⟨hi, fun hlt => hlate fun _ => ?_⟩
      have := hlt hl
      rw [hp, length_cons] at this
      rw [hrest]
      omega

theorem pending_lt (h : Inv e s) (hl : s.net.live (e i) = true) :
    (s.log i).pending.length < sockAncq := by
  have ht := h.tracks i hl
  have hlen := congrArg List.length ht.queue
  rw [Circular.length_contents, length_map] at hlen
  rw [← hlen]
  exact ht.ok.len_lt

theorem exec (h : Inv e s) {op : RightsOp} (hop : s.Heeds e op) : Inv e (s.exec out e op) := by
  cases op with
  | send i src => exact h.send out i src
  | sendRight i right => exact h.sendRight out i right
  | recvRight i =>
    show Inv e (s.takeRight e i).2
    rcases h.takeRight i with ⟨hs, -⟩ | ⟨-, -, -, -, -, -, hinv, -⟩
    · rw [hs]
      exact h
    · exact hinv
  | recvmsg i lens dontWait =>
    obtain ⟨hinv, hlate⟩ := drainRights i sockAncq s h
    exact hinv.recvIov out i lens dontWait fun hl _ _ => hlate h.pending_lt hl
  | recvIov i lens dontWait => exact h.recvIov out i lens dontWait hop
  | recv i len dontWait => exact h.takeBytes out i len dontWait hop
  | close i => exact h.close out i

theorem toAttached (h : Inv e s) : s.Attached e := by
  refine ⟨h.attached, fun i hl right rest hp => ?_⟩
  rcases h.takeRight i with ⟨-, hlate⟩ | ⟨-, right', rest', hp', hs, -⟩
  · have := hlate hl (right, (s.log i).received) (by rw [hp]; exact mem_cons_self)
    exact absurd this (lt_irrefl _)
  · rw [hp] at hp'
    rw [hs, (Prod.mk.inj (List.cons.inj hp').1).1]

theorem heeds (h : Inv e s) {op : RightsOp} (ha : (s.exec out e op).Attached e) :
    s.Heeds e op := by
  cases op with
  | send | sendRight | recvRight | recvmsg | close => trivial
  | recv i len dontWait =>
    intro hl g hg
    have hin := (ha.side i).ahead g
    have htake := s.takeBytes_log out e i len dontWait
    unfold RightsRun.exec at hin
    dsimp only at hin
    rw [htake] at hin
    rcases h.takeBytes_cases out i len dontWait with ⟨hs, h0⟩ | ⟨-, -, k, rfl, hs⟩
    · rw [h0 hl, Nat.min_zero]
      exact (h.attached i).ahead g hg
    · rw [hs] at hin
      exact hin hg
  | recvIov i lens dontWait =>
    intro hl hsum hpos g hg
    by_contra hnot
    have hin := (ha.side i).ahead g
    have hcap : min lens.sum (2 ^ 64 - 1) ≠ 0 := by omega
    -- the first pending right is due, so there is no limit
    have hlim : s.net.sockRecvLimitBeforeRight (e i) (min lens.sum (2 ^ 64 - 1)) =
        min lens.sum (2 ^ 64 - 1) := by
      have ht := h.tracks i hl
      obtain ⟨g0, rest, hp, hslot, -⟩ := ht.first (ht.nonempty hg)
      have hle := ht.first_le hp g hg
      unfold Net.sockRecvLimitBeforeRight
      dsimp only
      rw [if_neg (by simp [hl]), if_neg (by simp [(h.ends.isOpen i hl).type]),
        if_neg (ht.nonempty hg), hslot, show g0.2 - (s.log i).received = 0 by omega,
        if_pos (by simp)]
    unfold RightsRun.exec RightsRun.recvIov at hin
    dsimp only at hin
    rw [if_neg hcap, hlim, Nat.min_self] at hin
    obtain ⟨k, hk⟩ := h.recvPieces_some out i dontWait hl hpos hcap lens hsum
    rw [hk] at hin
    have := hin hg
    dsimp only at this
    omega

end Inv

end RightsRun

/-- **Rights stay with their bytes.** On a connected pair with new rings and queues, in every run
whose receives do not read on over a right, the rights come out once, in order and together with the
first byte behind them; and a receive that reads on over a right breaks it. -/
theorem rightsRun_attached (out : Outside) {e : Side → ℕ} {n : Net} (h : Connected n e)
    (hnew : ∀ i, (n.socks (e i)).rx.used = 0 ∧ (n.socks (e i)).anc.Ok ∧
      (n.socks (e i)).anc.contents = []) {s : RightsRun}
    (hrun : Runs (RightsRun.Heeds e) (RightsRun.exec out e) (.start n) s) :
    s.Attached e ∧ ∀ op, (s.exec out e op).Attached e ↔ s.Heeds e op := by
  have hstart : RightsRun.Inv e (.start n) := by
    refine ⟨h.toEnds, fun i => ⟨prefix_rfl, fun g hg => absurd hg not_mem_nil⟩,
      fun i _ => ?_⟩
    obtain ⟨hrx, hok, hanc⟩ := hnew i
    exact .start hrx hok hanc
  have hinv := Runs.invariant (fun _ _ hi hop => RightsRun.Inv.exec out hi hop) hrun hstart
  exact ⟨hinv.toAttached, fun op => ⟨hinv.heeds out, fun hop => (hinv.exec out hop).toAttached⟩⟩

/-- An end of a new pair sends a byte, a right and another byte. -/
def rightSent : RightsRun :=
  (((RightsRun.start bootPair).exec .idle (pairEnds 0 1) (.send .left [1])).exec
    .idle (pairEnds 0 1) (.sendRight .left 7)).exec .idle (pairEnds 0 1) (.send .left [2])

theorem rightSent_run : Runs (RightsRun.Heeds (pairEnds 0 1))
    (RightsRun.exec .idle (pairEnds 0 1)) (.start bootPair) rightSent :=
  (((Runs.refl _).tail (RightsOp.send .left [1]) trivial).tail (RightsOp.sendRight .left 7)
    trivial).tail (RightsOp.send .left [2]) trivial

theorem rightSent_attached :
    ((rightSent.exec .idle (pairEnds 0 1) (.recvmsg .right [16] true)).exec .idle (pairEnds 0 1)
      (.recvmsg .right [16] true)).Attached (pairEnds 0 1) :=
  (rightsRun_attached .idle connected_bootPair.1 (fun i => by
    rw [(connected_bootPair.2 i).1, (connected_bootPair.2 i).2]
    exact ⟨by decide, ⟨by decide, by decide⟩, by decide⟩)
    ((rightSent_run.tail (RightsOp.recvmsg .right [16] true) trivial).tail
      (RightsOp.recvmsg .right [16] true) trivial)).1

/-- A `read` takes both bytes, and the right is left behind. -/
theorem rightSent_not_attached :
    ¬(rightSent.exec .idle (pairEnds 0 1) (.recv .right 16 true)).Attached (pairEnds 0 1) := by
  generalize hs : rightSent.exec .idle (pairEnds 0 1) (.recv .right 16 true) = s
  intro ha
  have hp : (s.log .right).pending = [(7, 1)] := by
    rw [← hs]
    decide +kernel
  have hr : (s.log .right).received = 2 := by
    rw [← hs]
    decide +kernel
  have := (ha.side .right).ahead (7, 1) (by rw [hp]; exact mem_cons_self)
  rw [hr] at this
  exact absurd this (by decide)

end Ridux
