import Mathlib.Data.List.Infix
import Ridux.Net.Pair

/-!
# Streams are queues

Runs of sends, receives and closes on a connected pair.

* `StreamOp`, `StreamRun`: the calls, with the bytes accepted and received so far;
* `Fifo`: what was accepted is what was received and what waits in the ring;
* `streamRun_fifo`: it holds in every run exactly when the rings were empty at the start.
-/

namespace Ridux

open Lib Function List

/-- A call on an end of a pair. -/
inductive StreamOp
  | send (i : Side) (src : Bytes)
  | recv (i : Side) (len : ℕ) (dontWait : Bool)
  | close (i : Side)

/-- The sockets, and for each end the bytes whose acceptance `sock_send` reported and those that
`sock_recv` returned. -/
structure StreamRun where
  net : Net
  accepted : Side → Bytes
  received : Side → Bytes

namespace StreamRun

def start (n : Net) : StreamRun := ⟨n, fun _ => [], fun _ => []⟩

def step (out : Outside) (e : Side → ℕ) (s : StreamRun) : StreamOp → StreamRun
  | .send i src =>
    match s.net.sockSend out (e i) src with
    | (.ok k, n) =>
      { s with
        net := n
        accepted := update s.accepted i (s.accepted i ++ src.take k) }
    | (.error _, n) => { s with net := n }
  | .recv i len dontWait =>
    match s.net.sockRecv out (e i) len dontWait with
    | (.ok bytes, n) =>
      { s with
        net := n
        received := update s.received i (s.received i ++ bytes) }
    | (.error _, n) => { s with net := n }
  | .close i => { s with net := (s.net.sockClose (e i)).2 }

/-- The state after a list of calls on a pair. -/
def run (out : Outside) (e : Side → ℕ) (n : Net) (ops : List StreamOp) : StreamRun :=
  ops.foldl (step out e) (start n)

end StreamRun

/-- What an end has received is the start of what the other end's sends took; while it is open, the
rest waits in its ring. -/
structure Fifo (e : Side → ℕ) (s : StreamRun) : Prop where
  ordered : ∀ i, s.received i <+: s.accepted i.other
  exact : ∀ i, s.net.live (e i) = true →
    s.accepted i.other = s.received i ++ (s.net.socks (e i)).rx.contents

/-- The invariant of a run. -/
structure FifoInv (e : Side → ℕ) (s : StreamRun) : Prop extends Fifo e s where
  ends : Ends s.net e
  fits : ∀ i, s.net.live (e i) = true → (s.net.socks (e i)).rx.used ≤ sockBufSize

namespace FifoInv

variable {out : Outside} {e : Side → ℕ} {s : StreamRun} {n : Net}

theorem start (h : Ends n e) (hrx : ∀ i, (n.socks (e i)).rx.contents = []) : FifoInv e (.start n) := by
  refine ⟨⟨fun i => prefix_rfl, fun i _ => (hrx i).symm⟩, h, fun i _ => ?_⟩
  change (n.socks (e i)).rx.used ≤ _
  rw [← Ring.length_contents, hrx i]
  exact Nat.zero_le _

theorem kept (h : FifoInv e s) (hk : Ends.Kept s.net e n) : FifoInv e { s with net := n } := by
  refine ⟨⟨h.ordered, fun i hi => ?_⟩, hk.1, fun i hi => ?_⟩
  · obtain ⟨hl, hr, -⟩ := hk.2 i hi
    rw [hr]
    exact h.exact i hl
  · obtain ⟨hl, hr, -⟩ := hk.2 i hi
    rw [hr]
    exact h.fits i hl

theorem send (h : FifoInv e s) (i : Side) (src : Bytes) : FifoInv e (s.step out e (.send i src)) := by
  rcases h.ends.send out i src with ⟨err, hs⟩ | ⟨hl, hlo, hs⟩
  · simp only [StreamRun.step, hs]
    exact h
  · simp only [StreamRun.step, hs]
    obtain ⟨hc, hf⟩ := Sock.contents_pushRx (h.fits _ hlo) src
    have hsame : SameLink (s.net.socks (e i.other)) ((s.net.socks (e i.other)).pushRx src).2 :=
      ⟨rfl, rfl, rfl, rfl, rfl, rfl⟩
    refine ⟨⟨fun j => ?_, fun j hj => ?_⟩, h.ends.setSock hsame, fun j hj => ?_⟩ <;> dsimp only
    · rcases Side.eq_or_eq_other i j with rfl | rfl
      · rw [update_of_ne (Side.other_ne _)]
        exact h.ordered j
      · rw [Side.other_other, update_self]
        have := h.ordered i.other
        rw [Side.other_other] at this
        exact this.trans (prefix_append _ _)
    · rw [Net.live_setSock hsame.used] at hj
      rcases Side.eq_or_eq_other i j with rfl | rfl
      · rw [update_of_ne (Side.other_ne _), Net.setSock_of_ne _ (h.ends.ne j)]
        exact h.exact j hj
      · have hx := h.exact i.other hj
        rw [Side.other_other] at hx ⊢
        rw [update_self, Net.setSock_self, hc, hx, append_assoc]
    · rw [Net.live_setSock hsame.used] at hj
      rcases Side.eq_or_eq_other i j with rfl | rfl
      · rw [Net.setSock_of_ne _ (h.ends.ne j)]
        exact h.fits j hj
      · rw [Net.setSock_self]
        exact hf

theorem recv (h : FifoInv e s) (i : Side) (len : ℕ) (dontWait : Bool) :
    FifoInv e (s.step out e (.recv i len dontWait)) := by
  rcases h.ends.recv out i len dontWait with ⟨r, hs, rfl | ⟨err, rfl⟩, -⟩ | ⟨hl, k, hk, -, hs⟩
  · simp only [StreamRun.step, hs, append_nil, update_eq_self]
    exact h
  · simp only [StreamRun.step, hs]
    exact h
  · simp only [StreamRun.step, hs]
    have hk : k ≤ (s.net.socks (e i)).rx.used := by omega
    have hsame : SameLink (s.net.socks (e i))
        { s.net.socks (e i) with rx := (Ring.pop k (s.net.socks (e i)).rx).2 } :=
      ⟨rfl, rfl, rfl, rfl, rfl, rfl⟩
    have hpop := Ring.pop_fst k _ hk
    have hrest := Ring.contents_pop k _ hk
    -- what was received, what is received now and what still waits
    have hsplit : s.accepted i.other = s.received i ++ (Ring.pop k (s.net.socks (e i)).rx).1 ++
        (Ring.pop k (s.net.socks (e i)).rx).2.contents := by
      rw [h.exact i hl, hpop, hrest, append_assoc, take_append_drop]
    refine ⟨⟨fun j => ?_, fun j hj => ?_⟩, h.ends.setSock hsame, fun j hj => ?_⟩ <;> dsimp only
    · by_cases hj : j = i
      · subst hj
        rw [update_self, hsplit]
        exact prefix_append _ _
      · rw [update_of_ne hj]
        exact h.ordered j
    · rw [Net.live_setSock hsame.used] at hj
      rcases Side.eq_or_eq_other i j with rfl | rfl
      · rw [update_self, Net.setSock_self]
        exact hsplit
      · rw [update_of_ne (Side.other_ne _), Net.setSock_of_ne _ (h.ends.ne i).symm]
        exact h.exact i.other hj
    · rw [Net.live_setSock hsame.used] at hj
      rcases Side.eq_or_eq_other i j with rfl | rfl
      · rw [Net.setSock_self]
        have := h.fits j hj
        dsimp only
        rw [Ring.used_pop k _ hk]
        omega
      · rw [Net.setSock_of_ne _ (h.ends.ne i).symm]
        exact h.fits i.other hj

theorem step (h : FifoInv e s) (op : StreamOp) : FifoInv e (s.step out e op) := by
  cases op with
  | send i src => exact h.send i src
  | recv i len dontWait => exact h.recv i len dontWait
  | close i => exact h.kept (h.ends.close (e i))

theorem run (h : FifoInv e (.start n)) (ops : List StreamOp) : FifoInv e (.run out e n ops) := by
  unfold StreamRun.run
  generalize StreamRun.start n = s at h ⊢
  induction ops generalizing s with
  | nil => exact h
  | cons op ops ih => exact ih _ (h.step op)

end FifoInv

/-- **A stream is a queue.** What an end of a connected pair receives is the start of what the
other end's sends took, in every run of calls, exactly when the pair starts with empty rings: when
neither end holds bytes of an earlier connection. Then nothing is lost either. -/
theorem streamRun_fifo (out : Outside) {e : Side → ℕ} {n : Net} (h : Connected n e) :
    ((∀ ops i, (StreamRun.run out e n ops).received i <+:
        (StreamRun.run out e n ops).accepted i.other) ↔
      ∀ i, (n.socks (e i)).rx.contents = []) ∧
    ((∀ i, (n.socks (e i)).rx.contents = []) → ∀ ops, Fifo e (.run out e n ops)) := by
  have hfifo : (∀ i, (n.socks (e i)).rx.contents = []) → ∀ ops, Fifo e (.run out e n ops) :=
    fun hrx ops => ((FifoInv.start h.toEnds hrx).run ops).toFifo
  refine ⟨⟨fun hord i => ?_, fun hrx ops => (hfifo hrx ops).ordered⟩, hfifo⟩
  -- a single byte read before anything was sent
  have hone := hord [.recv i 1 true] i
  by_contra hne
  have hu : 0 < (n.socks (e i)).rx.used := by
    rw [← Ring.length_contents]
    exact length_pos_iff.2 hne
  rcases h.toEnds.recv out i 1 true with ⟨r, -, -, h0⟩ | ⟨-, k, hk, -, hs⟩
  · have := h0 (h.live i)
    omega
  · have hpos : 0 < sockBufSize := by decide
    simp only [StreamRun.run, foldl_cons, foldl_nil, StreamRun.step, StreamRun.start,
      hs, update_self, nil_append, prefix_nil] at hone
    have := congrArg List.length hone
    rw [Ring.length_pop] at this
    simp at this
    omega

theorem bootPair_fifo : Fifo (pairEnds 0 1) (.run .idle (pairEnds 0 1) bootPair
    [.send .left [1, 2, 3], .recv .right 2 true, .close .left, .recv .right 2 true]) :=
  (streamRun_fifo .idle connected_bootPair.1).2
    (fun i => by
      rw [(connected_bootPair.2 i).1]
      exact Sock.contents_zeroed_rx) _

/-- A client whose first connection ended with a byte unread, and which has connected again. -/
def reconnected : Net :=
  let n := (Net.boot.sockCreate 1 1 0).2
  let n := (n.sockBind 0 0x7F000001#32 5).2
  let n := (n.sockListen 0 4).2
  let n := (n.sockCreate 1 1 0).2
  let n := (n.sockConnect 1 0x7F000001#32 5 none).2
  let n := (n.sockAccept 0).2
  let n := (n.sockSend .idle 2 [0x78]).2
  let n := (n.sockClose 2).2
  let n := (n.sockConnect 1 0x7F000001#32 5 none).2
  (n.sockAccept 0).2

/-- It receives the byte of the first connection over the second. -/
theorem reconnected_stale :
    Connected reconnected (pairEnds 1 2) ∧
      ¬(StreamRun.run .idle (pairEnds 1 2) reconnected [.recv .left 1 true]).received .left <+:
        (StreamRun.run .idle (pairEnds 1 2) reconnected [.recv .left 1 true]).accepted .right := by
  constructor
  · refine connected_pairEnds (by decide) (by decide +kernel) (by decide +kernel) fun i => ?_
    cases i <;> decide +kernel
  · have hr : (StreamRun.run .idle (pairEnds 1 2) reconnected [.recv .left 1 true]).received .left =
        [0x78] := by decide +kernel
    have ha : (StreamRun.run .idle (pairEnds 1 2) reconnected [.recv .left 1 true]).accepted .right =
        [] := by decide +kernel
    rw [hr, ha]
    simp

end Ridux
