import Ridux.Fd.Object
import Ridux.Lib.Ring
import Ridux.Text

/-!
# Waiting on a pipe

The pipes of `base.c` and the calls of `linux_syscalls.c` that wait on them.

* `BytePipe`: a pipe with its bytes; `readWait`, `writeWait`: one turn of the loops of
  `c3_pipe_read_wait` and `c3_pipe_write_wait`, between two waits;
* `InRange`: the counters have not reached the end of an `int`;
* `readWait_some`, `writeWait_some` and their kin: what a turn does then.

The two indices are counters of type `int` that are reduced only where they are used. An overflow
or an index outside the buffer is undefined: the result is `none`.
-/

namespace Ridux

open Lib List Option

def pipeBufSize : ℤ := 4096

/-- `pipe_t`: the buffer and its counters are the ring. -/
structure BytePipe extends Pipe where
  ring : Ring UInt8 12

/-- What the calls return on failure. -/
inductive PipeErr
  | ebadf
  | epipe
  | eagain
  | eintr
  deriving DecidableEq

/-- A turn of a loop: the call returns, or waits and tries again. -/
inductive Turn (α : Type)
  | done (r : Except PipeErr α)
  | wait

/-- What the caller is and asks for: `C3_MSG_DONTWAIT`, and a signal that it does not block. -/
structure Caller where
  dontWait : Bool
  signal : Bool

/-- Nothing to do for the caller now. -/
def Caller.idle {α : Type} (c : Caller) : Turn α :=
  if c.dontWait then .done (.error .eagain)
  else if c.signal then .done (.error .eintr)
  else .wait

theorem Caller.idle_ne {α : Type} (c : Caller) (x : α) : c.idle ≠ .done (.ok x) := by
  unfold idle
  split_ifs
  · intro h
    injection h with h
    cases h
  · intro h
    injection h with h
    cases h
  · intro h
    cases h

/-- A value of type `int`. -/
def cInt (x : ℤ) : Option ℤ := if -2 ^ 31 ≤ x ∧ x < 2 ^ 31 then some x else none

/-- A value of type `size_t`. -/
def cSize (x : ℤ) : ℕ := (x % 2 ^ 64).toNat

namespace BytePipe

/-- `(p->head-p->tail+PIPE_BUF_SIZE)%PIPE_BUF_SIZE`. -/
def fill (r : Ring UInt8 12) : Option ℤ := do
  let d ← cInt (r.head.toInt - r.tail.toInt)
  let u ← cInt (d + pipeBufSize)
  pure (u.tmod pipeBufSize)

/-- A counter can be used as an index and counted up. -/
def countable (p : BitVec 32) : Bool := 0 ≤ p.toInt.tmod pipeBufSize ∧ p.toInt + 1 < 2 ^ 31

/-- The loop of a write. -/
def copyIn (r : Ring UInt8 12) (src : Bytes) : Option (Ring UInt8 12) :=
  src.foldlM (fun r b => if countable r.head then some (r.put b) else none) r

/-- The loop of a read. -/
def copyOut : ℕ → Ring UInt8 12 → Option (Bytes × Ring UInt8 12)
  | 0, r => some ([], r)
  | n + 1, r =>
    if countable r.tail then
      (copyOut n r.next).map fun q => (r.buf (Ring.cell 12 r.tail) :: q.1, q.2)
    else none

/-- One turn of `c3_pipe_read_wait`. -/
def readWait (p : BytePipe) (count : ℕ) (c : Caller) : Option (Turn Bytes × BytePipe) :=
  if count = 0 then some (.done (.ok []), p)
  else if !p.used then some (.done (.error .ebadf), p)
  else do
    let f ← fill p.ring
    let av := cSize f
    if av ≠ 0 then do
      let (bytes, ring) ← copyOut (min count av) p.ring
      pure (.done (.ok bytes), { p with ring := ring })
    else if p.writers ≤ 0 then pure (.done (.ok []), p)
    else pure (c.idle, p)

/-- One turn of `c3_pipe_write_wait`: how many bytes were written. -/
def writeWait (p : BytePipe) (src : Bytes) (c : Caller) : Option (Turn ℕ × BytePipe) :=
  if src = [] then some (.done (.ok 0), p)
  else if !p.used then some (.done (.error .ebadf), p)
  else if p.readers ≤ 0 then some (.done (.error .epipe), p)
  else do
    let f ← fill p.ring
    let av := cSize (pipeBufSize - f - 1)
    if av ≠ 0 then do
      let towrite := min src.length av
      let ring ← copyIn p.ring (src.take towrite)
      pure (.done (.ok towrite), { p with ring := ring })
    else pure (c.idle, p)

/-- `pipe_create`. -/
def create : BytePipe where
  used := true
  readers := 1
  writers := 1
  ring := ⟨fun _ => 0, 0, 0⟩

/-- `pipe_close_read`. -/
def closeRead (p : BytePipe) : BytePipe :=
  if p.used then { p with toPipe := Objects.pipeSettle { p.toPipe with readers := p.readers - 1 } }
  else p

/-- `pipe_close_write`. -/
def closeWrite (p : BytePipe) : BytePipe :=
  if p.used then { p with toPipe := Objects.pipeSettle { p.toPipe with writers := p.writers - 1 } }
  else p

@[simp] theorem closeRead_ring (p : BytePipe) : p.closeRead.ring = p.ring := by
  unfold closeRead
  split_ifs <;> rfl

@[simp] theorem closeWrite_ring (p : BytePipe) : p.closeWrite.ring = p.ring := by
  unfold closeWrite
  split_ifs <;> rfl

/-! ### Below the overflow -/

/-- The counters have counted no further than an `int` goes, and the ring is not overfull. -/
structure InRange (r : Ring UInt8 12) : Prop where
  head : r.head.toNat < 2 ^ 31
  split : r.head.toNat = r.tail.toNat + r.used
  room : r.used ≤ 4095

variable {r : Ring UInt8 12}

theorem toInt_of_lt {p : BitVec 32} (h : p.toNat < 2 ^ 31) : p.toInt = p.toNat := by
  rw [BitVec.toInt_eq_toNat_cond, if_pos (by omega)]

theorem countable_of_lt {p : BitVec 32} (h : p.toNat + 1 < 2 ^ 31) : countable p = true := by
  have hi : p.toInt = p.toNat := toInt_of_lt (by omega)
  have hnn : 0 ≤ (p.toNat : ℤ).tmod pipeBufSize := Int.tmod_nonneg _ (by omega)
  unfold countable
  rw [hi, decide_eq_true_iff]
  exact ⟨hnn, by omega⟩

theorem not_countable {p : BitVec 32} (h : p.toNat + 1 = 2 ^ 31) : countable p = false := by
  have hi : p.toInt = p.toNat := toInt_of_lt (by omega)
  unfold countable
  rw [hi, decide_eq_false_iff_not]
  omega

namespace InRange

theorem fill_eq (h : InRange r) : fill r = some (r.used : ℤ) := by
  have h1 := h.head
  have h2 := h.split
  have h3 := h.room
  have hd : r.head.toInt - r.tail.toInt = r.used := by
    rw [toInt_of_lt h1, toInt_of_lt (show r.tail.toNat < 2 ^ 31 by omega)]
    omega
  have hmod : ((r.used : ℤ) + pipeBufSize).tmod pipeBufSize = r.used := by
    unfold pipeBufSize
    rw [Int.tmod_eq_emod_of_nonneg (by omega)]
    omega
  unfold fill
  rw [hd]
  have c1 : cInt (r.used : ℤ) = some (r.used : ℤ) := if_pos (by omega)
  have c2 : cInt ((r.used : ℤ) + pipeBufSize) = some ((r.used : ℤ) + pipeBufSize) :=
    if_pos (by unfold pipeBufSize; omega)
  rw [c1, bind_eq_bind, bind_some, c2, bind_some, hmod]
  rfl

theorem cSize_used (h : InRange r) : cSize (r.used : ℤ) = r.used := by
  have := h.room
  unfold cSize
  omega

theorem cSize_room (h : InRange r) : cSize (pipeBufSize - r.used - 1) = 4095 - r.used := by
  have := h.room
  unfold cSize pipeBufSize
  omega

theorem put (h : InRange r) (b : UInt8) (hu : r.used < 4095) (hh : r.head.toNat + 1 < 2 ^ 31) :
    InRange (r.put b) := by
  have hput : (r.put b).used = r.used + 1 := Ring.used_put b (by omega)
  have hhead : (r.put b).head.toNat = r.head.toNat + 1 := by
    show (r.head + 1).toNat = _
    bv_omega
  have hs := h.split
  refine ⟨by omega, ?_, by omega⟩
  rw [hhead, hput, Ring.put_tail]
  omega

theorem copyIn_eq {src : Bytes} (h : InRange r) (hroom : r.used + src.length ≤ 4095) :
    copyIn r src = if r.head.toNat + src.length < 2 ^ 31 then some (r.push src) else none := by
  induction src generalizing r with
  | nil =>
    rw [length_nil, Nat.add_zero, if_pos h.head]
    rfl
  | cons b src ih =>
    rw [length_cons] at hroom ⊢
    have hstep : copyIn r (b :: src) =
        (if countable r.head then some (r.put b) else none).bind fun r => copyIn r src := rfl
    rw [hstep]
    by_cases hh : r.head.toNat + 1 < 2 ^ 31
    · have hput : (r.put b).used = r.used + 1 := Ring.used_put b (by omega)
      have hhead : (r.put b).head.toNat = r.head.toNat + 1 := by
        show (r.head + 1).toNat = _
        bv_omega
      rw [countable_of_lt hh, if_pos rfl, bind_some,
        ih (h.put b (by omega) hh) (by omega), hhead]
      simp only [Nat.add_assoc, Nat.add_comm 1]
      rfl
    · have := h.head
      rw [not_countable (show r.head.toNat + 1 = 2 ^ 31 by omega), if_neg (by simp),
        if_neg (by omega)]
      rfl

theorem copyOut_eq {n : ℕ} (h : InRange r) (hn : n ≤ r.used) :
    copyOut n r = some (Ring.pop n r) := by
  induction n generalizing r with
  | zero => rfl
  | succ n ih =>
    have hh := h.head
    have hs := h.split
    have hused : r.next.used = r.used - 1 := Ring.used_next (by omega)
    have htail : r.next.tail.toNat = r.tail.toNat + 1 := by
      show (r.tail + 1).toNat = _
      bv_omega
    have hnext : InRange r.next := by
      refine ⟨hh, ?_, by have := h.room; omega⟩
      show r.head.toNat = _
      omega
    unfold copyOut
    rw [if_pos (countable_of_lt (by omega)), ih hnext (by omega)]
    rfl

theorem push {src : Bytes} (h : InRange r) (hroom : r.used + src.length ≤ 4095)
    (hh : r.head.toNat + src.length < 2 ^ 31) : InRange (r.push src) := by
  have hused : (r.push src).used = r.used + src.length := Ring.used_push (by decide) _ _ (by omega)
  have hhead : (r.push src).head.toNat = r.head.toNat + src.length := by
    rw [Ring.push_head, BitVec.toNat_add, BitVec.toNat_ofNat]
    omega
  have hs := h.split
  refine ⟨by omega, ?_, by omega⟩
  rw [hhead, hused, Ring.push_tail]
  omega

theorem pop {n : ℕ} (h : InRange r) (hn : n ≤ r.used) : InRange (Ring.pop n r).2 := by
  have hused := Ring.used_pop n r hn
  have hh := h.head
  have hs := h.split
  have hr := h.room
  refine ⟨by rw [Ring.pop_head]; exact hh, ?_, by omega⟩
  rw [Ring.pop_head, hused, Ring.pop_tail, BitVec.toNat_add, BitVec.toNat_ofNat]
  omega

end InRange

variable {p : BytePipe} {src : Bytes}

theorem readWait_some (h : InRange p.ring) {count : ℕ} (c : Caller) (hc : count ≠ 0)
    (hu : p.used = true) (hne : p.ring.used ≠ 0) :
    p.readWait count c = some (.done (.ok (Ring.pop (min count p.ring.used) p.ring).1),
      { p with ring := (Ring.pop (min count p.ring.used) p.ring).2 }) := by
  unfold readWait
  rw [if_neg hc, if_neg (by simp [hu]), h.fill_eq]
  dsimp only [bind_eq_bind, bind_some]
  rw [h.cSize_used, if_pos hne, h.copyOut_eq (Nat.min_le_right _ _)]
  rfl

theorem readWait_none (h : InRange p.ring) {count : ℕ} (c : Caller) (hc : count ≠ 0)
    (hu : p.used = true) (hz : p.ring.used = 0) :
    p.readWait count c = some (if p.writers ≤ 0 then .done (.ok []) else c.idle, p) := by
  unfold readWait
  rw [if_neg hc, if_neg (by simp [hu]), h.fill_eq]
  dsimp only [bind_eq_bind, bind_some]
  rw [h.cSize_used, if_neg (by simp [hz])]
  split_ifs <;> rfl

theorem readWait_unused {count : ℕ} (c : Caller) (hc : count ≠ 0) (hu : p.used = false) :
    p.readWait count c = some (.done (.error .ebadf), p) := by
  unfold readWait
  rw [if_neg hc, if_pos (by simp [hu])]

/-- How many bytes a turn of a write takes. -/
def taken (p : BytePipe) (src : Bytes) : ℕ :=
  if p.used ∧ 0 < p.readers then min src.length (4095 - p.ring.used) else 0

theorem writeWait_some (h : InRange p.ring) (c : Caller) (ht : p.taken src ≠ 0) :
    p.writeWait src c =
      (if p.ring.head.toNat + p.taken src < 2 ^ 31 then
        some (p.ring.push (src.take (p.taken src))) else none).map
        fun ring => (.done (.ok (p.taken src)), { p with ring := ring }) := by
  have hu : p.used = true ∧ 0 < p.readers := by
    by_contra hn
    exact ht (if_neg hn)
  have htaken : p.taken src = min src.length (4095 - p.ring.used) := if_pos hu
  have hne : src ≠ [] := by
    rintro rfl
    exact ht (by rw [htaken]; exact Nat.zero_min _)
  have hlen : (src.take (p.taken src)).length = p.taken src := by
    rw [length_take, htaken]
    omega
  unfold writeWait
  rw [if_neg hne, if_neg (by simp [hu.1]), if_neg (by omega), h.fill_eq]
  dsimp only [bind_eq_bind, bind_some]
  have hr := h.room
  rw [h.cSize_room, if_pos (by omega), ← htaken, h.copyIn_eq (by rw [hlen]; omega), hlen]
  split_ifs <;> rfl

theorem writeWait_none (h : InRange p.ring) (c : Caller) (ht : p.taken src = 0) :
    ∃ t, p.writeWait src c = some (t, p) ∧ ∀ k, t = .done (.ok k) → k = 0 := by
  have hidle : ∀ k, (c.idle : Turn ℕ) = .done (.ok k) → k = 0 :=
    fun k hk => absurd hk (c.idle_ne k)
  unfold writeWait
  by_cases hne : src = []
  · rw [if_pos hne]
    exact ⟨_, rfl, fun k hk => by cases hk; rfl⟩
  rw [if_neg hne]
  by_cases hu : p.used = true
  · rw [if_neg (by simp [hu])]
    by_cases hr : p.readers ≤ 0
    · rw [if_pos hr]
      exact ⟨_, rfl, fun k hk => by cases hk⟩
    · have hlen := length_pos_iff.2 hne
      unfold taken at ht
      rw [if_pos ⟨hu, by omega⟩] at ht
      rw [if_neg hr, h.fill_eq]
      dsimp only [bind_eq_bind, bind_some]
      rw [h.cSize_room, if_neg (by omega)]
      exact ⟨_, rfl, hidle⟩
  · rw [if_pos (by simpa using hu)]
    exact ⟨_, rfl, fun k hk => by cases hk⟩

end BytePipe

end Ridux
