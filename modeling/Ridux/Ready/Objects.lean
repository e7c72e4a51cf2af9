import Ridux.Epoll.Table
import Ridux.Lib.Circular
import Ridux.Pipe.Wait

/-!
# Event, timer and inotify descriptors

The objects of `linux_syscalls.c` that a task waits on through a descriptor of their own, and what
`c3_fd_ready_mask` says of them.

* `flag`, `HasBit`: the bits of a mask;
* `IoTurn`: one turn of a call that may wait;
* `Eventfd`, `Timerfd`, `Inotify`: the objects, with their reads and writes;
* `BytePipe.readMask`, `BytePipe.writeMask`, `Eventfd.mask`, `Timerfd.mask`, `Inotify.mask`: the masks.

For each object, lemmas say when the mask has a bit, and when a call that must not wait finds nothing to
do.
-/

namespace Ridux

open Lib Option

/-! ### Masks -/

/-- Bits that are set when something holds. -/
def flag (p : Prop) [Decidable p] (bits : BitVec 32) : BitVec 32 := if p then bits else 0

/-- What is said of an object that is not there. -/
def maskGone : BitVec 32 := epollErr ||| epollHup

/-- A mask has one of the bits. -/
def HasBit (mask bits : BitVec 32) : Prop := mask &&& bits ≠ 0

instance (mask bits : BitVec 32) : Decidable (HasBit mask bits) := inferInstanceAs (Decidable (_ ≠ _))

section Masks

variable {x y w bits : BitVec 32} {p : Prop} [Decidable p]

@[simp] theorem hasBit_or : HasBit (x ||| y) w ↔ HasBit x w ∨ HasBit y w := by
  have hdistrib : (x ||| y) &&& w = (x &&& w) ||| (y &&& w) := by
    ext i
    simp [Bool.and_or_distrib_right]
  unfold HasBit
  rw [hdistrib]
  exact (not_congr BitVec.or_eq_zero_iff).trans not_and_or

@[simp] theorem hasBit_zero : ¬ HasBit 0#32 w := fun h => h BitVec.zero_and

@[simp] theorem hasBit_flag : HasBit (flag p bits) w ↔ p ∧ HasBit bits w := by
  unfold flag
  by_cases hp : p
  · rw [if_pos hp]
    simp [hp]
  · rw [if_neg hp]
    simp [hp]

@[simp] theorem in_hasIn : HasBit epollIn epollIn := by decide
@[simp] theorem out_hasIn : ¬ HasBit epollOut epollIn := by decide
@[simp] theorem err_hasIn : ¬ HasBit epollErr epollIn := by decide
@[simp] theorem hup_hasIn : ¬ HasBit epollHup epollIn := by decide
@[simp] theorem in_hasOut : ¬ HasBit epollIn epollOut := by decide
@[simp] theorem out_hasOut : HasBit epollOut epollOut := by decide
@[simp] theorem err_hasOut : ¬ HasBit epollErr epollOut := by decide
@[simp] theorem hup_hasOut : ¬ HasBit epollHup epollOut := by decide
@[simp] theorem gone_hasIn : ¬ HasBit maskGone epollIn := by decide
@[simp] theorem gone_hasOut : ¬ HasBit maskGone epollOut := by decide

end Masks

/-! ### Calls that may wait -/

/-- The errors of the calls on these objects, but for an interruption. -/
inductive FdErr
  | ebadf | einval | eagain
  deriving DecidableEq

/-- A turn of a call: it returns, is interrupted by a signal, or waits and tries again. -/
inductive IoTurn (ε α : Type)
  | done (r : Except ε α)
  | interrupted
  | wait

/-- Nothing to do for the caller now; `again` is what a call returns that must not wait. -/
def Caller.pause {ε α : Type} (c : Caller) (again : ε) : IoTurn ε α :=
  if c.dontWait then .done (.error again)
  else if c.signal then .interrupted
  else .wait

/-- A caller that must not wait. -/
def Caller.nonBlocking (signal : Bool) : Caller := ⟨true, signal⟩

@[simp] theorem dontWait_nonBlocking (signal : Bool) : (Caller.nonBlocking signal).dontWait = true := rfl

@[simp] theorem pause_nonBlocking {ε α : Type} (signal : Bool) (again : ε) :
    (Caller.nonBlocking signal).pause again = (.done (.error again) : IoTurn ε α) := rfl

/-! ### Pipes -/

namespace BytePipe

variable {p : BytePipe}

/-- The branch of `c3_fd_ready_mask` for the read end; the counters are in range, so that there is a
filling. -/
def readMask (p : BytePipe) : BitVec 32 :=
  if !p.used then maskGone
  else
    let av := cSize ((fill p.ring).getD 0)
    flag (av ≠ 0) epollIn ||| flag (p.writers ≤ 0) (epollIn ||| epollHup)

/-- The branch of `c3_fd_ready_mask` for the write end. -/
def writeMask (p : BytePipe) : BitVec 32 :=
  if !p.used then maskGone
  else
    let av := cSize (pipeBufSize - (fill p.ring).getD 0 - 1)
    flag (av ≠ 0) epollOut ||| flag (p.readers ≤ 0) (epollErr ||| epollHup)

theorem readMask_in (h : InRange p.ring) :
    HasBit p.readMask epollIn ↔ p.used = true ∧ (p.ring.used ≠ 0 ∨ p.writers ≤ 0) := by
  unfold readMask
  rw [h.fill_eq, getD_some, h.cSize_used]
  cases p.used with
  | false => simp
  | true => simp

theorem readMask_out : ¬ HasBit p.readMask epollOut := by
  unfold readMask
  cases p.used with
  | false => simp
  | true => simp

theorem writeMask_out (h : InRange p.ring) :
    HasBit p.writeMask epollOut ↔ p.used = true ∧ 4095 - p.ring.used ≠ 0 := by
  unfold writeMask
  rw [h.fill_eq, getD_some, h.cSize_room]
  cases p.used with
  | false => simp
  | true => simp

theorem writeMask_in : ¬ HasBit p.writeMask epollIn := by
  unfold writeMask
  cases p.used with
  | false => simp
  | true => simp

theorem readWait_again (h : InRange p.ring) {count : ℕ} (hc : count ≠ 0) (signal : Bool) :
    (p.readWait count (.nonBlocking signal)).map Prod.fst = some (.done (.error .eagain)) ↔
      p.used = true ∧ p.ring.used = 0 ∧ 0 < p.writers := by
  cases hu : p.used with
  | false =>
    rw [readWait_unused _ hc hu]
    simp
  | true =>
    by_cases hz : p.ring.used = 0
    · rw [readWait_none h _ hc hu hz]
      by_cases hw : p.writers ≤ 0
      · simp [hw, hz]
      · rw [if_neg hw]
        have hpos : 0 < p.writers := by omega
        simp [Caller.idle, hz, hpos]
    · rw [readWait_some h _ hc hu hz]
      simp [hz]

theorem writeWait_again (h : InRange p.ring) (b : UInt8) (signal : Bool) :
    (p.writeWait [b] (.nonBlocking signal)).map Prod.fst = some (.done (.error .eagain)) ↔
      p.used = true ∧ 0 < p.readers ∧ 4095 - p.ring.used = 0 := by
  by_cases hlive : p.used = true ∧ 0 < p.readers
  · have htaken : p.taken [b] = min 1 (4095 - p.ring.used) := if_pos hlive
    by_cases hroom : 4095 - p.ring.used = 0
    · unfold writeWait
      rw [if_neg (by simp), if_neg (by simp [hlive.1]), if_neg (by omega), h.fill_eq]
      dsimp only [bind_eq_bind, bind_some]
      rw [h.cSize_room, if_neg (by simp [hroom])]
      simp [Caller.idle, hlive, hroom]
    · rw [writeWait_some h _ (by omega)]
      simp only [hroom, and_false, iff_false]
      split_ifs
      · simp
      · simp
  · have hnot : ¬ (p.used = true ∧ 0 < p.readers ∧ 4095 - p.ring.used = 0) :=
      fun ⟨hu, hr, _⟩ => hlive ⟨hu, hr⟩
    simp only [hnot, iff_false]
    unfold writeWait
    rw [if_neg (by simp)]
    by_cases hu : p.used = true
    · rw [if_neg (by simp [hu]), if_pos (by by_contra hr; exact hlive ⟨hu, by omega⟩)]
      simp
    · rw [if_pos (by simpa using hu)]
      simp

end BytePipe

/-! ### Event counters -/

/-- `c3_eventfd_t`. -/
structure Eventfd where
  used : Bool
  semaphore : Bool
  counter : BitVec 64

namespace Eventfd

variable {e : Eventfd}

/-- One turn of `c3_eventfd_read`: the value read. -/
def read (e : Eventfd) (count : ℕ) (c : Caller) : IoTurn FdErr (BitVec 64) × Eventfd :=
  if !e.used then (.done (.error .ebadf), e)
  else if count < 8 then (.done (.error .einval), e)
  else if e.counter = 0 then (c.pause .eagain, e)
  else if e.semaphore then (.done (.ok 1), { e with counter := e.counter - 1 })
  else (.done (.ok e.counter), { e with counter := 0 })

/-- `c3_eventfd_write`, which never waits. -/
def write (e : Eventfd) (count : ℕ) (v : BitVec 64) : Except FdErr Unit × Eventfd :=
  if !e.used then (.error .ebadf, e)
  else if count < 8 then (.error .einval, e)
  else if v = BitVec.allOnes 64 then (.error .einval, e)
  else if e.counter > BitVec.allOnes 64 - v then (.error .eagain, e)
  else (.ok (), { e with counter := e.counter + v })

/-- The branch of `c3_fd_ready_mask`. -/
def mask (e : Eventfd) : BitVec 32 :=
  if !e.used then maskGone
  else flag (e.counter ≠ 0) epollIn ||| flag (e.counter < BitVec.allOnes 64 - 1) epollOut

theorem mask_in : HasBit e.mask epollIn ↔ e.used = true ∧ e.counter ≠ 0 := by
  unfold mask
  cases e.used with
  | false => simp
  | true => simp

theorem mask_out : HasBit e.mask epollOut ↔ e.used = true ∧ e.counter < BitVec.allOnes 64 - 1 := by
  unfold mask
  cases e.used with
  | false => simp
  | true =>
    rw [if_neg (by simp), hasBit_or, hasBit_flag, hasBit_flag]
    simp only [in_hasOut, out_hasOut, and_false, and_true, false_or, true_and]

theorem read_again {count : ℕ} (hc : 8 ≤ count) (signal : Bool) :
    (e.read count (.nonBlocking signal)).1 = .done (.error .eagain) ↔ e.used = true ∧ e.counter = 0 := by
  unfold read
  cases hu : e.used with
  | false => simp
  | true =>
    rw [if_neg (by simp), if_neg (by omega)]
    by_cases hz : e.counter = 0
    · simp [hz]
    · rw [if_neg hz]
      split_ifs
      · simpa using hz
      · simpa using hz

theorem write_again :
    (e.write 8 1).1 = .error .eagain ↔ e.used = true ∧ e.counter = BitVec.allOnes 64 := by
  unfold write
  cases hu : e.used with
  | false => simp
  | true =>
    rw [if_neg (by simp), if_neg (by decide), if_neg (by decide)]
    have hlast : (BitVec.allOnes 64).toNat = 2 ^ 64 - 1 := rfl
    have hend : e.counter > BitVec.allOnes 64 - 1 ↔ e.counter = BitVec.allOnes 64 := by bv_omega
    by_cases hz : e.counter = BitVec.allOnes 64
    · rw [if_pos (hend.2 hz)]
      simp [hz]
    · rw [if_neg fun h => hz (hend.1 h)]
      simpa using hz

end Eventfd

/-! ### Timers -/

/-- `c3_timerfd_t`, without the clock it was made for, which only setting it reads. -/
structure Timerfd where
  used : Bool
  armed : Bool
  nextTsc : BitVec 64
  intervalTsc : BitVec 64

namespace Timerfd

variable {t : Timerfd} {now : BitVec 64}

/-- `c3_timerfd_consume_expired`: how often the timer has expired. -/
def consumeExpired (t : Timerfd) (now : BitVec 64) : BitVec 64 × Timerfd :=
  if !t.armed ∨ t.nextTsc = 0 ∨ now < t.nextTsc then (0, t)
  else if t.intervalTsc = 0 then (1, { t with armed := false })
  else
    let n := 1 + (now - t.nextTsc) / t.intervalTsc
    let last := BitVec.allOnes 64
    let next :=
      if n ≠ 0 ∧ n > last / t.intervalTsc then last
      else if n ≠ 0 ∧ t.nextTsc > last - n * t.intervalTsc then last
      else t.nextTsc + n * t.intervalTsc
    (n, { t with nextTsc := next })

/-- `c3_timerfd_is_ready`. -/
def isReady (t : Timerfd) (now : BitVec 64) : Bool :=
  t.used ∧ t.armed ∧ t.nextTsc ≠ 0 ∧ t.nextTsc ≤ now

/-- `c3_timerfd_read_ready` until it sleeps: the number read, if one is. -/
def readReady (t : Timerfd) (now : BitVec 64) (count : ℕ) (c : Caller) :
    IoTurn FdErr (Option (BitVec 64)) × Timerfd :=
  if !t.used then (.done (.error .ebadf), t)
  else if count < 8 then (.done (.error .einval), t)
  else
    let r := t.consumeExpired now
    if r.1 ≠ 0 then (.done (.ok (some r.1)), r.2)
    else if c.dontWait then (.done (.error .eagain), r.2)
    else if !r.2.armed then (.done (.ok none), r.2)
    else (.wait, r.2)

/-- The branch of `c3_fd_ready_mask`. -/
def mask (t : Timerfd) (now : BitVec 64) : BitVec 32 :=
  if !t.used then maskGone else flag (t.isReady now) epollIn

theorem mask_in (now : BitVec 64) :
    HasBit (t.mask now) epollIn ↔ t.used = true ∧ t.armed = true ∧ t.nextTsc ≠ 0 ∧ t.nextTsc ≤ now := by
  unfold mask isReady
  cases t.used with
  | false => simp
  | true => simp

theorem mask_out (now : BitVec 64) : ¬ HasBit (t.mask now) epollOut := by
  unfold mask
  cases t.used with
  | false => simp
  | true => simp

/-- The timer has expired. -/
def Due (t : Timerfd) (now : BitVec 64) : Prop := t.armed = true ∧ t.nextTsc ≠ 0 ∧ t.nextTsc ≤ now

/-- What a read would count now. -/
def pending (t : Timerfd) (now : BitVec 64) : ℕ := (t.consumeExpired now).1.toNat

theorem not_idle_iff : ¬ (!t.armed ∨ t.nextTsc = 0 ∨ now < t.nextTsc) ↔ t.Due now := by
  rw [not_or, not_or, BitVec.not_lt, Bool.not_eq_true', Bool.not_eq_false]
  exact Iff.rfl

theorem consumeExpired_of_not (h : ¬ t.Due now) : t.consumeExpired now = (0, t) :=
  if_pos (not_not.1 (mt not_idle_iff.1 h))

theorem pending_of_not (h : ¬ t.Due now) : t.pending now = 0 := by
  unfold pending
  rw [consumeExpired_of_not h]
  rfl

theorem pending_of_due (h : t.Due now) :
    t.pending now = 1 + (now.toNat - t.nextTsc.toNat) / t.intervalTsc.toNat := by
  have hpos : 0 < t.nextTsc.toNat := Nat.pos_of_ne_zero fun h0 => h.2.1 (BitVec.eq_of_toNat_eq h0)
  unfold pending consumeExpired
  rw [if_neg (not_idle_iff.2 h)]
  by_cases hi : t.intervalTsc = 0
  · rw [if_pos hi, hi]
    exact (congrArg (1 + ·) (Nat.div_zero _)).symm
  · rw [if_neg hi]
    change (1 + (now - t.nextTsc) / t.intervalTsc).toNat = _
    have hq := Nat.div_le_self (now.toNat - t.nextTsc.toNat) t.intervalTsc.toNat
    have hnow := now.isLt
    rw [BitVec.toNat_add, BitVec.toNat_udiv, BitVec.toNat_sub_of_le h.2.2]
    exact Nat.mod_eq_of_lt (by change 1 + _ < _; omega)

theorem consumeExpired_eq_zero (now : BitVec 64) :
    (t.consumeExpired now).1 = 0 ↔ ¬ (t.armed = true ∧ t.nextTsc ≠ 0 ∧ t.nextTsc ≤ now) := by
  refine ⟨fun h0 hd => ?_, fun hd => congrArg Prod.fst (consumeExpired_of_not hd)⟩
  have hcount := pending_of_due hd
  unfold pending at hcount
  rw [h0] at hcount
  exact absurd hcount.symm (Nat.add_comm 1 _ ▸ Nat.succ_ne_zero _)

theorem readReady_again {count : ℕ} (hc : 8 ≤ count) (now : BitVec 64) (signal : Bool) :
    (t.readReady now count (.nonBlocking signal)).1 = .done (.error .eagain) ↔
      t.used = true ∧ ¬ (t.armed = true ∧ t.nextTsc ≠ 0 ∧ t.nextTsc ≤ now) := by
  unfold readReady
  cases hu : t.used with
  | false => simp
  | true =>
    rw [if_neg (by simp), if_neg (by omega), ← consumeExpired_eq_zero now]
    by_cases hz : (t.consumeExpired now).1 = 0
    · simp [hz]
    · dsimp only
      rw [if_pos hz]
      simpa using hz

end Timerfd

/-! ### Inotify -/

def c3InotifyEventMax : ℕ := 256

/-- `c3_inotify_event_rec_t`. -/
structure InotifyEvent where
  wd : BitVec 32
  mask : BitVec 32
  cookie : BitVec 32
  name : Bytes

/-- `c3_inotify_inst_t`, without the number of the next watch; the queue keeps its indices below its
length. -/
structure Inotify where
  used : Bool
  queue : Circular InotifyEvent c3InotifyEventMax
  ok : queue.Ok

def c3InotifyNamePadded (n : ℕ) : ℕ := if n = 0 then 0 else (n + 1 + 3) / 4 * 4

namespace Inotify

variable {i : Inotify}

/-- The bytes of an event in the buffer. -/
def need (e : InotifyEvent) : ℕ := 16 + c3InotifyNamePadded e.name.length

/-- Events out of the queue, as long as they fit. -/
def drain (count : ℕ) : ℕ → ℕ → Circular InotifyEvent c3InotifyEventMax →
    List InotifyEvent × Circular InotifyEvent c3InotifyEventMax
  | 0, _, q => ([], q)
  | k + 1, written, q =>
    if q.head = q.tail then ([], q)
    else
      let e := q.slots q.tail
      if written + need e > count then ([], q)
      else
        let r := drain count k (written + need e) q.next
        (e :: r.1, r.2)

theorem drain_ok (count k written : ℕ) {q : Circular InotifyEvent c3InotifyEventMax} (h : q.Ok) :
    (drain count k written q).2.Ok := by
  induction k generalizing written q with
  | zero => exact h
  | succ k ih =>
    unfold drain
    dsimp only
    split_ifs
    · exact h
    · exact h
    · exact ih _ h.next

/-- One turn of `c3_inotify_read`: the events read. -/
def read (i : Inotify) (count : ℕ) (c : Caller) : IoTurn FdErr (List InotifyEvent) × Inotify :=
  if !i.used then (.done (.error .ebadf), i)
  else if count < 16 then (.done (.error .einval), i)
  else if i.queue.head = i.queue.tail then (c.pause .eagain, i)
  else
    let r := drain count c3InotifyEventMax 0 i.queue
    let i' := { i with queue := r.2, ok := drain_ok count _ 0 i.ok }
    if r.1 = [] then (.done (.error .einval), i') else (.done (.ok r.1), i')

/-- The branch of `c3_fd_ready_mask`. -/
def mask (i : Inotify) : BitVec 32 :=
  if !i.used then maskGone else flag (i.queue.head ≠ i.queue.tail) epollIn

theorem mask_in : HasBit i.mask epollIn ↔ i.used = true ∧ i.queue.head ≠ i.queue.tail := by
  unfold mask
  cases i.used with
  | false => simp
  | true => simp

theorem mask_out : ¬ HasBit i.mask epollOut := by
  unfold mask
  cases i.used with
  | false => simp
  | true => simp

theorem read_again {count : ℕ} (hc : 16 ≤ count) (signal : Bool) :
    (i.read count (.nonBlocking signal)).1 = .done (.error .eagain) ↔
      i.used = true ∧ i.queue.head = i.queue.tail := by
  unfold read
  cases hu : i.used with
  | false => simp
  | true =>
    rw [if_neg (by simp), if_neg (by omega)]
    by_cases hz : i.queue.head = i.queue.tail
    · simp [hz]
    · rw [if_neg hz]
      dsimp only
      split_ifs
      · simp [hz]
      · simp [hz]

end Inotify

end Ridux
