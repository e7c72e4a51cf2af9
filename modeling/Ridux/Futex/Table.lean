import Ridux.Lib.Chain
import Ridux.Lib.Slots

/-!
# The table of futex waiters

`g_c3_futex_waiters` and the functions on it.

* `FutexTable`: the entries, threaded to one list for each bucket;
* `FutexTable.waiterAdd`, `removeIdx`, `removeTaskUaddr`, `wakeN`, `requeue`;
* `FutexTable.view`: the entries without their links.
-/

namespace Ridux

open Lib Function

def c3FutexWaitMax : ℕ := 256
def c3FutexBuckets : ℕ := 64

/-- `c3_futex_waiter_t`; no task and no next entry are `-1`. -/
structure Waiter where
  used : Bool
  uaddr : BitVec 64
  mmKey : BitVec 64
  bitset : BitVec 32
  task : Option ℕ
  next : Option ℕ
  seq : BitVec 32

/-- An entry that is given back. -/
def Waiter.cleared : Waiter := ⟨false, 0, 0, 0, none, none, 0⟩

def c3FutexHash (uaddr mmKey : BitVec 64) : ℕ :=
  ((uaddr ^^^ (uaddr >>> 7 ^^^ uaddr >>> 17 ^^^ mmKey)) &&& 63).toNat

/-- `g_c3_futex_waiters`, `g_c3_futex_heads` and `g_c3_futex_waiter_seq`. -/
structure FutexTable where
  waiters : ℕ → Waiter
  heads : ℕ → Option ℕ
  seq : BitVec 32

namespace FutexTable

/-- The bucket of an entry. -/
def bucket (t : FutexTable) (i : ℕ) : ℕ := c3FutexHash (t.waiters i).uaddr (t.waiters i).mmKey

def setWaiter (t : FutexTable) (i : ℕ) (w : Waiter) : FutexTable :=
  { t with waiters := update t.waiters i w }

/-- The entry `i` is taken out of the list of `b`, behind `prev`. -/
def unlink (t : FutexTable) (b : ℕ) (prev : Option ℕ) (i : ℕ) : FutexTable :=
  match prev with
  | none => { t with heads := update t.heads b (t.waiters i).next }
  | some p => t.setWaiter p { t.waiters p with next := (t.waiters i).next }

/-- `c3_futex_waiter_alloc`. -/
def waiterAlloc (t : FutexTable) : Option ℕ := firstSlot (fun i => !(t.waiters i).used) c3FutexWaitMax

/-- `c3_futex_waiter_add`. -/
def waiterAdd (t : FutexTable) (uaddr : BitVec 64) (task : ℕ) (mmKey : BitVec 64)
    (bitset : BitVec 32) : Option ℕ × FutexTable :=
  match t.waiterAlloc with
  | none => (none, t)
  | some i =>
    let seq := if t.seq + 1 = 0 then 1 else t.seq + 1
    let b := c3FutexHash uaddr mmKey
    (some i,
      { waiters := update t.waiters i
          ⟨true, uaddr, mmKey, bitset, some task, t.heads b, seq⟩
        heads := update t.heads b (some i)
        seq := seq })

/-- `c3_futex_waiter_active`. -/
def waiterActive (t : FutexTable) (i : ℕ) (seq : BitVec 32) : Bool :=
  i < c3FutexWaitMax ∧ (t.waiters i).used ∧ (t.waiters i).seq = seq

/-- The walk of `c3_futex_waiter_remove_idx` along the list of `b`; a list has no more entries than
the table. -/
def removeWalk (i b : ℕ) : ℕ → Option ℕ → Option ℕ → FutexTable → FutexTable
  | fuel + 1, prev, some it, t =>
    if it = i then (t.unlink b prev i).setWaiter i .cleared
    else removeWalk i b fuel (some it) (t.waiters it).next t
  | _, _, _, t => t

/-- `c3_futex_waiter_remove_idx`. -/
def removeIdx (i : ℕ) (t : FutexTable) : FutexTable :=
  if c3FutexWaitMax ≤ i ∨ !(t.waiters i).used then t
  else removeWalk i (t.bucket i) c3FutexWaitMax none (t.heads (t.bucket i)) t

/-- The entries of `c3_futex_waiter_remove_task_uaddr`; no address is any. -/
def ofTask (task : ℕ) (uaddr mmKey : BitVec 64) (exactKey : Bool) (w : Waiter) : Bool :=
  w.used ∧ w.task = some task ∧ (uaddr ≠ 0 → w.uaddr = uaddr) ∧ (exactKey → w.mmKey = mmKey)

/-- `c3_futex_waiter_remove_task_uaddr`. -/
def removeTaskUaddr (task : ℕ) (uaddr mmKey : BitVec 64) (exactKey : Bool) (t : FutexTable) :
    FutexTable :=
  (List.range c3FutexWaitMax).foldl
    (fun t i => if ofTask task uaddr mmKey exactKey (t.waiters i) then t.removeIdx i else t) t

/-- The entry is one of a wake with the key `mmKey`. -/
def hit (uaddr mmKey : BitVec 64) (bitset : BitVec 32) (w : Waiter) : Bool :=
  w.uaddr = uaddr ∧ w.mmKey = mmKey ∧ w.bitset &&& bitset ≠ 0

/-- The walk of `c3_futex_wake_n_unlocked` along the list of `b`: the tasks of the entries that it
takes out. -/
def wakeWalk (uaddr mmKey : BitVec 64) (bitset : BitVec 32) (b : ℕ) :
    ℕ → ℕ → Option ℕ → Option ℕ → FutexTable → List (Option ℕ) × FutexTable
  | fuel + 1, want + 1, prev, some it, t =>
    let w := t.waiters it
    if hit uaddr mmKey bitset w then
      let r := wakeWalk uaddr mmKey bitset b fuel want prev w.next
        ((t.unlink b prev it).setWaiter it .cleared)
      (w.task :: r.1, r.2)
    else wakeWalk uaddr mmKey bitset b fuel (want + 1) (some it) w.next t
  | _, _, _, _, t => ([], t)

/-- The entry is one of a wake that does not look at the keys. -/
def hitAny (uaddr : BitVec 64) (bitset : BitVec 32) (w : Waiter) : Bool :=
  w.used ∧ w.uaddr = uaddr ∧ w.bitset &&& bitset ≠ 0

/-- The scan of `c3_futex_wake_n_unlocked` over the table. -/
def wakeScan (uaddr : BitVec 64) (bitset : BitVec 32) :
    List ℕ → ℕ → FutexTable → List (Option ℕ) × FutexTable
  | i :: l, want + 1, t =>
    if hitAny uaddr bitset (t.waiters i) then
      let r := wakeScan uaddr bitset l want (t.removeIdx i)
      ((t.waiters i).task :: r.1, r.2)
    else wakeScan uaddr bitset l (want + 1) t
  | _, _, t => ([], t)

/-- `c3_futex_wake_n`: the tasks that are woken. -/
def wakeN (t : FutexTable) (uaddr : BitVec 64) (want : ℕ) (mmKey : BitVec 64) (exactKey : Bool)
    (bitset : BitVec 32) : List (Option ℕ) × FutexTable :=
  if !exactKey then wakeScan uaddr bitset (List.range c3FutexWaitMax) want t
  else
    let b := c3FutexHash uaddr mmKey
    wakeWalk uaddr mmKey bitset b c3FutexWaitMax want none (t.heads b) t

/-- The entry is one that a requeue moves. -/
def moves (src oldKey : BitVec 64) (exactKey : Bool) (w : Waiter) : Bool :=
  w.uaddr = src ∧ (!exactKey ∨ w.mmKey = oldKey)

/-- The walk of `c3_futex_requeue` along the list of `b`: how many entries are moved. -/
def requeueWalk (src dst oldKey newKey : BitVec 64) (exactKey : Bool) (b : ℕ) :
    ℕ → ℕ → Option ℕ → Option ℕ → FutexTable → ℕ × FutexTable
  | fuel + 1, maxMove + 1, prev, some it, t =>
    let w := t.waiters it
    if moves src oldKey exactKey w then
      let newb := c3FutexHash dst newKey
      let t := t.unlink b prev it
      let t := t.setWaiter it { t.waiters it with
        uaddr := dst, mmKey := newKey, next := t.heads newb }
      let t := { t with heads := update t.heads newb (some it) }
      let r := requeueWalk src dst oldKey newKey exactKey b fuel maxMove prev w.next t
      (r.1 + 1, r.2)
    else requeueWalk src dst oldKey newKey exactKey b fuel (maxMove + 1) (some it) w.next t
  | _, _, _, _, t => (0, t)

/-- `c3_futex_requeue`. -/
def requeue (t : FutexTable) (src dst : BitVec 64) (maxMove : ℕ) (oldKey newKey : BitVec 64)
    (exactKey : Bool) : ℕ × FutexTable :=
  let b := c3FutexHash src oldKey
  requeueWalk src dst oldKey newKey exactKey b c3FutexWaitMax maxMove none (t.heads b) t

end FutexTable

end Ridux
