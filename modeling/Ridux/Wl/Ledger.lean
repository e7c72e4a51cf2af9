import Ridux.Wl.Protocol

/-!
# The ledger of the buffers

Which buffers a client may expect to be left alone, and what its surfaces show, as it follows from the
requests and the events alone, without a look at the tables of the compositor.

* `WlShape`: a buffer as its client made it; `WlShape.Fits`: it lies in its pool;
* `WlLedger`: the buffers, what is attached and committed, and the commits that wait for a release;
* `WlLedger.wrong`: the releases that nothing waited for, the reads of a buffer that the client may have
  taken back or that lies outside its pool, and what was drawn from another buffer than the last one;
* `Wl7.ledger`: this, for what was recorded so far.
-/

namespace Ridux

open Lib Function

/-- A buffer as its client made it, with the size that its pool has now. -/
structure WlShape where
  pool : ℕ
  offset : ℕ
  width : ℕ
  height : ℕ
  stride : ℕ
  size : ℕ

/-- The lines of the buffer hold its pixels, and the buffer lies in its pool. -/
def WlShape.Fits (b : WlShape) : Prop :=
  4 * b.width ≤ b.stride ∧ b.offset + b.stride * b.height ≤ b.size

instance (b : WlShape) : Decidable b.Fits := inferInstanceAs (Decidable (_ ∧ _))

/-- The pools and the buffers of each client, the buffer that is attached to a surface and the one of
its last commit, the buffers that were committed and not released, what was read from a buffer since it
was committed last, and what should not have happened.  `0` is no buffer. -/
structure WlLedger where
  pools : ℕ × ℕ → Option ℕ
  buffers : ℕ × ℕ → Option WlShape
  attached : ℕ × ℕ → ℕ
  current : ℕ × ℕ → ℕ
  owing : List (ℕ × ℕ)
  copy : ℕ × ℕ → Option Bytes
  wrong : List (ℕ × WlItem)

namespace WlLedger

/-- Nothing has happened. -/
def start : WlLedger := ⟨fun _ => none, fun _ => none, fun _ => 0, fun _ => 0, [], fun _ => none, []⟩

variable (p : WlLedger)

/-- All buffers in a pool of the client `c` change. -/
def reshape (c pool : ℕ) (f : WlShape → WlShape) : ℕ × ℕ → Option WlShape := fun k =>
  (p.buffers k).map fun b => if k.1 = c ∧ b.pool = pool then f b else b

/-- A surface that has the buffer `k` of the client `c` has none. -/
def without (at' : ℕ × ℕ → ℕ) (c k : ℕ) : ℕ × ℕ → ℕ := fun s =>
  if s.1 = c ∧ at' s = k then 0 else at' s

/-- A request of the client `c` on the object `obj`. -/
def request (c obj : ℕ) : WlReq → WlLedger
  | .createPool id size => { p with pools := update p.pools (c, id) (some size) }
  | .resizePool size =>
    { p with
      pools := update p.pools (c, obj) (some size)
      buffers := p.reshape c obj fun b => { b with size := size } }
  | .destroyPool =>
    { p with
      pools := update p.pools (c, obj) none
      buffers := p.reshape c obj fun b => { b with pool := 0 } }
  | .createBuffer id offset w h stride _ =>
    { p with
      buffers := update p.buffers (c, id)
        ((p.pools (c, obj)).map fun size => ⟨obj, offset, w, h, stride, size⟩)
      copy := update p.copy (c, id) none }
  | .destroyBuffer =>
    { p with
      buffers := update p.buffers (c, obj) none
      attached := without p.attached c obj
      current := without p.current c obj
      owing := p.owing.filter (· ≠ (c, obj)) }
  | .createSurface id =>
    { p with
      attached := update p.attached (c, id) 0
      current := update p.current (c, id) 0 }
  | .attach b _ _ => { p with attached := update p.attached (c, obj) b }
  | .commit =>
    let b := p.attached (c, obj)
    let p := { p with current := update p.current (c, obj) b }
    if b = 0 then p
    else { p with owing := (c, b) :: p.owing, copy := update p.copy (c, b) none }
  | _ => p

/-- Something that should not have happened. -/
def fault (c : ℕ) (x : WlItem) : WlLedger := { p with wrong := p.wrong ++ [(c, x)] }

/-- The buffer `k` of the client `c` may be read: it was committed and not released, and lies in its
pool. -/
def Readable (c k : ℕ) : Prop := (c, k) ∈ p.owing ∧ (p.buffers (c, k)).any fun b => b.Fits

instance (c k : ℕ) : Decidable (p.Readable c k) := inferInstanceAs (Decidable (_ ∧ _))

/-- The bytes are what the surface `s` of the client `c` should show, when they are of the buffer `k`. -/
def Shows (c s k : ℕ) (bytes : Bytes) : Prop :=
  k ≠ 0 ∧ p.current (c, s) = k ∧ p.copy (c, k) = some bytes

instance (c s k : ℕ) (bytes : Bytes) : Decidable (p.Shows c s k bytes) :=
  inferInstanceAs (Decidable (_ ∧ _))

/-- What is recorded of the client `c`. -/
def item (c : ℕ) : WlItem → WlLedger
  | .request obj r => p.request c obj r
  | .event (.bufferRelease k) =>
    if (c, k) ∈ p.owing then { p with owing := p.owing.erase (c, k) }
    else p.fault c (.event (.bufferRelease k))
  | .event _ => p
  | .read k bytes =>
    if p.Readable c k then { p with copy := update p.copy (c, k) (some bytes) }
    else p.fault c (.read k bytes)
  | .drawn s k bytes => if p.Shows c s k bytes then p else p.fault c (.drawn s k bytes)

/-- Everything that was recorded. -/
def of (log : List (ℕ × WlItem)) : WlLedger := log.foldl (fun p x => p.item x.1 x.2) start

theorem of_append (log : List (ℕ × WlItem)) (x : ℕ × WlItem) :
    of (log ++ [x]) = (of log).item x.1 x.2 := by
  rw [of, List.foldl_append]
  rfl

end WlLedger

namespace Wl7

/-- The ledger of everything that was recorded. -/
def ledger (st : Wl7) : WlLedger := WlLedger.of st.log

theorem ledger_record (st : Wl7) (c : ℕ) (x : WlItem) :
    (st.record c x).ledger = st.ledger.item c x :=
  WlLedger.of_append st.log (c, x)

end Wl7

end Ridux
