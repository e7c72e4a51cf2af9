import Ridux.Fd.Tasks

/-!
# The objects behind descriptors

The kernel keeps each kind of object in a table of its own; a descriptor holds the index of its
object (`ref`).  Rights sent over a unix socket are kept in `g_c3_scm_rights` and queued, by
index, in the receiving socket.

* `Pipe`, `Socket`, `Pool`, `OpenPath`, `Objects`: the tables;
* `pipeCreate`, `sockCreate`, `poolAlloc`, `c3VfsOpenSlotAlloc`: new objects;
* `pipeCloseRead`, `pipeCloseWrite`, `sockClose`, `poolFree`: their end;
* `sockSendRight`, `sockRecvRight`: the queue of rights.

Left out are the contents of the objects, and sockets made by `connect`, which have no descriptor
before they are accepted.
-/

namespace Ridux

open Lib Function

structure Pipe where
  used : Bool
  readers : ℤ
  writers : ℤ

/-- A socket with its queue of rights (`anc_fds`, `anc_pos`): each right waits at a position of
the received stream, whose ends are `rxHead` and `rxTail`. -/
structure Socket where
  used : Bool
  peer : Option ℕ
  anc : List (ℕ × BitVec 32)
  rxHead : BitVec 32
  rxTail : BitVec 32

def Socket.closed : Socket := ⟨false, none, [], 0, 0⟩

/-- The tables of which only the `used` bits matter here. -/
inductive Pool
  | epoll | eventfd | timerfd | inotify | procBuf
  deriving DecidableEq

def Pool.size : Pool → ℕ
  | .epoll => 64
  | .eventfd => 128
  | .timerfd => 128
  | .inotify => 64
  | .procBuf => 16

/-- The path of an open slot: a file with a name, a memfd (`/memfd/name-N`), or a hidden file
(`/tmp/.ridux-deleted-…`). -/
inductive OpenPath
  | named
  | memfd (n : ℕ)
  | deleted (n : ℕ)
  deriving DecidableEq

def pipeMax : ℕ := 16
def openMaxFiles : ℕ := 512
def c3ScmRightsMax : ℕ := 128

structure Objects where
  pipe : ℕ → Pipe
  sock : ℕ → Socket
  pool : Pool → ℕ → Bool
  /-- `g_c3_vfs_open` -/
  opened : ℕ → Option OpenPath
  /-- the memfds and hidden files that exist -/
  anon : OpenPath → Bool
  /-- hidden file `n` backs a mapping of some address space -/
  mapped : ℕ → Bool
  memfdSeq : ℕ
  deletedSeq : ℕ

namespace Objects

def init : Objects where
  pipe := fun _ => ⟨false, 0, 0⟩
  sock := fun _ => .closed
  pool := fun _ _ => false
  opened := fun _ => none
  anon := fun _ => false
  mapped := fun _ => false
  memfdSeq := 1
  deletedSeq := 1

variable (o : Objects)

def setPipe (i : ℕ) (p : Pipe) : Objects := { o with pipe := update o.pipe i p }

def setSock (i : ℕ) (s : Socket) : Objects := { o with sock := update o.sock i s }

def setOpened (i : ℕ) (p : Option OpenPath) : Objects :=
  { o with opened := update o.opened i p }

def setAnon (p : OpenPath) (b : Bool) : Objects := { o with anon := update o.anon p b }

def setPool (p : Pool) (i : ℕ) (b : Bool) : Objects :=
  { o with pool := update o.pool p (update (o.pool p) i b) }

/-- The file behind a new memfd. -/
def newMemfd : Objects :=
  { o.setAnon (.memfd o.memfdSeq) true with memfdSeq := o.memfdSeq + 1 }

/-- A new hidden file. -/
def newHidden : Objects :=
  { o.setAnon (.deleted o.deletedSeq) true with deletedSeq := o.deletedSeq + 1 }

/-! ### Pipes -/

def pipeCreate : Option ℕ × Objects :=
  match firstSlot (fun i => !(o.pipe i).used) pipeMax with
  | some i => (some i, o.setPipe i ⟨true, 1, 1⟩)
  | none => (none, o)

/-- A pipe is free again when both of its ends are closed. -/
def pipeSettle (p : Pipe) : Pipe :=
  if p.readers ≤ 0 ∧ p.writers ≤ 0 then { p with used := false } else p

def pipeCloseRead (i : ℕ) : Objects :=
  if i < pipeMax ∧ (o.pipe i).used then
    o.setPipe i (pipeSettle { o.pipe i with readers := (o.pipe i).readers - 1 })
  else o

def pipeCloseWrite (i : ℕ) : Objects :=
  if i < pipeMax ∧ (o.pipe i).used then
    o.setPipe i (pipeSettle { o.pipe i with writers := (o.pipe i).writers - 1 })
  else o

/-! ### Sockets -/

def sockCreate : Option ℕ × Objects :=
  match firstSlot (fun i => !(o.sock i).used) sockMax with
  | some i => (some i, o.setSock i { Socket.closed with used := true })
  | none => (none, o)

/-- The peer of a socket that closes loses it. -/
def detachPeer (i : ℕ) : Objects :=
  match (o.sock i).peer with
  | some p =>
    if p < sockMax ∧ (o.sock p).used ∧ (o.sock p).peer = some i then
      o.setSock p { o.sock p with peer := none }
    else o
  | none => o

def sockClose (i : ℕ) : Objects :=
  if i < sockMax ∧ (o.sock i).used then (o.detachPeer i).setSock i .closed else o

def sockPairCreate : Option (ℕ × ℕ) × Objects :=
  match o.sockCreate with
  | (none, o) => (none, o)
  | (some a, o) =>
    match o.sockCreate with
    | (none, o) => (none, o.sockClose a)
    | (some b, o) =>
      (some (a, b), (o.setSock a { o.sock a with peer := some b }).setSock b
        { o.sock b with peer := some a })

/-- Queue a right in the peer of socket `i`; nothing is queued when the ring is full. -/
def sockSendRight (i token : ℕ) : Bool × Objects :=
  if i < sockMax ∧ (o.sock i).used then
    match (o.sock i).peer with
    | some p =>
      if p < sockMax ∧ (o.sock p).used then
        if (o.sock p).anc.length + 1 = sockAncq then (false, o)
        else
          (true, o.setSock p
            { o.sock p with anc := (o.sock p).anc ++ [(token, (o.sock p).rxHead)] })
      else (false, o)
    | none => (false, o)
  else (false, o)

/-- Is stream position `a` after `b`? -/
def sockPosAfter (a b : BitVec 32) : Bool := decide (0 < (a - b).toInt)

/-- Take the first right of the queue, once the stream has been read up to its position. -/
def sockRecvRight (i : ℕ) : Option ℕ × Objects :=
  if i < sockMax ∧ (o.sock i).used then
    match (o.sock i).anc with
    | (token, pos) :: rest =>
      if sockPosAfter pos (o.sock i).rxTail then (none, o)
      else (some token, o.setSock i { o.sock i with anc := rest })
    | [] => (none, o)
  else (none, o)

/-! ### Tables of slots -/

def poolAlloc (p : Pool) : Option ℕ × Objects :=
  match firstSlot (fun i => !o.pool p i) p.size with
  | some i => (some i, o.setPool p i true)
  | none => (none, o)

def poolFree (p : Pool) (i : ℕ) : Objects := if i < p.size then o.setPool p i false else o

def c3VfsOpenSlotAlloc (path : OpenPath) : Option ℕ × Objects :=
  match firstSlot (fun i => (o.opened i).isNone) openMaxFiles with
  | some i => (some i, o.setOpened i (some path))
  | none => (none, o)

/-- What closing the last descriptor of an object does at once; the open slots of files come
later (`c3VfsOpenSlotTryFree`). -/
def destroy (kind : FdKind) (ref : ℕ) : Objects :=
  match kind with
  | .proc => o.poolFree .procBuf ref
  | .socket => o.sockClose ref
  | .pipeR => o.pipeCloseRead ref
  | .pipeW => o.pipeCloseWrite ref
  | .epoll => o.poolFree .epoll ref
  | .eventfd => o.poolFree .eventfd ref
  | .timerfd => o.poolFree .timerfd ref
  | .inotify => o.poolFree .inotify ref
  | _ => o

end Objects

end Ridux
