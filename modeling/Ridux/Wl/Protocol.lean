import Ridux.Lib.Offers
import Ridux.Lib.Run
import Ridux.Wl.Requests

/-!
# What the clients of the compositor have seen

The state of the two protocols as it follows from the requests and the events alone, without a look
at the tables of the compositor.

* `WlRole`: a shell surface or a layer surface of a client;
* `WlSeen`: for each role the configures that were sent, acknowledged and needed, and for each frame
  callback whether it was committed and done;
* `Wl7.seen`: this, for what has gone over the sockets so far;
* `Wl7Op`: what can happen to the compositor.
-/

namespace Ridux

open Lib Function

/-- A shell surface or a layer surface, named by its client and its object. -/
inductive WlRole
  | xdg (c id : ℕ)
  | layer (c id : ℕ)
  deriving DecidableEq

/-- What has gone over the sockets: the configures of each role, the shell surface of each toplevel, the
surfaces that were committed, the frame callbacks that were requested since the last commit of a
surface, those that were committed, and those that were done.  Objects stand with their client. -/
structure WlSeen where
  offers : WlRole → Offers ℕ
  shellOf : ℕ × ℕ → Option ℕ
  commits : List (ℕ × ℕ)
  requested : ℕ × ℕ → List ℕ
  committed : List (ℕ × ℕ)
  done : List (ℕ × ℕ)

namespace WlSeen

/-- Nothing has gone over the sockets. -/
def start : WlSeen := ⟨fun _ => .start, fun _ => none, [], fun _ => [], [], []⟩

variable (p : WlSeen)

/-- Something happens to the configures of a role. -/
def offer (r : WlRole) (f : Offers ℕ → Offers ℕ) : WlSeen :=
  { p with offers := update p.offers r (f (p.offers r)) }

/-- No toplevel of the client `c` is one of the shell surface `id` any more. -/
def orphan (c id : ℕ) : ℕ × ℕ → Option ℕ := fun k =>
  if k.1 = c ∧ p.shellOf k = some id then none else p.shellOf k

/-- A request of the client `c` on the object `obj`. -/
def request (c obj : ℕ) : WlReq → WlSeen
  | .getXdgSurface id _ =>
    { p.offer (.xdg c id) fun _ => .start with shellOf := p.orphan c id }
  | .getLayerSurface id _ _ _ => p.offer (.layer c id) fun _ => .start
  | .getToplevel id =>
    { p.offer (.xdg c obj) .need with shellOf := update p.shellOf (c, id) (some obj) }
  | .destroyToplevel => { p with shellOf := update p.shellOf (c, obj) none }
  | .setActivated _ =>
    match p.shellOf (c, obj) with
    | none => p
    | some id => p.offer (.xdg c id) .need
  | .ackConfigure s => p.offer (.xdg c obj) fun o => o.ack s
  | .setSize _ _ => p.offer (.layer c obj) .need
  | .setAnchor _ => p.offer (.layer c obj) .need
  | .setExclusiveZone _ => p.offer (.layer c obj) .need
  | .setMargin _ _ _ _ => p.offer (.layer c obj) .need
  | .setLayer _ => p.offer (.layer c obj) .need
  | .ackLayerConfigure s => p.offer (.layer c obj) fun o => o.ack s
  | .createSurface id => { p with requested := update p.requested (c, id) [] }
  | .destroySurface => { p with requested := update p.requested (c, obj) [] }
  | .frame cb =>
    { p with requested := update p.requested (c, obj) (p.requested (c, obj) ++ [cb]) }
  | .commit =>
    { p with
      commits := p.commits ++ [(c, obj)]
      requested := update p.requested (c, obj) []
      committed := p.committed ++ (p.requested (c, obj)).map fun cb => (c, cb) }
  | _ => p

/-- An event for the client `c`. -/
def event (c : ℕ) : WlEvent → WlSeen
  | .xdgConfigure id s => p.offer (.xdg c id) fun o => o.send s
  | .layerConfigure id s _ _ => p.offer (.layer c id) fun o => o.send s
  | .callbackDone cb _ => { p with done := p.done ++ [(c, cb)] }
  | _ => p

/-- A request or an event. -/
def item (c : ℕ) : WlItem → WlSeen
  | .request obj r => p.request c obj r
  | .event e => p.event c e
  | _ => p

/-- Everything that has gone over the sockets. -/
def of (log : List (ℕ × WlItem)) : WlSeen := log.foldl (fun p x => p.item x.1 x.2) start

theorem of_append (log : List (ℕ × WlItem)) (x : ℕ × WlItem) :
    of (log ++ [x]) = (of log).item x.1 x.2 := by
  rw [of, List.foldl_append]
  rfl

end WlSeen

/-! ### Runs -/

/-- What can happen to the compositor: a client comes, a message of a client is processed, a tick, or
another part of the compositor takes a serial. -/
inductive Wl7Op
  | attach
  | message (c : ℕ) (m : WlMsg) (right : Option ℕ)
  | tick (msgs : ℕ → List (WlMsg × Option ℕ)) (src : ℕ → ℕ → ℕ → WlRead)
  | serial

namespace Wl7

variable (st : Wl7)

/-- What the clients have seen so far. -/
def seen : WlSeen := WlSeen.of st.log

@[simp] theorem seen_read (c b : ℕ) (bs : Bytes) : (st.record c (.read b bs)).seen = st.seen :=
  WlSeen.of_append st.log (c, .read b bs)

@[simp] theorem seen_drawn (c id b : ℕ) (bs : Bytes) : (st.record c (.drawn id b bs)).seen = st.seen :=
  WlSeen.of_append st.log (c, .drawn id b bs)

theorem seen_send (c : ℕ) (e : WlEvent) : (st.send c e).seen = st.seen.event c e :=
  WlSeen.of_append st.log (c, .event e)

theorem seen_logRequest (c obj : ℕ) (r : WlReq) :
    (st.logRequest c obj r).seen = st.seen.request c obj r :=
  WlSeen.of_append st.log (c, .request obj r)

/-- What an operation does. -/
def step : Wl7Op → Wl7
  | .attach => st.attachClient
  | .message c m right => if st.clients c then st.handle c m right else st
  | .tick msgs src => st.tick msgs src
  | .serial => st.nextSerial.2

end Wl7

end Ridux
