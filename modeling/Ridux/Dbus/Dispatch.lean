import Ridux.Dbus.Stream
import Ridux.Lib.Ring

/-!
# What the bus sends

Whatever a client asks for, the bus changes its tables and queues messages.

* `Net.handleMethodCall_induct`: what the tables and queued messages keep is kept by every call;
* `Net.Queues`: a list of messages that were queued, one after the other;
* `Net.queueMessage_whole`: a message is queued whole or not at all exactly when the receive ring has
  room for it, or no room.
-/

namespace Ridux

open Lib List

namespace Net

section Rule

variable {P : Net → Prop} (hbus : ∀ n b, P n → P (n.setBus b))
  (hqueue : ∀ n dst m, P n → P (n.queueMessage dst m).2) {n : Net}

include hqueue in
theorem emitTo_induct (m : DbusvOut) (arg0 : Bytes) (h : P n) (i : ℕ) : P (emitTo m arg0 n i) := by
  unfold emitTo
  split_ifs
  · exact hqueue n i m h
  · exact h

include hqueue in
theorem emitNameOwnerChanged_induct (h : P n) (name old new : Bytes) :
    P (n.emitNameOwnerChanged name old new) := by
  unfold emitNameOwnerChanged
  cases dbusvStrBody 1024 [name, old, new] with
  | none => exact h
  | some body =>
    dsimp only
    generalize List.range sockMax = l
    induction l generalizing n with
    | nil => exact h
    | cons i l ih => exact ih (emitTo_induct hqueue _ _ h i)

include hqueue in
theorem replyStr_induct (h : P n) (fd : ℕ) (m : DbusvMsg) (s : Bytes) : P (n.replyStr fd m s) := by
  unfold replyStr
  cases dbusvStrBody 1024 [s] with
  | none => exact h
  | some body => exact hqueue n fd _ h

include hqueue in
theorem replyStrArray_induct (h : P n) (fd : ℕ) (m : DbusvMsg) (ss : List Bytes) :
    P (n.replyStrArray fd m ss) := by
  unfold replyStrArray
  cases dbusvStrArrayBody ss with
  | none => exact h
  | some body => exact hqueue n fd _ h

include hqueue in
theorem replyError_induct (h : P n) (fd : ℕ) (m : DbusvMsg) (err msg : String) :
    P (n.replyError fd m err msg) := by
  unfold replyError
  cases dbusvStrBody 1024 [ascii msg] with
  | none => exact h
  | some body => exact hqueue n fd _ h

include hbus hqueue

theorem emitNameSignal_induct (h : P n) (fd : ℕ) (member : CString) (name : Bytes) :
    P (n.emitNameSignal fd member name) := by
  unfold emitNameSignal
  split_ifs
  · dsimp only
    cases dbusvStrBody 320 [name] with
    | none => exact hbus n _ h
    | some body => exact hqueue _ fd _ (hbus n _ h)
  · exact h

theorem helloMethod_induct (h : P n) (fd : ℕ) (m : DbusvMsg) : P (n.helloMethod fd m) := by
  unfold helloMethod
  dsimp only
  split_ifs
  · exact replyError_induct hqueue (hbus n _ h) fd m _ _
  · refine emitNameSignal_induct hbus hqueue (emitNameOwnerChanged_induct hqueue ?_ _ _ _) fd _ _
    exact replyStr_induct hqueue (hbus _ _ (hbus n _ h)) fd m _

theorem acquireName_induct (h : P n) (fd : ℕ) (name : Bytes) : P (n.acquireName fd name).2 := by
  unfold acquireName
  split
  · exact hbus n _ h
  · exact emitNameSignal_induct hbus hqueue
      (emitNameOwnerChanged_induct hqueue (hbus n _ h) _ _ _) fd _ _

theorem requestNameMethod_induct (h : P n) (fd : ℕ) (m : DbusvMsg) :
    P (n.requestNameMethod fd m) := by
  unfold requestNameMethod
  dsimp only
  cases dbusvBodyGetStr m 0 dbusvNameMax with
  | none => exact replyError_induct hqueue (hbus n _ h) fd m _ _
  | some name =>
    dsimp only
    split
    · exact hqueue _ fd _ (hbus n _ h)
    · exact hqueue _ fd _ (acquireName_induct hbus hqueue (hbus n _ h) fd name)

theorem releaseNameMethod_induct (h : P n) (fd : ℕ) (m : DbusvMsg) :
    P (n.releaseNameMethod fd m) := by
  unfold releaseNameMethod
  cases dbusvBodyGetStr m 0 dbusvNameMax with
  | none => exact replyError_induct hqueue h fd m _ _
  | some name =>
    dsimp only
    split
    · exact hqueue n fd _ h
    · split_ifs
      · exact hqueue _ fd _ (emitNameSignal_induct hbus hqueue
          (emitNameOwnerChanged_induct hqueue (hbus n _ h) _ _ _) fd _ _)
      · exact hqueue n fd _ h

theorem startServiceMethod_induct (h : P n) (fd : ℕ) (m : DbusvMsg) :
    P (n.startServiceMethod fd m) := by
  unfold startServiceMethod
  cases dbusvBodyGetStr m 0 dbusvNameMax with
  | none => exact replyError_induct hqueue h fd m _ _
  | some name =>
    dsimp only
    by_cases h1 : (n.bus.ownerFdForName name).isSome = true
    · rw [if_pos h1]
      exact hqueue n fd _ h
    rw [if_neg h1]
    by_cases h2 : Bus.startable name = true
    · rw [if_pos h2]
      exact hqueue _ fd _ (hbus n _ h)
    · rw [if_neg h2]
      exact hqueue n fd _ h

theorem serviceMethodCall_induct (svc : Services) (h : P n) (fd : ℕ) (m : DbusvMsg) :
    P (n.serviceMethodCall svc fd m).2 := by
  unfold serviceMethodCall
  cases svc fd m with
  | none => exact h
  | tooBig => exact h
  | message out => exact hqueue n fd out h
  | handle out path =>
    dsimp only
    unfold emitPortalResponse
    split_ifs
    · exact hqueue _ fd _ (hbus _ _ (hqueue n fd out h))
    · exact hqueue n fd out h

theorem busMethod_induct (h : P n) (fd : ℕ) (m : DbusvMsg) : P (n.busMethod fd m) := by
  have err : ∀ e s, P (n.replyError fd m e s) := replyError_induct hqueue h fd m
  have u32 : ∀ v, P (n.replyU32 fd m v) := fun v => hqueue n fd _ h
  unfold busMethod
  by_cases h1 : m.member = ascii "Hello"
  · rw [if_pos h1]
    exact helloMethod_induct hbus hqueue h fd m
  rw [if_neg h1]
  by_cases h2 : m.member = ascii "RequestName"
  · rw [if_pos h2]
    exact requestNameMethod_induct hbus hqueue h fd m
  rw [if_neg h2]
  by_cases h3 : m.member = ascii "ReleaseName"
  · rw [if_pos h3]
    exact releaseNameMethod_induct hbus hqueue h fd m
  rw [if_neg h3]
  by_cases h4 : m.member = ascii "ListNames"
  · rw [if_pos h4]
    exact replyStrArray_induct hqueue (hbus n _ h) fd m _
  rw [if_neg h4]
  by_cases h5 : m.member = ascii "NameHasOwner"
  · rw [if_pos h5]
    cases dbusvBodyGetStr m 0 dbusvNameMax with
    | none => exact err _ _
    | some name => exact u32 _
  rw [if_neg h5]
  by_cases h6 : m.member = ascii "GetNameOwner"
  · rw [if_pos h6]
    cases dbusvBodyGetStr m 0 dbusvNameMax with
    | none => exact err _ _
    | some name =>
      dsimp only
      cases n.bus.lookupOwnerUnique name with
      | none => exact err _ _
      | some r => exact replyStr_induct hqueue (hbus n _ h) fd m _
  rw [if_neg h6]
  by_cases h7 : m.member = ascii "AddMatch"
  · rw [if_pos h7]
    cases dbusvBodyGetStr m 0 192 with
    | none => exact err _ _
    | some rule => exact hqueue _ fd _ (hbus n _ h)
  rw [if_neg h7]
  by_cases h8 : m.member = ascii "RemoveMatch"
  · rw [if_pos h8]
    cases dbusvBodyGetStr m 0 192 with
    | none => exact err _ _
    | some rule => exact hqueue _ fd _ (hbus n _ h)
  rw [if_neg h8]
  by_cases h9 : m.member = ascii "GetId"
  · rw [if_pos h9]
    exact replyStr_induct hqueue h fd m _
  rw [if_neg h9]
  by_cases h10 : m.member = ascii "StartServiceByName"
  · rw [if_pos h10]
    exact startServiceMethod_induct hbus hqueue h fd m
  rw [if_neg h10]
  by_cases h11 : m.member = ascii "GetConnectionUnixProcessID"
  · rw [if_pos h11]
    cases dbusvBodyGetStr m 0 dbusvNameMax with
    | none => exact err _ _
    | some name =>
      dsimp only
      cases n.bus.ownerFdForName name with
      | none => exact err _ _
      | some owner => exact u32 _
  rw [if_neg h11]
  by_cases h12 : m.member = ascii "GetConnectionCredentials"
  · rw [if_pos h12]
    exact hqueue n fd _ h
  · rw [if_neg h12]
    exact err _ _

theorem handleMethodCall_induct (svc : Services) (h : P n) (fd : ℕ) (m : DbusvMsg) :
    P (n.handleMethodCall svc fd m) := by
  unfold handleMethodCall
  dsimp only
  generalize (if m.iface = [] then ascii "org.freedesktop.DBus" else m.iface) = iface
  by_cases h1 : m.member = []
  · rw [if_pos h1]
    exact replyError_induct hqueue h fd m _ _
  rw [if_neg h1]
  by_cases h2 : iface = ascii "org.freedesktop.DBus.Introspectable" ∧ m.member = ascii "Introspect"
  · rw [if_pos h2]
    exact replyStr_induct hqueue h fd m _
  rw [if_neg h2]
  by_cases h3 : iface = ascii "org.freedesktop.DBus.Peer" ∧ m.member = ascii "Ping"
  · rw [if_pos h3]
    exact hqueue n fd _ h
  rw [if_neg h3]
  by_cases h4 : iface = ascii "org.freedesktop.DBus.Peer" ∧ m.member = ascii "GetMachineId"
  · rw [if_pos h4]
    exact replyStr_induct hqueue h fd m _
  rw [if_neg h4]
  have hcall := serviceMethodCall_induct hbus hqueue svc h fd m
  split_ifs
  · exact replyError_induct hqueue hcall fd m _ _
  · exact hcall
  · exact busMethod_induct hbus hqueue h fd m

end Rule

/-! ### Queued messages -/

/-- These messages were queued, one after the other, and nothing else reached a socket. -/
inductive Queues : Net → List (ℕ × DbusvOut) → Net → Prop
  | nil {n n' : Net} (h : n'.socks = n.socks) : Queues n [] n'
  | snoc {n n' n'' : Net} {log : List (ℕ × DbusvOut)} (h : Queues n log n') (dst : ℕ) (m : DbusvOut)
    (h' : n''.socks = (n'.queueMessage dst m).2.socks) : Queues n (log ++ [(dst, m)]) n''

theorem queues_handleMethodCall (n : Net) (svc : Services) (fd : ℕ) (m : DbusvMsg) :
    ∃ log, Queues n log (n.handleMethodCall svc fd m) := by
  refine handleMethodCall_induct (P := fun n' => ∃ log, Queues n log n') ?_ ?_ svc
    ⟨[], .nil rfl⟩ fd m
  · rintro n' b ⟨log, h⟩
    cases h with
    | nil h => exact ⟨[], .nil h⟩
    | snoc h dst m h' => exact ⟨_, .snoc h dst m h'⟩
  · rintro n' dst m ⟨log, h⟩
    exact ⟨_, .snoc h dst m rfl⟩

/-- What `dbusv_queue_message` makes of a message. -/
def packet (n : Net) (m : DbusvOut) : Option Bytes :=
  dbusvBuild (Bus.takeSerial n.bus.nextSerial).1 m

/-- The receive ring has room for the whole message, or no room. -/
def TakesWhole (n : Net) (dst : ℕ) (m : DbusvOut) : Prop :=
  ∀ pkt, n.packet m = some pkt → pkt.length ≤ (n.socks dst).rxRoom ∨ (n.socks dst).rxRoom = 0

/-- A message that was queued is in the stream of its client as a whole, or not at all. -/
def Whole (n : Net) (dst : ℕ) (m : DbusvOut) : Prop :=
  ((n.queueMessage dst m).2.socks dst).rx.contents = (n.socks dst).rx.contents ∨
    ∃ pkt, n.packet m = some pkt ∧
      ((n.queueMessage dst m).2.socks dst).rx.contents = (n.socks dst).rx.contents ++ pkt

theorem pushRx_contents (s : Sock) (src : Bytes) :
    (s.pushRx src).2.rx.contents = s.rx.contents ++ src.take s.rxRoom := by
  by_cases hu : s.rx.used ≤ sockBufSize
  · rw [(Sock.contents_pushRx hu src).1]
    congr 1
    show src.take (min src.length s.rxRoom) = _
    rw [Nat.min_comm, ← take_take, take_length]
  · have hroom : s.rxRoom = 0 := by
      unfold Sock.rxRoom
      omega
    have hnone : (s.pushRx src).2.rx = s.rx := by
      unfold Sock.pushRx
      dsimp only
      rw [hroom, Nat.min_zero, take_zero]
      rfl
    rw [hnone, hroom, take_zero, append_nil]

theorem queueMessage_whole (n : Net) (dst : ℕ) (m : DbusvOut) :
    n.Whole dst m ↔ n.TakesWhole dst m := by
  unfold Whole TakesWhole
  cases hp : n.packet m with
  | none =>
    have hq : (n.queueMessage dst m).2 = n := by
      unfold queueMessage
      unfold packet at hp
      dsimp only
      rw [hp]
    rw [hq]
    exact ⟨fun _ _ h => (nomatch h), fun _ => .inl rfl⟩
  | some pkt =>
    have hq : ((n.queueMessage dst m).2.socks dst).rx.contents =
        (n.socks dst).rx.contents ++ pkt.take (n.socks dst).rxRoom := by
      unfold queueMessage
      unfold packet at hp
      dsimp only
      rw [hp]
      dsimp only
      rw [setSock_self, pushRx_contents]
    rw [hq]
    constructor
    · rintro (h | ⟨pkt', hp', h⟩) pkt'' hp''
      · obtain rfl := Option.some.inj hp''
        have hlen := congrArg List.length h
        rw [length_append, length_take] at hlen
        omega
      · obtain rfl := Option.some.inj hp''
        obtain rfl := Option.some.inj hp'
        have hlen := congrArg List.length h
        rw [length_append, length_append, length_take] at hlen
        exact .inl (by omega)
    · intro h
      rcases h pkt rfl with hfit | hfull
      · exact .inr ⟨pkt, rfl, by rw [take_of_length_le hfit]⟩
      · refine .inl ?_
        rw [hfull, take_zero, append_nil]

end Net

end Ridux
