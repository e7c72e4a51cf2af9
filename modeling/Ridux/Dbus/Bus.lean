import Mathlib.Data.List.DropRight
import Ridux.Dbus.Wire
import Ridux.Lib.Slots
import Ridux.Net.Socket

/-!
# The virtual bus

The tables of the bus and the messages it queues, from `base.c`.

* `Bus.findBinding`, `Bus.addBinding`, `Bus.ownerFdForName`: the names and who owns them;
* `Bus.ensureUniqueFd`, `Bus.addMatch`, `Bus.removeMatch`: unique names and match rules;
* `Net.queueMessage`, `Net.emitNameOwnerChanged`, `Net.emitNameSignal`: what goes to a client;
* `Net.dbusvDropSocket`: what is forgotten with a client.

The tables are seeded by the calls from outside (`sock_connect`, `sock_dbus_on_send`,
`dbusv_drop_socket`), before any function that only looks into them.
-/

namespace Ridux

open Lib Function

/-- What `c_append_str` and `c_append_u32` make of `:1.` and a number. -/
def dbusvUniqueName (v : UInt32) : Bytes := ascii ":1." ++ decimal v.toNat

/-- The bytes of a buffer as a C string. -/
def CString.of (b : Bytes) : CString := ⟨cstr b, zero_not_mem_cstr b⟩

/-! ### Names -/

namespace Bus

/-- The names of `dbusv_seed_defaults`. -/
def defaultNames : List String :=
  ["org.freedesktop.DBus", "org.freedesktop.login1", "org.freedesktop.systemd1",
    "org.freedesktop.portal.Desktop", "org.freedesktop.portal.Settings", "org.kde.kded6",
    "org.kde.KWin", "org.kde.plasmashell", "org.kde.ActivityManager", "org.kde.kglobalaccel",
    "org.kde.StatusNotifierWatcher", "org.freedesktop.PolicyKit1", "org.freedesktop.Accounts",
    "org.freedesktop.hostname1", "org.freedesktop.locale1", "org.freedesktop.timedate1",
    "org.freedesktop.RealtimeKit1"]

/-- An entry that holds nothing. -/
def freeBinding : DbusvBinding := ⟨false, some 0, []⟩

@[inherit_doc freeBinding]
def freeMatch : DbusvMatch := ⟨false, 0, []⟩

/-- The tables after `dbusv_seed_defaults`. -/
def seeds : Bus where
  bindings i :=
    match defaultNames[i]? with
    | some name => ⟨true, none, strlcpy dbusvNameMax (ascii name)⟩
    | none => freeBinding
  matchRules _ := freeMatch
  unique _ := []
  hello _ := false
  seeded := true
  nextUnique := 1
  nextSerial := 1

/-- `dbusv_seed_defaults`. -/
def seedDefaults (b : Bus) : Bus := if b.seeded then b else seeds

def setBinding (b : Bus) (i : ℕ) (x : DbusvBinding) : Bus :=
  { b with bindings := update b.bindings i x }

def setMatch (b : Bus) (i : ℕ) (x : DbusvMatch) : Bus :=
  { b with matchRules := update b.matchRules i x }

/-- `dbusv_find_binding`. -/
def findBinding (b : Bus) (name : Bytes) : Option ℕ :=
  if name = [] then none
  else firstSlot (fun i => (b.bindings i).used ∧ (b.bindings i).name = name) dbusvBindMax

/-- `dbusv_add_binding`: the entry, none for an error. -/
def addBinding (b : Bus) (name : Bytes) (owner : Option ℕ) : Option ℕ × Bus :=
  if name = [] then (none, b)
  else
    match b.findBinding name with
    | some i => (some i, b)
    | none =>
      match firstSlot (fun i => !(b.bindings i).used) dbusvBindMax with
      | some i => (some i, b.setBinding i ⟨true, owner, strlcpy dbusvNameMax name⟩)
      | none => (none, b)

/-- `dbusv_owner_fd_for_name`: none for `-2`, the bus itself (`none` inside) for `-1`. -/
def ownerFdForName (b : Bus) (name : Bytes) : Option (Option ℕ) :=
  if name = [] then none
  else if startsWith name (ascii ":1.") then
    (firstSlot (fun i => b.hello i ∧ b.unique i = name) sockMax).map some
  else (b.findBinding name).map fun i => (b.bindings i).ownerFd

/-- `dbusv_ensure_unique_fd`. -/
def ensureUniqueFd (b : Bus) (fd : ℕ) : Bus :=
  if b.unique fd = [] then
    { b with
      unique := update b.unique fd (dbusvUniqueName b.nextUnique)
      nextUnique := b.nextUnique + 1 }
  else b

/-- `dbusv_unique_for_owner`: the name and the tables. -/
def uniqueForOwner (b : Bus) (owner : Option ℕ) : Bytes × Bus :=
  match owner with
  | none => (ascii "org.freedesktop.DBus", b)
  | some fd =>
    if fd ≥ sockMax then ([], b) else ((b.ensureUniqueFd fd).unique fd, b.ensureUniqueFd fd)

/-! ### Match rules -/

/-- `dbusv_match_exists`. -/
def matchExists (b : Bus) (fd : ℕ) (rule : Bytes) : Bool :=
  (firstSlot (fun i => (b.matchRules i).used ∧ (b.matchRules i).ownerFd = fd ∧
    (b.matchRules i).rule = rule) dbusvMatchMax).isSome

/-- `dbusv_add_match`. -/
def addMatch (b : Bus) (fd : ℕ) (rule : Bytes) : Bus :=
  if rule = [] then b
  else if b.matchExists fd rule then b
  else
    match firstSlot (fun i => !(b.matchRules i).used) dbusvMatchMax with
    | some i => b.setMatch i ⟨true, fd, strlcpy 192 rule⟩
    | none => b

/-- Forget a rule of `fd` at index `i`. -/
def dropMatch (fd : ℕ) (b : Bus) (i : ℕ) : Bus :=
  if (b.matchRules i).used ∧ (b.matchRules i).ownerFd = fd then b.setMatch i freeMatch else b

/-- `dbusv_remove_match`: one rule, or all rules of `fd` when none is given. -/
def removeMatch (b : Bus) (fd : ℕ) (rule : Bytes) : Bus :=
  if rule = [] then (List.range dbusvMatchMax).foldl (dropMatch fd) b
  else
    match firstSlot (fun i => (b.matchRules i).used ∧ (b.matchRules i).ownerFd = fd ∧
        (b.matchRules i).rule = rule) dbusvMatchMax with
    | some i => b.setMatch i freeMatch
    | none => b

/-- The blanks of `dbusv_skip_ws`. -/
def isWs (c : UInt8) : Bool := c = 0x20 ∨ c = 0x09 ∨ c = 0x0D ∨ c = 0x0A

/-- Without the blanks and tabs at the end. -/
def trimEnd (s : Bytes) : Bytes := s.rdropWhile fun c => c = 0x20 ∨ c = 0x09

/-- What is behind the next comma. -/
def afterComma (s : Bytes) : Bytes := (s.dropWhile (· != 0x2C)).drop 1

/-- The value that starts a rule's text, and the text behind it. -/
def ruleValue (p : Bytes) : Bytes × Bytes :=
  match p with
  | q :: rest =>
    if q = 0x27 ∨ q = 0x22 then (rest.takeWhile (· != q), (rest.dropWhile (· != q)).drop 1)
    else (trimEnd (p.takeWhile (· != 0x2C)), p.dropWhile (· != 0x2C))
  | [] => ([], [])

/-- `dbusv_rule_get_value` on at most `fuel` entries of a rule. -/
def ruleGetValue (fuel : ℕ) (p key : Bytes) (cap : ℕ) : Option Bytes :=
  match fuel with
  | 0 => none
  | fuel + 1 =>
    if p = [] then none
    else
      let p := p.dropWhile isWs
      let stop := fun c : UInt8 => c != 0x3D && c != 0x2C
      let k := trimEnd (p.takeWhile stop)
      match p.dropWhile stop with
      | 0x3D :: rest =>
        let v := ruleValue (rest.dropWhile isWs)
        if k = key then some (v.1.take (cap - 1)) else ruleGetValue fuel (afterComma v.2) key cap
      | rest => ruleGetValue fuel (afterComma rest) key cap

/-- A key of a rule does not contradict a signal. -/
def ruleAllows (rule : Bytes) (key : String) (v : Bytes) : Bool :=
  match ruleGetValue (rule.length + 1) rule (ascii key) 192 with
  | some x => x = v
  | none => true

/-- `dbusv_rule_matches_signal`. -/
def ruleMatchesSignal (rule path iface member sender dest arg0 : Bytes) : Bool :=
  ruleAllows rule "type" (ascii "signal") && ruleAllows rule "path" path &&
    ruleAllows rule "interface" iface && ruleAllows rule "member" member &&
    ruleAllows rule "sender" sender && ruleAllows rule "destination" dest &&
    ruleAllows rule "arg0" arg0

/-- `dbusv_should_deliver_signal` for a signal without a destination. -/
def shouldDeliverSignal (b : Bus) (fd : ℕ) (path iface member sender arg0 : Bytes) : Bool :=
  (firstSlot (fun i => (b.matchRules i).used ∧ (b.matchRules i).ownerFd = fd ∧
    ruleMatchesSignal (b.matchRules i).rule path iface member sender [] arg0) dbusvMatchMax).isSome

/-- The serial of the next message, and the counter behind it. -/
def takeSerial (s : UInt32) : UInt32 × UInt32 := if s = 0 then (1, 2) else (s, s + 1)

end Bus

/-! ### Queued messages -/

/-- A body of strings, written within `cap` bytes. -/
def dbusvStrBody (cap : ℕ) (ss : List Bytes) : Option Bytes :=
  let w := ss.foldl (fun w s => w.cstr s) (DbusvWriter.init cap)
  if w.ok then some w.buf else none

/-- `"org.freedesktop.DBus"`. -/
def dbusvBusName : CString := ⟨ascii "org.freedesktop.DBus", by decide⟩

/-- `"/org/freedesktop/DBus"`. -/
def dbusvBusPath : CString := ⟨ascii "/org/freedesktop/DBus", by decide⟩

namespace Net

def setBus (n : Net) (b : Bus) : Net := { n with bus := b }

@[simp] theorem setBus_bus (n : Net) (b : Bus) : (n.setBus b).bus = b := rfl
/-- `dbusv_queue_message`: whether the message was queued. -/
def queueMessage (n : Net) (dst : ℕ) (m : DbusvOut) : Except SockErr Unit × Net :=
  let serial := Bus.takeSerial n.bus.nextSerial
  match dbusvBuild serial.1 m with
  | none => (.error .e2big, n)
  | some pkt =>
    let r := (n.socks dst).pushRx pkt
    let n := (n.setBus { n.bus with nextSerial := serial.2 }).setSock dst r.2
    (if r.1 = 0 then .error .eagain else .ok (), n)

/-- A client that has authenticated and begun. -/
def busClient (n : Net) (i : ℕ) : Bool :=
  let s := n.socks i
  s.used ∧ s.virtService = .dbus ∧ s.virtFlags.dbusAuth ∧ s.virtState ≠ 0

/-- The signal `NameOwnerChanged`. -/
def nameOwnerChanged (body : Bytes) : DbusvOut where
  type := 4
  path := dbusvBusPath
  iface := dbusvBusName
  member := ⟨ascii "NameOwnerChanged", by decide⟩
  dest := .empty
  sender := dbusvBusName
  errName := .empty
  replySerial := 0
  sig := ⟨ascii "sss", by decide⟩
  body := body

/-- One turn of the loop of `dbusv_emit_signal_matching`. -/
def emitTo (m : DbusvOut) (arg0 : Bytes) (n : Net) (i : ℕ) : Net :=
  if n.busClient i ∧ n.bus.shouldDeliverSignal i m.path m.iface m.member m.sender arg0 then
    (n.queueMessage i m).2
  else n

/-- `dbusv_emit_name_owner_changed`, through `dbusv_emit_signal_matching`. -/
def emitNameOwnerChanged (n : Net) (name oldOwner newOwner : Bytes) : Net :=
  match dbusvStrBody 1024 [name, oldOwner, newOwner] with
  | none => n
  | some body => (List.range sockMax).foldl (emitTo (nameOwnerChanged body) name) n

/-- `dbusv_emit_name_signal`. -/
def emitNameSignal (n : Net) (fd : ℕ) (member : CString) (name : Bytes) : Net :=
  if fd < sockMax ∧ n.busClient fd then
    let n := n.setBus (n.bus.ensureUniqueFd fd)
    match dbusvStrBody 320 [name] with
    | none => n
    | some body =>
      (n.queueMessage fd { nameOwnerChanged body with
        member := member, dest := .of (n.bus.unique fd), sig := ⟨ascii "s", by decide⟩ }).2
  else n

/-! ### A client that leaves -/

/-- One turn of the loop over the names in `dbusv_drop_socket`. -/
def dropBinding (fd : ℕ) (old : Bytes) (n : Net) (i : ℕ) : Net :=
  let x := n.bus.bindings i
  if x.used ∧ x.ownerFd = some fd then
    (n.setBus (n.bus.setBinding i Bus.freeBinding)).emitNameOwnerChanged x.name old []
  else n

def dbusvDropSocket (n : Net) (fd : ℕ) : Net :=
  let b := n.bus.seedDefaults.ensureUniqueFd fd
  let old := b.unique fd
  let n := (List.range dbusvBindMax).foldl (dropBinding fd old) (n.setBus b)
  let n := n.setBus ((List.range dbusvMatchMax).foldl (Bus.dropMatch fd) n.bus)
  let n := if n.bus.hello fd ∧ old ≠ [] then n.emitNameOwnerChanged old old [] else n
  n.setBus { n.bus with
    hello := update n.bus.hello fd false
    unique := update n.bus.unique fd [] }

/-! ### What the bus does to the sockets -/

/-- The tables of the bus may change, and the receive rings of its clients; nothing else does. -/
def BusStep (n n' : Net) : Prop :=
  ∀ i, ∃ r, n'.socks i = { n.socks i with rx := r } ∧
    ((n.socks i).virtService ≠ .dbus → r = (n.socks i).rx)

theorem BusStep.refl (n : Net) : BusStep n n := fun i => ⟨(n.socks i).rx, rfl, fun _ => rfl⟩

variable {n n' : Net} {i : ℕ}

theorem BusStep.of_socks (h : n'.socks = n.socks) : BusStep n n' := by
  intro i
  exact ⟨(n.socks i).rx, by rw [h], fun _ => rfl⟩

theorem BusStep.trans {a b c : Net} (h : BusStep a b) (h' : BusStep b c) : BusStep a c := by
  intro i
  obtain ⟨r, hr, hv⟩ := h i
  obtain ⟨r', hr', hv'⟩ := h' i
  refine ⟨r', by rw [hr', hr], fun hne => ?_⟩
  have hb := hv' (by rw [hr]; exact hne)
  rw [hb, hr]
  exact hv hne

theorem BusStep.eq (h : BusStep n n') (hi : (n.socks i).virtService ≠ .dbus) :
    n'.socks i = n.socks i := by
  obtain ⟨r, hr, hv⟩ := h i
  rw [hr, hv hi]

theorem BusStep.foldl {f : Net → ℕ → Net} (hf : ∀ n i, BusStep n (f n i)) (l : List ℕ) (n : Net) :
    BusStep n (l.foldl f n) := by
  induction l generalizing n with
  | nil => exact .refl n
  | cons i l ih => exact (hf n i).trans (ih (f n i))

theorem BusStep.setBus (n : Net) (b : Bus) : BusStep n (n.setBus b) := .of_socks rfl

theorem busStep_queueMessage {dst : ℕ} (h : (n.socks dst).virtService = .dbus) (m : DbusvOut) :
    BusStep n (n.queueMessage dst m).2 := by
  unfold queueMessage
  dsimp only
  split
  · exact .refl n
  · intro i
    by_cases hi : i = dst
    · subst hi
      exact ⟨_, setSock_self _ _ _, fun hne => absurd h hne⟩
    · exact ⟨_, setSock_of_ne _ hi _, fun _ => rfl⟩

theorem busClient_dbus (h : n.busClient i = true) : (n.socks i).virtService = .dbus := by
  simp only [busClient, decide_eq_true_eq] at h
  exact h.2.1

theorem busStep_emitTo (m : DbusvOut) (arg0 : Bytes) (n : Net) (i : ℕ) :
    BusStep n (emitTo m arg0 n i) := by
  unfold emitTo
  split_ifs with h
  · exact busStep_queueMessage (busClient_dbus h.1) m
  · exact .refl n

theorem busStep_emitNameOwnerChanged (n : Net) (name old new : Bytes) :
    BusStep n (n.emitNameOwnerChanged name old new) := by
  unfold emitNameOwnerChanged
  cases dbusvStrBody 1024 [name, old, new] with
  | none => exact .refl n
  | some body => exact .foldl (fun n i => busStep_emitTo _ _ n i) _ n

theorem busStep_dropBinding (fd : ℕ) (old : Bytes) (n : Net) (i : ℕ) :
    BusStep n (dropBinding fd old n i) := by
  unfold dropBinding
  dsimp only
  split_ifs
  · exact (BusStep.setBus n _).trans (busStep_emitNameOwnerChanged _ _ _ _)
  · exact .refl n

theorem busStep_dropSocket (n : Net) (fd : ℕ) : BusStep n (n.dbusvDropSocket fd) := by
  unfold dbusvDropSocket
  dsimp only
  refine BusStep.trans ?_ (.setBus _ _)
  have h1 := BusStep.foldl (busStep_dropBinding fd ((n.bus.seedDefaults.ensureUniqueFd fd).unique fd))
    (List.range dbusvBindMax) (n.setBus (n.bus.seedDefaults.ensureUniqueFd fd))
  split_ifs
  · exact ((BusStep.setBus n _).trans h1).trans ((BusStep.setBus _ _).trans
      (busStep_emitNameOwnerChanged _ _ _ _))
  · exact ((BusStep.setBus n _).trans h1).trans (.setBus _ _)

end Net

end Ridux
