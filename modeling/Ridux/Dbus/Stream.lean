import Ridux.Dbus.Bus

/-!
# The stream of a bus client

What `base.c` does with the bytes that a client sends to the virtual bus.

* `Net.handleMethodCall`: the methods of the bus itself;
* `Net.processBinaryStream`: the messages of a snapshot, one after the other;
* `Net.dbusOnSend`: authentication, then messages.

The services that the bus offers in the names of others (`dbusv_handle_service_method_call`) read a
call and queue at most one reply to it; they are a parameter.
-/

namespace Ridux

open Lib

/-- What `dbusv_handle_service_method_call` does for a call. -/
inductive ServiceReply
  /-- No service takes it. -/
  | none
  /-- The reply does not fit its buffer. -/
  | tooBig
  | message (m : DbusvOut)
  /-- A reply with a portal handle, followed by `dbusv_emit_portal_response`. -/
  | handle (m : DbusvOut) (path : CString)

/-- The services behind the bus. -/
abbrev Services := ℕ → DbusvMsg → ServiceReply

/-- `dbusv_body_get_str` into a buffer of `cap` bytes. -/
def dbusvBodyGetStr (m : DbusvMsg) (off cap : ℕ) : Option Bytes :=
  (dbusvReadCstr m.body m.body.length off m.le cap).map fun r => cstr r.1

/-- A method return. -/
def dbusvReturn (req : DbusvMsg) (sig : CString) (body : Bytes) : DbusvOut where
  type := 2
  path := .empty
  iface := .empty
  member := .empty
  dest := .of req.sender
  sender := dbusvBusName
  errName := .empty
  replySerial := UInt32.ofNat req.serial
  sig := sig
  body := body

theorem zero_not_mem_sigS : 0 ∉ ascii "s" := by decide

theorem zero_not_mem_sigU : 0 ∉ ascii "u" := by decide

/-- `"s"` and `"u"`. -/
def dbusvSigS : CString := ⟨ascii "s", zero_not_mem_sigS⟩

@[inherit_doc dbusvSigS]
def dbusvSigU : CString := ⟨ascii "u", zero_not_mem_sigU⟩

/-- The body of `dbusv_reply_empty_dict_sv`: a length of zero, aligned. -/
def dbusvEmptyDict : Bytes := List.replicate 8 0

/-- The body of `dbusv_reply_str_array`: the length of the strings, then the strings. -/
def dbusvStrArrayBody (ss : List Bytes) : Option Bytes :=
  let w := ss.foldl (fun w s => w.cstr s) ((DbusvWriter.init 4096).u32 0)
  if w.ok then some (dbusvWrU32 (w.pos - 4) ++ w.buf.drop 4) else none

/-- The description of the bus. -/
def dbusvIntrospectXml : Bytes := ascii <|
  "<node>" ++
  "<interface name='org.freedesktop.DBus'>" ++
  "<method name='Hello'/>" ++
  "<method name='RequestName'><arg type='s' direction='in'/>" ++
  "<arg type='u' direction='in'/><arg type='u' direction='out'/></method>" ++
  "<method name='ReleaseName'><arg type='s' direction='in'/>" ++
  "<arg type='u' direction='out'/></method>" ++
  "<method name='ListNames'><arg type='as' direction='out'/></method>" ++
  "<method name='NameHasOwner'><arg type='s' direction='in'/>" ++
  "<arg type='b' direction='out'/></method>" ++
  "<method name='GetNameOwner'><arg type='s' direction='in'/>" ++
  "<arg type='s' direction='out'/></method>" ++
  "<signal name='NameOwnerChanged'><arg type='s'/><arg type='s'/><arg type='s'/></signal>" ++
  "</interface>" ++
  "</node>"

namespace Bus

/-- One turn of the loop over the clients in `dbusv_collect_names`. -/
def collectUnique (r : List Bytes × Bus) (i : ℕ) : List Bytes × Bus :=
  if r.2.hello i then
    let b := r.2.ensureUniqueFd i
    (if b.unique i ∈ r.1 then r.1 else r.1 ++ [b.unique i], b)
  else r

/-- `dbusv_collect_names`: every name once. -/
def collectNames (b : Bus) : List Bytes × Bus :=
  let names := (List.range dbusvBindMax).foldl (fun out i =>
    if (b.bindings i).used ∧ (b.bindings i).name ∉ out then out ++ [(b.bindings i).name] else out) []
  (List.range sockMax).foldl collectUnique (names, b)

/-- `dbusv_lookup_owner_unique`. -/
def lookupOwnerUnique (b : Bus) (name : Bytes) : Option (Bytes × Bus) :=
  match b.ownerFdForName name with
  | none => none
  | some owner =>
    let r := b.uniqueForOwner owner
    if r.1.take 31 = [] then none else some (r.1.take 31, r.2)

/-- The names that `StartServiceByName` binds to the bus. -/
def startable (name : Bytes) : Bool :=
  startsWith name (ascii "org.freedesktop.portal.") ||
    startsWith name (ascii "org.freedesktop.secrets") || startsWith name (ascii "org.kde.")

end Bus

namespace Net

/-! ### Replies -/

def replyVoid (n : Net) (fd : ℕ) (m : DbusvMsg) : Net :=
  (n.queueMessage fd (dbusvReturn m .empty [])).2

def replyU32 (n : Net) (fd : ℕ) (m : DbusvMsg) (v : ℕ) : Net :=
  (n.queueMessage fd (dbusvReturn m dbusvSigU (dbusvWrU32 v))).2

def replyBool (n : Net) (fd : ℕ) (m : DbusvMsg) (v : Bool) : Net :=
  n.replyU32 fd m (if v then 1 else 0)

def replyStr (n : Net) (fd : ℕ) (m : DbusvMsg) (s : Bytes) : Net :=
  match dbusvStrBody 1024 [s] with
  | none => n
  | some body => (n.queueMessage fd (dbusvReturn m dbusvSigS body)).2

def replyStrArray (n : Net) (fd : ℕ) (m : DbusvMsg) (ss : List Bytes) : Net :=
  match dbusvStrArrayBody ss with
  | none => n
  | some body => (n.queueMessage fd (dbusvReturn m ⟨ascii "as", by decide⟩ body)).2

def replyEmptyDictSv (n : Net) (fd : ℕ) (m : DbusvMsg) : Net :=
  (n.queueMessage fd (dbusvReturn m ⟨ascii "a\x7bsv\x7d", by decide⟩ dbusvEmptyDict)).2

/-- `dbusv_reply_error`. -/
def replyError (n : Net) (fd : ℕ) (m : DbusvMsg) (err msg : String) : Net :=
  match dbusvStrBody 1024 [ascii msg] with
  | none => n
  | some body =>
    (n.queueMessage fd { dbusvReturn m dbusvSigS body with
      type := 3, errName := .of (ascii ("org.freedesktop.DBus.Error." ++ err)) }).2

/-! ### The methods of the bus -/

def helloMethod (n : Net) (fd : ℕ) (m : DbusvMsg) : Net :=
  let b := n.bus.ensureUniqueFd fd
  let uniq := b.unique fd
  let n := n.setBus b
  if b.hello fd then n.replyError fd m "Failed" "Hello already handled"
  else
    let n := n.setBus { b with hello := Function.update b.hello fd true }
    let n := n.replyStr fd m uniq
    let n := n.emitNameOwnerChanged uniq [] uniq
    n.emitNameSignal fd ⟨ascii "NameAcquired", by decide⟩ uniq

/-- The name is not owned: bind it. -/
def acquireName (n : Net) (fd : ℕ) (name : Bytes) : ℕ × Net :=
  match n.bus.addBinding name (some fd) with
  | (none, b) => (3, n.setBus b)
  | (some _, b) =>
    let n := (n.setBus b).emitNameOwnerChanged name [] (b.unique fd)
    (1, n.emitNameSignal fd ⟨ascii "NameAcquired", by decide⟩ name)

def requestNameMethod (n : Net) (fd : ℕ) (m : DbusvMsg) : Net :=
  let n := n.setBus (n.bus.ensureUniqueFd fd)
  match dbusvBodyGetStr m 0 dbusvNameMax with
  | none => n.replyError fd m "InvalidArgs" "RequestName expects name"
  | some name =>
    match n.bus.ownerFdForName name with
    | some owner => n.replyU32 fd m (if owner = some fd then 4 else 3)
    | none =>
      let r := n.acquireName fd name
      r.2.replyU32 fd m r.1

def releaseNameMethod (n : Net) (fd : ℕ) (m : DbusvMsg) : Net :=
  match dbusvBodyGetStr m 0 dbusvNameMax with
  | none => n.replyError fd m "InvalidArgs" "ReleaseName expects name"
  | some name =>
    match n.bus.findBinding name with
    | none => n.replyU32 fd m 2
    | some i =>
      if (n.bus.bindings i).ownerFd = some fd then
        let r := n.bus.uniqueForOwner (some fd)
        let n := n.setBus (r.2.setBinding i Bus.freeBinding)
        let n := n.emitNameOwnerChanged name r.1 []
        let n := n.emitNameSignal fd ⟨ascii "NameLost", by decide⟩ name
        n.replyU32 fd m 1
      else n.replyU32 fd m 3

def startServiceMethod (n : Net) (fd : ℕ) (m : DbusvMsg) : Net :=
  match dbusvBodyGetStr m 0 dbusvNameMax with
  | none => n.replyError fd m "InvalidArgs" "StartServiceByName expects name"
  | some name =>
    if (n.bus.ownerFdForName name).isSome then n.replyU32 fd m 2
    else if Bus.startable name then
      let r := n.bus.addBinding name none
      (n.setBus r.2).replyU32 fd m (if r.1.isSome then 1 else 2)
    else n.replyU32 fd m 1

/-- `dbusv_emit_portal_response`. -/
def emitPortalResponse (n : Net) (fd : ℕ) (path : CString) : Net :=
  if fd < sockMax ∧ path.val ≠ [] ∧ n.busClient fd then
    let n := n.setBus (n.bus.ensureUniqueFd fd)
    (n.queueMessage fd { nameOwnerChanged (List.replicate 8 0) with
      path := path
      iface := ⟨ascii "org.freedesktop.portal.Request", by decide⟩
      member := ⟨ascii "Response", by decide⟩
      dest := .of (n.bus.unique fd)
      sender := ⟨ascii "org.freedesktop.portal.Desktop", by decide⟩
      sig := ⟨ascii "ua\x7bsv\x7d", by decide⟩ }).2
  else n

/-- `dbusv_handle_service_method_call`: whether it returned zero. -/
def serviceMethodCall (n : Net) (svc : Services) (fd : ℕ) (m : DbusvMsg) : Bool × Net :=
  match svc fd m with
  | .none => (true, n)
  | .tooBig => (false, n)
  | .message out =>
    let r := n.queueMessage fd out
    (r.1.isOk, r.2)
  | .handle out path =>
    let r := n.queueMessage fd out
    (r.1.isOk, r.2.emitPortalResponse fd path)

/-- The methods of the interface `org.freedesktop.DBus`. -/
def busMethod (n : Net) (fd : ℕ) (m : DbusvMsg) : Net :=
  if m.member = ascii "Hello" then n.helloMethod fd m
  else if m.member = ascii "RequestName" then n.requestNameMethod fd m
  else if m.member = ascii "ReleaseName" then n.releaseNameMethod fd m
  else if m.member = ascii "ListNames" then
    let r := n.bus.collectNames
    (n.setBus r.2).replyStrArray fd m r.1
  else if m.member = ascii "NameHasOwner" then
    match dbusvBodyGetStr m 0 dbusvNameMax with
    | none => n.replyError fd m "InvalidArgs" "NameHasOwner expects name"
    | some name => n.replyBool fd m (n.bus.ownerFdForName name).isSome
  else if m.member = ascii "GetNameOwner" then
    match dbusvBodyGetStr m 0 dbusvNameMax with
    | none => n.replyError fd m "InvalidArgs" "GetNameOwner expects name"
    | some name =>
      match n.bus.lookupOwnerUnique name with
      | none => n.replyError fd m "NameHasNoOwner" "name has no owner"
      | some r => (n.setBus r.2).replyStr fd m r.1
  else if m.member = ascii "AddMatch" then
    match dbusvBodyGetStr m 0 192 with
    | none => n.replyError fd m "InvalidArgs" "AddMatch expects rule"
    | some rule => (n.setBus (n.bus.addMatch fd rule)).replyVoid fd m
  else if m.member = ascii "RemoveMatch" then
    match dbusvBodyGetStr m 0 192 with
    | none => n.replyError fd m "InvalidArgs" "RemoveMatch expects rule"
    | some rule => (n.setBus (n.bus.removeMatch fd rule)).replyVoid fd m
  else if m.member = ascii "GetId" then n.replyStr fd m (ascii "ridux-bus-0")
  else if m.member = ascii "StartServiceByName" then n.startServiceMethod fd m
  else if m.member = ascii "GetConnectionUnixProcessID" then
    match dbusvBodyGetStr m 0 dbusvNameMax with
    | none => n.replyError fd m "InvalidArgs" "GetConnectionUnixProcessID expects name"
    | some name =>
      match n.bus.ownerFdForName name with
      | none => n.replyError fd m "NameHasNoOwner" "name has no owner"
      | some owner => n.replyU32 fd m (owner.elim 1 (1000 + ·))
  else if m.member = ascii "GetConnectionCredentials" then n.replyEmptyDictSv fd m
  else n.replyError fd m "UnknownMethod" "unknown method"

/-- `dbusv_handle_method_call`. -/
def handleMethodCall (n : Net) (svc : Services) (fd : ℕ) (m : DbusvMsg) : Net :=
  let iface := if m.iface = [] then ascii "org.freedesktop.DBus" else m.iface
  if m.member = [] then n.replyError fd m "InvalidArgs" "missing member"
  else if iface = ascii "org.freedesktop.DBus.Introspectable" ∧ m.member = ascii "Introspect" then
    n.replyStr fd m dbusvIntrospectXml
  else if iface = ascii "org.freedesktop.DBus.Peer" ∧ m.member = ascii "Ping" then n.replyVoid fd m
  else if iface = ascii "org.freedesktop.DBus.Peer" ∧ m.member = ascii "GetMachineId" then
    n.replyStr fd m (ascii "ridux-machine-id")
  else if iface ≠ ascii "org.freedesktop.DBus" then
    let r := n.serviceMethodCall svc fd m
    if r.1 then r.2.replyError fd m "UnknownMethod" "unknown interface" else r.2
  else n.busMethod fd m

/-! ### The stream -/

/-- `dbusv_process_binary_stream`: how much of the buffer was consumed. -/
def processBinaryStream (svc : Services) (fd : ℕ) (fuel : ℕ) (n : Net) (buf : Bytes) : ℕ × Net :=
  match fuel with
  | 0 => (0, n)
  | fuel + 1 =>
    if buf.length < 16 then (0, n)
    else
      match dbusvParseMessage buf with
      | .more => (0, n)
      | .bad => (buf.length, n)
      | .done m used =>
        let n := if m.type = 1 then n.handleMethodCall svc fd m else n
        let r := processBinaryStream svc fd fuel n (buf.drop used)
        (used + r.1, r.2)

/-- `sock_tx_snapshot` into a buffer of `cap` bytes. -/
def txSnapshot (s : Sock) (cap : ℕ) : Bytes :=
  let av := min s.tx.used sockBufSize
  (Ring.pop (if av ≥ cap then cap - 1 else av) s.tx).1

/-! ### Authentication -/

/-- A reply of the handshake; nothing is noted when not a byte of it fits. -/
def queueLine (n : Net) (fd : ℕ) (rep : String) (note : VirtFlags → VirtFlags) : Net :=
  let r := (n.socks fd).pushRx (ascii rep)
  n.setSock fd (if r.1 = 0 then r.2 else { r.2 with virtFlags := note r.2.virtFlags })

/-- `sock_dbus_queue_auth`. -/
def dbusQueueAuth (n : Net) (fd : ℕ) : Net :=
  n.queueLine fd "REJECTED EXTERNAL DBUS_COOKIE_SHA1\r\n" id

/-- `sock_dbus_queue_data`. -/
def dbusQueueData (n : Net) (fd : ℕ) : Net :=
  n.queueLine fd "DATA\r\n" fun f => { f with dbusWaitData := true }

/-- `sock_dbus_queue_ok`. -/
def dbusQueueOk (n : Net) (fd : ℕ) : Net :=
  n.queueLine fd "OK 72696475786462757300000000000001\r\n" fun f =>
    { f with dbusWaitData := false, dbusAuth := true }

/-- `sock_dbus_queue_unixfd`. -/
def dbusQueueUnixfd (n : Net) (fd : ℕ) : Net :=
  n.queueLine fd "AGREE_UNIX_FD\r\n" fun f => { f with dbusUnixfd := true }

/-- What separates the words of a line. -/
def isBlank (c : UInt8) : Bool := c = 0x20 ∨ c = 0x09 ∨ c = 0x0D

/-- The words behind `AUTH`. -/
def authWords (n : Net) (fd : ℕ) (args : Bytes) : Net :=
  let args := args.dropWhile isBlank
  let mech := args.takeWhile fun c => !isBlank c
  let data := (args.drop mech.length).dropWhile isBlank
  if args = [] then n.dbusQueueAuth fd
  else if mech = ascii "EXTERNAL" ∧ data = [] then n.dbusQueueData fd
  else n.dbusQueueOk fd

/-- A line of the handshake, and whether the loop ends with it. -/
def authLine (n : Net) (fd : ℕ) (line : Bytes) : Bool × Net :=
  let line := line.dropWhile fun c => c = 0x0D ∨ c = 0x0A ∨ c = 0
  let f := (n.socks fd).virtFlags
  if startsWith line (ascii "AUTH") then
    (false, if f.dbusAuth then n else n.authWords fd (line.drop 4))
  else if startsWith line (ascii "DATA") then
    (false, if f.dbusWaitData ∧ !f.dbusAuth then n.dbusQueueOk fd
      else if !f.dbusAuth then n.dbusQueueAuth fd else n)
  else if startsWith line (ascii "NEGOTIATE_UNIX_FD") then
    (false, if f.dbusAuth then n.dbusQueueUnixfd fd else n.dbusQueueAuth fd)
  else if startsWith line (ascii "BEGIN") then
    (true, if f.dbusAuth then n.setSock fd { n.socks fd with virtState := 1 }
      else n.dbusQueueAuth fd)
  else (false, if f.dbusAuth then n else n.dbusQueueAuth fd)

/-- The loop over the lines: how much of the snapshot they took. -/
def authLoop (fd : ℕ) : ℕ → Net → Bytes → ℕ × Net
  | 0, n, _ => (0, n)
  | fuel + 1, n, rest =>
    if (n.socks fd).virtState ≠ 0 ∨ 0x0A ∉ rest then (0, n)
    else
      let line := rest.takeWhile (· != 0x0A)
      let len := line.length + 1
      match n.authLine fd line with
      | (true, n) => (len, n)
      | (false, n) =>
        let r := authLoop fd fuel n (rest.drop len)
        (len + r.1, r.2)

/-- `sock_dbus_on_send` on a snapshot. -/
def dbusOnSend (n : Net) (svc : Services) (fd : ℕ) (req : Bytes) : Net :=
  if req = [] then n
  else
    let n := n.setBus n.bus.seedDefaults
    let zeros := (req.takeWhile (· == 0)).length
    let r := authLoop fd (req.length + 1) n (req.drop zeros)
    let consumed := zeros + r.1
    let n := r.2
    let r := if (n.socks fd).virtState = 1 ∧ consumed < req.length then
      processBinaryStream svc fd (req.length + 1) n (req.drop consumed) else (0, n)
    let n := r.2
    let s := n.socks fd
    n.setSock fd { s with
      tx := { s.tx with tail := s.tx.tail + BitVec.ofNat 32 (consumed + r.1) } }

end Net

end Ridux
