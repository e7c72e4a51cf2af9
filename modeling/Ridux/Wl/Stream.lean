import Ridux.Lib.Frames
import Ridux.Wl.Framing

/-!
# The stream of a Wayland client

Runs in which a client sends requests, some with a descriptor, in any pieces, and the server calls
`wl7_process_message` at any time.

* `WlRun`, `WlOp`: the runs; the client works through a script;
* `WlFramed`: the requests that were taken are the first of the script, each once, in order and with
  its own descriptor, and the rest of the script is still to come;
* `wlRun_framed`: it holds in every run in which a call finds nothing or a whole request of at most
  4104 bytes, whose descriptor the code takes if it carries one.
-/

namespace Ridux

open Lib Lib.Frames List

variable {σ : Type*}

/-- Requests with the descriptors that they carry. -/
abbrev WlScript : Type := List (WlMsg × Option ℕ)

/-- The bytes of a script. -/
abbrev wlWire : WlScript → Bytes := wire fun p => p.1.bytes

theorem wlWire_cons (p : WlMsg × Option ℕ) (script : WlScript) :
    wlWire (p :: script) = p.1.bytes ++ wlWire script := rfl

/-- The descriptors of a script. -/
def wlRights (script : WlScript) : List ℕ := script.filterMap Prod.snd

@[simp] theorem wlRights_cons (p : WlMsg × Option ℕ) (script : WlScript) :
    wlRights (p :: script) = p.2.toList ++ wlRights script := by
  obtain ⟨m, r⟩ := p
  cases r <;> rfl

/-- A client and its server: the connection and its socket, what the client has still to send, and
what the server has taken. -/
structure WlRun (σ : Type*) where
  conn : WlConn σ
  sock : Sock
  unsent : Bytes
  unsentRights : List ℕ
  taken : WlScript

/-- The steps of a run: the client sends some bytes or its next descriptor, or the server calls
`wl7_process_message`. -/
inductive WlOp
  | send (n : ℕ)
  | sendRight
  | process

namespace WlServer

variable (srv : WlServer σ)

/-- What a request does that is taken with a descriptor. -/
def effect (w : σ) (p : WlMsg × Option ℕ) : σ :=
  match srv.find w p.1.obj with
  | (none, w) => w
  | (some kind, w) => srv.handle kind p.1 p.2 w

/-- The object of the request is known, and its case takes a descriptor. -/
def Takes (w : σ) (m : WlMsg) : Prop := ∃ kind, (srv.find w m.obj).1 = some kind ∧ takesRight kind m

end WlServer

/-- The next descriptor in the queue may be taken behind the first `n` bytes of the ring. -/
def Sock.Due (s : Sock) (n : ℕ) : Prop :=
  s.anc.head ≠ s.anc.tail ∧
    Net.posAfter (s.anc.slots s.anc.tail).2 (s.rx.tail + BitVec.ofNat 32 n) = false

namespace WlRun

variable (srv : WlServer σ) (world : σ) (script : WlScript)

/-- One step. -/
def exec (x : WlRun σ) : WlOp → WlRun σ
  | .send n =>
    let r := x.sock.pushRx (x.unsent.take n)
    { x with sock := r.2, unsent := x.unsent.drop r.1 }
  | .sendRight =>
    match x.unsentRights with
    | [] => x
    | right :: rest =>
      match x.sock.pushRight right with
      | none => x
      | some s => { x with sock := s, unsentRights := rest }
  | .process =>
    let p := wl7ProcessMessage srv x.conn x.sock
    { x with
      conn := p.2.1
      sock := p.2.2
      taken :=
        match p.1 with
        | .ok q => x.taken ++ [q]
        | .error _ => x.taken }

/-- The descriptor of a request is taken with it: it carries none and its case takes none, or its
case takes one and its own has arrived. -/
def Carried (x : WlRun σ) (m : WlMsg) (r : Option ℕ) : Prop :=
  if r.isSome then srv.Takes x.conn.world m ∧ x.sock.Due m.bytes.length
  else ¬ srv.Takes x.conn.world m

/-- The steps on which the code does not go wrong. -/
def Meets (x : WlRun σ) : WlOp → Prop
  | .process => x.sock.rx.contents = [] ∨ ∃ m r todo, script = x.taken ++ (m, r) :: todo ∧
      m.bytes.length ≤ x.sock.rx.used ∧ m.body.length ≤ 4096 ∧ x.Carried srv m r
  | _ => True

/-- Nothing has been sent. -/
structure Starts (x : WlRun σ) : Prop where
  processing : x.conn.processing = false
  world : x.conn.world = world
  used : x.sock.used = true
  rx : x.sock.rx.used = 0
  anc : x.sock.anc.Ok
  none : x.sock.anc.head = x.sock.anc.tail
  unsent : x.unsent = wlWire script
  unsentRights : x.unsentRights = wlRights script
  taken : x.taken = []

/-- The requests that have been taken are the first of the script, with their descriptors, and have
had their effect; the others are waiting or still to be sent, bytes and descriptors. -/
structure WlFramed (x : WlRun σ) : Prop where
  processing : x.conn.processing = false
  used : x.sock.used = true
  fits : x.sock.rx.used ≤ sockBufSize
  anc : x.sock.anc.Ok
  todo : ∃ todo, script = x.taken ++ todo ∧ x.sock.rx.contents ++ x.unsent = wlWire todo ∧
    x.sock.anc.contents.map Prod.fst ++ x.unsentRights = wlRights todo
  world : x.conn.world = x.taken.foldl srv.effect world

variable {srv world script} {x : WlRun σ} {m : WlMsg} {r : Option ℕ}

theorem Starts.framed (h : x.Starts world script) : WlFramed srv world script x where
  processing := h.processing
  used := h.used
  fits := by rw [h.rx]; exact Nat.zero_le _
  anc := h.anc
  todo := by
    refine ⟨script, by rw [h.taken, nil_append], ?_, ?_⟩
    · rw [Ring.contents_eq_nil h.rx, nil_append, h.unsent]
    · rw [h.anc.contents_eq_nil.2 h.none, map_nil, nil_append, h.unsentRights]
  world := by rw [h.taken, h.world]; rfl

theorem WlFramed.send (h : WlFramed srv world script x) (n : ℕ) :
    WlFramed srv world script (x.exec srv (.send n)) := by
  obtain ⟨hcontents, hfits⟩ := Sock.contents_pushRx h.fits (x.unsent.take n)
  obtain ⟨todo, hscript, hbytes, hrights⟩ := h.todo
  have hle : (x.sock.pushRx (x.unsent.take n)).1 ≤ n := by
    have hmin : (x.sock.pushRx (x.unsent.take n)).1 ≤ (x.unsent.take n).length := Nat.min_le_left _ _
    rw [length_take] at hmin
    omega
  refine ⟨h.processing, h.used, hfits, h.anc, ⟨todo, hscript, ?_, hrights⟩, h.world⟩
  show (x.sock.pushRx (x.unsent.take n)).2.rx.contents ++
    x.unsent.drop (x.sock.pushRx (x.unsent.take n)).1 = wlWire todo
  rw [hcontents, take_take, Nat.min_eq_left hle, append_assoc, take_append_drop, hbytes]

theorem WlFramed.sendRight (h : WlFramed srv world script x) :
    WlFramed srv world script (x.exec srv .sendRight) := by
  obtain ⟨todo, hscript, hbytes, hrights⟩ := h.todo
  unfold exec
  cases hun : x.unsentRights with
  | nil =>
    dsimp only
    exact h
  | cons right rest =>
    dsimp only
    unfold Sock.pushRight
    by_cases hfull : Circular.succ sockAncq x.sock.anc.head = x.sock.anc.tail
    · rw [if_pos hfull]
      exact h
    · rw [if_neg hfull]
      refine ⟨h.processing, h.used, h.fits, h.anc.put _, ⟨todo, hscript, hbytes, ?_⟩, h.world⟩
      show (x.sock.anc.put (right, x.sock.rx.head)).contents.map Prod.fst ++ rest = wlRights todo
      rw [h.anc.contents_put _ hfull, map_append, append_assoc, ← hrights, hun]
      rfl

/-- A request whose descriptor the code takes is handed to its case, with its own descriptor. -/
theorem run_carried {s : Sock} {w : σ} (hanc : s.anc.Ok) {rest : List ℕ}
    (hrights : s.anc.contents.map Prod.fst ++ rest = r.toList ++ wlRights script)
    (hcarried : if r.isSome then srv.Takes w m ∧ s.anc.head ≠ s.anc.tail ∧
        Net.posAfter (s.anc.slots s.anc.tail).2 s.rx.tail = false else ¬ srv.Takes w m) :
    ∃ s', srv.run m w s = (r, srv.effect w (m, r), s') ∧ s'.used = s.used ∧ s'.rx = s.rx ∧
      s'.anc.Ok ∧ s'.anc.contents.map Prod.fst ++ rest = wlRights script := by
  unfold WlServer.run WlServer.effect
  cases r with
  | none =>
    have hnot : ¬ srv.Takes w m := hcarried
    unfold WlServer.Takes at hnot
    revert hnot
    generalize srv.find w m.obj = f
    obtain ⟨kind, w'⟩ := f
    intro hnot
    cases kind with
    | none => exact ⟨s, rfl, rfl, rfl, hanc, hrights⟩
    | some kind =>
      dsimp only
      rw [if_neg fun ht => hnot ⟨kind, rfl, ht⟩]
      exact ⟨s, rfl, rfl, rfl, hanc, hrights⟩
  | some right =>
    obtain ⟨⟨kind, hkind, htakes⟩, hne, hdue⟩ := hcarried
    revert hkind
    generalize srv.find w m.obj = f
    obtain ⟨k, w'⟩ := f
    rintro rfl
    have hcons := hanc.contents_cons hne
    rw [hcons, map_cons, cons_append] at hrights
    obtain ⟨hright, hrest⟩ := List.cons.inj hrights
    have hrecv : s.recvRight = (some right, { s with anc := s.anc.next }) := by
      unfold Sock.recvRight
      rw [if_neg hne, if_neg (by simp [hdue]), hright]
    dsimp only
    rw [if_pos htakes, hrecv]
    exact ⟨_, rfl, rfl, rfl, hanc.next, hrest⟩

theorem process_whole (h : WlFramed srv world script x) {todo : WlScript} (hm : m.Ok)
    (hscript : script = x.taken ++ (m, r) :: todo) (hlen : m.bytes.length ≤ x.sock.rx.used)
    (hbody : m.body.length ≤ 4096) (hcarried : x.Carried srv m r) :
    (x.exec srv .process).taken = x.taken ++ [(m, r)] ∧
      WlFramed srv world script (x.exec srv .process) := by
  obtain ⟨todo', hscript', hbytes, hrights⟩ := h.todo
  obtain rfl : todo' = (m, r) :: todo := append_cancel_left (hscript'.symm.trans hscript)
  -- the ring starts with the request
  obtain ⟨rest, hrest⟩ : ∃ rest, x.sock.rx.contents = m.bytes ++ rest := by
    rw [wlWire_cons] at hbytes
    have hpre : m.bytes <+: x.sock.rx.contents := by
      refine prefix_of_prefix_length_le ⟨wlWire todo, rfl⟩ ⟨x.unsent, hbytes⟩ ?_
      rw [Ring.length_contents]
      exact hlen
    obtain ⟨rest, hrest⟩ := hpre
    exact ⟨rest, hrest.symm⟩
  obtain ⟨s', hread, hpop⟩ := wl7ReadMessage_ok hm hbody h.fits hrest
  rw [wlRights_cons] at hrights
  have hcarried' : if r.isSome then srv.Takes x.conn.world m ∧ s'.anc.head ≠ s'.anc.tail ∧
      Net.posAfter (s'.anc.slots s'.anc.tail).2 s'.rx.tail = false
      else ¬ srv.Takes x.conn.world m := by
    rw [hpop.anc, hpop.tail]
    exact hcarried
  have hanc' : s'.anc.Ok := by rw [hpop.anc]; exact h.anc
  have hrights' : s'.anc.contents.map Prod.fst ++ x.unsentRights = r.toList ++ wlRights todo := by
    rw [hpop.anc]
    exact hrights
  obtain ⟨s'', hrun, hused, hrx, hanc, hleft⟩ := run_carried hanc' hrights' hcarried'
  have hexec : x.exec srv .process =
      { x with
        conn := { x.conn with world := srv.effect x.conn.world (m, r) }
        sock := s''
        taken := x.taken ++ [(m, r)] } := by
    unfold exec wl7ProcessMessage
    rw [if_neg (by simp [h.processing]), hread]
    dsimp only
    rw [hrun]
  rw [hexec]
  refine ⟨rfl, h.processing, hused.trans (hpop.used.trans h.used), ?_, hanc,
    ⟨todo, ?_, ?_, hleft⟩, ?_⟩
  · dsimp only
    rw [hrx]
    exact hpop.fits
  · rw [hscript, append_assoc]
    rfl
  · dsimp only
    rw [hrx, hpop.contents, hrest, drop_left' rfl]
    rw [hrest, wlWire_cons, append_assoc] at hbytes
    exact append_cancel_left hbytes
  · dsimp only
    rw [h.world, foldl_append]
    rfl

theorem WlFramed.exec (hok : ∀ p ∈ script, p.1.Ok) (h : WlFramed srv world script x) {op : WlOp}
    (hmeets : x.Meets srv script op) : WlFramed srv world script (x.exec srv op) := by
  cases op with
  | send n => exact h.send n
  | sendRight => exact h.sendRight
  | process =>
    rcases hmeets with hempty | ⟨m, r, todo, hscript, hlen, hbody, hcarried⟩
    · have hexec : x.exec srv .process = x := by
        unfold WlRun.exec wl7ProcessMessage
        rw [if_neg (by simp [h.processing]), wl7ReadMessage_empty h.fits hempty]
      rw [hexec]
      exact h
    · have hm : m.Ok := hok (m, r) (by rw [hscript]; simp)
      exact (process_whole h hm hscript hlen hbody hcarried).2

/-- For every script of well-formed requests, every way its bytes and descriptors arrive and every
order of calls on which the code does not go wrong: the requests are taken in order, each once, with
its own body and its own descriptor; and a call takes the next one if it is there. -/
theorem wlRun_framed (hok : ∀ p ∈ script, p.1.Ok) {x₀ : WlRun σ} (hstart : x₀.Starts world script)
    (hrun : Runs (Meets srv script) (WlRun.exec srv) x₀ x) :
    WlFramed srv world script x ∧
      (x.Meets srv script .process → x.sock.rx.contents ≠ [] → ∃ m r todo,
        script = x.taken ++ (m, r) :: todo ∧ (x.exec srv .process).taken = x.taken ++ [(m, r)]) := by
  have hframed : WlFramed srv world script x :=
    hrun.invariant (P := WlFramed srv world script) (fun _ _ h hop => h.exec hok hop) hstart.framed
  refine ⟨hframed, fun hmeets hne => ?_⟩
  rcases hmeets with hempty | ⟨m, r, todo, hscript, hlen, hbody, hcarried⟩
  · exact absurd hempty hne
  · have hm : m.Ok := hok (m, r) (by rw [hscript]; simp)
    exact ⟨m, r, todo, hscript, (process_whole hframed hm hscript hlen hbody hcarried).1⟩

/-! ### Two runs of one client -/

/-- A server that knows `wl_display` alone. -/
def displayOnly : WlServer Unit where
  find _ id := (if id = 1 then some .display else none, ())
  handle _ _ _ w := w

/-- A client that asks for the registry, on a connected stream. -/
def asking : WlRun Unit where
  conn := ⟨false, ()⟩
  sock := { Sock.fresh 1 1 0 with tcpState := .established }
  unsent := WlMsg.bytes ⟨1, 1, [2, 0, 0, 0]⟩
  unsentRights := []
  taken := []

/-- What it sends. -/
def askingScript : WlScript := [(⟨1, 1, [2, 0, 0, 0]⟩, none)]

theorem asking_starts : asking.Starts () askingScript :=
  ⟨rfl, rfl, rfl, by decide, ⟨by decide, by decide⟩, rfl, by decide, rfl, rfl⟩

theorem askingScript_ok : ∀ p ∈ askingScript, p.1.Ok := by
  intro p hp
  obtain rfl := mem_singleton.1 hp
  exact ⟨by decide, by decide, by decide⟩

/-- The request arrives at once. -/
theorem wlRun_framed_asking :
    ((asking.exec displayOnly (.send 12)).exec displayOnly .process).taken = askingScript := by
  have hrun : Runs (Meets displayOnly askingScript) (WlRun.exec displayOnly) asking
      (asking.exec displayOnly (.send 12)) := (Runs.refl asking).tail _ trivial
  have hmeets : (asking.exec displayOnly (.send 12)).Meets displayOnly askingScript .process := by
    refine .inr ⟨_, none, [], rfl, by decide +kernel, by decide, ?_⟩
    rintro ⟨kind, hkind, htakes⟩
    obtain rfl := Option.some.inj hkind
    exact absurd htakes (by decide)
  have hne : (asking.exec displayOnly (.send 12)).sock.rx.contents ≠ [] := by decide +kernel
  obtain ⟨m, r, todo, hscript, htaken⟩ :=
    (wlRun_framed askingScript_ok asking_starts hrun).2 hmeets hne
  have htodo : askingScript = (m, r) :: todo := hscript
  obtain ⟨hp, -⟩ := List.cons.inj htodo
  rw [htaken, ← hp]
  rfl

/-- The first four bytes arrive alone, and are lost. -/
theorem wlRun_not_framed : ¬ ∀ (script : WlScript) (x₀ x : WlRun Unit), (∀ p ∈ script, p.1.Ok) →
    x₀.Starts () script → Runs (fun _ _ => True) (WlRun.exec displayOnly) x₀ x →
    WlFramed displayOnly () script x := by
  intro h
  have hrun : Runs (fun _ _ => True) (WlRun.exec displayOnly) asking
      ((asking.exec displayOnly (.send 4)).exec displayOnly .process) :=
    ((Runs.refl asking).tail _ trivial).tail _ trivial
  obtain ⟨todo, hscript, hbytes, -⟩ := (h _ _ _ askingScript_ok asking_starts hrun).todo
  generalize hx : (asking.exec displayOnly (.send 4)).exec displayOnly .process = x at hscript hbytes
  have htaken : x.taken = [] := by
    rw [← hx]
    decide +kernel
  have hrest : x.sock.rx.contents ++ x.unsent = (WlMsg.bytes ⟨1, 1, [2, 0, 0, 0]⟩).drop 4 := by
    rw [← hx]
    decide +kernel
  rw [htaken, nil_append] at hscript
  rw [← hscript, hrest] at hbytes
  exact absurd hbytes (by decide)

end WlRun

end Ridux
