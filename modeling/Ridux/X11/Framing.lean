import Ridux.Lib.Decode
import Ridux.Lib.Run
import Ridux.Lib.Words
import Ridux.Net.Server

/-!
# Requests of an X11 client

How `display_wayland.c` takes requests out of the bytes of a client.

* `X11Conn`: what a connection keeps of the stream; what the requests do to the rest is left open;
* `x11InitStreamConnection`, `x11PullSocketRx`, `x11ProcessRequest`: the functions of the source;
* `x11Front`: the request at the front of a stream, and `x11Front_cuts`;
* `x11ProcessRequest_spec`: a call takes the request at the front of the bytes that wait, or none.
-/

namespace Ridux

open Lib List

def x11MaxRequestBytes : ℕ := 32 * 1024 * 1024

/-- The negative results of the functions; `failed` is `-1`. -/
inductive X11Err
  | failed | einval | e2big | enomem | enotconn
  deriving DecidableEq

/-- A request as it is handed to its handler. -/
structure X11Request where
  opcode : UInt8
  extra : UInt8
  body : Bytes
  deriving DecidableEq

/-- What a connection keeps of its stream; `reqBuf` is `req_buf` up to `req_len`, and `screen` is
what the handlers change. -/
structure X11Conn (σ : Type*) where
  lsb : Bool
  reqBuf : Bytes
  reqCap : ℕ
  sequence : BitVec 16
  screen : σ

/-- Whether the two `ulibc_malloc` of a call succeed: for a larger `req_buf`, and for a long body. -/
structure X11Alloc where
  reqBuf : Bool
  body : Bool

variable {σ : Type*}

/-- The number in some bytes, for the byte order of the client. -/
def x11Rd (lsb : Bool) (p : Bytes) : ℕ := leNat (if lsb then p else p.reverse)

def x11Rd16 (lsb : Bool) (p : Bytes) : ℕ := x11Rd lsb (p.take 2)

def x11Rd32 (lsb : Bool) (p : Bytes) : ℕ := x11Rd lsb (p.take 4)

/-! ### Setup -/

/-- `(n+3u)&~3u`. -/
def pad4 (n : ℕ) : ℕ := (n + 3) / 4 * 4

/-- The loop that reads `left` bytes in pieces of `chunk`, whatever comes. -/
def x11Sink (chunk : ℕ) : ℕ → ℕ → Sock → Sock
  | 0, _, s => s
  | fuel + 1, left, s =>
    if left = 0 then s
    else x11Sink chunk fuel (left - min left chunk) (s.recvStream (min left chunk)).2

/-- One of the two strings of the setup, of `len` bytes, for a field of `cap` bytes. -/
def x11ReadAuth (cap chunk len : ℕ) (s : Sock) : Sock :=
  if len = 0 then s
  else if len < cap then (s.recvStream (pad4 len)).2
  else x11Sink chunk (pad4 len) (pad4 len) s

/-- The byte order that a setup asks for. -/
def x11Lsb (hdr : Bytes) : Bool := hdr.headD 0 = 0x6C

/-- `x11_init_stream_connection`: the header of the setup and its strings are read. -/
def x11InitStreamConnection (screen : σ) (s : Sock) : Option (X11Conn σ) × Sock :=
  let hdr := Sock.taken (s.recvStream 12).1
  let s := (s.recvStream 12).2
  if hdr.length < 12 then (none, s)
  else
    let lsb := x11Lsb hdr
    let s := x11ReadAuth 16 64 (x11Rd16 lsb (hdr.drop 6)) s
    let s := x11ReadAuth 64 128 (x11Rd16 lsb (hdr.drop 8)) s
    (some ⟨lsb, [], 0, 0, screen⟩, s)

/-! ### Requests -/

namespace X11Conn

/-- The loop of `x11_reqbuf_reserve` that doubles the capacity; it starts from one or more, so 32
rounds are enough. -/
def grow (need : ℕ) : ℕ → ℕ → ℕ
  | 0, nc => nc
  | fuel + 1, nc =>
    if nc < need then
      if nc > x11MaxRequestBytes / 2 then x11MaxRequestBytes else grow need fuel (2 * nc)
    else nc

/-- `x11_reqbuf_reserve`. -/
def reqbufReserve (c : X11Conn σ) (need : ℕ) (malloc : Bool) : Except X11Err (X11Conn σ) :=
  if need ≤ c.reqCap then .ok c
  else if need > x11MaxRequestBytes then .error .e2big
  else
    let nc := grow need 32 (if c.reqCap = 0 then 4096 else c.reqCap)
    if nc < need then .error .e2big
    else if !malloc then .error .enomem
    else .ok { c with reqCap := nc }

/-- `x11_reqbuf_drop`. -/
def reqbufDrop (c : X11Conn σ) (n : ℕ) : X11Conn σ := { c with reqBuf := c.reqBuf.drop n }

/-- The loop of `x11_pull_socket_rx`: at least a byte a round. -/
def pullLoop : ℕ → ℕ → X11Conn σ → Sock → X11Conn σ × Sock
  | 0, _, c, s => (c, s)
  | fuel + 1, used, c, s =>
    if used = 0 then (c, s)
    else
      let bs := Sock.taken (s.recvStream used).1
      if bs = [] then (c, (s.recvStream used).2)
      else pullLoop fuel (used - bs.length) { c with reqBuf := c.reqBuf ++ bs } (s.recvStream used).2

/-- `x11_pull_socket_rx`; the fill of the ring is counted in 16 bits. -/
def pullSocketRx (c : X11Conn σ) (s : Sock) (malloc : Bool) :
    Except X11Err Unit × X11Conn σ × Sock :=
  if !s.used then (.error .enotconn, c, s)
  else
    let used := s.rx.used % 2 ^ 16
    if used = 0 then (.ok (), c, s)
    else if c.reqBuf.length + used > x11MaxRequestBytes then (.error .e2big, c, s)
    else
      match c.reqbufReserve (c.reqBuf.length + used) malloc with
      | .error e => (.error e, c, s)
      | .ok c => (.ok (), pullLoop used used c s)

/-- The end of `x11_process_request` for a request of `words` words whose body starts at `offset`:
the length is checked, and the request is taken and handled. -/
def takeRequest (c : X11Conn σ) (dispatch : X11Request → σ → σ) (malloc : Bool)
    (words offset : ℕ) : Except X11Err X11Request × X11Conn σ :=
  let total := 4 * words
  if total < offset then (.error .einval, c.reqbufDrop 4)
  else if total > x11MaxRequestBytes ∨ total - offset > x11MaxRequestBytes - offset then
    (.error .e2big, c.reqbufDrop 4)
  else if c.reqBuf.length < total then (.error .failed, c)
  else if total - offset > 4096 ∧ malloc = false then (.error .enomem, c)
  else
    let r : X11Request :=
      ⟨c.reqBuf.headD 0, (c.reqBuf.drop 1).headD 0, (c.reqBuf.drop offset).take (total - offset)⟩
    let c := c.reqbufDrop total
    (.ok r, { c with sequence := c.sequence + 1, screen := dispatch r c.screen })

/-- `x11_process_request` behind the pull; the result is the request that was handled. -/
def parseRequest (c : X11Conn σ) (dispatch : X11Request → σ → σ) (malloc : Bool) :
    Except X11Err X11Request × X11Conn σ :=
  if c.reqBuf.length < 4 then (.error .failed, c)
  else
    let len := x11Rd16 c.lsb (c.reqBuf.drop 2)
    if len = 0 then
      if c.reqBuf.length < 8 then (.error .failed, c)
      else
        let words := x11Rd32 c.lsb (c.reqBuf.drop 4)
        if words < 2 then (.error .einval, c.reqbufDrop 4)
        else c.takeRequest dispatch malloc words 8
    else c.takeRequest dispatch malloc len 4

/-- `x11_process_request`. -/
def processRequest (c : X11Conn σ) (dispatch : X11Request → σ → σ) (mem : X11Alloc) (s : Sock) :
    Except X11Err X11Request × X11Conn σ × Sock :=
  match c.pullSocketRx s mem.reqBuf with
  | (.error e, c, s) => (.error e, c, s)
  | (.ok (), c, s) =>
    let r := c.parseRequest dispatch mem.body
    (r.1, r.2, s)

end X11Conn

/-! ### The request at the front -/

/-- The length of the first request in words, and where its body starts, when its header is there. -/
def x11Length (lsb : Bool) (bs : Bytes) : Option (ℕ × ℕ) :=
  if bs.length < 4 then none
  else if x11Rd16 lsb (bs.drop 2) ≠ 0 then some (x11Rd16 lsb (bs.drop 2), 4)
  else if bs.length < 8 then none
  else some (x11Rd32 lsb (bs.drop 4), 8)

/-- The first request has a length shorter than its header or above the limit. -/
def X11Illegal (lsb : Bool) (bs : Bytes) : Prop :=
  ∃ words offset, x11Length lsb bs = some (words, offset) ∧
    (4 * words < offset ∨ x11MaxRequestBytes < 4 * words)

/-- The first request with the number of its bytes, when all of it is there. -/
def x11Front (lsb : Bool) (bs : Bytes) : Option (X11Request × ℕ) :=
  match x11Length lsb bs with
  | none => none
  | some (words, offset) =>
    if 4 * words < offset ∨ x11MaxRequestBytes < 4 * words ∨ bs.length < 4 * words then none
    else some (⟨bs.headD 0, (bs.drop 1).headD 0, (bs.drop offset).take (4 * words - offset)⟩,
      4 * words)

variable {lsb : Bool} {bs p : Bytes} {words offset : ℕ}

theorem x11Rd16_append (h : 2 ≤ p.length) (xs : Bytes) : x11Rd16 lsb (p ++ xs) = x11Rd16 lsb p := by
  unfold x11Rd16
  rw [take_append_of_le_length h]

theorem x11Rd32_append (h : 4 ≤ p.length) (xs : Bytes) : x11Rd32 lsb (p ++ xs) = x11Rd32 lsb p := by
  unfold x11Rd32
  rw [take_append_of_le_length h]

theorem x11Length_append (h : x11Length lsb bs = some (words, offset)) (xs : Bytes) :
    x11Length lsb (bs ++ xs) = some (words, offset) := by
  unfold x11Length at h ⊢
  by_cases h4 : bs.length < 4
  · rw [if_pos h4] at h
    cases h
  have hlen : (bs ++ xs).length = bs.length + xs.length := length_append
  have h16 : x11Rd16 lsb ((bs ++ xs).drop 2) = x11Rd16 lsb (bs.drop 2) := by
    rw [drop_append_of_le_length (by omega)]
    exact x11Rd16_append (by rw [length_drop]; omega) xs
  rw [if_neg h4] at h
  rw [if_neg (by omega), h16]
  by_cases hz : x11Rd16 lsb (bs.drop 2) ≠ 0
  · rw [if_pos hz] at h ⊢
    exact h
  rw [if_neg hz] at h ⊢
  by_cases h8 : bs.length < 8
  · rw [if_pos h8] at h
    cases h
  have h32 : x11Rd32 lsb ((bs ++ xs).drop 4) = x11Rd32 lsb (bs.drop 4) := by
    rw [drop_append_of_le_length (by omega)]
    exact x11Rd32_append (by rw [length_drop]; omega) xs
  rw [if_neg h8] at h
  rw [if_neg (by omega), h32]
  exact h

theorem x11Length_offset (h : x11Length lsb bs = some (words, offset)) :
    4 ≤ offset ∧ offset ≤ bs.length := by
  unfold x11Length at h
  split_ifs at h with h4 hz h8
  · cases h
    omega
  · cases h
    omega

theorem headD_drop_append {k : ℕ} (h : k < bs.length) (xs : Bytes) :
    ((bs ++ xs).drop k).headD 0 = (bs.drop k).headD 0 := by
  rw [drop_append_of_le_length h.le]
  cases hd : bs.drop k with
  | nil =>
    have := length_drop (i := k) (l := bs)
    rw [hd, length_nil] at this
    omega
  | cons b bs => rfl

theorem x11Front_cuts (lsb : Bool) : Cuts (x11Front lsb) where
  pos := by
    intro bs r n h
    unfold x11Front at h
    cases hl : x11Length lsb bs with
    | none =>
      rw [hl] at h
      cases h
    | some p =>
      obtain ⟨words, offset⟩ := p
      rw [hl] at h
      dsimp only at h
      have := x11Length_offset hl
      split_ifs at h with hbad
      cases h
      omega
  append := by
    intro bs r n h xs
    unfold x11Front at h ⊢
    cases hl : x11Length lsb bs with
    | none =>
      rw [hl] at h
      cases h
    | some p =>
      obtain ⟨words, offset⟩ := p
      rw [hl] at h
      rw [x11Length_append hl]
      dsimp only at h ⊢
      obtain ⟨hpos, hle⟩ := x11Length_offset hl
      split_ifs at h with hbad
      have hlen : (bs ++ xs).length = bs.length + xs.length := length_append
      have hhead : (bs ++ xs).headD 0 = bs.headD 0 := headD_drop_append (k := 0) (by omega) xs
      have hsecond : ((bs ++ xs).drop 1).headD 0 = (bs.drop 1).headD 0 :=
        headD_drop_append (by omega) xs
      rw [if_neg (by omega), hhead, hsecond, drop_append_of_le_length hle,
        take_append_of_le_length (by rw [length_drop]; omega)]
      exact h

/-! ### What a call does -/

namespace X11Conn

variable {c c' : X11Conn σ} {s s' : Sock} {dispatch : X11Request → σ → σ}

/-- The bytes that have arrived and have not been taken. -/
def waiting (c : X11Conn σ) (s : Sock) : Bytes := c.reqBuf ++ s.rx.contents

theorem grow_le {need : ℕ} (hneed : need ≤ x11MaxRequestBytes) (fuel nc : ℕ)
    (h : need ≤ nc * 2 ^ fuel) : need ≤ grow need fuel nc := by
  induction fuel generalizing nc with
  | zero =>
    rw [pow_zero, Nat.mul_one] at h
    exact h
  | succ fuel ih =>
    unfold grow
    split_ifs with hlt hbig
    · exact hneed
    · exact ih (2 * nc) (by rw [Nat.pow_succ'] at h; linarith)
    · omega

theorem reqbufReserve_cases (c : X11Conn σ) {need : ℕ} (h : need ≤ x11MaxRequestBytes)
    (malloc : Bool) : (∃ cap, c.reqbufReserve need malloc = .ok { c with reqCap := cap }) ∨
      malloc = false ∧ c.reqbufReserve need malloc = .error .enomem := by
  unfold reqbufReserve
  by_cases hcap : need ≤ c.reqCap
  · rw [if_pos hcap]
    exact .inl ⟨c.reqCap, rfl⟩
  rw [if_neg hcap, if_neg (by omega)]
  dsimp only
  have hgrow : need ≤ grow need 32 (if c.reqCap = 0 then 4096 else c.reqCap) := by
    refine grow_le h 32 _ ?_
    have hmax : x11MaxRequestBytes ≤ 1 * 2 ^ 32 := by decide
    have hone : 1 ≤ if c.reqCap = 0 then 4096 else c.reqCap := by split_ifs <;> omega
    have := Nat.mul_le_mul_right (2 ^ 32) hone
    omega
  rw [if_neg (by omega)]
  cases malloc with
  | false => exact .inr ⟨rfl, rfl⟩
  | true => exact .inl ⟨_, rfl⟩

theorem reqbufReserve_ok {need : ℕ} {malloc : Bool} (h : c.reqbufReserve need malloc = .ok c') :
    ∃ cap, c' = { c with reqCap := cap } := by
  unfold reqbufReserve at h
  dsimp only at h
  generalize (if c.reqCap = 0 then 4096 else c.reqCap) = nc at h
  split_ifs at h
  · cases h
    exact ⟨c.reqCap, rfl⟩
  · cases h
    exact ⟨_, rfl⟩

/-- Bytes have moved from the ring into the buffer, and nothing else has happened. -/
structure Moved (c : X11Conn σ) (s : Sock) (c' : X11Conn σ) (s' : Sock) : Prop where
  waiting : c'.waiting s' = c.waiting s
  lsb : c'.lsb = c.lsb
  sequence : c'.sequence = c.sequence
  screen : c'.screen = c.screen
  used : s'.used = s.used
  fits : s'.rx.used ≤ sockBufSize

theorem Moved.refl (h : s.rx.used ≤ sockBufSize) (c : X11Conn σ) : Moved c s c s :=
  ⟨rfl, rfl, rfl, rfl, rfl, h⟩

theorem Moved.trans {c'' : X11Conn σ} {s'' : Sock} (h : Moved c s c' s') (h' : Moved c' s' c'' s'') :
    Moved c s c'' s'' :=
  ⟨h'.waiting.trans h.waiting, h'.lsb.trans h.lsb, h'.sequence.trans h.sequence,
    h'.screen.trans h.screen, h'.used.trans h.used, h'.fits⟩

theorem moved_recv (h : s.rx.used ≤ sockBufSize) (n : ℕ) :
    Moved c s { c with reqBuf := c.reqBuf ++ Sock.taken (s.recvStream n).1 } (s.recvStream n).2 := by
  obtain ⟨htaken, hsock, hrest, hfits⟩ := Sock.recvStream_spec h n
  refine ⟨?_, rfl, rfl, rfl, by rw [hsock], hfits⟩
  unfold X11Conn.waiting
  rw [htaken, hrest, append_assoc, take_append_drop]

theorem moved_pullLoop (fuel used : ℕ) (h : s.rx.used ≤ sockBufSize) :
    Moved c s (pullLoop fuel used c s).1 (pullLoop fuel used c s).2 := by
  induction fuel generalizing used c s with
  | zero => exact .refl h c
  | succ fuel ih =>
    unfold pullLoop
    have hmove := moved_recv (c := c) h used
    dsimp only
    split_ifs with hzero hnone
    · exact .refl h c
    · rw [hnone, append_nil] at hmove
      exact hmove
    · exact hmove.trans (ih _ hmove.fits)

theorem pullLoop_zero (fuel : ℕ) : pullLoop fuel 0 c s = (c, s) := by
  cases fuel with
  | zero => rfl
  | succ fuel => rfl

theorem pullLoop_all (h : s.rx.used ≤ sockBufSize) (hpos : s.rx.used ≠ 0) :
    (pullLoop s.rx.used s.rx.used c s).1.reqBuf = c.waiting s := by
  obtain ⟨n, hn⟩ := Nat.exists_eq_succ_of_ne_zero hpos
  obtain ⟨htaken, -⟩ := Sock.recvStream_spec h s.rx.used
  have hall : Sock.taken (s.recvStream s.rx.used).1 = s.rx.contents := by
    rw [htaken, take_of_length_le (Ring.length_contents s.rx).le]
  have hlen := Ring.length_contents s.rx
  have hne : s.rx.contents ≠ [] := by
    intro hnil
    rw [hnil, length_nil] at hlen
    exact hpos hlen.symm
  have hround : pullLoop (n + 1) s.rx.used c s =
      pullLoop n (s.rx.used - s.rx.contents.length) { c with reqBuf := c.reqBuf ++ s.rx.contents }
        (s.recvStream s.rx.used).2 := by
    rw [pullLoop, if_neg hpos, hall]
    exact if_neg hne
  have hfuel : pullLoop s.rx.used s.rx.used c s = pullLoop (n + 1) s.rx.used c s := by rw [hn]
  rw [hfuel, hround, hlen, Nat.sub_self, pullLoop_zero]
  rfl

theorem moved_pull (h : s.rx.used ≤ sockBufSize) (malloc : Bool) :
    Moved c s (c.pullSocketRx s malloc).2.1 (c.pullSocketRx s malloc).2.2 := by
  unfold pullSocketRx
  dsimp only
  split_ifs
  · exact .refl h c
  · exact .refl h c
  · exact .refl h c
  · cases hr : c.reqbufReserve (c.reqBuf.length + s.rx.used % 2 ^ 16) malloc with
    | error e => exact .refl h c
    | ok c' =>
      obtain ⟨cap, rfl⟩ := reqbufReserve_ok hr
      have hmove := moved_pullLoop (c := { c with reqCap := cap }) (s.rx.used % 2 ^ 16)
        (s.rx.used % 2 ^ 16) h
      exact ⟨hmove.waiting, hmove.lsb, hmove.sequence, hmove.screen, hmove.used, hmove.fits⟩

/-- A ring that is not full, and that fits the limit with the buffer, is taken whole unless there is
no memory. -/
theorem pull_cases (hused : s.used = true) (h : s.rx.used < sockBufSize)
    (hfit : c.reqBuf.length + s.rx.used ≤ x11MaxRequestBytes) (malloc : Bool) :
    (c.pullSocketRx s malloc).1 = .ok () ∧ (c.pullSocketRx s malloc).2.1.reqBuf = c.waiting s ∨
      malloc = false ∧ (c.pullSocketRx s malloc).1 = .error .enomem := by
  have hmod : s.rx.used % 2 ^ 16 = s.rx.used := Nat.mod_eq_of_lt h
  unfold pullSocketRx
  rw [if_neg (by simp [hused]), hmod]
  dsimp only
  by_cases hzero : s.rx.used = 0
  · rw [if_pos hzero]
    refine .inl ⟨rfl, ?_⟩
    unfold waiting
    rw [Ring.contents_eq_nil hzero, append_nil]
  rw [if_neg hzero, if_neg (by omega)]
  rcases reqbufReserve_cases c hfit malloc with ⟨cap, hr⟩ | ⟨hm, hr⟩
  · rw [hr]
    exact .inl ⟨rfl, pullLoop_all (c := { c with reqCap := cap }) h.le hzero⟩
  · rw [hr]
    exact .inr ⟨hm, rfl⟩

/-- The request at the front is taken and handled. -/
structure Taken (dispatch : X11Request → σ → σ) (r : X11Request) (n : ℕ) (c c' : X11Conn σ) :
    Prop where
  reqBuf : c'.reqBuf = c.reqBuf.drop n
  lsb : c'.lsb = c.lsb
  sequence : c'.sequence = c.sequence + 1
  screen : c'.screen = dispatch r c.screen

/-- The call behind the pull, when the first request has no illegal length: it is taken if all of
it is there and there is memory for its body. -/
theorem parseRequest_cases (hlegal : ¬ X11Illegal c.lsb c.reqBuf) (dispatch : X11Request → σ → σ)
    (malloc : Bool) :
    (∃ r n, x11Front c.lsb c.reqBuf = some (r, n) ∧ (c.parseRequest dispatch malloc).1 = .ok r ∧
        Taken dispatch r n c (c.parseRequest dispatch malloc).2) ∨
      (∃ e, c.parseRequest dispatch malloc = (.error e, c) ∧
        (malloc = false ∨ x11Front c.lsb c.reqBuf = none)) := by
  have htake : ∀ words offset, x11Length c.lsb c.reqBuf = some (words, offset) →
      (∃ r n, x11Front c.lsb c.reqBuf = some (r, n) ∧
          (c.takeRequest dispatch malloc words offset).1 = .ok r ∧
          Taken dispatch r n c (c.takeRequest dispatch malloc words offset).2) ∨
        (∃ e, c.takeRequest dispatch malloc words offset = (.error e, c) ∧
          (malloc = false ∨ x11Front c.lsb c.reqBuf = none)) := by
    intro words offset hl
    have hok : ¬(4 * words < offset ∨ x11MaxRequestBytes < 4 * words) :=
      fun h => hlegal ⟨words, offset, hl, h⟩
    have hfront : x11Front c.lsb c.reqBuf =
        if c.reqBuf.length < 4 * words then none
        else some (⟨c.reqBuf.headD 0, (c.reqBuf.drop 1).headD 0,
          (c.reqBuf.drop offset).take (4 * words - offset)⟩, 4 * words) := by
      unfold x11Front
      rw [hl]
      dsimp only
      split_ifs with h1 h2 h3
      · rfl
      · omega
      · omega
      · rfl
    rw [hfront]
    unfold takeRequest
    dsimp only
    have hbig : ¬(4 * words > x11MaxRequestBytes ∨
        4 * words - offset > x11MaxRequestBytes - offset) := by omega
    by_cases hshort : c.reqBuf.length < 4 * words
    · rw [if_neg (show ¬ 4 * words < offset by omega), if_neg hbig, if_pos hshort, if_pos hshort]
      exact .inr ⟨_, rfl, .inr rfl⟩
    · rw [if_neg (show ¬ 4 * words < offset by omega), if_neg hbig, if_neg hshort, if_neg hshort]
      by_cases hmem : 4 * words - offset > 4096 ∧ malloc = false
      · rw [if_pos hmem]
        exact .inr ⟨_, rfl, .inl hmem.2⟩
      · rw [if_neg hmem]
        exact .inl ⟨_, _, rfl, rfl, rfl, rfl, rfl, rfl⟩
  unfold parseRequest
  by_cases h4 : c.reqBuf.length < 4
  · rw [if_pos h4]
    refine .inr ⟨_, rfl, .inr ?_⟩
    unfold x11Front x11Length
    rw [if_pos h4]
  rw [if_neg h4]
  dsimp only
  by_cases hz : x11Rd16 c.lsb (c.reqBuf.drop 2) = 0
  · rw [if_pos hz]
    by_cases h8 : c.reqBuf.length < 8
    · rw [if_pos h8]
      refine .inr ⟨_, rfl, .inr ?_⟩
      unfold x11Front x11Length
      rw [if_neg h4, if_neg (not_not.2 hz), if_pos h8]
    have hl : x11Length c.lsb c.reqBuf = some (x11Rd32 c.lsb (c.reqBuf.drop 4), 8) := by
      unfold x11Length
      rw [if_neg h4, if_neg (not_not.2 hz), if_neg h8]
    have hwords : ¬ x11Rd32 c.lsb (c.reqBuf.drop 4) < 2 :=
      fun h => hlegal ⟨_, _, hl, .inl (by omega)⟩
    rw [if_neg h8, if_neg hwords]
    exact htake _ _ hl
  · rw [if_neg hz]
    refine htake _ _ ?_
    unfold x11Length
    rw [if_neg h4, if_pos hz]

/-- What a call can go wrong on: a full ring, bytes beyond the limit of the buffer, and a first
request of an illegal length. -/
structure Meets (c : X11Conn σ) (s : Sock) : Prop where
  notFull : s.rx.used < sockBufSize
  fits : c.reqBuf.length + s.rx.used ≤ x11MaxRequestBytes
  legal : ¬ X11Illegal c.lsb (c.waiting s)

/-- **A call takes the request at the front of what waits**, or leaves all of it. -/
theorem processRequest_spec (hused : s.used = true) (h : Meets c s)
    (dispatch : X11Request → σ → σ) (mem : X11Alloc) :
    let p := c.processRequest dispatch mem s
    p.2.1.lsb = c.lsb ∧ p.2.2.used = s.used ∧ p.2.2.rx.used ≤ sockBufSize ∧
    ((∃ r n, x11Front c.lsb (c.waiting s) = some (r, n) ∧ p.1 = .ok r ∧
        p.2.1.waiting p.2.2 = (c.waiting s).drop n ∧ p.2.1.sequence = c.sequence + 1 ∧
        p.2.1.screen = dispatch r c.screen) ∨
      (∃ e, p.1 = .error e ∧ p.2.1.waiting p.2.2 = c.waiting s ∧ p.2.1.sequence = c.sequence ∧
        p.2.1.screen = c.screen ∧
        (mem.reqBuf = false ∨ mem.body = false ∨ x11Front c.lsb (c.waiting s) = none))) := by
  dsimp only
  have hmove := moved_pull (c := c) h.notFull.le mem.reqBuf
  have hpull := pull_cases hused h.notFull h.fits mem.reqBuf
  unfold processRequest
  revert hmove hpull
  generalize c.pullSocketRx s mem.reqBuf = p
  obtain ⟨e, c₁, s₁⟩ := p
  intro hmove hpull
  dsimp only at hmove hpull
  rcases hpull with ⟨rfl, hall⟩ | ⟨hmem, rfl⟩
  · dsimp only
    -- nothing is left in the ring, so that the buffer is all that waits
    have hempty : s₁.rx.contents = [] := by
      have hwait := hmove.waiting
      unfold waiting at hwait hall
      rw [hall] at hwait
      exact append_right_eq_self.1 hwait
    have hwait : c₁.reqBuf = c.waiting s := hall
    rcases parseRequest_cases (c := c₁) (by rw [hmove.lsb, hwait]; exact h.legal) dispatch mem.body
      with ⟨r, n, hfront, hr, htaken⟩ | ⟨e, hr, hwhy⟩
    · rw [hwait, hmove.lsb] at hfront
      refine ⟨htaken.lsb.trans hmove.lsb, hmove.used, hmove.fits, .inl ⟨r, n, hfront, hr, ?_, ?_, ?_⟩⟩
      · unfold waiting at hwait ⊢
        rw [htaken.reqBuf, hempty, append_nil, hwait]
      · rw [htaken.sequence, hmove.sequence]
      · rw [htaken.screen, hmove.screen]
    · rw [hr]
      rw [hwait, hmove.lsb] at hwhy
      exact ⟨hmove.lsb, hmove.used, hmove.fits,
        .inr ⟨e, rfl, hmove.waiting, hmove.sequence, hmove.screen, .inr hwhy⟩⟩
  · exact ⟨hmove.lsb, hmove.used, hmove.fits,
      .inr ⟨_, rfl, hmove.waiting, hmove.sequence, hmove.screen, .inl hmem⟩⟩

end X11Conn

end Ridux
