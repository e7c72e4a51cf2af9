import Ridux.X11.Framing

/-!
# The stream of an X11 client

Runs in which a client sends a setup and then requests, cut up in any way, and the server attaches
the socket and processes requests at any time.

* `x11SetupLen`, `initStreamConnection_spec`: a setup that is there is read whole;
* `X11Run`, `X11Op`: the runs;
* `X11Framed`: the requests that have been handled are the first of the stream, each once and in
  order, and the rest of the stream waits;
* `x11Run_framed`: it holds in every run without a setup that comes in pieces, a full ring, a full
  buffer and a request of an illegal length.
-/

namespace Ridux

open Lib List Option

/-! ### Setup -/

/-- How many bytes a setup has, when its header is there. -/
def x11SetupLen (bs : Bytes) : ℕ :=
  12 + pad4 (x11Rd16 (x11Lsb bs) (bs.drop 6)) + pad4 (x11Rd16 (x11Lsb bs) (bs.drop 8))

/-- A setup is there whole. -/
def X11SetupWhole (bs : Bytes) : Prop := 12 ≤ bs.length ∧ x11SetupLen bs ≤ bs.length

theorem x11Lsb_append {bs : Bytes} (h : 12 ≤ bs.length) (xs : Bytes) :
    x11Lsb (bs ++ xs) = x11Lsb bs := by
  have hhead : ((bs ++ xs).drop 0).headD 0 = (bs.drop 0).headD 0 := headD_drop_append (by omega) xs
  rw [drop_zero, drop_zero] at hhead
  rw [x11Lsb, hhead, x11Lsb]

theorem x11SetupLen_append {bs : Bytes} (h : 12 ≤ bs.length) (xs : Bytes) :
    x11SetupLen (bs ++ xs) = x11SetupLen bs := by
  have h16 : ∀ k ≤ 10, ∀ lsb, x11Rd16 lsb ((bs ++ xs).drop k) = x11Rd16 lsb (bs.drop k) := by
    intro k hk lsb
    rw [drop_append_of_le_length (by omega)]
    exact x11Rd16_append (by rw [length_drop]; omega) xs
  unfold x11SetupLen
  rw [x11Lsb_append h, h16 6 (by omega), h16 8 (by omega)]

variable {s : Sock} {chunk : ℕ}

/-- Bytes have been read from a socket, and nothing else has happened to it. -/
structure Skipped (n : ℕ) (s s' : Sock) : Prop where
  contents : s'.rx.contents = s.rx.contents.drop n
  used : s'.used = s.used
  fits : s'.rx.used ≤ sockBufSize

theorem skipped_recv (h : s.rx.used ≤ sockBufSize) (n : ℕ) : Skipped n s (s.recvStream n).2 := by
  obtain ⟨-, hsock, hrest, hfits⟩ := Sock.recvStream_spec h n
  exact ⟨hrest, by rw [hsock], hfits⟩

theorem skipped_sink (hchunk : 0 < chunk) {fuel left : ℕ} (hfuel : left ≤ fuel)
    (h : s.rx.used ≤ sockBufSize) : Skipped left s (x11Sink chunk fuel left s) := by
  induction fuel generalizing left s with
  | zero =>
    obtain rfl := Nat.le_zero.1 hfuel
    exact ⟨rfl, rfl, h⟩
  | succ fuel ih =>
    unfold x11Sink
    split_ifs with hleft
    · subst hleft
      exact ⟨rfl, rfl, h⟩
    · have hone := skipped_recv h (min left chunk)
      have hfuel' : left - min left chunk ≤ fuel := by omega
      have hrest := ih hfuel' hone.fits
      refine ⟨?_, hrest.used.trans hone.used, hrest.fits⟩
      rw [hrest.contents, hone.contents, drop_drop]
      congr 1
      omega

theorem skipped_auth (cap len : ℕ) (hchunk : 0 < chunk) (h : s.rx.used ≤ sockBufSize) :
    Skipped (pad4 len) s (x11ReadAuth cap chunk len s) := by
  unfold x11ReadAuth
  split_ifs with hzero hcap
  · subst hzero
    exact ⟨rfl, rfl, h⟩
  · exact skipped_recv h _
  · exact skipped_sink hchunk le_rfl h

theorem initStreamConnection_spec {σ : Type*} (h : s.rx.used ≤ sockBufSize)
    (hwhole : X11SetupWhole s.rx.contents) (screen : σ) : ∃ s',
      x11InitStreamConnection screen s = (some ⟨x11Lsb s.rx.contents, [], 0, 0, screen⟩, s') ∧
        Skipped (x11SetupLen s.rx.contents) s s' := by
  obtain ⟨htaken, -⟩ := Sock.recvStream_spec h 12
  have hfirst := skipped_recv h 12
  have hlen : (s.rx.contents.take 12).length = 12 := by
    rw [length_take]
    have := hwhole.1
    omega
  have hlsb : x11Lsb (s.rx.contents.take 12) = x11Lsb s.rx.contents := by
    have happ := x11Lsb_append hlen.ge (s.rx.contents.drop 12)
    rw [take_append_drop] at happ
    exact happ.symm
  have h16 : ∀ k ≤ 10, ∀ lsb,
      x11Rd16 lsb ((s.rx.contents.take 12).drop k) = x11Rd16 lsb (s.rx.contents.drop k) := by
    intro k hk lsb
    have hlong : 2 ≤ ((s.rx.contents.take 12).drop k).length := by rw [length_drop]; omega
    rw [← x11Rd16_append hlong (s.rx.contents.drop 12), ← drop_append_of_le_length (by omega),
      take_append_drop]
  unfold x11InitStreamConnection
  rw [htaken]
  dsimp only
  rw [if_neg (by omega), hlsb, h16 6 (by omega), h16 8 (by omega)]
  have hname := skipped_auth 16 (x11Rd16 (x11Lsb s.rx.contents) (s.rx.contents.drop 6))
    (show 0 < 64 by omega) hfirst.fits
  have hdata := skipped_auth 64 (x11Rd16 (x11Lsb s.rx.contents) (s.rx.contents.drop 8))
    (show 0 < 128 by omega) hname.fits
  refine ⟨_, rfl, ?_, ?_, hdata.fits⟩
  · rw [hdata.contents, hname.contents, hfirst.contents, drop_drop, drop_drop]
    congr 1
    unfold x11SetupLen
    omega
  · exact hdata.used.trans (hname.used.trans hfirst.used)

/-! ### Runs -/

variable {σ : Type*}

/-- A connection, its socket, the bytes that the client has sent and the requests that have been
handled. -/
structure X11Run (σ : Type*) where
  conn : Option (X11Conn σ)
  sock : Sock
  sent : Bytes
  handled : List X11Request

/-- The steps of a run: `sock_push_rx` for bytes of the client, `x11_attach_socket`, and
`x11_process_request`. -/
inductive X11Op
  | arrive (src : Bytes)
  | attach
  | process (mem : X11Alloc)

namespace X11Run

variable (dispatch : X11Request → σ → σ) (screen : σ)

/-- One step. -/
def exec (x : X11Run σ) : X11Op → X11Run σ
  | .arrive src =>
    { x with sock := (x.sock.pushRx src).2, sent := x.sent ++ src.take (x.sock.pushRx src).1 }
  | .attach =>
    match x.conn with
    | some _ => x
    | none =>
      { x with
        conn := (x11InitStreamConnection screen x.sock).1
        sock := (x11InitStreamConnection screen x.sock).2 }
  | .process mem =>
    match x.conn with
    | none => x
    | some c =>
      let p := c.processRequest dispatch mem x.sock
      { x with
        conn := some p.2.1
        sock := p.2.2
        handled :=
          match p.1 with
          | .ok r => x.handled ++ [r]
          | .error _ => x.handled }

/-- The steps on which the code does not go wrong. -/
def Meets (x : X11Run σ) : X11Op → Prop
  | .arrive _ => True
  | .attach => x.conn = none → X11SetupWhole x.sock.rx.contents
  | .process _ => ∀ c, x.conn = some c → c.Meets x.sock

/-- A connection before anything was sent. -/
structure Starts (x : X11Run σ) : Prop where
  conn : x.conn = none
  used : x.sock.used = true
  fits : x.sock.rx.used ≤ sockBufSize
  sent : x.sent = x.sock.rx.contents
  handled : x.handled = []

/-- What follows the setup in a stream. -/
def requests (x : X11Run σ) : Bytes := x.sent.drop (x11SetupLen x.sent)

/-- The requests that have been handled are the first of the stream, each once and in order, with
their own bodies; what follows them waits; and the connection has counted and handled them. -/
structure X11Framed (x : X11Run σ) : Prop where
  used : x.sock.used = true
  fits : x.sock.rx.used ≤ sockBufSize
  before : x.conn = none → x.sent = x.sock.rx.contents ∧ x.handled = []
  whole : x.conn ≠ none → X11SetupWhole x.sent
  lsb : ∀ c, x.conn = some c → c.lsb = x11Lsb x.sent
  reads : ∀ c, x.conn = some c →
    Reads (x11Front c.lsb) x.requests x.handled (c.waiting x.sock)
  sequence : ∀ c, x.conn = some c → c.sequence = BitVec.ofNat 16 x.handled.length
  screen : ∀ c, x.conn = some c → c.screen = x.handled.foldl (fun w r => dispatch r w) screen

variable {dispatch screen} {x : X11Run σ}

theorem Starts.framed (h : x.Starts) : X11Framed dispatch screen x where
  used := h.used
  fits := h.fits
  before _ := ⟨h.sent, h.handled⟩
  whole hc := absurd h.conn hc
  lsb c hc := by rw [h.conn] at hc; cases hc
  reads c hc := by rw [h.conn] at hc; cases hc
  sequence c hc := by rw [h.conn] at hc; cases hc
  screen c hc := by rw [h.conn] at hc; cases hc

theorem X11Framed.arrive (h : X11Framed dispatch screen x) (src : Bytes) :
    X11Framed dispatch screen (x.exec dispatch screen (.arrive src)) := by
  obtain ⟨hcontents, hfits⟩ := Sock.contents_pushRx h.fits src
  have hused : (x.sock.pushRx src).2.used = x.sock.used := rfl
  unfold exec
  dsimp only
  -- the bytes that the ring takes
  generalize (x.sock.pushRx src).1 = n at hcontents ⊢
  generalize x.sock.pushRx src = p at hcontents hfits hused ⊢
  have hgoes : ∀ c, x.conn = some c →
      x11Lsb (x.sent ++ src.take n) = x11Lsb x.sent ∧
        (x.sent ++ src.take n).drop (x11SetupLen (x.sent ++ src.take n)) =
          x.requests ++ src.take n := by
    intro c hc
    obtain ⟨hhdr, hall⟩ := h.whole (by rw [hc]; simp)
    refine ⟨x11Lsb_append hhdr _, ?_⟩
    rw [x11SetupLen_append hhdr, drop_append_of_le_length hall]
    rfl
  refine ⟨hused.trans h.used, hfits, fun hc => ?_, fun hc => ?_, fun c hc => ?_, fun c hc => ?_,
    h.sequence, h.screen⟩
  · rw [hcontents, (h.before hc).1]
    exact ⟨rfl, (h.before hc).2⟩
  · obtain ⟨hhdr, hall⟩ := h.whole hc
    refine ⟨by simp; omega, ?_⟩
    rw [x11SetupLen_append hhdr, length_append]
    omega
  · exact (h.lsb c hc).trans (hgoes c hc).1.symm
  · show Reads (x11Front c.lsb) ((x.sent ++ src.take n).drop (x11SetupLen (x.sent ++ src.take n)))
      x.handled (c.waiting p.2)
    have hwait : c.waiting p.2 = c.waiting x.sock ++ src.take n := by
      unfold X11Conn.waiting
      rw [hcontents, append_assoc]
    rw [(hgoes c hc).2, hwait]
    exact (h.reads c hc).arrive _

theorem X11Framed.attach (h : X11Framed dispatch screen x) (hmeets : x.Meets .attach) :
    X11Framed dispatch screen (x.exec dispatch screen .attach) := by
  unfold exec
  cases hc : x.conn with
  | some c =>
    dsimp only
    exact h
  | none =>
    obtain ⟨hsent, hhandled⟩ := h.before hc
    have hwhole := hmeets hc
    obtain ⟨s', hinit, hskip⟩ := initStreamConnection_spec h.fits hwhole screen
    dsimp only
    rw [hinit]
    rw [← hsent] at hwhole hskip ⊢
    refine ⟨hskip.used.trans h.used, hskip.fits, nofun, fun _ => hwhole, fun c hc => ?_,
      fun c hc => ?_, fun c hc => ?_, fun c hc => ?_⟩
    · cases hc
      rfl
    · cases hc
      have hwait : X11Conn.waiting ⟨x11Lsb x.sent, [], 0, 0, screen⟩ s' = x.requests := by
        unfold X11Conn.waiting requests
        rw [hskip.contents, ← hsent]
        rfl
      rw [hwait, hhandled]
      exact .refl _ _
    · cases hc
      rw [hhandled]
      rfl
    · cases hc
      rw [hhandled]
      rfl

theorem X11Framed.process (h : X11Framed dispatch screen x) {mem : X11Alloc}
    (hmeets : x.Meets (.process mem)) :
    X11Framed dispatch screen (x.exec dispatch screen (.process mem)) := by
  unfold exec
  cases hc : x.conn with
  | none =>
    dsimp only
    exact h
  | some c =>
    obtain ⟨hlsb, hused, hfits, hcase⟩ :=
      X11Conn.processRequest_spec h.used (hmeets c hc) dispatch mem
    dsimp only
    refine ⟨hused.trans h.used, hfits, nofun, fun _ => h.whole (by rw [hc]; simp), ?_, ?_, ?_, ?_⟩
    all_goals
      intro c' hc'
      obtain rfl := some.inj hc'
    · exact hlsb.trans (h.lsb c hc)
    all_goals rcases hcase with ⟨r, n, hfront, hr, hwait, hseq, hscreen⟩ |
      ⟨e, hr, hwait, hseq, hscreen, -⟩
    all_goals rw [hr]
    · dsimp only
      rw [hlsb, hwait]
      exact (h.reads c hc).take (x11Front_cuts c.lsb) hfront
    · dsimp only
      rw [hlsb, hwait]
      exact h.reads c hc
    · dsimp only
      rw [hseq, h.sequence c hc, length_append, BitVec.ofNat_add]
      rfl
    · exact hseq.trans (h.sequence c hc)
    · dsimp only
      rw [hscreen, h.screen c hc, foldl_append]
      rfl
    · exact hscreen.trans (h.screen c hc)

theorem X11Framed.exec (h : X11Framed dispatch screen x) {op : X11Op} (hmeets : x.Meets op) :
    X11Framed dispatch screen (x.exec dispatch screen op) := by
  cases op with
  | arrive src => exact h.arrive src
  | attach => exact h.attach hmeets
  | process mem => exact h.process hmeets

/-- For every stream of a client, every way it arrives and every order of the server's calls on which
the code does not go wrong: the requests are handled in order, each once and with its own body, and
are counted; a call with memory handles the next one that is there, and when none is there all have
been handled; and a call that handles none loses no byte. -/
theorem x11Run_framed {x₀ : X11Run σ} (hstart : x₀.Starts)
    (hrun : Runs Meets (exec dispatch screen) x₀ x) :
    X11Framed dispatch screen x ∧
      ∀ c, x.conn = some c → c.Meets x.sock → ∀ mem : X11Alloc,
        let y := x.exec dispatch screen (.process mem)
        (∀ r n, x11Front c.lsb (c.waiting x.sock) = some (r, n) → mem.reqBuf = true →
          mem.body = true → y.handled = x.handled ++ [r]) ∧
        (x11Front c.lsb (c.waiting x.sock) = none →
          decode (x11Front c.lsb) x.requests = x.handled) ∧
        (y.handled = x.handled → ∀ c', y.conn = some c' →
          c'.waiting y.sock = c.waiting x.sock) := by
  have hframed : X11Framed dispatch screen x :=
    hrun.invariant (P := X11Framed dispatch screen) (fun _ _ h hop => h.exec hop) hstart.framed
  refine ⟨hframed, fun c hc hmeets mem => ?_⟩
  obtain ⟨-, -, -, hcase⟩ := X11Conn.processRequest_spec hframed.used hmeets dispatch mem
  have hexec : x.exec dispatch screen (.process mem) =
      { x with
        conn := some (c.processRequest dispatch mem x.sock).2.1
        sock := (c.processRequest dispatch mem x.sock).2.2
        handled :=
          match (c.processRequest dispatch mem x.sock).1 with
          | .ok r => x.handled ++ [r]
          | .error _ => x.handled } := by
    unfold exec
    dsimp only
    rw [hc]
  dsimp only
  rw [hexec]
  refine ⟨fun r n hfront hbuf hbody => ?_, fun hnone => (hframed.reads c hc).eq hnone, ?_⟩
  · rcases hcase with ⟨r', n', hfront', hr, -⟩ | ⟨e, -, -, -, -, hwhy⟩
    · obtain ⟨rfl, -⟩ := Prod.mk.inj (some.inj (hfront.symm.trans hfront'))
      rw [hr]
    · rw [hbuf, hbody, hfront] at hwhy
      simp at hwhy
  · rcases hcase with ⟨r, n, -, hr, -⟩ | ⟨e, -, hwait, -⟩
    · rw [hr]
      simp
    · intro _ c' hc'
      obtain rfl := some.inj hc'
      exact hwait

/-! ### Two streams -/

/-- A connected stream of the server on which nothing has arrived. -/
def idle : X11Run Unit := ⟨none, { Sock.fresh 1 1 0 with tcpState := .established }, [], []⟩

/-- A setup with the most significant byte first and without strings. -/
def setup : Bytes := [0x42, 0, 0, 11, 0, 0, 0, 0, 0, 0, 0, 0]

/-- The client has sent a setup and other bytes, and the server has attached the socket. -/
def attached (src : Bytes) : X11Run Unit :=
  (idle.exec (fun _ => id) () (.arrive (setup ++ src))).exec (fun _ => id) () .attach

theorem idle_starts : idle.Starts where
  conn := rfl
  used := rfl
  fits := by decide
  sent := (Ring.contents_eq_nil (by decide)).symm
  handled := rfl

/-- A request without a body is handled. -/
theorem x11Run_framed_request :
    ((attached [1, 0, 0, 1]).exec (fun _ => id) () (.process ⟨true, true⟩)).handled =
      [⟨1, 0, []⟩] := by
  have hrun : Runs Meets (exec (fun _ => id) ()) idle (attached [1, 0, 0, 1]) := by
    have harrive : Runs Meets (exec (fun _ => id) ()) idle
        (idle.exec (fun _ => id) () (.arrive (setup ++ [1, 0, 0, 1]))) :=
      (Runs.refl idle).tail _ trivial
    refine harrive.tail X11Op.attach fun _ => ?_
    exact ⟨by decide +kernel, by decide +kernel⟩
  have hconn : (attached [1, 0, 0, 1]).conn = some ⟨false, [], 0, 0, ()⟩ := rfl
  have hfront : x11Front false (X11Conn.waiting ⟨false, [], 0, 0, ()⟩ (attached [1, 0, 0, 1]).sock) =
      some (⟨1, 0, []⟩, 4) := by decide +kernel
  have hlegal : ¬ X11Illegal false
      (X11Conn.waiting ⟨false, [], 0, 0, ()⟩ (attached [1, 0, 0, 1]).sock) := by
    rintro ⟨words, offset, hl, hbad⟩
    have hlen : x11Length false
        (X11Conn.waiting ⟨false, [], 0, 0, ()⟩ (attached [1, 0, 0, 1]).sock) = some (1, 4) := by
      decide +kernel
    obtain ⟨rfl, rfl⟩ := Prod.mk.inj (some.inj (hl.symm.trans hlen))
    exact absurd hbad (by decide)
  exact ((x11Run_framed idle_starts hrun).2 _ hconn
    ⟨by decide +kernel, by decide +kernel, hlegal⟩ ⟨true, true⟩).1 _ _ hfront rfl rfl

/-- A request of 64 MiB is refused, and the length in its own header is handled as a request. -/
theorem x11Run_not_framed : ¬ ∀ x₀ x : X11Run Unit, x₀.Starts →
    Runs (fun _ _ => True) (exec (fun _ => id) ()) x₀ x → X11Framed (fun _ => id) () x := by
  intro h
  have hrun : Runs (fun _ _ => True) (exec (fun _ => id) ()) idle
      (((attached [127, 0, 0, 0, 1, 0, 0, 1]).exec (fun _ => id) () (.process ⟨true, true⟩)).exec
        (fun _ => id) () (.process ⟨true, true⟩)) :=
    ((((Runs.refl idle).tail (X11Op.arrive (setup ++ [127, 0, 0, 0, 1, 0, 0, 1])) trivial).tail
      X11Op.attach trivial).tail (X11Op.process ⟨true, true⟩) trivial).tail
      (X11Op.process ⟨true, true⟩) trivial
  have hframed := h _ _ idle_starts hrun
  generalize hx : ((attached [127, 0, 0, 0, 1, 0, 0, 1]).exec (fun _ => id) ()
    (.process ⟨true, true⟩)).exec (fun _ => id) () (.process ⟨true, true⟩) = x at hframed
  have hhandled : x.handled = [⟨1, 0, []⟩] := by
    rw [← hx]
    decide +kernel
  have hrequests : x.requests = [127, 0, 0, 0, 1, 0, 0, 1] := by
    rw [← hx]
    decide +kernel
  cases hc : x.conn with
  | none =>
    rw [(hframed.before hc).2] at hhandled
    cases hhandled
  | some c =>
    have hlsb : c.lsb = false := by
      rw [hframed.lsb c hc, ← hx]
      decide +kernel
    have hprefix := (hframed.reads c hc).isPrefix
    have hnone : x11Front false [127, 0, 0, 0, 1, 0, 0, 1] = none := by decide +kernel
    rw [hhandled, hrequests, hlsb, decode_of_none hnone] at hprefix
    exact absurd (prefix_nil.1 hprefix) (by simp)

end X11Run

end Ridux
