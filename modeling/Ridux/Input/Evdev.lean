import Mathlib.Data.List.Induction
import Ridux.Lib.Circular
import Ridux.Lib.Reports

/-!
# Events of the keyboard and the mouse

* `Evdev`: the rings of `g_evdev_kbd` and `g_evdev_mouse`, and the time of the last event;
* `Evdev.pushEventRaw`, and the reports that `evdevPushKey` and the others push with it;
* `Evdev.devinputRead`;
* `EvdevRun.Complete`: a reader gets whole reports, and the release of every key whose press it gets;
* `evdev_reports_complete`: exactly as long as no report finds room for a part of it only, and none that
  releases a key finds no room.

Who is woken when a report ends is not part of the model.
-/

namespace Ridux

open Lib Function List Option

def inputEventRing : ℕ := 512

/-- What an event says: its type, its code and its value. -/
structure Ev where
  type : BitVec 16
  code : BitVec 16
  value : BitVec 32
  deriving DecidableEq

/-- `EV_KEY` and `EV_REL`, and `SYN_REPORT`, which ends a report. -/
def evKey (code : BitVec 16) (value : BitVec 32) : Ev := ⟨0x01, code, value⟩

def evRel (code : BitVec 16) (value : BitVec 32) : Ev := ⟨0x02, code, value⟩

def synReport : Ev := ⟨0x00, 0x00, 0⟩

/-- `input_event_t`. -/
structure InputEvent where
  timeSec : BitVec 64
  timeUsec : BitVec 64
  ev : Ev

/-- The size of an `input_event_t`. -/
def inputEventSize : ℕ := 24

/-- The two devices with a ring. -/
inductive EvdevDev
  | kbd | mouse
  deriving DecidableEq

/-- The rings, and `g_evdev_time_usec`. -/
structure Evdev where
  ring : EvdevDev → Circular InputEvent inputEventRing
  timeUsec : BitVec 64

namespace Evdev

/-- `evdev_init`. -/
def init : Evdev := ⟨fun _ => ⟨fun _ => ⟨0, 0, synReport⟩, 0, 0⟩, 0⟩

/-! ### Pushing -/

/-- `evdev_push_event_raw`, when `evdev_now_usec` says `now`. -/
def pushEventRaw (s : Evdev) (d : EvdevDev) (ev : Ev) (now : BitVec 64) : Evdev :=
  if Circular.succ inputEventRing (s.ring d).head = (s.ring d).tail then s
  else
    let usec := if now ≤ s.timeUsec then s.timeUsec + 1 else now
    { ring := update s.ring d ((s.ring d).put ⟨usec / 1000000, usec % 1000000, ev⟩)
      timeUsec := usec }

/-- Events pushed one after another; `clock i` is the time at the `i`-th. -/
def pushEvents (s : Evdev) (d : EvdevDev) (clock : ℕ → BitVec 64) : List Ev → ℕ → Evdev
  | [], _ => s
  | ev :: evs, i => pushEvents (s.pushEventRaw d ev (clock i)) d clock evs (i + 1)

def evdevPushKey (s : Evdev) (code : BitVec 16) (value : BitVec 32) (clock : ℕ → BitVec 64) : Evdev :=
  s.pushEvents .kbd clock [evKey code value, synReport] 0

def evdevPushMouseKey (s : Evdev) (code : BitVec 16) (value : BitVec 32) (clock : ℕ → BitVec 64) : Evdev :=
  s.pushEvents .mouse clock [evKey code value, synReport] 0

def evdevPushRel (s : Evdev) (code : BitVec 16) (value : BitVec 32) (clock : ℕ → BitVec 64) : Evdev :=
  s.pushEvents .mouse clock [evRel code value, synReport] 0

/-- What a movement says: its directions, where there is one. -/
def relXy (dx dy : BitVec 32) : List Ev :=
  (if dx ≠ 0 then [evRel 0 dx] else []) ++ (if dy ≠ 0 then [evRel 1 dy] else [])

def evdevPushRelXy (s : Evdev) (dx dy : BitVec 32) (clock : ℕ → BitVec 64) : Evdev :=
  s.pushEvents .mouse clock (relXy dx dy ++ [synReport]) 0

/-! ### Reading -/

/-- The loop of `c3_devinput_read` with so many turns left: `n` events are out. A read of the mouse stops
at `hard` events, and behind `soft` events at the end of a report. -/
def readLoop (mouse : Bool) (soft hard : ℕ) :
    ℕ → ℕ → Circular InputEvent inputEventRing → List InputEvent × Circular InputEvent inputEventRing
  | 0, _, q => ([], q)
  | k + 1, n, q =>
    if q.tail = q.head ∨ mouse ∧ hard ≤ n then ([], q)
    else
      let e := q.slots q.tail
      let endReport := e.ev.type = synReport.type ∧ e.ev.code = synReport.code
      if mouse ∧ soft ≤ n + 1 ∧ endReport then ([e], q.next)
      else (e :: (readLoop mouse soft hard k (n + 1) q.next).1, (readLoop mouse soft hard k (n + 1) q.next).2)

/-- What a read returns. -/
inductive ReadResult
  | eagain | einval
  | events (es : List InputEvent)

/-- The events that a read hands out. -/
def ReadResult.given : ReadResult → List InputEvent
  | .events es => es
  | _ => []

/-- The device of a descriptor kind. -/
def devinputDev (ref : ℤ) : EvdevDev := if ref = 1 then .mouse else .kbd

/-- `c3_devinput_read` of the descriptor kind `ref`; there is no result while the call waits. -/
def devinputRead (s : Evdev) (ref : ℤ) (count : ℕ) (nonblock : Bool) : Option (ReadResult × Evdev) :=
  let cap := count / inputEventSize
  if ref = 2 then some (if nonblock then .eagain else .events [], s)
  else if cap = 0 then some (.einval, s)
  else
    let mouse := decide (ref = 1)
    let d := devinputDev ref
    if (s.ring d).tail = (s.ring d).head then if nonblock then some (.eagain, s) else none
    else
      let soft := if mouse ∧ 24 < cap then 24 else cap
      let hard := if mouse ∧ 24 < cap then min cap 48 else cap
      let r := readLoop mouse soft hard cap 0 (s.ring d)
      some (.events r.1, { s with ring := update s.ring d r.2 })

end Evdev

/-! ### Runs -/

/-- An event that ends no report. -/
abbrev BodyEv := {ev : Ev // ev.type ≠ synReport.type}

/-- What the drivers and the readers do.  A `raw` report is a sequence of calls of `evdev_push_event_raw`
that ends with its `SYN_REPORT`. -/
inductive EvdevOp
  | raw (d : EvdevDev) (body : List BodyEv) (clock : ℕ → BitVec 64)
  | key (code : BitVec 16) (value : BitVec 32) (clock : ℕ → BitVec 64)
  | mouseKey (code : BitVec 16) (value : BitVec 32) (clock : ℕ → BitVec 64)
  | rel (code : BitVec 16) (value : BitVec 32) (clock : ℕ → BitVec 64)
  | relXy (dx dy : BitVec 32) (clock : ℕ → BitVec 64)
  | read (ref : ℤ) (count : ℕ) (nonblock : Bool)

/-- The report that an operation pushes, and where. -/
def EvdevOp.report : EvdevOp → Option (EvdevDev × List Ev)
  | .raw d body _ => some (d, body.map Subtype.val ++ [synReport])
  | .key code value _ => some (.kbd, [evKey code value, synReport])
  | .mouseKey code value _ => some (.mouse, [evKey code value, synReport])
  | .rel code value _ => some (.mouse, [evRel code value, synReport])
  | .relXy dx dy _ => some (.mouse, Evdev.relXy dx dy ++ [synReport])
  | .read _ _ _ => none

/-- The rings, the events that readers have got, and the reports that were pushed. -/
structure EvdevRun where
  dev : Evdev
  got : EvdevDev → List InputEvent
  pushed : EvdevDev → List (List Ev)

/-- The key and the value of a key event. -/
def Ev.key (e : Ev) : Option (BitVec 16 × BitVec 32) :=
  if e.type = 0x01 then some (e.code, e.value) else none

namespace EvdevRun

/-- Nothing has happened. -/
def start : EvdevRun := ⟨.init, fun _ => [], fun _ => []⟩

/-- The rings after an operation. -/
def execDev (s : EvdevRun) : EvdevOp → Evdev
  | .raw d body clock => s.dev.pushEvents d clock (body.map Subtype.val ++ [synReport]) 0
  | .key code value clock => s.dev.evdevPushKey code value clock
  | .mouseKey code value clock => s.dev.evdevPushMouseKey code value clock
  | .rel code value clock => s.dev.evdevPushRel code value clock
  | .relXy dx dy clock => s.dev.evdevPushRelXy dx dy clock
  | .read ref count nonblock => ((s.dev.devinputRead ref count nonblock).map Prod.snd).getD s.dev

/-- What a read returns, from which device. -/
def out (s : EvdevRun) : EvdevOp → EvdevDev → List InputEvent
  | .read ref count nonblock, d =>
    if d = Evdev.devinputDev ref then ((s.dev.devinputRead ref count nonblock).map (·.1.given)).getD [] else []
  | _, _ => []

/-- One operation. -/
def exec (s : EvdevRun) (op : EvdevOp) : EvdevRun where
  dev := s.execDev op
  got d := s.got d ++ s.out op d
  pushed d := s.pushed d ++ (op.report.toList.filter (·.1 = d)).map Prod.snd

def run (s : EvdevRun) (ops : List EvdevOp) : EvdevRun := ops.foldl exec s

/-- What readers have got from a device, and will get next. -/
def stream (s : EvdevRun) (d : EvdevDev) : List Ev :=
  (s.got d).map InputEvent.ev ++ (s.dev.ring d).contents.map InputEvent.ev

/-- The readers get whole reports in order, and no key stays down that was released. -/
def Complete (s : EvdevRun) : Prop := ∀ d, Delivered Ev.key 0 (s.pushed d) (s.stream d)

/-- A report finds room, or it finds none and releases no key that is down. -/
def Fits (s : EvdevRun) (op : EvdevOp) : Prop :=
  ∀ d r, op.report = some (d, r) → r.length ≤ (s.dev.ring d).room ∨
    (s.dev.ring d).room = 0 ∧ ∀ c v, lastOf Ev.key r c = some 0 →
      lastOf Ev.key (s.stream d) c = some v → v = 0

/-- Every report of a run fits. -/
def PushesFit : EvdevRun → List EvdevOp → Prop
  | _, [] => True
  | s, op :: ops => s.Fits op ∧ PushesFit (s.exec op) ops

end EvdevRun

/-! ### One push -/

namespace Evdev

/-- Both rings are in order. -/
def Ok (s : Evdev) : Prop := ∀ d, (s.ring d).Ok

variable {s s' : Evdev} {d : EvdevDev}

/-- What is queued for a reader of a device. -/
def queued (s : Evdev) (d : EvdevDev) : List Ev := (s.ring d).contents.map InputEvent.ev

theorem ok_init : init.Ok := fun _ => ⟨Nat.zero_lt_succ _, Nat.zero_lt_succ _⟩

theorem queued_init (d : EvdevDev) : init.queued d = [] := by
  have hnil : (init.ring d).contents = [] := (ok_init d).contents_eq_nil.2 rfl
  rw [queued, hnil]
  rfl

theorem pushEventRaw_of_room (d : EvdevDev) (ev : Ev) (now : BitVec 64)
    (hfull : Circular.succ inputEventRing (s.ring d).head ≠ (s.ring d).tail) : ∃ e : InputEvent, e.ev = ev ∧
      (s.pushEventRaw d ev now).ring = update s.ring d ((s.ring d).put e) := by
  unfold pushEventRaw
  rw [if_neg hfull]
  exact ⟨_, rfl, rfl⟩

/-- **One event** goes to the end of its ring, if there is room. -/
theorem pushEventRaw_spec (h : s.Ok) (d : EvdevDev) (ev : Ev) (now : BitVec 64) :
    (s.pushEventRaw d ev now).Ok ∧
      (s.pushEventRaw d ev now).queued d = s.queued d ++ [ev].take (s.ring d).room ∧
      ((s.pushEventRaw d ev now).ring d).room = (s.ring d).room - 1 ∧
      ∀ d' ≠ d, (s.pushEventRaw d ev now).ring d' = s.ring d' := by
  by_cases hfull : Circular.succ inputEventRing (s.ring d).head = (s.ring d).tail
  · have hroom := (h d).full_iff.1 hfull
    have hsame : s.pushEventRaw d ev now = s := if_pos hfull
    simp [hsame, h, hroom]
  · obtain ⟨e, he, hring⟩ := pushEventRaw_of_room d ev now hfull
    have hroom := (h d).room_put e hfull
    unfold Ok queued
    rw [hring]
    refine ⟨fun d' => ?_, ?_, ?_, fun d' hd => update_of_ne hd ..⟩
    · by_cases hd : d' = d
      · subst hd
        simpa using (h d').put e
      · simpa [hd] using h d'
    · rw [update_self, (h d).contents_put e hfull, map_append,
        take_of_length_le (l := [ev]) (by rw [length_singleton]; omega)]
      simp [he]
    · rw [update_self]
      omega

/-- **Events** go to the end of their ring, as many as there is room for. -/
theorem pushEvents_spec (h : s.Ok) (d : EvdevDev) (clock : ℕ → BitVec 64) (evs : List Ev) (i : ℕ) :
    (s.pushEvents d clock evs i).Ok ∧
      (s.pushEvents d clock evs i).queued d = s.queued d ++ evs.take (s.ring d).room ∧
      ((s.pushEvents d clock evs i).ring d).room = (s.ring d).room - evs.length ∧
      ∀ d' ≠ d, (s.pushEvents d clock evs i).ring d' = s.ring d' := by
  induction evs generalizing s i with
  | nil => simp [pushEvents, h]
  | cons ev evs ih =>
    obtain ⟨hok, hqueued, hroom, hother⟩ := pushEventRaw_spec h d ev (clock i)
    obtain ⟨hok', hqueued', hroom', hother'⟩ := ih hok (i + 1)
    refine ⟨hok', ?_, ?_, fun d' hd => (hother' d' hd).trans (hother d' hd)⟩
    · rw [pushEvents, hqueued', hqueued, hroom, append_assoc]
      cases (s.ring d).room <;> simp
    · rw [pushEvents, hroom', hroom, length_cons]
      omega

/-! ### One read -/

theorem readLoop_spec (mouse : Bool) (soft hard k n : ℕ) {q : Circular InputEvent inputEventRing}
    (h : q.Ok) : ∃ m ≤ k, (readLoop mouse soft hard k n q).1 = q.contents.take m ∧
      (readLoop mouse soft hard k n q).2.contents = q.contents.drop m ∧
      (readLoop mouse soft hard k n q).2.Ok := by
  induction k generalizing n q with
  | zero => exact ⟨0, le_rfl, rfl, rfl, h⟩
  | succ k ih =>
    unfold readLoop
    split_ifs with hstop
    · exact ⟨0, Nat.zero_le _, rfl, rfl, h⟩
    have hne : q.head ≠ q.tail := fun he => hstop (.inl he.symm)
    dsimp only
    split_ifs
    -- the end of a report
    · refine ⟨1, by omega, ?_, ?_, h.next⟩ <;> simp [h.contents_cons hne]
    · obtain ⟨m, hm, hout, hrest, hok⟩ := ih (n + 1) h.next
      exact ⟨m + 1, by omega, by simp [h.contents_cons hne, hout], by simp [h.contents_cons hne, hrest], hok⟩

theorem drained_spec (h : s.Ok) (d : EvdevDev) (mouse : Bool) (soft hard k : ℕ)
    (hs : s' = { s with ring := update s.ring d (readLoop mouse soft hard k 0 (s.ring d)).2 }) :
    s'.Ok ∧ s.queued d = (readLoop mouse soft hard k 0 (s.ring d)).1.map InputEvent.ev ++ s'.queued d ∧
      ∀ d' ≠ d, s'.ring d' = s.ring d' := by
  obtain ⟨m, -, hout, hrest, hok⟩ := readLoop_spec mouse soft hard k 0 (h d)
  subst hs
  refine ⟨fun d' => ?_, ?_, fun d' hd => update_of_ne hd ..⟩
  · by_cases hd : d' = d
    · subst hd
      simpa using hok
    · simpa [hd] using h d'
  · simp [queued, hout, hrest]

/-- **A read** hands out the oldest events of its device, and leaves the others. -/
theorem devinputRead_spec {ref : ℤ} {count : ℕ} {nonblock : Bool} {r : ReadResult} (h : s.Ok)
    (hr : s.devinputRead ref count nonblock = some (r, s')) :
    s'.Ok ∧ s.queued (devinputDev ref) = r.given.map InputEvent.ev ++ s'.queued (devinputDev ref) ∧
      ∀ d ≠ devinputDev ref, s'.ring d = s.ring d := by
  unfold devinputRead at hr
  dsimp only at hr
  split_ifs at hr
  -- the calls that return before the loop
  any_goals
    obtain ⟨rfl, rfl⟩ := Prod.mk.inj (some.inj hr)
    exact ⟨h, rfl, fun _ _ => rfl⟩
  all_goals
    obtain ⟨rfl, hs⟩ := Prod.mk.inj (some.inj hr)
    exact drained_spec h _ _ _ _ _ hs.symm

end Evdev

namespace EvdevRun

variable {s : EvdevRun} {op : EvdevOp} {d : EvdevDev} {r : List Ev}

/-! ### One operation -/

theorem execDev_eq (h : op.report = some (d, r)) :
    ∃ clock, s.execDev op = s.dev.pushEvents d clock r 0 ∧ ∀ d', s.out op d' = [] := by
  cases op with
  | read => cases h
  | _ =>
    obtain ⟨rfl, rfl⟩ := Prod.mk.inj (some.inj h)
    exact ⟨_, rfl, fun _ => rfl⟩

theorem report_of (h : op.report = some (d, r)) : Report synReport r := by
  cases op with
  | read => cases h
  | raw d body clock =>
    obtain ⟨rfl, rfl⟩ := Prod.mk.inj (some.inj h)
    refine ⟨body.map Subtype.val, ?_, rfl⟩
    intro hmem
    obtain ⟨⟨ev, hev⟩, -, rfl⟩ := mem_map.1 hmem
    exact hev rfl
  | relXy dx dy clock =>
    obtain ⟨rfl, rfl⟩ := Prod.mk.inj (some.inj h)
    refine ⟨Evdev.relXy dx dy, ?_, rfl⟩
    unfold Evdev.relXy
    split_ifs <;> simp [evRel, synReport]
  | _ =>
    obtain ⟨rfl, rfl⟩ := Prod.mk.inj (some.inj h)
    exact ⟨[_], by simp [evKey, evRel, synReport], rfl⟩

/-- **A report** ends its device's stream, as much of it as there is room for. -/
theorem exec_report (hok : s.dev.Ok) (h : op.report = some (d, r)) :
    (s.exec op).dev.Ok ∧ (s.exec op).stream d = s.stream d ++ r.take (s.dev.ring d).room ∧
      (s.exec op).pushed d = s.pushed d ++ [r] ∧
      ∀ d' ≠ d, (s.exec op).stream d' = s.stream d' ∧ (s.exec op).pushed d' = s.pushed d' := by
  obtain ⟨clock, hdev, hout⟩ := execDev_eq (s := s) h
  obtain ⟨hok', hqueued, -, hother⟩ := Evdev.pushEvents_spec hok d clock r 0
  unfold exec stream
  simp only [hdev, hout, h]
  refine ⟨hok', ?_, by simp, fun d' hd => ⟨?_, ?_⟩⟩
  · rw [append_nil, append_assoc]
    exact congrArg _ hqueued
  · rw [append_nil, hother d' hd]
  · simp [Ne.symm hd]

/-- **A read** moves events along the stream. -/
theorem exec_read (hok : s.dev.Ok) (h : op.report = none) :
    (s.exec op).dev.Ok ∧ (s.exec op).stream = s.stream ∧ (s.exec op).pushed = s.pushed := by
  cases op with
  | read ref count nonblock =>
    cases hr : s.dev.devinputRead ref count nonblock with
    | none =>
      have hdev : s.execDev (.read ref count nonblock) = s.dev := by simp [execDev, hr]
      have hout : s.out (.read ref count nonblock) = fun _ => [] := by
        funext d
        simp [out, hr]
      refine ⟨?_, ?_, by simp [exec, EvdevOp.report]⟩
      · show (s.execDev (.read ref count nonblock)).Ok
        rwa [hdev]
      · funext d
        simp [exec, stream, hdev, hout]
    | some p =>
      obtain ⟨hok', hqueued, hother⟩ := Evdev.devinputRead_spec hok hr
      have hdev : s.execDev (.read ref count nonblock) = p.2 := by simp [execDev, hr]
      refine ⟨?_, ?_, by simp [exec, EvdevOp.report]⟩
      · show (s.execDev (.read ref count nonblock)).Ok
        rwa [hdev]
      funext d
      unfold stream
      by_cases hd : d = Evdev.devinputDev ref
      · have hout : s.out (.read ref count nonblock) d = p.1.given := by simp [out, hr, hd]
        simp only [exec, hdev, hout, map_append, append_assoc]
        subst hd
        exact congrArg _ hqueued.symm
      · have hout : s.out (.read ref count nonblock) d = [] := by simp [out, hd]
        simp only [exec, hdev, hout, append_nil, hother d hd]
  | _ => cases h

/-! ### Runs -/

/-- The rings are in order, and only reports were pushed. -/
structure Valid (s : EvdevRun) : Prop where
  ok : s.dev.Ok
  reports : ∀ d, ∀ r ∈ s.pushed d, Report synReport r

theorem Valid.start : start.Valid := ⟨Evdev.ok_init, fun _ _ h => nomatch h⟩

theorem Valid.exec (h : s.Valid) (op : EvdevOp) : (s.exec op).Valid := by
  cases hop : op.report with
  | none =>
    obtain ⟨hok, -, hpushed⟩ := exec_read h.ok hop
    exact ⟨hok, hpushed ▸ h.reports⟩
  | some p =>
    obtain ⟨hok, -, hpushed, hother⟩ := exec_report h.ok hop
    refine ⟨hok, fun d r hr => ?_⟩
    by_cases hd : d = p.1
    · subst hd
      rw [hpushed, mem_append, mem_singleton] at hr
      rcases hr with hr | rfl
      · exact h.reports _ r hr
      · exact report_of hop
    · exact h.reports d r ((hother d hd).2 ▸ hr)

theorem Complete.start : start.Complete := by
  intro d
  have hqueued := Evdev.queued_init d
  have hstream : EvdevRun.start.stream d = [] := by simpa [stream, EvdevRun.start, Evdev.queued] using hqueued
  rw [hstream]
  exact Delivered.nil

/-- **One operation** leaves the readers whole reports exactly when its report fits. -/
theorem complete_exec_iff (hv : s.Valid) (h : s.Complete) (op : EvdevOp) :
    (s.exec op).Complete ↔ s.Fits op := by
  cases hop : op.report with
  | none =>
    obtain ⟨-, hstream, hpushed⟩ := exec_read hv.ok hop
    unfold Complete Fits
    rw [hstream, hpushed, hop]
    exact ⟨fun _ _ _ hr => (nomatch hr), fun _ => h⟩
  | some p =>
    obtain ⟨d, r⟩ := p
    obtain ⟨-, hstream, hpushed, hother⟩ := exec_report hv.ok hop
    have hpush := (h d).push_iff (hv.reports d) (report_of hop) (s.dev.ring d).room
    rw [← hstream, ← hpushed] at hpush
    constructor
    · rintro hc d' r' hr
      obtain ⟨rfl, rfl⟩ := Prod.mk.inj (some.inj (hop.symm.trans hr))
      exact hpush.1 (hc d)
    · intro hfits d'
      by_cases hd : d' = d
      · subst hd
        exact hpush.2 (hfits d' r hop)
      · rw [(hother d' hd).1, (hother d' hd).2]
        exact h d'

/-- **A run** leaves the readers whole reports all along exactly when every report of it fits. -/
theorem complete_run_iff (hv : s.Valid) (h : s.Complete) (ops : List EvdevOp) :
    (∀ pre, pre <+: ops → (s.run pre).Complete) ↔ s.PushesFit ops := by
  induction ops generalizing s with
  | nil =>
    refine ⟨fun _ => trivial, fun _ pre hpre => ?_⟩
    rw [prefix_nil.1 hpre]
    exact h
  | cons op ops ih =>
    constructor
    · intro hall
      have hfirst : (s.exec op).Complete := hall [op] (by simp)
      refine ⟨(complete_exec_iff hv h op).1 hfirst, (ih (hv.exec op) hfirst).1 fun pre hpre => ?_⟩
      exact hall (op :: pre) (by simpa using hpre)
    · rintro ⟨hfits, hrest⟩ pre hpre
      have hfirst := (complete_exec_iff hv h op).2 hfits
      cases pre with
      | nil => exact h
      | cons op' pre =>
        obtain ⟨rfl, htail⟩ := cons_prefix_cons.1 hpre
        exact (ih (hv.exec _) hfirst).2 hrest pre htail

theorem room_exec (hok : s.dev.Ok) (h : op.report = some (d, r)) :
    ((s.exec op).dev.ring d).room = (s.dev.ring d).room - r.length := by
  obtain ⟨clock, hdev, -⟩ := execDev_eq (s := s) h
  obtain ⟨-, -, hroom, -⟩ := Evdev.pushEvents_spec hok d clock r 0
  show ((s.execDev op).ring d).room = _
  rw [hdev, hroom]

theorem not_pushesFit_replicate (hv : s.Valid) (h : op.report = some (d, r))
    (hmod : (s.dev.ring d).room % r.length ≠ 0) {n : ℕ} (hn : (s.dev.ring d).room / r.length = n) :
    ¬ s.PushesFit (List.replicate (n + 1) op) := by
  have hpos : 0 < r.length := by
    obtain ⟨body, -, rfl⟩ := report_of h
    simp
  induction n generalizing s with
  | zero =>
    rintro ⟨hfits, -⟩
    have hlt : (s.dev.ring d).room < r.length := (Nat.div_eq_zero_iff_lt hpos).1 hn
    rcases hfits d r h with hle | ⟨hzero, -⟩
    · omega
    · rw [hzero, Nat.zero_mod] at hmod
      exact hmod rfl
  | succ n ih =>
    rintro ⟨-, hrest⟩
    have hle : r.length ≤ (s.dev.ring d).room := by
      by_contra hlt
      rw [Nat.div_eq_of_lt (by omega)] at hn
      omega
    refine ih (hv.exec op) ?_ ?_ hrest <;> rw [room_exec hv.ok h]
    · rwa [← Nat.mod_eq_sub_mod hle]
    · have hdiv := Nat.sub_mul_div (s.dev.ring d).room r.length 1
      rw [Nat.mul_one] at hdiv
      omega

end EvdevRun

/-- **Readers get whole reports, and the release of every key whose press they got**, for exactly those
runs in which every report finds room for all of its events, or finds none at all and releases no key that
the readers know as pressed. -/
theorem evdev_reports_complete (ops : List EvdevOp) :
    (∀ pre, pre <+: ops → (EvdevRun.start.run pre).Complete) ↔ EvdevRun.start.PushesFit ops :=
  EvdevRun.complete_run_iff EvdevRun.Valid.start EvdevRun.Complete.start ops

/-- The ring has room for 511 events: of the last of 256 key events, the `SYN_REPORT` is lost. -/
theorem evdev_report_cut :
    ¬ ∀ pre, pre <+: List.replicate 256 (.key 30 1 fun _ => 0) → (EvdevRun.start.run pre).Complete := by
  rw [EvdevRun.complete_run_iff EvdevRun.Valid.start EvdevRun.Complete.start]
  exact EvdevRun.not_pushesFit_replicate EvdevRun.Valid.start rfl (by decide) (by decide)

end Ridux
