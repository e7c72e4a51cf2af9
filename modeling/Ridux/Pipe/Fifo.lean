import Mathlib.Data.List.Infix
import Ridux.Lib.Run
import Ridux.Pipe.Wait

/-!
# Pipes are queues

Runs of reads, writes and closes on a pipe, turn by turn.

* `PipeRun`: a pipe with the bytes written to it and read from it so far;
* `PipeRun.Exact`: what was written is what was read and what is still in the pipe;
* `pipeRun_exact`: it holds until `2 ^ 31` bytes have been written.
-/

namespace Ridux

open Lib List Option

/-- A turn of a call on a pipe, by any task, or the end of one of its ends. -/
inductive PipeOp
  | read (count : ℕ) (c : Caller)
  | write (src : Bytes) (c : Caller)
  | closeRead
  | closeWrite

/-- A pipe, the bytes whose writing was reported, the bytes that were read, and how often the write
end was closed; `defined` until the first undefined step. -/
structure PipeRun where
  pipe : BytePipe
  written : Bytes
  read : Bytes
  closes : ℕ
  defined : Bool

namespace PipeRun

/-- A new pipe. -/
def start : PipeRun := ⟨.create, [], [], 0, true⟩

def exec (s : PipeRun) : PipeOp → PipeRun
  | .read count c =>
    match s.pipe.readWait count c with
    | none => { s with defined := false }
    | some (.done (.ok bytes), p) => { s with pipe := p, read := s.read ++ bytes }
    | some (_, p) => { s with pipe := p }
  | .write src c =>
    match s.pipe.writeWait src c with
    | none => { s with defined := false }
    | some (.done (.ok k), p) => { s with pipe := p, written := s.written ++ src.take k }
    | some (_, p) => { s with pipe := p }
  | .closeRead => { s with pipe := s.pipe.closeRead }
  | .closeWrite => { s with pipe := s.pipe.closeWrite, closes := s.closes + 1 }

/-- The bytes written and those that the step takes number less than `2 ^ 31`. -/
def Below (s : PipeRun) : PipeOp → Prop
  | .write src _ => s.written.length + s.pipe.taken src < 2 ^ 31
  | _ => True

/-- The bytes read are the start of those written, in order, and the others are in the pipe; the
end of the file is reported only when there are none and the write end is closed. -/
structure Exact (s : PipeRun) : Prop where
  defined : s.defined = true
  fifo : s.written = s.read ++ s.pipe.ring.contents
  room : s.pipe.ring.contents.length ≤ 4095
  eof : ∀ count c, count ≠ 0 → (s.pipe.readWait count c).map Prod.fst = some (.done (.ok [])) →
    s.pipe.ring.contents = [] ∧ 0 < s.closes

/-- The invariant of a run. -/
structure Inv (s : PipeRun) : Prop where
  defined : s.defined = true
  fifo : s.written = s.read ++ s.pipe.ring.contents
  ring : BytePipe.InRange s.pipe.ring
  head : s.pipe.ring.head.toNat = s.written.length
  writers : s.pipe.used = true → s.pipe.writers = 1 - s.closes

variable {s : PipeRun} {src : Bytes}

theorem Inv.exact (h : Inv s) : Exact s := by
  refine ⟨h.defined, h.fifo, by rw [Ring.length_contents]; exact h.ring.room, ?_⟩
  intro count c hc hr
  by_cases hu : s.pipe.used = true
  · by_cases hz : s.pipe.ring.used = 0
    · refine ⟨Ring.contents_eq_nil hz, ?_⟩
      rw [BytePipe.readWait_none h.ring c hc hu hz, map_some] at hr
      by_cases hw : s.pipe.writers ≤ 0
      · have := h.writers hu
        omega
      · rw [if_neg hw] at hr
        exact absurd (some.inj hr) (c.idle_ne [])
    · rw [BytePipe.readWait_some h.ring c hc hu hz, map_some] at hr
      have hl := congrArg List.length (Except.ok.inj (Turn.done.inj (some.inj hr)))
      rw [Ring.length_pop, length_nil] at hl
      omega
  · rw [BytePipe.readWait_unused c hc (by simpa using hu)] at hr
    cases hr

theorem inv_start : Inv start := by
  refine ⟨rfl, rfl, ⟨by decide, by decide, by decide⟩, rfl, fun _ => rfl⟩

theorem Inv.read (h : Inv s) (count : ℕ) (c : Caller) : Inv (s.exec (.read count c)) := by
  unfold PipeRun.exec
  dsimp only
  by_cases hc : count = 0
  · have hr : s.pipe.readWait count c = some (.done (.ok []), s.pipe) := if_pos hc
    rw [hr]
    exact ⟨h.defined, by rw [h.fifo]; simp, h.ring, h.head, h.writers⟩
  by_cases hu : s.pipe.used = true
  · by_cases hz : s.pipe.ring.used = 0
    · rw [BytePipe.readWait_none h.ring c hc hu hz]
      split
      · next heq => cases heq
      · next bytes p heq =>
        obtain ⟨ht, rfl⟩ := Prod.mk.inj (some.inj heq)
        split_ifs at ht with hw
        · cases ht
          exact ⟨h.defined, by rw [h.fifo]; simp, h.ring, h.head, h.writers⟩
        · exact absurd ht (c.idle_ne bytes)
      · next heq =>
        obtain ⟨-, rfl⟩ := Prod.mk.inj (some.inj heq)
        exact ⟨h.defined, h.fifo, h.ring, h.head, h.writers⟩
    · rw [BytePipe.readWait_some h.ring c hc hu hz]
      set n := min count s.pipe.ring.used with hn
      have hle : n ≤ s.pipe.ring.used := Nat.min_le_right _ _
      refine ⟨h.defined, ?_, h.ring.pop hle, ?_, h.writers⟩
      · show s.written = s.read ++ (Ring.pop n s.pipe.ring).1 ++ (Ring.pop n s.pipe.ring).2.contents
        rw [Ring.pop_fst n _ hle, Ring.contents_pop n _ hle, append_assoc,
          take_append_drop]
        exact h.fifo
      · show (Ring.pop n s.pipe.ring).2.head.toNat = s.written.length
        rw [Ring.pop_head]
        exact h.head
  · rw [BytePipe.readWait_unused c hc (by simpa using hu)]
    exact ⟨h.defined, h.fifo, h.ring, h.head, h.writers⟩

theorem Inv.write (h : Inv s) (c : Caller) (hb : Below s (.write src c)) :
    Inv (s.exec (.write src c)) := by
  unfold PipeRun.exec
  dsimp only
  have hbelow : s.written.length + s.pipe.taken src < 2 ^ 31 := hb
  by_cases ht : s.pipe.taken src = 0
  · obtain ⟨t, hw, hk⟩ := BytePipe.writeWait_none h.ring c ht
    rw [hw]
    split
    · next heq => cases heq
    · next k p heq =>
      obtain ⟨rfl, rfl⟩ := Prod.mk.inj (some.inj heq)
      rw [hk k rfl, take_zero, append_nil]
      exact ⟨h.defined, h.fifo, h.ring, h.head, h.writers⟩
    · next heq =>
      obtain ⟨-, rfl⟩ := Prod.mk.inj (some.inj heq)
      exact ⟨h.defined, h.fifo, h.ring, h.head, h.writers⟩
  · have htaken : s.pipe.taken src ≤ min src.length (4095 - s.pipe.ring.used) := by
      unfold BytePipe.taken
      split_ifs
      · exact le_rfl
      · exact Nat.zero_le _
    have hlen : (src.take (s.pipe.taken src)).length = s.pipe.taken src := by
      rw [length_take]
      omega
    have hr := h.ring.room
    have hh := h.head
    rw [BytePipe.writeWait_some h.ring c ht, if_pos (by omega)]
    dsimp only [map_some]
    refine ⟨h.defined, ?_, h.ring.push (by omega) (by omega), ?_, h.writers⟩
    · show s.written ++ _ = s.read ++ _
      rw [Ring.contents_push (by decide) _ _ (by omega), ← append_assoc, h.fifo]
    · show (s.pipe.ring.push _).head.toNat = (s.written ++ _).length
      rw [Ring.push_head, length_append, hlen, BitVec.toNat_add, BitVec.toNat_ofNat]
      omega

theorem Inv.overflow (h : Inv s) (c : Caller) (hb : ¬Below s (.write src c)) :
    (s.exec (.write src c)).defined = false := by
  have hbelow : ¬s.written.length + s.pipe.taken src < 2 ^ 31 := hb
  have hlt := h.ring.head
  have hh := h.head
  unfold PipeRun.exec
  dsimp only
  rw [BytePipe.writeWait_some h.ring c (by omega), if_neg (by omega)]
  rfl

theorem pipeSettle_writers (p : Pipe) : (Objects.pipeSettle p).writers = p.writers := by
  unfold Objects.pipeSettle
  split_ifs <;> rfl

theorem Inv.closeRead (h : Inv s) : Inv (s.exec .closeRead) := by
  refine ⟨h.defined, ?_, ?_, ?_, ?_⟩
  · show s.written = s.read ++ s.pipe.closeRead.ring.contents
    rw [BytePipe.closeRead_ring]
    exact h.fifo
  · show BytePipe.InRange s.pipe.closeRead.ring
    rw [BytePipe.closeRead_ring]
    exact h.ring
  · show s.pipe.closeRead.ring.head.toNat = _
    rw [BytePipe.closeRead_ring]
    exact h.head
  · intro hu
    change s.pipe.closeRead.used = true at hu
    show s.pipe.closeRead.writers = 1 - (s.closes : ℤ)
    unfold BytePipe.closeRead at hu ⊢
    by_cases hp : s.pipe.used = true
    · rw [if_pos hp]
      exact (pipeSettle_writers _).trans (h.writers hp)
    · rw [if_neg hp] at hu
      exact absurd hu hp

theorem Inv.closeWrite (h : Inv s) : Inv (s.exec .closeWrite) := by
  refine ⟨h.defined, ?_, ?_, ?_, ?_⟩
  · show s.written = s.read ++ s.pipe.closeWrite.ring.contents
    rw [BytePipe.closeWrite_ring]
    exact h.fifo
  · show BytePipe.InRange s.pipe.closeWrite.ring
    rw [BytePipe.closeWrite_ring]
    exact h.ring
  · show s.pipe.closeWrite.ring.head.toNat = _
    rw [BytePipe.closeWrite_ring]
    exact h.head
  · intro hu
    change s.pipe.closeWrite.used = true at hu
    show s.pipe.closeWrite.writers = 1 - ((s.closes + 1 : ℕ) : ℤ)
    unfold BytePipe.closeWrite at hu ⊢
    by_cases hp : s.pipe.used = true
    · rw [if_pos hp]
      refine (pipeSettle_writers _).trans ?_
      have := h.writers hp
      dsimp only
      omega
    · rw [if_neg hp] at hu
      exact absurd hu hp

theorem Inv.exec (h : Inv s) {op : PipeOp} (hb : Below s op) : Inv (s.exec op) := by
  cases op with
  | read count c => exact h.read count c
  | write src c => exact h.write c hb
  | closeRead => exact h.closeRead
  | closeWrite => exact h.closeWrite

end PipeRun

/-- **A pipe is an exact queue** in every run in which fewer than `2 ^ 31` bytes are written to it,
and a step keeps it so exactly when that stays true. -/
theorem pipeRun_exact {s : PipeRun} (hrun : Runs PipeRun.Below PipeRun.exec .start s) :
    s.Exact ∧ ∀ op, (s.exec op).Exact ↔ s.Below op := by
  have h : s.Inv := Runs.invariant (fun _ _ hi hb => hi.exec hb) hrun PipeRun.inv_start
  refine ⟨h.exact, fun op => ⟨fun hex => ?_, fun hb => (h.exec hb).exact⟩⟩
  by_contra hb
  cases op with
  | write src c =>
    have := hex.defined
    rw [h.overflow c hb] at this
    cases this
  | read count c => exact hb trivial
  | closeRead => exact hb trivial
  | closeWrite => exact hb trivial

/-- A caller that waits. -/
def patient : Caller := ⟨false, false⟩

theorem pipe_pair_exact :
    ((PipeRun.start.exec (.write [1, 2, 3] patient)).exec (.read 2 patient)).Exact := by
  have hrun : Runs PipeRun.Below PipeRun.exec .start (PipeRun.start.exec (.write [1, 2, 3] patient)) :=
    Runs.tail (Runs.refl _) _ (show 0 + 3 < 2 ^ 31 by decide)
  exact (pipeRun_exact (Runs.tail hrun (.read 2 patient) trivial)).1

/-- A pipe through which `n` bytes went, one at a time. -/
def pumped : ℕ → PipeRun
  | 0 => .start
  | n + 1 => ((pumped n).exec (.write [0x2A] patient)).exec (.read 1 patient)

namespace PipeRun

variable {s : PipeRun} {n : ℕ}

theorem Inv.pump (h : s.Inv) (hu : s.pipe.used = true) (hr : 0 < s.pipe.readers)
    (hz : s.pipe.ring.used = 0) (hb : s.written.length + 1 < 2 ^ 31) :
    let t := (s.exec (.write [0x2A] patient)).exec (.read 1 patient)
    t.Inv ∧ t.pipe.used = true ∧ 0 < t.pipe.readers ∧ t.pipe.ring.used = 0 ∧
      t.written.length = s.written.length + 1 := by
  have htaken : s.pipe.taken [0x2A] = 1 := by
    unfold BytePipe.taken
    rw [if_pos ⟨hu, hr⟩, hz]
    rfl
  have hbelow : s.Below (.write [0x2A] patient) := by
    show _ + s.pipe.taken [0x2A] < _
    rw [htaken]
    exact hb
  have h1 := h.write patient hbelow
  have hh := h.head
  have hw : s.exec (.write [0x2A] patient) =
      { s with
        pipe := { s.pipe with ring := s.pipe.ring.push [0x2A] }
        written := s.written ++ [0x2A] } := by
    unfold PipeRun.exec
    dsimp only
    rw [BytePipe.writeWait_some h.ring patient (by omega), htaken, if_pos (by omega)]
    rfl
  have hused : (s.pipe.ring.push [0x2A]).used = 1 := by
    rw [Ring.used_push (by decide) _ _ (by simp [hz]), hz]
    rfl
  have h2 := h1.read 1 patient
  rw [hw] at h1 h2 ⊢
  have hread : ({ s with
        pipe := { s.pipe with ring := s.pipe.ring.push [0x2A] }
        written := s.written ++ [0x2A] } : PipeRun).exec (.read 1 patient) =
      { s with
        pipe := { s.pipe with ring := (Ring.pop 1 (s.pipe.ring.push [0x2A])).2 }
        written := s.written ++ [0x2A]
        read := s.read ++ (Ring.pop 1 (s.pipe.ring.push [0x2A])).1 } := by
    unfold PipeRun.exec
    dsimp only
    rw [BytePipe.readWait_some h1.ring patient (by decide) hu (by rw [hused]; decide)]
    dsimp only
    rw [hused]
    rfl
  rw [hread] at h2 ⊢
  refine ⟨h2, hu, hr, ?_, ?_⟩
  · show (Ring.pop 1 (s.pipe.ring.push [0x2A])).2.used = 0
    rw [Ring.used_pop 1 _ hused.ge, hused]
  · simp

theorem pumped_spec (hn : n < 2 ^ 31) :
    (pumped n).Inv ∧ (pumped n).pipe.used = true ∧ 0 < (pumped n).pipe.readers ∧
      (pumped n).pipe.ring.used = 0 ∧ (pumped n).written.length = n := by
  induction n with
  | zero => exact ⟨inv_start, rfl, by decide, by decide, rfl⟩
  | succ n ih =>
    obtain ⟨h, hu, hr, hz, hl⟩ := ih (by omega)
    have hp := h.pump hu hr hz (by omega)
    rw [hl] at hp
    exact hp

theorem pumped_overflow (hn : n + 1 = 2 ^ 31) :
    ¬((pumped n).exec (.write [0x2A] patient)).Exact := by
  obtain ⟨h, hu, hr, hz, hl⟩ := pumped_spec (show n < 2 ^ 31 by omega)
  have hb : ¬(pumped n).Below (.write [0x2A] patient) := by
    show ¬_ + (pumped n).pipe.taken [0x2A] < _
    unfold BytePipe.taken
    rw [if_pos ⟨hu, hr⟩, hz, hl]
    simp [hn]
  intro hex
  have := hex.defined
  rw [h.overflow patient hb] at this
  cases this

end PipeRun

/-- When `2 ^ 31 - 1` bytes have gone through a pipe, the next one takes its counter past the end
of an `int`. -/
theorem pumped_not_exact : ¬((pumped 0x7FFFFFFF).exec (.write [0x2A] patient)).Exact :=
  PipeRun.pumped_overflow (by decide)

end Ridux
