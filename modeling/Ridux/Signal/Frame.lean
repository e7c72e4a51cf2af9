import Ridux.Lib.Words
import Ridux.Signal.Set

/-!
# The context of a task and the frame of a signal

* `Gprs`, `Ctx`: the registers (`cpu_context_t`, without the bases of FS and GS);
* `SigFrame`: the frame on the user's stack (`sig_frame_t`) as 34 words of 64 bits;
* `ofWords_words`: a frame is read back from its words;
* `UserFrame`: the registers of the user on the kernel's stack during a system call.
-/

namespace Ridux

open Lib

/-- The general registers. -/
structure Gprs where
  rax : BitVec 64
  rbx : BitVec 64
  rcx : BitVec 64
  rdx : BitVec 64
  rsi : BitVec 64
  rdi : BitVec 64
  rbp : BitVec 64
  r8 : BitVec 64
  r9 : BitVec 64
  r10 : BitVec 64
  r11 : BitVec 64
  r12 : BitVec 64
  r13 : BitVec 64
  r14 : BitVec 64
  r15 : BitVec 64
  deriving DecidableEq

/-- `cpu_context_t`. -/
structure Ctx extends Gprs where
  rip : BitVec 64
  rsp : BitVec 64
  rflags : BitVec 64
  cs : BitVec 64
  ss : BitVec 64
  deriving DecidableEq

/-- The interrupt flag, and the bit that is always set: what the kernel adds to the flags. -/
def rflagsUser : BitVec 64 := 0x202

/-- `sig_frame_t`.  Fields of less than 8 bytes are kept as the word they are in: `segs` is `cs`,
`gs`, `fs` and `ss`; `siSigno` is `si_signo` and `si_errno`. -/
structure SigFrame where
  sigmask : SigSet
  ucontextPtr : BitVec 64
  ucFlags : BitVec 64
  ucLink : BitVec 64
  ucStackSp : BitVec 64
  ucStackFlags : BitVec 64
  ucStackSize : BitVec 64
  gprs : Gprs
  rsp : BitVec 64
  rip : BitVec 64
  eflags : BitVec 64
  segs : BitVec 64
  errcodeHi : BitVec 64
  trapno : BitVec 64
  errcode : BitVec 64
  cr2 : BitVec 64
  siSigno : BitVec 64
  siCode : BitVec 64
  siAddr : BitVec 64
  deriving DecidableEq

namespace SigFrame

/-- The size of the frame in bytes. -/
def size : ℕ := 272

/-- Where `uc_flags` is in the frame. -/
def ucFlagsOffset : BitVec 64 := 24

/-- Where `si_signo` is in the frame. -/
def siSignoOffset : BitVec 64 := 248

/-- The frame in memory. -/
def words (f : SigFrame) : List (BitVec 64) :=
  [f.sigmask.sig0, f.sigmask.sig1, f.ucontextPtr, f.ucFlags, f.ucLink, f.ucStackSp, f.ucStackFlags,
    f.ucStackSize, f.gprs.r8, f.gprs.r9, f.gprs.r10, f.gprs.r11, f.gprs.r12, f.gprs.r13, f.gprs.r14,
    f.gprs.r15, f.gprs.rdi, f.gprs.rsi, f.gprs.rbp, f.gprs.rbx, f.gprs.rdx, f.gprs.rax, f.gprs.rcx,
    f.rsp, f.rip, f.eflags, f.segs, f.errcodeHi, f.trapno, f.errcode, f.cr2, f.siSigno, f.siCode,
    f.siAddr]

/-- The bytes of the frame. -/
def bytes (f : SigFrame) : List UInt8 := wordBytes f.words

/-- A frame from memory, whatever is there. -/
def ofBytes (bs : List UInt8) : SigFrame :=
  let w := wordAt bs
  { sigmask := ⟨w 0, w 1⟩
    ucontextPtr := w 2
    ucFlags := w 3
    ucLink := w 4
    ucStackSp := w 5
    ucStackFlags := w 6
    ucStackSize := w 7
    gprs :=
      { r8 := w 8, r9 := w 9, r10 := w 10, r11 := w 11, r12 := w 12, r13 := w 13, r14 := w 14,
        r15 := w 15, rdi := w 16, rsi := w 17, rbp := w 18, rbx := w 19, rdx := w 20, rax := w 21,
        rcx := w 22 }
    rsp := w 23
    rip := w 24
    eflags := w 25
    segs := w 26
    errcodeHi := w 27
    trapno := w 28
    errcode := w 29
    cr2 := w 30
    siSigno := w 31
    siCode := w 32
    siAddr := w 33 }

@[simp] theorem length_bytes (f : SigFrame) : f.bytes.length = size := length_wordBytes f.words

theorem bytes_ne_nil (f : SigFrame) : f.bytes ≠ [] := by
  intro h
  have := f.length_bytes
  rw [h] at this
  cases this

@[simp] theorem ofBytes_bytes (f : SigFrame) : ofBytes f.bytes = f := by
  have hword : ∀ i w, f.words[i]? = some w → wordAt f.bytes i = w := by
    intro i w h
    rw [← wordAt_wordBytes h [], List.append_nil]
    rfl
  unfold ofBytes
  dsimp only
  rw [hword 0 _ rfl, hword 1 _ rfl, hword 2 _ rfl, hword 3 _ rfl, hword 4 _ rfl, hword 5 _ rfl,
    hword 6 _ rfl, hword 7 _ rfl, hword 8 _ rfl, hword 9 _ rfl, hword 10 _ rfl, hword 11 _ rfl,
    hword 12 _ rfl, hword 13 _ rfl, hword 14 _ rfl, hword 15 _ rfl, hword 16 _ rfl, hword 17 _ rfl,
    hword 18 _ rfl, hword 19 _ rfl, hword 20 _ rfl, hword 21 _ rfl, hword 22 _ rfl, hword 23 _ rfl,
    hword 24 _ rfl, hword 25 _ rfl, hword 26 _ rfl, hword 27 _ rfl, hword 28 _ rfl, hword 29 _ rfl,
    hword 30 _ rfl, hword 31 _ rfl, hword 32 _ rfl, hword 33 _ rfl]

end SigFrame

/-! ### Leaving a system call -/

/-- The user's registers on the kernel's stack, in the order in which `syscall_entry` pushes them;
`iretq` pops the last five. -/
structure UserFrame extends Gprs where
  vector : BitVec 64
  error : BitVec 64
  rip : BitVec 64
  cs : BitVec 64
  rflags : BitVec 64
  rsp : BitVec 64
  ss : BitVec 64
  deriving DecidableEq

namespace UserFrame

/-- `x`, or `y` where `x` is 0. -/
def orElse (x y : BitVec 64) : BitVec 64 := if x ≠ 0 then x else y

/-- `task_repair_syscall_return_frame`: what was saved replaces what is on the stack, but for the
result in `rax`; the slots of `rcx` and `r11` get the return address and the flags. -/
def repair (saved frame : UserFrame) : UserFrame :=
  { frame with
    toGprs :=
      { saved.toGprs with
        rax := frame.rax
        rcx := orElse saved.rip saved.rcx
        r11 := if saved.rflags ≠ 0 then saved.rflags ||| rflagsUser else saved.r11 }
    rsp := orElse saved.rsp frame.rsp }

/-- The end of `syscall_entry`, up to `iretq`: the address and the flags come from the slots of
`rcx` and `r11`, the selectors are constants. -/
def iret (frame : UserFrame) : UserFrame :=
  { frame with
    rip := frame.rcx
    rflags := frame.r11 ||| rflagsUser
    cs := 0x2B
    ss := 0x33 }

end UserFrame

end Ridux
