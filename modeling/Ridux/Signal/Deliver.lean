import Ridux.Fd.Tasks
import Ridux.Signal.Frame
import Ridux.User.Memory

/-!
# Delivery of signals

* `SigTask`: what a task has for signals;
* `sigDefaultAction`: what a signal without a handler does to its task;
* `sigDeliver`: the frame, the trampoline and the return address on the user's stack;
* `sigCheckPending`: the first signal that is pending and not blocked;
* `sigRestoreContext`, `rtSigreturn`: the way back.
-/

namespace Ridux

open Lib

/-- `sigaction_info_t`, without the restorer, which nothing reads. -/
structure SigAction where
  handler : BitVec 64
  mask : SigSet
  flags : BitVec 32
  deriving DecidableEq

def sigDfl : BitVec 64 := 0

def sigIgn : BitVec 64 := 1

def saNodefer : BitVec 32 := 0x40000000
def saResethand : BitVec 32 := 0x80000000

/-- The fields of `task_t` that signals use; `schedulable` is what `task_schedulable_user_frame`
says of the kernel's stack of the task. -/
structure SigTask where
  used : Bool
  pid : ℤ
  tgid : ℤ
  state : TaskState
  exitCode : ℤ
  schedulable : Bool
  ctx : Ctx
  space : Option Space
  pending : SigSet
  blocked : SigSet
  savedMask : SigSet
  inHandler : Bool
  lastSignal : ℕ
  actions : ℕ → SigAction
  frameCopy : UserFrame
  frameValid : Bool

namespace SigTask

/-- The code segment of a task that runs in ring 3 (`0x28`), as the scheduler has it. -/
def userCs : BitVec 64 := 0x28

/-- `task_exit`, as far as the task itself goes: a thread that does not lead its group is gone at
once. -/
def taskExit (t : SigTask) (code : ℤ) : SigTask :=
  if t.ctx.cs = userCs ∧ t.tgid ≠ 0 ∧ t.tgid ≠ t.pid then
    { t with state := .free, exitCode := code, used := false }
  else { t with state := .zombie, exitCode := code }

/-- `task_make_runnable`. -/
def makeRunnable (t : SigTask) : SigTask :=
  if !t.used ∨ t.state = .zombie ∨ t.state = .free ∨ (t.ctx.cs = userCs ∧ !t.schedulable) then t
  else { t with state := .runnable }

/-- The signals that stop a task by default: `SIGSTOP`, `SIGTSTP`, `SIGTTIN`, `SIGTTOU`. -/
def stops (sig : ℕ) : Bool := sig = 19 ∨ sig = 20 ∨ sig = 21 ∨ sig = 22

/-- The signals that do nothing by default: `SIGCHLD`, `SIGURG`, `SIGWINCH`. -/
def ignoredByDefault (sig : ℕ) : Bool := sig = 17 ∨ sig = 23 ∨ sig = 28

def sigcont : ℕ := 18

def sigsegv : ℕ := 11

def sigDefaultAction (t : SigTask) (sig : ℕ) : SigTask :=
  if stops sig then { t with state := .stopped }
  else if sig = sigcont then if t.state = .stopped then t.makeRunnable else t
  else if ignoredByDefault sig then t
  else t.taskExit (128 + sig)

/-! ### Delivery -/

/-- The code that the handler returns to: `mov $15, %eax`, `syscall`. -/
def sigreturnTramp : Bytes := [0xB8, 0x0F, 0x00, 0x00, 0x00, 0x0F, 0x05, 0xC3]

/-- The context of the task in a frame for signal `s`. -/
def sigFrame (t : SigTask) (s : ℕ) : SigFrame where
  sigmask := t.blocked
  ucontextPtr := 0
  ucFlags := 0
  ucLink := 0
  ucStackSp := 0
  ucStackFlags := 0
  ucStackSize := 0
  gprs := t.ctx.toGprs
  rsp := t.ctx.rsp
  rip := t.ctx.rip
  eflags := t.ctx.rflags
  segs := (t.ctx.cs.setWidth 16).setWidth 64 ||| ((t.ctx.ss.setWidth 16).setWidth 64 <<< 48)
  errcodeHi := 0
  trapno := 0
  errcode := 0
  cr2 := 0
  siSigno := BitVec.ofNat 64 s
  siCode := 0
  siAddr := 0

/-- Where the frame goes. -/
def newRsp (t : SigTask) : BitVec 64 := (t.ctx.rsp - 272 - 8) &&& ~~~0xF

/-- Where the trampoline goes, right above the frame. -/
def trampAddr (t : SigTask) : BitVec 64 := t.newRsp + 272

/-- Where the return address goes, right below the frame. -/
def retSlot (t : SigTask) : BitVec 64 := t.newRsp - 8

/-- The context that enters the handler, before the return address is there. -/
def redirect (t : SigTask) (s : ℕ) : SigTask :=
  { t with
    ctx :=
      { t.ctx with
        rip := (t.actions s).handler
        rsp := t.newRsp
        rdi := BitVec.ofNat 64 s
        rsi := t.newRsp + SigFrame.siSignoOffset
        rdx := t.newRsp + SigFrame.ucFlagsOffset } }

/-- What the handler of `s` blocks. -/
def handlerMask (t : SigTask) (s : ℕ) : SigSet :=
  (if (t.actions s).flags &&& saNodefer ≠ 0 then t.blocked else t.blocked.add s).union
    (t.actions s).mask

/-- The state of a task that enters the handler of `s`, with `ret` for its stack pointer. -/
def enterHandler (t : SigTask) (s : ℕ) (ret : BitVec 64) : SigTask :=
  { t with
    ctx := { t.ctx with rsp := ret }
    lastSignal := s
    savedMask := t.blocked
    inHandler := true
    blocked := t.handlerMask s
    actions :=
      if (t.actions s).flags &&& saResethand ≠ 0 then
        Function.update t.actions s { t.actions s with handler := sigDfl }
      else t.actions }

/-- Delivery of signal `s`; a copy that fails ends the task. -/
def sigDeliver (t : SigTask) (m : UserMem) (s : ℕ) : SigTask × UserMem :=
  let frame := c2UserCopyOut m t.space t.newRsp.toNat (t.sigFrame s).bytes
  if !frame.1 then (t.sigDefaultAction sigsegv, frame.2)
  else
    let tramp := c2UserCopyOut frame.2 t.space t.trampAddr.toNat sigreturnTramp
    if !tramp.1 then (t.sigDefaultAction sigsegv, tramp.2)
    else
      let ret := c2UserCopyOut tramp.2 t.space t.retSlot.toNat (leBytes 8 t.trampAddr.toNat)
      if !ret.1 then ((t.redirect s).sigDefaultAction sigsegv, ret.2)
      else ((t.redirect s).enterHandler s t.retSlot, ret.2)

/-- The loop of `sig_check_pending`, over the signals that are left. -/
def sigScan : List ℕ → SigTask → UserMem → SigTask × UserMem
  | [], t, m => (t, m)
  | s :: rest, t, m =>
    if !t.pending.has s then sigScan rest t m
    else if t.blocked.has s then sigScan rest t m
    else
      let t := { t with pending := t.pending.del s }
      if (t.actions s).handler = sigIgn then sigScan rest t m
      else if (t.actions s).handler = sigDfl then sigScan rest (t.sigDefaultAction s) m
      else t.sigDeliver m s

def sigCheckPending (t : SigTask) (m : UserMem) : SigTask × UserMem :=
  if !t.used then (t, m)
  else if t.inHandler then (t, m)
  else if t.ctx.cs ≠ 0x28 ∧ t.ctx.cs ≠ 0x23 then (t, m)
  else sigScan (List.range' 1 (nsig - 1)) t m

/-! ### Return -/

/-- The flags of a context that is restored from a frame. -/
def restoredFlags (f : SigFrame) : BitVec 64 := f.eflags ||| rflagsUser

/-- What `sig_restore_context` does with the frame it has read. -/
def restore (t : SigTask) (f : SigFrame) : SigTask :=
  { t with
    ctx :=
      { t.ctx with
        toGprs := f.gprs
        rip := f.rip
        rsp := f.rsp
        rflags := restoredFlags f }
    blocked := f.sigmask
    inHandler := false
    lastSignal := 0
    frameCopy :=
      { toGprs := { f.gprs with rcx := f.rip, r11 := restoredFlags f }
        vector := 0
        error := 0
        rip := f.rip
        cs := 0x2B
        rflags := restoredFlags f
        rsp := f.rsp
        ss := 0x33 }
    frameValid := true }

/-- `-ESRCH`. -/
def esrch : BitVec 64 := -3

/-- `-EFAULT`. -/
def efault : BitVec 64 := -14

/-- `sig_restore_context`, with its result. -/
def sigRestoreContext (t : SigTask) (m : UserMem) : BitVec 64 × SigTask :=
  if !t.used then (esrch, t)
  else
    match c2UserCopyIn m t.space t.ctx.rsp.toNat SigFrame.size with
    | none => (efault, t.sigDefaultAction sigsegv)
    | some bs => ((SigFrame.ofBytes bs).gprs.rax, t.restore (SigFrame.ofBytes bs))

/-- `task_capture_syscall_user_context`, at the start of a system call. -/
def captureContext (t : SigTask) (f : UserFrame) : SigTask :=
  if !t.used then t
  else
    { t with
      frameCopy := f
      frameValid := true
      ctx := { t.ctx with rip := f.rip, rflags := f.rflags, rsp := f.rsp } }

/-- The end of a system call with result `rc`: the registers that `iretq` and the task see. -/
def syscallReturn (t : SigTask) (f : UserFrame) (rc : BitVec 64) : UserFrame :=
  let f := { f with rax := rc }
  (if t.used ∧ t.frameValid then t.frameCopy.repair f else f).iret

/-- The system call `rt_sigreturn`, entered with the registers `f`. -/
def rtSigreturn (t : SigTask) (m : UserMem) (f : UserFrame) : SigTask × UserFrame :=
  let r := (t.captureContext f).sigRestoreContext m
  (r.2, r.2.syscallReturn f r.1)

/-- A running task at address 0x8000 with the stack pointer at 0x2000 and no signals. -/
def sample : SigTask where
  used := true
  pid := 2
  tgid := 2
  state := .running
  exitCode := 0
  schedulable := true
  ctx := ⟨⟨0, 0, 0, 0, 0, 0, 0, 0, 0, 0, 0, 0, 0, 0, 0⟩, 0x8000, 0x2000, 0x202, 0x28, 0x30⟩
  space := some (.user 0)
  pending := .empty
  blocked := .empty
  savedMask := .empty
  inHandler := false
  lastSignal := 0
  actions _ := ⟨sigDfl, .empty, 0⟩
  frameCopy := ⟨⟨0, 0, 0, 0, 0, 0, 0, 0, 0, 0, 0, 0, 0, 0, 0⟩, 0, 0, 0, 0, 0, 0, 0⟩
  frameValid := false

end SigTask

end Ridux
