import Ridux.Signal.Deliver

/-!
# What `rt_sigreturn` lets a task resume

* `resumed`: the registers after `rt_sigreturn`, as a function of the frame;
* `rtSigreturn_eq`: they are what the system call leaves to `iretq`;
* `UserContext`, `Unblockable`: a context of ring 3, a mask without `SIGKILL` and `SIGSTOP`;
* `Harmless`: the frames that lead to both.

The selectors and the interrupt flag do not come from the frame.  The address, the stack pointer,
the other flags and the mask are copied from it as they are.
-/

namespace Ridux

open Lib SigTask

/-! ### The registers -/

/-- What the task sees after `rt_sigreturn` with the frame `fr`, entered with the registers `f`. -/
def resumed (fr : SigFrame) (f : UserFrame) : UserFrame :=
  { toGprs := { fr.gprs with rcx := fr.rip, r11 := restoredFlags fr }
    vector := f.vector
    error := f.error
    rip := fr.rip
    cs := 0x2B
    rflags := restoredFlags fr
    rsp := UserFrame.orElse fr.rsp f.rsp
    ss := 0x33 }

theorem getLsbD_restoredFlags (fr : SigFrame) (i : ℕ) :
    (restoredFlags fr).getLsbD i = (fr.eflags.getLsbD i || rflagsUser.getLsbD i) :=
  BitVec.getLsbD_or

theorem restoredFlags_ne_zero (fr : SigFrame) : restoredFlags fr ≠ 0 := by
  intro h
  have hbit : (restoredFlags fr).getLsbD 1 = true := by
    rw [getLsbD_restoredFlags, Bool.or_eq_true]
    exact .inr rfl
  rw [h] at hbit
  cases hbit

theorem or_rflagsUser (x : BitVec 64) : x ||| rflagsUser ||| rflagsUser = x ||| rflagsUser := by
  rw [BitVec.or_assoc, BitVec.or_self]

@[simp] theorem restoredFlags_or (fr : SigFrame) :
    restoredFlags fr ||| rflagsUser = restoredFlags fr := or_rflagsUser fr.eflags

theorem orElse_self (x : BitVec 64) : UserFrame.orElse x x = x := by
  unfold UserFrame.orElse
  split_ifs <;> rfl

theorem syscallReturn_restore {t : SigTask} (hused : t.used = true) (fr : SigFrame) (f : UserFrame) :
    (t.restore fr).syscallReturn f fr.gprs.rax = resumed fr f := by
  have hflags : UserFrame.orElse fr.rip fr.rip = fr.rip := orElse_self fr.rip
  unfold syscallReturn
  dsimp only
  rw [if_pos ⟨hused, rfl⟩]
  unfold restore UserFrame.repair UserFrame.iret resumed
  dsimp only
  rw [if_pos (restoredFlags_ne_zero fr), hflags, restoredFlags_or, restoredFlags_or]

variable {t : SigTask} {m : UserMem} {f : UserFrame} {bs : Bytes} {fr : SigFrame}

theorem rtSigreturn_eq (hused : t.used = true)
    (hread : c2UserCopyIn m t.space f.rsp.toNat SigFrame.size = some bs) :
    t.rtSigreturn m f =
      ((t.captureContext f).restore (SigFrame.ofBytes bs), resumed (SigFrame.ofBytes bs) f) := by
  have hcap : (t.captureContext f).used = true ∧ (t.captureContext f).space = t.space ∧
      (t.captureContext f).ctx.rsp = f.rsp := by
    unfold captureContext
    rw [if_neg (by simp [hused])]
    exact ⟨hused, rfl, rfl⟩
  have hres : (t.captureContext f).sigRestoreContext m =
      ((SigFrame.ofBytes bs).gprs.rax, (t.captureContext f).restore (SigFrame.ofBytes bs)) := by
    unfold sigRestoreContext
    rw [if_neg (by simp [hcap.1]), hcap.2.1, hcap.2.2, hread]
  unfold rtSigreturn
  rw [hres]
  exact Prod.ext rfl (syscallReturn_restore hcap.1 _ f)

/-! ### Privilege -/

/-- Flags that a task may have: interrupts on, the lowest privilege for I/O, neither a nested task
nor the 8086 mode. -/
def UserFlags (flags : BitVec 64) : Prop :=
  flags.getLsbD 9 = true ∧ flags.getLsbD 12 = false ∧ flags.getLsbD 13 = false ∧
    flags.getLsbD 14 = false ∧ flags.getLsbD 17 = false

/-- A context of ring 3, in the user half. -/
structure UserContext (f : UserFrame) : Prop where
  cs : f.cs = 0x2B
  ss : f.ss = 0x33
  rip : f.rip.toNat < c2UserTop
  rsp : f.rsp.toNat < c2UserTop
  rflags : UserFlags f.rflags

/-- A mask that does not block what cannot be blocked. -/
def Unblockable (s : SigSet) : Prop := s.has sigkill = false ∧ s.has sigstop = false

/-- A frame whose words for the address, the stack pointer, the flags and the mask are those of a
task in ring 3. -/
structure Harmless (fr : SigFrame) : Prop where
  rip : fr.rip.toNat < c2UserTop
  rsp : fr.rsp.toNat < c2UserTop
  iopl : fr.eflags.getLsbD 12 = false ∧ fr.eflags.getLsbD 13 = false
  nt : fr.eflags.getLsbD 14 = false
  vm : fr.eflags.getLsbD 17 = false
  kill : fr.sigmask.sig0.getLsbD 9 = false
  stop : fr.sigmask.sig0.getLsbD 19 = false

theorem unblockable_iff {s : SigSet} :
    Unblockable s ↔ s.sig0.getLsbD 9 = false ∧ s.sig0.getLsbD 19 = false := by
  unfold Unblockable
  rw [SigSet.has_of_lt (by decide), SigSet.has_of_lt (by decide)]
  rfl

theorem userFlags_restoredFlags : UserFlags (restoredFlags fr) ↔
    fr.eflags.getLsbD 12 = false ∧ fr.eflags.getLsbD 13 = false ∧ fr.eflags.getLsbD 14 = false ∧
      fr.eflags.getLsbD 17 = false := by
  have hif : rflagsUser.getLsbD 9 = true := rfl
  have hclear : rflagsUser.getLsbD 12 = false ∧ rflagsUser.getLsbD 13 = false ∧
      rflagsUser.getLsbD 14 = false ∧ rflagsUser.getLsbD 17 = false := ⟨rfl, rfl, rfl, rfl⟩
  unfold UserFlags
  simp only [getLsbD_restoredFlags, hif, hclear, Bool.or_true, Bool.or_false, true_and]

theorem orElse_lt_iff {x y : BitVec 64} (hy : y.toNat < c2UserTop) :
    (UserFrame.orElse x y).toNat < c2UserTop ↔ x.toNat < c2UserTop := by
  unfold UserFrame.orElse
  by_cases hx : x = 0
  · subst hx
    rw [if_neg (by simp)]
    exact ⟨fun _ => by decide, fun _ => hy⟩
  · rw [if_pos hx]

theorem lt_of_c2UserRange {base len : ℕ} (h : c2UserRange base len = true) : base < c2UserTop := by
  unfold c2UserRange at h
  simp only [decide_eq_true_eq, not_or, not_le] at h
  exact h.2.1

theorem last_lt_of_c2UserRange {base len : ℕ} (h : c2UserRange base len = true) :
    u64 (base + len - 1) < c2UserTop := by
  unfold c2UserRange at h
  simp only [decide_eq_true_eq, not_or, not_le] at h
  exact h.2.2

theorem userContext_resumed (hf : f.rsp.toNat < c2UserTop) :
    UserContext (resumed fr f) ↔ fr.rip.toNat < c2UserTop ∧ fr.rsp.toNat < c2UserTop ∧
      UserFlags (restoredFlags fr) := by
  constructor
  · rintro ⟨-, -, hrip, hrsp, hflags⟩
    exact ⟨hrip, (orElse_lt_iff hf).1 hrsp, hflags⟩
  · rintro ⟨hrip, hrsp, hflags⟩
    exact ⟨rfl, rfl, hrip, (orElse_lt_iff hf).2 hrsp, hflags⟩

/-- For every frame: `rt_sigreturn` resumes a context of ring 3 with a mask that leaves `SIGKILL`
and `SIGSTOP` unblocked if and only if the words of the frame are harmless. -/
theorem rtSigreturn_user_iff (hused : t.used = true)
    (hread : c2UserCopyIn m t.space f.rsp.toNat SigFrame.size = some bs) :
    UserContext (t.rtSigreturn m f).2 ∧ Unblockable (t.rtSigreturn m f).1.blocked ↔
      Harmless (SigFrame.ofBytes bs) := by
  obtain ⟨-, -, -, hrange, -⟩ := (c2UserCopyIn_eq_some (by decide)).1 hread
  rw [rtSigreturn_eq hused hread, userContext_resumed (lt_of_c2UserRange hrange),
    userFlags_restoredFlags, unblockable_iff]
  constructor
  · rintro ⟨⟨hrip, hrsp, h12, h13, h14, h17⟩, h9, h19⟩
    exact ⟨hrip, hrsp, ⟨h12, h13⟩, h14, h17, h9, h19⟩
  · rintro ⟨hrip, hrsp, ⟨h12, h13⟩, h14, h17, h9, h19⟩
    exact ⟨⟨hrip, hrsp, h12, h13, h14, h17⟩, h9, h19⟩

/-- The registers of a system call with the stack pointer at 0x2000. -/
def sampleEntry : UserFrame :=
  ⟨⟨15, 0, 0x8000, 0, 0, 0, 0, 0, 0, 0, 0x202, 0, 0, 0, 0⟩, 0x80, 0, 0x8000, 0x2B, 0x202, 0x2000, 0x33⟩

/-- A stack that holds only zeros. -/
def zeroMem : UserMem := ⟨samplePages, fun _ => 0⟩

/-- A stack whose bytes are all set, as a frame at 0x2000 that asks for every privilege. -/
def onesMem : UserMem := ⟨samplePages, fun _ => 0xFF⟩

theorem rtSigreturn_user_zero : UserContext (SigTask.sample.rtSigreturn zeroMem sampleEntry).2 ∧
    Unblockable (SigTask.sample.rtSigreturn zeroMem sampleEntry).1.blocked := by
  have hread : c2UserCopyIn zeroMem SigTask.sample.space sampleEntry.rsp.toNat SigFrame.size =
      some (List.replicate SigFrame.size 0) := by decide +kernel
  exact (rtSigreturn_user_iff rfl hread).2
    ⟨by decide +kernel, by decide +kernel, by decide +kernel, by decide +kernel,
      by decide +kernel, by decide +kernel, by decide +kernel⟩

theorem rtSigreturn_not_user : ¬ ∀ (t : SigTask) (m : UserMem) (f : UserFrame) (bs : Bytes),
    t.used = true → c2UserCopyIn m t.space f.rsp.toNat SigFrame.size = some bs →
    UserContext (t.rtSigreturn m f).2 ∧ Unblockable (t.rtSigreturn m f).1.blocked := by
  intro h
  have hread : c2UserCopyIn onesMem SigTask.sample.space sampleEntry.rsp.toNat SigFrame.size =
      some (List.replicate SigFrame.size 0xFF) := by decide +kernel
  obtain ⟨-, h12, -⟩ := (h SigTask.sample onesMem sampleEntry _ rfl hread).1.rflags
  have hset : (SigTask.sample.rtSigreturn onesMem sampleEntry).2.rflags.getLsbD 12 = true := by
    decide +kernel
  rw [hset] at h12
  cases h12

end Ridux
