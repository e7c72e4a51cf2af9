import Ridux.Signal.Return

/-!
# From a signal back to the interrupted context

* `deliverable`: the signal that `sig_check_pending` delivers;
* `sigAddrs`, `sigBytes`: what a delivery stores on the user's stack, and where;
* `copies_eq`: a delivery stores exactly that;
* `Restored`, `KeepsRedZone`: the context is back, and no byte from 128 below the stack pointer on
  has changed;
* `Clean`: the interrupted contexts for which both hold.

The frame is rounded down from 280 bytes below the stack pointer, so its end and the trampoline are
always among the 128 bytes.
-/

namespace Ridux

open Lib List Option

namespace SigTask

/-! ### The signal -/

/-- A signal that is pending, not blocked, and has a handler. -/
def sigReady (t : SigTask) (s : ℕ) : Bool :=
  t.pending.has s && !t.blocked.has s && (t.actions s).handler != sigIgn &&
    (t.actions s).handler != sigDfl

/-- The signal that is delivered: the first with a handler.  Those before it are ignored, or do
what they do by default. -/
def deliverable (t : SigTask) : Option ℕ := (List.range' 1 (nsig - 1)).find? t.sigReady

/-- The three copies of a delivery, all of which succeed. -/
def Copies (t : SigTask) (m : UserMem) (s : ℕ) (m' : UserMem) : Prop :=
  ∃ m₁ m₂, c2UserCopyOut m t.space t.newRsp.toNat (t.sigFrame s).bytes = (true, m₁) ∧
    c2UserCopyOut m₁ t.space t.trampAddr.toNat sigreturnTramp = (true, m₂) ∧
    c2UserCopyOut m₂ t.space t.retSlot.toNat (leBytes 8 t.trampAddr.toNat) = (true, m')

variable {t t' : SigTask} {m m' : UserMem} {s n : ℕ}

theorem sigDefaultAction_eq (t : SigTask) (s : ℕ) : ∃ used state code,
    t.sigDefaultAction s = { t with used := used, state := state, exitCode := code } := by
  unfold sigDefaultAction taskExit makeRunnable
  split_ifs <;> exact ⟨_, _, _, rfl⟩

theorem sigDefaultAction_inHandler (t : SigTask) (s : ℕ) :
    (t.sigDefaultAction s).inHandler = t.inHandler := by
  obtain ⟨used, state, code, h⟩ := sigDefaultAction_eq t s
  rw [h]

theorem sigDeliver_copies (hin : t.inHandler = false) (h : t.sigDeliver m s = (t', m'))
    (hin' : t'.inHandler = true) :
    t.Copies m s m' ∧ t' = (t.redirect s).enterHandler s t.retSlot := by
  have hfail : ∀ {u : SigTask} {r : UserMem}, u.inHandler = false →
      ((u.sigDefaultAction sigsegv, r) : SigTask × UserMem) ≠ (t', m') := by
    intro u r hu heq
    have : (u.sigDefaultAction sigsegv).inHandler = true := by
      rw [(Prod.mk.inj heq).1]
      exact hin'
    rw [sigDefaultAction_inHandler, hu] at this
    cases this
  unfold sigDeliver at h
  cases h1 : c2UserCopyOut m t.space t.newRsp.toNat (t.sigFrame s).bytes with
  | mk ok₁ m₁ =>
    rw [h1] at h
    cases ok₁ with
    | false => exact absurd h (hfail hin)
    | true =>
      dsimp only at h
      rw [if_neg (by decide)] at h
      cases h2 : c2UserCopyOut m₁ t.space t.trampAddr.toNat sigreturnTramp with
      | mk ok₂ m₂ =>
        rw [h2] at h
        cases ok₂ with
        | false => exact absurd h (hfail hin)
        | true =>
          dsimp only at h
          rw [if_neg (by decide)] at h
          cases h3 : c2UserCopyOut m₂ t.space t.retSlot.toNat (leBytes 8 t.trampAddr.toNat) with
          | mk ok₃ m₃ =>
            rw [h3] at h
            cases ok₃ with
            | false => exact absurd h (hfail (u := t.redirect s) hin)
            | true =>
              dsimp only at h
              rw [if_neg (by decide)] at h
              obtain ⟨h4, rfl⟩ := Prod.mk.inj h
              exact ⟨⟨m₁, m₂, h1, h2, h3⟩, h4.symm⟩

/-- Two states of a task that differ in whether and how it lives, and in what is pending. -/
def Alike (t t₁ : SigTask) : Prop := ∃ used state code pending,
  t₁ = { t with used := used, state := state, exitCode := code, pending := pending }

theorem Alike.refl (t : SigTask) : Alike t t := ⟨_, _, _, _, rfl⟩

theorem Alike.trans {t₁ t₂ : SigTask} (h : Alike t t₁) (h' : Alike t₁ t₂) : Alike t t₂ := by
  obtain ⟨_, _, _, _, rfl⟩ := h
  obtain ⟨_, _, _, _, rfl⟩ := h'
  exact ⟨_, _, _, _, rfl⟩

theorem alike_pending (t : SigTask) (p : SigSet) : Alike t { t with pending := p } :=
  ⟨_, _, _, _, rfl⟩

theorem alike_sigDefaultAction (t : SigTask) (s : ℕ) : Alike t (t.sigDefaultAction s) := by
  obtain ⟨used, state, code, h⟩ := sigDefaultAction_eq t s
  exact ⟨used, state, code, t.pending, h⟩

/-- What the loop does: it delivers the first signal with a handler, if there is one.  What it has
passed by then changes nothing for the delivery. -/
theorem sigScan_eq {ss : List ℕ} (hss : ∀ n ∈ ss, n < 64) (hnd : ss.Nodup) :
    ∃ t₁, Alike t t₁ ∧ sigScan ss t m =
      match ss.find? t.sigReady with
      | none => (t₁, m)
      | some s => t₁.sigDeliver m s := by
  induction ss generalizing t with
  | nil => exact ⟨t, .refl t, rfl⟩
  | cons n ss ih =>
    obtain ⟨hn, hnd⟩ := nodup_cons.1 hnd
    have hss' := fun k hk => hss k (mem_cons_of_mem _ hk)
    have hlt := hss n mem_cons_self
    have hskip : t.sigReady n = false → (n :: ss).find? t.sigReady = ss.find? t.sigReady := by
      intro hr
      rw [List.find?_cons, hr]
    -- the signal that was taken from the pending ones is not among those that are left
    have hcongr : ∀ t₁ : SigTask, t₁.pending = t.pending.del n → t₁.blocked = t.blocked →
        t₁.actions = t.actions → ss.find? t₁.sigReady = ss.find? t.sigReady := by
      intro t₁ hp hb ha
      refine List.find?_congr fun k hk => ?_
      have hne : k ≠ n := by rintro rfl; exact hn hk
      unfold sigReady
      rw [hp, hb, ha, SigSet.has_del_of_lt _ (hss' k hk) hlt, decide_eq_true hne, Bool.and_true]
    unfold sigScan
    by_cases hp : t.pending.has n = true
    · rw [if_neg (by simp [hp])]
      by_cases hb : t.blocked.has n = true
      · rw [if_pos hb, hskip (by simp [sigReady, hb])]
        exact ih hss' hnd
      · rw [if_neg hb]
        dsimp only
        by_cases hi : (t.actions n).handler = sigIgn
        · rw [if_pos hi, hskip (by simp [sigReady, hi])]
          obtain ⟨t₁, ht₁, h⟩ := ih (t := { t with pending := t.pending.del n }) hss' hnd
          rw [hcongr { t with pending := t.pending.del n } rfl rfl rfl] at h
          exact ⟨t₁, (alike_pending t _).trans ht₁, h⟩
        · rw [if_neg hi]
          by_cases hd : (t.actions n).handler = sigDfl
          · rw [if_pos hd, hskip (by simp [sigReady, hd])]
            have hdfl := sigDefaultAction_eq { t with pending := t.pending.del n } n
            set t₂ := sigDefaultAction { t with pending := t.pending.del n } n with ht₂
            obtain ⟨t₁, ht₁, h⟩ := ih (t := t₂) hss' hnd
            obtain ⟨used, state, code, heq⟩ := hdfl
            rw [hcongr t₂ (by rw [heq]) (by rw [heq]) (by rw [heq])] at h
            exact ⟨t₁, ((alike_pending t _).trans (alike_sigDefaultAction _ n)).trans ht₁, h⟩
          · rw [if_neg hd]
            have hready : t.sigReady n = true := by simp [sigReady, hp, hb, hi, hd]
            rw [List.find?_cons, hready]
            exact ⟨_, alike_pending t _, rfl⟩
    · rw [if_pos (by simpa using hp), hskip (by simp [sigReady, hp])]
      exact ih hss' hnd

theorem sigCheckPending_eq (t : SigTask) (m : UserMem) : t.sigCheckPending m = (t, m) ∨
    t.inHandler = false ∧ ∃ t₁, Alike t t₁ ∧ t.sigCheckPending m =
      match t.deliverable with
      | none => (t₁, m)
      | some s => t₁.sigDeliver m s := by
  have hlt : ∀ n ∈ List.range' 1 (nsig - 1), n < 64 := by
    intro n hn
    have := (mem_range'_1.1 hn).2
    unfold nsig at this
    omega
  unfold sigCheckPending
  by_cases hu : !t.used
  · rw [if_pos hu]
    exact .inl rfl
  · rw [if_neg hu]
    by_cases hin : t.inHandler = true
    · rw [if_pos hin]
      exact .inl rfl
    · rw [if_neg hin]
      by_cases hcs : t.ctx.cs ≠ 0x28 ∧ t.ctx.cs ≠ 0x23
      · rw [if_pos hcs]
        exact .inl rfl
      · rw [if_neg hcs]
        exact .inr ⟨by simpa using hin, sigScan_eq hlt nodup_range'⟩

theorem sigCheckPending_delivers (hin : t.inHandler = false)
    (hin' : (t.sigCheckPending m).1.inHandler = true) :
    ∃ s, t.deliverable = some s ∧ t.Copies m s (t.sigCheckPending m).2 ∧
      (t.sigCheckPending m).1.space = t.space ∧ (t.sigCheckPending m).1.ctx.rsp = t.retSlot ∧
      (t.sigCheckPending m).1.lastSignal = s := by
  rcases sigCheckPending_eq t m with h | ⟨-, t₁, ⟨used, state, code, pending, rfl⟩, h⟩
  · rw [h, hin] at hin'
    cases hin'
  · cases hs : t.deliverable with
    | none =>
      rw [hs] at h
      rw [h] at hin'
      exact absurd hin' (by simp [hin])
    | some s =>
      rw [hs] at h
      dsimp only at h
      rw [h] at hin' ⊢
      obtain ⟨hc, heq⟩ := sigDeliver_copies
        (t := { t with used := used, state := state, exitCode := code, pending := pending }) hin
        Prod.mk.eta.symm hin'
      refine ⟨s, rfl, hc, ?_⟩
      rw [heq]
      exact ⟨rfl, rfl, rfl⟩

theorem sigCheckPending_of_inHandler (hin : t.inHandler = true) : t.sigCheckPending m = (t, m) := by
  unfold sigCheckPending
  split_ifs
  · rfl
  · rfl

/-! ### The stores -/

/-- The user addresses of the stores of a delivery: the frame, the trampoline, the return
address. -/
def sigAddrs (t : SigTask) : List ℕ :=
  List.range' t.newRsp.toNat SigFrame.size ++
    (List.range' t.trampAddr.toNat sigreturnTramp.length ++ List.range' t.retSlot.toNat 8)

/-- The bytes that are stored. -/
def sigBytes (t : SigTask) (s : ℕ) : Bytes :=
  (t.sigFrame s).bytes ++ (sigreturnTramp ++ leBytes 8 t.trampAddr.toNat)

theorem toNat_and_not_15 (x : BitVec 64) :
    (x &&& ~~~(0xF : BitVec 64)).toNat = x.toNat / 16 * 16 := by
  have hmask : ∀ i, (0xF : BitVec 64).getLsbD i = decide (i < 4) := by
    intro i
    have h : (0xF : BitVec 64) = BitVec.ofNat 64 (2 ^ 4 - 1) := by decide
    rw [h, BitVec.getLsbD_ofNat, Nat.testBit_two_pow_sub_one]
    by_cases hi : i < 4
    · simp [hi]; omega
    · simp [hi]
  have hshift : x &&& ~~~(0xF : BitVec 64) = (x >>> 4) <<< 4 := by
    apply BitVec.eq_of_getLsbD_eq
    intro i hi
    rw [BitVec.getLsbD_and, BitVec.getLsbD_not, hmask, BitVec.getLsbD_shiftLeft,
      BitVec.getLsbD_ushiftRight]
    by_cases h4 : i < 4
    · simp [h4]
    · have hsub : 4 + (i - 4) = i := by omega
      simp [h4, hi, hsub]
  have hlt := x.isLt
  rw [hshift, BitVec.toNat_shiftLeft, BitVec.toNat_ushiftRight, Nat.shiftLeft_eq,
    Nat.shiftRight_eq_div_pow]
  omega

/-- Where a delivery puts things: `n` is the address of the frame. -/
structure Placed (t : SigTask) (n : ℕ) : Prop where
  frame : t.newRsp.toNat = n
  tramp : t.trampAddr.toNat = n + 272
  ret : t.retSlot.toNat + 8 = n
  below : n + 280 ≤ t.ctx.rsp.toNat
  near : t.ctx.rsp.toNat < n + 296
  top : n + 280 ≤ c2UserTop

/-- A frame and a trampoline that pass the tests of their ranges lie right below the stack
pointer. -/
theorem placed_of_range (h0 : t.newRsp.toNat ≠ 0)
    (hr : c2UserRange t.newRsp.toNat SigFrame.size = true)
    (hr' : c2UserRange t.trampAddr.toNat sigreturnTramp.length = true) :
    t.Placed t.newRsp.toNat := by
  have hn : t.newRsp.toNat = (t.ctx.rsp - 272 - 8).toNat / 16 * 16 := toNat_and_not_15 _
  have hsub : (t.ctx.rsp - 272 - 8).toNat = (t.ctx.rsp.toNat + (2 ^ 64 - 280)) % 2 ^ 64 := by
    have hlt := t.ctx.rsp.isLt
    have h272 : (272 : BitVec 64).toNat = 272 := rfl
    have h8 : (8 : BitVec 64).toNat = 8 := rfl
    rw [BitVec.toNat_sub, BitVec.toNat_sub, h272, h8]
    omega
  have htop : t.newRsp.toNat < 0x0000800000000000 := lt_of_c2UserRange hr
  have hrsp := t.ctx.rsp.isLt
  have htramp : t.trampAddr.toNat = (t.newRsp.toNat + 272) % 2 ^ 64 := BitVec.toNat_add _ _
  have hret : t.retSlot.toNat = (2 ^ 64 - 8 + t.newRsp.toNat) % 2 ^ 64 := BitVec.toNat_sub _ _
  have hlast : (t.trampAddr.toNat + 8 - 1) % 2 ^ 64 < 0x0000800000000000 := last_lt_of_c2UserRange hr'
  have hc : c2UserTop = 0x0000800000000000 := rfl
  exact ⟨rfl, by omega, by omega, by omega, by omega, by omega⟩

theorem Placed.addrs (h : t.Placed n) :
    t.sigAddrs.Nodup ∧ ∀ a ∈ t.sigAddrs, n ≤ a + 8 ∧ a < n + 280 := by
  obtain ⟨h1, h2, h3, -, -, -⟩ := h
  have hlen : sigreturnTramp.length = 8 := rfl
  unfold sigAddrs SigFrame.size
  rw [h1, h2, hlen]
  refine ⟨?_, fun a ha => ?_⟩
  · rw [nodup_append, nodup_append]
    refine ⟨nodup_range', ⟨nodup_range', nodup_range', ?_⟩, ?_⟩
    · intro a ha b hb
      rw [mem_range'_1] at ha hb
      omega
    · intro a ha b hb
      rw [mem_append] at hb
      simp only [mem_range'_1] at ha hb
      omega
  · simp only [mem_append, mem_range'_1] at ha
    omega

theorem copies_eq (h : t.Copies m s m') : ∃ as ps, t.space = some as ∧ t.Placed t.newRsp.toNat ∧
    List.Forall₂ (fun a p => c2UserPhys as m.paging true a = some p) t.sigAddrs ps ∧
    m' = { m with bytes := storeAll m.bytes ps (t.sigBytes s) } := by
  obtain ⟨m₁, m₂, h₁, h₂, h₃⟩ := h
  obtain ⟨as, ps₁, has, h0, hr, hp₁, rfl⟩ := c2UserCopyOut_true (SigFrame.bytes_ne_nil _) h₁
  have hne₂ : sigreturnTramp ≠ [] := cons_ne_nil _ _
  have hne₃ : leBytes 8 t.trampAddr.toNat ≠ [] := cons_ne_nil _ _
  obtain ⟨as₂, ps₂, has₂, -, hr₂, hp₂, rfl⟩ := c2UserCopyOut_true hne₂ h₂
  obtain ⟨as₃, ps₃, has₃, -, -, hp₃, rfl⟩ := c2UserCopyOut_true hne₃ h₃
  obtain rfl := some.inj (has.symm.trans has₂)
  obtain rfl := some.inj (has.symm.trans has₃)
  rw [SigFrame.length_bytes] at hr hp₁
  rw [length_leBytes] at hp₃
  have hl₁ : ps₁.length = (t.sigFrame s).bytes.length := by
    rw [← hp₁.length_eq, length_range', SigFrame.length_bytes]
  have hl₂ : ps₂.length = sigreturnTramp.length := by rw [← hp₂.length_eq, length_range']
  refine ⟨as, ps₁ ++ (ps₂ ++ ps₃), has, placed_of_range h0 hr hr₂,
    rel_append hp₁ (rel_append hp₂ hp₃), ?_⟩
  unfold sigBytes
  rw [storeAll_append hl₁, storeAll_append hl₂]

theorem Placed.nodup (h : t.Placed n) {as : Space} {p : Paging} {write : Bool} {ps : List ℕ}
    (hps : List.Forall₂ (fun a q => c2UserPhys as p write a = some q) t.sigAddrs ps) : ps.Nodup := by
  obtain ⟨hnd, hwindow⟩ := h.addrs
  refine forall₂_nodup hps hnd fun a ha b hb q hq hq' => ?_
  have hwa := hwindow a ha
  have hwb := hwindow b hb
  have hpage : pageSize = 4096 := pageSize_eq
  rcases Nat.lt_trichotomy a b with hlt | heq | hgt
  · exact absurd rfl (c2UserPhys_ne hq hq' hlt (by omega))
  · exact heq
  · exact absurd rfl (c2UserPhys_ne hq' hq hgt (by omega))

theorem copies_readsAt (h : t.Copies m s m') : ∃ as, t.space = some as ∧
    List.Forall₂ (ReadsAt (c2UserPhys as m'.paging false) m'.bytes) t.sigAddrs (t.sigBytes s) := by
  obtain ⟨as, ps, has, hplaced, hps, rfl⟩ := copies_eq h
  have hlen : ps.length = (t.sigBytes s).length := by
    rw [← hps.length_eq]
    simp [sigAddrs, sigBytes]
  have hstored := storeAll_of_nodup (hplaced.nodup hps) (t.sigBytes s) m.bytes hlen
  refine ⟨as, has, (forall₂_comp hps hstored).imp fun a b h => ?_⟩
  obtain ⟨p, hp, hb⟩ := h
  exact ⟨p, c2UserPhys_read hp, hb⟩

theorem copies_frame (h : t.Copies m s m') :
    c2UserCopyIn m' t.space t.newRsp.toNat SigFrame.size = some (t.sigFrame s).bytes := by
  obtain ⟨m₁, -, h₁, -⟩ := id h
  obtain ⟨-, -, -, h0, hr, -⟩ := c2UserCopyOut_true (SigFrame.bytes_ne_nil _) h₁
  rw [SigFrame.length_bytes] at hr
  obtain ⟨as, has, hreads⟩ := copies_readsAt h
  have htake : (t.sigBytes s).take SigFrame.size = (t.sigFrame s).bytes :=
    take_left' (SigFrame.length_bytes _)
  refine (c2UserCopyIn_eq_some (by decide)).2 ⟨as, has, h0, hr, ?_⟩
  rw [← htake]
  exact (forall₂_piece.1 hreads).1

/-! ### The red zone -/

/-- The byte that a task sees at an address. -/
def userByte (space : Option Space) (m : UserMem) (va : ℕ) : Option UInt8 :=
  space.bind fun as => (c2UserPhys as m.paging false va).map m.bytes

/-- Whether two addresses of the task lead to one byte of memory. -/
def SameByte (space : Option Space) (m : UserMem) (va va' : ℕ) : Prop :=
  ∃ as p, space = some as ∧ c2UserPhys as m.paging false va = some p ∧
    c2UserPhys as m.paging false va' = some p

/-- The user's addresses from 128 bytes below the stack pointer on. -/
def InRedZone (t : SigTask) (va : ℕ) : Prop := t.ctx.rsp.toNat ≤ va + 128 ∧ va < c2UserTop

/-- No byte of the red zone or above it has changed. -/
def KeepsRedZone (t : SigTask) (m m' : UserMem) : Prop :=
  ∀ va, t.InRedZone va → userByte t.space m' va = userByte t.space m va

/-- Every byte that a delivery of `s` stores in the red zone, or above it, is there already. -/
def Spared (t : SigTask) (m : UserMem) (s : ℕ) : Prop :=
  ∀ q ∈ t.sigAddrs.zip (t.sigBytes s), ∀ va, t.InRedZone va → SameByte t.space m q.1 va →
    userByte t.space m va = some q.2

theorem keepsRedZone_iff (h : t.Copies m s m') : t.KeepsRedZone m m' ↔ t.Spared m s := by
  obtain ⟨as, ps, has, hplaced, hps, rfl⟩ := copies_eq h
  have hlen : ps.length = (t.sigBytes s).length := by
    rw [← hps.length_eq]
    simp [sigAddrs, sigBytes]
  have hstored := storeAll_of_nodup (hplaced.nodup hps) (t.sigBytes s) m.bytes hlen
  have hbyte : ∀ (mem : UserMem) {va p}, c2UserPhys as mem.paging false va = some p →
      userByte t.space mem va = some (mem.bytes p) := by
    intro mem va p hp
    unfold userByte
    rw [has, bind_some, hp, map_some]
  constructor
  · rintro hkeep q hq va hva ⟨as', p, has', hq', hp⟩
    obtain rfl := some.inj (has.symm.trans has')
    obtain ⟨p', -, hp', hb⟩ := forall₂_between hps hstored q hq
    rw [c2UserPhys_read hp'] at hq'
    obtain rfl := some.inj hq'
    rw [← hkeep va hva, hbyte { m with bytes := storeAll m.bytes ps (t.sigBytes s) } hp, ← hb]
  · intro hspared va hva
    cases hp : c2UserPhys as m.paging false va with
    | none =>
      unfold userByte
      rw [has, bind_some, bind_some]
      dsimp only
      rw [hp]
      rfl
    | some p =>
      rw [hbyte { m with bytes := storeAll m.bytes ps (t.sigBytes s) } hp]
      by_cases hmem : p ∈ ps
      · obtain ⟨q, hq, hq', hb⟩ := forall₂_around hps hstored p hmem
        rw [hspared q hq va hva ⟨as, p, has, c2UserPhys_read hq', hp⟩, ← hb]
      · rw [hbyte m hp]
        exact congrArg some (storeAll_of_not_mem hmem _ _)

theorem Copies.tramp_inRedZone (h : t.Copies m s m') {i : ℕ} (hi : i < sigreturnTramp.length) :
    t.InRedZone (t.trampAddr.toNat + i) ∧ t.trampAddr.toNat + i < t.ctx.rsp.toNat := by
  obtain ⟨as, ps, -, ⟨h1, h2, h3, h4, h5, h6⟩, -, -⟩ := copies_eq h
  have hlen : sigreturnTramp.length = 8 := rfl
  exact ⟨⟨by omega, by omega⟩, by omega⟩

/-! ### There and back -/

/-- The registers that a context and the user's registers in a system call have in common. -/
def regs (g : Gprs) (rip rsp rflags : BitVec 64) : Gprs × BitVec 64 × BitVec 64 × BitVec 64 :=
  (g, rip, rsp, rflags)

/-- The way back has led to the context that was interrupted: in the task, in the registers that it
sees, and in its mask. -/
structure Restored (t : SigTask) (r : SigTask × UserFrame) : Prop where
  saved : regs r.1.ctx.toGprs r.1.ctx.rip r.1.ctx.rsp r.1.ctx.rflags =
    regs t.ctx.toGprs t.ctx.rip t.ctx.rsp t.ctx.rflags
  seen : regs r.2.toGprs r.2.rip r.2.rsp r.2.rflags =
    regs t.ctx.toGprs t.ctx.rip t.ctx.rsp t.ctx.rflags
  blocked : r.1.blocked = t.blocked

/-- A context between two instructions of which the first is a system call: the address is in
`rcx`, the flags are in `r11`, and interrupts are on. -/
structure AtSyscall (c : Ctx) : Prop where
  rcx : c.rcx = c.rip
  r11 : c.r11 = c.rflags
  rflags : c.rflags ||| rflagsUser = c.rflags

/-- The interrupted contexts that a delivery of `s` and the return from it keep. -/
structure Clean (t : SigTask) (m : UserMem) (s : ℕ) : Prop where
  ctx : AtSyscall t.ctx
  spared : t.Spared m s

theorem restored_iff {u : SigTask} {f : UserFrame} (h0 : t.ctx.rsp ≠ 0) :
    Restored t (u.restore (t.sigFrame s), resumed (t.sigFrame s) f) ↔ AtSyscall t.ctx := by
  have hrsp : UserFrame.orElse t.ctx.rsp f.rsp = t.ctx.rsp := if_pos h0
  constructor
  · rintro ⟨hsaved, hseen, -⟩
    have hflags : t.ctx.rflags ||| rflagsUser = t.ctx.rflags := (Prod.mk.inj hsaved).2 |> fun h =>
      (Prod.mk.inj (Prod.mk.inj h).2).2
    have hgprs := (Prod.mk.inj hseen).1
    have hrcx : t.ctx.rip = t.ctx.rcx := congrArg Gprs.rcx hgprs
    have hr11 : t.ctx.rflags ||| rflagsUser = t.ctx.r11 := congrArg Gprs.r11 hgprs
    exact ⟨hrcx.symm, by rw [← hr11, hflags], hflags⟩
  · rintro ⟨hrcx, hr11, hflags⟩
    have hrestored : restoredFlags (t.sigFrame s) = t.ctx.rflags := hflags
    refine ⟨?_, ?_, rfl⟩
    · show regs t.ctx.toGprs t.ctx.rip t.ctx.rsp (restoredFlags (t.sigFrame s)) = _
      rw [hrestored]
    · show regs { t.ctx.toGprs with rcx := t.ctx.rip, r11 := restoredFlags (t.sigFrame s) }
        t.ctx.rip (UserFrame.orElse t.ctx.rsp f.rsp) (restoredFlags (t.sigFrame s)) = _
      rw [hrestored, hrsp, ← hrcx, ← hr11]

/-- The handler that was entered with `d` has returned to the trampoline, which calls
`rt_sigreturn` with the registers `f`.  Its frame reads as it was laid out; what else has happened
to the task and to the memory, `u` and `v`, is left open. -/
structure HandlerReturns (d : SigTask × UserMem) (u : SigTask) (v : UserMem) (f : UserFrame) :
    Prop where
  used : u.used = true
  rsp : f.rsp = d.1.ctx.rsp + 8
  frame : c2UserCopyIn v u.space f.rsp.toNat SigFrame.size =
    c2UserCopyIn d.2 d.1.space f.rsp.toNat SigFrame.size

/-- For every delivery and every return from its handler: the interrupted context comes back and
the red zone is kept if and only if the context is clean.  The code that the handler returns to is
always stored in the red zone, and while a handler runs nothing further is delivered. -/
theorem signal_round_trip (hin : t.inHandler = false)
    (hin' : (t.sigCheckPending m).1.inHandler = true) :
    ∃ s, t.deliverable = some s ∧
      (∀ i < sigreturnTramp.length, t.InRedZone (t.trampAddr.toNat + i)) ∧
      (∀ (u : SigTask) v, u.inHandler = true → u.sigCheckPending v = (u, v)) ∧
      ∀ u v f, HandlerReturns (t.sigCheckPending m) u v f →
        (Restored t (u.rtSigreturn v f) ∧ t.KeepsRedZone m (t.sigCheckPending m).2 ↔
          t.Clean m s) := by
  obtain ⟨s, hs, hcopies, hspace, hrsp, -⟩ := sigCheckPending_delivers hin hin'
  refine ⟨s, hs, fun i hi => (hcopies.tramp_inRedZone hi).1,
    fun u v hu => sigCheckPending_of_inHandler hu, ?_⟩
  rintro u v f ⟨hused, hf, hframe⟩
  have hslot : t.retSlot + 8 = t.newRsp := BitVec.sub_add_cancel _ _
  rw [hrsp, hslot] at hf
  rw [hf, hspace, copies_frame hcopies] at hframe
  have h0 : t.ctx.rsp ≠ 0 := by
    obtain ⟨-, -, -, hplaced, -⟩ := copies_eq hcopies
    have hbelow := hplaced.below
    rintro h0
    rw [h0] at hbelow
    exact absurd hbelow (by simp)
  rw [rtSigreturn_eq hused (by rw [hf]; exact hframe), SigFrame.ofBytes_bytes, restored_iff h0,
    keepsRedZone_iff hcopies]
  exact ⟨fun h => ⟨h.1, h.2⟩, fun h => ⟨h.ctx, h.spared⟩⟩

/-- A task between two instructions, with `SIGUSR1` pending and a handler for it. -/
def interrupted : SigTask :=
  { sample with
    ctx := { sample.ctx with rcx := 0x8000, r11 := 0x202 }
    pending := SigSet.empty.add 10
    actions := fun s => if s = 10 then ⟨0x9000, .empty, 0⟩ else ⟨sigDfl, .empty, 0⟩ }

/-- Its handler has returned at once. -/
def interruptedReturn : UserFrame := { sampleEntry with rsp := 0x1EE0 }

theorem interrupted_returns : HandlerReturns (interrupted.sigCheckPending zeroMem)
    (interrupted.sigCheckPending zeroMem).1 (interrupted.sigCheckPending zeroMem).2
    interruptedReturn :=
  ⟨by decide +kernel, by decide +kernel, rfl⟩

theorem signal_round_trip_interrupted :
    Restored interrupted ((interrupted.sigCheckPending zeroMem).1.rtSigreturn
        (interrupted.sigCheckPending zeroMem).2 interruptedReturn) ∧
      interrupted.KeepsRedZone zeroMem (interrupted.sigCheckPending zeroMem).2 ↔
      interrupted.Clean zeroMem 10 := by
  have hs : interrupted.deliverable = some 10 := by decide +kernel
  obtain ⟨s, hs', -, -, h⟩ :=
    signal_round_trip (t := interrupted) (m := zeroMem) rfl (by decide +kernel)
  obtain rfl := some.inj (hs.symm.trans hs')
  exact h _ _ _ interrupted_returns

theorem signal_not_round_trip : ¬ ∀ (t : SigTask) (m : UserMem) (u : SigTask) (v : UserMem)
    (f : UserFrame), t.inHandler = false → (t.sigCheckPending m).1.inHandler = true →
    HandlerReturns (t.sigCheckPending m) u v f →
    Restored t (u.rtSigreturn v f) ∧ t.KeepsRedZone m (t.sigCheckPending m).2 := by
  intro h
  have hin : (interrupted.sigCheckPending zeroMem).1.inHandler = true := by decide +kernel
  -- the first byte of the trampoline, 16 bytes below the stack pointer
  have hkept := (h interrupted zeroMem _ _ _ rfl hin interrupted_returns).2 0x1FF0
    ⟨by decide +kernel, by decide⟩
  have hbefore : userByte interrupted.space zeroMem 0x1FF0 = some 0 := by decide +kernel
  have hafter : userByte interrupted.space (interrupted.sigCheckPending zeroMem).2 0x1FF0 =
      some 0xB8 := by decide +kernel
  rw [hafter, hbefore] at hkept
  exact absurd (some.inj hkept) (by decide)

end SigTask

end Ridux
