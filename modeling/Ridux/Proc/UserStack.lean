import Mathlib.Data.List.Forall2
import Ridux.Lib.Pile
import Ridux.Text

/-!
# The first stack of a program

* `elf64SetupStack`: the strings, the random bytes and the tables, downwards from the top;
* `Setup.Ends`: how a step ends, with a value or with an error, and one lemma for each loop;
* `userStack_sysV`: what a program finds there.
-/

namespace Ridux

open Lib List

/-- `C3_USER_STACK_TOP`. -/
def c3UserStackTop : ℕ := 0x7FFFFFFFE000

/-- `stack_base`. -/
def stackBase : ℕ := c3UserStackTop - 8 * 1024 * 1024

/-- `auxv_t`. -/
structure AuxV where
  aType : BitVec 64
  aVal : BitVec 64

def atExecfn : BitVec 64 := 31
def atPlatform : BitVec 64 := 15
def atRandom : BitVec 64 := 25

inductive SetupErr
  | einval | e2big | efault

abbrev UserStack := Pile UInt8

/-- A step of `elf64_setup_stack`, or the error with what was written until then. -/
abbrev Setup (α : Type) := Except (SetupErr × UserStack) α

/-- Words, one behind the other. -/
def wordsBytes (ws : List (BitVec 64)) : Bytes := ws.flatMap fun w => leBytes 8 w.toNat

namespace UserStack

variable (s : UserStack)

/-- `if(sp<stack_base+len)return -E2BIG;` and the copy. -/
def put (bs : Bytes) : Setup UserStack :=
  match s.push stackBase bs with
  | none => .error (.e2big, s)
  | some t => .ok t

/-- The loop over the strings of `envp` or `argv`, from the last one on: where each of them is. -/
def putStrings : List (Option CString) → Setup (List (BitVec 64) × UserStack)
  | [] => .ok ([], s)
  | str :: l => do
    let (ps, s) ← putStrings l
    match str with
    | none => .error (.efault, s)
    | some str => do
      let s ← s.put (str.val ++ [0])
      .ok (.ofNat 64 s.sp :: ps, s)

/-- A loop over the entries of a table, from the last one on. -/
def putTable : List (List (BitVec 64)) → Setup UserStack
  | [] => .ok s
  | ws :: l => do
    let s ← putTable l
    s.put (wordsBytes ws)

end UserStack

/-- What `elf64_setup_stack` leaves in the task. -/
structure SetupRegs where
  rsp : ℕ
  auxAtRandom : BitVec 64
  auxAtExecfn : BitVec 64
  auxAtPlatform : BitVec 64

/-- Does an entry point to a string? -/
def AuxV.IsString (a : AuxV) : Prop := (a.aType = atExecfn ∨ a.aType = atPlatform) ∧ a.aVal ≠ 0

instance (a : AuxV) : Decidable a.IsString := inferInstanceAs (Decidable (_ ∧ _))

/-- The loop over the strings of the auxiliary vector; `strAt` is what stands at a pointer. -/
def putAuxStrings (strAt : BitVec 64 → CString) (r : SetupRegs) (s : UserStack) :
    List AuxV → Setup (List AuxV × SetupRegs × UserStack)
  | [] => .ok ([], r, s)
  | a :: l =>
    if a.IsString then do
      let s ← s.put ((strAt a.aVal).val ++ [0])
      let sp := BitVec.ofNat 64 s.sp
      let r := if a.aType = atExecfn then { r with auxAtExecfn := sp } else { r with auxAtPlatform := sp }
      let (as, r, s) ← putAuxStrings strAt r s l
      .ok ({ a with aVal := sp } :: as, r, s)
    else do
      let (as, r, s) ← putAuxStrings strAt r s l
      .ok (a :: as, r, s)

/-- `if(auxv[i].a_type==AT_RANDOM)auxv[i].a_val=random_ptr;`. -/
def AuxV.setRandom (randomPtr : BitVec 64) (a : AuxV) : AuxV :=
  if a.aType = atRandom then { a with aVal := randomPtr } else a

/-- An entry of the auxiliary vector as it stands on the stack. -/
def AuxV.words (a : AuxV) : List (BitVec 64) := [a.aType, a.aVal]

/-- `sp&=~0xFULL`, and half of that again when the tables are an odd number of words. -/
def UserStack.align (postBytes : ℕ) (s : UserStack) : Setup UserStack :=
  let s : UserStack := ⟨s.sp - s.sp % 16, s.mem⟩
  if postBytes % 16 ≠ 0 then
    if s.sp < stackBase + 8 then .error (.e2big, s) else .ok ⟨s.sp - 8, s.mem⟩
  else .ok s

/-- `elf64_setup_stack`. -/
def elf64SetupStack (strAt : BitVec 64 → CString) (random : { bs : Bytes // bs.length = 16 })
    (mem : ℕ → UInt8) (hasTask : Bool) (argc : ℤ) (argv : Option (ℕ → Option CString))
    (envp : Option (List CString)) (auxv : ℕ → AuxV) (auxc : ℤ) : Setup (SetupRegs × UserStack) :=
  let s : UserStack := ⟨c3UserStackTop, mem⟩
  let env := envp.getD []
  if !hasTask ∨ argc < 0 ∨ 256 < argc ∨ auxc < 0 then .error (.einval, s)
  else if 512 < env.length then .error (.e2big, s)
  else if 0 < argc ∧ argv.isNone then .error (.efault, s)
  else do
    let (envPtrs, s) ← s.putStrings (env.map some)
    let (argPtrs, s) ← s.putStrings ((List.range argc.toNat).map (argv.getD fun _ => none))
    let s ← s.put random.val
    let randomPtr := BitVec.ofNat 64 s.sp
    let (auxs, r, s) ← putAuxStrings strAt ⟨0, randomPtr, 0, 0⟩ s ((List.range auxc.toNat).map auxv)
    let auxs := auxs.map (AuxV.setRandom randomPtr)
    let s ← s.align ((auxc.toNat + 1) * 16 + (env.length + argc.toNat + 3) * 8)
    let s ← s.put (wordsBytes [0, 0])
    let s ← s.putTable (auxs.map AuxV.words)
    let s ← s.put (wordsBytes [0])
    let s ← s.putTable (envPtrs.map fun p => [p])
    let s ← s.put (wordsBytes [0])
    let s ← s.putTable (argPtrs.map fun p => [p])
    let s ← s.put (wordsBytes [.ofInt 64 argc])
    .ok ({ r with rsp := s.sp }, s)

/-! ### How a step ends -/

/-- `l` stands at the top of the stack, and nothing was written below it. -/
abbrev UserStack.Holds (mem : ℕ → UInt8) (s : UserStack) (l : Bytes) : Prop :=
  s.Filled stackBase c3UserStackTop mem l

/-- A step ends with a value as `Q` says, or with an error and nothing written below the base. -/
def Setup.Ends {α : Type} (mem : ℕ → UInt8) (Q : α → Prop) : Setup α → Prop
  | .ok a => Q a
  | .error (_, s) => ∃ l, s.Holds mem l

/-- `bs` stands at `p` when `l` stands at the top of the stack. -/
def Stands (l : Bytes) (p : ℕ) (bs : Bytes) : Prop :=
  ∃ pre post, l = pre ++ (bs ++ post) ∧ p + (bs ++ post).length = c3UserStackTop

section Places

variable (P : ℕ → Bytes → Prop)

/-- Where strings stand. -/
def StringsAt (ps : List (BitVec 64)) (strs : List (Option CString)) : Prop :=
  Forall₂ (fun p str => ∃ c, str = some c ∧ P p.toNat (c.1 ++ [0])) ps strs

/-- An entry of the auxiliary vector, and what the program finds of it. -/
def AuxAt (strAt : BitVec 64 → CString) (random : Bytes) (a b : AuxV) : Prop :=
  b.aType = a.aType ∧
    if a.IsString then P b.aVal.toNat ((strAt a.aVal).1 ++ [0])
    else if a.aType = atRandom then P b.aVal.toNat random
    else b.aVal = a.aVal

end Places

variable {α β : Type} {mem : ℕ → UInt8} {s : UserStack} {l bs random : Bytes} {p : ℕ}
  {P P' : ℕ → Bytes → Prop} {ps qs ws : List (BitVec 64)} {strs args env : List (Option CString)}
  {auxs found : List AuxV} {strAt : BitVec 64 → CString}

theorem Setup.Ends.bind {Q : α → Prop} {Q' : β → Prop} {c : Setup α} {f : α → Setup β} (h : c.Ends mem Q)
    (hf : ∀ a, Q a → (f a).Ends mem Q') : (c >>= f).Ends mem Q' := by
  cases c with
  | error e => exact h
  | ok a => exact hf a h

theorem StringsAt.imp (h : StringsAt P ps strs) (hP : ∀ p bs, P p bs → P' p bs) : StringsAt P' ps strs :=
  Forall₂.imp (fun _ _ ⟨c, hc, hp⟩ => ⟨c, hc, hP _ _ hp⟩) h

theorem AuxAt.imp {a b : AuxV} (h : AuxAt P strAt random a b) (hP : ∀ p bs, P p bs → P' p bs) :
    AuxAt P' strAt random a b := by
  refine ⟨h.1, ?_⟩
  have hval := h.2
  split_ifs at hval ⊢
  · exact hP _ _ hval
  · exact hP _ _ hval
  · exact hval

theorem Stands.behind (h : Stands l p bs) (xs : Bytes) : Stands (xs ++ l) p bs := by
  obtain ⟨pre, post, rfl, hp⟩ := h
  exact ⟨xs ++ pre, post, (append_assoc ..).symm, hp⟩

theorem stands_of_holds (h : s.Holds mem (bs ++ l)) : Stands (bs ++ l) (BitVec.ofNat 64 s.sp).toNat bs := by
  have htop := h.top
  rw [BitVec.toNat_ofNat, Nat.mod_eq_of_lt (by rw [c3UserStackTop] at htop; omega)]
  exact ⟨[], l, rfl, htop⟩

theorem UserStack.put_ends (h : s.Holds mem l) (bs : Bytes) :
    (s.put bs).Ends mem fun t => t.Holds mem (bs ++ l) := by
  unfold UserStack.put
  cases hp : s.push stackBase bs with
  | none => exact ⟨l, h⟩
  | some t => exact h.push hp

theorem UserStack.putTable_ends (h : s.Holds mem l) (es : List (List (BitVec 64))) :
    (s.putTable es).Ends mem fun t => t.Holds mem (wordsBytes es.flatten ++ l) := by
  induction es with
  | nil => exact h
  | cons e es ih =>
    refine ih.bind fun t ht => ?_
    have hput := UserStack.put_ends ht (wordsBytes e)
    rw [← append_assoc, wordsBytes, wordsBytes, ← flatMap_append] at hput
    exact hput

theorem UserStack.putStrings_ends (h : s.Holds mem l) (strs : List (Option CString)) :
    (s.putStrings strs).Ends mem fun r =>
      ∃ xs, r.2.Holds mem (xs ++ l) ∧ StringsAt (Stands (xs ++ l)) r.1 strs := by
  induction strs with
  | nil => exact ⟨[], h, .nil⟩
  | cons str strs ih =>
    refine ih.bind ?_
    rintro ⟨ps, t⟩ ⟨xs, ht, hps⟩
    cases str with
    | none => exact ⟨_, ht⟩
    | some c =>
      refine (UserStack.put_ends ht (c.1 ++ [0])).bind fun u hu => ?_
      have hc := stands_of_holds hu
      have hrest := hps.imp fun _ _ hp => hp.behind (c.1 ++ [0])
      rw [← append_assoc] at hu hc hrest
      exact ⟨_, hu, .cons ⟨c, rfl, hc⟩ hrest⟩

theorem putAuxStrings_ends (h : s.Holds mem l) (strAt : BitVec 64 → CString) (r : SetupRegs) (as : List AuxV)
    {ptr : BitVec 64} (hrandom : Stands l ptr.toNat random) :
    (putAuxStrings strAt r s as).Ends mem fun v => ∃ xs, v.2.2.Holds mem (xs ++ l) ∧
      Forall₂ (AuxAt (Stands (xs ++ l)) strAt random) as (v.1.map (AuxV.setRandom ptr)) := by
  induction as generalizing r s l with
  | nil => exact ⟨[], h, .nil⟩
  | cons a as ih =>
    unfold putAuxStrings
    by_cases ha : a.IsString
    · have hne : a.aType ≠ atRandom := by rcases ha.1 with h | h <;> rw [h] <;> decide
      rw [if_pos ha]
      refine (UserStack.put_ends h ((strAt a.aVal).1 ++ [0])).bind fun t ht => ?_
      refine (ih ht _ (hrandom.behind _)).bind ?_
      rintro ⟨bs, r', u⟩ ⟨xs, hu, hbs⟩
      have hstr := (stands_of_holds ht).behind xs
      rw [← append_assoc] at hu hbs hstr
      refine ⟨_, hu, .cons ?_ hbs⟩
      rw [AuxV.setRandom, if_neg hne, AuxAt, if_pos ha]
      exact ⟨rfl, hstr⟩
    · rw [if_neg ha]
      refine (ih h r hrandom).bind ?_
      rintro ⟨bs, r', u⟩ ⟨xs, hu, hbs⟩
      refine ⟨xs, hu, .cons ?_ hbs⟩
      unfold AuxAt AuxV.setRandom
      rw [if_neg ha]
      split_ifs
      · exact ⟨rfl, hrandom.behind xs⟩
      · exact ⟨rfl, rfl⟩

theorem UserStack.align_ends (h : s.Holds mem l) {n : ℕ} (hn : n % 8 = 0) :
    (s.align n).Ends mem fun t => t.sp % 16 = n % 16 ∧ ∃ pad, t.Holds mem (pad ++ l) := by
  have hbase := h.base
  obtain ⟨pad, hpad⟩ := h.lower (n := s.sp % 16) (by unfold stackBase c3UserStackTop at *; omega)
  unfold UserStack.align
  dsimp only
  split_ifs with hodd hroom
  · exact ⟨_, hpad⟩
  · obtain ⟨pad', hpad'⟩ := hpad.lower (n := 8) (by dsimp only; omega)
    refine ⟨by dsimp only at *; unfold stackBase c3UserStackTop at *; omega, pad' ++ pad, ?_⟩
    rw [append_assoc]
    exact hpad'
  · exact ⟨by dsimp only; omega, pad, hpad⟩

/-! ### The tables -/

/-- The words from `a` on. -/
def wordsAt (mem : ℕ → UInt8) : ℕ → ℕ → List (BitVec 64)
  | _, 0 => []
  | a, n + 1 => .ofNat 64 (leNat (cellsAt mem a 8)) :: wordsAt mem (a + 8) n

theorem wordsAt_of_holds {x post : Bytes} (h : s.Holds mem (x ++ (wordsBytes ws ++ post))) :
    wordsAt s.mem (s.sp + x.length) ws.length = ws := by
  induction ws generalizing x with
  | nil => rfl
  | cons w ws ih =>
    have hsplit : wordsBytes (w :: ws) ++ post = leBytes 8 w.toNat ++ (wordsBytes ws ++ post) := append_assoc ..
    rw [hsplit] at h
    have hcells := h.cells
    rw [length_leBytes] at hcells
    rw [← append_assoc] at h
    have hrest := ih h
    rw [length_append, length_leBytes, ← Nat.add_assoc] at hrest
    have hw : w.toNat < 256 ^ 8 := w.isLt
    rw [length_cons, wordsAt, hcells, hrest, leNat_leBytes, Nat.mod_eq_of_lt hw, BitVec.ofNat_toNat,
      BitVec.setWidth_eq]

/-- `bs` stands at `p`, behind `a` and on the stack. -/
def BytesAt (s : UserStack) (a p : ℕ) (bs : Bytes) : Prop :=
  cellsAt s.mem p bs.length = bs ∧ a ≤ p ∧ p + bs.length ≤ c3UserStackTop

theorem Stands.bytesAt {front : Bytes} (h : Stands l p bs) (hs : s.Holds mem (front ++ l)) :
    BytesAt s (s.sp + front.length) p bs := by
  obtain ⟨pre, post, rfl, hp⟩ := h
  have htop := hs.top
  rw [← append_assoc] at hs
  have hcells := hs.cells
  simp only [length_append] at hp htop hcells
  have hat : s.sp + (front.length + pre.length) = p := by omega
  rw [hat] at hcells
  exact ⟨hcells, by omega, by omega⟩

/-- The tables by the convention: the number of the arguments, the pointers to them and to the environment,
each up to a null, and the auxiliary vector. -/
def tableWords (ps qs : List (BitVec 64)) (bs : List AuxV) : List (BitVec 64) :=
  [.ofNat 64 ps.length] ++ ps ++ [0] ++ qs ++ [0] ++ (bs.map AuxV.words).flatten ++ [0, 0]

/-- What a program finds: the tables at `rsp`, and behind them what they point to. -/
structure SysVStack (strAt : BitVec 64 → CString) (random : Bytes) (args env : List (Option CString))
    (auxs : List AuxV) (rsp : ℕ) (s : UserStack) (ps qs : List (BitVec 64)) (bs : List AuxV) : Prop where
  aligned : rsp % 16 = 0
  base : stackBase ≤ rsp
  tables : wordsAt s.mem rsp (tableWords ps qs bs).length = tableWords ps qs bs
  argv : StringsAt (BytesAt s (rsp + 8 * (tableWords ps qs bs).length)) ps args
  envp : StringsAt (BytesAt s (rsp + 8 * (tableWords ps qs bs).length)) qs env
  auxv : Forall₂ (AuxAt (BytesAt s (rsp + 8 * (tableWords ps qs bs).length)) strAt random) auxs bs

theorem length_wordsBytes (ws : List (BitVec 64)) : (wordsBytes ws).length = 8 * ws.length := by
  induction ws with
  | nil => rfl
  | cons w ws ih =>
    rw [wordsBytes, flatMap_cons, length_append, length_leBytes, length_cons]
    unfold wordsBytes at ih
    omega

theorem sysV_of_holds (h : s.Holds mem (wordsBytes (tableWords ps qs found) ++ l)) (hal : s.sp % 16 = 0)
    (hps : StringsAt (Stands l) ps args) (hqs : StringsAt (Stands l) qs env)
    (hbs : Forall₂ (AuxAt (Stands l) strAt random) auxs found) :
    SysVStack strAt random args env auxs s.sp s ps qs found := by
  have hat : ∀ p xs, Stands l p xs → BytesAt s (s.sp + 8 * (tableWords ps qs found).length) p xs := by
    intro p xs hp
    rw [← length_wordsBytes]
    exact hp.bytesAt h
  exact ⟨hal, h.base, wordsAt_of_holds (x := []) h, hps.imp hat, hqs.imp hat,
    Forall₂.imp (fun _ _ hb => hb.imp hat) hbs⟩

theorem wordsBytes_append (xs ys : List (BitVec 64)) : wordsBytes (xs ++ ys) = wordsBytes xs ++ wordsBytes ys :=
  flatMap_append

theorem length_tableWords :
    (tableWords ps qs found).length = ps.length + qs.length + 2 * found.length + 5 := by
  have hbs : (found.map AuxV.words).flatten.length = 2 * found.length := by
    induction found with
    | nil => rfl
    | cons b bs ih =>
      rw [map_cons, flatten_cons, length_append, ih, length_cons]
      change 2 + _ = _
      omega
  simp only [tableWords, length_append, length_cons, length_nil, hbs]
  omega

/-- What a program finds after a call with these arguments. -/
def SysVEntry (strAt : BitVec 64 → CString) (random : Bytes) (argc : ℤ) (argv : Option (ℕ → Option CString))
    (envp : Option (List CString)) (auxv : ℕ → AuxV) (auxc : ℤ) (v : SetupRegs × UserStack) : Prop :=
  ∃ ps qs bs, (ps.length : ℤ) = argc ∧
    SysVStack strAt random ((List.range argc.toNat).map (argv.getD fun _ => none)) ((envp.getD []).map some)
      ((List.range auxc.toNat).map auxv) v.1.rsp v.2 ps qs bs

/-- **The first stack**: what `elf64_setup_stack` leaves, and that nothing is written below the base. -/
theorem userStack_sysV (strAt : BitVec 64 → CString) (random : { bs : Bytes // bs.length = 16 })
    (mem : ℕ → UInt8) (hasTask : Bool) (argc : ℤ) (argv : Option (ℕ → Option CString))
    (envp : Option (List CString)) (auxv : ℕ → AuxV) (auxc : ℤ) :
    match elf64SetupStack strAt random mem hasTask argc argv envp auxv auxc with
    | .error (_, s) => ∀ a < stackBase, s.mem a = mem a
    | .ok v => (∀ a < stackBase, v.2.mem a = mem a) ∧
      SysVEntry strAt random.val argc argv envp auxv auxc v := by
  have hbelow : ∀ {s : UserStack} {l}, s.Holds mem l → ∀ a < stackBase, s.mem a = mem a :=
    fun h a ha => h.below a (ha.trans_le h.base)
  suffices h : (elf64SetupStack strAt random mem hasTask argc argv envp auxv auxc).Ends mem fun v =>
      (∃ l, v.2.Holds mem l) ∧ SysVEntry strAt random.val argc argv envp auxv auxc v by
    revert h
    cases elf64SetupStack strAt random mem hasTask argc argv envp auxv auxc with
    | error e => exact fun ⟨_, h⟩ => hbelow h
    | ok v => exact fun ⟨⟨_, h⟩, hsysv⟩ => ⟨hbelow h, hsysv⟩
  have h₀ : UserStack.Holds mem ⟨c3UserStackTop, mem⟩ [] :=
    ⟨Nat.sub_le _ _, rfl, fun i hi => absurd hi (Nat.not_lt_zero i), fun _ _ => rfl⟩
  unfold elf64SetupStack
  dsimp only
  split_ifs with hval
  iterate 3 exact ⟨_, h₀⟩
  -- the strings, and the random bytes
  refine (UserStack.putStrings_ends h₀ _).bind ?_
  rintro ⟨qs, s⟩ ⟨x₁, h₁, hqs⟩
  refine (UserStack.putStrings_ends h₁ _).bind ?_
  rintro ⟨ps, s⟩ ⟨x₂, h₂, hps⟩
  refine (UserStack.put_ends h₂ random.val).bind fun s₁ h₃ => ?_
  refine (putAuxStrings_ends h₃ strAt _ _ (stands_of_holds h₃)).bind ?_
  rintro ⟨bs, r, s⟩ ⟨x₃, h₄, hbs⟩
  refine (UserStack.align_ends h₄ (by omega)).bind ?_
  rintro s₀ ⟨hal, pad, h₅⟩
  -- the tables
  refine (UserStack.put_ends h₅ _).bind fun s h => ?_
  refine (UserStack.putTable_ends h _).bind fun s h => ?_
  refine (UserStack.put_ends h _).bind fun s h => ?_
  refine (UserStack.putTable_ends h _).bind fun s h => ?_
  refine (UserStack.put_ends h _).bind fun s h => ?_
  refine (UserStack.putTable_ends h _).bind fun s h => ?_
  refine (UserStack.put_ends h _).bind fun s h => ?_
  have hargc : ps.length = argc.toNat := (Forall₂.length_eq hps).trans (by rw [length_map, length_range])
  have henvc : qs.length = (envp.getD []).length := (Forall₂.length_eq hqs).trans (length_map ..)
  have hauxc := Forall₂.length_eq hbs
  rw [length_map, length_range] at hauxc
  simp only [not_or, not_lt] at hval
  have hone : ∀ xs : List (BitVec 64), (xs.map fun p => [p]).flatten = xs := flatMap_singleton'
  have htables : s.Holds mem (wordsBytes (tableWords ps qs (bs.map (AuxV.setRandom (.ofNat 64 s₁.sp)))) ++
      (pad ++ (x₃ ++ (random.val ++ (x₂ ++ (x₁ ++ [])))))) := by
    have hint : BitVec.ofInt 64 argc = .ofNat 64 ps.length := by
      rw [hargc, ← BitVec.ofInt_natCast, Int.toNat_of_nonneg hval.2.1]
    simpa only [tableWords, wordsBytes_append, append_assoc, hone, hint] using h
  refine ⟨⟨_, h⟩, ps, qs, _, by omega, sysV_of_holds htables ?_ (hps.imp fun _ _ hp => ?_)
    (hqs.imp fun _ _ hp => ?_) (Forall₂.imp (fun _ _ hb => hb.imp fun _ _ hp => hp.behind pad) hbs)⟩
  · have htop := htables.top
    have htop₀ := h₅.top
    rw [length_append, length_wordsBytes, length_tableWords, ← hauxc] at htop
    omega
  · exact ((hp.behind _).behind x₃).behind pad
  · exact (((hp.behind x₂).behind _).behind x₃).behind pad

end Ridux
