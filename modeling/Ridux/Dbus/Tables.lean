import Ridux.Dbus.Stream

/-!
# Names and their owners

Who owns a name according to the tables of the bus, and what the operations on them keep.

* `Bus.Owner`, `Bus.Knows`: the owners of a name, and the clients that appear in some table;
* `Bus.Tables`: what holds of the tables;
* `Bus.Keeps`: an operation for one client keeps that, and brings in no other client;
* `Bus.Dropped`: the tables without a client.
-/

namespace Ridux

open Lib Function Option

/-- The mark of a unique name. -/
def uniqueMark : Bytes := ascii ":1."

namespace Bus

/-- A name belongs to a client by `Hello`, or to a client or the bus itself by a binding. -/
def Owner (b : Bus) (name : Bytes) (o : Option ℕ) : Prop :=
  (∃ fd < sockMax, o = some fd ∧ b.hello fd = true ∧ b.unique fd = name) ∨
    ∃ i < dbusvBindMax, (b.bindings i).used = true ∧ (b.bindings i).name = name ∧
      (b.bindings i).ownerFd = o

/-- The client appears in some table. -/
def Knows (b : Bus) (fd : ℕ) : Prop :=
  b.unique fd ≠ [] ∨ b.hello fd = true ∨
    (∃ i < dbusvBindMax, (b.bindings i).used = true ∧ (b.bindings i).ownerFd = some fd) ∨
    ∃ i < dbusvMatchMax, (b.matchRules i).used = true ∧ (b.matchRules i).ownerFd = fd

/-- Unique names are told apart from bound names, and no name is given twice. -/
structure Tables (b : Bus) : Prop where
  marked : ∀ fd, b.unique fd ≠ [] → startsWith (b.unique fd) uniqueMark = true
  single : ∀ fd fd', b.unique fd ≠ [] → b.unique fd = b.unique fd' → fd = fd'
  hello : ∀ fd, b.hello fd = true → b.unique fd ≠ []
  bound : ∀ i < dbusvBindMax, (b.bindings i).used = true →
    (b.bindings i).name ≠ [] ∧ ¬startsWith (b.bindings i).name uniqueMark = true
  keyed : ∀ i < dbusvBindMax, ∀ j < dbusvBindMax, (b.bindings i).used = true →
    (b.bindings j).used = true → (b.bindings i).name = (b.bindings j).name → i = j
  owner : ∀ i < dbusvBindMax, (b.bindings i).used = true → ∀ fd,
    (b.bindings i).ownerFd = some fd → b.unique fd ≠ []
  unseeded : b.seeded = false → ∀ fd, ¬b.Knows fd

variable {b b' : Bus} {fd i : ℕ} {name : Bytes} {o : Option ℕ}

theorem Owner.knows (h : b.Owner name (some fd)) : b.Knows fd := by
  rcases h with ⟨fd', -, he, hh, -⟩ | ⟨i, hi, hu, -, ho⟩
  · obtain rfl := some.inj he
    exact .inr (.inl hh)
  · exact .inr (.inr (.inl ⟨i, hi, hu, ho⟩))

/-! ### Looking a name up -/

theorem findBinding_eq_some (h : b.findBinding name = some i) :
    i < dbusvBindMax ∧ (b.bindings i).used = true ∧ (b.bindings i).name = name := by
  unfold findBinding at h
  split_ifs at h
  obtain ⟨hi, hp⟩ := firstSlot_eq_some h
  simp only [decide_eq_true_eq] at hp
  exact ⟨hi, hp.1, hp.2⟩

theorem findBinding_eq_none (h : b.findBinding name = none) (hne : name ≠ []) :
    ∀ i < dbusvBindMax, (b.bindings i).used = true → (b.bindings i).name ≠ name := by
  unfold findBinding at h
  rw [if_neg hne] at h
  intro i hi hu hn
  have := firstSlot_eq_none h i hi
  simp [hu, hn] at this

namespace Tables

theorem findBinding (h : b.Tables) (hi : i < dbusvBindMax) (hu : (b.bindings i).used = true) :
    b.findBinding (b.bindings i).name = some i := by
  cases hf : b.findBinding (b.bindings i).name with
  | none => exact absurd rfl (findBinding_eq_none hf (h.bound i hi hu).1 i hi hu)
  | some j =>
    obtain ⟨hj, huj, hn⟩ := findBinding_eq_some hf
    rw [h.keyed j hj i hi huj hu hn]

theorem owner_ne_nil (h : b.Tables) (ho : b.Owner name o) : name ≠ [] := by
  rcases ho with ⟨fd, -, -, hh, rfl⟩ | ⟨i, hi, hu, rfl, -⟩
  · exact h.hello fd hh
  · exact (h.bound i hi hu).1

theorem ownerFdForName_iff (h : b.Tables) :
    b.ownerFdForName name = some o ↔ b.Owner name o := by
  unfold ownerFdForName
  by_cases hnil : name = []
  · rw [if_pos hnil]
    exact ⟨(nomatch ·), fun ho => absurd hnil (h.owner_ne_nil ho)⟩
  rw [if_neg hnil]
  by_cases hm : startsWith name uniqueMark = true
  · rw [if_pos (show startsWith name (ascii ":1.") = true from hm), map_eq_some_iff]
    constructor
    · rintro ⟨fd, hf, rfl⟩
      obtain ⟨hlt, hp⟩ := firstSlot_eq_some hf
      simp only [decide_eq_true_eq] at hp
      exact .inl ⟨fd, hlt, rfl, hp.1, hp.2⟩
    · rintro (⟨fd, hlt, rfl, hh, hn⟩ | ⟨i, hi, hu, hn, -⟩)
      · cases hf : firstSlot (fun i => b.hello i ∧ b.unique i = name) sockMax with
        | none =>
          have := firstSlot_eq_none hf fd hlt
          simp [hh, hn] at this
        | some fd' =>
          obtain ⟨-, hp⟩ := firstSlot_eq_some hf
          simp only [decide_eq_true_eq] at hp
          exact ⟨fd', rfl, congrArg some (h.single fd' fd (by rw [hp.2]; exact hnil)
            (hp.2.trans hn.symm))⟩
      · exact absurd (hn ▸ hm) (h.bound i hi hu).2
  · rw [if_neg (show ¬startsWith name (ascii ":1.") = true from hm), map_eq_some_iff]
    constructor
    · rintro ⟨i, hf, rfl⟩
      obtain ⟨hi, hu, hn⟩ := findBinding_eq_some hf
      exact .inr ⟨i, hi, hu, hn, rfl⟩
    · rintro (⟨fd, -, -, hh, rfl⟩ | ⟨i, hi, hu, rfl, rfl⟩)
      · exact absurd (h.marked fd (h.hello fd hh)) hm
      · exact ⟨i, h.findBinding hi hu, rfl⟩

theorem ownerFdForName_eq_none (h : b.Tables) :
    b.ownerFdForName name = none ↔ ∀ o, ¬b.Owner name o := by
  rw [eq_none_iff_forall_ne_some]
  exact forall_congr' fun o => not_congr h.ownerFdForName_iff

theorem owner_eq (h : b.Tables) {o' : Option ℕ} (ho : b.Owner name o) (ho' : b.Owner name o') :
    o = o' :=
  some.inj ((h.ownerFdForName_iff.2 ho).symm.trans (h.ownerFdForName_iff.2 ho'))

end Tables

/-! ### Operations for one client -/

/-- The tables stay in order, and no client but `fd` comes into them. -/
structure Keeps (fd : ℕ) (b b' : Bus) : Prop where
  tables : b'.Tables
  seeded : b.seeded = true → b'.seeded = true
  knows : ∀ i, b'.Knows i → b.Knows i ∨ i = fd

namespace Keeps

theorem refl (h : b.Tables) (fd : ℕ) : Keeps fd b b := ⟨h, id, fun _ => .inl⟩

theorem trans {b'' : Bus} (h : Keeps fd b b') (h' : Keeps fd b' b'') : Keeps fd b b'' :=
  ⟨h'.tables, fun hs => h'.seeded (h.seeded hs), fun i hi =>
    (h'.knows i hi).elim (fun hb => h.knows i hb) .inr⟩

end Keeps

theorem startsWith_dbusvUniqueName (v : UInt32) :
    startsWith (dbusvUniqueName v) uniqueMark = true := by
  unfold startsWith dbusvUniqueName uniqueMark
  exact List.isPrefixOf_iff_prefix.2 (List.prefix_append _ _)

theorem dbusvUniqueName_ne_nil (v : UInt32) : dbusvUniqueName v ≠ [] :=
  List.append_ne_nil_of_left_ne_nil (by decide) _

theorem Tables.ensureUniqueFd (h : b.Tables) (hs : b.seeded = true) (fd : ℕ)
    (hnew : b.unique fd = [] → ∀ i, b.unique i ≠ dbusvUniqueName b.nextUnique) :
    Keeps fd b (b.ensureUniqueFd fd) ∧ (b.ensureUniqueFd fd).unique fd ≠ [] := by
  unfold Bus.ensureUniqueFd
  by_cases hnil : b.unique fd = []
  · rw [if_pos hnil]
    have hu : ∀ i, i ≠ fd →
        update b.unique fd (dbusvUniqueName b.nextUnique) i = b.unique i :=
      fun i hi => update_of_ne hi _ _
    have hfd : update b.unique fd (dbusvUniqueName b.nextUnique) fd =
        dbusvUniqueName b.nextUnique := update_self ..
    have hne : ∀ i, b.unique i ≠ [] →
        update b.unique fd (dbusvUniqueName b.nextUnique) i ≠ [] := by
      intro i hi
      rw [hu i (by rintro rfl; exact hi hnil)]
      exact hi
    refine ⟨⟨⟨fun i hi => ?_, fun i j hi hij => ?_, fun i hi => hne i (h.hello i hi), h.bound,
      h.keyed, fun i hi hui j hj => hne j (h.owner i hi hui j hj), fun hf => ?_⟩, id,
      fun i hi => ?_⟩, ?_⟩
    · dsimp only at hi ⊢
      by_cases hif : i = fd
      · rw [hif, hfd]
        exact startsWith_dbusvUniqueName _
      · rw [hu i hif] at hi ⊢
        exact h.marked i hi
    · dsimp only at hi hij
      by_cases hif : i = fd <;> by_cases hjf : j = fd
      · rw [hif, hjf]
      · rw [hif, hfd, hu j hjf] at hij
        exact absurd hij.symm (hnew hnil j)
      · rw [hjf, hfd, hu i hif] at hij
        exact absurd hij (hnew hnil i)
      · rw [hu i hif] at hi hij
        rw [hu j hjf] at hij
        exact h.single i j hi hij
    · change b.seeded = false at hf
      rw [hs] at hf
      cases hf
    · rcases hi with hi | hi
      · by_cases hif : i = fd
        · exact .inr hif
        · refine .inl (.inl ?_)
          dsimp only at hi
          rwa [hu i hif] at hi
      · exact .inl (.inr hi)
    · dsimp only
      rw [hfd]
      exact dbusvUniqueName_ne_nil _
  · rw [if_neg hnil]
    exact ⟨.refl h fd, hnil⟩

theorem ensureUniqueFd_of_ne_nil (h : b.unique fd ≠ []) : b.ensureUniqueFd fd = b := if_neg h

theorem Tables.serial (h : b.Tables) (s : UInt32) : ({ b with nextSerial := s } : Bus).Tables :=
  ⟨h.marked, h.single, h.hello, h.bound, h.keyed, h.owner, h.unseeded⟩

theorem Tables.setHello (h : b.Tables) (hs : b.seeded = true) (hu : b.unique fd ≠ []) :
    Keeps fd b { b with hello := update b.hello fd true } := by
  refine ⟨⟨h.marked, h.single, fun i hi => ?_, h.bound, h.keyed, h.owner, fun hf => ?_⟩, id,
    fun i hi => ?_⟩
  · by_cases hif : i = fd
    · rw [hif]
      exact hu
    · refine h.hello i ?_
      dsimp only at hi
      rwa [update_of_ne hif] at hi
  · change b.seeded = false at hf
    rw [hs] at hf
    cases hf
  · by_cases hif : i = fd
    · exact .inr hif
    · rcases hi with hi | hi | hi
      · exact .inl (.inl hi)
      · dsimp only at hi
        rw [update_of_ne hif] at hi
        exact .inl (.inr (.inl hi))
      · exact .inl (.inr (.inr hi))

/-! ### Bindings -/

theorem setBinding_self (b : Bus) (i : ℕ) (x : DbusvBinding) : (b.setBinding i x).bindings i = x :=
  update_self ..

theorem setBinding_of_ne (b : Bus) {j : ℕ} (h : j ≠ i) (x : DbusvBinding) :
    (b.setBinding i x).bindings j = b.bindings j := update_of_ne h ..

theorem Tables.bind (h : b.Tables) (hs : b.seeded = true) (hname : name ≠ [])
    (hmark : ¬startsWith name uniqueMark = true)
    (hfree : ∀ j < dbusvBindMax, (b.bindings j).used = true → (b.bindings j).name ≠ name)
    (ho : ∀ c, o = some c → c = fd ∧ b.unique fd ≠ []) :
    Keeps fd b (b.setBinding i ⟨true, o, name⟩) := by
  refine ⟨⟨h.marked, h.single, h.hello, fun j hj hu => ?_, fun j hj k hk huj huk hn => ?_,
    fun j hj hu c hc => ?_, fun hf => ?_⟩, id, fun c hc => ?_⟩
  · by_cases hji : j = i
    · rw [hji, setBinding_self]
      exact ⟨hname, hmark⟩
    · rw [setBinding_of_ne b hji] at hu ⊢
      exact h.bound j hj hu
  · by_cases hji : j = i <;> by_cases hki : k = i
    · rw [hji, hki]
    · rw [hji, setBinding_self, setBinding_of_ne b hki] at hn
      rw [setBinding_of_ne b hki] at huk
      exact absurd hn.symm (hfree k hk huk)
    · rw [hki, setBinding_self, setBinding_of_ne b hji] at hn
      rw [setBinding_of_ne b hji] at huj
      exact absurd hn (hfree j hj huj)
    · rw [setBinding_of_ne b hji] at huj hn
      rw [setBinding_of_ne b hki] at huk hn
      exact h.keyed j hj k hk huj huk hn
  · by_cases hji : j = i
    · rw [hji, setBinding_self] at hc
      obtain ⟨rfl, hu⟩ := ho c hc
      exact hu
    · rw [setBinding_of_ne b hji] at hu hc
      exact h.owner j hj hu c hc
  · change b.seeded = false at hf
    rw [hs] at hf
    cases hf
  · rcases hc with hc | hc | ⟨j, hj, hu, hc⟩ | hc
    · exact .inl (.inl hc)
    · exact .inl (.inr (.inl hc))
    · by_cases hji : j = i
      · rw [hji, setBinding_self] at hc
        exact .inr (ho c hc).1
      · rw [setBinding_of_ne b hji] at hu hc
        exact .inl (.inr (.inr (.inl ⟨j, hj, hu, hc⟩)))
    · exact .inl (.inr (.inr (.inr hc)))

theorem Tables.addBinding (h : b.Tables) (hs : b.seeded = true)
    (hmark : ¬startsWith name uniqueMark = true) (hfree : b.findBinding name = none)
    (hfit : strlcpy dbusvNameMax name = name)
    (ho : ∀ c, o = some c → c = fd ∧ b.unique fd ≠ []) : Keeps fd b (b.addBinding name o).2 := by
  unfold Bus.addBinding
  split_ifs with hnil
  · exact .refl h fd
  · rw [hfree]
    dsimp only
    cases firstSlot (fun i => !(b.bindings i).used) dbusvBindMax with
    | none => exact .refl h fd
    | some i =>
      dsimp only
      rw [hfit]
      exact h.bind hs hnil hmark (findBinding_eq_none hfree hnil) ho

theorem Tables.unbind (h : b.Tables) (fd i : ℕ) : Keeps fd b (b.setBinding i freeBinding) := by
  have hsub : ∀ j, ((b.setBinding i freeBinding).bindings j).used = true →
      (b.setBinding i freeBinding).bindings j = b.bindings j := by
    intro j hu
    by_cases hji : j = i
    · rw [hji, setBinding_self] at hu
      cases hu
    · exact setBinding_of_ne b hji _
  have hknows : ∀ c, (b.setBinding i freeBinding).Knows c → b.Knows c := by
    rintro c (hc | hc | ⟨j, hj, hu, hc⟩ | hc)
    · exact .inl hc
    · exact .inr (.inl hc)
    · have he := hsub j hu
      rw [he] at hu hc
      exact .inr (.inr (.inl ⟨j, hj, hu, hc⟩))
    · exact .inr (.inr (.inr hc))
  refine ⟨⟨h.marked, h.single, h.hello, fun j hj hu => ?_, fun j hj k hk huj huk hn => ?_,
    fun j hj hu c hc => ?_, fun hf c hc => h.unseeded hf c (hknows c hc)⟩, id,
    fun c hc => .inl (hknows c hc)⟩
  · have he := hsub j hu
    rw [he] at hu ⊢
    exact h.bound j hj hu
  · have hej := hsub j huj
    have hek := hsub k huk
    rw [hej] at huj hn
    rw [hek] at huk hn
    exact h.keyed j hj k hk huj huk hn
  · have he := hsub j hu
    rw [he] at hu hc
    exact h.owner j hj hu c hc

/-! ### Match rules -/

theorem Tables.setRules (h : b.Tables) (hs : b.seeded = true) {rules : ℕ → DbusvMatch}
    (hr : ∀ i < dbusvMatchMax, (rules i).used = true →
      rules i = b.matchRules i ∨ (rules i).ownerFd = fd) :
    Keeps fd b { b with matchRules := rules } := by
  refine ⟨⟨h.marked, h.single, h.hello, h.bound, h.keyed, h.owner, fun hf => ?_⟩, id, fun c hc => ?_⟩
  · change b.seeded = false at hf
    rw [hs] at hf
    cases hf
  · rcases hc with hc | hc | hc | ⟨i, hi, hu, hc⟩
    · exact .inl (.inl hc)
    · exact .inl (.inr (.inl hc))
    · exact .inl (.inr (.inr (.inl hc)))
    · rcases hr i hi hu with he | he
      · dsimp only at hu hc
        rw [he] at hu hc
        exact .inl (.inr (.inr (.inr ⟨i, hi, hu, hc⟩)))
      · exact .inr (hc.symm.trans he)

theorem Tables.setMatch (h : b.Tables) (hs : b.seeded = true) (i : ℕ) {x : DbusvMatch}
    (hx : x.used = true → x.ownerFd = fd) : Keeps fd b (b.setMatch i x) := by
  refine h.setRules hs fun j _ hu => ?_
  by_cases hji : j = i
  · rw [hji, update_self] at hu ⊢
    exact .inr (hx hu)
  · rw [update_of_ne hji]
    exact .inl rfl

theorem Tables.addMatch (h : b.Tables) (hs : b.seeded = true) (fd : ℕ) (rule : Bytes) :
    Keeps fd b (b.addMatch fd rule) := by
  unfold Bus.addMatch
  split_ifs
  · exact .refl h fd
  · exact .refl h fd
  · split
    · exact h.setMatch hs _ fun _ => rfl
    · exact .refl h fd

theorem Tables.dropMatch (h : b.Tables) (hs : b.seeded = true) (fd i : ℕ) :
    Keeps fd b (b.dropMatch fd i) := by
  unfold Bus.dropMatch
  split_ifs
  · exact h.setMatch hs i (nomatch ·)
  · exact .refl h fd

theorem Tables.dropMatches (hs : b.seeded = true) (fd : ℕ) (l : List ℕ) (h : b.Tables) :
    Keeps fd b (l.foldl (Bus.dropMatch fd) b) := by
  induction l generalizing b with
  | nil => exact .refl h fd
  | cons i l ih =>
    have h1 := h.dropMatch hs fd i
    exact h1.trans (ih (h1.seeded hs) h1.tables)

theorem Tables.removeMatch (h : b.Tables) (hs : b.seeded = true) (fd : ℕ) (rule : Bytes) :
    Keeps fd b (b.removeMatch fd rule) := by
  unfold Bus.removeMatch
  split_ifs
  · exact h.dropMatches hs fd (List.range dbusvMatchMax)
  · split
    · exact h.setMatch hs _ (nomatch ·)
    · exact .refl h fd

end Bus

end Ridux
