import Ridux.Dbus.Tables

/-!
# What a method call does to the tables

* `Net.Posts`: messages were queued, and nothing else happened;
* `Net.TakesUnique`, `Net.Proper`: the calls that give their client a unique name, and the calls
  after which no name is given twice;
* `Net.keeps_handleMethodCall`: a proper call keeps the tables in order;
* `Net.dropped_dropSocket`: the tables after a client has left.
-/

namespace Ridux

open Lib Function List Option

namespace Net

/-- Messages were queued. -/
structure Posts (n n' : Net) : Prop where
  bus : ∃ s, n'.bus = { n.bus with nextSerial := s }
  socks : ∀ i, ∃ r, n'.socks i = { n.socks i with rx := r }

namespace Posts

variable {n n' n'' : Net}

theorem refl (n : Net) : Posts n n := ⟨⟨_, rfl⟩, fun _ => ⟨_, rfl⟩⟩

theorem trans (h : Posts n n') (h' : Posts n' n'') : Posts n n'' := by
  refine ⟨?_, fun i => ?_⟩
  · obtain ⟨s, hs⟩ := h.bus
    obtain ⟨s', hs'⟩ := h'.bus
    exact ⟨s', by rw [hs', hs]⟩
  · obtain ⟨r, hr⟩ := h.socks i
    obtain ⟨r', hr'⟩ := h'.socks i
    exact ⟨r', by rw [hr', hr]⟩

theorem foldl {f : Net → ℕ → Net} (hf : ∀ n i, Posts n (f n i)) (l : List ℕ) (n : Net) :
    Posts n (l.foldl f n) := by
  induction l generalizing n with
  | nil => exact refl n
  | cons i l ih => exact (hf n i).trans (ih (f n i))

theorem keeps (h : Posts n n') (ht : n.bus.Tables) (fd : ℕ) : n.bus.Keeps fd n'.bus := by
  obtain ⟨s, hs⟩ := h.bus
  rw [hs]
  exact ⟨ht.serial s, id, fun _ => .inl⟩

theorem queueMessage (n : Net) (dst : ℕ) (m : DbusvOut) : Posts n (n.queueMessage dst m).2 := by
  unfold Net.queueMessage
  dsimp only
  split
  · exact refl n
  · refine ⟨⟨_, rfl⟩, fun i => ?_⟩
    by_cases hi : i = dst
    · subst hi
      exact ⟨_, setSock_self _ _ _⟩
    · exact ⟨_, setSock_of_ne _ hi _⟩

theorem emitTo (m : DbusvOut) (arg0 : Bytes) (n : Net) (i : ℕ) : Posts n (emitTo m arg0 n i) := by
  unfold Net.emitTo
  split_ifs
  · exact queueMessage n i m
  · exact refl n

theorem emitNameOwnerChanged (n : Net) (name old new : Bytes) :
    Posts n (n.emitNameOwnerChanged name old new) := by
  unfold Net.emitNameOwnerChanged
  cases dbusvStrBody 1024 [name, old, new] with
  | none => exact refl n
  | some body => exact foldl (fun n i => emitTo _ _ n i) _ n

theorem emitNameSignal (n : Net) {fd : ℕ} (hu : n.bus.unique fd ≠ []) (member : CString)
    (name : Bytes) : Posts n (n.emitNameSignal fd member name) := by
  unfold Net.emitNameSignal
  rw [Bus.ensureUniqueFd_of_ne_nil hu]
  split_ifs
  · dsimp only
    cases dbusvStrBody 320 [name] with
    | none => exact refl n
    | some body => exact queueMessage n fd _
  · exact refl n

theorem replyStr (n : Net) (fd : ℕ) (m : DbusvMsg) (s : Bytes) : Posts n (n.replyStr fd m s) := by
  unfold Net.replyStr
  cases dbusvStrBody 1024 [s] with
  | none => exact refl n
  | some body => exact queueMessage n fd _

theorem replyStrArray (n : Net) (fd : ℕ) (m : DbusvMsg) (ss : List Bytes) :
    Posts n (n.replyStrArray fd m ss) := by
  unfold Net.replyStrArray
  cases dbusvStrArrayBody ss with
  | none => exact refl n
  | some body => exact queueMessage n fd _

theorem replyError (n : Net) (fd : ℕ) (m : DbusvMsg) (err msg : String) :
    Posts n (n.replyError fd m err msg) := by
  unfold Net.replyError
  cases dbusvStrBody 1024 [ascii msg] with
  | none => exact refl n
  | some body => exact queueMessage n fd _

theorem replyVoid (n : Net) (fd : ℕ) (m : DbusvMsg) : Posts n (n.replyVoid fd m) :=
  queueMessage n fd _

theorem replyU32 (n : Net) (fd : ℕ) (m : DbusvMsg) (v : ℕ) : Posts n (n.replyU32 fd m v) :=
  queueMessage n fd _

theorem replyBool (n : Net) (fd : ℕ) (m : DbusvMsg) (v : Bool) : Posts n (n.replyBool fd m v) :=
  replyU32 n fd m _

theorem replyEmptyDictSv (n : Net) (fd : ℕ) (m : DbusvMsg) : Posts n (n.replyEmptyDictSv fd m) :=
  queueMessage n fd _

end Posts

/-! ### Methods -/

/-- A call keeps the tables in order, and moves no socket. -/
structure Calls (fd : ℕ) (n n' : Net) : Prop where
  keeps : n.bus.Keeps fd n'.bus
  socks : ∀ i, ∃ r, n'.socks i = { n.socks i with rx := r }

namespace Calls

variable {n n' n'' : Net} {fd : ℕ} {b : Bus}

theorem posts (h : Calls fd n n') (h' : Posts n' n'') : Calls fd n n'' := by
  refine ⟨h.keeps.trans (h'.keeps h.keeps.tables fd), fun i => ?_⟩
  obtain ⟨r, hr⟩ := h.socks i
  obtain ⟨r', hr'⟩ := h'.socks i
  exact ⟨r', by rw [hr', hr]⟩

theorem setBus (h : n.bus.Keeps fd b) : Calls fd n (n.setBus b) := ⟨h, fun _ => ⟨_, rfl⟩⟩

theorem then_setBus (h : Calls fd n n') (h' : n'.bus.Keeps fd b) :
    Calls fd n (n'.setBus b) := ⟨h.keeps.trans h', h.socks⟩

theorem of_posts (ht : n.bus.Tables) (h : Posts n n') : Calls fd n n' := ⟨h.keeps ht fd, h.socks⟩

end Calls

/-- A unique name for the client, if it needs one, is new. -/
def NewName (n : Net) (fd : ℕ) : Prop :=
  n.bus.unique fd = [] → ∀ i, n.bus.unique i ≠ dbusvUniqueName n.bus.nextUnique

variable {n : Net} {fd : ℕ} {m : DbusvMsg} {svc : Services}

theorem dbusvBodyGetStr_fits {name : Bytes} (h : dbusvBodyGetStr m 0 dbusvNameMax = some name) :
    strlcpy dbusvNameMax name = name := by
  unfold dbusvBodyGetStr at h
  obtain ⟨⟨s, p⟩, hr, rfl⟩ := map_eq_some_iff.1 h
  unfold dbusvReadCstr at hr
  dsimp only at hr
  split_ifs at hr
  obtain ⟨rfl, -⟩ := Prod.mk.inj (some.inj hr)
  rw [strlcpy_of_not_mem (zero_not_mem_cstr _), take_of_length_le]
  refine (takeWhile_sublist _).length_le.trans ?_
  have : clampLen dbusvNameMax (dbusvRdU32 m.body (dbusvAlign 0 4) m.le) ≤ dbusvNameMax - 1 := by
    unfold clampLen
    split_ifs <;> omega
  unfold slice
  rw [length_take]
  omega

theorem calls_hello (ht : n.bus.Tables) (hs : n.bus.seeded = true) (hnew : n.NewName fd) :
    Calls fd n (n.helloMethod fd m) := by
  obtain ⟨hk, hu⟩ := ht.ensureUniqueFd hs fd hnew
  have h1 : Calls fd n (n.setBus (n.bus.ensureUniqueFd fd)) := .setBus hk
  unfold helloMethod
  dsimp only
  split_ifs
  · exact h1.posts (.replyError _ _ _ _ _)
  · have h2 := h1.then_setBus (hk.tables.setHello (hk.seeded hs) hu)
    have p1 := Posts.replyStr ((n.setBus (n.bus.ensureUniqueFd fd)).setBus
      { n.bus.ensureUniqueFd fd with hello := update (n.bus.ensureUniqueFd fd).hello fd true })
      fd m ((n.bus.ensureUniqueFd fd).unique fd)
    have p2 := p1.trans (.emitNameOwnerChanged _ ((n.bus.ensureUniqueFd fd).unique fd) []
      ((n.bus.ensureUniqueFd fd).unique fd))
    refine h2.posts (p2.trans (.emitNameSignal _ ?_ _ _))
    obtain ⟨s, hb⟩ := p2.bus
    rw [hb]
    exact hu

theorem calls_acquireName {name : Bytes} (ht : n.bus.Tables) (hs : n.bus.seeded = true)
    (hu : n.bus.unique fd ≠ []) (hmark : ¬startsWith name uniqueMark = true)
    (hfree : n.bus.findBinding name = none) (hfit : strlcpy dbusvNameMax name = name) :
    Calls fd n (n.acquireName fd name).2 := by
  have hk := ht.addBinding (o := some fd) hs hmark hfree hfit fun c hc => by
    obtain rfl := some.inj hc
    exact ⟨rfl, hu⟩
  unfold acquireName
  cases hr : n.bus.addBinding name (some fd) with
  | mk r b =>
    rw [hr] at hk
    cases r with
    | none => exact .setBus hk
    | some i =>
      have hub : b.unique = n.bus.unique := by
        have : b = (n.bus.addBinding name (some fd)).2 := by rw [hr]
        rw [this]
        unfold Bus.addBinding
        split_ifs
        · rfl
        · rw [hfree]
          dsimp only
          split <;> rfl
      have p := Posts.emitNameOwnerChanged (n.setBus b) name [] (b.unique fd)
      refine (Calls.setBus hk).posts (p.trans (.emitNameSignal _ ?_ _ _))
      obtain ⟨s, hb⟩ := p.bus
      rw [hb]
      show b.unique fd ≠ []
      rw [hub]
      exact hu

theorem calls_requestName (ht : n.bus.Tables) (hs : n.bus.seeded = true) (hnew : n.NewName fd)
    (hname : ∀ name, dbusvBodyGetStr m 0 dbusvNameMax = some name →
      startsWith name uniqueMark = true → n.bus.ownerFdForName name ≠ none) :
    Calls fd n (n.requestNameMethod fd m) := by
  obtain ⟨hk, hu⟩ := ht.ensureUniqueFd hs fd hnew
  have h1 : Calls fd n (n.setBus (n.bus.ensureUniqueFd fd)) := .setBus hk
  unfold requestNameMethod
  dsimp only
  cases hb : dbusvBodyGetStr m 0 dbusvNameMax with
  | none => exact h1.posts (.replyError _ _ _ _ _)
  | some name =>
    dsimp only
    cases ho : (n.setBus (n.bus.ensureUniqueFd fd)).bus.ownerFdForName name with
    | some owner => exact h1.posts (.replyU32 _ _ _ _)
    | none =>
      have hno := hk.tables.ownerFdForName_eq_none.1 ho
      have hmark : ¬startsWith name uniqueMark = true := by
        intro hm
        -- a client that has no unique name has not said hello
        refine hname name hb hm (ht.ownerFdForName_eq_none.2 fun o how => hno o ?_)
        rcases how with ⟨c, hlt, rfl, hh, hn⟩ | hb
        · refine .inl ⟨c, hlt, rfl, ?_⟩
          have hne := ht.hello c hh
          by_cases hnil : n.bus.unique fd = []
          · have hcf : c ≠ fd := by
              rintro rfl
              exact hne hnil
            unfold Bus.ensureUniqueFd
            rw [if_pos hnil]
            refine ⟨hh, ?_⟩
            dsimp only
            rw [update_of_ne hcf]
            exact hn
          · rw [Bus.ensureUniqueFd_of_ne_nil hnil]
            exact ⟨hh, hn⟩
        · obtain ⟨i, hi, hui, rfl, -⟩ := hb
          exact absurd hm (ht.bound i hi hui).2
      have hfree : (n.bus.ensureUniqueFd fd).findBinding name = none := by
        cases hf : (n.bus.ensureUniqueFd fd).findBinding name with
        | none => rfl
        | some i =>
          obtain ⟨hi, hui, hn⟩ := Bus.findBinding_eq_some hf
          exact absurd (.inr ⟨i, hi, hui, hn, rfl⟩) (hno _)
      have h2 := calls_acquireName (n := n.setBus (n.bus.ensureUniqueFd fd)) hk.tables
        (hk.seeded hs) hu hmark hfree (dbusvBodyGetStr_fits hb)
      refine Calls.posts ⟨hk.trans h2.keeps, fun i => ?_⟩ (.replyU32 _ _ _ _)
      exact h2.socks i

theorem posts_releaseName {name : Bytes} {i : ℕ} (hu : n.bus.unique fd ≠ [])
    (hb : dbusvBodyGetStr m 0 dbusvNameMax = some name) (hi : n.bus.findBinding name = some i)
    (ho : (n.bus.bindings i).ownerFd = some fd) :
    Posts (n.setBus (n.bus.setBinding i Bus.freeBinding)) (n.releaseNameMethod fd m) := by
  have hself : (n.bus.uniqueForOwner (some fd)).2 = n.bus := by
    unfold Bus.uniqueForOwner
    dsimp only
    split_ifs
    · rfl
    · exact Bus.ensureUniqueFd_of_ne_nil hu
  unfold releaseNameMethod
  rw [hb]
  dsimp only
  rw [hi]
  dsimp only
  rw [if_pos ho, hself]
  have p := Posts.emitNameOwnerChanged (n.setBus (n.bus.setBinding i Bus.freeBinding)) name
    (n.bus.uniqueForOwner (some fd)).1 []
  refine (p.trans (.emitNameSignal _ ?_ _ _)).trans (.replyU32 _ _ _ _)
  obtain ⟨s, hb⟩ := p.bus
  rw [hb]
  exact hu

theorem calls_releaseName (ht : n.bus.Tables) : Calls fd n (n.releaseNameMethod fd m) := by
  cases hb : dbusvBodyGetStr m 0 dbusvNameMax with
  | none =>
    unfold releaseNameMethod
    rw [hb]
    exact .of_posts ht (.replyError _ _ _ _ _)
  | some name =>
    cases hi : n.bus.findBinding name with
    | none =>
      unfold releaseNameMethod
      rw [hb]
      dsimp only
      rw [hi]
      exact .of_posts ht (.replyU32 _ _ _ _)
    | some i =>
      by_cases ho : (n.bus.bindings i).ownerFd = some fd
      · obtain ⟨hlt, hui, -⟩ := Bus.findBinding_eq_some hi
        exact (Calls.setBus (ht.unbind fd i)).posts
          (posts_releaseName (ht.owner i hlt hui fd ho) hb hi ho)
      · unfold releaseNameMethod
        rw [hb]
        dsimp only
        rw [hi]
        dsimp only
        rw [if_neg ho]
        exact .of_posts ht (.replyU32 _ _ _ _)

theorem calls_startService (ht : n.bus.Tables) (hs : n.bus.seeded = true) :
    Calls fd n (n.startServiceMethod fd m) := by
  unfold startServiceMethod
  cases hb : dbusvBodyGetStr m 0 dbusvNameMax with
  | none => exact .of_posts ht (.replyError _ _ _ _ _)
  | some name =>
    dsimp only
    by_cases hown : (n.bus.ownerFdForName name).isSome = true
    · rw [if_pos hown]
      exact .of_posts ht (.replyU32 _ _ _ _)
    rw [if_neg hown]
    by_cases hstart : Bus.startable name = true
    · rw [if_pos hstart]
      have hno := ht.ownerFdForName_eq_none.1 (not_isSome_iff_eq_none.1 hown)
      have hmark : ¬startsWith name uniqueMark = true := by
        intro hm
        obtain ⟨t, rfl⟩ := isPrefixOf_iff_prefix.1 hm
        have h0 : Bus.startable (uniqueMark ++ t) = false := by
          unfold Bus.startable startsWith uniqueMark ascii
          rfl
        rw [h0] at hstart
        cases hstart
      have hfree : n.bus.findBinding name = none := by
        cases hf : n.bus.findBinding name with
        | none => rfl
        | some i =>
          obtain ⟨hi, hui, hn⟩ := Bus.findBinding_eq_some hf
          exact absurd (.inr ⟨i, hi, hui, hn, rfl⟩) (hno _)
      have hk : n.bus.Keeps fd (n.bus.addBinding name none).2 :=
        ht.addBinding hs hmark hfree (dbusvBodyGetStr_fits hb) (by rintro c ⟨⟩)
      exact (Calls.setBus hk).posts (.replyU32 _ _ _ _)
    · rw [if_neg hstart]
      exact .of_posts ht (.replyU32 _ _ _ _)

theorem collectNames_self (ht : n.bus.Tables) : n.bus.collectNames.2 = n.bus := by
  have hfold : ∀ (l : List ℕ) (names : List Bytes),
      (l.foldl Bus.collectUnique (names, n.bus)).2 = n.bus := by
    intro l
    induction l with
    | nil => exact fun _ => rfl
    | cons i l ih =>
      intro names
      have hstep : (Bus.collectUnique (names, n.bus) i).2 = n.bus := by
        unfold Bus.collectUnique
        by_cases hh : n.bus.hello i = true
        · rw [if_pos hh]
          exact Bus.ensureUniqueFd_of_ne_nil (ht.hello i hh)
        · rw [if_neg hh]
      obtain ⟨names', he⟩ : ∃ names', Bus.collectUnique (names, n.bus) i = (names', n.bus) :=
        ⟨_, Prod.ext rfl hstep⟩
      rw [foldl_cons, he]
      exact ih names'
  exact hfold _ _

theorem lookupOwnerUnique_self (ht : n.bus.Tables) {name : Bytes} {r : Bytes × Bus}
    (h : n.bus.lookupOwnerUnique name = some r) : r.2 = n.bus := by
  unfold Bus.lookupOwnerUnique at h
  cases ho : n.bus.ownerFdForName name with
  | none =>
    rw [ho] at h
    cases h
  | some o =>
    rw [ho] at h
    dsimp only at h
    split_ifs at h
    obtain rfl := some.inj h
    have how := ht.ownerFdForName_iff.1 ho
    cases o with
    | none => rfl
    | some c =>
      have hu : n.bus.unique c ≠ [] := by
        rcases how with ⟨c', -, he, hh, -⟩ | ⟨i, hi, hui, -, hoi⟩
        · obtain rfl := some.inj he
          exact ht.hello c hh
        · exact ht.owner i hi hui c hoi
      unfold Bus.uniqueForOwner
      dsimp only
      split_ifs
      · rfl
      · exact Bus.ensureUniqueFd_of_ne_nil hu

theorem calls_emitPortalResponse (ht : n.bus.Tables) (hs : n.bus.seeded = true) {path : CString}
    (hnew : path.val ≠ [] → n.NewName fd) : Calls fd n (n.emitPortalResponse fd path) := by
  unfold emitPortalResponse
  split_ifs with h
  · obtain ⟨hk, -⟩ := ht.ensureUniqueFd hs fd (hnew h.2.1)
    exact (Calls.setBus hk).posts (.queueMessage _ _ _)
  · exact .of_posts ht (.refl n)

/-! ### Calls -/

/-- A call to the interface of the bus. -/
def IsBusCall (m : DbusvMsg) : Prop := m.iface = [] ∨ m.iface = ascii "org.freedesktop.DBus"

/-- A call that goes to the services. -/
def IsServiceCall (m : DbusvMsg) : Prop :=
  m.member ≠ [] ∧ ¬IsBusCall m ∧
    ¬(m.iface = ascii "org.freedesktop.DBus.Introspectable" ∧ m.member = ascii "Introspect") ∧
    ¬(m.iface = ascii "org.freedesktop.DBus.Peer" ∧ m.member = ascii "Ping") ∧
    ¬(m.iface = ascii "org.freedesktop.DBus.Peer" ∧ m.member = ascii "GetMachineId")

/-- The calls that give their client a unique name: two methods of the bus, and those to which a
service replies with a portal handle. -/
def TakesUnique (svc : Services) (fd : ℕ) (m : DbusvMsg) : Prop :=
  IsBusCall m ∧ (m.member = ascii "Hello" ∨ m.member = ascii "RequestName") ∨
    IsServiceCall m ∧ ∃ out path, path.val ≠ [] ∧ svc fd m = .handle out path

/-- No call asks for a unique name that nobody has, and none is given twice. -/
def Proper (n : Net) (svc : Services) (fd : ℕ) (m : DbusvMsg) : Prop :=
  (TakesUnique svc fd m → n.NewName fd) ∧
    (IsBusCall m → m.member = ascii "RequestName" → ∀ name,
      dbusvBodyGetStr m 0 dbusvNameMax = some name → startsWith name uniqueMark = true →
        n.bus.ownerFdForName name ≠ none)

theorem calls_service (ht : n.bus.Tables) (hs : n.bus.seeded = true)
    (hnew : ∀ out path, path.val ≠ [] → svc fd m = .handle out path → n.NewName fd) :
    Calls fd n (n.serviceMethodCall svc fd m).2 := by
  unfold serviceMethodCall
  cases hr : svc fd m with
  | none => exact .of_posts ht (.refl n)
  | tooBig => exact .of_posts ht (.refl n)
  | message out => exact .of_posts ht (.queueMessage n fd out)
  | handle out path =>
    have p := Posts.queueMessage n fd out
    have hk := p.keeps ht fd
    have h2 : Calls fd (n.queueMessage fd out).2
        ((n.queueMessage fd out).2.emitPortalResponse fd path) := by
      refine calls_emitPortalResponse hk.tables (hk.seeded hs) fun hne => ?_
      obtain ⟨s, hb⟩ := p.bus
      unfold NewName
      rw [hb]
      exact hnew out path hne hr
    refine ⟨hk.trans h2.keeps, fun i => ?_⟩
    obtain ⟨r, hr⟩ := p.socks i
    obtain ⟨r', hr'⟩ := h2.socks i
    exact ⟨r', by rw [hr', hr]⟩

theorem calls_busMethod (ht : n.bus.Tables) (hs : n.bus.seeded = true)
    (hnew : m.member = ascii "Hello" ∨ m.member = ascii "RequestName" → n.NewName fd)
    (hname : m.member = ascii "RequestName" → ∀ name,
      dbusvBodyGetStr m 0 dbusvNameMax = some name → startsWith name uniqueMark = true →
        n.bus.ownerFdForName name ≠ none) : Calls fd n (n.busMethod fd m) := by
  have post : ∀ {n'}, Posts n n' → Calls fd n n' := fun h => .of_posts ht h
  unfold busMethod
  by_cases h1 : m.member = ascii "Hello"
  · rw [if_pos h1]
    exact calls_hello ht hs (hnew (.inl h1))
  rw [if_neg h1]
  by_cases h2 : m.member = ascii "RequestName"
  · rw [if_pos h2]
    exact calls_requestName ht hs (hnew (.inr h2)) (hname h2)
  rw [if_neg h2]
  by_cases h3 : m.member = ascii "ReleaseName"
  · rw [if_pos h3]
    exact calls_releaseName ht
  rw [if_neg h3]
  by_cases h4 : m.member = ascii "ListNames"
  · rw [if_pos h4]
    dsimp only
    rw [collectNames_self ht]
    exact post (.replyStrArray n fd m _)
  rw [if_neg h4]
  by_cases h5 : m.member = ascii "NameHasOwner"
  · rw [if_pos h5]
    cases dbusvBodyGetStr m 0 dbusvNameMax with
    | none => exact post (.replyError n fd m _ _)
    | some name => exact post (.replyBool n fd m _)
  rw [if_neg h5]
  by_cases h6 : m.member = ascii "GetNameOwner"
  · rw [if_pos h6]
    cases dbusvBodyGetStr m 0 dbusvNameMax with
    | none => exact post (.replyError n fd m _ _)
    | some name =>
      dsimp only
      cases hl : n.bus.lookupOwnerUnique name with
      | none => exact post (.replyError n fd m _ _)
      | some r =>
        dsimp only
        rw [lookupOwnerUnique_self ht hl]
        exact post (.replyStr n fd m _)
  rw [if_neg h6]
  by_cases h7 : m.member = ascii "AddMatch"
  · rw [if_pos h7]
    cases dbusvBodyGetStr m 0 192 with
    | none => exact post (.replyError n fd m _ _)
    | some rule => exact (Calls.setBus (ht.addMatch hs fd rule)).posts (.replyVoid _ fd m)
  rw [if_neg h7]
  by_cases h8 : m.member = ascii "RemoveMatch"
  · rw [if_pos h8]
    cases dbusvBodyGetStr m 0 192 with
    | none => exact post (.replyError n fd m _ _)
    | some rule => exact (Calls.setBus (ht.removeMatch hs fd rule)).posts (.replyVoid _ fd m)
  rw [if_neg h8]
  by_cases h9 : m.member = ascii "GetId"
  · rw [if_pos h9]
    exact post (.replyStr n fd m _)
  rw [if_neg h9]
  by_cases h10 : m.member = ascii "StartServiceByName"
  · rw [if_pos h10]
    exact calls_startService ht hs
  rw [if_neg h10]
  by_cases h11 : m.member = ascii "GetConnectionUnixProcessID"
  · rw [if_pos h11]
    cases dbusvBodyGetStr m 0 dbusvNameMax with
    | none => exact post (.replyError n fd m _ _)
    | some name =>
      dsimp only
      cases n.bus.ownerFdForName name with
      | none => exact post (.replyError n fd m _ _)
      | some owner => exact post (.replyU32 n fd m _)
  rw [if_neg h11]
  by_cases h12 : m.member = ascii "GetConnectionCredentials"
  · rw [if_pos h12]
    exact post (.replyEmptyDictSv n fd m)
  · rw [if_neg h12]
    exact post (.replyError n fd m _ _)

theorem calls_handleMethodCall (ht : n.bus.Tables) (hs : n.bus.seeded = true) (hp : n.Proper svc fd m) :
    Calls fd n (n.handleMethodCall svc fd m) := by
  have post : ∀ {n'}, Posts n n' → Calls fd n n' := fun h => .of_posts ht h
  have hbus : (if m.iface = [] then ascii "org.freedesktop.DBus" else m.iface) =
      ascii "org.freedesktop.DBus" ↔ IsBusCall m := by
    unfold IsBusCall
    split_ifs with h <;> simp [h]
  have hother : ¬IsBusCall m →
      (if m.iface = [] then ascii "org.freedesktop.DBus" else m.iface) = m.iface := by
    intro h
    exact if_neg fun he => h (.inl he)
  unfold handleMethodCall
  dsimp only
  generalize (if m.iface = [] then ascii "org.freedesktop.DBus" else m.iface) = iface
    at hbus hother
  by_cases h1 : m.member = []
  · rw [if_pos h1]
    exact post (.replyError n fd m _ _)
  rw [if_neg h1]
  by_cases h2 : iface = ascii "org.freedesktop.DBus.Introspectable" ∧ m.member = ascii "Introspect"
  · rw [if_pos h2]
    exact post (.replyStr n fd m _)
  rw [if_neg h2]
  by_cases h3 : iface = ascii "org.freedesktop.DBus.Peer" ∧ m.member = ascii "Ping"
  · rw [if_pos h3]
    exact post (.replyVoid n fd m)
  rw [if_neg h3]
  by_cases h4 : iface = ascii "org.freedesktop.DBus.Peer" ∧ m.member = ascii "GetMachineId"
  · rw [if_pos h4]
    exact post (.replyStr n fd m _)
  rw [if_neg h4]
  by_cases h5 : iface ≠ ascii "org.freedesktop.DBus"
  · rw [if_pos h5]
    have hno : ¬IsBusCall m := fun h => h5 (hbus.2 h)
    obtain rfl := hother hno
    have hcall := calls_service ht hs fun out path hne he =>
      hp.1 (.inr ⟨⟨h1, hno, h2, h3, h4⟩, out, path, hne, he⟩)
    split_ifs
    · exact hcall.posts (.replyError _ fd m _ _)
    · exact hcall
  · rw [if_neg h5]
    have hb := hbus.1 (not_not.1 h5)
    exact calls_busMethod ht hs (fun h => hp.1 (.inl ⟨hb, h⟩)) (hp.2 hb)

/-! ### A client that leaves -/

end Net

namespace Bus

/-- The tables without a client. -/
structure Dropped (fd : ℕ) (b b' : Bus) : Prop where
  bindings : ∀ i, b'.bindings i =
    if i < dbusvBindMax ∧ (b.bindings i).used = true ∧ (b.bindings i).ownerFd = some fd then
      freeBinding else b.bindings i
  rules : ∀ i, b'.matchRules i =
    if i < dbusvMatchMax ∧ (b.matchRules i).used = true ∧ (b.matchRules i).ownerFd = fd then
      freeMatch else b.matchRules i
  unique : b'.unique = update b.unique fd []
  hello : b'.hello = update b.hello fd false
  seeded : b'.seeded = b.seeded

namespace Dropped

variable {b b' : Bus} {fd i : ℕ}

theorem binding (h : Dropped fd b b') (hi : i < dbusvBindMax) (hu : (b'.bindings i).used = true) :
    b'.bindings i = b.bindings i ∧ (b.bindings i).ownerFd ≠ some fd := by
  have he := h.bindings i
  by_cases hc : i < dbusvBindMax ∧ (b.bindings i).used = true ∧ (b.bindings i).ownerFd = some fd
  · rw [if_pos hc] at he
    rw [he] at hu
    cases hu
  · rw [if_neg hc] at he
    rw [he] at hu
    exact ⟨he, fun ho => hc ⟨hi, hu, ho⟩⟩

theorem rule (h : Dropped fd b b') (hi : i < dbusvMatchMax) (hu : (b'.matchRules i).used = true) :
    b'.matchRules i = b.matchRules i ∧ (b.matchRules i).ownerFd ≠ fd := by
  have he := h.rules i
  by_cases hc : i < dbusvMatchMax ∧ (b.matchRules i).used = true ∧ (b.matchRules i).ownerFd = fd
  · rw [if_pos hc] at he
    rw [he] at hu
    cases hu
  · rw [if_neg hc] at he
    rw [he] at hu
    exact ⟨he, fun ho => hc ⟨hi, hu, ho⟩⟩

theorem unique_of_ne (h : Dropped fd b b') (hi : i ≠ fd) : b'.unique i = b.unique i := by
  rw [h.unique, update_of_ne hi]

theorem unique_ne_nil (h : Dropped fd b b') (hi : b'.unique i ≠ []) : i ≠ fd ∧ b.unique i ≠ [] := by
  have hif : i ≠ fd := by
    rintro rfl
    rw [h.unique, update_self] at hi
    exact hi rfl
  exact ⟨hif, by rwa [h.unique_of_ne hif] at hi⟩

theorem hello_true (h : Dropped fd b b') (hi : b'.hello i = true) : i ≠ fd ∧ b.hello i = true := by
  have hif : i ≠ fd := by
    rintro rfl
    rw [h.hello, update_self] at hi
    cases hi
  rw [h.hello, update_of_ne hif] at hi
  exact ⟨hif, hi⟩

theorem knows (h : Dropped fd b b') (hi : b'.Knows i) : b.Knows i ∧ i ≠ fd := by
  rcases hi with hi | hi | ⟨j, hj, hu, hc⟩ | ⟨j, hj, hu, hc⟩
  · obtain ⟨hne, hi⟩ := h.unique_ne_nil hi
    exact ⟨.inl hi, hne⟩
  · obtain ⟨hne, hi⟩ := h.hello_true hi
    exact ⟨.inr (.inl hi), hne⟩
  · obtain ⟨he, ho⟩ := h.binding hj hu
    rw [he] at hu hc
    refine ⟨.inr (.inr (.inl ⟨j, hj, hu, hc⟩)), ?_⟩
    rintro rfl
    exact ho hc
  · obtain ⟨he, ho⟩ := h.rule hj hu
    rw [he] at hu hc
    refine ⟨.inr (.inr (.inr ⟨j, hj, hu, hc⟩)), ?_⟩
    rintro rfl
    exact ho hc

theorem owner (h : Dropped fd b b') {name : Bytes} {o : Option ℕ} (ho : b'.Owner name o) :
    b.Owner name o ∧ o ≠ some fd := by
  rcases ho with ⟨c, hc, rfl, hh, hn⟩ | ⟨i, hi, hu, hn, rfl⟩
  · obtain ⟨hne, hh⟩ := h.hello_true hh
    rw [h.unique_of_ne hne] at hn
    exact ⟨.inl ⟨c, hc, rfl, hh, hn⟩, fun he => hne (some.inj he)⟩
  · obtain ⟨he, ho⟩ := h.binding hi hu
    rw [he] at hu hn ⊢
    exact ⟨.inr ⟨i, hi, hu, hn, rfl⟩, ho⟩

theorem tables (h : Dropped fd b b') (ht : b.Tables) : b'.Tables := by
  refine ⟨fun i hi => ?_, fun i j hi hij => ?_, fun i hi => ?_, fun i hi hu => ?_,
    fun i hi j hj hui huj hn => ?_, fun i hi hu c hc => ?_, fun hs c hc => ?_⟩
  · obtain ⟨hne, hi⟩ := h.unique_ne_nil hi
    rw [h.unique_of_ne hne]
    exact ht.marked i hi
  · obtain ⟨hne, hi'⟩ := h.unique_ne_nil hi
    obtain ⟨hnej, -⟩ := h.unique_ne_nil (hij ▸ hi)
    rw [h.unique_of_ne hne, h.unique_of_ne hnej] at hij
    exact ht.single i j hi' hij
  · obtain ⟨hne, hh⟩ := h.hello_true hi
    rw [h.unique_of_ne hne]
    exact ht.hello i hh
  · obtain ⟨he, -⟩ := h.binding hi hu
    rw [he] at hu ⊢
    exact ht.bound i hi hu
  · obtain ⟨hei, -⟩ := h.binding hi hui
    obtain ⟨hej, -⟩ := h.binding hj huj
    rw [hei] at hui hn
    rw [hej] at huj hn
    exact ht.keyed i hi j hj hui huj hn
  · obtain ⟨he, ho⟩ := h.binding hi hu
    rw [he] at hu hc
    have hne : c ≠ fd := by
      rintro rfl
      exact ho hc
    rw [h.unique_of_ne hne]
    exact ht.owner i hi hu c hc
  · exact ht.unseeded (h.seeded ▸ hs) c (h.knows hc).1

end Dropped

theorem foldl_dropMatch (fd : ℕ) (l : List ℕ) (b : Bus) :
    ∃ r, l.foldl (dropMatch fd) b = { b with matchRules := r } := by
  induction l generalizing b with
  | nil => exact ⟨b.matchRules, rfl⟩
  | cons i l ih =>
    have h1 : ∃ r, dropMatch fd b i = { b with matchRules := r } := by
      unfold dropMatch
      split_ifs
      · exact ⟨_, rfl⟩
      · exact ⟨b.matchRules, rfl⟩
    obtain ⟨r, hr⟩ := h1
    rw [foldl_cons, hr]
    exact ih _

theorem foldl_dropMatch_rules (fd : ℕ) (b : Bus) (i : ℕ) :
    ((List.range dbusvMatchMax).foldl (dropMatch fd) b).matchRules i =
      if i < dbusvMatchMax ∧ (b.matchRules i).used = true ∧ (b.matchRules i).ownerFd = fd then
        freeMatch else b.matchRules i := by
  refine foldl_sweep Bus.matchRules (fun x => x.used = true ∧ x.ownerFd = fd)
    (fun b i => ?_) dbusvMatchMax b i
  unfold dropMatch
  split_ifs <;> rfl

end Bus

namespace Net

theorem emitNameOwnerChanged_bus (n : Net) (name old new : Bytes) :
    ∃ s, (n.emitNameOwnerChanged name old new).bus = { n.bus with nextSerial := s } :=
  (Posts.emitNameOwnerChanged n name old new).bus

theorem foldl_dropBinding (fd : ℕ) (old : Bytes) (l : List ℕ) (n : Net) :
    ∃ x s, (l.foldl (dropBinding fd old) n).bus =
      { n.bus with bindings := x, nextSerial := s } := by
  induction l generalizing n with
  | nil => exact ⟨_, _, rfl⟩
  | cons i l ih =>
    have h1 : ∃ x s, (dropBinding fd old n i).bus =
        { n.bus with bindings := x, nextSerial := s } := by
      unfold dropBinding
      dsimp only
      split_ifs
      · obtain ⟨s, hs⟩ := emitNameOwnerChanged_bus
          (n.setBus (n.bus.setBinding i Bus.freeBinding)) (n.bus.bindings i).name old []
        exact ⟨_, s, hs⟩
      · exact ⟨_, _, rfl⟩
    obtain ⟨x, s, hx⟩ := h1
    obtain ⟨y, t, hy⟩ := ih (dropBinding fd old n i)
    exact ⟨y, t, by rw [foldl_cons, hy, hx]⟩

theorem foldl_dropBinding_bindings (fd : ℕ) (old : Bytes) (n : Net) (i : ℕ) :
    ((List.range dbusvBindMax).foldl (dropBinding fd old) n).bus.bindings i =
      if i < dbusvBindMax ∧ (n.bus.bindings i).used = true ∧
        (n.bus.bindings i).ownerFd = some fd then Bus.freeBinding else n.bus.bindings i := by
  refine foldl_sweep (fun n : Net => n.bus.bindings)
    (fun x => x.used = true ∧ x.ownerFd = some fd) (fun n i => ?_) dbusvBindMax n i
  unfold dropBinding
  dsimp only
  split_ifs with h
  · obtain ⟨s, hs⟩ := emitNameOwnerChanged_bus
      (n.setBus (n.bus.setBinding i Bus.freeBinding)) (n.bus.bindings i).name old []
    rw [hs]
    rfl
  · rfl

theorem dropLoops_bus (n : Net) (fd : ℕ) (old : Bytes) {n1 n2 : Net}
    (h1 : (List.range dbusvBindMax).foldl (dropBinding fd old) n = n1)
    (h2 : n1.setBus ((List.range dbusvMatchMax).foldl (Bus.dropMatch fd) n1.bus) = n2) :
    ∃ t, n2.bus = { n.bus with
      bindings := fun i => if i < dbusvBindMax ∧ (n.bus.bindings i).used = true ∧
        (n.bus.bindings i).ownerFd = some fd then Bus.freeBinding else n.bus.bindings i
      matchRules := fun i => if i < dbusvMatchMax ∧ (n.bus.matchRules i).used = true ∧
        (n.bus.matchRules i).ownerFd = fd then Bus.freeMatch else n.bus.matchRules i
      nextSerial := t } := by
  obtain ⟨x, t, hx⟩ := foldl_dropBinding fd old (List.range dbusvBindMax) n
  have hbind := foldl_dropBinding_bindings fd old n
  rw [h1] at hx hbind
  obtain ⟨r, hr⟩ := Bus.foldl_dropMatch fd (List.range dbusvMatchMax) n1.bus
  have hrule := Bus.foldl_dropMatch_rules fd n1.bus
  have hbus : n2.bus = { n1.bus with matchRules := r } := by rw [← h2, setBus_bus, hr]
  refine ⟨t, ?_⟩
  rw [hr] at hrule
  rw [hbus]
  rw [hx] at hrule hbind ⊢
  have hb := funext hbind
  have hm := funext hrule
  dsimp only at hb hm ⊢
  rw [hb, hm]

theorem dropSignal_bus (n : Net) (fd : ℕ) (old : Bytes) :
    ∃ t, (if n.bus.hello fd ∧ old ≠ [] then n.emitNameOwnerChanged old old [] else n).bus =
      { n.bus with nextSerial := t } := by
  split_ifs
  · exact emitNameOwnerChanged_bus n old old []
  · exact ⟨_, rfl⟩

theorem dropped_dropSocket (n : Net) (fd : ℕ) :
    n.bus.seedDefaults.Dropped fd (n.dbusvDropSocket fd).bus := by
  have hens : ∃ u v, n.bus.seedDefaults.ensureUniqueFd fd =
      { n.bus.seedDefaults with
        unique := update n.bus.seedDefaults.unique fd u, nextUnique := v } := by
    unfold Bus.ensureUniqueFd
    split_ifs
    · exact ⟨_, _, rfl⟩
    · exact ⟨n.bus.seedDefaults.unique fd, _, by rw [update_eq_self]⟩
  obtain ⟨u, v, hb⟩ := hens
  obtain ⟨t, ht⟩ := dropLoops_bus (n.setBus (n.bus.seedDefaults.ensureUniqueFd fd)) fd
    ((n.bus.seedDefaults.ensureUniqueFd fd).unique fd) rfl rfl
  unfold dbusvDropSocket
  dsimp only
  obtain ⟨t', ht'⟩ := dropSignal_bus (((List.range dbusvBindMax).foldl (dropBinding fd
    ((n.bus.seedDefaults.ensureUniqueFd fd).unique fd))
      (n.setBus (n.bus.seedDefaults.ensureUniqueFd fd))).setBus
    ((List.range dbusvMatchMax).foldl (Bus.dropMatch fd) ((List.range dbusvBindMax).foldl
      (dropBinding fd ((n.bus.seedDefaults.ensureUniqueFd fd).unique fd))
        (n.setBus (n.bus.seedDefaults.ensureUniqueFd fd))).bus)) fd
          ((n.bus.seedDefaults.ensureUniqueFd fd).unique fd)
  rw [setBus_bus, ht', ht, setBus_bus, hb]
  exact ⟨fun _ => rfl, fun _ => rfl, update_idem .., rfl, rfl⟩

end Net

end Ridux
