import Mathlib.Tactic.Common
import Ridux.Lib.Run

/-!
# User and group ids

The calls of `linux_syscalls.c` that change the ids of a task.

* `Ids`: a real, an effective and a saved id; `setId`, `setReid`, `setResid`: what the calls for
  users and those for groups have in common;
* `Creds`: the ids of a task and their copies in its auxiliary vector; the six calls;
* `Ids.Within`: every id is one of three;
* `credRun_confined`: without the privilege, the ids of any run are those of its start.

The calls for groups take the effective group 0 for the privilege, not the effective user 0.
-/

namespace Ridux

open Lib

/-! ### Three ids -/

/-- A real, an effective and a saved id. -/
structure Ids where
  real : Int32
  effective : Int32
  saved : Int32
  deriving DecidableEq

/-- What the calls return on failure. -/
inductive CredErr
  | einval
  | eperm
  deriving DecidableEq

namespace Ids

/-- `c3_uid_allowed`, `c3_gid_allowed`: the id is one of the three. -/
def allowed (i : Ids) (id : Int32) : Bool := id = i.real ∨ id = i.effective ∨ id = i.saved

/-- An argument with `-1` for no change. -/
def orKeep (id old : Int32) : Int32 := if id = -1 then old else id

/-- The test of one argument by a task without the privilege. -/
def permits (i : Ids) (id : Int32) : Bool := id = -1 ∨ i.allowed id

/-- `setuid`, `setgid`. -/
def setId (i : Ids) (id : Int32) : Except CredErr Ids :=
  if id < 0 then .error .einval
  else if i.effective = 0 then .ok ⟨id, id, id⟩
  else if i.allowed id then .ok { i with effective := id }
  else .error .eperm

/-- `setreuid`, `setregid`. -/
def setReid (i : Ids) (r e : Int32) : Except CredErr Ids :=
  if r < -1 ∨ e < -1 then .error .einval
  else if i.effective ≠ 0 ∧ !(i.permits r && i.permits e) then .error .eperm
  else
    let effective := orKeep e i.effective
    .ok ⟨orKeep r i.real, effective, if r ≠ -1 ∨ e ≠ -1 then effective else i.saved⟩

/-- `setresuid`, `setresgid`: the arguments are unsigned, and stored as they are. -/
def setResid (i : Ids) (r e s : UInt32) : Except CredErr Ids :=
  if i.effective ≠ 0 ∧
      !(i.permits r.toInt32 && i.permits e.toInt32 && i.permits s.toInt32) then .error .eperm
  else .ok ⟨orKeep r.toInt32 i.real, orKeep e.toInt32 i.effective, orKeep s.toInt32 i.saved⟩

/-! ### What the calls can set -/

/-- One of the three ids. -/
def Holds (i : Ids) (id : Int32) : Prop := id = i.real ∨ id = i.effective ∨ id = i.saved

/-- Every id of `j` is one of those of `i`. -/
def Within (i j : Ids) : Prop := ∀ id, j.Holds id → i.Holds id

instance (i : Ids) (id : Int32) : Decidable (i.Holds id) := inferInstanceAs (Decidable (_ ∨ _))

variable {i j k : Ids} {id r e : Int32}

theorem allowed_iff : i.allowed id = true ↔ i.Holds id := by
  simp [allowed, Holds]

@[simp] theorem holds_real : i.Holds i.real := .inl rfl

@[simp] theorem holds_effective : i.Holds i.effective := .inr (.inl rfl)

@[simp] theorem holds_saved : i.Holds i.saved := .inr (.inr rfl)

theorem Within.refl (i : Ids) : i.Within i := fun _ h => h

theorem Within.trans (h : i.Within j) (h' : j.Within k) : i.Within k := fun id hid => h id (h' id hid)

theorem within_mk {a b c : Int32} (ha : i.Holds a) (hb : i.Holds b) (hc : i.Holds c) :
    i.Within ⟨a, b, c⟩ := by
  rintro id (rfl | rfl | rfl)
  · exact ha
  · exact hb
  · exact hc

theorem holds_orKeep {old : Int32} (h : i.permits id = true) (hold : i.Holds old) :
    i.Holds (orKeep id old) := by
  unfold orKeep
  split_ifs with h1
  · exact hold
  · exact allowed_iff.1 (by simpa [permits, h1] using h)

theorem setId_within (he : i.effective ≠ 0) (h : i.setId id = .ok j) : i.Within j := by
  unfold setId at h
  split_ifs at h with h1 h2
  obtain rfl := Except.ok.inj h
  exact within_mk holds_real (allowed_iff.1 h2) holds_saved

theorem setReid_within (he : i.effective ≠ 0) (h : i.setReid r e = .ok j) : i.Within j := by
  unfold setReid at h
  by_cases h1 : r < -1 ∨ e < -1
  · rw [if_pos h1] at h
    cases h
  rw [if_neg h1] at h
  by_cases h2 : i.effective ≠ 0 ∧ !(i.permits r && i.permits e)
  · rw [if_pos h2] at h
    cases h
  rw [if_neg h2] at h
  have hp : i.permits r = true ∧ i.permits e = true := by simpa [he] using h2
  have heff := holds_orKeep hp.2 i.holds_effective
  obtain rfl := Except.ok.inj h
  refine within_mk (holds_orKeep hp.1 holds_real) heff ?_
  split_ifs
  · exact heff
  · exact holds_saved

theorem setResid_within (he : i.effective ≠ 0) {r e s : UInt32} (h : i.setResid r e s = .ok j) :
    i.Within j := by
  unfold setResid at h
  split_ifs at h with h1
  have hp : (i.permits r.toInt32 = true ∧ i.permits e.toInt32 = true) ∧
      i.permits s.toInt32 = true := by simpa [he] using h1
  obtain rfl := Except.ok.inj h
  exact within_mk (holds_orKeep hp.1.1 holds_real) (holds_orKeep hp.1.2 holds_effective)
    (holds_orKeep hp.2 holds_saved)

end Ids

/-! ### The ids of a task -/

/-- The ids of a task, and `aux_at_uid`, `aux_at_euid`, `aux_at_gid`, `aux_at_egid`. -/
structure Creds where
  uids : Ids
  gids : Ids
  auxAtUid : UInt64
  auxAtEuid : UInt64
  auxAtGid : UInt64
  auxAtEgid : UInt64
  deriving DecidableEq

namespace Creds

/-- An `int` as a `uint64_t`. -/
def auxId (id : Int32) : UInt64 := id.toInt64.toUInt64

/-- `c3_update_aux_creds`. -/
def updateAux (c : Creds) : Creds :=
  { c with
    auxAtUid := auxId c.uids.real
    auxAtEuid := auxId c.uids.effective
    auxAtGid := auxId c.gids.real
    auxAtEgid := auxId c.gids.effective }

/-- What a call for users does with the ids it computes. -/
def withUids (c : Creds) (r : Except CredErr Ids) : Except CredErr Unit × Creds :=
  match r with
  | .error e => (.error e, c)
  | .ok uids => (.ok (), updateAux { c with uids := uids })

/-- What a call for groups does with the ids it computes. -/
def withGids (c : Creds) (r : Except CredErr Ids) : Except CredErr Unit × Creds :=
  match r with
  | .error e => (.error e, c)
  | .ok gids => (.ok (), updateAux { c with gids := gids })

/-- `real_sys_setuid`. -/
def setuid (c : Creds) (uid : Int32) : Except CredErr Unit × Creds :=
  c.withUids (c.uids.setId uid)

/-- `real_sys_setgid`. -/
def setgid (c : Creds) (gid : Int32) : Except CredErr Unit × Creds :=
  c.withGids (c.gids.setId gid)

/-- `real_sys_setreuid`. -/
def setreuid (c : Creds) (ruid euid : Int32) : Except CredErr Unit × Creds :=
  c.withUids (c.uids.setReid ruid euid)

/-- `real_sys_setregid`. -/
def setregid (c : Creds) (rgid egid : Int32) : Except CredErr Unit × Creds :=
  c.withGids (c.gids.setReid rgid egid)

/-- `real_sys_setresuid`. -/
def setresuid (c : Creds) (ruid euid suid : UInt32) : Except CredErr Unit × Creds :=
  c.withUids (c.uids.setResid ruid euid suid)

/-- `real_sys_setresgid`. -/
def setresgid (c : Creds) (rgid egid sgid : UInt32) : Except CredErr Unit × Creds :=
  c.withGids (c.gids.setResid rgid egid sgid)

/-- A call that changes ids. -/
inductive Call
  | setuid (uid : Int32)
  | setgid (gid : Int32)
  | setreuid (ruid euid : Int32)
  | setregid (rgid egid : Int32)
  | setresuid (ruid euid suid : UInt32)
  | setresgid (rgid egid sgid : UInt32)

/-- The result of a call. -/
def call (c : Creds) : Call → Except CredErr Unit × Creds
  | .setuid uid => c.setuid uid
  | .setgid gid => c.setgid gid
  | .setreuid r e => c.setreuid r e
  | .setregid r e => c.setregid r e
  | .setresuid r e s => c.setresuid r e s
  | .setresgid r e s => c.setresgid r e s

def exec (c : Creds) (op : Call) : Creds := (c.call op).2

/-! ### What a call changes -/

variable {c : Creds} {r : Except CredErr Ids}

theorem withUids_uids : (c.withUids r).2.uids = c.uids ∨ r = .ok (c.withUids r).2.uids := by
  cases r with
  | error e => exact .inl rfl
  | ok uids => exact .inr rfl

theorem withGids_gids : (c.withGids r).2.gids = c.gids ∨ r = .ok (c.withGids r).2.gids := by
  cases r with
  | error e => exact .inl rfl
  | ok gids => exact .inr rfl

@[simp] theorem withUids_gids : (c.withUids r).2.gids = c.gids := by cases r <;> rfl

@[simp] theorem withGids_uids : (c.withGids r).2.uids = c.uids := by cases r <;> rfl

theorem uids_within (he : c.uids.effective ≠ 0) (op : Call) :
    c.uids.Within (c.exec op).uids := by
  have key : ∀ r, (∀ j, r = .ok j → c.uids.Within j) → c.uids.Within (c.withUids r).2.uids := by
    intro r hr
    rcases withUids_uids (c := c) (r := r) with h | h
    · rw [h]
      exact .refl _
    · exact hr _ h
  cases op with
  | setuid uid => exact key _ fun _ => Ids.setId_within he
  | setgid gid => exact (congrArg c.uids.Within withGids_uids).mpr (.refl _)
  | setreuid r e => exact key _ fun _ => Ids.setReid_within he
  | setregid r e => exact (congrArg c.uids.Within withGids_uids).mpr (.refl _)
  | setresuid r e s => exact key _ fun _ => Ids.setResid_within he
  | setresgid r e s => exact (congrArg c.uids.Within withGids_uids).mpr (.refl _)

theorem gids_within (he : c.gids.effective ≠ 0) (op : Call) :
    c.gids.Within (c.exec op).gids := by
  have key : ∀ r, (∀ j, r = .ok j → c.gids.Within j) → c.gids.Within (c.withGids r).2.gids := by
    intro r hr
    rcases withGids_gids (c := c) (r := r) with h | h
    · rw [h]
      exact .refl _
    · exact hr _ h
  cases op with
  | setgid gid => exact key _ fun _ => Ids.setId_within he
  | setuid uid => exact (congrArg c.gids.Within withUids_gids).mpr (.refl _)
  | setregid r e => exact key _ fun _ => Ids.setReid_within he
  | setreuid r e => exact (congrArg c.gids.Within withUids_gids).mpr (.refl _)
  | setresgid r e s => exact key _ fun _ => Ids.setResid_within he
  | setresuid r e s => exact (congrArg c.gids.Within withUids_gids).mpr (.refl _)

/-- Any sequence of calls. -/
abbrev Reaches : Creds → Creds → Prop := Runs (fun _ _ => True) exec

end Creds

open Creds

/-- **Ids are confined.** As long as the effective user is not 0, every user that a task holds is
one that it held at the start. A task whose users are all different from 0 never holds 0 nor any
other user; so for groups and the effective group. -/
theorem credRun_confined (c : Creds) :
    (∀ c', Runs (fun s _ => s.uids.effective ≠ 0) exec c c' → c.uids.Within c'.uids) ∧
    (∀ c', Runs (fun s _ => s.gids.effective ≠ 0) exec c c' → c.gids.Within c'.gids) ∧
    ((∀ c', c.Reaches c' → c.uids.Within c'.uids ∧ ¬c'.uids.Holds 0) ↔ ¬c.uids.Holds 0) ∧
    (¬c.gids.Holds 0 → ∀ c', c.Reaches c' → c.gids.Within c'.gids) := by
  refine ⟨fun c' hrun => ?_, fun c' hrun => ?_, ⟨fun h => (h c (Runs.refl c)).2, fun hz c' hrun => ?_⟩,
    fun hz c' hrun => ?_⟩
  · exact Runs.invariant (P := fun s => c.uids.Within s.uids)
      (fun s op h he => h.trans (uids_within he op)) hrun (.refl _)
  · exact Runs.invariant (P := fun s => c.gids.Within s.gids)
      (fun s op h he => h.trans (gids_within he op)) hrun (.refl _)
  · have hw : c.uids.Within c'.uids := by
      refine Runs.invariant (P := fun s => c.uids.Within s.uids) (fun s op h _ => ?_) hrun (.refl _)
      refine h.trans (uids_within (fun he => hz ?_) op)
      rw [← he]
      exact h _ Ids.holds_effective
    exact ⟨hw, fun h => hz (hw 0 h)⟩
  · refine Runs.invariant (P := fun s => c.gids.Within s.gids) (fun s op h _ => ?_) hrun (.refl _)
    refine h.trans (gids_within (fun he => hz ?_) op)
    rw [← he]
    exact h _ Ids.holds_effective

/-- A task of user 1000 with two other ids of its own. -/
def plainCreds : Creds where
  uids := ⟨1000, 1000, 1001⟩
  gids := ⟨1000, 1000, 1000⟩
  auxAtUid := 1000
  auxAtEuid := 1000
  auxAtGid := 1000
  auxAtEgid := 1000

theorem plainCreds_confined : plainCreds.uids.Within (plainCreds.exec (.setuid 1001)).uids :=
  ((credRun_confined plainCreds).2.2.1.2 (by decide) _ (Runs.tail (Runs.refl _) _ trivial)).1

/-- The same task with the saved user 0, and the effective group 0. -/
def formerRoot : Creds :=
  { plainCreds with uids := ⟨1000, 1000, 0⟩, gids := ⟨1000, 0, 1000⟩ }

/-- A saved user 0 gives any user back; an effective group 0 gives any group to a task none of whose
users is 0. -/
theorem formerRoot_not_confined :
    (formerRoot.uids.effective ≠ 0 ∧
      formerRoot.Reaches ((formerRoot.exec (.setuid 0)).exec (.setuid 777)) ∧
      ¬formerRoot.uids.Within ((formerRoot.exec (.setuid 0)).exec (.setuid 777)).uids) ∧
    ¬{ formerRoot with uids := plainCreds.uids }.uids.Holds 0 ∧
      ¬{ formerRoot with uids := plainCreds.uids }.gids.Within
        ({ formerRoot with uids := plainCreds.uids }.exec (.setgid 42)).gids := by
  refine ⟨⟨by decide, Runs.tail (Runs.tail (Runs.refl _) _ trivial) _ trivial, fun h => ?_⟩,
    by decide, fun h => ?_⟩
  · exact absurd (h 777 (by decide)) (by decide)
  · exact absurd (h 42 (by decide)) (by decide)

end Ridux
