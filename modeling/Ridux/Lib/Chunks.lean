import Mathlib.Data.List.Flatten
import Mathlib.Data.List.Forall2
import Mathlib.Data.List.Nodup
import Mathlib.Data.List.Range
import Mathlib.Logic.Function.Basic
import Mathlib.Tactic.Common

/-!
# Copies that go page by page

A range of addresses is cut at the boundaries of pages; each piece is translated once, at its
start, and copied as a whole.

* `chunks`: the pieces of a range; `flatMap_chunks`: together they are the range, in order;
* `gather`, `scatter`: read or write piece by piece, up to the first that does not translate;
* `gather_eq_some`: reading gives the values at the translated addresses, one by one;
* `scatter_true`: writing stores the values at them, one by one.
-/

namespace Ridux.Lib

open Function List

variable {α : Type*}

/-- The pieces of the `len` addresses from `va`, each with its start and its length. -/
def chunks (page : ℕ) : ℕ → ℕ → ℕ → List (ℕ × ℕ)
  | 0, _, _ => []
  | fuel + 1, va, len =>
    if len = 0 then []
    else
      let n := min (page - va % page) len
      (va, n) :: chunks page fuel (va + n) (len - n)

/-- The addresses of some pieces. -/
def addrs (cs : List (ℕ × ℕ)) : List ℕ := cs.flatMap fun c => List.range' c.1 c.2

/-- A piece is not empty and stays in its page. -/
def InPage (page : ℕ) (c : ℕ × ℕ) : Prop := 0 < c.2 ∧ c.1 % page + c.2 ≤ page

variable {page : ℕ}

theorem chunks_inPage (hp : 0 < page) (fuel : ℕ) :
    ∀ va len, ∀ c ∈ chunks page fuel va len, InPage page c := by
  induction fuel with
  | zero => intro va len c hc; cases hc
  | succ fuel ih =>
    intro va len c hc
    unfold chunks at hc
    split_ifs at hc with h0
    · cases hc
    · have := Nat.mod_lt va hp
      rcases mem_cons.1 hc with rfl | hc
      · exact ⟨show 0 < min (page - va % page) len by omega,
          show va % page + min (page - va % page) len ≤ page by omega⟩
      · exact ih _ _ c hc

theorem flatMap_chunks (hp : 0 < page) (fuel : ℕ) :
    ∀ va len, len ≤ fuel → addrs (chunks page fuel va len) = List.range' va len := by
  induction fuel with
  | zero =>
    intro va len h
    obtain rfl : len = 0 := by omega
    rfl
  | succ fuel ih =>
    intro va len h
    unfold chunks
    split_ifs with h0
    · subst h0
      rfl
    · have := Nat.mod_lt va hp
      set n := min (page - va % page) len with hn
      show List.range' va n ++ addrs (chunks page fuel (va + n) (len - n)) = _
      rw [ih _ _ (by omega), List.range'_append_1]
      congr 1
      omega

/-! ### Translation -/

/-- The addresses of a page translate together. -/
def Linear (page : ℕ) (tr : ℕ → Option ℕ) : Prop :=
  ∀ va p i, tr va = some p → va % page + i < page → tr (va + i) = some (p + i)

/-- Read piece by piece. -/
def gather (tr : ℕ → Option ℕ) (mem : ℕ → α) : List (ℕ × ℕ) → Option (List α)
  | [] => some []
  | c :: cs =>
    match tr c.1 with
    | none => none
    | some p => (gather tr mem cs).map (((List.range' p c.2).map mem) ++ ·)

/-- Store values one after the other from `p` on. -/
def storeAt (mem : ℕ → α) (p : ℕ) : List α → ℕ → α
  | [] => mem
  | x :: xs => storeAt (update mem p x) (p + 1) xs

/-- Write piece by piece. -/
def scatter (tr : ℕ → Option ℕ) : List (ℕ × ℕ) → List α → (ℕ → α) → Bool × (ℕ → α)
  | [], _, mem => (true, mem)
  | c :: cs, src, mem =>
    match tr c.1 with
    | none => (false, mem)
    | some p => scatter tr cs (src.drop c.2) (storeAt mem p (src.take c.2))

/-- The value at a translated address. -/
def ReadsAt (tr : ℕ → Option ℕ) (mem : ℕ → α) (va : ℕ) (x : α) : Prop :=
  ∃ p, tr va = some p ∧ mem p = x

/-- Store a list of values at a list of addresses. -/
def storeAll (mem : ℕ → α) (ps : List ℕ) (xs : List α) : ℕ → α :=
  (ps.zip xs).foldl (fun m q => update m q.1 q.2) mem

variable {tr : ℕ → Option ℕ} {mem mem' : ℕ → α} {ps as qs : List ℕ} {va n : ℕ} {R : ℕ → α → Prop}
  {cs : List (ℕ × ℕ)}

theorem Linear.forall₂ (h : Linear page tr) {p : ℕ} (hp : tr va = some p) (hn : va % page + n ≤ page) :
    List.Forall₂ (fun a q => tr a = some q) (List.range' va n) (List.range' p n) := by
  rw [List.forall₂_iff_get]
  refine ⟨by simp, fun i h1 h2 => ?_⟩
  simp only [length_range'] at h1
  simp only [get_eq_getElem, getElem_range', Nat.one_mul]
  exact h va p i hp (by omega)

theorem forall₂_map_right {f : ℕ → α} (h : List.Forall₂ (fun a q => R a (f q)) as qs) :
    List.Forall₂ R as (qs.map f) := by
  induction h with
  | nil => exact .nil
  | cons h _ ih => exact .cons h ih

theorem readsAt_unique : Relator.RightUnique (ReadsAt tr mem) := by
  rintro a x y ⟨p, hp, rfl⟩ ⟨q, hq, rfl⟩
  rw [hp] at hq
  rw [Option.some.inj hq]

theorem forall₂_piece {xs : List α} :
    List.Forall₂ R (List.range' va n ++ as) xs ↔
      List.Forall₂ R (List.range' va n) (xs.take n) ∧ List.Forall₂ R as (xs.drop n) := by
  have hlen : (List.range' va n).length = n := length_range'
  constructor
  · intro h
    have ht := List.forall₂_take n h
    have hd := List.forall₂_drop n h
    rw [take_left' hlen] at ht
    rw [drop_left' hlen] at hd
    exact ⟨ht, hd⟩
  · rintro ⟨h₁, h₂⟩
    rw [← take_append_drop n xs]
    exact rel_append h₁ h₂

theorem gather_eq_some (h : Linear page tr) (mem : ℕ → α) (hcs : ∀ c ∈ cs, InPage page c)
    {xs : List α} : gather tr mem cs = some xs ↔ List.Forall₂ (ReadsAt tr mem) (addrs cs) xs := by
  induction cs generalizing xs with
  | nil =>
    constructor
    · intro hx
      cases hx
      exact .nil
    · intro hx
      cases hx
      rfl
  | cons c cs ih =>
    obtain ⟨hpos, hin⟩ := hcs c mem_cons_self
    have ih' : ∀ ys, gather tr mem cs = some ys ↔ List.Forall₂ (ReadsAt tr mem) (addrs cs) ys :=
      fun _ => ih fun c' hc' => hcs c' (mem_cons_of_mem _ hc')
    have haddrs : addrs (c :: cs) = List.range' c.1 c.2 ++ addrs cs := rfl
    rw [haddrs]
    unfold gather
    cases hp : tr c.1 with
    | none =>
      refine ⟨fun hn => absurd hn (Option.some_ne_none xs).symm, fun hf => ?_⟩
      obtain ⟨n, hn⟩ := Nat.exists_eq_succ_of_ne_zero (Nat.pos_iff_ne_zero.1 hpos)
      rw [hn, List.range'_succ, cons_append] at hf
      cases hf with
      | cons hr _ =>
        obtain ⟨p, hp', -⟩ := hr
        rw [hp] at hp'
        cases hp'
    | some p =>
      have hpiece : List.Forall₂ (ReadsAt tr mem) (List.range' c.1 c.2)
          ((List.range' p c.2).map mem) :=
        forall₂_map_right ((h.forall₂ hp hin).imp fun a q hq => ⟨q, hq, rfl⟩)
      dsimp only
      rw [Option.map_eq_some_iff]
      constructor
      · rintro ⟨ys, hys, rfl⟩
        exact rel_append hpiece ((ih' ys).1 hys)
      · intro hf
        obtain ⟨h₁, h₂⟩ := forall₂_piece.1 hf
        refine ⟨xs.drop c.2, (ih' _).2 h₂, ?_⟩
        rw [right_unique_forall₂' readsAt_unique hpiece h₁, take_append_drop]

/-! ### Writing -/

theorem storeAt_eq (xs : List α) : ∀ mem p, storeAt mem p xs =
    storeAll mem (List.range' p xs.length) xs := by
  induction xs with
  | nil => exact fun _ _ => rfl
  | cons x xs ih =>
    intro mem p
    rw [storeAt, ih, length_cons, List.range'_succ]
    rfl

theorem storeAll_append {xs ys : List α} (h : ps.length = xs.length) :
    storeAll mem (ps ++ qs) (xs ++ ys) = storeAll (storeAll mem ps xs) qs ys := by
  unfold storeAll
  rw [zip_append h, foldl_append]

theorem scatter_true (h : Linear page tr) (hcs : ∀ c ∈ cs, InPage page c) :
    ∀ (src : List α) mem mem', src.length = (addrs cs).length →
      scatter tr cs src mem = (true, mem') →
      ∃ ps, List.Forall₂ (fun a q => tr a = some q) (addrs cs) ps ∧ mem' = storeAll mem ps src := by
  induction cs with
  | nil =>
    intro src mem mem' hlen hs
    obtain rfl := eq_nil_of_length_eq_zero hlen
    exact ⟨[], .nil, (Prod.mk.inj hs).2.symm⟩
  | cons c cs ih =>
    intro src mem mem' hlen hs
    obtain ⟨-, hin⟩ := hcs c mem_cons_self
    have haddrs : addrs (c :: cs) = List.range' c.1 c.2 ++ addrs cs := rfl
    rw [haddrs, length_append, length_range'] at hlen
    unfold scatter at hs
    cases hp : tr c.1 with
    | none =>
      rw [hp] at hs
      cases hs
    | some p =>
      rw [hp] at hs
      obtain ⟨ps, hps, rfl⟩ := ih (fun c' hc' => hcs c' (mem_cons_of_mem _ hc')) _ _ _
        (by rw [length_drop]; omega) hs
      have htake : (src.take c.2).length = c.2 := by rw [length_take]; omega
      refine ⟨List.range' p c.2 ++ ps, rel_append (h.forall₂ hp hin) hps, ?_⟩
      rw [storeAt_eq, htake, ← storeAll_append (by rw [length_range', htake]),
        take_append_drop]

theorem storeAll_of_not_mem {q : ℕ} (hq : q ∉ ps) :
    ∀ (xs : List α) (mem : ℕ → α), storeAll mem ps xs q = mem q := by
  induction ps with
  | nil => exact fun _ _ => rfl
  | cons p ps ih =>
    intro xs mem
    obtain ⟨hne, hps⟩ := ne_and_not_mem_of_not_mem_cons hq
    cases xs with
    | nil => rfl
    | cons x xs =>
      show storeAll (update mem p x) ps xs q = mem q
      rw [ih hps, update_of_ne hne]

theorem storeAll_of_nodup (hnd : ps.Nodup) :
    ∀ (xs : List α) (mem : ℕ → α), ps.length = xs.length →
      List.Forall₂ (fun p x => storeAll mem ps xs p = x) ps xs := by
  induction ps with
  | nil =>
    intro xs mem h
    obtain rfl := eq_nil_of_length_eq_zero h.symm
    exact .nil
  | cons p ps ih =>
    intro xs mem h
    obtain ⟨hp, hps⟩ := nodup_cons.1 hnd
    cases xs with
    | nil => cases h
    | cons x xs =>
      refine .cons ?_ (ih hps xs (update mem p x) (by simpa using h))
      show storeAll (update mem p x) ps xs p = x
      rw [storeAll_of_not_mem hp, update_self]

/-! ### Three lists side by side -/

variable {β γ δ : Type*} {P : β → γ → Prop} {Q : γ → δ → Prop} {xs : List β} {ys : List γ}
  {zs : List δ}

theorem forall₂_between (h : List.Forall₂ P xs ys) (h' : List.Forall₂ Q ys zs) :
    ∀ q ∈ xs.zip zs, ∃ y ∈ ys, P q.1 y ∧ Q y q.2 := by
  induction h generalizing zs with
  | nil =>
    intro q hq
    cases hq
  | @cons x y xs ys hP _ ih =>
    cases h' with
    | @cons _ z _ zs hQ h' =>
      intro q hq
      rcases mem_cons.1 hq with rfl | hq
      · exact ⟨y, mem_cons_self, hP, hQ⟩
      · obtain ⟨w, hw, hr⟩ := ih h' q hq
        exact ⟨w, mem_cons_of_mem _ hw, hr⟩

theorem forall₂_around (h : List.Forall₂ P xs ys) (h' : List.Forall₂ Q ys zs) :
    ∀ y ∈ ys, ∃ q ∈ xs.zip zs, P q.1 y ∧ Q y q.2 := by
  induction h generalizing zs with
  | nil =>
    intro y hy
    cases hy
  | @cons x y xs ys hP _ ih =>
    cases h' with
    | @cons _ z _ zs hQ h' =>
      intro w hw
      rcases mem_cons.1 hw with rfl | hw
      · exact ⟨(x, z), mem_cons_self, hP, hQ⟩
      · obtain ⟨q, hq, hr⟩ := ih h' w hw
        exact ⟨q, mem_cons_of_mem _ hq, hr⟩

theorem forall₂_comp (h : List.Forall₂ P xs ys) (h' : List.Forall₂ Q ys zs) :
    List.Forall₂ (fun x z => ∃ y, P x y ∧ Q y z) xs zs := by
  induction h generalizing zs with
  | nil =>
    cases h'
    exact .nil
  | cons hP _ ih =>
    cases h' with
    | cons hQ h' => exact .cons ⟨_, hP, hQ⟩ (ih h')

theorem forall₂_nodup (h : List.Forall₂ P xs ys) (hnd : xs.Nodup)
    (hsep : ∀ x ∈ xs, ∀ x' ∈ xs, ∀ y, P x y → P x' y → x = x') : ys.Nodup := by
  induction h with
  | nil => exact nodup_nil
  | @cons x y xs ys hP hall ih =>
    obtain ⟨hx, hnd⟩ := nodup_cons.1 hnd
    refine nodup_cons.2 ⟨fun hy => ?_, ih hnd fun a ha b hb =>
      hsep a (mem_cons_of_mem _ ha) b (mem_cons_of_mem _ hb)⟩
    have hself : List.Forall₂ (fun _ _ => True) ys ys := List.forall₂_same.2 fun _ _ => trivial
    obtain ⟨q, hq, hP', -⟩ := forall₂_around hall hself y hy
    have hmem := (of_mem_zip hq).1
    have heq := hsep x mem_cons_self q.1 (mem_cons_of_mem _ hmem) y hP hP'
    exact hx (heq ▸ hmem)

end Ridux.Lib
