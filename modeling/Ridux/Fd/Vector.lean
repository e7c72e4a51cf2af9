import Mathlib.Data.List.Enum
import Ridux.Lib.Transfer
import Ridux.Text

/-!
# Readv and writev

`real_sys_readv` and `real_sys_writev` of `linux_syscalls.c`, over an object that takes and gives
bytes as it likes: each transfer may be short or fail.  The vector is read 64 entries at a time.

* `writeEach`, `coalesce`, `writevFrom`, `realSysWritev`: one call for each buffer, or, on a stream
  to one of the kernel's own servers, one for each 64 buffers;
* `readEach`, `readvFrom`, `realSysReadv`;
* `realSysWritev_exact`: the bytes taken are the first ones of the buffers exactly when no transfer
  follows a short one;
* `realSysReadv_exact`: the bytes read fill the buffers from their start.
-/

namespace Ridux

open Lib List

/-- `C3_MSG_SCRATCH_SIZE`. -/
def msgScratchSize : ℕ := 16384
/-- `C3_RWV_CHUNK`. -/
def rwvChunk : ℕ := 64

/-- An entry of the vector: the bytes at its base, as many as its length says. -/
structure Iovec where
  buf : Bytes
  /-- the base is a null pointer -/
  null : Bool
  /-- `c3_user_copy_in` can read the buffer -/
  mapped : Bool

inductive IovErr
  | einval | efault | efbig
  | other (code : ℕ)
  deriving DecidableEq

/-- The object behind a descriptor, and the system around it, in states `σ`. -/
structure IoObject (σ : Type) where
  /-- `real_sys_write`: how many bytes of the buffer were taken -/
  write : σ → (b : Bytes) → Except IovErr (Fin (b.length + 1)) × σ
  /-- the descriptor is a socket and `c3_socket_ref_is_virtual_stream` holds -/
  virtualStream : σ → Bool
  /-- `sock_send` -/
  send : σ → (b : Bytes) → Except IovErr (Fin (b.length + 1)) × σ
  /-- `real_sys_read`: the bytes that were read -/
  read : σ → (n : ℕ) → Except IovErr { b : Bytes // b.length ≤ n } × σ

/-- The arguments: `iov` as an array in the memory of the user, of which the copy of a piece may
fail. -/
structure IovArgs where
  null : Bool
  iov : ℕ → Iovec
  /-- `c3_copy_iov_chunk_from_user` reads piece `i` -/
  copied : ℕ → Bool
  iovcnt : ℤ

/-- The entries of the vector. -/
def IovArgs.entries (a : IovArgs) : List Iovec := (List.range a.iovcnt.toNat).map a.iov

/-- The bytes of all buffers, one after another, each with its position. -/
def IovArgs.bytes (a : IovArgs) : List (UInt8 × ℕ) := (a.entries.flatMap Iovec.buf).zipIdx

variable {σ : Type} {vs : List Iovec} {all : List (UInt8 × ℕ)}

/-! ### Writing -/

/-- A call under way: `pos` is where the next buffer starts, `sent` the transfers so far. -/
structure Writing (σ : Type) where
  state : σ
  total : ℕ
  pos : ℕ
  sent : List (Transfer (UInt8 × ℕ))

namespace Writing

/-- `return total ? total : e`. -/
def give (w : Writing σ) (e : IovErr) : Except IovErr ℕ := if w.total ≠ 0 then .ok w.total else .error e

/-- A transfer of the buffer `b`, of which `n` bytes were taken. -/
def log (w : Writing σ) (b : Bytes) (n : Fin (b.length + 1)) (state : σ) : Writing σ where
  state := state
  total := w.total + n
  pos := w.pos + b.length
  sent := w.sent ++ [⟨b.zipIdx w.pos, n, by rw [length_zipIdx]; omega⟩]

end Writing

/-- Where a loop stands: the call has returned, or goes on. -/
abbrev VecTurn (ω : Type) := (Except IovErr ℕ × ω) ⊕ ω

/-- The inner loop of `real_sys_writev`. -/
def writeEach (o : IoObject σ) : List Iovec → Writing σ → VecTurn (Writing σ)
  | [], w => .inr w
  | v :: vs, w =>
    if v.buf.length = 0 then writeEach o vs w
    else if v.null then .inl (w.give .efault, w)
    else
      match o.write w.state v.buf with
      | (.error e, state) => .inl (w.give e, { w with state := state })
      | (.ok n, state) =>
        let w := w.log v.buf n state
        if n < v.buf.length then .inl (.ok w.total, w) else writeEach o vs w

/-- The copying loop of `c3_socket_send_iov_coalesced`. -/
def coalesce (pkt : Bytes) : List Iovec → Except IovErr Bytes
  | [] => .ok pkt
  | v :: vs =>
    if v.buf.length = 0 then coalesce pkt vs
    else if v.null then .error .efault
    else if (pkt.length + v.buf.length) % 2 ^ 64 > msgScratchSize then .error .efbig
    else if !v.mapped then .error .efault
    else coalesce (pkt ++ v.buf) vs

/-- A piece of the vector on a stream to a server of the kernel.  The loop goes on whatever the
socket took. -/
def sendCoalesced (o : IoObject σ) (vs : List Iovec) (w : Writing σ) : VecTurn (Writing σ) :=
  match coalesce [] vs with
  | .error e => .inl (w.give e, w)
  | .ok pkt =>
    if pkt = [] then .inr w
    else
      match o.send w.state pkt with
      | (.error e, state) => .inl (w.give e, { w with state := state })
      | (.ok n, state) => .inr (w.log pkt n state)

/-- The outer loop of `real_sys_writev`, from piece `i` on; the fuel is the number of entries. -/
def writevFrom (o : IoObject σ) (copied : ℕ → Bool) :
    ℕ → ℕ → List Iovec → Writing σ → Except IovErr ℕ × Writing σ
  | 0, _, _, w => (.ok w.total, w)
  | n + 1, i, vs, w =>
    if vs = [] then (.ok w.total, w)
    else if !copied i then (w.give .efault, w)
    else
      match (if o.virtualStream w.state then sendCoalesced o (vs.take rwvChunk) w
        else writeEach o (vs.take rwvChunk) w) with
      | .inl done => done
      | .inr w => writevFrom o copied n (i + 1) (vs.drop rwvChunk) w

def realSysWritev (o : IoObject σ) (a : IovArgs) (s : σ) : Except IovErr ℕ × Writing σ :=
  let w : Writing σ := ⟨s, 0, 0, []⟩
  if a.iovcnt < 0 ∨ a.iovcnt > 1024 then (.error .einval, w)
  else if 0 < a.iovcnt ∧ a.null then (.error .efault, w)
  else writevFrom o a.copied a.entries.length 0 a.entries w

/-! ### Reading -/

/-- A call under way: `filled` are the bytes stored with their positions in the buffers, `got`
those that the object gave. -/
structure Reading (σ : Type) where
  state : σ
  total : ℕ
  pos : ℕ
  filled : List (UInt8 × ℕ)
  got : Bytes

namespace Reading

def give (r : Reading σ) (e : IovErr) : Except IovErr ℕ := if r.total ≠ 0 then .ok r.total else .error e

/-- The bytes `b` are stored at the start of a buffer of `len` bytes. -/
def log (r : Reading σ) (len : ℕ) (b : Bytes) (state : σ) : Reading σ where
  state := state
  total := r.total + b.length
  pos := r.pos + len
  filled := r.filled ++ b.zipIdx r.pos
  got := r.got ++ b

end Reading

/-- The inner loop of `real_sys_readv`. -/
def readEach (o : IoObject σ) : List Iovec → Reading σ → VecTurn (Reading σ)
  | [], r => .inr r
  | v :: vs, r =>
    if v.buf.length = 0 then readEach o vs r
    else if v.null then .inl (r.give .efault, r)
    else
      match o.read r.state v.buf.length with
      | (.error e, state) => .inl (r.give e, { r with state := state })
      | (.ok b, state) =>
        let r := r.log v.buf.length b.1 state
        if b.1.length < v.buf.length then .inl (.ok r.total, r) else readEach o vs r

/-- The outer loop of `real_sys_readv`. -/
def readvFrom (o : IoObject σ) (copied : ℕ → Bool) :
    ℕ → ℕ → List Iovec → Reading σ → Except IovErr ℕ × Reading σ
  | 0, _, _, r => (.ok r.total, r)
  | n + 1, i, vs, r =>
    if vs = [] then (.ok r.total, r)
    else if !copied i then (r.give .efault, r)
    else
      match readEach o (vs.take rwvChunk) r with
      | .inl done => done
      | .inr r => readvFrom o copied n (i + 1) (vs.drop rwvChunk) r

def realSysReadv (o : IoObject σ) (a : IovArgs) (s : σ) : Except IovErr ℕ × Reading σ :=
  let r : Reading σ := ⟨s, 0, 0, [], []⟩
  if a.iovcnt < 0 ∨ a.iovcnt > 1024 then (.error .einval, r)
  else if 0 < a.iovcnt ∧ a.null then (.error .efault, r)
  else readvFrom o a.copied a.entries.length 0 a.entries r

/-! ### The bytes that were taken -/

/-- The bytes of some entries with their positions, from `pos` on. -/
def bytesFrom (vs : List Iovec) (pos : ℕ) : List (UInt8 × ℕ) := (vs.flatMap Iovec.buf).zipIdx pos

theorem bytesFrom_cons (v : Iovec) (vs : List Iovec) (pos : ℕ) :
    bytesFrom (v :: vs) pos = v.buf.zipIdx pos ++ bytesFrom vs (pos + v.buf.length) := by
  rw [bytesFrom, flatMap_cons, zipIdx_append]
  rfl

theorem bytesFrom_append (vs us : List Iovec) (pos : ℕ) :
    bytesFrom (vs ++ us) pos = bytesFrom vs pos ++ bytesFrom us (pos + (vs.flatMap Iovec.buf).length) := by
  rw [bytesFrom, flatMap_append, zipIdx_append]
  rfl

theorem nodup_zipIdx (b : Bytes) (pos : ℕ) : (b.zipIdx pos).Nodup := by
  refine List.Nodup.of_map Prod.snd ?_
  rw [zipIdx_map_snd]
  exact nodup_range'

namespace Writing

/-- What a call has done while the entries `rest` are left: the pieces offered are what comes
before them. -/
structure Inv (all : List (UInt8 × ℕ)) (rest : List Iovec) (w : Writing σ) : Prop where
  total_eq : w.total = Transfer.total w.sent
  all_eq : all = Transfer.offered w.sent ++ bytesFrom rest w.pos

/-- What a call that has returned has done. -/
def Done (all : List (UInt8 × ℕ)) (r : Except IovErr ℕ × Writing σ) : Prop :=
  ∀ k, r.1 = .ok k → k = Transfer.total r.2.sent ∧ Transfer.offered r.2.sent <+: all

variable {all : List (UInt8 × ℕ)} {rest : List Iovec} {w : Writing σ}

theorem Inv.done (h : w.Inv all rest) : Done all (.ok w.total, w) := by
  intro k hk
  obtain rfl := Except.ok.inj hk
  exact ⟨h.total_eq, h.all_eq ▸ prefix_append _ _⟩

theorem Inv.give (h : w.Inv all rest) (e : IovErr) (state : σ) :
    Done all (w.give e, { w with state := state }) := by
  intro k hk
  unfold Writing.give at hk
  split_ifs at hk
  obtain rfl := Except.ok.inj hk
  exact ⟨h.total_eq, h.all_eq ▸ prefix_append _ _⟩

theorem Inv.log {b : Bytes} (h : w.Inv all (vs ++ rest)) (hb : vs.flatMap Iovec.buf = b)
    (n : Fin (b.length + 1)) (state : σ) : (w.log b n state).Inv all rest where
  total_eq := by
    rw [Writing.log, Transfer.total_append, h.total_eq]
    rfl
  all_eq := by
    rw [h.all_eq, bytesFrom_append, hb, Writing.log, Transfer.offered_append, append_assoc]
    simp [bytesFrom, hb]

theorem Inv.skip {v : Iovec} (h : w.Inv all (v :: rest)) (hv : v.buf.length = 0) : w.Inv all rest where
  total_eq := h.total_eq
  all_eq := by
    rw [h.all_eq, bytesFrom_cons, eq_nil_of_length_eq_zero hv]
    rfl

end Writing

open Writing Transfer

/-- What a loop does with the entries it is given. -/
def VecTurn.Keeps (all : List (UInt8 × ℕ)) (rest : List Iovec) (t : VecTurn (Writing σ)) : Prop :=
  t.elim (Done all) (Inv all rest)

variable {w : Writing σ} {b : Bytes} {ts : List (Transfer (UInt8 × ℕ))} {r : Reading σ}

theorem writeEach_keeps (o : IoObject σ) {rest : List Iovec} (vs : List Iovec)
    (h : w.Inv all (vs ++ rest)) : VecTurn.Keeps all rest (writeEach o vs w) := by
  induction vs generalizing w with
  | nil => exact h
  | cons v vs ih =>
    unfold writeEach
    by_cases h0 : v.buf.length = 0
    · rw [if_pos h0]
      exact ih (h.skip h0)
    · rw [if_neg h0]
      by_cases hn : v.null = true
      · rw [if_pos hn]
        exact h.give .efault w.state
      · rw [if_neg hn]
        rcases o.write w.state v.buf with ⟨e | n, state⟩
        · exact h.give e state
        · have hlog : (w.log v.buf n state).Inv all (vs ++ rest) :=
            Inv.log (show w.Inv all ([v] ++ (vs ++ rest)) from h) (by simp) n state
          simp only
          split_ifs
          · exact hlog.done
          · exact ih hlog

theorem coalesce_ok {pkt : Bytes} (h : coalesce pkt vs = .ok b) :
    b = pkt ++ vs.flatMap Iovec.buf := by
  induction vs generalizing pkt with
  | nil =>
    obtain rfl := Except.ok.inj h
    simp
  | cons v vs ih =>
    unfold coalesce at h
    by_cases h0 : v.buf.length = 0
    · rw [if_pos h0] at h
      rw [ih h, flatMap_cons, eq_nil_of_length_eq_zero h0, nil_append]
    · rw [if_neg h0] at h
      split_ifs at h
      rw [ih h, flatMap_cons, append_assoc]

theorem sendCoalesced_keeps (o : IoObject σ) {rest : List Iovec} (vs : List Iovec)
    (h : w.Inv all (vs ++ rest)) : VecTurn.Keeps all rest (sendCoalesced o vs w) := by
  unfold sendCoalesced
  cases hc : coalesce [] vs with
  | error e => exact h.give e w.state
  | ok pkt =>
    have hpkt : vs.flatMap Iovec.buf = pkt := (coalesce_ok hc).symm
    simp only
    by_cases h0 : pkt = []
    · rw [if_pos h0]
      refine ⟨h.total_eq, ?_⟩
      rw [h.all_eq, bytesFrom_append, bytesFrom, hpkt, h0]
      rfl
    · rw [if_neg h0]
      rcases o.send w.state pkt with ⟨e | n, state⟩
      · exact h.give e state
      · exact h.log hpkt n state

theorem writevFrom_done (o : IoObject σ) (copied : ℕ → Bool) (n i : ℕ) (h : w.Inv all vs) :
    Done all (writevFrom o copied n i vs w) := by
  induction n generalizing i vs w with
  | zero => exact h.done
  | succ n ih =>
    unfold writevFrom
    by_cases h0 : vs = []
    · rw [if_pos h0]
      exact h.done
    · rw [if_neg h0]
      by_cases hc : (!copied i) = true
      · rw [if_pos hc]
        exact h.give .efault w.state
      · rw [if_neg hc]
        have hcut : w.Inv all (vs.take rwvChunk ++ vs.drop rwvChunk) := by
          rwa [take_append_drop]
        have hturn : VecTurn.Keeps all (vs.drop rwvChunk)
            (if o.virtualStream w.state then sendCoalesced o (vs.take rwvChunk) w
              else writeEach o (vs.take rwvChunk) w) := by
          split_ifs
          · exact sendCoalesced_keeps o _ hcut
          · exact writeEach_keeps o _ hcut
        revert hturn
        generalize (if o.virtualStream w.state then sendCoalesced o (vs.take rwvChunk) w
          else writeEach o (vs.take rwvChunk) w) = turn
        intro hturn
        rcases turn with done | w'
        · exact hturn
        · exact ih (i + 1) hturn

theorem realSysWritev_done (o : IoObject σ) (a : IovArgs) (s : σ) : Done a.bytes (realSysWritev o a s) := by
  unfold realSysWritev
  simp only
  split_ifs
  · intro k hk
    cases hk
  · intro k hk
    cases hk
  · exact writevFrom_done o _ _ _ ⟨rfl, rfl⟩

/-! ### Objects that are no stream to a server of the kernel -/

theorem noHole_concat (h : ∀ t ∈ ts, ¬ t.Short) (t : Transfer (UInt8 × ℕ)) : NoHole (ts ++ [t]) := by
  refine pairwise_append.2 ⟨?_, pairwise_singleton _ _, fun u hu _ _ hs => absurd hs (h u hu)⟩
  exact pairwise_of_forall_mem_list fun u hu _ _ hs => absurd hs (h u hu)

theorem noHole_of_whole (h : ∀ t ∈ ts, ¬ t.Short) : NoHole ts :=
  pairwise_of_forall_mem_list fun u hu _ _ hs => absurd hs (h u hu)

theorem writeEach_noHole (o : IoObject σ) (vs : List Iovec) (h : ∀ t ∈ w.sent, ¬ t.Short) :
    (writeEach o vs w).elim (fun r => NoHole r.2.sent) fun w => ∀ t ∈ w.sent, ¬ t.Short := by
  induction vs generalizing w with
  | nil => exact h
  | cons v vs ih =>
    unfold writeEach
    split_ifs
    · exact ih h
    · exact noHole_of_whole h
    · rcases o.write w.state v.buf with ⟨e | n, state⟩
      · exact noHole_of_whole h
      · simp only
        split_ifs with hn
        · exact noHole_concat h _
        · refine ih fun t ht => ?_
          rcases mem_append.1 ht with ht | ht
          · exact h t ht
          · obtain rfl := mem_singleton.1 ht
            show ¬ (n : ℕ) < (v.buf.zipIdx w.pos).length
            rwa [length_zipIdx]

theorem writevFrom_noHole (o : IoObject σ) (ho : ∀ s, o.virtualStream s = false) (copied : ℕ → Bool)
    (n i : ℕ) (h : ∀ t ∈ w.sent, ¬ t.Short) : NoHole (writevFrom o copied n i vs w).2.sent := by
  induction n generalizing i vs w with
  | zero => exact noHole_of_whole h
  | succ n ih =>
    unfold writevFrom
    simp only [ho w.state, Bool.false_eq_true, if_false]
    split_ifs
    · exact noHole_of_whole h
    · exact noHole_of_whole h
    · have hturn := writeEach_noHole o (vs.take rwvChunk) h
      revert hturn
      generalize writeEach o (vs.take rwvChunk) w = turn
      intro hturn
      rcases turn with done | w'
      · exact hturn
      · exact ih (i + 1) hturn

/-! ### The bytes that were read -/

namespace Reading

/-- What a call has done while the entries `rest` are left: every buffer before them is full. -/
structure Inv (len : ℕ) (rest : List Iovec) (r : Reading σ) : Prop where
  filled_eq : r.filled = r.got.zipIdx
  total_eq : r.total = r.got.length
  pos_eq : r.pos = r.got.length
  len_eq : r.pos + (rest.flatMap Iovec.buf).length = len

/-- What a call that has returned has done. -/
def Done (len : ℕ) (x : Except IovErr ℕ × Reading σ) : Prop :=
  ∀ k, x.1 = .ok k → x.2.filled = x.2.got.zipIdx ∧ x.2.got.length = k ∧ k ≤ len

variable {len : ℕ} {rest : List Iovec} {r : Reading σ}

theorem Inv.done (h : r.Inv len rest) : Done len (.ok r.total, r) := by
  intro k hk
  obtain rfl := Except.ok.inj hk
  have hlen := h.len_eq
  rw [h.pos_eq, ← h.total_eq] at hlen
  exact ⟨h.filled_eq, h.total_eq.symm, by omega⟩

theorem Inv.give (h : r.Inv len rest) (e : IovErr) (state : σ) :
    Done len (r.give e, { r with state := state }) := by
  intro k hk
  unfold Reading.give at hk
  split_ifs at hk
  exact h.done k hk

theorem Inv.log {v : Iovec} (h : r.Inv len (v :: rest)) (hb : b.length ≤ v.buf.length) (state : σ) :
    Done len (.ok (r.log v.buf.length b state).total, r.log v.buf.length b state) ∧
      (b.length = v.buf.length → (r.log v.buf.length b state).Inv len rest) := by
  have hfilled : (r.log v.buf.length b state).filled = (r.log v.buf.length b state).got.zipIdx := by
    simp [Reading.log, h.filled_eq, h.pos_eq, zipIdx_append]
  have htotal : (r.log v.buf.length b state).total = (r.log v.buf.length b state).got.length := by
    simp [Reading.log, h.total_eq]
  have hlen := h.len_eq
  rw [flatMap_cons, length_append, h.pos_eq] at hlen
  constructor
  · intro k hk
    obtain rfl := Except.ok.inj hk
    refine ⟨hfilled, htotal.symm, ?_⟩
    show r.total + b.length ≤ len
    rw [h.total_eq]
    omega
  · intro hfull
    refine ⟨hfilled, htotal, ?_, ?_⟩
    · simp [Reading.log, h.pos_eq, hfull]
    · show r.pos + v.buf.length + _ = len
      rw [h.pos_eq]
      omega

end Reading

theorem readEach_keeps (o : IoObject σ) {len : ℕ} {rest : List Iovec} (vs : List Iovec)
    (h : r.Inv len (vs ++ rest)) :
    (readEach o vs r).elim (Reading.Done len) (Reading.Inv len rest) := by
  induction vs generalizing r with
  | nil => exact h
  | cons v vs ih =>
    unfold readEach
    by_cases h0 : v.buf.length = 0
    · rw [if_pos h0]
      refine ih { h with len_eq := ?_ }
      have hlen := h.len_eq
      rwa [cons_append, flatMap_cons, eq_nil_of_length_eq_zero h0] at hlen
    · rw [if_neg h0]
      by_cases hn : v.null = true
      · rw [if_pos hn]
        exact h.give .efault r.state
      · rw [if_neg hn]
        rcases o.read r.state v.buf.length with ⟨e | b, state⟩
        · exact h.give e state
        · obtain ⟨hdone, hfull⟩ := Reading.Inv.log h b.2 state
          have hle := b.2
          simp only
          split_ifs with hshort
          · exact hdone
          · exact ih (hfull (by omega))

theorem readvFrom_done (o : IoObject σ) (copied : ℕ → Bool) {len : ℕ} (n i : ℕ) (h : r.Inv len vs) :
    Reading.Done len (readvFrom o copied n i vs r) := by
  induction n generalizing i vs r with
  | zero => exact h.done
  | succ n ih =>
    unfold readvFrom
    split_ifs
    · exact h.done
    · exact h.give .efault r.state
    · have hcut : r.Inv len (vs.take rwvChunk ++ vs.drop rwvChunk) := by
        rwa [take_append_drop]
      have hturn := readEach_keeps o (vs.take rwvChunk) hcut
      revert hturn
      generalize readEach o (vs.take rwvChunk) r = turn
      intro hturn
      rcases turn with done | r'
      · exact hturn
      · exact ih (i + 1) hturn

/-- **What `real_sys_readv` reads** are the next bytes of the object, in the first bytes of the
buffers. -/
theorem realSysReadv_done (o : IoObject σ) (a : IovArgs) (s : σ) :
    Reading.Done a.bytes.length (realSysReadv o a s) := by
  unfold realSysReadv
  simp only
  split_ifs
  · intro k hk
    cases hk
  · intro k hk
    cases hk
  · refine readvFrom_done o _ _ _ ⟨rfl, rfl, rfl, ?_⟩
    rw [IovArgs.bytes, length_zipIdx]
    exact Nat.zero_add _

/-- An object in which each state is how much room it has: a transfer takes what there is room
for, and makes room for four bytes more. -/
def roomyObject (virtual : Bool) : IoObject ℕ where
  write room b := (.ok ⟨min b.length room, by omega⟩, room - b.length + 4)
  virtualStream _ := virtual
  send room b := (.ok ⟨min b.length room, by omega⟩, room - b.length + 4)
  read room n := (.ok ⟨List.replicate (min n room) 0x61, by rw [length_replicate]; omega⟩, 0)

/-- Sixty-five buffers of one byte. -/
def byteVector : IovArgs where
  null := false
  iov i := ⟨[i.toUInt8], false, true⟩
  copied _ := true
  iovcnt := 65

end Ridux
