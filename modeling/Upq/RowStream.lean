/-
  RowStream.lean --- owning `PgRowStream` objects.

  Source: `src/upq/PgRowStream.cpp`, `include/upq/PgRowStream.h` (moves), and
  `PgPool::stream` in `src/upq/PgPool.cpp`.

  A program holds any number of stream objects: opened from the pool, default
  constructed, moved around, closed, destroyed.  A connection is named by its
  acquisition, so a connection taken again later has another name.  The invariant
  is a count: every acquisition is either in exactly one object or has been handed
  back, once.
-/
import Upq.Foundation.Interleave
import Upq.Transaction.Ownership

set_option autoImplicit false

namespace Upq.Cursor

open Upq.Foundation
open Upq.Pool (HandBack)
open Upq.Transaction (Stmt Entry World Op OneFlag scan)

/-! ## Objects -/

/-- A `PgRowStream`; `pooled` is `pool_ != nullptr`, `buffered` the rows not popped
yet. -/
structure RowStream where
  pooled : Bool
  conn : Option Nat
  ownsTx : Bool
  active : Bool
  exhausted : Bool
  buffered : Nat
  deriving DecidableEq, Repr

/-- `PgRowStream()` -/
def RowStream.empty : RowStream :=
  { pooled := false, conn := none, ownsTx := false, active := false, exhausted := false
    buffered := 0 }

/-- `PgRowStream::owning` -/
def RowStream.owning (c : Nat) : RowStream :=
  { pooled := true, conn := some c, ownsTx := true, active := true, exhausted := false
    buffered := 0 }

/-- What `move_from` leaves behind. -/
def RowStream.movedFrom : RowStream :=
  { pooled := false, conn := none, ownsTx := false, active := false, exhausted := true
    buffered := 0 }

/-- The objects of a program, `none` once destroyed; the number of acquisitions; the
connections; what was taken and handed back. -/
structure Streams where
  slots : List (Option RowStream)
  taken : Nat
  links : Nat → Link
  log : List Entry

def Streams.init (links : Nat → Link) : Streams := { slots := [], taken := 0, links, log := [] }

/-! ## Operations -/

/-- Hand acquisition `c` back. -/
def Streams.handBack (s : Streams) (c : Nat) (how : HandBack) : Streams :=
  { s with log := s.log ++ [.handedBack c how] }

/-- A statement on `c`. -/
def Streams.query (s : Streams) (c : Nat) (k : Stmt) (sc : Script) : Streams × QueryResult :=
  let o := runQuery sc (k.after (s.links c).status) (s.links c)
  ({ s with links := Function.update s.links c o.link }, o.result)

/-- `PgPool::stream` on the connection just acquired. -/
def Streams.openOn (s : Streams) (c : Nat) (scBegin scDeclare scRollback : Script) : Streams :=
  let giveUp (s : Streams) (r : QueryResult) : Streams :=
    s.handBack c (if isFatalConnectionError r then .markDead else .releaseAsync)
  match s.query c .begin scBegin with
  | (s, r) =>
      if !r.ok then giveUp s r
      else
        match s.query c .other scDeclare with
        | (s, r) =>
            if r.ok then { s with slots := s.slots ++ [some (RowStream.owning c)] }
            else if isFatalConnectionError r then giveUp s r
            else giveUp (s.query c .rollback scRollback).1 r

/-- `PgPool::stream`; `grant` is the connection acquired, if any. -/
def Streams.open (s : Streams) (grant : Option Link) (scBegin scDeclare scRollback : Script) :
    Streams :=
  match grant with
  | none => s
  | some l =>
      Streams.openOn
        { s with
          taken := s.taken + 1
          links := Function.update s.links s.taken l
          log := s.log ++ [.acquired s.taken] }
        s.taken scBegin scDeclare scRollback

/-- The object after a FETCH answered with `r`, the first row popped. -/
def RowStream.fetched (st : RowStream) (r : QueryResult) : RowStream :=
  { st with
    exhausted := !r.ok || r.rows.isEmpty
    buffered := if r.ok then r.rows.length - 1 else st.buffered }

/-- `PgRowStream::next`: a row from the buffer, else a FETCH. -/
def Streams.next (s : Streams) (i : Nat) (st : RowStream) (sc : Script) : Streams :=
  if st.active && decide (0 < st.buffered) then
    { s with slots := s.slots.set i (some { st with buffered := st.buffered - 1 }) }
  else if !st.active || st.exhausted then s
  else
    match st.conn with
    | none => s
    | some c =>
        match s.query c .other sc with
        | (s, r) => { s with slots := s.slots.set i (some (st.fetched r)) }

/-- The statements of `close`: CLOSE, and COMMIT for an owned transaction; true = a
connection-level failure. -/
def Streams.closeCursor (s : Streams) (c : Nat) (ownsTx : Bool) (scClose scCommit : Script) :
    Streams × Bool :=
  match s.query c .other scClose with
  | (s, r) =>
      if !isFatalConnectionError r && ownsTx then
        match s.query c .commit scCommit with
        | (s, r') => (s, isFatalConnectionError r')
      else (s, isFatalConnectionError r)

/-- `PgRowStream::close` -/
def Streams.close (s : Streams) (i : Nat) (st : RowStream) (scClose scCommit : Script) : Streams :=
  if !st.active then s
  else
    match st.conn with
    | none => { s with slots := s.slots.set i (some { st with active := false }) }
    | some c =>
        let closed := some { st with active := false, conn := none }
        if !(s.links c).connected then
          if st.pooled then Streams.handBack { s with slots := s.slots.set i closed } c .markDead
          else { s with slots := s.slots.set i (some { st with active := false }) }
        else
          match s.closeCursor c st.ownsTx scClose scCommit with
          | (s, fatal) =>
              let s := { s with slots := s.slots.set i closed }
              if st.pooled then s.handBack c (if fatal then .markDead else .releaseAsync) else s

/-- `~PgRowStream` -/
def Streams.destroy (s : Streams) (i : Nat) (st : RowStream) : Streams :=
  let s := { s with slots := s.slots.set i none }
  match st.conn with
  | some c => if st.active && st.pooled then s.handBack c .markDead else s
  | none => s

/-- What a program does with its stream objects. -/
inductive StreamOp where
  | open (grant : Option Link) (scBegin scDeclare scRollback : Script)
  | construct
  | next (i : Nat) (sc : Script)
  | close (i : Nat) (scClose scCommit : Script)
  | moveConstruct (i : Nat)
  | moveAssign (i j : Nat)
  | destroy (i : Nat)

/-- The object in slot `i`. -/
def Streams.get? (s : Streams) (i : Nat) : Option RowStream := (s.slots[i]?).join

/-- `operator=(PgRowStream &&)`: slot `i` takes over slot `j`.  The source asserts that
the target is not active. -/
def Streams.moveAssign (s : Streams) (i j : Nat) : Option Streams :=
  match s.get? i, s.get? j with
  | some target, some source =>
      if i = j then some s
      else if target.active then none
      else
        some { s with slots := (s.slots.set i (some source)).set j (some RowStream.movedFrom) }
  | _, _ => none

/-- One operation; `none` for an object that is gone, and for a move assignment onto
an active stream. -/
def Streams.step (s : Streams) : StreamOp → Option Streams
  | .open grant scBegin scDeclare scRollback => some (s.open grant scBegin scDeclare scRollback)
  | .construct => some { s with slots := s.slots ++ [some RowStream.empty] }
  | .next i sc => (s.get? i).map fun st => s.next i st sc
  | .close i scClose scCommit => (s.get? i).map fun st => s.close i st scClose scCommit
  | .moveConstruct i =>
      (s.get? i).map fun st =>
        { s with slots := s.slots.set i (some RowStream.movedFrom) ++ [some st] }
  | .moveAssign i j => s.moveAssign i j
  | .destroy i => (s.get? i).map fun st => s.destroy i st

/-! ## Counting -/

/-- How often acquisition `c` was taken, and handed back. -/
def takenCount (c : Nat) (log : List Entry) : Nat := log.count (.acquired c)

def handedBackCount (c : Nat) (log : List Entry) : Nat :=
  log.countP fun e => match e with
    | .handedBack d _ => decide (d = c)
    | _ => false

/-- 1 for the object that holds acquisition `c`. -/
def holds (c : Nat) (slot : Option RowStream) : Nat :=
  match slot with
  | none => 0
  | some st => if st.conn = some c then 1 else 0

@[simp] theorem holds_none (c : Nat) : holds c none = 0 := rfl

@[simp] theorem holds_some (c : Nat) (st : RowStream) :
    holds c (some st) = if st.conn = some c then 1 else 0 := rfl

/-- An inactive object holds nothing, an active one can hand back. -/
structure RowStream.Wf (st : RowStream) : Prop where
  idle : st.active = false → st.conn = none
  pooled : st.active = true → st.pooled = true

/-- Every acquisition is in one object or was handed back; `extra` is one that is in
the hands of an operation. -/
structure Balanced (extra : Option Nat) (s : Streams) : Prop where
  wf : ∀ st, some st ∈ s.slots → st.Wf
  balance : ∀ c, handedBackCount c s.log + tally (holds c) s.slots +
    (if extra = some c then 1 else 0) = takenCount c s.log
  fresh : ∀ c, takenCount c s.log = if c < s.taken then 1 else 0

theorem tally_append_slot (c : Nat) (slots : List (Option RowStream)) (x : Option RowStream) :
    tally (holds c) (slots ++ [x]) = tally (holds c) slots + holds c x := by
  simp [tally]

section

variable {s : Streams} {extra : Option Nat}

theorem Balanced.query (h : Balanced extra s) (c : Nat) (k : Stmt) (sc : Script) :
    Balanced extra (s.query c k sc).1 :=
  ⟨h.wf, h.balance, h.fresh⟩

/-- Handing back what the operation has in its hands. -/
theorem Balanced.handBack {c : Nat} (h : Balanced (some c) s) (how : HandBack) :
    Balanced none (s.handBack c how) where
  wf := h.wf
  balance d := by
    have hb := h.balance d
    simp only [Streams.handBack, handedBackCount, takenCount, List.countP_append,
      List.count_append, List.countP_singleton, List.count_singleton] at hb ⊢
    by_cases heq : c = d
    · subst heq
      simp at hb ⊢
      omega
    · simp [heq] at hb ⊢
      omega
  fresh d := by
    have hlog : takenCount d (s.handBack c how).log = takenCount d s.log := by
      simp [Streams.handBack, takenCount]
    rw [hlog]
    exact h.fresh d

/-- A new object takes what the operation has in its hands, if anything. -/
theorem Balanced.append {st : RowStream} (h : Balanced extra s) (hwf : st.Wf)
    (hconn : st.conn = extra) : Balanced none { s with slots := s.slots ++ [some st] } where
  wf st' hmem := by
    rcases List.mem_append.mp hmem with hold | hnew
    · exact h.wf st' hold
    · obtain rfl : st' = st := by simpa using hnew
      exact hwf
  balance d := by
    have hb := h.balance d
    simp only [tally_append_slot, holds_some, hconn]
    simp
    omega
  fresh := h.fresh

/-- An object changes; the operation takes what it held and leaves what it now
holds. -/
theorem Balanced.set {i : Nat} {st : RowStream} {x : Option RowStream} {extra' : Option Nat}
    (h : Balanced extra s) (hi : s.slots[i]? = some (some st)) (hwf : ∀ st', x = some st' → st'.Wf)
    (hmove : ∀ c, holds c (some st) + (if extra = some c then 1 else 0) =
      holds c x + (if extra' = some c then 1 else 0)) :
    Balanced extra' { s with slots := s.slots.set i x } where
  wf st' hmem := by
    rcases List.mem_or_eq_of_mem_set hmem with hold | heq
    · exact h.wf st' hold
    · exact hwf st' heq.symm
  balance c := by
    have hb := h.balance c
    have hset := tally_set (f := holds c) x hi
    have hm := hmove c
    dsimp only
    omega
  fresh := h.fresh

theorem wf_owning (c : Nat) : (RowStream.owning c).Wf := ⟨nofun, fun _ => rfl⟩

theorem wf_movedFrom : RowStream.movedFrom.Wf := ⟨fun _ => rfl, nofun⟩

theorem wf_empty : RowStream.empty.Wf := ⟨fun _ => rfl, nofun⟩

theorem getElem?_of_get? {i : Nat} {st : RowStream} (h : s.get? i = some st) :
    s.slots[i]? = some (some st) := Option.join_eq_some_iff.mp h

/-! ## Each operation keeps the balance -/

theorem balanced_openOn {c : Nat} (h : Balanced (some c) s)
    (scBegin scDeclare scRollback : Script) :
    Balanced none (s.openOn c scBegin scDeclare scRollback) := by
  have hbegun := h.query c .begin scBegin
  have hdeclared := hbegun.query c .other scDeclare
  unfold Streams.openOn
  dsimp only
  split
  · exact hbegun.handBack _
  · split
    · exact hdeclared.append (wf_owning c) rfl
    · split
      · exact hdeclared.handBack _
      · exact (hdeclared.query c .rollback scRollback).handBack _

/-- A connection just acquired is in the hands of the operation. -/
theorem balanced_acquired (h : Balanced none s) (links : Nat → Link) :
    Balanced (some s.taken)
      { s with taken := s.taken + 1, links := links, log := s.log ++ [.acquired s.taken] } where
  wf := h.wf
  balance c := by
    have hb := h.balance c
    simp only [handedBackCount, takenCount, List.countP_append, List.count_append,
      List.countP_singleton, List.count_singleton] at hb ⊢
    by_cases heq : s.taken = c
    · subst heq
      simp at hb ⊢
      omega
    · simp [heq] at hb ⊢
      omega
  fresh c := by
    have hf := h.fresh c
    simp only [takenCount, List.count_append, List.count_singleton] at hf ⊢
    rw [hf]
    by_cases heq : s.taken = c
    · subst heq
      simp
    · simp only [beq_iff_eq, Entry.acquired.injEq, heq, if_false, Nat.add_zero]
      split <;> split <;> omega

theorem balanced_open (h : Balanced none s) (grant : Option Link)
    (scBegin scDeclare scRollback : Script) :
    Balanced none (s.open grant scBegin scDeclare scRollback) := by
  unfold Streams.open
  split
  · exact h
  · exact balanced_openOn (balanced_acquired h _) _ _ _

theorem balanced_next {i : Nat} {st : RowStream} (h : Balanced none s) (hi : s.get? i = some st)
    (sc : Script) : Balanced none (s.next i st sc) := by
  have hslot := getElem?_of_get? hi
  have hst := h.wf st (List.mem_of_getElem? hslot)
  unfold Streams.next
  split
  · refine h.set hslot ?_ (fun c => by simp)
    rintro st' ⟨rfl⟩
    exact ⟨hst.idle, hst.pooled⟩
  · split
    · exact h
    · split
      · exact h
      · rename_i c hc
        refine (h.query c .other sc).set hslot ?_ (fun d => by simp [RowStream.fetched])
        rintro st' ⟨rfl⟩
        exact ⟨hst.idle, hst.pooled⟩

theorem closeCursor_slots (s : Streams) (c : Nat) (ownsTx : Bool) (scClose scCommit : Script) :
    (s.closeCursor c ownsTx scClose scCommit).1.slots = s.slots := by
  unfold Streams.closeCursor
  dsimp only
  split <;> rfl

theorem balanced_closeCursor (h : Balanced extra s) (c : Nat) (ownsTx : Bool)
    (scClose scCommit : Script) :
    Balanced extra (s.closeCursor c ownsTx scClose scCommit).1 := by
  have hclosed := h.query c .other scClose
  unfold Streams.closeCursor
  dsimp only
  split
  · exact hclosed.query c .commit scCommit
  · exact hclosed

theorem balanced_close {i : Nat} {st : RowStream} (h : Balanced none s) (hi : s.get? i = some st)
    (scClose scCommit : Script) : Balanced none (s.close i st scClose scCommit) := by
  have hslot := getElem?_of_get? hi
  have hst := h.wf st (List.mem_of_getElem? hslot)
  -- the object is emptied first: its connection is in the hands of `close`
  have hemptied : ∀ {s' : Streams} {c : Nat}, st.conn = some c → Balanced none s' →
      s'.slots[i]? = some (some st) →
      Balanced (some c)
        { s' with slots := s'.slots.set i (some { st with active := false, conn := none }) } := by
    intro s' c hc hs' hslot'
    refine hs'.set hslot' ?_ (fun d => by simp [hc])
    rintro st' ⟨rfl⟩
    exact ⟨fun _ => rfl, fun h => by cases h⟩
  unfold Streams.close
  by_cases hact : st.active = true
  · have hpooled := hst.pooled hact
    rw [if_neg (by simp [hact])]
    split
    · rename_i hnone
      refine h.set hslot ?_ (fun c => by simp)
      rintro st' ⟨rfl⟩
      exact ⟨fun _ => hnone, fun h => by cases h⟩
    · rename_i c hc
      dsimp only
      split
      · exact (hemptied hc h hslot).handBack .markDead
      · refine (hemptied hc (balanced_closeCursor h c st.ownsTx scClose scCommit) ?_).handBack _
        rw [closeCursor_slots]
        exact hslot
  · rw [if_pos (by simpa using hact)]
    exact h

theorem balanced_destroy {i : Nat} {st : RowStream} (h : Balanced none s)
    (hi : s.get? i = some st) : Balanced none (s.destroy i st) := by
  have hslot := getElem?_of_get? hi
  have hst := h.wf st (List.mem_of_getElem? hslot)
  unfold Streams.destroy
  dsimp only
  split
  · rename_i c hc
    have hact : st.active = true := by
      by_contra hne
      have := hst.idle (Bool.eq_false_iff.mpr hne)
      rw [hc] at this
      cases this
    rw [if_pos (by simp [hact, hst.pooled hact])]
    exact (h.set hslot (by rintro _ ⟨⟩) (fun d => by simp [hc])).handBack .markDead
  · rename_i hnone
    exact h.set hslot (by rintro _ ⟨⟩) (fun d => by simp [hnone])

theorem balanced_moveAssign {s' : Streams} {i j : Nat} (h : Balanced none s)
    (hstep : s.moveAssign i j = some s') : Balanced none s' := by
  unfold Streams.moveAssign at hstep
  split at hstep
  · rename_i target source hi hj
    split at hstep
    · rw [← Option.some.inj hstep]
      exact h
    · rename_i hne
      split at hstep
      · cases hstep
      · rename_i hact
        rw [← Option.some.inj hstep]
        have hslot := getElem?_of_get? hi
        have hslot' := getElem?_of_get? hj
        have htarget := (h.wf target (List.mem_of_getElem? hslot)).idle
          (Bool.eq_false_iff.mpr hact)
        have hsource := h.wf source (List.mem_of_getElem? hslot')
        -- the source gives its connection up, the empty target takes it
        have hout : Balanced source.conn { s with slots := s.slots.set j (some .movedFrom) } := by
          refine h.set hslot' ?_ (fun d => by simp [RowStream.movedFrom])
          rintro st' ⟨rfl⟩
          exact wf_movedFrom
        rw [List.set_comm _ _ hne]
        have hkept : (s.slots.set j (some RowStream.movedFrom))[i]? = some (some target) := by
          rw [List.getElem?_set_ne (Ne.symm hne)]
          exact hslot
        refine hout.set hkept ?_ (fun d => by simp [htarget])
        rintro st' ⟨rfl⟩
        exact hsource
  · cases hstep

/-- **Step rule.**  Every operation keeps the balance. -/
theorem balanced_step {s' : Streams} {op : StreamOp} (h : Balanced none s)
    (hstep : s.step op = some s') : Balanced none s' := by
  cases op with
  | «open» grant scBegin scDeclare scRollback =>
      rw [← Option.some.inj hstep]
      exact balanced_open h _ _ _ _
  | construct =>
      rw [← Option.some.inj hstep]
      exact h.append wf_empty rfl
  | next i sc =>
      obtain ⟨st, hi, rfl⟩ := Option.map_eq_some_iff.mp hstep
      exact balanced_next h hi sc
  | close i scClose scCommit =>
      obtain ⟨st, hi, rfl⟩ := Option.map_eq_some_iff.mp hstep
      exact balanced_close h hi scClose scCommit
  | moveConstruct i =>
      obtain ⟨st, hi, rfl⟩ := Option.map_eq_some_iff.mp hstep
      have hslot := getElem?_of_get? hi
      have hst := h.wf st (List.mem_of_getElem? hslot)
      -- the old object gives its connection up, the new one takes it
      have hout : Balanced st.conn { s with slots := s.slots.set i (some .movedFrom) } := by
        refine h.set hslot ?_ (fun d => by simp [RowStream.movedFrom])
        rintro st' ⟨rfl⟩
        exact wf_movedFrom
      exact hout.append hst rfl
  | moveAssign i j => exact balanced_moveAssign h hstep
  | destroy i =>
      obtain ⟨st, hi, rfl⟩ := Option.map_eq_some_iff.mp hstep
      exact balanced_destroy h hi

end

/-- **Run rule.**  The balance holds in every state a program reaches. -/
theorem balanced_of_exec {links : Nat → Link} {ops : List StreamOp} {s : Streams}
    (h : exec Streams.step (Streams.init links) ops = some s) : Balanced none s := by
  refine exec_invariant (Balanced none) ?_ ?_ h
  · intro s op s' hs hstep
    exact balanced_step hs hstep
  · exact ⟨by simp [Streams.init], by simp [Streams.init, handedBackCount, takenCount],
      by simp [Streams.init, takenCount]⟩

/-- A connection is held by at most one object, and only before it is handed back. -/
theorem Balanced.handedBack_le_one {s : Streams} (h : Balanced none s) (c : Nat) :
    handedBackCount c s.log + tally (holds c) s.slots ≤ 1 := by
  have hb := h.balance c
  have hf := h.fresh c
  split at hf <;> simp at hb <;> omega

/-- When every object is destroyed, everything taken was handed back. -/
theorem Balanced.handedBack_of_destroyed {s : Streams} (h : Balanced none s)
    (hall : ∀ slot ∈ s.slots, slot = none) (c : Nat) :
    handedBackCount c s.log = takenCount c s.log := by
  have hb := h.balance c
  have hzero : tally (holds c) s.slots = 0 := by
    rw [List.eq_replicate_of_mem hall]
    exact tally_replicate (holds_none c) _
  simp at hb
  omega

/-! ## Both owners -/

/-- **Owners return connections exactly once.**  For every sequence of operations on a
`PgTransaction`, with any outcome of each step: what was taken and not handed back
is exactly `conn_`, never two connections at a time; an object that is not active
holds none; at most one flag is set; and after the destructor everything is handed
back.  For every program over owning streams: each connection taken is in exactly
one object or was handed back once, an inactive object holds none, and once every
object is destroyed everything is handed back. -/
theorem owners_hand_back_once :
    (∀ (emulate : Bool) (attempts : Nat) (links : Nat → Link) (ops : List Op),
      let w := (World.init emulate attempts links).applyAll ops
      scan none w.log = some w.conn ∧ (w.active = false → w.conn = none) ∧ OneFlag w ∧
        scan none w.destroy.log = some none) ∧
    (∀ (links : Nat → Link) (ops : List StreamOp) (s : Streams),
      exec Streams.step (Streams.init links) ops = some s →
      (∀ c, takenCount c s.log = handedBackCount c s.log + tally (holds c) s.slots ∧
        takenCount c s.log ≤ 1) ∧
      (∀ st, some st ∈ s.slots → st.active = false → st.conn = none) ∧
      ((∀ slot ∈ s.slots, slot = none) →
        ∀ c, handedBackCount c s.log = takenCount c s.log)) := by
  constructor
  · intro emulate attempts links ops w
    have howned : Transaction.Owned w :=
      Transaction.owned_applyAll (Transaction.owned_init emulate attempts links) ops
    exact ⟨howned.held, howned.idle, howned.flags, Transaction.scan_destroy howned⟩
  · intro links ops s h
    have hbal := balanced_of_exec h
    refine ⟨?_, fun st hmem => (hbal.wf st hmem).idle, hbal.handedBack_of_destroyed⟩
    intro c
    have hb := hbal.balance c
    have hle := hbal.handedBack_le_one c
    simp at hb
    exact ⟨hb.symm, by omega⟩

/-- A stream is opened, moved into a new object, closed there, and both objects are
destroyed. -/
theorem owners_hand_back_once_moved :
    let ops : List StreamOp :=
      [.open (some idleLink) (.answered [.command 0]) (.answered [.command 0]) (.answered []),
        .moveConstruct 0, .next 1 (.answered [.tuples ["a"] [["1"]]]),
        .close 1 (.answered []) (.answered []), .destroy 0, .destroy 1]
    ∃ s, exec Streams.step (Streams.init fun _ => unusedLink) ops = some s ∧
      takenCount 0 s.log = 1 ∧ handedBackCount 0 s.log = takenCount 0 s.log := by
  intro ops
  have hrun : (exec Streams.step (Streams.init fun _ => unusedLink) ops).any
      (fun s => takenCount 0 s.log == 1 && s.slots.all Option.isNone) = true := by
    decide +kernel
  obtain ⟨s, hs, hcond⟩ := (Option.any_eq_true ..).mp hrun
  obtain ⟨htaken, hgone⟩ := Bool.and_eq_true_iff.mp hcond
  obtain ⟨-, -, hback⟩ := owners_hand_back_once.2 _ ops s hs
  refine ⟨s, hs, by simpa using htaken, hback ?_ 0⟩
  intro slot hslot
  exact Option.isNone_iff_eq_none.mp (List.all_eq_true.mp hgone slot hslot)

end Upq.Cursor
