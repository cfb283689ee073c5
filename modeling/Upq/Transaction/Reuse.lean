/-
  Transaction/Reuse.lean --- what a failed `begin` leaves of the transaction before it.

  Source: `PgTransaction::open`, `begin` and `begin_errored` in
  `src/upq/PgTransaction.cpp`; `is_active`, `is_committed` and `is_rolled_back` in
  `include/upq/PgTransaction.h`.

  `open` has three ways to fail.  It resets the flags after a BEGIN that failed for good, but
  not where the pool grants no connection or one that is not connected.  What it leaves is
  therefore decided by the turn that ends its loop (`openLoop_trace`): an unconnected one
  leaves the flags of the transaction before.
-/
import Upq.Transaction.Ownership

set_option autoImplicit false

namespace Upq.Transaction

/-! ## Turns of `open` -/

/-- The pool grants no connection, or one that is not connected. -/
def OpenTurn.unconnected (turn : OpenTurn) : Bool :=
  match turn.grant with
  | none => true
  | some (_, up) => !up

/-- What BEGIN comes to on a fresh connection. -/
def beginResult (sc : Script) : QueryResult :=
  (runQuery sc (Stmt.begin.after .idle) ⟨true, false, false, .idle⟩).result

/-- BEGIN never reached a backend, and the backoff sleep ran to its end. -/
def OpenTurn.retries (emulate : Bool) (turn : OpenTurn) : Bool :=
  !emulate && !turn.unconnected && !(beginResult turn.script).ok &&
    isTransientPoolerError (beginResult turn.script) && turn.slept

/-- The loop of `open` is left in a turn without a connection: all turns before it are
retried. -/
def EndsUnconnected (emulate : Bool) (env : Nat → OpenTurn) (remaining attempt : Nat) : Prop :=
  ∃ k ≤ remaining, (env (attempt + k)).unconnected = true ∧
    ∀ j < k, (env (attempt + j)).retries emulate = true

/-- Nothing is left of a transaction. -/
structure NoTrace (w : World) : Prop where
  active : w.active = false
  committed : w.committed = false
  rolledBack : w.rolledBack = false
  conn : w.conn = none

/-- Where a turn leads from `w`. -/
inductive TurnExit (w : World) (turn : OpenTurn) : Turn (Option PgOpError) → Prop where
  | unconnected (w' : World) (e : PgOpError) (hturn : turn.unconnected = true)
      (hconn : w'.conn = none) (hflags : SameFlags w w') : TurnExit w turn (.done w' (some e))
  | opened (w' : World) (hturn : turn.unconnected = false) : TurnExit w turn (.done w' none)
  | failed (w' : World) (e : PgOpError) (hturn : turn.unconnected = false)
      (hretry : turn.retries w.emulate = false) (hnone : NoTrace w') :
      TurnExit w turn (.done w' (some e))
  | again (w' : World) (e : PgOpError) (hturn : turn.unconnected = false)
      (hretry : turn.retries w.emulate = true) (hconn : w'.conn = none) (hflags : SameFlags w w') :
      TurnExit w turn (.again w' (some e))

theorem query_begin_result (w : World) (c : Nat) (sc : Script) :
    ((w.acquire c true).query c .begin sc).2 = beginResult sc := by
  simp [World.query, World.acquire, beginResult]

/-- The connection of a BEGIN that failed is closed, and the flags are as they were. -/
theorem sameFlags_begin_markDead (w : World) (c : Nat) (sc : Script) :
    SameFlags w ((w.acquire c true).query c .begin sc).1.markDead :=
  have h := sameFlags_markDead ((w.acquire c true).query c .begin sc).1
  ⟨h.active, h.committed, h.rolledBack, h.emulate⟩

theorem openTurn_exit (turn : OpenTurn) {w : World} (hconn : w.conn = none) :
    TurnExit w turn (openTurn turn w) := by
  unfold openTurn
  cases hgrant : turn.grant with
  | none =>
      exact .unconnected w _ (by simp [OpenTurn.unconnected, hgrant]) hconn ⟨rfl, rfl, rfl, rfl⟩
  | some grant =>
      obtain ⟨c, up⟩ := grant
      dsimp only
      rw [acquire_connected]
      cases up with
      | false =>
          have hdead := sameFlags_markDead (w.acquire c false)
          exact .unconnected _ _ (by simp [OpenTurn.unconnected, hgrant]) (markDead_conn _)
            ⟨hdead.active, hdead.committed, hdead.rolledBack, hdead.emulate⟩
      | true =>
          have hturn : turn.unconnected = false := by simp [OpenTurn.unconnected, hgrant]
          have hresult := query_begin_result w c turn.script
          have hflags := sameFlags_begin_markDead w c turn.script
          split
          · contradiction
          · split
            · exact .opened _ hturn
            · rename_i hemu
              have hemu : w.emulate = false := Bool.eq_false_iff.mpr hemu
              rw [hresult]
              cases hok : (beginResult turn.script).ok with
              | true => exact .opened _ hturn
              | false =>
                  rw [if_neg Bool.false_ne_true]
                  cases hretry : isTransientPoolerError (beginResult turn.script) && turn.slept with
                  | true =>
                      have hagain : turn.retries w.emulate = true := by
                        rw [OpenTurn.retries, Bool.and_assoc, hretry, hemu, hturn, hok]
                        rfl
                      exact .again _ _ hturn hagain (markDead_conn _) hflags
                  | false =>
                      have hlast : turn.retries w.emulate = false := by
                        rw [OpenTurn.retries, Bool.and_assoc, hretry, Bool.and_false]
                      exact .failed _ _ hturn hlast ⟨rfl, rfl, rfl, markDead_conn _⟩

/-! ## The loop -/

variable {env : Nat → OpenTurn}

theorem endsUnconnected_of_unconnected {emulate : Bool} {remaining attempt : Nat}
    (h : (env attempt).unconnected = true) : EndsUnconnected emulate env remaining attempt :=
  ⟨0, Nat.zero_le _, h, nofun⟩

/-- A turn that is neither unconnected nor retried ends the loop otherwise. -/
theorem not_endsUnconnected {emulate : Bool} {remaining attempt : Nat}
    (hturn : (env attempt).unconnected = false) (hretry : (env attempt).retries emulate = false) :
    ¬EndsUnconnected emulate env remaining attempt := by
  rintro ⟨k, -, hk, hbefore⟩
  cases k with
  | zero => exact absurd (hturn.symm.trans hk) (by decide)
  | succ k => exact absurd (hretry.symm.trans (hbefore 0 (Nat.zero_lt_succ k))) (by decide)

theorem endsUnconnected_zero {emulate : Bool} {attempt : Nat}
    (hturn : (env attempt).unconnected = false) : ¬EndsUnconnected emulate env 0 attempt := by
  rintro ⟨k, hle, hk, -⟩
  obtain rfl := Nat.le_zero.mp hle
  exact absurd (hturn.symm.trans hk) (by decide)

/-- After a turn that is retried the rest of the loop decides. -/
theorem endsUnconnected_succ {emulate : Bool} {remaining attempt : Nat}
    (hturn : (env attempt).unconnected = false) (hretry : (env attempt).retries emulate = true) :
    EndsUnconnected emulate env (remaining + 1) attempt ↔
      EndsUnconnected emulate env remaining (attempt + 1) := by
  constructor
  · rintro ⟨k, hle, hk, hbefore⟩
    cases k with
    | zero => exact absurd (hturn.symm.trans hk) (by decide)
    | succ k =>
        refine ⟨k, Nat.le_of_succ_le_succ hle, ?_, fun j hj => ?_⟩
        · rw [Nat.add_assoc, Nat.add_comm 1]
          exact hk
        · rw [Nat.add_assoc, Nat.add_comm 1]
          exact hbefore (j + 1) (Nat.succ_lt_succ hj)
  · rintro ⟨k, hle, hk, hbefore⟩
    rw [Nat.add_assoc, Nat.add_comm 1] at hk
    refine ⟨k + 1, Nat.succ_le_succ hle, hk, fun j hj => ?_⟩
    cases j with
    | zero => exact hretry
    | succ j =>
        have hj := hbefore j (Nat.lt_of_succ_lt_succ hj)
        rwa [Nat.add_assoc, Nat.add_comm 1] at hj

/-- What a loop that fails leaves: the flags it found, if it is left unconnected, and
nothing otherwise. -/
structure Trace (w w' : World) (unconnected : Prop) : Prop where
  conn : w'.conn = none
  active : w'.active = false
  kept : unconnected → w'.committed = w.committed ∧ w'.rolledBack = w.rolledBack
  reset : ¬unconnected → w'.committed = false ∧ w'.rolledBack = false

theorem trace_of_done {w w' : World} {remaining attempt : Nat} {e : PgOpError}
    (hact : w.active = false) (h : TurnExit w (env attempt) (.done w' (some e))) :
    Trace w w' (EndsUnconnected w.emulate env remaining attempt) := by
  cases h with
  | unconnected _ _ hturn hconn hflags =>
      exact
        { conn := hconn
          active := hflags.active.trans hact
          kept := fun _ => ⟨hflags.committed, hflags.rolledBack⟩
          reset := fun hnot => absurd (endsUnconnected_of_unconnected hturn) hnot }
  | failed _ _ hturn hretry hnone =>
      exact
        { conn := hnone.conn
          active := hnone.active
          kept := fun hends => absurd hends (not_endsUnconnected hturn hretry)
          reset := fun _ => ⟨hnone.committed, hnone.rolledBack⟩ }

/-- **Rule for a loop that fails**, by induction on the attempts left. -/
theorem openLoop_trace (remaining attempt : Nat) {w : World} (hconn : w.conn = none)
    (hact : w.active = false) {e : PgOpError}
    (h : (openLoop env remaining attempt w).2 = some e) :
    Trace w (openLoop env remaining attempt w).1
      (EndsUnconnected w.emulate env remaining attempt) := by
  fun_induction openLoop env remaining attempt w with
  | case1 remaining attempt w w' r hturn =>
      have hexit := openTurn_exit (env attempt) hconn
      rw [hturn] at hexit
      obtain rfl : r = some e := h
      exact trace_of_done hact hexit
  | case2 attempt w w' r hturn =>
      have hexit := openTurn_exit (env attempt) hconn
      rw [hturn] at hexit
      cases hexit with
      | again _ e hup hretry hconn' hflags =>
          exact
            { conn := hconn'
              active := rfl
              kept := fun hends => absurd hends (endsUnconnected_zero hup)
              reset := fun _ => ⟨rfl, rfl⟩ }
  | case3 attempt w w' r hturn remaining ih =>
      have hexit := openTurn_exit (env attempt) hconn
      rw [hturn] at hexit
      cases hexit with
      | again _ e hup hretry hconn' hflags =>
          have hrest := ih hconn' (hflags.active.trans hact) h
          rw [hflags.emulate, ← endsUnconnected_succ hup hretry] at hrest
          exact
            { conn := hrest.conn
              active := hrest.active
              kept := fun hends =>
                ⟨(hrest.kept hends).1.trans hflags.committed,
                  (hrest.kept hends).2.trans hflags.rolledBack⟩
              reset := hrest.reset }

/-- A `begin` that fails found the object inactive. -/
theorem begin_failed {w : World} {e : PgOpError} (h : (w.begin env).2 = some e) :
    w.active = false ∧ w.begin env = openLoop env (w.attempts - 1) 0 w := by
  unfold World.begin at h ⊢
  cases hact : w.active with
  | true =>
      rw [hact, if_pos rfl] at h
      cases h
  | false => exact ⟨rfl, if_neg Bool.false_ne_true⟩

/-- **When a failed `begin` leaves no trace.**  For every sequence of operations on an object
and whatever a `begin` after them meets, if it reports a failure: the object is neither
active nor committed nor rolled back and holds no connection if and only if it was neither
committed nor rolled back before, or the loop of `open` is not left in a turn in which no
connection, or one that is not connected, was granted. -/
theorem failed_begin_no_trace_iff (emulate : Bool) (attempts : Nat) (links : Nat → Link)
    (ops : List Op) (env : Nat → OpenTurn) (e : PgOpError)
    (hfailed : (((World.init emulate attempts links).applyAll ops).begin env).2 = some e) :
    let w := (World.init emulate attempts links).applyAll ops
    NoTrace (w.begin env).1 ↔
      (w.committed = false ∧ w.rolledBack = false) ∨
        ¬EndsUnconnected w.emulate env (w.attempts - 1) 0 := by
  intro w
  have howned : Owned w := owned_applyAll (owned_init emulate attempts links) ops
  obtain ⟨hact, hbegin⟩ := begin_failed hfailed
  have hfailed : (w.begin env).2 = some e := hfailed
  rw [hbegin] at hfailed ⊢
  have htrace := openLoop_trace (w.attempts - 1) 0 (howned.idle hact) hact hfailed
  constructor
  · intro hnone
    by_cases hends : EndsUnconnected w.emulate env (w.attempts - 1) 0
    · obtain ⟨hcommitted, hrolledBack⟩ := htrace.kept hends
      exact .inl ⟨hcommitted.symm.trans hnone.committed, hrolledBack.symm.trans hnone.rolledBack⟩
    · exact .inr hends
  · intro hcond
    by_cases hends : EndsUnconnected w.emulate env (w.attempts - 1) 0
    · obtain ⟨hcommitted, hrolledBack⟩ := hcond.resolve_right fun hnot => hnot hends
      obtain ⟨hkeptCommitted, hkeptRolledBack⟩ := htrace.kept hends
      exact ⟨htrace.active, hkeptCommitted.trans hcommitted, hkeptRolledBack.trans hrolledBack,
        htrace.conn⟩
    · obtain ⟨hcommitted, hrolledBack⟩ := htrace.reset hends
      exact ⟨htrace.active, hcommitted, hrolledBack, htrace.conn⟩

/-- A turn that is granted a connection for a BEGIN answered with these results. -/
def grantedTurn (results : List PGresult) : OpenTurn := ⟨some (0, true), .answered results, true⟩

/-- A transaction that is committed. -/
def committedOps : List Op :=
  [.begin fun _ => grantedTurn [.command 0],
    .commit (.answered [.command 0]) (.answered [.command 0])]

/-- The server rejects the next BEGIN: no trace is left of the commit. -/
theorem failed_begin_no_trace_iff_rejected :
    let w := (World.init false 3 fun _ => idleLink).applyAll committedOps
    let env := fun _ => grantedTurn [.error "42501" "permission denied" "" "" ""]
    w.committed = true ∧ NoTrace (w.begin env).1 := by
  intro w env
  have hfailed : (w.begin env).2.isSome = true := by decide +kernel
  obtain ⟨e, he⟩ := Option.isSome_iff_exists.mp hfailed
  refine ⟨by decide +kernel, (failed_begin_no_trace_iff false 3 _ committedOps env e he).mpr ?_⟩
  exact .inr (not_endsUnconnected (by decide) (by decide +kernel))

/-- The pool grants no connection for the next BEGIN: the object still says that it is
committed. -/
theorem committed_after_failed_begin :
    let w := (World.init false 3 fun _ => idleLink).applyAll committedOps
    let env : Nat → OpenTurn := fun _ => ⟨none, .answered [], true⟩
    (w.begin env).2 = some acquireFailed ∧ (w.begin env).1.committed = true ∧
      ¬∀ emulate attempts links ops env e,
        (((World.init emulate attempts links).applyAll ops).begin env).2 = some e →
          NoTrace (((World.init emulate attempts links).applyAll ops).begin env).1 := by
  intro w env
  have hfailed : (w.begin env).2 = some acquireFailed := by decide +kernel
  have hcommitted : (w.begin env).1.committed = true := by decide +kernel
  refine ⟨hfailed, hcommitted, fun hall => ?_⟩
  have hnone := hall false 3 _ committedOps env acquireFailed hfailed
  exact absurd (hnone.committed.symm.trans hcommitted) (by decide)

end Upq.Transaction
