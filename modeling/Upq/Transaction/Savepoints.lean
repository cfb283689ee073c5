/-
  Transaction/Savepoints.lean --- what `is_rolled_back()` of a savepoint scope says.

  Source: `PgSubtransaction::run_control`, `begin`, `commit` and `rollback`, and
  `PgTransaction::drop_connection`, in `src/upq/PgTransaction.cpp`; `docs/transaction.md`,
  "Subtransactions (SAVEPOINT)".

  The server is run beside the object (`Scoped`).  It keeps the statements in force in its
  transaction and the savepoints, and does what each answered statement of the log says.
  An ERROR leaves them as they are and aborts the transaction, where only ROLLBACK, ABORT
  and ROLLBACK TO are answered without one (`Entry.obeys`).  `make_subtx` gives every scope
  a name of its own, so a savepoint is named by the index of its object.

  `commit()` reports a RELEASE that failed as a rollback without sending ROLLBACK TO, and
  `rollback()` does not look at the answer to its ROLLBACK TO.  Those two answers decide
  whether the report is right (`savepoint_reports_iff`).
-/
import Upq.Foundation.Machine
import Upq.Foundation.Savepoint
import Upq.Transaction.Commit
import Upq.Transaction.Reuse

set_option autoImplicit false

namespace Upq.Transaction

open Upq.Foundation (exec Guarded exec_iff_guarded)
open Upq.Foundation.Savepoint (Undo Within)

/-! ## The server -/

/-- The server's transaction: the statements in force, by number, with its savepoints; and
the number of statements it has carried out. -/
structure Server where
  tx : Undo Nat (List Nat)
  clock : Nat
  deriving DecidableEq, Repr

/-- A statement is carried out; `i` is the savepoint it names. -/
def Server.carryOut (s : Server) (i : Nat) (k : Stmt) : Server where
  clock := s.clock + 1
  tx :=
    match k with
    | .savepoint => s.tx.save i
    | .release => s.tx.release i
    | .rollbackTo => s.tx.rollbackTo i
    | .other => { s.tx with state := s.tx.state ++ [s.clock] }
    | .begin | .commit | .rollback | .abort => ⟨[], []⟩

/-- What an entry of the log does to the server: a statement is carried out if it was
answered without an ERROR. -/
def Server.serve (i : Nat) (s : Server) : Entry → Server
  | .issued _ k _ complete errors => if complete && errors.isEmpty then s.carryOut i k else s
  | _ => s

/-- In an aborted transaction only these are answered without an ERROR. -/
def Entry.obeys : Entry → Bool
  | .issued _ k .inError complete errors =>
      !(complete && errors.isEmpty) || k == .rollback || k == .abort || k == .rollbackTo
  | _ => true

/-! ## Scopes -/

/-- `is_active` of savepoint object `i` -/
def World.subActive (w : World) (i : Nat) : Bool := (w.subs[i]?).any (·.active)

/-- `is_rolled_back` of savepoint object `i` -/
def World.subRolledBack (w : World) (i : Nat) : Bool := (w.subs[i]?).any (·.rolledBack)

/-- What `PgSubtransaction::begin` returns. -/
def World.subBegins (w : World) (sc : Script) : Bool :=
  match (if w.emulate then none else w.live) with
  | none => false
  | some c => (w.runControl c .savepoint sc).2

/-- The object and its server; the scopes that are open, innermost first, with what was in
force at their SAVEPOINT; and whether a scope has reported a rollback that was not one. -/
structure Scoped where
  world : World
  server : Server
  scopes : List (Nat × List Nat)
  misreported : Bool

/-- The savepoint the operation is about. -/
def Op.scope : Op → Nat
  | .subBegin i _ | .subCommit i _ | .subRollback i _ => i
  | _ => 0

/-- The operation is properly nested: a scope begins when it is not open and ends when it is
the innermost one, the transaction does not begin or end around an open scope, and a stream
is used in its own transaction. -/
def Scoped.nested (s : Scoped) : Op → Bool
  | .subBegin i _ => decide (i < s.world.subs.length) && decide (i ∉ s.scopes.map Prod.fst)
  | .subCommit i _ | .subRollback i _ =>
      !s.world.subActive i || decide (s.scopes.head?.map Prod.fst = some i)
  | .begin _ => s.scopes.isEmpty || s.world.active
  | .commit _ _ | .rollback _ | .abort _ | .finish _ => s.scopes.isEmpty || !s.world.active
  | .fetch i _ | .closeStream i _ => (s.world.streams[i]?).all (·.epoch == s.world.epoch)
  | _ => true

/-- The scopes that are open after the operation. -/
def Scoped.scopesAfter (s : Scoped) : Op → List (Nat × List Nat)
  | .subBegin i sc => if s.world.subBegins sc then (i, s.server.tx.state) :: s.scopes else s.scopes
  | .subCommit i _ | .subRollback i _ => if s.world.subActive i then s.scopes.tail else s.scopes
  | _ => s.scopes

/-- If the connection is alive, exactly `mark` is in force and the transaction is not
aborted. -/
def restored (mark : List Nat) (w : World) (server : Server) : Bool :=
  match w.up with
  | none => true
  | some c => decide (server.tx.state = mark) && decide ((w.links c).status ≠ .inError)

/-- A scope has ended in `w` and reports a rollback, and the server has not undone what was
done since its SAVEPOINT or is in an aborted transaction. -/
def Scoped.misreports (s : Scoped) (w : World) (server : Server) : Op → Bool
  | .subCommit i _ | .subRollback i _ =>
      s.world.subActive i && w.subRolledBack i &&
        !restored ((s.scopes.head?.map Prod.snd).getD []) w server
  | _ => false

/-- The server after the operation. -/
def Scoped.served (s : Scoped) (op : Op) : Server :=
  (s.world.logged op).foldl (Server.serve op.scope) s.server

/-- One properly nested operation, answered by a server that obeys. -/
def Scoped.step (s : Scoped) (op : Op) : Option Scoped :=
  if s.nested op && (s.world.logged op).all Entry.obeys then
    some
      { world := s.world.apply op
        server := s.served op
        scopes := s.scopesAfter op
        misreported := s.misreported || s.misreports (s.world.apply op) (s.served op) op }
  else none

/-- A new object. -/
def Scoped.init (emulate : Bool) (attempts : Nat) (links : Nat → Link) : Scoped :=
  { world := .init emulate attempts links, server := ⟨⟨[], []⟩, 0⟩, scopes := []
    misreported := false }

/-- What a statement of kind `k` comes to on `c`. -/
def World.reply (w : World) (c : Nat) (k : Stmt) (sc : Script) : Outcome :=
  runQuery sc (k.after (w.links c).status) (w.links c)

/-- The control statement is answered by an ERROR, on a connection that stays alive. -/
def World.controlRefused (w : World) (k : Stmt) (sc : Script) : Bool :=
  match w.up with
  | none => false
  | some c =>
      let o := w.reply c k sc
      hasError o.read && o.link.connected && !isFatalConnectionError o.result

/-- The operation ends a scope with a control statement that is refused. -/
def Scoped.refused (s : Scoped) : Op → Bool
  | .subCommit i sc => s.world.subActive i && s.world.controlRefused .release sc
  | .subRollback i sc => s.world.subActive i && s.world.controlRefused .rollbackTo sc
  | _ => false

/-- Every scope that has reported a rollback while its connection stayed alive was rolled
back, in a transaction that was not aborted. -/
def Scoped.Truthful (s : Scoped) : Prop := s.misreported = false

/-- No scope is ended by a control statement that is refused. -/
def Scoped.EndsClean (s : Scoped) (op : Op) : Prop := s.refused op = false

instance (s : Scoped) (op : Op) : Decidable (s.EndsClean op) :=
  inferInstanceAs (Decidable (s.refused op = false))

/-! ## Statements that are no transaction control -/

/-- The entry is no transaction control. -/
def Entry.isPlain : Entry → Bool
  | .issued _ k _ _ _ => k == .other
  | _ => true

/-- Nothing but plain entries was logged between `w` and `w'`. -/
def LogsPlain (w w' : World) : Prop :=
  ∃ new, w'.log = w.log ++ new ∧ ∀ e ∈ new, e.isPlain = true

section

variable {w₀ w w' : World}

theorem LogsPlain.refl (w : World) : LogsPlain w w := ⟨[], by simp, nofun⟩

theorem LogsPlain.snoc {e : Entry} (h : LogsPlain w₀ w) (hlog : w'.log = w.log ++ [e])
    (he : e.isPlain = true) : LogsPlain w₀ w' := by
  obtain ⟨new, hnew, hplain⟩ := h
  refine ⟨new ++ [e], by rw [hlog, hnew, List.append_assoc], ?_⟩
  intro f hf
  rcases List.mem_append.mp hf with hin | hlast
  · exact hplain f hin
  · rw [List.mem_singleton.mp hlast]
    exact he

theorem LogsPlain.markDead (h : LogsPlain w₀ w) : LogsPlain w₀ w.markDead := by
  unfold World.markDead
  split
  · exact h
  · exact h.snoc rfl rfl

theorem LogsPlain.dropConnection (h : LogsPlain w₀ w) : LogsPlain w₀ w.dropConnection :=
  h.markDead

theorem LogsPlain.query (h : LogsPlain w₀ w) (c : Nat) (sc : Script) :
    LogsPlain w₀ (w.query c .other sc).1 := by
  refine h.snoc rfl ?_
  split <;> rfl

theorem logsPlain_run (w : World) (pre : Precheck) (env : Nat → RunTurn) :
    LogsPlain w (w.run pre env).1 := by
  refine runLoop_rule (P := LogsPlain w) ?_ ?_ ?_ ?_ _ _ w (.refl w)
  · exact fun _ h _ => h.snoc rfl rfl
  · exact fun _ h => h.dropConnection
  · exact fun _ c sc h _ => h.query c sc
  · exact fun _ h _ _ => ⟨h.markDead, fun _ _ => h.markDead.snoc rfl rfl⟩

theorem logsPlain_plain (w : World) (sc : Script) : LogsPlain w (w.plain sc) := by
  unfold World.plain
  split
  · exact (LogsPlain.refl w).snoc rfl rfl
  · exact (LogsPlain.refl w).query _ sc

theorem logsPlain_copy (w : World) (o : CopyOutcome) : LogsPlain w (w.copy o) := by
  unfold World.copy
  split
  · exact (LogsPlain.refl w).snoc rfl rfl
  · rename_i c _
    have hcopied : LogsPlain w (w.copied c o) := (LogsPlain.refl w).snoc rfl rfl
    dsimp only
    split
    · exact hcopied.dropConnection
    · exact hcopied

theorem logsPlain_stream (w : World) (sc : Script) : LogsPlain w (w.stream sc) := by
  unfold World.stream
  split
  · exact (LogsPlain.refl w).snoc rfl rfl
  · rename_i c _
    have hquery := (LogsPlain.refl w).query c sc
    dsimp only
    split
    · exact hquery
    · split
      · exact hquery.dropConnection
      · exact hquery

theorem LogsPlain.queryVia (h : LogsPlain w₀ w) (st : Stream) (c : Nat) (sc : Script) :
    LogsPlain w₀ (w.queryVia st c sc).1 := by
  unfold World.queryVia
  split
  · exact h.query c sc
  · exact h.snoc rfl rfl

theorem logsPlain_borrowing {i : Nat} (h : LogsPlain w₀ w) (hw' : Borrowing i w w') :
    LogsPlain w₀ w' := by
  cases hw' with
  | sent st c sc _ _ => exact h.queryVia st c sc
  | set st st' _ _ _ => exact h

end

/-- The operation is one of a scope. -/
def Op.isScope : Op → Bool
  | .subBegin _ _ | .subCommit _ _ | .subRollback _ _ => true
  | _ => false

/-- Around open scopes the other operations log plain entries. -/
theorem logsPlain_apply {s : Scoped} (howned : Owned s.world) {op : Op} (hop : op.isScope = false)
    (hnested : s.nested op = true) : s.scopes = [] ∨ LogsPlain s.world (s.world.apply op) := by
  cases op with
  | begin env =>
      rcases (Bool.or_eq_true _ _).mp hnested with hempty | hact
      · exact .inl (List.isEmpty_iff.mp hempty)
      · simp only [World.apply, World.begin, hact, if_true]
        exact .inr (.refl _)
  | run pre env => exact .inr (logsPlain_run _ pre env)
  | plain sc => exact .inr (logsPlain_plain _ sc)
  | copy o => exact .inr (logsPlain_copy _ o)
  | stream sc => exact .inr (logsPlain_stream _ sc)
  | fetch i sc =>
      exact .inr (keep_of_effects (R := Borrowing i) (fun _ _ => logsPlain_borrowing)
        (borrowings_fetch i sc) (.refl _))
  | closeStream i sc =>
      exact .inr (keep_of_effects (R := Borrowing i) (fun _ _ => logsPlain_borrowing)
        (borrowings_closeStream i sc) (.refl _))
  | makeSubtx => exact .inr (.refl _)
  | subBegin _ _ | subCommit _ _ | subRollback _ _ => cases hop
  | commit _ _ | rollback _ | abort _ | finish _ =>
      rcases (Bool.or_eq_true _ _).mp hnested with hempty | hidle
      · exact .inl (List.isEmpty_iff.mp hempty)
      · -- without a transaction there is nothing to end and no connection to give back
        rw [Bool.not_eq_true'] at hidle
        have hconn := howned.idle hidle
        simp only [World.apply, World.commit, World.rollback, World.finish, World.release, hidle,
          hconn, Bool.not_false, Bool.false_eq_true, if_true, if_false]
        exact .inr (.refl _)

theorem serve_plain (i : Nat) (s : Server) {e : Entry} (h : e.isPlain = true) :
    (s.serve i e).tx.saves = s.tx.saves := by
  cases e with
  | issued c k before complete errors =>
      obtain rfl : k = .other := by simpa [Entry.isPlain] using h
      simp only [Server.serve]
      split <;> rfl
  | _ => rfl

/-- Plain entries leave the savepoints alone. -/
theorem foldl_serve_plain (i : Nat) {new : List Entry} (h : ∀ e ∈ new, e.isPlain = true)
    (s : Server) : (new.foldl (Server.serve i) s).tx.saves = s.tx.saves := by
  induction new generalizing s with
  | nil => rfl
  | cons e new ih =>
      rw [List.foldl_cons, ih fun f hf => h f (List.mem_cons_of_mem e hf)]
      exact serve_plain i s (h e List.mem_cons_self)

/-! ## Control statements -/

section

variable {w : World} {c : Nat}

theorem dropConnection_log (h : w.conn = some c) :
    w.dropConnection.log = w.log ++ [.handedBack c .markDead] := by
  simp only [World.dropConnection, World.markDead, h]

/-- The log of a control statement. -/
theorem runControl_log (hup : w.up = some c) (k : Stmt) (sc : Script) :
    ∃ tail, (w.runControl c k sc).1.log = w.log ++
        .issued c k (w.links c).status (w.reply c k sc).complete
          ((w.reply c k sc).read.filterMap PGresult.errorState?) :: tail ∧
      ∀ i s, tail.foldl (Server.serve i) s = s := by
  obtain ⟨hconn, hlink⟩ := conn_of_up hup
  have hquery : (w.query c k sc).1.log = w.log ++
      [.issued c k (w.links c).status (w.reply c k sc).complete
        ((w.reply c k sc).read.filterMap PGresult.errorState?)] := by
    simp [World.query, World.reply, hlink]
  unfold World.runControl
  dsimp only
  split
  · have hconn' : (w.query c k sc).1.conn = some c := hconn
    refine ⟨[.handedBack c .markDead], ?_, fun _ _ => rfl⟩
    rw [dropConnection_log hconn', hquery, List.append_assoc]
    rfl
  · exact ⟨[], hquery, fun _ _ => rfl⟩

/-- The server carries a control statement out exactly when `run_control` returns true. -/
theorem served_runControl (hup : w.up = some c) (k : Stmt) (sc : Script) (i : Nat) (s : Server) :
    ((w.runControl c k sc).1.log.drop w.log.length).foldl (Server.serve i) s =
      if (w.runControl c k sc).2 then s.carryOut i k else s := by
  obtain ⟨tail, hlog, htail⟩ := runControl_log hup k sc
  have hok : (w.runControl c k sc).2 = ((w.reply c k sc).complete &&
      ((w.reply c k sc).read.filterMap PGresult.errorState?).isEmpty) :=
    runQuery_ok_eq sc _ (conn_of_up hup).2
  rw [hlog, List.drop_left, List.foldl_cons, htail, hok]
  rfl

theorem runControl_subs (w : World) (c : Nat) (k : Stmt) (sc : Script) :
    (w.runControl c k sc).1.subs = w.subs := by
  have hdead : ∀ w : World, w.markDead.subs = w.subs := by
    intro w
    unfold World.markDead
    split <;> rfl
  unfold World.runControl
  dsimp only
  split
  · exact hdead _
  · rfl

/-- What a control statement on `c` can come to, with the object after it and what
`run_control` returns. -/
inductive Controlled (w : World) (c : Nat) (k : Stmt) (sc : Script) (w' : World) :
    Bool → Prop where
  -- it was carried out
  | done (hrefused : w.controlRefused k sc = false)
      (hstatus : ∀ d, w'.up = some d →
        ∃ read, hasError read = false ∧ (w'.links d).status = k.after (w.links c).status read) :
      Controlled w c k sc w' true
  -- it failed and the connection is lost
  | lost (hrefused : w.controlRefused k sc = false) (hup : w'.up = none) :
      Controlled w c k sc w' false
  -- it failed on a connection that is alive
  | refused (hrefused : w.controlRefused k sc = true) (hup : w'.up = some c)
      (hstatus : (w'.links c).status = .inError) : Controlled w c k sc w' false

/-- An ERROR inside a transaction aborts it. -/
theorem Stmt.after_error {k : Stmt} {status : TxStatus} (hk : k.isInner = true)
    (hstatus : status ≠ .idle) {read : List PGresult} (hread : hasError read = true) :
    k.after status read = .inError := by
  cases status with
  | idle => exact absurd rfl hstatus
  | inTrans => cases k <;> simp [Stmt.after, Stmt.isInner, hread] at hk ⊢
  | inError => cases k <;> simp [Stmt.after, Stmt.isInner, hread] at hk ⊢

/-- The connection after a statement. -/
theorem up_query (hup : w.up = some c) (k : Stmt) (sc : Script) :
    (w.query c k sc).1.up = if (w.reply c k sc).link.connected then some c else none := by
  have hconn : (w.query c k sc).1.conn = some c := (conn_of_up hup).1
  rw [World.up, hconn, World.reply, ← query_link]

/-- A statement of the transaction that fails while the link stays connected was answered by
an ERROR, and the transaction is aborted. -/
theorem reply_error {k : Stmt} {sc : Script} (hup : w.up = some c) (hk : k.isInner = true)
    (hinside : Free (w.links c) → (w.links c).status ≠ .idle)
    (hok : (w.reply c k sc).result.ok = false) (halive : (w.reply c k sc).link.connected = true) :
    hasError (w.reply c k sc).read = true ∧ (w.reply c k sc).link.status = .inError := by
  have hlink := (conn_of_up hup).2
  obtain ⟨-, hbusy, hcomplete, -, hstatus⟩ := runQuery_connected halive
  have herror : hasError (w.reply c k sc).read = true := by
    have heq : (w.reply c k sc).result.ok = _ := runQuery_ok_eq sc _ hlink
    rw [hok, hcomplete, Bool.true_and] at heq
    rw [hasError_eq]
    exact (Bool.not_eq_eq_eq_not ..).mpr heq.symm
  exact ⟨herror, hstatus.trans (Stmt.after_error hk (hinside ⟨hlink, hbusy⟩) herror)⟩

theorem controlled_runControl (hup : w.up = some c) {k : Stmt} (hk : k.isInner = true)
    (hinside : Free (w.links c) → (w.links c).status ≠ .idle) (sc : Script) :
    Controlled w c k sc (w.runControl c k sc).1 (w.runControl c k sc).2 := by
  have hrefused : w.controlRefused k sc = (hasError (w.reply c k sc).read &&
      (w.reply c k sc).link.connected && !isFatalConnectionError (w.reply c k sc).result) := by
    simp only [World.controlRefused, hup]
  have hsplit : w.runControl c k sc =
      (if !(w.reply c k sc).result.ok && isFatalConnectionError (w.reply c k sc).result
        then (w.query c k sc).1.dropConnection else (w.query c k sc).1,
        (w.reply c k sc).result.ok) := rfl
  rw [hsplit]
  dsimp only
  cases hok : (w.reply c k sc).result.ok with
  | true =>
      obtain ⟨-, -, -, hnone, -, hstatus⟩ := runQuery_ok hok
      have hfine : hasError (w.reply c k sc).read = false := hasError_eq_false hnone
      refine .done (by rw [hrefused, hfine]; rfl) ?_
      intro d hd
      change (w.query c k sc).1.up = some d at hd
      rw [up_query hup] at hd
      obtain rfl : c = d := by
        split at hd
        · exact Option.some.inj hd
        · cases hd
      refine ⟨(w.reply c k sc).read, hfine, ?_⟩
      change ((w.query c k sc).1.links c).status = _
      rw [query_link]
      exact hstatus
  | false =>
      cases hfatal : isFatalConnectionError (w.reply c k sc).result with
      | true =>
          refine .lost (by rw [hrefused, hfatal, Bool.not_true, Bool.and_false]) ?_
          simp [World.up, World.dropConnection]
      | false =>
          change Controlled w c k sc (w.query c k sc).1 false
          cases halive : (w.reply c k sc).link.connected with
          | false =>
              refine .lost (by rw [hrefused, halive, Bool.and_false, Bool.false_and]) ?_
              rw [up_query hup, halive]
              rfl
          | true =>
              obtain ⟨herror, hstatus⟩ := reply_error hup hk hinside hok halive
              refine .refused (by rw [hrefused, herror, halive, hfatal]; rfl) ?_ ?_
              · rw [up_query hup, halive]
                rfl
              · rw [query_link]
                exact hstatus

end

/-! ## The end of a scope -/

/-- How the innermost scope `i` ends: with its control statement `k`, or without one when
the connection is lost. -/
inductive ScopeEnd (w : World) (i : Nat) (k : Stmt) (sc : Script) : World → Prop where
  | lost (hup : w.up = none) :
      ScopeEnd w i k sc (w.setSub i { active := false, committed := false, rolledBack := true })
  | sent (c : Nat) (sub : Sub) (hup : w.up = some c)
      (hsub : sub.rolledBack = (decide (k = .rollbackTo) || !(w.runControl c k sc).2)) :
      ScopeEnd w i k sc ((w.runControl c k sc).1.setSub i sub)

section

variable {w : World} {i : Nat}

theorem subActive_eq_true (h : w.subActive i = true) :
    ∃ sub, w.subs[i]? = some sub ∧ sub.active = true :=
  (Option.any_eq_true ..).mp h

theorem subRolledBack_setSub {w' : World} (h : w.subActive i = true) (hsubs : w'.subs = w.subs)
    (sub : Sub) : (w'.setSub i sub).subRolledBack i = sub.rolledBack := by
  obtain ⟨old, hold, -⟩ := subActive_eq_true h
  have hlt : i < w.subs.length := (List.getElem?_eq_some_iff.mp hold).1
  simp [World.subRolledBack, World.setSub, hsubs, hlt]

theorem scopeEnd_subCommit (hreal : w.emulate = false) (hact : w.subActive i = true) (sc : Script) :
    ScopeEnd w i .release sc (w.subCommit i sc) := by
  obtain ⟨sub, hsub, hactive⟩ := subActive_eq_true hact
  unfold World.subCommit
  rw [hsub]
  simp only [hactive, hreal, Bool.not_true, Bool.false_eq_true, if_false]
  split
  · exact .lost ‹_›
  · exact .sent _ _ ‹_› rfl

theorem scopeEnd_subRollback (hreal : w.emulate = false) (hact : w.subActive i = true)
    (sc : Script) : ScopeEnd w i .rollbackTo sc (w.subRollback i sc) := by
  obtain ⟨sub, hsub, hactive⟩ := subActive_eq_true hact
  unfold World.subRollback
  rw [hsub]
  simp only [hactive, hreal, Bool.not_true, Bool.false_eq_true, if_false]
  split
  · exact .lost ‹_›
  · exact .sent _ _ ‹_› rfl

theorem subCommit_inactive (hact : w.subActive i = false) (sc : Script) : w.subCommit i sc = w := by
  unfold World.subCommit
  split
  · rfl
  · rename_i sub hsub
    have hidle : sub.active = false := by simpa [World.subActive, hsub] using hact
    simp [hidle]

theorem subRollback_inactive (hact : w.subActive i = false) (sc : Script) :
    w.subRollback i sc = w := by
  unfold World.subRollback
  split
  · rfl
  · rename_i sub hsub
    have hidle : sub.active = false := by simpa [World.subActive, hsub] using hact
    simp [hidle]

/-- A rollback to a savepoint that was carried out ends the aborted state. -/
theorem Stmt.after_rollbackTo (status : TxStatus) {read : List PGresult}
    (hread : hasError read = false) : Stmt.rollbackTo.after status read ≠ .inError := by
  cases status <;> simp [Stmt.after, hread]

/-- What a control statement makes of the scope it ends. -/
theorem controlled_spec {s : Server} {mark : List Nat} {scopes : List (Nat × List Nat)} {c : Nat}
    {k : Stmt} {sc : Script} {w' : World} {ok : Bool} (h : Controlled w c k sc w' ok)
    (hwithin : Within ((i, mark) :: scopes) s.tx.saves) (hk : k = .release ∨ k = .rollbackTo) :
    Within scopes (if ok then s.carryOut i k else s).tx.saves ∧
      ((decide (k = .rollbackTo) || !ok) &&
          !restored mark w' (if ok then s.carryOut i k else s)) = w.controlRefused k sc := by
  cases h with
  | done hrefused hstatus =>
      rw [hrefused]
      rcases hk with rfl | rfl
      · exact ⟨hwithin.release, rfl⟩
      · obtain ⟨hstate, hscopes⟩ := hwithin.rollbackTo
        refine ⟨hscopes, ?_⟩
        have hrestored : restored mark w' (s.carryOut i .rollbackTo) = true := by
          unfold restored
          split
          · rfl
          · rename_i d hd
            obtain ⟨read, hread, hafter⟩ := hstatus d hd
            have hlive : (w'.links d).status ≠ .inError :=
              hafter.trans_ne (Stmt.after_rollbackTo _ hread)
            simp only [Server.carryOut, hstate, hlive, decide_true, ne_eq, not_false_eq_true,
              Bool.and_self]
        rw [if_pos rfl, hrestored, Bool.not_true, Bool.and_false]
  | lost hrefused hup =>
      refine ⟨hwithin.pop, ?_⟩
      simp [restored, hup, hrefused]
  | refused hrefused hup hstatus =>
      refine ⟨hwithin.pop, ?_⟩
      simp [restored, hup, hstatus, hrefused]

/-- **End of a scope.**  The scopes around it keep their savepoints, and it reports a
rollback that was not one exactly when its control statement is refused. -/
theorem scopeEnd_spec {s : Server} {mark : List Nat} {scopes : List (Nat × List Nat)} {k : Stmt}
    {sc : Script} {w' : World} (hin : OnSession w) (howned : Owned w) (hact : w.subActive i = true)
    (hwithin : Within ((i, mark) :: scopes) s.tx.saves) (hk : k = .release ∨ k = .rollbackTo)
    (h : ScopeEnd w i k sc w') :
    Within scopes ((w'.log.drop w.log.length).foldl (Server.serve i) s).tx.saves ∧
      (w'.subRolledBack i &&
          !restored mark w' ((w'.log.drop w.log.length).foldl (Server.serve i) s)) =
        w.controlRefused k sc := by
  have hinner : k.isInner = true := by rcases hk with rfl | rfl <;> rfl
  cases h with
  | lost hup =>
      have hlog : (w.setSub i ⟨false, false, true⟩).log.drop w.log.length = [] :=
        List.drop_length
      have hrestored : restored mark (w.setSub i ⟨false, false, true⟩) s = true := by
        simp only [restored, show (w.setSub i ⟨false, false, true⟩).up = none from hup]
      rw [hlog, List.foldl_nil, hrestored, World.controlRefused, hup, Bool.not_true, Bool.and_false]
      exact ⟨hwithin.pop, rfl⟩
  | sent c sub hup hsub =>
      have hactive : w.active = true := by
        by_contra hidle
        have hnone := howned.idle (Bool.eq_false_iff.mpr hidle)
        exact absurd (hnone.symm.trans (conn_of_up hup).1) nofun
      obtain ⟨d, before, since, htx⟩ := hin.inTx hactive
      obtain rfl : d = c := Option.some.inj (htx.conn.symm.trans (conn_of_up hup).1)
      have hlog : ((w.runControl d k sc).1.setSub i sub).log = (w.runControl d k sc).1.log := rfl
      have hrestored : ∀ server, restored mark ((w.runControl d k sc).1.setSub i sub) server =
          restored mark (w.runControl d k sc).1 server := fun _ => rfl
      rw [subRolledBack_setSub hact (runControl_subs w d k sc), hlog, served_runControl hup,
        hrestored, hsub]
      exact controlled_spec (controlled_runControl hup hinner htx.inside sc) hwithin hk

end

/-! ## Steps and runs -/

/-- What every step keeps: the object is fine, with a real BEGIN an active transaction is on
its session and without one no scope is open, and every open scope has its savepoint. -/
structure Scoped.Inv (s : Scoped) : Prop where
  owned : Owned s.world
  mode : OnSession s.world ∨ s.world.emulate = true ∧ s.scopes = []
  within : Within s.scopes s.server.tx.saves

theorem Scoped.step_eq {s s' : Scoped} {op : Op} (h : s.step op = some s') :
    s.nested op = true ∧
      s' =
        { world := s.world.apply op
          server := s.served op
          scopes := s.scopesAfter op
          misreported := s.misreported || s.misreports (s.world.apply op) (s.served op) op } := by
  unfold Scoped.step at h
  split at h
  · rename_i hboth
    exact ⟨(Bool.and_eq_true_iff.mp hboth).1, (Option.some.inj h).symm⟩
  · cases h

theorem emulate_effect {w w' : World} (h : w.emulate = true) (hw' : Effect w w') :
    w'.emulate = true := by
  have hdead (w₁ : World) (h₁ : w₁.emulate = true) : w₁.markDead.emulate = true :=
    (sameFlags_markDead w₁).emulate.trans h₁
  cases hw' with
  | inner hinner =>
      cases hinner with
      | statement hstatement =>
          cases hstatement with
          | dropped | replaced _ _ | replacedBy _ _ _ _ => exact hdead w h
          | _ => exact h
      | streamAdded _ _ _ => exact h
      | borrowing i hborrowing =>
          cases hborrowing with
          | sent st c sc _ _ =>
              unfold World.queryVia
              split <;> exact h
          | set _ _ _ _ _ => exact h
      | beginning hbeginning =>
          cases hbeginning with
          | found c _ => exact hdead (w.acquire c false) h
          | tried c sc _ => exact hdead ((w.acquire c true).query c .begin sc).1 h
          | _ => exact h
  | ending hending =>
      cases hending with
      | retired _ => exact hdead w h
      | returned how _ _ => exact (sameFlags_release w how).emulate.trans h
      | _ => exact h

section

variable {s : Scoped}

/-- A scope that ends is open, so the object has a real BEGIN. -/
theorem Scoped.Inv.ending (h : s.Inv) {i : Nat} (hact : s.world.subActive i = true)
    (hnested : (!s.world.subActive i || decide (s.scopes.head?.map Prod.fst = some i)) = true) :
    OnSession s.world ∧ ∃ mark rest, s.scopes = (i, mark) :: rest := by
  have hhead : s.scopes.head?.map Prod.fst = some i := by simpa [hact] using hnested
  cases hscopes : s.scopes with
  | nil => rw [hscopes] at hhead; cases hhead
  | cons p rest =>
      rw [hscopes] at hhead
      obtain rfl : p.1 = i := Option.some.inj hhead
      refine ⟨?_, p.2, rest, rfl⟩
      rcases h.mode with hsession | ⟨-, hnone⟩
      · exact hsession
      · rw [hscopes] at hnone
        cases hnone

/-- `begin()` of a scope. -/
theorem Scoped.Inv.within_subBegin (h : s.Inv) {i : Nat} {sc : Script}
    (hnested : s.nested (.subBegin i sc) = true) :
    Within (s.scopesAfter (.subBegin i sc)) (s.served (.subBegin i sc)).tx.saves := by
  have hi : i ∉ s.scopes.map Prod.fst := by
    simpa using (Bool.and_eq_true_iff.mp hnested).2
  cases hcan : (if s.world.emulate then none else s.world.live) with
  | none =>
      have hbegins : s.world.subBegins sc = false := by simp only [World.subBegins, hcan]
      have hlogged : s.world.logged (.subBegin i sc) = [] := by
        refine logged_eq ?_
        simp only [World.apply, World.subBegin, hcan, List.append_nil]
      simp only [Scoped.scopesAfter, Scoped.served, hbegins, hlogged]
      exact h.within
  | some c =>
      have hup : s.world.up = some c := by
        split at hcan
        · cases hcan
        · exact up_of_live hcan
      have hbegins : s.world.subBegins sc = (s.world.runControl c .savepoint sc).2 := by
        simp only [World.subBegins, hcan]
      have hlog : (s.world.apply (.subBegin i sc)).log =
          (s.world.runControl c .savepoint sc).1.log := by
        simp only [World.apply, World.subBegin, hcan]
        split
        · rename_i w' heq
          rw [heq]
          rfl
        · rename_i w' heq
          rw [heq]
      simp only [Scoped.scopesAfter, Scoped.served, World.logged, Op.scope, hbegins, hlog,
        served_runControl hup]
      cases (s.world.runControl c .savepoint sc).2 with
      | true => exact Within.save hi h.within
      | false => exact h.within

/-- An operation that ends a scope which is not active does nothing. -/
theorem Scoped.Inv.within_same (h : s.Inv) {op : Op} (hsame : s.world.apply op = s.world)
    (hscopes : s.scopesAfter op = s.scopes) : Within (s.scopesAfter op) (s.served op).tx.saves := by
  have hlogged : s.world.logged op = [] := logged_eq (by rw [hsame, List.append_nil])
  rw [hscopes, Scoped.served, hlogged]
  exact h.within

/-- `commit()` or `rollback()` of a scope. -/
theorem Scoped.Inv.ended (h : s.Inv) {i : Nat} {k : Stmt} {sc : Script} {op : Op}
    (hact : s.world.subActive i = true)
    (hnested : (!s.world.subActive i || decide (s.scopes.head?.map Prod.fst = some i)) = true)
    (hk : k = .release ∨ k = .rollbackTo) (hscope : op.scope = i)
    (hended : s.world.emulate = false → ScopeEnd s.world i k sc (s.world.apply op)) :
    Within s.scopes.tail (s.served op).tx.saves ∧
      ((s.world.apply op).subRolledBack i &&
          !restored ((s.scopes.head?.map Prod.snd).getD []) (s.world.apply op) (s.served op)) =
        s.world.controlRefused k sc := by
  obtain ⟨hsession, mark, rest, hscopes⟩ := h.ending hact hnested
  have hwithin := h.within
  rw [hscopes] at hwithin ⊢
  rw [Scoped.served, World.logged, hscope]
  exact scopeEnd_spec hsession h.owned hact hwithin hk (hended hsession.real)

/-- **Step rule.**  Every open scope keeps its savepoint, and a report is wrong exactly when
the control statement of the scope is refused. -/
theorem Scoped.Inv.step_within (h : s.Inv) {op : Op} (hnested : s.nested op = true) :
    Within (s.scopesAfter op) (s.served op).tx.saves ∧
      s.misreports (s.world.apply op) (s.served op) op = s.refused op := by
  cases hop : op.isScope with
  | false =>
      have hscopes : s.scopesAfter op = s.scopes := by cases op <;> first | rfl | cases hop
      have hnone : s.misreports (s.world.apply op) (s.served op) op = s.refused op := by
        cases op <;> first | rfl | cases hop
      refine ⟨?_, hnone⟩
      rw [hscopes]
      rcases logsPlain_apply h.owned hop hnested with hempty | ⟨new, hlog, hplain⟩
      · rw [hempty]
        exact .none _
      · rw [Scoped.served, logged_eq hlog, foldl_serve_plain _ hplain]
        exact h.within
  | true =>
      cases op with
      | subBegin i sc => exact ⟨h.within_subBegin hnested, rfl⟩
      | subCommit i sc =>
          cases hact : s.world.subActive i with
          | false =>
              refine ⟨h.within_same (subCommit_inactive hact sc) ?_, ?_⟩
              · simp [Scoped.scopesAfter, hact]
              · simp [Scoped.misreports, Scoped.refused, hact]
          | true =>
              simp only [Scoped.scopesAfter, Scoped.misreports, Scoped.refused, hact, if_true,
                Bool.true_and]
              refine h.ended hact hnested (.inl rfl) rfl fun hreal => ?_
              exact scopeEnd_subCommit hreal hact sc
      | subRollback i sc =>
          cases hact : s.world.subActive i with
          | false =>
              refine ⟨h.within_same (subRollback_inactive hact sc) ?_, ?_⟩
              · simp [Scoped.scopesAfter, hact]
              · simp [Scoped.misreports, Scoped.refused, hact]
          | true =>
              simp only [Scoped.scopesAfter, Scoped.misreports, Scoped.refused, hact, if_true,
                Bool.true_and]
              refine h.ended hact hnested (.inr rfl) rfl fun hreal => ?_
              exact scopeEnd_subRollback hreal hact sc
      | _ => cases hop

/-- Without a real BEGIN no scope is opened. -/
theorem Scoped.scopesAfter_emulated (hemu : s.world.emulate = true) (hnone : s.scopes = [])
    (op : Op) : s.scopesAfter op = [] := by
  cases op <;> simp [Scoped.scopesAfter, World.subBegins, hemu, hnone]

theorem Scoped.Inv.step {op : Op} {s' : Scoped} (h : s.Inv) (hstep : s.step op = some s') :
    s'.Inv := by
  obtain ⟨hnested, rfl⟩ := Scoped.step_eq hstep
  refine ⟨owned_apply h.owned op, ?_, (h.step_within hnested).1⟩
  rcases h.mode with hsession | ⟨hemu, hnone⟩
  · exact .inl (onSession_apply hsession op)
  · refine .inr ⟨?_, Scoped.scopesAfter_emulated hemu hnone op⟩
    exact keep_of_effects (R := Effect) (fun _ _ => emulate_effect) (effects_apply op) hemu

/-- **Step rule, both ways.**  A step keeps the reports true exactly when it ends no scope by
a control statement that is refused. -/
theorem Scoped.Inv.truthful_step {op : Op} {s' : Scoped} (h : s.Inv)
    (hstep : s.step op = some s') : s'.Truthful ↔ s.Truthful ∧ s.EndsClean op := by
  obtain ⟨hnested, rfl⟩ := Scoped.step_eq hstep
  simp only [Scoped.Truthful, Scoped.EndsClean, Bool.or_eq_false_iff, (h.step_within hnested).2]

theorem Scoped.inv_init (emulate : Bool) (attempts : Nat) (links : Nat → Link) :
    (Scoped.init emulate attempts links).Inv := by
  refine ⟨owned_init emulate attempts links, ?_, .none _⟩
  cases emulate with
  | true => exact .inr ⟨rfl, rfl⟩
  | false => exact .inl (onSession_init attempts links)

end

/-- **When a scope's report is right.**  For every object and every properly nested sequence
of operations with any outcomes: whenever a scope has become rolled back through `commit()`
or `rollback()` on a connection that stayed alive, the server has undone exactly what was
done since its SAVEPOINT and its transaction is not aborted, if and only if no scope is ended
by a RELEASE or ROLLBACK TO that the server answers with an ERROR on a connection that stays
alive. -/
theorem savepoint_reports_iff (emulate : Bool) (attempts : Nat) (links : Nat → Link)
    (ops : List Op) (s : Scoped)
    (h : exec Scoped.step (.init emulate attempts links) ops = some s) :
    s.Truthful ↔ Guarded Scoped.step Scoped.EndsClean (.init emulate attempts links) ops := by
  have hrun := exec_iff_guarded (fun _ _ _ => Scoped.Inv.step)
    (fun _ _ _ => Scoped.Inv.truthful_step) (Scoped.inv_init emulate attempts links) h
  exact hrun.trans (and_iff_right rfl)

/-- A scope with a statement that is carried out and one that fails. -/
def failedScope : List Op :=
  [.begin fun _ => grantedTurn [.command 0], .makeSubtx, .plain (.answered [.command 1]),
    .subBegin 0 (.answered [.command 0]), .plain (.answered [.command 1]),
    .plain (.answered [.error "23505" "duplicate key value" "" "" ""])]

/-- `rollback()` of the scope: what was done before its SAVEPOINT is in force, and the
transaction goes on. -/
theorem savepoint_reports_iff_undone :
    ∃ s, exec Scoped.step (.init false 3 fun _ => idleLink)
        (failedScope ++ [.subRollback 0 (.answered [.command 0])]) = some s ∧
      s.world.subRolledBack 0 = true ∧ s.server.tx.state = [1] ∧ s.Truthful := by
  have hrun : (exec Scoped.step (.init false 3 fun _ => idleLink)
      (failedScope ++ [.subRollback 0 (.answered [.command 0])])).any
      (fun s => s.world.subRolledBack 0 && decide (s.server.tx.state = [1])) = true := by
    decide +kernel
  obtain ⟨s, hs, hend⟩ := (Option.any_eq_true ..).mp hrun
  obtain ⟨hrolled, hstate⟩ := Bool.and_eq_true_iff.mp hend
  refine ⟨s, hs, hrolled, of_decide_eq_true hstate, ?_⟩
  exact (savepoint_reports_iff false 3 _ _ s hs).mpr (by decide +kernel)

/-- `commit()` of the scope: its RELEASE fails in the aborted transaction.  The scope says that
it is rolled back, the connection is alive, the statement of the scope is still in force and
the transaction is aborted. -/
theorem aborted_scope_reports_rollback :
    (exec Scoped.step (.init false 3 fun _ => idleLink)
        (failedScope ++ [.subCommit 0
          (.answered [.error "25P02" "current transaction is aborted" "" "" ""])])).any
        (fun s => s.world.subRolledBack 0 && decide (s.world.up = some 0) &&
          decide (s.server.tx.state = [1, 3]) && decide ((s.world.links 0).status = .inError) &&
          s.misreported) = true ∧
      ¬∀ emulate attempts links ops s,
        exec Scoped.step (.init emulate attempts links) ops = some s → s.Truthful := by
  have hrun : (exec Scoped.step (.init false 3 fun _ => idleLink)
      (failedScope ++ [.subCommit 0
        (.answered [.error "25P02" "current transaction is aborted" "" "" ""])])).any
      (fun s => s.world.subRolledBack 0 && decide (s.world.up = some 0) &&
        decide (s.server.tx.state = [1, 3]) && decide ((s.world.links 0).status = .inError) &&
        s.misreported) = true := by
    decide +kernel
  refine ⟨hrun, fun hall => ?_⟩
  obtain ⟨s, hs, hend⟩ := (Option.any_eq_true ..).mp hrun
  have htrue : s.misreported = false := hall false 3 _ _ s hs
  rw [htrue, Bool.and_false] at hend
  cases hend

end Upq.Transaction
