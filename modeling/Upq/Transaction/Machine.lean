/-
  Transaction/Machine.lean --- `PgTransaction` with its savepoints and streams.

  Source: `include/upq/PgTransaction.h`, `src/upq/PgTransaction.cpp`, and the
  borrowed streams of `src/upq/PgRowStream.cpp`.

  A `World` is one `PgTransaction` object, its savepoint and stream objects, and the
  connections as this object sees them.  A public operation is a function on worlds
  that takes what its steps meet: the connection the pool grants, the script of
  each statement, whether a backoff sleep ran to its end.  A retry loop takes them
  as a function of the attempt.

  `Stmt.after` is what is assumed of the server: which transaction status it reports
  after each kind of statement.  Statements that are not transaction control never
  open or close a transaction.

  The log records, in order, connections taken and handed back, transactions begun,
  and statements: `issued` on a connection that was connected, `refused` without
  one, `stale` through a stream of an earlier transaction.
-/
import Mathlib.Logic.Function.Basic
import Upq.Pool.Run

set_option autoImplicit false

namespace Upq.Transaction

open Upq.Pool (HandBack)

/-! ## Statements and the server -/

/-- The kinds of statements the object sends. -/
inductive Stmt where
  | begin
  | commit
  | rollback
  | abort
  | savepoint
  | release
  | rollbackTo
  | other
  deriving DecidableEq, Repr

/-- The reply holds an ERROR. -/
def hasError (read : List PGresult) : Bool := read.any fun res => res.errorState?.isSome

/-- The status the server reports after a statement it answered with `read`. -/
def Stmt.after (k : Stmt) (before : TxStatus) (read : List PGresult) : TxStatus :=
  match k, before with
  | .begin, .idle => if hasError read then .idle else .inTrans
  | .commit, _ | .rollback, _ | .abort, _ => .idle
  | .rollbackTo, .inError => if hasError read then .inError else .inTrans
  | _, .idle => .idle
  | _, .inTrans => if hasError read then .inError else .inTrans
  | _, .inError => .inError

/-! ## State -/

/-- What the log records.  A statement `issued` on `c` comes with the server's status
before it, whether its reply was read to its end, and the SQLSTATEs of the ERRORs
read. -/
inductive Entry where
  | acquired (c : Nat)
  | handedBack (c : Nat) (how : HandBack)
  | began (c : Nat)
  | issued (c : Nat) (k : Stmt) (before : TxStatus) (complete : Bool) (errors : List String)
  | refused
  | stale (c : Nat)
  deriving DecidableEq, Repr

/-- A borrowed `PgRowStream`, with the number of transactions begun when it was
opened. -/
structure Stream where
  conn : Option Nat
  active : Bool
  exhausted : Bool
  epoch : Nat
  deriving DecidableEq, Repr

/-- A `PgSubtransaction`. -/
structure Sub where
  active : Bool
  committed : Bool
  rolledBack : Bool
  deriving DecidableEq, Repr

/-- One `PgTransaction` and what it works with; `attempts` is the pool's
`transient_retry_attempts`, `epoch` the number of transactions begun. -/
structure World where
  emulate : Bool
  attempts : Nat
  conn : Option Nat
  active : Bool
  committed : Bool
  rolledBack : Bool
  lastCommitError : Option PgOpError
  links : Nat → Link
  streams : List Stream
  subs : List Sub
  epoch : Nat
  log : List Entry

/-- A new object; `emulate` is `read_only && !deferrable && !force_real_begin`. -/
def World.init (emulate : Bool) (attempts : Nat) (links : Nat → Link) : World :=
  { emulate, attempts, links, conn := none, active := false, committed := false
    rolledBack := false, lastCommitError := none, streams := [], subs := [], epoch := 0, log := [] }

/-! ## The connection -/

/-- `take_idle` or `acquire_connection` grants `c`, idle; `up` is what `connected()`
answers right after. -/
def World.acquire (w : World) (c : Nat) (up : Bool) : World :=
  { w with
    conn := some c
    links := Function.update w.links c ⟨up, false, false, .idle⟩
    log := w.log ++ [.acquired c] }

/-- `pool_->mark_dead(conn_); conn_.reset()` -/
def World.markDead (w : World) : World :=
  match w.conn with
  | none => w
  | some c =>
      { w with
        conn := none
        links := Function.update w.links c { w.links c with usable := false }
        log := w.log ++ [.handedBack c .markDead] }

/-- The connection goes back through `release_connection` or
`release_connection_async`. -/
def World.release (w : World) (how : HandBack) : World :=
  match w.conn with
  | none => w
  | some c => { w with conn := none, log := w.log ++ [.handedBack c how] }

/-- `release_now` -/
def World.releaseNow (w : World) : World × Bool :=
  match w.conn with
  | none => (w, true)
  | some c =>
      if (w.links c).connected && !(w.links c).isIdle then (w, false)
      else (w.release .release, true)

/-- `if (!release_now()) co_await pool_->release_connection_async(std::move(conn_))` -/
def World.giveBack (w : World) : World :=
  match w.releaseNow with
  | (w', true) => w'
  | (w', false) => w'.release .releaseAsync

/-- `drop_connection` -/
def World.dropConnection (w : World) : World :=
  { w.markDead with active := false, rolledBack := true, committed := false }

/-- The connection, if there is one and it is connected. -/
def World.up (w : World) : Option Nat :=
  match w.conn with
  | none => none
  | some c => if (w.links c).connected then some c else none

/-- The connection of an active transaction that is connected: the negation of
`!active_ || !conn_ || !conn_->connected()`. -/
def World.live (w : World) : Option Nat := if w.active then w.up else none

/-- `run_query` of a statement of kind `k` on `c`. -/
def World.query (w : World) (c : Nat) (k : Stmt) (sc : Script) : World × QueryResult :=
  let l := w.links c
  let o := runQuery sc (k.after l.status) l
  ({ w with
      links := Function.update w.links c o.link
      log := w.log ++
        [if l.connected then
          .issued c k l.status o.complete (o.read.filterMap PGresult.errorState?)
        else .refused] },
    o.result)

/-- A statement that the caller refuses. -/
def World.refuse (w : World) : World := { w with log := w.log ++ [.refused] }

/-! ## begin -/

/-- What one turn of `open` meets: the connection granted with its `connected()`,
the script of BEGIN, the backoff sleep. -/
structure OpenTurn where
  grant : Option (Nat × Bool)
  script : Script
  slept : Bool

/-- `detail::kAcquireFailed` -/
def acquireFailed : PgOpError :=
  { code := .connectionClosed, error := "failed to acquire connection from pool" }

/-- The transaction is open on its connection. -/
def World.activate (w : World) : World :=
  { w with active := true, committed := false, rolledBack := false, lastCommitError := none }

/-- BEGIN succeeded on `c`. -/
def World.began (w : World) (c : Nat) : World :=
  { w with epoch := w.epoch + 1, log := w.log ++ [.began c] }

/-- How a turn of a retry loop ends: the loop is left, or it is tried again if an
attempt is left. -/
inductive Turn (α : Type) where
  | done (w : World) (r : α)
  | again (w : World) (r : α)

/-- The object after a BEGIN that failed for good. -/
def World.notBegun (w : World) : World :=
  { w with active := false, committed := false, rolledBack := false }

/-- One turn of `open`. -/
def openTurn (turn : OpenTurn) (w : World) : Turn (Option PgOpError) :=
  match turn.grant with
  | none => .done w (some acquireFailed)
  | some (c, up) =>
      let w := w.acquire c up
      if !(w.links c).connected then
        .done w.markDead (some { code := .connectionClosed, error := "connection not OK" })
      else if w.emulate then .done w.activate none
      else
        match w.query c .begin turn.script with
        | (w, r) =>
            if r.ok then .done (w.began c).activate none
            else if isTransientPoolerError r && turn.slept then
              .again w.markDead (some (toOpError r))
            else .done w.markDead.notBegun (some (toOpError r))

/-- The loop of `open`; `remaining` is `transient_retry_attempts - 1 - attempt`. -/
def openLoop (env : Nat → OpenTurn) : Nat → Nat → World → World × Option PgOpError
  | remaining, attempt, w =>
      match openTurn (env attempt) w with
      | .done w r => (w, r)
      | .again w r =>
          match remaining with
          | 0 => (w.notBegun, r)
          | remaining + 1 => openLoop env remaining (attempt + 1) w

/-- `begin` / `begin_errored` -/
def World.begin (w : World) (env : Nat → OpenTurn) : World × Option PgOpError :=
  if w.active then (w, none) else openLoop env (w.attempts - 1) 0 w

/-! ## commit, rollback, finish -/

/-- `end_with` -/
def World.endWith (w : World) (k : Stmt) (sc : Script) : World :=
  let w :=
    match (if w.emulate then none else w.up) with
    | none => w
    | some c =>
        match w.query c k sc with
        | (w, r) => if isFatalConnectionError r then w.markDead else w
  World.giveBack { w with committed := false, rolledBack := true, active := false }

/-- `last_commit_error_` of an aborted transaction -/
def abortedError : PgOpError :=
  { code := .serverError
    error := "transaction is aborted (a statement failed); COMMIT rolled it back"
    errDetail :=
      { sqlstate := "25P02", message := "current transaction is aborted"
        category := .transactionState } }

/-- `last_commit_error_` of a transaction without a connection -/
def connectionLostError : PgOpError :=
  { code := .connectionClosed, error := "connection lost in transaction" }

/-- `commit`: `sc` is the script of COMMIT, `scEnd` that of the ROLLBACK sent instead
when the transaction is aborted. -/
def World.commit (w : World) (sc scEnd : Script) : World × Bool :=
  if !w.active then (w, false)
  else
    match w.up with
    | none =>
        ({ w.dropConnection with lastCommitError := some connectionLostError }, false)
    | some c =>
        let w := { w with lastCommitError := none }
        if w.emulate then
          (World.giveBack { w with committed := true, rolledBack := false, active := false }, true)
        else if (w.links c).inError then
          (World.endWith { w with lastCommitError := some abortedError } .rollback scEnd, false)
        else
          match w.query c .commit sc with
          | (w, r) =>
              let w :=
                { w with
                  active := false, committed := r.ok, rolledBack := !r.ok
                  lastCommitError := if r.ok then w.lastCommitError else some (toOpError r) }
              (if isFatalConnectionError r then w.markDead else w.giveBack, r.ok)

/-- `rollback` and `abort` -/
def World.rollback (w : World) (k : Stmt) (sc : Script) : World :=
  if w.active then w.endWith k sc else w

/-- `finish` -/
def World.finish (w : World) (sc : Script) : World :=
  if w.active then w.endWith .rollback sc else w.release .releaseAsync

/-- `~PgTransaction` -/
def World.destroy (w : World) : World := w.markDead

/-! ## Statements -/

/-- `PgTransaction::Precheck` -/
inductive Precheck where
  | dropDeadConnection
  | keepState
  deriving DecidableEq, Repr

/-- What one turn of `run` meets: the statement's script, and for a re-run in
emulated mode the backoff sleep and the connection granted. -/
structure RunTurn where
  script : Script
  slept : Bool
  grant : Option (Nat × Bool)

/-- `reacquire_for_transient_retry` -/
def World.reacquire (w : World) (turn : RunTurn) : World × Bool :=
  let w := w.markDead
  if turn.slept then
    match turn.grant with
    | none => (w.dropConnection, false)
    | some (c, up) =>
        let w := w.acquire c up
        if (w.links c).connected then (w, true) else (w.dropConnection, false)
  else (w, false)

/-- One turn of `PgTransaction::run`.  A statement that never started is tried again
only in emulated mode, on a connection that `again` still has to take. -/
def runTurn (pre : Precheck) (turn : RunTurn) (w : World) : Turn QueryResult :=
  match w.live with
  | some c =>
      match w.query c .other turn.script with
      | (w, r) =>
          if w.emulate && isTransientPoolerError r then .again w r
          else .done (if isFatalConnectionError r then w.dropConnection else w) r
  | none =>
      if w.active && w.conn.isSome && decide (pre = .dropDeadConnection) then
        .done w.refuse.dropConnection (closedResult "connection lost in transaction")
      else .done w.refuse notActiveResult

/-- The loop of `PgTransaction::run`; `remaining` is
`transient_retry_attempts - 1 - attempt`. -/
def runLoop (pre : Precheck) (env : Nat → RunTurn) : Nat → Nat → World → World × QueryResult
  | remaining, attempt, w =>
      match runTurn pre (env attempt) w with
      | .done w r => (w, r)
      | .again w r =>
          match remaining with
          | 0 => (if isFatalConnectionError r then w.dropConnection else w, r)
          | remaining + 1 =>
              match w.reacquire (env attempt) with
              | (w, true) => runLoop pre env remaining (attempt + 1) w
              | (w, false) => (w, r)

/-- `query` and the `query_reflect_expected` family -/
def World.run (w : World) (pre : Precheck) (env : Nat → RunTurn) : World × QueryResult :=
  runLoop pre env (w.attempts - 1) 0 w

/-- Operations that hand one statement to the connection and leave the object alone:
`query_reflect`, `export_snapshot`, and `set_snapshot` of a well-formed id. -/
def World.plain (w : World) (sc : Script) : World :=
  match w.live with
  | none => w.refuse
  | some c => (w.query c .other sc).1

/-- What a `copy_*` call comes to: its verdict and code, the connection after it, and
the SQLSTATEs of the ERRORs read.  A COPY that was not read to its end leaves the
connection busy. -/
structure CopyOutcome where
  ok : Bool
  code : PgErrorCode
  usable : Bool
  timedOut : Bool
  busy : Bool
  errors : List String
  deriving DecidableEq, Repr

/-- The connection after a COPY; libpq refuses to start one on a busy connection. -/
def CopyOutcome.link (o : CopyOutcome) (l : Link) : Link :=
  { usable := l.usable && o.usable && !l.busy
    ioTimedOut := l.ioTimedOut || o.timedOut
    busy := l.busy || o.busy
    status := Stmt.other.after l.status (o.errors.map fun s => .error s "" "" "" "") }

/-- `copy_to`, `copy_to_lines`, `copy_from`, `copy_from_buffer` with `after_copy` -/
def World.copy (w : World) (o : CopyOutcome) : World :=
  match w.live with
  | none => w.refuse
  | some c =>
      let l := w.links c
      let w :=
        { w with
          links := Function.update w.links c (o.link l)
          log := w.log ++ [.issued c .other l.status (!o.busy) o.errors] }
      if !o.ok && (decide (o.code = .socketReadFailed) || decide (o.code = .connectionClosed)) then
        w.dropConnection
      else w

/-! ## Streams -/

/-- `PgTransaction::stream` -/
def World.stream (w : World) (sc : Script) : World :=
  match w.live with
  | none => w.refuse
  | some c =>
      match w.query c .other sc with
      | (w, r) =>
          if r.ok then
            { w with
              streams := w.streams ++ [{ conn := some c, active := true, exhausted := false
                                         epoch := w.epoch }] }
          else if isFatalConnectionError r then w.dropConnection
          else w

/-- A statement sent through a stream. -/
def World.queryVia (w : World) (st : Stream) (c : Nat) (sc : Script) : World × QueryResult :=
  if st.epoch = w.epoch then w.query c .other sc
  else
    match w.query c .other sc with
    | (w', r) => ({ w' with log := w.log ++ [.stale c] }, r)

/-- `PgRowStream::fetch` of stream `i` -/
def World.fetch (w : World) (i : Nat) (sc : Script) : World :=
  match w.streams[i]? with
  | none => w
  | some st =>
      match st.conn with
      | none => w
      | some c =>
          if !st.active || st.exhausted then w
          else
            match w.queryVia st c sc with
            | (w, r) =>
                { w with
                  streams := w.streams.set i
                    { st with exhausted := decide (r.ok = false) || decide (r.rows = []) } }

/-- `PgRowStream::close` of stream `i` -/
def World.closeStream (w : World) (i : Nat) (sc : Script) : World :=
  match w.streams[i]? with
  | none => w
  | some st =>
      if !st.active then w
      else
        match st.conn with
        | none => { w with streams := w.streams.set i { st with active := false } }
        | some c =>
            if !(w.links c).connected then
              { w with streams := w.streams.set i { st with active := false } }
            else
              match w.queryVia st c sc with
              | (w, _) =>
                  { w with streams := w.streams.set i { st with active := false, conn := none } }

/-! ## Savepoints -/

/-- `PgSubtransaction::run_control` on the connection `c` -/
def World.runControl (w : World) (c : Nat) (k : Stmt) (sc : Script) : World × Bool :=
  match w.query c k sc with
  | (w, r) => (if !r.ok && isFatalConnectionError r then w.dropConnection else w, r.ok)

/-- Set the flags of savepoint object `i`. -/
def World.setSub (w : World) (i : Nat) (sub : Sub) : World := { w with subs := w.subs.set i sub }

/-- `make_subtx` -/
def World.makeSubtx (w : World) : World :=
  { w with subs := w.subs ++ [{ active := false, committed := false, rolledBack := false }] }

/-- `PgSubtransaction::begin` -/
def World.subBegin (w : World) (i : Nat) (sc : Script) : World :=
  match (if w.emulate then none else w.live) with
  | none => w
  | some c =>
      match w.runControl c .savepoint sc with
      | (w, true) => w.setSub i { active := true, committed := false, rolledBack := false }
      | (w, false) => w

/-- `PgSubtransaction::commit` -/
def World.subCommit (w : World) (i : Nat) (sc : Script) : World :=
  match w.subs[i]? with
  | none => w
  | some sub =>
      if !sub.active then w
      else
        match w.up with
        | none => w.setSub i { active := false, committed := false, rolledBack := true }
        | some c =>
            if w.emulate then w
            else
              match w.runControl c .release sc with
              | (w, ok) => w.setSub i { active := false, committed := ok, rolledBack := !ok }

/-- `PgSubtransaction::rollback` -/
def World.subRollback (w : World) (i : Nat) (sc : Script) : World :=
  match w.subs[i]? with
  | none => w
  | some sub =>
      if !sub.active then w
      else
        let w :=
          match (if w.emulate then none else w.up) with
          | none => w
          | some c => (w.runControl c .rollbackTo sc).1
        w.setSub i { active := false, committed := false, rolledBack := true }

/-! ## Public operations -/

/-- A public operation with what its steps meet. -/
inductive Op where
  | begin (env : Nat → OpenTurn)
  | run (pre : Precheck) (env : Nat → RunTurn)
  | plain (sc : Script)
  | copy (o : CopyOutcome)
  | stream (sc : Script)
  | fetch (i : Nat) (sc : Script)
  | closeStream (i : Nat) (sc : Script)
  | makeSubtx
  | subBegin (i : Nat) (sc : Script)
  | subCommit (i : Nat) (sc : Script)
  | subRollback (i : Nat) (sc : Script)
  | commit (sc scEnd : Script)
  | rollback (sc : Script)
  | abort (sc : Script)
  | finish (sc : Script)

/-- One public operation. -/
def World.apply (w : World) : Op → World
  | .begin env => (w.begin env).1
  | .run pre env => (w.run pre env).1
  | .plain sc => w.plain sc
  | .copy o => w.copy o
  | .stream sc => w.stream sc
  | .fetch i sc => w.fetch i sc
  | .closeStream i sc => w.closeStream i sc
  | .makeSubtx => w.makeSubtx
  | .subBegin i sc => w.subBegin i sc
  | .subCommit i sc => w.subCommit i sc
  | .subRollback i sc => w.subRollback i sc
  | .commit sc scEnd => (w.commit sc scEnd).1
  | .rollback sc => w.rollback .rollback sc
  | .abort sc => w.rollback .abort sc
  | .finish sc => w.finish sc

/-- A sequence of public operations. -/
def World.applyAll (w : World) (ops : List Op) : World := ops.foldl World.apply w

/-! ## Rules for the two retry loops -/

@[simp] theorem acquire_connected (w : World) (c : Nat) (up : Bool) :
    ((w.acquire c up).links c).connected = up := by
  simp [World.acquire, Link.connected]

/-- What one turn of `open` can come to. -/
inductive Opened (w : World) : Turn (Option PgOpError) → Prop where
  | denied : Opened w (.done w (some acquireFailed))
  | down (c : Nat) (r : Option PgOpError) : Opened w (.done (w.acquire c false).markDead r)
  | emulated (c : Nat) (hemu : w.emulate = true) : Opened w (.done (w.acquire c true).activate none)
  | opened (c : Nat) (sc : Script) (hemu : w.emulate = false)
      (hok : ((w.acquire c true).query c .begin sc).2.ok = true) :
      Opened w (.done (((w.acquire c true).query c .begin sc).1.began c).activate none)
  | again (c : Nat) (sc : Script) (r : Option PgOpError) :
      Opened w (.again ((w.acquire c true).query c .begin sc).1.markDead r)
  | failed (c : Nat) (sc : Script) (r : Option PgOpError) :
      Opened w (.done ((w.acquire c true).query c .begin sc).1.markDead.notBegun r)

theorem openTurn_opened (turn : OpenTurn) (w : World) : Opened w (openTurn turn w) := by
  unfold openTurn
  split
  · exact .denied
  · rename_i c up hgrant
    dsimp only
    rw [acquire_connected]
    cases up with
    | false => exact .down c _
    | true =>
        split
        · contradiction
        · split
          · exact .emulated c ‹_›
          · rename_i hemu
            split
            · exact .opened c turn.script (Bool.eq_false_iff.mpr hemu) ‹_›
            · split
              · exact .again c turn.script _
              · exact .failed c turn.script _

/-- **Rule for `open`.**  What a turn keeps on the way to the next, and makes of the
object on the way out, the loop does. -/
theorem openLoop_rule {env : Nat → OpenTurn} (P : World → Prop)
    (Q : World → Option PgOpError → Prop)
    (hdone : ∀ w w' r, P w → Opened w (.done w' r) → Q w' r)
    (hagain : ∀ w w' r, P w → Opened w (.again w' r) → P w' ∧ Q w'.notBegun r)
    (remaining attempt : Nat) (w : World) (hw : P w) :
    Q (openLoop env remaining attempt w).1 (openLoop env remaining attempt w).2 := by
  fun_induction openLoop env remaining attempt w with
  | case1 remaining attempt w w' r heq =>
      exact hdone w w' r hw (heq ▸ openTurn_opened (env attempt) w)
  | case2 attempt w w' r heq =>
      exact (hagain w w' r hw (heq ▸ openTurn_opened (env attempt) w)).2
  | case3 attempt w w' r heq remaining ih =>
      exact ih (hagain w w' r hw (heq ▸ openTurn_opened (env attempt) w)).1

theorem active_of_live {w : World} {c : Nat} (h : w.live = some c) : w.active = true := by
  unfold World.live at h
  split at h
  · assumption
  · cases h

/-- `D` of the way out, `A` of the way to another try. -/
def Turn.Sat {α : Type} (D A : World → Prop) : Turn α → Prop
  | .done w _ => D w
  | .again w _ => A w

section RunRule

variable {P : World → Prop} (hrefuse : ∀ w, P w → w.live = none → P w.refuse)
  (hdrop : ∀ w, P w → P w.dropConnection)
  (hquery : ∀ w c sc, P w → w.live = some c → P (w.query c .other sc).1)
  (hreplace : ∀ w, P w → w.active = true → w.emulate = true →
    P w.markDead ∧ ∀ d up, P (w.markDead.acquire d up))

include hrefuse hdrop hquery in
theorem runTurn_rule (pre : Precheck) (turn : RunTurn) (w : World) (hw : P w) :
    (runTurn pre turn w).Sat P fun w' => P w' ∧ w'.active = true ∧ w'.emulate = true := by
  unfold runTurn
  cases hlive : w.live with
  | none =>
      dsimp only
      split
      · exact hdrop _ (hrefuse w hw hlive)
      · exact hrefuse w hw hlive
  | some c =>
      have hw' := hquery w c turn.script hw hlive
      dsimp only
      split
      · rename_i hagain
        have hact : w.active = true := active_of_live hlive
        exact ⟨hw', hact, (Bool.and_eq_true_iff.mp hagain).1⟩
      · change P (if _ then _ else _)
        split
        · exact hdrop _ hw'
        · exact hw'

include hdrop hreplace in
theorem reacquire_rule (turn : RunTurn) (w : World) (hw : P w) (hact : w.active = true)
    (hemu : w.emulate = true) : P (w.reacquire turn).1 := by
  obtain ⟨hdead, hacq⟩ := hreplace w hw hact hemu
  unfold World.reacquire
  dsimp only
  split
  · split
    · exact hdrop _ hdead
    · rename_i d up hgrant
      split
      · exact hacq d up
      · exact hdrop _ (hacq d up)
  · exact hdead

include hrefuse hdrop hquery hreplace in
/-- **Rule for `run`.**  What the steps of a turn keep, the loop keeps; a connection
is replaced only in emulated mode. -/
theorem runLoop_rule {pre : Precheck} {env : Nat → RunTurn} (remaining attempt : Nat) (w : World)
    (hw : P w) : P (runLoop pre env remaining attempt w).1 := by
  have hagain : ∀ {attempt : Nat} {w w' : World} {r : QueryResult}, P w →
      runTurn pre (env attempt) w = .again w' r → P w' ∧ P (w'.reacquire (env attempt)).1 := by
    intro attempt w w' r hw heq
    have hturn := runTurn_rule hrefuse hdrop hquery pre (env attempt) w hw
    rw [heq] at hturn
    exact ⟨hturn.1,
      reacquire_rule hdrop hreplace (env attempt) w' hturn.1 hturn.2.1 hturn.2.2⟩
  fun_induction runLoop pre env remaining attempt w with
  | case1 remaining attempt w w' r heq =>
      have hturn := runTurn_rule hrefuse hdrop hquery pre (env attempt) w hw
      rw [heq] at hturn
      exact hturn
  | case2 attempt w w' r heq =>
      have hkept := (hagain hw heq).1
      dsimp only
      split
      · exact hdrop _ hkept
      · exact hkept
  | case3 attempt w w' r heq remaining w'' hre ih =>
      have hnext := (hagain hw heq).2
      rw [hre] at hnext
      exact ih hnext
  | case4 attempt w w' r heq remaining w'' hre =>
      have hnext := (hagain hw heq).2
      rw [hre] at hnext
      exact hnext

end RunRule

end Upq.Transaction
