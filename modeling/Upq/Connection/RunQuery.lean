/-
  Connection/RunQuery.lean --- one statement on one connection.

  Source: `PgConnectionLibpq::run_query`, `after_wait` and `fail_io` in
  `include/upq/PgConnection.h`; `flush_step`, `collect_step`, `absorb_result`,
  `connected`, `is_idle` and `fill_server_error_fields` in
  `src/upq/PgConnection.cpp`.

  What libpq, the socket and the pool's watchdog do during one call is a `Script`:
  the verdict of the send, the turns of the flush loop and of the collect loop with
  the results that became ready in each, and for every wait whether the watchdog
  cut it or the task was canceled.  The server is seen through its replies and
  through the transaction status of its last ReadyForQuery (`Link.status`).
-/
import Upq.Retry

set_option autoImplicit false

namespace Upq

/-! ## The connection and the server's replies -/

/-- The server's transaction status in its last ReadyForQuery. -/
inductive TxStatus where
  | idle
  | inTrans
  | inError
  deriving DecidableEq, Repr, Inhabited

/-- One `PGresult`, with the fields the client reads; an absent error field is
empty. -/
inductive PGresult where
  | tuples (columns : List String) (rows : List (List String))
  | command (affected : Nat)
  | copy
  | error (sqlstate primary fallback detail hint : String)
  deriving DecidableEq, Repr

/-- `PgConnectionLibpq` with its `PGconn`: `usable` is `connected_` together with
libpq's own status, `busy` that a reply has not been collected to its end. -/
structure Link where
  usable : Bool
  ioTimedOut : Bool
  busy : Bool
  status : TxStatus
  deriving DecidableEq, Repr

/-- `connected()` -/
def Link.connected (l : Link) : Bool := l.usable && !l.ioTimedOut

/-- `is_idle()` -/
def Link.isIdle (l : Link) : Bool := l.connected && !l.busy && decide (l.status = .idle)

/-- `PQtransactionStatus(conn) == PQTRANS_INERROR`: a busy connection answers
`PQTRANS_ACTIVE`. -/
def Link.inError (l : Link) : Bool := !l.busy && decide (l.status = .inError)

/-- A connection that is connected and idle. -/
def idleLink : Link := { usable := true, ioTimedOut := false, busy := false, status := .idle }

/-- A connection that has not been used yet. -/
def unusedLink : Link := { idleLink with usable := false }

/-! ## Folding results -/

/-- `fill_server_error_fields` into a fresh result -/
def serverErrorResult (sqlstate primary fallback detail hint : String) : QueryResult :=
  let error := if primary ≠ "" then primary else fallback
  { ok := false, code := .serverError, error := error, rowsValid := false
    errDetail :=
      { sqlstate := sqlstate, detail := detail, hint := hint, message := error
        category := classifySqlstate sqlstate } }

/-- The result of a COPY statement run through a query API. -/
def copyMisuseResult : QueryResult :=
  { ok := false, code := .protocolCorrupt, rowsValid := false
    error := "COPY cannot run through a query API; use copy_*" }

/-- `absorb_result`; `true` = collection must stop. -/
def absorbResult (res : PGresult) (out : QueryResult) : QueryResult × Bool :=
  match res with
  | .tuples columns rows =>
      if out.ok then
        ({ out with
            rows := out.rows ++ rows
            columns := if out.columns = [] then columns else out.columns
            rowsAffected := (out.rowsAffected + rows.length) % 2 ^ 64 }, false)
      else (out, false)
  | .command affected =>
      if out.ok then ({ out with rowsAffected := (out.rowsAffected + affected) % 2 ^ 64 }, false)
      else (out, false)
  | .copy => (copyMisuseResult, true)
  | .error sqlstate primary fallback detail hint =>
      (serverErrorResult sqlstate primary fallback detail hint, false)

/-- The inner loop of `collect_step`: fold the ready results, stopping at a COPY.
Returns the result, whether it stopped, and the results that were read. -/
def absorbAll : List PGresult → QueryResult → QueryResult × Bool × List PGresult
  | [], out => (out, false, [])
  | res :: rest, out =>
      match absorbResult res out with
      | (out', true) => (out', true, [res])
      | (out', false) =>
          match absorbAll rest out' with
          | (out'', stop, read) => (out'', stop, res :: read)

/-! ## One call -/

/-- The turns of the flush loop. -/
inductive Flush where
  | done
  | failed (timedOut : Bool) (msg : String)
  | wait (timedOut canceled : Bool) (rest : Flush)
  deriving DecidableEq, Repr

/-- The turns of the collect loop: `PQconsumeInput` failed, the ready results
ended in the NULL that ends the reply, or they ended with `PQisBusy`. -/
inductive Collect where
  | failed (timedOut : Bool) (msg : String)
  | finished (results : List PGresult)
  | wait (results : List PGresult) (timedOut canceled : Bool) (rest : Collect)
  deriving DecidableEq, Repr

/-- What one call of `run_query` meets.  `timeoutSuffix` is what the watchdog adds
to its message, `lateTimeout` that it cut a wait that had just ended, `stillOk`
libpq's own status after the call. -/
structure Script where
  sendOk : Bool
  sendError : String
  flush : Flush
  collect : Collect
  timeoutSuffix : String
  lateTimeout : Bool
  stillOk : Bool
  deriving DecidableEq, Repr

/-- A statement that is sent and flushed, and answered at once with these results. -/
def Script.answered (results : List PGresult) : Script :=
  ⟨true, "", .done, .finished results, "", false, true⟩

/-- A statement that is answered with one command. -/
def Script.commandDone : Script := .answered [.command 0]

/-- What one call did: the result, the connection afterwards, the results read,
and whether the reply was read to its end. -/
structure Outcome where
  result : QueryResult
  link : Link
  read : List PGresult
  complete : Bool
  deriving DecidableEq, Repr

/-- `io_error_message` when the watchdog cut the wait -/
def timeoutMessage (sc : Script) : String := "io deadline exceeded" ++ sc.timeoutSuffix

/-- `fail_io`, and the clearing of rows `run_query` does after any failure. -/
def failIo (l : Link) (out : QueryResult) (code : PgErrorCode) (msg : String)
    (read : List PGresult) : Outcome :=
  { result :=
      { out with
        ok := false, code := code, error := msg, rows := [], columns := [], rowsValid := false
        errDetail := { out.errDetail with message := msg } }
    link := { l with usable := false }
    read := read
    complete := false }

/-- The failed turn of either loop: `after_wait(Step::Failed)`. -/
def failStep (sc : Script) (l : Link) (out : QueryResult) (timedOut : Bool) (msg : String)
    (read : List PGresult) : Outcome :=
  failIo { l with ioTimedOut := l.ioTimedOut || timedOut } out .socketReadFailed
    (if l.ioTimedOut || timedOut then timeoutMessage sc else msg) read

/-- `after_wait(Step::Wait)`: the outcome when it gives up. -/
def afterWait (sc : Script) (l : Link) (out : QueryResult) (timedOut canceled : Bool)
    (read : List PGresult) : Option Outcome :=
  if l.ioTimedOut || timedOut then some (failStep sc l out timedOut "" read)
  else if canceled then some (failIo l out .awaitCanceled "canceled" read)
  else none

/-- The reply has been read to its end, or up to a COPY. -/
def finishReply (sc : Script) (l : Link) (after : List PGresult → TxStatus) (out : QueryResult)
    (stop : Bool) (read : List PGresult) : Outcome :=
  if stop then
    { result := out, link := { l with usable := false }, read := read, complete := false }
  else
    { result := out
      link :=
        { usable := l.usable && sc.stillOk, ioTimedOut := l.ioTimedOut || sc.lateTimeout
          busy := false, status := after read }
      read := read
      complete := true }

/-- The second loop of `run_query`. -/
def collectLoop (sc : Script) (after : List PGresult → TxStatus) (l : Link) :
    Collect → QueryResult → List PGresult → Outcome
  | .failed timedOut msg, out, read => failStep sc l out timedOut msg read
  | .finished results, out, read =>
      match absorbAll results out with
      | (out', stop, new) => finishReply sc l after out' stop (read ++ new)
  | .wait results timedOut canceled rest, out, read =>
      match absorbAll results out with
      | (out', true, new) => finishReply sc l after out' true (read ++ new)
      | (out', false, new) =>
          match afterWait sc l out' timedOut canceled (read ++ new) with
          | some o => o
          | none => collectLoop sc after l rest out' (read ++ new)

/-- The first loop of `run_query`. -/
def flushLoop (sc : Script) (after : List PGresult → TxStatus) (l : Link) (out : QueryResult) :
    Flush → Outcome
  | .done => collectLoop sc after { l with busy := true } sc.collect out []
  | .failed timedOut msg => failStep sc l out timedOut msg []
  | .wait timedOut canceled rest =>
      match afterWait sc l out timedOut canceled [] with
      | some o => o
      | none => flushLoop sc after l out rest

/-- `run_query`.  `after` is the status the server reports when it has answered
the statement with the given results.  libpq refuses to send on a busy
connection. -/
def runQuery (sc : Script) (after : List PGresult → TxStatus) (l : Link) : Outcome :=
  if !l.connected then
    { result := closedResult "connection not OK", link := l, read := [], complete := false }
  else if !sc.sendOk || l.busy then
    failIo l { ok := true, code := .ok } .socketReadFailed
      (if l.busy then "another command is already in progress" else sc.sendError) []
  else flushLoop sc after l { ok := true, code := .ok } sc.flush

/-! ## What a call can do -/

/-- The SQLSTATE of an ERROR. -/
def PGresult.errorState? : PGresult → Option String
  | .error sqlstate _ _ _ _ => some sqlstate
  | _ => none

/-- `out` is what the results read so far fold to. -/
structure Folded (out : QueryResult) (read : List PGresult) : Prop where
  ok : out.ok = true ↔ ∀ res ∈ read, res.errorState? = none
  state : out.errDetail.sqlstate = "" ∨
    ∃ res ∈ read, res.errorState? = some out.errDetail.sqlstate

theorem folded_start : Folded { ok := true, code := .ok } [] where
  ok := by simp
  state := Or.inl rfl

/-- Folding one more result. -/
theorem Folded.absorb {res : PGresult} {out out' : QueryResult} {read : List PGresult}
    (hf : Folded out read) (h : absorbResult res out = (out', false)) :
    Folded out' (read ++ [res]) := by
  have hkeep : ∀ {o : QueryResult}, o.ok = out.ok → o.errDetail = out.errDetail →
      res.errorState? = none → Folded o (read ++ [res]) := by
    intro o hok hdetail hres
    constructor
    · rw [hok, hf.ok]
      simp [or_imp, forall_and, hres]
    · rw [hdetail]
      rcases hf.state with hempty | ⟨r, hr, hstate⟩
      · exact Or.inl hempty
      · exact Or.inr ⟨r, List.mem_append_left _ hr, hstate⟩
  cases res with
  | tuples columns rows =>
      simp only [absorbResult] at h
      split at h <;> obtain ⟨rfl, -⟩ := Prod.mk.inj h <;> exact hkeep rfl rfl rfl
  | command affected =>
      simp only [absorbResult] at h
      split at h <;> obtain ⟨rfl, -⟩ := Prod.mk.inj h <;> exact hkeep rfl rfl rfl
  | copy => cases h
  | error sqlstate primary fallback detail hint =>
      obtain ⟨rfl, -⟩ := Prod.mk.inj h
      constructor
      · simp [serverErrorResult, or_imp, forall_and, PGresult.errorState?]
      · exact Or.inr ⟨_, List.mem_append_right _ (List.mem_singleton_self _), rfl⟩

/-- Folding the ready results of one turn. -/
theorem Folded.absorbAll {rs new read : List PGresult} {out out' : QueryResult}
    (hf : Folded out read) (h : Upq.absorbAll rs out = (out', false, new)) :
    Folded out' (read ++ new) := by
  induction rs generalizing out out' read new with
  | nil =>
      obtain ⟨rfl, -, rfl⟩ : out = out' ∧ false = false ∧ [] = new := by
        simpa [Upq.absorbAll] using h
      simpa using hf
  | cons res rest ih =>
      unfold Upq.absorbAll at h
      split at h
      · cases h
      · rename_i out₁ hres
        split at h
        rename_i out₂ stop read₂ hrest
        obtain ⟨rfl, rfl, rfl⟩ : out₂ = out' ∧ stop = false ∧ res :: read₂ = new := by
          simpa using h
        have := ih (hf.absorb hres) hrest
        simpa using this

/-- A turn that stops has met a COPY. -/
theorem absorbAll_stop {rs new : List PGresult} {out out' : QueryResult}
    (h : Upq.absorbAll rs out = (out', true, new)) : out' = copyMisuseResult := by
  induction rs generalizing out out' new with
  | nil => cases h
  | cons res rest ih =>
      unfold Upq.absorbAll at h
      split at h
      · rename_i out₁ hres
        obtain ⟨rfl, -⟩ := Prod.mk.inj h
        cases res with
        | copy => exact (Prod.mk.inj hres).1.symm
        | tuples _ _ => simp only [absorbResult] at hres; split at hres <;> cases hres
        | command _ => simp only [absorbResult] at hres; split at hres <;> cases hres
        | error _ _ _ _ _ => cases hres
      · split at h
        rename_i out₂ stop read₂ hrest
        obtain ⟨rfl, rfl, -⟩ : out₂ = out' ∧ stop = true ∧ res :: read₂ = new := by
          simpa using h
        exact ih hrest

/-- What a call of `run_query` on `l` can come to. -/
inductive Ran (sc : Script) (after : List PGresult → TxStatus) (l : Link) (o : Outcome) : Prop where
  -- it found the connection closed
  | closed (hl : l.connected = false) (hlink : o.link = l) (hread : o.read = [])
      (hcomplete : o.complete = false) (hres : o.result = closedResult "connection not OK")
  -- it gave the connection up
  | gaveUp (hl : l.connected = true) (husable : o.link.usable = false)
      (hcomplete : o.complete = false) (hok : o.result.ok = false) (hcode : o.result.code ≠ .ok)
      (hstate : o.result.errDetail.sqlstate = "" ∨
        ∃ res ∈ o.read, res.errorState? = some o.result.errDetail.sqlstate)
  -- the server's reply was read to its end
  | answered (hl : l.connected = true) (hbusy : l.busy = false) (hsend : sc.sendOk = true)
      (hcomplete : o.complete = true) (hfolded : Folded o.result o.read)
      (hlink : o.link =
        { usable := l.usable && sc.stillOk, ioTimedOut := l.ioTimedOut || sc.lateTimeout
          busy := false, status := after o.read })

section

variable {sc : Script} {after : List PGresult → TxStatus} {l : Link} {out : QueryResult}
  {read : List PGresult}

theorem ran_failIo (hl : l.connected = true) {l' : Link} {code : PgErrorCode} {msg : String}
    (hcode : code ≠ .ok) (hf : Folded out read) : Ran sc after l (failIo l' out code msg read) :=
  .gaveUp hl rfl rfl rfl hcode hf.state

theorem ran_failStep (hl : l.connected = true) {l' : Link} {timedOut : Bool} {msg : String}
    (hf : Folded out read) : Ran sc after l (failStep sc l' out timedOut msg read) :=
  ran_failIo hl (by decide) hf

theorem ran_afterWait (hl : l.connected = true) {l' : Link} {timedOut canceled : Bool}
    {o : Outcome} (hf : Folded out read) (h : afterWait sc l' out timedOut canceled read = some o) :
    Ran sc after l o := by
  unfold afterWait at h
  split at h
  · rw [← Option.some.inj h]
    exact ran_failStep hl hf
  · split at h
    · rw [← Option.some.inj h]
      exact ran_failIo hl (by decide) hf
    · cases h

theorem ran_copy (hl : l.connected = true) {l' : Link} {rs new : List PGresult}
    {out' : QueryResult} (h : absorbAll rs out = (out', true, new)) :
    Ran sc after l (finishReply sc l' after out' true read) := by
  rw [absorbAll_stop h]
  have hcode : PgErrorCode.protocolCorrupt ≠ .ok := by decide
  exact .gaveUp hl rfl rfl rfl hcode (Or.inl rfl)

theorem ran_collectLoop (hl : l.connected = true) (hbusy : l.busy = false)
    (hsend : sc.sendOk = true) (c : Collect) (hf : Folded out read) :
    Ran sc after l (collectLoop sc after { l with busy := true } c out read) := by
  induction c generalizing out read with
  | failed timedOut msg => exact ran_failStep hl hf
  | finished results =>
      unfold collectLoop
      split
      rename_i out' stop new habs
      cases stop with
      | true => exact ran_copy hl habs
      | false => exact .answered hl hbusy hsend rfl (hf.absorbAll habs) rfl
  | wait results timedOut canceled rest ih =>
      unfold collectLoop
      split
      · rename_i out' new habs
        exact ran_copy hl habs
      · rename_i out' new habs
        have hf' := hf.absorbAll habs
        split
        · rename_i o ho
          exact ran_afterWait hl hf' ho
        · exact ih hf'

theorem ran_flushLoop (hl : l.connected = true) (hbusy : l.busy = false)
    (hsend : sc.sendOk = true) (f : Flush) (hf : Folded out []) :
    Ran sc after l (flushLoop sc after l out f) := by
  induction f with
  | done => exact ran_collectLoop hl hbusy hsend sc.collect hf
  | failed timedOut msg => exact ran_failStep hl hf
  | wait timedOut canceled rest ih =>
      unfold flushLoop
      split
      · rename_i o ho
        exact ran_afterWait hl hf ho
      · exact ih

end

/-- **Call inversion.**  A call finds the connection closed, gives it up, or reads
the server's reply to its end. -/
theorem runQuery_ran (sc : Script) (after : List PGresult → TxStatus) (l : Link) :
    Ran sc after l (runQuery sc after l) := by
  unfold runQuery
  split
  · rename_i hl
    exact .closed (by simpa using hl) rfl rfl rfl rfl
  · rename_i hl
    have hl : l.connected = true := by simpa using hl
    split
    · exact ran_failIo hl (by decide) folded_start
    · rename_i hsend
      obtain ⟨hsend, hbusy⟩ : sc.sendOk = true ∧ l.busy = false := by simpa using hsend
      exact ran_flushLoop hl hbusy hsend sc.flush folded_start

/-- A successful call has read the whole reply, on a connection that was free. -/
theorem runQuery_ok {sc : Script} {after : List PGresult → TxStatus} {l : Link}
    (h : (runQuery sc after l).result.ok = true) :
    l.connected = true ∧ l.busy = false ∧ (runQuery sc after l).complete = true ∧
      (∀ res ∈ (runQuery sc after l).read, res.errorState? = none) ∧
      (runQuery sc after l).link.busy = false ∧
      (runQuery sc after l).link.status = after (runQuery sc after l).read := by
  cases runQuery_ran sc after l with
  | closed _ _ _ _ hres => rw [hres] at h; cases h
  | gaveUp _ _ _ hok _ _ => rw [hok] at h; cases h
  | answered hl hbusy _ hcomplete hfolded hlink =>
      exact ⟨hl, hbusy, hcomplete, hfolded.ok.mp h, by rw [hlink], by rw [hlink]⟩

/-- A call on a connection that is connected succeeds exactly when it has read the whole
reply and no ERROR in it. -/
theorem runQuery_ok_eq (sc : Script) (after : List PGresult → TxStatus) {l : Link}
    (hl : l.connected = true) :
    (runQuery sc after l).result.ok =
      ((runQuery sc after l).complete &&
        ((runQuery sc after l).read.filterMap PGresult.errorState?).isEmpty) := by
  cases runQuery_ran sc after l with
  | closed hclosed _ _ _ _ => exact absurd (hclosed.symm.trans hl) (by decide)
  | gaveUp _ _ hcomplete hok _ _ => rw [hok, hcomplete, Bool.false_and]
  | answered _ _ _ hcomplete hfolded _ =>
      rw [hcomplete, Bool.true_and, Bool.eq_iff_iff, hfolded.ok, List.isEmpty_iff,
        List.filterMap_eq_nil_iff]

/-- A connection that is still connected after a call was connected before it, and
the call has read the whole reply. -/
theorem runQuery_connected {sc : Script} {after : List PGresult → TxStatus} {l : Link}
    (h : (runQuery sc after l).link.connected = true) :
    l.connected = true ∧ l.busy = false ∧ (runQuery sc after l).complete = true ∧
      (runQuery sc after l).link.busy = false ∧
      (runQuery sc after l).link.status = after (runQuery sc after l).read := by
  cases runQuery_ran sc after l with
  | closed hl hlink _ _ _ => rw [hlink, hl] at h; cases h
  | gaveUp _ husable _ _ _ _ => simp [Link.connected, husable] at h
  | answered hl hbusy _ hcomplete _ hlink =>
      exact ⟨hl, hbusy, hcomplete, by rw [hlink], by rw [hlink]⟩

/-- The SQLSTATE of a result comes from an ERROR that was read. -/
theorem runQuery_sqlstate (sc : Script) (after : List PGresult → TxStatus) (l : Link) :
    (runQuery sc after l).result.errDetail.sqlstate = "" ∨
      ∃ res ∈ (runQuery sc after l).read,
        res.errorState? = some (runQuery sc after l).result.errDetail.sqlstate := by
  cases runQuery_ran sc after l with
  | closed _ _ _ _ hres => rw [hres]; exact Or.inl rfl
  | gaveUp _ _ _ _ _ hstate => exact hstate
  | answered _ _ _ _ hfolded _ => exact hfolded.state

end Upq
