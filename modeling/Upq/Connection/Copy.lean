/-
  Connection/Copy.lean --- COPY on one connection, with the user code it calls.

  Source: `copy_in_start` to `copy_from_buffer` and `fill_copy_error` in
  `src/upq/PgConnection.cpp`; `copy_to`, `copy_to_lines` and `copy_from` in
  `include/upq/PgConnection.h`.

  What libpq, the socket and the watchdog do is data of the call, as in `RunQuery.lean`: the
  turns of each loop and the text of each failure.  A call that is still running when its
  data ends has no outcome (`none`).

  A sink or a source is a step function on a state of its own that answers or throws.  No
  function here catches an exception, so whoever throws ends every call around it.
-/
import Upq.Connection.RunQuery

set_option autoImplicit false

namespace Upq

/-! ## User code -/

/-- What `co_await sink(..)` comes to. -/
inductive Verdict where
  | keep
  | stop
  | throws
  deriving DecidableEq, Repr

/-- A sink of chunks or of lines. -/
abbrev Sink (σ : Type) : Type := σ → List Char → σ × Verdict

/-- A source of chunks; `none` = it throws. -/
abbrev Source (σ : Type) : Type := σ → σ × Option (List Char)

/-- The sink that answers by all it was given so far: any sink, seen from outside. -/
def Sink.ofHistory (answer : List (List Char) → Verdict) : Sink (List (List Char)) :=
  fun seen chunk => (seen ++ [chunk], answer (seen ++ [chunk]))

/-- The source that answers by the number of the call. -/
def Source.ofHistory (answer : Nat → Option (List Char)) : Source Nat :=
  fun n => (n + 1, answer n)

/-- How a call ended. -/
inductive Ended where
  | returned (result : PgCopyResult)
  | threw
  deriving DecidableEq, Repr

/-- An ended call: the user code's state, the connection, the bytes queued for the server. -/
structure CopyRun (σ : Type) where
  state : σ
  link : Link
  sent : List Char
  ended : Ended

/-! ## Failures -/

/-- `copy_failure` -/
def copyFailure (code : PgErrorCode) (msg : String) : PgCopyResult :=
  { ok := false, code := code, error := msg }

/-- `fill_copy_error`; a result that is not an ERROR has no error fields. -/
def fillCopyError (res : PGresult) : PgCopyResult :=
  let tmp :=
    match res with
    | .error sqlstate primary fallback detail hint =>
        serverErrorResult sqlstate primary fallback detail hint
    | _ => serverErrorResult "" "" "" "" ""
  let d := tmp.errDetail
  { ok := false, code := .serverError, errDetail := d
    error := tmp.error ++ (if d.sqlstate != "" then " [SQLSTATE " ++ d.sqlstate ++ "]" else "") ++
      (if d.detail != "" then " detail: " ++ d.detail else "") ++
      (if d.hint != "" then " hint: " ++ d.hint else "") }

/-- What `flush_outgoing` or `round_trip_input` answers; a failure with what
`io_error_message` says then. -/
inductive Io where
  | done
  | failed (timedOut : Bool) (msg : String)
  deriving DecidableEq, Repr

/-- `connected_ = false`, after the watchdog cut the wait or not. -/
def Link.drop (l : Link) (timedOut : Bool) : Link :=
  { l with usable := false, ioTimedOut := l.ioTimedOut || timedOut }

/-! ## Start -/

/-- The direction of a COPY: `PGRES_COPY_IN` or `PGRES_COPY_OUT`. -/
inductive CopyMode where
  | copyIn
  | copyOut
  deriving DecidableEq, Repr

/-- What `PQgetResult` answers to a COPY statement. -/
inductive StartReply where
  | null
  | copying (mode : CopyMode)
  | result (res : PGresult)
  deriving DecidableEq, Repr

/-- What the start of a COPY meets. -/
structure CopyStart where
  sendOk : Bool
  sendError : String
  io : Io
  reply : StartReply
  deriving DecidableEq, Repr

/-- The common text of `copy_in_start` and `copy_out_start`. -/
def copyStart (wanted : CopyMode) (sc : CopyStart) (l : Link) : Link × PgCopyResult :=
  if !l.connected then (l, copyFailure .connectionClosed "connection not OK")
  else if !sc.sendOk || l.busy then
    (l.drop false, copyFailure .socketReadFailed
      (if l.busy then "another command is already in progress" else sc.sendError))
  else
    match sc.io, sc.reply with
    | .failed timedOut msg, _ =>
        ({ l with busy := true }.drop timedOut, copyFailure .socketReadFailed msg)
    | .done, .null => (l, copyFailure .protocolCorrupt "no result after COPY start")
    | .done, .copying mode =>
        ({ l with busy := true },
          if mode == wanted then { ok := true, code := .ok } else fillCopyError .copy)
    | .done, .result res => ({ l with busy := true }, fillCopyError res)

/-- `copy_in_start` -/
def copyInStart : CopyStart → Link → Link × PgCopyResult := copyStart .copyIn

/-- `copy_out_start` -/
def copyOutStart : CopyStart → Link → Link × PgCopyResult := copyStart .copyOut

/-- A COPY that has started keeps its connection busy. -/
theorem copyStart_ok {wanted : CopyMode} {sc : CopyStart} {l : Link}
    (h : (copyStart wanted sc l).2.ok = true) :
    l.connected = true ∧ (copyStart wanted sc l).1 = { l with busy := true } := by
  unfold copyStart at h ⊢
  cases hl : l.connected with
  | false => simp [hl, copyFailure] at h
  | true =>
      simp only [hl, Bool.not_true, Bool.false_eq_true, if_false] at h ⊢
      split at h
      · cases h
      · rename_i hsend
        rw [if_neg hsend]
        refine ⟨trivial, ?_⟩
        split at h
        · cases h
        · cases h
        · rfl
        · cases h

/-! ## COPY IN -/

/-- The turns of a loop over `PQputCopyData` or `PQputCopyEnd`: queued, refused, or no room
until `flush_outgoing` has made some. -/
inductive Put where
  | queued
  | refused (msg : String)
  | full (flush : Io) (rest : Put)
  deriving DecidableEq, Repr

/-- The loop: the failure it ends with, if any. -/
def putLoop (l : Link) : Put → Link × Option PgCopyResult
  | .queued => (l, none)
  | .refused msg => (l.drop false, some (copyFailure .socketReadFailed msg))
  | .full (.failed timedOut msg) _ => (l.drop timedOut, some (copyFailure .socketReadFailed msg))
  | .full .done rest => putLoop l rest

/-- `static_cast<int>` of a `size_t` -/
def toInt (n : Nat) : Int := Int.bmod n (2 ^ 32)

/-- `copy_in_send_chunk`: the connection, the bytes queued, the result. -/
def copyInSendChunk (put : Put) (data : List Char) (l : Link) :
    Link × List Char × PgCopyResult :=
  if !l.connected then (l, [], copyFailure .connectionClosed "connection not OK")
  else
    match putLoop l put with
    | (l, some failure) => (l, [], failure)
    | (l, none) => (l, data.take (toInt data.length).toNat, { ok := true, code := .ok })

/-- What the end of a COPY IN meets: the results that are ready after it, by the message
`PQputCopyEnd` was given, whether they end in NULL, and the server's status then. -/
structure CopyFinish where
  put : Put
  io : Io
  results : Option String → List PGresult
  complete : Bool
  after : TxStatus

/-- One turn of the loop of `drain_copy_end_result`. -/
def absorbCopyEnd (out : PgCopyResult) : PGresult → PgCopyResult
  | .command affected =>
      if out.ok then { out with rowsAffected := (out.rowsAffected + affected) % 2 ^ 64 } else out
  | res => fillCopyError res

/-- `drain_copy_end_result` -/
def drainCopyEndResult (results : List PGresult) : PgCopyResult :=
  results.foldl absorbCopyEnd { ok := true, code := .ok }

/-- `copy_in_finish` -/
def copyInFinish (errorMsg : Option String) (sc : CopyFinish) (l : Link) : Link × PgCopyResult :=
  if !l.connected then (l, copyFailure .connectionClosed "connection not OK")
  else
    match putLoop l sc.put with
    | (l, some failure) => (l, failure)
    | (l, none) =>
        match sc.io with
        | .failed timedOut msg => (l.drop timedOut, copyFailure .socketReadFailed msg)
        | .done =>
            ({ l with busy := !sc.complete, status := sc.after },
              drainCopyEndResult (sc.results errorMsg))

/-! ## COPY OUT -/

/-- A turn of `copy_out_read_chunk` with nothing buffered: what the wait came to, and the
message when `PQconsumeInput` failed after it. -/
structure ReadWait where
  timedOut : Bool
  canceled : Bool
  inputError : Option String
  msg : String
  deriving DecidableEq, Repr

/-- What `PQgetCopyData` answers at last: a chunk, which is never empty, the end of the data
with what `PQgetResult` answers then, or an error. -/
inductive ReadEnd where
  | data (first : Char) (more : List Char)
  | done (reply : Option PGresult) (after : TxStatus)
  | failed (msg : String)
  deriving DecidableEq, Repr

/-- What one call of `copy_out_read_chunk` meets. -/
structure ReadChunk where
  waits : List ReadWait
  last : ReadEnd
  deriving DecidableEq, Repr

/-- The result that ends a COPY OUT. -/
def copyOutEnd (l : Link) (reply : Option PGresult) (after : TxStatus) :
    Link × Except PgCopyResult (List Char) :=
  let l := { l with busy := false, status := after }
  match reply with
  | none => (l, .error (copyFailure .protocolCorrupt "COPY OUT ended but no result"))
  | some (.command _) | some (.tuples _ _) => (l, .ok [])
  | some res =>
      let err := fillCopyError res
      (l, .error (copyFailure err.code err.error))

/-- The loop of `copy_out_read_chunk`. -/
def readLoop (l : Link) (last : ReadEnd) : List ReadWait → Link × Except PgCopyResult (List Char)
  | [] =>
      match last with
      | .data first more => (l, .ok (first :: more))
      | .done reply after => copyOutEnd l reply after
      | .failed msg => (l.drop false, .error (copyFailure .socketReadFailed msg))
  | w :: rest =>
      if w.timedOut then (l.drop true, .error (copyFailure .socketReadFailed w.msg))
      else if w.canceled then (l.drop false, .error (copyFailure .awaitCanceled "canceled"))
      else
        match w.inputError with
        | some msg => (l.drop false, .error (copyFailure .socketReadFailed msg))
        | none => readLoop l last rest

/-- `copy_out_read_chunk`; an empty chunk is the end.  The failure is a `PgWireError`, which
has a code and a message only. -/
def copyOutReadChunk (c : ReadChunk) (l : Link) : Link × Except PgCopyResult (List Char) :=
  if !l.connected then (l, .error (copyFailure .connectionClosed "connection not OK"))
  else readLoop l c.last c.waits

/-! ## The calls -/

section

variable {σ : Type}

/-- What `copy_to` returns when it has read the data to its end. -/
def copyToResult (userAborted : Bool) : PgCopyResult :=
  if userAborted then copyFailure .awaitCanceled "COPY TO aborted by sink"
  else { ok := true, code := .ok }

/-- The loop of `copy_to`; after the sink gave up it is not called again, and the data is
drained. -/
def copyToLoop (sink : Sink σ) : σ → Link → Bool → List ReadChunk → Option (CopyRun σ)
  | _, _, _, [] => none
  | st, l, userAborted, c :: rest =>
      match copyOutReadChunk c l with
      | (l, .error failure) => some ⟨st, l, [], .returned failure⟩
      | (l, .ok []) => some ⟨st, l, [], .returned (copyToResult userAborted)⟩
      | (l, .ok (first :: more)) =>
          if userAborted then copyToLoop sink st l true rest
          else
            match sink st (first :: more) with
            | (st, .keep) => copyToLoop sink st l false rest
            | (st, .stop) => copyToLoop sink st l true rest
            | (st, .throws) => some ⟨st, l, [], .threw⟩

/-- `copy_to` -/
def copyTo (sink : Sink σ) (st : σ) (start : CopyStart) (chunks : List ReadChunk) (l : Link) :
    Option (CopyRun σ) :=
  match copyOutStart start l with
  | (l, r) => if !r.ok then some ⟨st, l, [], .returned r⟩ else copyToLoop sink st l false chunks

/-- `chunk_sink` of `copy_to_lines`; its state has `carry`, the line read so far. -/
def chunkSink (lineSink : Sink σ) : Sink (σ × List Char)
  | (st, carry), [] => ((st, carry), .keep)
  | (st, carry), c :: sv =>
      if c == '\n' then
        match lineSink st carry with
        | (st, .keep) => chunkSink lineSink (st, []) sv
        | (st, .stop) => ((st, []), .stop)
        | (st, .throws) => ((st, carry), .throws)
      else chunkSink lineSink (st, carry ++ [c]) sv

/-- `copy_to_lines` -/
def copyToLines (lineSink : Sink σ) (st : σ) (start : CopyStart) (chunks : List ReadChunk)
    (l : Link) : Option (CopyRun σ) :=
  match copyTo (chunkSink lineSink) (st, []) start chunks l with
  | none => none
  | some ⟨(st, _), l, sent, .threw⟩ => some ⟨st, l, sent, .threw⟩
  | some ⟨(st, carry), l, sent, .returned r⟩ =>
      if r.ok && carry != [] then
        -- the last line has no newline
        match lineSink st carry with
        | (st, .keep) => some ⟨st, l, sent, .returned r⟩
        | (st, .stop) =>
            some ⟨st, l, sent, .returned
              { r with ok := false, code := .awaitCanceled, error := "COPY TO aborted by sink" }⟩
        | (st, .throws) => some ⟨st, l, sent, .threw⟩
      else some ⟨st, l, sent, .returned r⟩

/-- The loop of `copy_from`. -/
def copyFromLoop (source : Source σ) (fin : CopyFinish) :
    σ → Link → List Char → List Put → Option (CopyRun σ)
  | st, l, sent, puts =>
      match source st, puts with
      | (st, none), _ => some ⟨st, l, sent, .threw⟩
      | (st, some []), _ =>
          match copyInFinish none fin l with
          | (l, r) => some ⟨st, l, sent, .returned r⟩
      | (_, some (_ :: _)), [] => none
      | (st, some (first :: more)), put :: rest =>
          match copyInSendChunk put (first :: more) l with
          | (l, new, r) =>
              if r.ok then copyFromLoop source fin st l (sent ++ new) rest
              else
                some ⟨st, (copyInFinish (some "aborted: send chunk failed") fin l).1, sent ++ new,
                  .returned r⟩

/-- `copy_from` -/
def copyFrom (source : Source σ) (st : σ) (start : CopyStart) (puts : List Put)
    (fin : CopyFinish) (l : Link) : Option (CopyRun σ) :=
  match copyInStart start l with
  | (l, r) =>
      if !r.ok then some ⟨st, l, [], .returned r⟩ else copyFromLoop source fin st l [] puts

end

/-- `copy_from_buffer` -/
def copyFromBuffer (data : List Char) (start : CopyStart) (put : Put) (fin : CopyFinish)
    (l : Link) : CopyRun Unit :=
  match copyInStart start l with
  | (l, r) =>
      if !r.ok then ⟨(), l, [], .returned r⟩
      else if data.length == 0 then
        match copyInFinish none fin l with
        | (l, r) => ⟨(), l, [], .returned r⟩
      else
        match copyInSendChunk put data l with
        | (l, sent, r) =>
            if r.ok then
              match copyInFinish none fin l with
              | (l, r) => ⟨(), l, sent, .returned r⟩
            else
              ⟨(), (copyInFinish (some "aborted: send chunk failed") fin l).1, sent, .returned r⟩

end Upq
