/-
  Types.lean --- error codes, error details, results and per-query options.

  Source: `include/upq/PgTypes.h`, `src/upq/PgTypes.cpp` (`classify_sqlstate`), the
  predicates on results in `include/upq/PgPool.h` and the options of a transaction in
  `include/upq/PgTransaction.h`.

  A `std::string` is a `String` whose characters are its bytes.
-/
import Mathlib.Algebra.Order.Ring.Int
import Mathlib.Data.List.Infix

set_option autoImplicit false

namespace Upq

/-! ## Codes -/

/-- `PgErrorCode` -/
inductive PgErrorCode where
  | ok
  | invalidFuture
  | connectionClosed
  | socketReadFailed
  | protocolCorrupt
  | parserTruncatedField
  | parserTruncatedRow
  | parserTruncatedHeader
  | serverError
  | authFailed
  | awaitCanceled
  | tooManyConnections
  | unknown
  deriving DecidableEq, Repr, Inhabited

/-- `PgSqlStateClass` -/
inductive PgSqlStateClass where
  | none
  | connectionError
  | syntaxError
  | undefinedObject
  | constraintViolation
  | uniqueViolation
  | checkViolation
  | notNullViolation
  | foreignKeyViolation
  | deadlock
  | serializationFailure
  | privilegeError
  | dataException
  | transactionState
  | internalError
  | other
  deriving DecidableEq, Repr, Inhabited

/-- `classify_sqlstate` -/
def classifySqlstate (sqlstate : String) : PgSqlStateClass :=
  if sqlstate.length < 2 then .other
  else if sqlstate = "23505" then .uniqueViolation
  else if sqlstate = "23514" then .checkViolation
  else if sqlstate = "23502" then .notNullViolation
  else if sqlstate = "23503" then .foreignKeyViolation
  else if sqlstate = "40P01" then .deadlock
  else if sqlstate = "40001" then .serializationFailure
  else if sqlstate = "42501" then .privilegeError
  else if sqlstate = "42P01" then .undefinedObject
  else
    match sqlstate.toList.take 2 with
    | ['0', '8'] => .connectionError
    | ['2', '2'] => .dataException
    | ['2', '3'] => .constraintViolation
    | ['2', '5'] => .transactionState
    | ['2', '8'] => .privilegeError
    | ['4', '0'] => .transactionState
    | ['4', '2'] => .syntaxError
    | ['X', 'X'] => .internalError
    | _ => .other

/-! ## Errors and results -/

/-- `PgErrorDetail` -/
structure PgErrorDetail where
  sqlstate : String := ""
  message : String := ""
  detail : String := ""
  hint : String := ""
  category : PgSqlStateClass := .none
  deriving DecidableEq, Repr, Inhabited

/-- `PgOpError` -/
structure PgOpError where
  code : PgErrorCode := .unknown
  error : String := ""
  errDetail : PgErrorDetail := {}
  deriving DecidableEq, Repr, Inhabited

/-- `QueryResult` as default-constructed; a row is the list of its columns. -/
structure QueryResult where
  ok : Bool := false
  code : PgErrorCode := .unknown
  error : String := ""
  errDetail : PgErrorDetail := {}
  rows : List (List String) := []
  columns : List String := []
  rowsAffected : Nat := 0
  rowsValid : Bool := true
  deriving DecidableEq, Repr, Inhabited

/-- `PgCopyResult` as default-constructed. -/
structure PgCopyResult where
  ok : Bool := false
  code : PgErrorCode := .unknown
  error : String := ""
  errDetail : PgErrorDetail := {}
  rowsAffected : Nat := 0
  deriving DecidableEq, Repr, Inhabited

/-- `detail::to_op_error` -/
def toOpError (r : QueryResult) : PgOpError :=
  { code := r.code, error := r.error, errDetail := r.errDetail }

/-- `detail::closed_result` -/
def closedResult (why : String) : QueryResult :=
  { ok := false, code := .connectionClosed, error := why, rowsValid := false }

/-- `PgTransaction::not_active_result` -/
def notActiveResult : QueryResult :=
  { ok := false, code := .invalidFuture, error := "transaction not active", rowsValid := false }

/-- `QueryOpts` -/
structure QueryOpts where
  ioDeadlineMs : Nat := 0
  retryOnConnectionLoss : Bool := false
  idempotent : Bool := false
  retryBudgetMs : Nat := 0
  deriving DecidableEq, Repr, Inhabited

/-! ## Transaction options -/

/-- `TxIsolationLevel` -/
inductive TxIsolationLevel where
  | default
  | readCommitted
  | repeatableRead
  | serializable
  deriving DecidableEq, Repr, Inhabited

/-- `PgTransactionConfig` -/
structure PgTransactionConfig where
  isolation : TxIsolationLevel := .default
  readOnly : Bool := false
  deferrable : Bool := false
  forceRealBegin : Bool := false
  deriving DecidableEq, Repr, Inhabited

/-! ## Predicates on results -/

/-- `std::string::find(needle) != npos` -/
def contains (hay needle : String) : Bool := decide (needle.toList <:+: hay.toList)

/-- `is_fatal_connection_error` -/
def isFatalConnectionError (qr : QueryResult) : Bool :=
  if qr.ok then false
  else if qr.code = .socketReadFailed ∨ qr.code = .connectionClosed then true
  else contains qr.error "another command is already in progress" ||
    contains qr.error "could not receive data from server" ||
    contains qr.error "server closed the connection unexpectedly"

/-- `is_transient_pooler_sqlstate` -/
def isTransientPoolerSqlstate (s : String) : Bool :=
  s = "08P01" || s = "28P01" || s = "53300" || s = "57P03"

/-- `is_transient_pooler_error` of a result -/
def isTransientPoolerError (qr : QueryResult) : Bool :=
  !qr.ok && isTransientPoolerSqlstate qr.errDetail.sqlstate

end Upq
