/-
  Retry.lean --- what a failure says about its own fate, and whether to re-run.

  Source: `include/upq/PgRetry.h` and `PgPool::next_retry_delay` in
  `src/upq/PgPool.cpp`.

  The two questions a retry rests on are answered once here, for every scope:
  which failures are classified `notStarted` or `rolledBack` (only an ERROR with
  one of seven SQLSTATEs), and which classes `next_retry_delay` re-runs.
-/
import Upq.Types

set_option autoImplicit false

namespace Upq

/-! ## Classification -/

/-- `RetryClass` -/
inductive RetryClass where
  | none
  | notStarted
  | connectionLost
  | deadline
  | rolledBack
  deriving DecidableEq, Repr, Inhabited

/-- ASCII lower case, as `icontains` folds its characters. -/
def foldCase (c : Char) : Char :=
  if 'A' ≤ c ∧ c ≤ 'Z' then Char.ofNat (c.toNat - 'A'.toNat + 'a'.toNat) else c

/-- `detail::icontains` -/
def icontains (hay needle : String) : Bool :=
  decide (needle.toList.map foldCase <:+: hay.toList.map foldCase)

/-- The `markers` of `detail::is_connection_lost_message`. -/
def connectionLostMarkers : List String :=
  ["server closed the connection", "ssl connection has been closed", "connection not open",
    "no connection to the server", "could not send data", "could not receive data",
    "ssl syscall error", "eof detected", "terminating connection", "connection reset",
    "broken pipe", "server conn crashed"]

/-- `detail::is_connection_lost_message` -/
def isConnectionLostMessage (msg : String) : Bool := connectionLostMarkers.any (icontains msg)

/-- `classify_sqlstate_retry` -/
def classifySqlstateRetry (s : String) : RetryClass :=
  if s.length ≠ 5 then .none
  else if s = "08P01" ∨ s = "28P01" ∨ s = "53300" ∨ s = "57P03" then .notStarted
  else if s = "40001" ∨ s = "40P01" ∨ s = "55P03" then .rolledBack
  else if s = "57P01" ∨ s = "57P02" ∨ s = "25P03" then .connectionLost
  else if s.toList.take 2 = ['0', '8'] then .connectionLost
  else .none

/-- `classify_retry(code, detail, error, io_timed_out)` -/
def classifyRetry (code : PgErrorCode) (d : PgErrorDetail) (error : String)
    (ioTimedOut : Bool) : RetryClass :=
  if code = .ok then .none
  else if ioTimedOut then .deadline
  else if classifySqlstateRetry d.sqlstate ≠ .none then classifySqlstateRetry d.sqlstate
  else
    match code with
    | .connectionClosed | .socketReadFailed =>
        if "io deadline exceeded".toList <+: error.toList then .deadline else .connectionLost
    | .serverError =>
        if d.sqlstate = "" ∧
            (isConnectionLostMessage error = true ∨ isConnectionLostMessage d.message = true) then
          .connectionLost
        else .none
    | _ => .none

/-- `classify_retry` of a result -/
def classifyResult (r : QueryResult) (ioTimedOut : Bool) : RetryClass :=
  if r.ok then .none else classifyRetry r.code r.errDetail r.error ioTimedOut

/-- `classify_retry` of an operation's error -/
def classifyOpError (e : PgOpError) : RetryClass :=
  classifyRetry e.code e.errDetail e.error false

/-- A class that only the SQLSTATE can give. -/
def RetryClass.bySqlstate : RetryClass → Bool
  | .notStarted | .rolledBack => true
  | _ => false

/-- **`notStarted` and `rolledBack` are verdicts of the server.**  Neither an error
code, nor a message, nor the watchdog gives them: the SQLSTATE does. -/
theorem classifySqlstateRetry_of_bySqlstate {code : PgErrorCode} {d : PgErrorDetail}
    {error : String} {ioTimedOut : Bool}
    (h : (classifyRetry code d error ioTimedOut).bySqlstate = true) :
    ioTimedOut = false ∧
      classifySqlstateRetry d.sqlstate = classifyRetry code d error ioTimedOut := by
  unfold classifyRetry at h ⊢
  split at h
  · cases h
  · split at h
    · cases h
    · rename_i hok htimed
      rw [if_neg hok, if_neg htimed]
      refine ⟨Bool.eq_false_iff.mpr htimed, ?_⟩
      split at h
      · rename_i hstate
        rw [if_pos hstate]
      · split at h
        all_goals first
          | (split at h <;> cases h)
          | cases h

/-! ## Retries -/

/-- `PgPool::RetryScope` -/
inductive RetryScope where
  | statement
  | transaction
  | transactionCommit
  deriving DecidableEq, Repr

/-- `PgPool::RetryBudget` -/
structure RetryBudget where
  opts : QueryOpts
  startedMs : Nat
  attempt : Nat := 0
  connectionLost : Nat := 0
  deadline : Nat := 0
  rolledBack : Nat := 0
  deriving DecidableEq, Repr

/-- `transient_retry_attempts_` (at least 1) and `transient_retry_base_ms_`. -/
structure RetryConfig where
  attempts : Nat
  baseMs : Nat
  attempts_pos : 0 < attempts
  deriving DecidableEq, Repr

/-- May the failure class be re-run at all in this scope? -/
def retryAllowed (o : QueryOpts) (cls : RetryClass) (scope : RetryScope) : Bool :=
  match cls with
  | .notStarted => true
  | .connectionLost =>
      decide (scope = .transaction) || o.idempotent ||
        (decide (scope = .statement) && o.retryOnConnectionLoss)
  | .deadline => decide (scope = .transaction) || o.idempotent
  | .rolledBack => decide (scope ≠ .statement) || o.idempotent
  | .none => false

/-- The second `switch` of `next_retry_delay`: the delay of the class, and the
budget with the class counted.  C++ leaves the shift `50u << b.rolled_back` undefined
from 32 on; it is 0 here, as the wrapped product is from 31 on. -/
def retryDelay (cfg : RetryConfig) (b : RetryBudget) (cls : RetryClass) :
    Option Nat × RetryBudget :=
  match cls with
  | .notStarted =>
      (if b.attempt + 1 < cfg.attempts then some (cfg.baseMs * 3 ^ b.attempt % 2 ^ 32) else none, b)
  | .connectionLost =>
      (if b.connectionLost = 0 then some 0 else none,
        { b with connectionLost := b.connectionLost + 1 })
  | .deadline =>
      (if b.deadline = 0 then some 0 else none, { b with deadline := b.deadline + 1 })
  | .rolledBack =>
      if b.rolledBack < cfg.attempts - 1 then
        (some (50 * 2 ^ b.rolledBack % 2 ^ 32), { b with rolledBack := b.rolledBack + 1 })
      else (none, b)
  | .none => (none, b)

/-- `PgPool::next_retry_delay`; `now` is what `steady_now_ms()` answers. -/
def nextRetryDelay (cfg : RetryConfig) (now : Nat) (b : RetryBudget) (cls : RetryClass)
    (scope : RetryScope) : Option Nat × RetryBudget :=
  if retryAllowed b.opts cls scope then
    match retryDelay cfg b cls with
    | (some delay, b') =>
        if b.opts.retryBudgetMs ≠ 0 ∧
            (b.startedMs + b.opts.retryBudgetMs) % 2 ^ 64 ≤ (now + delay) % 2 ^ 64 then (none, b')
        else (some delay, b')
    | (none, b') => (none, b')
  else (none, b)

/-- The options are never changed. -/
theorem nextRetryDelay_opts (cfg : RetryConfig) (now : Nat) (b : RetryBudget) (cls : RetryClass)
    (scope : RetryScope) : (nextRetryDelay cfg now b cls scope).2.opts = b.opts := by
  have hdelay : (retryDelay cfg b cls).2.opts = b.opts := by
    unfold retryDelay
    cases cls <;> dsimp only
    split <;> rfl
  unfold nextRetryDelay
  split
  · split <;> rename_i heq <;> rw [heq] at hdelay
    · split <;> exact hdelay
    · exact hdelay
  · rfl

/-- A retry is made only where the class is allowed, after the delay of the
class. -/
theorem nextRetryDelay_eq_some {cfg : RetryConfig} {now delay : Nat} {b b' : RetryBudget}
    {cls : RetryClass} {scope : RetryScope}
    (h : nextRetryDelay cfg now b cls scope = (some delay, b')) :
    retryAllowed b.opts cls scope = true ∧ retryDelay cfg b cls = (some delay, b') := by
  unfold nextRetryDelay at h
  split at h
  · refine ⟨‹_›, ?_⟩
    split at h
    · rename_i delay₁ b₁ heq
      split at h
      · cases h
      · rw [heq, h]
    · cases h
  · cases h

/-- A statement that never started is tried at most `attempts` times. -/
theorem attempt_lt_of_notStarted {cfg : RetryConfig} {now delay : Nat} {b b' : RetryBudget}
    {scope : RetryScope} (h : nextRetryDelay cfg now b .notStarted scope = (some delay, b')) :
    b' = b ∧ b.attempt + 1 < cfg.attempts := by
  obtain ⟨hsome, rfl⟩ := Prod.mk.inj (nextRetryDelay_eq_some h).2
  split at hsome
  · exact ⟨rfl, ‹_›⟩
  · cases hsome

/-- What is left of a budget: the most retries it can still allow. -/
def RetryBudget.left (cfg : RetryConfig) (b : RetryBudget) : Nat :=
  (cfg.attempts - 1 - b.attempt) + (1 - b.connectionLost) + (1 - b.deadline) +
    (cfg.attempts - 1 - b.rolledBack)

/-- What `left` is worth at the start of a loop. -/
theorem left_start (cfg : RetryConfig) (opts : QueryOpts) (startedMs : Nat) :
    RetryBudget.left cfg { opts, startedMs } = 2 * cfg.attempts := by
  have hpos := cfg.attempts_pos
  simp only [RetryBudget.left]
  omega

/-- Every retry, in any scope, takes from what is left. -/
theorem left_lt_of_nextRetryDelay {cfg : RetryConfig} {now delay : Nat} {b b' : RetryBudget}
    {cls : RetryClass} {scope : RetryScope}
    (h : nextRetryDelay cfg now b cls scope = (some delay, b')) :
    RetryBudget.left cfg { b' with attempt := b'.attempt + 1 } < b.left cfg := by
  have hdelay := (nextRetryDelay_eq_some h).2
  unfold RetryBudget.left
  cases cls with
  | none => cases hdelay
  | notStarted =>
      obtain ⟨hsome, rfl⟩ := Prod.mk.inj hdelay
      split at hsome
      · dsimp only
        omega
      · cases hsome
  | connectionLost =>
      obtain ⟨hsome, rfl⟩ := Prod.mk.inj hdelay
      split at hsome
      · dsimp only
        omega
      · cases hsome
  | deadline =>
      obtain ⟨hsome, rfl⟩ := Prod.mk.inj hdelay
      split at hsome
      · dsimp only
        omega
      · cases hsome
  | rolledBack =>
      unfold retryDelay at hdelay
      dsimp only at hdelay
      split at hdelay
      · obtain ⟨-, rfl⟩ := Prod.mk.inj hdelay
        dsimp only
        omega
      · cases hdelay

/-- **A statement that may take effect is re-run only if it never started.** -/
theorem notStarted_of_retryAllowed_statement {o : QueryOpts} {cls : RetryClass}
    (hidem : o.idempotent = false) (hloss : o.retryOnConnectionLoss = false)
    (h : retryAllowed o cls .statement = true) : cls = .notStarted := by
  cases cls <;> simp_all [retryAllowed]

/-- **A failed COMMIT is re-run only on a verdict of the server.** -/
theorem bySqlstate_of_retryAllowed_commit {o : QueryOpts} {cls : RetryClass}
    (hidem : o.idempotent = false) (h : retryAllowed o cls .transactionCommit = true) :
    cls.bySqlstate = true := by
  cases cls <;> simp_all [retryAllowed, RetryClass.bySqlstate]

end Upq
