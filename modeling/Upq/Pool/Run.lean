/-
  Pool/Run.lean --- `PgPool::run`: one pooled statement with its retries.

  Source: `include/upq/PgPool.h`, `PgPool::run`; `src/upq/PgPool.cpp`, `give_back`.

  `run` is a loop over attempts; what one attempt meets (the connection it gets,
  the statement's script, the clock, the backoff sleep, and whether the server
  applied the statement) is an `Attempt`, so a run is a function of a list of
  them.  Its trace lists what happened in order.

  The one assumption about the server is in `Attempt.effect`: an ERROR with a
  NotStarted SQLSTATE means that the statement had no effect.
-/
import Upq.Connection.RunQuery

set_option autoImplicit false

namespace Upq.Pool

/-! ## Giving back -/

/-- How a connection went back to the pool. -/
inductive HandBack where
  | markDead
  | release
  | releaseAsync
  deriving DecidableEq, Repr

/-- `give_back`, and the `release_connection_async` its caller makes when it
returns false. -/
def giveBack (l : Link) (qr : QueryResult) (cls : RetryClass) : HandBack :=
  if cls = .notStarted ∨ cls = .connectionLost ∨ cls = .deadline ∨
      isFatalConnectionError qr = true ∨ l.connected = false then .markDead
  else if l.isIdle then .release
  else .releaseAsync

/-! ## Attempts -/

/-- What one turn of the loop meets: what `take_idle` and `acquire_connection`
answer, the statement's script and the server's status after it, whether the
server applied it, the clock, and whether the backoff sleep ran to its end. -/
structure Attempt where
  idle : Option Link
  acquired : Except PgOpError Link
  script : Script
  after : List PGresult → TxStatus
  applied : Bool
  now : Nat
  slept : Bool

/-- The connection of the attempt. -/
def Attempt.conn (a : Attempt) : Except PgOpError Link :=
  match a.idle with
  | some l => .ok l
  | none => a.acquired

/-- A result that carries an ERROR with a NotStarted SQLSTATE. -/
def notStartedError (res : PGresult) : Bool :=
  match res.errorState? with
  | some s => decide (classifySqlstateRetry s = .notStarted)
  | none => false

/-- The attempt had an effect on the server: the statement was handed to libpq, the
server applied it, and no ERROR says that it never started. -/
def Attempt.effect (a : Attempt) (l : Link) : Bool :=
  l.connected && a.applied && !(runQuery a.script a.after l).read.any notStartedError

/-- What happens in a run, in order. -/
inductive RunEvent where
  | acquireFailed (result : QueryResult)
  | acquired
  | setIoDeadline (ms : Nat)
  | ran (result : QueryResult) (effect : Bool)
  | handedBack (how : HandBack)
  | retry (cls : RetryClass) (attempt delay : Nat)
  deriving DecidableEq, Repr

/-- The result of an attempt that got no connection. -/
def acquireFailure (e : PgOpError) : QueryResult :=
  { ok := false, code := e.code, error := e.error, errDetail := e.errDetail, rowsValid := false }

/-- The part of an attempt between its connection and the decision to retry. -/
def attemptEvents (opts : QueryOpts) (a : Attempt) (l : Link) : List RunEvent :=
  let o := runQuery a.script a.after l
  [.acquired] ++ (if opts.ioDeadlineMs ≠ 0 then [.setIoDeadline opts.ioDeadlineMs] else []) ++
    [.ran o.result (a.effect l)] ++ (if opts.ioDeadlineMs ≠ 0 then [.setIoDeadline 0] else []) ++
    [.handedBack (giveBack o.link o.result (classifyResult o.result o.link.ioTimedOut))]

/-- `PgPool::run`: the trace, and the result once it has returned. -/
def run (cfg : RetryConfig) : RetryBudget → List Attempt → List RunEvent × Option QueryResult
  | _, [] => ([], none)
  | b, a :: rest =>
      match a.conn with
      | .error e => ([.acquireFailed (acquireFailure e)], some (acquireFailure e))
      | .ok l =>
          let o := runQuery a.script a.after l
          let cls := classifyResult o.result o.link.ioTimedOut
          let evs := attemptEvents b.opts a l
          if o.result.ok then (evs, some o.result)
          else
            match nextRetryDelay cfg a.now b cls .statement with
            | (none, _) => (evs, some o.result)
            | (some delay, b') =>
                let noted := evs ++ [.retry cls (b.attempt + 1) delay]
                if delay ≠ 0 ∧ a.slept = false then (noted, some o.result)
                else
                  let next := run cfg { b' with attempt := b'.attempt + 1 } rest
                  (noted ++ next.1, next.2)

/-! ## What a trace says -/

/-- The event is an attempt that had an effect. -/
def RunEvent.hadEffect : RunEvent → Bool
  | .ran _ effect => effect
  | _ => false

/-- The result of an attempt. -/
def RunEvent.result? : RunEvent → Option QueryResult
  | .ran r _ | .acquireFailed r => some r
  | _ => none

/-- Every connection is handed back exactly once before the next one is acquired;
`held` says whether one is held at the start. -/
def HandedBackOnce : Bool → List RunEvent → Prop
  | held, [] => held = false
  | held, .acquired :: es => held = false ∧ HandedBackOnce true es
  | held, .handedBack _ :: es => held = true ∧ HandedBackOnce false es
  | held, .acquireFailed _ :: es => held = false ∧ HandedBackOnce held es
  | held, .ran _ _ :: es => held = true ∧ HandedBackOnce held es
  | held, .setIoDeadline _ :: es | held, .retry _ _ _ :: es => HandedBackOnce held es

/-- An attempt hands its connection back before whatever follows. -/
theorem handedBackOnce_attempt (opts : QueryOpts) (a : Attempt) (l : Link) (es : List RunEvent) :
    HandedBackOnce false (attemptEvents opts a l ++ es) ↔ HandedBackOnce false es := by
  unfold attemptEvents
  split <;> simp [HandedBackOnce]

theorem hadEffect_attempt (opts : QueryOpts) (a : Attempt) (l : Link) :
    (attemptEvents opts a l).countP RunEvent.hadEffect = (a.effect l).toNat := by
  unfold attemptEvents
  cases h : a.effect l <;> split <;> simp [List.countP_cons, RunEvent.hadEffect]

theorem result_attempt (opts : QueryOpts) (a : Attempt) (l : Link) :
    (attemptEvents opts a l).filterMap RunEvent.result? =
      [(runQuery a.script a.after l).result] := by
  unfold attemptEvents
  split <;> rfl

/-! ## The retry loop -/

/-- An attempt whose failure is classified `notStarted` had no effect: the class
comes from an ERROR the attempt has read. -/
theorem effect_eq_false_of_notStarted {a : Attempt} {l : Link}
    (h : classifyResult (runQuery a.script a.after l).result
      (runQuery a.script a.after l).link.ioTimedOut = .notStarted) : a.effect l = false := by
  have hstate : classifySqlstateRetry
      (runQuery a.script a.after l).result.errDetail.sqlstate = .notStarted := by
    unfold classifyResult at h
    split at h
    · cases h
    · rw [← h]
      exact (classifySqlstateRetry_of_bySqlstate (by rw [h]; rfl)).2
  have hread : (runQuery a.script a.after l).read.any notStartedError = true := by
    rcases runQuery_sqlstate a.script a.after l with hempty | ⟨res, hres, heq⟩
    · rw [hempty] at hstate
      cases hstate
    · refine List.any_eq_true.mpr ⟨res, hres, ?_⟩
      simp [notStartedError, heq, hstate]
  simp [Attempt.effect, hread]

section

variable {cfg : RetryConfig} {opts : QueryOpts}

/-- Whatever is retried, a connection is handed back before the next one is acquired. -/
theorem run_handedBackOnce (attempts : List Attempt) (b : RetryBudget) :
    HandedBackOnce false (run cfg b attempts).1 := by
  induction attempts generalizing b with
  | nil => rfl
  | cons a rest ih =>
      unfold run
      split
      · exact ⟨rfl, rfl⟩
      · rename_i l _
        have hend := (handedBackOnce_attempt b.opts a l []).mpr rfl
        rw [List.append_nil] at hend
        dsimp only
        split
        · exact hend
        · split
          · exact hend
          · split
            · exact (handedBackOnce_attempt b.opts a l [.retry _ _ _]).mpr rfl
            · rw [List.append_assoc, handedBackOnce_attempt]
              exact ih _

/-- The effects and the result of a trace, for a run from any point of the budget. -/
theorem run_spec (hidem : opts.idempotent = false) (hloss : opts.retryOnConnectionLoss = false)
    (attempts : List Attempt) (b : RetryBudget) (hopts : b.opts = opts) :
    (run cfg b attempts).1.countP RunEvent.hadEffect ≤ 1 ∧
    (∀ r, (run cfg b attempts).2 = some r →
      ((run cfg b attempts).1.filterMap RunEvent.result?).getLast? = some r) := by
  induction attempts generalizing b with
  | nil => exact ⟨by simp [run], by simp [run]⟩
  | cons a rest ih =>
      unfold run
      split
      · rename_i e hconn
        refine ⟨by simp [RunEvent.hadEffect], ?_⟩
        rintro r ⟨rfl⟩
        rfl
      · rename_i l hconn
        have heff := hadEffect_attempt b.opts a l
        have hres := result_attempt b.opts a l
        -- the loop ends with this attempt
        have hlast : ∀ tail : List RunEvent, tail.countP RunEvent.hadEffect = 0 →
            tail.filterMap RunEvent.result? = [] →
            (attemptEvents b.opts a l ++ tail).countP RunEvent.hadEffect ≤ 1 ∧
            (∀ r, some (runQuery a.script a.after l).result = some r →
              ((attemptEvents b.opts a l ++ tail).filterMap RunEvent.result?).getLast? =
                some r) := by
          intro tail hcount hmap
          refine ⟨?_, ?_⟩
          · rw [List.countP_append, heff, hcount]
            exact Bool.toNat_le _
          · rintro r ⟨rfl⟩
            rw [List.filterMap_append, hres, hmap]
            rfl
        have hend := hlast [] rfl rfl
        rw [List.append_nil] at hend
        dsimp only
        split
        · exact hend
        · split
          · exact hend
          · rename_i delay b' hdelay
            have hcls := notStarted_of_retryAllowed_statement (hopts ▸ hidem) (hopts ▸ hloss)
              (nextRetryDelay_eq_some hdelay).1
            split
            · exact hlast [.retry _ _ _] rfl rfl
            · have hnone := effect_eq_false_of_notStarted hcls
              rw [hcls] at hdelay
              obtain ⟨rfl, -⟩ := attempt_lt_of_notStarted hdelay
              obtain ⟨hcount, hresult⟩ := ih { b' with attempt := b'.attempt + 1 } hopts
              rw [hnone] at heff
              refine ⟨?_, ?_⟩
              · rw [List.countP_append, List.countP_append, heff]
                simpa [RunEvent.hadEffect] using hcount
              · intro r hr
                rw [List.filterMap_append, List.getLast?_append, hresult r hr]
                rfl

/-- The loop returns: a statement that never starts is tried at most
`transient_retry_attempts` times. -/
theorem run_returns (hidem : opts.idempotent = false) (hloss : opts.retryOnConnectionLoss = false)
    (attempts : List Attempt) (b : RetryBudget) (hopts : b.opts = opts)
    (hne : attempts ≠ []) (hlen : cfg.attempts ≤ b.attempt + attempts.length) :
    ∃ r, (run cfg b attempts).2 = some r := by
  induction attempts generalizing b with
  | nil => exact absurd rfl hne
  | cons a rest ih =>
      unfold run
      split
      · exact ⟨_, rfl⟩
      · dsimp only
        split
        · exact ⟨_, rfl⟩
        · split
          · exact ⟨_, rfl⟩
          · rename_i delay b' hdelay
            split
            · exact ⟨_, rfl⟩
            · have hcls := notStarted_of_retryAllowed_statement (hopts ▸ hidem) (hopts ▸ hloss)
                (nextRetryDelay_eq_some hdelay).1
              rw [hcls] at hdelay
              obtain ⟨rfl, hmore⟩ := attempt_lt_of_notStarted hdelay
              rw [List.length_cons] at hlen
              refine ih { b' with attempt := b'.attempt + 1 } hopts ?_ ?_
              · rintro rfl
                rw [List.length_nil] at hlen
                omega
              · dsimp only
                omega

end

/-- **A non-idempotent pooled statement takes effect at most once.**  For every
retry configuration and every sequence of attempts: at most one attempt has an
effect, the result returned is that of the last attempt, every connection is handed
back exactly once before the next attempt, and the loop returns within the
configured number of attempts. -/
theorem run_effect_at_most_once (cfg : RetryConfig) (opts : QueryOpts) (startedMs : Nat)
    (attempts : List Attempt) (hidem : opts.idempotent = false)
    (hloss : opts.retryOnConnectionLoss = false) :
    (run cfg { opts, startedMs } attempts).1.countP RunEvent.hadEffect ≤ 1 ∧
    (∀ r, (run cfg { opts, startedMs } attempts).2 = some r →
      ((run cfg { opts, startedMs } attempts).1.filterMap RunEvent.result?).getLast? = some r) ∧
    HandedBackOnce false (run cfg { opts, startedMs } attempts).1 ∧
    (cfg.attempts ≤ attempts.length → ∃ r, (run cfg { opts, startedMs } attempts).2 = some r) := by
  obtain ⟨hcount, hresult⟩ := run_spec hidem hloss attempts { opts, startedMs } rfl
  refine ⟨hcount, hresult, run_handedBackOnce attempts { opts, startedMs }, ?_⟩
  intro hlen
  refine run_returns hidem hloss attempts { opts, startedMs } rfl ?_ (by simpa using hlen)
  rintro rfl
  have := cfg.attempts_pos
  rw [List.length_nil] at hlen
  omega

/-- The server refuses the first attempt (`53300`) and applies the second. -/
theorem run_effect_at_most_once_refused :
    let attempt (results : List PGresult) (applied : Bool) : Attempt :=
      { idle := none, acquired := .ok idleLink, script := .answered results
        after := fun _ => .idle, applied := applied, now := 0, slept := true }
    let run := run ⟨3, 200, by decide⟩ { opts := {}, startedMs := 0 }
      [attempt [.error "53300" "too many clients" "" "" ""] false, attempt [.command 1] true]
    run.1.countP RunEvent.hadEffect = 1 ∧ run.1.countP RunEvent.hadEffect ≤ 1 ∧
      HandedBackOnce false run.1 := by
  intro attempt run
  obtain ⟨hcount, -, hback, -⟩ := run_effect_at_most_once ⟨3, 200, by decide⟩ {} 0
    [attempt [.error "53300" "too many clients" "" "" ""] false, attempt [.command 1] true] rfl rfl
  exact ⟨by decide +kernel, hcount, hback⟩

end Upq.Pool
