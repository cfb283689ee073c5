/-
  RetryLoops.lean --- `PgPool::run` and `run_tx` end within a fixed number of turns.

  Source: `PgPool::run` in `include/upq/PgPool.h`, `run_tx` in
  `include/upq/PgTransaction.h`, `PgPool::next_retry_delay` in `src/upq/PgPool.cpp`.

  Both loops are `for (;;)`, and `next_retry_delay` is what stops them.  A measure of
  the budget that every granted retry takes from (`Drains`) bounds the turns of either
  loop.  `RetryBudget.left` is such a measure in every scope; for a statement that is
  neither idempotent nor retried on a lost connection the attempts left are one too.
-/
import Upq.Transaction.RunTx

set_option autoImplicit false

namespace Upq

open Upq.Pool (Attempt RunEvent run)
open Upq.Transaction (World TxAttempt TxTrace runTx)

/-! ## Measures of a budget -/

/-- Every retry granted in one of the scopes takes from the measure. -/
def Drains (cfg : RetryConfig) (opts : QueryOpts) (scopes : RetryScope → Prop)
    (measure : RetryBudget → Nat) : Prop :=
  ∀ (now delay : Nat) (b b' : RetryBudget) (cls : RetryClass) (scope : RetryScope),
    b.opts = opts → scopes scope → nextRetryDelay cfg now b cls scope = (some delay, b') →
    measure { b' with attempt := b'.attempt + 1 } < measure b

theorem drains_left (cfg : RetryConfig) (opts : QueryOpts) (scopes : RetryScope → Prop) :
    Drains cfg opts scopes (RetryBudget.left cfg) :=
  fun _ _ _ _ _ _ _ _ h => left_lt_of_nextRetryDelay h

/-- Only a statement that never started is tried again, and only while attempts are
left. -/
theorem drains_attempts (cfg : RetryConfig) {opts : QueryOpts} (hidem : opts.idempotent = false)
    (hloss : opts.retryOnConnectionLoss = false) :
    Drains cfg opts (· = .statement) fun b => cfg.attempts - 1 - b.attempt := by
  rintro now delay b b' cls _ hopts rfl h
  have hcls := notStarted_of_retryAllowed_statement (hopts ▸ hidem) (hopts ▸ hloss)
    (nextRetryDelay_eq_some h).1
  rw [hcls] at h
  obtain ⟨rfl, hmore⟩ := attempt_lt_of_notStarted h
  dsimp only
  omega

/-! ## `PgPool::run` -/

/-- The statement was handed to a connection. -/
def Pool.RunEvent.isRan : RunEvent → Bool
  | .ran _ _ => true
  | _ => false

/-- How often a trace shows the statement sent. -/
def sends (trace : List RunEvent) : Nat := trace.countP RunEvent.isRan

theorem sends_append (xs ys : List RunEvent) : sends (xs ++ ys) = sends xs + sends ys :=
  List.countP_append

/-- A turn of the loop sends the statement once. -/
theorem sends_attempt (opts : QueryOpts) (a : Attempt) (l : Link) :
    sends (Pool.attemptEvents opts a l) = 1 := by
  unfold Pool.attemptEvents
  split <;> rfl

section

variable {cfg : RetryConfig} {opts : QueryOpts}

/-- **Loop rule for `run`.**  A measure that every retry takes from bounds what is sent,
and the loop returns once the attempts outnumber it. -/
theorem run_bounded {measure : RetryBudget → Nat}
    (hdrains : Drains cfg opts (· = .statement) measure) (attempts : List Attempt)
    (b : RetryBudget) (hopts : b.opts = opts) :
    sends (run cfg b attempts).1 ≤ measure b + 1 ∧
      (measure b < attempts.length → ∃ r, (run cfg b attempts).2 = some r) := by
  induction attempts generalizing b with
  | nil => exact ⟨Nat.zero_le _, fun hlen => absurd hlen (Nat.not_lt_zero _)⟩
  | cons a rest ih =>
      unfold run
      split
      · exact ⟨Nat.zero_le _, fun _ => ⟨_, rfl⟩⟩
      · rename_i l _
        have hone := sends_attempt b.opts a l
        have hend : 1 ≤ measure b + 1 := Nat.le_add_left 1 (measure b)
        dsimp only
        split
        · exact ⟨hone.trans_le hend, fun _ => ⟨_, rfl⟩⟩
        · split
          · exact ⟨hone.trans_le hend, fun _ => ⟨_, rfl⟩⟩
          · rename_i delay b' hdelay
            have hnoted : sends (Pool.attemptEvents b.opts a l ++
                [.retry (classifyResult (runQuery a.script a.after l).result
                  (runQuery a.script a.after l).link.ioTimedOut) (b.attempt + 1) delay]) = 1 := by
              rw [sends_append, hone]
              rfl
            split
            · exact ⟨hnoted.trans_le hend, fun _ => ⟨_, rfl⟩⟩
            · have hless := hdrains a.now delay b b' _ .statement hopts rfl hdelay
              have hopts' : b'.opts = opts := by
                have hkeep := nextRetryDelay_opts cfg a.now b
                  (classifyResult (runQuery a.script a.after l).result
                    (runQuery a.script a.after l).link.ioTimedOut) .statement
                rw [hdelay] at hkeep
                exact hkeep.trans hopts
              obtain ⟨hcount, hreturns⟩ := ih { b' with attempt := b'.attempt + 1 } hopts'
              refine ⟨?_, fun hlen => hreturns ?_⟩
              · rw [sends_append, hnoted]
                omega
              · rw [List.length_cons] at hlen
                omega

end

/-! ## `run_tx` -/

section

variable {α : Type} {cfg : RetryConfig}

/-- The turn gets to its body: `begin_errored` reports no failure. -/
def Transaction.TxAttempt.invokesBody (cfg : RetryConfig) (a : TxAttempt α) : Bool :=
  ((World.init false cfg.attempts a.links).begin a.begin).2.isNone

/-- How often `run_tx` invokes its body: once in each of its turns that gets there. -/
def bodyCalls (cfg : RetryConfig) (b : RetryBudget) (attempts : List (TxAttempt α)) : Nat :=
  (attempts.take (runTx cfg b attempts).1.length).countP (TxAttempt.invokesBody cfg)

/-- **Loop rule for `run_tx`.** -/
theorem runTx_turns (attempts : List (TxAttempt α)) (b : RetryBudget) :
    (runTx cfg b attempts).1.length ≤ b.left cfg + 1 := by
  induction attempts generalizing b with
  | nil => exact Nat.zero_le _
  | cons a rest ih =>
      unfold runTx
      split
      · exact Nat.succ_le_succ (Nat.zero_le _)
      · split
        · exact Nat.succ_le_succ (Nat.zero_le _)
        · rename_i delay b' hdelay
          have hless := left_lt_of_nextRetryDelay hdelay
          dsimp only
          split
          · exact Nat.succ_le_succ (Nat.zero_le _)
          · have hrest := ih { b' with attempt := b'.attempt + 1 }
            rw [List.length_cons]
            omega

theorem bodyCalls_le (attempts : List (TxAttempt α)) (b : RetryBudget) :
    bodyCalls cfg b attempts ≤ b.left cfg + 1 := by
  calc bodyCalls cfg b attempts
      ≤ (attempts.take (runTx cfg b attempts).1.length).length := List.countP_le_length
    _ ≤ (runTx cfg b attempts).1.length := List.length_take_le _ _
    _ ≤ b.left cfg + 1 := runTx_turns attempts b

end

/-! ## Both loops on endless failures -/

/-- The first `n` attempts of an endless sequence. -/
def firstOfAttempts {α : Type} (attempts : Nat → α) (n : Nat) : List α :=
  (List.range n).map attempts

theorem length_firstOfAttempts {α : Type} (attempts : Nat → α) (n : Nat) :
    (firstOfAttempts attempts n).length = n := by
  rw [firstOfAttempts, List.length_map, List.length_range]

/-- **Retry loops end within a fixed bound.**  For every configured number of attempts
`T`, all options and every endless sequence of what the attempts meet: `run` sends its
statement at most `2 * T + 1` times and `run_tx` invokes its body at most as often, both
have returned by then, and without `idempotent` and `retry_on_connection_loss` `run` sends
its statement at most `T` times. -/
theorem retry_loops_end {α : Type} (cfg : RetryConfig) (opts : QueryOpts) (startedMs : Nat)
    (attempts : Nat → Attempt) (txAttempts : Nat → TxAttempt α) :
    (∀ n, sends (run cfg { opts, startedMs } (firstOfAttempts attempts n)).1 ≤
        2 * cfg.attempts + 1) ∧
    (∃ r, (run cfg { opts, startedMs }
        (firstOfAttempts attempts (2 * cfg.attempts + 1))).2 = some r) ∧
    (∀ n, bodyCalls cfg { opts, startedMs } (firstOfAttempts txAttempts n) ≤
        2 * cfg.attempts + 1) ∧
    (∃ r, (runTx cfg { opts, startedMs }
        (firstOfAttempts txAttempts (2 * cfg.attempts + 1))).2 = some r) ∧
    (opts.idempotent = false → opts.retryOnConnectionLoss = false →
      ∀ n, sends (run cfg { opts, startedMs } (firstOfAttempts attempts n)).1 ≤ cfg.attempts) := by
  have hleft := left_start cfg opts startedMs
  have hrun := fun n => run_bounded (drains_left cfg opts _) (firstOfAttempts attempts n)
    { opts, startedMs } rfl
  refine ⟨?_, ?_, ?_, ?_, ?_⟩
  · intro n
    exact hleft ▸ (hrun n).1
  · refine (hrun _).2 ?_
    rw [hleft, length_firstOfAttempts]
    exact Nat.lt_succ_self _
  · intro n
    exact hleft ▸ bodyCalls_le (firstOfAttempts txAttempts n) { opts, startedMs }
  · refine Transaction.runTx_returns _ _ ?_
    rw [hleft, length_firstOfAttempts]
    exact Nat.lt_succ_self _
  · intro hidem hloss n
    have hbound := (run_bounded (drains_attempts cfg hidem hloss) (firstOfAttempts attempts n)
      { opts, startedMs } rfl).1
    have hpos := cfg.attempts_pos
    dsimp only at hbound
    omega

/-- An attempt the server always refuses with `53300`. -/
def refusedAttempt : Attempt :=
  { idle := none, acquired := .ok idleLink
    script := .answered [.error "53300" "" "" "" ""]
    after := fun _ => .idle, applied := false, now := 0, slept := true }

/-- A transaction whose BEGIN never gets a connection. -/
def deniedTxAttempt : TxAttempt Unit :=
  { links := fun _ => unusedLink
    begin := fun _ => ⟨none, refusedAttempt.script, true⟩
    body := [], body_isInner := nofun, result := .value ()
    commit := refusedAttempt.script, rollback := refusedAttempt.script
    finish := refusedAttempt.script, applied := false, now := 0, slept := true }

/-- With three attempts a statement that never starts is sent three times. -/
theorem retry_loops_end_refused :
    sends (run ⟨3, 0, by decide⟩ { opts := {}, startedMs := 0 }
        (firstOfAttempts (fun _ => refusedAttempt) 5)).1 = 3 ∧
      ∀ n, sends (run ⟨3, 0, by decide⟩ { opts := {}, startedMs := 0 }
        (firstOfAttempts (fun _ => refusedAttempt) n)).1 ≤ 3 := by
  refine ⟨by decide +kernel, ?_⟩
  obtain ⟨-, -, -, -, hsends⟩ := retry_loops_end ⟨3, 0, by decide⟩ {} 0 (fun _ => refusedAttempt)
    (fun _ => deniedTxAttempt)
  exact hsends rfl rfl

end Upq
