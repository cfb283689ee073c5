/-
  RetryDelay.lean --- the delays and the budget of a retry, against natural numbers.

  Source: `PgPool::next_retry_delay` and `PgPool::transient_backoff` in
  `src/upq/PgPool.cpp`, `set_transient_retry` in `include/upq/PgPool.h`.

  A delay is an `unsigned` computed by repeated multiplication or by a shift, and the
  budget test adds two `uint64_t`.  `exactDelay` says over the natural numbers what the
  delay is meant to be.  A call is exact unless the delay does not fit 32 bits or the end
  of the budget does not fit 64 (`exactCall_iff`); with the default of three attempts
  from 200 ms every delay fits.

  The counters of `RetryBudget` are natural numbers where the source has `int`:
  `counters_lt` is the range within which that makes no difference.
-/
import Upq.Retry

set_option autoImplicit false

namespace Upq

/-! ## Configuration and clock -/

/-- `set_transient_retry` -/
def setTransientRetry (attempts : Int32) (baseMs : UInt32) : RetryConfig where
  attempts := if 0 < attempts then attempts.toInt.toNat else 1
  baseMs := baseMs.toNat
  attempts_pos := by
    split
    · rename_i hpos
      have hpos : 0 < attempts.toInt := Int32.lt_iff_toInt_lt.mp hpos
      omega
    · exact Nat.one_pos

/-- The loop of `transient_backoff` and `next_retry_delay`: `ms *= 3`, `attempt`
times. -/
def tripled : Nat → Nat → Nat
  | 0, ms => ms
  | attempt + 1, ms => tripled attempt (ms * 3 % 2 ^ 32)

/-- The delay of `transient_backoff` -/
def transientBackoff (cfg : RetryConfig) (attempt : Nat) : Nat := tripled attempt cfg.baseMs

theorem tripled_eq {ms : Nat} (h : ms < 2 ^ 32) (attempt : Nat) :
    tripled attempt ms = ms * 3 ^ attempt % 2 ^ 32 := by
  induction attempt generalizing ms with
  | zero =>
      rw [tripled, Nat.pow_zero, Nat.mul_one, Nat.mod_eq_of_lt h]
  | succ attempt ih =>
      have hpow : 3 ^ (attempt + 1) = 3 * 3 ^ attempt := Nat.pow_succ'
      rw [tripled, ih (Nat.mod_lt _ (by decide)), Nat.mod_mul_mod, hpow, Nat.mul_assoc]

/-- `next_retry_delay` waits as long as `transient_backoff` does. -/
theorem retryDelay_notStarted (attempts : Int32) (baseMs : UInt32) (b : RetryBudget) :
    (retryDelay (setTransientRetry attempts baseMs) b .notStarted).1 =
      if b.attempt + 1 < (setTransientRetry attempts baseMs).attempts then
        some (transientBackoff (setTransientRetry attempts baseMs) b.attempt)
      else none := by
  have hbase : (setTransientRetry attempts baseMs).baseMs < 2 ^ 32 := baseMs.toNat_lt
  rw [transientBackoff, tripled_eq hbase]
  rfl

/-- What a retry loop brings to one call: the class of the failure, its scope, and the
clock. -/
structure Failure where
  cls : RetryClass
  scope : RetryScope
  now : Nat
  deriving DecidableEq, Repr

/-- The budget after a loop has been granted a retry for each failure. -/
def granted (cfg : RetryConfig) : RetryBudget → List Failure → Option RetryBudget
  | b, [] => some b
  | b, f :: rest =>
      match nextRetryDelay cfg f.now b f.cls f.scope with
      | (some _, b') => granted cfg { b' with attempt := b'.attempt + 1 } rest
      | (none, _) => none

/-- The counters of the classes. -/
def RetryBudget.counted (b : RetryBudget) : Nat := b.connectionLost + b.deadline + b.rolledBack

/-- A call counts the failure under one class at most, and leaves `attempt` to the loop. -/
theorem nextRetryDelay_counts (cfg : RetryConfig) (now : Nat) (b : RetryBudget)
    (cls : RetryClass) (scope : RetryScope) :
    (nextRetryDelay cfg now b cls scope).2.attempt = b.attempt ∧
      (nextRetryDelay cfg now b cls scope).2.counted ≤ b.counted + 1 := by
  have hdelay : (retryDelay cfg b cls).2.attempt = b.attempt ∧
      (retryDelay cfg b cls).2.counted ≤ b.counted + 1 := by
    unfold retryDelay RetryBudget.counted
    cases cls <;> dsimp only
    case rolledBack => split <;> dsimp only <;> omega
    all_goals omega
  unfold nextRetryDelay
  split
  · split <;> rename_i heq <;> rw [heq] at hdelay
    · split <;> exact hdelay
    · exact hdelay
  · exact ⟨rfl, Nat.le_succ _⟩

/-- Along a loop no class is counted more often than retries were granted, and these are
taken from what is left of the budget. -/
theorem granted_counters {cfg : RetryConfig} {failures : List Failure} {b b' : RetryBudget}
    (h : granted cfg b failures = some b') (hcounted : b.counted ≤ b.attempt) :
    b'.counted ≤ b'.attempt ∧ b'.attempt + b'.left cfg ≤ b.attempt + b.left cfg := by
  induction failures generalizing b with
  | nil =>
      obtain rfl : b = b' := Option.some.inj h
      exact ⟨hcounted, Nat.le_refl _⟩
  | cons f rest ih =>
      rw [granted] at h
      split at h
      · rename_i delay b₁ hnext
        have hcounts := nextRetryDelay_counts cfg f.now b f.cls f.scope
        rw [hnext] at hcounts
        obtain ⟨hattempt, hone⟩ := hcounts
        dsimp only at hattempt hone
        have hleft := left_lt_of_nextRetryDelay hnext
        obtain ⟨hcounted', hspent⟩ := ih h (by
          show b₁.counted ≤ b₁.attempt + 1
          omega)
        refine ⟨hcounted', ?_⟩
        dsimp only at hspent
        omega
      · cases h

/-- **The counters stay within `int`.**  With fewer than `2 ^ 30` configured attempts, no
counter reaches `2 ^ 31` in a call of a loop that started with a fresh budget, nor does
the sum `attempt + 1`. -/
theorem counters_lt {cfg : RetryConfig} {opts : QueryOpts} {startedMs : Nat}
    {failures : List Failure} {b : RetryBudget} (hfew : cfg.attempts < 2 ^ 30)
    (h : granted cfg { opts, startedMs } failures = some b) (now : Nat) (cls : RetryClass)
    (scope : RetryScope) :
    (nextRetryDelay cfg now b cls scope).2.attempt + 1 < 2 ^ 31 ∧
      (nextRetryDelay cfg now b cls scope).2.counted < 2 ^ 31 := by
  obtain ⟨hattempt, hone⟩ := nextRetryDelay_counts cfg now b cls scope
  obtain ⟨hcounted, hspent⟩ := granted_counters h (Nat.le_refl 0)
  rw [left_start] at hspent
  dsimp only at hspent
  omega

/-- What `steady_now_ms()` can answer: `steady_clock` counts nanoseconds in 63 bits and
never goes back. -/
structure OnClock (b : RetryBudget) (now : Nat) : Prop where
  notBefore : b.startedMs ≤ now
  range : now < 2 ^ 63 / 10 ^ 6

/-! ## Over the natural numbers -/

/-- What the class limits permit, and the delay that is meant. -/
def exactDelay (cfg : RetryConfig) (b : RetryBudget) : RetryClass → Option Nat
  | .notStarted => if b.attempt + 1 < cfg.attempts then some (cfg.baseMs * 3 ^ b.attempt) else none
  | .connectionLost => if b.connectionLost = 0 then some 0 else none
  | .deadline => if b.deadline = 0 then some 0 else none
  | .rolledBack => if b.rolledBack < cfg.attempts - 1 then some (50 * 2 ^ b.rolledBack) else none
  | .none => none

/-- The class limits permit a retry after `d` milliseconds. -/
def Permits (cfg : RetryConfig) (b : RetryBudget) (f : Failure) (d : Nat) : Prop :=
  retryAllowed b.opts f.cls f.scope = true ∧ exactDelay cfg b f.cls = some d

/-- The moment the budget ends. -/
def RetryBudget.endMs (b : RetryBudget) : Nat := b.startedMs + b.opts.retryBudgetMs

/-- The call is exact: a delay returned is the one that is meant, and a permitted retry
is refused exactly when it would come after the budget. -/
structure ExactCall (cfg : RetryConfig) (b : RetryBudget) (f : Failure) : Prop where
  delay : ∀ d b', nextRetryDelay cfg f.now b f.cls f.scope = (some d, b') → Permits cfg b f d
  refused : ∀ d, Permits cfg b f d →
    ((nextRetryDelay cfg f.now b f.cls f.scope).1 = none ↔
      b.opts.retryBudgetMs ≠ 0 ∧ f.now + d ≥ b.endMs)

/-- The delay and the end of the budget fit their types. -/
def Fits (b : RetryBudget) (d : Nat) : Prop :=
  d < 2 ^ 32 ∧ (b.opts.retryBudgetMs = 0 ∨ b.endMs < 2 ^ 64)

/-- The retry comes after the budget, also by what is left of its delay in 32 bits,
unless the end of the budget does not fit. -/
def OutOfBudget (b : RetryBudget) (now d : Nat) : Prop :=
  b.opts.retryBudgetMs ≠ 0 ∧ b.endMs ≤ now + d ∧
    (b.endMs < 2 ^ 64 → b.endMs ≤ now + d % 2 ^ 32)

/-- The call `set_transient_retry(3, 2^31)` brings about after one retry waits for
`2^31` ms where `3 * 2^31` are meant, and a budget of `2^64 - 1` ms refuses a retry
in the millisecond the loop started. -/
theorem retry_delay_wraps :
    (granted (setTransientRetry 3 2147483648) { opts := {}, startedMs := 1 }
        [⟨.notStarted, .statement, 1⟩]).any (fun b =>
      (nextRetryDelay (setTransientRetry 3 2147483648) 2 b .notStarted .statement).1 ==
        some 2147483648) = true ∧
    (nextRetryDelay (setTransientRetry 3 200) 1
      { opts := { idempotent := true, retryBudgetMs := 2 ^ 64 - 1 }, startedMs := 1 }
      .connectionLost .statement).1 = none ∧
    ¬∀ (attempts : Int32) (baseMs : UInt32) (opts : QueryOpts) (startedMs : Nat)
      (failures : List Failure) (b : RetryBudget) (f : Failure),
      opts.retryBudgetMs < 2 ^ 64 →
      granted (setTransientRetry attempts baseMs) { opts, startedMs } failures = some b →
      OnClock b f.now → ExactCall (setTransientRetry attempts baseMs) b f := by
  refine ⟨by decide, by decide, ?_⟩
  intro h
  have hcall := h 3 200 { idempotent := true, retryBudgetMs := 2 ^ 64 - 1 } 1 []
    { opts := { idempotent := true, retryBudgetMs := 2 ^ 64 - 1 }, startedMs := 1 }
    ⟨.connectionLost, .statement, 1⟩ (by decide) rfl ⟨Nat.le_refl 1, by decide⟩
  have hrefused := (hcall.refused 0 ⟨rfl, rfl⟩).mp (by decide)
  exact absurd hrefused.2 (by decide)

/-! ## What the machine computes -/

/-- The delay of the class is what is meant, in 32 bits. -/
theorem retryDelay_fst (cfg : RetryConfig) (b : RetryBudget) (cls : RetryClass) :
    (retryDelay cfg b cls).1 = (exactDelay cfg b cls).map (· % 2 ^ 32) := by
  cases cls with
  | none => rfl
  | notStarted =>
      simp only [retryDelay, exactDelay]
      split <;> rfl
  | connectionLost =>
      simp only [retryDelay, exactDelay]
      split <;> rfl
  | deadline =>
      simp only [retryDelay, exactDelay]
      split <;> rfl
  | rolledBack =>
      simp only [retryDelay, exactDelay]
      split <;> rfl

/-- Nothing is granted that the class limits do not permit. -/
theorem nextRetryDelay_of_not_permitted {cfg : RetryConfig} {b : RetryBudget} {f : Failure}
    (h : ∀ d, ¬Permits cfg b f d) : (nextRetryDelay cfg f.now b f.cls f.scope).1 = none := by
  unfold nextRetryDelay
  split
  · rename_i hallowed
    have hnone : exactDelay cfg b f.cls = none :=
      Option.eq_none_iff_forall_ne_some.mpr fun d hd => h d ⟨hallowed, hd⟩
    have hfst := retryDelay_fst cfg b f.cls
    rw [hnone, Option.map_none] at hfst
    split
    · rename_i delay b' heq
      rw [heq] at hfst
      cases hfst
    · rfl
  · rfl

/-- The sums in 64 bits put a retry after `d` milliseconds behind the budget. -/
def Refuses (b : RetryBudget) (now d : Nat) : Prop :=
  b.opts.retryBudgetMs ≠ 0 ∧ b.endMs % 2 ^ 64 ≤ (now + d % 2 ^ 32) % 2 ^ 64

/-- A permitted retry: its delay in 32 bits, unless the budget refuses it. -/
theorem nextRetryDelay_of_permits {cfg : RetryConfig} {b : RetryBudget} {f : Failure} {d : Nat}
    (h : Permits cfg b f d) :
    (nextRetryDelay cfg f.now b f.cls f.scope).1 = none ∧ Refuses b f.now d ∨
      (nextRetryDelay cfg f.now b f.cls f.scope).1 = some (d % 2 ^ 32) ∧ ¬Refuses b f.now d := by
  have hfst := retryDelay_fst cfg b f.cls
  rw [h.2, Option.map_some] at hfst
  unfold nextRetryDelay
  rw [if_pos h.1]
  split
  · rename_i delay b' heq
    rw [heq] at hfst
    obtain rfl : delay = d % 2 ^ 32 := Option.some.inj hfst
    split
    · exact .inl ⟨rfl, ‹_›⟩
    · exact .inr ⟨rfl, ‹_›⟩
  · rename_i b' heq
    rw [heq] at hfst
    cases hfst

/-- Exactness of a call, retry by retry. -/
theorem exactCall_iff_permits (cfg : RetryConfig) (b : RetryBudget) (f : Failure) :
    ExactCall cfg b f ↔ ∀ d, Permits cfg b f d →
      (¬Refuses b f.now d → d < 2 ^ 32) ∧
      (Refuses b f.now d ↔ b.opts.retryBudgetMs ≠ 0 ∧ f.now + d ≥ b.endMs) := by
  constructor
  · intro hexact d hd
    have hiff := hexact.refused d hd
    rcases nextRetryDelay_of_permits hd with ⟨hnone, hrefuses⟩ | ⟨hsome, hgrants⟩
    · refine ⟨fun hgrants => absurd hrefuses hgrants, fun _ => hiff.mp hnone, fun _ => hrefuses⟩
    · obtain ⟨-, hsame⟩ := hexact.delay (d % 2 ^ 32) _ (Prod.ext hsome rfl)
      rw [hd.2] at hsame
      refine ⟨fun _ => ?_, fun hrefuses => absurd hrefuses hgrants, fun hspent => ?_⟩
      · rw [Option.some.inj hsame]
        exact Nat.mod_lt _ (by decide)
      · rw [hsome] at hiff
        cases hiff.mpr hspent
  · intro hcond
    refine ⟨fun d' b' hnext => ?_, fun d hd => ?_⟩
    · have hpermits : ∃ d, Permits cfg b f d := by
        by_contra hnone
        have hnot := nextRetryDelay_of_not_permitted (not_exists.mp hnone)
        rw [hnext] at hnot
        cases hnot
      obtain ⟨d, hd⟩ := hpermits
      rcases nextRetryDelay_of_permits hd with ⟨hnone, -⟩ | ⟨hsome, hgrants⟩
      · rw [hnext] at hnone
        cases hnone
      · rw [hnext, Nat.mod_eq_of_lt ((hcond d hd).1 hgrants)] at hsome
        rw [Option.some.inj hsome]
        exact hd
    · rw [← (hcond d hd).2]
      rcases nextRetryDelay_of_permits hd with ⟨hnone, hrefuses⟩ | ⟨hsome, hgrants⟩
      · exact ⟨fun _ => hrefuses, fun _ => hnone⟩
      · rw [hsome]
        exact ⟨nofun, fun hrefuses => absurd hrefuses hgrants⟩

/-- The sums of the budget test, for a clock that ticks: they fail only where the end of
the budget wraps to before its start. -/
theorem refuses_iff {b : RetryBudget} {now : Nat} (hclock : OnClock b now)
    (hbudget : b.opts.retryBudgetMs < 2 ^ 64) (d : Nat) :
    Refuses b now d ↔
      b.opts.retryBudgetMs ≠ 0 ∧ (2 ^ 64 ≤ b.endMs ∨ b.endMs ≤ now + d % 2 ^ 32) := by
  have hstart := hclock.notBefore
  have hnow := hclock.range
  have hmod : d % 2 ^ 32 < 2 ^ 32 := Nat.mod_lt _ (by decide)
  have hsum : (now + d % 2 ^ 32) % 2 ^ 64 = now + d % 2 ^ 32 := Nat.mod_eq_of_lt (by omega)
  have hend : b.endMs = b.startedMs + b.opts.retryBudgetMs := rfl
  unfold Refuses
  rw [hsum]
  refine and_congr_right fun _ => ?_
  by_cases hfits : b.endMs < 2 ^ 64
  · rw [Nat.mod_eq_of_lt hfits]
    omega
  · have hwrap : b.endMs % 2 ^ 64 = b.endMs - 2 ^ 64 := by omega
    rw [hwrap]
    omega

/-- **When a call is exact.**  For every configuration, every state of the budget and
every failure, at every reading of the clock: the call is exact if and only if each retry
the class limits permit has a delay that fits 32 bits within a budget whose end fits 64, or
comes after the budget in any case. -/
theorem exactCall_iff (cfg : RetryConfig) (b : RetryBudget) (f : Failure)
    (hbudget : b.opts.retryBudgetMs < 2 ^ 64) (hclock : OnClock b f.now) :
    ExactCall cfg b f ↔ ∀ d, Permits cfg b f d → Fits b d ∨ OutOfBudget b f.now d := by
  rw [exactCall_iff_permits]
  refine forall_congr' fun d => imp_congr_right fun _ => ?_
  have hnow := hclock.range
  have hmod : d % 2 ^ 32 ≤ d := Nat.mod_le _ _
  have hsmall : d < 2 ^ 32 → d % 2 ^ 32 = d := Nat.mod_eq_of_lt
  rw [refuses_iff hclock hbudget]
  unfold Fits OutOfBudget
  generalize d % 2 ^ 32 = wrapped at hmod hsmall ⊢
  omega

/-! ## Configurations that never wrap -/

/-- The longest delays a configuration leads to fit 32 bits. -/
structure SmallDelays (cfg : RetryConfig) : Prop where
  notStarted : cfg.baseMs * 3 ^ (cfg.attempts - 2) < 2 ^ 32
  rolledBack : 50 * 2 ^ (cfg.attempts - 2) < 2 ^ 32

/-- What the class limits permit is never longer. -/
theorem SmallDelays.lt {cfg : RetryConfig} (h : SmallDelays cfg) {b : RetryBudget}
    {cls : RetryClass} {d : Nat} (hd : exactDelay cfg b cls = some d) : d < 2 ^ 32 := by
  cases cls with
  | none => cases hd
  | notStarted =>
      simp only [exactDelay, Option.ite_none_right_eq_some, Option.some.injEq] at hd
      obtain ⟨hmore, rfl⟩ := hd
      have hpow : 3 ^ b.attempt ≤ 3 ^ (cfg.attempts - 2) :=
        Nat.pow_le_pow_right (by decide) (by omega)
      exact Nat.lt_of_le_of_lt (Nat.mul_le_mul_left _ hpow) h.notStarted
  | connectionLost =>
      simp only [exactDelay, Option.ite_none_right_eq_some, Option.some.injEq] at hd
      obtain ⟨-, rfl⟩ := hd
      decide
  | deadline =>
      simp only [exactDelay, Option.ite_none_right_eq_some, Option.some.injEq] at hd
      obtain ⟨-, rfl⟩ := hd
      decide
  | rolledBack =>
      simp only [exactDelay, Option.ite_none_right_eq_some, Option.some.injEq] at hd
      obtain ⟨hmore, rfl⟩ := hd
      have hpow : 2 ^ b.rolledBack ≤ 2 ^ (cfg.attempts - 2) :=
        Nat.pow_le_pow_right (by decide) (by omega)
      exact Nat.lt_of_le_of_lt (Nat.mul_le_mul_left _ hpow) h.rolledBack

/-- The defaults of `PgPool`. -/
theorem smallDelays_default : SmallDelays (setTransientRetry 3 200) :=
  ⟨by decide, by decide⟩

/-- With the default configuration and five seconds of budget, the second call after a
refused statement is exact. -/
theorem exactCall_iff_second :
    ExactCall (setTransientRetry 3 200)
      { opts := { retryBudgetMs := 5000 }, startedMs := 100, attempt := 1 }
      ⟨.notStarted, .statement, 400⟩ := by
  refine (exactCall_iff (setTransientRetry 3 200)
    { opts := { retryBudgetMs := 5000 }, startedMs := 100, attempt := 1 }
    ⟨.notStarted, .statement, 400⟩ (by decide) ⟨by decide, by decide⟩).mpr ?_
  intro d hd
  exact .inl ⟨smallDelays_default.lt hd.2, .inr (by decide)⟩

end Upq
