/-
  Transaction/RunTx.lean --- `run_tx`: a whole transaction with its retries.

  Source: `include/upq/PgTransaction.h`, `run_tx`.

  What one attempt meets is a `TxAttempt`: the outcomes of `begin_errored`, what its
  body does and returns, the scripts of COMMIT and of what ends the transaction
  otherwise, the clock and the backoff sleep.  A body is any sequence of operations
  that do not themselves end the transaction, with any result, so a run over
  arbitrary attempts is a run with arbitrary bodies and outcomes.

  `Entry.commits` is what is assumed of the server: a COMMIT answered to its end
  without an ERROR commits unless the transaction was aborted; one answered by an
  ERROR with a NotStarted or RolledBack SQLSTATE does not; in every other case it may
  or may not have been applied.  Nothing but a COMMIT commits.
-/
import Upq.Transaction.Commit

set_option autoImplicit false

namespace Upq.Transaction

/-! ## The loop -/

/-- What a body, or `run_tx` itself, comes to: an `expected`, or an exception. -/
inductive TxResult (α : Type) where
  | value (v : α)
  | error (e : PgOpError)
  | thrown
  deriving DecidableEq, Repr

/-- What one turn of the loop meets. -/
structure TxAttempt (α : Type) where
  links : Nat → Link
  begin : Nat → OpenTurn
  body : List Op
  body_isInner : ∀ op ∈ body, op.isInner = true
  result : TxResult α
  commit : Script
  rollback : Script
  finish : Script
  applied : Bool
  now : Nat
  slept : Bool

/-- `detail::is_acquire_failure` -/
def isAcquireFailure (e : PgOpError) : Bool :=
  decide (e.code = .connectionClosed) && decide (e.error = acquireFailed.error)

/-- The failure of a COMMIT of a transaction the body ended itself. -/
def notActiveError : PgOpError := { code := .invalidFuture, error := "transaction not active" }

/-- How an attempt ends: `run_tx` returns, or there is a failure to classify. -/
inductive Ended (α : Type) where
  | returned (r : TxResult α)
  | failed (e : PgOpError) (atCommit : Bool)
  deriving DecidableEq, Repr

variable {α : Type}

/-- One attempt, up to the decision to retry. -/
def TxAttempt.perform (cfg : RetryConfig) (a : TxAttempt α) : World × Ended α :=
  match (World.init false cfg.attempts a.links).begin a.begin with
  | (w, some e) => (w.finish a.finish, .failed e false)
  | (w, none) =>
      let w := w.applyAll a.body
      match a.result with
      | .thrown => (w.finish a.finish, .returned .thrown)
      | .error e => (w.finish a.finish, .failed e false)
      | .value v =>
          match w.commit a.commit a.rollback with
          | (w, committed) =>
              if committed || w.committed then (w, .returned (.value v))
              else (w.finish a.finish, .failed (w.lastCommitError.getD notActiveError) true)

/-- What an attempt leaves behind: the log of its object up to the destructor, whether
a COMMIT that got no verdict was applied, and the `RetryEvent` noted (class, attempt
and delay). -/
structure TxTrace where
  log : List Entry
  applied : Bool
  retry : Option (RetryClass × Nat × Nat)
  deriving DecidableEq, Repr

/-- The class of a failed attempt. -/
def txClass (e : PgOpError) : RetryClass :=
  if isAcquireFailure e then .none else classifyOpError e

/-- The scope of a failed attempt. -/
def txScope (atCommit : Bool) : RetryScope :=
  if atCommit then .transactionCommit else .transaction

/-- `run_tx`: what its attempts left behind, and the result once it has returned. -/
def runTx (cfg : RetryConfig) : RetryBudget → List (TxAttempt α) →
    List TxTrace × Option (TxResult α)
  | _, [] => ([], none)
  | b, a :: rest =>
      match a.perform cfg with
      | (w, .returned r) => ([⟨w.destroy.log, a.applied, none⟩], some r)
      | (w, .failed e atCommit) =>
          match nextRetryDelay cfg a.now b (txClass e) (txScope atCommit) with
          | (none, _) => ([⟨w.destroy.log, a.applied, none⟩], some (.error e))
          | (some delay, b') =>
              let t : TxTrace := ⟨w.destroy.log, a.applied, some (txClass e, b.attempt + 1, delay)⟩
              if delay ≠ 0 ∧ a.slept = false then ([t], some (.error e))
              else
                let next := runTx cfg { b' with attempt := b'.attempt + 1 } rest
                (t :: next.1, next.2)

/-! ## What the server committed -/

/-- The entry is a COMMIT the server carried out; `applied` decides where the reply
does not. -/
def Entry.commits (applied : Bool) : Entry → Bool
  | .issued _ .commit before complete errors =>
      if complete && errors.isEmpty then decide (before = .inTrans)
      else if errors.any fun s => (classifySqlstateRetry s).bySqlstate then false
      else applied
  | _ => false

/-- The transaction of the attempt was committed on the server. -/
def TxTrace.committed (t : TxTrace) : Bool := t.log.any (Entry.commits t.applied)

/-- The entry is a COMMIT. -/
def Entry.isCommit : Entry → Bool
  | .issued _ .commit _ _ _ => true
  | _ => false

theorem commits_eq_false {e : Entry} (h : e.isCommit = false) (applied : Bool) :
    e.commits applied = false := by
  cases e with
  | issued c k before complete errors => cases k <;> first | rfl | cases h
  | _ => rfl

/-- `w'` has logged no COMMIT that `w` had not. -/
def NoCommitSince (w w' : World) : Prop := ∀ e ∈ w'.log, e ∈ w.log ∨ e.isCommit = false

section

variable {w : World}

theorem NoCommitSince.trans {w₁ w₂ : World} (h₁ : NoCommitSince w w₁) (h₂ : NoCommitSince w₁ w₂) :
    NoCommitSince w w₂ := by
  intro e he
  rcases h₂ e he with hold | hnew
  · exact h₁ e hold
  · exact Or.inr hnew

theorem noCommitSince_of_log {w' : World} (h : w'.log = w.log) : NoCommitSince w w' :=
  fun _ he => Or.inl (h ▸ he)

theorem noCommitSince_append {w' : World} {e : Entry} (h : w'.log = w.log ++ [e])
    (he : e.isCommit = false) : NoCommitSince w w' := by
  intro f hf
  rw [h] at hf
  rcases List.mem_append.mp hf with hold | hnew
  · exact Or.inl hold
  · exact Or.inr (List.mem_singleton.mp hnew ▸ he)

theorem noCommitSince_markDead (w : World) : NoCommitSince w w.markDead := by
  unfold World.markDead
  split
  · exact noCommitSince_of_log rfl
  · exact noCommitSince_append rfl rfl

theorem noCommitSince_release (w : World) (how : Pool.HandBack) :
    NoCommitSince w (w.release how) := by
  unfold World.release
  split
  · exact noCommitSince_of_log rfl
  · exact noCommitSince_append rfl rfl

theorem noCommitSince_giveBack (w : World) : NoCommitSince w w.giveBack := by
  obtain ⟨how, -, hhow⟩ := giveBack_cases w
  rw [hhow]
  exact noCommitSince_release w how

theorem noCommitSince_query (w : World) (c : Nat) {k : Stmt} (hk : k ≠ .commit) (sc : Script) :
    NoCommitSince w (w.query c k sc).1 := by
  refine noCommitSince_append rfl ?_
  split
  · cases k <;> first | rfl | exact absurd rfl hk
  · rfl

theorem noCommitSince_endWith (w : World) {k : Stmt} (hk : k ≠ .commit) (sc : Script) :
    NoCommitSince w (w.endWith k sc) := by
  unfold World.endWith
  refine NoCommitSince.trans ?_ (noCommitSince_giveBack _)
  refine NoCommitSince.trans ?_ (noCommitSince_of_log rfl)
  split
  · exact noCommitSince_of_log rfl
  · rename_i c _
    have hq := noCommitSince_query w c hk sc
    dsimp only
    split
    · exact hq.trans (noCommitSince_markDead _)
    · exact hq

theorem endWith_committed (w : World) (k : Stmt) (sc : Script) :
    (w.endWith k sc).committed = false := by
  unfold World.endWith
  obtain ⟨how, -, hhow⟩ := giveBack_cases _
  rw [hhow]
  exact (sameFlags_release _ how).committed

theorem noCommitSince_finish (w : World) (sc : Script) : NoCommitSince w (w.finish sc) := by
  unfold World.finish
  split
  · exact noCommitSince_endWith w (by decide) sc
  · exact noCommitSince_release w _

/-! ## Before COMMIT -/

/-- Nothing has been committed yet. -/
structure Uncommitted (w : World) : Prop where
  flag : w.committed = false
  lastCommitError : w.lastCommitError = none
  log : ∀ e ∈ w.log, e.isCommit = false

theorem Uncommitted.keep {w' : World} (h : Uncommitted w) (hflag : w'.committed = w.committed)
    (herr : w'.lastCommitError = w.lastCommitError) (hlog : NoCommitSince w w') :
    Uncommitted w' where
  flag := hflag.trans h.flag
  lastCommitError := herr.trans h.lastCommitError
  log := fun e he => (hlog e he).elim (h.log e) id

theorem Uncommitted.markDead (h : Uncommitted w) : Uncommitted w.markDead := by
  refine h.keep (sameFlags_markDead w).committed ?_ (noCommitSince_markDead w)
  unfold World.markDead
  split <;> rfl

theorem Uncommitted.acquire (h : Uncommitted w) (c : Nat) (up : Bool) :
    Uncommitted (w.acquire c up) :=
  h.keep rfl rfl (noCommitSince_append rfl rfl)

theorem Uncommitted.query (h : Uncommitted w) (c : Nat) {k : Stmt} (hk : k ≠ .commit)
    (sc : Script) : Uncommitted (w.query c k sc).1 :=
  h.keep rfl rfl (noCommitSince_query w c hk sc)

theorem uncommitted_statement {w' : World} (h : Uncommitted w) (hw' : Statement w w') :
    Uncommitted w' := by
  cases hw' with
  | refused _ => exact h.keep rfl rfl (noCommitSince_append rfl rfl)
  | dropped => exact ⟨rfl, h.markDead.lastCommitError, h.markDead.log⟩
  | queried c k sc _ hk => exact h.query c (by rintro rfl; cases hk) sc
  | copied c o _ => exact h.keep rfl rfl (noCommitSince_append rfl rfl)
  | subsSet subs => exact h.keep rfl rfl (noCommitSince_of_log rfl)
  | replaced _ _ => exact h.markDead
  | replacedBy c up _ _ => exact h.markDead.acquire c up

theorem uncommitted_beginning {w' : World} (h : Uncommitted w) (hw' : Beginning w w') :
    Uncommitted w' := by
  cases hw' with
  | found c _ => exact (h.acquire c false).markDead
  | tried c sc _ => exact ((h.acquire c true).query c (by decide) sc).markDead
  | notBegun _ => exact ⟨rfl, h.lastCommitError, h.log⟩
  | emulated c _ _ => exact ⟨rfl, rfl, (h.acquire c true).log⟩
  | opened c sc _ _ _ =>
      refine ⟨rfl, rfl, ?_⟩
      have hq := (h.acquire c true).query c (k := .begin) (by decide) sc
      exact (hq.keep rfl rfl (noCommitSince_append (e := .began c) rfl rfl) :
        Uncommitted (((w.acquire c true).query c .begin sc).1.began c)).log

theorem uncommitted_inner {w' : World} (h : Uncommitted w) (hw' : Inner w w') :
    Uncommitted w' := by
  cases hw' with
  | statement hstatement => exact uncommitted_statement h hstatement
  | streamAdded c _ _ => exact h.keep rfl rfl (noCommitSince_of_log rfl)
  | borrowing i hborrowing =>
      cases hborrowing with
      | sent st c sc _ _ =>
          unfold World.queryVia
          split
          · exact h.query c (by decide) sc
          · exact h.keep rfl rfl (noCommitSince_append rfl rfl)
      | set st st' _ _ _ => exact h.keep rfl rfl (noCommitSince_of_log rfl)
  | beginning hbeginning => exact uncommitted_beginning h hbeginning

end

theorem uncommitted_init (attempts : Nat) (links : Nat → Link) :
    Uncommitted (World.init false attempts links) :=
  ⟨rfl, rfl, nofun⟩

/-- `begin` and a body commit nothing. -/
theorem uncommitted_body {w : World} (h : Uncommitted w) {ops : List Op}
    (hops : ∀ op ∈ ops, op.isInner = true) : Uncommitted (w.applyAll ops) := by
  refine keep_of_applyAll (fun op hop w hw => ?_) h
  exact keep_of_effects (R := Inner) (fun _ _ h => uncommitted_inner h)
    (inners_apply (hops op hop)) hw

/-! ## One attempt -/

/-- A verdict of the server on a COMMIT is in the entry the COMMIT has logged. -/
theorem commits_eq_false_of_bySqlstate {w : World} {c : Nat} {sc : Script}
    (h : (txClass (toOpError (w.query c .commit sc).2)).bySqlstate = true) (applied : Bool) :
    ∀ e, (w.query c .commit sc).1.log = w.log ++ [e] → e.commits applied = false := by
  have hstate : (classifySqlstateRetry (w.query c .commit sc).2.errDetail.sqlstate).bySqlstate =
      true := by
    unfold txClass at h
    split at h
    · cases h
    · exact (congrArg RetryClass.bySqlstate (classifySqlstateRetry_of_bySqlstate h).2).trans h
  intro e he
  rw [← List.singleton_inj.mp (List.append_cancel_left he)]
  split
  · have hany : ((runQuery sc (Stmt.commit.after (w.links c).status) (w.links c)).read.filterMap
        PGresult.errorState?).any (fun s => (classifySqlstateRetry s).bySqlstate) = true := by
      rcases runQuery_sqlstate sc (Stmt.commit.after (w.links c).status) (w.links c) with
        hempty | ⟨res, hres, hsome⟩
      · have hnone : classifySqlstateRetry (w.query c .commit sc).2.errDetail.sqlstate = .none :=
          (congrArg classifySqlstateRetry hempty).trans rfl
        rw [hnone] at hstate
        cases hstate
      · exact List.any_eq_true.mpr ⟨_, List.mem_filterMap.mpr ⟨res, hres, hsome⟩, hstate⟩
    have hne : ((runQuery sc (Stmt.commit.after (w.links c).status) (w.links c)).read.filterMap
        PGresult.errorState?).isEmpty = false := by
      rw [List.isEmpty_eq_false_iff]
      intro hnil
      rw [hnil] at hany
      cases hany
    simp only [Entry.commits, hany, hne, Bool.and_false, Bool.false_eq_true, if_false, if_true]
  · rfl

/-- A COMMIT that failed: the flag is not set, and if the failure may be re-run nothing
was committed. -/
theorem commit_failed {w : World} (hreal : w.emulate = false) (hw : Uncommitted w)
    {sc scEnd : Script} (h : (w.commit sc scEnd).2 = false) :
    (w.commit sc scEnd).1.committed = false ∧
      ((txClass ((w.commit sc scEnd).1.lastCommitError.getD notActiveError)).bySqlstate = true →
        ∀ applied, ∀ e ∈ (w.commit sc scEnd).1.log, e.commits applied = false) := by
  have hquiet : ∀ {w' : World}, NoCommitSince w w' →
      ∀ applied, ∀ e ∈ w'.log, e.commits applied = false := by
    intro w' hsince applied e he
    exact commits_eq_false ((hsince e he).elim (hw.log e) id) applied
  have hcases := commit_committing hreal sc scEnd
  generalize w.commit sc scEnd = r at h hcases ⊢
  obtain ⟨w', b⟩ := r
  dsimp only at h hcases ⊢
  cases hcases with
  | inactive _ => exact ⟨hw.flag, fun _ => hquiet (noCommitSince_of_log rfl)⟩
  | lost _ => exact ⟨rfl, fun _ => hquiet (noCommitSince_markDead w)⟩
  | aborted c _ _ =>
      have hend := noCommitSince_endWith { w with lastCommitError := some abortedError }
        (k := .rollback) (by decide) scEnd
      exact ⟨endWith_committed _ _ _, fun _ => hquiet hend⟩
  | sent c how _ _ _ _ hcommitted hlast hlog =>
      refine ⟨hcommitted.trans h, ?_⟩
      intro hcls applied e he
      rw [hlast, h] at hcls
      rw [hlog] at he
      rcases List.mem_append.mp he with hsent | hback
      · rcases List.mem_append.mp (hsent : e ∈ w.log ++ [_]) with hold | hnew
        · exact commits_eq_false (hw.log e hold) applied
        · refine commits_eq_false_of_bySqlstate hcls applied e ?_
          rw [List.mem_singleton.mp hnew]
          rfl
      · rw [List.mem_singleton.mp hback]
        rfl

/-- The object of an attempt when its body is done. -/
def TxAttempt.bodyDone (cfg : RetryConfig) (a : TxAttempt α) : World :=
  ((World.init false cfg.attempts a.links).begin a.begin).1.applyAll a.body

section

variable (cfg : RetryConfig) (a : TxAttempt α)

theorem uncommitted_begin :
    Uncommitted ((World.init false cfg.attempts a.links).begin a.begin).1 :=
  keep_of_effects (R := Inner) (fun _ _ h => uncommitted_inner h) (inners_begin a.begin)
    (uncommitted_init cfg.attempts a.links)

theorem uncommitted_bodyDone : Uncommitted (a.bodyDone cfg) :=
  uncommitted_body (uncommitted_begin cfg a) a.body_isInner

theorem onSession_bodyDone : OnSession (a.bodyDone cfg) :=
  onSession_applyAll (onSession_init cfg.attempts a.links) (.begin a.begin :: a.body)

/-- A trace without a COMMIT that may have been carried out. -/
theorem committed_eq_false_of_log {log : List Entry} {applied : Bool}
    {retry : Option (RetryClass × Nat × Nat)} (h : ∀ e ∈ log, e.commits applied = false) :
    TxTrace.committed ⟨log, applied, retry⟩ = false := by
  rw [TxTrace.committed, List.any_eq_false]
  intro e he
  simp [h e he]

/-- Ending an attempt after a failure commits nothing more. -/
theorem destroy_finish_commits {w : World} {sc : Script} {applied : Bool}
    (h : ∀ e ∈ w.log, e.commits applied = false) :
    ∀ e ∈ (w.finish sc).destroy.log, e.commits applied = false := by
  have hsince := (noCommitSince_finish w sc).trans (noCommitSince_markDead (w.finish sc))
  intro e he
  rcases hsince e he with hold | hnew
  · exact h e hold
  · exact commits_eq_false hnew applied

theorem mem_destroy_log {w : World} {e : Entry} (h : e ∈ w.log) : e ∈ w.destroy.log := by
  unfold World.destroy World.markDead
  split
  · exact h
  · exact List.mem_append_left _ h

/-- **An attempt that is re-run committed nothing.** -/
theorem perform_failed {w : World} {e : PgOpError} {atCommit : Bool}
    {o : QueryOpts} (hidem : o.idempotent = false)
    (h : a.perform cfg = (w, .failed e atCommit))
    (hallowed : retryAllowed o (txClass e) (txScope atCommit) = true)
    (retry : Option (RetryClass × Nat × Nat)) :
    TxTrace.committed ⟨w.destroy.log, a.applied, retry⟩ = false := by
  refine committed_eq_false_of_log ?_
  unfold TxAttempt.perform at h
  split at h
  · rename_i w₁ e₁ hbegin
    obtain ⟨rfl, -⟩ := Prod.mk.inj h
    have hw := uncommitted_begin cfg a
    rw [hbegin] at hw
    exact destroy_finish_commits fun e he => commits_eq_false (hw.log e he) _
  · rename_i w₁ hbegin
    have hdone : w₁.applyAll a.body = a.bodyDone cfg := by
      rw [TxAttempt.bodyDone, hbegin]
    have hw := uncommitted_bodyDone cfg a
    dsimp only at h
    rw [hdone] at h
    split at h
    · cases h
    · obtain ⟨rfl, -⟩ := Prod.mk.inj h
      exact destroy_finish_commits fun e he => commits_eq_false (hw.log e he) _
    · split at h
      · cases h
      · rename_i hnot
        obtain ⟨rfl, hfailed⟩ := Prod.mk.inj h
        cases hfailed
        rw [Bool.or_eq_true, not_or] at hnot
        have hfalse : ((a.bodyDone cfg).commit a.commit a.rollback).2 = false :=
          Bool.eq_false_iff.mpr hnot.1
        refine destroy_finish_commits ?_
        exact (commit_failed (onSession_bodyDone cfg a).real hw hfalse).2
          (bySqlstate_of_retryAllowed_commit hidem hallowed) _

/-- **An attempt that returns a value has committed.** -/
theorem perform_value {w : World} {v : α} (h : a.perform cfg = (w, .returned (.value v)))
    (retry : Option (RetryClass × Nat × Nat)) :
    TxTrace.committed ⟨w.destroy.log, a.applied, retry⟩ = true := by
  unfold TxAttempt.perform at h
  split at h
  · cases h
  · rename_i w₁ hbegin
    have hdone : w₁.applyAll a.body = a.bodyDone cfg := by
      rw [TxAttempt.bodyDone, hbegin]
    have hon := onSession_bodyDone cfg a
    dsimp only at h
    rw [hdone] at h
    split at h
    · cases h
    · cases h
    · split at h
      · rename_i hcommitted
        obtain ⟨rfl, -⟩ := Prod.mk.inj h
        have htrue : ((a.bodyDone cfg).commit a.commit a.rollback).2 = true := by
          by_contra hfalse
          have hfalse := Bool.eq_false_iff.mpr hfalse
          have hflag := (commit_failed hon.real (uncommitted_bodyDone cfg a) hfalse).1
          rw [Bool.or_eq_true] at hcommitted
          rcases hcommitted with hyes | hyes
          · exact absurd (hfalse.symm.trans hyes) (by decide)
          · exact absurd (hflag.symm.trans hyes) (by decide)
        obtain ⟨-, c, before, since, after, hlog, -, -⟩ := committedOn_of_commit hon htrue
        refine List.any_eq_true.mpr ⟨.issued c .commit .inTrans true [], ?_, rfl⟩
        refine mem_destroy_log ?_
        rw [hlog]
        simp
      · cases h

end

/-! ## The whole run -/

section

variable {cfg : RetryConfig} {opts : QueryOpts}

/-- At most one attempt commits, and a value is returned only by one that did, for a
run from any point of the budget. -/
theorem runTx_spec (hidem : opts.idempotent = false) (attempts : List (TxAttempt α))
    (b : RetryBudget) (hopts : b.opts = opts) :
    (runTx cfg b attempts).1.countP TxTrace.committed ≤ 1 ∧
    ∀ v, (runTx cfg b attempts).2 = some (.value v) →
      (runTx cfg b attempts).1.countP TxTrace.committed = 1 ∧
      ∃ t, (runTx cfg b attempts).1.getLast? = some t ∧ t.committed = true := by
  induction attempts generalizing b with
  | nil => exact ⟨Nat.zero_le _, nofun⟩
  | cons a rest ih =>
      -- the loop ends with this attempt
      have hlast : ∀ t : TxTrace, List.countP TxTrace.committed [t] ≤ 1 := fun t =>
        List.countP_le_length
      unfold runTx
      split
      · rename_i w r hperform
        refine ⟨hlast _, ?_⟩
        rintro v ⟨rfl⟩
        have hyes := perform_value cfg a hperform none
        exact ⟨by simp [hyes], _, rfl, hyes⟩
      · rename_i w e atCommit hperform
        split
        · exact ⟨hlast _, nofun⟩
        · rename_i delay b' hdelay
          dsimp only
          split
          · exact ⟨hlast _, nofun⟩
          · have hallowed := (nextRetryDelay_eq_some hdelay).1
            rw [hopts] at hallowed
            have hno := perform_failed cfg a hidem hperform hallowed
              (some (txClass e, b.attempt + 1, delay))
            have hopts' : b'.opts = opts := by
              have hkeep := nextRetryDelay_opts cfg a.now b (txClass e) (txScope atCommit)
              rw [hdelay] at hkeep
              exact hkeep.trans hopts
            obtain ⟨hcount, hvalue⟩ := ih { b' with attempt := b'.attempt + 1 } hopts'
            rw [List.countP_cons, hno]
            refine ⟨by simpa using hcount, ?_⟩
            intro v hv
            obtain ⟨hone, t, ht, hyes⟩ := hvalue v hv
            refine ⟨by simpa using hone, t, ?_, hyes⟩
            rw [List.getLast?_cons, ht]
            rfl

/-- The loop returns: every retry takes from the budget. -/
theorem runTx_returns (attempts : List (TxAttempt α)) (b : RetryBudget)
    (hlen : b.left cfg < attempts.length) : ∃ r, (runTx cfg b attempts).2 = some r := by
  induction attempts generalizing b with
  | nil => exact absurd hlen (Nat.not_lt_zero _)
  | cons a rest ih =>
      unfold runTx
      split
      · exact ⟨_, rfl⟩
      · split
        · exact ⟨_, rfl⟩
        · rename_i delay b' hdelay
          have hless := left_lt_of_nextRetryDelay hdelay
          rw [List.length_cons] at hlen
          dsimp only
          split
          · exact ⟨_, rfl⟩
          · exact ih { b' with attempt := b'.attempt + 1 } (by omega)

end

/-- **`run_tx` commits at most once.**  For every retry configuration, every options with
`idempotent = false` and every sequence of attempts, with any bodies and outcomes: at
most one attempt's transaction is committed on the server, if a value is returned then
exactly the last attempt's was, and the loop returns after at most `2 * attempts + 1`
attempts. -/
theorem runTx_commits_at_most_once (cfg : RetryConfig) (opts : QueryOpts) (startedMs : Nat)
    (attempts : List (TxAttempt α)) (hidem : opts.idempotent = false) :
    (runTx cfg { opts, startedMs } attempts).1.countP TxTrace.committed ≤ 1 ∧
    (∀ v, (runTx cfg { opts, startedMs } attempts).2 = some (.value v) →
      (runTx cfg { opts, startedMs } attempts).1.countP TxTrace.committed = 1 ∧
      ∃ t, (runTx cfg { opts, startedMs } attempts).1.getLast? = some t ∧ t.committed = true) ∧
    (2 * cfg.attempts < attempts.length →
      ∃ r, (runTx cfg { opts, startedMs } attempts).2 = some r) := by
  obtain ⟨hcount, hvalue⟩ := runTx_spec hidem attempts { opts, startedMs } rfl
  refine ⟨hcount, hvalue, fun hlen => runTx_returns attempts { opts, startedMs } ?_⟩
  have hpos := cfg.attempts_pos
  simp only [RetryBudget.left]
  omega

/-- The first COMMIT fails to serialize (`40001`), the second attempt commits. -/
theorem runTx_commits_at_most_once_serialized :
    let attempt (reply : PGresult) : TxAttempt Nat :=
      { links := fun _ => unusedLink
        begin := fun _ => ⟨some (0, true), .answered [.command 0], true⟩
        body := [.plain (.answered [.command 1])], body_isInner := by decide, result := .value 7
        commit := .answered [reply], rollback := .answered [], finish := .answered []
        applied := true, now := 0, slept := true }
    let attempts :=
      [attempt (.error "40001" "could not serialize access" "" "" ""), attempt (.command 0)]
    let run := runTx ⟨3, 200, by decide⟩ { opts := {}, startedMs := 0 } attempts
    run.2 = some (.value 7) ∧ run.1.length = 2 ∧ run.1.countP TxTrace.committed = 1 := by
  intro attempt attempts run
  have hvalue : run.2 = some (.value 7) := by decide +kernel
  have hspec := (runTx_commits_at_most_once ⟨3, 200, by decide⟩ {} 0 attempts rfl).2.1 7 hvalue
  exact ⟨hvalue, by decide +kernel, hspec.1⟩

end Upq.Transaction
