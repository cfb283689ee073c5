/-
  Transaction/Isolation.lean --- under which isolation level statements run.

  Source: `build_begin_sql`, the constructor and `open` in `src/upq/PgTransaction.cpp`,
  `PgTransaction::run` in `include/upq/PgTransaction.h`; `docs/large-exports.md`,
  "Parallel workers with pg_export_snapshot".

  With a real BEGIN, every statement up to the end of the transaction is executed by
  one session, inside the transaction that BEGIN opened with the configured level
  (`Seated`).  A read-only transaction that is neither deferrable nor forced to a real
  BEGIN sends no BEGIN at all: its statements autocommit under the server's default
  level, and a retry may move them to another connection.
-/
import Upq.Transaction.Commit

set_option autoImplicit false

namespace Upq.Transaction

open Relation (ReflTransGen)

/-! ## BEGIN -/

/-- `build_begin_sql` -/
def buildBeginSql (cfg : PgTransactionConfig) : String :=
  let anyOpts := cfg.isolation != .default || cfg.readOnly || cfg.deferrable
  if !anyOpts then "BEGIN"
  else
    "BEGIN" ++
      (match cfg.isolation with
        | .readCommitted => " ISOLATION LEVEL READ COMMITTED"
        | .repeatableRead => " ISOLATION LEVEL REPEATABLE READ"
        | .serializable => " ISOLATION LEVEL SERIALIZABLE"
        | .default => "") ++
      (if cfg.readOnly then " READ ONLY" else " READ WRITE") ++
      (if cfg.deferrable then " DEFERRABLE" else "")

/-- `emulate_readonly_autocommit_` -/
def emulateReadonlyAutocommit (cfg : PgTransactionConfig) : Bool :=
  cfg.readOnly && !cfg.deferrable && !cfg.forceRealBegin

/-- The isolation level the server reads from a BEGIN; without a clause it is the
session's default. -/
def isolationLevel (sql : String) : TxIsolationLevel :=
  if contains sql "ISOLATION LEVEL SERIALIZABLE" then .serializable
  else if contains sql "ISOLATION LEVEL REPEATABLE READ" then .repeatableRead
  else if contains sql "ISOLATION LEVEL READ COMMITTED" then .readCommitted
  else .default

/-- BEGIN asks for the configured level. -/
theorem isolationLevel_buildBeginSql (cfg : PgTransactionConfig) :
    isolationLevel (buildBeginSql cfg) = cfg.isolation := by
  obtain ⟨isolation, readOnly, deferrable, forceRealBegin⟩ := cfg
  -- the text does not depend on `force_real_begin`
  change isolationLevel (buildBeginSql ⟨isolation, readOnly, deferrable, false⟩) = isolation
  revert readOnly deferrable
  cases isolation <;> decide +kernel

/-! ## Statements between begin() and the end -/

/-- A statement, a savepoint operation or an operation on a stream from number `base`
on. -/
def Op.isBetween (base : Nat) : Op → Bool
  | .stream _ => true
  | .fetch i _ | .closeStream i _ => base ≤ i
  | op => op.isStatement

/-- Nothing but the connection's loss, refusals, and statements `c` executes inside a
transaction that they leave open. -/
def Entry.InsideOn (c : Nat) : Entry → Prop
  | .issued d k before _ _ => d = c ∧ k.isInner = true ∧ before ≠ .idle
  | .handedBack _ _ | .refused => True
  | _ => False

/-- Since `past`, BEGIN has opened a transaction with the configured level on one
connection, after tries that failed, and everything after it was executed inside. -/
def OneTransaction (cfg : PgTransactionConfig) (past log : List Entry) : Prop :=
  ∃ c tries since,
    log = past ++ tries ++ .issued c .begin .idle true [] :: .began c :: since ∧
    isolationLevel (buildBeginSql cfg) = cfg.isolation ∧ ∀ e ∈ since, e.InsideOn c

/-- Isolation is never dropped: whatever an object has been through, if `begin()` opens a
transaction then the statements up to its end, with any outcomes, are executed inside one
server transaction of the configured level. -/
def IsolationKept (cfg : PgTransactionConfig) : Prop :=
  ∀ (attempts : Nat) (links : Nat → Link) (past : List Op) (env : Nat → OpenTurn) (ops : List Op),
    let w := (World.init (emulateReadonlyAutocommit cfg) attempts links).applyAll past
    w.active = false → (w.begin env).2 = none →
    (∀ op ∈ ops, op.isBetween (w.begin env).1.streams.length = true) →
    OneTransaction cfg w.log ((w.begin env).1.applyAll ops).log

/-! ## A transaction with a real BEGIN -/

/-- The object is in the transaction opened on `c` when the log was `log` and there were
`base` streams, or has lost its connection. -/
structure Seated (c : Nat) (log : List Entry) (base : Nat) (w : World) : Prop where
  real : w.emulate = false
  log : ∃ since, w.log = log ++ since ∧ ∀ e ∈ since, e.InsideOn c
  conn : ∀ d, w.conn = some d → d = c
  inside : (w.links c).connected = true → w.conn = some c ∧ (w.links c).status ≠ .idle
  length : base ≤ w.streams.length
  streams : ∀ (i : Nat) (st : Stream), base ≤ i → w.streams[i]? = some st →
    st.epoch = w.epoch ∧ ∀ d, st.conn = some d → d = c

section

variable {c : Nat} {log : List Entry} {base : Nat} {w w' : World}

/-- One more entry, or none, that leaves the streams alone. -/
theorem Seated.grow (h : Seated c log base w) (hs : SameStreams w w') (new : List Entry)
    (hlog : w'.log = w.log ++ new) (hnew : ∀ e ∈ new, e.InsideOn c)
    (hconn : ∀ d, w'.conn = some d → d = c)
    (hinside : (w'.links c).connected = true → w'.conn = some c ∧ (w'.links c).status ≠ .idle) :
    Seated c log base w' where
  real := hs.emulate.trans h.real
  log := by
    obtain ⟨since, hold, hall⟩ := h.log
    refine ⟨since ++ new, by rw [hlog, hold, List.append_assoc], ?_⟩
    intro e he
    exact (List.mem_append.mp he).elim (hall e) (hnew e)
  conn := hconn
  inside := hinside
  length := hs.streams ▸ h.length
  streams := by
    rw [hs.streams, hs.epoch]
    exact h.streams

/-- An inner statement sent to `c`, the connection held or a closed one. -/
theorem Seated.query (h : Seated c log base w) {k : Stmt} (hk : k.isInner = true) (sc : Script) :
    Seated c log base (w.query c k sc).1 := by
  refine h.grow ⟨rfl, rfl, rfl⟩ _ rfl ?_ h.conn ?_
  · intro e he
    rw [List.mem_singleton.mp he]
    split
    · exact ⟨rfl, hk, (h.inside ‹_›).2⟩
    · trivial
  · intro hup
    rw [query_link] at hup ⊢
    obtain ⟨hwas, -, -, -, hstatus⟩ := runQuery_connected hup
    obtain ⟨hconn, hidle⟩ := h.inside hwas
    refine ⟨hconn, ?_⟩
    rw [hstatus]
    exact Stmt.after_ne_idle hk hidle _

theorem Seated.copied (h : Seated c log base w) (hup : w.up = some c) (o : CopyOutcome) :
    Seated c log base (w.copied c o) := by
  obtain ⟨hconn, hconnected⟩ := conn_of_up hup
  have hidle := (h.inside hconnected).2
  refine h.grow ⟨rfl, rfl, rfl⟩ _ rfl ?_ h.conn ?_
  · intro e he
    rw [List.mem_singleton.mp he]
    exact ⟨rfl, rfl, hidle⟩
  · intro _
    refine ⟨hconn, ?_⟩
    simp only [World.copied, Function.update_self, CopyOutcome.link]
    exact Stmt.after_ne_idle rfl hidle _

theorem Seated.markDead (h : Seated c log base w) : Seated c log base w.markDead := by
  have hs := sameStreams_markDead w
  unfold World.markDead at hs ⊢
  split
  · exact h
  · rename_i d hconn
    obtain rfl := h.conn d hconn
    rw [hconn] at hs
    refine h.grow hs _ rfl ?_ (fun _ h => by cases h) ?_
    · intro e he
      rw [List.mem_singleton.mp he]
      trivial
    · simp [Link.connected]

/-- The flags and the savepoint objects do not matter. -/
theorem Seated.congr (h : Seated c log base w) (hs : SameStreams w w') (hlog : w'.log = w.log)
    (hconn : w'.conn = w.conn) (hlinks : w'.links = w.links) : Seated c log base w' := by
  refine h.grow hs [] (by rw [hlog, List.append_nil]) nofun (hconn ▸ h.conn) ?_
  rw [hconn, hlinks]
  exact h.inside

theorem Seated.setStreams (h : Seated c log base w) {streams : List Stream}
    (hlen : base ≤ streams.length)
    (hst : ∀ (i : Nat) (st : Stream), base ≤ i → streams[i]? = some st →
      st.epoch = w.epoch ∧ ∀ d, st.conn = some d → d = c) :
    Seated c log base { w with streams := streams } :=
  ⟨h.real, h.log, h.conn, h.inside, hlen, hst⟩

theorem seated_statement (h : Seated c log base w) (hw : Statement w w') :
    Seated c log base w' := by
  cases hw with
  | refused _ =>
      refine h.grow ⟨rfl, rfl, rfl⟩ [.refused] rfl ?_ h.conn h.inside
      intro e he
      rw [List.mem_singleton.mp he]
      trivial
  | dropped => exact h.markDead.congr ⟨rfl, rfl, rfl⟩ rfl rfl rfl
  | queried d k sc hup hk =>
      obtain rfl := h.conn d (conn_of_up hup).1
      exact h.query hk sc
  | copied d o hlive =>
      have hup := up_of_live hlive
      obtain rfl := h.conn d (conn_of_up hup).1
      exact h.copied hup o
  | subsSet _ => exact h.congr ⟨rfl, rfl, rfl⟩ rfl rfl rfl
  | replaced _ hemu => exact absurd (h.real.symm.trans hemu) (by decide)
  | replacedBy _ _ _ hemu => exact absurd (h.real.symm.trans hemu) (by decide)

theorem seated_borrowing {i : Nat} (hi : base ≤ i) (h : Seated c log base w)
    (hw : Borrowing i w w') : Seated c log base w' := by
  cases hw with
  | sent st d sc hst hconn =>
      obtain ⟨hepoch, hd⟩ := h.streams i st hi hst
      obtain rfl := hd d hconn
      unfold World.queryVia
      rw [if_pos hepoch]
      exact h.query rfl sc
  | set st st' hst hepoch hconn =>
      obtain ⟨hold, hd⟩ := h.streams i st hi hst
      refine h.setStreams (by simpa using h.length) ?_
      intro j x hj hx
      by_cases heq : i = j
      · subst heq
        rw [List.getElem?_set_self', hst] at hx
        obtain rfl := Option.some.inj hx
        exact ⟨hepoch.trans hold, fun e he => hd e (hconn e he)⟩
      · rw [List.getElem?_set_ne heq] at hx
        exact h.streams j x hj hx

theorem seated_addStream (h : Seated c log base w) {d : Nat} (hconn : w.conn = some d) :
    Seated c log base (w.addStream d) := by
  refine h.setStreams (by simpa using h.length.trans (Nat.le_succ _)) ?_
  intro i st hi hst
  rcases List.mem_append.mp (List.mem_of_getElem? hst) with _ | hnew
  · by_cases hlt : i < w.streams.length
    · rw [List.getElem?_append_left hlt] at hst
      exact h.streams i st hi hst
    · rw [List.getElem?_append_right (Nat.le_of_not_lt hlt)] at hst
      obtain rfl := List.mem_singleton.mp (List.mem_of_getElem? hst)
      exact ⟨rfl, fun e he => h.conn e (hconn.trans he)⟩
  · obtain rfl := List.mem_singleton.mp hnew
    exact ⟨rfl, fun e he => h.conn e (hconn.trans he)⟩

/-- **Operation rule.**  Every operation short of the end keeps the object seated. -/
theorem seated_apply (h : Seated c log base w) {op : Op} (hop : op.isBetween base = true) :
    Seated c log base (w.apply op) := by
  have hstatements : ∀ {w' : World}, Statements w w' → Seated c log base w' := fun hs =>
    keep_of_effects (P := Seated c log base) (fun _ _ h' => seated_statement h') hs h
  have hborrowings : ∀ {i : Nat} {w' : World}, base ≤ i → ReflTransGen (Borrowing i) w w' →
      Seated c log base w' := fun hi hs =>
    keep_of_effects (P := Seated c log base) (fun _ _ h' => seated_borrowing hi h') hs h
  cases op with
  | stream sc =>
      rcases stream_cases (w := w) sc with hs | ⟨d, hlive, heq⟩
      · exact hstatements hs
      · have hup := up_of_live hlive
        simp only [World.apply, heq]
        refine seated_addStream ?_ (conn_of_up hup).1
        exact seated_statement h (.queried d .other sc hup rfl)
  | fetch i sc => exact hborrowings (of_decide_eq_true hop) (borrowings_fetch i sc)
  | closeStream i sc => exact hborrowings (of_decide_eq_true hop) (borrowings_closeStream i sc)
  | begin _ | commit _ _ | rollback _ | abort _ | finish _ => cases hop
  | _ => exact hstatements (statements_apply rfl)

end

/-! ## begin() -/

/-- A turn of `open` that reports success has opened a transaction. -/
theorem openTurn_done {turn : OpenTurn} {w w' : World} (h : openTurn turn w = .done w' none) :
    w'.active = true := by
  unfold openTurn at h
  dsimp only at h
  repeat' split at h
  all_goals cases h
  all_goals rfl

/-- One that is tried again reports why. -/
theorem openTurn_again {turn : OpenTurn} {w w' : World} {r : Option PgOpError}
    (h : openTurn turn w = .again w' r) : r ≠ none := by
  unfold openTurn at h
  dsimp only at h
  repeat' split at h
  all_goals cases h
  nofun

theorem openLoop_success {env : Nat → OpenTurn} {remaining attempt : Nat} {w : World}
    (h : (openLoop env remaining attempt w).2 = none) :
    (openLoop env remaining attempt w).1.active = true := by
  fun_induction openLoop env remaining attempt w with
  | case1 remaining attempt w w' r heq =>
      obtain rfl : r = none := h
      exact openTurn_done heq
  | case2 attempt w w' r heq => exact absurd h (openTurn_again heq)
  | case3 attempt w w' r heq remaining ih => exact ih h

theorem markDead_log (w : World) : ∃ new, w.markDead.log = w.log ++ new := by
  unfold World.markDead
  split
  · exact ⟨[], (List.append_nil _).symm⟩
  · exact ⟨_, rfl⟩

/-- BEGIN answered without an ERROR, as it stands in the log. -/
theorem begin_logged {w : World} {c : Nat} {sc : Script}
    (hok : ((w.acquire c true).query c .begin sc).2.ok = true) :
    ((w.acquire c true).query c .begin sc).1.log =
      w.log ++ [.acquired c] ++ [.issued c .begin .idle true []] := by
  obtain ⟨hconn, -, hcomplete, hnone, -, -⟩ := runQuery_ok hok
  have hidle : ((w.acquire c true).links c).status = .idle := by simp [World.acquire]
  rw [hidle] at hcomplete hnone
  simp only [World.query, hconn, hidle, hcomplete, List.filterMap_eq_nil_iff.mpr hnone, if_true]
  rfl

/-- **A successful begin() with a real BEGIN** has opened a transaction on the connection
it holds. -/
theorem begin_seated {w : World} (hreal : w.emulate = false) (hact : w.active = false)
    {env : Nat → OpenTurn} (hok : (w.begin env).2 = none) :
    ∃ c tries, (w.begin env).1.log =
        w.log ++ tries ++ [.issued c .begin .idle true [], .began c] ∧
      Seated c (w.begin env).1.log (w.begin env).1.streams.length (w.begin env).1 := by
  have hopen : w.begin env = openLoop env (w.attempts - 1) 0 w := by
    simp [World.begin, hact]
  rw [hopen] at hok ⊢
  have hactive := openLoop_success hok
  revert hactive
  refine openLoop_rule
    (fun w' => w'.emulate = false ∧ w'.active = false ∧ ∃ tries, w'.log = w.log ++ tries)
    (fun w' _ => w'.active = true → ∃ c tries, w'.log =
        w.log ++ tries ++ [.issued c .begin .idle true [], .began c] ∧
      Seated c w'.log w'.streams.length w') ?_ ?_ _ _ w
    ⟨hreal, hact, [], (List.append_nil _).symm⟩
  · rintro w₁ w' r ⟨hreal, hact, tries, hlog⟩ hturn
    cases hturn with
    | denied =>
        intro hactive
        exact absurd (hact.symm.trans hactive) (by decide)
    | down c _ =>
        intro hactive
        rw [(sameFlags_markDead _).active] at hactive
        exact absurd (hact.symm.trans hactive) (by decide)
    | emulated c hemu => exact absurd (hreal.symm.trans hemu) (by decide)
    | opened c sc _ hok =>
        intro _
        refine ⟨c, tries ++ [.acquired c], ?_, hreal, ⟨[], (List.append_nil _).symm, nofun⟩, ?_, ?_,
          le_rfl, ?_⟩
        · change ((w₁.acquire c true).query c .begin sc).1.log ++ [.began c] = _
          rw [begin_logged hok, hlog]
          simp
        · intro d hd
          exact (Option.some.inj hd).symm
        · intro _
          exact ⟨rfl, (began_inTrans hok).trans_ne (by decide)⟩
        · intro i st hi hst
          rw [List.getElem?_eq_none hi] at hst
          cases hst
    | failed c sc _ => nofun
  · rintro w₁ w' r ⟨hreal, hact, tries, hlog⟩ hturn
    cases hturn with
    | again c sc _ =>
        have hsame := sameFlags_markDead ((w₁.acquire c true).query c .begin sc).1
        refine ⟨⟨hsame.emulate.trans hreal, hsame.active.trans hact, ?_⟩, nofun⟩
        obtain ⟨e, hquery⟩ : ∃ e, ((w₁.acquire c true).query c .begin sc).1.log =
            w₁.log ++ [.acquired c] ++ [e] := ⟨_, rfl⟩
        obtain ⟨dead, hdead⟩ := markDead_log ((w₁.acquire c true).query c .begin sc).1
        refine ⟨tries ++ [.acquired c] ++ [e] ++ dead, ?_⟩
        rw [hdead, hquery, hlog]
        simp only [List.append_assoc]

/-! ## Isolation is kept exactly with a real BEGIN -/

theorem isolationKept_of_real {cfg : PgTransactionConfig}
    (hreal : emulateReadonlyAutocommit cfg = false) : IsolationKept cfg := by
  intro attempts links past env ops w hact hok hops
  have hemu : w.emulate = false := by
    change ((World.init (emulateReadonlyAutocommit cfg) attempts links).applyAll past).emulate =
      false
    rw [hreal]
    exact (onSession_applyAll (onSession_init attempts links) past).real
  obtain ⟨c, tries, hlog, hseated⟩ := begin_seated hemu hact hok
  have hend := keep_of_applyAll (P := Seated c (w.begin env).1.log (w.begin env).1.streams.length)
    (fun op hop _ h => seated_apply h (hops op hop)) hseated
  obtain ⟨since, hsince, hinside⟩ := hend.log
  refine ⟨c, tries, since, ?_, isolationLevel_buildBeginSql cfg, hinside⟩
  rw [hsince, hlog]
  simp

/-- A statement refused before it started: `53300`, too many connections. -/
def tooManyConnections : Script :=
  .answered [.error "53300" "too many connections" "" "" ""]

/-- Two statements of an emulated transaction; the second one is refused on connection 0
and run again on connection 1. -/
def emulatedOps : List Op :=
  [.run .dropDeadConnection fun _ => ⟨.commandDone, true, none⟩,
    .run .dropDeadConnection fun attempt =>
      if attempt = 0 then ⟨tooManyConnections, true, some (1, true)⟩
      else ⟨.commandDone, true, none⟩]

/-- What the emulated transaction logs: no BEGIN, both statements outside any
transaction, on two connections. -/
theorem emulated_log :
    let w := World.init true 3 fun _ => idleLink
    let env : Nat → OpenTurn := fun _ => ⟨some (0, true), .commandDone, true⟩
    (w.begin env).2 = none ∧ ((w.begin env).1.applyAll emulatedOps).log =
      [.acquired 0, .issued 0 .other .idle true [], .issued 0 .other .idle true ["53300"],
        .handedBack 0 .markDead, .acquired 1, .issued 1 .other .idle true []] := by
  decide +kernel

theorem not_isolationKept_of_emulated {cfg : PgTransactionConfig}
    (hemu : emulateReadonlyAutocommit cfg = true) : ¬IsolationKept cfg := by
  intro hkept
  obtain ⟨hok, hlog⟩ := emulated_log
  have hone := hkept 3 (fun _ => idleLink) []
    (fun _ => ⟨some (0, true), .commandDone, true⟩) emulatedOps
  rw [hemu] at hone
  obtain ⟨c, tries, since, heq, -⟩ :=
    hone rfl hok (by simp [emulatedOps, Op.isBetween, Op.isStatement])
  have hbegan : Entry.began c ∈ [Entry.acquired 0, .issued 0 .other .idle true [],
      .issued 0 .other .idle true ["53300"], .handedBack 0 .markDead, .acquired 1,
      .issued 1 .other .idle true []] := by
    rw [← hlog]
    exact heq ▸ by simp
  simp at hbegan

/-- **Isolation.**  A transaction of any configured level, REPEATABLE READ and SERIALIZABLE
among them, keeps its isolation, whatever its statements come to, exactly if it is not one
of the read-only transactions that are emulated. -/
theorem isolationKept_iff (cfg : PgTransactionConfig) :
    IsolationKept cfg ↔
      ¬(cfg.readOnly = true ∧ cfg.deferrable = false ∧ cfg.forceRealBegin = false) := by
  have hemu : emulateReadonlyAutocommit cfg = true ↔
      cfg.readOnly = true ∧ cfg.deferrable = false ∧ cfg.forceRealBegin = false := by
    simp [emulateReadonlyAutocommit, and_assoc]
  rw [← hemu]
  constructor
  · intro hkept hemulated
    exact not_isolationKept_of_emulated hemulated hkept
  · intro hreal
    exact isolationKept_of_real (Bool.eq_false_iff.mpr hreal)

/-- The leader of a parallel export as documented: REPEATABLE READ and read-only. -/
theorem isolation_dropped :
    ∃ cfg : PgTransactionConfig, cfg.isolation = .repeatableRead ∧ cfg.readOnly = true ∧
      ¬IsolationKept cfg :=
  ⟨{ isolation := .repeatableRead, readOnly := true }, rfl, rfl, not_isolationKept_of_emulated rfl⟩

end Upq.Transaction
