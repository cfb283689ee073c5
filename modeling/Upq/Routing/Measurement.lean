/-
  Routing/Measurement.lean --- what `pick_best_replica` knows about the lag of a node.

  Source: `probe_replication_lag`, `health_tick` and `pick_best_replica` in
  `src/upq/PgRouting.cpp`; `NodeStats` in `include/upq/PgRouting.h`.

  Beside the connector, `Measured` remembers for every node what its latest lag probe
  answered.  A healthy node carries that answer in its record, but not as it was given: a
  failed probe is recorded as no lag at all, and a negative LSN lag as a number above 2^63.
  These are the two cases in which the filter of `pick_best_replica` decides by something
  that was not measured (`lag_decision_iff`).
-/
import Upq.Routing.Staleness

set_option autoImplicit false

namespace Upq.Routing

open Upq.Foundation

/-! ## The latest lag probes -/

/-- What a lag probe answered: replay lag and LSN lag, or that it failed. -/
abbrev LagAnswer := Option (Int × Int)

/-- The lag probe that an event runs: at which node, with which answer. -/
def lagProbe (s : State) : Event → Option (Nat × LagAnswer)
  | .probe p =>
      match s.conn.nodes[s.pos]? with
      | none => none
      | some n =>
          if isUsable n.ep.role && (n.ensurePool s.conn.cfg.limits p.constructs).2 then
            some (s.pos, p.lag)
          else none
  | _ => none

/-- A connector, and the latest answer of each node to a lag probe. -/
structure Measured where
  state : State
  latest : Nat → Option LagAnswer

/-- One event. -/
def measuredStep (s : Measured) (e : Event) : Option Measured :=
  match step s.state e with
  | none => none
  | some t =>
      some
        { state := t
          latest :=
            match lagProbe s.state e with
            | none => s.latest
            | some (i, answer) => fun j => if j = i then some answer else s.latest j }

/-- A connector as built: no node has been probed. -/
def Measured.init (cfg : Config) (constructs : Nat → Bool) : Measured :=
  { state := .init cfg constructs, latest := fun _ => none }

/-- The LSN lag fits `int64_t`. -/
def LagAnswer.Fits (answer : LagAnswer) : Prop := ∀ v ∈ answer, -2 ^ 63 ≤ v.2 ∧ v.2 < 2 ^ 63

/-- The lag probe of the event, if it runs one, answers with values of `int64_t`. -/
def Event.Fits : Event → Prop
  | .probe p => LagAnswer.Fits p.lag
  | _ => True

/-! ## What the record of a healthy node says -/

/-- A healthy node has been probed and carries what became of the answer. -/
def Recorded (stats : NodeStats) (latest : Option LagAnswer) : Prop :=
  stats.healthy = true → ∃ answer, latest = some answer ∧ answer.Fits ∧
    stats.replayLag = (answer.getD (0, 0)).1 ∧ stats.lsnLag = toUInt64 (answer.getD (0, 0)).2

theorem applyCircuitBreaker_stats (h : HealthCfg) (n : Node) (ok : Bool) (now : Int) :
    (applyCircuitBreaker h n ok now).stats = n.stats := by
  unfold applyCircuitBreaker
  cases ok with
  | false => cases n.cbState <;> rfl
  | true =>
      simp only [if_true]
      split <;> split <;> rfl

/-- The turn of `health_tick` at a usable node for which there is no pool. -/
theorem probeNode_unhealthy {cfg : Config} {p : Probe} {n : Node}
    (h : (n.ensurePool cfg.limits p.constructs).2 = false) :
    (probeNode cfg p n).stats.healthy = false := by
  unfold probeNode
  split
  · rw [applyCircuitBreaker_stats]
  · rename_i heq
    rw [heq] at h
    cases h

/-- The turn at a usable node with a pool. -/
theorem probeNode_recorded {cfg : Config} {p : Probe} {n : Node}
    (h : (n.ensurePool cfg.limits p.constructs).2 = true) (hfits : LagAnswer.Fits p.lag) :
    Recorded (probeNode cfg p n).stats (some p.lag) := by
  unfold probeNode
  split
  · rename_i heq
    rw [heq] at h
    cases h
  · dsimp only
    rw [applyCircuitBreaker_stats]
    exact fun _ => ⟨p.lag, rfl, hfits, rfl, rfl⟩

theorem ensurePool_fst_stats (n : Node) (lim : PoolLimits) (b : Bool) :
    (n.ensurePool lim b).1.stats = n.stats := (ensured_ensurePool n lim b).stats

/-- Every node's record is what became of its latest probe. -/
def Measured.Consistent (s : Measured) : Prop :=
  ∀ i n, s.state.conn.nodes[i]? = some n → Recorded n.stats (s.latest i)

/-- Events that leave the measurements alone. -/
theorem Measured.Consistent.of_sameBy {s t : Measured} (h : s.Consistent)
    (hlatest : t.latest = s.latest) (hsame : SameBy (·.stats) s.state.conn t.state.conn) :
    t.Consistent := by
  intro i n hn
  have hstats := congrArg (·[i]?) hsame.nodes
  simp only [List.getElem?_map, hn, Option.map_some] at hstats
  obtain ⟨m, hm, heq⟩ := Option.map_eq_some_iff.mp hstats.symm
  rw [hlatest, ← heq]
  exact h i m hm

/-- **Step rule.**  Health ticks and routes keep the records consistent. -/
theorem consistent_step {s t : Measured} {e : Event} (h : s.Consistent) (hfits : e.Fits)
    (hstep : measuredStep s e = some t) : t.Consistent := by
  unfold measuredStep at hstep
  split at hstep
  · cases hstep
  · rename_i u hu
    cases hstep
    cases e with
    | route constructs hint =>
        cases hu
        exact h.of_sameBy rfl (sameBy_route ensurePool_fst_stats s.state.conn constructs hint)
    | routeForTx constructs tx =>
        cases hu
        exact h.of_sameBy rfl (sameBy_routeForTx ensurePool_fst_stats s.state.conn constructs tx)
    | probe p =>
        simp only [step] at hu
        split at hu
        · cases hu
        · rename_i n hn
          cases hu
          intro i m hm
          dsimp only at hm ⊢
          by_cases hi : i = s.state.pos
          · -- the node that was probed
            subst hi
            obtain ⟨hlt, -⟩ := List.getElem?_eq_some_iff.mp hn
            rw [List.getElem?_set_self hlt] at hm
            cases hm
            simp only [lagProbe, hn, tickNode]
            cases husable : isUsable n.ep.role with
            | false => exact h _ n hn
            | true =>
                cases hpool : (n.ensurePool s.state.conn.cfg.limits p.constructs).2 with
                | false =>
                    intro hhealthy
                    rw [if_pos rfl, probeNode_unhealthy hpool] at hhealthy
                    cases hhealthy
                | true =>
                    simp only [Bool.and_self, if_true]
                    exact probeNode_recorded hpool hfits
          · rw [List.getElem?_set_ne (Ne.symm hi)] at hm
            have hlatest : (match lagProbe s.state (.probe p) with
                | none => s.latest
                | some (j, answer) => fun k => if k = j then some answer else s.latest k) i =
                  s.latest i := by
              simp only [lagProbe, hn]
              split
              · exact if_neg hi
              · rfl
            rw [hlatest]
            exact h i m hm

/-- **Run rule.**  So does every run. -/
theorem consistent_exec {cfg : Config} {constructs : Nat → Bool} {es : List Event} {s : Measured}
    (hfits : ∀ e ∈ es, e.Fits) (h : exec measuredStep (.init cfg constructs) es = some s) :
    s.Consistent := by
  have hinit : (Measured.init cfg constructs).Consistent := by
    intro i n hn hhealthy
    simp only [Measured.init, State.init, Connector.new, List.getElem?_mapIdx,
      Option.map_eq_some_iff] at hn
    obtain ⟨ep, -, rfl⟩ := hn
    cases hhealthy
  refine exec_invariant_of_guarded Measured.Consistent ?_ es _ s hinit
    (guarded_of_forall hfits _) h
  intro s e t hs hfits hstep
  exact consistent_step hs hfits hstep

/-! ## Decisions -/

/-- The tests of `pick_best_replica` that have nothing to do with lag. -/
def Node.serves (n : Node) : Prop :=
  isReplica n.ep.role = true ∧ isUsable n.ep.role = true ∧ n.cbState ≠ .opened ∧
    n.pool.isSome = true ∧ n.stats.healthy = true

/-- The latest lag probe succeeded, and what it measured is within the bounds. -/
def LagWithin (hint : RouteHint) (latest : Option LagAnswer) : Prop :=
  ∃ replay lsn, latest = some (some (replay, lsn)) ∧ replay ≤ hint.staleness.maxStaleness ∧
    (hint.staleness.maxLsnLag ≠ 0 → lsn ≤ hint.staleness.maxLsnLag)

/-- What the latest lag probe must not have answered for the decision to be right: a
failure that passes for no lag, or a negative LSN lag that passes for too large a one. -/
def LagTold (hint : RouteHint) : Option LagAnswer → Prop
  | none => True
  | some none => hint.staleness.maxStaleness < 0
  | some (some (replay, lsn)) =>
      lsn < 0 → replay ≤ hint.staleness.maxStaleness → hint.staleness.maxLsnLag ≠ 0 →
        lsn + 2 ^ 64 ≤ hint.staleness.maxLsnLag

theorem toUInt64_of_nonneg {lsn : Int} (hle : 0 ≤ lsn) (hlt : lsn < 2 ^ 63) :
    (toUInt64 lsn : Int) = lsn := by
  unfold toUInt64
  omega

theorem toUInt64_of_neg {lsn : Int} (hlt : lsn < 0) (hle : -2 ^ 63 ≤ lsn) :
    (toUInt64 lsn : Int) = lsn + 2 ^ 64 := by
  unfold toUInt64
  omega

/-- The record of a failed probe is within the bounds of every hint that allows for no
lag. -/
theorem fresh_of_failed {hint : RouteHint} {n : Node} (hreplay : n.stats.replayLag = 0)
    (hlsn : n.stats.lsnLag = toUInt64 0) : n.Fresh hint ↔ 0 ≤ hint.staleness.maxStaleness := by
  have hzero : toUInt64 0 = 0 := rfl
  unfold Node.Fresh
  rw [hreplay, hlsn, hzero]
  exact ⟨fun h => h.1, fun h => ⟨h, fun _ => Nat.zero_le _⟩⟩

/-- The record of a measurement agrees with it unless the LSN lag is negative. -/
theorem fresh_iff_of_measured {hint : RouteHint} {n : Node} {replay lsn : Int}
    (hreplay : n.stats.replayLag = replay) (hlsn : n.stats.lsnLag = toUInt64 lsn)
    (hfits : -2 ^ 63 ≤ lsn ∧ lsn < 2 ^ 63) :
    (n.Fresh hint ↔ replay ≤ hint.staleness.maxStaleness ∧
      (hint.staleness.maxLsnLag ≠ 0 → lsn ≤ hint.staleness.maxLsnLag)) ↔
      LagTold hint (some (some (replay, lsn))) := by
  unfold Node.Fresh LagTold
  rw [hreplay, hlsn]
  by_cases hneg : lsn < 0
  · have hcast := toUInt64_of_neg hneg hfits.1
    constructor
    · intro hiff _ hwithin hset
      have := (hiff.mpr ⟨hwithin, fun _ => by omega⟩).2 hset
      omega
    · intro htold
      refine ⟨fun h => ⟨h.1, fun _ => by omega⟩, fun h => ⟨h.1, fun hset => ?_⟩⟩
      have := htold hneg h.1 hset
      omega
  · have hcast := toUInt64_of_nonneg (Int.not_lt.mp hneg) hfits.2
    refine ⟨fun _ h => absurd h hneg, fun _ => ?_⟩
    refine ⟨fun h => ⟨h.1, fun hset => ?_⟩, fun h => ⟨h.1, fun hset => ?_⟩⟩
    · have := h.2 hset
      omega
    · have := h.2 hset
      omega

/-- **When staleness is decided by real measurements.**  After any run of health ticks and
routes with any outcomes of the probes, for every node and every hint with bounded
staleness: `pick_best_replica` accepts the node exactly when it serves and its latest lag
probe succeeded with lags within the bounds, if and only if, in case it serves, that probe
did not fail under a bound that allows for no lag, nor answer with a negative LSN lag that
the bound, read modulo 2^64, excludes. -/
theorem lag_decision_iff (cfg : Config) (constructs : Nat → Bool) (es : List Event) (s : Measured)
    (hfits : ∀ e ∈ es, e.Fits) (hrun : exec measuredStep (.init cfg constructs) es = some s)
    (i : Nat) (n : Node) (hn : s.state.conn.nodes[i]? = some n) (hint : RouteHint)
    (hbounded : hint.consistency = .boundedStaleness) :
    (n.eligible hint = true ↔ n.serves ∧ LagWithin hint (s.latest i)) ↔
      (n.serves → LagTold hint (s.latest i)) := by
  have heligible : n.eligible hint = true ↔ n.serves ∧ n.Fresh hint := by
    rw [eligible_iff hbounded]
    simp only [Node.serves, and_assoc]
  rw [heligible]
  by_cases hserves : n.serves
  · simp only [hserves, true_and, true_implies]
    obtain ⟨answer, hlatest, hanswer, hreplay, hlsn⟩ :=
      consistent_exec hfits hrun i n hn hserves.2.2.2.2
    rw [hlatest]
    cases answer with
    | none =>
        have hnever : ¬LagWithin hint (some none) := by
          rintro ⟨_, _, heq, -⟩
          cases heq
        rw [fresh_of_failed hreplay hlsn]
        simp only [hnever, iff_false, LagTold, Int.not_le]
    | some v =>
        obtain ⟨replay, lsn⟩ := v
        have hwithin : LagWithin hint (some (some (replay, lsn))) ↔
            replay ≤ hint.staleness.maxStaleness ∧
              (hint.staleness.maxLsnLag ≠ 0 → lsn ≤ hint.staleness.maxLsnLag) := by
          refine ⟨?_, fun h => ⟨replay, lsn, rfl, h⟩⟩
          rintro ⟨r, l, heq, h⟩
          cases heq
          exact h
        rw [hwithin]
        exact fresh_iff_of_measured hreplay hlsn (hanswer _ rfl)
  · simp only [hserves, false_and, iff_self, false_implies]

/-- A read that allows for 80 ms and 1 MB of WAL. -/
def within80And1MB : RouteHint :=
  { kind := .read, consistency := .boundedStaleness
    staleness := { maxStaleness := 80, maxLsnLag := 1000000 } }

/-- A tick in which the second node answers its lag probe with `lag`. -/
def lagTick (lag : LagAnswer) : List Event :=
  [turn 0 true (some ("f", some (0, 0))), turn 0 true (some ("f", lag))]

def lagRun (lag : LagAnswer) : Option Measured :=
  exec measuredStep (.init twoNodes fun _ => true) (lagTick lag)

/-- A replica that measures 50 ms and 4 kB is accepted, by its measurement. -/
theorem lag_decision_iff_measured :
    ∃ s n, lagRun (some (50, 4096)) = some s ∧ s.state.conn.nodes[1]? = some n ∧
      n.eligible within80And1MB = true ∧
      n.serves ∧ LagWithin within80And1MB (s.latest 1) := by
  have hrun : (lagRun (some (50, 4096))).any (fun s =>
      (s.state.conn.nodes[1]?).any (fun n => n.eligible within80And1MB) &&
        s.latest 1 == some (some (50, 4096))) = true := by decide +kernel
  obtain ⟨s, hs, hcond⟩ := (Option.any_eq_true ..).mp hrun
  obtain ⟨hnode, hlatest⟩ := Bool.and_eq_true_iff.mp hcond
  obtain ⟨n, hn, heligible⟩ := (Option.any_eq_true ..).mp hnode
  have hfits : ∀ e ∈ lagTick (some (50, 4096)), e.Fits := by
    simp [lagTick, turn, Event.Fits, LagAnswer.Fits]
  have htold : n.serves → LagTold within80And1MB (s.latest 1) := by
    rw [beq_iff_eq.mp hlatest]
    intro _ hneg
    exact absurd hneg (by decide)
  exact ⟨s, n, hs, hn, heligible, (((lag_decision_iff twoNodes _ _ s hfits hs 1 n hn within80And1MB
    rfl).mpr htold).mp heligible)⟩

/-- A replica whose lag probe failed is accepted, and one that is ahead, with an LSN lag of
-1, is not. -/
theorem lag_not_measured :
    (lagRun none).any (fun s =>
      (s.state.conn.nodes[1]?).any (fun n => n.eligible within80And1MB)) = true ∧
    (lagRun (some (0, -1))).any (fun s =>
      (s.state.conn.nodes[1]?).any (fun n => !n.eligible within80And1MB)) = true ∧
    ¬∀ cfg constructs es s i n hint, validate cfg = .ok () → (∀ e ∈ es, Event.Fits e) →
      exec measuredStep (.init cfg constructs) es = some s → s.state.conn.nodes[i]? = some n →
      hint.consistency = .boundedStaleness →
      (n.eligible hint = true ↔ n.serves ∧ LagWithin hint (s.latest i)) := by
  refine ⟨by decide +kernel, by decide +kernel, fun hall => ?_⟩
  have hrun : (lagRun none).any (fun s =>
      (s.state.conn.nodes[1]?).any (fun n => n.eligible within80And1MB) &&
        s.latest 1 == some none) = true := by decide +kernel
  obtain ⟨s, hs, hcond⟩ := (Option.any_eq_true ..).mp hrun
  obtain ⟨hnode, hlatest⟩ := Bool.and_eq_true_iff.mp hcond
  obtain ⟨n, hn, heligible⟩ := (Option.any_eq_true ..).mp hnode
  have hfits : ∀ e ∈ lagTick none, e.Fits := by
    simp [lagTick, turn, Event.Fits, LagAnswer.Fits]
  obtain ⟨-, replay, lsn, heq, -⟩ :=
    (hall twoNodes _ _ s 1 n within80And1MB rfl hfits hs hn rfl).mp heligible
  rw [beq_iff_eq.mp hlatest] at heq
  cases heq

end Upq.Routing
