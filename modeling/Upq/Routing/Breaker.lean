/-
  Routing/Breaker.lean --- how long a failed node is kept out.

  Source: `apply_circuit_breaker`, `pick_primary`, `pick_best_replica`, `route_for_tx` and
  `pin` in `src/upq/PgRouting.cpp`.

  A failure opens the breaker and sets a deadline, at a distance that depends on the state
  it is met in.  A success moves the breaker one state towards closed, but only at or after
  the deadline, which successes leave alone.  So behind the last failure the state is told
  by the number of successes at or after its deadline.

  The functions that choose a node by its health pass over an open one.  `pick_any`, the
  last resort of every route, looks at no breaker, also at the end of the branch of
  `route_for_tx` for deferrable transactions.
-/
import Mathlib.Logic.Function.Iterate
import Upq.Routing.Staleness

set_option autoImplicit false

namespace Upq.Routing

open Upq.Foundation

/-! ## One call -/

/-- A call of `apply_circuit_breaker`: its outcome and the clock. -/
structure BreakerCall where
  ok : Bool
  now : Int
  deriving DecidableEq, Repr

/-- A sequence of calls on one node. -/
def breakerRun (h : HealthCfg) (n : Node) (calls : List BreakerCall) : Node :=
  calls.foldl (fun n call => applyCircuitBreaker h n call.ok call.now) n

/-- The window a failure chooses, in milliseconds. -/
def HealthCfg.window (h : HealthCfg) : Breaker → Nat
  | .closed => h.cbQuietMs
  | .halfOpen => h.cbBackoffMs
  | .opened => h.cbMaxMs

/-- The state after a success that is not too early. -/
def Breaker.relax : Breaker → Breaker
  | .closed => .closed
  | .halfOpen => .closed
  | .opened => .halfOpen

theorem applyCircuitBreaker_failure (h : HealthCfg) (n : Node) (now : Int) :
    applyCircuitBreaker h n false now =
      { n with cbState := .opened, cbUntil := now + ms (h.window n.cbState) } := by
  obtain ⟨ep, pool, stats, cbState, cbUntil⟩ := n
  cases cbState <;> rfl

theorem applyCircuitBreaker_success (h : HealthCfg) (n : Node) (now : Int) :
    applyCircuitBreaker h n true now =
      if n.cbUntil ≤ now then { n with cbState := n.cbState.relax } else n := by
  obtain ⟨ep, pool, stats, cbState, cbUntil⟩ := n
  by_cases hlate : cbUntil ≤ now
  · cases cbState <;> simp [applyCircuitBreaker, Breaker.relax, hlate]
  · cases cbState <;> simp [applyCircuitBreaker, hlate]

/-! ## Behind the last failure -/

/-- **Run rule for successes.**  The deadline stays, and the state moves once for every
success at or after it. -/
theorem breakerRun_successes (h : HealthCfg) (n : Node) {calls : List BreakerCall}
    (hok : ∀ call ∈ calls, call.ok = true) :
    (breakerRun h n calls).cbState =
      Breaker.relax^[calls.countP fun call => n.cbUntil ≤ call.now] n.cbState := by
  induction calls generalizing n with
  | nil => rfl
  | cons call calls ih =>
      have hrest : ∀ c ∈ calls, c.ok = true := fun c hc => hok c (List.mem_cons_of_mem _ hc)
      have hfirst : applyCircuitBreaker h n call.ok call.now =
          if n.cbUntil ≤ call.now then { n with cbState := n.cbState.relax } else n := by
        rw [hok call List.mem_cons_self, applyCircuitBreaker_success]
      rw [breakerRun, List.foldl_cons, hfirst]
      by_cases hlate : n.cbUntil ≤ call.now
      · rw [if_pos hlate, List.countP_cons_of_pos (by simpa using hlate),
          Function.iterate_succ_apply]
        exact ih _ hrest
      · rw [if_neg hlate, List.countP_cons_of_neg (by simpa using hlate)]
        exact ih n hrest

/-- From an open breaker: one move to half-open, two to closed. -/
theorem relax_iterate (k : Nat) :
    (Breaker.relax^[k] .opened = .opened ↔ k = 0) ∧
      (Breaker.relax^[k] .opened = .closed ↔ 2 ≤ k) := by
  match k with
  | 0 => decide
  | 1 => decide
  | k + 2 =>
      have hclosed : Breaker.relax^[k] .closed = .closed := Function.iterate_fixed rfl k
      have hopened : Breaker.relax^[k + 2] .opened = .closed := by
        rw [Function.iterate_add_apply]
        exact hclosed
      rw [hopened]
      simp

/-- The breaker behind a failure at `t`, with only successes since. -/
theorem breakerRun_after_failure (h : HealthCfg) (n : Node) (before : List BreakerCall) (t : Int)
    {since : List BreakerCall} (hok : ∀ call ∈ since, call.ok = true) :
    (breakerRun h n (before ++ ⟨false, t⟩ :: since)).cbState =
      Breaker.relax^[since.countP fun call =>
        t + ms (h.window (breakerRun h n before).cbState) ≤ call.now] .opened := by
  have hsplit : breakerRun h n (before ++ ⟨false, t⟩ :: since) =
      breakerRun h (applyCircuitBreaker h (breakerRun h n before) false t) since := by
    simp only [breakerRun, List.foldl_append, List.foldl_cons]
  rw [hsplit, breakerRun_successes h _ hok, applyCircuitBreaker_failure]

/-! ## An open node is passed over -/

theorem pickPrimary_ne_of_opened {c : Connector} {i : Nat} {n : Node} (hn : c.nodes[i]? = some n)
    (hopen : n.cbState = .opened) : c.pickPrimary ≠ some i := by
  intro hpick
  have hpicked := pickPrimary_picked c
  rw [hpick] at hpicked
  cases hpicked with
  | leader _ m _ hm hleads =>
      obtain rfl : n = m := Option.some.inj (hn.symm.trans hm)
      exact (Node.leads_iff.mp hleads).2.2.1 hopen
  | configured _ m _ hm hconf =>
      obtain rfl : n = m := Option.some.inj (hn.symm.trans hm)
      exact (Node.configured_iff.mp hconf).2.1 hopen

theorem pickBestReplica_ne_of_opened {c : Connector} {i : Nat} {n : Node}
    (hn : c.nodes[i]? = some n) (hopen : n.cbState = .opened) (hint : RouteHint) :
    c.pickBestReplica hint ≠ some i := by
  intro hpick
  obtain ⟨m, hm, heligible⟩ := pickBestReplica_eq_some hpick
  obtain rfl : n = m := Option.some.inj (hn.symm.trans hm)
  simp [Node.eligible, hopen] at heligible

/-- The loop for deferrable transactions picks a node with a pool whose breaker is not
open. -/
theorem pickSyncReplica_eq_some {c : Connector} {i : Nat} (h : c.pickSyncReplica = some i) :
    ∃ n, c.nodes[i]? = some n ∧ n.cbState ≠ .opened ∧ n.pool.isSome = true := by
  obtain ⟨n, hn, hp⟩ := bestOf_pick h
  simp only [Bool.and_eq_true, bne_iff_ne] at hp
  exact ⟨n, hn, hp.1.1.2, hp.1.2⟩

theorem pin_ne_of_opened {c : Connector} {i : Nat} {n : Node} (hn : c.nodes[i]? = some n)
    (hopen : n.cbState = .opened) (constructs : Nat → Bool) (nodeName : String)
    (hint : RouteHint) : (c.pin constructs nodeName hint).2 ≠ some i := by
  intro hpin
  unfold Connector.pin at hpin
  split at hpin
  · cases hpin
  · rename_i j hj
    split at hpin
    · cases hpin
    · rename_i m hm
      split at hpin
      · cases hpin
      · rename_i hpass
        dsimp only at hpin
        split at hpin
        · obtain rfl : j = i := Option.some.inj hpin
          obtain rfl : n = m := Option.some.inj (hn.symm.trans hm)
          exact hpass (by simp [hopen])
        · cases hpin

/-- The branch of `route_for_tx` for deferrable transactions comes to an open node only
where its loop and `pick_primary` have found nobody. -/
theorem routeForTx_deferrable_opened {c : Connector} {i : Nat} {n : Node}
    (hn : c.nodes[i]? = some n) (hopen : n.cbState = .opened) {constructs : Nat → Bool}
    {tx : PgTransactionConfig} (hread : txWantsPrimary c.cfg tx = false)
    (hdefer : tx.deferrable = true) (h : (c.routeForTx constructs tx).2 = some i) :
    c.pickSyncReplica = none ∧ c.pickPrimary = none ∧ (c.pickAny constructs true).2 = some i := by
  have hbranch : c.routeForTx constructs tx =
      c.tryPool constructs c.pickSyncReplica fun c => c.routePrimary constructs := by
    rw [Connector.routeForTx, hread, if_neg Bool.false_ne_true, if_pos hdefer]
  rw [hbranch] at h
  cases hsync : c.pickSyncReplica with
  | some j =>
      obtain ⟨m, hm, hclosed, hpool⟩ := pickSyncReplica_eq_some hsync
      rw [hsync, tryPool_of_pool hm hpool] at h
      obtain rfl : j = i := Option.some.inj h
      obtain rfl : n = m := Option.some.inj (hn.symm.trans hm)
      exact absurd hopen hclosed
  | none =>
      rw [hsync, Connector.tryPool] at h
      rcases routePrimary_cases c constructs with ⟨j, hpick, heq⟩ | ⟨hpick, heq⟩
      · rw [heq] at h
        obtain rfl : j = i := Option.some.inj h
        exact absurd hpick (pickPrimary_ne_of_opened hn hopen)
      · rw [heq] at h
        exact ⟨rfl, hpick, h⟩

/-- Node `i` of the connector is kept out of what chooses a node by its health; only the
last resort of a deferrable transaction can still come to it. -/
structure KeptOut (c : Connector) (i : Nat) : Prop where
  primary : c.pickPrimary ≠ some i
  bestReplica : ∀ hint, c.pickBestReplica hint ≠ some i
  syncReplica : c.pickSyncReplica ≠ some i
  pin : ∀ constructs nodeName hint, (c.pin constructs nodeName hint).2 ≠ some i
  deferrable : ∀ constructs tx, txWantsPrimary c.cfg tx = false → tx.deferrable = true →
    (c.routeForTx constructs tx).2 = some i →
      c.pickSyncReplica = none ∧ c.pickPrimary = none ∧ (c.pickAny constructs true).2 = some i

theorem keptOut_of_opened {c : Connector} {i : Nat} {n : Node} (hn : c.nodes[i]? = some n)
    (hopen : n.cbState = .opened) : KeptOut c i where
  primary := pickPrimary_ne_of_opened hn hopen
  bestReplica := pickBestReplica_ne_of_opened hn hopen
  syncReplica := by
    intro hsync
    obtain ⟨m, hm, hclosed, -⟩ := pickSyncReplica_eq_some hsync
    obtain rfl : n = m := Option.some.inj (hn.symm.trans hm)
    exact hclosed hopen
  pin := pin_ne_of_opened hn hopen
  deferrable _ _ := routeForTx_deferrable_opened hn hopen

/-- **The breaker keeps a failed node out for its window.**  After any sequence of calls
that ends in a failure at `t` and then only successes: the breaker is open exactly until a
success at or after `t` plus the window chosen at that failure, it is closed exactly from
the second such success on, and while it is open the node is kept out. -/
theorem breaker_keeps_out (h : HealthCfg) (ep : PgEndpoint) (pool : Option Nat)
    (before since : List BreakerCall) (t : Int) (hok : ∀ call ∈ since, call.ok = true) :
    let n := breakerRun h { ep, pool } (before ++ ⟨false, t⟩ :: since)
    let window := ms (h.window (breakerRun h { ep, pool } before).cbState)
    let late := since.countP fun call => t + window ≤ call.now
    (n.cbState = .opened ↔ late = 0) ∧ (n.cbState = .closed ↔ 2 ≤ late) ∧
      ∀ (c : Connector) (i : Nat) (m : Node), c.nodes[i]? = some m → m.cbState = n.cbState →
        late = 0 → KeptOut c i := by
  intro n window late
  have hstate : n.cbState = Breaker.relax^[late] .opened :=
    breakerRun_after_failure h { ep, pool } before t hok
  obtain ⟨hopened, hclosed⟩ := relax_iterate late
  rw [hstate]
  refine ⟨hopened, hclosed, fun c i m hm hcb hnone => ?_⟩
  exact keptOut_of_opened hm (hcb.trans (hopened.mpr hnone))

/-- A node that fails at 0 is open through a success after 100 ms, half-open after one at
500 ms and closed after one more. -/
theorem breaker_keeps_out_quiet :
    (∀ call ∈ [⟨true, ms 100⟩, ⟨true, ms 500⟩, ⟨true, ms 600⟩], BreakerCall.ok call = true) ∧
    (breakerRun {} { ep := { name := "a" }, pool := none }
      [⟨false, 0⟩, ⟨true, ms 100⟩, ⟨true, ms 500⟩, ⟨true, ms 600⟩]).cbState = .closed := by
  have hok : ∀ call ∈ [⟨true, ms 100⟩, ⟨true, ms 500⟩, ⟨true, ms 600⟩],
      BreakerCall.ok call = true := by decide
  refine ⟨hok, ?_⟩
  exact (breaker_keeps_out {} { name := "a" } none [] _ 0 hok).2.1.mpr (by decide)

/-- With both nodes down, a deferrable transaction is sent to the first of them while its
breaker is open. -/
theorem deferrable_reaches_open :
    validate twoNodes = .ok () ∧
    ¬∀ cfg constructs es s pools tx i n, validate cfg = .ok () →
      exec step (State.init cfg constructs) es = some s → txWantsPrimary s.conn.cfg tx = false →
      tx.deferrable = true → s.conn.nodes[i]? = some n → n.cbState = .opened →
      (s.conn.routeForTx pools tx).2 ≠ some i := by
  refine ⟨rfl, fun hall => ?_⟩
  let tx : PgTransactionConfig := { readOnly := true, deferrable := true }
  have hrun : (exec step (State.init twoNodes fun _ => true)
      [turn 0 true none, turn 0 true none]).any (fun s =>
      decide (txWantsPrimary s.conn.cfg tx = false) &&
        decide ((s.conn.routeForTx (fun _ => true) tx).2 = some 0) &&
        (s.conn.nodes[0]?).any fun n => n.cbState == .opened) = true := by decide +kernel
  obtain ⟨s, hs, hcond⟩ := (Option.any_eq_true ..).mp hrun
  simp only [Bool.and_eq_true, decide_eq_true_eq, Option.any_eq_true] at hcond
  obtain ⟨⟨hread, hroute⟩, n, hn, hopen⟩ := hcond
  exact hall twoNodes (fun _ => true) _ s (fun _ => true) tx 0 n rfl hs hread rfl hn
    (beq_iff_eq.mp hopen) hroute

end Upq.Routing
