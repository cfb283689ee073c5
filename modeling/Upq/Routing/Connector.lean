/-
  Routing/Connector.lean --- `PgConnector`: nodes, health, and the choice of a pool.

  Source: `include/upq/PgRouting.h`, `src/upq/PgRouting.cpp` and
  `src/upq/PgRoutingBuilder.cpp` (`validate`).

  A node is named by its position in `nodes_`, and so is its pool: a route answers
  with the position of the node whose pool it returns.  Whether `std::make_unique` of
  a pool throws is an input (`constructs`), as are the answers to the probes of
  `health_tick` and the clock.  Clock values count nanoseconds, lags and round-trip
  times milliseconds.

  `health_tick` suspends at every probe, so `route` can run between the turns of its
  loop: a turn is one event of the machine `step`, and a tick is as many turns as
  there are nodes.
-/
import Upq.Foundation.Machine
import Upq.Types

set_option autoImplicit false

namespace Upq.Routing

open Upq.Foundation

/-! ## Configuration -/

/-- `NodeRole` -/
inductive NodeRole where
  | primary
  | syncReplica
  | asyncReplica
  | analytics
  | archive
  | maintenance
  deriving DecidableEq, Repr, Inhabited

/-- `Consistency` -/
inductive Consistency where
  | strong
  | boundedStaleness
  | eventual
  deriving DecidableEq, Repr, Inhabited

/-- `QueryKind` -/
inductive QueryKind where
  | read
  | write
  | ddl
  | longRead
  deriving DecidableEq, Repr, Inhabited

/-- `BoundedStalenessCfg` -/
structure BoundedStalenessCfg where
  maxStaleness : Int := 0
  maxLsnLag : Nat := 0
  deriving DecidableEq, Repr, Inhabited

/-- `RouteHint` -/
structure RouteHint where
  kind : QueryKind := .read
  consistency : Consistency := .eventual
  staleness : BoundedStalenessCfg := {}
  readMyWrites : Bool := false
  deriving DecidableEq, Repr, Inhabited

/-- `PgEndpoint`, without what only the connection string is made of -/
structure PgEndpoint where
  name : String
  maxPool : Nat := 32
  role : NodeRole := .asyncReplica
  weight : Nat := 1
  deriving DecidableEq, Repr, Inhabited

/-- `PoolLimits` -/
structure PoolLimits where
  defaultMaxConns : Nat := 64
  analyticsMaxConns : Nat := 16
  deriving DecidableEq, Repr, Inhabited

/-- `HealthCfg`, without its interval and the texts of its probes -/
structure HealthCfg where
  lagThresholdMs : Nat := 120
  cbQuietMs : Nat := 500
  cbBackoffMs : Nat := 1000
  cbMaxMs : Nat := 1500
  autoDetectLeader : Bool := true
  deriving DecidableEq, Repr, Inhabited

/-- `RoutingCfg` -/
structure RoutingCfg where
  defaultConsistency : Consistency := .eventual
  boundedStaleness : BoundedStalenessCfg := { maxStaleness := 150, maxLsnLag := 0 }
  deriving DecidableEq, Repr, Inhabited

/-- `Config` -/
structure Config where
  nodes : List PgEndpoint
  primaryFailover : List String := []
  routing : RoutingCfg := {}
  limits : PoolLimits := {}
  health : HealthCfg := {}
  deriving DecidableEq, Repr, Inhabited

/-! ## `PgConnectorBuilder::validate` -/

/-- The loop over the nodes, with the names seen and `has_primary`. -/
def validateNodes : List PgEndpoint → List String → Bool → Except String (List String × Bool)
  | [], names, hasPrimary => .ok (names, hasPrimary)
  | n :: rest, names, hasPrimary =>
      if n.name ∈ names then .error ("duplicate node: " ++ n.name)
      else if n.weight = 0 then .error ("weight must be >0 for node: " ++ n.name)
      else validateNodes rest (n.name :: names) (hasPrimary || n.role == .primary)

/-- `validate`; `.error` is the text of the exception. -/
def validate (cfg : Config) : Except String Unit :=
  match validateNodes cfg.nodes [] false with
  | .error e => .error e
  | .ok (names, hasPrimary) =>
      if hasPrimary = false then .error "no Primary node"
      else
        match cfg.primaryFailover.find? fun pf => decide (pf ∉ names) with
        | some pf => .error ("primary_failover references unknown node: " ++ pf)
        | none => .ok ()

/-- What `validate` accepts. -/
structure Valid (cfg : Config) : Prop where
  names : (cfg.nodes.map (·.name)).Nodup
  weights : ∀ n ∈ cfg.nodes, n.weight ≠ 0
  primary : ∃ n ∈ cfg.nodes, n.role = .primary
  failover : ∀ pf ∈ cfg.primaryFailover, pf ∈ cfg.nodes.map (·.name)

/-- What the loop accepts, and what it collects. -/
theorem validateNodes_eq_ok {nodes : List PgEndpoint} {names names' : List String}
    {hasPrimary hasPrimary' : Bool} :
    validateNodes nodes names hasPrimary = .ok (names', hasPrimary') ↔
      (nodes.map (·.name)).Nodup ∧ (∀ n ∈ nodes, n.name ∉ names) ∧
        (∀ n ∈ nodes, n.weight ≠ 0) ∧ names' = (nodes.map (·.name)).reverse ++ names ∧
        hasPrimary' = (hasPrimary || nodes.any fun n => n.role == .primary) := by
  induction nodes generalizing names hasPrimary with
  | nil => simp [validateNodes, eq_comm]
  | cons n rest ih =>
      unfold validateNodes
      split
      · rename_i hdup
        simp only [reduceCtorEq, false_iff]
        rintro ⟨-, hfresh, -⟩
        exact hfresh n List.mem_cons_self hdup
      · rename_i hfresh
        split
        · rename_i hweight
          simp only [reduceCtorEq, false_iff]
          rintro ⟨-, -, hweights, -⟩
          exact hweights n List.mem_cons_self hweight
        · rename_i hweight
          rw [ih]
          simp only [List.map_cons, List.nodup_cons, List.mem_cons, not_or, forall_eq_or_imp,
            List.mem_map, List.reverse_cons, List.append_assoc, List.singleton_append,
            List.any_cons, Bool.or_assoc]
          constructor
          · rintro ⟨hnodup, hnew, hweights, hnames, hprimary⟩
            refine ⟨⟨?_, hnodup⟩, ⟨hfresh, fun m hm => (hnew m hm).2⟩, ⟨hweight, hweights⟩,
              hnames, hprimary⟩
            rintro ⟨m, hm, heq⟩
            exact (hnew m hm).1 heq
          · rintro ⟨⟨hnotin, hnodup⟩, ⟨-, hnew⟩, ⟨-, hweights⟩, hnames, hprimary⟩
            refine ⟨hnodup, fun m hm => ⟨fun heq => hnotin ⟨m, hm, heq⟩, hnew m hm⟩, hweights,
              hnames, hprimary⟩

theorem validate_eq_ok {cfg : Config} : validate cfg = .ok () ↔ Valid cfg := by
  unfold validate
  split
  · rename_i e herr
    simp only [reduceCtorEq, false_iff]
    intro hvalid
    have hok : validateNodes cfg.nodes [] false = .ok _ :=
      validateNodes_eq_ok.mpr ⟨hvalid.names, by simp, hvalid.weights, rfl, rfl⟩
    rw [herr] at hok
    cases hok
  · rename_i names hasPrimary hok
    obtain ⟨hnodup, -, hweights, rfl, rfl⟩ := validateNodes_eq_ok.mp hok
    split
    · rename_i hnone
      simp only [reduceCtorEq, false_iff]
      intro hvalid
      obtain ⟨n, hn, hrole⟩ := hvalid.primary
      simp at hnone
      exact hnone n hn hrole
    · rename_i hsome
      split
      · rename_i pf hpf
        simp only [reduceCtorEq, false_iff]
        intro hvalid
        have hknown := hvalid.failover pf (List.mem_of_find?_eq_some hpf)
        have hunknown := List.find?_some hpf
        simp at hunknown hknown
        obtain ⟨n, hn, heq⟩ := hknown
        exact hunknown n hn heq
      · rename_i hfound
        simp only [true_iff]
        refine ⟨hnodup, hweights, ?_, ?_⟩
        · simpa using hsome
        · intro pf hpf
          have := List.find?_eq_none.mp hfound pf hpf
          simpa using this

/-! ## Nodes -/

/-- `cb_state`: 0, 1 and 2 -/
inductive Breaker where
  | closed
  | halfOpen
  | opened
  deriving DecidableEq, Repr, Inhabited

/-- `NodeStats`, without its connection counts -/
structure NodeStats where
  healthy : Bool := false
  isPrimary : Bool := false
  rtt : Int := 0
  replayLag : Int := 0
  lsnLag : Nat := 0
  deriving DecidableEq, Repr, Inhabited

/-- `PgConnector::Node`; a pool is its `max_pool_`. -/
structure Node where
  ep : PgEndpoint
  pool : Option Nat
  stats : NodeStats := {}
  cbState : Breaker := .closed
  cbUntil : Int := 0
  deriving DecidableEq, Repr, Inhabited

/-- `is_replica` -/
def isReplica (r : NodeRole) : Bool :=
  r == .syncReplica || r == .asyncReplica || r == .analytics

/-- `is_usable` -/
def isUsable (r : NodeRole) : Bool := r != .archive && r != .maintenance

/-- `pool_cap_for` -/
def poolCapFor (role : NodeRole) (lim : PoolLimits) : Nat :=
  if role = .analytics then lim.analyticsMaxConns else lim.defaultMaxConns

/-- The capacity of the pool of an endpoint. -/
def poolCap (ep : PgEndpoint) (lim : PoolLimits) : Nat :=
  if ep.maxPool ≠ 0 then ep.maxPool else poolCapFor ep.role lim

/-- `ensure_pool` -/
def Node.ensurePool (n : Node) (lim : PoolLimits) (constructs : Bool) : Node × Bool :=
  if n.pool.isSome then (n, true)
  else if constructs then ({ n with pool := some (poolCap n.ep lim) }, true)
  else ({ n with pool := none }, false)

/-! ## `PgConnector` -/

/-- `PgConnector` -/
structure Connector where
  cfg : Config
  nodes : List Node
  primaryFailoverIdx : List Nat
  deriving DecidableEq, Repr

/-- The positions of the nodes of a role. -/
def withRole (nodes : List PgEndpoint) (role : NodeRole) : List Nat :=
  (List.range nodes.length).filter fun i => (nodes[i]?).any fun ep => ep.role == role

/-- `primary_failover_idx_` as the constructor fills it. -/
def failoverIdx (cfg : Config) : List Nat :=
  let named := cfg.primaryFailover.filterMap fun name =>
    cfg.nodes.findIdx? fun ep => ep.name == name
  if named = [] then
    withRole cfg.nodes .primary ++ withRole cfg.nodes .syncReplica ++
      withRole cfg.nodes .asyncReplica
  else named

/-- The constructor; `constructs i` says whether the pool of node `i` could be made. -/
def Connector.new (cfg : Config) (constructs : Nat → Bool) : Connector :=
  { cfg
    nodes := cfg.nodes.mapIdx fun i ep =>
      { ep, pool := if constructs i then some (poolCap ep cfg.limits) else none }
    primaryFailoverIdx := failoverIdx cfg }

/-- The first of `idx` whose node satisfies `p`: the scans over
`primary_failover_idx_`. -/
def firstOf (nodes : List Node) (p : Node → Bool) (idx : List Nat) : Option Nat :=
  idx.find? fun i => (nodes[i]?).any p

/-- The test of the leader scans of `pick_primary`, without `healthy`. -/
def Node.leads (n : Node) : Bool :=
  n.stats.isPrimary && isUsable n.ep.role && n.cbState != .opened && n.pool.isSome

/-- The test of the role scans of `pick_primary`, without `healthy`. -/
def Node.configured (n : Node) : Bool :=
  n.ep.role == .primary && isUsable n.ep.role && n.cbState != .opened && n.pool.isSome

/-- `pick_primary` -/
def Connector.pickPrimary (c : Connector) : Option Nat :=
  (if c.cfg.health.autoDetectLeader then
    (firstOf c.nodes (fun n => n.leads && n.stats.healthy) c.primaryFailoverIdx).or
      ((c.nodes.findIdx? fun n => n.leads && n.stats.healthy).or (c.nodes.findIdx? Node.leads))
  else none).or
    ((firstOf c.nodes (fun n => n.configured && n.stats.healthy) c.primaryFailoverIdx).or
      (c.nodes.findIdx? Node.configured))

/-- `ok_stale` of `pick_best_replica` -/
def okStale (hint : RouteHint) (s : NodeStats) : Bool :=
  if hint.consistency ≠ .boundedStaleness then true
  else if s.replayLag > hint.staleness.maxStaleness then false
  else if hint.staleness.maxLsnLag ≠ 0 ∧ s.lsnLag > hint.staleness.maxLsnLag then false
  else true

/-- `better` of `pick_best_replica` -/
def better (a b : Node) : Bool :=
  if a.stats.rtt ≠ b.stats.rtt then decide (a.stats.rtt < b.stats.rtt)
  else decide (a.ep.weight > b.ep.weight)

/-- A loop that keeps the best node so far: every node that passes `p` and
`beats` the best replaces it. -/
def bestOf (p : Node → Bool) (beats : Node → Node → Bool) :
    Nat → List Node → Option (Nat × Node) → Option (Nat × Node)
  | _, [], best => best
  | i, n :: rest, best =>
      bestOf p beats (i + 1) rest
        (if p n && best.all (fun b => beats n b.2) then some (i, n) else best)

/-- `pick_best_replica` -/
def Connector.pickBestReplica (c : Connector) (hint : RouteHint) : Option Nat :=
  (bestOf (fun n => isReplica n.ep.role && isUsable n.ep.role && n.cbState != .opened &&
    n.pool.isSome && n.stats.healthy && okStale hint n.stats) better 0 c.nodes none).map (·.1)

/-- The three locals of `pick_any`. -/
structure Seen where
  detected : Option Nat := none
  configured : Option Nat := none
  anyReplica : Option Nat := none
  deriving DecidableEq, Repr

/-- What a node with a pool adds to them; the first of each kind stays. -/
def Seen.note (s : Seen) (i : Nat) (n : Node) : Seen where
  detected := if n.stats.isPrimary && s.detected.isNone then some i else s.detected
  configured := if n.ep.role == .primary && s.configured.isNone then some i else s.configured
  anyReplica := if isReplica n.ep.role && s.anyReplica.isNone then some i else s.anyReplica

/-- The loop of `pick_any`, which may make pools on its way. -/
def pickAnyLoop (lim : PoolLimits) (constructs : Nat → Bool) :
    Nat → List Node → Seen → List Node × Seen
  | _, [], seen => ([], seen)
  | i, n :: rest, seen =>
      if !isUsable n.ep.role then
        match pickAnyLoop lim constructs (i + 1) rest seen with
        | (rest, seen) => (n :: rest, seen)
      else
        match n.ensurePool lim (constructs i) with
        | (n, false) =>
            match pickAnyLoop lim constructs (i + 1) rest seen with
            | (rest, seen) => (n :: rest, seen)
        | (n, true) =>
            match pickAnyLoop lim constructs (i + 1) rest (seen.note i n) with
            | (rest, seen) => (n :: rest, seen)

/-- `pick_any` -/
def Connector.pickAny (c : Connector) (constructs : Nat → Bool) (preferPrimary : Bool) :
    Connector × Option Nat :=
  match pickAnyLoop c.cfg.limits constructs 0 c.nodes {} with
  | (nodes, seen) =>
      let primary :=
        if c.cfg.health.autoDetectLeader && seen.detected.isSome then seen.detected
        else seen.configured
      ({ c with nodes },
        if preferPrimary then primary.or seen.anyReplica else seen.anyReplica.or primary)

/-- `if (auto *p = pick()) if (ensure_pool(*p)) return p->pool.get();`, then the
rest. -/
def Connector.tryPool (c : Connector) (constructs : Nat → Bool) (pick : Option Nat)
    (rest : Connector → Connector × Option Nat) : Connector × Option Nat :=
  match pick with
  | none => rest c
  | some i =>
      match c.nodes[i]? with
      | none => rest c
      | some n =>
          match n.ensurePool c.cfg.limits (constructs i) with
          | (n, true) => ({ c with nodes := c.nodes.set i n }, some i)
          | (n, false) => rest { c with nodes := c.nodes.set i n }

/-- The lines for writes and strong reads, in `route` and `route_for_tx`. -/
def Connector.routePrimary (c : Connector) (constructs : Nat → Bool) : Connector × Option Nat :=
  c.tryPool constructs c.pickPrimary fun c => c.pickAny constructs true

/-- The lines for reads from a replica, in `route` and `route_for_tx`. -/
def Connector.routeReplica (c : Connector) (constructs : Nat → Bool) (hint : RouteHint) :
    Connector × Option Nat :=
  c.tryPool constructs (c.pickBestReplica hint) fun c =>
    c.tryPool constructs c.pickPrimary fun c => c.pickAny constructs false

/-- The first condition of `route`. -/
def RouteHint.wantsPrimary (hint : RouteHint) : Bool :=
  hint.kind == .write || hint.kind == .ddl ||
    hint.consistency == .strong || hint.readMyWrites

/-- `route` -/
def Connector.route (c : Connector) (constructs : Nat → Bool) (hint : RouteHint) :
    Connector × Option Nat :=
  if hint.wantsPrimary then c.routePrimary constructs else c.routeReplica constructs hint

/-- `eff_consistency` of `route_for_tx` -/
def effConsistency (cfg : Config) (tx : PgTransactionConfig) : Consistency :=
  if tx.isolation = .serializable then .strong else cfg.routing.defaultConsistency

/-- The first condition of `route_for_tx`. -/
def txWantsPrimary (cfg : Config) (tx : PgTransactionConfig) : Bool :=
  !tx.readOnly || effConsistency cfg tx == .strong

/-- The loop of `route_for_tx` for a deferrable transaction. -/
def Connector.pickSyncReplica (c : Connector) : Option Nat :=
  (bestOf (fun n => n.ep.role == .syncReplica && isUsable n.ep.role &&
    n.cbState != .opened && n.pool.isSome && n.stats.healthy)
    (fun a b => decide (a.stats.replayLag < b.stats.replayLag)) 0 c.nodes none).map (·.1)

/-- `route_for_tx` -/
def Connector.routeForTx (c : Connector) (constructs : Nat → Bool) (tx : PgTransactionConfig) :
    Connector × Option Nat :=
  if txWantsPrimary c.cfg tx then c.routePrimary constructs
  else if tx.deferrable then
    c.tryPool constructs c.pickSyncReplica fun c => c.routePrimary constructs
  else
    c.routeReplica constructs
      { kind := .read, consistency := effConsistency c.cfg tx
        staleness := c.cfg.routing.boundedStaleness, readMyWrites := false }

/-- `pin`; the hint is not looked at. -/
def Connector.pin (c : Connector) (constructs : Nat → Bool) (nodeName : String) (_ : RouteHint) :
    Connector × Option Nat :=
  match c.nodes.findIdx? fun n => n.ep.name == nodeName with
  | none => (c, none)
  | some i =>
      match c.nodes[i]? with
      | none => (c, none)
      | some n =>
          if !isUsable n.ep.role || n.cbState == .opened then (c, none)
          else
            match n.ensurePool c.cfg.limits (constructs i) with
            | (n, ok) =>
                ({ c with nodes := c.nodes.set i n },
                  if ok && n.stats.healthy then some i else none)

/-! ## Health -/

/-- `std::chrono::milliseconds` on the clock. -/
def ms (n : Nat) : Int := n * 1000000

/-- `apply_circuit_breaker` at clock value `now` -/
def applyCircuitBreaker (h : HealthCfg) (n : Node) (ok : Bool) (now : Int) : Node :=
  if ok then
    let n := if n.cbState = .halfOpen ∧ now ≥ n.cbUntil then { n with cbState := .closed } else n
    if n.cbState = .opened ∧ now ≥ n.cbUntil then { n with cbState := .halfOpen } else n
  else
    match n.cbState with
    | .closed => { n with cbState := .opened, cbUntil := now + ms h.cbQuietMs }
    | .halfOpen => { n with cbState := .opened, cbUntil := now + ms h.cbBackoffMs }
    | .opened => { n with cbUntil := now + ms h.cbMaxMs }

/-- `probe_is_primary`, from the answer to the leader probe -/
def probeIsPrimary (qr : QueryResult) : Bool :=
  if qr.ok then
    match qr.rows with
    | (v :: _) :: _ => v == "t" || v == "true" || v == "1"
    | _ => false
  else false

/-- What a turn of `health_tick` meets at a node: whether its pool could be made, the
answers to the ping and to the leader probe, the round-trip time and the lags if their
probes succeeded, and the clock at the breaker. -/
structure Probe where
  constructs : Bool
  ok : Bool
  leader : QueryResult
  rtt : Option Int
  lag : Option (Int × Int)
  now : Int
  deriving DecidableEq, Repr

/-- `static_cast<uint64_t>` -/
def toUInt64 (n : Int) : Nat := (n % 2 ^ 64).toNat

/-- The turn of `health_tick` at a usable node. -/
def probeNode (cfg : Config) (p : Probe) (n : Node) : Node :=
  match n.ensurePool cfg.limits p.constructs with
  | (n, false) =>
      applyCircuitBreaker cfg.health { n with stats := { n.stats with healthy := false } }
        false p.now
  | (n, true) =>
      let isPrimary :=
        if p.ok && cfg.health.autoDetectLeader then probeIsPrimary p.leader
        else n.ep.role == .primary
      let (lagMs, lsnLag) := p.lag.getD (0, 0)
      let healthy :=
        p.ok && !(!isPrimary && decide (lagMs > cfg.health.lagThresholdMs)) &&
          !(!cfg.health.autoDetectLeader && n.ep.role == .primary && decide (lagMs > 0))
      let n :=
        { n with
          stats :=
            { healthy, isPrimary, rtt := p.rtt.getD 9999, replayLag := lagMs
              lsnLag := toUInt64 lsnLag } }
      applyCircuitBreaker cfg.health n healthy p.now

/-- The turn of `health_tick` at any node. -/
def tickNode (cfg : Config) (p : Probe) (n : Node) : Node :=
  if isUsable n.ep.role then probeNode cfg p n else n

/-! ## Runs -/

/-- A connector with `start_health_loop` running: `pos` is the node its tick has come
to. -/
structure State where
  conn : Connector
  pos : Nat
  deriving DecidableEq, Repr

/-- What can happen: a turn of the tick, or a caller asking for a pool. -/
inductive Event where
  | probe (p : Probe)
  | route (constructs : Nat → Bool) (hint : RouteHint)
  | routeForTx (constructs : Nat → Bool) (tx : PgTransactionConfig)

/-- One event.  After the last node a new tick starts at the first. -/
def step (s : State) : Event → Option State
  | .probe p =>
      match s.conn.nodes[s.pos]? with
      | none => none
      | some n =>
          some
            { conn := { s.conn with nodes := s.conn.nodes.set s.pos (tickNode s.conn.cfg p n) }
              pos := if s.pos + 1 < s.conn.nodes.length then s.pos + 1 else 0 }
  | .route constructs hint => some { s with conn := (s.conn.route constructs hint).1 }
  | .routeForTx constructs tx => some { s with conn := (s.conn.routeForTx constructs tx).1 }

/-- A connector as built, before the first tick. -/
def State.init (cfg : Config) (constructs : Nat → Bool) : State :=
  { conn := .new cfg constructs, pos := 0 }

/-- The turn of `health_tick` at a node at `now`: `answer` is what the leader probe and the lag
probe bring, if the node answers its ping. -/
def turn (now : Int) (constructs : Bool) (answer : Option (String × Option (Int × Int))) : Event :=
  .probe
    { constructs, now, ok := answer.isSome, rtt := answer.map fun _ => 1
      lag := answer.bind Prod.snd
      leader := answer.elim {} fun a =>
        { ok := true, code := .ok, rows := [[a.1]], columns := ["leader"] } }

end Upq.Routing
