/-
  Routing/Staleness.lean --- where reads with bounded staleness go.

  Source: `route`, `pick_best_replica` and `pick_any` in `src/upq/PgRouting.cpp`.

  A read first asks `pick_best_replica`, whose filter knows the bounds, then
  `pick_primary`, then `pick_any`, which takes the first replica that has a pool or can
  be given one and looks at neither health nor lag.  So the bounds hold unless the first
  two find nobody and that replica is too far behind (`staleness_honoured_iff`).
-/
import Upq.Routing.Primary

set_option autoImplicit false

namespace Upq.Routing

open Upq.Foundation

/-! ## `pick_best_replica` -/

/-- The test of `pick_best_replica`. -/
def Node.eligible (hint : RouteHint) (n : Node) : Bool :=
  isReplica n.ep.role && isUsable n.ep.role && n.cbState != .opened &&
    n.pool.isSome && n.stats.healthy && okStale hint n.stats

/-- The node is within the bounds of the hint. -/
def Node.Fresh (hint : RouteHint) (n : Node) : Prop :=
  n.stats.replayLag ≤ hint.staleness.maxStaleness ∧
    (hint.staleness.maxLsnLag ≠ 0 → n.stats.lsnLag ≤ hint.staleness.maxLsnLag)

theorem okStale_iff {hint : RouteHint} (hbounded : hint.consistency = .boundedStaleness)
    (n : Node) :
    okStale hint n.stats = true ↔ n.Fresh hint := by
  unfold okStale
  rw [if_neg (fun h => h hbounded)]
  split
  · rename_i hlag
    refine ⟨nofun, fun hfresh => ?_⟩
    exact absurd hfresh.1 (Int.not_le.mpr hlag)
  · rename_i hlag
    split
    · rename_i hlsn
      refine ⟨nofun, fun hfresh => ?_⟩
      exact absurd (hfresh.2 hlsn.1) (Nat.not_le.mpr hlsn.2)
    · rename_i hlsn
      refine ⟨fun _ => ⟨Int.not_lt.mp hlag, fun hset => ?_⟩, fun _ => rfl⟩
      exact Nat.not_lt.mp fun hover => hlsn ⟨hset, hover⟩

theorem eligible_iff {hint : RouteHint} (hbounded : hint.consistency = .boundedStaleness)
    {n : Node} :
    n.eligible hint = true ↔ isReplica n.ep.role = true ∧ isUsable n.ep.role = true ∧
      n.cbState ≠ .opened ∧ n.pool.isSome = true ∧ n.stats.healthy = true ∧ n.Fresh hint := by
  simp only [Node.eligible, Bool.and_eq_true, bne_iff_ne, okStale_iff hbounded, and_assoc]

section

variable {p : Node → Bool} {beats : Node → Node → Bool}

/-- A best node that was found stays found. -/
theorem bestOf_some (i : Nat) (nodes : List Node) (b : Nat × Node) :
    ∃ b', bestOf p beats i nodes (some b) = some b' := by
  induction nodes generalizing i b with
  | nil => exact ⟨b, rfl⟩
  | cons n rest ih =>
      unfold bestOf
      split
      · exact ih (i + 1) (i, n)
      · exact ih (i + 1) b

/-- **Loop rule.**  The loop keeps a node that passes the test, at its position. -/
theorem bestOf_spec {i : Nat} {nodes : List Node} {best : Option (Nat × Node)} {b : Nat × Node}
    (h : bestOf p beats i nodes best = some b) :
    best = some b ∨ ∃ j, b.1 = i + j ∧ nodes[j]? = some b.2 ∧ p b.2 = true := by
  induction nodes generalizing i best with
  | nil => exact .inl h
  | cons n rest ih =>
      rcases ih h with hbest | ⟨j, hj, hn, hp⟩
      · split at hbest
        · rename_i htest
          cases hbest
          exact .inr ⟨0, rfl, rfl, (Bool.and_eq_true_iff.mp htest).1⟩
        · exact .inl hbest
      · exact .inr ⟨j + 1, by omega, hn, hp⟩

/-- What the whole loop picks passes the test. -/
theorem bestOf_pick {nodes : List Node} {i : Nat}
    (h : (bestOf p beats 0 nodes none).map (·.1) = some i) :
    ∃ n, nodes[i]? = some n ∧ p n = true := by
  obtain ⟨⟨j, n⟩, hbest, rfl⟩ := Option.map_eq_some_iff.mp h
  rcases bestOf_spec hbest with hnone | ⟨k, hk, hn, hp⟩
  · cases hnone
  · rw [Nat.zero_add] at hk
    exact ⟨n, hk ▸ hn, hp⟩

/-- The loop finds nobody only where nobody passes. -/
theorem bestOf_eq_none {i : Nat} {nodes : List Node} (h : bestOf p beats i nodes none = none) :
    ∀ n ∈ nodes, p n = false := by
  induction nodes generalizing i with
  | nil => exact fun n hn => absurd hn List.not_mem_nil
  | cons n rest ih =>
      unfold bestOf at h
      cases hp : p n with
      | true =>
          rw [hp] at h
          obtain ⟨b, hb⟩ := bestOf_some (i + 1) rest (i, n)
          exact absurd (h.symm.trans hb) nofun
      | false =>
          rw [hp] at h
          intro m hm
          rcases List.mem_cons.mp hm with rfl | hrest
          · exact hp
          · exact ih h m hrest

end

theorem pickBestReplica_eq (c : Connector) (hint : RouteHint) :
    c.pickBestReplica hint =
      (bestOf (Node.eligible hint) better 0 c.nodes none).map Prod.fst :=
  rfl

theorem pickBestReplica_eq_some {c : Connector} {hint : RouteHint} {i : Nat}
    (h : c.pickBestReplica hint = some i) :
    ∃ n, c.nodes[i]? = some n ∧ n.eligible hint = true :=
  bestOf_pick h

theorem pickBestReplica_eq_none {c : Connector} {hint : RouteHint}
    (h : c.pickBestReplica hint = none) : ∀ n ∈ c.nodes, n.eligible hint = false :=
  bestOf_eq_none (Option.map_eq_none_iff.mp h)

/-! ## `pick_any(false)` -/

/-- A replica that has a pool or can be given one. -/
def Node.reachable (n : Node) (constructs : Bool) : Bool :=
  isReplica n.ep.role && (n.pool.isSome || constructs)

/-- Node `i` is the first such replica. -/
structure FirstReplica (c : Connector) (constructs : Nat → Bool) (i : Nat) (n : Node) : Prop where
  node : c.nodes[i]? = some n
  reachable : n.reachable (constructs i) = true
  first : ∀ j m, j < i → c.nodes[j]? = some m → m.reachable (constructs j) = false

/-- A replica is offered exactly when it is reachable. -/
theorem offered_opened (n : Node) (lim : PoolLimits) (constructs : Bool) :
    ((n.opened lim constructs).offered && isReplica (n.opened lim constructs).ep.role) =
      n.reachable constructs := by
  have hep := (ensured_opened n lim constructs).ep
  cases hrole : isReplica n.ep.role with
  | false => simp [hep, hrole, Node.reachable]
  | true =>
      have husable : isUsable n.ep.role = true := by
        revert hrole
        cases n.ep.role <;> decide
      rw [offered_of_usable lim constructs husable, hep, hrole, Node.reachable, hrole,
        Bool.and_true, Bool.true_and]

theorem firstOffered_replica {c : Connector} {constructs : Nat → Bool} {i : Nat}
    (h : firstOffered 0 (c.opened constructs) (fun n => isReplica n.ep.role) = some i) :
    ∃ n, FirstReplica c constructs i n := by
  simp only [firstOffered, Option.map_eq_some_iff, Nat.add_zero, exists_eq_right] at h
  obtain ⟨hi, hp, hbefore⟩ := List.findIdx?_eq_some_iff_getElem.mp h
  obtain ⟨n, hn, heq⟩ := opened_getElem? (List.getElem?_eq_getElem hi)
  rw [heq, offered_opened] at hp
  refine ⟨n, hn, hp, fun j m hj hm => ?_⟩
  have hjlt : j < (c.opened constructs).length := Nat.lt_trans hj hi
  obtain ⟨m', hm', heq'⟩ := opened_getElem? (List.getElem?_eq_getElem hjlt)
  obtain rfl : m = m' := Option.some.inj (hm.symm.trans hm')
  have hnot := hbefore j hj
  rw [heq', offered_opened] at hnot
  exact Bool.eq_false_iff.mpr hnot

theorem FirstReplica.unique {c : Connector} {constructs : Nat → Bool} {i j : Nat} {n m : Node}
    (h : FirstReplica c constructs i n) (h' : FirstReplica c constructs j m) : i = j := by
  rcases Nat.lt_trichotomy i j with hlt | heq | hlt
  · have hnot := h'.first i n hlt h.node
    rw [h.reachable] at hnot
    cases hnot
  · exact heq
  · have hnot := h.first j m hlt h'.node
    rw [h'.reachable] at hnot
    cases hnot

/-- The first reachable replica is the first replica offered. -/
theorem FirstReplica.firstOffered {c : Connector} {constructs : Nat → Bool} {i : Nat} {n : Node}
    (h : FirstReplica c constructs i n) :
    firstOffered 0 (c.opened constructs) (fun n => isReplica n.ep.role) = some i := by
  have hopened : (c.opened constructs)[i]? = some (n.opened c.cfg.limits (constructs i)) := by
    rw [Connector.opened, openedFrom_getElem?, h.node, Nat.zero_add]
    rfl
  have hoffered := offered_opened n c.cfg.limits (constructs i)
  rw [h.reachable, Bool.and_eq_true] at hoffered
  obtain ⟨j, hj⟩ := exists_firstOffered (p := fun n => isReplica n.ep.role)
    ⟨_, List.mem_of_getElem? hopened, hoffered⟩
  obtain ⟨m, hm⟩ := firstOffered_replica hj
  rw [h.unique hm]
  exact hj

/-- What `pick_any(false)` answers: the first replica, or else a primary. -/
theorem pickAny_false (c : Connector) (constructs : Nat → Bool) :
    (c.pickAny constructs false).2 =
      (firstOffered 0 (c.opened constructs) fun n => isReplica n.ep.role).or
        (if c.cfg.health.autoDetectLeader &&
            (firstOffered 0 (c.opened constructs) fun n => n.stats.isPrimary).isSome then
          firstOffered 0 (c.opened constructs) fun n => n.stats.isPrimary
        else firstOffered 0 (c.opened constructs) fun n => n.ep.role == .primary) := by
  simp [Connector.pickAny, pickAnyLoop_eq, Connector.opened, Seen.over]

/-! ## Bounded staleness -/

/-- The node is a primary: configured as one, or recorded as leader. -/
def Node.IsPrimary (n : Node) : Prop := n.ep.role = .primary ∨ n.stats.isPrimary = true

/-- The answer of `route` is the pool of a primary, or of a replica within the bounds. -/
def StalenessHonoured (c : Connector) (constructs : Nat → Bool) (hint : RouteHint) : Prop :=
  ∀ i, (c.route constructs hint).2 = some i →
    ∃ n, c.nodes[i]? = some n ∧ (n.IsPrimary ∨ isReplica n.ep.role = true ∧ n.Fresh hint)

/-- A read that `route` sends to a replica within bounds. -/
structure BoundedRead (hint : RouteHint) : Prop where
  kind : hint.kind = .read ∨ hint.kind = .longRead
  consistency : hint.consistency = .boundedStaleness
  readMyWrites : hint.readMyWrites = false

theorem BoundedRead.route {hint : RouteHint} (h : BoundedRead hint) (c : Connector)
    (constructs : Nat → Bool) : c.route constructs hint = c.routeReplica constructs hint := by
  have hreplica : hint.wantsPrimary = false := by
    rcases h.kind with hkind | hkind <;>
      simp [RouteHint.wantsPrimary, hkind, h.consistency, h.readMyWrites]
  rw [Connector.route, hreplica]
  rfl

/-- A primary that `pick_primary` finds. -/
def Connector.hasPrimary (c : Connector) : Prop :=
  ∃ n ∈ c.nodes, (c.cfg.health.autoDetectLeader = true ∧ n.leads = true) ∨ n.configured = true

theorem picked_isPrimary {c : Connector} {i : Nat} (h : Picked c (some i)) :
    c.hasPrimary ∧ ∃ n, c.nodes[i]? = some n ∧ n.IsPrimary := by
  cases h with
  | leader _ n hauto hn hleads =>
      exact ⟨⟨n, List.mem_of_getElem? hn, .inl ⟨hauto, hleads⟩⟩, n, hn,
        .inr (Node.leads_iff.mp hleads).1⟩
  | configured _ n _ hn hconf =>
      exact ⟨⟨n, List.mem_of_getElem? hn, .inr hconf⟩, n, hn,
        .inl (Node.configured_iff.mp hconf).1⟩

theorem not_hasPrimary_of_picked {c : Connector} (h : Picked c none) : ¬c.hasPrimary := by
  cases h with
  | nobody hnone hconf =>
      rintro ⟨n, hn, ⟨hauto, hleads⟩ | hconfigured⟩
      · rw [hnone hauto n hn] at hleads
        cases hleads
      · rw [hconf n hn] at hconfigured
        cases hconfigured

/-- An offered node, before `pick_any` came by. -/
theorem firstOffered_node {c : Connector} {constructs : Nat → Bool} {p : Node → Bool} {i : Nat}
    (h : firstOffered 0 (c.opened constructs) p = some i) :
    ∃ n, c.nodes[i]? = some n ∧ p (n.opened c.cfg.limits (constructs i)) = true := by
  obtain ⟨m, hm, -, hp⟩ := firstOffered_eq_some h
  obtain ⟨n, hn, rfl⟩ := opened_getElem? hm
  exact ⟨n, hn, hp⟩

/-- Without a replica, `pick_any` answers with a primary. -/
theorem pickAny_isPrimary {c : Connector} {constructs : Nat → Bool} {i : Nat}
    (hnone : firstOffered 0 (c.opened constructs) (fun n => isReplica n.ep.role) = none)
    (h : (c.pickAny constructs false).2 = some i) : ∃ n, c.nodes[i]? = some n ∧ n.IsPrimary := by
  rw [pickAny_false, hnone, Option.none_or] at h
  split at h
  · obtain ⟨n, hn, hp⟩ := firstOffered_node h
    rw [(ensured_opened n _ _).stats] at hp
    exact ⟨n, hn, .inr hp⟩
  · obtain ⟨n, hn, hp⟩ := firstOffered_node h
    rw [(ensured_opened n _ _).ep] at hp
    exact ⟨n, hn, .inl (beq_iff_eq.mp hp)⟩

/-- `pick_any(false)` answers with a primary or a replica within the bounds exactly when
the first replica is one. -/
theorem pickAny_honoured_iff (c : Connector) (constructs : Nat → Bool) (hint : RouteHint) :
    (∀ i, (c.pickAny constructs false).2 = some i →
      ∃ n, c.nodes[i]? = some n ∧ (n.IsPrimary ∨ isReplica n.ep.role = true ∧ n.Fresh hint)) ↔
      ∀ i n, FirstReplica c constructs i n → n.IsPrimary ∨ n.Fresh hint := by
  constructor
  · intro hall i n hfirst
    obtain ⟨m, hm, hor⟩ := hall i (by rw [pickAny_false, hfirst.firstOffered]; rfl)
    obtain rfl : n = m := Option.some.inj (hfirst.node.symm.trans hm)
    exact hor.imp_right And.right
  · intro hfirst i hi
    cases hoffered : firstOffered 0 (c.opened constructs) fun n => isReplica n.ep.role with
    | none =>
        obtain ⟨n, hn, hisPrimary⟩ := pickAny_isPrimary hoffered hi
        exact ⟨n, hn, .inl hisPrimary⟩
    | some j =>
        rw [pickAny_false, hoffered] at hi
        cases hi
        obtain ⟨n, hn⟩ := firstOffered_replica hoffered
        have hrole := (Bool.and_eq_true_iff.mp hn.reachable).1
        exact ⟨n, hn.node, (hfirst i n hn).imp_right fun h => ⟨hrole, h⟩⟩

/-- **When bounded staleness is honoured.**  For every connector, in every state of health,
and every read with bounded staleness: the answer is a primary or a replica within the
bounds if and only if a healthy replica within the bounds or a primary can be picked, or
the first replica that has a pool or can be given one is recorded as leader or is itself
within the bounds. -/
theorem staleness_honoured_iff (c : Connector) (constructs : Nat → Bool) (hint : RouteHint)
    (hread : BoundedRead hint) :
    StalenessHonoured c constructs hint ↔
      (∃ n ∈ c.nodes, n.eligible hint = true) ∨ c.hasPrimary ∨
        ∀ i n, FirstReplica c constructs i n → n.IsPrimary ∨ n.Fresh hint := by
  unfold StalenessHonoured
  rw [hread.route, Connector.routeReplica]
  cases hbest : c.pickBestReplica hint with
  | some i =>
      obtain ⟨n, hn, heligible⟩ := pickBestReplica_eq_some hbest
      obtain ⟨hrole, -, -, hpool, -, hfresh⟩ := (eligible_iff hread.consistency).mp heligible
      rw [tryPool_of_pool hn hpool]
      refine ⟨fun _ => .inl ⟨n, List.mem_of_getElem? hn, heligible⟩, fun _ j hj => ?_⟩
      cases hj
      exact ⟨n, hn, .inr ⟨hrole, hfresh⟩⟩
  | none =>
      have hnobody := pickBestReplica_eq_none hbest
      have hpicked := pickPrimary_picked c
      rw [Connector.tryPool]
      cases hpick : c.pickPrimary with
      | some i =>
          rw [hpick] at hpicked
          obtain ⟨n, hn, hpool⟩ := hpicked.pool
          obtain ⟨hprimary, hnode⟩ := picked_isPrimary hpicked
          rw [tryPool_of_pool hn hpool]
          refine ⟨fun _ => .inr (.inl hprimary), fun _ j hj => ?_⟩
          cases hj
          obtain ⟨m, hm, hisPrimary⟩ := hnode
          exact ⟨m, hm, .inl hisPrimary⟩
      | none =>
          rw [hpick] at hpicked
          have hnot := not_hasPrimary_of_picked hpicked
          have hnoReplica : ¬∃ n ∈ c.nodes, n.eligible hint = true := by
            rintro ⟨n, hn, heligible⟩
            rw [hnobody n hn] at heligible
            cases heligible
          rw [Connector.tryPool]
          simp only [hnoReplica, hnot, false_or]
          exact pickAny_honoured_iff c constructs hint

/-- The run in which the Primary is down and the replica is `lag` milliseconds behind. -/
def behindRun (lag : Int) : Option State :=
  exec step (State.init twoNodes fun _ => true)
    [turn 0 true none, turn 0 true (some ("f", some (lag, 0)))]

/-- A read that allows for 80 ms. -/
def within80 : RouteHint :=
  { kind := .read, consistency := .boundedStaleness, staleness := { maxStaleness := 80 } }

theorem boundedRead_within80 : BoundedRead within80 := ⟨.inl rfl, rfl, rfl⟩

/-- With the primary down and the replica 50 ms behind, the read goes to the replica. -/
theorem staleness_honoured_iff_fresh :
    ∃ s, behindRun 50 = some s ∧
      (s.conn.route (fun _ => true) within80).2 = some 1 ∧
      StalenessHonoured s.conn (fun _ => true) within80 := by
  have hrun : (behindRun 50).any (fun s =>
      (s.conn.route (fun _ => true) within80).2 == some 1 &&
        s.conn.nodes.any (Node.eligible within80)) = true := by decide +kernel
  obtain ⟨s, hs, hcond⟩ := (Option.any_eq_true ..).mp hrun
  obtain ⟨hroute, heligible⟩ := Bool.and_eq_true_iff.mp hcond
  refine ⟨s, hs, beq_iff_eq.mp hroute, ?_⟩
  exact (staleness_honoured_iff s.conn (fun _ => true) within80 boundedRead_within80).mpr
    (.inl (List.any_eq_true.mp heligible))

/-- With the primary down and the replica 5 s behind, the read that allows for 80 ms still
goes to the replica. -/
theorem stale_replica_read :
    validate twoNodes = .ok () ∧
    ¬∀ cfg constructs es s pools hint, validate cfg = .ok () →
      exec step (State.init cfg constructs) es = some s → BoundedRead hint →
      StalenessHonoured s.conn pools hint := by
  refine ⟨rfl, fun hall => ?_⟩
  have hrun : (behindRun 5000).any (fun s =>
      (s.conn.route (fun _ => true) within80).2 == some 1 &&
        (s.conn.nodes[1]?).all fun n => n.ep.role == .asyncReplica && !n.stats.isPrimary &&
          n.stats.replayLag == 5000) = true := by decide +kernel
  obtain ⟨s, hs, hcond⟩ := (Option.any_eq_true ..).mp hrun
  obtain ⟨hroute, hstale⟩ := Bool.and_eq_true_iff.mp hcond
  obtain ⟨n, hn, hor⟩ := hall twoNodes (fun _ => true) _ s (fun _ => true) within80 rfl hs
    boundedRead_within80 1 (beq_iff_eq.mp hroute)
  simp only [hn, Option.all_some, Bool.and_eq_true, beq_iff_eq, Bool.not_eq_true'] at hstale
  obtain ⟨⟨hrole, hleader⟩, hlag⟩ := hstale
  rcases hor with (hprimary | hisLeader) | ⟨-, hfresh, -⟩
  · rw [hrole] at hprimary
    cases hprimary
  · rw [hleader] at hisLeader
    cases hisLeader
  · rw [hlag] at hfresh
    exact absurd hfresh (by decide)

end Upq.Routing
