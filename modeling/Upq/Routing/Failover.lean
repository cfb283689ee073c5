/-
  Routing/Failover.lean --- where writes go when every Primary is out.

  Source: the constructor, `route`, `pick_primary` and `pick_any` in
  `src/upq/PgRouting.cpp`.

  With `auto_detect_leader` off, the scan of `pick_primary` over `primary_failover_idx_`
  still asks for the role Primary, so no other node of that list is ever picked there.  What
  is left is `pick_any(true)`, which prefers a Primary in whatever state of health and then
  takes the first replica in the order of the nodes.  The node that `primary_failover` names
  is reached only if these two happen to come to it (`failover_followed_iff`).
-/
import Upq.Routing.Staleness

set_option autoImplicit false

namespace Upq.Routing

open Upq.Foundation

/-! ## The node that should take over -/

/-- A node that can take over: usable, healthy, its breaker not open, with a pool. -/
def Node.standsBy (n : Node) : Bool :=
  isUsable n.ep.role && n.stats.healthy && n.cbState != .opened && n.pool.isSome

theorem Node.standsBy_iff {n : Node} :
    n.standsBy = true ↔ isUsable n.ep.role = true ∧ n.stats.healthy = true ∧
      n.cbState ≠ .opened ∧ n.pool.isSome = true := by
  simp [Node.standsBy, and_assoc]

/-- Node `i` is the first such node in the order of `primary_failover`. -/
structure FailoverTarget (c : Connector) (i : Nat) (n : Node) : Prop where
  node : c.nodes[i]? = some n
  standsBy : n.standsBy = true
  first : ∃ earlier later, c.cfg.primaryFailover = earlier ++ n.ep.name :: later ∧
    ∀ name ∈ earlier, ∀ m ∈ c.nodes, m.ep.name = name → m.standsBy = false

/-- Every Primary is out: its breaker is open. -/
def PrimariesOut (c : Connector) : Prop :=
  ∀ n ∈ c.nodes, n.ep.role = .primary → n.cbState = .opened

/-- No Primary has a pool, and none can be given one. -/
def PrimariesGone (c : Connector) (constructs : Nat → Bool) : Prop :=
  ∀ j m, c.nodes[j]? = some m → m.ep.role = .primary → m.pool.isSome = false ∧ constructs j = false

/-! ## `pick_any(true)` without leader detection -/

theorem pickAny_true_configured {c : Connector} (hauto : c.cfg.health.autoDetectLeader = false)
    (constructs : Nat → Bool) :
    (c.pickAny constructs true).2 =
      (firstOffered 0 (c.opened constructs) fun n => n.ep.role == .primary).or
        (firstOffered 0 (c.opened constructs) fun n => isReplica n.ep.role) := by
  rw [pickAny_true]
  simp only [hauto, Bool.false_and, Bool.false_eq_true, if_false]

/-- A Primary is offered unless all of them are gone. -/
theorem firstOffered_primary_eq_none_iff (c : Connector) (constructs : Nat → Bool) :
    firstOffered 0 (c.opened constructs) (fun n => n.ep.role == .primary) = none ↔
      PrimariesGone c constructs := by
  simp only [firstOffered, Option.map_eq_none_iff, List.findIdx?_eq_none_iff]
  constructor
  · intro hnone j m hm hrole
    have hopened : (c.opened constructs)[j]? = some (m.opened c.cfg.limits (constructs j)) := by
      rw [Connector.opened, openedFrom_getElem?, hm, Nat.zero_add]
      rfl
    have hnot := hnone _ (List.mem_of_getElem? hopened)
    rw [offered_of_usable _ _ (by rw [hrole]; rfl), (ensured_opened m _ _).ep, hrole] at hnot
    simpa using hnot
  · intro hgone n hn
    obtain ⟨j, hj⟩ := List.mem_iff_getElem?.mp hn
    obtain ⟨m, hm, rfl⟩ := opened_getElem? hj
    rw [(ensured_opened m _ _).ep]
    by_cases hrole : m.ep.role = .primary
    · obtain ⟨hpool, hmade⟩ := hgone j m hm hrole
      rw [offered_of_usable _ _ (by rw [hrole]; rfl), hpool, hmade]
      rfl
    · simp [hrole]

/-- The first replica offered is the first reachable one. -/
theorem firstOffered_replica_iff {c : Connector} {constructs : Nat → Bool} {i : Nat} {n : Node}
    (hn : c.nodes[i]? = some n) :
    firstOffered 0 (c.opened constructs) (fun n => isReplica n.ep.role) = some i ↔
      FirstReplica c constructs i n := by
  refine ⟨fun h => ?_, FirstReplica.firstOffered⟩
  obtain ⟨m, hm⟩ := firstOffered_replica h
  obtain rfl : n = m := Option.some.inj (hn.symm.trans hm.node)
  exact hm

/-! ## Failover -/

/-- With every Primary out and no leader detection, `pick_primary` finds nobody. -/
theorem pickPrimary_eq_none {c : Connector} (hauto : c.cfg.health.autoDetectLeader = false)
    (hout : PrimariesOut c) : c.pickPrimary = none := by
  have hpicked := pickPrimary_picked c
  cases hpick : c.pickPrimary with
  | none => rfl
  | some j =>
      rw [hpick] at hpicked
      cases hpicked with
      | leader _ m hdetect _ _ => exact absurd (hauto.symm.trans hdetect) (by decide)
      | configured _ m _ hm hconf =>
          obtain ⟨hrole, hclosed, -⟩ := Node.configured_iff.mp hconf
          exact absurd (hout m (List.mem_of_getElem? hm) hrole) hclosed

/-- **When the configured failover is followed.**  Without leader detection, for every
connector in every state of health in which all Primaries are out and `i` is the first node
of `primary_failover` that can take over: a write is routed to `i` if and only if no Primary
has a pool or can be given one, and `i` is the first replica, in the order of the nodes,
that has a pool or can be given one. -/
theorem failover_followed_iff (c : Connector) (constructs : Nat → Bool) (hint : RouteHint)
    (i : Nat) (n : Node) (hauto : c.cfg.health.autoDetectLeader = false) (hout : PrimariesOut c)
    (htarget : FailoverTarget c i n) (hwrite : hint.kind = .write) :
    (c.route constructs hint).2 = some i ↔
      PrimariesGone c constructs ∧ FirstReplica c constructs i n := by
  have hroute : c.route constructs hint = c.pickAny constructs true := by
    rw [Connector.route, if_pos (wantsPrimary_iff.mpr (.inl hwrite)), Connector.routePrimary,
      pickPrimary_eq_none hauto hout]
    rfl
  rw [hroute, pickAny_true_configured hauto]
  cases hprimary : firstOffered 0 (c.opened constructs) fun n => n.ep.role == .primary with
  | none =>
      have hgone := (firstOffered_primary_eq_none_iff c constructs).mp hprimary
      rw [Option.none_or, firstOffered_replica_iff htarget.node]
      exact ⟨fun h => ⟨hgone, h⟩, fun h => h.2⟩
  | some j =>
      constructor
      · -- a Primary is taken, and the node that stands by is none
        intro hj
        obtain rfl : j = i := Option.some.inj hj
        obtain ⟨m, hm, hrole⟩ := firstOffered_node hprimary
        obtain rfl : n = m := Option.some.inj (htarget.node.symm.trans hm)
        rw [(ensured_opened n _ _).ep, beq_iff_eq] at hrole
        have hopen := hout n (List.mem_of_getElem? hm) hrole
        exact absurd hopen (Node.standsBy_iff.mp htarget.standsBy).2.2.1
      · rintro ⟨hgone, -⟩
        rw [(firstOffered_primary_eq_none_iff c constructs).mpr hgone] at hprimary
        cases hprimary

/-- Two nodes, of which the second is named for failover. -/
def failoverPair : Config :=
  { twoNodes with primaryFailover := ["b"], health := { autoDetectLeader := false } }

/-- What the two runs below come to: the Primary is out and `b` stands by. -/
def awaitsFailover (c : Connector) : Bool :=
  !c.cfg.health.autoDetectLeader && c.cfg.primaryFailover == ["b"] &&
    c.nodes.all (fun n => n.ep.role != .primary || n.cbState == .opened) &&
    (c.nodes[1]?).any fun n => n.ep.name == "b" && n.standsBy

theorem awaitsFailover_spec {c : Connector} (h : awaitsFailover c = true) :
    c.cfg.health.autoDetectLeader = false ∧ PrimariesOut c ∧ ∃ n, FailoverTarget c 1 n := by
  simp only [awaitsFailover, Bool.and_eq_true, Bool.not_eq_true', beq_iff_eq, List.all_eq_true,
    Bool.or_eq_true, bne_iff_ne, Option.any_eq_true] at h
  obtain ⟨⟨⟨hauto, hnames⟩, hout⟩, n, hn, hname, hstands⟩ := h
  refine ⟨hauto, fun m hm hrole => (hout m hm).resolve_left fun hne => hne hrole, n, hn, hstands,
    [], [], ?_, fun _ h => by cases h⟩
  rw [hnames, hname]
  rfl

/-- A Primary without a pool is passed over, and the write goes to `b`. -/
theorem failover_followed_iff_poolless :
    ∃ s, exec step (State.init failoverPair (· == 1))
        [turn 0 false none, turn 0 true (some ("f", some (0, 0)))] = some s ∧
      (s.conn.route (· == 1) { kind := .write }).2 = some 1 := by
  have hrun : (exec step (State.init failoverPair (· == 1))
      [turn 0 false none, turn 0 true (some ("f", some (0, 0)))]).any
      (fun s => awaitsFailover s.conn &&
        (s.conn.nodes[0]?).any (fun n => n.ep.role == .primary && n.pool.isNone) &&
        (s.conn.nodes[1]?).any (fun n => n.reachable true) &&
        s.conn.nodes.length == 2) = true := by decide +kernel
  obtain ⟨s, hs, hcond⟩ := (Option.any_eq_true ..).mp hrun
  simp only [Bool.and_eq_true, Option.any_eq_true, beq_iff_eq] at hcond
  obtain ⟨⟨⟨hawaits, m, hm, hrole, hpool⟩, k, hk, hreach⟩, hlen⟩ := hcond
  obtain ⟨hauto, hout, n, htarget⟩ := awaitsFailover_spec hawaits
  obtain rfl : n = k := Option.some.inj (htarget.node.symm.trans hk)
  refine ⟨s, hs, (failover_followed_iff s.conn (· == 1) { kind := .write } 1 n hauto hout htarget
    rfl).mpr ⟨fun j x hx hxrole => ?_, hk, hreach, fun j x hj hx => ?_⟩⟩
  · obtain ⟨hlt, -⟩ := List.getElem?_eq_some_iff.mp hx
    obtain rfl | rfl : j = 0 ∨ j = 1 := by omega
    · obtain rfl : m = x := Option.some.inj (hm.symm.trans hx)
      exact ⟨by simpa using hpool, rfl⟩
    · obtain rfl : n = x := Option.some.inj (hk.symm.trans hx)
      have hopen := hout n (List.mem_of_getElem? hk) hxrole
      exact absurd hopen (Node.standsBy_iff.mp htarget.standsBy).2.2.1
  · obtain rfl : j = 0 := by omega
    obtain rfl : m = x := Option.some.inj (hm.symm.trans hx)
    rw [Node.reachable, hrole]
    rfl

/-- With the Primary down and `b` standing by, writes still go to the Primary. -/
theorem failover_ignored :
    validate failoverPair = .ok () ∧
    ¬∀ cfg constructs es s pools hint i n, validate cfg = .ok () →
      exec step (State.init cfg constructs) es = some s →
      cfg.health.autoDetectLeader = false → PrimariesOut s.conn → FailoverTarget s.conn i n →
      hint.kind = .write → (s.conn.route pools hint).2 = some i := by
  refine ⟨rfl, fun hall => ?_⟩
  have hrun : (exec step (State.init failoverPair fun _ => true)
      [turn 0 true none, turn 0 true (some ("f", some (0, 0)))]).any
      (fun s => awaitsFailover s.conn &&
        (s.conn.route (fun _ => true) { kind := .write }).2 == some 0) = true := by decide +kernel
  obtain ⟨s, hs, hcond⟩ := (Option.any_eq_true ..).mp hrun
  obtain ⟨hawaits, hroute⟩ := Bool.and_eq_true_iff.mp hcond
  obtain ⟨-, hout, n, htarget⟩ := awaitsFailover_spec hawaits
  have hfollowed := hall failoverPair (fun _ => true) _ s (fun _ => true) { kind := .write } 1 n rfl
    hs rfl hout htarget rfl
  rw [beq_iff_eq.mp hroute] at hfollowed
  cases hfollowed

end Upq.Routing
