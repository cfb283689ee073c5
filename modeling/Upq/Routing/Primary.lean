/-
  Routing/Primary.lean --- where writes and strong reads go.

  Source: `route`, `route_for_tx`, `pick_primary` and `pick_any` in
  `src/upq/PgRouting.cpp`.

  `pick_primary` is five scans, and its answer is summed up once (`Picked`): a node
  recorded as leader, or a configured Primary when no leader passes.  `pick_any` is
  one loop over three locals; it is three scans over the nodes as it leaves them
  (`pickAnyLoop_eq`).  Writes and strong reads then always reach a primary candidate.
  A leader whose breaker is open is invisible to `pick_primary`, so a configured
  Primary that has been demoted is preferred to it.
-/
import Upq.Routing.Connector

set_option autoImplicit false

namespace Upq.Routing

open Upq.Foundation

/-! ## Scans -/

theorem firstOf_eq_some {nodes : List Node} {p : Node → Bool} {idx : List Nat} {i : Nat}
    (h : firstOf nodes p idx = some i) : ∃ n, nodes[i]? = some n ∧ p n = true :=
  (Option.any_eq_true _ _).mp (List.find?_some (p := fun i => (nodes[i]?).any p) h)

theorem findIdx?_eq_some {nodes : List Node} {p : Node → Bool} {i : Nat}
    (h : nodes.findIdx? p = some i) : ∃ n, nodes[i]? = some n ∧ p n = true := by
  obtain ⟨hi, hp, -⟩ := List.findIdx?_eq_some_iff_getElem.mp h
  exact ⟨nodes[i], List.getElem?_eq_getElem hi, hp⟩

theorem exists_findIdx? {nodes : List Node} {p : Node → Bool} (h : ∃ n ∈ nodes, p n = true) :
    ∃ i, nodes.findIdx? p = some i := by
  rw [← Option.isSome_iff_exists, List.findIdx?_isSome, List.any_eq_true]
  exact h

/-! ## `pick_primary` -/

/-- What `pick_primary` can answer. -/
inductive Picked (c : Connector) : Option Nat → Prop where
  | leader (i : Nat) (n : Node) (hauto : c.cfg.health.autoDetectLeader = true)
      (hn : c.nodes[i]? = some n) (hleads : n.leads = true) : Picked c (some i)
  | configured (i : Nat) (n : Node)
      (hnone : c.cfg.health.autoDetectLeader = true → ∀ m ∈ c.nodes, m.leads = false)
      (hn : c.nodes[i]? = some n) (hconf : n.configured = true) : Picked c (some i)
  | nobody (hnone : c.cfg.health.autoDetectLeader = true → ∀ m ∈ c.nodes, m.leads = false)
      (hconf : ∀ m ∈ c.nodes, m.configured = false) : Picked c none

/-- The role scans, when the leader scans have found nobody. -/
theorem picked_configured {c : Connector}
    (hnone : c.cfg.health.autoDetectLeader = true → ∀ m ∈ c.nodes, m.leads = false) :
    Picked c ((firstOf c.nodes (fun n => n.configured && n.stats.healthy) c.primaryFailoverIdx).or
      (c.nodes.findIdx? Node.configured)) := by
  cases hfirst : firstOf c.nodes (fun n => n.configured && n.stats.healthy)
    c.primaryFailoverIdx with
  | some i =>
      obtain ⟨n, hn, hp⟩ := firstOf_eq_some hfirst
      exact .configured i n hnone hn (Bool.and_eq_true_iff.mp hp).1
  | none =>
      rw [Option.none_or]
      cases hany : c.nodes.findIdx? Node.configured with
      | some i =>
          obtain ⟨n, hn, hp⟩ := findIdx?_eq_some hany
          exact .configured i n hnone hn hp
      | none => exact .nobody hnone (List.findIdx?_eq_none_iff.mp hany)

theorem pickPrimary_picked (c : Connector) : Picked c c.pickPrimary := by
  unfold Connector.pickPrimary
  split
  · rename_i hauto
    cases hfirst : firstOf c.nodes (fun n => n.leads && n.stats.healthy) c.primaryFailoverIdx with
    | some i =>
        obtain ⟨n, hn, hp⟩ := firstOf_eq_some hfirst
        exact .leader i n hauto hn (Bool.and_eq_true_iff.mp hp).1
    | none =>
        cases hhealthy : c.nodes.findIdx? (fun n => n.leads && n.stats.healthy) with
        | some i =>
            obtain ⟨n, hn, hp⟩ := findIdx?_eq_some hhealthy
            exact .leader i n hauto hn (Bool.and_eq_true_iff.mp hp).1
        | none =>
            cases hany : c.nodes.findIdx? Node.leads with
            | some i =>
                obtain ⟨n, hn, hp⟩ := findIdx?_eq_some hany
                exact .leader i n hauto hn hp
            | none => exact picked_configured fun _ => List.findIdx?_eq_none_iff.mp hany
  · rename_i hauto
    exact picked_configured fun h => absurd h hauto

theorem Node.leads_iff {n : Node} :
    n.leads = true ↔ n.stats.isPrimary = true ∧ isUsable n.ep.role = true ∧
      n.cbState ≠ .opened ∧ n.pool.isSome = true := by
  simp [Node.leads, and_assoc]

theorem Node.configured_iff {n : Node} :
    n.configured = true ↔ n.ep.role = .primary ∧ n.cbState ≠ .opened ∧ n.pool.isSome = true := by
  simp only [Node.configured, Bool.and_eq_true, beq_iff_eq, bne_iff_ne]
  constructor
  · rintro ⟨⟨⟨hrole, -⟩, hcb⟩, hpool⟩
    exact ⟨hrole, hcb, hpool⟩
  · rintro ⟨hrole, hcb, hpool⟩
    exact ⟨⟨⟨hrole, by rw [hrole]; rfl⟩, hcb⟩, hpool⟩

theorem isUsable_iff {r : NodeRole} : isUsable r = true ↔ r ≠ .archive ∧ r ≠ .maintenance := by
  simp [isUsable]

/-! ## `pick_any` -/

/-- A node after `pick_any` has come by. -/
def Node.opened (n : Node) (lim : PoolLimits) (constructs : Bool) : Node :=
  if isUsable n.ep.role then (n.ensurePool lim constructs).1 else n

/-- The nodes after `pick_any`; the first of them has position `i`. -/
def openedFrom (lim : PoolLimits) (constructs : Nat → Bool) (i : Nat) : List Node → List Node
  | [] => []
  | n :: rest => n.opened lim (constructs i) :: openedFrom lim constructs (i + 1) rest

/-- A node `pick_any` looks at: usable and with a pool. -/
def Node.offered (n : Node) : Bool := isUsable n.ep.role && n.pool.isSome

/-- The position, counted from `i`, of the first offered node that satisfies `p`. -/
def firstOffered (i : Nat) (nodes : List Node) (p : Node → Bool) : Option Nat :=
  (nodes.findIdx? fun n => n.offered && p n).map (· + i)

/-- The three locals at the end, from what they were before. -/
def Seen.over (s : Seen) (i : Nat) (nodes : List Node) : Seen where
  detected := s.detected.or (firstOffered i nodes fun n => n.stats.isPrimary)
  configured := s.configured.or (firstOffered i nodes fun n => n.ep.role == .primary)
  anyReplica := s.anyReplica.or (firstOffered i nodes fun n => isReplica n.ep.role)

theorem firstOffered_cons (i : Nat) (n : Node) (nodes : List Node) (p : Node → Bool) :
    firstOffered i (n :: nodes) p =
      if n.offered && p n then some i else firstOffered (i + 1) nodes p := by
  unfold firstOffered
  rw [List.findIdx?_cons]
  split
  · simp
  · rw [Option.map_map]
    congr 1
    funext j
    simp only [Function.comp_apply]
    omega

/-- A node that is not offered leaves the locals alone. -/
theorem Seen.over_skip (s : Seen) (i : Nat) {n : Node} (nodes : List Node)
    (h : n.offered = false) : s.over i (n :: nodes) = s.over (i + 1) nodes := by
  simp [Seen.over, firstOffered_cons, h]

/-- The first node of a kind is noted, later ones are not. -/
theorem or_note (seen : Option Nat) (i : Nat) (b : Bool) (rest : Option Nat) :
    (if b && seen.isNone then some i else seen).or rest =
      seen.or (if b then some i else rest) := by
  cases seen with
  | none => cases b <;> rfl
  | some j => simp

theorem Seen.over_note (s : Seen) (i : Nat) {n : Node} (nodes : List Node)
    (h : n.offered = true) : s.over i (n :: nodes) = (s.note i n).over (i + 1) nodes := by
  simp only [Seen.over, Seen.note, firstOffered_cons, h, Bool.true_and, or_note]

theorem ensurePool_fst_ep (n : Node) (lim : PoolLimits) (b : Bool) :
    (n.ensurePool lim b).1.ep = n.ep := by
  unfold Node.ensurePool
  split
  · rfl
  · split <;> rfl

/-- `ensure_pool` answers whether there is a pool afterwards. -/
theorem ensurePool_snd (n : Node) (lim : PoolLimits) (b : Bool) :
    (n.ensurePool lim b).2 = (n.ensurePool lim b).1.pool.isSome := by
  unfold Node.ensurePool
  split
  · rename_i hpool
    exact hpool.symm
  · split <;> rfl

/-- **Loop rule.**  `pick_any` makes the pools it can, and its locals are the first
offered nodes of each kind. -/
theorem pickAnyLoop_eq (lim : PoolLimits) (constructs : Nat → Bool) (i : Nat) (nodes : List Node)
    (seen : Seen) :
    pickAnyLoop lim constructs i nodes seen =
      (openedFrom lim constructs i nodes, seen.over i (openedFrom lim constructs i nodes)) := by
  induction nodes generalizing i seen with
  | nil => simp [pickAnyLoop, openedFrom, Seen.over, firstOffered]
  | cons n rest ih =>
      unfold pickAnyLoop openedFrom
      cases husable : isUsable n.ep.role with
      | false =>
          have hopened : n.opened lim (constructs i) = n := by simp [Node.opened, husable]
          have hnot : n.offered = false := by simp [Node.offered, husable]
          simp only [ih, hopened, Bool.not_false, if_true, Seen.over_skip seen i _ hnot]
      | true =>
          have hopened : n.opened lim (constructs i) = (n.ensurePool lim (constructs i)).1 := by
            simp [Node.opened, husable]
          have hoffered : (n.ensurePool lim (constructs i)).1.offered =
              (n.ensurePool lim (constructs i)).2 := by
            rw [ensurePool_snd, Node.offered, ensurePool_fst_ep, husable, Bool.true_and]
          rw [hopened]
          cases hensure : n.ensurePool lim (constructs i) with
          | mk n' ok =>
              rw [hensure] at hoffered
              cases ok with
              | false => simp [ih, Seen.over_skip seen i _ hoffered]
              | true => simp [ih, Seen.over_note seen i _ hoffered]

theorem firstOffered_eq_some {nodes : List Node} {p : Node → Bool} {j : Nat}
    (h : firstOffered 0 nodes p = some j) :
    ∃ n, nodes[j]? = some n ∧ n.offered = true ∧ p n = true := by
  simp only [firstOffered, Option.map_eq_some_iff, Nat.add_zero, exists_eq_right] at h
  obtain ⟨n, hn, hp⟩ := findIdx?_eq_some h
  exact ⟨n, hn, Bool.and_eq_true_iff.mp hp⟩

theorem exists_firstOffered {nodes : List Node} {p : Node → Bool}
    (h : ∃ n ∈ nodes, n.offered = true ∧ p n = true) : ∃ j, firstOffered 0 nodes p = some j := by
  obtain ⟨n, hn, hoffered, hp⟩ := h
  obtain ⟨j, hj⟩ := exists_findIdx? (p := fun n => n.offered && p n)
    ⟨n, hn, Bool.and_eq_true_iff.mpr ⟨hoffered, hp⟩⟩
  exact ⟨j, by simp [firstOffered, hj]⟩

/-- The nodes after `pick_any`. -/
def Connector.opened (c : Connector) (constructs : Nat → Bool) : List Node :=
  openedFrom c.cfg.limits constructs 0 c.nodes

/-- What `pick_any(true)` answers. -/
theorem pickAny_true (c : Connector) (constructs : Nat → Bool) :
    c.pickAny constructs true =
      ({ c with nodes := c.opened constructs },
        (if c.cfg.health.autoDetectLeader &&
            (firstOffered 0 (c.opened constructs) fun n => n.stats.isPrimary).isSome then
          firstOffered 0 (c.opened constructs) fun n => n.stats.isPrimary
        else firstOffered 0 (c.opened constructs) fun n => n.ep.role == .primary).or
          (firstOffered 0 (c.opened constructs) fun n => isReplica n.ep.role)) := by
  simp [Connector.pickAny, pickAnyLoop_eq, Connector.opened, Seen.over]

/-! ## Making a pool changes nothing else -/

/-- `m` is `n`, with a pool if it had none. -/
structure Ensured (n m : Node) : Prop where
  ep : m.ep = n.ep
  stats : m.stats = n.stats
  pool : n.pool.isSome = true → m.pool.isSome = true

theorem ensured_ensurePool (n : Node) (lim : PoolLimits) (b : Bool) :
    Ensured n (n.ensurePool lim b).1 := by
  unfold Node.ensurePool
  split
  · exact ⟨rfl, rfl, id⟩
  · rename_i hpool
    split <;> exact ⟨rfl, rfl, fun h => absurd h hpool⟩

theorem ensured_opened (n : Node) (lim : PoolLimits) (b : Bool) : Ensured n (n.opened lim b) := by
  unfold Node.opened
  split
  · exact ensured_ensurePool n lim b
  · exact ⟨rfl, rfl, id⟩

theorem openedFrom_getElem? (lim : PoolLimits) (constructs : Nat → Bool) (i j : Nat)
    (nodes : List Node) :
    (openedFrom lim constructs i nodes)[j]? =
      (nodes[j]?).map fun n => n.opened lim (constructs (i + j)) := by
  induction nodes generalizing i j with
  | nil => simp [openedFrom]
  | cons n rest ih =>
      cases j with
      | zero => simp [openedFrom]
      | succ j =>
          simp only [openedFrom, List.getElem?_cons_succ, ih]
          rw [Nat.add_right_comm i 1 j, Nat.add_assoc]

/-- A node of the list after `pick_any` is a node of the list before it. -/
theorem opened_getElem? {c : Connector} {constructs : Nat → Bool} {j : Nat} {m : Node}
    (h : (c.opened constructs)[j]? = some m) :
    ∃ n, c.nodes[j]? = some n ∧ m = n.opened c.cfg.limits (constructs j) := by
  rw [Connector.opened, openedFrom_getElem?, Option.map_eq_some_iff] at h
  obtain ⟨n, hn, rfl⟩ := h
  exact ⟨n, hn, by rw [Nat.zero_add]⟩

/-- And every node of the list before it is there afterwards. -/
theorem exists_opened {c : Connector} (constructs : Nat → Bool) {n : Node} (h : n ∈ c.nodes) :
    ∃ j, n.opened c.cfg.limits (constructs j) ∈ c.opened constructs := by
  obtain ⟨j, hj⟩ := List.mem_iff_getElem?.mp h
  refine ⟨j, List.mem_of_getElem? (i := j) ?_⟩
  rw [Connector.opened, openedFrom_getElem?, hj, Nat.zero_add]
  rfl

/-! ## Writes and strong reads -/

/-- A pick that has a pool is returned. -/
theorem tryPool_of_pool {c : Connector} {constructs : Nat → Bool} {i : Nat} {n : Node}
    (hn : c.nodes[i]? = some n) (hpool : n.pool.isSome = true)
    (rest : Connector → Connector × Option Nat) :
    c.tryPool constructs (some i) rest = (c, some i) := by
  have hensure : n.ensurePool c.cfg.limits (constructs i) = (n, true) := by
    simp [Node.ensurePool, hpool]
  have hset : c.nodes.set i n = c.nodes := by
    obtain ⟨hi, rfl⟩ := List.getElem?_eq_some_iff.mp hn
    exact List.set_getElem_self hi
  simp only [Connector.tryPool, hn, hensure, hset]

/-- A node `pick_primary` picks has a pool. -/
theorem Picked.pool {c : Connector} {i : Nat} (h : Picked c (some i)) :
    ∃ n, c.nodes[i]? = some n ∧ n.pool.isSome = true := by
  cases h with
  | leader _ n _ hn hleads => exact ⟨n, hn, (Node.leads_iff.mp hleads).2.2.2⟩
  | configured _ n _ hn hconf => exact ⟨n, hn, (Node.configured_iff.mp hconf).2.2⟩

/-- `route` and `route_for_tx` for writes and strong reads: the pick, which has a pool,
or `pick_any`. -/
theorem routePrimary_cases (c : Connector) (constructs : Nat → Bool) :
    (∃ i, c.pickPrimary = some i ∧ c.routePrimary constructs = (c, some i)) ∨
      (c.pickPrimary = none ∧ c.routePrimary constructs = c.pickAny constructs true) := by
  have hpicked := pickPrimary_picked c
  unfold Connector.routePrimary
  cases hpick : c.pickPrimary with
  | none => exact .inr ⟨rfl, rfl⟩
  | some i =>
      rw [hpick] at hpicked
      obtain ⟨n, hn, hpool⟩ := hpicked.pool
      exact .inl ⟨i, rfl, tryPool_of_pool hn hpool _⟩

/-- The connector is one `PgConnector(cfg)` made, in any state of health. -/
structure Built (cfg : Config) (c : Connector) : Prop where
  config : c.cfg = cfg
  nodes : c.nodes.map (·.ep) = cfg.nodes
  failover : c.primaryFailoverIdx = failoverIdx cfg

/-- A usable node is offered when it has a pool or one can be made. -/
theorem offered_of_usable {n : Node} (lim : PoolLimits) (constructs : Bool)
    (husable : isUsable n.ep.role = true) :
    (n.opened lim constructs).offered = (n.pool.isSome || constructs) := by
  simp only [Node.opened, husable, if_true, Node.offered, ensurePool_fst_ep, Bool.true_and,
    ← ensurePool_snd]
  unfold Node.ensurePool
  cases n.pool.isSome <;> cases constructs <;> rfl

/-- A usable node gets its pool when its construction succeeds. -/
theorem opened_offered {n : Node} (lim : PoolLimits) (husable : isUsable n.ep.role = true) :
    (n.opened lim true).offered = true := by
  rw [offered_of_usable lim true husable, Bool.or_true]

/-- The node is one a write may go to. -/
structure Candidate (n : Node) : Prop where
  pool : n.pool.isSome = true
  primary : n.ep.role = .primary ∨ n.stats.isPrimary = true
  usable : n.ep.role ≠ .archive ∧ n.ep.role ≠ .maintenance

theorem candidate_of_offered {n : Node} (hoffered : n.offered = true)
    (hprimary : n.ep.role = .primary ∨ n.stats.isPrimary = true) : Candidate n := by
  obtain ⟨husable, hpool⟩ := Bool.and_eq_true_iff.mp hoffered
  exact ⟨hpool, hprimary, isUsable_iff.mp husable⟩

/-- With a Primary among the nodes, the lines for writes end at a candidate. -/
theorem routePrimary_candidate (c : Connector) (h : ∃ n ∈ c.nodes, n.ep.role = .primary) :
    ∃ i n, (c.routePrimary fun _ => true).2 = some i ∧
      (c.routePrimary fun _ => true).1.nodes[i]? = some n ∧ Candidate n := by
  rcases routePrimary_cases c (fun _ => true) with ⟨i, hpick, heq⟩ | ⟨-, heq⟩
  · rw [heq]
    have hpicked := pickPrimary_picked c
    rw [hpick] at hpicked
    cases hpicked with
    | leader _ n _ hn hleads =>
        obtain ⟨hprimary, husable, -, hpool⟩ := Node.leads_iff.mp hleads
        exact ⟨i, n, rfl, hn, hpool, .inr hprimary, isUsable_iff.mp husable⟩
    | configured _ n _ hn hconf =>
        obtain ⟨hrole, -, hpool⟩ := Node.configured_iff.mp hconf
        exact ⟨i, n, rfl, hn, hpool, .inl hrole, by rw [hrole]; exact ⟨nofun, nofun⟩⟩
  · rw [heq, pickAny_true]
    -- the Primary is offered, so the last resort, a replica, is not taken
    obtain ⟨n, hn, hrole⟩ := h
    obtain ⟨j, hj⟩ := exists_opened (fun _ => true) hn
    have hconfigured := exists_firstOffered (p := fun n => n.ep.role == .primary)
      ⟨_, hj, opened_offered _ (by rw [hrole]; rfl),
        by rw [(ensured_opened n _ _).ep, hrole]; rfl⟩
    obtain ⟨k, hk⟩ := hconfigured
    split
    · rename_i hdetected
      obtain ⟨i, hi⟩ := Option.isSome_iff_exists.mp (Bool.and_eq_true_iff.mp hdetected).2
      obtain ⟨m, hm, hoffered, hp⟩ := firstOffered_eq_some hi
      rw [hi]
      exact ⟨i, m, rfl, hm, candidate_of_offered hoffered (.inr hp)⟩
    · obtain ⟨m, hm, hoffered, hp⟩ := firstOffered_eq_some hk
      rw [hk]
      exact ⟨k, m, rfl, hm, candidate_of_offered hoffered (.inl (beq_iff_eq.mp hp))⟩

theorem wantsPrimary_iff {hint : RouteHint} :
    hint.wantsPrimary = true ↔ hint.kind = .write ∨ hint.kind = .ddl ∨
      hint.consistency = .strong ∨ hint.readMyWrites = true := by
  simp [RouteHint.wantsPrimary, or_assoc]

/-- **Writes and strong reads reach a primary candidate.**  For a configuration the
builder accepts, in every state of health and with pools that can be made, `route`
answers with the pool of a node that is configured as Primary or recorded as leader, and
neither Archive nor Maintenance. -/
theorem route_reaches_candidate (cfg : Config) (c : Connector) (hint : RouteHint)
    (hvalid : validate cfg = .ok ()) (hbuilt : Built cfg c)
    (hhint : hint.kind = .write ∨ hint.kind = .ddl ∨ hint.consistency = .strong ∨
      hint.readMyWrites = true) :
    ∃ i n, (c.route (fun _ => true) hint).2 = some i ∧
      (c.route (fun _ => true) hint).1.nodes[i]? = some n ∧ n.pool.isSome = true ∧
      (n.ep.role = .primary ∨ n.stats.isPrimary = true) ∧
      n.ep.role ≠ .archive ∧ n.ep.role ≠ .maintenance := by
  obtain ⟨ep, hep, hrole⟩ := (validate_eq_ok.mp hvalid).primary
  rw [← hbuilt.nodes] at hep
  obtain ⟨m, hm, rfl⟩ := List.mem_map.mp hep
  obtain ⟨i, n, hroute, hn, hcand⟩ := routePrimary_candidate c ⟨m, hm, hrole⟩
  rw [Connector.route, if_pos (wantsPrimary_iff.mpr hhint)]
  exact ⟨i, n, hroute, hn, hcand.pool, hcand.primary, hcand.usable⟩

/-! ## Every state of a run is one of these -/

/-- `d` has the configuration of `c` and, of every node, what `f` reads. -/
structure SameBy {α : Type} (f : Node → α) (c d : Connector) : Prop where
  config : d.cfg = c.cfg
  nodes : d.nodes.map f = c.nodes.map f
  failover : d.primaryFailoverIdx = c.primaryFailoverIdx

section

variable {α : Type} {f : Node → α}

theorem SameBy.trans {c d e : Connector} (h : SameBy f c d) (h' : SameBy f d e) : SameBy f c e :=
  ⟨h'.config.trans h.config, h'.nodes.trans h.nodes, h'.failover.trans h.failover⟩

theorem sameBy_set {c : Connector} {i : Nat} {n m : Node} (hn : c.nodes[i]? = some n)
    (hf : f m = f n) : SameBy f c { c with nodes := c.nodes.set i m } := by
  refine ⟨rfl, List.ext_getElem? fun j => ?_, rfl⟩
  simp only [List.getElem?_map]
  by_cases hij : i = j
  · subst hij
    obtain ⟨hi, -⟩ := List.getElem?_eq_some_iff.mp hn
    rw [List.getElem?_set_self hi, hn, Option.map_some, Option.map_some, hf]
  · rw [List.getElem?_set_ne hij]

/-! A route only makes pools: what `f` reads of a node stays if a pool does not matter for
it. -/

variable (hf : ∀ n lim b, f (Node.ensurePool n lim b).1 = f n)

include hf

theorem sameBy_pickAny (c : Connector) (constructs : Nat → Bool) (prefer : Bool) :
    SameBy f c (c.pickAny constructs prefer).1 := by
  have hnodes : (c.pickAny constructs prefer).1 = { c with nodes := c.opened constructs } := by
    simp [Connector.pickAny, pickAnyLoop_eq, Connector.opened]
  rw [hnodes]
  refine ⟨rfl, List.ext_getElem? fun j => ?_, rfl⟩
  simp only [Connector.opened, List.getElem?_map, openedFrom_getElem?, Option.map_map]
  congr 1
  funext n
  simp only [Function.comp_apply, Node.opened]
  split
  · exact hf n _ _
  · rfl

theorem sameBy_tryPool {c : Connector} {constructs : Nat → Bool} {pick : Option Nat}
    {rest : Connector → Connector × Option Nat} (hrest : ∀ d, SameBy f d (rest d).1) :
    SameBy f c (c.tryPool constructs pick rest).1 := by
  unfold Connector.tryPool
  split
  · exact hrest c
  · rename_i i
    split
    · exact hrest c
    · rename_i n hn
      have hmade := hf n c.cfg.limits (constructs i)
      split
      · rename_i m heq
        rw [heq] at hmade
        exact sameBy_set hn hmade
      · rename_i m heq
        rw [heq] at hmade
        exact (sameBy_set hn hmade).trans (hrest _)

theorem sameBy_routePrimary (c : Connector) (constructs : Nat → Bool) :
    SameBy f c (c.routePrimary constructs).1 :=
  sameBy_tryPool hf fun d => sameBy_pickAny hf d constructs true

theorem sameBy_routeReplica (c : Connector) (constructs : Nat → Bool) (hint : RouteHint) :
    SameBy f c (c.routeReplica constructs hint).1 :=
  sameBy_tryPool hf fun _ => sameBy_tryPool hf fun d => sameBy_pickAny hf d constructs false

theorem sameBy_route (c : Connector) (constructs : Nat → Bool) (hint : RouteHint) :
    SameBy f c (c.route constructs hint).1 := by
  unfold Connector.route
  split
  · exact sameBy_routePrimary hf c constructs
  · exact sameBy_routeReplica hf c constructs hint

theorem sameBy_routeForTx (c : Connector) (constructs : Nat → Bool) (tx : PgTransactionConfig) :
    SameBy f c (c.routeForTx constructs tx).1 := by
  unfold Connector.routeForTx
  split
  · exact sameBy_routePrimary hf c constructs
  · split
    · exact sameBy_tryPool hf fun d => sameBy_routePrimary hf d constructs
    · exact sameBy_routeReplica hf c constructs _

end

theorem applyCircuitBreaker_ep (h : HealthCfg) (n : Node) (ok : Bool) (now : Int) :
    (applyCircuitBreaker h n ok now).ep = n.ep := by
  unfold applyCircuitBreaker
  cases ok with
  | false => cases n.cbState <;> rfl
  | true =>
      simp only [if_true]
      split <;> split <;> rfl

theorem tickNode_ep (cfg : Config) (p : Probe) (n : Node) : (tickNode cfg p n).ep = n.ep := by
  have hep := ensurePool_fst_ep n cfg.limits p.constructs
  unfold tickNode
  split
  · unfold probeNode
    split
    · rename_i m heq
      rw [heq] at hep
      rw [applyCircuitBreaker_ep]
      exact hep
    · rename_i m heq
      rw [heq] at hep
      rw [applyCircuitBreaker_ep]
      exact hep
  · rfl

/-- **Step rule.**  Health ticks and routes keep the nodes. -/
theorem sameBy_ep_step {s t : State} {e : Event} (h : step s e = some t) :
    SameBy (·.ep) s.conn t.conn := by
  cases e with
  | probe p =>
      simp only [step] at h
      split at h
      · cases h
      · rename_i n hn
        cases h
        exact sameBy_set hn (tickNode_ep _ _ _)
  | route constructs hint =>
      cases h
      exact sameBy_route ensurePool_fst_ep s.conn constructs hint
  | routeForTx constructs tx =>
      cases h
      exact sameBy_routeForTx ensurePool_fst_ep s.conn constructs tx

/-- **Run rule.**  Every state a connector reaches is a connector of its
configuration. -/
theorem built_exec {cfg : Config} {constructs : Nat → Bool} {es : List Event} {s : State}
    (h : exec step (State.init cfg constructs) es = some s) : Built cfg s.conn := by
  refine exec_invariant (fun s => Built cfg s.conn) ?_ ?_ h
  · intro s e t hs hstep
    have hsame := sameBy_ep_step hstep
    exact ⟨hsame.config.trans hs.config, hsame.nodes.trans hs.nodes,
      hsame.failover.trans hs.failover⟩
  · refine ⟨rfl, List.ext_getElem? fun j => ?_, rfl⟩
    simp [State.init, Connector.new, List.getElem?_mapIdx, Function.comp_def]

/-- Two nodes, of which the first is configured as Primary. -/
def twoNodes : Config :=
  { nodes := [{ name := "a", role := .primary }, { name := "b", role := .asyncReplica }] }

/-- After a tick that no node answers both breakers are open and nothing is healthy: the write
goes to the configured Primary. -/
theorem route_reaches_candidate_outage :
    ∃ s, exec step (State.init twoNodes fun _ => true) [turn 0 true none, turn 0 true none] =
        some s ∧
      s.conn.nodes.all (fun n => n.cbState == .opened && !n.stats.healthy) = true ∧
      ∃ i n, (s.conn.route (fun _ => true) { kind := .write }).2 = some i ∧
        (s.conn.route (fun _ => true) { kind := .write }).1.nodes[i]? = some n ∧
        n.pool.isSome = true ∧ (n.ep.role = .primary ∨ n.stats.isPrimary = true) ∧
        n.ep.role ≠ .archive ∧ n.ep.role ≠ .maintenance := by
  have hrun : (exec step (State.init twoNodes fun _ => true)
      [turn 0 true none, turn 0 true none]).any (fun s =>
        s.conn.nodes.all fun n => n.cbState == .opened && !n.stats.healthy) = true := by
    decide +kernel
  obtain ⟨s, hs, hdown⟩ := (Option.any_eq_true ..).mp hrun
  exact ⟨s, hs, hdown, route_reaches_candidate twoNodes s.conn { kind := .write } rfl
    (built_exec hs) (.inl rfl)⟩

/-! ## A detected leader -/

/-- A usable node with a pool that is recorded as leader. -/
def Node.Leader (n : Node) : Prop :=
  isUsable n.ep.role = true ∧ n.pool.isSome = true ∧ n.stats.isPrimary = true

/-- The answer of a route is the pool of a node recorded as leader. -/
def OnLeader (c : Connector) (answer : Option Nat) : Prop :=
  ∃ i n, answer = some i ∧ c.nodes[i]? = some n ∧ n.stats.isPrimary = true

/-- If there is a leader, writes, strong reads and the transactions that may write go
to a leader. -/
def LeaderFollowed (c : Connector) : Prop :=
  (∃ n ∈ c.nodes, n.Leader) →
    (∀ constructs hint, hint.kind = .write ∨ hint.kind = .ddl ∨ hint.consistency = .strong ∨
        hint.readMyWrites = true → OnLeader c (c.route constructs hint).2) ∧
      ∀ constructs tx, tx.readOnly = false ∨ tx.isolation = .serializable →
        OnLeader c (c.routeForTx constructs tx).2

/-- If there is a leader, then one whose breaker is not open, or no configured Primary
with a pool has a breaker that is not open. -/
def LeaderVisible (c : Connector) : Prop :=
  (∃ n ∈ c.nodes, n.Leader) →
    (∃ n ∈ c.nodes, n.Leader ∧ n.cbState ≠ .opened) ∨
      ∀ n ∈ c.nodes, n.ep.role = .primary → n.pool.isSome = true → n.cbState = .opened

instance : DecidablePred Node.Leader := fun _ => inferInstanceAs (Decidable (_ ∧ _ ∧ _))

instance (c : Connector) : Decidable (LeaderVisible c) := inferInstanceAs (Decidable (_ → _ ∨ _))

theorem txWantsPrimary_of {cfg : Config} {tx : PgTransactionConfig}
    (h : tx.readOnly = false ∨ tx.isolation = .serializable) : txWantsPrimary cfg tx = true := by
  rcases h with hwrite | hser
  · simp [txWantsPrimary, hwrite]
  · simp [txWantsPrimary, effConsistency, hser]

/-- `pick_any(true)` prefers a leader to every other node. -/
theorem pickAny_onLeader {c : Connector} (hauto : c.cfg.health.autoDetectLeader = true)
    (hleader : ∃ n ∈ c.nodes, n.Leader) (constructs : Nat → Bool) :
    OnLeader c (c.pickAny constructs true).2 := by
  obtain ⟨n, hn, husable, hpool, hprimary⟩ := hleader
  obtain ⟨j, hj⟩ := exists_opened constructs hn
  have hsame := ensured_opened n c.cfg.limits (constructs j)
  have hoffered : (n.opened c.cfg.limits (constructs j)).offered = true := by
    rw [Node.offered, hsame.ep, husable, hsame.pool hpool]
    rfl
  obtain ⟨i, hi⟩ := exists_firstOffered (p := fun n => n.stats.isPrimary)
    ⟨_, hj, hoffered, by rw [hsame.stats, hprimary]⟩
  obtain ⟨m, hm, -, hp⟩ := firstOffered_eq_some hi
  obtain ⟨k, hk, rfl⟩ := opened_getElem? hm
  rw [pickAny_true]
  simp only [hauto, hi, Option.isSome_some, Bool.and_self, if_true, Option.some_or]
  refine ⟨i, k, rfl, hk, ?_⟩
  rw [← (ensured_opened k c.cfg.limits (constructs i)).stats]
  exact hp

/-- With a visible leader, the lines for writes end at a leader. -/
theorem routePrimary_onLeader {c : Connector} (hauto : c.cfg.health.autoDetectLeader = true)
    (hvisible : LeaderVisible c) (hleader : ∃ n ∈ c.nodes, n.Leader) (constructs : Nat → Bool) :
    OnLeader c (c.routePrimary constructs).2 := by
  rcases routePrimary_cases c constructs with ⟨i, hpick, heq⟩ | ⟨-, heq⟩
  · rw [heq]
    have hpicked := pickPrimary_picked c
    rw [hpick] at hpicked
    cases hpicked with
    | leader _ n _ hn hleads => exact ⟨i, n, rfl, hn, (Node.leads_iff.mp hleads).1⟩
    | configured _ n hnone hn hconf =>
        -- no leader passed the scans, yet a configured Primary did
        exfalso
        obtain ⟨hrole, hcb, hpool⟩ := Node.configured_iff.mp hconf
        rcases hvisible hleader with ⟨m, hm, ⟨husable, hmpool, hprimary⟩, hmcb⟩ | hall
        · have hleads := Node.leads_iff.mpr ⟨hprimary, husable, hmcb, hmpool⟩
          rw [hnone hauto m hm] at hleads
          cases hleads
        · exact hcb (hall n (List.mem_of_getElem? hn) hrole hpool)
  · rw [heq]
    exact pickAny_onLeader hauto hleader constructs

/-- With an invisible leader, they end at a configured Primary that is none. -/
theorem routePrimary_not_onLeader {c : Connector}
    (hopen : ∀ n ∈ c.nodes, n.Leader → n.cbState = .opened)
    (hprimary : ∃ n ∈ c.nodes, n.ep.role = .primary ∧ n.pool.isSome = true ∧ n.cbState ≠ .opened)
    (constructs : Nat → Bool) : ¬OnLeader c (c.routePrimary constructs).2 := by
  have hpicked := pickPrimary_picked c
  rcases routePrimary_cases c constructs with ⟨i, hpick, heq⟩ | ⟨hpick, -⟩
  · rw [heq]
    rw [hpick] at hpicked
    rintro ⟨j, m, hj, hm, hlead⟩
    cases hj
    cases hpicked with
    | leader _ n _ hn hleads =>
        obtain ⟨hisPrimary, husable, hcb, hpool⟩ := Node.leads_iff.mp hleads
        exact hcb (hopen n (List.mem_of_getElem? hn) ⟨husable, hpool, hisPrimary⟩)
    | configured _ n hnone hn hconf =>
        obtain ⟨hrole, hcb, hpool⟩ := Node.configured_iff.mp hconf
        obtain rfl : n = m := Option.some.inj (hn.symm.trans hm)
        exact hcb (hopen n (List.mem_of_getElem? hn) ⟨by rw [hrole]; rfl, hpool, hlead⟩)
  · rw [hpick] at hpicked
    cases hpicked with
    | nobody _ hconf =>
        obtain ⟨n, hn, hrole, hpool, hcb⟩ := hprimary
        have hpass := Node.configured_iff.mpr ⟨hrole, hcb, hpool⟩
        rw [hconf n hn] at hpass
        cases hpass

/-- **When a detected leader is followed.**  With leader detection on, routes follow
the leader exactly when it is visible to `pick_primary` or no configured Primary is. -/
theorem leaderFollowed_iff (c : Connector) (hauto : c.cfg.health.autoDetectLeader = true) :
    LeaderFollowed c ↔ LeaderVisible c := by
  constructor
  · intro hfollow hleader
    by_contra hinvisible
    simp only [not_or, not_exists, not_and, not_forall, ne_eq, not_not] at hinvisible
    obtain ⟨hopen, n, hn, hrole, hpool, hcb⟩ := hinvisible
    have hroute := (hfollow hleader).1 (fun _ => true) { kind := .write } (.inl rfl)
    exact routePrimary_not_onLeader hopen ⟨n, hn, hrole, hpool, hcb⟩ _ hroute
  · intro hvisible hleader
    refine ⟨fun constructs hint hhint => ?_, fun constructs tx htx => ?_⟩
    · rw [Connector.route, if_pos (wantsPrimary_iff.mpr hhint)]
      exact routePrimary_onLeader hauto hvisible hleader constructs
    · rw [Connector.routeForTx, if_pos (txWantsPrimary_of htx)]
      exact routePrimary_onLeader hauto hvisible hleader constructs

/-- A tick in which `b` is down, and at `now` one in which `b` has been promoted and `a`
demoted. -/
def promotionRun (now : Int) : List Event :=
  [turn 0 true (some ("t", some (0, 0))), turn 0 true none,
    turn now true (some ("f", some (0, 0))), turn now true (some ("t", some (0, 0)))]

/-- Once the window of the breaker of `b` is over, the new leader is followed. -/
theorem leaderFollowed_iff_after_window :
    ∃ s, exec step (State.init twoNodes fun _ => true) (promotionRun (ms 600)) = some s ∧
      (∃ n ∈ s.conn.nodes, n.Leader) ∧ LeaderFollowed s.conn := by
  have hrun : (exec step (State.init twoNodes fun _ => true) (promotionRun (ms 600))).any (fun s =>
      decide (s.conn.cfg.health.autoDetectLeader = true ∧ (∃ n ∈ s.conn.nodes, n.Leader) ∧
        LeaderVisible s.conn)) = true := by decide +kernel
  obtain ⟨s, hs, hcond⟩ := (Option.any_eq_true ..).mp hrun
  obtain ⟨hauto, hleader, hvisible⟩ := of_decide_eq_true hcond
  exact ⟨s, hs, hleader, (leaderFollowed_iff s.conn hauto).mpr hvisible⟩

/-- Before that, writes go to `a`, which has said that it is no longer the leader. -/
theorem leader_bypassed :
    ¬∀ cfg constructs es s, cfg.health.autoDetectLeader = true →
      exec step (State.init cfg constructs) es = some s → LeaderFollowed s.conn := by
  intro hall
  have hrun : (exec step (State.init twoNodes fun _ => true) (promotionRun (ms 100))).any (fun s =>
      decide ((∃ n ∈ s.conn.nodes, n.Leader) ∧
        (s.conn.route (fun _ => true) { kind := .write }).2 = some 0 ∧
        (s.conn.nodes[0]?).all (fun n => !n.stats.isPrimary) = true)) = true := by decide +kernel
  obtain ⟨s, hs, hcond⟩ := (Option.any_eq_true ..).mp hrun
  obtain ⟨hleader, hroute, hdemoted⟩ := of_decide_eq_true hcond
  have hfollow := hall twoNodes (fun _ => true) _ s rfl hs hleader
  obtain ⟨i, n, hi, hn, hprimary⟩ := hfollow.1 (fun _ => true) { kind := .write } (.inl rfl)
  obtain rfl : i = 0 := Option.some.inj (hi.symm.trans hroute)
  simp [hn, hprimary] at hdemoted

end Upq.Routing
