/-
  Routing/Reads.lean --- which replica a read goes to.

  Source: `route`, `pick_best_replica`, `pick_primary` and `pick_any` in
  `src/upq/PgRouting.cpp`; `docs/routing.md`, "Advanced Behavior".

  The loop of `pick_best_replica` replaces the best node so far only by a node that is
  strictly better.  With the comparison written as a key in a linear order (`readKey`: the
  RTT, then the weight with the larger one first), what it keeps is the first eligible node
  with the least key.  No path of `route` reaches an archive or maintenance node.
-/
import Mathlib.Data.Prod.Lex
import Upq.Routing.Staleness

set_option autoImplicit false

namespace Upq.Routing

/-! ## The first least element of a list -/

section

variable {α κ : Type} [LinearOrder κ] {p : α → Bool} {key : α → κ} {xs : List α} {i : Nat} {a b : α}

/-- `a`, at position `i`, is the first of the elements that pass with the least key. -/
structure FirstLeast (p : α → Bool) (key : α → κ) (xs : List α) (i : Nat) (a : α) : Prop where
  here : xs[i]? = some a
  passes : p a = true
  least : ∀ b ∈ xs, p b = true → key a ≤ key b
  first : ∀ (j : Nat) (b : α), j < i → xs[j]? = some b → p b = true → key a < key b

theorem FirstLeast.lt_length (h : FirstLeast p key xs i a) : i < xs.length :=
  (List.getElem?_eq_some_iff.mp h.here).1

/-- An element that does not pass, or is not less, changes nothing. -/
theorem FirstLeast.keep (h : FirstLeast p key xs i a) (hb : p b = true → key a ≤ key b) :
    FirstLeast p key (xs ++ [b]) i a where
  here := by rw [List.getElem?_append_left h.lt_length, h.here]
  passes := h.passes
  least := by
    intro c hc hpass
    rcases List.mem_append.mp hc with hold | hnew
    · exact h.least c hold hpass
    · rw [List.mem_singleton.mp hnew] at hpass ⊢
      exact hb hpass
  first := by
    intro j c hj hc
    rw [List.getElem?_append_left (Nat.lt_trans hj h.lt_length)] at hc
    exact h.first j c hj hc

/-- An element below all others that pass takes over. -/
theorem FirstLeast.replace (hpass : p b = true) (hless : ∀ c ∈ xs, p c = true → key b < key c) :
    FirstLeast p key (xs ++ [b]) xs.length b where
  here := by simp
  passes := hpass
  least := by
    intro c hc hpassC
    rcases List.mem_append.mp hc with hold | hnew
    · exact (hless c hold hpassC).le
    · rw [List.mem_singleton.mp hnew]
  first := by
    intro j c hj hc hpassC
    rw [List.getElem?_append_left hj] at hc
    exact hless c (List.mem_of_getElem? hc) hpassC

end

/-! ## The loop of `pick_best_replica` -/

section

variable {κ : Type} [LinearOrder κ] {p : Node → Bool} {beats : Node → Node → Bool} {key : Node → κ}

/-- What the loop knows after the nodes `seen`. -/
def Best (p : Node → Bool) (key : Node → κ) (seen : List Node) : Option (Nat × Node) → Prop
  | none => ∀ n ∈ seen, p n = false
  | some (i, n) => FirstLeast p key seen i n

/-- **Step rule.**  One more node. -/
theorem Best.step (hbeats : ∀ a b, beats a b = true ↔ key a < key b) {seen : List Node}
    {best : Option (Nat × Node)} (h : Best p key seen best) (n : Node) :
    Best p key (seen ++ [n])
      (if p n && best.all (fun b => beats n b.2) then some (seen.length, n) else best) := by
  cases best with
  | none =>
      rw [Option.all_none, Bool.and_true]
      split
      · rename_i hpass
        refine FirstLeast.replace hpass fun m hm hpassM => ?_
        rw [h m hm] at hpassM
        cases hpassM
      · rename_i hpass
        intro m hm
        rcases List.mem_append.mp hm with hold | hnew
        · exact h m hold
        · rw [List.mem_singleton.mp hnew]
          exact Bool.eq_false_iff.mpr hpass
  | some b =>
      have h : FirstLeast p key seen b.1 b.2 := h
      rw [Option.all_some]
      split
      · rename_i hboth
        obtain ⟨hpass, hless⟩ := Bool.and_eq_true_iff.mp hboth
        refine FirstLeast.replace hpass fun m hm hpassM => ?_
        exact lt_of_lt_of_le ((hbeats n b.2).mp hless) (h.least m hm hpassM)
      · rename_i hnot
        refine h.keep fun hpass => not_lt.mp fun hless => hnot ?_
        rw [hpass, (hbeats n b.2).mpr hless]
        rfl

/-- **Loop rule.**  The rest of the nodes. -/
theorem Best.bestOf (hbeats : ∀ a b, beats a b = true ↔ key a < key b) (rest : List Node)
    {seen : List Node} {best : Option (Nat × Node)} (h : Best p key seen best) :
    Best p key (seen ++ rest) (Routing.bestOf p beats seen.length rest best) := by
  induction rest generalizing seen best with
  | nil =>
      rw [List.append_nil]
      exact h
  | cons n rest ih =>
      have hnext := ih (h.step hbeats n)
      rw [List.append_assoc, List.singleton_append, List.length_append, List.length_singleton]
        at hnext
      exact hnext

/-- The whole loop finds the first least node, if any passes. -/
theorem bestOf_firstLeast (hbeats : ∀ a b, beats a b = true ↔ key a < key b) {nodes : List Node}
    (h : ∃ n ∈ nodes, p n = true) :
    ∃ i n, bestOf p beats 0 nodes none = some (i, n) ∧ FirstLeast p key nodes i n := by
  have hstart : Best p key [] none := fun n hn => absurd hn List.not_mem_nil
  have hbest : Best p key nodes (bestOf p beats 0 nodes none) := hstart.bestOf hbeats nodes
  cases hfound : bestOf p beats 0 nodes none with
  | none =>
      obtain ⟨n, hn, hpass⟩ := h
      rw [hfound] at hbest
      rw [hbest n hn] at hpass
      cases hpass
  | some b =>
      rw [hfound] at hbest
      exact ⟨b.1, b.2, rfl, hbest⟩

end

/-! ## Reads -/

/-- What a read is decided by: the RTT, then the weight, the larger one first. -/
def readKey (n : Node) : ℤ ×ₗ ℕᵒᵈ := toLex (n.stats.rtt, OrderDual.toDual n.ep.weight)

theorem readKey_lt {a b : Node} :
    readKey a < readKey b ↔ a.stats.rtt < b.stats.rtt ∨
      a.stats.rtt = b.stats.rtt ∧ b.ep.weight < a.ep.weight := by
  rw [readKey, readKey, Prod.Lex.toLex_lt_toLex]
  rfl

theorem better_iff (a b : Node) : better a b = true ↔ readKey a < readKey b := by
  rw [readKey_lt, better]
  split
  · rename_i hne
    simp [hne]
  · rename_i heq
    rw [not_not] at heq
    simp [heq]

/-- A replica that may serve the read; bounds are set by `BoundedStaleness` only. -/
structure EligibleReplica (hint : RouteHint) (n : Node) : Prop where
  role : n.ep.role = .syncReplica ∨ n.ep.role = .asyncReplica ∨ n.ep.role = .analytics
  pool : n.pool.isSome = true
  healthy : n.stats.healthy = true
  breaker : n.cbState ≠ .opened
  fresh : hint.consistency = .boundedStaleness → n.Fresh hint

theorem eligible_iff_replica {hint : RouteHint} {n : Node} :
    n.eligible hint = true ↔ EligibleReplica hint n := by
  have hstale : okStale hint n.stats = true ↔
      (hint.consistency = .boundedStaleness → n.Fresh hint) := by
    by_cases hbounded : hint.consistency = .boundedStaleness
    · simp only [okStale_iff hbounded, hbounded, forall_const]
    · simp [okStale, hbounded]
  have hrole : isReplica n.ep.role = true ↔
      n.ep.role = .syncReplica ∨ n.ep.role = .asyncReplica ∨ n.ep.role = .analytics := by
    simp [isReplica, or_assoc]
  have husable : isReplica n.ep.role = true → isUsable n.ep.role = true := by
    cases n.ep.role <;> decide
  simp only [Node.eligible, Bool.and_eq_true, bne_iff_ne, hstale]
  constructor
  · rintro ⟨⟨⟨⟨⟨hreplica, -⟩, hbreaker⟩, hpool⟩, hhealthy⟩, hfresh⟩
    exact ⟨hrole.mp hreplica, hpool, hhealthy, hbreaker, hfresh⟩
  · intro h
    have hreplica := hrole.mpr h.role
    exact ⟨⟨⟨⟨⟨hreplica, husable hreplica⟩, h.breaker⟩, h.pool⟩, h.healthy⟩, h.fresh⟩

/-- A node that may serve the read, and no other that may has a smaller RTT, or the same RTT
and a larger weight. -/
structure BestReplica (hint : RouteHint) (nodes : List Node) (n : Node) : Prop where
  eligible : EligibleReplica hint n
  best : ∀ m ∈ nodes, EligibleReplica hint m →
    ¬(m.stats.rtt < n.stats.rtt ∨ m.stats.rtt = n.stats.rtt ∧ n.ep.weight < m.ep.weight)

/-- `pick_best_replica` answers with the first of the best replicas. -/
theorem pickBestReplica_best {c : Connector} {hint : RouteHint}
    (h : ∃ n ∈ c.nodes, EligibleReplica hint n) :
    ∃ i n, c.pickBestReplica hint = some i ∧ c.nodes[i]? = some n ∧
      BestReplica hint c.nodes n ∧
      ∀ j m, j < i → c.nodes[j]? = some m → ¬BestReplica hint c.nodes m := by
  simp only [← eligible_iff_replica] at h
  obtain ⟨i, n, hfound, hleast⟩ := bestOf_firstLeast better_iff h
  have heligible := eligible_iff_replica.mp hleast.passes
  refine ⟨i, n, ?_, hleast.here, ⟨heligible, fun m hm hel => ?_⟩, fun j m hj hm hbest => ?_⟩
  · rw [pickBestReplica_eq, hfound]
    rfl
  · rw [← readKey_lt, not_lt]
    exact hleast.least m hm (eligible_iff_replica.mpr hel)
  · have hless := hleast.first j m hj hm (eligible_iff_replica.mpr hbest.eligible)
    exact hbest.best n (List.mem_of_getElem? hleast.here) heligible (readKey_lt.mp hless)

/-! ## Nodes that take no statements -/

/-- Node `i` is neither an archive nor under maintenance. -/
def Serves (c : Connector) (i : Nat) : Prop :=
  ∃ n, c.nodes[i]? = some n ∧ isUsable n.ep.role = true

theorem serves_picked {c : Connector} {i : Nat} (h : Picked c (some i)) : Serves c i := by
  cases h with
  | leader _ n _ hn hleads => exact ⟨n, hn, (Node.leads_iff.mp hleads).2.1⟩
  | configured _ n _ hn hconf =>
      refine ⟨n, hn, ?_⟩
      rw [(Node.configured_iff.mp hconf).1]
      rfl

theorem serves_firstOffered {c : Connector} {constructs : Nat → Bool} {q : Node → Bool} {i : Nat}
    (h : firstOffered 0 (c.opened constructs) q = some i) : Serves c i := by
  obtain ⟨m, hm, hoffered, -⟩ := firstOffered_eq_some h
  obtain ⟨n, hn, rfl⟩ := opened_getElem? hm
  refine ⟨n, hn, ?_⟩
  rw [← (ensured_opened n c.cfg.limits (constructs i)).ep]
  exact (Bool.and_eq_true_iff.mp hoffered).1

theorem serves_or {c : Connector} {x y : Option Nat} {i : Nat}
    (hx : ∀ i, x = some i → Serves c i) (hy : ∀ i, y = some i → Serves c i)
    (h : x.or y = some i) : Serves c i := by
  rcases Option.or_eq_some_iff.mp h with hleft | ⟨-, hright⟩
  · exact hx i hleft
  · exact hy i hright

theorem serves_pickAny {c : Connector} {constructs : Nat → Bool} {preferPrimary : Bool} {i : Nat}
    (h : (c.pickAny constructs preferPrimary).2 = some i) : Serves c i := by
  have hprimary : ∀ i, (if c.cfg.health.autoDetectLeader &&
        (firstOffered 0 (c.opened constructs) fun n => n.stats.isPrimary).isSome then
      firstOffered 0 (c.opened constructs) fun n => n.stats.isPrimary
      else firstOffered 0 (c.opened constructs) fun n => n.ep.role == .primary) = some i →
      Serves c i := by
    intro i hi
    split at hi
    · exact serves_firstOffered hi
    · exact serves_firstOffered hi
  cases preferPrimary with
  | true =>
      rw [pickAny_true] at h
      exact serves_or hprimary (fun _ => serves_firstOffered) h
  | false =>
      rw [pickAny_false] at h
      exact serves_or (fun _ => serves_firstOffered) hprimary h

/-- Whatever the hint, `route` answers with a node that takes statements. -/
theorem serves_route {c : Connector} {constructs : Nat → Bool} {hint : RouteHint} {i : Nat}
    (h : (c.route constructs hint).2 = some i) : Serves c i := by
  have hprimary : ∀ {preferPrimary : Bool} {i : Nat},
      (c.tryPool constructs c.pickPrimary fun c => c.pickAny constructs preferPrimary).2 = some i →
        Serves c i := by
    intro preferPrimary i hi
    have hpicked := pickPrimary_picked c
    cases hpick : c.pickPrimary with
    | none =>
        rw [hpick] at hi
        exact serves_pickAny hi
    | some j =>
        rw [hpick] at hpicked hi
        obtain ⟨n, hn, hpool⟩ := hpicked.pool
        rw [tryPool_of_pool hn hpool] at hi
        cases hi
        exact serves_picked hpicked
  unfold Connector.route at h
  split at h
  · exact hprimary h
  · rw [Connector.routeReplica] at h
    cases hbest : c.pickBestReplica hint with
    | none =>
        rw [hbest] at h
        exact hprimary h
    | some j =>
        obtain ⟨n, hn, heligible⟩ := pickBestReplica_eq_some hbest
        simp only [Node.eligible, Bool.and_eq_true] at heligible
        rw [hbest, tryPool_of_pool hn heligible.1.1.2] at h
        cases h
        exact ⟨n, hn, heligible.1.1.1.1.2⟩

/-- **Replica reads go to the best eligible replica.**  For every connector, in every state
of health, and every Read or LongRead that is neither strong nor has to see its own writes:
if some node is eligible, `route` answers with the first node in configuration order of
those that no eligible node beats; and it never answers with an archive or maintenance
node. -/
theorem read_routed_to_best (c : Connector) (constructs : Nat → Bool) (hint : RouteHint)
    (hkind : hint.kind = .read ∨ hint.kind = .longRead) (hstrong : hint.consistency ≠ .strong)
    (hwrites : hint.readMyWrites = false) :
    ((∃ n ∈ c.nodes, EligibleReplica hint n) →
      ∃ i n, (c.route constructs hint).2 = some i ∧ c.nodes[i]? = some n ∧
        BestReplica hint c.nodes n ∧
        ∀ j m, j < i → c.nodes[j]? = some m → ¬BestReplica hint c.nodes m) ∧
    ∀ i n, (c.route constructs hint).2 = some i → c.nodes[i]? = some n →
      n.ep.role ≠ .archive ∧ n.ep.role ≠ .maintenance := by
  have hreplica : hint.wantsPrimary = false := by
    rcases hkind with hkind | hkind <;>
      simp [RouteHint.wantsPrimary, hkind, hstrong, hwrites]
  constructor
  · intro hany
    obtain ⟨i, n, hpick, hn, hbest, hfirst⟩ := pickBestReplica_best hany
    refine ⟨i, n, ?_, hn, hbest, hfirst⟩
    rw [Connector.route, hreplica, if_neg Bool.false_ne_true, Connector.routeReplica, hpick,
      tryPool_of_pool hn hbest.eligible.pool]
  · intro i n hroute hn
    obtain ⟨m, hm, husable⟩ := serves_route hroute
    obtain rfl : n = m := Option.some.inj (hn.symm.trans hm)
    exact isUsable_iff.mp husable

/-- A healthy replica. -/
def healthyReplica (name : String) (weight : Nat) : Node :=
  { ep := { name, weight }, pool := some 32, stats := { healthy := true, rtt := 3 } }

/-- Three replicas of the same RTT, the last two of the same weight. -/
def tiedReplicas : Connector :=
  { cfg := twoNodes
    nodes := [healthyReplica "a" 1, healthyReplica "b" 2, healthyReplica "c" 2]
    primaryFailoverIdx := [] }

/-- The first of the heavier two is taken. -/
theorem read_routed_to_best_tied :
    (tiedReplicas.route (fun _ => false) {}).2 = some 1 ∧
      BestReplica {} tiedReplicas.nodes (healthyReplica "b" 2) := by
  have hroute : (tiedReplicas.route (fun _ => false) {}).2 = some 1 := by decide +kernel
  have heligible : EligibleReplica {} (healthyReplica "b" 2) :=
    ⟨.inr (.inl rfl), rfl, rfl, by decide, nofun⟩
  obtain ⟨i, n, hi, hn, hbest, -⟩ :=
    (read_routed_to_best tiedReplicas (fun _ => false) {} (.inl rfl) (by decide) rfl).1
      ⟨_, by simp [tiedReplicas], heligible⟩
  obtain rfl : i = 1 := Option.some.inj (hi.symm.trans hroute)
  obtain rfl : n = healthyReplica "b" 2 := (Option.some.inj hn).symm
  exact ⟨hroute, hbest⟩

end Upq.Routing
