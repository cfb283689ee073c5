/-
  Transaction/Holding.lean --- which connection is held when a statement is sent.

  Source: `include/upq/PgTransaction.h`, `src/upq/PgTransaction.cpp`, and `mark_dead`
  in `src/upq/PgPool.cpp`.

  Read along the log, every statement of the object itself is sent on the connection
  it holds at that moment (`Follows`).  A connection given up as dead is closed and
  stays so, as long as the pool grants no connection it has buried (`DeadStay`).
  Statements give a connection up only as dead (`OnlyDead`): while a transaction stays
  active, its connection does not go back to the pool alive.
-/
import Upq.Transaction.Effects

set_option autoImplicit false

namespace Upq.Transaction

open Relation (ReflTransGen)
open Upq.Pool (HandBack)

/-! ## Reading the log -/

/-- A statement was sent on `conn`; `held` says whether its sender held it. -/
structure Send where
  conn : Nat
  held : Bool
  deriving DecidableEq, Repr

/-- The connection held after the log, starting with `held`. -/
def lastHeld : Option Nat → List Entry → Option Nat
  | held, [] => held
  | _, .acquired c :: es => lastHeld (some c) es
  | _, .handedBack _ _ :: es => lastHeld none es
  | held, _ :: es => lastHeld held es

/-- The statements of the log, starting with `held`. -/
def sendsIn : Option Nat → List Entry → List Send
  | _, [] => []
  | _, .acquired c :: es => sendsIn (some c) es
  | _, .handedBack _ _ :: es => sendsIn none es
  | held, .issued c _ _ _ _ :: es => ⟨c, held == some c⟩ :: sendsIn held es
  | held, .stale c :: es => ⟨c, held == some c⟩ :: sendsIn held es
  | held, _ :: es => sendsIn held es

/-- How often a connection was handed back. -/
def handBacks (log : List Entry) : Nat :=
  log.countP fun e => match e with
    | .handedBack _ _ => true
    | _ => false

/-- The connections the log takes. -/
def acquisitions (log : List Entry) : List Nat :=
  log.filterMap fun e => match e with
    | .acquired c => some c
    | _ => none

/-- `c` was given up through `mark_dead`. -/
def Buried (c : Nat) (log : List Entry) : Prop := Entry.handedBack c .markDead ∈ log

instance (c : Nat) (log : List Entry) : Decidable (Buried c log) :=
  inferInstanceAs (Decidable (_ ∈ _))

/-- No connection is taken after it was given up as dead: `mark_dead` takes it out of
the pool.  `dead` are those given up before. -/
def fresh : List Nat → List Entry → Bool
  | _, [] => true
  | dead, .acquired c :: es => !dead.contains c && fresh dead es
  | dead, .handedBack c .markDead :: es => fresh (c :: dead) es
  | dead, _ :: es => fresh dead es

theorem lastHeld_append (held : Option Nat) (xs ys : List Entry) :
    lastHeld held (xs ++ ys) = lastHeld (lastHeld held xs) ys := by
  induction xs generalizing held with
  | nil => rfl
  | cons e es ih => cases e <;> exact ih _

theorem sendsIn_append (held : Option Nat) (xs ys : List Entry) :
    sendsIn held (xs ++ ys) = sendsIn held xs ++ sendsIn (lastHeld held xs) ys := by
  induction xs generalizing held with
  | nil => rfl
  | cons e es ih => cases e <;> simp [sendsIn, lastHeld, ih]

@[simp] theorem handBacks_append (xs ys : List Entry) :
    handBacks (xs ++ ys) = handBacks xs + handBacks ys := List.countP_append

theorem mem_acquisitions {c : Nat} {log : List Entry} :
    c ∈ acquisitions log ↔ Entry.acquired c ∈ log := by
  simp only [acquisitions, List.mem_filterMap]
  constructor
  · rintro ⟨e, he, heq⟩
    cases e <;> simp at heq
    exact heq ▸ he
  · intro h
    exact ⟨_, h, rfl⟩

theorem fresh_cons {dead : List Nat} {e : Entry} {es : List Entry}
    (h : fresh dead (e :: es) = true) :
    ∃ dead', fresh dead' es = true ∧ (∀ c ∈ dead, c ∈ dead') ∧
      (∀ c, e = .handedBack c .markDead → c ∈ dead') ∧ ∀ c, e = .acquired c → c ∉ dead := by
  cases e with
  | acquired c =>
      simp only [fresh, Bool.and_eq_true, Bool.not_eq_true', List.contains_eq_mem,
        decide_eq_false_iff_not] at h
      exact ⟨dead, h.2, fun _ => id, nofun, fun _ heq => Entry.acquired.inj heq ▸ h.1⟩
  | handedBack c how =>
      cases how with
      | markDead =>
          refine ⟨c :: dead, h, fun _ => List.mem_cons_of_mem _, ?_, nofun⟩
          rintro _ ⟨⟩
          exact List.mem_cons_self
      | _ => exact ⟨dead, h, fun _ => id, nofun, nofun⟩
  | _ => exact ⟨dead, h, fun _ => id, nofun, nofun⟩

/-- A connection that is granted is not among the dead. -/
theorem fresh_granted {dead : List Nat} {xs : List Entry} {c : Nat}
    (h : fresh dead (xs ++ [.acquired c]) = true) : c ∉ dead ∧ ¬Buried c xs := by
  induction xs generalizing dead with
  | nil =>
      obtain ⟨_, -, -, -, hc⟩ := fresh_cons h
      exact ⟨hc c rfl, List.not_mem_nil⟩
  | cons e es ih =>
      obtain ⟨dead', hrest, hmono, hburied, -⟩ := fresh_cons h
      obtain ⟨hnot, hlate⟩ := ih hrest
      refine ⟨fun hmem => hnot (hmono c hmem), ?_⟩
      intro hin
      rcases List.mem_cons.mp hin with heq | htail
      · exact hnot (hburied c heq.symm)
      · exact hlate htail

theorem fresh_of_append {dead : List Nat} {xs ys : List Entry} (h : fresh dead (xs ++ ys) = true) :
    fresh dead xs = true := by
  induction xs generalizing dead with
  | nil => rfl
  | cons e es ih =>
      cases e with
      | acquired c =>
          simp only [List.cons_append, fresh, Bool.and_eq_true] at h ⊢
          exact ⟨h.1, ih h.2⟩
      | handedBack c how => cases how <;> exact ih h
      | _ => exact ih h

theorem fresh_handedBack {dead : List Nat} {xs : List Entry} (h : fresh dead xs = true) (c : Nat)
    (how : HandBack) : fresh dead (xs ++ [.handedBack c how]) = true := by
  induction xs generalizing dead with
  | nil => cases how <;> rfl
  | cons e es ih =>
      cases e with
      | acquired d =>
          simp only [List.cons_append, fresh, Bool.and_eq_true] at h ⊢
          exact ⟨h.1, ih h.2⟩
      | handedBack d how' => cases how' <;> exact ih h
      | _ => exact ih h

/-! ## The scan of a stretch of the log -/

section Scan

variable {c : Nat} {held last : Option Nat} {es : List Entry}

/-- The connection held at the end was held before, or taken on the way. -/
theorem scan_source (h : scan held es = some (some c)) : held = some c ∨ .acquired c ∈ es := by
  induction es generalizing held with
  | nil => exact Or.inl (Option.some.inj h)
  | cons e es ih =>
      have hskip : scan held es = some (some c) → held = some c ∨ .acquired c ∈ e :: es :=
        fun h => (ih h).imp id (List.mem_cons_of_mem _)
      cases held with
      | none =>
          cases e with
          | acquired d =>
              rcases ih h with heq | hmem
              · exact Or.inr (Option.some.inj heq ▸ List.mem_cons_self)
              · exact Or.inr (List.mem_cons_of_mem _ hmem)
          | handedBack _ _ => cases h
          | _ => exact hskip h
      | some d =>
          cases e with
          | acquired _ => cases h
          | handedBack d' how =>
              simp only [scan] at h
              split at h
              · exact (ih h).elim (fun h => by cases h)
                  fun hmem => Or.inr (List.mem_cons_of_mem _ hmem)
              · cases h
          | _ => exact hskip h

/-- A connection that is handed back was held before, or taken on the way. -/
theorem scan_returned {how : HandBack} (h : scan held es = some last)
    (hmem : .handedBack c how ∈ es) : held = some c ∨ .acquired c ∈ es := by
  obtain ⟨xs, ys, rfl⟩ := List.append_of_mem hmem
  rw [scan_append] at h
  obtain ⟨mid, hxs, hys⟩ := Option.bind_eq_some_iff.mp h
  have hmid : mid = some c := by
    cases mid with
    | none => cases hys
    | some d =>
        simp only [scan] at hys
        split at hys
        · simp_all
        · cases hys
  exact (scan_source (hmid ▸ hxs)).imp id (List.mem_append_left _)

/-- Whoever holds `c` still does, with nothing handed back, or has handed `c` back. -/
theorem scan_some (h : scan (some c) es = some last) :
    (last = some c ∧ handBacks es = 0) ∨ ((∃ how, .handedBack c how ∈ es) ∧ 0 < handBacks es) := by
  induction es with
  | nil => exact Or.inl ⟨(Option.some.inj h).symm, rfl⟩
  | cons e es ih =>
      have hskip : scan (some c) es = some last → handBacks (e :: es) = handBacks es →
          (last = some c ∧ handBacks (e :: es) = 0) ∨
            ((∃ how, .handedBack c how ∈ e :: es) ∧ 0 < handBacks (e :: es)) := by
        intro h heq
        rw [heq]
        refine (ih h).imp id (And.imp_left ?_)
        rintro ⟨how, hmem⟩
        exact ⟨how, List.mem_cons_of_mem _ hmem⟩
      cases e with
      | acquired _ => cases h
      | handedBack d how =>
          simp only [scan] at h
          split at h
          · rename_i heq
            subst heq
            exact Or.inr ⟨⟨how, List.mem_cons_self⟩, by simp [handBacks]⟩
          · cases h
      | _ => exact hskip h (by simp [handBacks])

end Scan

/-! ## Statements are sent on the connection held -/

/-- From `w` to `w'` the log grows by statements on the connection held at the time. -/
def Follows (w w' : World) : Prop :=
  ∃ new, w'.log = w.log ++ new ∧ lastHeld w.conn new = w'.conn ∧
    ∀ x ∈ sendsIn w.conn new, x.held = true

section Follows

variable {w w' : World}

theorem Follows.of_same (hlog : w'.log = w.log) (hconn : w'.conn = w.conn) : Follows w w' :=
  ⟨[], by rw [hlog, List.append_nil], hconn.symm, nofun⟩

theorem Follows.of_entry {e : Entry} (hlog : w'.log = w.log ++ [e])
    (hconn : lastHeld w.conn [e] = w'.conn) (hsends : ∀ x ∈ sendsIn w.conn [e], x.held = true) :
    Follows w w' :=
  ⟨[e], hlog, hconn, hsends⟩

theorem Follows.trans {w'' : World} (h : Follows w w') (h' : Follows w' w'') : Follows w w'' := by
  obtain ⟨new, hlog, hconn, hsends⟩ := h
  obtain ⟨new', hlog', hconn', hsends'⟩ := h'
  refine ⟨new ++ new', by rw [hlog', hlog, List.append_assoc], ?_, ?_⟩
  · rw [lastHeld_append, hconn, hconn']
  · intro x hx
    rw [sendsIn_append, hconn] at hx
    exact (List.mem_append.mp hx).elim (hsends x) (hsends' x)

theorem follows_acquire (w : World) (c : Nat) (up : Bool) : Follows w (w.acquire c up) :=
  .of_entry rfl rfl nofun

theorem follows_markDead (w : World) : Follows w w.markDead := by
  unfold World.markDead
  split
  · exact .of_same rfl rfl
  · exact .of_entry rfl rfl (fun _ h => by cases h)

theorem follows_release (w : World) (how : HandBack) : Follows w (w.release how) := by
  unfold World.release
  split
  · exact .of_same rfl rfl
  · exact .of_entry rfl rfl (fun _ h => by cases h)

theorem follows_query {c : Nat} (hconn : w.conn = some c) (k : Stmt) (sc : Script) :
    Follows w (w.query c k sc).1 := by
  refine .of_entry rfl ?_ ?_
  · split <;> rfl
  · rw [hconn]
    split <;> simp [sendsIn]

theorem follows_copied {c : Nat} (hconn : w.conn = some c) (o : CopyOutcome) :
    Follows w (w.copied c o) := by
  refine .of_entry rfl rfl ?_
  simp [sendsIn, hconn]

theorem follows_statement (h : Statement w w') : Follows w w' := by
  cases h with
  | refused _ => exact .of_entry rfl rfl nofun
  | dropped => exact (follows_markDead w).trans (.of_same rfl rfl)
  | queried c k sc hup _ => exact follows_query (conn_of_up hup).1 k sc
  | copied c o hlive => exact follows_copied (conn_of_up (up_of_live hlive)).1 o
  | subsSet _ => exact .of_same rfl rfl
  | replaced _ _ => exact follows_markDead w
  | replacedBy c up _ _ => exact (follows_markDead w).trans (follows_acquire _ c up)

theorem follows_own (h : Own w w') : Follows w w' := by
  have hbegin : ∀ c sc, Follows w ((w.acquire c true).query c .begin sc).1 :=
    fun c sc => (follows_acquire w c true).trans (follows_query rfl .begin sc)
  cases h with
  | statement h => exact follows_statement h
  | beginning h =>
      cases h with
      | found c _ => exact (follows_acquire w c false).trans (follows_markDead _)
      | tried c sc _ => exact (hbegin c sc).trans (follows_markDead _)
      | notBegun _ => exact .of_same rfl rfl
      | emulated c _ _ => exact (follows_acquire w c true).trans (.of_same rfl rfl)
      | opened c sc _ _ _ =>
          exact (hbegin c sc).trans (.of_entry (e := .began c) rfl rfl nofun)
  | ending h =>
      cases h with
      | noted _ => exact .of_same rfl rfl
      | ended _ _ _ => exact .of_same rfl rfl
      | endedBy c k sc hup _ _ _ =>
          exact (follows_query (conn_of_up hup).1 k sc).trans (.of_same rfl rfl)
      | retired _ => exact follows_markDead w
      | returned how _ _ => exact follows_release w how

/-- The stream an operation is on. -/
def Op.stream? : Op → Option Nat
  | .fetch i _ | .closeStream i _ => some i
  | _ => none

/-- **Operation rule.**  Every operation of the object itself sends on the connection it
holds. -/
theorem follows_apply {op : Op} (hop : op.stream? = none) : Follows w (w.apply op) := by
  have hrefl : Follows w w := .of_same rfl rfl
  cases hown : op.isOwn with
  | true =>
      exact keep_of_effects (P := Follows w) (fun _ _ h h' => h.trans (follows_own h'))
        (owns_apply hown) hrefl
  | false =>
      cases op with
      | stream sc =>
          change Follows w (w.stream sc)
          rcases stream_cases (w := w) sc with hs | ⟨c, hlive, heq⟩
          · exact keep_of_effects (P := Follows w) (fun _ _ h h' => h.trans (follows_statement h'))
              hs hrefl
          · rw [heq]
            have hq := follows_query (conn_of_up (up_of_live hlive)).1 .other sc
            exact hq.trans (.of_same rfl rfl)
      | fetch _ _ => cases hop
      | closeStream _ _ => cases hop
      | _ => cases hown

end Follows

/-! ## Connections given up as dead -/

/-- From `w` to `w'` connections are given up only as dead. -/
def OnlyDead (w w' : World) : Prop :=
  ∃ new, w'.log = w.log ++ new ∧ ∀ c how, .handedBack c how ∈ new → how = .markDead

/-- A connection given up as dead is closed, and not held again. -/
def DeadStay (w : World) : Prop :=
  fresh [] w.log = true → ∀ c, Buried c w.log → (w.links c).connected = false ∧ w.conn ≠ some c

section OnlyDead

variable {w w' : World}

theorem OnlyDead.of_same (hlog : w'.log = w.log) : OnlyDead w w' :=
  ⟨[], by rw [hlog, List.append_nil], nofun⟩

theorem OnlyDead.of_entry {e : Entry} (hlog : w'.log = w.log ++ [e])
    (he : ∀ c how, e = .handedBack c how → how = .markDead) : OnlyDead w w' :=
  ⟨[e], hlog, fun c how hmem => he c how (List.mem_singleton.mp hmem).symm⟩

theorem OnlyDead.trans {w'' : World} (h : OnlyDead w w') (h' : OnlyDead w' w'') :
    OnlyDead w w'' := by
  obtain ⟨new, hlog, hdead⟩ := h
  obtain ⟨new', hlog', hdead'⟩ := h'
  refine ⟨new ++ new', by rw [hlog', hlog, List.append_assoc], ?_⟩
  intro c how hmem
  exact (List.mem_append.mp hmem).elim (hdead c how) (hdead' c how)

theorem onlyDead_markDead (w : World) : OnlyDead w w.markDead := by
  unfold World.markDead
  split
  · exact .of_same rfl
  · exact .of_entry rfl fun _ _ heq => (Entry.handedBack.inj heq).2.symm

theorem onlyDead_query (w : World) (c : Nat) (k : Stmt) (sc : Script) :
    OnlyDead w (w.query c k sc).1 := by
  refine .of_entry rfl ?_
  split <;> nofun

theorem onlyDead_statement (h : Statement w w') : OnlyDead w w' := by
  cases h with
  | refused _ => exact .of_entry rfl nofun
  | dropped => exact (onlyDead_markDead w).trans (.of_same rfl)
  | queried c k sc _ _ => exact onlyDead_query w c k sc
  | copied c o _ => exact .of_entry rfl nofun
  | subsSet _ => exact .of_same rfl
  | replaced _ _ => exact onlyDead_markDead w
  | replacedBy c up _ _ =>
      exact (onlyDead_markDead w).trans (.of_entry (e := .acquired c) rfl nofun)

theorem onlyDead_borrowing {i : Nat} (h : Borrowing i w w') : OnlyDead w w' := by
  cases h with
  | sent st c sc _ _ =>
      unfold World.queryVia
      split
      · exact onlyDead_query w c .other sc
      · exact .of_entry rfl nofun
  | set _ _ _ _ _ => exact .of_same rfl

end OnlyDead

section DeadStay

variable {w w' : World}

/-- The log, the connection and the connectedness of buried connections decide. -/
theorem DeadStay.of_grows (new : List Entry) (h : DeadStay w) (hlog : w'.log = w.log ++ new)
    (hold : fresh [] w'.log = true → ∀ c, Buried c w.log → (w.links c).connected = false →
      w.conn ≠ some c → (w'.links c).connected = false ∧ w'.conn ≠ some c)
    (hnew : ∀ c, Buried c new → (w'.links c).connected = false ∧ w'.conn ≠ some c) :
    DeadStay w' := by
  intro hfresh c hburied
  have hwas : fresh [] w.log = true := fresh_of_append (hlog ▸ hfresh)
  rw [Buried, hlog] at hburied
  rcases List.mem_append.mp hburied with hmem | hmem
  · obtain ⟨hdown, hconn⟩ := h hwas c hmem
    exact hold hfresh c hmem hdown hconn
  · exact hnew c hmem

theorem DeadStay.congr (h : DeadStay w) (hlog : w'.log = w.log) (hconn : w'.conn = w.conn)
    (hlinks : w'.links = w.links) : DeadStay w' := by
  unfold DeadStay at h ⊢
  rw [hlog, hconn, hlinks]
  exact h

/-- An entry that is no hand-back, with `d` the one connection it may change. -/
theorem DeadStay.of_entry {e : Entry} {d : Nat} (h : DeadStay w) (hlog : w'.log = w.log ++ [e])
    (he : ∀ c, e ≠ .handedBack c .markDead) (hconn : w'.conn = w.conn)
    (hother : ∀ c, c ≠ d → w'.links c = w.links c)
    (hself : w.conn = some d ∨
      ((w.links d).connected = false → (w'.links d).connected = false)) : DeadStay w' := by
  refine h.of_grows [e] hlog ?_ ?_
  · intro _ c _ hdown hne
    refine ⟨?_, hconn ▸ hne⟩
    by_cases heq : c = d
    · subst heq
      exact hself.elim (fun hc => absurd hc hne) fun hkeep => hkeep hdown
    · rw [hother c heq]
      exact hdown
  · intro c hmem
    exact absurd (List.mem_singleton.mp hmem).symm (he c)

theorem DeadStay.acquire (h : DeadStay w) (c : Nat) (up : Bool) : DeadStay (w.acquire c up) := by
  refine h.of_grows [.acquired c] rfl ?_ ?_
  · intro hfresh d hburied hdown _
    have hne : d ≠ c := by
      rintro rfl
      exact (fresh_granted hfresh).2 hburied
    constructor
    · simpa [World.acquire, Function.update_of_ne hne] using hdown
    · intro heq
      exact hne (Option.some.inj heq).symm
  · intro d hmem
    cases List.mem_singleton.mp hmem

theorem DeadStay.markDead (h : DeadStay w) : DeadStay w.markDead := by
  unfold World.markDead
  split
  · exact h
  · rename_i c hconn
    refine h.of_grows _ rfl ?_ ?_
    · intro _ d _ hdown hne
      have hdc : d ≠ c := fun heq => hne (heq ▸ hconn)
      refine ⟨?_, fun h => by cases h⟩
      simpa [Function.update_of_ne hdc] using hdown
    · intro d hmem
      obtain rfl : d = c := (Entry.handedBack.inj (List.mem_singleton.mp hmem)).1
      exact ⟨by simp [Link.connected], fun h => by cases h⟩

theorem DeadStay.release (h : DeadStay w) {how : HandBack} (hhow : how ≠ .markDead) :
    DeadStay (w.release how) := by
  unfold World.release
  split
  · exact h
  · refine h.of_grows _ rfl (fun _ d _ hdown _ => ⟨hdown, fun h => by cases h⟩) ?_
    intro d hmem
    exact absurd (Entry.handedBack.inj (List.mem_singleton.mp hmem)).2.symm hhow

/-- A call on a closed connection leaves it closed. -/
theorem query_closed {c : Nat} (k : Stmt) (sc : Script) (h : (w.links c).connected = false) :
    ((w.query c k sc).1.links c).connected = false := by
  simp [World.query, runQuery, h]

theorem DeadStay.query (h : DeadStay w) (c : Nat) (k : Stmt) (sc : Script) :
    DeadStay (w.query c k sc).1 := by
  refine h.of_entry (d := c) rfl ?_ rfl ?_ (Or.inr (query_closed k sc))
  · intro d
    split <;> nofun
  · intro d hne
    exact Function.update_of_ne hne _ _

theorem deadStay_statement (h : DeadStay w) (hw : Statement w w') : DeadStay w' := by
  cases hw with
  | refused _ => exact h.of_entry (d := 0) rfl nofun rfl (fun _ _ => rfl) (Or.inr id)
  | dropped => exact h.markDead.congr rfl rfl rfl
  | queried c k sc _ _ => exact h.query c k sc
  | copied c o hlive =>
      refine h.of_entry (d := c) rfl nofun rfl ?_ (Or.inl (conn_of_up (up_of_live hlive)).1)
      intro d hne
      exact Function.update_of_ne hne _ _
  | subsSet _ => exact h.congr rfl rfl rfl
  | replaced _ _ => exact h.markDead
  | replacedBy c up _ _ => exact h.markDead.acquire c up

theorem deadStay_own (h : DeadStay w) (hw : Own w w') : DeadStay w' := by
  cases hw with
  | statement hw => exact deadStay_statement h hw
  | beginning hw =>
      cases hw with
      | found c _ => exact (h.acquire c false).markDead
      | tried c sc _ => exact ((h.acquire c true).query c .begin sc).markDead
      | notBegun _ => exact h.congr rfl rfl rfl
      | emulated c _ _ => exact (h.acquire c true).congr rfl rfl rfl
      | opened c sc _ _ _ =>
          refine ((h.acquire c true).query c .begin sc).of_entry (e := .began c)
            (d := c) rfl nofun rfl
            (fun _ _ => rfl) (Or.inr id)
  | ending hw =>
      cases hw with
      | noted _ => exact h.congr rfl rfl rfl
      | ended _ _ _ => exact h.congr rfl rfl rfl
      | endedBy c k sc _ _ _ _ => exact (h.query c k sc).congr rfl rfl rfl
      | retired _ => exact h.markDead
      | returned how _ halive => exact h.release halive

theorem deadStay_borrowing {i : Nat} (h : DeadStay w) (hw : Borrowing i w w') : DeadStay w' := by
  cases hw with
  | sent st c sc _ _ =>
      unfold World.queryVia
      split
      · exact h.query c .other sc
      · refine h.of_entry (d := c) rfl nofun rfl ?_ (Or.inr (query_closed .other sc))
        intro d hne
        exact Function.update_of_ne hne _ _
  | set _ _ _ _ _ => exact h.congr rfl rfl rfl

end DeadStay

end Upq.Transaction
