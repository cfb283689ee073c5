/-
  Pool/CloseAll.lean --- what `close_all` leaves of the pool's capacity.

  Source: `src/upq/PgPool.cpp`, `close_all`, `acquire_connection` and `mark_dead`.

  `close_all` empties `idle_` and closes what it takes out, but it does not go through
  `mark_dead`: `live_count_` still counts the connections it closed.  `poolStep` adds its
  turns to the actions of the coroutines.  The books of `Pool/Accounting.lean` hold in such
  runs too, and `live_count_` exceeds what is idle or in hands by exactly what was dropped:
  closed by `close_all`, or let go by a client that did not give it back (`live_balance`).
  So `close_all` gives no capacity back, and none is missing after it only if there was
  nothing to close (`closeAll_gives_back_iff`).
-/
import Upq.Pool.Accounting

set_option autoImplicit false

namespace Upq.Pool

open Upq.Foundation

/-! ## `close_all` -/

/-- One turn of the loop of `close_all`; `none` when `idle_` is empty. -/
def closeTurn (s : Shared) : Option Shared :=
  match s.idle with
  | [] => none
  | c :: rest => some ({ s with idle := rest }.update c fun k => { k with closed := true })

/-- The loop of `close_all`, for at most `turns` turns. -/
def closeLoop : Nat → Shared → Shared
  | 0, s => s
  | turns + 1, s =>
      match closeTurn s with
      | none => s
      | some s' => closeLoop turns s'

/-- `close_all` -/
def closeAll (s : Shared) : Shared := closeLoop s.idle.length s

/-- An action of a coroutine, or a turn of `close_all`. -/
inductive Action where
  | coro (i : Nat) (e : Event)
  | close
  deriving DecidableEq, Repr

/-- One action on a pool that is also closed. -/
def poolStep (cfg : Config) (st : State) : Action → Option State
  | .coro i e => step cfg st (i, e)
  | .close =>
      match closeTurn st.1 with
      | none => none
      | some s => some (s, st.2)

theorem closeTurn_eq_some {s s' : Shared} (h : closeTurn s = some s') :
    ∃ c rest, s.idle = c :: rest ∧
      s' = { s with idle := rest }.update c fun k => { k with closed := true } := by
  unfold closeTurn at h
  split at h
  · cases h
  · rename_i c rest hidle
    exact ⟨c, rest, hidle, (Option.some.inj h).symm⟩

/-- The loop has enough turns to empty the queue, and `live_count_` stays. -/
theorem closeLoop_spec (turns : Nat) {s : Shared} (h : s.idle.length = turns) :
    (closeLoop turns s).idle = [] ∧ (closeLoop turns s).liveCount = s.liveCount := by
  induction turns generalizing s with
  | zero => exact ⟨List.eq_nil_of_length_eq_zero h, rfl⟩
  | succ turns ih =>
      obtain ⟨c, rest, hidle⟩ := List.exists_cons_of_length_eq_add_one h
      have hturn : closeTurn s = some
          ({ s with idle := rest }.update c fun k => { k with closed := true }) := by
        rw [closeTurn, hidle]
      have hlen : rest.length = turns := by
        rw [hidle, List.length_cons] at h
        omega
      rw [closeLoop, hturn]
      have hrest := ih (s := { s with idle := rest }.update c fun k => { k with closed := true })
        (by rw [update_idle]; exact hlen)
      rw [update_liveCount] at hrest
      exact hrest

theorem closeAll_spec (s : Shared) :
    (closeAll s).idle = [] ∧ (closeAll s).liveCount = s.liveCount :=
  closeLoop_spec s.idle.length rfl

/-! ## The books of a pool that is closed -/

theorem books_closeTurn {cfg : Config} {s s' : Shared} {ls : List Coro}
    (h : closeTurn s = some s') (hb : Books cfg s ls) : Books cfg s' ls := by
  obtain ⟨c, rest, hidle, rfl⟩ := closeTurn_eq_some h
  have hsame := sameBooks_close { s with idle := rest } c
  have hms := ioDeadlineMs_close { s with idle := rest } c
  have hcount : ∀ d, rest.count d ≤ s.idle.count d := by
    intro d
    rw [hidle]
    exact List.count_le_count_cons
  constructor
  case owner =>
    intro d
    have howner := hb.owner d
    have hle := hcount d
    rw [hsame.idle, hsame.accounted]
    change rest.count d + _ + s.accounted d ≤ 1
    omega
  case dying =>
    intro d
    rw [hsame.decremented, hsame.accounted]
    exact hb.dying d
  case live =>
    rw [hsame.liveCount, hsame.undecremented]
    exact hb.live
  case bound =>
    rw [hsame.liveCount]
    exact hb.bound
  case room =>
    have hroom := hb.room
    rw [hidle, List.length_cons] at hroom
    rw [hsame.idle, hsame.liveCount]
    change rest.length + _ ≤ s.liveCount
    omega
  case expected => exact hb.expected
  case deadline =>
    intro d hd
    rw [hms] at hd
    have hzero := hb.deadline d hd
    have hle := hcount d
    rw [hsame.idle]
    change rest.count d + _ = 0
    omega

/-- No `mark_dead` is under way that had nothing to account. -/
def AccountedOnce (ls : List Coro) : Prop := ∀ l ∈ ls, ∀ b c, l ≠ .deadCloseAgain b c

theorem accountedOnce_step {cfg : Config} {s s' : Shared} {l l' : Coro} {ls : List Coro} {i : Nat}
    {e : Event} (hl : ls[i]? = some l) (hstep : coroStep cfg s l e = some (s', l'))
    (hb : Books cfg s ls) (honce : AccountedOnce ls) : AccountedOnce (ls.set i l') := by
  intro x hx b c
  rcases List.mem_or_eq_of_mem_set hx with hold | rfl
  · exact honce x hold b c
  · exact hb.not_closeAgain (List.mem_of_getElem? hl) hstep b c

/-! ## What is dropped -/

/-- 1 for an action that drops a connection: a client lets go of it, or `close_all` takes it
out of `idle_`. -/
def Action.drops : Action → Nat
  | .coro _ .abandon | .close => 1
  | .coro _ _ => 0

/-- The number of connections dropped in a run. -/
def dropped (acts : List Action) : Nat := (acts.map Action.drops).sum

/-- What `live_count_` counts beyond the idle connections and those in hands. -/
def State.missing (st : State) : Nat := st.1.liveCount - (st.1.idle.length + tally owns st.2)

/-- One action of a coroutine changes what is missing by what it drops. -/
theorem missing_step {cfg : Config} {s s' : Shared} {l l' : Coro} {ls : List Coro} {i : Nat}
    {e : Event} (hl : ls[i]? = some l) (hstep : coroStep cfg s l e = some (s', l'))
    (hb : Books cfg s ls) (honce : AccountedOnce ls) :
    State.missing (s', ls.set i l') = State.missing (s, ls) + (Action.coro i e).drops := by
  have hroom := hb.room
  have hroom' := (books_step hl hstep hb).room
  unfold State.missing
  dsimp only
  by_cases he : e = .abandon
  · subst he
    obtain ⟨c, rfl, rfl, rfl⟩ := coroStep_abandon hstep
    have hless : tally owns (ls.set i .outside) + 1 = tally owns ls := owns_letGo hl rfl rfl
    simp only [Action.drops]
    omega
  · have hsame := room_kept hl hstep hb he (honce l (List.mem_of_getElem? hl))
    have hzero : (Action.coro i e).drops = 0 := by
      cases e with
      | abandon => exact absurd rfl he
      | _ => rfl
    omega

theorem missing_closeTurn {cfg : Config} {s s' : Shared} {ls : List Coro}
    (h : closeTurn s = some s') (hb : Books cfg s ls) :
    State.missing (s', ls) = State.missing (s, ls) + 1 := by
  obtain ⟨c, rest, hidle, rfl⟩ := closeTurn_eq_some h
  have hroom := hb.room
  rw [hidle, List.length_cons] at hroom
  simp only [State.missing, update_idle, update_liveCount, hidle, List.length_cons]
  omega

/-- What holds in every state that is reached. -/
def Kept (cfg : Config) (st : State) : Prop := Books cfg st.1 st.2 ∧ AccountedOnce st.2

theorem poolStep_cases {cfg : Config} {st st' : State} {a : Action}
    (h : poolStep cfg st a = some st') :
    (∃ i e l s' l', a = .coro i e ∧ st.2[i]? = some l ∧
        coroStep cfg st.1 l e = some (s', l') ∧ st' = (s', st.2.set i l')) ∨
      ∃ s', a = .close ∧ closeTurn st.1 = some s' ∧ st' = (s', st.2) := by
  cases a with
  | coro i e =>
      obtain ⟨l, s', l', hl, hmove, hst⟩ := interleave_eq_some h
      exact .inl ⟨i, e, l, s', l', rfl, hl, hmove, hst⟩
  | close =>
      simp only [poolStep] at h
      split at h
      · cases h
      · rename_i s' hturn
        exact .inr ⟨s', rfl, hturn, (Option.some.inj h).symm⟩

theorem kept_step {cfg : Config} {st st' : State} {a : Action} (hk : Kept cfg st)
    (h : poolStep cfg st a = some st') : Kept cfg st' := by
  obtain ⟨hb, honce⟩ := hk
  obtain ⟨i, e, l, s', l', rfl, hl, hmove, rfl⟩ | ⟨s', rfl, hturn, rfl⟩ := poolStep_cases h
  · exact ⟨books_step hl hmove hb, accountedOnce_step hl hmove hb honce⟩
  · exact ⟨books_closeTurn hturn hb, honce⟩

theorem kept_init (cfg : Config) (n : Nat) : Kept cfg (State.init n) :=
  ⟨books_init cfg n, fun l hl b c => by rw [List.eq_of_mem_replicate hl]; nofun⟩

theorem kept_of_exec {cfg : Config} {n : Nat} {acts : List Action} {st : State}
    (h : exec (poolStep cfg) (State.init n) acts = some st) : Kept cfg st :=
  exec_invariant (Kept cfg) (fun _ _ _ hk hstep => kept_step hk hstep) (kept_init cfg n) h

/-- **Run rule.**  `live_count_` counts what is idle, what is in hands and what was dropped. -/
theorem live_balance {cfg : Config} {n : Nat} {acts : List Action} {st : State}
    (h : exec (poolStep cfg) (State.init n) acts = some st) :
    st.1.liveCount = st.1.idle.length + tally owns st.2 + dropped acts := by
  have hroom := (kept_of_exec h).1.room
  have hbalance := exec_balance (Kept cfg) State.missing (fun _ a => a.drops) (fun _ _ => 0)
    (fun _ _ _ hk hstep => kept_step hk hstep) (fun st a st' hk hstep => by
      obtain ⟨hb, honce⟩ := hk
      obtain ⟨i, e, l, s', l', rfl, hl, hmove, rfl⟩ | ⟨s', rfl, hturn, rfl⟩ := poolStep_cases hstep
      · exact missing_step hl hmove hb honce
      · exact missing_closeTurn hturn hb) (kept_init cfg n) h
  have hinit : State.missing (State.init n) = 0 := Nat.zero_sub _
  rw [total_eq_sum h, total_eq_sum h, hinit, List.map_const', List.sum_replicate,
    nsmul_zero] at hbalance
  unfold State.missing at hbalance
  unfold dropped
  omega

/-! ## Capacity -/

/-- The actions of one coroutine. -/
def runCoro (cfg : Config) (p : Shared × Coro) (e : Event) : Option (Shared × Coro) :=
  coroStep cfg p.1 p.2 e

/-- Newcomers call `acquire_connection` one after the other: `k` of them create a connection,
and the next one has to wait. -/
inductive Creates (cfg : Config) : Shared → Nat → Prop where
  | waits {s s' : Shared}
      (h : exec (runCoro cfg) (s, .outside) [.callAcquire, .tick, .tick] = some (s', .semAcquire)) :
      Creates cfg s 0
  | creates {s s' : Shared} {c k : Nat}
      (h : exec (runCoro cfg) (s, .outside) [.callAcquire, .tick, .tick, .tick] =
        some (s', .connecting c 0))
      (hrest : Creates cfg s' k) : Creates cfg s (k + 1)

theorem newcomer_waits {cfg : Config} {s : Shared} (hidle : s.idle = [])
    (hfull : cfg.maxPool ≤ s.liveCount) :
    exec (runCoro cfg) (s, .outside) [.callAcquire, .tick, .tick] = some (s, .semAcquire) := by
  simp [exec, runCoro, coroStep, hidle, hfull, Caller.nullptr]

theorem newcomer_creates {cfg : Config} {s : Shared} (hidle : s.idle = [])
    (hroom : s.liveCount < cfg.maxPool) :
    exec (runCoro cfg) (s, .outside) [.callAcquire, .tick, .tick, .tick] =
      some ({ s with liveCount := s.liveCount + 1, conns := s.conns ++ [Conn.fresh] },
        .connecting s.conns.length 0) := by
  simp [exec, runCoro, coroStep, hidle, Nat.not_le.mpr hroom, Caller.nullptr, sizeSucc_of_lt hroom]

/-- With no idle connection the pool creates connections up to `max_pool_`. -/
theorem creates_iff {cfg : Config} {s : Shared} (k : Nat) (hidle : s.idle = [])
    (hbound : s.liveCount ≤ cfg.maxPool) : Creates cfg s k ↔ s.liveCount + k = cfg.maxPool := by
  constructor
  · intro h
    induction h with
    | @waits s s' h =>
        rcases Nat.lt_or_ge s.liveCount cfg.maxPool with hroom | hfull
        · simp [exec, runCoro, coroStep, hidle, Nat.not_le.mpr hroom, Caller.nullptr] at h
        · omega
    | @creates s s' c k h hrest ih =>
        rcases Nat.lt_or_ge s.liveCount cfg.maxPool with hroom | hfull
        · rw [newcomer_creates hidle hroom] at h
          cases h
          have hlater := ih hidle hroom
          dsimp only at hlater
          omega
        · -- the newcomer waits, or has a permit and goes round
          rcases s.idleSem.acquire_cases with ⟨-, heq⟩ | ⟨-, heq⟩
          · simp [exec, runCoro, coroStep, hidle, hfull, Caller.nullptr, heq] at h
          · simp [exec, runCoro, coroStep, hidle, hfull, Caller.nullptr, heq] at h
  · intro h
    induction k generalizing s with
    | zero => exact .waits (newcomer_waits hidle (by omega))
    | succ k ih =>
        refine .creates (newcomer_creates hidle (by omega)) (ih hidle ?_ ?_)
        · dsimp only
          omega
        · dsimp only
          omega

/-- **When `close_all` gives capacity back.**  In every state that any number of coroutines
and calls of `close_all` reach, the pool can create exactly `max_pool_` less the connections
in hands after `close_all`, before `acquire_connection` has to wait, if and only if no
connection is idle and none was dropped before. -/
theorem closeAll_gives_back_iff (cfg : Config) (n : Nat) (acts : List Action) (st : State)
    (h : exec (poolStep cfg) (State.init n) acts = some st) :
    Creates cfg (closeAll st.1) (cfg.maxPool - tally owns st.2) ↔
      st.1.idle = [] ∧ dropped acts = 0 := by
  have hbound := (kept_of_exec h).1.bound
  have hbalance := live_balance h
  obtain ⟨hidle, hlive⟩ := closeAll_spec st.1
  rw [creates_iff _ hidle (by omega), hlive, ← List.length_eq_zero_iff]
  omega

/-- A client that keeps its connection. -/
def holdOne : List Action :=
  [.coro 0 .callAcquire, .coro 0 .tick, .coro 0 .tick, .coro 0 .tick, .coro 0 (.connect true)]

/-- A client that gives it back. -/
def giveOne : List Action :=
  [.coro 0 .callRelease, .coro 0 .tick, .coro 0 (.usable true true), .coro 0 .tick, .coro 0 .tick]

/-- A pool of two connections. -/
def poolOfTwo : Config := ⟨2, by decide, 1, true⟩

/-- With one connection in hands and none idle, `close_all` leaves room for one. -/
theorem closeAll_gives_back_iff_held :
    ∃ st, exec (poolStep poolOfTwo) (State.init 1) holdOne = some st ∧
      Creates poolOfTwo (closeAll st.1) (2 - tally owns st.2) := by
  have hrun : (exec (poolStep poolOfTwo) (State.init 1) holdOne).any
      (fun st => st.1.idle == []) = true := by decide
  obtain ⟨st, hst, hidle⟩ := (Option.any_eq_true ..).mp hrun
  refine ⟨st, hst, (closeAll_gives_back_iff poolOfTwo 1 holdOne st hst).mpr ⟨?_, by decide⟩⟩
  exact beq_iff_eq.mp hidle

/-- After a use of a pool of two, `close_all` closes the idle connection and leaves room for
one, with none in hands. -/
theorem closeAll_keeps_capacity :
    ∃ st, exec (poolStep poolOfTwo) (State.init 1) (holdOne ++ giveOne) = some st ∧
      tally owns st.2 = 0 ∧ Creates poolOfTwo (closeAll st.1) 1 ∧
      ¬∀ cfg n acts st, exec (poolStep cfg) (State.init n) acts = some st →
        Creates cfg (closeAll st.1) (cfg.maxPool - tally owns st.2) := by
  have hrun : (exec (poolStep poolOfTwo) (State.init 1) (holdOne ++ giveOne)).any
      (fun st => tally owns st.2 == 0 && st.1.liveCount == 1) = true := by decide
  obtain ⟨st, hst, hcond⟩ := (Option.any_eq_true ..).mp hrun
  simp only [Bool.and_eq_true, beq_iff_eq] at hcond
  obtain ⟨howns, hone⟩ := hcond
  obtain ⟨hidle, hlive⟩ := closeAll_spec st.1
  have hbound : (closeAll st.1).liveCount ≤ poolOfTwo.maxPool := by
    rw [hlive, hone]
    decide
  have hcreates := fun k => (creates_iff k hidle hbound : Creates poolOfTwo _ k ↔ _)
  refine ⟨st, hst, howns, (hcreates 1).mpr (by rw [hlive, hone]; rfl), fun hall => ?_⟩
  have htwo := hall poolOfTwo 1 _ st hst
  rw [howns, hcreates, hlive, hone] at htwo
  exact absurd htwo (by decide)

end Upq.Pool
