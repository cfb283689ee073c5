/-
  Pool/Permits.lean --- how many permits `idle_sem_` accumulates.

  Source: `src/upq/PgPool.cpp`, `take_idle`, `acquire_connection`, `release_connection` and
  `mark_dead`.

  Every connection that is given back or retired releases `idle_sem_` once.  Only a
  coroutine that found the pool full takes a permit; one that finds an idle connection, or
  room for a new one, does not.  So every acquisition that does not wait leaves a permit
  behind when its connection comes back, and so does an idle connection that `take_idle`
  retires; one that waits pays for its permit before (`permits_le`).  Two uncontended uses of
  a pool of one are enough to pass `max_pool_` (`permits_drift`), and up to `max_pool_` of
  them are harmless (`permits_bounded`).  A coroutine that finds the pool full goes round its
  loop once for each permit before it parks (`parks_after_rechecks`).
-/
import Upq.Pool.Wakeup

set_option autoImplicit false

namespace Upq.Pool

open Upq.Foundation

/-! ## What an acquisition costs and returns -/

/-- 1 for a call that has come through `idle_sem_`. -/
def Caller.passed : Caller → Nat
  | .client => 0
  | .acquire woken => woken.toNat

/-- The releases of `idle_sem_` that a call of `mark_dead` stands for: its own, and the one
that is left to its caller. -/
def Back.owed : Back → Nat
  | .client => 1
  | .takeIdle k => k.passed + 1

/-- The releases a coroutine may still make for what it has: one for the connection it has
acquired, or for the permit it has taken on its way to one, and one for an idle connection it
is retiring. -/
def owed : Coro → Nat
  | .outside | .semAcquire | .parked => 0
  | .tryDequeue k | .checkUsable k _ | .checkSocket k _ => k.passed
  | .loadLive woken | .casLive woken _ => woken.toNat
  | .deadCas b _ | .deadClose b _ | .deadFetchSub b _ | .deadCloseAgain b _ | .semRelease b =>
      b.owed
  | .holding _ | .connecting _ _ | .connectPause _ _ | .resetDeadline _ | .checkIdle _
  | .tryEnqueue _ | .asyncReset _ | .asyncCheck _ | .asyncDrain _ => 1

/-- 1 for an action that ends an acquisition which has not passed `idle_sem_`: `take_idle`
returns a connection, or a place for a new one is taken in `live_count_`. -/
def unwaited (s : Shared) : Coro → Event → Nat
  | .checkSocket k _, .socket alive => if alive then 1 - k.passed else 0
  | .casLive woken live, .tick => if s.liveCount = live then 1 - woken.toNat else 0
  | _, _ => 0

/-- 1 for an action by which `take_idle` finds an idle connection unusable. -/
def retired : Coro → Event → Nat
  | .checkUsable _ _, .usable up idle => if !up || !idle then 1 else 0
  | .checkSocket _ _, .socket alive => if alive then 0 else 1
  | _, _ => 0

theorem Back.owed_coro (b : Back) : Pool.owed b.coro + 1 = Pool.owed (.semRelease b) := by
  cases b <;> rfl

theorem Caller.owed_nullptr (k : Caller) : owed k.nullptr = k.passed := by
  cases k <;> rfl

/-- Away from `idle_sem_` a coroutine owes more only by acquiring a connection without having
waited, or by retiring an idle one. -/
theorem owed_step {cfg : Config} {s s' : Shared} {l l' : Coro} {e : Event}
    (h : coroStep cfg s l e = some (s', l')) (hacquire : l ≠ .semAcquire) (hparked : l ≠ .parked) :
    owed l' ≤ owed l + (unwaited s l e + retired l e) := by
  unfold coroStep at h
  repeat' split at h
  all_goals first
    | cases h; done
    | obtain ⟨-, rfl⟩ := Prod.mk.inj (Option.some.inj h)
  all_goals first
    | exact absurd rfl hacquire
    | exact absurd rfl hparked
    | exact Nat.le_add_right _ _
    | exact Nat.zero_le _
    | exact (Caller.owed_nullptr _).le.trans (Nat.le_add_right _ _)
    | exact ((Nat.le_succ _).trans (Back.owed_coro _).le).trans (Nat.le_add_right _ _)
    | skip
  -- left: `take_idle` retires or returns what it dequeued, and the successful compare-exchange
  · rename_i hdown
    simp only [owed, Back.owed, unwaited, retired, if_pos hdown]
    omega
  · rename_i halive
    simp only [owed, unwaited, retired, if_pos halive]
    omega
  · rename_i halive
    simp only [owed, Back.owed, unwaited, retired, if_neg halive]
    omega
  · rename_i hsame
    simp only [owed, unwaited, retired, if_pos hsame]
    omega

/-- What is given out or may still be: permits, woken waiters, and what the coroutine owes. -/
def outstanding (s : Shared) (l : Coro) : Nat :=
  s.idleSem.permits + s.idleSem.granted + owed l

/-- **Step rule.**  One action adds to what is outstanding only by ending an acquisition that
has not passed `idle_sem_`, or by retiring an idle connection: a permit that is taken stays
with the coroutine that took it, and a release pays what was owed. -/
theorem outstanding_step {cfg : Config} {s s' : Shared} {l l' : Coro} {e : Event}
    (h : coroStep cfg s l e = some (s', l')) :
    outstanding s' l' ≤ outstanding s l + (unwaited s l e + retired l e) := by
  have hquiet (hsem : s'.idleSem = s.idleSem) (hacquire : l ≠ .semAcquire)
      (hparked : l ≠ .parked) :
      outstanding s' l' ≤ outstanding s l + (unwaited s l e + retired l e) := by
    have howed := owed_step h hacquire hparked
    unfold outstanding
    rw [hsem]
    omega
  cases coroStep_wake h with
  | still _ hsem _ hl _ =>
      refine hquiet hsem ?_ ?_
      · rintro rfl
        cases hl.acquiring
      · rintro rfl
        cases hl.parks
  | lookEmpty w hs _ | loadRoom w hs | loadFull w hs _ | casFail w n hs =>
      exact hquiet (congrArg _ hs) Coro.noConfusion Coro.noConfusion
  | enqueue c hs => exact hquiet (hs ▸ rfl) Coro.noConfusion Coro.noConfusion
  | casOk w c _ hsem _ | decrement b c _ hsem _ =>
      exact hquiet hsem Coro.noConfusion Coro.noConfusion
  | permit m hs hm =>
      subst hs
      rcases s.idleSem.acquire_cases with ⟨hpos, heq⟩ | ⟨-, heq⟩
      · obtain rfl := (Prod.mk.inj (hm.symm.trans heq)).1
        simp only [outstanding, owed, Caller.passed, Bool.toNat_true]
        omega
      · rw [heq] at hm
        cases hm
  | park m hs hm =>
      subst hs
      rcases s.idleSem.acquire_cases with ⟨-, heq⟩ | ⟨-, heq⟩
      · rw [heq] at hm
        cases hm
      · obtain rfl := (Prod.mk.inj (hm.symm.trans heq)).1
        exact Nat.le_add_right _ _
  | quit hs =>
      subst hs
      exact Nat.le_add_right _ _
  | resume m hs hm =>
      obtain ⟨hpos, rfl⟩ := Semaphore.resume_eq_some hm
      subst hs
      simp only [outstanding, owed, Caller.passed, Bool.toNat_true]
      omega
  | quitParked m hs hm =>
      obtain ⟨-, rfl⟩ := Semaphore.cancel_eq_some hm
      subst hs
      exact Nat.le_add_right _ _
  | release b hs =>
      subst hs
      have hpaid := b.owed_coro
      rcases s.idleSem.release_cases with ⟨-, heq⟩ | ⟨-, heq⟩ <;>
        · simp only [outstanding, heq]
          omega

/-- A weight of the action that one coroutine of the pool takes. -/
def State.weigh (weight : Shared → Coro → Event → Nat) (st : State) (ev : Nat × Event) : Nat :=
  match st.2[ev.1]? with
  | none => 0
  | some l => weight st.1 l ev.2

/-- The number of acquisitions in a run that ended without having passed `idle_sem_`. -/
def unwaitedIn (cfg : Config) : State → List (Nat × Event) → Nat :=
  total (step cfg) (State.weigh unwaited)

/-- The number of idle connections that `take_idle` retired in a run. -/
def retiredIn (cfg : Config) : State → List (Nat × Event) → Nat :=
  total (step cfg) (State.weigh fun _ => retired)

/-- **Run rule.**  The permits are at most the acquisitions that did not wait and the idle
connections that were retired. -/
theorem permits_le {cfg : Config} {n : Nat} {evs : List (Nat × Event)} {st : State}
    (h : exec (step cfg) (State.init n) evs = some st) :
    st.1.idleSem.permits ≤
      unwaitedIn cfg (State.init n) evs + retiredIn cfg (State.init n) evs := by
  have hgrowth := exec_growth
    (fun st : State => st.1.idleSem.permits + st.1.idleSem.granted + tally owed st.2)
    (fun st ev => State.weigh unwaited st ev + State.weigh (fun _ => retired) st ev)
    (fun st ev st' hstep => by
      obtain ⟨l, s', l', hl, hmove, rfl⟩ := interleave_eq_some hstep
      have hlocal := outstanding_step hmove
      have htally := tally_set (f := owed) l' hl
      simp only [State.weigh, hl]
      unfold outstanding at hlocal
      omega) h
  have hinit : tally owed (State.init n).2 = 0 := @tally_replicate _ owed .outside rfl n
  rw [total_add, hinit] at hgrowth
  have hstart : (State.init n).1.idleSem.permits + (State.init n).1.idleSem.granted = 0 := rfl
  unfold unwaitedIn retiredIn
  omega

/-! ## Going round -/

/-- The actions of a coroutine that goes round the loop of `acquire_connection` once: it is
let through, finds `idle_` empty and the pool full. -/
def goRound (i : Nat) : List (Nat × Event) := [(i, .tick), (i, .tick), (i, .tick)]

theorem exec_goRound {cfg : Config} {i : Nat} {s : Shared} {ls : List Coro}
    (hpos : 0 < s.idleSem.permits) (hl : ls[i]? = some .semAcquire) (hidle : s.idle = [])
    (hfull : cfg.maxPool ≤ s.liveCount) (evs : List (Nat × Event)) :
    ∃ ls', ls'[i]? = some .semAcquire ∧
      exec (step cfg) (s, ls) (goRound i ++ evs) =
        exec (step cfg)
          ({ s with idleSem := { s.idleSem with permits := s.idleSem.permits - 1 } }, ls') evs := by
  let s' : Shared := { s with idleSem := { s.idleSem with permits := s.idleSem.permits - 1 } }
  have hl₁ := getElem?_set_of_eq_some hl (.tryDequeue (.acquire true))
  have hl₂ := getElem?_set_of_eq_some hl₁ (.loadLive true)
  have hthrough : step cfg (s, ls) (i, .tick) = some (s', _) :=
    interleave_of_move hl (coroStep_permit (if_pos hpos))
  have hempty : step cfg (s', _) (i, .tick) = some (s', _) :=
    interleave_of_move hl₁ (coroStep_empty (s := s') hidle (.acquire true))
  have hlimit : step cfg (s', _) (i, .tick) = some (s', _) :=
    interleave_of_move hl₂ (coroStep_full (s := s') hfull true)
  refine ⟨_, getElem?_set_of_eq_some hl₂ .semAcquire, ?_⟩
  calc exec (step cfg) (s, ls) (goRound i ++ evs)
      = exec (step cfg) (s', _) ((i, .tick) :: (i, .tick) :: evs) := exec_cons_of_step hthrough _
    _ = exec (step cfg) (s', _) ((i, .tick) :: evs) := exec_cons_of_step hempty _
    _ = exec (step cfg) (s', _) evs := exec_cons_of_step hlimit _

/-- A coroutine that found the pool full goes round once for every permit and then parks, if
it is the only one that moves. -/
theorem parks_after_rechecks {cfg : Config} {i : Nat} (k : Nat) {s : Shared} {ls : List Coro}
    (hk : s.idleSem.permits = k) (hl : ls[i]? = some .semAcquire) (hidle : s.idle = [])
    (hfull : cfg.maxPool ≤ s.liveCount) :
    ∃ st, exec (step cfg) (s, ls) ((List.replicate k (goRound i)).flatten ++ [(i, .tick)]) =
        some st ∧ st.2[i]? = some .parked := by
  induction k generalizing s ls with
  | zero =>
      have hpark : step cfg (s, ls) (i, .tick) = some (_, ls.set i .parked) :=
        interleave_of_move hl (coroStep_park (if_neg (by omega)))
      exact ⟨(_, ls.set i .parked), exec_cons_of_step hpark [], getElem?_set_of_eq_some hl .parked⟩
  | succ k ih =>
      rw [List.replicate_succ, List.flatten_cons, List.append_assoc]
      obtain ⟨ls', hl', hexec⟩ := exec_goRound (by omega) hl hidle hfull
        ((List.replicate k (goRound i)).flatten ++ [(i, .tick)])
      rw [hexec]
      exact ih (by dsimp only; omega) hl' hidle hfull

/-- The permits are within `max_pool_`, and a coroutine that found the pool full goes round
at most `max_pool_` times before it parks, if it is the only one that moves. -/
structure Bounded (cfg : Config) (st : State) : Prop where
  permits : st.1.idleSem.permits ≤ cfg.maxPool
  rechecks : ∀ i, st.2[i]? = some .semAcquire → st.1.idle = [] → cfg.maxPool ≤ st.1.liveCount →
    ∃ k ≤ cfg.maxPool, ∃ st',
      exec (step cfg) st ((List.replicate k (goRound i)).flatten ++ [(i, .tick)]) = some st' ∧
        st'.2[i]? = some .parked

/-- **When the permits do not drift.**  As long as at most `max_pool_` acquisitions have ended
without passing `idle_sem_`, counting with them the idle connections that `take_idle` retired,
the permits are within `max_pool_`, and a coroutine that finds the pool full re-checks at most
`max_pool_` times before it parks; whatever any number of coroutines do, and however often
they have acquired a connection through `idle_sem_`. -/
theorem permits_bounded (cfg : Config) (n : Nat) (evs : List (Nat × Event)) (st : State)
    (h : exec (step cfg) (State.init n) evs = some st)
    (hfew : unwaitedIn cfg (State.init n) evs + retiredIn cfg (State.init n) evs ≤ cfg.maxPool) :
    Bounded cfg st := by
  have hpermits : st.1.idleSem.permits ≤ cfg.maxPool := (permits_le h).trans hfew
  refine ⟨hpermits, fun i hl hidle hfull => ⟨_, hpermits, ?_⟩⟩
  exact parks_after_rechecks _ rfl hl hidle hfull

/-- A coroutine that uses the pool once, on a new connection. -/
def useNew : List (Nat × Event) :=
  [(0, .callAcquire), (0, .tick), (0, .tick), (0, .tick), (0, .connect true), (0, .callRelease),
    (0, .tick), (0, .usable true true), (0, .tick), (0, .tick)]

/-- A coroutine that uses the pool once more, on the idle connection. -/
def useIdle : List (Nat × Event) :=
  [(0, .callAcquire), (0, .tick), (0, .usable true true), (0, .socket true), (0, .callRelease),
    (0, .tick), (0, .usable true true), (0, .tick), (0, .tick)]

/-- A pool of one connection. -/
def poolOfOne : Config := ⟨1, by decide, 1, true⟩

/-- Two coroutines at a pool of one: the second waits for the first, which then waits for the
second.  Only the first acquisition does not pass `idle_sem_`. -/
def takingTurns : List (Nat × Event) :=
  let finds i := [(i, .callAcquire), (i, .tick), (i, .tick), (i, .tick)]
  let release i := [(i, .callRelease), (i, .tick), (i, .usable true true), (i, .tick), (i, .tick)]
  let woken i := [(i, .tick), (i, .tick), (i, .usable true true), (i, .socket true)]
  finds 0 ++ (0, .connect true) :: finds 1 ++ release 0 ++ woken 1 ++ finds 0 ++ release 1 ++
    woken 0 ++ release 0

theorem permits_bounded_taking_turns :
    ∃ st, exec (step poolOfOne) (State.init 2) takingTurns = some st ∧
      unwaitedIn poolOfOne (State.init 2) takingTurns = 1 ∧ st.1.idleSem.permits = 1 ∧
        Bounded poolOfOne st := by
  have hrun : (exec (step poolOfOne) (State.init 2) takingTurns).any
      (fun st => decide (st.1.idleSem.permits = 1)) = true := by decide
  obtain ⟨st, hst, hpermits⟩ := (Option.any_eq_true ..).mp hrun
  exact ⟨st, hst, by decide, of_decide_eq_true hpermits,
    permits_bounded poolOfOne 2 takingTurns st hst (by decide)⟩

/-- After two uses, one after the other, a pool of one has two permits. -/
theorem permits_drift :
    (exec (step poolOfOne) (State.init 1) (useNew ++ useIdle)).any
        (fun st => decide (st.1.idleSem.permits = 2)) = true ∧
      ¬∀ cfg n evs st, exec (step cfg) (State.init n) evs = some st → Bounded cfg st := by
  have hrun : (exec (step poolOfOne) (State.init 1) (useNew ++ useIdle)).any
      (fun st => decide (st.1.idleSem.permits = 2)) = true := by decide
  refine ⟨hrun, fun hall => ?_⟩
  obtain ⟨st, hst, hpermits⟩ := (Option.any_eq_true ..).mp hrun
  have hbound := (hall poolOfOne 1 _ st hst).permits
  rw [of_decide_eq_true hpermits] at hbound
  exact absurd hbound (by decide)

end Upq.Pool
