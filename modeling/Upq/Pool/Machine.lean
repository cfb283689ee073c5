/-
  Pool/Machine.lean --- `PgPool`'s acquire and release paths as atomic steps.

  Source: `src/upq/PgPool.cpp`, `take_idle` to `mark_dead`, and the callers in
  `include/upq/PgPool.h` (`PgPool::run`).

  Every shared access of the source is one action: a dequeue or an enqueue of
  `idle_`, a load, a compare-exchange or a `fetch_sub` of `live_count_`, the
  compare-exchange of a connection's `dead_accounted_`, a store of its IO
  deadline, an operation of `idle_sem_`.  A coroutine's local state `Coro` is its
  program counter together with the connection it has in its hands.  What
  connecting, the liveness checks and statements turn out to be is chosen by the
  event, so a run over arbitrary events is a run with arbitrary outcomes.

  A client coroutine calls the pool in any order, under the one rule the pool
  asks for: it gives a connection back at most once, after which the connection
  is no longer in its hands.  `close_all` is not called here (see `Pool/CloseAll.lean`).

  `idle_` is the queue of the event-loop library: a bounded FIFO of capacity
  `max_pool_` with atomic `try_enqueue` and `try_dequeue`.  `idle_sem_` is its
  counting semaphore.
-/
import Upq.Foundation.Interleave

set_option autoImplicit false

namespace Upq.Pool

open Upq.Foundation

/-! ## Shared state -/

/-- What the constructor of `PgPool` fixes; `conninfoOk` is whether `make_conninfo`
accepts its host, user, password and the rest. -/
structure Config where
  maxPool : Nat
  maxPool_lt : maxPool < 2 ^ 64
  retriesOnConnectionFailed : Int
  conninfoOk : Bool

/-- One `PgConnectionLibpq` as the pool sees it.  After `close()` it is never
connected again; `ioDeadlineMs` is the override, 0 = connection default;
`decremented` remembers that the `live_count_` decrement for it has happened. -/
structure Conn where
  closed : Bool
  ioDeadlineMs : Nat
  deadAccounted : Bool
  decremented : Bool
  deriving DecidableEq, Repr, Inhabited

/-- A connection as `std::make_shared` creates it. -/
def Conn.fresh : Conn :=
  { closed := false, ioDeadlineMs := 0, deadAccounted := false, decremented := false }

/-- The members of `PgPool` the modelled functions share.  A connection is named
by its position in `conns`, the list of all connections ever created; `idle_` is
listed front first. -/
structure Shared where
  conns : List Conn
  idle : List Nat
  liveCount : Nat
  idleSem : Semaphore
  deriving DecidableEq, Repr

/-- The pool as constructed. -/
def Shared.init : Shared :=
  { conns := [], idle := [], liveCount := 0, idleSem := ⟨0, 0, 0⟩ }

/-- Change one connection's record. -/
def Shared.update (s : Shared) (c : Nat) (f : Conn → Conn) : Shared :=
  match s.conns[c]? with
  | none => s
  | some k => { s with conns := s.conns.set c (f k) }

/-- The outcome `up` of `connected()` is possible: a closed connection is never
connected. -/
def Shared.canBe (s : Shared) (c : Nat) (up : Bool) : Bool :=
  match s.conns[c]? with
  | none => true
  | some k => !(k.closed && up)

/-- `n + 1` in a `size_t`. -/
def sizeSucc (n : Nat) : Nat := (n + 1) % 2 ^ 64

/-- `std::atomic<size_t>::fetch_sub(1)`. -/
def fetchSub (n : Nat) : Nat := (n + (2 ^ 64 - 1)) % 2 ^ 64

/-! ## Coroutines -/

/-- Who called `take_idle`: a client (`PgPool::run`, `PgTransaction::open`), or
the loop of `acquire_connection`, which came round through `idle_sem_` or not. -/
inductive Caller where
  | client
  | acquire (woken : Bool)
  deriving DecidableEq, Repr

/-- Where a call of `mark_dead` or of `idle_sem_.release()` returns to: the client,
which now holds nothing, or the loop of `take_idle`. -/
inductive Back where
  | client
  | takeIdle (k : Caller)
  deriving DecidableEq, Repr

/-- Program counter of a coroutine, with the connection in its hands.  `outside`
and `holding` are the client's own; every other value names the access that comes
next: `tryDequeue` to `checkSocket` in `take_idle`, `loadLive` to `connectPause` in
`acquire_connection`, `resetDeadline` to `tryEnqueue` in `release_connection`,
`asyncReset` to `asyncDrain` in `release_connection_async`, `deadCas` to
`deadCloseAgain` in `mark_dead` (`deadCloseAgain` when the connection was accounted
before this call), and `semRelease` at either call of `idle_sem_.release()`. -/
inductive Coro where
  | outside
  | holding (c : Nat)
  | tryDequeue (k : Caller)
  | checkUsable (k : Caller) (c : Nat)
  | checkSocket (k : Caller) (c : Nat)
  | loadLive (woken : Bool)
  | semAcquire
  | parked
  | casLive (woken : Bool) (live : Nat)
  | connecting (c : Nat) (attempt : Nat)
  | connectPause (c : Nat) (attempt : Nat)
  | resetDeadline (c : Nat)
  | checkIdle (c : Nat)
  | tryEnqueue (c : Nat)
  | asyncReset (c : Nat)
  | asyncCheck (c : Nat)
  | asyncDrain (c : Nat)
  | deadCas (b : Back) (c : Nat)
  | deadClose (b : Back) (c : Nat)
  | deadFetchSub (b : Back) (c : Nat)
  | deadCloseAgain (b : Back) (c : Nat)
  | semRelease (b : Back)
  deriving DecidableEq, Repr

/-- Where a returning call leaves the coroutine. -/
def Back.coro : Back → Coro
  | .client => .outside
  | .takeIdle k => .tryDequeue k

/-- Where `take_idle` returns to when it found nothing. -/
def Caller.nullptr : Caller → Coro
  | .client => .outside
  | .acquire woken => .loadLive woken

/-! ## Actions -/

/-- One action, with the outcome the environment chose for it.  `callGiveBack`
carries `give_back`'s `conn_failed` and what `connected()` and `is_idle()` answer; on
`false` the caller goes on with `release_connection_async`.  `abandon` is a holder
that lets go without giving back, `tick` an action without a choice, `slept false`
a canceled `sleep_for`, `cancel` a canceled wait on `idle_sem_`. -/
inductive Event where
  | callTakeIdle
  | callAcquire
  | callRelease
  | callReleaseAsync
  | callMarkDead
  | callGiveBack (connFailed up idle : Bool)
  | setIoDeadline (ms : Nat)
  | abandon
  | tick
  | usable (up idle : Bool)
  | socket (alive : Bool)
  | connect (ok : Bool)
  | slept (ok : Bool)
  | cancel
  deriving DecidableEq, Repr

/-- One atomic action of one coroutine. -/
def coroStep (cfg : Config) (s : Shared) : Coro → Event → Option (Shared × Coro)
  -- the client decides what to call next
  | .outside, .callTakeIdle => some (s, .tryDequeue .client)
  | .outside, .callAcquire => some (s, .tryDequeue (.acquire false))
  | .holding c, .setIoDeadline ms =>
      some (s.update c fun k => { k with ioDeadlineMs := ms }, .holding c)
  | .holding c, .callRelease => some (s, .resetDeadline c)
  | .holding c, .callReleaseAsync => some (s, .asyncReset c)
  | .holding c, .callMarkDead => some (s, .deadCas .client c)
  | .holding c, .callGiveBack connFailed up idle =>
      if s.canBe c up then
        if connFailed || !up then some (s, .deadCas .client c)
        else if !idle then some (s, .asyncReset c)
        else some (s, .resetDeadline c)
      else none
  | .holding _, .abandon => some (s, .outside)
  -- take_idle
  | .tryDequeue k, .tick =>
      match s.idle with
      | [] => some (s, k.nullptr)
      | c :: rest => some ({ s with idle := rest }, .checkUsable k c)
  | .checkUsable k c, .usable up idle =>
      if s.canBe c up then
        if !up || !idle then some (s, .deadCas (.takeIdle k) c)
        else some (s, .checkSocket k c)
      else none
  | .checkSocket k c, .socket alive =>
      if alive then some (s, .holding c) else some (s, .deadCas (.takeIdle k) c)
  -- acquire_connection
  | .loadLive woken, .tick =>
      if cfg.maxPool ≤ s.liveCount then some (s, .semAcquire)
      else some (s, .casLive woken s.liveCount)
  | .semAcquire, .tick =>
      match s.idleSem.acquire with
      | (m, true) => some ({ s with idleSem := m }, .tryDequeue (.acquire true))
      | (m, false) => some ({ s with idleSem := m }, .parked)
  | .semAcquire, .cancel => some (s, .outside)
  | .parked, .tick =>
      match s.idleSem.resume with
      | none => none
      | some m => some ({ s with idleSem := m }, .tryDequeue (.acquire true))
  | .parked, .cancel =>
      match s.idleSem.cancel with
      | none => none
      | some m => some ({ s with idleSem := m }, .outside)
  | .casLive woken live, .tick =>
      if s.liveCount = live then
        some ({ s with liveCount := sizeSucc live, conns := s.conns ++ [Conn.fresh] },
          .connecting s.conns.length 0)
      else some (s, .tryDequeue (.acquire woken))
  | .connecting c attempt, .tick =>
      -- no connect to try: `make_conninfo` failed, or the loop is over
      if !cfg.conninfoOk || decide (cfg.retriesOnConnectionFailed ≤ (attempt : Int)) then
        some (s, .deadCas .client c)
      else none
  | .connecting c attempt, .connect ok =>
      if !cfg.conninfoOk || decide (cfg.retriesOnConnectionFailed ≤ (attempt : Int)) then none
      else if ok then some (s, .holding c)
      else if (attempt : Int) + 1 = cfg.retriesOnConnectionFailed then
        some (s, .deadCas .client c)
      else some (s, .connectPause c attempt)
  | .connectPause c attempt, .slept ok =>
      if ok then some (s, .connecting c (attempt + 1)) else some (s, .deadCas .client c)
  -- release_connection
  | .resetDeadline c, .tick =>
      some (s.update c fun k => { k with ioDeadlineMs := 0 }, .checkIdle c)
  | .checkIdle c, .usable up idle =>
      if s.canBe c up then
        if !up || !idle then some (s, .deadCas .client c)
        else some (s, .tryEnqueue c)
      else none
  | .tryEnqueue c, .tick =>
      if s.idle.length < cfg.maxPool then
        some ({ s with idle := s.idle ++ [c] }, .semRelease .client)
      else some (s, .deadCas .client c)
  -- release_connection_async
  | .asyncReset c, .tick =>
      some (s.update c fun k => { k with ioDeadlineMs := 0 }, .asyncCheck c)
  | .asyncCheck c, .usable up idle =>
      if s.canBe c up then
        if up && !idle then some (s, .asyncDrain c) else some (s, .resetDeadline c)
      else none
  | .asyncDrain c, .tick => some (s, .resetDeadline c)
  -- mark_dead
  | .deadCas b c, .tick =>
      match s.conns[c]? with
      | none => none
      | some k =>
          if k.deadAccounted then some (s, .deadCloseAgain b c)
          else some (s.update c fun k => { k with deadAccounted := true }, .deadClose b c)
  | .deadClose b c, .tick =>
      some (s.update c fun k => { k with closed := true }, .deadFetchSub b c)
  | .deadCloseAgain b c, .tick => some (s.update c fun k => { k with closed := true }, b.coro)
  | .deadFetchSub b c, .tick =>
      some ({ s.update c fun k => { k with decremented := true } with
          liveCount := fetchSub s.liveCount },
        .semRelease b)
  | .semRelease b, .tick => some ({ s with idleSem := s.idleSem.release }, b.coro)
  | _, _ => none

/-- The pool with any number of coroutines. -/
abbrev State := Shared × List Coro

/-- `n` coroutines about to use a new pool. -/
def State.init (n : Nat) : State := (Shared.init, List.replicate n .outside)

/-- One coroutine takes one action. -/
def step (cfg : Config) : State → Nat × Event → Option State := interleave (coroStep cfg)

/-! ## Single actions of `acquire_connection` -/

section

variable {cfg : Config} {s : Shared}

theorem coroStep_empty (h : s.idle = []) (k : Caller) :
    coroStep cfg s (.tryDequeue k) .tick = some (s, k.nullptr) := by
  simp only [coroStep, h]

theorem coroStep_full (h : cfg.maxPool ≤ s.liveCount) (woken : Bool) :
    coroStep cfg s (.loadLive woken) .tick = some (s, .semAcquire) := by
  simp only [coroStep, h, if_true]

theorem coroStep_permit {m : Semaphore} (h : s.idleSem.acquire = (m, true)) :
    coroStep cfg s .semAcquire .tick =
      some ({ s with idleSem := m }, .tryDequeue (.acquire true)) := by
  simp only [coroStep, h]

theorem coroStep_park {m : Semaphore} (h : s.idleSem.acquire = (m, false)) :
    coroStep cfg s .semAcquire .tick = some ({ s with idleSem := m }, .parked) := by
  simp only [coroStep, h]

end

end Upq.Pool
