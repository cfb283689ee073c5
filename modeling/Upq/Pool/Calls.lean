/-
  Pool/Calls.lean --- the pool's calls around user code, and what an exception leaves behind.

  Source: `PgPool::run`, `copy_to`, `copy_to_lines` and `copy_from` in
  `include/upq/PgPool.h`; `copy_from_buffer`, `give_back_copy` and `copy_error` in
  `src/upq/PgPool.cpp`.

  A call is the list of what it does with the pool (`Op`), a function of what it meets and
  of the user code it runs.  What `acquire_connection` answers is part of what it meets; a
  run goes on past `got` only if the pool has answered so.  Any number of tasks make calls
  over the pool of `Machine.lean`; between two of its own operations a call is inside a
  function of the pool, whose atomic actions interleave with those of the other tasks.

  No call catches an exception.  `run` has given its connection back when it calls `finish`,
  so an exception of a conversion costs nothing.  The copies run their sink or source while
  they hold the connection: when it throws, the `shared_ptr` goes, the connection is neither
  released nor accounted dead, and `live_count_` stays one too high for ever
  (`sink_exception_leaks`).  That is the only way to lose capacity (`settled_iff`).
-/
import Upq.Connection.Copy
import Upq.Pool.Accounting
import Upq.Pool.Run

set_option autoImplicit false

namespace Upq.Pool

open Upq.Foundation

/-! ## Calls -/

/-- The user code that the pool's calls run. -/
inductive UserCode where
  | finish
  | sink
  | lineSink
  | source
  deriving DecidableEq, Repr

/-- What a call does with the pool.  `orAcquire` is `acquire_connection()` unless `take_idle()`
found a connection, `got` the test whether there is one, `unwound` an exception that leaves
the call and destroys its `ConnPtr`. -/
inductive Op where
  | takeIdle
  | orAcquire
  | acquire
  | got (conn : Bool)
  | setIoDeadline (ms : Nat)
  | giveBack (how : HandBack)
  | returned
  | unwound (thrower : UserCode)
  deriving DecidableEq, Repr

/-- What `run` does with the pool at an event of its trace. -/
def RunEvent.ops : RunEvent → List Op
  | .acquireFailed _ => [.takeIdle, .orAcquire, .got false]
  | .acquired => [.takeIdle, .orAcquire, .got true]
  | .setIoDeadline ms => [.setIoDeadline ms]
  | .handedBack how => [.giveBack how]
  | .ran _ _ | .retry _ _ _ => []

/-- The end of `run`: `finish` is called last, whatever happened. -/
def finishOps (finishReturns : QueryResult → Bool) : Option QueryResult → List Op
  | none => []
  | some qr => [if finishReturns qr then .returned else .unwound .finish]

/-- `copy_error` -/
def copyError (e : PgOpError) : PgCopyResult :=
  { ok := false, code := e.code, error := e.error, errDetail := e.errDetail }

/-- `give_back_copy` -/
def giveBackCopy (r : PgCopyResult) : HandBack :=
  if !r.ok && (r.code == .socketReadFailed || r.code == .connectionClosed) then .markDead
  else .releaseAsync

/-- The common text of the four copies around the connection's own function: what they do
with the pool, and how they end. -/
def poolCopy (thrower : UserCode) (acquired : Except PgOpError Link) (copy : Link → Option Ended) :
    List Op × Option Ended :=
  match acquired with
  | .error e => ([.acquire, .got false, .returned], some (.returned (copyError e)))
  | .ok l =>
      match copy l with
      | none => ([.acquire, .got true], none)
      | some (.returned r) =>
          ([.acquire, .got true, .giveBack (giveBackCopy r), .returned], some (.returned r))
      | some .threw => ([.acquire, .got true, .unwound thrower], some .threw)

/-- A call of the pool, with all it meets.  A sink's answer is a function of all it was given
so far, a source's of the number of the call. -/
inductive Call where
  | run (retry : RetryConfig) (opts : QueryOpts) (startedMs : Nat) (attempts : List Attempt)
      (finishReturns : QueryResult → Bool)
  | copyTo (acquired : Except PgOpError Link) (start : CopyStart) (chunks : List ReadChunk)
      (sink : List (List Char) → Verdict)
  | copyToLines (acquired : Except PgOpError Link) (start : CopyStart) (chunks : List ReadChunk)
      (lineSink : List (List Char) → Verdict)
  | copyFrom (acquired : Except PgOpError Link) (start : CopyStart) (puts : List Put)
      (fin : CopyFinish) (source : Nat → Option (List Char))
  | copyFromBuffer (acquired : Except PgOpError Link) (start : CopyStart) (put : Put)
      (fin : CopyFinish) (data : List Char)

/-- What the call does with the pool. -/
def Call.ops : Call → List Op
  | .run retry opts startedMs attempts finishReturns =>
      let r := Pool.run retry { opts, startedMs } attempts
      r.1.flatMap RunEvent.ops ++ finishOps finishReturns r.2
  | .copyTo acquired start chunks sink =>
      (poolCopy .sink acquired fun l =>
        (Upq.copyTo (Sink.ofHistory sink) [] start chunks l).map CopyRun.ended).1
  | .copyToLines acquired start chunks lineSink =>
      (poolCopy .lineSink acquired fun l =>
        (Upq.copyToLines (Sink.ofHistory lineSink) [] start chunks l).map CopyRun.ended).1
  | .copyFrom acquired start puts fin source =>
      (poolCopy .source acquired fun l =>
        (Upq.copyFrom (Source.ofHistory source) 0 start puts fin l).map CopyRun.ended).1
  | .copyFromBuffer acquired start put fin data =>
      -- no user code, so the name of a thrower does not matter
      (poolCopy .source acquired fun l => some (Upq.copyFromBuffer data start put fin l).ended).1

/-! ## Tasks -/

/-- A task: where it is in the pool's functions, what is left of its call (`none` = no call is
running), how many connections it was given and how many it has given back. -/
structure Task where
  coro : Coro
  call : Option (List Op)
  obtained : Nat
  handedBack : Nat

/-- 1 while a call has a connection, outside the pool's own functions. -/
def Coro.inHand : Coro → Nat
  | .holding _ => 1
  | _ => 0

/-- The event is a client's, not an action inside a function of the pool. -/
def Event.isCall : Event → Bool
  | .callTakeIdle | .callAcquire | .callRelease | .callReleaseAsync | .callMarkDead
  | .callGiveBack _ _ _ | .setIoDeadline _ | .abandon => true
  | .tick | .usable _ _ | .socket _ | .connect _ | .slept _ | .cancel => false

/-- What an operation asks of the pool when the call is at `l`: nothing (`some none`), or an
action of its coroutine. -/
def Op.asks : Coro → Op → Option (Option Event)
  | _, .takeIdle => some (some .callTakeIdle)
  | _, .acquire => some (some .callAcquire)
  | .outside, .orAcquire => some (some .callAcquire)
  | .holding _, .orAcquire => some none
  | .outside, .got false | .holding _, .got true => some none
  | _, .setIoDeadline ms => some (some (.setIoDeadline ms))
  | _, .giveBack .markDead => some (some .callMarkDead)
  | _, .giveBack .release => some (some .callRelease)
  | _, .giveBack .releaseAsync => some (some .callReleaseAsync)
  | .outside, .returned | .outside, .unwound _ => some none
  | .holding _, .unwound _ => some (some .abandon)
  | _, _ => none

/-- 1 for an operation that gives the connection back. -/
def Op.handsBack : Op → Nat
  | .giveBack _ => 1
  | _ => 0

/-- What is left of the call after an operation. -/
def Op.next (ops : List Op) : Op → Option (List Op)
  | .returned | .unwound _ => none
  | _ => some ops

/-- A task begins a call, goes on with it, or takes an action inside the pool. -/
inductive TaskEvent where
  | start (call : Call)
  | go
  | pool (e : Event)

/-- One operation of a call. -/
def opStep (cfg : Config) (s : Shared) (l : Coro) (op : Op) : Option (Shared × Coro) :=
  match op.asks l with
  | none => none
  | some none => some (s, l)
  | some (some e) => coroStep cfg s l e

/-- One step of one task. -/
def taskStep (cfg : Config) (s : Shared) (t : Task) : TaskEvent → Option (Shared × Task)
  | .start call =>
      match t.call with
      | none => some (s, { t with call := some call.ops })
      | some _ => none
  | .go =>
      match t.call with
      | some (op :: ops) =>
          (opStep cfg s t.coro op).map fun (s', l') =>
            (s', { t with
              coro := l', call := op.next ops, handedBack := t.handedBack + op.handsBack })
      | _ => none
  | .pool e =>
      if e.isCall then none
      else
        (coroStep cfg s t.coro e).map fun (s', l') =>
          (s', { t with coro := l', obtained := t.obtained + l'.inHand })

/-- The pool with any number of tasks. -/
abbrev System := Shared × List Task

/-- `n` tasks about to use a new pool. -/
def System.init (n : Nat) : System := (Shared.init, List.replicate n ⟨.outside, none, 0, 0⟩)

/-- One task takes one step. -/
def systemStep (cfg : Config) : System → Nat × TaskEvent → Option System :=
  interleave (taskStep cfg)

/-- The coroutines of the tasks. -/
def System.coros (s : System) : List Coro := s.2.map Task.coro

/-- Every connection a task was given has been given back exactly once, or is in the hands of
its running call; and `live_count_` is the number of idle connections plus those in hands. -/
def Settled (s : System) : Prop :=
  (∀ t ∈ s.2, t.obtained = t.handedBack + t.coro.inHand) ∧
    s.1.liveCount = s.1.idle.length + tally owns s.coros

/-- The step is an exception thrown by a sink, a line sink or a source. -/
def Task.callbackThrows (t : Task) : TaskEvent → Bool
  | .go =>
      match t.call with
      | some (.unwound thrower :: _) => thrower != .finish
      | _ => false
  | _ => false

/-- No sink, line sink or source throws at this step. -/
def CallbacksReturn (s : System) (ev : Nat × TaskEvent) : Prop :=
  s.2[ev.1]?.any (Task.callbackThrows · ev.2) = false

instance (s : System) (ev : Nat × TaskEvent) : Decidable (CallbacksReturn s ev) :=
  inferInstanceAs (Decidable (_ = false))

/-! ## What a call may ask for -/

/-- From a point where it has a connection (`held`) or not, the call gives back what it has
before it returns or calls `finish`, and runs other user code only while it has one. -/
def Orderly : Bool → List Op → Prop
  | _, [] => True
  | held, .takeIdle :: ops | held, .acquire :: ops => held = false ∧ ∀ h, Orderly h ops
  | held, .orAcquire :: ops => if held then Orderly true ops else ∀ h, Orderly h ops
  | held, .got conn :: ops => held = conn → Orderly held ops
  | held, .setIoDeadline _ :: ops => Orderly held ops
  | held, .giveBack _ :: ops => held = true ∧ Orderly false ops
  | held, .returned :: _ => held = false
  | held, .unwound thrower :: _ => held = (thrower != .finish)

theorem orderly_poolCopy {thrower : UserCode} (hthrower : thrower ≠ .finish)
    (acquired : Except PgOpError Link) (copy : Link → Option Ended) :
    Orderly false (poolCopy thrower acquired copy).1 := by
  unfold poolCopy
  split
  · simp [Orderly]
  · split <;> simp [Orderly, hthrower]

/-- `run` alternates: what it acquires it hands back before it goes on. -/
theorem orderly_of_handedBackOnce {tail : List Op} (htail : Orderly false tail)
    (evs : List RunEvent) {held : Bool} (h : HandedBackOnce held evs) :
    Orderly held (evs.flatMap RunEvent.ops ++ tail) := by
  induction evs generalizing held with
  | nil =>
      obtain rfl : held = false := h
      exact htail
  | cons e evs ih =>
      cases e with
      | acquired | acquireFailed =>
          obtain ⟨rfl, hrest⟩ := h
          have horderly := ih hrest
          simpa [RunEvent.ops, Orderly] using horderly
      | handedBack how =>
          obtain ⟨rfl, hrest⟩ := h
          exact ⟨rfl, ih hrest⟩
      | ran _ _ => exact ih h.2
      | setIoDeadline _ | retry _ _ _ => exact ih h

theorem orderly_finish (finishReturns : QueryResult → Bool) (result : Option QueryResult) :
    Orderly false (finishOps finishReturns result) := by
  cases result with
  | none => trivial
  | some qr =>
      simp only [finishOps]
      split <;> rfl

theorem orderly_ops (call : Call) : Orderly false call.ops := by
  cases call with
  | run retry opts startedMs attempts finishReturns =>
      exact orderly_of_handedBackOnce (orderly_finish finishReturns _) _
        (run_handedBackOnce attempts _)
  | copyTo | copyToLines | copyFrom | copyFromBuffer => exact orderly_poolCopy (by decide) _ _

/-! ## Inside the pool -/

/-- Whether a call may have a connection when `mark_dead` or `idle_sem_.release()` returns
here and the function of the pool goes on to its end. -/
def Back.outcomes : Back → List Bool
  | .client => [false]
  | .takeIdle _ => [true, false]

/-- Whether a call may have a connection when the function of the pool it is in returns. -/
def Coro.outcomes : Coro → List Bool
  | .holding _ => [true]
  | .outside | .resetDeadline _ | .checkIdle _ | .tryEnqueue _ | .asyncReset _ | .asyncCheck _
  | .asyncDrain _ => [false]
  | .deadCas b _ | .deadClose b _ | .deadFetchSub b _ | .deadCloseAgain b _ | .semRelease b =>
      b.outcomes
  | .tryDequeue _ | .checkUsable _ _ | .checkSocket _ _ | .loadLive _ | .semAcquire | .parked
  | .casLive _ _ | .connecting _ _ | .connectPause _ _ => [true, false]

section

variable {cfg : Config} {s s' : Shared} {l l' : Coro} {e : Event}

theorem Back.coro_outcomes (b : Back) : b.coro.outcomes = b.outcomes := by
  cases b <;> rfl

theorem mem_both (x : Bool) : x ∈ [true, false] := by
  cases x <;> decide

/-- An action inside the pool does not widen what its function may return. -/
theorem coroStep_inside (h : coroStep cfg s l e = some (s', l')) (hinside : e.isCall = false) :
    l.inHand = 0 ∧ l ≠ .outside ∧ ∀ x ∈ l'.outcomes, x ∈ l.outcomes := by
  unfold coroStep at h
  repeat' split at h
  all_goals first
    | cases h; done
    | cases hinside; done
    | obtain ⟨-, rfl⟩ := Prod.mk.inj (Option.some.inj h)
  all_goals refine ⟨rfl, nofun, fun x hx => ?_⟩
  all_goals first
    | exact hx
    | exact mem_both x
    | rwa [Back.coro_outcomes] at hx

end

/-! ## One step of a task -/

/-- What a step of a task can be. -/
inductive Moved (cfg : Config) (s : Shared) (t : Task) : TaskEvent → Shared → Task → Prop where
  | started (call : Call) (hcall : t.call = none) :
      Moved cfg s t (.start call) s { t with call := some call.ops }
  | stayed (op : Op) (ops : List Op) (hcall : t.call = some (op :: ops))
      (hasks : op.asks t.coro = some none) :
      Moved cfg s t .go s
        { t with call := op.next ops, handedBack := t.handedBack + op.handsBack }
  | asked (op : Op) (ops : List Op) (e : Event) {s' : Shared} {l' : Coro}
      (hcall : t.call = some (op :: ops)) (hasks : op.asks t.coro = some (some e))
      (hstep : coroStep cfg s t.coro e = some (s', l')) :
      Moved cfg s t .go s'
        { t with coro := l', call := op.next ops, handedBack := t.handedBack + op.handsBack }
  | inside (e : Event) {s' : Shared} {l' : Coro} (hinside : e.isCall = false)
      (hstep : coroStep cfg s t.coro e = some (s', l')) :
      Moved cfg s t (.pool e) s' { t with coro := l', obtained := t.obtained + l'.inHand }

theorem taskStep_moved {cfg : Config} {s s' : Shared} {t t' : Task} {e : TaskEvent}
    (h : taskStep cfg s t e = some (s', t')) : Moved cfg s t e s' t' := by
  cases e with
  | start call =>
      simp only [taskStep] at h
      split at h
      · rename_i hcall
        cases h
        exact .started call hcall
      · cases h
  | go =>
      simp only [taskStep] at h
      split at h
      · rename_i op ops hcall
        obtain ⟨⟨s₁, l₁⟩, hop, heq⟩ := Option.map_eq_some_iff.mp h
        cases heq
        unfold opStep at hop
        split at hop
        · cases hop
        · rename_i hasks
          cases hop
          exact .stayed op ops hcall hasks
        · rename_i e hasks
          exact .asked op ops e hcall hasks hop
      · cases h
  | pool e =>
      simp only [taskStep] at h
      split at h
      · cases h
      · rename_i hinside
        obtain ⟨⟨s₁, l₁⟩, hstep, heq⟩ := Option.map_eq_some_iff.mp h
        cases heq
        exact .inside e (Bool.eq_false_iff.mpr hinside) hstep

/-- What an operation that asks something of the pool comes to. -/
inductive Asked (l : Coro) : Op → Event → Coro → Prop where
  | obtains (op : Op) (e : Event) (k : Caller)
      (hop : op = .takeIdle ∨ op = .acquire ∨ op = .orAcquire)
      (hl : l = .outside) (he : e ≠ .abandon) : Asked l op e (.tryDequeue k)
  | sets (c ms : Nat) (hl : l = .holding c) :
      Asked l (.setIoDeadline ms) (.setIoDeadline ms) (.holding c)
  | givesBack (how : HandBack) (e : Event) (c : Nat) (l' : Coro) (hl : l = .holding c)
      (he : e ≠ .abandon) (hback : l'.outcomes = [false]) (hhand : l'.inHand = 0) :
      Asked l (.giveBack how) e l'
  | drops (thrower : UserCode) (c : Nat) (hl : l = .holding c) :
      Asked l (.unwound thrower) .abandon .outside

section

variable {cfg : Config} {s s' : Shared} {l l' : Coro} {op : Op}

theorem asks_asked {e : Event} (hasks : op.asks l = some (some e))
    (hstep : coroStep cfg s l e = some (s', l')) : Asked l op e l' := by
  cases op with
  | takeIdle =>
      cases l <;> cases hasks <;> cases hstep
      exact .obtains _ _ _ (Or.inl rfl) rfl nofun
  | acquire =>
      cases l <;> cases hasks <;> cases hstep
      exact .obtains _ _ _ (Or.inr (Or.inl rfl)) rfl nofun
  | orAcquire =>
      cases l <;> cases hasks
      cases hstep
      exact .obtains _ _ _ (Or.inr (Or.inr rfl)) rfl nofun
  | got conn => cases conn <;> cases l <;> cases hasks
  | setIoDeadline ms =>
      cases l <;> cases hasks <;> cases hstep
      exact .sets _ ms rfl
  | giveBack how =>
      cases how <;> cases l <;> cases hasks <;> cases hstep
      all_goals exact .givesBack _ _ _ _ rfl nofun rfl rfl
  | returned => cases l <;> cases hasks
  | unwound thrower =>
      cases l <;> cases hasks
      cases hstep
      exact .drops thrower _ rfl

/-- The call goes on in order, and leaves the pool's functions only without a connection. -/
theorem Asked.orderly {ops : List Op} {e : Event} (h : Asked l op e l')
    (horderly : ∀ held ∈ l.outcomes, Orderly held (op :: ops)) :
    (op.next ops = none → l' = .outside) ∧
      ∀ rest, op.next ops = some rest → ∀ held ∈ l'.outcomes, Orderly held rest := by
  cases h with
  | obtains _ _ k hop hl _ =>
      have hnow := horderly false (by rw [hl]; exact List.mem_singleton_self _)
      rcases hop with rfl | rfl | rfl
      · refine ⟨nofun, ?_⟩
        rintro _ ⟨rfl⟩ held -
        exact hnow.2 held
      · refine ⟨nofun, ?_⟩
        rintro _ ⟨rfl⟩ held -
        exact hnow.2 held
      · refine ⟨nofun, ?_⟩
        rintro _ ⟨rfl⟩ held -
        exact hnow held
  | sets c ms hl =>
      refine ⟨nofun, ?_⟩
      rintro _ ⟨rfl⟩ held hheld
      exact horderly held (hl ▸ hheld)
  | givesBack how _ c _ hl _ hback _ =>
      have hnow := horderly true (by rw [hl]; exact List.mem_singleton_self _)
      refine ⟨nofun, ?_⟩
      rintro _ ⟨rfl⟩ held hheld
      rw [hback] at hheld
      obtain rfl := List.mem_singleton.mp hheld
      exact hnow.2
  | drops thrower c _ => exact ⟨fun _ => rfl, nofun⟩

/-- Every operation passes the connection on, except an exception of a copy's user code. -/
theorem Asked.inHand {ops : List Op} {e : Event} (h : Asked l op e l')
    (horderly : ∀ held ∈ l.outcomes, Orderly held (op :: ops)) :
    (e ≠ .abandon ∧ op.handsBack + l'.inHand = l.inHand ∧ ∀ thrower, op ≠ .unwound thrower) ∨
      (e = .abandon ∧ op.handsBack + l'.inHand + 1 = l.inHand ∧
        ∃ thrower, op = .unwound thrower ∧ thrower ≠ .finish) := by
  cases h with
  | obtains _ _ k hop hl he =>
      subst hl
      rcases hop with rfl | rfl | rfl <;> exact Or.inl ⟨he, rfl, nofun⟩
  | sets c ms hl =>
      subst hl
      exact Or.inl ⟨nofun, rfl, nofun⟩
  | givesBack how _ c _ hl he _ hhand =>
      subst hl
      exact Or.inl ⟨he, congrArg _ hhand, nofun⟩
  | drops thrower c hl =>
      subst hl
      have hheld : true = (thrower != .finish) := horderly true (List.mem_singleton_self _)
      exact Or.inr ⟨rfl, rfl, thrower, rfl, by simpa using hheld.symm⟩

/-- An operation that asks nothing goes on where it is, and leaves the call only without a
connection. -/
theorem asks_nothing {ops : List Op} (hasks : op.asks l = some none)
    (horderly : ∀ held ∈ l.outcomes, Orderly held (op :: ops)) :
    op.handsBack = 0 ∧ (op.next ops = none → l = .outside) ∧
      (∀ rest, op.next ops = some rest → ∀ held ∈ l.outcomes, Orderly held rest) ∧
      ∀ thrower, op = .unwound thrower → thrower = .finish := by
  cases op with
  | orAcquire =>
      cases l <;> cases hasks
      refine ⟨rfl, nofun, ?_, nofun⟩
      rintro rest ⟨rfl⟩ held hheld
      obtain rfl := List.mem_singleton.mp hheld
      exact horderly true hheld
  | got conn =>
      refine ⟨rfl, nofun, ?_, nofun⟩
      rintro rest ⟨rfl⟩ held hheld
      refine horderly held hheld ?_
      cases conn <;> cases l <;> cases hasks <;> exact List.mem_singleton.mp hheld
  | returned =>
      cases l <;> cases hasks
      exact ⟨rfl, fun _ => rfl, nofun, nofun⟩
  | unwound thrower =>
      cases l <;> cases hasks
      refine ⟨rfl, fun _ => rfl, nofun, ?_⟩
      rintro _ ⟨rfl⟩
      have hheld : false = (thrower != .finish) := horderly false (List.mem_singleton_self _)
      simpa using hheld
  | takeIdle | acquire | setIoDeadline => cases l <;> cases hasks
  | giveBack how => cases how <;> cases l <;> cases hasks

end

/-! ## Tasks -/

/-- What a task keeps: what is left of its call is orderly, and it has not given back more
than it was given. -/
structure Task.Fair (t : Task) : Prop where
  ended : t.call = none → t.coro = .outside
  running : ∀ ops, t.call = some ops → ∀ held ∈ t.coro.outcomes, Orderly held ops
  counts : t.handedBack + t.coro.inHand ≤ t.obtained

/-- The task has lost no connection. -/
def Task.Clear (t : Task) : Prop := t.obtained = t.handedBack + t.coro.inHand

section

variable {cfg : Config} {s s' : Shared} {t t' : Task} {e : TaskEvent}

theorem Task.Fair.moved (h : t.Fair) (hm : Moved cfg s t e s' t') : t'.Fair := by
  cases hm with
  | started call hcall =>
      refine ⟨nofun, ?_, h.counts⟩
      rintro _ ⟨rfl⟩ held hheld
      rw [h.ended hcall] at hheld
      obtain rfl := List.mem_singleton.mp hheld
      exact orderly_ops call
  | stayed op ops hcall hasks =>
      obtain ⟨hzero, hended, hrunning, -⟩ := asks_nothing hasks (h.running _ hcall)
      refine ⟨hended, hrunning, ?_⟩
      dsimp only
      rw [hzero]
      exact h.counts
  | inside e hinside hstep =>
      obtain ⟨hhand, hinside, hout⟩ := coroStep_inside hstep hinside
      have hcounts := h.counts
      refine ⟨?_, ?_, ?_⟩
      · intro hcall
        exact absurd (h.ended hcall) hinside
      · intro ops hcall held hheld
        exact h.running ops hcall held (hout held hheld)
      · dsimp only
        omega
  | asked op ops e hcall hasks hstep =>
      have hasked := asks_asked hasks hstep
      obtain ⟨hended, hrunning⟩ := hasked.orderly (h.running _ hcall)
      have hcounts := h.counts
      refine ⟨hended, hrunning, ?_⟩
      dsimp only
      rcases hasked.inHand (h.running _ hcall) with ⟨-, hsame, -⟩ | ⟨-, hdrop, -⟩ <;> omega

/-- **One step.**  It passes on the connection the task has, or it is an exception of a copy's
user code and drops it. -/
theorem Task.Fair.kept_or_dropped (h : t.Fair) (hm : Moved cfg s t e s' t') :
    (t.callbackThrows e = false ∧
      t'.handedBack + t'.coro.inHand + t.obtained = t.handedBack + t.coro.inHand + t'.obtained ∧
      (s' = s ∧ t'.coro = t.coro ∨
        ∃ ev, ev ≠ .abandon ∧ coroStep cfg s t.coro ev = some (s', t'.coro))) ∨
    (t.callbackThrows e = true ∧ t'.obtained = t.obtained ∧
      t'.handedBack + t'.coro.inHand + 1 = t.handedBack + t.coro.inHand ∧
      coroStep cfg s t.coro .abandon = some (s', t'.coro)) := by
  cases hm with
  | started call hcall => exact Or.inl ⟨rfl, rfl, Or.inl ⟨rfl, rfl⟩⟩
  | stayed op ops hcall hasks =>
      obtain ⟨hzero, -, -, hfinish⟩ := asks_nothing hasks (h.running _ hcall)
      refine Or.inl ⟨?_, by simp only [hzero, Nat.add_zero], Or.inl ⟨rfl, rfl⟩⟩
      unfold Task.callbackThrows
      rw [hcall]
      cases op with
      | unwound thrower => simpa using hfinish thrower rfl
      | _ => rfl
  | inside ev hinside hstep =>
      obtain ⟨hhand, -⟩ := coroStep_inside hstep hinside
      refine Or.inl ⟨rfl, ?_, Or.inr ⟨ev, ?_, hstep⟩⟩
      · dsimp only
        omega
      · rintro rfl
        cases hinside
  | asked op ops ev hcall hasks hstep =>
      rcases (asks_asked hasks hstep).inHand (h.running _ hcall) with
        ⟨hev, hsame, hnot⟩ | ⟨rfl, hdrop, thrower, rfl, hthrower⟩
      · refine Or.inl ⟨?_, ?_, Or.inr ⟨ev, hev, hstep⟩⟩
        · unfold Task.callbackThrows
          rw [hcall]
          cases op with
          | unwound thrower => exact absurd rfl (hnot thrower)
          | _ => rfl
        · dsimp only
          omega
      · refine Or.inr ⟨?_, rfl, ?_, hstep⟩
        · unfold Task.callbackThrows
          rw [hcall]
          simpa using hthrower
        · dsimp only
          omega

theorem Task.Fair.clear_iff (h : t.Fair) (hm : Moved cfg s t e s' t') :
    t'.Clear ↔ t.Clear ∧ t.callbackThrows e = false := by
  have hcounts := h.counts
  unfold Task.Clear
  rcases h.kept_or_dropped hm with ⟨hreturns, hsame, -⟩ | ⟨hthrows, hsame, hdrop, -⟩
  · simp only [hreturns, and_true]
    omega
  · simp only [hthrows, Bool.true_eq_false, and_false, iff_false]
    omega

end

/-! ## The system -/

/-- What every run keeps. -/
structure System.Inv (cfg : Config) (s : System) : Prop where
  books : Books cfg s.1 s.coros
  fair : ∀ t ∈ s.2, t.Fair
  -- a connection is accounted dead only once
  once : ∀ t ∈ s.2, ∀ b c, t.coro ≠ .deadCloseAgain b c

section

variable {cfg : Config} {s s' : Shared} {ts : List Task} {t t' : Task} {i : Nat} {e : TaskEvent}

theorem coros_getElem? (ht : ts[i]? = some t) : (System.coros (s, ts))[i]? = some t.coro := by
  simp [System.coros, ht]

theorem coros_set : System.coros (s', ts.set i t') = (System.coros (s, ts)).set i t'.coro :=
  List.map_set

/-- The pool sees at most one action of the task's coroutine. -/
theorem Moved.coro (hm : Moved cfg s t e s' t') :
    (s' = s ∧ t'.coro = t.coro) ∨ ∃ ev, coroStep cfg s t.coro ev = some (s', t'.coro) := by
  cases hm with
  | started | stayed => exact Or.inl ⟨rfl, rfl⟩
  | asked _ _ ev _ _ hstep | inside ev _ hstep => exact Or.inr ⟨ev, hstep⟩

theorem System.Inv.moved (h : System.Inv cfg (s, ts)) (ht : ts[i]? = some t)
    (hm : Moved cfg s t e s' t') : System.Inv cfg (s', ts.set i t') := by
  have hmem := List.mem_of_getElem? ht
  have hcoro := coros_getElem? (s := s) ht
  refine ⟨?_, ?_, ?_⟩
  · rw [coros_set (s := s)]
    rcases hm.coro with ⟨rfl, hsame⟩ | ⟨ev, hstep⟩
    · obtain ⟨hlt, hget⟩ := List.getElem?_eq_some_iff.mp hcoro
      rw [hsame, ← hget, List.set_getElem_self]
      exact h.books
    · exact books_step hcoro hstep h.books
  · intro x hx
    rcases List.mem_or_eq_of_mem_set hx with hold | rfl
    · exact h.fair x hold
    · exact (h.fair t hmem).moved hm
  · intro x hx b c hagain
    rcases List.mem_or_eq_of_mem_set hx with hold | rfl
    · exact h.once x hold b c hagain
    · rcases hm.coro with ⟨rfl, hsame⟩ | ⟨ev, hstep⟩
      · exact h.once t hmem b c (hsame ▸ hagain)
      · exact h.books.not_closeAgain (List.mem_of_getElem? hcoro) hstep b c hagain

/-- What is idle or in hands moves with `live_count_`, unless a connection is abandoned. -/
theorem System.Inv.balance {l' : Coro} {ev : Event} (h : System.Inv cfg (s, ts))
    (ht : ts[i]? = some t) (hstep : coroStep cfg s t.coro ev = some (s', l'))
    (hev : ev ≠ .abandon) :
    s'.idle.length + tally owns ((System.coros (s, ts)).set i l') + s.liveCount =
      s.idle.length + tally owns (System.coros (s, ts)) + s'.liveCount :=
  room_kept (coros_getElem? ht) hstep h.books hev (h.once t (List.mem_of_getElem? ht))

/-- The count stays right unless the step is an exception of a copy's user code. -/
theorem System.Inv.balanced_iff (h : System.Inv cfg (s, ts)) (ht : ts[i]? = some t)
    (hm : Moved cfg s t e s' t') :
    s'.liveCount = s'.idle.length + tally owns (System.coros (s', ts.set i t')) ↔
      s.liveCount = s.idle.length + tally owns (System.coros (s, ts)) ∧
        t.callbackThrows e = false := by
  have hroom : s.idle.length + tally owns (System.coros (s, ts)) ≤ s.liveCount := h.books.room
  have hcoro := coros_getElem? (s := s) ht
  rw [coros_set (s := s)]
  rcases (h.fair t (List.mem_of_getElem? ht)).kept_or_dropped hm with
    ⟨hreturns, -, ⟨rfl, hstay⟩ | ⟨ev, hev, hstep⟩⟩ | ⟨hthrows, -, -, hstep⟩
  · have hmove := tally_set (f := owns) t'.coro hcoro
    simp only [hreturns, and_true]
    rw [hstay] at hmove ⊢
    omega
  · have hbalance := h.balance ht hstep hev
    simp only [hreturns, and_true]
    omega
  · -- the holder is gone, the connection still counts
    obtain ⟨c, hl, rfl, hl'⟩ := coroStep_abandon hstep
    have hless : tally owns ((System.coros (s', ts)).set i t'.coro) + 1 =
        tally owns (System.coros (s', ts)) :=
      owns_letGo hcoro (by rw [hl]; rfl) (by rw [hl']; rfl)
    simp only [hthrows, Bool.true_eq_false, and_false, iff_false]
    omega

end

theorem System.inv_init (cfg : Config) (n : Nat) : System.Inv cfg (System.init n) where
  books := by
    have hcoros : (System.init n).coros = List.replicate n .outside := by
      simp [System.coros, System.init]
    rw [hcoros]
    exact books_init cfg n
  fair t ht := by
    rw [List.eq_of_mem_replicate ht]
    exact ⟨fun _ => rfl, nofun, Nat.le_refl 0⟩
  once t ht b c := by
    rw [List.eq_of_mem_replicate ht]
    nofun

theorem settled_init (n : Nat) : Settled (System.init n) := by
  have hcoros : (System.init n).coros = List.replicate n .outside := by
    simp [System.coros, System.init]
  refine ⟨?_, ?_⟩
  · intro t ht
    rw [List.eq_of_mem_replicate ht]
    rfl
  · rw [hcoros, tally_replicate (by rfl)]
    rfl

/-- **Step rule.** -/
theorem inv_systemStep {cfg : Config} {s s' : System} {ev : Nat × TaskEvent}
    (h : System.Inv cfg s) (hstep : systemStep cfg s ev = some s') : System.Inv cfg s' := by
  obtain ⟨t, _, t', ht, hmove, rfl⟩ := interleave_eq_some hstep
  exact h.moved ht (taskStep_moved hmove)

/-- **Step rule, both ways.** -/
theorem settled_systemStep {cfg : Config} {s s' : System} {ev : Nat × TaskEvent}
    (h : System.Inv cfg s) (hstep : systemStep cfg s ev = some s') :
    Settled s' ↔ Settled s ∧ CallbacksReturn s ev := by
  obtain ⟨t, s₁, t', ht, hmove, rfl⟩ := interleave_eq_some hstep
  have hm := taskStep_moved hmove
  have hclear := (h.fair t (List.mem_of_getElem? ht)).clear_iff hm
  have hguard : CallbacksReturn s ev ↔ t.callbackThrows ev.2 = false := by
    rw [CallbacksReturn, ht]
    rfl
  have htasks : (∀ x ∈ s.2.set ev.1 t', x.Clear) ↔ (∀ x ∈ s.2, x.Clear) ∧ CallbacksReturn s ev :=
    forall_mem_set_iff ht (hclear.trans (and_congr_right fun _ => hguard.symm))
  have hcount := h.balanced_iff ht hm
  rw [← hguard] at hcount
  constructor
  · rintro ⟨hall, hlive⟩
    obtain ⟨hall, hreturns⟩ := htasks.mp hall
    exact ⟨⟨hall, (hcount.mp hlive).1⟩, hreturns⟩
  · rintro ⟨⟨hall, hlive⟩, hreturns⟩
    exact ⟨htasks.mpr ⟨hall, hreturns⟩, hcount.mpr ⟨hlive, hreturns⟩⟩

/-- **Only a copy's callback loses capacity.**  Any number of tasks make calls of `run`,
`copy_to`, `copy_to_lines`, `copy_from` and `copy_from_buffer`, in any interleaving and with any
outcomes.  Every connection has been given back exactly once, or is in the hands of a running
call, and `live_count_` is the number of idle connections plus those in hands, exactly when no
sink, line sink or source has thrown. -/
theorem settled_iff (cfg : Config) (n : Nat) (es : List (Nat × TaskEvent)) (s : System)
    (h : exec (systemStep cfg) (System.init n) es = some s) :
    Settled s ↔ Guarded (systemStep cfg) CallbacksReturn (System.init n) es := by
  have hrun := exec_iff_guarded (fun _ _ _ => inv_systemStep) (fun _ _ _ => settled_systemStep)
    (System.inv_init cfg n) h
  exact hrun.trans (and_iff_right (settled_init n))

theorem one_lt_sizeT : 1 < 2 ^ 64 := by decide

/-- A pool of one connection. -/
def onePool : Config := ⟨1, one_lt_sizeT, 1, true⟩

/-- A pooled statement that succeeds on a new connection. -/
def selectOne (finishReturns : QueryResult → Bool) : Call :=
  .run ⟨3, 200, by decide⟩ {} 0
    [{ idle := none, acquired := .ok idleLink
       script := .answered [.command 1]
       after := fun _ => .idle, applied := true, now := 0, slept := true }] finishReturns

/-- A COPY of one chunk into a sink. -/
def copyOne (sink : List (List Char) → Verdict) : Call :=
  .copyTo (.ok idleLink) ⟨true, "", .done, .copying .copyOut⟩
    [⟨[], .data 'x' ['\n']⟩, ⟨[], .done (some (.command 1)) .idle⟩] sink

/-- The steps of one task on its own. -/
def alone (es : List TaskEvent) : List (Nat × TaskEvent) := es.map fun e => (0, e)

/-- A statement whose `finish` throws, then a COPY whose sink gives up. -/
def throwingFinishRun : List (Nat × TaskEvent) :=
  alone
    [.start (selectOne fun _ => false), .go, .pool .tick, .go, .pool .tick, .pool .tick,
      .pool .tick, .pool (.connect true), .go, .go, .pool .tick, .pool (.usable true true),
      .pool .tick, .pool .tick, .go, .start (copyOne fun _ => .stop), .go, .pool .tick,
      .pool (.usable true true), .pool (.socket true), .go, .go, .pool .tick,
      .pool (.usable true true), .pool .tick, .pool (.usable true true), .pool .tick,
      .pool .tick, .go]

theorem settled_iff_throwingFinishRun :
    ∃ s, exec (systemStep onePool) (System.init 1) throwingFinishRun = some s ∧
      s.1.liveCount = 1 ∧ s.1.idle = [0] ∧ Settled s := by
  have hrun : (exec (systemStep onePool) (System.init 1) throwingFinishRun).any (fun s =>
      s.1.liveCount == 1 && s.1.idle == [0]) = true := by
    decide +kernel
  obtain ⟨s, hs, hcond⟩ := (Option.any_eq_true ..).mp hrun
  obtain ⟨hlive, hidle⟩ := Bool.and_eq_true_iff.mp hcond
  have hguard : Guarded (systemStep onePool) CallbacksReturn (System.init 1) throwingFinishRun := by
    decide +kernel
  exact ⟨s, hs, by simpa using hlive, by simpa using hidle,
    (settled_iff onePool 1 _ s hs).mpr hguard⟩

/-- A COPY whose sink throws; then the next statement waits for a connection. -/
def throwingSinkRun : List (Nat × TaskEvent) :=
  alone
    [.start (copyOne fun _ => .throws), .go, .pool .tick, .pool .tick, .pool .tick,
      .pool (.connect true), .go, .go, .start (selectOne fun _ => true), .go, .pool .tick, .go,
      .pool .tick, .pool .tick, .pool .tick]

/-- **A lost connection.**  No call is running a statement and nothing is idle, but
`live_count_` is at `max_pool_`, so the next call waits for ever. -/
theorem sink_exception_leaks :
    ∃ s, exec (systemStep onePool) (System.init 1) throwingSinkRun = some s ∧
      s.1.liveCount = onePool.maxPool ∧ s.1.idle = [] ∧ s.coros = [.parked] ∧ ¬Settled s := by
  have hrun : (exec (systemStep onePool) (System.init 1) throwingSinkRun).any (fun s =>
      s.1.liveCount == 1 && s.1.idle == [] && s.coros == [.parked]) = true := by
    decide +kernel
  obtain ⟨s, hs, hcond⟩ := (Option.any_eq_true ..).mp hrun
  simp only [Bool.and_eq_true, beq_iff_eq] at hcond
  obtain ⟨⟨hlive, hidle⟩, hcoros⟩ := hcond
  refine ⟨s, hs, hlive, hidle, hcoros, ?_⟩
  rintro ⟨-, hcount⟩
  rw [hlive, hidle, hcoros] at hcount
  exact absurd hcount (by decide)

end Upq.Pool
