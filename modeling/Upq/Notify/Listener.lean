/-
  Notify/Listener.lean --- `PgNotificationListener` over one connection.

  Source: `include/upq/PgNotificationListener.h`; `IoWait::await_ready` in
  `src/upq/PgConnection.cpp`.

  The listener has a connection to itself, and one call of `run()` at a time.  It sends one
  LISTEN, and then waits, reads and asks `PQnotifies` until there is no more.  Every call of
  libpq is a step here, and messages may come and `setHandler` be called between any two of
  them.

  libpq is a parameter (`Notifier`), with what its manual says of notifications as laws: none
  is lost in it, and between statements `PQnotifies` returns them in the order in which they
  were read.  The libpq of `Notify/Libpq.lean` is one (`pqNotifier`).

  Nothing is lost on the way and nothing handed out twice (`handed_once_in_order`), but what
  libpq reads together with the reply to the LISTEN is not asked for: the first wait looks at
  the kernel's buffer only.  `parked_over` says what the loop is parked over.
-/
import Upq.Foundation.Machine
import Upq.Notify.Ident
import Upq.Notify.Libpq

set_option autoImplicit false

namespace Upq.Notify.Listener

open Upq.Foundation Upq.Libpq
open Upq.Notify.Ident (quoteIdentStrict)

/-! ## libpq and its notifications -/

/-- The calls `run_query` makes besides `PQconsumeInput`. -/
inductive Call where
  | sendQuery
  | flush
  | isBusy
  | getResult
  deriving DecidableEq, Repr

/-- libpq: `noteOf` is the notification in a message, `notes` what has been read and not been
returned by `PQnotifies`, and `idle` says that `PQgetResult` has returned NULL. -/
structure Notifier (σ μ ν : Type) where
  noteOf : μ → Option ν
  call : σ → Call → σ
  consumeInput : σ → List μ → σ
  notifies : σ → Option ν × σ
  notes : σ → List ν
  idle : σ → Bool

/-- Nothing is lost, and between statements `PQnotifies` returns the next one. -/
structure Notifier.Laws {σ μ ν : Type} (N : Notifier σ μ ν) : Prop where
  call_notes : ∀ p k, N.notes (N.call p k) = N.notes p
  consume_notes : ∀ p ms, N.notes (N.consumeInput p ms) = N.notes p ++ ms.filterMap N.noteOf
  consume_idle : ∀ p ms, N.idle p = true → N.idle (N.consumeInput p ms) = true
  next_fst : ∀ p, N.idle p = true → (N.notifies p).1 = (N.notes p).head?
  next_snd : ∀ p, N.idle p = true → N.notes (N.notifies p).2 = (N.notes p).tail
  next_idle : ∀ p, N.idle p = true → N.idle (N.notifies p).2 = true

section

variable {ν : Type}

def pqNotifier : Notifier (Pq ν) (Msg ν) ν where
  noteOf
    | .note n => some n
    | _ => none
  call p
    | .sendQuery => { p with async := .busy }
    | .flush => p
    | .isBusy => p.isBusy.2
    | .getResult => p.getResult.2
  consumeInput := Pq.consumeInput
  notifies := Pq.notifies
  notes p := p.notes ++ notesOf p.inbuf
  idle p := decide (p.async = .idle)

theorem parse_notes (p : Pq ν) :
    p.parse.notes ++ notesOf p.parse.inbuf = p.notes ++ notesOf p.inbuf :=
  parseLoop_notes p.async p.inbuf p.notes

/-- In the idle state everything is parsed. -/
theorem parse_idle {p : Pq ν} (h : p.async = .idle) :
    p.parse = ⟨.idle, [], p.notes ++ notesOf p.inbuf⟩ := by
  have hloop : ∀ (ms : List (Msg ν)) (q : List ν),
      parseLoop .idle ms q = ⟨.idle, [], q ++ notesOf ms⟩ := by
    intro ms
    induction ms with
    | nil => simp [parseLoop]
    | cons m ms ih =>
        intro q
        cases m <;> simp [parseLoop, ih]
  rw [Pq.parse, h, hloop]

theorem pqNotifier_laws : (pqNotifier (ν := ν)).Laws where
  call_notes p k := by
    cases k with
    | sendQuery | flush => rfl
    | isBusy => exact parse_notes p
    | getResult =>
        refine Eq.trans ?_ (parse_notes p)
        simp only [pqNotifier, Pq.getResult]
        split <;> rfl
  consume_notes p ms := by
    have hsame : notesOf ms = ms.filterMap (pqNotifier (ν := ν)).noteOf :=
      List.filterMap_congr fun m _ => by cases m <;> rfl
    rw [← hsame]
    simp [pqNotifier, Pq.consumeInput]
  consume_idle p ms h := h
  next_fst p h := by
    simp only [pqNotifier, Pq.notifies, parse_idle (of_decide_eq_true h)]
    cases p.notes ++ notesOf p.inbuf <;> rfl
  next_snd p h := by
    simp only [pqNotifier, Pq.notifies, parse_idle (of_decide_eq_true h)]
    cases p.notes ++ notesOf p.inbuf <;> simp
  next_idle p h := by
    simp only [pqNotifier, Pq.notifies, parse_idle (of_decide_eq_true h)]
    cases p.notes ++ notesOf p.inbuf <;> rfl

end

/-! ## The listener -/

/-- Where `run()` is: not called, in `exec_simple_query_nonblocking`, before, in and after
`wait_readable_for_listener`, in the sleep after a failed read, in the loop over `PQnotifies`,
or returned. -/
inductive Place where
  | idle
  | listening
  | wait
  | parked
  | consume
  | sleeping
  | fetch
  | finished
  deriving DecidableEq, Repr

/-- In the loop behind the LISTEN. -/
def Place.looping : Place → Bool
  | .idle | .listening | .finished => false
  | _ => true

/-- The LISTEN is over. -/
def Place.behind : Place → Bool
  | .idle | .listening => false
  | _ => true

/-- The listener, its connection and the messages in the kernel's buffer.  `handler` stands for
`handler_` and `has_handler_`; `given` is what `PQnotifies` has returned, each with the copy
of the handler that `co_spawn` runs on it, if there is one. -/
structure State (σ μ ν η : Type) where
  channel : List Char
  handler : Option η
  pq : σ
  sock : List μ
  place : Place
  given : List (Option η × ν)

/-- What the first call of libpq after a wait comes to: `raw_conn()` is null, `PQconsumeInput`
fails and the connection is bad or not, or it reads the first messages. -/
inductive Consumed where
  | gone
  | failed (bad : Bool)
  | read (n : Nat)
  deriving DecidableEq, Repr

/-- What `await_ready` finds: data, an end or an error, or a HUP seen before; nothing to read;
or that its `recv` was interrupted. -/
inductive Peek where
  | ready
  | wouldBlock
  | interrupted
  deriving DecidableEq, Repr

/-- `call` and `listenRead` are the calls of libpq the LISTEN makes, `listened` its end. -/
inductive Event (μ η : Type) where
  | setHandler (h : η)
  | run (connected : Bool)
  | call (k : Call)
  | listenRead (n : Nat)
  | listened (ok : Bool)
  | wait (peek : Peek)
  | wake
  | consume (result : Consumed)
  | slept (canceled : Bool)
  | notifies
  -- the network
  | arrive (m : μ)

section

variable {σ μ ν η : Type} (N : Notifier σ μ ν)

/-- `PQconsumeInput` reads the first `n` messages. -/
def State.read (s : State σ μ ν η) (n : Nat) : State σ μ ν η :=
  { s with pq := N.consumeInput s.pq (s.sock.take n), sock := s.sock.drop n }

/-- One turn of the loop over `PQnotifies`, with `dispatch_async`. -/
def State.notifies (s : State σ μ ν η) : State σ μ ν η :=
  match N.notifies s.pq with
  | (none, pq) => { s with pq, place := .wait }
  | (some n, pq) => { s with pq, given := s.given ++ [(s.handler, n)] }

def step (s : State σ μ ν η) : Event μ η → Option (State σ μ ν η)
  | .setHandler h => some { s with handler := some h }
  | .run connected =>
      if s.place = .idle ∨ s.place = .finished then
        some { s with place :=
          if connected ∧ (quoteIdentStrict s.channel).isSome then .listening else .finished }
      else none
  | .call k => if s.place = .listening then some { s with pq := N.call s.pq k } else none
  | .listenRead n => if s.place = .listening then some (s.read N n) else none
  | .listened ok =>
      -- a statement that succeeds has been read up to the NULL
      if s.place = .listening ∧ (ok → N.idle s.pq) then
        some { s with place := if ok then .wait else .finished }
      else none
  | .wait peek =>
      -- it is the kernel's buffer that is looked at, not libpq's
      if s.place = .wait ∧ (peek = .wouldBlock → s.sock.isEmpty) then
        some { s with place := if peek = .ready then .consume else .parked }
      else none
  | .wake => if s.place = .parked then some { s with place := .consume } else none
  | .consume result =>
      if s.place = .consume then
        match result with
        | .gone => some { s with place := .finished }
        | .failed bad => some { s with place := if bad then .finished else .sleeping }
        | .read n => some { s.read N n with place := .fetch }
      else none
  | .slept canceled =>
      if s.place = .sleeping then some { s with place := if canceled then .finished else .wait }
      else none
  | .notifies => if s.place = .fetch then some (s.notifies N) else none
  | .arrive m => some { s with sock := s.sock ++ [m] }

/-- A listener as constructed, on a connection between statements. -/
def start (channel : List Char) (handler : Option η) (pq : σ) : State σ μ ν η :=
  ⟨channel, handler, pq, [], .idle, []⟩

/-- The notification that comes with an event. -/
def Event.noted : Event μ η → List ν
  | .arrive m => (N.noteOf m).toList
  | _ => []

def Event.setsHandler : Event μ η → Bool
  | .setHandler _ => true
  | _ => false

def Event.isRun : Event μ η → Bool
  | .run _ => true
  | _ => false

/-- `PQconsumeInput` in the loop. -/
def Event.isRead : Event μ η → Bool
  | .consume (.read _) => true
  | _ => false

/-! ## What a step does -/

/-- What the steps do to the notifications. -/
inductive Moved (s : State σ μ ν η) : Event μ η → State σ μ ν η → Prop where
  | still {e s'} (hpq : s'.pq = s.pq) (hsock : s'.sock = s.sock) (hgiven : s'.given = s.given)
      (hhandler : e.setsHandler = false → s'.handler = s.handler)
      (hnoted : e.noted N = []) (hread : e.isRead = false)
      (hplace : s'.place = s.place ∨ s'.place ≠ .fetch ∧ s.place ≠ .fetch)
      (hloop : s'.place.looping = true → s.place.looping = true ∨ N.idle s.pq = true)
      (hback : e.isRun = false → s.place.behind = true → s'.place.behind = true) :
      Moved s e s'
  | called (k) (h : s.place = .listening) : Moved s (.call k) { s with pq := N.call s.pq k }
  | listenRead (n) (h : s.place = .listening) : Moved s (.listenRead n) (s.read N n)
  | read (n) (h : s.place = .consume) :
      Moved s (.consume (.read n)) { s.read N n with place := .fetch }
  | notifies (h : s.place = .fetch) : Moved s .notifies (s.notifies N)
  | arrive (m) : Moved s (.arrive m) { s with sock := s.sock ++ [m] }

variable {N} {s s' : State σ μ ν η}

/-- A step that only changes the place. -/
theorem moved_place {e : Event μ η} {place : Place} (hnoted : e.noted N = [])
    (hread : e.isRead = false) (hnew : place ≠ .fetch) (hold : s.place ≠ .fetch)
    (hloop : place.looping = true → s.place.looping = true ∨ N.idle s.pq = true)
    (hback : e.isRun = false → s.place.behind = true → place.behind = true) :
    Moved N s e { s with place } :=
  .still rfl rfl rfl (fun _ => rfl) hnoted hread (.inr ⟨hnew, hold⟩) hloop hback

theorem moved_of_step {e : Event μ η} (h : step N s e = some s') : Moved N s e s' := by
  cases e with
  | setHandler f =>
      cases h
      exact .still rfl rfl rfl (fun hset => absurd hset (by simp [Event.setsHandler])) rfl rfl
        (.inl rfl) .inl fun _ => id
  | run connected =>
      obtain ⟨hat, h⟩ := Option.ite_none_right_eq_some.mp h
      cases h
      have hold : s.place ≠ .fetch := by rcases hat with hat | hat <;> rw [hat] <;> decide
      refine moved_place rfl rfl ?_ hold ?_ fun hrun => ?_
      · split <;> decide
      · split <;> simp [Place.looping]
      · cases hrun
  | call k =>
      obtain ⟨hat, h⟩ := Option.ite_none_right_eq_some.mp h
      cases h
      exact .called k hat
  | listenRead n =>
      obtain ⟨hat, h⟩ := Option.ite_none_right_eq_some.mp h
      cases h
      exact .listenRead n hat
  | listened ok =>
      obtain ⟨⟨hat, hidle⟩, h⟩ := Option.ite_none_right_eq_some.mp h
      cases h
      refine moved_place rfl rfl ?_ ?_ ?_ ?_ <;> cases ok <;> simp_all [Place.looping, Place.behind]
  | wait peek =>
      obtain ⟨⟨hat, -⟩, h⟩ := Option.ite_none_right_eq_some.mp h
      cases h
      refine moved_place rfl rfl ?_ ?_ ?_ ?_ <;> cases peek <;>
        simp [hat, Place.looping, Place.behind]
  | wake =>
      obtain ⟨hat, h⟩ := Option.ite_none_right_eq_some.mp h
      cases h
      refine moved_place rfl rfl ?_ ?_ ?_ ?_ <;> simp [hat, Place.looping, Place.behind]
  | consume result =>
      obtain ⟨hat, h⟩ := Option.ite_none_right_eq_some.mp h
      cases result with
      | gone =>
          cases h
          refine moved_place rfl rfl ?_ ?_ ?_ ?_ <;> simp [hat, Place.looping, Place.behind]
      | failed bad =>
          cases h
          refine moved_place rfl rfl ?_ ?_ ?_ ?_ <;> cases bad <;>
            simp [hat, Place.looping, Place.behind]
      | read n =>
          cases h
          exact .read n hat
  | slept canceled =>
      obtain ⟨hat, h⟩ := Option.ite_none_right_eq_some.mp h
      cases h
      refine moved_place rfl rfl ?_ ?_ ?_ ?_ <;> cases canceled <;>
        simp [hat, Place.looping, Place.behind]
  | notifies =>
      obtain ⟨hat, h⟩ := Option.ite_none_right_eq_some.mp h
      cases h
      exact .notifies hat
  | arrive m =>
      cases h
      exact .arrive m

/-! ## Nothing is lost -/

/-- Every notification, from the ones handed out to those still in the kernel. -/
def State.history (N : Notifier σ μ ν) (s : State σ μ ν η) : List ν :=
  s.given.map Prod.snd ++ N.notes s.pq ++ s.sock.filterMap N.noteOf

/-- In the loop no statement is open. -/
def Quiet (N : Notifier σ μ ν) (s : State σ μ ν η) : Prop :=
  s.place.looping = true → N.idle s.pq = true

/-- `PQnotifies` has nothing: back to the wait. -/
theorem notifies_nil (hlaws : N.Laws) (hidle : N.idle s.pq = true) (h : N.notes s.pq = []) :
    ∃ pq, s.notifies N = { s with pq, place := .wait } ∧ N.notes pq = [] ∧ N.idle pq = true := by
  have hfst := hlaws.next_fst s.pq hidle
  have hsnd := hlaws.next_snd s.pq hidle
  have hkept := hlaws.next_idle s.pq hidle
  rcases hnext : N.notifies s.pq with ⟨_ | n, pq⟩ <;> simp_all [State.notifies]

/-- `PQnotifies` returns the first one. -/
theorem notifies_cons {n : ν} {ns : List ν} (hlaws : N.Laws) (hidle : N.idle s.pq = true)
    (h : N.notes s.pq = n :: ns) :
    ∃ pq, s.notifies N = { s with pq, given := s.given ++ [(s.handler, n)] } ∧
      N.notes pq = ns ∧ N.idle pq = true := by
  have hfst := hlaws.next_fst s.pq hidle
  have hsnd := hlaws.next_snd s.pq hidle
  have hkept := hlaws.next_idle s.pq hidle
  rcases hnext : N.notifies s.pq with ⟨_ | n, pq⟩ <;> simp_all [State.notifies]

theorem quiet_step {e : Event μ η} (hlaws : N.Laws) (h : Quiet N s)
    (hstep : step N s e = some s') : Quiet N s' := by
  cases moved_of_step hstep with
  | still hpq _ _ _ _ _ _ hloop _ =>
      intro hin
      rw [hpq]
      exact (hloop hin).elim h id
  | called k hat | listenRead n hat =>
      intro hin
      simp [State.read, hat, Place.looping] at hin
  | read n hat => exact fun _ => hlaws.consume_idle _ _ (h (by rw [hat]; rfl))
  | notifies hat =>
      have hidle : N.idle s.pq = true := h (by rw [hat]; rfl)
      intro _
      cases hnotes : N.notes s.pq with
      | nil =>
          obtain ⟨pq, hnext, -, hkept⟩ := notifies_nil hlaws hidle hnotes
          rw [hnext]
          exact hkept
      | cons n ns =>
          obtain ⟨pq, hnext, -, hkept⟩ := notifies_cons hlaws hidle hnotes
          rw [hnext]
          exact hkept
  | arrive m => exact h

theorem history_read (hlaws : N.Laws) (s : State σ μ ν η) (n : Nat) :
    (s.read N n).history N = s.history N := by
  simp only [State.history, State.read, hlaws.consume_notes, List.append_assoc]
  rw [← List.filterMap_append, List.take_append_drop]

theorem history_notifies (hlaws : N.Laws) (hidle : N.idle s.pq = true) :
    (s.notifies N).history N = s.history N := by
  cases hnotes : N.notes s.pq with
  | nil =>
      obtain ⟨pq, hnext, hleft, -⟩ := notifies_nil hlaws hidle hnotes
      simp [hnext, State.history, hleft, hnotes]
  | cons n ns =>
      obtain ⟨pq, hnext, hleft, -⟩ := notifies_cons hlaws hidle hnotes
      simp [hnext, State.history, hleft, hnotes]

theorem history_step {e : Event μ η} (hlaws : N.Laws) (h : Quiet N s)
    (hstep : step N s e = some s') :
    s'.history N = s.history N ++ e.noted N := by
  cases moved_of_step hstep with
  | still hpq hsock hgiven _ hnoted _ _ _ _ =>
      rw [State.history, hpq, hsock, hgiven, hnoted, List.append_nil, State.history]
  | called k _ => simp [State.history, hlaws.call_notes, Event.noted]
  | listenRead n _ | read n _ => exact (history_read hlaws s n).trans (List.append_nil _).symm
  | notifies hat =>
      exact (history_notifies hlaws (h (by rw [hat]; rfl))).trans (List.append_nil _).symm
  | arrive m => cases hnote : N.noteOf m <;> simp [State.history, Event.noted, hnote]

/-- What has been handed out went to `handler`, and so will the next. -/
def HandedTo (handler : Option η) (s : State σ μ ν η) : Prop :=
  s.handler = handler ∧ ∀ g ∈ s.given, g.1 = handler

theorem handedTo_step {handler : Option η} {e : Event μ η} (h : HandedTo handler s)
    (hset : e.setsHandler = false) (hstep : step N s e = some s') : HandedTo handler s' := by
  cases moved_of_step hstep with
  | still _ _ hgiven hhandler _ _ _ _ _ =>
      rw [HandedTo, hgiven, hhandler hset]
      exact h
  | called | listenRead | read | arrive => exact h
  | notifies _ =>
      rw [State.notifies]
      split
      · exact h
      · refine ⟨h.1, fun g hg => ?_⟩
        rcases List.mem_append.mp hg with hold | hnew
        · exact h.2 g hold
        · rw [List.mem_singleton.mp hnew]
          exact h.1

/-- **Handed out once and in order.**  What `PQnotifies` has returned to the loop, what libpq
holds and what the kernel holds are together the notifications that libpq held at the start
and those that have come since, in their order; and unless `setHandler` is called meanwhile
they all go to the handler there was at the start. -/
theorem handed_once_in_order {channel : List Char} {handler : Option η} {pq : σ}
    {es : List (Event μ η)} (hlaws : N.Laws)
    (h : exec (step N) (start channel handler pq) es = some s) :
    s.given.map Prod.snd ++ N.notes s.pq ++ s.sock.filterMap N.noteOf =
        N.notes pq ++ es.flatMap (Event.noted N) ∧
      ((∀ e ∈ es, e.setsHandler = false) → ∀ g ∈ s.given, g.1 = handler) := by
  refine ⟨?_, fun hset => ?_⟩
  · have hall := exec_appends (Quiet N) (State.history N) (Event.noted N)
      (fun _ _ _ hq hstep => quiet_step hlaws hq hstep)
      (fun _ _ _ hq hstep => history_step hlaws hq hstep)
      (by simp [Quiet, start, Place.looping]) h
    simpa [State.history, start] using hall
  · exact (exec_invariant_of_guarded (HandedTo handler)
      (fun _ _ _ hto hset hstep => handedTo_step hto hset hstep) es _ s
      ⟨rfl, by simp [start]⟩ (guarded_of_forall hset _) h).2

end

/-- The LISTEN and its reply, with `notes` read together with it. -/
def listenRun (notes : List Nat) : List (Event (Msg Nat) Nat) :=
  [.run true, .call .sendQuery, .arrive .complete, .arrive .ready] ++
    notes.map (fun n => .arrive (.note n)) ++
    [.listenRead (notes.length + 2), .call .isBusy, .call .getResult, .call .isBusy,
      .call .getResult]

/-- Two notifications after the LISTEN, of which the first has been read and handed out. -/
def handedRun : List (Event (Msg Nat) Nat) :=
  listenRun [] ++ [.listened true, .arrive (.note 7), .arrive (.note 8), .wait .ready,
    .consume (.read 1), .notifies, .notifies]

theorem handed_once_in_order_two :
    ∃ s, exec (step pqNotifier) (start ['j'] (some 0) ⟨.idle, [], []⟩) handedRun = some s ∧
      s.given = [(some 0, 7)] ∧
      s.given.map Prod.snd ++ pqNotifier.notes s.pq ++ s.sock.filterMap pqNotifier.noteOf =
        [7, 8] := by
  have hrun : (exec (step pqNotifier) (start ['j'] (some 0) ⟨.idle, [], []⟩) handedRun).map
      (fun s => s.given) = some [(some 0, 7)] := by decide
  obtain ⟨s, hs, hgiven⟩ := Option.map_eq_some_iff.mp hrun
  exact ⟨s, hs, hgiven, (handed_once_in_order pqNotifier_laws hs).1⟩

/-! ## What the loop is parked over -/

section

variable {σ μ ν η : Type} {N : Notifier σ μ ν} {s s' : State σ μ ν η}

/-- Behind the LISTEN: `read` says whether the loop has read since, `held` is what libpq held
at the end of the LISTEN. -/
structure Behind (N : Notifier σ μ ν) (held : List ν) (read : Bool) (s : State σ μ ν η) :
    Prop where
  inside : s.place.behind = true
  quiet : Quiet N s
  fetching : s.place = .fetch → read = true
  notes : s.place ≠ .fetch → N.notes s.pq = if read then [] else held

theorem behind_step {held : List ν} {read : Bool} {e : Event μ η} (hlaws : N.Laws)
    (h : Behind N held read s) (hone : e.isRun = false) (hstep : step N s e = some s') :
    Behind N held (read || e.isRead) s' := by
  have hquiet := quiet_step hlaws h.quiet hstep
  cases moved_of_step hstep with
  | still hpq _ _ _ _ hread hplace _ hback =>
      rw [hread, Bool.or_false]
      rcases hplace with hsame | ⟨hnew, hold⟩
      · refine ⟨hsame ▸ h.inside, hquiet, hsame ▸ h.fetching, ?_⟩
        rw [hpq, hsame]
        exact h.notes
      · exact ⟨hback hone h.inside, hquiet, fun hat => absurd hat hnew, fun _ => hpq ▸ h.notes hold⟩
  | called k hat | listenRead n hat =>
      have hin := h.inside
      simp [hat, Place.behind] at hin
  | read n _ =>
      exact ⟨rfl, hquiet, fun _ => Bool.or_true _, fun hat => absurd rfl hat⟩
  | notifies hat =>
      have hread : (read || false) = true := by rw [h.fetching hat]; rfl
      have hidle : N.idle s.pq = true := h.quiet (by rw [hat]; rfl)
      cases hnotes : N.notes s.pq with
      | nil =>
          obtain ⟨pq, hnext, hleft, -⟩ := notifies_nil hlaws hidle hnotes
          rw [hnext] at hquiet ⊢
          exact ⟨rfl, hquiet, fun _ => hread, fun _ => hleft.trans (if_pos hread).symm⟩
      | cons n ns =>
          obtain ⟨pq, hnext, -, -⟩ := notifies_cons hlaws hidle hnotes
          rw [hnext] at hquiet ⊢
          exact ⟨h.inside, hquiet, fun _ => hread, fun hne => absurd hat hne⟩
  | arrive m =>
      have hsame : (read || false) = read := Bool.or_false read
      exact hsame.symm ▸ ⟨h.inside, hquiet, h.fetching, h.notes⟩

theorem behind_exec {held : List ν} {read : Bool} {es : List (Event μ η)} (hlaws : N.Laws)
    (h : Behind N held read s) (hone : ∀ e ∈ es, e.isRun = false)
    (hrun : exec (step N) s es = some s') : Behind N held (read || es.any Event.isRead) s' := by
  induction es generalizing s read with
  | nil =>
      cases hrun
      simpa using h
  | cons e es ih =>
      obtain ⟨t, hstep, hrest⟩ := exec_cons_eq_some.mp hrun
      have hnext := ih (behind_step hlaws h (hone e List.mem_cons_self) hstep)
        (fun d hd => hone d (List.mem_cons_of_mem e hd)) hrest
      rwa [Bool.or_assoc] at hnext

/-- **What the loop is parked over.**  Where a call of `run()` is parked it has left nothing in
libpq if it has read anything since its LISTEN.  Until then everything libpq had read together
with the reply is still there, and only a further message makes the loop ask for it. -/
theorem parked_over {es : List (Event μ η)} (hlaws : N.Laws) (hone : ∀ e ∈ es, e.isRun = false)
    (hrun : exec (step N) s (.listened true :: es) = some s') (hparked : s'.place = .parked) :
    N.notes s'.pq = if es.any Event.isRead then [] else N.notes s.pq := by
  obtain ⟨t, hstep, hrest⟩ := exec_cons_eq_some.mp hrun
  obtain ⟨⟨hat, hidle⟩, ht⟩ := Option.ite_none_right_eq_some.mp hstep
  cases ht
  have hstart : Behind N (N.notes s.pq) false { s with place := .wait } :=
    ⟨rfl, fun _ => hidle rfl, by simp, fun _ => rfl⟩
  have hbehind := behind_exec hlaws hstart hone hrest
  have hnotes := hbehind.notes (by rw [hparked]; simp)
  rwa [Bool.false_or] at hnotes

end

/-- A notification that comes with the reply to the LISTEN. -/
theorem parked_over_one :
    ∃ s s', exec (step pqNotifier) (start ['j'] (some 0) ⟨.idle, [], []⟩) (listenRun [7]) =
        some s ∧
      exec (step pqNotifier) s [.listened true, .wait .wouldBlock] = some s' ∧ s'.place = .parked ∧
      s'.given = [] ∧ pqNotifier.notes s'.pq = [7] := by
  have hrun : ((exec (step pqNotifier) (start ['j'] (some 0) ⟨.idle, [], []⟩) (listenRun [7])).bind
      fun s => (exec (step pqNotifier) s [.listened true, .wait .wouldBlock]).map
        fun s' => (pqNotifier.notes s.pq, s'.place, s'.given)) = some ([7], .parked, []) := by
    decide
  obtain ⟨s, hs, hrest⟩ := Option.bind_eq_some_iff.mp hrun
  obtain ⟨s', hs', hend⟩ := Option.map_eq_some_iff.mp hrest
  simp only [Prod.mk.injEq] at hend
  obtain ⟨hheld, hplace, hgiven⟩ := hend
  refine ⟨s, s', hs, hs', hplace, hgiven, ?_⟩
  rw [parked_over pqNotifier_laws (by simp [Event.isRun]) hs' hplace]
  exact hheld

end Upq.Notify.Listener
