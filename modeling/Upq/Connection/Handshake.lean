/-
  Connection/Handshake.lean --- the sockets of a connection, from connect to close.

  Source: `src/upq/PgConnection.cpp`, `connect_async` behind its preparation of the
  connection string, `connect_deadline_timer`, `watch_socket`, `close` and the descriptor
  handling of `abort_io_from_watchdog`; `PgConnectionLibpq::IoWait` for handshake waits;
  `ConnectDeadline` in `include/upq/PgConnection.h`.

  Five parties share the descriptor numbers of the process: libpq, which may close its
  socket and open another one whenever it runs; the poller of the event loop, which
  watches a dup and closes that dup some time after a HUP or a teardown, on whichever
  worker it likes; the deadline timer of every connect ever started, a detached coroutine
  that knows a number; the pool's watchdog; and everybody else.  A system call is a step,
  so a number that is closed may be taken by anybody before the next one.  Descriptors are
  those of `Foundation/Descriptors.lean`.

  The mutex of `ConnectDeadline` is held from the look at `fired` to the end of
  `PQconnectPoll`: in the places `polling` of the handshake no section of its timer runs.
  `close_mtx_` is held by `close()` and by `abort_io_from_watchdog`; libpq does not take
  it.

  `hits` records whose descriptor every close(2) and shutdown(2) of the connection met.
  `Stepped` says once what a step can be; the invariants are read off it.
-/
import Upq.Foundation.Descriptors

set_option autoImplicit false

namespace Upq.Handshake

open Upq.Foundation

/-! ## State -/

/-- Who opened a descriptor: libpq for a connect, the poller, somebody else. -/
inductive Owner where
  | libpq (attempt : Nat)
  | poller
  | other
  deriving DecidableEq, Repr

/-- Who closes a descriptor or shuts it down for the connection. -/
inductive Party where
  | libpq (attempt : Nat)
  | poller
  | timer (attempt : Nat)
  | watchdog (attempt : Nat)
  deriving DecidableEq, Repr

/-- The owner of the descriptors a party has to do with. -/
def Party.owner : Party → Owner
  | .libpq k | .timer k | .watchdog k => .libpq k
  | .poller => .poller

/-- One close(2) or shutdown(2), and whose descriptor the number named. -/
structure Hit where
  party : Party
  found : Option Owner
  deriving DecidableEq, Repr

/-- The descriptor was the party's own. -/
def Hit.Own (h : Hit) : Prop := h.found = some h.party.owner

instance (h : Hit) : Decidable h.Own := inferInstanceAs (Decidable (_ = _))

/-- `ConnectDeadline`.  `slept` says that the timer has come to its end, `polled` that
`PQconnectPoll` has reported the handshake complete. -/
structure ConnectDeadline where
  fd : Option Nat
  done : Bool
  fired : Bool
  slept : Bool
  polled : Bool
  deriving DecidableEq, Repr

/-- What a `watch_socket` that succeeds leads to: the wait for the direction libpq asked
for, or the end of `connect_async`. -/
inductive Next where
  | wait (reading : Bool)
  | connected
  deriving DecidableEq, Repr

/-- Where `connect_async` or `close` is.  `starting` is from `PQconnectStart` to
`PQsetnonblocking`, `register` inside `watch_socket` once the old registration is gone,
`leave` behind the loop, `failing` and `finishing` in the lambda `fail`. -/
inductive Place where
  | outside
  | starting
  | watch (next : Next)
  | register (next : Next) (fd ino : Nat)
  | wait (reading : Bool)
  | parked (reading : Bool)
  | woken
  | polling
  | leave (err : Option String)
  | failing (err : String)
  | finishing (err : String)
  | closeFinish
  | closeReset
  deriving DecidableEq, Repr

/-- Behind the loop of `connect_async`. -/
def Place.afterLoop : Option String → Place
  | some err => .failing err
  | none => .watch .connected

/-- A wait ends. -/
def Place.roused : Place → Place
  | .parked _ => .woken
  | place => place

/-- The process and one `PgConnectionLibpq`.  `shut` lists the sockets that were shut down;
`attempt` counts the connects; `conn` is `conn_ != nullptr` and `pqSocket` is what `PQsocket`
answers; `sock` is `sock_`, which has no descriptor any more after a HUP; `closing` are the
dups that the poller has still to close; `abort` is the watchdog between `PQsocket` and
shutdown(2); `verdicts` records what each connect returned. -/
structure State where
  files : Files Owner
  shut : List Nat
  hits : List Hit
  attempt : Nat
  conn : Bool
  connected : Bool
  pqSocket : Option Nat
  sock : Option (Option Nat)
  closing : List Nat
  watchedFd : Option Nat
  watchedIno : Nat
  deadlines : Nat → Option ConnectDeadline
  place : Place
  abort : Option (Option Nat)
  verdicts : List (Nat × Option String)

/-- A new connection object in a process that has no socket open. -/
def State.init : State :=
  { files := .empty, shut := [], hits := [], attempt := 0, conn := false, connected := false
    pqSocket := none, sock := none, closing := [], watchedFd := none, watchedIno := 0
    deadlines := fun _ => none, place := .outside, abort := none, verdicts := [] }

/-! ## System calls of the parties -/

/-- close(2) -/
def State.closeFd (s : State) (party : Party) (fd : Nat) : State :=
  { s with files := s.files.close fd, hits := s.hits ++ [⟨party, s.files.ownerAt fd⟩] }

/-- shutdown(2) -/
def State.shutdownFd (s : State) (party : Party) (fd : Nat) : State :=
  { s with
    shut := s.shut ++ ((s.files.entryAt fd).map Entry.sock).toList
    hits := s.hits ++ [⟨party, s.files.ownerAt fd⟩] }

/-- libpq closes its socket. -/
def State.pqClose (s : State) : State :=
  match s.pqSocket with
  | none => s
  | some fd => { s.closeFd (.libpq s.attempt) fd with pqSocket := none }

/-- `PQfinish(conn_); conn_ = nullptr` -/
def State.pqFinish (s : State) : State := { s.pqClose with conn := false }

/-- The poller is left with a descriptor to close. -/
def State.letGo (s : State) : State := { s with closing := s.sock.join.toList ++ s.closing }

/-- `sock_.reset()` -/
def State.resetSock (s : State) : State := { s.letGo with sock := none }

/-! ## `connect_async` -/

/-- What `PQconnectStart`, `PQstatus` and `PQsetnonblocking` answered. -/
inductive Started where
  | null
  | bad (msg : String)
  | blocking
  | ok
  deriving DecidableEq, Repr

/-- What `PQconnectPoll` answered. -/
inductive Polled where
  | reading
  | writing
  | ok
  | failed (msg : String)
  deriving DecidableEq, Repr

/-- `connect_async` returns. -/
def State.ret (s : State) (err : Option String) : State :=
  { s with place := .outside, verdicts := s.verdicts ++ [(s.attempt, err)] }

/-- `watch_socket` returned true. -/
def State.watched (s : State) : Next → State
  | .wait reading => { s with place := .wait reading }
  | .connected => { s with connected := true }.ret none

/-- `watch_socket` returned false. -/
def State.unwatched (s : State) : Next → State
  | .wait _ => { s with place := .leave (some "PQsocket < 0") }
  | .connected => { s with place := .failing "PQsocket < 0" }

/-- `watch_socket` up to the point where it has to register anew. -/
def State.watchSocket (s : State) (next : Next) : State :=
  match s.pqSocket with
  | none => s.unwatched next
  | some fd =>
      match s.files.entryAt fd with
      | none => s.unwatched next
      | some e =>
          if s.sock.isSome ∧ s.watchedFd = some fd ∧ s.watchedIno = e.ino then s.watched next
          else { s.resetSock with place := .register next fd e.ino }

/-- The rest of `watch_socket`: fcntl(2) answered `own`. -/
def State.register (s : State) (next : Next) (fd ino : Nat) (own : Option Nat) : Option State :=
  match own with
  | none => some (s.unwatched next)
  | some own =>
      match s.files.dup fd own .poller with
      | none => none
      | some files =>
          some (State.watched
            { s with files, sock := some (some own), watchedFd := some fd, watchedIno := ino } next)

/-- Change the deadline of connect `k`. -/
def State.setDeadline (s : State) (k : Nat) (d : ConnectDeadline) : State :=
  { s with deadlines := Function.update s.deadlines k (some d) }

/-- The section of `connect_deadline_timer`. -/
def State.expire (s : State) (k : Nat) (d : ConnectDeadline) : State :=
  if d.done then s.setDeadline k { d with slept := true }
  else
    let s := s.setDeadline k { d with slept := true, fired := true }
    match d.fd with
    | none => s
    | some fd => s.shutdownFd (.timer k) fd

/-- What became of the poll, for the loop. -/
def Polled.place : Polled → Place
  | .reading => .watch (.wait true)
  | .writing => .watch (.wait false)
  | .ok => .leave none
  | .failed msg => .leave (some msg)

/-! ## Steps -/

inductive Event where
  -- connect_async
  | connectStart
  | started (r : Started)
  | watch
  | register (own : Option Nat)
  | ready (now : Bool)
  | wake
  | enter (canceled : Bool) (elapsed : Nat)
  | polled (r : Polled)
  | finish
  | failReset
  | failFinish
  -- libpq
  | pqOpen (fd ino : Nat)
  | pqDrop
  -- the poller
  | hup
  | pollerClose (fd : Nat)
  -- the timer of connect `k`
  | timer (k : Nat)
  | timerCanceled (k : Nat)
  -- close
  | close
  | closeFinish
  | closeReset
  -- abort_io_from_watchdog
  | abortRead
  | abortShut
  -- everybody else
  | otherOpen (fd ino : Nat)
  | otherDup (fd fd' : Nat)
  | otherClose (fd : Nat)
  deriving DecidableEq, Repr

/-- libpq is running: in a call of `connect_async`, or of a statement once connected. -/
def State.inLibpq (s : State) : Bool :=
  match s.place with
  | .starting | .polling => true
  | _ => false

def step (s : State) : Event → Option State
  | .connectStart =>
      if s.place = .outside ∧ s.conn = false then
        some { s with attempt := s.attempt + 1, conn := true, place := .starting }
      else none
  | .started r =>
      if s.place = .starting then
        match r with
        | .null =>
            if s.pqSocket = none then
              some ({ s with conn := false }.ret (some "PQconnectStart failed"))
            else none
        | .bad msg => some { s with place := .failing msg }
        | .blocking => some { s with place := .failing "PQsetnonblocking failed" }
        | .ok =>
            some { s.setDeadline s.attempt ⟨s.pqSocket, false, false, false, false⟩ with
              place := .watch (.wait false) }
      else none
  | .watch =>
      match s.place with
      | .watch next => some (s.watchSocket next)
      | _ => none
  | .register own =>
      match s.place with
      | .register next fd ino => s.register next fd ino own
      | _ => none
  | .ready now =>
      match s.place with
      | .wait reading =>
          -- without a descriptor `await_ready` answers true
          if now then some { s with place := .woken }
          else if s.sock = some none then none
          else some { s with place := .parked reading }
      | _ => none
  | .wake =>
      match s.place with
      | .parked _ => some { s with place := .woken }
      | _ => none
  | .enter canceled elapsed =>
      if s.place = .woken then
        if canceled then some { s with place := .leave (some "connect canceled") }
        else
          match s.deadlines s.attempt with
          | none => none
          | some d =>
              if d.fired then
                some { s with
                  place := .leave (some ("connect timeout after " ++ toString elapsed ++ " ms")) }
              else some { s with place := .polling }
      else none
  | .polled r =>
      if s.place = .polling then
        match s.deadlines s.attempt with
        | none => none
        | some d =>
            some { s.setDeadline s.attempt { d with fd := s.pqSocket, polled := r = .ok } with
              place := r.place }
      else none
  | .finish =>
      match s.place with
      | .leave err =>
          match s.deadlines s.attempt with
          | none => none
          | some d =>
              some { s.setDeadline s.attempt { d with done := true, fd := none } with
                place := .afterLoop err }
      | _ => none
  | .failReset =>
      match s.place with
      | .failing err => some { s.resetSock with place := .finishing err }
      | _ => none
  | .failFinish =>
      match s.place with
      | .finishing err => some ({ s.pqFinish with connected := false }.ret (some err))
      | _ => none
  | .pqOpen fd ino =>
      if s.inLibpq ∧ s.pqSocket = none then
        (s.files.socket fd ino (.libpq s.attempt)).map fun files =>
          { s with files, pqSocket := some fd }
      else none
  | .pqDrop =>
      if s.inLibpq ∨ (s.place = .outside ∧ s.connected) then some s.pqClose else none
  | .hup =>
      match s.sock with
      | some (some _) =>
          some { s.letGo with sock := some none, place := s.place.roused }
      | _ => none
  | .pollerClose fd =>
      if fd ∈ s.closing then
        some { s.closeFd .poller fd with closing := s.closing.erase fd }
      else none
  | .timer k =>
      match s.deadlines k with
      | none => none
      | some d =>
          -- `dl->mtx` is taken while the connect polls
          if d.slept ∨ (k = s.attempt ∧ s.place = .polling) then none else some (s.expire k d)
  | .timerCanceled k =>
      match s.deadlines k with
      | none => none
      | some d => if d.slept then none else some (s.setDeadline k { d with slept := true })
  | .close =>
      -- `close_mtx_` is taken while the watchdog is at the connection
      if s.place = .outside ∧ s.abort = none then
        let s := { s with connected := false, place := .closeFinish }
        match s.sock with
        | some (some fd) => some (s.shutdownFd .poller fd)
        | _ => some s
      else none
  | .closeFinish =>
      if s.place = .closeFinish then some { s.pqFinish with place := .closeReset } else none
  | .closeReset =>
      if s.place = .closeReset then some { s.resetSock with place := .outside } else none
  | .abortRead =>
      -- an await is published by statements only, so on a connection that is connected
      if s.place = .outside ∧ s.connected ∧ s.abort = none then
        some { s with abort := some s.pqSocket }
      else none
  | .abortShut =>
      match s.abort with
      | none => none
      | some none => some { s with abort := none }
      | some (some fd) => some { s.shutdownFd (.watchdog s.attempt) fd with abort := none }
  | .otherOpen fd ino => (s.files.socket fd ino .other).map fun files => { s with files }
  | .otherDup fd fd' =>
      if s.files.ownerAt fd = some .other then
        (s.files.dup fd fd' .other).map fun files => { s with files }
      else none
  | .otherClose fd =>
      if s.files.ownerAt fd = some .other then some { s with files := s.files.close fd } else none

/-! ## What a step can be -/

/-- The loop of `connect_async` is not over, or its end has not been noted. -/
def Place.connecting : Place → Bool
  | .watch (.wait _) | .register (.wait _) _ _ | .wait _ | .parked _ | .woken | .polling
  | .leave _ => true
  | _ => false

/-- The last `watch_socket`, behind the loop. -/
def Place.ending : Place → Bool
  | .watch .connected | .register .connected _ _ => true
  | _ => false

/-- A step of `connect_async` itself. -/
def Event.inConnect : Event → Bool
  | .started _ | .watch | .register _ | .ready _ | .wake | .enter _ _ => true
  | _ => false

/-- The steps of the loop of `connect_async` that change nothing but the place. -/
inductive Goes (s : State) : Event → Place → Place → Prop where
  | same (reading : Bool) (fd : Nat) (hsock : s.sock.isSome = true) (hfd : s.pqSocket = some fd)
      (hino : s.files.inoAt fd = some s.watchedIno) :
      Goes s .watch (.watch (.wait reading)) (.wait reading)
  | unwatched {e : Event} {p : Place} (reading : Bool)
      (hp : p = .watch (.wait reading) ∨ ∃ fd ino, p = .register (.wait reading) fd ino) :
      Goes s e p (.leave (some "PQsocket < 0"))
  | ready (reading : Bool) : Goes s (.ready true) (.wait reading) .woken
  | park (reading : Bool) (hopen : s.sock ≠ some none) :
      Goes s (.ready false) (.wait reading) (.parked reading)
  | wake (reading : Bool) : Goes s .wake (.parked reading) .woken
  | left {e : Event} (err : String) : Goes s e .woken (.leave (some err))
  | poll {e : Event} (d : ConnectDeadline) (hd : s.deadlines s.attempt = some d)
      (hfired : d.fired = false) : Goes s e .woken .polling

/-- What a step can be. -/
inductive Stepped (s : State) : Event → State → Prop where
  -- connect_async
  | connectStart (hplace : s.place = .outside) (hconn : s.conn = false) :
      Stepped s .connectStart
        { s with attempt := s.attempt + 1, conn := true, place := .starting }
  | startNull (hplace : s.place = .starting) (hnone : s.pqSocket = none) :
      Stepped s (.started .null) ({ s with conn := false }.ret (some "PQconnectStart failed"))
  | started (hplace : s.place = .starting) :
      Stepped s (.started .ok)
        { s.setDeadline s.attempt ⟨s.pqSocket, false, false, false, false⟩ with
          place := .watch (.wait false) }
  | fails {e : Event} (err : String) (hplace : s.place = .starting ∨ s.place.ending = true)
      (he : e.inConnect = true) : Stepped s e { s with place := .failing err }
  | goes {e : Event} {p p' : Place} (hplace : s.place = p) (h : Goes s e p p')
      (he : e.inConnect = true) : Stepped s e { s with place := p' }
  | same (fd : Nat) (hplace : s.place = .watch .connected) (hfd : s.pqSocket = some fd)
      (hopen : (s.files.entryAt fd).isSome = true) :
      Stepped s .watch ({ s with connected := true }.ret none)
  | rewatch (next : Next) (fd ino : Nat) (hplace : s.place = .watch next)
      (hfd : s.pqSocket = some fd) (hino : s.files.inoAt fd = some ino) :
      Stepped s .watch { s.resetSock with place := .register next fd ino }
  | register (next : Next) (fd ino own : Nat) (files : Files Owner)
      (hplace : s.place = .register next fd ino) (hdup : s.files.dup fd own .poller = some files) :
      Stepped s (.register (some own))
        (State.watched
          { s with files, sock := some (some own), watchedFd := some fd, watchedIno := ino } next)
  | polled (r : Polled) (d : ConnectDeadline) (hplace : s.place = .polling)
      (hd : s.deadlines s.attempt = some d) :
      Stepped s (.polled r)
        { s.setDeadline s.attempt { d with fd := s.pqSocket, polled := r = .ok } with
          place := r.place }
  | finish (err : Option String) (d : ConnectDeadline) (hplace : s.place = .leave err)
      (hd : s.deadlines s.attempt = some d) :
      Stepped s .finish
        { s.setDeadline s.attempt { d with done := true, fd := none } with
          place := .afterLoop err }
  | failReset (err : String) (hplace : s.place = .failing err) :
      Stepped s .failReset { s.resetSock with place := .finishing err }
  | failFinish (err : String) (hplace : s.place = .finishing err) :
      Stepped s .failFinish ({ s.pqFinish with connected := false }.ret (some err))
  -- libpq
  | pqOpen (fd ino : Nat) (files : Files Owner)
      (hplace : s.place = .starting ∨ s.place = .polling) (hnone : s.pqSocket = none)
      (hsocket : s.files.socket fd ino (.libpq s.attempt) = some files) :
      Stepped s (.pqOpen fd ino) { s with files, pqSocket := some fd }
  | pqDrop (hplace : (s.place = .starting ∨ s.place = .polling) ∨
      (s.place = .outside ∧ s.connected = true)) : Stepped s .pqDrop s.pqClose
  -- the poller
  | hup (fd : Nat) (hsock : s.sock = some (some fd)) :
      Stepped s .hup { s.letGo with sock := some none, place := s.place.roused }
  | pollerClose (fd : Nat) (hmem : fd ∈ s.closing) :
      Stepped s (.pollerClose fd)
        { s.closeFd .poller fd with closing := s.closing.erase fd }
  -- the timers
  | runsOut {e : Event} (k : Nat) (d : ConnectDeadline) (hd : s.deadlines k = some d)
      (he : e = .timerCanceled k ∨ e = .timer k ∧ d.done = true) :
      Stepped s e (s.setDeadline k { d with slept := true })
  | fire (k : Nat) (d : ConnectDeadline) (hd : s.deadlines k = some d) (hdone : d.done = false)
      (hfree : ¬(k = s.attempt ∧ s.place = .polling)) (hfd : d.fd = none) :
      Stepped s (.timer k) (s.setDeadline k { d with slept := true, fired := true })
  | cut (k : Nat) (d : ConnectDeadline) (fd : Nat) (hd : s.deadlines k = some d)
      (hdone : d.done = false) (hfree : ¬(k = s.attempt ∧ s.place = .polling))
      (hfd : d.fd = some fd) :
      Stepped s (.timer k)
        ((s.setDeadline k { d with slept := true, fired := true }).shutdownFd (.timer k) fd)
  -- close
  | close (hplace : s.place = .outside) (habort : s.abort = none) :
      Stepped s .close { s with connected := false, place := .closeFinish }
  | closeShut (fd : Nat) (hplace : s.place = .outside) (habort : s.abort = none)
      (hsock : s.sock = some (some fd)) :
      Stepped s .close
        (State.shutdownFd { s with connected := false, place := .closeFinish } .poller fd)
  | closeFinish (hplace : s.place = .closeFinish) :
      Stepped s .closeFinish { s.pqFinish with place := .closeReset }
  | closeReset (hplace : s.place = .closeReset) :
      Stepped s .closeReset { s.resetSock with place := .outside }
  -- abort_io_from_watchdog
  | abortRead (hplace : s.place = .outside) (hup : s.connected = true) :
      Stepped s .abortRead { s with abort := some s.pqSocket }
  | abortSkip (habort : s.abort = some none) : Stepped s .abortShut { s with abort := none }
  | abortShut (fd : Nat) (habort : s.abort = some (some fd)) :
      Stepped s .abortShut { s.shutdownFd (.watchdog s.attempt) fd with abort := none }
  -- everybody else
  | otherOpen (fd ino : Nat) (files : Files Owner)
      (hsocket : s.files.socket fd ino .other = some files) :
      Stepped s (.otherOpen fd ino) { s with files }
  | otherDup (fd fd' : Nat) (files : Files Owner)
      (hdup : s.files.dup fd fd' .other = some files) :
      Stepped s (.otherDup fd fd') { s with files }
  | otherClose (fd : Nat) (hown : s.files.ownerAt fd = some .other) :
      Stepped s (.otherClose fd) { s with files := s.files.close fd }

section

variable {s s' : State}

theorem inLibpq_iff : s.inLibpq = true ↔ s.place = .starting ∨ s.place = .polling := by
  unfold State.inLibpq
  cases s.place <;> simp

/-- `watch_socket` found no socket. -/
theorem stepped_unwatched {e : Event} {next : Next}
    (hplace : s.place = .watch next ∨ ∃ fd ino, s.place = .register next fd ino)
    (he : e.inConnect = true) : Stepped s e (s.unwatched next) := by
  cases next with
  | wait reading => exact .goes rfl (.unwatched reading hplace) he
  | connected =>
      refine .fails _ (.inr ?_) he
      rcases hplace with hplace | ⟨fd, ino, hplace⟩ <;> rw [hplace] <;> rfl

theorem stepped_watch {next : Next} (hplace : s.place = .watch next) :
    Stepped s .watch (s.watchSocket next) := by
  have hnone : Stepped s .watch (s.unwatched next) :=
    stepped_unwatched (.inl hplace) rfl
  unfold State.watchSocket
  split
  · exact hnone
  · rename_i fd hfd
    split
    · exact hnone
    · rename_i entry hentry
      have hino : s.files.inoAt fd = some entry.ino := congrArg (Option.map Entry.ino) hentry
      split
      · rename_i hsame
        cases next with
        | wait reading =>
            exact .goes hplace (.same reading fd hsame.1 hfd (hsame.2.2 ▸ hino)) rfl
        | connected => exact .same fd hplace hfd (by rw [hentry]; rfl)
      · exact .rewatch next fd entry.ino hplace hfd hino

theorem stepped_register {next : Next} {fd ino : Nat} {own : Option Nat}
    (hplace : s.place = .register next fd ino) (h : s.register next fd ino own = some s') :
    Stepped s (.register own) s' := by
  unfold State.register at h
  split at h
  · cases h
    exact stepped_unwatched (.inr ⟨fd, ino, hplace⟩) rfl
  · rename_i own
    split at h
    · cases h
    · rename_i files hdup
      cases h
      exact .register next fd ino own files hplace hdup

theorem stepped_enter {canceled : Bool} {elapsed : Nat}
    (h : step s (.enter canceled elapsed) = some s') : Stepped s (.enter canceled elapsed) s' := by
  obtain ⟨hplace, h⟩ := Option.ite_none_right_eq_some.mp h
  split at h
  · cases h
    exact .goes hplace (.left _) rfl
  · split at h
    · cases h
    · rename_i d hd
      split at h
      · cases h
        exact .goes hplace (.left _) rfl
      · rename_i hfired
        cases h
        exact .goes hplace (.poll d hd (Bool.eq_false_iff.mpr hfired)) rfl

theorem stepped_expire {k : Nat} {d : ConnectDeadline} (hd : s.deadlines k = some d)
    (hfree : ¬(k = s.attempt ∧ s.place = .polling)) : Stepped s (.timer k) (s.expire k d) := by
  unfold State.expire
  split
  · exact .runsOut k d hd (.inr ⟨rfl, ‹_›⟩)
  · rename_i hdone
    have hdone : d.done = false := Bool.eq_false_iff.mpr hdone
    dsimp only
    split
    · exact .fire k d hd hdone hfree ‹_›
    · exact .cut k d _ hd hdone hfree ‹_›

/-- **Inversion.** -/
theorem step_stepped {e : Event} (h : step s e = some s') : Stepped s e s' := by
  cases e with
  | connectStart =>
      simp only [step, Option.ite_none_right_eq_some, Option.some.injEq] at h
      exact h.2 ▸ .connectStart h.1.1 h.1.2
  | started r =>
      obtain ⟨hplace, h⟩ := Option.ite_none_right_eq_some.mp h
      cases r with
      | null =>
          obtain ⟨hnone, h⟩ := Option.ite_none_right_eq_some.mp h
          cases h
          exact .startNull hplace hnone
      | bad msg =>
          cases h
          exact .fails msg (.inl hplace) rfl
      | blocking =>
          cases h
          exact .fails _ (.inl hplace) rfl
      | ok =>
          cases h
          exact .started hplace
  | watch =>
      simp only [step] at h
      split at h
      · cases h
        exact stepped_watch ‹_›
      · cases h
  | register own =>
      simp only [step] at h
      split at h
      · exact stepped_register ‹_› h
      · cases h
  | ready now =>
      simp only [step] at h
      split at h
      · rename_i reading hplace
        cases now with
        | true =>
            cases h
            exact .goes hplace (.ready reading) rfl
        | false =>
            obtain ⟨hopen, h⟩ := Option.ite_none_left_eq_some.mp h
            cases h
            exact .goes hplace (.park reading hopen) rfl
      · cases h
  | wake =>
      simp only [step] at h
      split at h
      · rename_i reading hplace
        cases h
        exact .goes hplace (.wake reading) rfl
      · cases h
  | enter canceled elapsed => exact stepped_enter h
  | polled r =>
      obtain ⟨hplace, h⟩ := Option.ite_none_right_eq_some.mp h
      split at h
      · cases h
      · rename_i d hd
        cases h
        exact .polled r d hplace hd
  | finish =>
      simp only [step] at h
      split at h
      · rename_i err hplace
        split at h
        · cases h
        · rename_i d hd
          cases h
          exact .finish err d hplace hd
      · cases h
  | failReset =>
      simp only [step] at h
      split at h
      · cases h
        exact .failReset _ ‹_›
      · cases h
  | failFinish =>
      simp only [step] at h
      split at h
      · cases h
        exact .failFinish _ ‹_›
      · cases h
  | pqOpen fd ino =>
      simp only [step, Option.ite_none_right_eq_some, Option.map_eq_some_iff] at h
      obtain ⟨⟨hin, hnone⟩, files, hsocket, rfl⟩ := h
      exact .pqOpen fd ino files (inLibpq_iff.mp hin) hnone hsocket
  | pqDrop =>
      simp only [step, Option.ite_none_right_eq_some, Option.some.injEq, inLibpq_iff] at h
      exact h.2 ▸ .pqDrop h.1
  | hup =>
      simp only [step] at h
      split at h
      · cases h
        exact .hup _ ‹_›
      · cases h
  | pollerClose fd =>
      simp only [step, Option.ite_none_right_eq_some, Option.some.injEq] at h
      exact h.2 ▸ .pollerClose fd h.1
  | timer k =>
      simp only [step] at h
      split at h
      · cases h
      · rename_i d hd
        simp only [Option.ite_none_left_eq_some, not_or, Option.some.injEq] at h
        exact h.2 ▸ stepped_expire hd h.1.2
  | timerCanceled k =>
      simp only [step] at h
      split at h
      · cases h
      · rename_i d hd
        simp only [Option.ite_none_left_eq_some, Option.some.injEq] at h
        exact h.2 ▸ .runsOut k d hd (.inl rfl)
  | close =>
      obtain ⟨⟨hplace, habort⟩, h⟩ := Option.ite_none_right_eq_some.mp h
      dsimp only at h
      split at h
      · rename_i fd hsock
        cases h
        exact .closeShut fd hplace habort hsock
      · cases h
        exact .close hplace habort
  | closeFinish =>
      simp only [step, Option.ite_none_right_eq_some, Option.some.injEq] at h
      exact h.2 ▸ .closeFinish h.1
  | closeReset =>
      simp only [step, Option.ite_none_right_eq_some, Option.some.injEq] at h
      exact h.2 ▸ .closeReset h.1
  | abortRead =>
      simp only [step, Option.ite_none_right_eq_some, Option.some.injEq] at h
      exact h.2 ▸ .abortRead h.1.1 h.1.2.1
  | abortShut =>
      simp only [step] at h
      split at h
      · cases h
      · cases h
        exact .abortSkip ‹_›
      · cases h
        exact .abortShut _ ‹_›
  | otherOpen fd ino =>
      obtain ⟨files, hsocket, rfl⟩ := Option.map_eq_some_iff.mp h
      exact .otherOpen fd ino files hsocket
  | otherDup fd fd' =>
      obtain ⟨-, h⟩ := Option.ite_none_right_eq_some.mp h
      obtain ⟨files, hdup, rfl⟩ := Option.map_eq_some_iff.mp h
      exact .otherDup fd fd' files hdup
  | otherClose fd =>
      simp only [step, Option.ite_none_right_eq_some, Option.some.injEq] at h
      exact h.2 ▸ .otherClose fd h.1

end

/-! ## Whose descriptors they are -/

/-- libpq has no descriptor but the socket `PQsocket` answers and the poller none but the
one of `sock_` and those it has still to close; the inode number kept with the former is
that of its socket; and nobody but the watchdog met a descriptor that was not its own. -/
structure Owned (s : State) : Prop where
  pq : ∀ k, s.files.Holds (.libpq k) (if k = s.attempt then s.pqSocket.toList else [])
  poller : s.files.Holds .poller (s.sock.join.toList ++ s.closing)
  watched : ∀ fd, s.sock = some (some fd) → s.files.inoAt fd = some s.watchedIno
  hits : ∀ h ∈ s.hits, h.Own ∨ ∃ k, h.party = .watchdog k

section

variable {s : State}

theorem owned_init : Owned State.init where
  pq k := by
    have hnone : (if k = State.init.attempt then State.init.pqSocket.toList else []) = [] :=
      ite_self []
    rw [hnone]
    exact Files.holds_empty
  poller := Files.holds_empty
  watched fd h := by cases h
  hits h hmem := by cases hmem

theorem Owned.pqOwner (h : Owned s) {fd : Nat} :
    s.files.ownerAt fd = some (.libpq s.attempt) ↔ s.pqSocket = some fd := by
  rw [(h.pq s.attempt).owned, if_pos rfl, Option.mem_toList]

theorem Owned.pollerOwner (h : Owned s) {fd : Nat} (hfd : s.sock = some (some fd)) :
    s.files.ownerAt fd = some .poller :=
  (h.poller.owned fd).mpr (by rw [hfd]; exact List.mem_cons_self)

/-- One more hit, on an own descriptor. -/
theorem Owned.hits_append (h : Owned s) {party : Party} {fd : Nat}
    (hown : s.files.ownerAt fd = some party.owner) :
    ∀ hit ∈ s.hits ++ [⟨party, s.files.ownerAt fd⟩], hit.Own ∨ ∃ k, hit.party = .watchdog k := by
  intro hit hmem
  rcases List.mem_append.mp hmem with hmem | hmem
  · exact h.hits hit hmem
  · rw [List.mem_singleton.mp hmem]
    exact .inl hown

theorem Owned.shutdownFd (h : Owned s) {party : Party} {fd : Nat}
    (hown : s.files.ownerAt fd = some party.owner) : Owned (s.shutdownFd party fd) :=
  ⟨h.pq, h.poller, h.watched, h.hits_append hown⟩

/-- A descriptor that is not the poller's is closed. -/
theorem Owned.watched_close (h : Owned s) {fd : Nat} {owner : Owner}
    (hown : s.files.ownerAt fd = some owner) (hne : owner ≠ .poller) :
    ∀ d, s.sock = some (some d) → (s.files.close fd).inoAt d = some s.watchedIno := by
  intro d hd
  have hother : d ≠ fd := by
    rintro rfl
    rw [h.pollerOwner hd] at hown
    exact hne (Option.some.inj hown).symm
  exact (Files.inoAt_close_of_ne hother).trans (h.watched d hd)

theorem Owned.pqClose (h : Owned s) : Owned s.pqClose := by
  unfold State.pqClose
  split
  · exact h
  · rename_i fd hfd
    have hown : s.files.ownerAt fd = some (Party.owner (.libpq s.attempt)) := h.pqOwner.mpr hfd
    have hpoller := h.poller.not_mem hown fun heq => by cases heq
    refine ⟨fun k => ?_, h.poller.close_ne hpoller,
      h.watched_close hown (fun heq => by cases heq), h.hits_append hown⟩
    have hk := h.pq k
    by_cases hcur : k = s.attempt
    · subst hcur
      rw [if_pos rfl, hfd] at hk
      simpa [State.closeFd] using hk.close_self fd
    · rw [if_neg hcur] at hk
      simpa [hcur, State.closeFd] using hk.close_ne List.not_mem_nil

theorem Owned.letGo (h : Owned s) {sock : Option (Option Nat)} (hsock : sock.join = none)
    (place : Place) : Owned { s.letGo with sock, place } where
  pq := h.pq
  poller := by
    show s.files.Holds .poller (sock.join.toList ++ _)
    rw [hsock]
    exact h.poller
  watched fd hfd := by
    rw [show sock = some (some fd) from hfd] at hsock
    cases hsock
  hits := h.hits

/-- The close that was left to the poller. -/
theorem Owned.pollerClose (h : Owned s) {fd : Nat} (hmem : fd ∈ s.closing) :
    Owned { s.closeFd .poller fd with closing := s.closing.erase fd } := by
  have hown : s.files.ownerAt fd = some (Party.owner .poller) :=
    (h.poller.owned fd).mpr (List.mem_append_right _ hmem)
  -- the number it watches now is another one
  have hnot : fd ∉ s.sock.join.toList := fun hsock =>
    List.disjoint_of_nodup_append h.poller.nodup hsock hmem
  refine ⟨fun k => (h.pq k).close_ne ((h.pq k).not_mem hown fun heq => by cases heq), ?_, ?_,
    h.hits_append hown⟩
  · have hclosed := h.poller.close_self fd
    rw [List.erase_append_right _ hnot] at hclosed
    exact hclosed
  · intro d hd
    have hne : d ≠ fd := by
      rintro rfl
      exact hnot (by rw [show s.sock = some (some d) from hd]; exact List.mem_cons_self)
    exact (Files.inoAt_close_of_ne hne).trans (h.watched d hd)

/-- The table grows by a descriptor of somebody else. -/
theorem Owned.grows (h : Owned s) {files : Files Owner} (hgrows : s.files.Grows files)
    (hkept : ∀ owner own, owner ≠ .other → s.files.Holds owner own → files.Holds owner own) :
    Owned { s with files } where
  pq k := hkept _ _ (fun heq => by cases heq) (h.pq k)
  poller := hkept _ _ (fun heq => by cases heq) h.poller
  watched fd hfd := hgrows.inoAt (h.watched fd hfd)
  hits := h.hits

theorem Owned.otherClose (h : Owned s) {fd : Nat} (hown : s.files.ownerAt fd = some .other) :
    Owned { s with files := s.files.close fd } where
  pq k := (h.pq k).close_ne ((h.pq k).not_mem hown fun heq => by cases heq)
  poller := h.poller.close_ne (h.poller.not_mem hown fun heq => by cases heq)
  watched := h.watched_close hown fun heq => by cases heq
  hits := h.hits

theorem Owned.pqOpen (h : Owned s) (hnone : s.pqSocket = none) {fd ino : Nat}
    {files : Files Owner} (hsocket : s.files.socket fd ino (.libpq s.attempt) = some files) :
    Owned { s with files, pqSocket := some fd } where
  pq k := by
    have hk := h.pq k
    by_cases hcur : k = s.attempt
    · subst hcur
      rw [if_pos rfl, hnone] at hk
      simpa using hk.socket_self hsocket
    · rw [if_neg hcur] at hk
      have hne : Owner.libpq s.attempt ≠ .libpq k := fun heq => hcur (by cases heq; rfl)
      simpa [hcur] using hk.socket_ne hsocket hne
  poller := h.poller.socket_ne hsocket fun heq => by cases heq
  watched d hd := (Files.grows_socket hsocket).inoAt (h.watched d hd)
  hits := h.hits

/-- `watch_socket` registers a dup. -/
theorem Owned.register (h : Owned s) (hsock : s.sock = none) {fd own ino : Nat}
    {files : Files Owner} (hdup : s.files.dup fd own .poller = some files)
    (hino : s.files.inoAt fd = some ino) :
    Owned { s with
      files, sock := some (some own), watchedFd := some fd, watchedIno := ino } where
  pq k := (h.pq k).dup_ne hdup fun heq => by cases heq
  poller := by
    have hholds := h.poller
    rw [hsock] at hholds
    exact hholds.dup_self hdup
  watched d hd := by
    cases hd
    obtain ⟨-, e, he, hat⟩ := Files.entryAt_dup hdup
    rw [Files.inoAt, hat, if_pos rfl]
    rw [Files.inoAt, he] at hino
    exact hino
  hits := h.hits

end

/-! ## What every step keeps -/

/-- What is known at each place. -/
def State.fits (s : State) : Prop :=
  match s.place with
  | .outside => s.conn = s.connected ∧ (s.conn = false → s.pqSocket = none ∧ s.sock = none)
  | .starting | .finishing _ => (s.conn = true ∧ s.connected = false) ∧ s.sock = none
  | .register _ fd ino =>
      (s.conn = true ∧ s.connected = false) ∧ s.sock = none ∧ s.pqSocket = some fd ∧
        s.files.inoAt fd = some ino
  | .wait _ =>
      (s.conn = true ∧ s.connected = false) ∧ s.sock.isSome = true ∧
        ∃ fd, s.pqSocket = some fd ∧ s.files.inoAt fd = some s.watchedIno
  | .parked _ =>
      (s.conn = true ∧ s.connected = false) ∧ s.sock.join.isSome = true ∧
        ∃ fd, s.pqSocket = some fd ∧ s.files.inoAt fd = some s.watchedIno
  | .watch _ | .woken | .polling | .leave _ | .failing _ => s.conn = true ∧ s.connected = false
  | .closeFinish => s.connected = false
  | .closeReset => s.conn = false ∧ s.connected = false ∧ s.pqSocket = none

/-- A timer that can still cut is that of the connect in progress, and the number it knows
is libpq's except while libpq runs. -/
structure Kept (s : State) : Prop where
  owned : Owned s
  timed : ∀ k d, s.deadlines k = some d → d.done = false →
    k = s.attempt ∧ s.place.connecting = true ∧ (s.place ≠ .polling → d.fd = s.pqSocket)
  aborting : s.abort ≠ none → s.place = .outside ∧ s.connected = true

structure Sound (s : State) : Prop extends Kept s where
  fits : s.fits

theorem sound_init : Sound State.init where
  owned := owned_init
  timed k d h := by cases h
  aborting h := absurd rfl h
  fits := ⟨rfl, fun _ => ⟨rfl, rfl⟩⟩

section

variable {s s' : State} {e : Event} {p p' : Place}

/-- What libpq's close leaves alone. -/
theorem pqClose_eq (s : State) :
    ∃ files hits, s.pqClose = { s with files, hits, pqSocket := none } := by
  unfold State.pqClose
  split
  · rename_i hnone
    exact ⟨s.files, s.hits, by rw [← hnone]⟩
  · exact ⟨_, _, rfl⟩

theorem pqSocket_pqClose (s : State) : s.pqClose.pqSocket = none := by
  obtain ⟨files, hits, heq⟩ := pqClose_eq s
  rw [heq]

theorem Goes.connecting (h : Goes s e p p') : p.connecting = true ∧ p'.connecting = true := by
  cases h with
  | unwatched reading hp => rcases hp with rfl | ⟨fd, ino, rfl⟩ <;> exact ⟨rfl, rfl⟩
  | _ => exact ⟨rfl, rfl⟩

theorem Goes.ne_polling (h : Goes s e p p') : p ≠ .polling := by
  rintro rfl
  cases h with
  | unwatched reading hp => rcases hp with hp | ⟨fd, ino, hp⟩ <;> cases hp

theorem connecting_ne_outside (h : p.connecting = true) : p ≠ .outside := by
  rintro rfl
  cases h

theorem ending_ne_outside (h : p = .starting ∨ p.ending = true) : p ≠ .outside := by
  rintro rfl
  rcases h with h | h <;> cases h

theorem not_connecting_of_ending (h : p = .starting ∨ p.ending = true) : p.connecting = false := by
  rcases h with rfl | h
  · rfl
  · unfold Place.ending at h
    split at h
    · rfl
    · rfl
    · cases h

/-- The connect in progress is not connected yet. -/
theorem State.fits.unconnected (h : s.fits)
    (hplace : s.place.connecting = true ∨ s.place = .starting ∨ s.place.ending = true) :
    s.conn = true ∧ s.connected = false := by
  unfold State.fits at h
  split at h <;> first | exact h | exact h.1 | skip
  all_goals
    rename_i heq
    rw [heq] at hplace
    rcases hplace with hplace | hplace | hplace <;> cases hplace

theorem Goes.fits (h : Goes s e s.place p') (hfits : s.fits) :
    State.fits { s with place := p' } := by
  have hup := hfits.unconnected (.inl h.connecting.1)
  generalize hplace : s.place = p at h
  cases h with
  | same reading fd hsock hfd hino => exact ⟨hup, hsock, fd, hfd, hino⟩
  | park reading hopen =>
      rw [State.fits, hplace] at hfits
      obtain ⟨-, hsock, hat⟩ := hfits
      refine ⟨hup, ?_, hat⟩
      obtain ⟨own, hown⟩ := Option.isSome_iff_exists.mp hsock
      cases own with
      | none => exact absurd hown hopen
      | some fd => simp [hown]
  | _ => exact hup

/-- Outside the loop of `connect_async` no timer can cut. -/
theorem Kept.no_timer (h : Kept s) (hplace : s.place.connecting = false) {k : Nat}
    {d : ConnectDeadline} (hd : s.deadlines k = some d) : d.done ≠ false := by
  intro hdone
  have hconnecting := (h.timed k d hd hdone).2.1
  rw [hplace] at hconnecting
  cases hconnecting

/-- A place of `connect_async` or `close`: nobody aborts. -/
theorem Kept.abort_none (h : Kept s) (hplace : s.place ≠ .outside) : s.abort = none := by
  by_contra hne
  exact hplace (h.aborting hne).1

/-- **Outside the loop.**  A call that is not in the loop, or ends, has no timer and no
watchdog to mind. -/
theorem Kept.aside (h : Kept s) (hplace : s.place.connecting = false) (habort : s.abort = none)
    (howned : Owned s') (hdeadlines : s'.deadlines = s.deadlines) (habort' : s'.abort = s.abort)
    (hfits : s'.fits) : Sound s' where
  owned := howned
  timed _ _ hd hdone := absurd hdone (h.no_timer hplace (hdeadlines ▸ hd))
  aborting hne := absurd (habort'.trans habort) hne
  fits := hfits

/-- **In the loop.**  The connect goes on with the socket it has. -/
theorem Kept.onward (h : Kept s) (hfrom : s.place.connecting = true) (hpolling : s.place ≠ .polling)
    (hto : s'.place.connecting = true) (howned : Owned s') (hattempt : s'.attempt = s.attempt)
    (hpq : s'.pqSocket = s.pqSocket) (hdeadlines : s'.deadlines = s.deadlines)
    (habort : s'.abort = s.abort) (hfits : s'.fits) : Sound s' where
  owned := howned
  timed k d hd hdone := by
    obtain ⟨hk, -, hfd⟩ := h.timed k d (hdeadlines ▸ hd) hdone
    exact ⟨hk.trans hattempt.symm, hto, fun _ => (hfd hpolling).trans hpq.symm⟩
  aborting hne :=
    absurd (habort.trans (h.abort_none (connecting_ne_outside hfrom))) hne
  fits := hfits

/-- Only the place changes. -/
theorem Owned.moved (h : Owned s) {place : Place} : Owned { s with place } :=
  ⟨h.pq, h.poller, h.watched, h.hits⟩

theorem Sound.goes (h : Sound s) (hgoes : Goes s e s.place p') : Sound { s with place := p' } :=
  h.onward hgoes.connecting.1 hgoes.ne_polling hgoes.connecting.2 h.owned.moved rfl rfl rfl rfl
    (hgoes.fits h.fits)

theorem Sound.connectStart (h : Sound s) (hplace : s.place = .outside) (hconn : s.conn = false) :
    Sound { s with attempt := s.attempt + 1, conn := true, place := .starting } := by
  have hfits := h.fits
  rw [State.fits, hplace] at hfits
  obtain ⟨hpq, hsock⟩ := hfits.2 hconn
  have hup : s.connected = false := hfits.1.symm.trans hconn
  have habort : s.abort = none := by
    by_contra hne
    have hup' := (h.aborting hne).2
    rw [hup] at hup'
    cases hup'
  refine h.aside (by rw [hplace]; rfl) habort ⟨fun k => ?_, h.owned.poller, h.owned.watched,
    h.owned.hits⟩ rfl rfl ⟨⟨rfl, hup⟩, hsock⟩
  have hk := h.owned.pq k
  rw [hpq, Option.toList_none, ite_self] at hk
  simpa [hpq] using hk

theorem Sound.startNull (h : Sound s) (hplace : s.place = .starting) (hnone : s.pqSocket = none) :
    Sound ({ s with conn := false }.ret (some "PQconnectStart failed")) := by
  have hfits := h.fits
  rw [State.fits, hplace] at hfits
  exact h.aside (by rw [hplace]; rfl) (h.abort_none (by rw [hplace]; exact Place.noConfusion))
    ⟨h.owned.pq, h.owned.poller, h.owned.watched, h.owned.hits⟩ rfl rfl
    ⟨hfits.1.2.symm, fun _ => ⟨hnone, hfits.2⟩⟩

/-- `watch_socket` behind the loop returned true. -/
theorem Kept.connected (h : Kept s) (hplace : s.place.ending = true)
    (hup : s.conn = true ∧ s.connected = false) :
    Sound ({ s with connected := true }.ret none) := by
  refine h.aside (not_connecting_of_ending (.inr hplace))
    (h.abort_none (ending_ne_outside (.inr hplace)))
    ⟨h.owned.pq, h.owned.poller, h.owned.watched, h.owned.hits⟩ rfl rfl
    ⟨hup.1, fun hconn => ?_⟩
  have hconn : s.conn = false := hconn
  rw [hup.1] at hconn
  cases hconn

/-- The old registration goes. -/
theorem Sound.rewatch (h : Sound s) {next : Next} {fd ino : Nat} (hplace : s.place = .watch next)
    (hfd : s.pqSocket = some fd) (hino : s.files.inoAt fd = some ino) :
    Sound { s.resetSock with place := .register next fd ino } := by
  have howned : Owned { s.resetSock with place := .register next fd ino } :=
    h.owned.letGo rfl _
  have hfits := h.fits
  rw [State.fits, hplace] at hfits
  cases next with
  | wait reading =>
      exact h.onward (by rw [hplace]; rfl) (by rw [hplace]; exact Place.noConfusion) rfl howned
        rfl rfl rfl rfl ⟨hfits, rfl, hfd, hino⟩
  | connected =>
      exact h.aside (by rw [hplace]; rfl) (h.abort_none (by rw [hplace]; exact Place.noConfusion))
        howned rfl rfl ⟨hfits, rfl, hfd, hino⟩

theorem Sound.register (h : Sound s) {next : Next} {fd ino own : Nat} {files : Files Owner}
    (hplace : s.place = .register next fd ino) (hdup : s.files.dup fd own .poller = some files) :
    Sound (State.watched
      { s with files, sock := some (some own), watchedFd := some fd, watchedIno := ino } next) := by
  have hfits := h.fits
  rw [State.fits, hplace] at hfits
  obtain ⟨hup, hsock, hfd, hino⟩ := hfits
  have howned := h.owned.register hsock hdup hino
  cases next with
  | wait reading =>
      exact h.onward (by rw [hplace]; rfl) (by rw [hplace]; exact Place.noConfusion) rfl
        howned.moved rfl rfl rfl rfl ⟨hup, rfl, fd, hfd, (Files.grows_dup hdup).inoAt hino⟩
  | connected =>
      have hregistered : Kept { s with
          files, sock := some (some own), watchedFd := some fd, watchedIno := ino } :=
        ⟨howned, h.timed, h.aborting⟩
      exact hregistered.connected (by rw [hplace]; rfl) hup

/-- The record of a timer that has run. -/
theorem Sound.setDeadline (h : Sound s) {k : Nat} {d d' : ConnectDeadline}
    (hd : s.deadlines k = some d) (hdone : d'.done = d.done) (hfd : d'.fd = d.fd) :
    Sound (s.setDeadline k d') := by
  refine ⟨⟨⟨h.owned.pq, h.owned.poller, h.owned.watched, h.owned.hits⟩, ?_, h.aborting⟩, h.fits⟩
  intro j e he hundone
  have hlook : Function.update s.deadlines k (some d') j = some e := he
  by_cases hjk : j = k
  · subst hjk
    rw [Function.update_self] at hlook
    cases hlook
    rw [hdone] at hundone
    rw [hfd]
    exact h.timed j d hd hundone
  · rw [Function.update_of_ne hjk] at hlook
    exact h.timed j e hlook hundone

/-- The connect in progress changes the deadline it shares with its timer. -/
theorem Kept.ownDeadline (h : Kept s) {place : Place} (hout : s.place ≠ .outside)
    {d : ConnectDeadline} (hd : d.done = false → place.connecting = true ∧ d.fd = s.pqSocket)
    (hfits : State.fits { s.setDeadline s.attempt d with place }) :
    Sound { s.setDeadline s.attempt d with place } := by
  refine ⟨⟨⟨h.owned.pq, h.owned.poller, h.owned.watched, h.owned.hits⟩, ?_,
    fun hne => absurd (h.abort_none hout) hne⟩, hfits⟩
  intro j e he hundone
  have hlook : Function.update s.deadlines s.attempt (some d) j = some e := he
  by_cases hj : j = s.attempt
  · subst hj
    rw [Function.update_self] at hlook
    cases hlook
    obtain ⟨hconnecting, hfd⟩ := hd hundone
    exact ⟨rfl, hconnecting, fun _ => hfd⟩
  · rw [Function.update_of_ne hj] at hlook
    exact absurd (h.timed j e hlook hundone).1 hj

/-- **The deadline timer.**  What it shuts down is libpq's socket. -/
theorem Sound.cut (h : Sound s) {k fd : Nat} {d : ConnectDeadline} (hd : s.deadlines k = some d)
    (hdone : d.done = false) (hfree : ¬(k = s.attempt ∧ s.place = .polling))
    (hfd : d.fd = some fd) :
    Sound ((s.setDeadline k { d with slept := true, fired := true }).shutdownFd (.timer k) fd) := by
  obtain ⟨hk, -, htimed⟩ := h.timed k d hd hdone
  have hpq : s.pqSocket = some fd := (htimed fun hp => hfree ⟨hk, hp⟩).symm.trans hfd
  have hown : s.files.ownerAt fd = some (.libpq k) := hk ▸ h.owned.pqOwner.mpr hpq
  have hset : Sound (s.setDeadline k { d with slept := true, fired := true }) :=
    h.setDeadline hd rfl rfl
  exact ⟨⟨hset.owned.shutdownFd hown, hset.timed, hset.aborting⟩, hset.fits⟩

/-- libpq has another socket, or none, while it runs. -/
theorem Sound.pqSocket (h : Sound s) (howned : Owned s')
    (hplace : s.place = .starting ∨ s.place = .polling)
    (hkept : s'.place = s.place ∧ s'.attempt = s.attempt ∧ s'.deadlines = s.deadlines ∧
      s'.abort = s.abort ∧ s'.conn = s.conn ∧ s'.connected = s.connected ∧ s'.sock = s.sock) :
    Sound s' := by
  obtain ⟨hplace', hattempt, hdeadlines, habort, hconn, hup, hsock⟩ := hkept
  have hout : s.place ≠ .outside := by
    rcases hplace with hplace | hplace <;> rw [hplace] <;> exact Place.noConfusion
  refine ⟨⟨howned, ?_, fun hne => absurd (habort.trans (h.abort_none hout)) hne⟩, ?_⟩
  · intro k d hd hdone
    obtain ⟨hk, hconnecting, -⟩ := h.timed k d (hdeadlines ▸ hd) hdone
    refine ⟨hk.trans hattempt.symm, hplace' ▸ hconnecting, fun hpolling => ?_⟩
    rcases hplace with hplace | hplace
    · rw [hplace] at hconnecting
      cases hconnecting
    · exact absurd (hplace'.trans hplace) hpolling
  · have hfits := h.fits
    unfold State.fits at hfits ⊢
    rcases hplace with hplace | hplace <;> simpa [hplace', hplace, hconn, hup, hsock] using hfits

theorem Sound.pqDrop (h : Sound s)
    (hplace : (s.place = .starting ∨ s.place = .polling) ∨
      (s.place = .outside ∧ s.connected = true)) : Sound s.pqClose := by
  have howned := h.owned.pqClose
  obtain ⟨files, hits, heq⟩ := pqClose_eq s
  rw [heq] at howned ⊢
  rcases hplace with hplace | ⟨hplace, hup⟩
  · exact h.pqSocket howned hplace ⟨rfl, rfl, rfl, rfl, rfl, rfl, rfl⟩
  · have hfits := h.fits
    rw [State.fits, hplace] at hfits
    have hconn : s.conn = true := hfits.1.trans hup
    refine ⟨⟨howned, fun k d hd hdone => ?_, h.aborting⟩, ?_⟩
    · exact absurd hdone (h.no_timer (by rw [hplace]; rfl) hd)
    · rw [State.fits, hplace]
      exact ⟨hfits.1, fun hno => by
        have hno : s.conn = false := hno
        rw [hconn] at hno
        cases hno⟩

/-- Other descriptors come and go. -/
theorem State.fits.files {files : Files Owner} {closing : List Nat} {hits : List Hit} (h : s.fits)
    (hino : ∀ fd ino, s.pqSocket = some fd → s.files.inoAt fd = some ino →
      files.inoAt fd = some ino) : State.fits { s with files, closing, hits } := by
  unfold State.fits at h ⊢
  dsimp only
  split at h
  case h_4 => exact ⟨h.1, h.2.1, h.2.2.1, hino _ _ h.2.2.1 h.2.2.2⟩
  case h_5 =>
    obtain ⟨hup, hsock, fd, hfd, hat⟩ := h
    exact ⟨hup, hsock, fd, hfd, hino _ _ hfd hat⟩
  case h_6 =>
    obtain ⟨hup, hsock, fd, hfd, hat⟩ := h
    exact ⟨hup, hsock, fd, hfd, hino _ _ hfd hat⟩
  all_goals exact h

/-- A descriptor that is not libpq's is closed. -/
theorem Owned.inoAt_close (h : Owned s) {fd : Nat} {owner : Owner}
    (hown : s.files.ownerAt fd = some owner) (hne : owner ≠ .libpq s.attempt) :
    ∀ x ino, s.pqSocket = some x → s.files.inoAt x = some ino →
      (s.files.close fd).inoAt x = some ino := by
  intro x ino hx hat
  have hother : x ≠ fd := by
    rintro rfl
    rw [h.pqOwner.mpr hx] at hown
    exact hne (Option.some.inj hown).symm
  rw [Files.inoAt_close_of_ne hother, hat]

theorem Sound.pollerClose (h : Sound s) {fd : Nat} (hmem : fd ∈ s.closing) :
    Sound { s.closeFd .poller fd with closing := s.closing.erase fd } := by
  have hown := (h.owned.poller.owned fd).mpr (List.mem_append_right _ hmem)
  exact ⟨⟨h.owned.pollerClose hmem, h.timed, h.aborting⟩,
    h.fits.files (h.owned.inoAt_close hown fun heq => by cases heq)⟩

theorem Sound.otherClose (h : Sound s) {fd : Nat} (hown : s.files.ownerAt fd = some .other) :
    Sound { s with files := s.files.close fd } :=
  ⟨⟨h.owned.otherClose hown, h.timed, h.aborting⟩,
    h.fits.files (h.owned.inoAt_close hown fun heq => by cases heq)⟩

theorem Sound.otherGrows (h : Sound s) {files : Files Owner} (hgrows : s.files.Grows files)
    (hkept : ∀ owner own, owner ≠ .other → s.files.Holds owner own → files.Holds owner own) :
    Sound { s with files } :=
  ⟨⟨h.owned.grows hgrows hkept, h.timed, h.aborting⟩,
    h.fits.files fun _ _ _ hat => hgrows.inoAt hat⟩

/-- A HUP: who waits is woken. -/
theorem Sound.hup (h : Sound s) {fd : Nat} (hsock : s.sock = some (some fd)) :
    Sound { s.letGo with sock := some none, place := s.place.roused } := by
  have howned : Owned { s.letGo with sock := some none, place := s.place.roused } :=
    h.owned.letGo rfl _
  refine ⟨⟨howned, ?_, ?_⟩, ?_⟩
  · intro k d hd hdone
    obtain ⟨hk, hconnecting, hfd⟩ := h.timed k d hd hdone
    cases hplace : s.place <;> simp_all [Place.connecting, Place.roused, State.letGo]
  · intro habort
    obtain ⟨hplace, hup⟩ := h.aborting habort
    exact ⟨by rw [hplace]; rfl, hup⟩
  · have hfits := h.fits
    unfold State.fits at hfits ⊢
    cases hplace : s.place <;> rw [hplace] at hfits
    case outside =>
      refine ⟨hfits.1, fun hconn => ?_⟩
      have hnone := (hfits.2 hconn).2
      rw [hsock] at hnone
      cases hnone
    case wait => exact ⟨hfits.1, rfl, hfits.2.2⟩
    case parked => exact hfits.1
    case starting | finishing =>
      rw [hsock] at hfits
      cases hfits.2
    case register =>
      rw [hsock] at hfits
      cases hfits.2.1
    all_goals exact hfits

theorem Sound.failReset (h : Sound s) {err : String} (hplace : s.place = .failing err) :
    Sound { s.resetSock with place := .finishing err } := by
  have hfits := h.fits
  rw [State.fits, hplace] at hfits
  exact h.aside (by rw [hplace]; rfl) (h.abort_none (by rw [hplace]; exact Place.noConfusion))
    (h.owned.letGo rfl _) rfl rfl ⟨hfits, rfl⟩

theorem Sound.failFinish (h : Sound s) {err : String} (hplace : s.place = .finishing err) :
    Sound ({ s.pqFinish with connected := false }.ret (some err)) := by
  have howned := h.owned.pqClose
  have hfits := h.fits
  rw [State.fits, hplace] at hfits
  obtain ⟨files, hits, heq⟩ := pqClose_eq s
  rw [State.pqFinish, heq]
  rw [heq] at howned
  exact h.aside (by rw [hplace]; rfl) (h.abort_none (by rw [hplace]; exact Place.noConfusion))
    ⟨howned.pq, howned.poller, howned.watched, howned.hits⟩ rfl rfl
    ⟨rfl, fun _ => ⟨rfl, hfits.2⟩⟩

theorem Sound.close (h : Sound s) (hplace : s.place = .outside) (habort : s.abort = none) :
    Sound { s with connected := false, place := .closeFinish } :=
  h.aside (by rw [hplace]; rfl) habort
    ⟨h.owned.pq, h.owned.poller, h.owned.watched, h.owned.hits⟩ rfl rfl rfl

theorem Sound.closeFinish (h : Sound s) (hplace : s.place = .closeFinish) :
    Sound { s.pqFinish with place := .closeReset } := by
  have howned := h.owned.pqClose
  have hfits := h.fits
  rw [State.fits, hplace] at hfits
  obtain ⟨files, hits, heq⟩ := pqClose_eq s
  rw [State.pqFinish, heq]
  rw [heq] at howned
  exact h.aside (by rw [hplace]; rfl) (h.abort_none (by rw [hplace]; exact Place.noConfusion))
    ⟨howned.pq, howned.poller, howned.watched, howned.hits⟩ rfl rfl ⟨rfl, hfits, rfl⟩

theorem Sound.closeReset (h : Sound s) (hplace : s.place = .closeReset) :
    Sound { s.resetSock with place := .outside } := by
  have hfits := h.fits
  rw [State.fits, hplace] at hfits
  exact h.aside (by rw [hplace]; rfl) (h.abort_none (by rw [hplace]; exact Place.noConfusion))
    (h.owned.letGo rfl _) rfl rfl ⟨hfits.1.trans hfits.2.1.symm, fun _ => ⟨hfits.2.2, rfl⟩⟩

/-- The watchdog shuts down whatever the number names. -/
theorem Sound.abortShut (h : Sound s) (fd : Nat) :
    Sound { s.shutdownFd (.watchdog s.attempt) fd with abort := none } := by
  refine ⟨⟨⟨h.owned.pq, h.owned.poller, h.owned.watched, ?_⟩, h.timed,
    fun hne => absurd rfl hne⟩, h.fits⟩
  intro hit hmem
  rcases List.mem_append.mp hmem with hmem | hmem
  · exact h.owned.hits hit hmem
  · rw [List.mem_singleton.mp hmem]
    exact .inr ⟨_, rfl⟩

/-- **Step rule.** -/
theorem sound_step (h : Sound s) (hstep : Stepped s e s') : Sound s' := by
  cases hstep with
  | connectStart hplace hconn => exact h.connectStart hplace hconn
  | startNull hplace hnone => exact h.startNull hplace hnone
  | started hplace =>
      exact h.ownDeadline (by rw [hplace]; exact Place.noConfusion) (fun _ => ⟨rfl, rfl⟩)
        (h.fits.unconnected (.inr (.inl hplace)))
  | fails err hplace _ =>
      exact h.aside (not_connecting_of_ending hplace) (h.abort_none (ending_ne_outside hplace))
        h.owned.moved rfl rfl (h.fits.unconnected (.inr hplace))
  | goes hplace hgoes _ => exact h.goes (hplace ▸ hgoes)
  | same fd hplace _ _ =>
      have hend : s.place.ending = true := by rw [hplace]; rfl
      exact h.connected hend (h.fits.unconnected (.inr (.inr hend)))
  | rewatch next fd ino hplace hfd hino => exact h.rewatch hplace hfd hino
  | register next fd ino own files hplace hdup => exact h.register hplace hdup
  | polled r d hplace hd =>
      have hconnecting : s.place.connecting = true := by rw [hplace]; rfl
      have hup := h.fits.unconnected (.inl hconnecting)
      cases r <;> exact h.ownDeadline (connecting_ne_outside hconnecting) (fun _ => ⟨rfl, rfl⟩) hup
  | finish err d hplace hd =>
      have hconnecting : s.place.connecting = true := by rw [hplace]; rfl
      have hup := h.fits.unconnected (.inl hconnecting)
      cases err <;>
        exact h.ownDeadline (connecting_ne_outside hconnecting) (fun hdone => by cases hdone) hup
  | failReset err hplace => exact h.failReset hplace
  | failFinish err hplace => exact h.failFinish hplace
  | pqOpen fd ino files hplace hnone hsocket =>
      exact h.pqSocket (h.owned.pqOpen hnone hsocket) hplace ⟨rfl, rfl, rfl, rfl, rfl, rfl, rfl⟩
  | pqDrop hplace => exact h.pqDrop hplace
  | hup fd hsock => exact h.hup hsock
  | pollerClose fd hmem => exact h.pollerClose hmem
  | runsOut k d hd _ => exact h.setDeadline hd rfl rfl
  | fire k d hd _ _ _ => exact h.setDeadline hd rfl rfl
  | cut k d fd hd hdone hfree hfd => exact h.cut hd hdone hfree hfd
  | close hplace habort => exact h.close hplace habort
  | closeShut fd hplace habort hsock =>
      have hclosed := h.close hplace habort
      have hown : s.files.ownerAt fd = some (Party.owner .poller) := h.owned.pollerOwner hsock
      exact ⟨⟨hclosed.owned.shutdownFd hown, hclosed.timed, hclosed.aborting⟩, hclosed.fits⟩
  | closeFinish hplace => exact h.closeFinish hplace
  | closeReset hplace => exact h.closeReset hplace
  | abortRead hplace hup =>
      exact ⟨⟨⟨h.owned.pq, h.owned.poller, h.owned.watched, h.owned.hits⟩, h.timed,
        fun _ => ⟨hplace, hup⟩⟩, h.fits⟩
  | abortSkip _ =>
      exact ⟨⟨⟨h.owned.pq, h.owned.poller, h.owned.watched, h.owned.hits⟩, h.timed,
        fun hne => absurd rfl hne⟩, h.fits⟩
  | abortShut fd _ => exact h.abortShut fd
  | otherOpen fd ino files hsocket =>
      exact h.otherGrows (Files.grows_socket hsocket) fun owner own hne hholds =>
        hholds.socket_ne hsocket hne.symm
  | otherDup fd fd' files hdup =>
      exact h.otherGrows (Files.grows_dup hdup) fun owner own hne hholds =>
        hholds.dup_ne hdup hne.symm
  | otherClose fd hown => exact h.otherClose hown

end

/-! ## Every run -/

section

variable {es : List Event} {s : State}

theorem sound_of_exec (h : exec step State.init es = some s) : Sound s :=
  exec_invariant Sound (fun _ _ _ hs hstep => sound_step hs (step_stepped hstep)) sound_init h

/-- libpq gives up the first host; somebody takes the number before its next socket, and the
poller is late with the close of its first dup. -/
def twoHosts : List Event :=
  [.connectStart, .pqOpen 5 77, .started .ok, .watch, .register (some 6), .ready false, .wake,
    .enter false 3, .pqDrop, .otherOpen 5 80, .pqOpen 7 78, .polled .reading, .watch,
    .register (some 8), .pollerClose 6, .ready false]

/-- `twoHosts`, and then the deadline: the connect fails. -/
def twoHostsLate : List Event :=
  twoHosts ++ [.timer 1, .wake, .enter false 5000, .finish, .failReset, .failFinish]

/-- **Own descriptors.**  Whatever libpq, the poller or the timer of any connect closes or
shuts down, in whatever order the parties run and however the kernel reuses numbers, is a
descriptor of the party's own connect. -/
theorem closes_own_descriptor (h : exec step State.init es = some s) {hit : Hit}
    (hmem : hit ∈ s.hits) (hparty : ∀ k, hit.party ≠ .watchdog k) : hit.Own := by
  rcases (sound_of_exec h).owned.hits hit hmem with hown | ⟨k, hk⟩
  · exact hown
  · exact absurd hk (hparty k)

theorem closes_own_descriptor_timer :
    ∃ s, exec step State.init twoHostsLate = some s ∧
      ∃ hit ∈ s.hits, hit.party = .timer 1 ∧ hit.Own := by
  have hrun : (exec step State.init twoHostsLate).map
      (fun s => decide (⟨.timer 1, some (.libpq 1)⟩ ∈ s.hits)) = some true := by decide
  obtain ⟨s, hs, hmem⟩ := Option.map_eq_some_iff.mp hrun
  exact ⟨s, hs, _, of_decide_eq_true hmem, rfl,
    closes_own_descriptor hs (of_decide_eq_true hmem) fun k hk => by cases hk⟩

/-- **What the handshake waits for.**  While it is parked, the poller watches a descriptor of
its own, and that descriptor names the socket libpq uses. -/
theorem parked_on_libpq_socket (h : exec step State.init es = some s) {reading : Bool}
    (hplace : s.place = .parked reading) :
    ∃ own fd sock, s.sock = some (some own) ∧ s.pqSocket = some fd ∧ own ≠ fd ∧
      s.files.sockAt own = some sock ∧ s.files.sockAt fd = some sock := by
  have hsound := sound_of_exec h
  have hfits := hsound.fits
  rw [State.fits, hplace] at hfits
  obtain ⟨-, hopen, fd, hfd, hat⟩ := hfits
  obtain ⟨own, hown⟩ := Option.isSome_iff_exists.mp hopen
  have hsock : s.sock = some (some own) := Option.join_eq_some_iff.mp hown
  have hne : own ≠ fd := by
    rintro rfl
    have howner := hsound.owned.pqOwner.mpr hfd
    rw [hsound.owned.pollerOwner hsock] at howner
    cases howner
  have hsame := Files.sockAt_eq_of_inoAt (hsound.owned.watched own hsock) hat
  obtain ⟨e, he, -⟩ := Option.map_eq_some_iff.mp hat
  have hsockAt : s.files.sockAt fd = some e.sock := by rw [Files.sockAt, he]; rfl
  exact ⟨own, fd, e.sock, hsock, hfd, hne, hsame.trans hsockAt, hsockAt⟩

theorem parked_on_libpq_socket_second_host :
    ∃ s, exec step State.init twoHosts = some s ∧
      ∃ own fd sock, s.sock = some (some own) ∧ s.pqSocket = some fd ∧ own ≠ fd ∧
        s.files.sockAt own = some sock ∧ s.files.sockAt fd = some sock := by
  have hrun : (exec step State.init twoHosts).map State.place = some (.parked true) := by decide
  obtain ⟨s, hs, hplace⟩ := Option.map_eq_some_iff.mp hrun
  exact ⟨s, hs, parked_on_libpq_socket hs hplace⟩

/-- A connection object that has no `conn_` and is not in a call has no descriptor but those
the poller has still to close. -/
theorem Sound.owner_left (h : Sound s) (hplace : s.place = .outside) (hconn : s.conn = false)
    {fd : Nat} {owner : Owner} (hfd : s.files.ownerAt fd = some owner) :
    owner = .other ∨ (owner = .poller ∧ fd ∈ s.closing) := by
  have hfits := h.fits
  rw [State.fits, hplace] at hfits
  obtain ⟨hpq, hsock⟩ := hfits.2 hconn
  cases owner with
  | libpq k =>
      have hown := ((h.owned.pq k).owned fd).mp hfd
      rw [hpq, Option.toList_none, ite_self] at hown
      cases hown
  | poller =>
      have hown := (h.owned.poller.owned fd).mp hfd
      rw [hsock] at hown
      exact .inr ⟨rfl, hown⟩
  | other => exact .inl rfl

/-- The poller makes the closes that were left to it, one after the other. -/
theorem exec_pollerCloses (s : State) :
    ∃ t, exec step s (s.closing.map .pollerClose) = some t ∧ t.closing = [] ∧
      t.place = s.place ∧ t.conn = s.conn := by
  generalize hclosing : s.closing = fds
  induction fds generalizing s with
  | nil => exact ⟨s, rfl, hclosing, rfl, rfl⟩
  | cons fd fds ih =>
      let s₁ : State := { s.closeFd .poller fd with closing := s.closing.erase fd }
      have hstep : step s (.pollerClose fd) = some s₁ :=
        if_pos (by rw [hclosing]; exact List.mem_cons_self)
      have hrest : s₁.closing = fds := by
        show s.closing.erase fd = fds
        rw [hclosing, List.erase_cons_head]
      obtain ⟨t, hrun, hkept⟩ := ih s₁ hrest
      exact ⟨t, (exec_cons_of_step hstep _).trans hrun, hkept⟩

/-- **Nothing is left open.**  A connection object that has no `conn_` and is not in a call
(after a connect that failed, whatever it failed at, and after `close`) has no descriptor but
the dups whose close the poller still owes; and when it has made these, there is none. -/
theorem no_descriptor_left (h : exec step State.init es = some s) (hplace : s.place = .outside)
    (hconn : s.conn = false) :
    (∀ fd owner, s.files.ownerAt fd = some owner →
      owner = .other ∨ (owner = .poller ∧ fd ∈ s.closing)) ∧
    ∃ t, exec step s (s.closing.map .pollerClose) = some t ∧
      ∀ fd owner, t.files.ownerAt fd = some owner → owner = .other := by
  have hsound := sound_of_exec h
  refine ⟨fun fd owner hfd => hsound.owner_left hplace hconn hfd, ?_⟩
  obtain ⟨t, hrun, hclosing, hplace', hconn'⟩ := exec_pollerCloses s
  have hsound' : Sound t :=
    exec_invariant Sound (fun _ _ _ hs hstep => sound_step hs (step_stepped hstep)) hsound hrun
  refine ⟨t, hrun, fun fd owner hfd => ?_⟩
  rcases hsound'.owner_left (hplace'.trans hplace) (hconn'.trans hconn) hfd with hother | ⟨-, hmem⟩
  · exact hother
  · rw [hclosing] at hmem
    cases hmem

/-- After the timeout the poller still has a dup to close, and somebody else has number 5. -/
theorem no_descriptor_left_after_timeout :
    ∃ s, exec step State.init twoHostsLate = some s ∧ s.closing = [8] ∧
      s.files.ownerAt 5 = some .other ∧
      ∃ t, exec step s [.pollerClose 8] = some t ∧
        ∀ fd owner, t.files.ownerAt fd = some owner → owner = .other := by
  have hrun : (exec step State.init twoHostsLate).map
      (fun s => (s.place, s.conn, s.closing, s.files.ownerAt 5)) =
      some (.outside, false, [8], some .other) := by
    decide
  obtain ⟨s, hs, hend⟩ := Option.map_eq_some_iff.mp hrun
  simp only [Prod.mk.injEq] at hend
  obtain ⟨hplace, hconn, hclosing, hfive⟩ := hend
  have hleft := (no_descriptor_left hs hplace hconn).2
  rw [hclosing] at hleft
  exact ⟨s, hs, hclosing, hfive, hleft⟩

end

/-! ## The watchdog -/

/-- The shutdowns of the watchdog. -/
def State.aborts (s : State) : List Hit :=
  s.hits.filter fun h =>
    match h.party with
    | .watchdog _ => true
    | _ => false

section

variable {s s' : State} {hit : Hit}

/-- A hit of somebody else. -/
theorem aborts_append (h : s'.hits = s.hits ++ [hit]) (hparty : ∀ k, hit.party ≠ .watchdog k) :
    s'.aborts = s.aborts := by
  rw [State.aborts, h, List.filter_append, List.filter_cons_of_neg, List.filter_nil,
    List.append_nil]
  · rfl
  · split
    · exact absurd ‹_› (hparty _)
    · exact Bool.false_ne_true

theorem aborts_pqClose (s : State) : s.pqClose.aborts = s.aborts := by
  unfold State.pqClose
  split
  · rfl
  · exact aborts_append rfl fun _ => Party.noConfusion

/-- Nobody else shuts down for the watchdog. -/
theorem aborts_step {e : Event} (hstep : Stepped s e s') (he : e ≠ .abortShut) :
    s'.aborts = s.aborts := by
  cases hstep with
  | register next fd ino own files _ _ => cases next <;> rfl
  | failFinish err _ => exact aborts_pqClose s
  | pqDrop _ => exact aborts_pqClose s
  | pollerClose fd _ => exact aborts_append rfl fun _ => Party.noConfusion
  | cut k d fd _ _ _ _ => exact aborts_append rfl fun _ => Party.noConfusion
  | closeShut fd _ _ _ => exact aborts_append rfl fun _ => Party.noConfusion
  | closeFinish _ => exact aborts_pqClose s
  | abortSkip _ => exact absurd rfl he
  | abortShut fd _ => exact absurd rfl he
  | _ => rfl

/-- What the watchdog is about to shut down is the socket libpq has. -/
def Current (s : State) (e : Event) : Prop :=
  e = .abortShut → ∀ fd, s.abort = some (some fd) → s.pqSocket = some fd

instance (s : State) (e : Event) : Decidable (Current s e) :=
  decidable_of_iff (e = .abortShut → ∀ fd ∈ s.abort.join, s.pqSocket = some fd)
    (by simp [Current, Option.join_eq_some_iff])

/-- All the watchdog met was its connection's. -/
theorem aborts_own_step {e : Event} (h : Sound s) (hstep : Stepped s e s') :
    (∀ hit ∈ s'.aborts, hit.Own) ↔ (∀ hit ∈ s.aborts, hit.Own) ∧ Current s e := by
  by_cases he : e = .abortShut
  · subst he
    cases hstep with
    | fails _ _ he => cases he
    | goes _ _ he => cases he
    | runsOut k d _ he => rcases he with he | ⟨he, -⟩ <;> cases he
    | abortSkip hnone => simp [State.aborts, Current, hnone]
    | abortShut fd hfd =>
        simp [State.aborts, State.shutdownFd, Current, hfd, Hit.Own, Party.owner, h.owned.pqOwner,
          or_imp, forall_and]
  · rw [aborts_step hstep he]
    exact (and_iff_left fun habort => absurd habort he).symm

theorem hits_own_iff_aborts (h : Sound s) :
    (∀ hit ∈ s.hits, hit.Own) ↔ ∀ hit ∈ s.aborts, hit.Own := by
  constructor
  · exact fun hall hit hmem => hall hit (List.mem_of_mem_filter hmem)
  · intro haborts hit hmem
    rcases h.owned.hits hit hmem with hown | ⟨k, hk⟩
    · exact hown
    · exact haborts hit (List.mem_filter.mpr ⟨hmem, by rw [hk]⟩)

/-- **The watchdog.**  Every close and shutdown of a run meets an own descriptor exactly when
libpq never gives up its socket between the watchdog's `PQsocket` and its shutdown(2):
`close_mtx_` keeps `close` out of there, and nothing keeps libpq out. -/
theorem hits_own_iff {es : List Event} (h : exec step State.init es = some s) :
    (∀ hit ∈ s.hits, hit.Own) ↔ Guarded step Current State.init es := by
  have hall := exec_iff_guarded (fun _ _ _ hs hstep => sound_step hs (step_stepped hstep))
    (fun _ _ _ hs hstep => aborts_own_step hs (step_stepped hstep)) sound_init h
  rw [hits_own_iff_aborts (sound_of_exec h), hall]
  exact and_iff_right fun hit hmem => by cases hmem

/-- The connection breaks under the watchdog, and the number is taken. -/
theorem hits_own_iff_broken :
    ∃ es s, exec step State.init es = some s ∧ ⟨.watchdog 1, some .other⟩ ∈ s.hits ∧
      ¬Guarded step Current State.init es := by
  have hrun : (exec step State.init
      [.connectStart, .pqOpen 5 77, .started .ok, .watch, .register (some 6), .ready true,
        .enter false 3, .polled .ok, .finish, .watch, .abortRead, .pqDrop, .otherOpen 5 80,
        .abortShut]).map
      (fun s => decide (⟨.watchdog 1, some .other⟩ ∈ s.hits)) = some true := by decide
  obtain ⟨s, hs, hmem⟩ := Option.map_eq_some_iff.mp hrun
  have hmem := of_decide_eq_true hmem
  refine ⟨_, s, hs, hmem, fun hguarded => ?_⟩
  have hown := (hits_own_iff hs).mpr hguarded _ hmem
  cases hown

end

end Upq.Handshake
