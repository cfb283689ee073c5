/-
  Notify/Multiplexer.lean --- `PgNotificationMultiplexer` over one connection.

  Source: `include/upq/PgNotificationMultiplexer.h`; the connection's
  `exec_simple_query_nonblocking` (`run_query`, `collect_step`) and
  `wait_readable_for_listener` (`IoWait::await_ready`) of `include/upq/PgConnection.h`
  and `src/upq/PgConnection.cpp`.

  Every section under `mtx_` is one step, and so is every read that `listen_direct` and
  `resubscribe_all` make while they own the connection.  Whatever the callers on other
  workers, the scheduler, the network and the server choose is in the event, so a run
  over arbitrary events is any interleaving with losses and failed sends anywhere.

  What is assumed of the outside:
  - the server accepts every LISTEN and UNLISTEN, and answers it with CommandComplete
    and ReadyForQuery in this order; notifications may come between any two messages;
  - a new session listens to nothing;
  - calls of `add_handler` made before `run()` do not overlap (the header of the class
    asks for this).

  A message counts as sent when it arrives in the kernel's socket buffer.  Handlers are
  their ids; `channels_`, which only the detached runs behind `dispatch` use, is added in
  `Channels.lean`.
-/
import Mathlib.Data.List.AList
import Mathlib.Data.Finset.Basic
import Upq.Foundation.Machine
import Upq.Notify.Libpq

set_option autoImplicit false

namespace Upq.Notify

open Upq.Libpq

/-! ## The connection -/

structure Notification where
  channel : String
  payload : String
  pid : Int
  deriving DecidableEq, Repr

/-- `statement(listen, channel)` -/
structure Statement where
  listen : Bool
  channel : String
  deriving DecidableEq, Repr

/-- What a statement does to the channels a session listens to. -/
def Statement.apply (st : Statement) (listens : Finset String) : Finset String :=
  if st.listen then insert st.channel listens else listens.erase st.channel

/-- `conn_` and the session behind it.  `up` is `connected()`.  `alive` says that the
session works and this side has not given it up.  `pending` is a statement the server has
not executed yet, `owed` the part of a reply that has not arrived, `sock` the kernel's
buffer.  `taken` and `dispatched` remember the notifications read off the socket of
this connection, and those that went to `dispatch`. -/
structure Conn where
  up : Bool
  alive : Bool
  listens : Finset String
  pending : Option Statement
  owed : List (Msg Notification)
  sock : List (Msg Notification)
  pq : Pq Notification
  taken : List Notification
  dispatched : List Notification
  deriving DecidableEq

namespace Conn

/-- A connection just made (`up`), or one that never was. -/
def fresh (up : Bool) : Conn :=
  { up := up, alive := up, listens := ∅, pending := none, owed := [], sock := []
    pq := ⟨.idle, [], []⟩, taken := [], dispatched := [] }

/-- `PQsendQuery` and `PQflush`.  A statement is refused while another one is not
collected; a failed send ends with the socket shut down, or `connected_` cleared. -/
def send (c : Conn) (st : Statement) (sendOk : Bool) : Bool × Conn :=
  if sendOk && decide (c.pq.async = .idle) then
    (true, { c with pending := some st, pq := { c.pq with async := .busy } })
  else (false, { c with alive := false })

/-- `PQconsumeInput` -/
def read (c : Conn) : Conn :=
  { c with
    pq := c.pq.consumeInput c.sock, sock := []
    taken := c.taken ++ notesOf c.sock }

/-- `collect_step`: whether the reply has ended. -/
def collect (c : Conn) : Bool × Conn :=
  match c.read.pq.takeResults with
  | (fin, pq) => (fin, { c.read with pq := pq })

/-- A query that failed or was canceled leaves `connected_` cleared. -/
def giveUp (c : Conn) : Conn := { c with up := false, alive := false }

end Conn

/-! ## State -/

/-- A `Command`; `hid` is the handler of the `add_handler` call that waits for it. -/
structure Command where
  channel : String
  listen : Bool
  hid : Option Nat
  deriving DecidableEq, Repr

def Command.statement (cmd : Command) : Statement := ⟨cmd.listen, cmd.channel⟩

/-- The `add_handler` call before `run()` that sends its own LISTEN: before the send,
waiting for the reply, with the result of `listen_direct`, and before it takes its
handler back.  `direct_busy_` is 1 up to and with `ended`. -/
inductive Direct where
  | none
  | unsent (channel : String) (hid : Nat)
  | sent (channel : String) (hid : Nat)
  | ended (channel : String) (hid : Nat) (ok : Bool)
  | erasing (channel : String) (hid : Nat)
  deriving DecidableEq, Repr

def Direct.busy : Direct → Bool
  | .unsent .. | .sent .. | .ended .. => true
  | .none | .erasing .. => false

/-- Where the run loop is: in the loop that waits for `direct_busy_` (or not called),
before the check of `connected()`, in `reconnect()` (`connecting` up to the store to
`conn_`, `snapshot` to `resubscribing` in `resubscribe_all`, with the names to come),
before, in and after `wait_readable_for_listener`, dispatching a batch, or returned. -/
inductive Loop where
  | starting
  | top
  | connecting
  | snapshot
  | resubscribe (names : List String)
  | resubscribing (names : List String)
  | wait
  | parked
  | drain
  | dispatch (batch : List Notification)
  | finished
  deriving DecidableEq, Repr

/-- A registry: channels with the ids of their handlers. -/
abbrev Handlers := AList fun _ : String => List Nat

/-- The multiplexer with the calls in progress.  `waiting` are the `add_handler` calls
that wait for their command, `granted` the handlers whose command is `done` and `ok`,
`failed` the calls that are about to take their handler back. -/
structure State where
  exact : Handlers
  wildcard : Handlers
  commands : List Command
  inflight : Option Command
  running : Bool
  connReady : Bool
  direct : Direct
  nextHandlerId : Nat
  waiting : List (String × Nat)
  granted : List Nat
  failed : List (String × Nat)
  conn : Conn
  loop : Loop

/-- The multiplexer as constructed, over a connection that is up or not. -/
def State.init (up : Bool) : State :=
  { exact := ∅, wildcard := ∅, commands := [], inflight := none, running := false
    connReady := false, direct := .none, nextHandlerId := 1, waiting := [], granted := []
    failed := [], conn := Conn.fresh up, loop := .starting }

/-! ## The sections under the lock -/

/-- `is_wildcard` -/
def isWildcard (ch : String) : Bool :=
  match ch.toList.reverse with
  | '*' :: '.' :: _ => true
  | _ => false

namespace State

/-- The loop of `start_next_command_locked` over the queue.  It sends at most once, so one
`sendOk` is enough. -/
def startNextLoop (sendOk : Bool) : List Command → State → State
  | [], s => { s with commands := [] }
  | cmd :: rest, s =>
      if s.inflight.isNone && s.connReady then
        if cmd.listen ≠ decide (cmd.channel ∈ s.exact) then
          -- superseded: done and ok without a round trip
          startNextLoop sendOk rest { s with granted := cmd.hid.toList ++ s.granted }
        else
          match s.conn.send cmd.statement sendOk with
          | (true, conn) => { s with commands := rest, conn := conn, inflight := some cmd }
          | (false, conn) => { s with commands := cmd :: rest, conn := conn, connReady := false }
      else { s with commands := cmd :: rest }

/-- `start_next_command_locked` -/
def startNextCommandLocked (s : State) (sendOk : Bool) : State :=
  startNextLoop sendOk s.commands s

/-- `queue_unlisten_locked` -/
def queueUnlistenLocked (s : State) (channel : String) (sendOk : Bool) : State :=
  let s := { s with commands := s.commands ++ [Command.mk channel false none] }
  if s.running then s.startNextCommandLocked sendOk else s

/-- `erase_exact_locked` -/
def eraseExactLocked (s : State) (channel : String) (id : Nat) (sendOk : Bool) : State × Bool :=
  match s.exact.lookup channel with
  | none => (s, false)
  | some handlers =>
      if id ∈ handlers then
        if handlers.erase id = [] then
          (({ s with exact := s.exact.erase channel }).queueUnlistenLocked channel sendOk, true)
        else ({ s with exact := s.exact.insert channel (handlers.erase id) }, true)
      else (s, false)

/-- The first section of `add_handler`.  `none`: before `run()`, another call is in
progress. -/
def addHandler (s : State) (channel : String) (sendOk : Bool) : Option State :=
  let hid := s.nextHandlerId
  let s := { s with nextHandlerId := hid + 1 }
  if isWildcard channel then
    let handlers := (s.wildcard.lookup channel).getD []
    some { s with wildcard := s.wildcard.insert channel (handlers ++ [hid]) }
  else if !s.running && decide (s.direct ≠ .none) then none
  else
    let handlers := (s.exact.lookup channel).getD []
    let s := { s with exact := s.exact.insert channel (handlers ++ [hid]) }
    if handlers = [] then
      if s.running then
        some (({ s with
            commands := s.commands ++ [Command.mk channel true (some hid)]
            waiting := s.waiting ++ [(channel, hid)] }).startNextCommandLocked sendOk)
      else some { s with direct := .unsent channel hid }
    else some s

/-- `add_handler` goes on after the wait for its command, which also a cancellation
ends. -/
def addHandlerResume (s : State) (channel : String) (hid : Nat) : State :=
  let s := { s with waiting := s.waiting.erase (channel, hid) }
  if hid ∈ s.granted then s else { s with failed := s.failed ++ [(channel, hid)] }

/-- The last section of an `add_handler` whose LISTEN failed. -/
def addHandlerErase (s : State) (channel : String) (hid : Nat) (sendOk : Bool) : State :=
  (({ s with failed := s.failed.erase (channel, hid) }).eraseExactLocked channel hid sendOk).1

/-- `remove_handler` -/
def removeHandler (s : State) (id : Nat) (channel : String) (wildcard sendOk : Bool) :
    State × Bool :=
  if wildcard then
    match s.wildcard.lookup channel with
    | none => (s, false)
    | some handlers =>
        if handlers.erase id = [] then
          ({ s with wildcard := s.wildcard.erase channel }, decide (id ∈ handlers))
        else
          ({ s with wildcard := s.wildcard.insert channel (handlers.erase id) },
            decide (id ∈ handlers))
  else s.eraseExactLocked channel id sendOk

/-- `remove_channel` -/
def removeChannel (s : State) (channel : String) (sendOk : Bool) : State × Bool :=
  if isWildcard channel then
    ({ s with wildcard := s.wildcard.erase channel }, decide (channel ∈ s.wildcard))
  else if channel ∈ s.exact then
    (({ s with exact := s.exact.erase channel }).queueUnlistenLocked channel sendOk, true)
  else (s, false)

/-- `connection_lost_locked` -/
def connectionLostLocked (s : State) : State :=
  { s with connReady := false, commands := s.inflight.toList ++ s.commands, inflight := none }

/-- `drain_locked` after a `PQconsumeInput` that worked; the batch stays with the run
loop. -/
def drainLocked (s : State) (sendOk : Bool) : State :=
  let conn := s.conn.read
  match conn.pq.takeNotes with
  | (batch, pq) =>
      let s := { s with loop := .dispatch batch }
      match s.inflight with
      | none => ({ s with conn := { conn with pq := pq } }).startNextCommandLocked sendOk
      | some cmd =>
          match pq.takeResults with
          | (false, pq) => ({ s with conn := { conn with pq := pq } }).startNextCommandLocked sendOk
          | (true, pq) =>
              ({ s with
                conn := { conn with pq := pq }, inflight := none
                granted := cmd.hid.toList ++ s.granted }).startNextCommandLocked sendOk

/-- `drain_locked` after a `PQconsumeInput` that failed: what was parsed before is
delivered, and `PQgetResult` may answer with an error (`errorResult`), which makes the
statement in flight done and not ok. -/
def drainFailed (s : State) (errorResult sendOk : Bool) : State :=
  match s.conn.pq.takeNotes with
  | (batch, pq) =>
      ({ s with
        loop := .dispatch batch, conn := { s.conn with up := false, pq := pq }
        inflight := if errorResult then none else s.inflight }).startNextCommandLocked sendOk

end State

/-! ## Steps -/

/-- One step, with what the environment chose for it. -/
inductive Event where
  -- callers on any worker
  | addHandler (channel : String) (sendOk : Bool)
  | addHandlerResume (channel : String) (hid : Nat)
  | addHandlerErase (channel : String) (hid : Nat) (sendOk : Bool)
  | removeHandler (id : Nat) (channel : String) (wildcard sendOk : Bool)
  | removeChannel (channel : String) (sendOk : Bool)
  -- the rest of an `add_handler` call made before `run()`
  | directSend (sendOk : Bool)
  | directCollect (ok : Bool)
  | directDone
  | directErase (sendOk : Bool)
  -- the run loop
  | start (sendOk : Bool)
  | check
  | connect
  | snapshot (names : List String)
  | resubscribe (sendOk : Bool)
  | resubscribeCollect (ok : Bool)
  | wait (park : Bool)
  | wake
  | drain (sendOk : Bool)
  | drainFailed (errorResult sendOk : Bool)
  | dispatch
  | cancel
  -- the server and the network
  | execute
  | reply
  | notify (n : Notification)
  | lose (noticed : Bool)
  deriving DecidableEq, Repr

/-- The steps of `add_handler` before `run()` behind its first section. -/
def directStep (s : State) : Event → Option State
  | .directSend sendOk =>
      match s.direct with
      | .unsent channel hid =>
          if s.conn.up then
            match s.conn.send ⟨true, channel⟩ sendOk with
            | (true, conn) => some { s with conn := conn, direct := .sent channel hid }
            | (false, conn) =>
                some { s with conn := conn.giveUp, direct := .ended channel hid false }
          else some { s with direct := .ended channel hid false }
      | _ => none
  | .directCollect ok =>
      match s.direct with
      | .sent channel hid =>
          if ok then
            match s.conn.collect with
            | (true, conn) => some { s with conn := conn, direct := .ended channel hid true }
            | (false, conn) => some { s with conn := conn }
          else some { s with conn := s.conn.giveUp, direct := .ended channel hid false }
      | _ => none
  | .directDone =>
      match s.direct with
      | .ended channel hid ok =>
          some { s with direct := if ok then .none else .erasing channel hid }
      | _ => none
  | .directErase sendOk =>
      match s.direct with
      | .erasing channel hid =>
          some (({ s with direct := .none }).eraseExactLocked channel hid sendOk).1
      | _ => none
  | _ => none

/-- The steps of `run()` outside `reconnect()`. -/
def runStep (s : State) : Event → Option State
  | .start sendOk =>
      if s.loop = .starting ∧ s.direct.busy = false then
        some (({ s with
          running := true, connReady := s.conn.up, loop := .top }).startNextCommandLocked
          sendOk)
      else none
  | .check =>
      if s.loop = .top then
        if s.conn.up then some { s with loop := .wait }
        else some { s.connectionLostLocked with loop := .connecting }
      else none
  | .wait park =>
      -- `await_ready` probes the kernel's buffer only
      if s.loop = .wait then
        if park then
          if s.conn.sock = [] then some { s with loop := .parked } else none
        else if s.conn.sock ≠ [] ∨ s.conn.alive = false then some { s with loop := .drain }
        else none
      else none
  | .wake => if s.loop = .parked then some { s with loop := .drain } else none
  | .drain sendOk => if s.loop = .drain then some (s.drainLocked sendOk) else none
  | .drainFailed errorResult sendOk =>
      if s.loop = .drain ∧ s.conn.alive = false then some (s.drainFailed errorResult sendOk)
      else none
  | .dispatch =>
      match s.loop with
      | .dispatch [] => some { s with loop := .top }
      | .dispatch (n :: batch) =>
          some { s with
            conn := { s.conn with dispatched := s.conn.dispatched ++ [n] }
            loop := .dispatch batch }
      | _ => none
  | .cancel =>
      match s.loop with
      | .starting | .connecting | .wait | .parked => some { s with loop := .finished }
      | _ => none
  | _ => none

/-- The steps of `reconnect()` and `resubscribe_all()`.  A failed attempt goes back to
`connecting`. -/
def reconnectStep (s : State) : Event → Option State
  | .connect =>
      if s.loop = .connecting then some { s with conn := Conn.fresh true, loop := .snapshot }
      else none
  | .snapshot names =>
      -- the order of an unordered_map is not known
      if s.loop = .snapshot ∧ names.Perm s.exact.keys then
        some { s with loop := .resubscribe names }
      else none
  | .resubscribe sendOk =>
      match s.loop with
      | .resubscribe [] =>
          some (({ s with connReady := true, loop := .top }).startNextCommandLocked sendOk)
      | .resubscribe (name :: names) =>
          if s.conn.up then
            match s.conn.send ⟨true, name⟩ sendOk with
            | (true, conn) => some { s with conn := conn, loop := .resubscribing names }
            | (false, conn) => some { s with conn := conn.giveUp, loop := .connecting }
          else some { s with loop := .connecting }
      | _ => none
  | .resubscribeCollect ok =>
      match s.loop with
      | .resubscribing names =>
          if ok then
            match s.conn.collect with
            | (true, conn) => some { s with conn := conn, loop := .resubscribe names }
            | (false, conn) => some { s with conn := conn }
          else some { s with conn := s.conn.giveUp, loop := .connecting }
      | _ => none
  | _ => none

/-- What the server and the network do to the connection. -/
def connStep (c : Conn) : Event → Option Conn
  | .execute =>
      match c.pending with
      | some st =>
          if c.alive then
            some { c with
              listens := st.apply c.listens, pending := none, owed := [.complete, .ready] }
          else none
      | none => none
  | .reply =>
      match c.owed with
      | m :: owed => some { c with owed := owed, sock := c.sock ++ [m] }
      | [] => none
  | .notify n => some { c with sock := c.sock ++ [.note n] }
  | .lose noticed => some { c with alive := false, up := c.up && !noticed }
  | _ => none

/-- One step of the multiplexer with its surroundings. -/
def step (s : State) : Event → Option State
  | .addHandler channel sendOk => s.addHandler channel sendOk
  | .addHandlerResume channel hid =>
      if (channel, hid) ∈ s.waiting then some (s.addHandlerResume channel hid) else none
  | .addHandlerErase channel hid sendOk =>
      if (channel, hid) ∈ s.failed then some (s.addHandlerErase channel hid sendOk) else none
  | .removeHandler id channel wildcard sendOk => some (s.removeHandler id channel wildcard sendOk).1
  | .removeChannel channel sendOk => some (s.removeChannel channel sendOk).1
  | e@(.directSend _) | e@(.directCollect _) | e@.directDone | e@(.directErase _) => directStep s e
  | e@(.connect) | e@(.snapshot _) | e@(.resubscribe _) | e@(.resubscribeCollect _) =>
      reconnectStep s e
  | e@.execute | e@.reply | e@(.notify _) | e@(.lose _) =>
      (connStep s.conn e).map fun conn => { s with conn := conn }
  | e => runStep s e

/-- Which part of the system takes a step. -/
inductive Stepped (s : State) : Event → State → Prop where
  | add {channel : String} {sendOk : Bool} {t : State} (h : s.addHandler channel sendOk = some t) :
      Stepped s (.addHandler channel sendOk) t
  | resume {channel : String} {hid : Nat} :
      Stepped s (.addHandlerResume channel hid) (s.addHandlerResume channel hid)
  | erase {channel : String} {hid : Nat} {sendOk : Bool} :
      Stepped s (.addHandlerErase channel hid sendOk) (s.addHandlerErase channel hid sendOk)
  | remove {id : Nat} {channel : String} {wildcard sendOk : Bool} :
      Stepped s (.removeHandler id channel wildcard sendOk)
        (s.removeHandler id channel wildcard sendOk).1
  | removeChannel {channel : String} {sendOk : Bool} :
      Stepped s (.removeChannel channel sendOk) (s.removeChannel channel sendOk).1
  | direct {e : Event} {t : State} (h : directStep s e = some t) : Stepped s e t
  | reconnect {e : Event} {t : State} (h : reconnectStep s e = some t) : Stepped s e t
  | run {e : Event} {t : State} (h : runStep s e = some t) : Stepped s e t
  | conn {e : Event} {c : Conn} (h : connStep s.conn e = some c) : Stepped s e { s with conn := c }

theorem step_stepped {s t : State} {e : Event} (hstep : step s e = some t) : Stepped s e t := by
  cases e with
  | addHandler channel sendOk => exact .add hstep
  | addHandlerResume channel hid =>
      simp only [step, Option.ite_none_right_eq_some, Option.some.injEq] at hstep
      exact hstep.2 ▸ .resume
  | addHandlerErase channel hid sendOk =>
      simp only [step, Option.ite_none_right_eq_some, Option.some.injEq] at hstep
      exact hstep.2 ▸ .erase
  | removeHandler id channel wildcard sendOk => exact Option.some.inj hstep ▸ .remove
  | removeChannel channel sendOk => exact Option.some.inj hstep ▸ .removeChannel
  | directSend _ | directCollect _ | directDone | directErase _ => exact .direct hstep
  | connect | snapshot _ | resubscribe _ | resubscribeCollect _ => exact .reconnect hstep
  | execute | reply | notify _ | lose _ =>
      simp only [step, Option.map_eq_some_iff] at hstep
      obtain ⟨conn, hconn, rfl⟩ := hstep
      exact .conn hconn
  | start _ | check | wait _ | wake | drain _ | drainFailed _ _ | dispatch | cancel =>
      exact .run hstep

end Upq.Notify
