/-
  Notify/Calls.lean --- what `add_handler` returns when the server may reject a LISTEN.

  Source: `add_handler`, `erase_exact_locked`, `start_next_command_locked`, `drain_locked`
  and `resubscribe_all` in `include/upq/PgNotificationMultiplexer.h`.

  `Calls` is the multiplexer of `Multiplexer.lean` over a server that may answer a LISTEN
  with an error once `run()` has started; LISTENs before `run()` it accepts.  A rejected
  statement in flight is done and not ok (`inflight_ok_`), so the call that waits for it
  takes its handler back; a rejection in `resubscribe_all` fails the attempt to reconnect.

  `Books` accounts for the calls: every command belongs to one call, every call is in
  progress or has returned, and a handler whose call has not failed stays registered until
  it is removed.
-/
import Upq.Notify.Converge

set_option autoImplicit false

namespace Upq.Notify

open Upq.Libpq Upq.Foundation

/-! ## State -/

/-- The handlers registered on an exact channel. -/
def State.handlersOf (s : State) (channel : String) : List Nat := (s.exact.lookup channel).getD []

/-- The handlers whose calls wait for a command in flight or queued. -/
def State.ids (s : State) : List Nat := (s.inflight.toList ++ s.commands).filterMap Command.hid

/-- A drain now would see the reply of the command in flight to its end. -/
def State.completes (s : State) : Bool :=
  s.inflight.isSome && s.conn.read.pq.takeNotes.2.takeResults.1

/-- The multiplexer over a server that rejects LISTENs.  `unheard` are channels the session
does not listen to although it executed a LISTEN, `accepted` is the verdict on the statement
it executed last, `refused` are the handlers whose command is done and not ok for a
rejection.  `returned` are the handles given out for exact channels, `removed` what
`remove_handler` and `remove_channel` took out. -/
structure Calls where
  mux : State
  unheard : Finset String
  accepted : Bool
  refused : List Nat
  returned : List (String × Nat)
  removed : List (String × Nat)

/-- The multiplexer as constructed. -/
def Calls.init (up : Bool) : Calls :=
  { mux := State.init up, unheard := ∅, accepted := true, refused := [], returned := [],
    removed := [] }

namespace Calls

/-- The channels the session listens to. -/
def listening (s : Calls) : Finset String := s.mux.conn.listens \ s.unheard

/-- The LISTEN of the call that registered this handler was rejected. -/
def spoiled (s : Calls) (hid : Nat) : Bool :=
  s.refused.contains hid ||
    (!s.accepted && s.mux.conn.pending == none && s.mux.inflight.bind Command.hid == some hid)

/-! ## Steps -/

/-- What a step of the multiplexer does besides, `m` being the multiplexer after it. -/
def after (s : Calls) (m : State) : Event → Calls
  | .addHandler channel _ =>
      -- not the first handler of its channel: the call returns at once
      let joins := !isWildcard channel && s.mux.handlersOf channel != []
      { s with
        mux := m
        returned := s.returned ++ if joins then [(channel, s.mux.nextHandlerId)] else [] }
  | .addHandlerResume channel hid =>
      let ok := s.mux.granted.contains hid
      { s with mux := m, returned := s.returned ++ if ok then [(channel, hid)] else [] }
  | .directDone =>
      match s.mux.direct with
      | .ended channel hid true => { s with mux := m, returned := s.returned ++ [(channel, hid)] }
      | _ => { s with mux := m }
  | .removeHandler id channel wildcard _ =>
      let found := !wildcard && (s.mux.handlersOf channel).contains id
      { s with mux := m, removed := s.removed ++ if found then [(channel, id)] else [] }
  | .removeChannel channel _ =>
      let gone := if isWildcard channel then [] else s.mux.handlersOf channel
      { s with mux := m, removed := s.removed ++ gone.map fun id => (channel, id) }
  | .drain _ =>
      if s.mux.completes && !s.accepted then
        let hids := s.mux.inflight.toList.filterMap Command.hid
        { s with
          mux := { m with granted := m.granted.diff hids }
          refused := hids ++ s.refused }
      else { s with mux := m }
  | .connect => { s with mux := m, accepted := true, unheard := ∅ }
  | .execute =>
      match s.mux.conn.pending with
      | none => { s with mux := m }
      | some st => { s with mux := m, accepted := true, unheard := s.unheard.erase st.channel }
  | _ => { s with mux := m }

/-- `resubscribe_all` gives up on a rejected LISTEN. -/
def outcome (s : Calls) : Event → Event
  | .resubscribeCollect ok => .resubscribeCollect (ok && (s.accepted || !s.mux.conn.collect.1))
  | e => e

end Calls

/-- A step of the multiplexer and its surroundings, or a LISTEN rejected. -/
inductive CallEvent where
  | mux (e : Event)
  | reject
  deriving DecidableEq, Repr

/-- One step.  A rejected LISTEN leaves a session that listens to the channel as it is. -/
def callStep (s : Calls) : CallEvent → Option Calls
  | .mux e => (step s.mux (s.outcome e)).map fun m => s.after m e
  | .reject =>
      match s.mux.conn.pending with
      | some ⟨true, channel⟩ =>
          if s.mux.running then
            (step s.mux .execute).map fun m =>
              { s with
                mux := m, accepted := false
                unheard := if channel ∈ s.listening then s.unheard else insert channel s.unheard }
          else none
      | _ => none

/-- Whenever nothing is queued or in flight and the connection is ready, every handler that
was returned and not removed is registered, on a channel the session listens to. -/
def Calls.AllHeard (s : Calls) : Prop :=
  s.mux.commands = [] → s.mux.inflight = none → s.mux.connReady = true → s.mux.conn.alive = true →
    ∀ p ∈ s.returned, p ∉ s.removed → p.2 ∈ s.mux.handlersOf p.1 ∧ p.1 ∈ s.listening

/-! ## `start_next_command_locked` -/

/-- What `start_next_command_locked` can come to: superseded commands at the head are done,
and the next one stays, is sent, or fails to be sent. -/
inductive Started (s : State) : State → Prop where
  | kept (dropped rest : List Command) (granted : List Nat) (hcmds : s.commands = dropped ++ rest)
      (hdrop : ∀ cmd ∈ dropped, cmd.listen ≠ decide (cmd.channel ∈ s.exact))
      (hidle : dropped ≠ [] → s.inflight = none)
      (hgranted : granted.Perm (dropped.filterMap Command.hid ++ s.granted)) :
      Started s { s with commands := rest, granted := granted }
  | sent (dropped : List Command) (cmd : Command) (rest : List Command) (granted : List Nat)
      (hcmds : s.commands = dropped ++ cmd :: rest)
      (hdrop : ∀ cmd ∈ dropped, cmd.listen ≠ decide (cmd.channel ∈ s.exact))
      (hidle : s.inflight = none) (hready : s.connReady = true)
      (hgranted : granted.Perm (dropped.filterMap Command.hid ++ s.granted)) :
      Started s { s with
        commands := rest, granted := granted, inflight := some cmd
        conn := s.conn.sent cmd.statement }
  | failed (dropped rest : List Command) (granted : List Nat) (conn : Conn)
      (hcmds : s.commands = dropped ++ rest) (hidle : s.inflight = none)
      (hdead : conn.alive = false)
      (hgranted : granted.Perm (dropped.filterMap Command.hid ++ s.granted)) :
      Started s { s with commands := rest, granted := granted, conn := conn, connReady := false }

theorem startNextLoop_started {sendOk : Bool} (cmds : List Command) (s : State) :
    Started { s with commands := cmds } (s.startNextLoop sendOk cmds) := by
  induction cmds generalizing s with
  | nil => exact .kept [] [] s.granted rfl (fun _ h => by cases h) (absurd rfl) (.refl _)
  | cons cmd rest ih =>
      rw [State.startNextLoop]
      split
      · rename_i hcond
        simp only [Bool.and_eq_true, Option.isNone_iff_eq_none] at hcond
        obtain ⟨hidle, hready⟩ := hcond
        split
        · rename_i hsuperseded
          have hhead : ∀ {dropped : List Command} {granted : List Nat},
              granted.Perm (dropped.filterMap Command.hid ++ (cmd.hid.toList ++ s.granted)) →
              granted.Perm ((cmd :: dropped).filterMap Command.hid ++ s.granted) := by
            intro dropped granted hperm
            refine hperm.trans ?_
            rw [← List.append_assoc]
            refine List.Perm.append_right _ (List.perm_append_comm.trans ?_)
            cases hhid : cmd.hid <;> simp [hhid]
          have hall : ∀ {dropped : List Command},
              (∀ x ∈ dropped, x.listen ≠ decide (x.channel ∈ s.exact)) →
              ∀ x ∈ cmd :: dropped, x.listen ≠ decide (x.channel ∈ s.exact) :=
            fun hdrop => List.forall_mem_cons.mpr ⟨hsuperseded, hdrop⟩
          have hrest := ih { s with granted := cmd.hid.toList ++ s.granted }
          generalize State.startNextLoop sendOk rest _ = t at hrest
          cases hrest with
          | kept dropped rest' granted hcmds hdrop _ hgranted =>
              exact .kept (cmd :: dropped) rest' granted (congrArg _ hcmds) (hall hdrop)
                (fun _ => hidle) (hhead hgranted)
          | sent dropped cmd' rest' granted hcmds hdrop _ _ hgranted =>
              exact .sent (cmd :: dropped) cmd' rest' granted (congrArg _ hcmds) (hall hdrop) hidle
                hready (hhead hgranted)
          | failed dropped rest' granted conn hcmds _ hdead hgranted =>
              exact .failed (cmd :: dropped) rest' granted conn (congrArg _ hcmds) hidle hdead
                (hhead hgranted)
        · split
          · rename_i conn hsend
            rw [send_true hsend]
            exact .sent [] cmd rest s.granted rfl (fun _ h => by cases h) hidle hready (.refl _)
          · rename_i conn hsend
            exact .failed [] (cmd :: rest) s.granted conn rfl hidle (send_false hsend) (.refl _)
      · exact .kept [] (cmd :: rest) s.granted rfl (fun _ h => by cases h) (absurd rfl) (.refl _)

theorem startNext_started (s : State) (sendOk : Bool) :
    Started s (s.startNextCommandLocked sendOk) :=
  startNextLoop_started s.commands s

/-! ## Commands and handlers -/

/-- From `m` to `m'` commands are only completed or dropped, and no handler is unregistered
but those in `gone`. -/
structure Shifted (gone : List (String × Nat)) (m m' : State) : Prop where
  next : m'.nextHandlerId = m.nextHandlerId
  ids : ∀ h, m'.ids.count h ≤ m.ids.count h
  moved : ∀ h, m'.ids.count h + m'.granted.count h ≤ m.ids.count h + m.granted.count h
  kept : ∀ p, p.2 ∈ m.handlersOf p.1 → p ∉ gone → p.2 ∈ m'.handlersOf p.1

/-- The call before `run()`. -/
def Direct.calls : Direct → List (String × Nat)
  | .none => []
  | .unsent channel hid | .sent channel hid | .ended channel hid _ | .erasing channel hid =>
      [(channel, hid)]

/-- `m'` has the calls of `m` in progress. -/
structure SameCalls (m m' : State) : Prop where
  waiting : m'.waiting = m.waiting
  failed : m'.failed = m.failed
  direct : m'.direct.calls = m.direct.calls

section Shifted

variable {gone : List (String × Nat)} {m m' : State}

theorem Shifted.trans {m'' : State} (h : Shifted gone m m') (h' : Shifted [] m' m'') :
    Shifted gone m m'' where
  next := h'.next.trans h.next
  ids x := (h'.ids x).trans (h.ids x)
  moved x := (h'.moved x).trans (h.moved x)
  kept p hp hgone := h'.kept p (h.kept p hp hgone) List.not_mem_nil

/-- Nothing of it changes. -/
theorem Shifted.of_same (hnext : m'.nextHandlerId = m.nextHandlerId) (hexact : m'.exact = m.exact)
    (hcommands : m'.commands = m.commands) (hinflight : m'.inflight = m.inflight)
    (hgranted : m'.granted = m.granted) : Shifted [] m m' := by
  have hids : m'.ids = m.ids := by rw [State.ids, hcommands, hinflight, State.ids]
  refine ⟨hnext, fun h => by rw [hids], fun h => by rw [hids, hgranted], ?_⟩
  intro p hp _
  rw [State.handlersOf, hexact]
  exact hp

theorem started_ids {m m' : State} (h : Started m m') (x : Nat) :
    m'.ids.count x ≤ m.ids.count x ∧
      m'.ids.count x + m'.granted.count x = m.ids.count x + m.granted.count x := by
  cases h with
  | kept dropped rest granted hcmds _ hidle hgranted =>
      have hids : m.ids = m.inflight.toList.filterMap Command.hid ++
          (dropped.filterMap Command.hid ++ rest.filterMap Command.hid) := by
        simp [State.ids, hcmds]
      rw [hids, hgranted.count_eq]
      simp only [State.ids, List.filterMap_append, List.count_append]
      omega
  | sent dropped cmd rest granted hcmds _ hidle _ hgranted =>
      have hids : m.ids = dropped.filterMap Command.hid ++ (cmd :: rest).filterMap Command.hid := by
        simp [State.ids, hcmds, hidle]
      have hids' : ([cmd] ++ rest).filterMap Command.hid = (cmd :: rest).filterMap Command.hid :=
        rfl
      rw [hids, hgranted.count_eq]
      simp only [State.ids, Option.toList_some, hids', List.count_append]
      omega
  | failed dropped rest granted conn hcmds hidle _ hgranted =>
      have hids : m.ids = dropped.filterMap Command.hid ++ rest.filterMap Command.hid := by
        simp [State.ids, hcmds, hidle]
      rw [hids, hgranted.count_eq]
      simp only [State.ids, hidle, Option.toList_none, List.nil_append, List.count_append]
      omega

theorem started_shifted (h : Started m m') : Shifted [] m m' := by
  refine ⟨?_, fun x => (started_ids h x).1, fun x => (started_ids h x).2.le, ?_⟩
  · cases h <;> rfl
  · intro p hp _
    cases h <;> exact hp

theorem started_sameCalls (h : Started m m') : SameCalls m m' := by
  cases h <;> exact ⟨rfl, rfl, rfl⟩

theorem Shifted.startNext (h : Shifted gone m m') (sendOk : Bool) :
    Shifted gone m (m'.startNextCommandLocked sendOk) :=
  h.trans (started_shifted (startNext_started m' sendOk))

theorem SameCalls.startNext (h : SameCalls m m') (sendOk : Bool) :
    SameCalls m (m'.startNextCommandLocked sendOk) := by
  obtain ⟨hwaiting, hfailed, hdirect⟩ := started_sameCalls (startNext_started m' sendOk)
  exact ⟨hwaiting.trans h.waiting, hfailed.trans h.failed, hdirect.trans h.direct⟩

theorem queueUnlisten_shifted (h : Shifted gone m m') (channel : String) (sendOk : Bool) :
    Shifted gone m (m'.queueUnlistenLocked channel sendOk) := by
  have hqueued : Shifted gone m
      { m' with commands := m'.commands ++ [Command.mk channel false none] } := by
    have hids : State.ids { m' with commands := m'.commands ++ [Command.mk channel false none] } =
        m'.ids := by
      simp [State.ids]
    exact ⟨h.next, fun x => hids ▸ h.ids x, fun x => hids ▸ h.moved x, h.kept⟩
  unfold State.queueUnlistenLocked
  dsimp only
  split
  · exact hqueued.startNext sendOk
  · exact hqueued

theorem queueUnlisten_sameCalls (h : SameCalls m m') (channel : String) (sendOk : Bool) :
    SameCalls m (m'.queueUnlistenLocked channel sendOk) := by
  have hqueued : SameCalls m
      { m' with commands := m'.commands ++ [Command.mk channel false none] } :=
    ⟨h.waiting, h.failed, h.direct⟩
  unfold State.queueUnlistenLocked
  dsimp only
  split
  · exact hqueued.startNext sendOk
  · exact hqueued

/-- Changing the handlers of one channel. -/
theorem shifted_exact {exact : Handlers} (channel : String)
    (hother : ∀ ch, ch ≠ channel → exact.lookup ch = m.exact.lookup ch)
    (hself : ∀ h ∈ m.handlersOf channel, (channel, h) ∉ gone → h ∈ (exact.lookup channel).getD []) :
    Shifted gone m { m with exact := exact } := by
  refine ⟨rfl, fun _ => le_rfl, fun _ => le_rfl, ?_⟩
  rintro ⟨ch, h⟩ hp hgone
  by_cases heq : ch = channel
  · subst heq
    exact hself h hp hgone
  · rw [State.handlersOf, hother ch heq]
    exact hp

theorem eraseExact_shifted (m : State) (channel : String) (id : Nat) (sendOk : Bool) :
    Shifted [(channel, id)] m (m.eraseExactLocked channel id sendOk).1 := by
  have hrefl : Shifted [(channel, id)] m m :=
    ⟨rfl, fun _ => le_rfl, fun _ => le_rfl, fun _ hp _ => hp⟩
  unfold State.eraseExactLocked
  split
  · exact hrefl
  · rename_i handlers hlookup
    have hhandlers : m.handlersOf channel = handlers := by simp [State.handlersOf, hlookup]
    have hstays : ∀ h ∈ m.handlersOf channel, (channel, h) ∉ [(channel, id)] →
        h ∈ handlers.erase id := by
      intro h hh hne
      rw [hhandlers] at hh
      exact (List.mem_erase_of_ne (by simpa using hne)).mpr hh
    split
    · split
      · rename_i hempty
        refine queueUnlisten_shifted (shifted_exact channel ?_ ?_) channel sendOk
        · intro ch hch
          exact AList.lookup_erase_ne hch
        · intro h hh hne
          have hmem := hstays h hh hne
          rw [hempty] at hmem
          cases hmem
      · refine shifted_exact channel ?_ ?_
        · intro ch hch
          exact AList.lookup_insert_ne hch
        · intro h hh hne
          rw [AList.lookup_insert]
          exact hstays h hh hne
    · exact hrefl

theorem eraseExact_sameCalls (m : State) (channel : String) (id : Nat) (sendOk : Bool) :
    SameCalls m (m.eraseExactLocked channel id sendOk).1 := by
  unfold State.eraseExactLocked
  repeat' split
  · exact ⟨rfl, rfl, rfl⟩
  · refine queueUnlisten_sameCalls ?_ channel sendOk
    exact ⟨rfl, rfl, rfl⟩
  · exact ⟨rfl, rfl, rfl⟩
  · exact ⟨rfl, rfl, rfl⟩

theorem removeChannel_shifted (m : State) (channel : String) (sendOk : Bool) :
    Shifted
      ((if isWildcard channel then [] else m.handlersOf channel).map fun id => (channel, id)) m
      (m.removeChannel channel sendOk).1 := by
  unfold State.removeChannel
  split
  · exact .of_same rfl rfl rfl rfl rfl
  · split
    · refine queueUnlisten_shifted (shifted_exact channel ?_ ?_) channel sendOk
      · intro ch hch
        exact AList.lookup_erase_ne hch
      · intro h hh hgone
        exact absurd (List.mem_map_of_mem hh) hgone
    · exact ⟨rfl, fun _ => le_rfl, fun _ => le_rfl, fun _ hp _ => hp⟩

theorem removeChannel_sameCalls (m : State) (channel : String) (sendOk : Bool) :
    SameCalls m (m.removeChannel channel sendOk).1 := by
  unfold State.removeChannel
  repeat' split
  · exact ⟨rfl, rfl, rfl⟩
  · refine queueUnlisten_sameCalls ?_ channel sendOk
    exact ⟨rfl, rfl, rfl⟩
  · exact ⟨rfl, rfl, rfl⟩

/-- What `drain_locked` starts the next command from. -/
theorem drainLocked_pre (m : State) (sendOk : Bool) :
    ∃ batch pq, m.drainLocked sendOk =
      State.startNextCommandLocked
        { m with
          loop := .dispatch batch, conn := { m.conn.read with pq := pq }
          inflight := if m.completes then none else m.inflight
          granted :=
            if m.completes then m.inflight.toList.filterMap Command.hid ++ m.granted
            else m.granted } sendOk := by
  unfold State.drainLocked
  dsimp only
  cases hinflight : m.inflight with
  | none =>
      have hnot : m.completes = false := by simp [State.completes, hinflight]
      refine ⟨m.conn.read.pq.takeNotes.1, m.conn.read.pq.takeNotes.2, ?_⟩
      simp [hnot]
  | some cmd =>
      have hends : m.completes = m.conn.read.pq.takeNotes.2.takeResults.1 := by
        simp [State.completes, hinflight]
      refine ⟨m.conn.read.pq.takeNotes.1, m.conn.read.pq.takeNotes.2.takeResults.2, ?_⟩
      rw [hends]
      obtain ⟨fin, pq⟩ := m.conn.read.pq.takeNotes.2.takeResults
      cases fin with
      | false => simp
      | true => cases hhid : cmd.hid <;> simp [hhid]

theorem drainLocked_shifted (m : State) (sendOk : Bool) :
    Shifted [] m (m.drainLocked sendOk) ∧ SameCalls m (m.drainLocked sendOk) := by
  obtain ⟨batch, pq, heq⟩ := drainLocked_pre m sendOk
  rw [heq]
  refine ⟨Shifted.startNext ?_ sendOk, SameCalls.startNext ?_ sendOk⟩
  swap
  · exact ⟨rfl, rfl, rfl⟩
  refine ⟨rfl, ?_, ?_, fun _ hp _ => hp⟩
  all_goals
    intro h
    cases m.completes with
    | true => simp [State.ids]; try omega
    | false => simp [State.ids]

theorem drainFailed_shifted (m : State) (errorResult sendOk : Bool) :
    Shifted [] m (m.drainFailed errorResult sendOk) ∧
      SameCalls m (m.drainFailed errorResult sendOk) := by
  unfold State.drainFailed
  dsimp only
  refine ⟨Shifted.startNext ?_ sendOk, SameCalls.startNext ?_ sendOk⟩
  swap
  · exact ⟨rfl, rfl, rfl⟩
  refine ⟨rfl, ?_, ?_, fun _ hp _ => hp⟩
  all_goals
    intro h
    cases errorResult with
    | true => simp [State.ids]
    | false => simp [State.ids]

/-- Steps that neither begin nor go on with nor end a call. -/
def Event.isPlain : Event → Bool
  | .addHandler .. | .addHandlerResume .. | .addHandlerErase .. | .removeHandler ..
  | .removeChannel .. | .directDone | .directErase _ => false
  | _ => true

theorem directStep_shifted {e : Event} (he : e.isPlain = true) (h : directStep m e = some m') :
    Shifted [] m m' ∧ SameCalls m m' := by
  cases e with
  | directSend sendOk | directCollect ok =>
      simp only [directStep] at h
      split at h
      swap
      · cases h
      rename_i hdirect
      split at h
      · split at h <;> cases h <;>
          exact ⟨.of_same rfl rfl rfl rfl rfl, rfl, rfl, by simp [hdirect, Direct.calls]⟩
      · cases h
        exact ⟨.of_same rfl rfl rfl rfl rfl, rfl, rfl, by simp [hdirect, Direct.calls]⟩
  | directDone | directErase _ => cases he
  | _ => cases h

/-- The run loop goes on. -/
theorem shifted_goto (m : State) (conn : Conn) (loop : Loop) :
    Shifted [] m { m with conn := conn, loop := loop } ∧
      SameCalls m { m with conn := conn, loop := loop } :=
  ⟨.of_same rfl rfl rfl rfl rfl, rfl, rfl, rfl⟩

theorem reconnectStep_shifted {e : Event} (h : reconnectStep m e = some m') :
    Shifted [] m m' ∧ SameCalls m m' := by
  cases e with
  | connect | snapshot _ =>
      simp only [reconnectStep, Option.ite_none_right_eq_some, Option.some.injEq] at h
      obtain ⟨-, rfl⟩ := h
      exact shifted_goto m _ _
  | resubscribe sendOk =>
      simp only [reconnectStep] at h
      split at h
      · cases h
        refine ⟨Shifted.startNext ?_ sendOk, SameCalls.startNext ?_ sendOk⟩
        · exact .of_same rfl rfl rfl rfl rfl
        · exact ⟨rfl, rfl, rfl⟩
      · split at h
        · split at h <;> cases h <;> exact shifted_goto m _ _
        · cases h
          exact shifted_goto m _ _
      · cases h
  | resubscribeCollect ok =>
      simp only [reconnectStep] at h
      split at h
      · split at h
        · split at h <;> cases h <;> exact shifted_goto m _ _
        · cases h
          exact shifted_goto m _ _
      · cases h
  | _ => cases h

theorem runStep_shifted {e : Event} (h : runStep m e = some m') :
    Shifted [] m m' ∧ SameCalls m m' := by
  cases e with
  | start sendOk =>
      simp only [runStep, Option.ite_none_right_eq_some, Option.some.injEq] at h
      obtain ⟨-, rfl⟩ := h
      refine ⟨Shifted.startNext ?_ sendOk, SameCalls.startNext ?_ sendOk⟩
      · exact .of_same rfl rfl rfl rfl rfl
      · exact ⟨rfl, rfl, rfl⟩
  | check =>
      simp only [runStep, Option.ite_none_right_eq_some] at h
      obtain ⟨-, h⟩ := h
      split at h
      · cases h
        exact shifted_goto m _ _
      · cases h
        have hids : State.ids { m.connectionLostLocked with loop := .connecting } = m.ids := by
          simp [State.ids, State.connectionLostLocked]
        exact ⟨⟨rfl, fun _ => hids ▸ le_rfl, fun _ => hids ▸ le_rfl, fun _ hp _ => hp⟩,
          rfl, rfl, rfl⟩
  | wait park =>
      simp only [runStep, Option.ite_none_right_eq_some] at h
      obtain ⟨-, h⟩ := h
      split at h <;> split at h <;> cases h <;> exact shifted_goto m _ _
  | wake =>
      simp only [runStep, Option.ite_none_right_eq_some, Option.some.injEq] at h
      obtain ⟨-, rfl⟩ := h
      exact shifted_goto m _ _
  | drain sendOk =>
      simp only [runStep, Option.ite_none_right_eq_some, Option.some.injEq] at h
      obtain ⟨-, rfl⟩ := h
      exact drainLocked_shifted m sendOk
  | drainFailed errorResult sendOk =>
      simp only [runStep, Option.ite_none_right_eq_some, Option.some.injEq] at h
      obtain ⟨-, rfl⟩ := h
      exact drainFailed_shifted m errorResult sendOk
  | dispatch | cancel =>
      simp only [runStep] at h
      split at h <;> cases h <;> exact shifted_goto m _ _
  | _ => cases h

theorem step_shifted {e : Event} (he : e.isPlain = true) (h : step m e = some m') :
    Shifted [] m m' ∧ SameCalls m m' := by
  cases step_stepped h with
  | direct hdirect => exact directStep_shifted he hdirect
  | reconnect hreconnect => exact reconnectStep_shifted hreconnect
  | run hrun => exact runStep_shifted hrun
  | conn _ => exact ⟨.of_same rfl rfl rfl rfl rfl, rfl, rfl, rfl⟩
  | _ => cases he

end Shifted

/-! ## The books -/

/-- The calls that have not returned. -/
def Calls.inProgress (s : Calls) : List (String × Nat) :=
  s.mux.waiting ++ s.mux.failed ++ s.mux.direct.calls

/-- Every command belongs to one call, every call is in progress or has returned a handle,
and its handler is registered until it is removed. -/
structure Books (s : Calls) : Prop where
  once : ∀ h, s.mux.ids.count h + s.mux.granted.count h + s.refused.count h ≤ 1
  single : ∀ p, s.inProgress.count p + s.returned.count p ≤ 1
  idsBelow : ∀ h, h ∈ s.mux.ids ∨ h ∈ s.mux.granted ∨ h ∈ s.refused → h < s.mux.nextHandlerId
  callsBelow : ∀ p, p ∈ s.inProgress ∨ p ∈ s.returned → p.2 < s.mux.nextHandlerId
  -- a call that has returned waits for no command, and its LISTEN was not rejected
  settled : ∀ p, p ∈ s.mux.direct.calls ∨ p ∈ s.returned → p.2 ∉ s.mux.ids ∧ p.2 ∉ s.refused
  registered : ∀ p, p ∈ s.inProgress ∨ p ∈ s.returned → p ∉ s.removed →
    p.2 ∈ s.mux.handlersOf p.1

section Books

variable {s t : Calls}

theorem mem_of_count_le {α : Type} [DecidableEq α] {xs ys : List α} {x : α}
    (h : xs.count x ≤ ys.count x) (hx : x ∈ xs) : x ∈ ys := by
  have hpos := List.count_pos_iff.mpr hx
  exact List.count_pos_iff.mp (by omega)

/-- **Frame rule.**  A step that moves commands, calls and handlers only forward keeps the
books. -/
theorem Books.shift (h : Books s) {gone : List (String × Nat)} (hm : Shifted gone s.mux t.mux)
    (hrefused : t.refused = s.refused)
    (hcalls : ∀ p, t.inProgress.count p + t.returned.count p ≤
      s.inProgress.count p + s.returned.count p)
    (hsettled : ∀ p, p ∈ t.mux.direct.calls ∨ p ∈ t.returned → p.2 ∉ s.mux.ids ∧ p.2 ∉ s.refused)
    (hremoved : ∀ p ∈ s.removed, p ∈ t.removed)
    (hgone : ∀ p ∈ gone, p ∈ t.inProgress ∨ p ∈ t.returned → p ∈ t.removed) : Books t := by
  have hcall : ∀ p, p ∈ t.inProgress ∨ p ∈ t.returned → p ∈ s.inProgress ∨ p ∈ s.returned := by
    intro p hp
    have hle := hcalls p
    by_contra hnot
    obtain ⟨hin, hret⟩ := not_or.mp hnot
    rw [List.count_eq_zero.mpr hin, List.count_eq_zero.mpr hret] at hle
    rcases hp with hp | hp <;> have := List.count_pos_iff.mpr hp <;> omega
  refine ⟨?_, fun p => (hcalls p).trans (h.single p), ?_, ?_, ?_, ?_⟩
  · intro x
    have hmoved := hm.moved x
    have honce := h.once x
    rw [hrefused]
    omega
  · intro x hx
    rw [hm.next]
    refine h.idsBelow x ?_
    by_contra hnot
    simp only [not_or, ← List.count_eq_zero] at hnot
    have hmoved := hm.moved x
    rw [hrefused] at hx
    rcases hx with hx | hx | hx
    all_goals
      have := List.count_pos_iff.mpr hx
      omega
  · intro p hp
    rw [hm.next]
    exact h.callsBelow p (hcall p hp)
  · intro p hp
    obtain ⟨hids, href⟩ := hsettled p hp
    exact ⟨fun hin => hids (mem_of_count_le (hm.ids p.2) hin), hrefused ▸ href⟩
  · intro p hp hnot
    have hstay := h.registered p (hcall p hp) fun hin => hnot (hremoved p hin)
    exact hm.kept p hstay fun hin => hnot (hgone p hin hp)

/-- The calls in progress stay as they are. -/
theorem Books.keep (h : Books s) {gone : List (String × Nat)} (hm : Shifted gone s.mux t.mux)
    (hc : SameCalls s.mux t.mux) (hrefused : t.refused = s.refused)
    (hreturned : t.returned = s.returned)
    (hremoved : ∀ p ∈ s.removed, p ∈ t.removed) (hgone : ∀ p ∈ gone, p ∈ t.removed) : Books t := by
  refine h.shift hm hrefused ?_ ?_ hremoved fun p hp _ => hgone p hp
  · intro p
    rw [Calls.inProgress, hc.waiting, hc.failed, hc.direct, hreturned, Calls.inProgress]
  · rw [hc.direct, hreturned]
    exact h.settled

/-- The command in flight is done and not ok. -/
theorem Books.refuse (h : Books s) {m : State} {hids : List Nat} (hm : Books { s with mux := m })
    (hin : ∀ x ∈ hids, x ∈ s.mux.ids) (hdone : ∀ x, hids.count x ≤ m.granted.count x)
    (hdirect : m.direct.calls = s.mux.direct.calls) :
    Books { s with
      mux := { m with granted := m.granted.diff hids }, refused := hids ++ s.refused } := by
  refine ⟨?_, hm.single, ?_, hm.callsBelow, ?_, hm.registered⟩
  · intro x
    have honce := hm.once x
    have hle := hdone x
    have hids : State.ids { m with granted := m.granted.diff hids } = m.ids := rfl
    rw [hids]
    simp only [List.count_append, List.count_diff]
    dsimp only at honce
    omega
  · intro x hx
    refine hm.idsBelow x ?_
    rcases hx with hx | hx | hx
    · exact Or.inl hx
    · exact Or.inr (Or.inl (List.diff_subset _ _ hx))
    · rcases List.mem_append.mp hx with hx | hx
      · exact Or.inr (Or.inl (mem_of_count_le (hdone x) hx))
      · exact Or.inr (Or.inr hx)
  · intro p hp
    obtain ⟨hnot, href⟩ := hm.settled p hp
    refine ⟨hnot, fun hmem => ?_⟩
    rcases List.mem_append.mp hmem with hmem | hmem
    · rw [show State.direct { m with granted := m.granted.diff hids } = m.direct from rfl,
        hdirect] at hp
      exact (h.settled p hp).1 (hin _ hmem)
    · exact href hmem

/-- What occurs at most once still does with something new. -/
theorem add_count_singleton_le_one {α : Type} [BEq α] [LawfulBEq α] {f : α → Nat} {y : α}
    (h : ∀ x, f x ≤ 1) (hy : f y = 0) (x : α) : f x + [y].count x ≤ 1 := by
  by_cases hx : x = y
  · subst hx
    rw [hy, List.count_singleton_self]
  · rw [List.count_eq_zero.mpr (by simpa using hx)]
    exact h x

/-- A call with a new id: it waits for a command, sends its own LISTEN, or has returned. -/
theorem Books.call (h : Books s) (channel : String) {hid : Nat}
    (hnext : t.mux.nextHandlerId = s.mux.nextHandlerId) (hgranted : t.mux.granted = s.mux.granted)
    (hexact : t.mux.exact = s.mux.exact) (hrefused : t.refused = s.refused)
    (hremoved : t.removed = s.removed) (hbelow : hid < s.mux.nextHandlerId)
    (hunused : hid ∉ s.mux.ids ∧ hid ∉ s.mux.granted ∧ hid ∉ s.refused)
    (hnone : ∀ p, p ∈ s.inProgress ∨ p ∈ s.returned → p.2 ≠ hid)
    (hregistered : hid ∈ s.mux.handlersOf channel)
    (hids : t.mux.ids = s.mux.ids ∨ t.mux.ids = s.mux.ids ++ [hid])
    (hcalls : ∀ p, t.inProgress.count p + t.returned.count p =
      s.inProgress.count p + s.returned.count p + [(channel, hid)].count p)
    (hsettled : ∀ p, p ∈ t.mux.direct.calls ∨ p ∈ t.returned →
      (p ∈ s.mux.direct.calls ∨ p ∈ s.returned) ∨ p = (channel, hid) ∧ t.mux.ids = s.mux.ids) :
    Books t := by
  obtain ⟨hnotIds, hnotGranted, hnotRefused⟩ := hunused
  have hidsMem : ∀ x ∈ t.mux.ids, x ∈ s.mux.ids ∨ x = hid := by
    intro x hx
    rcases hids with heq | heq <;> rw [heq] at hx
    · exact Or.inl hx
    · simpa using hx
  have hcall : ∀ p, p ∈ t.inProgress ∨ p ∈ t.returned →
      (p ∈ s.inProgress ∨ p ∈ s.returned) ∨ p = (channel, hid) := by
    intro p hp
    have heq := hcalls p
    by_contra hnot
    simp only [not_or, ← List.count_eq_zero] at hnot
    obtain ⟨⟨hin, hret⟩, hne⟩ := hnot
    have hself : [(channel, hid)].count p = 0 := List.count_eq_zero.mpr (by simpa using hne)
    rcases hp with hp | hp <;> have := List.count_pos_iff.mpr hp <;> omega
  refine ⟨?_, ?_, ?_, ?_, ?_, ?_⟩
  · intro x
    rw [hgranted, hrefused]
    rcases hids with heq | heq <;> rw [heq]
    · exact h.once x
    · have hnew : s.mux.ids.count hid + s.mux.granted.count hid + s.refused.count hid = 0 := by
        rw [List.count_eq_zero.mpr hnotIds, List.count_eq_zero.mpr hnotGranted,
          List.count_eq_zero.mpr hnotRefused]
      have honce := add_count_singleton_le_one h.once hnew x
      rw [List.count_append]
      omega
  · intro p
    have hin : (channel, hid) ∉ s.inProgress := fun hin => hnone _ (Or.inl hin) rfl
    have hret : (channel, hid) ∉ s.returned := fun hret => hnone _ (Or.inr hret) rfl
    have hnew : s.inProgress.count (channel, hid) + s.returned.count (channel, hid) = 0 := by
      rw [List.count_eq_zero.mpr hin, List.count_eq_zero.mpr hret]
    rw [hcalls p]
    exact add_count_singleton_le_one h.single hnew p
  · intro x hx
    rw [hnext]
    rw [hgranted, hrefused] at hx
    rcases hx with hx | hx | hx
    · rcases hidsMem x hx with hx | rfl
      · exact h.idsBelow x (Or.inl hx)
      · exact hbelow
    · exact h.idsBelow x (Or.inr (Or.inl hx))
    · exact h.idsBelow x (Or.inr (Or.inr hx))
  · intro p hp
    rw [hnext]
    rcases hcall p hp with hp | rfl
    · exact h.callsBelow p hp
    · exact hbelow
  · intro p hp
    rw [hrefused]
    rcases hsettled p hp with hold | ⟨rfl, heq⟩
    · obtain ⟨hnot, href⟩ := h.settled p hold
      refine ⟨fun hin => ?_, href⟩
      have hold : p ∈ s.inProgress ∨ p ∈ s.returned :=
        hold.imp (fun hd => List.mem_append_right _ hd) id
      exact (hidsMem _ hin).elim hnot (hnone p hold)
    · exact ⟨heq ▸ hnotIds, hnotRefused⟩
  · intro p hp hnot
    rw [State.handlersOf, hexact]
    rcases hcall p hp with hp | rfl
    · exact h.registered p hp (hremoved ▸ hnot)
    · exact hregistered

/-- `add_handler` takes a new id and registers its handler. -/
theorem Books.alloc (h : Books s) (exact wildcard : Handlers)
    (hkept : ∀ p : String × Nat, p.2 ∈ s.mux.handlersOf p.1 → p.2 ∈ (exact.lookup p.1).getD []) :
    Books { s with
      mux := { s.mux with
        nextHandlerId := s.mux.nextHandlerId + 1, exact := exact, wildcard := wildcard } } :=
  ⟨h.once, h.single, fun x hx => Nat.lt_succ_of_lt (h.idsBelow x hx),
    fun p hp => Nat.lt_succ_of_lt (h.callsBelow p hp), h.settled,
    fun p hp hnot => hkept p (h.registered p hp hnot)⟩

theorem Books.addHandler {m : State} {channel : String} {sendOk : Bool} (h : Books s)
    (hadd : s.mux.addHandler channel sendOk = some m) :
    Books (s.after m (.addHandler channel sendOk)) := by
  have hunused : s.mux.nextHandlerId ∉ s.mux.ids ∧ s.mux.nextHandlerId ∉ s.mux.granted ∧
      s.mux.nextHandlerId ∉ s.refused :=
    ⟨fun hx => absurd (h.idsBelow _ (Or.inl hx)) (Nat.lt_irrefl _),
      fun hx => absurd (h.idsBelow _ (Or.inr (Or.inl hx))) (Nat.lt_irrefl _),
      fun hx => absurd (h.idsBelow _ (Or.inr (Or.inr hx))) (Nat.lt_irrefl _)⟩
  have hnone : ∀ p, p ∈ s.inProgress ∨ p ∈ s.returned → p.2 ≠ s.mux.nextHandlerId :=
    fun p hp => (h.callsBelow p hp).ne
  simp only [State.addHandler] at hadd
  split at hadd
  · rename_i hwild
    cases hadd
    simp only [Calls.after, hwild, Bool.not_true, Bool.false_and, Bool.false_eq_true, if_false,
      List.append_nil]
    exact h.alloc _ _ fun _ hp => hp
  rename_i hwild
  split at hadd
  · cases hadd
  -- the handler is registered before anything else happens
  have halloc := h.alloc
    (s.mux.exact.insert channel (s.mux.handlersOf channel ++ [s.mux.nextHandlerId]))
    s.mux.wildcard (by
      intro p hp
      by_cases hch : p.1 = channel
      · rw [hch, AList.lookup_insert]
        exact List.mem_append_left _ (hch ▸ hp)
      · rw [AList.lookup_insert_ne hch]
        exact hp)
  have hregistered : s.mux.nextHandlerId ∈ ((s.mux.exact.insert channel
      (s.mux.handlersOf channel ++ [s.mux.nextHandlerId])).lookup channel).getD [] := by
    rw [AList.lookup_insert]
    exact List.mem_append_right _ (List.mem_singleton_self _)
  rename_i hoverlap
  split at hadd
  · rename_i hfirst
    have hjoins : (s.mux.handlersOf channel != []) = false := by
      simpa [State.handlersOf] using hfirst
    simp only [Calls.after, hjoins, Bool.and_false, Bool.false_eq_true, if_false, List.append_nil]
    split at hadd
    · cases hadd
      have hwaits : Books { s with mux := { s.mux with
          nextHandlerId := s.mux.nextHandlerId + 1
          exact := s.mux.exact.insert channel (s.mux.handlersOf channel ++ [s.mux.nextHandlerId])
          commands := s.mux.commands ++ [⟨channel, true, some s.mux.nextHandlerId⟩]
          waiting := s.mux.waiting ++ [(channel, s.mux.nextHandlerId)] } } := by
        refine halloc.call channel rfl rfl rfl rfl rfl (Nat.lt_succ_self _) hunused hnone
          hregistered (Or.inr (by simp [State.ids])) ?_ (fun p hp => Or.inl hp)
        intro p
        simp only [Calls.inProgress, List.count_append]
        omega
      refine hwaits.keep (@Shifted.startNext [] _ _ ?_ sendOk) (SameCalls.startNext ?_ sendOk)
        rfl rfl (fun _ => id) (fun _ h => by cases h)
      · exact .of_same rfl rfl rfl rfl rfl
      · exact ⟨rfl, rfl, rfl⟩
    · rename_i hrun
      cases hadd
      have hdirect : s.mux.direct = .none := by
        have hrun : s.mux.running = false := by simpa using hrun
        simpa [hrun] using hoverlap
      refine halloc.call channel rfl rfl rfl rfl rfl (Nat.lt_succ_self _) hunused hnone
        hregistered (Or.inl rfl) ?_ ?_
      · intro p
        simp only [Calls.inProgress, hdirect, Direct.calls, List.count_append, List.count_nil]
        omega
      · intro p hp
        rcases hp with hp | hp
        · exact Or.inr ⟨List.mem_singleton.mp hp, rfl⟩
        · exact Or.inl (Or.inr hp)
  · rename_i hmore
    cases hadd
    have hjoins : (!isWildcard channel && s.mux.handlersOf channel != []) = true := by
      simpa [hwild, State.handlersOf] using hmore
    simp only [Calls.after, hjoins, if_true]
    refine halloc.call channel rfl rfl rfl rfl rfl (Nat.lt_succ_self _) hunused hnone
      hregistered (Or.inl rfl) ?_ ?_
    · intro p
      simp only [Calls.inProgress, List.count_append]
      omega
    · intro p hp
      rcases hp with hp | hp
      · exact Or.inl (Or.inl hp)
      · rcases List.mem_append.mp hp with hp | hp
        · exact Or.inl (Or.inr hp)
        · exact Or.inr ⟨List.mem_singleton.mp hp, rfl⟩

theorem Books.resume {channel : String} {hid : Nat} (h : Books s)
    (hwait : (channel, hid) ∈ s.mux.waiting) :
    Books (s.after (s.mux.addHandlerResume channel hid) (.addHandlerResume channel hid)) := by
  have hcount : ∀ p, (s.mux.waiting.erase (channel, hid)).count p + [(channel, hid)].count p =
      s.mux.waiting.count p := by
    intro p
    rw [(List.perm_cons_erase hwait).count_eq]
    simp only [List.count_cons, List.count_nil]
    omega
  by_cases hok : hid ∈ s.mux.granted
  · have hmux : s.mux.addHandlerResume channel hid =
        { s.mux with waiting := s.mux.waiting.erase (channel, hid) } := by
      simp [State.addHandlerResume, hok]
    simp only [Calls.after, hmux, List.contains_eq_mem, hok, decide_true, if_true]
    refine h.shift (.of_same rfl rfl rfl rfl rfl) rfl ?_ ?_ (fun _ => id) (fun _ h => by cases h)
    · intro p
      have := hcount p
      simp only [Calls.inProgress, List.count_append]
      omega
    · intro p hp
      rcases hp with hp | hp
      · exact h.settled p (Or.inl hp)
      · rcases List.mem_append.mp hp with hp | hp
        · exact h.settled p (Or.inr hp)
        · -- its command is done and ok
          have honce := h.once hid
          have hpos := List.count_pos_iff.mpr hok
          have hids : hid ∉ s.mux.ids := List.count_eq_zero.mp (by omega)
          have href : hid ∉ s.refused := List.count_eq_zero.mp (by omega)
          obtain rfl := List.mem_singleton.mp hp
          exact ⟨hids, href⟩
  · have hmux : s.mux.addHandlerResume channel hid =
        { s.mux with
          waiting := s.mux.waiting.erase (channel, hid)
          failed := s.mux.failed ++ [(channel, hid)] } := by
      simp [State.addHandlerResume, hok]
    simp only [Calls.after, hmux, List.contains_eq_mem, hok, decide_false, Bool.false_eq_true,
      if_false, List.append_nil]
    refine h.shift (.of_same rfl rfl rfl rfl rfl) rfl ?_ h.settled (fun _ => id)
      (fun _ h => by cases h)
    intro p
    have := hcount p
    simp only [Calls.inProgress, List.count_append]
    omega

/-- A call that failed takes its handler back. -/
theorem Books.takeBack {m m' : State} {channel : String} {hid : Nat} (h : Books s)
    (hm : Shifted [(channel, hid)] s.mux m') (hc : SameCalls m m')
    (hcalls : ∀ p, (m.waiting ++ m.failed ++ m.direct.calls).count p + [(channel, hid)].count p =
      s.inProgress.count p)
    (hdirect : ∀ p ∈ m.direct.calls, p ∈ s.mux.direct.calls) : Books { s with mux := m' } := by
  have hprogress : Calls.inProgress { s with mux := m' } =
      m.waiting ++ m.failed ++ m.direct.calls := by
    simp only [Calls.inProgress, hc.waiting, hc.failed, hc.direct]
  refine h.shift hm rfl ?_ ?_ (fun _ => id) ?_
  · intro p
    have := hcalls p
    rw [hprogress]
    dsimp only
    omega
  · intro p hp
    rw [hc.direct] at hp
    exact h.settled p (hp.imp (hdirect p) id)
  · intro p hp hin
    obtain rfl := List.mem_singleton.mp hp
    have hself : [(channel, hid)].count (channel, hid) = 1 := by simp
    have hsingle := h.single (channel, hid)
    have hback := hcalls (channel, hid)
    rw [hprogress] at hin
    rcases hin with hin | hin
    · have := List.count_pos_iff.mpr hin
      omega
    · have : 0 < s.returned.count (channel, hid) := List.count_pos_iff.mpr hin
      omega

/-- A step that neither begins nor goes on with nor ends a call. -/
theorem Books.plain {m : State} {e : Event} (h : Books s) (he : e.isPlain = true)
    (hm : step s.mux e = some m) : Books { s with mux := m } := by
  obtain ⟨hshift, hsame⟩ := step_shifted he hm
  exact h.keep hshift hsame rfl rfl (fun _ => id) nofun

theorem Books.removeHandler (h : Books s) (id : Nat) (channel : String) (wildcard sendOk : Bool) :
    Books (s.after (s.mux.removeHandler id channel wildcard sendOk).1
      (.removeHandler id channel wildcard sendOk)) := by
  have hremoved : ∀ found : Bool, ∀ p ∈ s.removed,
      p ∈ s.removed ++ if found then [(channel, id)] else [] :=
    fun _ _ hp => List.mem_append_left _ hp
  cases wildcard with
  | true =>
      have hframe : Shifted [] s.mux (s.mux.removeHandler id channel true sendOk).1 ∧
          SameCalls s.mux (s.mux.removeHandler id channel true sendOk).1 := by
        unfold State.removeHandler
        rw [if_pos rfl]
        repeat' split
        all_goals exact ⟨.of_same rfl rfl rfl rfl rfl, rfl, rfl, rfl⟩
      exact h.keep hframe.1 hframe.2 rfl rfl (hremoved _) nofun
  | false =>
      have hshift := eraseExact_shifted s.mux channel id sendOk
      have hsame := eraseExact_sameCalls s.mux channel id sendOk
      by_cases hin : id ∈ s.mux.handlersOf channel
      · refine h.keep hshift hsame rfl rfl (hremoved _) ?_
        intro p hp
        obtain rfl := List.mem_singleton.mp hp
        simp [Calls.after, hin]
      · -- nothing to remove
        have hkept : Shifted [] s.mux (s.mux.eraseExactLocked channel id sendOk).1 := by
          refine ⟨hshift.next, hshift.ids, hshift.moved, fun p hp _ => ?_⟩
          refine hshift.kept p hp fun hmem => hin ?_
          obtain rfl := List.mem_singleton.mp hmem
          exact hp
        exact h.keep hkept hsame rfl rfl (hremoved _) nofun

/-- A call before `run()` has its answer. -/
theorem Books.directDone {m : State} (h : Books s) (hm : directStep s.mux .directDone = some m) :
    Books (s.after m .directDone) := by
  simp only [directStep] at hm
  split at hm
  swap
  · cases hm
  rename_i channel hid ok hdirect
  obtain rfl := Option.some.inj hm
  cases ok with
  | true =>
      simp only [Calls.after, hdirect, if_true]
      refine h.shift (.of_same rfl rfl rfl rfl rfl) rfl ?_ ?_ (fun _ => id) (fun _ h => by cases h)
      · intro p
        simp only [Calls.inProgress, hdirect, Direct.calls, List.count_append, List.count_nil]
        omega
      · intro p hp
        rcases hp with hp | hp
        · cases hp
        · rcases List.mem_append.mp hp with hp | hp
          · exact h.settled p (Or.inr hp)
          · exact h.settled p (Or.inl (by rw [hdirect]; exact hp))
  | false =>
      simp only [Calls.after, hdirect, Bool.false_eq_true, if_false]
      have hcalls : (Direct.erasing channel hid).calls = s.mux.direct.calls := by
        rw [hdirect]
        rfl
      exact h.keep (.of_same rfl rfl rfl rfl rfl) ⟨rfl, rfl, hcalls⟩ rfl rfl (fun _ => id)
        (fun _ h => by cases h)

/-- The command whose reply a drain has seen to its end was granted, or is refused now. -/
theorem Books.drain {m : State} {sendOk : Bool} (h : Books s)
    (hm : runStep s.mux (.drain sendOk) = some m) : Books (s.after m (.drain sendOk)) := by
  have hbooks : Books { s with mux := m } := h.plain (e := .drain sendOk) rfl hm
  simp only [Calls.after]
  split
  · simp only [runStep, Option.ite_none_right_eq_some, Option.some.injEq] at hm
    obtain ⟨-, rfl⟩ := hm
    rename_i hrejected
    have hcompletes := (Bool.and_eq_true_iff.mp hrejected).1
    obtain ⟨batch, pq, heq⟩ := drainLocked_pre s.mux sendOk
    refine h.refuse hbooks ?_ ?_ (drainLocked_shifted s.mux sendOk).2.direct
    · intro x hx
      simp only [State.ids, List.filterMap_append]
      exact List.mem_append_left _ hx
    · intro x
      have hstarted := started_ids (startNext_started
        { s.mux with
          loop := .dispatch batch, conn := { s.mux.conn.read with pq := pq }
          inflight := if s.mux.completes then none else s.mux.inflight
          granted :=
            if s.mux.completes then s.mux.inflight.toList.filterMap Command.hid ++ s.mux.granted
            else s.mux.granted } sendOk) x
      rw [← heq] at hstarted
      simp only [hcompletes, if_true, List.count_append] at hstarted
      omega
  · exact hbooks

/-- **Step rule.**  Every step keeps the books. -/
theorem books_callStep {e : CallEvent} (h : Books s) (hstep : callStep s e = some t) : Books t := by
  cases e with
  | reject =>
      simp only [callStep] at hstep
      split at hstep
      · split at hstep
        · obtain ⟨m, hm, rfl⟩ := Option.map_eq_some_iff.mp hstep
          exact (h.plain rfl hm).keep (.of_same rfl rfl rfl rfl rfl) ⟨rfl, rfl, rfl⟩ rfl rfl
            (fun _ => id) (fun _ h => by cases h)
        · cases hstep
      · cases hstep
  | mux e =>
      obtain ⟨m, hm, rfl⟩ := Option.map_eq_some_iff.mp hstep
      have hplain : (s.outcome e).isPlain = true → Books { s with mux := m } :=
        fun he => h.plain he hm
      cases e with
      | addHandler channel sendOk => exact h.addHandler hm
      | addHandlerResume channel hid =>
          simp only [Calls.outcome, step, Option.ite_none_right_eq_some, Option.some.injEq] at hm
          obtain ⟨hwait, rfl⟩ := hm
          exact h.resume hwait
      | addHandlerErase channel hid sendOk =>
          simp only [Calls.outcome, step, Option.ite_none_right_eq_some, Option.some.injEq] at hm
          obtain ⟨hfailed, rfl⟩ := hm
          have hshift := eraseExact_shifted
            { s.mux with failed := s.mux.failed.erase (channel, hid) } channel hid sendOk
          refine h.takeBack ⟨hshift.next, hshift.ids, hshift.moved, hshift.kept⟩
            (eraseExact_sameCalls _ channel hid sendOk) ?_ fun _ => id
          intro p
          have := (List.perm_cons_erase hfailed).count_eq p
          simp only [Calls.inProgress, List.count_append, List.count_cons, List.count_nil] at this ⊢
          omega
      | removeHandler id channel wildcard sendOk =>
          obtain rfl := Option.some.inj hm
          exact h.removeHandler id channel wildcard sendOk
      | removeChannel channel sendOk =>
          obtain rfl := Option.some.inj hm
          refine h.keep (removeChannel_shifted s.mux channel sendOk)
            (removeChannel_sameCalls s.mux channel sendOk) rfl rfl ?_ ?_
          · exact fun _ hp => List.mem_append_left _ hp
          · exact fun _ hp => List.mem_append_right _ hp
      | directDone => exact h.directDone hm
      | directErase sendOk =>
          simp only [Calls.outcome, step, directStep] at hm
          split at hm
          swap
          · cases hm
          rename_i channel hid hdirect
          obtain rfl := Option.some.inj hm
          have hshift := eraseExact_shifted { s.mux with direct := .none } channel hid sendOk
          refine h.takeBack ⟨hshift.next, hshift.ids, hshift.moved, hshift.kept⟩
            (eraseExact_sameCalls _ channel hid sendOk) ?_ (fun _ h => by cases h)
          intro p
          simp only [Calls.inProgress, hdirect, Direct.calls, List.count_append, List.count_nil]
          omega
      | drain sendOk => exact h.drain hm
      | execute =>
          have hbooks : Books { s with mux := m } := hplain rfl
          simp only [Calls.after]
          split
          · exact hbooks
          · exact hbooks.keep (.of_same rfl rfl rfl rfl rfl) ⟨rfl, rfl, rfl⟩ rfl rfl
              (fun _ => id) (fun _ h => by cases h)
      | connect =>
          have hbooks : Books { s with mux := m } := hplain rfl
          exact hbooks.keep (.of_same rfl rfl rfl rfl rfl) ⟨rfl, rfl, rfl⟩ rfl rfl
            (fun _ => id) (fun _ h => by cases h)
      | _ => exact hplain rfl

end Books

end Upq.Notify
