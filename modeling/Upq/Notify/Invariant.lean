/-
  Notify/Invariant.lean --- the invariant of the multiplexer.

  While the session is alive two things hold in every state.  `Sync`: what libpq and
  the server still have to do for the statement sent last fits whether somebody waits
  for its reply.  `Covered`: for every channel on which the session, once it has done
  what was sent and what is planned, would differ from `exact_`, the command that sets
  it right is in `commands_`.

  A dead session needs no invariant: a new one starts from a snapshot of `exact_`, and
  what changes afterwards is queued.

  Kept here by `start_next_command_locked` and by what the callers do; the rules at the
  end serve the steps that use the connection.
-/
import Upq.Foundation.Reconcile
import Upq.Notify.Session

set_option autoImplicit false

namespace Upq.Notify

open Upq.Libpq Upq.Foundation.Reconcile

/-! ## The invariant -/

def Direct.planned : Direct → List String
  | .unsent channel _ => [channel]
  | _ => []

def Direct.outstanding : Direct → Bool
  | .sent .. => true
  | _ => false

/-- `reconnect()` owns the connection. -/
def Loop.reconnecting : Loop → Bool
  | .connecting | .snapshot | .resubscribe _ | .resubscribing _ => true
  | _ => false

def Loop.planned : Loop → List String
  | .resubscribe names | .resubscribing names => names
  | _ => []

def Loop.outstanding : Loop → Bool
  | .resubscribing _ => true
  | _ => false

namespace State

/-- Somebody waits for the reply of a statement. -/
def outstanding (s : State) : Bool :=
  s.inflight.isSome || s.direct.outstanding || s.loop.outstanding

/-- Where the session is heading, without `commands_`. -/
def heading (s : State) : Set String :=
  { ch | ch ∈ s.conn.target ∨ ch ∈ s.direct.planned ∨ ch ∈ s.loop.planned }

def registered (s : State) : Set String := { ch | ch ∈ s.exact }

def changes (s : State) : List (String × Bool) :=
  s.commands.map fun cmd => (cmd.channel, cmd.listen)

end State

/-- Who may use the connection. -/
structure Phase (s : State) : Prop where
  before : s.running = false →
    s.inflight = none ∧ s.connReady = false ∧ (s.loop = .starting ∨ s.loop = .finished)
  owned : s.running = true → s.direct.busy = false
  reconnecting : s.loop.reconnecting = true → s.connReady = false ∧ s.inflight = none
  down : s.loop = .connecting → s.conn.alive = false

/-- What holds while the session is alive.  Up to the snapshot of `resubscribe_all` a new
session has nothing to do with `exact_`. -/
structure Tracked (s : State) : Prop where
  up : s.conn.up = true
  sync : Sync s.conn s.outstanding
  blank : s.loop = .snapshot → s.conn.target = ∅
  covered : s.loop ≠ .snapshot → Covered s.changes s.registered s.heading

/-- The invariant of the multiplexer; a registered channel has a handler. -/
structure Inv (s : State) : Prop where
  handlers : ∀ ch, s.exact.lookup ch ≠ some []
  phase : Phase s
  tracked : s.conn.alive = true → Tracked s

variable {s : State}

theorem inv_init (up : Bool) : Inv (State.init up) := by
  refine ⟨fun ch => by simp [State.init],
    ⟨fun _ => ⟨rfl, rfl, Or.inl rfl⟩, fun _ => rfl, ?_, ?_⟩, ?_⟩
  · intro h
    cases h
  · intro h
    cases h
  · intro halive
    cases up with
    | false => cases halive
    | true =>
        refine ⟨rfl, sync_fresh, fun _ => rfl, fun _ => ?_⟩
        have hsame : (State.init true).heading = (State.init true).registered := by
          ext ch
          simp [State.heading, State.registered, State.init, Conn.target, Conn.fresh,
            Direct.planned, Loop.planned]
        rw [hsame]
        exact covered_self _ _

/-- Nobody else uses the connection. -/
structure Free (s : State) : Prop where
  running : s.running = true
  direct : s.direct.outstanding = false ∧ s.direct.planned = []
  loop : s.loop.outstanding = false ∧ s.loop.planned = []
  snapshot : s.loop ≠ .snapshot
  reconnecting : s.loop.reconnecting = false

/-- Once `run()` has started, no `add_handler` call uses the connection. -/
theorem Phase.direct_quiet (h : Phase s) (hrun : s.running = true) :
    s.direct.outstanding = false ∧ s.direct.planned = [] := by
  have hbusy := h.owned hrun
  generalize s.direct = d at hbusy
  cases d <;> first | exact ⟨rfl, rfl⟩ | cases hbusy

theorem Loop.quiet {l : Loop} (h : l.reconnecting = false) :
    l.outstanding = false ∧ l.planned = [] ∧ l ≠ .snapshot ∧ l ≠ .connecting := by
  cases l <;> first | (cases h; done) | exact ⟨rfl, rfl, nofun, nofun⟩

/-- When statements may be sent, nobody else uses the connection. -/
theorem Phase.free (h : Phase s) (hready : s.connReady = true) : Free s := by
  have hnot : s.connReady ≠ false := by simp [hready]
  have hrunning : s.running = true := by
    by_contra hrun
    exact hnot (h.before (Bool.eq_false_iff.mpr hrun)).2.1
  have hloop : s.loop.reconnecting = false := by
    by_contra hrec
    exact hnot (h.reconnecting (Bool.not_eq_false _ ▸ hrec)).1
  obtain ⟨hout, hplanned, hsnap, -⟩ := Loop.quiet hloop
  exact ⟨hrunning, h.direct_quiet hrunning, ⟨hout, hplanned⟩, hsnap, hloop⟩

theorem Free.heading (h : Free s) : s.heading = { ch | ch ∈ s.conn.target } := by
  ext ch
  simp [State.heading, h.direct.2, h.loop.2]

/-! ## `start_next_command_locked` -/

/-- The invariant does not read these. -/
theorem Inv.frame (h : Inv s) (wildcard : Handlers) (nextHandlerId : Nat)
    (waiting : List (String × Nat)) (granted : List Nat) (failed : List (String × Nat)) :
    Inv { s with
      wildcard := wildcard, nextHandlerId := nextHandlerId, waiting := waiting
      granted := granted, failed := failed } := by
  refine ⟨h.handlers, ⟨h.phase.before, h.phase.owned, h.phase.reconnecting, h.phase.down⟩, ?_⟩
  intro halive
  obtain ⟨hup, hsync, hblank, hcovered⟩ := h.tracked halive
  exact ⟨hup, hsync, hblank, hcovered⟩

theorem Inv.commands (h : Inv s) (cmds : List Command)
    (hcov : Covered s.changes s.registered s.heading →
      Covered (cmds.map fun cmd => (cmd.channel, cmd.listen)) s.registered s.heading) :
    Inv { s with commands := cmds } := by
  refine ⟨h.handlers, ⟨h.phase.before, h.phase.owned, h.phase.reconnecting, h.phase.down⟩, ?_⟩
  intro halive
  obtain ⟨hup, hsync, hblank, hcovered⟩ := h.tracked halive
  exact ⟨hup, hsync, hblank, fun hloop => hcov (hcovered hloop)⟩

/-- A statement that says what `exact_` says is sent. -/
theorem Inv.sent {cmd : Command} {rest : List Command} (h : Inv { s with commands := cmd :: rest })
    (hidle : s.inflight = none) (hready : s.connReady = true)
    (hlisten : cmd.listen = decide (cmd.channel ∈ s.exact)) :
    Inv { s with commands := rest, inflight := some cmd, conn := s.conn.sent cmd.statement } := by
  have hfree := h.phase.free hready
  refine ⟨h.handlers, ⟨?_, h.phase.owned, ?_, h.phase.down⟩, ?_⟩
  · intro hrun
    exact absurd (hrun.symm.trans hfree.running) (by simp)
  · intro hrec
    exact absurd (hrec.symm.trans hfree.reconnecting) (by simp)
  intro halive
  obtain ⟨hup, hsync, -, hcovered⟩ := h.tracked halive
  have hquiet : Sync s.conn false := by
    simpa [State.outstanding, hidle, hfree.direct.1, hfree.loop.1] using hsync
  refine ⟨hup, hquiet.send _, fun hl => absurd hl hfree.snapshot, fun _ => ?_⟩
  have hcov := hcovered hfree.snapshot
  refine Covered.work hcov (by simp [hlisten, State.registered]) ?_ ?_
  · intro ch hch
    have hne : ch ≠ cmd.statement.channel := hch
    simp [State.heading, hquiet.mem_target_sent, hne]
  · simp [State.heading, hfree.direct.2, hfree.loop.2, hquiet.mem_target_sent, Command.statement]

theorem Inv.startNextLoop {sendOk : Bool} (cmds : List Command) (s : State)
    (h : Inv { s with commands := cmds }) : Inv (s.startNextLoop sendOk cmds) := by
  induction cmds generalizing s with
  | nil => exact h
  | cons cmd rest ih =>
      rw [State.startNextLoop]
      split
      · rename_i hcond
        simp only [Bool.and_eq_true, Option.isNone_iff_eq_none] at hcond
        obtain ⟨hidle, hready⟩ := hcond
        split
        · rename_i hsuperseded
          have hrest := h.commands rest fun hcov => Covered.drop hcov ?_
          · exact ih _ (hrest.frame s.wildcard s.nextHandlerId s.waiting
              (cmd.hid.toList ++ s.granted) s.failed)
          intro hiff
          exact hsuperseded (Bool.eq_iff_iff.mpr (by simpa [State.registered] using hiff))
        · rename_i hlisten
          split
          · rename_i conn hsend
            rw [send_true hsend]
            exact h.sent hidle hready (not_not.mp hlisten)
          · -- the socket is shut down: the run loop will find the connection dead
            rename_i conn hsend
            have hdead := send_false hsend
            refine ⟨h.handlers, ⟨?_, h.phase.owned, fun hrec => ?_, fun _ => hdead⟩, ?_⟩
            · intro hrun
              exact ⟨hidle, rfl, (h.phase.before hrun).2.2⟩
            · exact ⟨rfl, hidle⟩
            · intro halive
              exact absurd (halive.symm.trans hdead) (by simp)
      · exact h

theorem Inv.startNextCommandLocked (h : Inv s) (sendOk : Bool) :
    Inv (s.startNextCommandLocked sendOk) :=
  Inv.startNextLoop s.commands s h

/-! ## Registering and taking back handlers -/

theorem Inv.lookup_getD (h : Inv s) (ch : String) :
    (s.exact.lookup ch).getD [] = [] ↔ ch ∉ s.exact := by
  have hsome := h.handlers ch
  rw [← AList.lookup_eq_none]
  cases hlookup : s.exact.lookup ch with
  | none => simp
  | some handlers => simpa [hlookup] using hsome

theorem handlers_insert (h : Inv s) (channel : String) {handlers : List Nat} (hne : handlers ≠ []) :
    ∀ ch, (s.exact.insert channel handlers).lookup ch ≠ some [] := by
  intro ch
  by_cases hch : ch = channel
  · subst hch
    simpa using hne
  · rw [AList.lookup_insert_ne hch]
    exact h.handlers ch

theorem handlers_erase (h : Inv s) (channel : String) :
    ∀ ch, (s.exact.erase channel).lookup ch ≠ some [] := by
  intro ch
  by_cases hch : ch = channel
  · subst hch
    simp
  · rw [AList.lookup_erase_ne hch]
    exact h.handlers ch

/-- A channel keeps its place in `exact_`. -/
theorem Inv.same {exact : Handlers} (h : Inv s) (hne : ∀ ch, exact.lookup ch ≠ some [])
    (hsame : ∀ ch, ch ∈ exact ↔ ch ∈ s.exact) : Inv { s with exact := exact } := by
  refine ⟨hne, ⟨h.phase.before, h.phase.owned, h.phase.reconnecting, h.phase.down⟩, ?_⟩
  intro halive
  obtain ⟨hup, hsync, hblank, hcovered⟩ := h.tracked halive
  refine ⟨hup, hsync, hblank, fun hloop => ?_⟩
  have hregistered : ({ s with exact := exact } : State).registered = s.registered :=
    Set.ext hsame
  rw [hregistered]
  exact hcovered hloop

/-- A channel enters or leaves `exact_` and the command is queued. -/
theorem Inv.flip {exact : Handlers} (h : Inv s) (hne : ∀ ch, exact.lookup ch ≠ some [])
    (cmd : Command) (hoff : ∀ ch, ch ≠ cmd.channel → (ch ∈ exact ↔ ch ∈ s.exact))
    (hon : cmd.listen = true ↔ cmd.channel ∈ exact) :
    Inv { s with exact := exact, commands := s.commands ++ [cmd] } := by
  refine ⟨hne, ⟨h.phase.before, h.phase.owned, h.phase.reconnecting, h.phase.down⟩, ?_⟩
  intro halive
  obtain ⟨hup, hsync, hblank, hcovered⟩ := h.tracked halive
  refine ⟨hup, hsync, hblank, fun hloop => ?_⟩
  have hagree : AgreeOff cmd.channel { ch | ch ∈ exact } s.registered := hoff
  rw [State.changes, List.map_append]
  exact (hcovered hloop).push hagree hon

/-- `add_handler` before `run()` registers a channel and is about to send its LISTEN. -/
theorem Inv.direct (h : Inv s) (hrun : s.running = false) (hnone : s.direct = .none)
    (channel : String) (hid : Nat) (handlers : List Nat) (hne : handlers ≠ []) :
    Inv { s with exact := s.exact.insert channel handlers, direct := .unsent channel hid } := by
  refine ⟨handlers_insert h channel hne,
    ⟨h.phase.before, ?_, h.phase.reconnecting, h.phase.down⟩, ?_⟩
  · intro hrunning
    exact absurd (hrun.symm.trans hrunning) (by simp)
  intro halive
  obtain ⟨hup, hsync, hblank, hcovered⟩ := h.tracked halive
  refine ⟨hup, ?_, hblank, fun hloop => ?_⟩
  · rw [State.outstanding, hnone] at hsync
    exact hsync
  · refine (hcovered hloop).both (a := channel) ?_ ?_ ?_
    · intro ch hch
      simp [State.registered, hch]
    · intro ch hch
      simp [State.heading, hnone, Direct.planned, hch]
    · simp [State.heading, State.registered, Direct.planned]

theorem Inv.addHandler {t : State} {channel : String} {sendOk : Bool} (h : Inv s)
    (hstep : s.addHandler channel sendOk = some t) : Inv t := by
  simp only [State.addHandler] at hstep
  split at hstep
  · cases hstep
    exact h.frame _ _ s.waiting s.granted s.failed
  split at hstep
  · cases hstep
  rename_i hoverlap
  have hne : (s.exact.lookup channel).getD [] ++ [s.nextHandlerId] ≠ [] := by simp
  split at hstep
  · rename_i hfirst
    split at hstep
    · -- from `run()` on the LISTEN is queued
      cases hstep
      refine Inv.startNextCommandLocked ?_ sendOk
      refine (h.flip (handlers_insert h channel hne)
        ⟨channel, true, some s.nextHandlerId⟩ ?_ ?_).frame
        s.wildcard (s.nextHandlerId + 1) (s.waiting ++ [(channel, s.nextHandlerId)])
        s.granted s.failed
      · intro ch hch
        simp [hch]
      · simp
    · rename_i hrun
      cases hstep
      have hrun : s.running = false := by simpa using hrun
      have hnone : s.direct = .none := by simpa [hrun] using hoverlap
      exact (h.direct hrun hnone channel s.nextHandlerId _ hne).frame
        s.wildcard (s.nextHandlerId + 1) s.waiting s.granted s.failed
  · rename_i hmore
    cases hstep
    have hmem : channel ∈ s.exact := not_not.mp (mt (h.lookup_getD channel).mpr hmore)
    refine (h.same (handlers_insert h channel hne) ?_).frame
      s.wildcard (s.nextHandlerId + 1) s.waiting s.granted s.failed
    intro ch
    rw [AList.mem_insert]
    exact or_iff_right_of_imp fun heq => heq ▸ hmem

theorem Inv.queueUnlisten (h : Inv s) (channel : String) (sendOk : Bool) :
    Inv (({ s with exact := s.exact.erase channel }).queueUnlistenLocked channel sendOk) := by
  have hflip := h.flip (handlers_erase h channel) ⟨channel, false, none⟩
    (fun ch hch => by simp [hch]) (by simp)
  simp only [State.queueUnlistenLocked]
  split
  · exact hflip.startNextCommandLocked sendOk
  · exact hflip

theorem Inv.eraseExact (h : Inv s) (channel : String) (id : Nat) (sendOk : Bool) :
    Inv (s.eraseExactLocked channel id sendOk).1 := by
  unfold State.eraseExactLocked
  split
  · exact h
  rename_i handlers hlookup
  split
  · split
    · exact h.queueUnlisten channel sendOk
    · rename_i hleft
      refine h.same (handlers_insert h channel hleft) ?_
      intro ch
      rw [AList.mem_insert]
      have hmem : channel ∈ s.exact := AList.lookup_isSome.mp (by rw [hlookup]; rfl)
      exact or_iff_right_of_imp fun heq => heq ▸ hmem
  · exact h

theorem Inv.removeHandler (h : Inv s) (id : Nat) (channel : String) (wildcard sendOk : Bool) :
    Inv (s.removeHandler id channel wildcard sendOk).1 := by
  unfold State.removeHandler
  split
  · split
    · exact h
    · split
      · exact h.frame _ s.nextHandlerId s.waiting s.granted s.failed
      · exact h.frame _ s.nextHandlerId s.waiting s.granted s.failed
  · exact h.eraseExact channel id sendOk

theorem Inv.removeChannel (h : Inv s) (channel : String) (sendOk : Bool) :
    Inv (s.removeChannel channel sendOk).1 := by
  unfold State.removeChannel
  split
  · exact h.frame _ s.nextHandlerId s.waiting s.granted s.failed
  · split
    · exact h.queueUnlisten channel sendOk
    · exact h

theorem Inv.addHandlerResume (h : Inv s) (channel : String) (hid : Nat) :
    Inv (s.addHandlerResume channel hid) := by
  simp only [State.addHandlerResume]
  split
  · exact h.frame s.wildcard s.nextHandlerId _ s.granted s.failed
  · exact h.frame s.wildcard s.nextHandlerId _ s.granted _

theorem Inv.addHandlerErase (h : Inv s) (channel : String) (hid : Nat) (sendOk : Bool) :
    Inv (s.addHandlerErase channel hid sendOk) :=
  (h.frame s.wildcard s.nextHandlerId s.waiting s.granted
    (s.failed.erase (channel, hid))).eraseExact
    channel hid sendOk

/-! ## Using the connection -/

theorem Inv.dead {t : State} (h : Inv s) (hexact : t.exact = s.exact) (hphase : Phase t)
    (hdead : t.conn.alive = false) : Inv t := by
  refine ⟨hexact ▸ h.handlers, hphase, fun halive => ?_⟩
  exact absurd (halive.symm.trans hdead) (by simp)

theorem Inv.dead_of_down (h : Inv s) (hdown : ¬s.conn.up = true) : s.conn.alive = false := by
  by_contra hlive
  exact hdown (h.tracked (Bool.not_eq_false _ ▸ hlive)).up

/-- The session moves on to where it was heading. -/
theorem Inv.moved {t : State} (h : Inv s) (hexact : t.exact = s.exact)
    (hcommands : t.commands = s.commands) (hphase : Phase t)
    (halive : t.conn.alive = true → s.conn.alive = true ∧ t.conn.up = s.conn.up)
    (hmove : Sync s.conn s.outstanding → Sync t.conn t.outstanding ∧ t.heading = s.heading)
    (hloop : t.loop ≠ .snapshot) (hloop' : s.loop ≠ .snapshot) : Inv t := by
  refine ⟨hexact ▸ h.handlers, hphase, fun hlive => ?_⟩
  obtain ⟨hlive', hup⟩ := halive hlive
  have htracked := h.tracked hlive'
  obtain ⟨hsync, hheading⟩ := hmove htracked.sync
  refine ⟨hup.trans htracked.up, hsync, fun hsnap => absurd hsnap hloop, fun _ => ?_⟩
  rw [State.changes, hcommands, State.registered, hexact, hheading]
  exact htracked.covered hloop'

/-- Only the connection changes, and it keeps its target. -/
theorem Inv.conn (h : Inv s) (c : Conn)
    (hc : c.alive = true → s.conn.alive = true ∧ c.up = s.conn.up ∧ c.target = s.conn.target ∧
      (Sync s.conn s.outstanding → Sync c s.outstanding)) : Inv { s with conn := c } := by
  refine ⟨h.handlers, ⟨h.phase.before, h.phase.owned, h.phase.reconnecting, ?_⟩, fun hlive => ?_⟩
  · intro hloop
    have hdead := h.phase.down hloop
    by_contra hlive
    exact absurd ((hc (Bool.not_eq_false _ ▸ hlive)).1.symm.trans hdead) (by simp)
  obtain ⟨hlive', hup, htarget, hsync⟩ := hc hlive
  have htracked := h.tracked hlive'
  refine ⟨hup.trans htracked.up, hsync htracked.sync, ?_, fun hloop => ?_⟩
  · intro hsnap
    exact htarget.trans (htracked.blank hsnap)
  · have hheading : ({ s with conn := c } : State).heading = s.heading := by
      simp [State.heading, htarget]
    rw [hheading]
    exact htracked.covered hloop

/-- A read that does not see the end of the reply. -/
theorem Inv.collect {c : Conn} (h : Inv s) (hwaits : s.outstanding = true)
    (hcollect : s.conn.collect = (false, c)) : Inv { s with conn := c } := by
  obtain ⟨halive, hup, htarget⟩ := collect_same hcollect
  refine h.conn c fun hlive => ⟨halive ▸ hlive, hup, htarget, fun hsync => ?_⟩
  rw [hwaits] at hsync ⊢
  exact hsync.collect hcollect

end Upq.Notify
