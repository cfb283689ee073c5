/-
  Notify/Stranded.lean --- notifications that stay inside libpq.

  `drain_locked` asks `PQnotifies` before it collects the reply of the command in flight.
  When the whole reply is still to be parsed, parsing stops at its ReadyForQuery, and
  a notification behind it is parsed only by the calls that collect the reply, when
  nobody asks any more.  `listen_direct` and `resubscribe_all` collect replies and never
  ask.  `wait_readable_for_listener` looks at the kernel's buffer only, so the loop can
  park over such a notification until something else arrives: `stranded_behind_reply`.

  These reads are the only way: in a run without them nothing is left behind when the
  loop parks.
-/
import Upq.Notify.Converge

set_option autoImplicit false

namespace Upq.Notify

open Upq.Libpq Upq.Foundation

/-- When the run loop is parked over an empty socket buffer of a live connection, every
notification libpq has read off the socket has been dispatched, once and in order. -/
def AllDispatched (s : State) : Prop :=
  s.loop = .parked → s.conn.sock = [] → s.conn.alive = true → s.conn.dispatched = s.conn.taken

/-- The LISTEN of the first handler is in flight while the loop is parked; its reply and a
notification on the new channel arrive together. -/
def strandingRun : List Event :=
  [.start true, .check, .wait true, .addHandler "a" true, .execute, .reply, .reply,
    .notify ⟨"a", "hello", 7⟩, .wake, .drain true, .dispatch, .check, .wait true]

/-- The reads of `listen_direct` and `resubscribe_all`. -/
def Event.collects : Event → Bool
  | .directCollect ok | .resubscribeCollect ok => ok
  | _ => false

def Event.drains : Event → Bool
  | .drain _ => true
  | _ => false

/-- On a live connection, no read for a reply of `listen_direct` or `resubscribe_all` finds a
notification in the socket, and no drain with a command in flight finds one behind the
ReadyForQuery of a reply whose CommandComplete is also still to be parsed. -/
def Clean (s : State) (e : Event) : Prop :=
  s.conn.alive = true →
    (e.collects = true → notesOf s.conn.sock = []) ∧
    (e.drains = true → s.inflight.isSome = true →
      notesOf (behindReply (s.conn.pq.inbuf ++ s.conn.sock)) = [])

instance (s : State) (e : Event) : Decidable (Clean s e) := by
  unfold Clean
  infer_instance

/-- The notifications on their way to `dispatch`. -/
def Loop.batch : Loop → List Notification
  | .dispatch batch => batch
  | _ => []

/-- Nothing is queued in libpq, and what was read is dispatched or in the batch. -/
structure Kept (c : Conn) (batch : List Notification) : Prop where
  notes : c.pq.notes = []
  taken : c.taken = c.dispatched ++ batch

/-- A change of the connection that reads no notification. -/
structure Silent (c c' : Conn) : Prop where
  alive : c'.alive = true → c.alive = true
  notes : c'.pq.notes = c.pq.notes
  taken : c'.taken = c.taken
  dispatched : c'.dispatched = c.dispatched

theorem Silent.refl (c : Conn) : Silent c c := ⟨id, rfl, rfl, rfl⟩

theorem Silent.kept {c c' : Conn} {batch : List Notification} (h : Silent c c')
    (hkept : Kept c batch) :
    Kept c' batch := by
  refine ⟨h.notes.trans hkept.notes, ?_⟩
  rw [h.taken, h.dispatched]
  exact hkept.taken

theorem silent_send {c c' : Conn} {st : Statement} {sendOk ok : Bool}
    (h : c.send st sendOk = (ok, c')) : Silent c c' := by
  unfold Conn.send at h
  split at h
  · rw [← (Prod.mk.inj h).2]
    exact ⟨id, rfl, rfl, rfl⟩
  · rw [← (Prod.mk.inj h).2]
    exact ⟨nofun, rfl, rfl, rfl⟩

theorem silent_connStep {c c' : Conn} {e : Event} (h : connStep c e = some c') : Silent c c' := by
  cases e with
  | execute =>
      simp only [connStep] at h
      split at h
      · split at h <;> cases h
        exact ⟨id, rfl, rfl, rfl⟩
      · cases h
  | reply =>
      simp only [connStep] at h
      split at h <;> cases h
      exact ⟨id, rfl, rfl, rfl⟩
  | notify n => cases h; exact ⟨id, rfl, rfl, rfl⟩
  | lose noticed => cases h; exact ⟨(fun h => by cases h), rfl, rfl, rfl⟩
  | _ => cases h

/-- A read for a reply that finds no notification. -/
theorem silent_collect {c c' : Conn} {fin : Bool} (hsync : Sync c true)
    (hnone : notesOf c.sock = []) (h : c.collect = (fin, c')) : Silent c c' := by
  rw [collect_eq hsync, hnone] at h
  rw [← (Prod.mk.inj h).2]
  exact ⟨id, List.append_nil _, by simp [Conn.drained, hnone], rfl⟩

/-! ## Steps without notifications -/

variable {s t : State}

/-- A step that reads and dispatches no notification. -/
structure Still (s t : State) : Prop where
  batch : t.loop.batch = s.loop.batch
  silent : Silent s.conn t.conn

theorem startNextLoop_still (sendOk : Bool) (cmds : List Command) (s : State) :
    Still s (s.startNextLoop sendOk cmds) := by
  induction cmds generalizing s with
  | nil => exact ⟨rfl, .refl _⟩
  | cons cmd rest ih =>
      rw [State.startNextLoop]
      split
      · split
        · have hrest := ih { s with granted := cmd.hid.toList ++ s.granted }
          exact ⟨hrest.batch, hrest.silent⟩
        · split
          · rename_i hsend
            exact ⟨rfl, silent_send hsend⟩
          · rename_i hsend
            exact ⟨rfl, silent_send hsend⟩
      · exact ⟨rfl, .refl _⟩

theorem startNext_still (s : State) (sendOk : Bool) : Still s (s.startNextCommandLocked sendOk) :=
  startNextLoop_still sendOk s.commands s

/-- Nor does what came before it in the same section. -/
theorem Still.after {u : State} (h : Still s t) (hbatch : s.loop.batch = u.loop.batch)
    (hconn : s.conn = u.conn) : Still u t := ⟨h.batch.trans hbatch, hconn ▸ h.silent⟩

theorem queueUnlisten_still (s : State) (channel : String) (sendOk : Bool) :
    Still s (s.queueUnlistenLocked channel sendOk) := by
  simp only [State.queueUnlistenLocked]
  split
  · exact (startNext_still _ sendOk).after rfl rfl
  · exact ⟨rfl, .refl _⟩

theorem eraseExact_still (s : State) (channel : String) (id : Nat) (sendOk : Bool) :
    Still s (s.eraseExactLocked channel id sendOk).1 := by
  unfold State.eraseExactLocked
  split
  · exact ⟨rfl, .refl _⟩
  split
  · split
    · exact (queueUnlisten_still _ channel sendOk).after rfl rfl
    · exact ⟨rfl, .refl _⟩
  · exact ⟨rfl, .refl _⟩

theorem addHandler_still {channel : String} {sendOk : Bool}
    (h : s.addHandler channel sendOk = some t) :
    Still s t := by
  simp only [State.addHandler] at h
  split at h
  · cases h
    exact ⟨rfl, .refl _⟩
  split at h
  · cases h
  split at h
  · split at h
    · cases h
      exact (startNext_still _ sendOk).after rfl rfl
    · cases h
      exact ⟨rfl, .refl _⟩
  · cases h
    exact ⟨rfl, .refl _⟩

theorem addHandlerResume_still (s : State) (channel : String) (hid : Nat) :
    Still s (s.addHandlerResume channel hid) := by
  simp only [State.addHandlerResume]
  split <;> exact ⟨rfl, .refl _⟩

theorem addHandlerErase_still (s : State) (channel : String) (hid : Nat) (sendOk : Bool) :
    Still s (s.addHandlerErase channel hid sendOk) :=
  (eraseExact_still _ channel hid sendOk).after rfl rfl

theorem removeHandler_still (s : State) (id : Nat) (channel : String) (wildcard sendOk : Bool) :
    Still s (s.removeHandler id channel wildcard sendOk).1 := by
  unfold State.removeHandler
  repeat' split
  all_goals first
    | exact ⟨rfl, .refl _⟩
    | exact eraseExact_still s channel id sendOk

theorem removeChannel_still (s : State) (channel : String) (sendOk : Bool) :
    Still s (s.removeChannel channel sendOk).1 := by
  unfold State.removeChannel
  split
  · exact ⟨rfl, .refl _⟩
  · split
    · exact (queueUnlisten_still _ channel sendOk).after rfl rfl
    · exact ⟨rfl, .refl _⟩

/-- A clean read of `listen_direct` or `resubscribe_all`. -/
theorem clean_collect {e : Event} {c : Conn} {fin : Bool} (hinv : Inv s) (hclean : Clean s e)
    (hcollects : e.collects = true) (hwaits : s.outstanding = true)
    (hcollect : s.conn.collect = (fin, c)) (halive : c.alive = true) : Silent s.conn c := by
  have hlive : s.conn.alive = true := (collect_same hcollect).1 ▸ halive
  have hsync : Sync s.conn true := hwaits ▸ (hinv.tracked hlive).sync
  exact silent_collect hsync ((hclean hlive).1 hcollects) hcollect

theorem directStep_still {e : Event} (hinv : Inv s) (hclean : Clean s e)
    (h : directStep s e = some t) (halive : t.conn.alive = true) : Still s t := by
  cases e with
  | directSend sendOk =>
      simp only [directStep] at h
      repeat' split at h
      all_goals cases h
      · rename_i hsend
        exact ⟨rfl, silent_send hsend⟩
      · cases halive
      · exact ⟨rfl, .refl _⟩
  | directCollect ok =>
      simp only [directStep] at h
      split at h
      swap
      · cases h
      rename_i channel hid hdirect
      have hwaits : s.outstanding = true := by simp [State.outstanding, hdirect, Direct.outstanding]
      split at h
      · rename_i hok
        split at h <;> rename_i hcollect <;> cases h
        · exact ⟨rfl, clean_collect hinv hclean hok hwaits hcollect halive⟩
        · exact ⟨rfl, clean_collect hinv hclean hok hwaits hcollect halive⟩
      · cases h
        cases halive
  | directDone =>
      simp only [directStep] at h
      split at h <;> cases h
      exact ⟨rfl, .refl _⟩
  | directErase sendOk =>
      simp only [directStep] at h
      split at h <;> cases h
      exact (eraseExact_still _ _ _ _).after rfl rfl
  | _ => cases h

/-! ## Steps of the run loop -/

/-- The invariant of a clean run. -/
def KeptInv (s : State) : Prop :=
  Inv s ∧ (s.conn.alive = true → Kept s.conn s.loop.batch)

theorem Still.keptInv (h : t.conn.alive = true → Still s t) (hs : KeptInv s)
    (halive : t.conn.alive = true) : Kept t.conn t.loop.batch := by
  have hstill := h halive
  rw [hstill.batch]
  exact hstill.silent.kept (hs.2 (hstill.silent.alive halive))

theorem kept_reconnectStep {e : Event} (hs : KeptInv s) (hclean : Clean s e)
    (h : reconnectStep s e = some t) (halive : t.conn.alive = true) : Kept t.conn t.loop.batch := by
  have hstill : (t.conn.alive = true → Still s t) → Kept t.conn t.loop.batch :=
    fun hst => Still.keptInv hst hs halive
  cases e with
  | connect =>
      simp only [reconnectStep, Option.ite_none_right_eq_some, Option.some.injEq] at h
      obtain ⟨-, rfl⟩ := h
      exact ⟨rfl, rfl⟩
  | snapshot names =>
      simp only [reconnectStep, Option.ite_none_right_eq_some, Option.some.injEq] at h
      obtain ⟨⟨hloop, -⟩, rfl⟩ := h
      exact hstill fun _ => ⟨by simp [hloop, Loop.batch], .refl _⟩
  | resubscribe sendOk =>
      simp only [reconnectStep] at h
      split at h
      · rename_i hloop
        cases h
        exact hstill fun _ => (startNext_still _ sendOk).after (by simp [hloop, Loop.batch]) rfl
      · rename_i name names hloop
        split at h
        · split at h <;> rename_i hsend <;> cases h
          · exact hstill fun _ => ⟨by simp [hloop, Loop.batch], silent_send hsend⟩
          · cases halive
        · cases h
          exact hstill fun _ => ⟨by simp [hloop, Loop.batch], .refl _⟩
      · cases h
  | resubscribeCollect ok =>
      simp only [reconnectStep] at h
      split at h
      swap
      · cases h
      rename_i names hloop
      have hwaits : s.outstanding = true := by simp [State.outstanding, hloop, Loop.outstanding]
      split at h
      · rename_i hok
        split at h <;> rename_i hcollect <;> cases h
        · exact hstill fun hlive => ⟨by simp [hloop, Loop.batch],
            clean_collect hs.1 hclean hok hwaits hcollect hlive⟩
        · exact hstill fun hlive => ⟨rfl, clean_collect hs.1 hclean hok hwaits hcollect hlive⟩
      · cases h
        cases halive
  | _ => cases h

theorem drainLocked_alive {sendOk : Bool} (h : (s.drainLocked sendOk).conn.alive = true) :
    s.conn.alive = true := by
  simp only [State.drainLocked] at h
  repeat' split at h
  all_goals
    have hlive := (startNext_still _ sendOk).silent.alive h
    exact hlive

/-- A clean drain hands everything that was read to the batch. -/
theorem kept_drain {sendOk : Bool} (hs : KeptInv s) (hclean : Clean s (.drain sendOk))
    (h : runStep s (.drain sendOk) = some t) (halive : t.conn.alive = true) :
    Kept t.conn t.loop.batch := by
  simp only [runStep, Option.ite_none_right_eq_some, Option.some.injEq] at h
  obtain ⟨hloop, rfl⟩ := h
  have hlive := drainLocked_alive halive
  have hrun := hs.1.phase.running (by simp [hloop]) (by simp [hloop])
  have hsync := (hs.1.tracked hlive).sync
  rw [hs.1.phase.outstanding hrun (by rw [hloop]; rfl)] at hsync
  obtain ⟨inflight, granted, batch, stranded, heq, -, hnotes, hnone⟩ := drainLocked_eq hsync sendOk
  have hstranded : stranded = [] := by
    refine hnone fun hinflight => ?_
    have hbehind := (hclean hlive).2 rfl hinflight
    rwa [hsync.inbuf, List.nil_append] at hbehind
  obtain ⟨hempty, htaken⟩ := hs.2 hlive
  have hkept : Kept (s.drained inflight granted batch stranded).conn batch := by
    refine ⟨hstranded, ?_⟩
    rw [hstranded, List.append_nil, hempty, List.nil_append] at hnotes
    simp [State.drained, Conn.drained, htaken, hloop, Loop.batch, hnotes]
  have hstill := startNext_still (s.drained inflight granted batch stranded) sendOk
  rw [heq, hstill.batch]
  exact hstill.silent.kept hkept

theorem kept_dispatch (hs : KeptInv s) (h : runStep s .dispatch = some t)
    (halive : t.conn.alive = true) : Kept t.conn t.loop.batch := by
  simp only [runStep] at h
  split at h
  · rename_i hloop
    cases h
    have hkept := hs.2 halive
    rwa [hloop] at hkept
  · rename_i n batch hloop
    cases h
    obtain ⟨hempty, htaken⟩ := hs.2 halive
    rw [hloop] at htaken
    refine ⟨hempty, ?_⟩
    simpa [Loop.batch] using htaken
  · cases h

theorem kept_runStep {e : Event} (hs : KeptInv s) (hclean : Clean s e) (h : runStep s e = some t)
    (halive : t.conn.alive = true) : Kept t.conn t.loop.batch := by
  have hstill : Still s t → Kept t.conn t.loop.batch := fun hst =>
    Still.keptInv (fun _ => hst) hs halive
  cases e with
  | start sendOk =>
      simp only [runStep, Option.ite_none_right_eq_some, Option.some.injEq] at h
      obtain ⟨⟨hloop, -⟩, rfl⟩ := h
      exact hstill ((startNext_still _ sendOk).after (by simp [hloop, Loop.batch]) rfl)
  | check =>
      simp only [runStep, Option.ite_none_right_eq_some] at h
      obtain ⟨hloop, h⟩ := h
      split at h <;> cases h
      · exact hstill ⟨by simp [hloop, Loop.batch], .refl _⟩
      · exact hstill ⟨by simp [hloop, Loop.batch], .refl _⟩
  | wait park =>
      simp only [runStep, Option.ite_none_right_eq_some] at h
      obtain ⟨hloop, h⟩ := h
      repeat' split at h
      all_goals cases h
      · exact hstill ⟨by simp [hloop, Loop.batch], .refl _⟩
      · exact hstill ⟨by simp [hloop, Loop.batch], .refl _⟩
  | wake =>
      simp only [runStep, Option.ite_none_right_eq_some, Option.some.injEq] at h
      obtain ⟨hloop, rfl⟩ := h
      exact hstill ⟨by simp [hloop, Loop.batch], .refl _⟩
  | drain sendOk => exact kept_drain hs hclean h halive
  | drainFailed errorResult sendOk =>
      simp only [runStep, Option.ite_none_right_eq_some, Option.some.injEq] at h
      obtain ⟨⟨-, hdead⟩, rfl⟩ := h
      have hlive := (startNext_still _ sendOk).silent.alive halive
      exact absurd (hdead.symm.trans hlive) (by simp)
  | dispatch => exact kept_dispatch hs h halive
  | cancel =>
      simp only [runStep] at h
      split at h <;> cases h
      all_goals
        rename_i hloop
        exact hstill ⟨by simp [hloop, Loop.batch], .refl _⟩
  | _ => cases h

/-! ## Every clean run -/

theorem keptInv_init (up : Bool) : KeptInv (State.init up) := ⟨inv_init up, fun _ => ⟨rfl, rfl⟩⟩

theorem keptInv_step {e : Event} (hs : KeptInv s) (hclean : Clean s e) (hstep : step s e = some t) :
    KeptInv t := by
  refine ⟨inv_step hs.1 hstep, fun halive => ?_⟩
  cases step_stepped hstep with
  | add hadd => exact Still.keptInv (fun _ => addHandler_still hadd) hs halive
  | resume => exact Still.keptInv (fun _ => addHandlerResume_still s _ _) hs halive
  | erase => exact Still.keptInv (fun _ => addHandlerErase_still s _ _ _) hs halive
  | remove => exact Still.keptInv (fun _ => removeHandler_still s _ _ _ _) hs halive
  | removeChannel => exact Still.keptInv (fun _ => removeChannel_still s _ _) hs halive
  | direct hdirect => exact Still.keptInv (directStep_still hs.1 hclean hdirect) hs halive
  | reconnect hreconnect => exact kept_reconnectStep hs hclean hreconnect halive
  | run hrun => exact kept_runStep hs hclean hrun halive
  | conn hconn => exact Still.keptInv (s := s) (fun _ => ⟨rfl, silent_connStep hconn⟩) hs halive

/-- A notification in front of the ReadyForQuery and one that comes alone are dispatched. -/
def cleanRun : List Event :=
  [.start true, .check, .wait true, .addHandler "a" true, .execute, .reply,
    .notify ⟨"a", "first", 7⟩, .reply, .wake, .drain true, .dispatch, .dispatch, .check, .wait true,
    .notify ⟨"a", "second", 7⟩, .wake, .drain true, .dispatch, .dispatch, .check, .wait true]

end Upq.Notify
