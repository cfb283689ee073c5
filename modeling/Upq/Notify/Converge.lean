/-
  Notify/Converge.lean --- the session listens to the registered channels.

  Every step that uses the connection keeps the invariant: the LISTENs before `run()`,
  `reconnect()` with `resubscribe_all`, the drains of the run loop.  With nothing queued
  and nothing in flight the invariant says that the session listens to the channels of
  `exact_`.
-/
import Upq.Notify.Invariant

set_option autoImplicit false

namespace Upq.Notify

open Upq.Libpq Upq.Foundation Upq.Foundation.Reconcile

variable {s : State}

/-! ## LISTENs before `run()` -/

/-- An `add_handler` call that uses the connection runs before `run()`. -/
theorem Phase.direct (h : Phase s) (hbusy : s.direct.busy = true) :
    s.running = false ∧ s.inflight = none ∧ s.loop.outstanding = false ∧ s.loop.planned = [] ∧
      s.loop ≠ .snapshot ∧ s.loop ≠ .connecting := by
  have hrun : s.running = false := by
    by_contra hrun
    have hnot := h.owned (Bool.not_eq_false _ ▸ hrun)
    exact absurd (hbusy.symm.trans hnot) (by simp)
  obtain ⟨hidle, -, hloop⟩ := h.before hrun
  refine ⟨hrun, hidle, ?_⟩
  rcases hloop with hloop | hloop <;> simp [hloop, Loop.outstanding, Loop.planned]

/-- While `run()` has not started only its own start looks at `direct`. -/
theorem Phase.before_run {t : State} (h : Phase s) (hrun : s.running = false)
    (hrun' : t.running = s.running) (hidle : t.inflight = s.inflight)
    (hready : t.connReady = s.connReady) (hloop : t.loop = s.loop) : Phase t := by
  obtain ⟨hi, hr, hl⟩ := h.before hrun
  have hnot : t.running = false := hrun'.trans hrun
  refine ⟨fun _ => ⟨hidle.trans hi, hready.trans hr, hloop ▸ hl⟩, ?_, ?_, ?_⟩
  · intro hrunning
    exact absurd (hnot.symm.trans hrunning) (by simp)
  · intro hrec
    rw [hloop] at hrec
    rcases hl with hl | hl <;> rw [hl] at hrec <;> cases hrec
  · intro hconn
    rw [hloop] at hconn
    rcases hl with hl | hl <;> rw [hl] at hconn <;> cases hconn

theorem Inv.directSend {t : State} {sendOk : Bool} (h : Inv s)
    (hstep : directStep s (.directSend sendOk) = some t) : Inv t := by
  simp only [directStep] at hstep
  split at hstep
  swap
  · cases hstep
  rename_i channel hid hdirect
  have hbusy : s.direct.busy = true := by rw [hdirect]; rfl
  obtain ⟨hrun, hidle, hout, hplanned, hsnap, -⟩ := h.phase.direct hbusy
  split at hstep
  · split at hstep
    · rename_i conn hsend
      cases hstep
      cases send_true hsend
      refine h.moved rfl rfl (h.phase.before_run hrun rfl rfl rfl rfl) (fun hlive => ⟨hlive, rfl⟩)
        ?_ hsnap hsnap
      intro hsync
      have hquiet : Sync s.conn false := by
        simpa [State.outstanding, hidle, hdirect, hout, Direct.outstanding] using hsync
      refine ⟨?_, ?_⟩
      · simpa [State.outstanding, Direct.outstanding] using hquiet.send ⟨true, channel⟩
      · ext ch
        simp [State.heading, hdirect, hplanned, Direct.planned, hquiet.mem_target_listen, or_comm]
    · cases hstep
      exact h.dead rfl (h.phase.before_run hrun rfl rfl rfl rfl) rfl
  · rename_i hdown
    cases hstep
    exact h.dead rfl (h.phase.before_run hrun rfl rfl rfl rfl) (h.dead_of_down hdown)

theorem Inv.directCollect {t : State} {ok : Bool} (h : Inv s)
    (hstep : directStep s (.directCollect ok) = some t) : Inv t := by
  simp only [directStep] at hstep
  split at hstep
  swap
  · cases hstep
  rename_i channel hid hdirect
  have hbusy : s.direct.busy = true := by rw [hdirect]; rfl
  obtain ⟨hrun, hidle, hout, hplanned, hsnap, -⟩ := h.phase.direct hbusy
  have hwaits : s.outstanding = true := by simp [State.outstanding, hdirect, Direct.outstanding]
  split at hstep
  · split at hstep
    · rename_i conn hcollect
      cases hstep
      obtain ⟨halive, hup, htarget⟩ := collect_same hcollect
      refine h.moved rfl rfl (h.phase.before_run hrun rfl rfl rfl rfl)
        (fun hlive => ⟨halive ▸ hlive, hup⟩) ?_ hsnap hsnap
      intro hsync
      refine ⟨?_, ?_⟩
      · simpa [State.outstanding, Direct.outstanding, hidle, hout] using
          (hwaits ▸ hsync).collect hcollect
      · simp [State.heading, hdirect, Direct.planned, htarget]
    · rename_i conn hcollect
      cases hstep
      exact h.collect hwaits hcollect
  · cases hstep
    exact h.dead rfl (h.phase.before_run hrun rfl rfl rfl rfl) rfl

theorem Inv.directDone {t : State} (h : Inv s) (hstep : directStep s .directDone = some t) :
    Inv t := by
  simp only [directStep] at hstep
  split at hstep
  swap
  · cases hstep
  rename_i channel hid ok hdirect
  cases hstep
  have hbusy : s.direct.busy = true := by rw [hdirect]; rfl
  obtain ⟨hrun, -, -, -, hsnap, -⟩ := h.phase.direct hbusy
  refine h.moved rfl rfl (h.phase.before_run hrun rfl rfl rfl rfl) (fun hlive => ⟨hlive, rfl⟩)
    (fun hsync => ⟨?_, ?_⟩) hsnap hsnap
  · rw [State.outstanding, hdirect] at hsync
    cases ok <;> exact hsync
  · rw [State.heading, State.heading, hdirect]
    cases ok <;> rfl

theorem Inv.directErase {t : State} {sendOk : Bool} (h : Inv s)
    (hstep : directStep s (.directErase sendOk) = some t) : Inv t := by
  simp only [directStep] at hstep
  split at hstep
  swap
  · cases hstep
  rename_i channel hid hdirect
  cases hstep
  refine Inv.eraseExact ?_ channel hid sendOk
  refine ⟨h.handlers, ⟨h.phase.before, fun _ => rfl, h.phase.reconnecting, h.phase.down⟩, ?_⟩
  intro halive
  obtain ⟨hup, hsync, hblank, hcovered⟩ := h.tracked halive
  rw [State.outstanding, hdirect] at hsync
  rw [State.heading, hdirect] at hcovered
  exact ⟨hup, hsync, hblank, hcovered⟩

theorem Inv.directStep {t : State} {e : Event} (h : Inv s) (hstep : directStep s e = some t) :
    Inv t := by
  cases e with
  | directSend sendOk => exact h.directSend hstep
  | directCollect ok => exact h.directCollect hstep
  | directDone => exact h.directDone hstep
  | directErase sendOk => exact h.directErase hstep
  | _ => cases hstep

/-! ## `reconnect()` -/

theorem Phase.running (h : Phase s) (hstart : s.loop ≠ .starting) (hfin : s.loop ≠ .finished) :
    s.running = true := by
  by_contra hrun
  rcases (h.before (Bool.eq_false_iff.mpr hrun)).2.2 with hloop | hloop
  · exact hstart hloop
  · exact hfin hloop

/-- The phase after a step of the running loop. -/
theorem Phase.next {t : State} (h : Phase s) (hrun : s.running = true)
    (hrun' : t.running = s.running) (hdirect : t.direct = s.direct)
    (hrec : t.loop.reconnecting = true → t.connReady = false ∧ t.inflight = none)
    (hdown : t.loop = .connecting → t.conn.alive = false) : Phase t := by
  refine ⟨?_, fun _ => hdirect ▸ h.owned hrun, hrec, hdown⟩
  intro hnot
  exact absurd ((hrun'.trans hrun).symm.trans hnot) (by simp)

/-- In `reconnect()` nobody else uses the connection. -/
theorem Phase.reconnect (h : Phase s) (hrec : s.loop.reconnecting = true) :
    s.running = true ∧ s.connReady = false ∧ s.inflight = none ∧ s.direct.outstanding = false ∧
      s.direct.planned = [] := by
  have hrun : s.running = true := by
    refine h.running ?_ ?_ <;> intro hloop <;> rw [hloop] at hrec <;> cases hrec
  obtain ⟨hready, hidle⟩ := h.reconnecting hrec
  exact ⟨hrun, hready, hidle, h.direct_quiet hrun⟩

theorem Inv.connect {t : State} (h : Inv s) (hstep : reconnectStep s .connect = some t) :
    Inv t := by
  simp only [reconnectStep, Option.ite_none_right_eq_some, Option.some.injEq] at hstep
  obtain ⟨hloop, rfl⟩ := hstep
  obtain ⟨hrun, hready, hidle, hout, -⟩ := h.phase.reconnect (by rw [hloop]; rfl)
  refine ⟨h.handlers, h.phase.next hrun rfl rfl (fun _ => ⟨hready, hidle⟩) (by simp), fun _ => ?_⟩
  refine ⟨rfl, ?_, fun _ => rfl, fun hne => absurd rfl hne⟩
  simpa [State.outstanding, hidle, hout, Loop.outstanding] using sync_fresh

theorem Inv.snapshot {t : State} {names : List String} (h : Inv s)
    (hstep : reconnectStep s (.snapshot names) = some t) : Inv t := by
  simp only [reconnectStep, Option.ite_none_right_eq_some, Option.some.injEq] at hstep
  obtain ⟨⟨hloop, hnames⟩, rfl⟩ := hstep
  obtain ⟨hrun, hready, hidle, hout, hplanned⟩ := h.phase.reconnect (by rw [hloop]; rfl)
  refine ⟨h.handlers, h.phase.next hrun rfl rfl (fun _ => ⟨hready, hidle⟩) (by simp),
    fun halive => ?_⟩
  obtain ⟨hup, hsync, hblank, -⟩ := h.tracked halive
  refine ⟨hup, ?_, by simp, fun _ => ?_⟩
  · simpa [State.outstanding, hloop, Loop.outstanding] using hsync
  · -- the new session will listen to exactly the snapshot
    have hheading : ({ s with loop := .resubscribe names } : State).heading = s.registered := by
      ext ch
      simp [State.heading, hblank hloop, hplanned, Loop.planned, State.registered, hnames.mem_iff,
        AList.mem_keys]
    rw [hheading]
    exact covered_self _ _

theorem Inv.resubscribe {t : State} {sendOk : Bool} (h : Inv s)
    (hstep : reconnectStep s (.resubscribe sendOk) = some t) : Inv t := by
  simp only [reconnectStep] at hstep
  split at hstep
  · rename_i hloop
    cases hstep
    obtain ⟨hrun, -, hidle, hout, hplanned⟩ := h.phase.reconnect (by rw [hloop]; rfl)
    refine Inv.startNextCommandLocked ?_ sendOk
    refine h.moved rfl rfl (h.phase.next hrun rfl rfl (by intro hrec; cases hrec) (by simp))
      (fun hlive => ⟨hlive, rfl⟩) (fun hsync => ⟨?_, ?_⟩) (by simp) (by simp [hloop])
    · simpa [State.outstanding, hloop, Loop.outstanding] using hsync
    · simp [State.heading, hloop, Loop.planned]
  · rename_i name names hloop
    obtain ⟨hrun, hready, hidle, hout, hplanned⟩ := h.phase.reconnect (by rw [hloop]; rfl)
    have hphase : ∀ (conn : Conn) (loop : Loop), (loop = .connecting → conn.alive = false) →
        Phase { s with conn := conn, loop := loop } := fun conn loop hdown =>
      h.phase.next hrun rfl rfl (fun _ => ⟨hready, hidle⟩) hdown
    split at hstep
    · split at hstep
      · rename_i conn hsend
        cases hstep
        cases send_true hsend
        refine h.moved rfl rfl (hphase _ _ (by simp)) (fun hlive => ⟨hlive, rfl⟩) ?_ (by simp)
          (by simp [hloop])
        intro hsync
        have hquiet : Sync s.conn false := by
          simpa [State.outstanding, hidle, hout, hloop, Loop.outstanding] using hsync
        refine ⟨?_, ?_⟩
        · simpa [State.outstanding, Loop.outstanding] using hquiet.send ⟨true, name⟩
        · ext ch
          simp [State.heading, hloop, hplanned, Loop.planned, hquiet.mem_target_listen, or_assoc,
            or_left_comm]
      · cases hstep
        exact h.dead rfl (hphase _ _ fun _ => rfl) rfl
    · rename_i hdown
      cases hstep
      have hdead := h.dead_of_down hdown
      exact h.dead rfl (hphase _ _ fun _ => hdead) hdead
  · cases hstep

theorem Inv.resubscribeCollect {t : State} {ok : Bool} (h : Inv s)
    (hstep : reconnectStep s (.resubscribeCollect ok) = some t) : Inv t := by
  simp only [reconnectStep] at hstep
  split at hstep
  swap
  · cases hstep
  rename_i names hloop
  obtain ⟨hrun, hready, hidle, hout, hplanned⟩ := h.phase.reconnect (by rw [hloop]; rfl)
  have hwaits : s.outstanding = true := by simp [State.outstanding, hloop, Loop.outstanding]
  split at hstep
  · split at hstep
    · rename_i conn hcollect
      cases hstep
      obtain ⟨halive, hup, htarget⟩ := collect_same hcollect
      refine h.moved rfl rfl (h.phase.next hrun rfl rfl (fun _ => ⟨hready, hidle⟩) (by simp))
        (fun hlive => ⟨halive ▸ hlive, hup⟩) (fun hsync => ⟨?_, ?_⟩) (by simp) (by simp [hloop])
      · simpa [State.outstanding, Loop.outstanding, hidle, hout] using
          (hwaits ▸ hsync).collect hcollect
      · simp [State.heading, hloop, Loop.planned, htarget]
    · rename_i conn hcollect
      cases hstep
      exact h.collect hwaits hcollect
  · cases hstep
    exact h.dead rfl (h.phase.next hrun rfl rfl (fun _ => ⟨hready, hidle⟩) fun _ => rfl) rfl

theorem Inv.reconnectStep {t : State} {e : Event} (h : Inv s) (hstep : reconnectStep s e = some t) :
    Inv t := by
  cases e with
  | connect => exact h.connect hstep
  | snapshot names => exact h.snapshot hstep
  | resubscribe sendOk => exact h.resubscribe hstep
  | resubscribeCollect ok => exact h.resubscribeCollect hstep
  | _ => cases hstep

/-! ## The run loop -/

/-- The state after `drain_locked` has read and collected, before it starts the next
command. -/
def State.drained (s : State) (inflight : Option Command) (granted : List Nat)
    (batch stranded : List Notification) : State :=
  { s with
    loop := .dispatch batch, inflight := inflight, granted := granted
    conn := s.conn.drained inflight.isSome stranded }

/-- What a drain of a live connection comes to. -/
theorem drainLocked_eq (hsync : Sync s.conn s.inflight.isSome) (sendOk : Bool) :
    ∃ inflight granted batch stranded,
      s.drainLocked sendOk =
        (s.drained inflight granted batch stranded).startNextCommandLocked sendOk ∧
      Sync (s.conn.drained inflight.isSome stranded) inflight.isSome ∧
      batch ++ stranded = s.conn.pq.notes ++ notesOf s.conn.sock ∧
      ((s.inflight.isSome = true → notesOf (behindReply s.conn.sock) = []) → stranded = []) := by
  have hpq := hsync.read_pq
  cases hinflight : s.inflight with
  | none =>
      rw [hinflight] at hsync hpq
      have hquiet : controls s.conn.sock = [] := by
        cases hsync with
        | idle _ _ _ hrest => exact (List.append_eq_nil_iff.mp hrest).1
      have htake : s.conn.read.pq.takeNotes = _ :=
        hpq ▸ takeNotes_quiet hquiet .idle s.conn.pq.notes
      refine ⟨none, s.granted, _, [], ?_, ?_, List.append_nil _, fun _ => rfl⟩
      · simp only [State.drainLocked, htake, hinflight]
        rfl
      · cases hsync with
        | idle _ _ hpending hrest =>
            exact .idle rfl rfl hpending (List.append_eq_nil_iff.mp hrest).2
  | some cmd =>
      rw [hinflight] at hsync hpq
      obtain ⟨batch, stranded, htake, hresults, hnotes, hnone⟩ :=
        drain_reply hsync.replyPart s.conn.pq.notes
      have hbusy : s.conn.read.pq = ⟨.busy, s.conn.sock, s.conn.pq.notes⟩ := hpq
      rw [← hbusy] at htake hresults
      have hdrained := hsync.drained stranded
      cases hends : ends (controls s.conn.sock) with
      | false =>
          rw [hends] at hdrained hresults
          refine ⟨some cmd, s.granted, batch, stranded, ?_, hdrained, hnotes,
            fun h => hnone (h rfl)⟩
          simp only [State.drainLocked, hinflight, hresults, htake]
          rfl
      | true =>
          rw [hends] at hdrained hresults
          refine ⟨none, cmd.hid.toList ++ s.granted, batch, stranded, ?_, hdrained, hnotes,
            fun h => hnone (h rfl)⟩
          simp only [State.drainLocked, hinflight, hresults, htake]
          rfl

/-- The run loop goes on and the connection stays as it is. -/
theorem Inv.goto (h : Inv s) {loop : Loop} (hfrom : s.loop.reconnecting = false)
    (hto : loop.reconnecting = false) (hrun : s.running = true ∨ loop = .finished) :
    Inv { s with loop := loop } := by
  obtain ⟨hout, hplanned, hsnap, -⟩ := Loop.quiet hfrom
  obtain ⟨hout', hplanned', hsnap', hconn'⟩ := Loop.quiet hto
  refine h.moved rfl rfl ⟨?_, h.phase.owned, ?_, fun hc => absurd hc hconn'⟩
    (fun hlive => ⟨hlive, rfl⟩)
    (fun hsync => ⟨?_, ?_⟩) hsnap' hsnap
  · intro hnot
    obtain ⟨hidle, hready, -⟩ := h.phase.before hnot
    rcases hrun with hrun | hfin
    · exact absurd (hrun.symm.trans hnot) (by simp)
    · exact ⟨hidle, hready, Or.inr hfin⟩
  · intro hrec
    exact absurd (hto.symm.trans hrec) (by simp)
  · simpa [State.outstanding, hout, hout'] using hsync
  · simp [State.heading, hplanned, hplanned']

/-- Where the run loop is not starting or finished it runs. -/
theorem Inv.next (h : Inv s) {l loop : Loop} (hl : s.loop = l) (hfrom : l.reconnecting = false)
    (hstart : l ≠ .starting) (hfin : l ≠ .finished) (hto : loop.reconnecting = false) :
    Inv { s with loop := loop } := by
  subst hl
  exact h.goto hfrom hto (Or.inl (h.phase.running hstart hfin))

theorem Inv.start {t : State} {sendOk : Bool} (h : Inv s)
    (hstep : runStep s (.start sendOk) = some t) : Inv t := by
  simp only [runStep, Option.ite_none_right_eq_some, Option.some.injEq] at hstep
  obtain ⟨⟨hloop, hbusy⟩, rfl⟩ := hstep
  refine Inv.startNextCommandLocked ?_ sendOk
  refine h.moved rfl rfl ⟨nofun, fun _ => hbusy, nofun, nofun⟩ (fun hlive => ⟨hlive, rfl⟩)
    (fun hsync => ⟨?_, ?_⟩) nofun (by simp [hloop])
  · simpa [State.outstanding, hloop, Loop.outstanding] using hsync
  · simp [State.heading, hloop, Loop.planned]

theorem Inv.check {t : State} (h : Inv s) (hstep : runStep s .check = some t) : Inv t := by
  simp only [runStep, Option.ite_none_right_eq_some] at hstep
  obtain ⟨hloop, hstep⟩ := hstep
  split at hstep
  · cases hstep
    exact h.next hloop rfl nofun nofun rfl
  · rename_i hdown
    cases hstep
    have hdead := h.dead_of_down hdown
    have hrun := h.phase.running (by simp [hloop]) (by simp [hloop])
    exact h.dead rfl (h.phase.next hrun rfl rfl (fun _ => ⟨rfl, rfl⟩) fun _ => hdead) hdead

/-- Outside `reconnect()` the running loop waits for the command in flight. -/
theorem Phase.outstanding (h : Phase s) (hrun : s.running = true)
    (hloop : s.loop.reconnecting = false) : s.outstanding = s.inflight.isSome := by
  simp [State.outstanding, (h.direct_quiet hrun).1, (Loop.quiet hloop).1]

/-- The state before the next command is started, after any drain. -/
theorem Phase.drained {t : State} (h : Phase s) (hrun : s.running = true)
    (hrun' : t.running = s.running) (hdirect : t.direct = s.direct)
    (hloop : ∃ batch, t.loop = .dispatch batch) : Phase t := by
  obtain ⟨batch, hloop⟩ := hloop
  refine h.next hrun hrun' hdirect ?_ ?_ <;> intro hl <;> rw [hloop] at hl <;> cases hl

theorem Inv.drain {t : State} {sendOk : Bool} (h : Inv s)
    (hstep : runStep s (.drain sendOk) = some t) : Inv t := by
  simp only [runStep, Option.ite_none_right_eq_some, Option.some.injEq] at hstep
  obtain ⟨hloop, rfl⟩ := hstep
  have hrun := h.phase.running (by simp [hloop]) (by simp [hloop])
  by_cases halive : s.conn.alive = true
  · have hout := h.phase.outstanding hrun (by rw [hloop]; rfl)
    obtain ⟨inflight, granted, batch, stranded, heq, hsync', -, -⟩ :=
      drainLocked_eq (hout ▸ (h.tracked halive).sync) sendOk
    rw [heq]
    refine Inv.startNextCommandLocked ?_ sendOk
    have hphase : Phase (s.drained inflight granted batch stranded) :=
      h.phase.drained hrun rfl rfl ⟨batch, rfl⟩
    refine h.moved rfl rfl hphase (fun hlive => ⟨hlive, rfl⟩) (fun _ => ⟨?_, ?_⟩) nofun
      (by simp [hloop])
    · rw [hphase.outstanding hrun rfl]
      exact hsync'
    · simp [State.heading, State.drained, Conn.drained, Conn.target, hloop, Loop.planned]
  · have hdead : s.conn.alive = false := by simpa using halive
    simp only [State.drainLocked]
    repeat' split
    all_goals
      refine Inv.startNextCommandLocked ?_ sendOk
      exact h.dead rfl (h.phase.drained hrun rfl rfl ⟨_, rfl⟩) hdead

theorem Inv.drainFailed {t : State} {errorResult sendOk : Bool} (h : Inv s)
    (hstep : runStep s (.drainFailed errorResult sendOk) = some t) : Inv t := by
  simp only [runStep, Option.ite_none_right_eq_some, Option.some.injEq] at hstep
  obtain ⟨⟨hloop, hdead⟩, rfl⟩ := hstep
  have hrun := h.phase.running (by simp [hloop]) (by simp [hloop])
  refine Inv.startNextCommandLocked ?_ sendOk
  exact h.dead rfl (h.phase.drained hrun rfl rfl ⟨_, rfl⟩) hdead

theorem Inv.dispatch {t : State} (h : Inv s) (hstep : runStep s .dispatch = some t) : Inv t := by
  simp only [runStep] at hstep
  split at hstep
  · rename_i hloop
    cases hstep
    exact h.next hloop rfl nofun nofun rfl
  · rename_i n batch hloop
    cases hstep
    have hconn := h.conn { s.conn with dispatched := s.conn.dispatched ++ [n] } fun hlive =>
      ⟨hlive, rfl, rfl, fun hsync => hsync.congr rfl rfl rfl⟩
    exact hconn.next hloop rfl nofun nofun rfl
  · cases hstep

theorem Inv.cancel {t : State} (h : Inv s) (hstep : runStep s .cancel = some t) : Inv t := by
  simp only [runStep] at hstep
  split at hstep
  · rename_i hloop
    cases hstep
    exact h.goto (by rw [hloop]; rfl) rfl (Or.inr rfl)
  · rename_i hloop
    cases hstep
    have hrun := h.phase.running (by simp [hloop]) (by simp [hloop])
    exact h.dead rfl (h.phase.next hrun rfl rfl nofun nofun) (h.phase.down hloop)
  · rename_i hloop
    cases hstep
    exact h.goto (by rw [hloop]; rfl) rfl (Or.inr rfl)
  · rename_i hloop
    cases hstep
    exact h.goto (by rw [hloop]; rfl) rfl (Or.inr rfl)
  · cases hstep

theorem Inv.runStep {t : State} {e : Event} (h : Inv s) (hstep : runStep s e = some t) : Inv t := by
  cases e with
  | start sendOk => exact h.start hstep
  | check => exact h.check hstep
  | wait park =>
      simp only [Upq.Notify.runStep, Option.ite_none_right_eq_some] at hstep
      obtain ⟨hloop, hstep⟩ := hstep
      have hgoto : ∀ loop : Loop, loop.reconnecting = false → Inv { s with loop := loop } :=
        fun loop hto => h.next hloop rfl nofun nofun hto
      split at hstep
      · split at hstep
        · cases hstep
          exact hgoto .parked rfl
        · cases hstep
      · split at hstep
        · cases hstep
          exact hgoto .drain rfl
        · cases hstep
  | wake =>
      simp only [Upq.Notify.runStep, Option.ite_none_right_eq_some, Option.some.injEq] at hstep
      obtain ⟨hloop, rfl⟩ := hstep
      exact h.next hloop rfl nofun nofun rfl
  | drain sendOk => exact h.drain hstep
  | drainFailed errorResult sendOk => exact h.drainFailed hstep
  | dispatch => exact h.dispatch hstep
  | cancel => exact h.cancel hstep
  | _ => cases hstep

/-! ## Every step, every run -/

theorem inv_step {t : State} {e : Event} (h : Inv s) (hstep : step s e = some t) : Inv t := by
  cases step_stepped hstep with
  | add hadd => exact h.addHandler hadd
  | resume => exact h.addHandlerResume _ _
  | erase => exact h.addHandlerErase _ _ _
  | remove => exact h.removeHandler _ _ _ _
  | removeChannel => exact h.removeChannel _ _
  | direct hdirect => exact h.directStep hdirect
  | reconnect hreconnect => exact h.reconnectStep hreconnect
  | run hrun => exact h.runStep hrun
  | conn hconn =>
      refine h.conn _ fun hlive => ?_
      obtain ⟨halive, hup, htarget, hsync⟩ := connStep_sync hconn hlive
      exact ⟨halive, hup, htarget, hsync _⟩

theorem inv_exec {up : Bool} {es : List Event} (h : exec step (State.init up) es = some s) :
    Inv s :=
  exec_invariant Inv (fun _ _ _ hinv hstep => inv_step hinv hstep) (inv_init up) h

/-- With nothing queued and nothing in flight, a live session listens to exactly the
registered channels. -/
theorem Inv.listens_eq (h : Inv s) (hrunning : s.running = true) (hready : s.connReady = true)
    (hcommands : s.commands = []) (hinflight : s.inflight = none) (halive : s.conn.alive = true) :
    s.conn.listens = s.exact.keys.toFinset := by
  have hfree := h.phase.free hready
  obtain ⟨-, hsync, -, hcovered⟩ := h.tracked halive
  have hquiet : Sync s.conn false := by
    have hout := h.phase.outstanding hrunning hfree.reconnecting
    rw [hout, hinflight] at hsync
    exact hsync
  have hcov := hcovered hfree.snapshot
  rw [State.changes, hcommands, hfree.heading, hquiet.target] at hcov
  ext ch
  rw [List.mem_toFinset, ← AList.mem_keys]
  exact Set.ext_iff.mp hcov.eq ch

/-- In every reachable state in which statements may be sent, none is queued or in flight
and the session is alive, the session listens to exactly the registered channels. -/
theorem listens_eq_registered (up : Bool) (es : List Event)
    (h : exec step (State.init up) es = some s) (hrunning : s.running = true)
    (hready : s.connReady = true) (hcommands : s.commands = []) (hinflight : s.inflight = none)
    (halive : s.conn.alive = true) : s.conn.listens = s.exact.keys.toFinset :=
  (inv_exec h).listens_eq hrunning hready hcommands hinflight halive

/-- A LISTEN before `run()`, one in flight when the connection is lost, and a channel
removed while `resubscribe_all` works from its snapshot. -/
def lossRun : List Event :=
  [.addHandler "a" true, .directSend true, .execute, .reply, .reply, .directCollect true,
    .directDone, .start true, .check, .wait true, .addHandler "b" true, .lose true, .wake,
    .drainFailed false true, .dispatch, .check, .connect, .snapshot ["a", "b"],
    .removeChannel "a" true, .resubscribe true, .execute, .reply, .reply, .resubscribeCollect true,
    .resubscribe true, .execute, .reply, .reply, .resubscribeCollect true, .resubscribe true,
    .execute, .reply, .reply, .check, .wait false, .drain true, .execute, .reply, .reply,
    .dispatch, .check, .wait false, .drain true]

theorem listens_eq_registered_lossRun :
    ∃ s, exec step (State.init true) lossRun = some s ∧ s.exact.keys = ["b"] ∧
      s.conn.listens = s.exact.keys.toFinset := by
  have hrun : (exec step (State.init true) lossRun).any (fun s =>
      decide (s.running = true ∧ s.connReady = true ∧ s.commands = [] ∧ s.inflight = none ∧
        s.conn.alive = true ∧ s.exact.keys = ["b"])) = true := by decide +kernel
  obtain ⟨s, hs, hcond⟩ := (Option.any_eq_true ..).mp hrun
  obtain ⟨hrunning, hready, hcommands, hinflight, halive, hkeys⟩ := of_decide_eq_true hcond
  exact ⟨s, hs, hkeys,
    listens_eq_registered true lossRun hs hrunning hready hcommands hinflight halive⟩

end Upq.Notify
