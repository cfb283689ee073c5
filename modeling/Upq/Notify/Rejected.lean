/-
  Notify/Rejected.lean --- subscriptions that outlive a rejected LISTEN.

  Source: `add_handler`, `erase_exact_locked`, `start_next_command_locked`, `drain_locked`
  in `include/upq/PgNotificationMultiplexer.h`; `docs/notification-multiplexer.md`,
  "Subscriptions while running".

  A second `add_handler` on a channel returns at once, without waiting for the LISTEN of the
  first.  When the server rejects that LISTEN, the first call takes its own handler back and
  nothing else: the second handler stays registered on a channel the session does not listen
  to (`second_handler_unheard`).

  This is the only way.  If a LISTEN is rejected only while no other handler sits on its
  channel, and none joins before the failed call has taken its handler back (`Alone`), then
  every channel the session does not hear has a LISTEN queued or in flight, or only handlers
  that are about to be taken back (`Heard.excused`).
-/
import Upq.Notify.Calls

set_option autoImplicit false

namespace Upq.Notify

open Upq.Libpq Upq.Foundation

/-! ## The invariant -/

/-- The server will be asked to LISTEN to the channel. -/
def Calls.asked (s : Calls) (ch : String) : Prop :=
  (∃ cmd ∈ s.mux.commands, cmd.channel = ch ∧ cmd.listen = true) ∨
    s.mux.conn.pending ≠ none ∧
      ∃ cmd, s.mux.inflight = some cmd ∧ cmd.channel = ch ∧ cmd.listen = true

/-- Channels a live session does not hear. -/
structure Heard (s : Calls) : Prop where
  before : s.mux.running = false → s.unheard = ∅
  pending : ∀ cmd st, s.mux.conn.alive = true → s.mux.inflight = some cmd →
    s.mux.conn.pending = some st → st = cmd.statement
  -- `resubscribe_all` has all of it accepted, or is about to fail
  reconnecting : s.mux.conn.alive = true → s.mux.loop.reconnecting = true →
    s.unheard = ∅ ∨
      s.mux.loop.outstanding = true ∧ s.accepted = false ∧ s.mux.conn.pending = none
  answered : ∀ cmd, s.mux.conn.alive = true → s.mux.inflight = some cmd → cmd.listen = true →
    s.mux.conn.pending = none → s.accepted = true → cmd.channel ∉ s.unheard
  excused : ∀ ch, s.mux.conn.alive = true → s.mux.loop.reconnecting = false → ch ∈ s.unheard →
    s.asked ch ∨ ∀ h ∈ s.mux.handlersOf ch, s.spoiled h = true

section

variable {s t : Calls} {m : State}

theorem Heard.dead (hdead : t.mux.conn.alive = false)
    (hbefore : t.mux.running = false → t.unheard = ∅) : Heard t := by
  have hnot : ¬t.mux.conn.alive = true := by simp [hdead]
  exact ⟨hbefore, fun _ _ halive => absurd halive hnot, fun halive => absurd halive hnot,
    fun _ halive => absurd halive hnot, fun _ halive => absurd halive hnot⟩

theorem Heard.clear (hempty : t.unheard = ∅)
    (hpending : ∀ cmd st, t.mux.conn.alive = true → t.mux.inflight = some cmd →
      t.mux.conn.pending = some st → st = cmd.statement) : Heard t := by
  refine ⟨fun _ => hempty, hpending, fun _ _ => Or.inl hempty, ?_, ?_⟩
  · intro cmd _ _ _ _ _
    simp [hempty]
  · intro ch _ _ hch
    simp [hempty] at hch

/-- The books do not matter. -/
theorem Heard.frame (h : Heard s) (granted : List Nat) (returned removed : List (String × Nat)) :
    Heard { s with
      mux := { s.mux with granted := granted }, returned := returned, removed := removed } :=
  ⟨h.before, h.pending, h.reconnecting, h.answered, h.excused⟩

/-- The connection keeps its statement and commands are only added. -/
theorem Heard.move (h : Heard s) (hcommands : ∀ cmd ∈ s.mux.commands, cmd ∈ m.commands)
    (hinflight : m.inflight = s.mux.inflight) (hrun : m.running = false → s.mux.running = false)
    (hconn : m.conn.alive = true →
      s.mux.conn.alive = true ∧ m.conn.pending = s.mux.conn.pending ∧
      m.loop.reconnecting = s.mux.loop.reconnecting ∧ m.loop.outstanding = s.mux.loop.outstanding)
    (hexcused : ∀ ch, (s.asked ch ∨ ∀ x ∈ s.mux.handlersOf ch, s.spoiled x = true) →
      (s.asked ch ∨ ∃ cmd ∈ m.commands, cmd.channel = ch ∧ cmd.listen = true) ∨
        ∀ x ∈ m.handlersOf ch, s.spoiled x = true) :
    Heard { s with mux := m } := by
  refine ⟨fun hnot => h.before (hrun hnot), ?_, ?_, ?_, ?_⟩
  · intro cmd st halive hcmd hst
    obtain ⟨halive, hpending, -⟩ := hconn halive
    exact h.pending cmd st halive (hinflight ▸ hcmd) (hpending ▸ hst)
  · intro halive hrec
    obtain ⟨halive, hpending, hloop, hout⟩ := hconn halive
    dsimp only at hrec ⊢
    rw [hpending, hout]
    exact h.reconnecting halive (hloop ▸ hrec)
  · intro cmd halive hcmd hlisten hst hacc
    obtain ⟨halive, hpending, -⟩ := hconn halive
    exact h.answered cmd halive (hinflight ▸ hcmd) hlisten (hpending ▸ hst) hacc
  · intro ch halive hrec hch
    obtain ⟨halive, hpending, hloop, -⟩ := hconn halive
    refine (hexcused ch (h.excused ch halive (hloop ▸ hrec) hch)).imp ?_ ?_
    · rintro ((⟨cmd, hcmd, hlisten⟩ | ⟨hsome, cmd, hcmd, hlisten⟩) | hnew)
      · exact Or.inl ⟨cmd, hcommands cmd hcmd, hlisten⟩
      · exact Or.inr ⟨hpending ▸ hsome, cmd, hinflight.trans hcmd, hlisten⟩
      · exact Or.inl hnew
    · intro hall x hx
      have hspoiled := hall x hx
      simpa only [Calls.spoiled, hpending, hinflight] using hspoiled

/-- Handlers are only taken out. -/
theorem Heard.keep (h : Heard s) (hcommands : ∀ cmd ∈ s.mux.commands, cmd ∈ m.commands)
    (hhandlers : ∀ ch, ∀ x ∈ m.handlersOf ch, x ∈ s.mux.handlersOf ch)
    (hinflight : m.inflight = s.mux.inflight) (hrun : m.running = false → s.mux.running = false)
    (hconn : m.conn.alive = true →
      s.mux.conn.alive = true ∧ m.conn.pending = s.mux.conn.pending ∧
      m.loop.reconnecting = s.mux.loop.reconnecting ∧ m.loop.outstanding = s.mux.loop.outstanding) :
    Heard { s with mux := m } := by
  refine h.move hcommands hinflight hrun hconn fun ch => Or.imp Or.inl ?_
  intro hall x hx
  exact hall x (hhandlers ch x hx)

/-- The run loop goes on over the connection as it is. -/
theorem Heard.goto (h : Heard s) {conn : Conn} {loop : Loop}
    (hconn : conn.alive = true →
      s.mux.conn.alive = true ∧ conn.pending = s.mux.conn.pending ∧
      loop.reconnecting = s.mux.loop.reconnecting ∧ loop.outstanding = s.mux.loop.outstanding) :
    Heard { s with mux := { s.mux with conn := conn, loop := loop } } :=
  h.keep (fun _ => id) (fun _ _ => id) rfl id hconn

theorem handlersOf_eq_nil {ch : String} (h : ch ∉ m.exact) : m.handlersOf ch = [] := by
  rw [State.handlersOf, AList.lookup_eq_none.mpr h]
  rfl

/-! ## `start_next_command_locked` -/

/-- A superseded LISTEN is of a channel without handlers. -/
theorem excused_of_dropped {dropped rest : List Command} {ch : String}
    (hdrop : ∀ cmd ∈ dropped, cmd.listen ≠ decide (cmd.channel ∈ m.exact))
    (hasked : ∃ cmd ∈ dropped ++ rest, cmd.channel = ch ∧ cmd.listen = true) :
    (∃ cmd ∈ rest, cmd.channel = ch ∧ cmd.listen = true) ∨ m.handlersOf ch = [] := by
  obtain ⟨cmd, hcmd, rfl, hlisten⟩ := hasked
  rcases List.mem_append.mp hcmd with hin | hin
  · refine Or.inr (handlersOf_eq_nil fun hmem => hdrop cmd hin ?_)
    simp [hlisten, hmem]
  · exact Or.inl ⟨cmd, hin, rfl, hlisten⟩

theorem Heard.startNext (h : Heard s)
    (hready : s.mux.connReady = true → s.mux.loop.reconnecting = false) (sendOk : Bool) :
    Heard { s with mux := s.mux.startNextCommandLocked sendOk } := by
  have hstarted := startNext_started s.mux sendOk
  generalize s.mux.startNextCommandLocked sendOk = m' at hstarted
  cases hstarted with
  | kept dropped rest granted hcmds hdrop _ _ =>
      refine ⟨h.before, h.pending, h.reconnecting, h.answered, ?_⟩
      intro ch halive hrec hch
      rcases h.excused ch halive hrec hch with (hqueued | hsent) | hall
      · rw [hcmds] at hqueued
        rcases excused_of_dropped hdrop hqueued with hrest | hnone
        · exact Or.inl (Or.inl hrest)
        · refine Or.inr fun x hx => ?_
          have hx : x ∈ s.mux.handlersOf ch := hx
          rw [hnone] at hx
          cases hx
      · exact Or.inl (Or.inr hsent)
      · exact Or.inr hall
  | sent dropped cmd rest granted hcmds hdrop hidle hconn _ =>
      refine ⟨h.before, ?_, ?_, ?_, ?_⟩
      · intro cmd' st _ hcmd' hst
        obtain rfl := Option.some.inj hcmd'
        exact (Option.some.inj hst).symm
      · intro _ hrec
        exact absurd ((hready hconn).symm.trans hrec) (by decide)
      · intro _ _ _ _ hnone _
        cases hnone
      · intro ch halive hrec hch
        rcases h.excused ch halive hrec hch with (hqueued | ⟨-, cmd', hcmd', -⟩) | hall
        · rw [hcmds] at hqueued
          rcases excused_of_dropped hdrop hqueued with ⟨x, hx, hlisten⟩ | hnone
          · rcases List.mem_cons.mp hx with rfl | hx
            · exact Or.inl (Or.inr ⟨nofun, x, rfl, hlisten⟩)
            · exact Or.inl (Or.inl ⟨x, hx, hlisten⟩)
          · refine Or.inr fun x hx => ?_
            have hx : x ∈ s.mux.handlersOf ch := hx
            rw [hnone] at hx
            cases hx
        · exact absurd (hidle.symm.trans hcmd') nofun
        · -- nothing was in flight, so these were refused
          refine Or.inr fun x hx => ?_
          have hspoiled := hall x hx
          have hrefused : x ∈ s.refused := by simpa [Calls.spoiled, hidle] using hspoiled
          simp [Calls.spoiled, hrefused]
  | failed dropped rest granted conn _ _ hdead _ => exact Heard.dead hdead h.before

theorem Heard.queueUnlisten (h : Heard s)
    (hready : s.mux.connReady = true → s.mux.loop.reconnecting = false) (channel : String)
    (sendOk : Bool) : Heard { s with mux := s.mux.queueUnlistenLocked channel sendOk } := by
  have hqueued : Heard { s with mux :=
      { s.mux with commands := s.mux.commands ++ [Command.mk channel false none] } } :=
    h.keep (fun _ => List.mem_append_left _) (fun _ _ => id) rfl id fun halive =>
      ⟨halive, rfl, rfl, rfl⟩
  unfold State.queueUnlistenLocked
  dsimp only
  split
  · exact hqueued.startNext hready sendOk
  · exact hqueued

/-- A channel loses all its handlers. -/
theorem Heard.eraseChannel (h : Heard s) (channel : String) :
    Heard { s with mux := { s.mux with exact := s.mux.exact.erase channel } } := by
  refine h.keep (fun _ => id) ?_ rfl id fun halive => ⟨halive, rfl, rfl, rfl⟩
  intro ch x hx
  by_cases heq : ch = channel
  · rw [State.handlersOf, heq, AList.lookup_erase] at hx
    cases hx
  · rwa [State.handlersOf, AList.lookup_erase_ne heq] at hx

theorem Heard.eraseExact (h : Heard s)
    (hready : s.mux.connReady = true → s.mux.loop.reconnecting = false)
    (channel : String) (id : Nat) (sendOk : Bool) :
    Heard { s with mux := (s.mux.eraseExactLocked channel id sendOk).1 } := by
  unfold State.eraseExactLocked
  split
  · exact h
  · rename_i handlers hlookup
    split
    · split
      · exact (h.eraseChannel channel).queueUnlisten hready channel sendOk
      · refine h.keep (fun _ hcmd => hcmd) ?_ rfl (fun hrun => hrun)
          fun halive => ⟨halive, rfl, rfl, rfl⟩
        intro ch x hx
        by_cases heq : ch = channel
        · rw [State.handlersOf, heq, AList.lookup_insert] at hx
          rw [heq, State.handlersOf, hlookup]
          exact List.mem_of_mem_erase hx
        · rwa [State.handlersOf, AList.lookup_insert_ne heq] at hx
    · exact h

/-! ## Calls -/

/-- A LISTEN is rejected only while no other handler sits on its channel, unless the session
listens to it already or is asked again; and no handler joins a channel on which one whose
LISTEN was rejected is still registered. -/
def Alone (s : Calls) : CallEvent → Prop
  | .mux (.addHandler channel _) => ∀ h ∈ s.mux.handlersOf channel, s.spoiled h = false
  | .mux _ => True
  | .reject =>
      match s.mux.conn.pending with
      | none => True
      | some st =>
          s.mux.loop.reconnecting = true ∨ st.channel ∈ s.listening ∨
            (∃ cmd ∈ s.mux.commands, cmd.channel = st.channel ∧ cmd.listen = true) ∨
            ∀ h ∈ s.mux.handlersOf st.channel, s.mux.inflight.bind Command.hid = some h

instance (s : Calls) (e : CallEvent) : Decidable (Alone s e) := by
  unfold Alone
  split
  · infer_instance
  · infer_instance
  · split <;> infer_instance

theorem heard_addHandler {channel : String} {sendOk : Bool} (hinv : Inv s.mux) (h : Heard s)
    (hguard : Alone s (.mux (.addHandler channel sendOk)))
    (hadd : s.mux.addHandler channel sendOk = some m) : Heard { s with mux := m } := by
  have hother : ∀ ch, ch ≠ channel → ∀ x ∈ ((s.mux.exact.insert channel
      (s.mux.handlersOf channel ++ [s.mux.nextHandlerId])).lookup ch).getD [],
      x ∈ s.mux.handlersOf ch := by
    intro ch hch x hx
    rwa [AList.lookup_insert_ne hch] at hx
  simp only [State.addHandler] at hadd
  split at hadd
  · cases hadd
    exact h.keep (fun _ => id) (fun _ _ => id) rfl id fun halive => ⟨halive, rfl, rfl, rfl⟩
  split at hadd
  · cases hadd
  split at hadd
  · split at hadd
    · -- the LISTEN is queued
      cases hadd
      have hqueued : Heard { s with mux := { s.mux with
          exact := s.mux.exact.insert channel (s.mux.handlersOf channel ++ [s.mux.nextHandlerId])
          nextHandlerId := s.mux.nextHandlerId + 1
          commands := s.mux.commands ++ [⟨channel, true, some s.mux.nextHandlerId⟩]
          waiting := s.mux.waiting ++ [(channel, s.mux.nextHandlerId)] } } := by
        refine h.move (fun _ => List.mem_append_left _) rfl id
          (fun halive => ⟨halive, rfl, rfl, rfl⟩) ?_
        intro ch hold
        by_cases hch : ch = channel
        · exact Or.inl
            (Or.inr ⟨_, List.mem_append_right _ (List.mem_singleton_self _), hch.symm, rfl⟩)
        · exact hold.imp Or.inl fun hall x hx => hall x (hother ch hch x hx)
      exact hqueued.startNext (fun hready => (hinv.phase.free hready).reconnecting) sendOk
    · rename_i hrun
      cases hadd
      refine Heard.clear (h.before (by simpa using hrun)) h.pending
  · rename_i hmore
    cases hadd
    refine h.move (fun _ => id) rfl id (fun halive => ⟨halive, rfl, rfl, rfl⟩) ?_
    intro ch hold
    rcases hold with hasked | hall
    · exact Or.inl (Or.inl hasked)
    · by_cases hch : ch = channel
      · -- some handler of the channel is not about to go
        obtain ⟨x, hx⟩ := List.exists_mem_of_ne_nil _ hmore
        have hgood := hguard x hx
        have hbad := hall x (hch ▸ hx)
        exact absurd (hgood.symm.trans hbad) (by decide)
      · exact Or.inr fun x hx => hall x (hother ch hch x hx)

/-! ## The run loop and the connection -/

/-- A reply that is seen to its end is of a statement the server has executed. -/
theorem pending_of_completes (hinv : Inv s.mux) (hloop : s.mux.loop = .drain)
    (halive : s.mux.conn.alive = true) (hcompletes : s.mux.completes = true) :
    s.mux.conn.pending = none := by
  obtain ⟨hsome, hfin⟩ := Bool.and_eq_true_iff.mp hcompletes
  have hrun := hinv.phase.running (by simp [hloop]) (by simp [hloop])
  have hout := hinv.phase.outstanding hrun (by rw [hloop]; rfl)
  have hsync := (hinv.tracked halive).sync
  rw [hout, hsome] at hsync
  obtain ⟨batch, stranded, -, hresults, -, -⟩ := drain_reply hsync.replyPart s.mux.conn.pq.notes
  have hpq : s.mux.conn.read.pq = ⟨.busy, s.mux.conn.sock, s.mux.conn.pq.notes⟩ := hsync.read_pq
  rw [hpq, hresults] at hfin
  have hdrained := hsync.drained []
  rw [show ends (controls s.mux.conn.sock) = true from hfin] at hdrained
  cases hdrained with
  | idle _ _ hpending _ => exact hpending

theorem heard_drain {sendOk : Bool} (hinv : Inv s.mux) (h : Heard s)
    (hstep : runStep s.mux (.drain sendOk) = some m) : Heard (s.after m (.drain sendOk)) := by
  simp only [runStep, Option.ite_none_right_eq_some, Option.some.injEq] at hstep
  obtain ⟨hloop, rfl⟩ := hstep
  obtain ⟨batch, pq, heq⟩ := drainLocked_pre s.mux sendOk
  rw [heq]
  -- whatever was rejected in flight has been refused by now
  have hpre : ∀ refused : List Nat, (∀ x ∈ s.refused, x ∈ refused) →
      (s.mux.completes = true → s.accepted = false →
        ∀ x, s.mux.inflight.bind Command.hid = some x → x ∈ refused) →
      Heard { s with
        mux := { s.mux with
          loop := .dispatch batch, conn := { s.mux.conn.read with pq := pq }
          inflight := if s.mux.completes then none else s.mux.inflight
          granted :=
            if s.mux.completes then s.mux.inflight.toList.filterMap Command.hid ++ s.mux.granted
            else s.mux.granted }
        refused := refused } := by
    intro refused hold hnew
    cases hcompletes : s.mux.completes with
    | false =>
        refine ⟨h.before, h.pending, (fun _ h => by cases h), h.answered, ?_⟩
        intro ch halive _ hch
        refine (h.excused ch halive (by rw [hloop]; rfl) hch).imp id fun hall x hx => ?_
        have hspoiled := hall x hx
        simp only [Calls.spoiled, Bool.or_eq_true, List.contains_eq_mem, decide_eq_true_eq]
          at hspoiled ⊢
        exact hspoiled.imp (hold x) id
    | true =>
        refine ⟨h.before, (fun _ _ _ h => by cases h), (fun _ h => by cases h),
          (fun _ _ h => by cases h), ?_⟩
        intro ch halive _ hch
        have hnone := pending_of_completes hinv hloop halive hcompletes
        rcases h.excused ch halive (by rw [hloop]; rfl) hch with (hqueued | ⟨hsome, -⟩) | hall
        · exact Or.inl (Or.inl hqueued)
        · exact absurd hnone hsome
        · refine Or.inr fun x hx => ?_
          have hspoiled := hall x hx
          simp only [Calls.spoiled, Bool.or_eq_true, List.contains_eq_mem, decide_eq_true_eq,
            Bool.and_eq_true, Bool.not_eq_true', beq_iff_eq] at hspoiled ⊢
          refine Or.inl (hspoiled.elim (hold x) fun hin => ?_)
          exact hnew hcompletes hin.1.1 x hin.2
  simp only [Calls.after]
  split
  · rename_i hrejected
    have hrefused := hpre (s.mux.inflight.toList.filterMap Command.hid ++ s.refused)
      (fun _ => List.mem_append_right _) (by
        intro _ _ x hx
        refine List.mem_append_left _ ?_
        obtain ⟨cmd, hcmd, hhid⟩ := Option.bind_eq_some_iff.mp hx
        simp [hcmd, hhid])
    exact (hrefused.startNext (fun _ => rfl) sendOk).frame _ s.returned s.removed
  · rename_i hnot
    have hkept := hpre s.refused (fun _ => id) (by
      intro hcompletes hacc
      exact absurd (by simp [hcompletes, hacc]) hnot)
    exact hkept.startNext (fun _ => rfl) sendOk

theorem heard_directStep {e : Event} (hinv : Inv s.mux) (h : Heard s)
    (hstep : directStep s.mux e = some m) : Heard { s with mux := m } := by
  have hbusy : s.mux.direct.busy = true → m.inflight = s.mux.inflight →
      Heard { s with mux := m } := by
    intro hbusy hsame
    obtain ⟨hrun, hidle, -⟩ := hinv.phase.direct hbusy
    refine Heard.clear (h.before hrun) fun cmd _ _ hcmd => ?_
    exact absurd ((hsame.trans hidle).symm.trans hcmd) nofun
  cases e with
  | directSend sendOk | directCollect ok =>
      simp only [directStep] at hstep
      split at hstep
      swap
      · cases hstep
      rename_i hdirect
      refine hbusy (by rw [hdirect]; rfl) ?_
      split at hstep
      · split at hstep <;> cases hstep <;> rfl
      · cases hstep
        rfl
  | directDone =>
      simp only [directStep] at hstep
      split at hstep
      swap
      · cases hstep
      rename_i hdirect
      cases hstep
      exact hbusy (by rw [hdirect]; rfl) rfl
  | directErase sendOk =>
      simp only [directStep] at hstep
      split at hstep
      swap
      · cases hstep
      rename_i channel hid _
      cases hstep
      have hnone : Heard { s with mux := { s.mux with direct := .none } } :=
        ⟨h.before, h.pending, h.reconnecting, h.answered, h.excused⟩
      exact hnone.eraseExact (fun hready => (hinv.phase.free hready).reconnecting)
        channel hid sendOk
  | _ => cases hstep

/-- In `reconnect()` a live session hears what it was asked to, or the attempt is about to
fail. -/
theorem Heard.cleared (h : Heard s) (hrec : s.mux.loop.reconnecting = true)
    (hidle : m.inflight = none) (hrun : m.running = s.mux.running)
    (halive : m.conn.alive = true → s.mux.conn.alive = true)
    (hquiet : s.mux.loop.outstanding = false ∨ s.accepted = true) : Heard { s with mux := m } := by
  cases hlive : m.conn.alive with
  | false => exact Heard.dead hlive fun hnot => h.before (hrun ▸ hnot)
  | true =>
      have hempty : s.unheard = ∅ := by
        rcases h.reconnecting (halive hlive) hrec with hempty | ⟨hout, hacc, -⟩
        · exact hempty
        · rcases hquiet with hnot | hnot
          · exact absurd (hnot.symm.trans hout) (by decide)
          · exact absurd (hacc.symm.trans hnot) (by decide)
      refine Heard.clear hempty fun cmd _ _ hcmd => ?_
      exact absurd (hidle.symm.trans hcmd) nofun

theorem heard_reconnectStep {e : Event} (hinv : Inv s.mux) (h : Heard s)
    (hstep : reconnectStep s.mux (s.outcome e) = some m) : Heard (s.after m e) := by
  cases e with
  | connect =>
      simp only [Calls.outcome, reconnectStep, Option.ite_none_right_eq_some, Option.some.injEq]
        at hstep
      obtain ⟨hloop, rfl⟩ := hstep
      obtain ⟨-, -, hidle, -⟩ := hinv.phase.reconnect (by rw [hloop]; rfl)
      refine Heard.clear rfl fun cmd _ _ hcmd => ?_
      exact absurd (hidle.symm.trans hcmd) (fun h => by cases h)
  | snapshot names =>
      simp only [Calls.outcome, reconnectStep, Option.ite_none_right_eq_some, Option.some.injEq]
        at hstep
      obtain ⟨⟨hloop, -⟩, rfl⟩ := hstep
      have hrec : s.mux.loop.reconnecting = true := by rw [hloop]; rfl
      obtain ⟨-, -, hidle, -⟩ := hinv.phase.reconnect hrec
      exact h.cleared hrec hidle rfl (fun halive => halive) (Or.inl (by rw [hloop]; rfl))
  | resubscribe sendOk =>
      simp only [Calls.outcome, reconnectStep] at hstep
      split at hstep
      · rename_i hloop
        cases hstep
        have hrec : s.mux.loop.reconnecting = true := by rw [hloop]; rfl
        obtain ⟨-, -, hidle, -⟩ := hinv.phase.reconnect hrec
        have hready : Heard { s with mux := { s.mux with connReady := true, loop := .top } } :=
          h.cleared hrec hidle rfl (fun halive => halive) (Or.inl (by rw [hloop]; rfl))
        exact hready.startNext (fun _ => rfl) sendOk
      · rename_i name names hloop
        have hrec : s.mux.loop.reconnecting = true := by rw [hloop]; rfl
        obtain ⟨-, -, hidle, -⟩ := hinv.phase.reconnect hrec
        have hquiet : s.mux.loop.outstanding = false ∨ s.accepted = true :=
          Or.inl (by rw [hloop]; rfl)
        split at hstep
        · split at hstep
          · rename_i conn hsend
            cases hstep
            cases send_true hsend
            exact h.cleared hrec hidle rfl (fun halive => halive) hquiet
          · cases hstep
            exact h.cleared hrec hidle rfl (fun h => by cases h) hquiet
        · cases hstep
          exact h.cleared hrec hidle rfl (fun halive => halive) hquiet
      · cases hstep
  | resubscribeCollect ok =>
      simp only [Calls.outcome, reconnectStep] at hstep
      split at hstep
      swap
      · cases hstep
      rename_i names hloop
      have hrec : s.mux.loop.reconnecting = true := by rw [hloop]; rfl
      obtain ⟨-, -, hidle, -⟩ := hinv.phase.reconnect hrec
      split at hstep
      · rename_i hok
        split at hstep
        · rename_i conn hcollect
          cases hstep
          have hacc : s.accepted = true := by
            simpa [hcollect] using (Bool.and_eq_true_iff.mp hok).2
          obtain ⟨hsame, -, -⟩ := collect_same hcollect
          exact h.cleared hrec hidle rfl (fun halive => hsame ▸ halive) (Or.inr hacc)
        · rename_i conn hcollect
          cases hstep
          refine h.goto fun halive => ?_
          rw [← (Prod.mk.inj hcollect).2] at halive ⊢
          exact ⟨halive, rfl, rfl, rfl⟩
      · cases hstep
        exact Heard.dead rfl h.before
  | _ => cases hstep

theorem heard_runStep {e : Event} (hinv : Inv s.mux) (h : Heard s)
    (hstep : runStep s.mux e = some m) : Heard (s.after m e) := by
  have hgoto : ∀ {l loop : Loop}, s.mux.loop = l → l.reconnecting = false →
      loop.reconnecting = false → Heard { s with mux := { s.mux with loop := loop } } := by
    intro l loop hl hfrom hto
    refine h.goto fun halive => ⟨halive, rfl, ?_, ?_⟩
    · rw [hl, hfrom, hto]
    · rw [hl, (Loop.quiet hfrom).1, (Loop.quiet hto).1]
  cases e with
  | start sendOk =>
      simp only [runStep, Option.ite_none_right_eq_some, Option.some.injEq] at hstep
      obtain ⟨⟨hloop, -⟩, rfl⟩ := hstep
      have hstarted : Heard { s with mux := { s.mux with
          running := true, connReady := s.mux.conn.up, loop := .top } } := by
        refine h.keep (fun _ => id) (fun _ _ => id) rfl (fun h => by cases h)
          fun halive => ⟨halive, rfl, ?_, ?_⟩
        · rw [hloop]; rfl
        · rw [hloop]; rfl
      exact hstarted.startNext (fun _ => rfl) sendOk
  | check =>
      simp only [runStep, Option.ite_none_right_eq_some] at hstep
      obtain ⟨hloop, hstep⟩ := hstep
      split at hstep
      · cases hstep
        exact hgoto hloop rfl rfl
      · rename_i hdown
        cases hstep
        exact Heard.dead (hinv.dead_of_down hdown) h.before
  | wait park =>
      simp only [runStep, Option.ite_none_right_eq_some] at hstep
      obtain ⟨hloop, hstep⟩ := hstep
      split at hstep <;> split at hstep <;> cases hstep <;> exact hgoto hloop rfl rfl
  | wake =>
      simp only [runStep, Option.ite_none_right_eq_some, Option.some.injEq] at hstep
      obtain ⟨hloop, rfl⟩ := hstep
      exact hgoto hloop rfl rfl
  | drain sendOk => exact heard_drain hinv h hstep
  | drainFailed errorResult sendOk =>
      simp only [runStep, Option.ite_none_right_eq_some, Option.some.injEq] at hstep
      obtain ⟨⟨-, hdead⟩, rfl⟩ := hstep
      have hlost : Heard { s with mux := { s.mux with
          loop := .dispatch s.mux.conn.pq.takeNotes.1
          conn := { s.mux.conn with up := false, pq := s.mux.conn.pq.takeNotes.2 }
          inflight := if errorResult then none else s.mux.inflight } } :=
        Heard.dead hdead h.before
      exact hlost.startNext (fun _ => rfl) sendOk
  | dispatch =>
      simp only [runStep] at hstep
      split at hstep
      · rename_i hloop
        cases hstep
        exact hgoto hloop rfl rfl
      · rename_i n batch hloop
        cases hstep
        refine h.goto fun halive => ⟨halive, rfl, ?_, ?_⟩
        · rw [hloop]; rfl
        · rw [hloop]; rfl
      · cases hstep
  | cancel =>
      simp only [runStep] at hstep
      split at hstep
      · rename_i hloop
        cases hstep
        exact hgoto hloop rfl rfl
      · rename_i hloop
        cases hstep
        exact Heard.dead (hinv.phase.down hloop) h.before
      · rename_i hloop
        cases hstep
        exact hgoto hloop rfl rfl
      · rename_i hloop
        cases hstep
        exact hgoto hloop rfl rfl
      · cases hstep
  | _ => cases hstep

/-- The session executes a statement it was sent. -/
theorem execute_eq {st : Statement} (hst : s.mux.conn.pending = some st)
    (hstep : step s.mux .execute = some m) :
    s.mux.conn.alive = true ∧
      m = { s.mux with conn := { s.mux.conn with
        listens := st.apply s.mux.conn.listens, pending := none,
        owed := [.complete, .ready] } } := by
  simp only [step, connStep, hst, Option.map_eq_some_iff, Option.ite_none_right_eq_some,
    Option.some.injEq] at hstep
  obtain ⟨_, ⟨halive, rfl⟩, rfl⟩ := hstep
  exact ⟨halive, rfl⟩

/-- While a statement waits to be executed nothing in flight has been rejected. -/
theorem refused_of_spoiled {st : Statement} {x : Nat} (hst : s.mux.conn.pending = some st)
    (h : s.spoiled x = true) : x ∈ s.refused := by
  simpa [Calls.spoiled, hst] using h

theorem spoiled_of_refused {x : Nat} (h : x ∈ s.refused) : s.spoiled x = true := by
  simp [Calls.spoiled, h]

/-- In `reconnect()` a session hears everything as long as a statement waits to be
executed. -/
theorem Heard.unheard_eq_empty (h : Heard s) {st : Statement} (hst : s.mux.conn.pending = some st)
    (halive : s.mux.conn.alive = true) (hrec : s.mux.loop.reconnecting = true) : s.unheard = ∅ := by
  rcases h.reconnecting halive hrec with hempty | ⟨-, -, hnone⟩
  · exact hempty
  · cases hst.symm.trans hnone

theorem heard_execute (h : Heard s) (hstep : step s.mux .execute = some m) :
    Heard (s.after m .execute) := by
  cases hst : s.mux.conn.pending with
  | none => simp [step, connStep, hst] at hstep
  | some st =>
      obtain ⟨halive, rfl⟩ := execute_eq hst hstep
      simp only [Calls.after, hst]
      refine ⟨?_, ?_, ?_, ?_, ?_⟩
      · intro hrun
        change s.unheard.erase st.channel = ∅
        rw [h.before hrun]
        rfl
      · intro _ _ _ _ hnone
        cases hnone
      · intro _ hrec
        refine Or.inl ?_
        change s.unheard.erase st.channel = ∅
        rw [h.unheard_eq_empty hst halive hrec]
        rfl
      · intro cmd _ hcmd _ _ _
        have heq := h.pending cmd st halive hcmd hst
        simp [heq, Command.statement]
      · intro ch _ hrec hch
        obtain ⟨hne, hold⟩ := Finset.mem_erase.mp hch
        rcases h.excused ch halive hrec hold with (hqueued | ⟨-, cmd, hcmd, hch', -⟩) | hall
        · exact Or.inl (Or.inl hqueued)
        · have heq := h.pending cmd st halive hcmd hst
          rw [heq] at hne
          exact absurd hch'.symm hne
        · refine Or.inr fun x hx => ?_
          have hrefused : x ∈ s.refused := refused_of_spoiled hst (hall x hx)
          exact spoiled_of_refused hrefused

theorem heard_reject (hinv : Inv s.mux) (h : Heard s) {channel : String}
    (hst : s.mux.conn.pending = some ⟨true, channel⟩) (hrun : s.mux.running = true)
    (hguard : Alone s .reject) (hstep : step s.mux .execute = some m) :
    Heard { s with
      mux := m, accepted := false
      unheard := if channel ∈ s.listening then s.unheard else insert channel s.unheard } := by
  obtain ⟨halive, rfl⟩ := execute_eq hst hstep
  refine ⟨fun hnot => absurd (hrun.symm.trans hnot) (by decide), nofun, ?_, nofun, ?_⟩
  · -- `resubscribe_all` waits for the reply
    intro _ hrec
    have hsync := (hinv.tracked halive).sync
    obtain ⟨-, -, hidle, hquiet, -⟩ := hinv.phase.reconnect hrec
    refine Or.inr ⟨?_, rfl, rfl⟩
    rw [State.outstanding, hidle, hquiet] at hsync
    change s.mux.loop.outstanding = true
    cases hout : s.mux.loop.outstanding with
    | true => rfl
    | false =>
        rw [hout] at hsync
        cases hsync with
        | idle _ _ hnone _ => cases hst.symm.trans hnone
  · intro ch _ hrec hch
    have hold : ch ∈ s.unheard → ch ≠ channel →
        s.asked ch ∨ ∀ x ∈ s.mux.handlersOf ch, s.spoiled x = true := fun hin _ =>
      h.excused ch halive hrec hin
    have hcarry : s.asked ch ∨ (∀ x ∈ s.mux.handlersOf ch, s.spoiled x = true) → ch ≠ channel →
        (∃ cmd ∈ s.mux.commands, cmd.channel = ch ∧ cmd.listen = true) ∨
          ∀ x ∈ s.mux.handlersOf ch, x ∈ s.refused := by
      rintro ((hqueued | ⟨-, cmd, hcmd, hch', -⟩) | hall) hne
      · exact Or.inl hqueued
      · have heq := h.pending cmd _ halive hcmd hst
        exact absurd (hch'.symm.trans (congrArg Statement.channel heq).symm) hne
      · exact Or.inr fun x hx => refused_of_spoiled hst (hall x hx)
    by_cases hself : ch = channel
    · subst hself
      by_cases hlistens : ch ∈ s.listening
      · -- the session listens to it already
        simp only [hlistens, if_true] at hch
        exact absurd hch (Finset.mem_sdiff.mp hlistens).2
      · simp only [Alone, hst] at hguard
        rcases hguard with hnot | hnot | hqueued | halone
        · exact absurd (hrec.symm.trans hnot) (by decide)
        · exact absurd hnot hlistens
        · exact Or.inl (Or.inl hqueued)
        · refine Or.inr fun x hx => ?_
          have hin := halone x hx
          simp [Calls.spoiled, hin]
    · have hin : ch ∈ s.unheard := by
        by_cases hlistens : channel ∈ s.listening
        · simpa [hlistens] using hch
        · simpa [hlistens, hself] using hch
      rcases hcarry (hold hin hself) hself with hqueued | hall
      · exact Or.inl (Or.inl hqueued)
      · exact Or.inr fun x hx => spoiled_of_refused (hall x hx)

/-! ## Every step, every run -/

/-- What holds between steps. -/
structure Calls.Inv (s : Calls) : Prop where
  mux : Notify.Inv s.mux
  books : Books s
  heard : Heard s

theorem Calls.inv_init (up : Bool) : (Calls.init up).Inv where
  mux := Notify.inv_init up
  books :=
    ⟨fun _ => by simp [Calls.init, State.init, State.ids],
      fun _ => by simp [Calls.init, State.init, Calls.inProgress, Direct.calls],
      fun _ hx => by simp [Calls.init, State.init, State.ids] at hx,
      fun _ hp => by simp [Calls.init, State.init, Calls.inProgress, Direct.calls] at hp,
      fun _ hp => by simp [Calls.init, State.init, Direct.calls] at hp,
      fun _ hp => by simp [Calls.init, State.init, Calls.inProgress, Direct.calls] at hp⟩
  heard := Heard.clear rfl nofun

theorem inv_after {e : Event} (h : Notify.Inv s.mux) (hstep : step s.mux (s.outcome e) = some m) :
    Notify.Inv (s.after m e).mux := by
  have hm := inv_step h hstep
  cases e with
  | drain sendOk =>
      simp only [Calls.after]
      split
      · exact hm.frame m.wildcard m.nextHandlerId m.waiting _ m.failed
      · exact hm
  | directDone | execute =>
      simp only [Calls.after]
      split <;> exact hm
  | _ => exact hm

theorem heard_mux {e : Event} (hinv : Notify.Inv s.mux) (h : Heard s) (hguard : Alone s (.mux e))
    (hstep : step s.mux (s.outcome e) = some m) : Heard (s.after m e) := by
  have hready : s.mux.connReady = true → s.mux.loop.reconnecting = false := fun hready =>
    (hinv.phase.free hready).reconnecting
  have hbooks : ∀ (returned removed : List (String × Nat)), Heard { s with mux := m } →
      Heard { s with mux := m, returned := returned, removed := removed } :=
    fun returned removed hm => hm.frame m.granted returned removed
  cases e with
  | addHandler channel sendOk => exact hbooks _ _ (heard_addHandler hinv h hguard hstep)
  | addHandlerResume channel hid =>
      simp only [Calls.outcome, step, Option.ite_none_right_eq_some, Option.some.injEq] at hstep
      obtain ⟨-, rfl⟩ := hstep
      refine hbooks _ _ ?_
      unfold State.addHandlerResume
      dsimp only
      split <;> exact ⟨h.before, h.pending, h.reconnecting, h.answered, h.excused⟩
  | addHandlerErase channel hid sendOk =>
      simp only [Calls.outcome, step, Option.ite_none_right_eq_some, Option.some.injEq] at hstep
      obtain ⟨-, rfl⟩ := hstep
      have hfailed : Heard { s with mux :=
          { s.mux with failed := s.mux.failed.erase (channel, hid) } } :=
        ⟨h.before, h.pending, h.reconnecting, h.answered, h.excused⟩
      exact hfailed.eraseExact hready channel hid sendOk
  | removeHandler id channel wildcard sendOk =>
      obtain rfl := Option.some.inj hstep
      refine hbooks _ _ ?_
      unfold State.removeHandler
      split
      · repeat' split
        all_goals exact ⟨h.before, h.pending, h.reconnecting, h.answered, h.excused⟩
      · exact h.eraseExact hready channel id sendOk
  | removeChannel channel sendOk =>
      obtain rfl := Option.some.inj hstep
      refine hbooks _ _ ?_
      unfold State.removeChannel
      split
      · exact ⟨h.before, h.pending, h.reconnecting, h.answered, h.excused⟩
      · split
        · exact (h.eraseChannel channel).queueUnlisten hready channel sendOk
        · exact h
  | directSend sendOk => exact heard_directStep (e := .directSend sendOk) hinv h hstep
  | directCollect ok => exact heard_directStep (e := .directCollect ok) hinv h hstep
  | directErase sendOk => exact heard_directStep (e := .directErase sendOk) hinv h hstep
  | directDone =>
      have hm := heard_directStep (e := .directDone) hinv h hstep
      simp only [Calls.after]
      split
      · exact hbooks _ _ hm
      · exact hm
  | connect | snapshot _ | resubscribe _ | resubscribeCollect _ =>
      exact heard_reconnectStep hinv h hstep
  | execute => exact heard_execute h hstep
  | reply =>
      simp only [Calls.outcome, step, connStep] at hstep
      split at hstep
      · cases hstep
        exact h.goto fun halive => ⟨halive, rfl, rfl, rfl⟩
      · cases hstep
  | notify n =>
      cases hstep
      exact h.goto fun halive => ⟨halive, rfl, rfl, rfl⟩
  | lose noticed =>
      cases hstep
      exact Heard.dead rfl h.before
  | start _ | check | wait _ | wake | drain _ | drainFailed _ _ | dispatch | cancel =>
      exact heard_runStep hinv h hstep

/-- **Step rule.** -/
theorem inv_callStep {e : CallEvent} (h : s.Inv) (hguard : Alone s e)
    (hstep : callStep s e = some t) :
    t.Inv := by
  have hbooks := books_callStep h.books hstep
  cases e with
  | mux e =>
      obtain ⟨m, hm, rfl⟩ := Option.map_eq_some_iff.mp hstep
      exact ⟨inv_after h.mux hm, hbooks, heard_mux h.mux h.heard hguard hm⟩
  | reject =>
      simp only [callStep] at hstep
      split at hstep
      · rename_i channel hst
        split at hstep
        · rename_i hrun
          obtain ⟨m, hm, rfl⟩ := Option.map_eq_some_iff.mp hstep
          exact ⟨inv_step h.mux hm, hbooks, heard_reject h.mux h.heard hst hrun hguard hm⟩
        · cases hstep
      · cases hstep

/-- What the invariant says when nothing is queued or in flight. -/
theorem Calls.Inv.allHeard (h : s.Inv) : s.AllHeard := by
  intro hcommands hinflight hready halive p hp hnot
  have hregistered := h.books.registered p (Or.inr hp) hnot
  have hfree := h.mux.phase.free hready
  have hlistens := h.mux.listens_eq hfree.running hready hcommands hinflight halive
  refine ⟨hregistered, Finset.mem_sdiff.mpr ⟨?_, ?_⟩⟩
  · rw [hlistens, List.mem_toFinset, ← AList.mem_keys]
    by_contra habsent
    rw [handlersOf_eq_nil habsent] at hregistered
    cases hregistered
  · intro hunheard
    rcases h.heard.excused p.1 halive hfree.reconnecting hunheard with
      (⟨cmd, hcmd, -⟩ | ⟨-, cmd, hcmd, -⟩) | hall
    · rw [hcommands] at hcmd
      cases hcmd
    · cases hinflight.symm.trans hcmd
    · -- the LISTEN of a call that has returned was not rejected
      have hrefused : p.2 ∈ s.refused := by
        simpa [Calls.spoiled, hinflight] using hall p.2 hregistered
      exact (h.books.settled p (Or.inr hp)).2 hrefused

end

/-- **No dead subscription.**  In every run in which a LISTEN is rejected only while no other
handler sits on its channel, and none joins before the failed call has taken its handler
back, every handler that was returned and not removed is heard whenever nothing is queued or
in flight and the connection is ready. -/
theorem subscriptions_heard (up : Bool) (es : List CallEvent) (s : Calls)
    (h : exec callStep (Calls.init up) es = some s)
    (hguard : Guarded callStep Alone (Calls.init up) es) : s.AllHeard :=
  (exec_invariant_of_guarded Calls.Inv (fun _ _ _ hinv hg => inv_callStep hinv hg) es _ s
    (Calls.inv_init up) hguard h).allHeard

/-- The run loop is parked when handler 1 is added on channel "a", and its LISTEN is rejected.
The call takes its handler back; then handler 2 is added and its LISTEN accepted. -/
def rejectedRun : List CallEvent :=
  [.mux (.start true), .mux .check, .mux (.wait true), .mux (.addHandler "a" true), .reject,
    .mux .reply, .mux .reply, .mux .wake, .mux (.drain true), .mux (.addHandlerResume "a" 1),
    .mux (.addHandlerErase "a" 1 true), .mux .execute, .mux .reply, .mux .reply, .mux .dispatch,
    .mux .check, .mux (.wait false), .mux (.drain true), .mux (.addHandler "a" true), .mux .execute,
    .mux .reply, .mux .reply, .mux .dispatch, .mux .check, .mux (.wait false), .mux (.drain true),
    .mux (.addHandlerResume "a" 2)]

theorem subscriptions_heard_rejectedRun :
    ∃ s, exec callStep (Calls.init true) rejectedRun = some s ∧ s.mux.commands = [] ∧
      s.mux.inflight = none ∧ s.returned = [("a", 2)] ∧ "a" ∈ s.listening := by
  have hrun : (exec callStep (Calls.init true) rejectedRun).any (fun s =>
      decide (s.mux.commands = [] ∧ s.mux.inflight = none ∧ s.mux.connReady = true ∧
        s.mux.conn.alive = true ∧ s.returned = [("a", 2)] ∧ s.removed = [])) = true := by
    decide +kernel
  obtain ⟨s, hs, hcond⟩ := (Option.any_eq_true ..).mp hrun
  obtain ⟨hcommands, hinflight, hready, halive, hreturned, hremoved⟩ := of_decide_eq_true hcond
  have hguard : Guarded callStep Alone (Calls.init true) rejectedRun := by decide +kernel
  have hheard := subscriptions_heard true rejectedRun s hs hguard hcommands hinflight hready halive
    ("a", 2) (by simp [hreturned]) (by simp [hremoved])
  exact ⟨s, hs, hcommands, hinflight, hreturned, hheard.2⟩

/-- Handler 2 joins channel "a" while the LISTEN of handler 1 is in flight; then the server
rejects it, and the first call takes its handler back. -/
def overlappingRun : List CallEvent :=
  [.mux (.start true), .mux .check, .mux (.wait true), .mux (.addHandler "a" true),
    .mux (.addHandler "a" true), .reject, .mux .reply, .mux .reply, .mux .wake, .mux (.drain true),
    .mux (.addHandlerResume "a" 1), .mux (.addHandlerErase "a" 1 true)]

/-- **A dead subscription.**  `add_handler` returned handler 2, nothing is queued or in flight,
the connection is ready, and the session listens to nothing. -/
theorem second_handler_unheard :
    ∃ s, exec callStep (Calls.init true) overlappingRun = some s ∧ s.mux.handlersOf "a" = [2] ∧
      s.listening = ∅ ∧ ¬s.AllHeard := by
  have hrun : (exec callStep (Calls.init true) overlappingRun).any (fun s =>
      decide (s.mux.commands = [] ∧ s.mux.inflight = none ∧ s.mux.connReady = true ∧
        s.mux.conn.alive = true ∧ s.returned = [("a", 2)] ∧ s.removed = [] ∧
        s.mux.handlersOf "a" = [2] ∧ s.listening = ∅)) = true := by
    decide +kernel
  obtain ⟨s, hs, hcond⟩ := (Option.any_eq_true ..).mp hrun
  obtain ⟨hcommands, hinflight, hready, halive, hreturned, hremoved, hhandlers, hlistening⟩ :=
    of_decide_eq_true hcond
  refine ⟨s, hs, hhandlers, hlistening, ?_⟩
  intro hall
  have hheard := hall hcommands hinflight hready halive ("a", 2) (by simp [hreturned])
    (by simp [hremoved])
  rw [hlistening] at hheard
  exact absurd hheard.2 (Finset.notMem_empty _)

end Upq.Notify
