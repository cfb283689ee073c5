/-
  Connection/Deadline.lean --- the deadline of a connect.

  Source: `src/upq/PgConnection.cpp`, `connect_async` and `connect_deadline_timer`.

  The timer and the handshake share a `ConnectDeadline`.  A handshake that waits when its
  deadline is over has had its socket shut down, so that the poller wakes it: it does not
  wait for ever.  And a connect that reports success does so on a socket that nobody has
  shut down, but for one gap: the mutex is free between the `PQconnectPoll` that completes
  the handshake and the section that sets `done`.

  Source of the model: `Connection/Handshake.lean`.
-/
import Upq.Connection.Handshake

set_option autoImplicit false

namespace Upq.Handshake

open Upq.Foundation

/-! ## The record of the timer -/

/-- What the deadlines say about the connects, by where the last one is: `polled` in the loop
only behind the poll that completed the handshake, not `fired` while libpq polls. -/
structure Deadlined (attempt : Nat) (deadlines : Nat → Option ConnectDeadline)
    (place : Place) : Prop where
  later : ∀ k, attempt < k → deadlines k = none
  fresh : place = .starting → deadlines attempt = none
  now : place.connecting = true → ∃ d, deadlines attempt = some d ∧ d.done = false ∧
    d.polled = decide (place = .leave none) ∧ (place = .polling → d.fired = false)
  ending : place.ending = true → ∃ d, deadlines attempt = some d ∧ d.polled = true

/-- The deadlines of a state. -/
abbrev State.Deadlined (s : State) : Prop :=
  Handshake.Deadlined s.attempt s.deadlines s.place

theorem deadlined_init : State.init.Deadlined where
  later k _ := rfl
  fresh h := by cases h
  now h := by cases h
  ending h := by cases h

section

variable {attempt : Nat} {deadlines : Nat → Option ConnectDeadline} {place place' : Place}

/-- The connect goes on waiting. -/
theorem Deadlined.goOn (h : Deadlined attempt deadlines place)
    (hfrom : place.connecting = true) (hto : place'.connecting = true)
    (hleave : place' = .leave none ↔ place = .leave none)
    (hpolling : place' = .polling → ∀ d, deadlines attempt = some d → d.fired = false) :
    Deadlined attempt deadlines place' where
  later := h.later
  fresh heq := by rw [heq] at hto; cases hto
  now _ := by
    obtain ⟨d, hd, hdone, hpolled, -⟩ := h.now hfrom
    exact ⟨d, hd, hdone, by rw [hpolled]; exact decide_eq_decide.mpr hleave.symm,
      fun heq => hpolling heq d hd⟩
  ending hend := by
    rw [not_connecting_of_ending (.inr hend)] at hto
    cases hto

/-- The connect is over, or another call is made. -/
theorem Deadlined.stop (h : Deadlined attempt deadlines place)
    (hstarting : place' ≠ .starting) (hconnecting : place'.connecting = false)
    (hending : place'.ending = false) : Deadlined attempt deadlines place' where
  later := h.later
  fresh heq := absurd heq hstarting
  now hnow := by rw [hconnecting] at hnow; cases hnow
  ending hend := by rw [hending] at hend; cases hend

/-- The connect writes its own deadline. -/
theorem Deadlined.own (h : Deadlined attempt deadlines place) {d : ConnectDeadline}
    (hstarting : place' ≠ .starting)
    (hnow : place'.connecting = true →
      d.done = false ∧ d.polled = decide (place' = .leave none) ∧ place' ≠ .polling)
    (hending : place'.ending = true → d.polled = true) :
    Deadlined attempt (Function.update deadlines attempt (some d)) place' where
  later k hk := by rw [Function.update_of_ne (Nat.ne_of_gt hk), h.later k hk]
  fresh heq := absurd heq hstarting
  now hconnecting := by
    obtain ⟨hdone, hpolled, hpolling⟩ := hnow hconnecting
    exact ⟨d, Function.update_self .., hdone, hpolled, fun heq => absurd heq hpolling⟩
  ending hend := ⟨d, Function.update_self .., hending hend⟩

/-- A timer writes its deadline: not while its connect polls. -/
theorem Deadlined.timer (h : Deadlined attempt deadlines place) {k : Nat}
    {d d' : ConnectDeadline} (hd : deadlines k = some d)
    (hdone : d'.done = d.done) (hpolled : d'.polled = d.polled)
    (hfree : k = attempt → place = .polling → d'.fired = d.fired) :
    Deadlined attempt (Function.update deadlines k (some d')) place := by
  have hk : ∀ j, deadlines j = none → j ≠ k := by
    rintro j hj rfl
    rw [hd] at hj
    cases hj
  refine ⟨fun j hj => ?_, fun heq => ?_, fun hnow => ?_, fun hend => ?_⟩
  · rw [Function.update_of_ne (hk j (h.later j hj)), h.later j hj]
  · rw [Function.update_of_ne (hk attempt (h.fresh heq)), h.fresh heq]
  · obtain ⟨e, he, hedone, hepolled, hefired⟩ := h.now hnow
    by_cases hcur : attempt = k
    · subst hcur
      cases hd.symm.trans he
      exact ⟨d', Function.update_self .., by rw [hdone, hedone], by rw [hpolled, hepolled],
        fun heq => by rw [hfree rfl heq, hefired heq]⟩
    · exact ⟨e, by rw [Function.update_of_ne hcur, he], hedone, hepolled, hefired⟩
  · obtain ⟨e, he, hepolled⟩ := h.ending hend
    by_cases hcur : attempt = k
    · subst hcur
      cases hd.symm.trans he
      exact ⟨d', Function.update_self .., by rw [hpolled, hepolled]⟩
    · exact ⟨e, by rw [Function.update_of_ne hcur, he], hepolled⟩

end

section

variable {s s' : State}

theorem Goes.ne_leave {e : Event} {p p' : Place} (h : Goes s e p p') :
    p ≠ .leave none ∧ p' ≠ .leave none := by
  constructor
  · rintro rfl
    cases h with
    | unwatched reading hp => rcases hp with hp | ⟨fd, ino, hp⟩ <;> cases hp
  · rintro rfl
    cases h

theorem Goes.unfired {e : Event} {p : Place} (h : Goes s e p .polling) {d : ConnectDeadline}
    (hd : s.deadlines s.attempt = some d) : d.fired = false := by
  cases h with
  | poll d' hd' hfired =>
      cases hd.symm.trans hd'
      exact hfired

theorem Deadlined.goes (h : s.Deadlined) {e : Event} {p : Place} (hgoes : Goes s e s.place p) :
    Deadlined s.attempt s.deadlines p := by
  refine h.goOn hgoes.connecting.1 hgoes.connecting.2
    (iff_of_false hgoes.ne_leave.2 hgoes.ne_leave.1) ?_
  rintro rfl d hd
  exact hgoes.unfired hd

/-- Inside `watch_socket`. -/
theorem Deadlined.rewatch (h : s.Deadlined) {next : Next} (hplace : s.place = .watch next)
    (fd ino : Nat) : Deadlined s.attempt s.deadlines (.register next fd ino) := by
  rw [State.Deadlined, hplace] at h
  cases next with
  | wait reading =>
      exact h.goOn rfl rfl (iff_of_false Place.noConfusion Place.noConfusion)
        (fun hno => by cases hno)
  | connected =>
      exact ⟨h.later, (fun hno => by cases hno), (fun hno => by cases hno),
        fun _ => h.ending rfl⟩

theorem Deadlined.roused (h : s.Deadlined) :
    Deadlined s.attempt s.deadlines s.place.roused := by
  cases hplace : s.place
  case parked =>
    rw [State.Deadlined, hplace] at h
    exact h.goOn rfl rfl (iff_of_false Place.noConfusion Place.noConfusion)
      (fun hno => by cases hno)
  all_goals
    rw [State.Deadlined, hplace] at h
    exact h

theorem Deadlined.polled (h : s.Deadlined) (hplace : s.place = .polling) {d : ConnectDeadline}
    (hd : s.deadlines s.attempt = some d) (r : Polled) :
    Deadlined s.attempt
      (Function.update s.deadlines s.attempt
        (some { d with fd := s.pqSocket, polled := r = .ok })) r.place := by
  rw [State.Deadlined, hplace] at h
  obtain ⟨d', hd', hdone, -, -⟩ := h.now rfl
  cases hd.symm.trans hd'
  have hpolled : decide (r = .ok) = decide (r.place = .leave none) := by
    cases r <;> simp [Polled.place]
  refine h.own ?_ (fun _ => ⟨hdone, hpolled, ?_⟩) fun hend => ?_ <;> cases r
  all_goals first | exact Place.noConfusion | cases hend

theorem Deadlined.finish (h : s.Deadlined) {err : Option String} (hplace : s.place = .leave err)
    {d : ConnectDeadline} (hd : s.deadlines s.attempt = some d) :
    Deadlined s.attempt
      (Function.update s.deadlines s.attempt (some { d with done := true, fd := none }))
      (.afterLoop err) := by
  rw [State.Deadlined, hplace] at h
  obtain ⟨d', hd', hdone, hpolled, -⟩ := h.now rfl
  cases hd.symm.trans hd'
  cases err with
  | none =>
      exact h.own Place.noConfusion (fun hno => by cases hno) fun _ => by rw [hpolled]; rfl
  | some err =>
      exact h.own Place.noConfusion (fun hno => by cases hno) (fun hno => by cases hno)

theorem deadlined_step {e : Event} (h : s.Deadlined) (hstep : Stepped s e s') : s'.Deadlined := by
  cases hstep with
  | connectStart _ _ =>
      exact ⟨fun k hk => h.later k (Nat.lt_of_succ_lt hk), fun _ => h.later _ (Nat.lt_succ_self _),
        (fun hno => by cases hno), (fun hno => by cases hno)⟩
  | started _ =>
      exact h.own Place.noConfusion (fun _ => ⟨rfl, rfl, Place.noConfusion⟩)
        (fun hno => by cases hno)
  | startNull _ _ | fails _ _ _ | same _ _ _ _ | failReset _ _ =>
      exact h.stop Place.noConfusion rfl rfl
  | goes hplace hgoes _ => exact h.goes (hplace ▸ hgoes)
  | rewatch next fd ino hplace _ _ => exact h.rewatch hplace fd ino
  | register next fd ino own files hplace _ =>
      cases next with
      | wait reading =>
          rw [State.Deadlined, hplace] at h
          exact h.goOn rfl rfl (iff_of_false Place.noConfusion Place.noConfusion)
            (fun hno => by cases hno)
      | connected => exact h.stop Place.noConfusion rfl rfl
  | polled r d hplace hd => exact h.polled hplace hd r
  | finish err d hplace hd => exact h.finish hplace hd
  | pqDrop _ =>
      obtain ⟨files, hits, heq⟩ := pqClose_eq s
      rw [heq]
      exact h
  | hup fd _ => exact h.roused
  | runsOut k d hd _ => exact h.timer hd rfl rfl fun _ _ => rfl
  | fire k d hd _ hfree _ => exact h.timer hd rfl rfl fun hk hp => absurd ⟨hk, hp⟩ hfree
  | cut k d fd hd _ hfree _ => exact h.timer hd rfl rfl fun hk hp => absurd ⟨hk, hp⟩ hfree
  | close _ _ | closeShut _ _ _ _ | closeReset _ => exact h.stop Place.noConfusion rfl rfl
  | failFinish _ _ | closeFinish _ =>
      obtain ⟨files, hits, heq⟩ := pqClose_eq s
      rw [State.pqFinish, heq]
      exact h.stop Place.noConfusion rfl rfl
  | _ => exact h

end

/-! ## What was shut down -/

/-- A connect is under way. -/
def Place.handshaking : Place → Bool
  | .starting | .watch _ | .register _ _ _ | .wait _ | .parked _ | .woken | .polling
  | .leave _ => true
  | _ => false

theorem handshaking_of_connecting {p : Place} (h : p.connecting = true) :
    p.handshaking = true := by
  unfold Place.connecting at h
  split at h <;> first | rfl | cases h

theorem handshaking_of_ending {p : Place} (h : p.ending = true) : p.handshaking = true := by
  unfold Place.ending at h
  split at h <;> first | rfl | cases h

/-- The deadline of the last connect is over. -/
def State.Fired (s : State) : Prop := ∃ d, s.deadlines s.attempt = some d ∧ d.fired = true

/-- Only sockets that were made have been shut down; and while a connect is under way, the
socket libpq uses was shut down exactly if the deadline is over. -/
structure Cut (s : State) : Prop where
  made : ∀ sock ∈ s.shut, sock < s.files.made
  own : s.place.handshaking = true → ∀ fd sock, s.pqSocket = some fd →
    s.files.sockAt fd = some sock → (sock ∈ s.shut ↔ s.Fired)

theorem cut_init : Cut State.init where
  made sock h := by cases h
  own h := by cases h

section

variable {s s' : State}

/-- The same socket, the same shutdowns. -/
theorem Cut.frame (h : Cut s) (hmade : s.files.made ≤ s'.files.made) (hshut : s'.shut = s.shut)
    (hplace : s'.place.handshaking = true → s.place.handshaking = true)
    (hfired : s'.Fired ↔ s.Fired) (hpq : s'.pqSocket = s.pqSocket)
    (hsock : ∀ fd, s.pqSocket = some fd → s'.files.sockAt fd = s.files.sockAt fd) : Cut s' where
  made sock hmem := (h.made sock (hshut ▸ hmem)).trans_le hmade
  own hin fd sock hfd hat := by
    rw [hpq] at hfd
    rw [hsock fd hfd] at hat
    rw [hshut, hfired]
    exact h.own (hplace hin) fd sock hfd hat

/-- No connect is under way, or libpq has no socket. -/
theorem Cut.aside (h : Cut s) (hmade : s.files.made ≤ s'.files.made) (hshut : s'.shut = s.shut)
    (hno : s'.place.handshaking = false ∨ s'.pqSocket = none) : Cut s' where
  made sock hmem := (h.made sock (hshut ▸ hmem)).trans_le hmade
  own hin fd sock hfd _ := by
    rcases hno with hno | hno
    · rw [hno] at hin
      cases hin
    · rw [hno] at hfd
      cases hfd

/-- A shutdown hits a socket that was made. -/
theorem made_shutdownFd (h : Cut s) (party : Party) (fd : Nat) :
    ∀ sock ∈ (s.shutdownFd party fd).shut, sock < s.files.made := by
  intro sock hmem
  rcases List.mem_append.mp hmem with hmem | hmem
  · exact h.made sock hmem
  · obtain ⟨e, he, rfl⟩ := Option.map_eq_some_iff.mp (Option.mem_toList.mp hmem)
    exact s.files.sock_lt fd e he

theorem Cut.shutAside (h : Cut s) (party : Party) (fd : Nat)
    (hshut : s'.shut = (s.shutdownFd party fd).shut) (hfiles : s'.files = s.files)
    (hno : s'.place.handshaking = false) : Cut s' where
  made sock hmem := by
    rw [hfiles]
    exact made_shutdownFd h party fd sock (hshut ▸ hmem)
  own hin := by
    rw [hno] at hin
    cases hin

theorem own_deadline (s : State) {d d' : ConnectDeadline}
    (h : Function.update s.deadlines s.attempt (some d) s.attempt = some d') : d = d' := by
  rw [Function.update_self] at h
  exact Option.some.inj h

/-- A deadline is written and `fired` is left alone. -/
theorem fired_update {k : Nat} {d d' : ConnectDeadline} (hd : s.deadlines k = some d)
    (hdeadlines : s'.deadlines = Function.update s.deadlines k (some d'))
    (hattempt : s'.attempt = s.attempt) (hfired : d'.fired = d.fired) :
    s'.Fired ↔ s.Fired := by
  unfold State.Fired
  rw [hattempt, hdeadlines]
  by_cases hk : k = s.attempt
  · subst hk
    rw [Function.update_self, hd]
    simp [hfired]
  · rw [Function.update_of_ne (Ne.symm hk)]

/-- Before the deadline is set, and while libpq polls, it is not over. -/
theorem Deadlined.not_fired (h : s.Deadlined) (hplace : s.place = .starting ∨ s.place = .polling) :
    ¬s.Fired := by
  rintro ⟨d, hd, hfired⟩
  rcases hplace with hplace | hplace
  · rw [h.fresh hplace] at hd
    cases hd
  · obtain ⟨d', hd', -, -, hunfired⟩ := h.now (by rw [hplace]; rfl)
    cases hd.symm.trans hd'
    rw [hunfired hplace] at hfired
    cases hfired

/-- A new socket has not been shut down. -/
theorem Cut.pqOpen (h : Cut s) (hdl : s.Deadlined)
    (hplace : s.place = .starting ∨ s.place = .polling) {fd ino : Nat} {files : Files Owner}
    (hsocket : s.files.socket fd ino (.libpq s.attempt) = some files) :
    Cut { s with files, pqSocket := some fd } where
  made sock hmem := (h.made sock hmem).trans_le (Files.made_socket hsocket).1
  own _ x sock hx hat := by
    obtain rfl : fd = x := Option.some.inj hx
    obtain rfl : s.files.made = sock :=
      Option.some.inj ((Files.made_socket hsocket).2.symm.trans hat)
    exact iff_of_false (fun hmem => absurd (h.made _ hmem) (Nat.lt_irrefl _))
      (hdl.not_fired hplace)

/-- **The cut.**  The section of the timer shuts down the socket libpq uses. -/
theorem Cut.cut (h : Cut s) (hsound : Sound s) {k fd : Nat} {d : ConnectDeadline}
    (hd : s.deadlines k = some d) (hdone : d.done = false)
    (hfree : ¬(k = s.attempt ∧ s.place = .polling)) (hfd : d.fd = some fd) :
    Cut ((s.setDeadline k { d with slept := true, fired := true }).shutdownFd (.timer k) fd) where
  made := made_shutdownFd h (.timer k) fd
  own _ x sock hx hat := by
    obtain ⟨hk, -, htimed⟩ := hsound.timed k d hd hdone
    obtain rfl : fd = x := Option.some.inj
      ((hfd.symm.trans (htimed fun hp => hfree ⟨hk, hp⟩)).trans hx)
    subst hk
    refine iff_of_true (List.mem_append_right _ (Option.mem_toList.mpr hat)) ?_
    exact ⟨_, Function.update_self .., rfl⟩

/-- The deadline comes when libpq has no socket. -/
theorem Cut.fire (h : Cut s) (hsound : Sound s) {k : Nat} {d : ConnectDeadline}
    (hd : s.deadlines k = some d) (hdone : d.done = false)
    (hfree : ¬(k = s.attempt ∧ s.place = .polling)) (hfd : d.fd = none) :
    Cut (s.setDeadline k { d with slept := true, fired := true }) := by
  obtain ⟨hk, -, htimed⟩ := hsound.timed k d hd hdone
  exact h.aside le_rfl rfl (.inr ((htimed fun hp => hfree ⟨hk, hp⟩).symm.trans hfd))

/-- A descriptor that is not libpq's is closed. -/
theorem Owned.sockAt_close (h : Owned s) {fd : Nat} {owner : Owner}
    (hown : s.files.ownerAt fd = some owner) (hne : owner ≠ .libpq s.attempt) (x : Nat)
    (hx : s.pqSocket = some x) : (s.files.close fd).sockAt x = s.files.sockAt x := by
  have hother : x ≠ fd := by
    rintro rfl
    rw [h.pqOwner.mpr hx] at hown
    exact hne (Option.some.inj hown).symm
  rw [Files.sockAt, Files.entryAt_close_of_ne hother]
  rfl

/-- The table grows, and libpq's socket stays. -/
theorem Owned.sockAt_grows (h : Owned s) {files : Files Owner} (hgrows : s.files.Grows files)
    (x : Nat) (hx : s.pqSocket = some x) : files.sockAt x = s.files.sockAt x := by
  obtain ⟨e, he, -⟩ := Option.map_eq_some_iff.mp (h.pqOwner.mpr hx)
  rw [Files.sockAt, Files.sockAt, hgrows x e he, he]

theorem shut_pqClose (s : State) : s.pqClose.shut = s.shut := by
  obtain ⟨files, hits, heq⟩ := pqClose_eq s
  rw [heq]

theorem made_pqClose (s : State) : s.pqClose.files.made = s.files.made := by
  unfold State.pqClose
  split <;> rfl

theorem cut_step {e : Event} (h : Cut s) (hsound : Sound s) (hdl : s.Deadlined)
    (hstep : Stepped s e s') : Cut s' := by
  cases hstep with
  | connectStart hplace hconn =>
      have hfits := hsound.fits
      rw [State.fits, hplace] at hfits
      exact h.aside le_rfl rfl (.inr (hfits.2 hconn).1)
  | started hplace =>
      refine h.frame le_rfl rfl (fun _ => by rw [hplace]; rfl) (iff_of_false ?_
        (hdl.not_fired (.inl hplace))) rfl fun _ _ => rfl
      rintro ⟨d, hd, hfired⟩
      obtain rfl := own_deadline s hd
      cases hfired
  | goes hplace hgoes _ =>
      exact h.frame le_rfl rfl
        (fun _ => handshaking_of_connecting (by rw [hplace]; exact hgoes.connecting.1)) Iff.rfl rfl
        fun _ _ => rfl
  | rewatch next fd ino hplace _ _ =>
      exact h.frame le_rfl rfl (fun _ => by rw [hplace]; rfl) Iff.rfl rfl fun _ _ => rfl
  | register next fd ino own files hplace hdup =>
      have hsock := hsound.owned.sockAt_grows (Files.grows_dup hdup)
      cases next with
      | wait reading =>
          exact h.frame (Files.made_dup hdup).ge rfl (fun _ => by rw [hplace]; rfl) Iff.rfl rfl
            hsock
      | connected => exact h.aside (Files.made_dup hdup).ge rfl (.inl rfl)
  | polled r d hplace hd =>
      exact h.frame le_rfl rfl (fun _ => by rw [hplace]; rfl) (fired_update hd rfl rfl rfl) rfl
        fun _ _ => rfl
  | finish err d hplace hd =>
      exact h.frame le_rfl rfl (fun _ => by rw [hplace]; rfl) (fired_update hd rfl rfl rfl) rfl
        fun _ _ => rfl
  | pqOpen fd ino files hplace _ hsocket => exact h.pqOpen hdl hplace hsocket
  | pqDrop _ =>
      exact h.aside (made_pqClose s).ge (shut_pqClose s) (.inr (pqSocket_pqClose s))
  | hup fd _ =>
      refine h.frame le_rfl rfl (fun hin => ?_) Iff.rfl rfl fun _ _ => rfl
      cases hplace : s.place <;> rw [hplace] at hin <;> first | rfl | cases hin
  | pollerClose fd hmem =>
      have hown := (hsound.owned.poller.owned fd).mpr (List.mem_append_right _ hmem)
      exact h.frame le_rfl rfl id Iff.rfl rfl
        (hsound.owned.sockAt_close hown fun heq => by cases heq)
  | runsOut k d hd _ =>
      exact h.frame le_rfl rfl id (fired_update hd rfl rfl rfl) rfl fun _ _ => rfl
  | fire k d hd hdone hfree hfd => exact h.fire hsound hd hdone hfree hfd
  | cut k d fd hd hdone hfree hfd => exact h.cut hsound hd hdone hfree hfd
  | closeShut fd _ _ _ => exact h.shutAside .poller fd rfl rfl rfl
  | failFinish err _ | closeFinish _ =>
      exact h.aside (made_pqClose s).ge (shut_pqClose s) (.inl rfl)
  | abortRead _ _ | abortSkip _ =>
      exact h.frame le_rfl rfl id Iff.rfl rfl fun _ _ => rfl
  | abortShut fd habort =>
      have hplace := (hsound.aborting (by rw [habort]; exact Option.some_ne_none _)).1
      exact h.shutAside (.watchdog s.attempt) fd rfl rfl (congrArg Place.handshaking hplace)
  | otherOpen fd ino files hsocket =>
      exact h.frame (Files.made_socket hsocket).1 rfl id Iff.rfl rfl
        (hsound.owned.sockAt_grows (Files.grows_socket hsocket))
  | otherDup fd fd' files hdup =>
      exact h.frame (Files.made_dup hdup).ge rfl id Iff.rfl rfl
        (hsound.owned.sockAt_grows (Files.grows_dup hdup))
  | otherClose fd hown =>
      exact h.frame le_rfl rfl id Iff.rfl rfl
        (hsound.owned.sockAt_close hown fun heq => by cases heq)
  | startNull _ _ | fails _ _ _ | same _ _ _ _ | failReset _ _ | close _ _ | closeReset _ =>
      exact h.aside le_rfl rfl (.inl rfl)

/-! ## The gap -/

/-- The handshake of connect `k` was not complete when its deadline came. -/
def State.Uncut (s : State) (k : Nat) : Prop :=
  ∀ d, s.deadlines k = some d → d.polled = true → d.fired = false

/-- The timer of connect `k` does not run between the last poll of that connect and the
section that sets `done`. -/
def OutsideGap (k : Nat) (s : State) (e : Event) : Prop :=
  e = .timer k → k = s.attempt → s.place ≠ .leave none

instance (k : Nat) (s : State) (e : Event) : Decidable (OutsideGap k s e) :=
  inferInstanceAs (Decidable (_ → _ → _))

theorem outsideGap_of_ne {k : Nat} {e : Event} (he : e ≠ .timer k) : OutsideGap k s e :=
  fun htimer => absurd htimer he

/-- A deadline is written. -/
theorem uncut_update {j k : Nat} {d : ConnectDeadline}
    (hdeadlines : s'.deadlines = Function.update s.deadlines j (some d))
    (hd : j = k → ((d.polled = true → d.fired = false) ↔ s.Uncut k)) :
    s'.Uncut k ↔ s.Uncut k := by
  unfold State.Uncut at hd ⊢
  rw [hdeadlines]
  by_cases hj : k = j
  · subst hj
    rw [Function.update_self, ← hd rfl]
    simp
  · rw [Function.update_of_ne hj]

/-- A deadline is written and its `polled` and `fired` are left alone. -/
theorem uncut_keep {j k : Nat} {d d' : ConnectDeadline} (hd : s.deadlines j = some d)
    (hdeadlines : s'.deadlines = Function.update s.deadlines j (some d'))
    (hpolled : d'.polled = d.polled) (hfired : d'.fired = d.fired) : s'.Uncut k ↔ s.Uncut k := by
  refine uncut_update hdeadlines ?_
  rintro rfl
  unfold State.Uncut
  rw [hd, hpolled, hfired]
  simp

/-- In the gap the timer cuts a complete handshake, elsewhere it does not. -/
theorem uncut_fire (h : Sound s) (hdl : s.Deadlined) {j k : Nat} {d : ConnectDeadline}
    (hd : s.deadlines j = some d) (hdone : d.done = false)
    (hdeadlines : s'.deadlines =
      Function.update s.deadlines j (some { d with slept := true, fired := true })) :
    s'.Uncut k ↔ s.Uncut k ∧ OutsideGap k s (.timer j) := by
  by_cases hjk : j = k
  · subst hjk
    obtain ⟨hj, hconnecting, -⟩ := h.timed j d hd hdone
    subst hj
    obtain ⟨d', hd', -, hpolled, -⟩ := hdl.now hconnecting
    cases hd.symm.trans hd'
    have hgap : OutsideGap s.attempt s (.timer s.attempt) ↔ d.polled = false := by
      rw [hpolled, decide_eq_false_iff_not]
      exact ⟨fun hgap => hgap rfl rfl, fun hne _ _ => hne⟩
    unfold State.Uncut
    rw [hgap, hdeadlines, Function.update_self, hd]
    cases hp : d.polled <;> simp [hp]
  · have hother : Event.timer j ≠ .timer k := fun heq => hjk (Event.timer.inj heq)
    rw [and_iff_left (outsideGap_of_ne hother)]
    exact uncut_update hdeadlines fun heq => absurd heq hjk

/-- A step keeps the handshake of connect `k` uncut exactly when it is not that connect's
timer in the gap. -/
theorem uncut_step {k : Nat} {e : Event} (h : Sound s) (hdl : s.Deadlined)
    (hstep : Stepped s e s') : s'.Uncut k ↔ s.Uncut k ∧ OutsideGap k s e := by
  cases hstep with
  | fire j d hd hdone _ _ => exact uncut_fire h hdl hd hdone rfl
  | cut j d fd hd hdone _ _ => exact uncut_fire h hdl hd hdone rfl
  | runsOut j d hd he =>
      have hgap : OutsideGap k s e := by
        rcases he with rfl | ⟨rfl, hdone⟩
        · exact outsideGap_of_ne Event.noConfusion
        · -- the connect has noted its end: it is not in the gap
          intro heq hk hplace
          cases heq
          subst hk
          obtain ⟨d', hd', hundone, -⟩ := hdl.now (by rw [hplace]; rfl)
          cases hd.symm.trans hd'
          rw [hdone] at hundone
          cases hundone
      rw [and_iff_left hgap]
      exact uncut_keep hd rfl rfl rfl
  | started hplace =>
      refine (uncut_update rfl ?_).trans (and_iff_left (outsideGap_of_ne Event.noConfusion)).symm
      rintro rfl
      refine iff_of_true (fun hp => by cases hp) fun d hd => ?_
      rw [hdl.fresh hplace] at hd
      cases hd
  | polled r d hplace hd =>
      refine (uncut_update rfl ?_).trans (and_iff_left (outsideGap_of_ne Event.noConfusion)).symm
      rintro rfl
      have hunfired : ∀ d, s.deadlines s.attempt = some d → d.fired = false := fun d hd =>
        Bool.eq_false_iff.mpr fun hfired => hdl.not_fired (.inr hplace) ⟨d, hd, hfired⟩
      exact iff_of_true (fun _ => hunfired d hd) fun d' hd' _ => hunfired d' hd'
  | finish err d hplace hd =>
      rw [and_iff_left (outsideGap_of_ne Event.noConfusion)]
      exact uncut_keep hd rfl rfl rfl
  | fails err hplace he | goes hplace hgoes he =>
      exact (and_iff_left (outsideGap_of_ne fun heq => by rw [heq] at he; cases he)).symm
  | register next fd ino own files hplace hdup =>
      rw [and_iff_left (outsideGap_of_ne Event.noConfusion)]
      cases next <;> exact Iff.rfl
  | failFinish err hplace =>
      rw [and_iff_left (outsideGap_of_ne Event.noConfusion)]
      obtain ⟨files, hits, heq⟩ := pqClose_eq s
      rw [State.pqFinish, heq]
      rfl
  | pqDrop hplace =>
      rw [and_iff_left (outsideGap_of_ne Event.noConfusion)]
      obtain ⟨files, hits, heq⟩ := pqClose_eq s
      rw [heq]
      rfl
  | closeFinish hplace =>
      rw [and_iff_left (outsideGap_of_ne Event.noConfusion)]
      obtain ⟨files, hits, heq⟩ := pqClose_eq s
      rw [State.pqFinish, heq]
      rfl
  | _ => exact (and_iff_left (outsideGap_of_ne Event.noConfusion)).symm

end

/-! ## Every run -/

section

variable {es : List Event} {s : State}

/-- What the results on deadlines rest on. -/
structure Timed (s : State) : Prop where
  sound : Sound s
  deadlined : s.Deadlined
  cut : Cut s

theorem timed_init : Timed State.init := ⟨sound_init, deadlined_init, cut_init⟩

theorem timed_step {s s' : State} {e : Event} (h : Timed s) (hstep : step s e = some s') :
    Timed s' :=
  ⟨sound_step h.sound (step_stepped hstep), deadlined_step h.deadlined (step_stepped hstep),
    cut_step h.cut h.sound h.deadlined (step_stepped hstep)⟩

theorem timed_of_exec (h : exec step State.init es = some s) : Timed s :=
  exec_invariant Timed (fun _ _ _ => timed_step) timed_init h

/-- **No handshake waits past its deadline unnoticed.**  When the timer of a connect has run
and the connect is parked, the very socket the poller watches for it was shut down: the
park ends, and the loop then sees `fired`. -/
theorem late_park_is_cut (h : exec step State.init es = some s) {reading : Bool}
    (hplace : s.place = .parked reading) {d : ConnectDeadline}
    (hd : s.deadlines s.attempt = some d) (hfired : d.fired = true) :
    ∃ own sock, s.sock = some (some own) ∧ s.files.ownerAt own = some .poller ∧
      s.files.sockAt own = some sock ∧ sock ∈ s.shut := by
  have htimed := timed_of_exec h
  have hfits := htimed.sound.fits
  rw [State.fits, hplace] at hfits
  obtain ⟨-, hopen, fd, hfd, hat⟩ := hfits
  obtain ⟨own, hown⟩ := Option.isSome_iff_exists.mp hopen
  have hsock : s.sock = some (some own) := Option.join_eq_some_iff.mp hown
  have hsame := Files.sockAt_eq_of_inoAt (htimed.sound.owned.watched own hsock) hat
  obtain ⟨entry, hentry, -⟩ := Option.map_eq_some_iff.mp hat
  have hsockAt : s.files.sockAt fd = some entry.sock := congrArg (Option.map Entry.sock) hentry
  have hshut := (htimed.cut.own (by rw [hplace]; rfl) fd entry.sock hfd hsockAt).mpr
    ⟨d, hd, hfired⟩
  exact ⟨own, entry.sock, hsock, htimed.sound.owned.pollerOwner hsock, hsame.trans hsockAt, hshut⟩

theorem late_park_is_cut_second_host :
    ∃ s, exec step State.init (twoHosts ++ [.timer 1]) = some s ∧
      ∃ own sock, s.sock = some (some own) ∧ s.files.ownerAt own = some .poller ∧
        s.files.sockAt own = some sock ∧ sock ∈ s.shut := by
  have hrun : (exec step State.init (twoHosts ++ [.timer 1])).map
      (fun s => (s.place, s.deadlines s.attempt)) =
      some (.parked true, some ⟨some 7, false, true, true, false⟩) := by decide
  obtain ⟨s, hs, hend⟩ := Option.map_eq_some_iff.mp hrun
  simp only [Prod.mk.injEq] at hend
  exact ⟨s, hs, late_park_is_cut hs hend.1 hend.2 rfl⟩

/-- Success is reported behind the last `watch_socket`, on the socket libpq had. -/
theorem reported {t : State} {e : Event} (h : Sound s) (hstep : Stepped s e t)
    (hreport : t.verdicts = s.verdicts ++ [(s.attempt, none)]) :
    s.place.ending = true ∧ t.shut = s.shut ∧ ∃ fd sock, s.pqSocket = some fd ∧
      t.pqSocket = some fd ∧ s.files.sockAt fd = some sock ∧ t.files.sockAt fd = some sock := by
  have hmore : s.verdicts ≠ s.verdicts ++ [(s.attempt, none)] := by simp
  have herr : ∀ err : String,
      s.verdicts ++ [(s.attempt, some err)] ≠ s.verdicts ++ [(s.attempt, none)] := by simp
  obtain ⟨files, hits, heq⟩ := pqClose_eq s
  cases hstep with
  | same fd hplace hfd hopen =>
      obtain ⟨entry, hentry⟩ := Option.isSome_iff_exists.mp hopen
      have hsock : s.files.sockAt fd = some entry.sock := congrArg (Option.map Entry.sock) hentry
      exact ⟨by rw [hplace]; rfl, rfl, fd, entry.sock, hfd, hfd, hsock, hsock⟩
  | register next fd ino own files hplace hdup =>
      cases next with
      | wait reading => exact absurd hreport hmore
      | connected =>
          have hfits := h.fits
          rw [State.fits, hplace] at hfits
          obtain ⟨-, -, hfd, hino⟩ := hfits
          obtain ⟨entry, hentry, -⟩ := Option.map_eq_some_iff.mp hino
          have hsock : s.files.sockAt fd = some entry.sock :=
            congrArg (Option.map Entry.sock) hentry
          exact ⟨by rw [hplace]; rfl, rfl, fd, entry.sock, hfd, hfd, hsock,
            (Files.grows_dup hdup).sockAt hsock⟩
  | startNull _ _ => exact absurd hreport (herr _)
  | failFinish err _ =>
      rw [State.pqFinish, heq] at hreport
      exact absurd hreport (herr err)
  | pqDrop _ =>
      rw [heq] at hreport
      exact absurd hreport hmore
  | closeFinish _ =>
      rw [State.pqFinish, heq] at hreport
      exact absurd hreport hmore
  | _ => exact absurd hreport hmore

/-- **Success and the deadline.**  When a connect reports success, libpq has a socket, and
nobody has shut that socket down exactly when the timer of this connect did not run its
section in the gap between the poll that completed the handshake and the note that it is
done. -/
theorem success_uncut_iff (h : exec step State.init es = some s) {e : Event} {t : State}
    (hstep : step s e = some t) (hreport : t.verdicts = s.verdicts ++ [(s.attempt, none)]) :
    ∃ fd sock, t.pqSocket = some fd ∧ t.files.sockAt fd = some sock ∧
      (sock ∉ t.shut ↔ Guarded step (OutsideGap s.attempt) State.init es) := by
  have htimed := timed_of_exec h
  obtain ⟨hend, hshut, fd, sock, hpq, hpq', hat, hat'⟩ :=
    reported htimed.sound (step_stepped hstep) hreport
  refine ⟨fd, sock, hpq', hat', ?_⟩
  obtain ⟨d, hd, hpolled⟩ := htimed.deadlined.ending hend
  have hfired : s.Fired ↔ ¬s.Uncut s.attempt := by
    unfold State.Fired State.Uncut
    rw [hd]
    simp [hpolled]
  have hguarded := exec_iff_guarded (fun _ _ _ => timed_step)
    (fun _ _ _ htimed hstep =>
      uncut_step (k := s.attempt) htimed.sound htimed.deadlined (step_stepped hstep)) timed_init h
  rw [hshut, htimed.cut.own (handshaking_of_ending hend) fd sock hpq hat, hfired, not_not, hguarded]
  exact and_iff_right fun d hd => by cases hd

/-- The timer in the gap: the connect reports success, on a socket that is shut down. -/
theorem success_uncut_iff_gap :
    ∃ es s t, exec step State.init es = some s ∧ step s .watch = some t ∧
      (1, none) ∈ t.verdicts ∧ t.connected = true ∧
      (∃ fd sock, t.pqSocket = some fd ∧ t.files.sockAt fd = some sock ∧ sock ∈ t.shut) ∧
      ¬Guarded step (OutsideGap 1) State.init es := by
  let es : List Event := [.connectStart, .pqOpen 5 77, .started .ok, .watch, .register (some 6),
    .ready true, .enter false 3, .polled .ok, .timer 1, .finish]
  have hgap : ¬Guarded step (OutsideGap 1) State.init es := by decide
  have hrun : (exec step State.init es).any (fun s => (step s .watch).any fun t =>
      decide (s.attempt = 1 ∧ t.verdicts = s.verdicts ++ [(s.attempt, none)] ∧
        t.connected = true)) = true := by decide
  obtain ⟨s, hs, hlast⟩ := (Option.any_eq_true ..).mp hrun
  obtain ⟨t, ht, hend⟩ := (Option.any_eq_true ..).mp hlast
  obtain ⟨hone, hreport, hconnected⟩ := of_decide_eq_true hend
  obtain ⟨fd, sock, hfd, hat, hiff⟩ := success_uncut_iff hs ht hreport
  rw [hone] at hiff hreport
  refine ⟨es, s, t, hs, ht, ?_, hconnected, ⟨fd, sock, hfd, hat, ?_⟩, hgap⟩
  · rw [hreport]
    exact List.mem_append_right _ List.mem_cons_self
  · by_contra hnot
    exact hgap (hiff.mp hnot)

end

end Upq.Handshake
