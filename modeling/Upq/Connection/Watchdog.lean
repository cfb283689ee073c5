/-
  Connection/Watchdog.lean --- the pool's IO watchdog and one of its connections.

  Source: `PgPool::io_watchdog_loop` in `src/upq/PgPool.cpp`; `mark_await_begin`,
  `mark_await_end` and `abort_io_from_watchdog` in `src/upq/PgConnection.cpp`;
  `set_io_deadline_ms` and `io_deadline_ms` in `include/upq/PgConnection.h`.

  Every access to the connection's atomics is a step, and so is every read of the clock,
  so awaits end and begin between any two of the watchdog's steps.  `close_mtx_` excludes
  `close()` only: the coroutine that awaits does not take it, so the load inside
  `abort_io_from_watchdog` and what it does afterwards are two steps as well.

  The clock is `steady_now_ms()`, a 64-bit number that does not go back.  Deadlines are
  any 64-bit numbers, and the sum the watchdog compares with wraps.
-/
import Upq.Foundation.Machine

set_option autoImplicit false

namespace Upq.Watchdog

open Upq.Foundation

/-! ## State -/

/-- Where a pass of `io_watchdog_loop` is with the connection: not at it, `now` read,
`since` read and not 0, found overdue, and inside `abort_io_from_watchdog` with an await
found parked. -/
inductive Pass where
  | away
  | scan (now : Nat)
  | compare (now since : Nat)
  | abort
  | fire
  deriving DecidableEq, Repr

/-- What the watchdog did when it cut: the await parked then, the clock and the deadline
in force. -/
structure Cut where
  parked : Option Nat
  now : Nat
  deadline : Nat
  deriving DecidableEq, Repr

/-- The connection, the clock and the watchdog.  `isOpen` is `conn_ != nullptr`; `parked` is
the time the await in progress was parked, if there is one; `cuts` remembers the cuts. -/
structure State where
  clock : Nat
  isOpen : Bool
  connected : Bool
  awaitSinceMs : Nat
  ioDeadlineMs : Nat
  ioTimedOut : Bool
  shutdown : Bool
  parked : Option Nat
  pass : Pass
  cuts : List Cut
  deriving DecidableEq, Repr

/-- A connection just made, at clock value `clock`. -/
def State.init (clock : Nat) : State :=
  { clock, isOpen := true, connected := true, awaitSinceMs := 0, ioDeadlineMs := 0
    ioTimedOut := false, shutdown := false, parked := none, pass := .away, cuts := [] }

/-- `kIoDeadlineMs` -/
def kIoDeadlineMs : Nat := 15000

/-- `io_deadline_ms()` for a stored value -/
def deadlineOf (ms : Nat) : Nat := if ms ≠ 0 then ms else kIoDeadlineMs

/-- `io_deadline_ms()` -/
def State.deadline (s : State) : Nat := deadlineOf s.ioDeadlineMs

/-! ## Steps -/

inductive Event where
  -- time
  | time (clock : Nat)
  -- the connection
  | markAwaitBegin
  | markAwaitEnd
  | setIoDeadlineMs (ms : Nat)
  | close
  -- the watchdog
  | readNow
  | readSince
  | compare
  | enterAbort
  | cut (socketOk : Bool)
  deriving DecidableEq, Repr

/-- `io_timed_out_.store(true)`, and `shutdown(2)` if there is a socket -/
def State.cut (s : State) (socketOk : Bool) : State :=
  { s with
    ioTimedOut := true, shutdown := s.shutdown || socketOk, pass := .away
    cuts := s.cuts ++ [⟨s.parked, s.clock, s.deadline⟩] }

def step (s : State) : Event → Option State
  | .time clock => if s.clock ≤ clock ∧ clock < 2 ^ 64 then some { s with clock } else none
  | .markAwaitBegin =>
      if s.parked = none then some { s with awaitSinceMs := s.clock, parked := some s.clock }
      else none
  | .markAwaitEnd =>
      some { s with awaitSinceMs := 0, parked := none, connected := s.connected && !s.ioTimedOut }
  | .setIoDeadlineMs ms => if ms < 2 ^ 64 then some { s with ioDeadlineMs := ms } else none
  | .close =>
      -- `close()` holds `close_mtx_`, as the watchdog does from its load on
      if s.pass = .fire then none else some { s with isOpen := false, connected := false }
  | .readNow => if s.pass = .away then some { s with pass := .scan s.clock } else none
  | .readSince =>
      match s.pass with
      | .scan now =>
          some { s with pass := if s.awaitSinceMs = 0 then .away else .compare now s.awaitSinceMs }
      | _ => none
  | .compare =>
      match s.pass with
      | .compare now since =>
          some { s with pass := if now < (since + s.deadline) % 2 ^ 64 then .away else .abort }
      | _ => none
  | .enterAbort =>
      if s.pass = .abort then
        some { s with pass := if s.isOpen = false ∨ s.awaitSinceMs = 0 then .away else .fire }
      else none
  | .cut socketOk => if s.pass = .fire then some (s.cut socketOk) else none

/-- Only time moves the clock. -/
theorem step_clock {s t : State} {e : Event} (h : step s e = some t) :
    t.clock = s.clock ∨ ∃ clock, e = .time clock ∧ s.clock ≤ clock ∧ t = { s with clock } := by
  cases e with
  | time clock =>
      simp only [step, Option.ite_none_right_eq_some, Option.some.injEq] at h
      exact .inr ⟨clock, rfl, h.1.1, h.2.symm⟩
  | markAwaitBegin | setIoDeadlineMs ms | readNow | enterAbort | cut socketOk =>
      simp only [step, Option.ite_none_right_eq_some, Option.some.injEq] at h
      exact .inl (h.2 ▸ rfl)
  | markAwaitEnd =>
      cases h
      exact .inl rfl
  | close =>
      simp only [step, Option.ite_none_left_eq_some, Option.some.injEq] at h
      exact .inl (h.2 ▸ rfl)
  | readSince | compare =>
      simp only [step] at h
      split at h <;> cases h
      exact .inl rfl

/-! ## Only overdue awaits -/

/-- The await parked when the watchdog cut had been parked for at least the deadline in
force. -/
def Cut.Overdue (c : Cut) : Prop := ∃ t, c.parked = some t ∧ t + c.deadline ≤ c.now

/-- While the watchdog is between its read of `io_await_since_ms()` and the end of
`abort_io_from_watchdog`, no await begins; none ends after the last load; the deadline is
not raised once it was compared; and the sum that is compared does not wrap. -/
def Undisturbed (s : State) : Event → Prop
  | .markAwaitBegin => s.pass = .away ∨ ∃ now, s.pass = .scan now
  | .markAwaitEnd => s.pass ≠ .fire
  | .setIoDeadlineMs ms => s.pass = .abort ∨ s.pass = .fire → deadlineOf ms ≤ s.deadline
  | .compare => ∀ now since, s.pass = .compare now since → since + s.deadline < 2 ^ 64
  | _ => True

/-- What the watchdog knows at each point of its pass. -/
def Pass.Knows (s : State) : Pass → Prop
  | .away => True
  | .scan now => now ≤ s.clock
  | .compare now since => now ≤ s.clock ∧ ∀ t, s.parked = some t → t = since
  | .abort => ∀ t, s.parked = some t → t + s.deadline ≤ s.clock
  | .fire => ∃ t, s.parked = some t ∧ t + s.deadline ≤ s.clock

/-- The invariant: the timestamp is that of the await in progress, the watchdog's
knowledge still holds, and every cut so far was due. -/
structure Timely (s : State) : Prop where
  published : s.awaitSinceMs = s.parked.getD 0
  knows : s.pass.Knows s
  cuts : ∀ c ∈ s.cuts, c.Overdue

section

variable {s : State}

/-- A step of the connection that changes neither the await nor the clock, and does not
raise the deadline. -/
theorem Pass.Knows.mono {t : State} {p : Pass} (h : p.Knows s) (hparked : t.parked = s.parked)
    (hclock : s.clock ≤ t.clock) (hdeadline : p = .abort ∨ p = .fire → t.deadline ≤ s.deadline) :
    p.Knows t := by
  cases p with
  | away => trivial
  | scan now => exact Nat.le_trans h hclock
  | compare now since => exact ⟨Nat.le_trans h.1 hclock, hparked ▸ h.2⟩
  | abort =>
      intro u hu
      have hdue := h u (hparked ▸ hu)
      have hlower := hdeadline (.inl rfl)
      omega
  | fire =>
      obtain ⟨u, hu, hdue⟩ := h
      have hlower := hdeadline (.inr rfl)
      exact ⟨u, hparked.trans hu, by omega⟩

theorem timely_markAwaitBegin (h : Timely s) (hguard : Undisturbed s .markAwaitBegin) :
    Timely { s with awaitSinceMs := s.clock, parked := some s.clock } := by
  refine ⟨rfl, ?_, h.cuts⟩
  have hknows := h.knows
  rcases hguard with hpass | ⟨now, hpass⟩
  · change s.pass.Knows _
    rw [hpass]
    trivial
  · change s.pass.Knows _
    rw [hpass] at hknows ⊢
    exact hknows

theorem timely_markAwaitEnd (h : Timely s) (hguard : s.pass ≠ .fire) :
    Timely { s with
      awaitSinceMs := 0, parked := none, connected := s.connected && !s.ioTimedOut } := by
  refine ⟨rfl, ?_, h.cuts⟩
  have hknows := h.knows
  change s.pass.Knows _
  cases hpass : s.pass with
  | away => trivial
  | scan now =>
      rw [hpass] at hknows
      exact hknows
  | compare now since =>
      rw [hpass] at hknows
      exact ⟨hknows.1, nofun⟩
  | abort => exact nofun
  | fire => exact absurd hpass hguard

/-- The comparison, when the sum does not wrap, finds an await that is due or has
ended. -/
theorem timely_compare (h : Timely s) {now since : Nat} (hpass : s.pass = .compare now since)
    (hwrap : since + s.deadline < 2 ^ 64) :
    Timely { s with pass := if now < (since + s.deadline) % 2 ^ 64 then .away else .abort } := by
  refine ⟨h.published, ?_, h.cuts⟩
  have hknows := h.knows
  rw [hpass] at hknows
  obtain ⟨hnow, hsame⟩ := hknows
  change Pass.Knows _ (if _ then _ else _)
  rw [Nat.mod_eq_of_lt hwrap]
  split
  · trivial
  · rename_i hdue
    intro t ht
    have heq := hsame t ht
    change t + s.deadline ≤ s.clock
    omega

theorem timely_enterAbort (h : Timely s) (hpass : s.pass = .abort) :
    Timely { s with pass := if s.isOpen = false ∨ s.awaitSinceMs = 0 then .away else .fire } := by
  refine ⟨h.published, ?_, h.cuts⟩
  have hknows := h.knows
  rw [hpass] at hknows
  change Pass.Knows _ (if _ then _ else _)
  split
  · trivial
  · rename_i hparked
    have hpub := h.published
    cases ht : s.parked with
    | none =>
        rw [ht] at hpub
        exact absurd (.inr hpub) hparked
    | some t => exact ⟨t, rfl, hknows t ht⟩

theorem timely_cut (h : Timely s) (hpass : s.pass = .fire) (socketOk : Bool) :
    Timely (s.cut socketOk) := by
  refine ⟨h.published, trivial, ?_⟩
  intro c hc
  have hknows := h.knows
  rw [hpass] at hknows
  rcases List.mem_append.mp hc with hold | hnew
  · exact h.cuts c hold
  · rw [List.mem_singleton.mp hnew]
    exact hknows

end

/-- **Step rule.** -/
theorem timely_step {s t : State} {e : Event} (h : Timely s) (hguard : Undisturbed s e)
    (hstep : step s e = some t) : Timely t := by
  cases e with
  | time clock =>
      simp only [step, Option.ite_none_right_eq_some, Option.some.injEq] at hstep
      obtain ⟨⟨hle, -⟩, rfl⟩ := hstep
      exact ⟨h.published, h.knows.mono rfl hle fun _ => Nat.le_refl _, h.cuts⟩
  | markAwaitBegin =>
      simp only [step, Option.ite_none_right_eq_some, Option.some.injEq] at hstep
      exact hstep.2 ▸ timely_markAwaitBegin h hguard
  | markAwaitEnd =>
      cases hstep
      exact timely_markAwaitEnd h hguard
  | setIoDeadlineMs ms =>
      simp only [step, Option.ite_none_right_eq_some, Option.some.injEq] at hstep
      obtain ⟨-, rfl⟩ := hstep
      exact ⟨h.published, h.knows.mono rfl (Nat.le_refl _) hguard, h.cuts⟩
  | close =>
      simp only [step, Option.ite_none_left_eq_some, Option.some.injEq] at hstep
      obtain ⟨-, rfl⟩ := hstep
      exact ⟨h.published, h.knows.mono rfl (Nat.le_refl _) fun _ => Nat.le_refl _, h.cuts⟩
  | readNow =>
      simp only [step, Option.ite_none_right_eq_some, Option.some.injEq] at hstep
      obtain ⟨-, rfl⟩ := hstep
      exact ⟨h.published, Nat.le_refl s.clock, h.cuts⟩
  | readSince =>
      simp only [step] at hstep
      split at hstep
      · rename_i now hpass
        cases hstep
        refine ⟨h.published, ?_, h.cuts⟩
        have hknows := h.knows
        rw [hpass] at hknows
        change Pass.Knows _ (if _ then _ else _)
        split
        · trivial
        · refine ⟨hknows, fun t ht => ?_⟩
          have hpub := h.published
          rw [show s.parked = some t from ht] at hpub
          exact hpub.symm
      · cases hstep
  | compare =>
      simp only [step] at hstep
      split at hstep
      · rename_i now since hpass
        cases hstep
        exact timely_compare h hpass (hguard now since hpass)
      · cases hstep
  | enterAbort =>
      simp only [step, Option.ite_none_right_eq_some, Option.some.injEq] at hstep
      exact hstep.2 ▸ timely_enterAbort h hstep.1
  | cut socketOk =>
      simp only [step, Option.ite_none_right_eq_some, Option.some.injEq] at hstep
      exact hstep.2 ▸ timely_cut h hstep.1 socketOk

theorem timely_init (clock : Nat) : Timely (State.init clock) := ⟨rfl, trivial, nofun⟩

/-- **The watchdog cuts only overdue awaits**, in every run in which it is not disturbed
between its test and the cut and the sum it compares does not wrap. -/
theorem cuts_overdue (clock : Nat) (es : List Event) (s : State)
    (hguard : Guarded step Undisturbed (State.init clock) es)
    (h : exec step (State.init clock) es = some s) : ∀ c ∈ s.cuts, c.Overdue :=
  (exec_invariant_of_guarded Timely (fun _ _ _ => timely_step) es _ s (timely_init clock) hguard
    h).cuts

instance (c : Cut) : Decidable c.Overdue :=
  decidable_of_iff (c.parked.any (fun t => decide (t + c.deadline ≤ c.now)) = true) (by
    simp [Cut.Overdue, Option.any_eq_true])

/-- A pass that goes through to the cut. -/
def fullPass : List Event := [.readNow, .readSince, .compare, .enterAbort, .cut true]

/-- An await of 16 seconds under the default deadline. -/
def overdueRun : List Event := [.markAwaitBegin, .time 17000] ++ fullPass

theorem cuts_overdue_overdueRun :
    ∃ s, exec step (State.init 1000) overdueRun = some s ∧ s.cuts = [⟨some 1000, 17000, 15000⟩] ∧
      ∀ c ∈ s.cuts, c.Overdue := by
  have hguard : Guarded step Undisturbed (State.init 1000) overdueRun := by
    simp [overdueRun, fullPass, Guarded, Undisturbed, step, State.init, State.deadline, deadlineOf,
      kIoDeadlineMs]
  have hrun : (exec step (State.init 1000) overdueRun).any (fun s =>
      decide (s.cuts = [⟨some 1000, 17000, 15000⟩])) = true := by decide +kernel
  obtain ⟨s, hs, hcuts⟩ := (Option.any_eq_true ..).mp hrun
  exact ⟨s, hs, of_decide_eq_true hcuts, cuts_overdue 1000 overdueRun s hguard hs⟩

/-- The overdue await ends after the comparison, and the next one begins before
`abort_io_from_watchdog` looks. -/
def freshAwaitRun : List Event :=
  [.markAwaitBegin, .time 17000, .readNow, .readSince, .compare, .markAwaitEnd, .markAwaitBegin,
    .enterAbort, .cut true]

/-- A deadline of 2^64 - 1 ms makes the sum wrap to less than any clock value. -/
def wrappedDeadlineRun : List Event := [.setIoDeadlineMs (2 ^ 64 - 1), .markAwaitBegin] ++ fullPass

/-- Awaits are cut that are not overdue: one that has just been parked, although no
deadline was ever set, and one under a huge deadline, although no await ever ended. -/
theorem cuts_not_overdue :
    (¬∀ clock es s, (∀ ms, .setIoDeadlineMs ms ∉ es) → exec step (State.init clock) es = some s →
      ∀ c ∈ s.cuts, c.Overdue) ∧
      ¬∀ clock es s, .markAwaitEnd ∉ es → exec step (State.init clock) es = some s →
        ∀ c ∈ s.cuts, c.Overdue := by
  refine ⟨fun hall => ?_, fun hall => ?_⟩
  · have hrun : (exec step (State.init 1000) freshAwaitRun).any (fun s =>
        decide (∃ c ∈ s.cuts, ¬c.Overdue)) = true := by decide +kernel
    obtain ⟨s, hs, hcut⟩ := (Option.any_eq_true ..).mp hrun
    obtain ⟨c, hc, hnot⟩ := of_decide_eq_true hcut
    exact hnot (hall 1000 freshAwaitRun s (by simp [freshAwaitRun]) hs c hc)
  · have hrun : (exec step (State.init 1000) wrappedDeadlineRun).any (fun s =>
        decide (∃ c ∈ s.cuts, ¬c.Overdue)) = true := by decide +kernel
    obtain ⟨s, hs, hcut⟩ := (Option.any_eq_true ..).mp hrun
    obtain ⟨c, hc, hnot⟩ := of_decide_eq_true hcut
    exact hnot (hall 1000 wrappedDeadlineRun s (by simp [wrappedDeadlineRun, fullPass]) hs c hc)

end Upq.Watchdog
