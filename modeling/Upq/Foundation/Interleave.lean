/-
  Foundation/Interleave.lean --- any number of processes over one shared state.

  A process is a local step function `move : S → L → E → Option (S × L)`: one
  atomic action of a process in local state `L` on the shared state `S`.  The
  interleaved system keeps the list of local states; an event names the process
  that moves.  Nothing is assumed about scheduling.

  Invariants of such systems are mostly linear: a number in the shared state
  against a sum of weights over the processes.  `tally` is that sum and
  `tally_set` says how one move changes it, so that a preservation proof is a
  case split over the actions of one process followed by `omega`.
-/
import Mathlib.Algebra.BigOperators.Group.List.Basic
import Upq.Foundation.Machine

set_option autoImplicit false

namespace Upq.Foundation

variable {S L E : Type}

/-- Process `ev.1` takes the atomic action `ev.2`. -/
def interleave (move : S → L → E → Option (S × L)) (st : S × List L) (ev : Nat × E) :
    Option (S × List L) :=
  match st.2[ev.1]? with
  | none => none
  | some l =>
      match move st.1 l ev.2 with
      | none => none
      | some (s', l') => some (s', st.2.set ev.1 l')

/-- What an interleaved step is: one process moved, the others stayed. -/
theorem interleave_eq_some {move : S → L → E → Option (S × L)} {st st' : S × List L}
    {ev : Nat × E} (h : interleave move st ev = some st') :
    ∃ l s' l', st.2[ev.1]? = some l ∧ move st.1 l ev.2 = some (s', l') ∧
      st' = (s', st.2.set ev.1 l') := by
  unfold interleave at h
  split at h
  · cases h
  · rename_i l hl
    split at h
    · cases h
    · rename_i s' l' hmove
      exact ⟨l, s', l', hl, hmove, (Option.some.inj h).symm⟩

/-- A process that can move does. -/
theorem interleave_of_move {move : S → L → E → Option (S × L)} {s s' : S} {ls : List L} {i : Nat}
    {l l' : L} {e : E} (hl : ls[i]? = some l) (hmove : move s l e = some (s', l')) :
    interleave move (s, ls) (i, e) = some (s', ls.set i l') := by
  simp only [interleave, hl, hmove]

/-- The process that moved is where it went. -/
theorem getElem?_set_of_eq_some {ls : List L} {i : Nat} {l : L} (h : ls[i]? = some l) (l' : L) :
    (ls.set i l')[i]? = some l' :=
  List.getElem?_set_self (List.getElem?_eq_some_iff.mp h).1

/-! ## Sums of weights over the processes -/

/-- The sum of a weight over all processes. -/
def tally (f : L → Nat) (ls : List L) : Nat := (ls.map f).sum

@[simp] theorem tally_nil (f : L → Nat) : tally f [] = 0 := rfl

@[simp] theorem tally_cons (f : L → Nat) (l : L) (ls : List L) :
    tally f (l :: ls) = f l + tally f ls := by
  simp [tally]

/-- A weight that is zero on `l` sums to zero over copies of `l`. -/
theorem tally_replicate {f : L → Nat} {l : L} (h : f l = 0) (n : Nat) :
    tally f (List.replicate n l) = 0 := by
  simp [tally, h]

/-- A process weighs at most the whole. -/
theorem le_tally_of_mem {f : L → Nat} {l : L} {ls : List L} (h : l ∈ ls) :
    f l ≤ tally f ls := by
  induction ls with
  | nil => simp at h
  | cons head rest ih =>
      rw [tally_cons]
      cases List.mem_cons.mp h with
      | inl heq => subst heq; omega
      | inr hmem => have := ih hmem; omega

/-- **Move rule.**  Replacing the local state of one process exchanges its
weight. -/
theorem tally_set {f : L → Nat} {ls : List L} {i : Nat} {l : L} (l' : L)
    (h : ls[i]? = some l) : tally f (ls.set i l') + f l = tally f ls + f l' := by
  induction ls generalizing i with
  | nil => simp at h
  | cons head rest ih =>
      cases i with
      | zero =>
          have hhead : head = l := by simpa using h
          subst hhead
          simp only [List.set_cons_zero, tally_cons]
          omega
      | succ i =>
          have htail := ih (i := i) (by simpa using h)
          simp only [List.set_cons_succ, tally_cons]
          omega

/-- What holds of every process after a move: it held before, and the move was a good one. -/
theorem forall_mem_set_iff {P : L → Prop} {good : Prop} {ls : List L} {i : Nat} {l l' : L}
    (h : ls[i]? = some l) (hmove : P l' ↔ P l ∧ good) :
    (∀ x ∈ ls.set i l', P x) ↔ (∀ x ∈ ls, P x) ∧ good := by
  induction ls generalizing i with
  | nil => simp at h
  | cons head rest ih =>
      cases i with
      | zero =>
          have hhead : head = l := by simpa using h
          subst hhead
          rw [List.set_cons_zero, List.forall_mem_cons, List.forall_mem_cons, hmove]
          exact and_right_comm
      | succ i =>
          have htail := ih (i := i) (by simpa using h)
          rw [List.set_cons_succ, List.forall_mem_cons, List.forall_mem_cons, htail]
          exact and_assoc.symm

/-- Pointwise smaller weights sum smaller. -/
theorem tally_mono {f g : L → Nat} (hle : ∀ x, f x ≤ g x) (ls : List L) :
    tally f ls ≤ tally g ls := by
  induction ls with
  | nil => simp
  | cons x xs ih => have := hle x; rw [tally_cons, tally_cons]; omega

/-- Pointwise smaller weights, strictly so on one process, sum strictly
smaller. -/
theorem tally_add_one_le {f g : L → Nat} {ls : List L} {l : L} (h : l ∈ ls)
    (hle : ∀ x, f x ≤ g x) (hlt : f l + 1 ≤ g l) : tally f ls + 1 ≤ tally g ls := by
  induction ls with
  | nil => simp at h
  | cons head rest ih =>
      rw [tally_cons, tally_cons]
      cases List.mem_cons.mp h with
      | inl heq => subst heq; have := tally_mono hle rest; omega
      | inr hmem => have := ih hmem; have := hle head; omega

/-! ## A counting semaphore

`acquire` takes a permit or joins the waiters; `release` hands its permit to a
waiter if there is one.  Which waiter is woken is left open: `granted` counts the
waiters that were woken and have not run yet, and any waiting process may be the
one that `resume`s.  A canceled wait leaves without a permit. -/

/-- A counting semaphore shared by the processes: permits nobody waits for,
processes parked and not woken, processes woken that have not run yet. -/
structure Semaphore where
  permits : Nat
  waiters : Nat
  granted : Nat
  deriving DecidableEq, Repr, Inhabited

namespace Semaphore

/-- Take a permit, or park (`false`). -/
def acquire (m : Semaphore) : Semaphore × Bool :=
  if 0 < m.permits then ({ m with permits := m.permits - 1 }, true)
  else ({ m with waiters := m.waiters + 1 }, false)

/-- Wake one waiter, or add a permit. -/
def release (m : Semaphore) : Semaphore :=
  if 0 < m.waiters then { m with waiters := m.waiters - 1, granted := m.granted + 1 }
  else { m with permits := m.permits + 1 }

/-- A woken waiter runs. -/
def resume (m : Semaphore) : Option Semaphore :=
  if 0 < m.granted then some { m with granted := m.granted - 1 } else none

/-- A waiter that was not woken gives up. -/
def cancel (m : Semaphore) : Option Semaphore :=
  if 0 < m.waiters then some { m with waiters := m.waiters - 1 } else none

/-- Nobody waits while a permit is available. -/
def NoIdlePermit (m : Semaphore) : Prop := 0 < m.permits → m.waiters = 0

theorem acquire_cases (m : Semaphore) :
    (0 < m.permits ∧ m.acquire = ({ m with permits := m.permits - 1 }, true)) ∨
    (m.permits = 0 ∧ m.acquire = ({ m with waiters := m.waiters + 1 }, false)) := by
  unfold acquire
  split
  · exact Or.inl ⟨‹_›, rfl⟩
  · exact Or.inr ⟨by omega, rfl⟩

theorem release_cases (m : Semaphore) :
    (0 < m.waiters ∧
      m.release = { m with waiters := m.waiters - 1, granted := m.granted + 1 }) ∨
    (m.waiters = 0 ∧ m.release = { m with permits := m.permits + 1 }) := by
  unfold release
  split
  · exact Or.inl ⟨‹_›, rfl⟩
  · exact Or.inr ⟨by omega, rfl⟩

theorem resume_eq_some {m m' : Semaphore} (h : m.resume = some m') :
    0 < m.granted ∧ m' = { m with granted := m.granted - 1 } := by
  unfold resume at h
  split at h
  · exact ⟨‹_›, (Option.some.inj h).symm⟩
  · cases h

theorem cancel_eq_some {m m' : Semaphore} (h : m.cancel = some m') :
    0 < m.waiters ∧ m' = { m with waiters := m.waiters - 1 } := by
  unfold cancel at h
  split at h
  · exact ⟨‹_›, (Option.some.inj h).symm⟩
  · cases h

end Semaphore

end Upq.Foundation
