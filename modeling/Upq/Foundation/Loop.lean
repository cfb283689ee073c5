/-
  Foundation/Loop.lean --- loops that may not end.

  A loop runs its body on a state until the body leaves with a result.  `loop` runs it for a
  bounded number of turns; the loop ends if some bound is enough.  `ends_of_measure` is the
  rule for loops that end, `not_ends_of_invariant` for those that do not, and
  `loop_invariant` says what holds when a loop is left.
-/
import Mathlib.Data.Option.Basic

set_option autoImplicit false

namespace Upq.Foundation

variable {σ β : Type*} {body : σ → σ ⊕ β}

/-- At most `fuel` turns of the loop: the body goes on with a state or leaves with a result. -/
def loop (body : σ → σ ⊕ β) : Nat → σ → Option β
  | 0, _ => none
  | fuel + 1, s =>
      match body s with
      | .inl s' => loop body fuel s'
      | .inr b => some b

/-- The loop ends. -/
def Ends (body : σ → σ ⊕ β) (s : σ) : Prop := ∃ fuel, (loop body fuel s).isSome = true

theorem loop_of_inl {s s' : σ} (h : body s = .inl s') (fuel : Nat) :
    loop body (fuel + 1) s = loop body fuel s' := by
  rw [loop, h]

theorem loop_of_inr {s : σ} {b : β} (h : body s = .inr b) (fuel : Nat) :
    loop body (fuel + 1) s = some b := by
  rw [loop, h]

/-- **Leaving.**  What holds before the loop and is kept by every turn that goes on holds when
the loop is left. -/
theorem loop_invariant (inv : σ → Prop) (hstep : ∀ s s', inv s → body s = .inl s' → inv s')
    {fuel : Nat} {s : σ} {b : β} (hs : inv s) (h : loop body fuel s = some b) :
    ∃ t, inv t ∧ body t = .inr b := by
  induction fuel generalizing s with
  | zero => cases h
  | succ fuel ih =>
      cases hbody : body s with
      | inl s' =>
          rw [loop_of_inl hbody] at h
          exact ih (hstep s s' hs hbody) h
      | inr b' =>
          rw [loop_of_inr hbody] at h
          cases h
          exact ⟨s, hs, hbody⟩

/-- **Ending.**  Every turn that goes on makes the measure smaller. -/
theorem ends_of_measure (inv : σ → Prop) (measure : σ → Nat)
    (hstep : ∀ s s', inv s → body s = .inl s' → inv s' ∧ measure s' < measure s) {s : σ}
    (hs : inv s) : Ends body s := by
  suffices h : ∀ n s, inv s → measure s < n → (loop body n s).isSome = true from
    ⟨measure s + 1, h _ s hs (Nat.lt_succ_self _)⟩
  intro n
  induction n with
  | zero => exact fun s _ h => absurd h (Nat.not_lt_zero _)
  | succ n ih =>
      intro s hs hlt
      cases hbody : body s with
      | inl s' =>
          obtain ⟨hs', hless⟩ := hstep s s' hs hbody
          rw [loop_of_inl hbody]
          exact ih s' hs' (by omega)
      | inr b =>
          rw [loop_of_inr hbody]
          rfl

/-- **Not ending.**  As long as the invariant holds the body goes on, and it keeps it. -/
theorem not_ends_of_invariant (inv : σ → Prop)
    (hstep : ∀ s, inv s → ∃ s', body s = .inl s' ∧ inv s') {s : σ} (hs : inv s) (fuel : Nat) : loop body fuel s = none := by
  induction fuel generalizing s with
  | zero => rfl
  | succ fuel ih =>
      obtain ⟨s', hbody, hs'⟩ := hstep s hs
      rw [loop_of_inl hbody]
      exact ih hs'

end Upq.Foundation
