/-
  Foundation/Reconcile.lean --- a set that follows another one through a queue of changes.

  `want` is a set that is changed at once, `got` a copy of it that is changed only by
  working off a queue of changes (`(a, true)` puts `a` in, `(a, false)` takes it out).
  A change may be dropped when it no longer says what `want` says.

  `Covered` is what a correct queue keeps: for every element, either the queue still
  holds the change that is needed now, or the copy is right about it.  It does not
  mention the order of the queue, so a change may be put back at either end.
-/
import Mathlib.Data.Set.Basic

set_option autoImplicit false

namespace Upq.Foundation.Reconcile

variable {α : Type} {queue : List (α × Bool)} {want want' got got' : Set α} {a : α} {on : Bool}

/-- The queue holds, for every element the copy is wrong about, the change it needs. -/
def Covered (queue : List (α × Bool)) (want got : Set α) : Prop :=
  ∀ a, (∃ on, (a, on) ∈ queue ∧ (on = true ↔ a ∈ want)) ∨ (a ∈ got ↔ a ∈ want)

/-- The sets agree on everything but `a`. -/
def AgreeOff (a : α) (s t : Set α) : Prop := ∀ b, b ≠ a → (b ∈ s ↔ b ∈ t)

theorem AgreeOff.refl (a : α) (s : Set α) : AgreeOff a s s := fun _ _ => Iff.rfl

theorem covered_self (queue : List (α × Bool)) (want : Set α) : Covered queue want want :=
  fun _ => Or.inr Iff.rfl

/-- Coverage of the elements other than `a`, for sets changed at `a` only. -/
theorem Covered.off (h : Covered queue want got) (hwant : AgreeOff a want' want)
    (hgot : AgreeOff a got' got) {b : α} (hb : b ≠ a) :
    (∃ on, (b, on) ∈ queue ∧ (on = true ↔ b ∈ want')) ∨ (b ∈ got' ↔ b ∈ want') := by
  have hcov := h b
  rwa [← hwant b hb, ← hgot b hb] at hcov

/-- `want` changes at `a` and the change is queued. -/
theorem Covered.push (h : Covered queue want got) (hwant : AgreeOff a want' want)
    (hon : on = true ↔ a ∈ want') : Covered (queue ++ [(a, on)]) want' got := by
  intro b
  by_cases hb : b = a
  · subst hb
    exact Or.inl ⟨on, by simp, hon⟩
  · cases h.off hwant (AgreeOff.refl a got) hb with
    | inl hin =>
        obtain ⟨on', hmem, hon'⟩ := hin
        exact Or.inl ⟨on', by simp [hmem], hon'⟩
    | inr hright => exact Or.inr hright

/-- `want` and the copy change at `a` together. -/
theorem Covered.both (h : Covered queue want got) (hwant : AgreeOff a want' want)
    (hgot : AgreeOff a got' got) (ha : a ∈ got' ↔ a ∈ want') : Covered queue want' got' := by
  intro b
  by_cases hb : b = a
  · subst hb
    exact Or.inr ha
  · exact h.off hwant hgot hb

/-- A change that `want` has overtaken is dropped. -/
theorem Covered.drop (h : Covered ((a, on) :: queue) want got) (hon : ¬(on = true ↔ a ∈ want)) :
    Covered queue want got := by
  intro b
  cases h b with
  | inl hin =>
      obtain ⟨on', hmem, hon'⟩ := hin
      cases List.mem_cons.mp hmem with
      | inl heq =>
          cases heq
          exact absurd hon' hon
      | inr hmem => exact Or.inl ⟨on', hmem, hon'⟩
  | inr hright => exact Or.inr hright

/-- A change that `want` agrees with is worked off. -/
theorem Covered.work (h : Covered ((a, on) :: queue) want got) (hon : on = true ↔ a ∈ want)
    (hgot : AgreeOff a got' got) (ha : a ∈ got' ↔ on = true) : Covered queue want got' := by
  intro b
  by_cases hb : b = a
  · subst hb
    exact Or.inr (ha.trans hon)
  · cases h.off (AgreeOff.refl a want) hgot hb with
    | inl hin =>
        obtain ⟨on', hmem, hon'⟩ := hin
        cases List.mem_cons.mp hmem with
        | inl heq =>
            cases heq
            exact absurd rfl hb
        | inr hmem => exact Or.inl ⟨on', hmem, hon'⟩
    | inr hright => exact Or.inr hright

/-- With nothing queued the copy is right. -/
theorem Covered.eq (h : Covered [] want got) : got = want := by
  ext b
  cases h b with
  | inl hin =>
      obtain ⟨on, hmem, -⟩ := hin
      cases hmem
  | inr hright => exact hright

end Upq.Foundation.Reconcile
