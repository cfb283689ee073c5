/-
  Foundation/Pull.lean --- sequences that are pulled one item at a time.

  A `Pull` is an object with a `next` that answers an item or nothing, and a `close`.
  It carries its abstraction: `items` is what is still to come, and the two laws say
  that `next` answers the first of these and leaves the others.  An object whose
  `items` are empty stays so, and answers nothing from then on.

  A loop over an object calls `next` once for each item and once more.  `fold_eq` is the
  rule for loops that consume everything, `seek_spec` for loops that stop at an item.
-/
import Mathlib.Data.List.Basic

set_option autoImplicit false

namespace Upq.Foundation

/-- An object that is pulled, with what it still gives. -/
structure Pull (α : Type) where
  State : Type
  next : State → Option α × State
  close : State → State
  items : State → List α
  next_fst : ∀ s, (next s).1 = (items s).head?
  next_snd : ∀ s, items (next s).2 = (items s).tail

namespace Pull

variable {α β : Type} (S : Pull α)

theorem next_of_nil {s : S.State} (h : S.items s = []) :
    ∃ s', S.next s = (none, s') ∧ S.items s' = [] := by
  refine ⟨(S.next s).2, Prod.ext ?_ rfl, ?_⟩
  · rw [S.next_fst, h]
    rfl
  · rw [S.next_snd, h]
    rfl

theorem next_of_cons {s : S.State} {a : α} {as : List α} (h : S.items s = a :: as) :
    ∃ s', S.next s = (some a, s') ∧ S.items s' = as := by
  refine ⟨(S.next s).2, Prod.ext ?_ rfl, ?_⟩
  · rw [S.next_fst, h]
    rfl
  · rw [S.next_snd, h]
    rfl

/-! ## Consuming everything -/

/-- `while (v = next()) acc = f(acc, v)`, with at most `fuel` calls. -/
def foldLoop (f : β → α → β) : Nat → β → S.State → β × S.State
  | 0, acc, s => (acc, s)
  | fuel + 1, acc, s =>
      match S.next s with
      | (none, s) => (acc, s)
      | (some a, s) => foldLoop f fuel (f acc a) s

/-- The loop over all items. -/
def fold (f : β → α → β) (acc : β) (s : S.State) : β × S.State :=
  S.foldLoop f ((S.items s).length + 1) acc s

/-- More calls than there are items never run out. -/
theorem foldLoop_eq (f : β → α → β) (fuel : Nat) (acc : β) (s : S.State)
    (h : (S.items s).length < fuel) :
    (S.foldLoop f fuel acc s).1 = (S.items s).foldl f acc ∧
      S.items (S.foldLoop f fuel acc s).2 = [] := by
  induction fuel generalizing acc s with
  | zero => exact absurd h (Nat.not_lt_zero _)
  | succ fuel ih =>
      rw [foldLoop]
      cases hitems : S.items s with
      | nil =>
          obtain ⟨s', hnext, hleft⟩ := S.next_of_nil hitems
          rw [hnext]
          exact ⟨rfl, hleft⟩
      | cons a as =>
          obtain ⟨s', hnext, rfl⟩ := S.next_of_cons hitems
          rw [hitems, List.length_cons] at h
          rw [hnext, List.foldl_cons]
          exact ih (f acc a) s' (Nat.lt_of_succ_lt_succ h)

theorem fold_eq (f : β → α → β) (acc : β) (s : S.State) :
    (S.fold f acc s).1 = (S.items s).foldl f acc :=
  (S.foldLoop_eq f _ acc s (Nat.lt_succ_self _)).1

/-! ## Looking for an item -/

/-- `for (;;) { v = next(); if (!v) return none; if (p(v)) return v; }`, with at most
`fuel` calls. -/
def seekLoop (p : α → Bool) : Nat → S.State → Option α × S.State
  | 0, s => (none, s)
  | fuel + 1, s =>
      match S.next s with
      | (none, s) => (none, s)
      | (some a, s) => if p a then (some a, s) else seekLoop p fuel s

/-- The loop to the first item that fits. -/
def seek (p : α → Bool) (s : S.State) : Option α × S.State :=
  S.seekLoop p ((S.items s).length + 1) s

theorem seekLoop_spec (p : α → Bool) (fuel : Nat) (s : S.State)
    (h : (S.items s).length < fuel) :
    (S.seekLoop p fuel s).1 = ((S.items s).filter p).head? ∧
      (S.items (S.seekLoop p fuel s).2).filter p = ((S.items s).filter p).tail := by
  induction fuel generalizing s with
  | zero => exact absurd h (Nat.not_lt_zero _)
  | succ fuel ih =>
      rw [seekLoop]
      cases hitems : S.items s with
      | nil =>
          obtain ⟨s', hnext, hleft⟩ := S.next_of_nil hitems
          rw [hnext]
          exact ⟨rfl, congrArg (List.filter p) hleft⟩
      | cons a as =>
          obtain ⟨s', hnext, rfl⟩ := S.next_of_cons hitems
          rw [hnext]
          dsimp only
          cases hp : p a with
          | true =>
              rw [if_pos rfl, List.filter_cons_of_pos hp]
              exact ⟨rfl, rfl⟩
          | false =>
              rw [hitems, List.length_cons] at h
              rw [if_neg Bool.false_ne_true, List.filter_cons_of_neg (ne_true_of_eq_false hp)]
              exact ih s' (Nat.lt_of_succ_lt_succ h)

/-- What the search answers and leaves, as far as fitting items go. -/
theorem seek_spec (p : α → Bool) (s : S.State) :
    (S.seek p s).1 = ((S.items s).filter p).head? ∧
      (S.items (S.seek p s).2).filter p = ((S.items s).filter p).tail :=
  S.seekLoop_spec p _ s (Nat.lt_succ_self _)

end Pull

end Upq.Foundation
