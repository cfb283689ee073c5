/-
  Foundation/Savepoint.lean --- a state with named savepoints, and scopes that use them.

  A savepoint keeps the state of the moment it was set.  Releasing a name or rolling back
  to it finds the savepoint of that name set last; the ones set after it go, and a rollback
  keeps the savepoint itself.

  `Within` relates the scopes that are open, innermost first, to the savepoints there are.
  Each scope owns one savepoint, in the same order.  The others are left over from scopes
  that ended without a release, and none of them has the name of a scope that is open
  outside it, so a name always finds its scope's own savepoint.
-/
import Mathlib.Data.List.Basic

set_option autoImplicit false

namespace Upq.Foundation.Savepoint

/-- A state with savepoints, innermost first. -/
structure Undo (ν σ : Type) where
  state : σ
  saves : List (ν × σ)
  deriving DecidableEq, Repr

variable {ν σ : Type}

/-- Set a savepoint. -/
def Undo.save (u : Undo ν σ) (n : ν) : Undo ν σ := { u with saves := (n, u.state) :: u.saves }

/-- The savepoints from the innermost one called `n` on. -/
def since [DecidableEq ν] (n : ν) (saves : List (ν × σ)) : List (ν × σ) :=
  saves.dropWhile fun p => p.1 ≠ n

/-- Forget a savepoint and the ones set after it. -/
def Undo.release [DecidableEq ν] (u : Undo ν σ) (n : ν) : Undo ν σ :=
  { u with saves := (since n u.saves).tail }

/-- Go back to a savepoint, which stays. -/
def Undo.rollbackTo [DecidableEq ν] (u : Undo ν σ) (n : ν) : Undo ν σ :=
  match since n u.saves with
  | [] => u
  | p :: rest => { state := p.2, saves := p :: rest }

/-- The open scopes, with the states they began in, and the savepoints. -/
inductive Within : List (ν × σ) → List (ν × σ) → Prop where
  -- every savepoint is left over
  | none (saves : List (ν × σ)) : Within [] saves
  -- the innermost savepoint is the innermost scope's
  | own {n : ν} {s : σ} {scopes saves : List (ν × σ)} (hn : n ∉ scopes.map Prod.fst)
      (h : Within scopes saves) : Within ((n, s) :: scopes) ((n, s) :: saves)
  -- the innermost savepoint is left over
  | left {p : ν × σ} {scopes saves : List (ν × σ)} (hp : p.1 ∉ scopes.map Prod.fst)
      (h : Within scopes saves) : Within scopes (p :: saves)

variable {n : ν} {s : σ} {scopes saves : List (ν × σ)} {u : Undo ν σ}

/-- A scope begins with its own savepoint. -/
theorem Within.save (hn : n ∉ scopes.map Prod.fst) (h : Within scopes u.saves) :
    Within ((n, u.state) :: scopes) (u.save n).saves :=
  .own hn h

/-- The innermost scope ends and its savepoint is left. -/
theorem Within.pop (h : Within ((n, s) :: scopes) saves) : Within scopes saves := by
  generalize hall : (n, s) :: scopes = all at h
  induction h with
  | none _ => cases hall
  | own hn h _ =>
      cases hall
      exact .left hn h
  | left hp _ ih =>
      subst hall
      refine .left ?_ (ih rfl)
      exact fun hmem => hp (List.mem_cons_of_mem _ hmem)

variable [DecidableEq ν]

/-- A name finds the savepoint of the innermost scope. -/
theorem Within.since_eq (h : Within ((n, s) :: scopes) saves) :
    n ∉ scopes.map Prod.fst ∧ ∃ rest, since n saves = (n, s) :: rest ∧ Within scopes rest := by
  generalize hall : (n, s) :: scopes = all at h
  induction h with
  | none _ => cases hall
  | own hn h _ =>
      cases hall
      exact ⟨hn, _, by simp [since], h⟩
  | @left p _ saves hp _ ih =>
      subst hall
      obtain ⟨hn, rest, hrest, hwithin⟩ := ih rfl
      have hne : p.1 ≠ n := by
        intro heq
        simp [heq] at hp
      have hskip : since n (p :: saves) = since n saves := by simp [since, hne]
      exact ⟨hn, rest, hskip.trans hrest, hwithin⟩

/-- The innermost scope ends with a release of its savepoint. -/
theorem Within.release (h : Within ((n, s) :: scopes) u.saves) :
    Within scopes (u.release n).saves := by
  obtain ⟨-, rest, hrest, hwithin⟩ := h.since_eq
  rw [Undo.release, hrest]
  exact hwithin

/-- **Rollback of a scope.**  It brings back the state in which the scope began. -/
theorem Within.rollbackTo (h : Within ((n, s) :: scopes) u.saves) :
    (u.rollbackTo n).state = s ∧ Within scopes (u.rollbackTo n).saves := by
  obtain ⟨hn, rest, hrest, hwithin⟩ := h.since_eq
  rw [Undo.rollbackTo, hrest]
  exact ⟨rfl, .left hn hwithin⟩

end Upq.Foundation.Savepoint
