/-
  Foundation/Machine.lean --- runs of a deterministic machine with partial steps.

  A machine is a step function `step : σ → ε → Option σ`: the event carries
  every choice the environment makes, and `none` says the event is impossible in
  that state.  `exec` folds a list of events.  The induction rules below are
  the only way the developments above reason about whole runs: a property kept
  by every step is kept by every run, and a property kept by every step that
  meets a side condition is kept by every run all of whose steps meet it.
-/
import Mathlib.Algebra.Order.Ring.Int
import Mathlib.Data.List.Basic

set_option autoImplicit false

namespace Upq.Foundation

variable {σ ε : Type}

/-- Run a list of events; `none` as soon as one of them is impossible. -/
def exec (step : σ → ε → Option σ) : σ → List ε → Option σ
  | s, [] => some s
  | s, e :: es =>
      match step s e with
      | none => none
      | some s' => exec step s' es

@[simp] theorem exec_nil (step : σ → ε → Option σ) (s : σ) :
    exec step s [] = some s := rfl

/-- A step that is taken. -/
theorem exec_cons_of_step {step : σ → ε → Option σ} {s s' : σ} {e : ε} (h : step s e = some s')
    (es : List ε) : exec step s (e :: es) = exec step s' es := by
  rw [exec, h]

/-- A nonempty run is a step followed by a run. -/
theorem exec_cons_eq_some {step : σ → ε → Option σ} {s t : σ} {e : ε} {es : List ε} :
    exec step s (e :: es) = some t ↔
      ∃ s', step s e = some s' ∧ exec step s' es = some t := by
  cases h : step s e with
  | none => simp [exec, h]
  | some s' => simp [exec, h]

/-- A run in two parts. -/
theorem exec_append (step : σ → ε → Option σ) (s : σ) (as bs : List ε) :
    exec step s (as ++ bs) = (exec step s as).bind fun m => exec step m bs := by
  induction as generalizing s with
  | nil => rfl
  | cons e as ih =>
      rw [List.cons_append, exec, exec]
      cases step s e with
      | none => rfl
      | some s' => exact ih s'

/-- Every step of the run meets `guard` in the state it starts from. -/
def Guarded (step : σ → ε → Option σ) (guard : σ → ε → Prop) : σ → List ε → Prop
  | _, [] => True
  | s, e :: es => guard s e ∧ ∀ s', step s e = some s' → Guarded step guard s' es

instance decidableGuarded {step : σ → ε → Option σ} {guard : σ → ε → Prop}
    [∀ s e, Decidable (guard s e)] : ∀ (es : List ε) (s : σ), Decidable (Guarded step guard s es)
  | [], _ => isTrue trivial
  | e :: es, s =>
      match h : step s e with
      | none => decidable_of_iff (guard s e) (by simp [Guarded, h])
      | some s' =>
          have : Decidable (Guarded step guard s' es) := decidableGuarded es s'
          decidable_of_iff (guard s e ∧ Guarded step guard s' es) (by simp [Guarded, h])

/-- A condition on events alone, met by each of them. -/
theorem guarded_of_forall {step : σ → ε → Option σ} {P : ε → Prop} {es : List ε}
    (h : ∀ e ∈ es, P e) (s : σ) : Guarded step (fun _ e => P e) s es := by
  induction es generalizing s with
  | nil => trivial
  | cons e es ih =>
      exact ⟨h e List.mem_cons_self, fun s' _ =>
        ih (fun d hd => h d (List.mem_cons_of_mem _ hd)) s'⟩

/-- Two guards at once. -/
theorem guarded_and {step : σ → ε → Option σ} {guard guard' : σ → ε → Prop} {es : List ε} {s : σ}
    (h : Guarded step guard s es) (h' : Guarded step guard' s es) :
    Guarded step (fun s e => guard s e ∧ guard' s e) s es := by
  induction es generalizing s with
  | nil => trivial
  | cons e es ih => exact ⟨⟨h.1, h'.1⟩, fun s' hs' => ih (h.2 s' hs') (h'.2 s' hs')⟩

/-- **Run rule.**  What every guarded step preserves, every guarded run
preserves. -/
theorem exec_invariant_of_guarded {step : σ → ε → Option σ} {guard : σ → ε → Prop}
    (inv : σ → Prop)
    (hstep : ∀ s e s', inv s → guard s e → step s e = some s' → inv s') :
    ∀ (es : List ε) (s t : σ), inv s → Guarded step guard s es →
      exec step s es = some t → inv t := by
  intro es
  induction es with
  | nil =>
      intro s t hs _ h
      rw [exec_nil] at h
      exact Option.some.inj h ▸ hs
  | cons e es ih =>
      intro s t hs hg h
      obtain ⟨s', hfirst, hrest⟩ := exec_cons_eq_some.mp h
      exact ih s' t (hstep s e s' hs hg.1 hfirst) (hg.2 s' hfirst) hrest

/-- **Run rule, unguarded.**  What every step preserves, every run preserves. -/
theorem exec_invariant {step : σ → ε → Option σ} (inv : σ → Prop)
    (hstep : ∀ s e s', inv s → step s e = some s' → inv s')
    {es : List ε} {s t : σ} (hs : inv s) (h : exec step s es = some t) : inv t := by
  induction es generalizing s with
  | nil =>
      rw [exec_nil] at h
      exact Option.some.inj h ▸ hs
  | cons e es ih =>
      obtain ⟨s', hfirst, hrest⟩ := exec_cons_eq_some.mp h
      exact ih (hstep s e s' hs hfirst) hrest

/-- What every step appends to a history, a run appends in its order. -/
theorem exec_appends {α : Type*} {step : σ → ε → Option σ} (inv : σ → Prop)
    (history : σ → List α) (emit : ε → List α)
    (hinv : ∀ s e s', inv s → step s e = some s' → inv s')
    (hstep : ∀ s e s', inv s → step s e = some s' → history s' = history s ++ emit e)
    {es : List ε} {s t : σ} (hs : inv s) (h : exec step s es = some t) :
    history t = history s ++ es.flatMap emit := by
  induction es generalizing s with
  | nil =>
      rw [exec_nil] at h
      rw [List.flatMap_nil, List.append_nil, Option.some.inj h]
  | cons e es ih =>
      obtain ⟨s', hs', hrun⟩ := exec_cons_eq_some.mp h
      rw [ih (hinv s e s' hs hs') hrun, hstep s e s' hs hs', List.flatMap_cons,
        List.append_assoc]

/-- **Run rule, both ways.**  If each step keeps `good` exactly when it meets `guard`,
then a run ends well exactly when it started well and all its steps meet `guard`. -/
theorem exec_iff_guarded {step : σ → ε → Option σ} {guard : σ → ε → Prop} {inv good : σ → Prop}
    (hinv : ∀ s e s', inv s → step s e = some s' → inv s')
    (hgood : ∀ s e s', inv s → step s e = some s' → (good s' ↔ good s ∧ guard s e))
    {es : List ε} {s t : σ} (hs : inv s) (h : exec step s es = some t) :
    good t ↔ good s ∧ Guarded step guard s es := by
  induction es generalizing s with
  | nil =>
      rw [exec_nil] at h
      simp [Option.some.inj h, Guarded]
  | cons e es ih =>
      obtain ⟨s', hfirst, hrest⟩ := exec_cons_eq_some.mp h
      rw [ih (hinv s e s' hs hfirst) hrest, hgood s e s' hs hfirst, and_assoc]
      simp [Guarded, hfirst]

/-! ## Counting along a run -/

/-- The sum of a weight over the steps of a run. -/
def total (step : σ → ε → Option σ) (weight : σ → ε → Nat) : σ → List ε → Nat
  | _, [] => 0
  | s, e :: es =>
      match step s e with
      | none => 0
      | some s' => weight s e + total step weight s' es

theorem total_add (step : σ → ε → Option σ) (w w' : σ → ε → Nat) (s : σ) (es : List ε) :
    total step (fun s e => w s e + w' s e) s es = total step w s es + total step w' s es := by
  induction es generalizing s with
  | nil => rfl
  | cons e es ih =>
      simp only [total]
      cases step s e with
      | none => rfl
      | some s' =>
          simp only [ih]
          omega

/-- A weight that depends on the events alone. -/
theorem total_eq_sum {step : σ → ε → Option σ} {s t : σ} {es : List ε}
    (h : exec step s es = some t) (weight : ε → Nat) :
    total step (fun _ e => weight e) s es = (es.map weight).sum := by
  induction es generalizing s with
  | nil => rfl
  | cons e es ih =>
      obtain ⟨s', hfirst, hrest⟩ := exec_cons_eq_some.mp h
      simp only [total, hfirst, ih hrest, List.map_cons, List.sum_cons]

/-- **Balance rule.**  A number that every step changes by what it gains and loses is, after
a run, what the run gained less what it lost. -/
theorem exec_balance {step : σ → ε → Option σ} (inv : σ → Prop) (f : σ → Nat)
    (gain loss : σ → ε → Nat) (hinv : ∀ s e s', inv s → step s e = some s' → inv s')
    (hstep : ∀ s e s', inv s → step s e = some s' → f s' + loss s e = f s + gain s e)
    {es : List ε} {s t : σ} (hs : inv s) (h : exec step s es = some t) :
    f t + total step loss s es = f s + total step gain s es := by
  induction es generalizing s with
  | nil =>
      rw [exec_nil] at h
      obtain rfl := Option.some.inj h
      rfl
  | cons e es ih =>
      obtain ⟨s', hfirst, hrest⟩ := exec_cons_eq_some.mp h
      have hbalance := hstep s e s' hs hfirst
      have hlater := ih (hinv s e s' hs hfirst) hrest
      simp only [total, hfirst]
      omega

/-- **Growth rule.**  A number that no step raises by more than a weight of that step is
raised by no run by more than its total. -/
theorem exec_growth {step : σ → ε → Option σ} (f : σ → Nat) (gain : σ → ε → Nat)
    (hstep : ∀ s e s', step s e = some s' → f s' ≤ f s + gain s e)
    {es : List ε} {s t : σ} (h : exec step s es = some t) :
    f t ≤ f s + total step gain s es := by
  induction es generalizing s with
  | nil =>
      rw [exec_nil] at h
      rw [Option.some.inj h]
      exact Nat.le_add_right _ _
  | cons e es ih =>
      obtain ⟨s', hfirst, hrest⟩ := exec_cons_eq_some.mp h
      have hgrows := hstep s e s' hfirst
      have hlater := ih hrest
      simp only [total, hfirst]
      omega

/-! ## Total steps -/

/-- **Run rule for total steps, at every point.**  If a step from a good state keeps
`good` exactly when it meets `guard`, then a sequence passes through good states only
exactly when all its steps meet `guard`. -/
theorem foldl_iff_guarded {step : σ → ε → σ} {guard : σ → ε → Prop} {inv good : σ → Prop}
    (hstep : ∀ s e, inv s → good s → inv (step s e) ∧ (good (step s e) ↔ guard s e))
    (es : List ε) {s : σ} (hs : inv s) (hgood : good s) :
    (∀ n, good ((es.take n).foldl step s)) ↔
      ∀ n e, es[n]? = some e → guard ((es.take n).foldl step s) e := by
  induction es generalizing s with
  | nil => simp [hgood]
  | cons e es ih =>
      obtain ⟨hinv, hkept⟩ := hstep s e hs hgood
      constructor
      · intro h n d hd
        have hnext : good (step s e) := by simpa using h 1
        cases n with
        | zero =>
            cases hd
            exact hkept.mp hnext
        | succ n => exact (ih hinv hnext).mp (fun n => h (n + 1)) n d hd
      · intro h n
        have hnext : good (step s e) := hkept.mpr (h 0 e rfl)
        cases n with
        | zero => exact hgood
        | succ n => exact (ih hinv hnext).mpr (fun n d hd => h (n + 1) d hd) n

/-! ## Machines that read a text -/

/-- **Copying rule.**  If the spelling of one element makes the machine hold that element
behind those it holds, the spelling of a list makes it hold the list. -/
theorem foldlM_flatMap_of_hold {α : Type} {step : σ → ε → Option σ} {hold : List α → σ}
    {spell : α → List ε} {xs : List α}
    (h : ∀ x ∈ xs, ∀ held, (spell x).foldlM step (hold held) = some (hold (held ++ [x])))
    (held : List α) :
    (xs.flatMap spell).foldlM step (hold held) = some (hold (held ++ xs)) := by
  induction xs generalizing held with
  | nil => simp
  | cons x xs ih =>
      have hrest := ih (fun y hy => h y (List.mem_cons_of_mem x hy)) (held ++ [x])
      rw [List.append_assoc, List.singleton_append] at hrest
      rw [List.flatMap_cons, List.foldlM_append, h x List.mem_cons_self held]
      exact hrest

/-- **Copying rule, letter by letter.** -/
theorem foldlM_of_hold {step : σ → ε → Option σ} {hold : List ε → σ} {es : List ε}
    (h : ∀ e ∈ es, ∀ held, step (hold held) e = some (hold (held ++ [e]))) (held : List ε) :
    es.foldlM step (hold held) = some (hold (held ++ es)) := by
  have hspell : ∀ e ∈ es, ∀ held, [e].foldlM step (hold held) = some (hold (held ++ [e])) := by
    intro e he held
    rw [List.foldlM_cons, h e he held]
    rfl
  simpa using foldlM_flatMap_of_hold hspell held

end Upq.Foundation
