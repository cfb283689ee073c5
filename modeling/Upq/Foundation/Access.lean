/-
  Foundation/Access.lean --- computations that index a buffer.

  `Reads α` is a value together with the indices of the buffer that were evaluated on the
  way to it, in order.  Whether all of them are below the length of the buffer
  (`InBounds`) is asked of the parts of a computation one by one: the lemmas below are
  the rules for `pure`, `>>=`, one element and a run of elements behind an address.
-/
import Mathlib.Data.List.Basic

set_option autoImplicit false

namespace Upq.Foundation.Access

/-- A value and the indices evaluated for it. -/
structure Reads (α : Type) where
  value : α
  indices : List Nat
  deriving DecidableEq, Repr

instance : Monad Reads where
  pure a := ⟨a, []⟩
  bind x f := ⟨(f x.value).value, x.indices ++ (f x.value).indices⟩

section

variable {α β : Type}

/-- `buf[k]` -/
def elem (buf : List α) (k : Nat) (default : α) : Reads α := ⟨buf.getD k default, [k]⟩

/-- The `len` elements read through the address `&buf[start]`, which is an access even when
`len` is zero. -/
def span (buf : List α) (start len : Nat) : Reads (List α) :=
  ⟨(buf.drop start).take len, start :: List.range' start len⟩

@[simp] theorem value_pure (a : α) : (pure a : Reads α).value = a := rfl

@[simp] theorem value_bind (x : Reads α) (f : α → Reads β) :
    (x >>= f).value = (f x.value).value := rfl

@[simp] theorem value_elem (buf : List α) (k : Nat) (default : α) :
    (elem buf k default).value = buf.getD k default := rfl

@[simp] theorem value_span (buf : List α) (start len : Nat) :
    (span buf start len).value = (buf.drop start).take len := rfl

/-! ## Staying in bounds -/

/-- Every index is below the length `n`. -/
def InBounds (n : Nat) (x : Reads α) : Prop := ∀ k ∈ x.indices, k < n

@[simp] theorem inBounds_pure (n : Nat) (a : α) : InBounds n (pure a : Reads α) :=
  fun _ hk => absurd hk (List.not_mem_nil)

@[simp] theorem inBounds_bind (n : Nat) (x : Reads α) (f : α → Reads β) :
    InBounds n (x >>= f) ↔ InBounds n x ∧ InBounds n (f x.value) :=
  List.forall_mem_append

@[simp] theorem inBounds_elem (n : Nat) (buf : List α) (k : Nat) (default : α) :
    InBounds n (elem buf k default) ↔ k < n :=
  List.forall_mem_singleton

@[simp] theorem inBounds_span (n : Nat) (buf : List α) (start len : Nat) :
    InBounds n (span buf start len) ↔ start < n ∧ start + len ≤ n := by
  have hrun : (∀ k ∈ List.range' start len, k < n) ↔ len = 0 ∨ start + len ≤ n := by
    constructor
    · intro h
      rcases Nat.eq_zero_or_pos len with hzero | hpos
      · exact .inl hzero
      · have hlast := h (start + len - 1) (List.mem_range'_1.mpr (by omega))
        omega
    · intro h k hk
      have := List.mem_range'_1.mp hk
      omega
  change (∀ k ∈ start :: List.range' start len, k < n) ↔ _
  rw [List.forall_mem_cons, hrun]
  omega

end

end Upq.Foundation.Access
