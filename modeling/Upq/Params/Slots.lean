/-
  Params/Slots.lean --- parameter slots: how many are counted, how many are filled.

  Source: `include/upq/PgParams.h`, `ParamSlices`, the `encode_one` family,
  `param_arity_impl`, `count_total_params`, `ParamBlock` and `send_query_params`.

  An argument type is a `Ty`; its values are ordinary Lean values, so that
  `encodeOne` recurses over a type with a value of it as the overloads do.  Filling a
  slot appends to `slots`, whose length is `count`; a slot filled beyond `capacity` is
  a write past the `ParamBlock`.

  `encode_one` goes all the way down into tuples, aggregates and optionals, while
  `param_arity` stops at the members of the outermost tuple or aggregate and counts an
  empty optional like a full one.  The two agree for the types whose `width`, a static
  count that goes as deep as the encoder, is the arity (`slots_match_iff`).
-/
import Upq.Params.ArrayText

set_option autoImplicit false

namespace Upq.Params

open Upq.ArrayText

/-! ## Slots -/

/-- One parameter as `PQsendQueryParams` gets it. -/
structure Slot where
  value : Option Bytes
  length : Nat
  format : Nat
  oid : Nat
  deriving DecidableEq, Repr

/-- `ParamSlices`; `count` is the number of slots filled. -/
structure ParamSlices where
  capacity : Nat
  slots : List Slot
  deriving DecidableEq, Repr

def ParamSlices.count (ps : ParamSlices) : Nat := ps.slots.length

/-- `put(next_slot(), ..)`.  `next_slot` asserts `count < capacity` (pg: more encoded
parameters than counted), which a release build leaves out. -/
def ParamSlices.put (ps : ParamSlices) (slot : Slot) : ParamSlices :=
  { ps with slots := ps.slots ++ [slot] }

/-- The slot of `set_null`. -/
def nullSlot : Slot := ⟨none, 0, 0, 0⟩

/-- The slot of `set_text_ref`, `set_text_typed`, `set_text` and `set_text_owned`. -/
def textSlot (text : Bytes) (oid : Nat) : Slot := ⟨some text, text.length, 0, oid⟩

/-- The slot of `set_bin_raw`. -/
def binSlot (data : Bytes) (oid : Nat) : Slot := ⟨some data, data.length, 1, oid⟩

/-- The low `n` bytes of an integer, most significant first: `to_be16`, `to_be32` and
`to_be64` of its conversion to a type of `n` bytes. -/
def bigEndian (n : Nat) (v : Int) : Bytes :=
  (List.range n).map fun i => UInt8.ofInt (v / 256 ^ (n - 1 - i))

/-! ## Argument types -/

/-- Types that take one slot.  `other` is what the last overload of `encode_one` takes,
as the text it makes of it. -/
inductive Leaf where
  | bool
  | integral (size : IntSize)
  | float
  | double
  | stringView
  | string
  | charPtr
  | enum (size : IntSize)
  | array (e : ElemTy)
  | optArray (e : ElemTy)
  | other
  deriving DecidableEq, Repr

/-- The values of a one-slot type; floating types by their bits, an `enum` by its
token, if it has one, and its number. -/
def Leaf.Val : Leaf → Type
  | .bool => Bool
  | .integral _ => Int
  | .float => UInt32
  | .double => UInt64
  | .stringView | .string | .other => Bytes
  | .charPtr => Option Bytes
  | .enum _ => Option Bytes × Int
  | .array e => List e.Val
  | .optArray e => List (Option e.Val)

/-- The bytes and the OID of an integral type on the wire. -/
def intWire : IntSize → Nat × Nat
  | .one | .two => (2, 21)
  | .four => (4, 23)
  | .eight => (8, 20)

/-- `pick_array_oid` -/
def pickArrayOid : ElemTy → Nat
  | .bool => 1000
  | .integral .one | .integral .two => 1005
  | .integral .four => 1007
  | .integral .eight => 1016
  | .float => 1021
  | .double => 1022
  | _ => 1009

/-- The slot of a one-slot value. -/
def Leaf.slot : (l : Leaf) → l.Val → Slot
  | .bool, v => binSlot [cond v 1 0] 16
  | .integral size, v => binSlot (bigEndian (intWire size).1 v) (intWire size).2
  | .float, v => binSlot (bigEndian 4 (UInt32.toNat v)) 700
  | .double, v => binSlot (bigEndian 8 (UInt64.toNat v)) 701
  | .stringView, v | .string, v | .other, v => textSlot v 0
  | .charPtr, v => Option.elim v nullSlot (textSlot · 0)
  | .enum size, (tok, n) =>
      tok.elim (binSlot (bigEndian (intWire size).1 n) (intWire size).2) (textSlot · 0)
  | .array e, v => textSlot (buildPgTextArrayLiteralAny (appendPgArrayElem e) v) (pickArrayOid e)
  | .optArray e, v =>
      textSlot (buildPgTextArrayLiteralAny (appendOptional (appendPgArrayElem e)) v)
        (pickArrayOid e)

/-- Argument types: `std::optional`, tuples, and reflected aggregates, which have at
least one member. -/
inductive Ty where
  | leaf (l : Leaf)
  | optional (t : Ty)
  | tuple (ts : List Ty)
  | aggregate (t : Ty) (ts : List Ty)

mutual

/-- The values of a type. -/
def Ty.Val : Ty → Type
  | .leaf l => l.Val
  | .optional t => Option t.Val
  | .tuple ts => Members ts
  | .aggregate t ts => t.Val × Members ts

/-- The values of the members of a tuple or aggregate. -/
def Members : List Ty → Type
  | [] => Unit
  | t :: ts => t.Val × Members ts

end

/-! ## Encoding and counting -/

mutual

/-- `encode_one` -/
def encodeOne : (t : Ty) → t.Val → ParamSlices → ParamSlices
  | .leaf l, v, ps => ps.put (l.slot v)
  | .optional t, v, ps =>
      match (v : Option t.Val) with
      | none => ps.put nullSlot
      | some v => encodeOne t v ps
  | .tuple ts, v, ps => encodeMembers ts v ps
  | .aggregate t ts, v, ps => encodeMembers ts v.2 (encodeOne t v.1 ps)

/-- `(encode_one(ps, std::get<I>(tup)), ...)` -/
def encodeMembers : (ts : List Ty) → Members ts → ParamSlices → ParamSlices
  | [], _, ps => ps
  | t :: ts, v, ps => encodeMembers ts v.2 (encodeOne t v.1 ps)

end

/-- `param_arity` -/
def Ty.paramArity : Ty → Nat
  | .leaf _ => 1
  | .optional t => t.paramArity
  | .tuple ts => ts.length
  | .aggregate _ ts => ts.length + 1

/-- An argument with its type. -/
abbrev Arg := (t : Ty) × t.Val

/-- `count_total_params` -/
def countTotalParams (args : List Arg) : Nat := (args.map fun a => a.1.paramArity).sum

/-- `ParamBlock<N>::slices` -/
def paramBlock (n : Nat) : ParamSlices := ⟨if n = 0 then 1 else n, []⟩

/-- The parameters `send_query_params` hands to `PQsendQueryParams`. -/
def sendQueryParams (args : List Arg) : ParamSlices :=
  args.foldl (fun ps a => encodeOne a.1 a.2 ps) (paramBlock (countTotalParams args))

/-- An `int` argument. -/
def int32 : Ty := .leaf (.integral .four)

/-- Neither recursion follows the other.  An empty optional of a pair fills one of the two
slots counted for it, so that the next argument lands in the second; a tuple of a tuple
of two fills two slots where one was counted, the second past the block. -/
theorem slots_mismatch :
    (encodeOne (.optional (.tuple [int32, int32])) none (paramBlock 2)).count = 1 ∧
      (Ty.optional (.tuple [int32, int32])).paramArity = 2 ∧
      (sendQueryParams
        [⟨.tuple [.tuple [int32, int32]], (((1 : Int), (2 : Int), ()), ())⟩]).capacity = 1 ∧
      (sendQueryParams
        [⟨.tuple [.tuple [int32, int32]], (((1 : Int), (2 : Int), ()), ())⟩]).count = 2 ∧
      ¬∀ (t : Ty) (v : t.Val) (ps : ParamSlices),
        (encodeOne t v ps).count = ps.count + t.paramArity := by
  refine ⟨by decide, by decide, by decide, by decide, ?_⟩
  intro h
  exact absurd (h (.optional (.tuple [int32, int32])) none (paramBlock 2)) (by decide)

/-! ## What is filled -/

mutual

/-- The slots of a value, in order. -/
def slotsOf : (t : Ty) → t.Val → List Slot
  | .leaf l, v => [l.slot v]
  | .optional t, v =>
      match (v : Option t.Val) with
      | none => [nullSlot]
      | some v => slotsOf t v
  | .tuple ts, v => slotsOfMembers ts v
  | .aggregate t ts, v => slotsOf t v.1 ++ slotsOfMembers ts v.2

/-- The slots of the members of a tuple or aggregate. -/
def slotsOfMembers : (ts : List Ty) → Members ts → List Slot
  | [], _ => []
  | t :: ts, v => slotsOf t v.1 ++ slotsOfMembers ts v.2

end

mutual

/-- `encode_one` appends the slots of the value. -/
theorem encodeOne_eq : (t : Ty) → (v : t.Val) → (ps : ParamSlices) →
    encodeOne t v ps = { ps with slots := ps.slots ++ slotsOf t v }
  | .leaf _, _, _ => rfl
  | .optional _, none, _ => rfl
  | .optional t, some v, ps => encodeOne_eq t v ps
  | .tuple ts, v, ps => encodeMembers_eq ts v ps
  | .aggregate t ts, v, ps => by
      rw [encodeOne, slotsOf, encodeOne_eq t v.1 ps, encodeMembers_eq ts v.2, List.append_assoc]

theorem encodeMembers_eq : (ts : List Ty) → (v : Members ts) → (ps : ParamSlices) →
    encodeMembers ts v ps = { ps with slots := ps.slots ++ slotsOfMembers ts v }
  | [], _, ps => by simp [encodeMembers, slotsOfMembers]
  | t :: ts, v, ps => by
      rw [encodeMembers, slotsOfMembers, encodeOne_eq t v.1 ps, encodeMembers_eq ts v.2,
        List.append_assoc]

end

theorem count_encodeOne (t : Ty) (v : t.Val) (ps : ParamSlices) :
    (encodeOne t v ps).count = ps.count + (slotsOf t v).length := by
  rw [encodeOne_eq, ParamSlices.count, List.length_append]
  rfl

/-! ## The static width of a type -/

mutual

/-- The number of slots every value of the type fills, if it is the same for all: an
optional has one only if it wraps a type that always fills one slot. -/
def Ty.width : Ty → Option Nat
  | .leaf _ => some 1
  | .optional t => if t.width = some 1 then some 1 else none
  | .tuple ts => widthOfMembers ts
  | .aggregate t ts => Option.map₂ (· + ·) t.width (widthOfMembers ts)

/-- The width of the members of a tuple or aggregate. -/
def widthOfMembers : List Ty → Option Nat
  | [] => some 0
  | t :: ts => Option.map₂ (· + ·) t.width (widthOfMembers ts)

end

mutual

theorem length_slotsOf : (t : Ty) → (n : Nat) → t.width = some n →
    ∀ v : t.Val, (slotsOf t v).length = n
  | .leaf _, n, h, _ => Option.some.inj h
  | .optional t, n, h, v => by
      rw [Ty.width] at h
      split at h
      · rename_i hone
        cases h
        cases v with
        | none => rfl
        | some v => exact length_slotsOf t 1 hone v
      · cases h
  | .tuple ts, n, h, v => length_slotsOfMembers ts n h v
  | .aggregate t ts, n, h, v => by
      obtain ⟨a, b, ha, hb, rfl⟩ := Option.map₂_eq_some_iff.mp h
      rw [slotsOf, List.length_append, length_slotsOf t a ha, length_slotsOfMembers ts b hb]

theorem length_slotsOfMembers : (ts : List Ty) → (n : Nat) → widthOfMembers ts = some n →
    ∀ v : Members ts, (slotsOfMembers ts v).length = n
  | [], n, h, _ => Option.some.inj h
  | t :: ts, n, h, v => by
      obtain ⟨a, b, ha, hb, rfl⟩ := Option.map₂_eq_some_iff.mp h
      rw [slotsOfMembers, List.length_append, length_slotsOf t a ha,
        length_slotsOfMembers ts b hb]

end

/-! ## Types without a width -/

def Leaf.default : (l : Leaf) → l.Val
  | .bool => false
  | .integral _ => (0 : Int)
  | .float => (0 : UInt32)
  | .double => (0 : UInt64)
  | .stringView | .string | .other => ([] : Bytes)
  | .charPtr => (none : Option Bytes)
  | .enum _ => ((none, 0) : Option Bytes × Int)
  | .array e => ([] : List e.Val)
  | .optArray e => ([] : List (Option e.Val))

mutual

/-- A value of every type. -/
def Ty.default : (t : Ty) → t.Val
  | .leaf l => l.default
  | .optional t => (none : Option t.Val)
  | .tuple ts => Members.default ts
  | .aggregate t ts => (t.default, Members.default ts)

def Members.default : (ts : List Ty) → Members ts
  | [] => ()
  | t :: ts => (t.default, Members.default ts)

end

/-- The width of a pair of parts that together always fill `n` slots. -/
theorem map₂_width {α β : Type} {f : α → Nat} {g : β → Nat} {a b : Option Nat} {n : Nat} (x : α)
    (y : β) (h : ∀ u w, f u + g w = n) (ha : (∀ u, f u = n - g y) → a = some (n - g y))
    (hb : (∀ w, g w = n - f x) → b = some (n - f x)) :
    Option.map₂ (· + ·) a b = some n := by
  have hxy := h x y
  rw [ha fun u => by have := h u y; omega, hb fun w => by have := h x w; omega]
  simp only [Option.map₂_coe_coe, Option.some.injEq]
  omega

mutual

/-- A type whose values all fill the same number of slots has that width. -/
theorem width_of_length : (t : Ty) → (n : Nat) → (∀ v : t.Val, (slotsOf t v).length = n) →
    t.width = some n
  | .leaf l, n, h => congrArg some (h l.default)
  | .optional t, n, h => by
      have hone : 1 = n := h none
      subst hone
      rw [Ty.width, if_pos (width_of_length t 1 fun v => h (some v))]
  | .tuple ts, n, h => widthOfMembers_of_length ts n h
  | .aggregate t ts, n, h => by
      refine map₂_width t.default (Members.default ts) (fun u w => ?_) (width_of_length t _)
        (widthOfMembers_of_length ts _)
      rw [← List.length_append]
      exact h (u, w)

theorem widthOfMembers_of_length : (ts : List Ty) → (n : Nat) →
    (∀ v : Members ts, (slotsOfMembers ts v).length = n) → widthOfMembers ts = some n
  | [], n, h => congrArg some (h ())
  | t :: ts, n, h => by
      refine map₂_width t.default (Members.default ts) (fun u w => ?_) (width_of_length t _)
        (widthOfMembers_of_length ts _)
      rw [← List.length_append]
      exact h (u, w)

end

/-! ## Sending -/

theorem foldl_encodeOne (args : List Arg) (ps : ParamSlices) :
    args.foldl (fun ps a => encodeOne a.1 a.2 ps) ps =
      { ps with slots := ps.slots ++ args.flatMap fun a => slotsOf a.1 a.2 } := by
  induction args generalizing ps with
  | nil => simp
  | cons a args ih =>
      rw [List.foldl_cons, ih, encodeOne_eq, List.flatMap_cons, List.append_assoc]

theorem slots_sendQueryParams (args : List Arg) :
    (sendQueryParams args).slots = args.flatMap fun a => slotsOf a.1 a.2 := by
  rw [sendQueryParams, foldl_encodeOne]
  rfl

theorem capacity_sendQueryParams (args : List Arg) :
    (sendQueryParams args).capacity =
      if countTotalParams args = 0 then 1 else countTotalParams args := by
  rw [sendQueryParams, foldl_encodeOne]
  rfl

/-- Arguments whose types have their arity as width fill what was counted. -/
theorem length_flatMap_slotsOf {args : List Arg}
    (h : ∀ a ∈ args, a.1.width = some a.1.paramArity) :
    (args.flatMap fun a => slotsOf a.1 a.2).length = countTotalParams args := by
  induction args with
  | nil => rfl
  | cons a args ih =>
      have hhead := length_slotsOf a.1 _ (h a List.mem_cons_self) a.2
      have htail := ih fun b hb => h b (List.mem_cons_of_mem _ hb)
      rw [List.flatMap_cons, List.length_append, hhead, htail]
      rfl

/-- **Slots match the counted arity exactly for the types whose width is their arity.**
For every such type, and no other, every value fills `param_arity` slots.  When all
argument types are such, `send_query_params` fills what it counted, stays inside the
block, and every argument starts at the slot where the arguments before it end by
their arities. -/
theorem slots_match_iff (t : Ty) (args : List Arg) :
    ((∀ (v : t.Val) (ps : ParamSlices), (encodeOne t v ps).count = ps.count + t.paramArity) ↔
      t.width = some t.paramArity) ∧
    ((∀ a ∈ args, a.1.width = some a.1.paramArity) →
      (sendQueryParams args).count = countTotalParams args ∧
      (sendQueryParams args).count ≤ (sendQueryParams args).capacity ∧
      ∀ (front : List Arg) (t : Ty) (v : t.Val) (back : List Arg), args = front ++ ⟨t, v⟩ :: back →
        ∃ before after, (sendQueryParams args).slots =
            before ++ (encodeOne t v (paramBlock t.paramArity)).slots ++ after ∧
          before.length = countTotalParams front) := by
  constructor
  · constructor
    · intro h
      refine width_of_length t _ fun v => ?_
      have hcount := h v ⟨0, []⟩
      rw [count_encodeOne] at hcount
      exact Nat.add_left_cancel hcount
    · intro h v ps
      rw [count_encodeOne, length_slotsOf t _ h]
  · intro h
    have hcount : (sendQueryParams args).count = countTotalParams args := by
      rw [ParamSlices.count, slots_sendQueryParams, length_flatMap_slotsOf h]
    refine ⟨hcount, ?_, ?_⟩
    · rw [hcount, capacity_sendQueryParams]
      split <;> omega
    · rintro front t v back rfl
      refine ⟨front.flatMap fun a => slotsOf a.1 a.2, back.flatMap fun a => slotsOf a.1 a.2, ?_, ?_⟩
      · rw [slots_sendQueryParams, List.flatMap_append, List.flatMap_cons, encodeOne_eq,
          List.append_assoc]
        rfl
      · exact length_flatMap_slotsOf fun a ha => h a (List.mem_append_left _ ha)

/-- An empty optional string and a pair of an `int` and an array. -/
theorem slots_match_iff_mixed :
    let args : List Arg :=
      [⟨.optional (.leaf .string), none⟩,
        ⟨.tuple [int32, .leaf (.array .string)], ((7 : Int), ([[0x61]] : List Bytes), ())⟩]
    (sendQueryParams args).count = 3 ∧
      (sendQueryParams args).count ≤ (sendQueryParams args).capacity := by
  intro args
  have h : ∀ a ∈ args, a.1.width = some a.1.paramArity := by
    intro a ha
    rcases List.mem_cons.mp ha with rfl | ha
    · decide
    · rw [List.mem_singleton.mp ha]
      decide
  obtain ⟨hcount, hle, -⟩ := (slots_match_iff int32 args).2 h
  exact ⟨hcount, hle⟩

end Upq.Params
