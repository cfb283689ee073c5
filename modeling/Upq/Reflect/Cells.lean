/-
  Reflect/Cells.lean --- one cell: how it is stored, and the two ways it is read.

  Source: `src/upq/PgConnection.cpp`, `append_rows`; `include/upq/PgTypes.h`,
  `QueryResult::parse_cell` and `enum_from_token_impl`; `include/upq/PgReflect.h`,
  `parse_int`, `parse_bool`, `Decoder` and `Decoder<std::optional<T>>`.

  A cell is a list of bytes, and SQL NULL is stored as the empty one.  A target type is
  a `Target`; `parseCell` and `decode` recurse over it as the two templates do.

  `parse_cell` takes the text NULL for an absent value and `Decoder` the empty text, and
  only `Decoder` knows enumeration tokens and stream extractors.  The two agree on every
  other text (`readers_agree_iff`).  An optional string survives the way through a
  parameter and back unless it is empty, as NULL is, or holds a NUL, at which libpq ends
  it (`optional_round_trip_iff`).
-/
import Upq.Params.Integers
import Upq.Types

set_option autoImplicit false

namespace Upq.Reflect

open Upq.ArrayText
open Upq.Params
open Upq.Foundation

/-! ## Storing -/

/-- The names of the columns and the cells of a `PGresult`; `none` is a missing name,
and SQL NULL. -/
structure Tuples where
  fnames : List (Option Bytes)
  tuples : List (List (Option Bytes))
  deriving DecidableEq, Repr

/-- `append_rows`: `rows` and `columns` after it. -/
def appendRows (res : Tuples) (rows : List (List Bytes)) (columns : List Bytes) :
    List (List Bytes) × List Bytes :=
  (rows ++ res.tuples.map fun tuple => tuple.map fun cell => cell.getD [],
    if columns.isEmpty then res.fnames.map fun nm => nm.getD [] else columns)

/-! ## Scalars -/

/-- An integer as a value of a type, if it is one. -/
def ofInt? (t : IntTy) (v : Int) : Option t.Val :=
  if h : t.least ≤ v ∧ v < t.bound then some ⟨v, h.1, h.2⟩ else none

/-- `std::from_chars`: the value and the rest of the text.  There is no minus sign in
the text of an unsigned type. -/
def fromChars (t : IntTy) (sv : Bytes) : Option (t.Val × Bytes) :=
  if !t.signed && sv.head? == some Decimal.minus then none
  else
    match Decimal.fromChars t.least (t.bound - 1) sv with
    | some (v, rest) => (ofInt? t v).map fun v => (v, rest)
    | none => none

/-- `parse_int` -/
def parseInt (t : IntTy) (sv : Bytes) : Option t.Val :=
  match fromChars t sv with
  | some (v, []) => some v
  | _ => none

/-- `t`, `true` and `1` -/
def trueTexts : List Bytes := [[0x74], trueText, [0x31]]

/-- `f`, `false` and `0` -/
def falseTexts : List Bytes := [[0x66], falseText, [0x30]]

/-- `parse_bool` -/
def parseBool (sv : Bytes) : Option Bool :=
  if trueTexts.contains sv then some true
  else if falseTexts.contains sv then some false
  else none

/-- The loop of `enum_from_token_impl` over the mapping. -/
def fromMapping (e : EnumTy) (sv : Bytes) : Option e.underlying.Val :=
  match e.mapping with
  | some mapping => (mapping.find? fun p => p.2 == sv).map Prod.fst
  | none => none

/-- `enum_from_token_impl` -/
def enumFromToken (e : EnumTy) (sv : Bytes) : Option e.underlying.Val :=
  match fromMapping e sv with
  | some v => some v
  | none =>
      match fromChars e.underlying sv with
      | some (v, []) => some v
      | _ => none

/-! ## The two readers -/

/-- Target types.  An enumeration may have a stream extractor; it is given by what it
makes of a text that it consumes to the end. -/
inductive Target where
  | string
  | bool
  | integral (t : IntTy)
  | enum (e : EnumTy) (extractor : Option (Bytes → Option e.underlying.Val))
  | optional (t : Target)

/-- The values of a target type. -/
def Target.Val : Target → Type
  | .string => Bytes
  | .bool => Bool
  | .integral t => t.Val
  | .enum e _ => e.underlying.Val
  | .optional t => Option t.Val

/-- The error of `parse_cell`. -/
def cellError (error : String) : PgOpError := { code := .protocolCorrupt, error }

/-- `parse_cell` of an integral type. -/
def parseIntegral (t : IntTy) (sv : Bytes) : Except PgOpError t.Val :=
  match fromChars t sv with
  | some (v, []) => .ok v
  | _ => .error (cellError "failed to parse integer")

/-- `QueryResult::parse_cell` -/
def parseCell : (t : Target) → Bytes → Except PgOpError t.Val
  | .string, sv => .ok sv
  | .bool, sv =>
      if trueTexts.contains sv then .ok true
      else if falseTexts.contains sv then .ok false
      else .error (cellError "failed to parse bool")
  | .integral t, sv => parseIntegral t sv
  | .enum e _, sv =>
      match parseIntegral e.underlying sv with
      | .error r => .error { code := r.code, error := "failed to parse enum underlying" }
      | .ok v => .ok v
  | .optional t, sv =>
      if sv == nullText then .ok none
      else
        match parseCell t sv with
        | .error r => .error r
        | .ok v => .ok (some v)

/-- `Decoder<T>::apply` and `Decoder<std::optional<T>>::apply`: the value on success. -/
def decode : (t : Target) → Bytes → Option t.Val
  | .string, sv => some sv
  | .bool, sv => parseBool sv
  | .integral t, sv => parseInt t sv
  | .enum _ (some extractor), sv => extractor sv
  | .enum e none, sv => enumFromToken e sv
  | .optional t, sv =>
      if sv.length == 0 then some none
      else
        match decode t sv with
        | some v => some (some v)
        | none => none

/-- The two readers agree on a text: one succeeds when the other does, with the same
value. -/
def Agree (t : Target) (sv : Bytes) : Prop :=
  ∀ v, parseCell t sv = .ok v ↔ decode t sv = some v

/-- The texts that mean the same to both: a token of an enumeration is its number, and an
optional is neither the empty text nor NULL. -/
def SameReading : Target → Bytes → Prop
  | .enum e (some extractor), sv => extractor sv = parseInt e.underlying sv
  | .enum e none, sv => ∀ v, fromMapping e sv = some v → parseInt e.underlying sv = some v
  | .optional t, sv => sv ≠ [] ∧ sv ≠ nullText ∧ SameReading t sv
  | _, _ => True

/-- A NULL cell is an empty string for `get<std::optional<std::string>>` and absent for
the decoder. -/
theorem null_cell_readings :
    (appendRows ⟨[none], [[none]]⟩ [] []).1 = [[[]]] ∧
      decode (.optional .string) [] = some none ∧
      parseCell (.optional .string) [] = .ok (some []) ∧
      ¬∀ (t : Target) (sv : Bytes), Agree t sv := by
  refine ⟨rfl, rfl, rfl, fun h => ?_⟩
  have hnone : decode (.optional .string) [] = some (some []) := (h (.optional .string) [] _).mp rfl
  exact Option.some_ne_none _ (Option.some.inj hnone).symm

/-! ## Where they agree -/

theorem agree_iff (t : Target) (sv : Bytes) :
    Agree t sv ↔ (parseCell t sv).toOption = decode t sv := by
  have hok : ∀ v, (parseCell t sv).toOption = some v ↔ parseCell t sv = .ok v := by
    intro v
    cases parseCell t sv <;> simp [Except.toOption]
  constructor
  · intro h
    exact Option.ext fun v => (hok v).trans (h v)
  · intro h v
    rw [← hok, h]

theorem toOption_parseIntegral (t : IntTy) (sv : Bytes) :
    (parseIntegral t sv).toOption = parseInt t sv := by
  unfold parseIntegral parseInt
  split <;> rfl

theorem toOption_parseCell_bool (sv : Bytes) :
    (parseCell .bool sv).toOption = parseBool sv := by
  unfold parseCell parseBool
  split
  · rfl
  · split <;> rfl

theorem toOption_parseCell_enum (e : EnumTy) (extractor : Option (Bytes → Option e.underlying.Val))
    (sv : Bytes) : (parseCell (.enum e extractor) sv).toOption = parseInt e.underlying sv := by
  rw [← toOption_parseIntegral]
  unfold parseCell
  split <;> rename_i h <;> rw [h] <;> rfl

theorem toOption_parseCell_optional (t : Target) (sv : Bytes) :
    (parseCell (.optional t) sv).toOption =
      if sv = nullText then some none else (parseCell t sv).toOption.map some := by
  rw [parseCell]
  by_cases hnull : sv = nullText
  · rw [if_pos hnull, if_pos (beq_iff_eq.mpr hnull)]
    rfl
  · rw [if_neg hnull, if_neg (mt beq_iff_eq.mp hnull)]
    cases parseCell t sv <;> rfl

theorem decode_optional (t : Target) (sv : Bytes) :
    decode (.optional t) sv = if sv = [] then some none else (decode t sv).map some := by
  rw [decode]
  by_cases hempty : sv = []
  · rw [if_pos hempty, hempty]
    rfl
  · rw [if_neg hempty, if_neg (by simpa using hempty)]
    cases decode t sv <;> rfl

theorem enumFromToken_eq (e : EnumTy) (sv : Bytes) :
    enumFromToken e sv = (fromMapping e sv).or (parseInt e.underlying sv) := by
  unfold enumFromToken
  cases fromMapping e sv with
  | some v => rfl
  | none =>
      rw [Option.none_or, parseInt]
      rcases fromChars e.underlying sv with _ | ⟨v, _ | _⟩ <;> rfl

/-- What an optional is for one reader and for the other, given what its text is. -/
theorem optional_eq_iff {α : Type} (p d : Option α) (sv : Bytes) :
    ((if sv = nullText then some none else p.map some) =
        if sv = [] then some none else d.map some) ↔
      sv ≠ [] ∧ sv ≠ nullText ∧ p = d := by
  by_cases hempty : sv = []
  · rw [if_pos hempty, if_neg (by rw [hempty]; decide)]
    simp [hempty]
  · rw [if_neg hempty]
    by_cases hnull : sv = nullText
    · rw [if_pos hnull]
      refine iff_of_false (fun h => ?_) fun h => h.2.1 hnull
      obtain ⟨v, -, hv⟩ := Option.map_eq_some_iff.mp h.symm
      cases hv
    · rw [if_neg hnull]
      simp only [ne_eq, hempty, hnull, not_false_eq_true, true_and]
      exact (Option.map_injective (Option.some_injective α)).eq_iff

/-- **The two readers agree exactly on the texts that mean the same to both.**  For
strings, truth values and integers these are all texts. -/
theorem readers_agree_iff (t : Target) (sv : Bytes) : Agree t sv ↔ SameReading t sv := by
  rw [agree_iff]
  induction t with
  | string => exact iff_of_true rfl trivial
  | bool => exact iff_of_true (toOption_parseCell_bool sv) trivial
  | integral t => exact iff_of_true (toOption_parseIntegral t sv) trivial
  | enum e extractor =>
      rw [toOption_parseCell_enum]
      cases extractor with
      | some extractor => exact eq_comm
      | none =>
          change parseInt e.underlying sv = enumFromToken e sv ↔
            ∀ v, fromMapping e sv = some v → parseInt e.underlying sv = some v
          rw [enumFromToken_eq]
          cases fromMapping e sv with
          | none => simp
          | some v => simp [Option.or]
  | optional t ih =>
      rw [toOption_parseCell_optional, decode_optional, SameReading, ← ih]
      exact optional_eq_iff (parseCell t sv).toOption (decode t sv) sv

/-! ## An optional string as a parameter and back -/

/-- What libpq sends for a slot: the length of a parameter in text format is ignored, its
text ends at the first NUL. -/
def sentValue (slot : Slot) : Option Bytes :=
  slot.value.map fun data =>
    if slot.format == 0 then data.takeWhile (· != 0) else data.take slot.length

/-- A server that returns the parameter of a slot as its only cell. -/
def echo (slot : Slot) : Tuples := ⟨[some []], [[sentValue slot]]⟩

/-- An optional string sent with `encode_one`, read with `append_rows` and decoded. -/
def roundTrip (v : Option Bytes) (ps : ParamSlices) : Option (Option Bytes) := do
  let slot ← (encodeOne (.optional (.leaf .string)) v ps).slots[ps.count]?
  let row ← (appendRows (echo slot) [] []).1[0]?
  let cell ← row[0]?
  decode (.optional .string) cell

/-- The empty string comes back as an absent one. -/
theorem empty_string_lost :
    roundTrip (some []) ⟨1, []⟩ = some none ∧
      ¬∀ (v : Option Bytes) (ps : ParamSlices), roundTrip v ps = some v := by
  refine ⟨rfl, fun h => ?_⟩
  have hkept : some none = some (some []) := h (some []) ⟨1, []⟩
  exact Option.some_ne_none _ (Option.some.inj hkept).symm

theorem roundTrip_none (ps : ParamSlices) : roundTrip none ps = some none := by
  have hslot : (encodeOne (.optional (.leaf .string)) (none : Option Bytes) ps).slots[ps.count]? =
      some nullSlot := by
    simp [encodeOne, ParamSlices.put, ParamSlices.count]
  simp only [roundTrip, hslot]
  rfl

theorem roundTrip_some (s : Bytes) (ps : ParamSlices) :
    roundTrip (some s) ps =
      if s.takeWhile (· != 0) = [] then some none else some (some (s.takeWhile (· != 0))) := by
  have hslot : (encodeOne (.optional (.leaf .string)) (some s : Option Bytes) ps).slots[ps.count]? =
      some (textSlot s 0) := by
    simp [encodeOne, Leaf.slot, ParamSlices.put, ParamSlices.count]
  simp only [roundTrip, hslot]
  exact decode_optional .string (s.takeWhile (· != 0))

theorem takeWhile_eq_self {s : Bytes} : s.takeWhile (· != 0) = s ↔ 0 ∉ s := by
  rw [List.takeWhile_eq_self_iff]
  simp only [bne_iff_ne, ne_eq]
  exact ⟨fun h hmem => h 0 hmem rfl, fun h b hb hzero => h (hzero ▸ hb)⟩

/-- **An optional string comes back exactly when it is not empty and holds no NUL.**  The
absent one always does. -/
theorem optional_round_trip_iff (v : Option Bytes) (ps : ParamSlices) :
    roundTrip v ps = some v ↔ ∀ s, v = some s → s ≠ [] ∧ 0 ∉ s := by
  cases v with
  | none => exact iff_of_true (roundTrip_none ps) nofun
  | some s =>
      rw [roundTrip_some]
      by_cases hempty : s.takeWhile (· != 0) = []
      · -- nothing was sent, so that nothing is read: the string is empty or starts with NUL
        rw [if_pos hempty]
        refine iff_of_false (by simp) fun h => ?_
        obtain ⟨hne, hnul⟩ := h s rfl
        exact hne ((takeWhile_eq_self.mpr hnul).symm.trans hempty)
      · rw [if_neg hempty, Option.some.injEq, Option.some.injEq, takeWhile_eq_self]
        constructor
        · rintro hnul s' ⟨⟩
          exact ⟨fun h => hempty (by rw [h]; rfl), hnul⟩
        · exact fun h => (h s rfl).2

end Upq.Reflect
