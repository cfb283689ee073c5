/-
  Params/ArrayOut.lean --- arrays as the server prints them, and what is read from them.

  Source: `include/upq/PgReflect.h`, `split_pg_array_items`, `parse_pg_text_elt`,
  `parse_int` and `Decoder<std::vector<T>>`.

  The decoder is the one of `Params/ArrayText.lean`.  The printer here is not the
  library's: `arrayOut` is what PostgreSQL writes for a one-dimensional array, which quotes
  an element only where it has to.  Whether an item is quoted or bare, the splitter passes
  over it and the element decoder finds its text (`outElement`), so the round trip is the
  one proved for every `Element`.
-/
import Upq.Params.ArrayText

set_option autoImplicit false

namespace Upq.ArrayText

open Upq.Foundation

/-! ## The printer -/

/-- Whitespace: space, and tab, newline, vertical tab, form feed, carriage return. -/
def isSpace (b : UInt8) : Bool := b == 0x20 || (decide (0x09 ≤ b) && decide (b ≤ 0x0D))

/-- An upper-case letter becomes the lower-case one. -/
def toLower (b : UInt8) : UInt8 := if 0x41 ≤ b ∧ b ≤ 0x5A then b + 0x20 else b

/-- A byte that does not stand in a bare element. -/
def isSpecial (b : UInt8) : Bool :=
  b == lbrace || b == rbrace || b == comma || b == quote || b == backslash || isSpace b

/-- The element is printed in quotes. -/
def needsQuote (t : Bytes) : Bool :=
  t.isEmpty || t.map toLower == nullText.map toLower || t.any isSpecial

/-- One element of the array. -/
def outItem : Option Bytes → Bytes
  | none => nullText
  | some t => if needsQuote t then quote :: escape t ++ [quote] else t

/-- `array_out` of a one-dimensional array. -/
def arrayOut (l : List (Option Bytes)) : Bytes :=
  [lbrace] ++ [comma].intercalate (l.map outItem) ++ [rbrace]

example : arrayOut [some [0x61], none, some [0x6E, 0x75, 0x6C, 0x6C], some [0x22]] =
    [lbrace, 0x61, comma, 0x4E, 0x55, 0x4C, 0x4C, comma, quote, 0x6E, 0x75, 0x6C, 0x6C, quote,
      comma, quote, backslash, quote, quote, rbrace] := by decide

/-! ## Bare elements -/

theorem ne_quote_comma_of_bare {t : Bytes} (h : needsQuote t = false) {b : UInt8} (hb : b ∈ t) :
    b ≠ quote ∧ b ≠ comma := by
  simp only [needsQuote, Bool.or_eq_false_iff] at h
  have hspecial : isSpecial b = false := Bool.not_eq_true _ ▸ List.any_eq_false.mp h.2 b hb
  simp only [isSpecial, Bool.or_eq_false_iff, beq_eq_false_iff_ne] at hspecial
  exact ⟨hspecial.1.1.2, hspecial.1.1.1.2⟩

theorem ne_nullText_of_bare {t : Bytes} (h : needsQuote t = false) : t ≠ nullText := by
  rintro rfl
  exact absurd h (by decide)

theorem parsePgTextElt_bare {t : Bytes} (h : needsQuote t = false) :
    parsePgTextElt t = (t, false) := by
  rw [parsePgTextElt, if_neg (ne_nullText_of_bare h), if_neg]
  rintro ⟨hhead, -⟩
  exact (ne_quote_comma_of_bare h (List.mem_of_head? hhead)).1 rfl

/-! ## Items -/

/-- The splitter passes over every item. -/
theorem skips_outItem (e : Option Bytes) : Skips (outItem e) := by
  cases e with
  | none => exact skips_nullText
  | some t =>
      rw [outItem]
      cases h : needsQuote t with
      | true => exact skips_quoted t
      | false => exact skips_plain fun b hb => ne_quote_comma_of_bare h hb

/-- The element decoder finds the text of an item, quoted or bare. -/
theorem parsePgTextElt_outItem (t : Bytes) : parsePgTextElt (outItem (some t)) = (t, false) := by
  rw [outItem]
  cases h : needsQuote t with
  | true => exact parsePgTextElt_quoted t
  | false => exact parsePgTextElt_bare h

/-- Elements that the server prints as the text `text e`, NULL for `none`, for a type `α`
that reads them back. -/
def outElement {ε α : Type} (convert : Bytes → Option α) (zero : α) (text : ε → Bytes)
    (value : ε → α) (hconvert : ∀ e, convert (text e) = some (value e)) :
    Element (Option ε) α where
  append s e := s ++ outItem (e.map text)
  convert := convert
  zero := zero
  text e := outItem (e.map text)
  value e := e.elim zero value
  append_eq _ _ := rfl
  skips e := skips_outItem (e.map text)
  decode_eq := by
    intro e
    cases e with
    | none => rfl
    | some v =>
        rw [decodeItem, Option.map_some, parsePgTextElt_outItem]
        exact hconvert v

theorem intercalate_comma (x : Bytes) (xs : List Bytes) :
    [comma].intercalate (x :: xs) = x ++ tailText xs := by
  induction xs generalizing x with
  | nil => simp [List.intercalate]
  | cons y ys ih =>
      rw [tailText_cons, ← ih y]
      simp [List.intercalate]

/-- **Reading what the server prints.** -/
theorem decode_arrayOut {ε α : Type} {convert : Bytes → Option α} (zero : α) {text : ε → Bytes}
    {value : ε → α} (hconvert : ∀ e, convert (text e) = some (value e)) {l : List (Option ε)}
    (h : l ≠ []) :
    decodeVector convert zero (arrayOut (l.map (·.map text))) =
      some (l.map fun e => e.elim zero value) := by
  have hbuild := decode_build (outElement convert zero text value hconvert) h
  cases l with
  | nil => exact absurd rfl h
  | cons e l =>
      rw [build_cons] at hbuild
      rw [arrayOut, List.map_cons, List.map_cons, intercalate_comma, List.map_map,
        ← List.append_assoc]
      exact hbuild

/-- **Server array text is decoded faithfully.**  From what the server prints for a list of
optional byte strings that is not empty, `Decoder<std::vector<std::string>>` reads every
string in order, with an empty one for each NULL; from what it prints for `int64_t`s,
`Decoder<std::vector<int64_t>>` reads the list. -/
theorem server_array_decoded (strings : List (Option Bytes)) (ints : List Int64) :
    (strings ≠ [] → decodeStrings (arrayOut strings) = some (strings.map (·.getD []))) ∧
      (ints ≠ [] →
        decodeInt64s (arrayOut (ints.map fun v => some (Decimal.print v.toInt))) = some ints) := by
  constructor
  · intro h
    have hread := decode_arrayOut [] (fun t : Bytes => rfl : ∀ t : Bytes, some (id t) = some t) h
    rw [Option.map_id, List.map_id] at hread
    rw [decodeStrings, hread]
    refine congrArg some (List.map_congr_left fun e _ => ?_)
    cases e with
    | none => rfl
    | some t => rfl
  · intro h
    have hne : ints.map some ≠ [] := by simpa using h
    have hread := decode_arrayOut 0 parseInt64_print hne
    rw [List.map_map, List.map_map] at hread
    exact hread.trans (congrArg some (List.map_id ints))

/-- Both parts at a list with each kind of element. -/
theorem server_array_decoded_mixed :
    decodeStrings (arrayOut [some [0x61], none, some [], some [0x22, 0x2C]]) =
        some [[0x61], [], [], [0x22, 0x2C]] ∧
      decodeInt64s (arrayOut [some (Decimal.print (-7)), some (Decimal.print 12)]) =
        some [-7, 12] :=
  ⟨(server_array_decoded [some [0x61], none, some [], some [0x22, 0x2C]] []).1 (by decide),
    (server_array_decoded [] [-7, 12]).2 (by decide)⟩

end Upq.ArrayText
