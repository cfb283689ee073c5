/-
  Params/ArrayText.lean --- array literals, written and read back.

  Source: `include/upq/PgParams.h`, `append_escaped_array_elem` to
  `build_pg_text_array_literal_any`; `include/upq/PgReflect.h`, `split_pg_array_items`,
  `parse_pg_text_elt` and `Decoder<std::vector<T>>`.

  Text is a list of bytes.  The splitter and the unescaper keep the indices of the
  source: `rest` is the text from position `i` on, and `i + 1 < s.size()` says that it
  holds two more bytes.

  An element type is an `Element`: how one element is appended, how a token is
  converted, and the proof that the two fit.  Every list of such elements but the
  empty one comes back (`decode_build`); the empty list does not.
-/
import Upq.Foundation.Decimal

set_option autoImplicit false

namespace Upq.ArrayText

open Upq.Foundation

/-! ## Writing -/

/-- The bytes of a string. -/
abbrev Bytes := List UInt8

def quote : UInt8 := 0x22

def backslash : UInt8 := 0x5C

def comma : UInt8 := 0x2C

def lbrace : UInt8 := 0x7B

def rbrace : UInt8 := 0x7D

/-- `NULL` -/
def nullText : Bytes := [0x4E, 0x55, 0x4C, 0x4C]

/-- `true` -/
def trueText : Bytes := [0x74, 0x72, 0x75, 0x65]

/-- `false` -/
def falseText : Bytes := [0x66, 0x61, 0x6C, 0x73, 0x65]

/-- One turn of the loop of `append_escaped_array_elem`. -/
def pushEscaped (s : Bytes) (ch : UInt8) : Bytes :=
  (if ch = quote ∨ ch = backslash then s ++ [backslash] else s) ++ [ch]

/-- `append_escaped_array_elem` -/
def appendEscapedArrayElem (s text : Bytes) : Bytes :=
  text.foldl pushEscaped (s ++ [quote]) ++ [quote]

/-- `append_number`, for integers -/
def appendNumber (s : Bytes) (v : Int) : Bytes :=
  match Decimal.toChars 64 v with
  | some p => s ++ p
  | none => s

/-- `sizeof` of an integral type, in bytes. -/
inductive IntSize where
  | one
  | two
  | four
  | eight
  deriving DecidableEq, Repr

/-- The element types of an array parameter. -/
inductive ElemTy where
  | bool
  | integral (size : IntSize)
  | float
  | double
  | string
  | charPtr
  | enum
  | other
  deriving DecidableEq, Repr

/-- An element: of an `enum` its token, if it has one, and its number; of a floating
type what `std::to_chars` writes for it; of any `other` type what a stream writes. -/
def ElemTy.Val : ElemTy → Type
  | .bool => Bool
  | .integral _ => Int
  | .float | .double | .string | .other => Bytes
  | .charPtr => Option Bytes
  | .enum => Option Bytes × Int

/-- `append_pg_array_elem` -/
def appendPgArrayElem : (e : ElemTy) → Bytes → e.Val → Bytes
  | .bool, s, v => s ++ cond v trueText falseText
  | .integral _, s, v => appendNumber s v
  | .float, s, v | .double, s, v => List.append s v
  | .string, s, v | .other, s, v => appendEscapedArrayElem s v
  | .charPtr, s, v => appendEscapedArrayElem s (Option.getD v [])
  | .enum, s, v => appendEscapedArrayElem s (v.1.getD (Decimal.print v.2))

/-- An optional element in `build_pg_text_array_literal_any`. -/
def appendOptional {α : Type} (append : Bytes → α → Bytes) (s : Bytes) : Option α → Bytes
  | none => s ++ nullText
  | some v => append s v

/-- The loop of `build_pg_text_array_literal_any`. -/
def buildLoop {α : Type} (append : Bytes → α → Bytes) : List α → Bool → Bytes → Bytes
  | [], _, s => s
  | e :: cont, first, s =>
      buildLoop append cont false (append (if !first then s ++ [comma] else s) e)

/-- `build_pg_text_array_literal_any`; `append` is `append_pg_array_elem` at the element
type. -/
def buildPgTextArrayLiteralAny {α : Type} (append : Bytes → α → Bytes) (cont : List α) : Bytes :=
  buildLoop append cont true [lbrace] ++ [rbrace]

/-! ## Reading -/

/-- `s.substr(pos, n)` -/
def substr (s : Bytes) (pos n : Nat) : Bytes := (s.drop pos).take n

/-- The loop of `split_pg_array_items`, at position `i` with `rest` from there on: where
the last item starts, and the items before it. -/
def splitLoop (s : Bytes) : (rest : Bytes) → (i start : Nat) → (inq : Bool) →
    (items : List Bytes) → Nat × List Bytes
  | c :: d :: rest, i, start, inq, items =>
      if inq then
        if c = backslash then splitLoop s rest (i + 2) start inq items
        else if c = quote then splitLoop s (d :: rest) (i + 1) start false items
        else splitLoop s (d :: rest) (i + 1) start inq items
      else if c = quote then splitLoop s (d :: rest) (i + 1) start true items
      else if c = comma then
        splitLoop s (d :: rest) (i + 1) (i + 1) inq (items ++ [substr s start (i - start)])
      else splitLoop s (d :: rest) (i + 1) start inq items
  | _, _, start, _, items => (start, items)

/-- The text has the braces of an array. -/
def braced (s : Bytes) : Bool :=
  decide (2 ≤ s.length) && decide (s.head? = some lbrace) && decide (s.getLast? = some rbrace)

/-- `split_pg_array_items` -/
def splitPgArrayItems (s : Bytes) : List Bytes :=
  if !braced s then []
  else
    match splitLoop s s.tail 1 1 false [] with
    | (start, items) =>
        if start ≤ s.length - 1 then items ++ [substr s start (s.length - 1 - start)] else items

/-- The loop of `parse_pg_text_elt`, at position `i` of `size` with `rest` from there on. -/
def unescapeLoop (size : Nat) : (rest : Bytes) → (i : Nat) → (out : Bytes) → Bytes
  | c :: d :: rest, i, out =>
      if c = backslash ∧ i + 1 < size - 1 then unescapeLoop size rest (i + 2) (out ++ [d])
      else unescapeLoop size (d :: rest) (i + 1) (out ++ [c])
  | _, _, out => out

/-- `parse_pg_text_elt`: `out` and `is_null`; it never fails. -/
def parsePgTextElt (sv : Bytes) : Bytes × Bool :=
  if sv = nullText then ([], true)
  else if sv.head? = some quote ∧ sv.getLast? = some quote then
    (unescapeLoop sv.length sv.tail 1 [], false)
  else (sv, false)

/-- One turn of the loop of `Decoder<std::vector<T>>`: a NULL becomes `T{}`. -/
def decodeItem {α : Type} (convert : Bytes → Option α) (zero : α) (p : Bytes) : Option α :=
  match parsePgTextElt p with
  | (_, true) => some zero
  | (tok, false) => convert tok

/-- `Decoder<std::vector<T>>`; `convert` is what `T` makes of a token. -/
def decodeVector {α : Type} (convert : Bytes → Option α) (zero : α) (sv : Bytes) :
    Option (List α) :=
  let parts := splitPgArrayItems sv
  if parts.isEmpty && !braced sv then none else parts.mapM (decodeItem convert zero)

/-- `parse_int<int64_t>` -/
def parseInt64 (sv : Bytes) : Option Int64 :=
  match Decimal.fromChars Int64.minValue.toInt Int64.maxValue.toInt sv with
  | some (v, []) => some (Int64.ofInt v)
  | _ => none

/-- `build_pg_text_array_literal_any` of strings -/
def buildStrings (cont : List Bytes) : Bytes :=
  buildPgTextArrayLiteralAny (appendPgArrayElem .string) cont

/-- `Decoder<std::vector<std::string>>` -/
def decodeStrings (sv : Bytes) : Option (List Bytes) := decodeVector some [] sv

/-- `build_pg_text_array_literal_any` of `int64_t`s -/
def buildInt64s (cont : List Int64) : Bytes :=
  buildPgTextArrayLiteralAny (fun s v => appendPgArrayElem (.integral .eight) s v.toInt) cont

/-- `Decoder<std::vector<int64_t>>` -/
def decodeInt64s (sv : Bytes) : Option (List Int64) := decodeVector parseInt64 0 sv

/-- The empty list comes back as a list of one empty string, and does not come back
at all as integers. -/
theorem empty_array_lost :
    decodeStrings (buildStrings []) = some [[]] ∧ decodeInt64s (buildInt64s []) = none ∧
      ¬((∀ l, decodeStrings (buildStrings l) = some l) ∧
        ∀ l, decodeInt64s (buildInt64s l) = some l) := by
  refine ⟨by decide, by decide, ?_⟩
  rintro ⟨hstrings, -⟩
  exact absurd (hstrings []) (by decide)

/-! ## Splitting what was joined -/

/-- The items after the first one, as they stand in the literal. -/
def tailText (items : List Bytes) : Bytes := items.flatMap (comma :: ·)

@[simp] theorem tailText_nil : tailText [] = [] := rfl

@[simp] theorem tailText_cons (x : Bytes) (xs : List Bytes) :
    tailText (x :: xs) = comma :: (x ++ tailText xs) := by
  simp [tailText]

/-- One turn of the loop, with something behind the byte it looks at. -/
theorem splitLoop_cons {s rest : Bytes} {c : UInt8} {i start : Nat} {inq : Bool}
    {items : List Bytes} (h : rest ≠ []) :
    splitLoop s (c :: rest) i start inq items =
      if inq then
        if c = backslash then splitLoop s rest.tail (i + 2) start inq items
        else if c = quote then splitLoop s rest (i + 1) start false items
        else splitLoop s rest (i + 1) start inq items
      else if c = quote then splitLoop s rest (i + 1) start true items
      else if c = comma then
        splitLoop s rest (i + 1) (i + 1) inq (items ++ [substr s start (i - start)])
      else splitLoop s rest (i + 1) start inq items := by
  cases rest with
  | nil => exact absurd rfl h
  | cons d rest => rw [splitLoop, List.tail_cons]

/-- The loop passes over the item and is outside quotes again behind it. -/
def Skips (x : Bytes) : Prop :=
  ∀ (s rest : Bytes) (i start : Nat) (items : List Bytes), rest ≠ [] →
    splitLoop s (x ++ rest) i start false items = splitLoop s rest (i + x.length) start false items

/-- Text without quotes and commas. -/
theorem skips_plain {x : Bytes} (h : ∀ b ∈ x, b ≠ quote ∧ b ≠ comma) : Skips x := by
  intro s rest i start items hrest
  induction x generalizing i with
  | nil => rfl
  | cons b x ih =>
      obtain ⟨hquote, hcomma⟩ := h b List.mem_cons_self
      have hne : x ++ rest ≠ [] := by simp [hrest]
      rw [List.cons_append, splitLoop_cons hne]
      simp only [Bool.false_eq_true, if_false, hquote, hcomma]
      rw [ih (fun y hy => h y (List.mem_cons_of_mem _ hy)), List.length_cons]
      congr 1
      omega

theorem skips_nullText : Skips nullText :=
  skips_plain (by simp [nullText, quote, comma])

theorem substr_append (pre x rest : Bytes) : substr (pre ++ x ++ rest) pre.length x.length = x := by
  simp [substr, List.append_assoc]

/-- The end of `split_pg_array_items`. -/
def splitEnd (s : Bytes) (r : Nat × List Bytes) : List Bytes :=
  if r.1 ≤ s.length - 1 then r.2 ++ [substr s r.1 (s.length - 1 - r.1)] else r.2

/-- **Splitting.**  The loop, started at the first of some items that it passes over,
finds them all. -/
theorem splitLoop_items (xs : List Bytes) (x pre : Bytes) (items : List Bytes)
    (hx : Skips x) (hxs : ∀ y ∈ xs, Skips y) :
    splitEnd (pre ++ x ++ tailText xs ++ [rbrace])
      (splitLoop (pre ++ x ++ tailText xs ++ [rbrace]) (x ++ (tailText xs ++ [rbrace]))
        pre.length pre.length false items) = items ++ x :: xs := by
  induction xs generalizing x pre items with
  | nil =>
      rw [tailText_nil, List.append_nil, List.nil_append, hx _ _ _ _ _ (List.cons_ne_nil _ _),
        splitLoop, splitEnd]
      · have hlen : (pre ++ x ++ [rbrace]).length - 1 - pre.length = x.length := by
          simp only [List.length_append, List.length_singleton]
          omega
        rw [if_pos (by simp only [List.length_append, List.length_singleton]; omega), hlen,
          substr_append]
      · simp
  | cons y ys ih =>
      have hskip := hx (pre ++ x ++ tailText (y :: ys) ++ [rbrace]) (tailText (y :: ys) ++ [rbrace])
        pre.length pre.length items (by simp)
      have hne : y ++ tailText ys ++ [rbrace] ≠ [] := by simp
      rw [hskip, tailText_cons, List.cons_append, splitLoop_cons hne]
      have hcomma : comma ≠ quote := by decide
      simp only [Bool.false_eq_true, if_false, hcomma, if_true]
      have hitem : substr (pre ++ x ++ comma :: (y ++ tailText ys) ++ [rbrace]) pre.length
          (pre.length + x.length - pre.length) = x := by
        rw [Nat.add_sub_cancel_left, List.append_assoc (pre ++ x)]
        exact substr_append pre x _
      rw [hitem]
      -- the next item starts behind the comma
      have hnext := ih y (pre ++ x ++ [comma]) (items ++ [x]) (hxs y List.mem_cons_self)
        fun z hz => hxs z (List.mem_cons_of_mem _ hz)
      have hs : pre ++ x ++ [comma] ++ y ++ tailText ys ++ [rbrace] =
          pre ++ x ++ comma :: (y ++ tailText ys) ++ [rbrace] := by simp
      have hpos : (pre ++ x ++ [comma]).length = pre.length + x.length + 1 := by
        simp only [List.length_append, List.length_singleton]
      rw [hs, hpos, ← List.append_assoc] at hnext
      rw [hnext, List.append_assoc]
      rfl

/-! ## Elements -/

/-- An element type: how an element is appended and what a token is converted to, with
the text of each element, the value it comes back as, and the proof that it does. -/
structure Element (ε α : Type) where
  append : Bytes → ε → Bytes
  convert : Bytes → Option α
  zero : α
  text : ε → Bytes
  value : ε → α
  append_eq : ∀ s e, append s e = s ++ text e
  skips : ∀ e, Skips (text e)
  decode_eq : ∀ e, decodeItem convert zero (text e) = some (value e)

section

variable {ε α : Type} (E : Element ε α)

theorem buildLoop_eq (l : List ε) (s : Bytes) :
    buildLoop E.append l false s = s ++ tailText (l.map E.text) := by
  induction l generalizing s with
  | nil => simp [buildLoop]
  | cons e l ih =>
      rw [buildLoop, ih, E.append_eq]
      simp [List.append_assoc]

/-- The literal of a list that is not empty. -/
theorem build_cons (e : ε) (l : List ε) :
    buildPgTextArrayLiteralAny E.append (e :: l) =
      [lbrace] ++ E.text e ++ tailText (l.map E.text) ++ [rbrace] := by
  rw [buildPgTextArrayLiteralAny, buildLoop, buildLoop_eq, E.append_eq]
  rfl

theorem braced_literal (body : Bytes) : braced ([lbrace] ++ body ++ [rbrace]) = true := by
  have hlen : 2 ≤ ([lbrace] ++ body ++ [rbrace]).length := by
    simp only [List.length_append, List.length_singleton]
    omega
  simp only [braced, hlen, decide_true, Bool.true_and, List.getLast?_concat, Bool.and_true]
  rfl

theorem splitPgArrayItems_build (e : ε) (l : List ε) :
    splitPgArrayItems (buildPgTextArrayLiteralAny E.append (e :: l)) =
      E.text e :: l.map E.text := by
  have hbraced := braced_literal (E.text e ++ tailText (l.map E.text))
  rw [← List.append_assoc] at hbraced
  have hitems := splitLoop_items (l.map E.text) (E.text e) [lbrace] [] (E.skips e) (by
    intro y hy
    obtain ⟨f, -, rfl⟩ := List.mem_map.mp hy
    exact E.skips f)
  rw [build_cons, splitPgArrayItems, hbraced]
  refine Eq.trans ?_ hitems
  simp only [List.cons_append, List.nil_append, List.tail_cons, List.append_assoc]
  rfl

theorem mapM_decodeItem (l : List ε) :
    (l.map E.text).mapM (decodeItem E.convert E.zero) = some (l.map E.value) := by
  induction l with
  | nil => rfl
  | cons e l ih => simp [List.mapM_cons, E.decode_eq, ih]

/-- **Round trip**, for every list but the empty one. -/
theorem decode_build {l : List ε} (h : l ≠ []) :
    decodeVector E.convert E.zero (buildPgTextArrayLiteralAny E.append l) =
      some (l.map E.value) := by
  cases l with
  | nil => exact absurd rfl h
  | cons e l =>
      rw [decodeVector, splitPgArrayItems_build]
      exact mapM_decodeItem E (e :: l)

/-- The literal `{}` of the empty list is read as one empty item. -/
theorem decode_build_nil :
    decodeVector E.convert E.zero (buildPgTextArrayLiteralAny E.append []) ≠ some [] := by
  have hparts : splitPgArrayItems [lbrace, rbrace] = [[]] := by decide
  change decodeVector E.convert E.zero [lbrace, rbrace] ≠ some []
  rw [decodeVector, hparts]
  cases hitem : decodeItem E.convert E.zero [] with
  | none => simp [List.mapM_cons, hitem]
  | some v => simp [List.mapM_cons, hitem]

end

/-- An optional element: NULL comes back as `T{}`. -/
def Element.optional {ε α : Type} (E : Element ε α) : Element (Option ε) α where
  append := appendOptional E.append
  convert := E.convert
  zero := E.zero
  text e := e.elim nullText E.text
  value e := e.elim E.zero E.value
  append_eq := by
    intro s e
    cases e with
    | none => rfl
    | some v => exact E.append_eq s v
  skips := by
    intro e
    cases e with
    | none => exact skips_nullText
    | some v => exact E.skips v
  decode_eq := by
    intro e
    cases e with
    | none => rfl
    | some v => exact E.decode_eq v

/-! ## Strings -/

/-- The text of a string between its quotes. -/
def escape (text : Bytes) : Bytes :=
  text.flatMap fun ch => if ch = quote ∨ ch = backslash then [backslash, ch] else [ch]

@[simp] theorem escape_nil : escape [] = [] := rfl

theorem escape_cons_special {ch : UInt8} (h : ch = quote ∨ ch = backslash) (text : Bytes) :
    escape (ch :: text) = backslash :: ch :: escape text := by
  simp [escape, h]

theorem escape_cons_other {ch : UInt8} (h : ¬(ch = quote ∨ ch = backslash)) (text : Bytes) :
    escape (ch :: text) = ch :: escape text := by
  simp [escape, h]

theorem appendEscapedArrayElem_eq (s text : Bytes) :
    appendEscapedArrayElem s text = s ++ (quote :: escape text ++ [quote]) := by
  have hloop : ∀ (text acc : Bytes), text.foldl pushEscaped acc = acc ++ escape text := by
    intro text
    induction text with
    | nil => simp
    | cons ch text ih =>
        intro acc
        rw [List.foldl_cons, ih, pushEscaped]
        by_cases h : ch = quote ∨ ch = backslash
        · simp [escape_cons_special h, h]
        · simp [escape_cons_other h, h]
  rw [appendEscapedArrayElem, hloop]
  simp [List.append_assoc]

/-- Inside quotes the splitter goes on to the quote that closes them. -/
theorem splitLoop_escape {s rest : Bytes} {start : Nat} {items : List Bytes} (hrest : rest ≠ [])
    (text : Bytes) (i : Nat) :
    splitLoop s (escape text ++ quote :: rest) i start true items =
      splitLoop s rest (i + (escape text).length + 1) start false items := by
  have hqb : quote ≠ backslash := by decide
  induction text generalizing i with
  | nil =>
      rw [escape_nil, List.nil_append, splitLoop_cons hrest]
      simp [hqb]
  | cons ch text ih =>
      by_cases h : ch = quote ∨ ch = backslash
      · rw [escape_cons_special h, List.cons_append, splitLoop_cons (by simp)]
        simp only [if_true, List.cons_append, List.tail_cons, List.length_cons]
        rw [ih]
        congr 1
        omega
      · rw [escape_cons_other h, List.cons_append, splitLoop_cons (by simp)]
        obtain ⟨hquote, hback⟩ := not_or.mp h
        simp only [if_true, hquote, hback, if_false, List.length_cons]
        rw [ih]
        congr 1
        omega

theorem skips_quoted (text : Bytes) : Skips (quote :: escape text ++ [quote]) := by
  intro s rest i start items hrest
  rw [List.append_assoc, List.cons_append, splitLoop_cons (by simp)]
  simp only [Bool.false_eq_true, if_false, if_true, List.singleton_append]
  rw [splitLoop_escape hrest]
  congr 1
  simp only [List.length_cons, List.length_append, List.length_nil]
  omega

theorem unescapeLoop_cons {size i : Nat} {rest out : Bytes} {c : UInt8} (h : rest ≠ [])
    (hc : c ≠ backslash) :
    unescapeLoop size (c :: rest) i out = unescapeLoop size rest (i + 1) (out ++ [c]) := by
  cases rest with
  | nil => exact absurd rfl h
  | cons d rest => rw [unescapeLoop, if_neg fun hand => hc hand.1]

/-- The unescaper undoes the escaping. -/
theorem unescapeLoop_escape {size : Nat} (text : Bytes) (i : Nat) (out : Bytes)
    (hsize : i + (escape text).length + 1 = size) :
    unescapeLoop size (escape text ++ [quote]) i out = out ++ text := by
  induction text generalizing i out with
  | nil => simp [unescapeLoop]
  | cons ch text ih =>
      by_cases h : ch = quote ∨ ch = backslash
      · rw [escape_cons_special h] at hsize ⊢
        simp only [List.length_cons] at hsize
        rw [List.cons_append, List.cons_append, unescapeLoop, if_pos ⟨rfl, by omega⟩,
          ih _ _ (by omega)]
        simp
      · rw [escape_cons_other h] at hsize ⊢
        simp only [List.length_cons] at hsize
        rw [List.cons_append, unescapeLoop_cons (by simp) (not_or.mp h).2, ih _ _ (by omega)]
        simp

theorem parsePgTextElt_quoted (text : Bytes) :
    parsePgTextElt (quote :: escape text ++ [quote]) = (text, false) := by
  have hnull : quote :: escape text ++ [quote] ≠ nullText := by
    intro h
    exact absurd (List.cons.inj h).1 (by decide)
  rw [parsePgTextElt, if_neg hnull, if_pos ⟨rfl, List.getLast?_concat⟩]
  rw [List.cons_append, List.tail_cons, unescapeLoop_escape text 1 [] (by simp; omega)]
  rfl

/-- `std::string` elements. -/
def stringElement : Element Bytes Bytes where
  append := appendEscapedArrayElem
  convert := some
  zero := []
  text t := quote :: escape t ++ [quote]
  value := id
  append_eq := appendEscapedArrayElem_eq
  skips := skips_quoted
  decode_eq := by
    intro t
    rw [decodeItem, parsePgTextElt_quoted]
    rfl

/-! ## Integers -/

/-- A digit or a minus sign is no byte of array syntax, nor of NULL. -/
theorem plain_of_mem_print {v : Int} {b : UInt8} (h : b ∈ Decimal.print v) :
    b ≠ quote ∧ b ≠ comma ∧ b ≠ 0x4E := by
  rcases Decimal.mem_print h with hdigit | rfl
  · refine ⟨?_, ?_, ?_⟩ <;> rintro rfl <;> exact absurd hdigit (by decide)
  · decide

theorem parsePgTextElt_print (v : Int) :
    parsePgTextElt (Decimal.print v) = (Decimal.print v, false) := by
  have hnull : Decimal.print v ≠ nullText := by
    intro h
    exact (plain_of_mem_print (v := v) (b := 0x4E) (by rw [h]; decide)).2.2 rfl
  rw [parsePgTextElt, if_neg hnull, if_neg]
  rintro ⟨hhead, -⟩
  exact (plain_of_mem_print (List.mem_of_head? hhead)).1 rfl

theorem appendNumber_eq (s : Bytes) (v : Int64) :
    appendNumber s v.toInt = s ++ Decimal.print v.toInt := by
  have hbound : v.toInt.natAbs < 10 ^ 19 := by
    have := v.toInt_lt
    have := v.le_toInt
    omega
  have hlen := Decimal.length_print_le (by decide) hbound
  rw [appendNumber, Decimal.toChars, if_pos (by omega)]

theorem parseInt64_print (v : Int64) : parseInt64 (Decimal.print v.toInt) = some v := by
  have hlo : Int64.minValue.toInt ≤ v.toInt := by
    have := v.le_toInt
    simpa using this
  have hhi : v.toInt ≤ Int64.maxValue.toInt := by
    have := v.toInt_lt
    have hmax : Int64.maxValue.toInt = 2 ^ 63 - 1 := by decide
    omega
  rw [parseInt64, Decimal.fromChars_print hlo hhi]
  simp

/-- `int64_t` elements. -/
def int64Element : Element Int64 Int64 where
  append s v := appendNumber s v.toInt
  convert := parseInt64
  zero := 0
  text v := Decimal.print v.toInt
  value := id
  append_eq := appendNumber_eq
  skips v := skips_plain fun _ hb => ⟨(plain_of_mem_print hb).1, (plain_of_mem_print hb).2.1⟩
  decode_eq := by
    intro v
    rw [decodeItem, parsePgTextElt_print]
    exact parseInt64_print v

/-- **Array parameters come back unless they are empty.**  A list of byte strings, and a
list of `int64_t`s, is what `Decoder<std::vector<T>>` reads from its literal, exactly
when it is not empty. -/
theorem array_round_trip_iff (strings : List Bytes) (ints : List Int64) :
    (decodeStrings (buildStrings strings) = some strings ↔ strings ≠ []) ∧
      (decodeInt64s (buildInt64s ints) = some ints ↔ ints ≠ []) := by
  constructor
  · refine ⟨?_, fun h => (decode_build stringElement h).trans (by simp [stringElement])⟩
    rintro h rfl
    exact decode_build_nil stringElement h
  · refine ⟨?_, fun h => (decode_build int64Element h).trans (by simp [int64Element])⟩
    rintro h rfl
    exact decode_build_nil int64Element h

end Upq.ArrayText
