/-
  Wire/Rows.lean --- the parsers of ErrorResponse, RowDescription and DataRow.

  Source: `src/upq/PgTypes.cpp`, `parse_error_fields`, `parse_row_description_ex` and
  `parse_data_row_ex`; `include/upq/PgTypes.h`, `RowParseContext`.

  The parsers go over the payload by offset, so they are written over `Reads`, which keeps
  every index they evaluate.  Offsets are natural numbers: a vector holds fewer than
  2 ^ 63 bytes and a length that passed the sign test is below 2 ^ 31, so that no sum
  wraps.

  The two row parsers accept exactly the payloads that begin with a message of the
  protocol (`parsers_accept_exactly`), and the accesses of all three stay inside the
  payload except for one message: a DataRow cut off right after the length of an empty
  field (`in_bounds_iff`).
-/
import Upq.Foundation.Access
import Upq.Wire.Frames

set_option autoImplicit false

namespace Upq.Wire

open Upq.ArrayText (Bytes)
open Upq.Foundation.Access

/-! ## The parsers -/

/-- `RowParseContext` -/
structure RowParseContext where
  ok : Bool
  code : PgErrorCode
  msg : String
  deriving DecidableEq, Repr

/-- The context as both row parsers reset it. -/
def RowParseContext.reset : RowParseContext := ⟨true, .ok, ""⟩

def RowParseContext.failed (code : PgErrorCode) (msg : String) : RowParseContext :=
  ⟨false, code, msg⟩

/-- `rd16` -/
def rd16 (payload : Bytes) (ofs : Nat) : Reads UInt16 := do
  let hi ← elem payload ofs 0
  let lo ← elem payload (ofs + 1) 0
  return (hi.toUInt16 <<< 8) ||| lo.toUInt16

/-- `rd32` -/
def rd32 (payload : Bytes) (ofs : Nat) : Reads UInt32 := do
  let src ← span payload ofs 4
  return readBe32 (src.getD 0 0) (src.getD 1 0) (src.getD 2 0) (src.getD 3 0)

/-- `while (off < payload.size() && payload[off] != 0) off++` -/
def scanNul (payload : Bytes) (off : Nat) : Reads { stop : Nat // off ≤ stop } :=
  if off < payload.length then do
    let byte ← elem payload off 0
    if byte != 0 then do
      let stop ← scanNul payload (off + 1)
      return ⟨stop.1, Nat.le_of_succ_le stop.2⟩
    else return ⟨off, Nat.le_refl off⟩
  else return ⟨off, Nat.le_refl off⟩
termination_by payload.length - off

/-- `PgServerErrorFields` -/
structure PgServerErrorFields where
  severity : Bytes := []
  sqlstate : Bytes := []
  message : Bytes := []
  detail : Bytes := []
  hint : Bytes := []
  deriving DecidableEq, Repr

/-- The `switch` of `parse_error_fields`. -/
def PgServerErrorFields.set (f : PgServerErrorFields) (code : UInt8) (val : Bytes) :
    PgServerErrorFields :=
  if code = 'S'.toUInt8 then { f with severity := val }
  else if code = 'C'.toUInt8 then { f with sqlstate := val }
  else if code = 'M'.toUInt8 then { f with message := val }
  else if code = 'D'.toUInt8 then { f with detail := val }
  else if code = 'H'.toUInt8 then { f with hint := val }
  else f

/-- The loop of `parse_error_fields`. -/
def errorFieldsFrom (payload : Bytes) (i : Nat) (f : PgServerErrorFields) :
    Reads PgServerErrorFields :=
  if i < payload.length then do
    let code ← elem payload i 0
    if code = 0 then return f
    else
      let stop ← scanNul payload (i + 1)
      if stop.1 ≥ payload.length then return f
      else
        let val ← span payload (i + 1) (stop.1 - (i + 1))
        errorFieldsFrom payload (stop.1 + 1) (f.set code val)
  else return f
termination_by payload.length - i
decreasing_by
  have := stop.2
  omega

/-- `parse_error_fields` -/
def parseErrorFields (payload : Bytes) : Reads PgServerErrorFields :=
  errorFieldsFrom payload 0 {}

/-- The loop of `parse_row_description_ex`, with the number of columns still to come. -/
def rowDescriptionFrom (payload : Bytes) :
    Nat → Nat → List Bytes → Reads (List Bytes × RowParseContext)
  | 0, _, cols => return (cols, .reset)
  | left + 1, start, cols => do
      let stop ← scanNul payload start
      if stop.1 ≥ payload.length then
        return (cols, .failed .parserTruncatedHeader "column name not terminated")
      else
        let name ← span payload start (stop.1 - start)
        let off := stop.1 + 1
        if off + 18 > payload.length then
          return (cols,
            .failed .parserTruncatedHeader "row_description missing fixed tail (18 bytes)")
        else rowDescriptionFrom payload left (off + 18) (cols ++ [name])

/-- `parse_row_description_ex`; the columns passed in are cleared first -/
def parseRowDescriptionEx (payload : Bytes) : Reads (List Bytes × RowParseContext) :=
  if payload.length < 2 then
    return ([], .failed .parserTruncatedHeader "row_description too short (<2)")
  else do
    let nfields ← rd16 payload 0
    rowDescriptionFrom payload nfields.toNat 2 []

/-- The loop of `parse_data_row_ex`, with the number of fields still to come. -/
def dataRowFrom (payload : Bytes) :
    Nat → Nat → List Bytes → Reads (List Bytes × RowParseContext)
  | 0, _, cols => return (cols, .reset)
  | left + 1, off, cols =>
      if off + 4 > payload.length then
        return (cols ++ [[]], .failed .parserTruncatedField "no space for field length")
      else do
        let raw ← rd32 payload off
        let colLen : Int := raw.toInt32.toInt
        let off := off + 4
        if colLen = -1 then dataRowFrom payload left off (cols ++ [[]])
        else if colLen < 0 then
          return (cols ++ [[]], .failed .protocolCorrupt "negative col_len")
        else if off + colLen.toNat > payload.length then
          return (cols ++ [[]], .failed .parserTruncatedField "field overruns payload")
        else
          let cell ← span payload off colLen.toNat
          dataRowFrom payload left (off + colLen.toNat) (cols ++ [cell])

/-- `parse_data_row_ex`; `out_row` is appended to -/
def parseDataRowEx (payload : Bytes) (outRow : List Bytes) :
    Reads (List Bytes × RowParseContext) :=
  if payload.length < 2 then
    return (outRow, .failed .parserTruncatedRow "data_row too short (<2)")
  else do
    let ncols ← rd16 payload 0
    dataRowFrom payload ncols.toNat 2 outRow

/-! ## The messages of the protocol -/

/-- A 16-bit count, most significant byte first. -/
def countBytes (n : Nat) : Bytes := [UInt8.ofNat (n / 256), UInt8.ofNat n]

/-- One field of a DataRow. -/
inductive Field where
  | null
  | value (bytes : Bytes) (short : bytes.length < 2 ^ 31)

/-- The field as it is sent: the length -1, or the length and the bytes. -/
def Field.bytes : Field → Bytes
  | .null => writeBe32 0xFFFFFFFF
  | .value bytes _ => writeBe32 (UInt32.ofNat bytes.length) ++ bytes

/-- What the row holds for it. -/
def Field.cell : Field → Bytes
  | .null => []
  | .value bytes _ => bytes

/-- The empty string. -/
def Field.empty : Field := .value [] (by decide)

/-- One column of a RowDescription: its name, and the 18 bytes of the other attributes. -/
structure Column where
  name : Bytes
  attributes : Bytes
  terminated : 0 ∉ name
  fixed : attributes.length = 18

def Column.bytes (c : Column) : Bytes := c.name ++ 0 :: c.attributes

/-- A message that is a 16-bit count and that many items: a DataRow has fields, a
RowDescription columns. -/
structure Counted (ι : Type) where
  items : List ι
  few : items.length < 2 ^ 16

def Counted.bytes {ι : Type} (bytes : ι → Bytes) (m : Counted ι) : Bytes :=
  countBytes m.items.length ++ m.items.flatMap bytes

/-! ## The count -/

theorem toNat_count (hi lo : UInt8) :
    ((hi.toUInt16 <<< 8) ||| lo.toUInt16).toNat = hi.toNat * 256 + lo.toNat := by
  have hhi := hi.toNat_lt
  have hlo := lo.toNat_lt
  have hshift : hi.toNat <<< 8 % 2 ^ 16 = hi.toNat <<< 8 := by
    rw [Nat.shiftLeft_eq]
    omega
  have hbits : ((hi.toUInt16 <<< 8) ||| lo.toUInt16).toNat =
      hi.toNat <<< 8 % 2 ^ 16 ||| lo.toNat := by
    simp
  rw [hbits, hshift, ← Nat.shiftLeft_add_eq_or_of_lt hlo, Nat.shiftLeft_eq]

theorem countBytes_eq_iff {n : Nat} (hn : n < 2 ^ 16) (hi lo : UInt8) :
    countBytes n = [hi, lo] ↔ n = ((hi.toUInt16 <<< 8) ||| lo.toUInt16).toNat := by
  have hhi := hi.toNat_lt
  have hlo := lo.toNat_lt
  simp only [countBytes, List.cons.injEq, and_true, ← UInt8.toNat_inj, UInt8.toNat_ofNat',
    toNat_count]
  omega

/-! ## A count and that many items -/

section

variable {ι : Type} {payload : Bytes} {bytes cell : ι → Bytes}
  {loop : Nat → Nat → List Bytes → List Bytes × RowParseContext}

/-- What both row parsers have in common: a loop that takes one item off the payload in
each pass, or fails when no item is there. -/
structure Items (payload : Bytes) (bytes cell : ι → Bytes)
    (loop : Nat → Nat → List Bytes → List Bytes × RowParseContext) : Prop where
  done : ∀ off cols, loop 0 off cols = (cols, .reset)
  next : ∀ left off cols,
    ((loop (left + 1) off cols).2.ok = false ∧ ∀ x more, payload.drop off ≠ bytes x ++ more) ∨
    ∃ x more, payload.drop off = bytes x ++ more ∧
      loop (left + 1) off cols = loop left (off + (bytes x).length) (cols ++ [cell x])
  unique : ∀ x y more rest, bytes x ++ more = bytes y ++ rest → x = y

theorem drop_add_of_drop {off : Nat} {front more : Bytes} (h : payload.drop off = front ++ more) :
    payload.drop (off + front.length) = more := by
  rw [← List.drop_drop, h, List.drop_left]

/-- **Run rule.**  If that many items are there, the loop returns them. -/
theorem Items.complete (h : Items payload bytes cell loop) (xs : List ι) (off : Nat)
    (cols : List Bytes) {rest : Bytes} (hxs : payload.drop off = xs.flatMap bytes ++ rest) :
    loop xs.length off cols = (cols ++ xs.map cell, .reset) := by
  induction xs generalizing off cols with
  | nil => simpa using h.done off cols
  | cons x xs ih =>
      rw [List.flatMap_cons, List.append_assoc] at hxs
      rcases h.next xs.length off cols with ⟨-, hnone⟩ | ⟨y, more, hdrop, hloop⟩
      · exact absurd hxs (hnone x _)
      · -- The item the loop took is the one that is there.
        obtain rfl := h.unique x y _ _ (hxs.symm.trans hdrop)
        rw [List.length_cons, hloop, ih _ _ (drop_add_of_drop hxs), List.map_cons,
          List.append_assoc, List.singleton_append]

/-- **Run rule.**  If the loop ends well, that many items are there. -/
theorem Items.sound (h : Items payload bytes cell loop) (left off : Nat) (cols : List Bytes)
    (hok : (loop left off cols).2.ok = true) :
    ∃ (xs : List ι) (rest : Bytes), xs.length = left ∧
      payload.drop off = xs.flatMap bytes ++ rest := by
  induction left generalizing off cols with
  | zero => exact ⟨[], payload.drop off, rfl, rfl⟩
  | succ left ih =>
      rcases h.next left off cols with ⟨hfail, -⟩ | ⟨x, more, hdrop, hloop⟩
      · rw [hfail] at hok
        cases hok
      · rw [hloop] at hok
        obtain ⟨xs, rest, hlen, hxs⟩ := ih _ _ hok
        refine ⟨x :: xs, rest, congrArg (· + 1) hlen, ?_⟩
        rw [drop_add_of_drop hdrop] at hxs
        rw [hdrop, hxs, List.flatMap_cons, List.append_assoc]

end

/-! ## The columns of a RowDescription -/

section

variable {payload : Bytes}

/-- The scan stops at the first NUL, or at the end. -/
theorem scanNul_value (payload : Bytes) (off : Nat) :
    (scanNul payload off).value.1 =
      off + ((payload.drop off).takeWhile (· != 0)).length := by
  fun_induction scanNul payload off with
  | case1 off hoff ih =>
      rw [List.drop_eq_getElem_cons hoff, List.takeWhile_cons, value_bind, value_elem,
        List.getD_eq_getElem?_getD, List.getElem?_eq_getElem hoff, Option.getD_some]
      split
      · rw [value_bind, value_pure, ih, List.length_cons]
        omega
      · rfl
  | case2 off hoff =>
      rw [List.drop_eq_nil_of_le (Nat.not_lt.mp hoff)]
      rfl

theorem takeWhile_terminated {name rest : Bytes} (h : 0 ∉ name) :
    (name ++ 0 :: rest).takeWhile (· != 0) = name := by
  rw [List.takeWhile_append_of_pos]
  · simp
  · intro byte hbyte
    exact bne_iff_ne.mpr fun hzero => h (hzero ▸ hbyte)

theorem Column.bytes_append (c : Column) (more : Bytes) :
    c.bytes ++ more = c.name ++ 0 :: (c.attributes ++ more) := by
  rw [Column.bytes, List.append_assoc, List.cons_append]

/-- A column ends its name at the first NUL. -/
theorem Column.eq_of_append {c : Column} {name more rest : Bytes} (hname : 0 ∉ name)
    (h : c.bytes ++ more = name ++ 0 :: rest) : c.name = name ∧ c.attributes ++ more = rest := by
  rw [c.bytes_append] at h
  have hsame : c.name = name := by
    rw [← takeWhile_terminated c.terminated, h, takeWhile_terminated hname]
  rw [hsame] at h
  exact ⟨hsame, (List.cons.inj (List.append_cancel_left h)).2⟩

theorem Column.unique {c d : Column} {more rest : Bytes} (h : c.bytes ++ more = d.bytes ++ rest) :
    c = d := by
  rw [d.bytes_append] at h
  obtain ⟨hname, hafter⟩ := Column.eq_of_append d.terminated h
  have hattributes := (List.append_inj hafter (c.fixed.trans d.fixed.symm)).1
  cases c
  cases d
  subst hname hattributes
  rfl

/-- What stands at the front of some bytes: no name, a name without the attributes, or a
column. -/
theorem Column.front_cases (bytes : Bytes) :
    (0 ∉ bytes ∧ ∀ (c : Column) (more : Bytes), bytes ≠ c.bytes ++ more) ∨
      ∃ name after, bytes = name ++ 0 :: after ∧ 0 ∉ name ∧
        ((after.length < 18 ∧ ∀ (c : Column) (more : Bytes), bytes ≠ c.bytes ++ more) ∨
          ∃ (c : Column) (more : Bytes), c.name = name ∧ after = c.attributes ++ more) := by
  by_cases hnul : (0 : UInt8) ∈ bytes
  · obtain ⟨name, after, rfl, hname⟩ := List.eq_append_cons_of_mem hnul
    refine .inr ⟨name, after, rfl, hname, ?_⟩
    by_cases hshort : after.length < 18
    · refine .inl ⟨hshort, fun c more hc => ?_⟩
      have hlen := congrArg List.length (Column.eq_of_append hname hc.symm).2
      rw [List.length_append, c.fixed] at hlen
      omega
    · have hfixed : (after.take 18).length = 18 := by
        rw [List.length_take]
        omega
      exact .inr ⟨⟨name, after.take 18, hname, hfixed⟩, after.drop 18, rfl,
        (List.take_append_drop 18 after).symm⟩
  · refine .inl ⟨hnul, fun c more hc => hnul ?_⟩
    rw [hc, c.bytes_append]
    exact List.mem_append_right _ List.mem_cons_self

/-- **Step rule.**  One pass of the loop of `parse_row_description_ex`. -/
theorem rowDescriptionFrom_items (payload : Bytes) :
    Items payload Column.bytes Column.name
      fun left off cols => (rowDescriptionFrom payload left off cols).value where
  done _ _ := rfl
  next left off cols := by
    have hstop := scanNul_value payload off
    have hlen := List.length_drop (i := off) (l := payload)
    rcases Column.front_cases (payload.drop off) with
      ⟨hnul, hnone⟩ | ⟨name, after, hdrop, hname, hfront⟩
    · have hall : (payload.drop off).takeWhile (· != 0) = payload.drop off :=
        List.takeWhile_eq_self_iff.mpr fun byte hbyte =>
          bne_iff_ne.mpr fun hzero => hnul (hzero ▸ hbyte)
      rw [hall] at hstop
      have hend : (scanNul payload off).value.1 ≥ payload.length := by omega
      refine .inl ⟨?_, hnone⟩
      simp only [rowDescriptionFrom, value_bind, if_pos hend]
      rfl
    · rw [hdrop, takeWhile_terminated hname] at hstop
      rw [hdrop, List.length_append, List.length_cons] at hlen
      have hinside : ¬ (scanNul payload off).value.1 ≥ payload.length := by omega
      have hcell : (payload.drop off).take ((scanNul payload off).value.1 - off) = name := by
        rw [hstop, hdrop, Nat.add_sub_cancel_left, List.take_left]
      simp only [rowDescriptionFrom, value_bind, if_neg hinside, value_span, hcell]
      rcases hfront with ⟨hshort, hnone⟩ | ⟨c, more, rfl, rfl⟩
      · have htail : (scanNul payload off).value.1 + 1 + 18 > payload.length := by omega
        refine .inl ⟨?_, hnone⟩
        rw [if_pos htail]
        rfl
      · rw [List.length_append, c.fixed] at hlen
        have htail : ¬ (scanNul payload off).value.1 + 1 + 18 > payload.length := by omega
        have hoff : (scanNul payload off).value.1 + 1 + 18 = off + c.bytes.length := by
          rw [Column.bytes, List.length_append, List.length_cons, c.fixed]
          omega
        refine .inr ⟨c, more, ?_, ?_⟩
        · rw [hdrop, c.bytes_append]
        · rw [if_neg htail, hoff]
  unique _ _ _ _ := Column.unique

end

/-! ## The fields of a DataRow -/

theorem eq_nullLength_iff (raw : UInt32) : raw = 0xFFFFFFFF ↔ raw.toNat = 2 ^ 32 - 1 := by
  rw [← UInt32.toNat_inj]
  rfl

/-- The length as `int32_t`: -1, another negative number, or a length. -/
theorem toInt32_cases (raw : UInt32) :
    (raw.toInt32.toInt = -1 ∧ raw = 0xFFFFFFFF) ∨
      (raw.toInt32.toInt < -1 ∧ raw ≠ 0xFFFFFFFF ∧ ¬ raw.toNat < 2 ^ 31) ∨
      (raw.toInt32.toInt = raw.toNat ∧ raw.toNat < 2 ^ 31) := by
  have hlt := raw.toNat_lt
  have hint : raw.toInt32.toInt =
      if 2 * raw.toNat < 2 ^ 32 then (raw.toNat : Int) else raw.toNat - 2 ^ 32 :=
    BitVec.toInt_eq_toNat_cond raw.toBitVec
  rw [ne_eq, eq_nullLength_iff]
  split at hint <;> omega

theorem toNat_fieldLength {bytes : Bytes} (h : bytes.length < 2 ^ 31) :
    (UInt32.ofNat bytes.length).toNat = bytes.length := by
  rw [UInt32.toNat_ofNat']
  omega

section

variable {raw : UInt32} {more rest : Bytes}

theorem writeBe32_append_inj {v w : UInt32} :
    writeBe32 v ++ more = writeBe32 w ++ rest ↔ v = w ∧ more = rest := by
  constructor
  · intro h
    obtain ⟨hword, hrest⟩ := List.append_inj h rfl
    exact ⟨writeBe32_injective hword, hrest⟩
  · rintro ⟨rfl, rfl⟩
    rfl

theorem Field.null_append_eq_iff :
    Field.null.bytes ++ more = writeBe32 raw ++ rest ↔ raw = 0xFFFFFFFF ∧ more = rest := by
  rw [Field.bytes, writeBe32_append_inj, eq_comm (b := raw)]

theorem Field.value_append_eq_iff {bytes : Bytes} (short : bytes.length < 2 ^ 31) :
    (Field.value bytes short).bytes ++ more = writeBe32 raw ++ rest ↔
      raw.toNat = bytes.length ∧ bytes ++ more = rest := by
  rw [Field.bytes, List.append_assoc, writeBe32_append_inj, eq_comm (b := raw),
    ← UInt32.toNat_inj, toNat_fieldLength short]

/-- The length in front of a field is -1, or counts bytes that are there. -/
theorem Field.of_append_eq {f : Field} (h : f.bytes ++ more = writeBe32 raw ++ rest) :
    raw = 0xFFFFFFFF ∨ raw.toNat < 2 ^ 31 ∧ raw.toNat ≤ rest.length := by
  cases f with
  | null => exact .inl (Field.null_append_eq_iff.mp h).1
  | value bytes short =>
      obtain ⟨hword, rfl⟩ := (Field.value_append_eq_iff short).mp h
      rw [hword, List.length_append]
      exact .inr ⟨short, Nat.le_add_right _ _⟩

theorem Field.exists_value (hsmall : raw.toNat < 2 ^ 31) (hfits : raw.toNat ≤ rest.length) :
    ∃ (content more : Bytes) (short : content.length < 2 ^ 31),
      raw.toNat = content.length ∧ rest = content ++ more ∧
        writeBe32 raw ++ rest = (Field.value content short).bytes ++ more := by
  have hlen : (rest.take raw.toNat).length = raw.toNat := by
    rw [List.length_take, Nat.min_eq_left hfits]
  have hsplit := (List.take_append_drop raw.toNat rest).symm
  have short : (rest.take raw.toNat).length < 2 ^ 31 := hlen.symm ▸ hsmall
  exact ⟨rest.take raw.toNat, rest.drop raw.toNat, short, hlen.symm, hsplit,
    ((Field.value_append_eq_iff short).mpr ⟨hlen.symm, hsplit.symm⟩).symm⟩

/-- Every field has a length in front. -/
theorem Field.bytes_eq (f : Field) : ∃ raw rest, f.bytes = writeBe32 raw ++ rest := by
  cases f with
  | null => exact ⟨_, [], (List.append_nil _).symm⟩
  | value bytes short => exact ⟨_, bytes, rfl⟩

/-- What stands behind a length: nothing of a NULL, no field because the length is negative
or counts too many bytes, or the bytes of a value. -/
theorem Field.front_cases (raw : UInt32) (rest : Bytes) :
    (raw.toInt32.toInt = -1 ∧ writeBe32 raw ++ rest = Field.null.bytes ++ rest) ∨
      (raw.toInt32.toInt < -1 ∧
        ∀ (f : Field) (more : Bytes), writeBe32 raw ++ rest ≠ f.bytes ++ more) ∨
      (raw.toInt32.toInt = raw.toNat ∧ rest.length < raw.toNat ∧
        ∀ (f : Field) (more : Bytes), writeBe32 raw ++ rest ≠ f.bytes ++ more) ∨
      ∃ (content more : Bytes) (short : content.length < 2 ^ 31),
        raw.toInt32.toInt = content.length ∧ rest = content ++ more ∧
          writeBe32 raw ++ rest = (Field.value content short).bytes ++ more := by
  rcases toInt32_cases raw with ⟨hint, hnull⟩ | ⟨hint, hnull, hbig⟩ | ⟨hint, hsmall⟩
  · exact .inl ⟨hint, (Field.null_append_eq_iff.mpr ⟨hnull, rfl⟩).symm⟩
  · refine .inr (.inl ⟨hint, fun f more hf => ?_⟩)
    rcases Field.of_append_eq hf.symm with h | h
    · exact hnull h
    · exact hbig h.1
  · by_cases hfits : raw.toNat ≤ rest.length
    · obtain ⟨content, more, short, hword, hsplit, hfield⟩ := Field.exists_value hsmall hfits
      rw [hword] at hint
      exact .inr (.inr (.inr ⟨content, more, short, hint, hsplit, hfield⟩))
    · refine .inr (.inr (.inl ⟨hint, Nat.not_le.mp hfits, fun f more hf => ?_⟩))
      rcases Field.of_append_eq hf.symm with h | h
      · rw [(eq_nullLength_iff raw).mp h] at hsmall
        omega
      · exact hfits h.2

end

theorem Field.value_eq_empty_iff {bytes : Bytes} (short : bytes.length < 2 ^ 31) :
    Field.value bytes short = .empty ↔ bytes = [] := by
  rw [Field.empty, Field.value.injEq]

theorem Field.unique {f g : Field} {more rest : Bytes} (h : f.bytes ++ more = g.bytes ++ rest) :
    f = g := by
  obtain ⟨raw, tail, hbytes⟩ := g.bytes_eq
  have hg : g.bytes ++ rest = writeBe32 raw ++ (tail ++ rest) := by
    rw [hbytes, List.append_assoc]
  rw [hg] at h
  cases f with
  | null =>
      have hf := Field.null_append_eq_iff.mp h
      cases g with
      | null => rfl
      | value bytes short =>
          have hword := ((Field.value_append_eq_iff short).mp hg).1
          rw [(eq_nullLength_iff _).mp hf.1] at hword
          omega
  | value bytes short =>
      have hf := (Field.value_append_eq_iff short).mp h
      cases g with
      | null =>
          have hword := (Field.null_append_eq_iff.mp hg).1
          rw [(eq_nullLength_iff _).mp hword] at hf
          omega
      | value bytes' short' =>
          have hg' := (Field.value_append_eq_iff short').mp hg
          obtain ⟨rfl, -⟩ := List.append_inj (hf.2.trans hg'.2.symm) (hf.1.symm.trans hg'.1)
          rfl

/-- Where a word is left, `rd32` reads it and stays inside. -/
theorem rd32_of_drop {payload rest : Bytes} {off : Nat} {raw : UInt32}
    (h : payload.drop off = writeBe32 raw ++ rest) :
    (rd32 payload off).value = raw ∧ InBounds payload.length (rd32 payload off) := by
  have hlen := congrArg List.length h
  rw [List.length_drop, List.length_append, length_writeBe32] at hlen
  constructor
  · rw [rd32, value_bind, value_span, h, List.take_left' (length_writeBe32 raw)]
    exact readBe32_writeBe32 raw
  · simp only [rd32, inBounds_bind, inBounds_span, inBounds_pure, and_true]
    omega

/-- **Step rule.**  One pass of the loop of `parse_data_row_ex`. -/
theorem dataRowFrom_next (payload : Bytes) (left off : Nat) (cols : List Bytes) :
    ((dataRowFrom payload (left + 1) off cols).value.2.ok = false ∧
        InBounds payload.length (dataRowFrom payload (left + 1) off cols) ∧
        ∀ (f : Field) (more : Bytes), payload.drop off ≠ f.bytes ++ more) ∨
      ∃ (f : Field) (more : Bytes), payload.drop off = f.bytes ++ more ∧
        (dataRowFrom payload (left + 1) off cols).value =
          (dataRowFrom payload left (off + f.bytes.length) (cols ++ [f.cell])).value ∧
        (InBounds payload.length (dataRowFrom payload (left + 1) off cols) ↔
          (f = .empty → more ≠ []) ∧
            InBounds payload.length
              (dataRowFrom payload left (off + f.bytes.length) (cols ++ [f.cell]))) := by
  have hlen := List.length_drop (i := off) (l := payload)
  rw [dataRowFrom]
  by_cases hroom : off + 4 > payload.length
  · rw [if_pos hroom]
    refine .inl ⟨rfl, inBounds_pure _ _, ?_⟩
    intro f more hf
    obtain ⟨raw, rest, hbytes⟩ := f.bytes_eq
    rw [hf, hbytes, List.length_append, List.length_append, length_writeBe32] at hlen
    omega
  obtain ⟨raw, rest, hdrop⟩ := exists_word (by omega : 4 ≤ (payload.drop off).length)
  obtain ⟨hraw, hread⟩ := rd32_of_drop hdrop
  have hrest : payload.drop (off + 4) = rest := drop_add_of_drop hdrop
  rw [hdrop, List.length_append, length_writeBe32] at hlen
  simp only [if_neg hroom, value_bind, inBounds_bind, hraw, hread, true_and, hdrop]
  rcases Field.front_cases raw rest with
    ⟨hint, hnull⟩ | ⟨hint, hnone⟩ | ⟨hint, hover, hnone⟩ | ⟨content, more, short, hint, rfl, hfield⟩
  · simp only [if_pos hint]
    exact .inr ⟨.null, rest, hnull, rfl, fun h => ⟨(fun h => by cases h), h⟩, fun h => h.2⟩
  · simp only [if_neg hint.ne, if_pos (hint.trans (by decide : (-1 : Int) < 0))]
    exact .inl ⟨rfl, inBounds_pure _ _, hnone⟩
  · have hnotNull : ¬ (raw.toNat : Int) = -1 := by omega
    have hnotNeg : ¬ (raw.toNat : Int) < 0 := by omega
    have hoverrun : off + 4 + raw.toNat > payload.length := by omega
    simp only [hint, if_neg hnotNull, if_neg hnotNeg, Int.toNat_natCast, if_pos hoverrun]
    exact .inl ⟨rfl, inBounds_pure _ _, hnone⟩
  · -- The field is inside the payload; only its address may lie at the end.
    rw [List.length_append] at hlen
    have hnotNull : ¬ (content.length : Int) = -1 := by omega
    have hnotNeg : ¬ (content.length : Int) < 0 := by omega
    have hfits : ¬ off + 4 + content.length > payload.length := by omega
    have hcell : (payload.drop (off + 4)).take content.length = content := by
      rw [hrest, List.take_left]
    have hbytes : off + 4 + content.length = off + (Field.value content short).bytes.length := by
      rw [Field.bytes, List.length_append, length_writeBe32, Nat.add_assoc]
    have hinside : off + 4 < payload.length ↔
        (Field.value content short = .empty → more ≠ []) := by
      rw [Field.value_eq_empty_iff, ← List.length_eq_zero_iff, ne_eq, ← List.length_eq_zero_iff]
      omega
    simp only [hint, if_neg hnotNull, if_neg hnotNeg, Int.toNat_natCast, if_neg hfits, value_span,
      value_bind, inBounds_bind, inBounds_span, hcell]
    refine .inr ⟨.value content short, more, hfield, ?_, ?_⟩
    · rw [hbytes]
      rfl
    · rw [← hinside, ← hbytes]
      exact and_congr_left fun _ => ⟨fun h => h.1, fun h => ⟨h, Nat.not_lt.mp hfits⟩⟩

theorem dataRowFrom_items (payload : Bytes) :
    Items payload Field.bytes Field.cell
      fun left off cols => (dataRowFrom payload left off cols).value where
  done _ _ := rfl
  next left off cols := by
    rcases dataRowFrom_next payload left off cols with ⟨hfail, -, hnone⟩ | ⟨f, more, hf, hloop, -⟩
    · exact .inl ⟨hfail, hnone⟩
    · exact .inr ⟨f, more, hf, hloop⟩
  unique _ _ _ _ := Field.unique

/-! ## The row parsers accept exactly the messages -/

theorem rd16_cons_cons (hi lo : UInt8) (body : Bytes) :
    (rd16 (hi :: lo :: body) 0).value = (hi.toUInt16 <<< 8) ||| lo.toUInt16 ∧
      InBounds (hi :: lo :: body).length (rd16 (hi :: lo :: body) 0) := by
  constructor
  · rfl
  · simp [rd16]

section

variable {ι : Type} {payload : Bytes} {bytes cell : ι → Bytes}
  {loop : Nat → Nat → List Bytes → List Bytes × RowParseContext} {hi lo : UInt8} {body : Bytes}

theorem countBytes_append_eq_iff {n : Nat} (hn : n < 2 ^ 16) {more : Bytes} :
    countBytes n ++ more = hi :: lo :: body ↔
      n = ((hi.toUInt16 <<< 8) ||| lo.toUInt16).toNat ∧ more = body := by
  rw [← countBytes_eq_iff hn]
  constructor
  · intro h
    exact List.append_inj (h : countBytes n ++ more = [hi, lo] ++ body) rfl
  · rintro ⟨hcount, rfl⟩
    rw [hcount]
    rfl

/-- A parser accepts exactly the payloads that begin with a message of such items, and
returns what the items hold. -/
structure AcceptsExactly (parsed : List Bytes × RowParseContext) (payload : Bytes)
    (bytes cell : ι → Bytes) : Prop where
  ok_iff : parsed.2.ok = true ↔ ∃ (m : Counted ι) (rest : Bytes), payload = m.bytes bytes ++ rest
  returns : ∀ (m : Counted ι) (rest : Bytes), payload = m.bytes bytes ++ rest →
    parsed.1 = m.items.map cell

/-- No message fits into one byte. -/
theorem AcceptsExactly.of_short {parsed : List Bytes × RowParseContext}
    (hshort : payload.length < 2) (hfail : parsed.2.ok = false) :
    AcceptsExactly parsed payload bytes cell := by
  have hnone : ∀ (m : Counted ι) (rest : Bytes), payload ≠ m.bytes bytes ++ rest := by
    rintro m rest rfl
    rw [Counted.bytes, List.length_append, List.length_append, countBytes, List.length_cons,
      List.length_singleton] at hshort
    omega
  constructor
  · rw [hfail]
    exact ⟨nofun, fun ⟨m, rest, h⟩ => absurd h (hnone m rest)⟩
  · intro m rest h
    exact absurd h (hnone m rest)

/-- With the count read, the loop decides. -/
theorem Items.accepts (h : Items (hi :: lo :: body) bytes cell loop) :
    AcceptsExactly (loop ((hi.toUInt16 <<< 8) ||| lo.toUInt16).toNat 2 []) (hi :: lo :: body)
      bytes cell := by
  have hreturns : ∀ (m : Counted ι) (rest : Bytes), hi :: lo :: body = m.bytes bytes ++ rest →
      loop ((hi.toUInt16 <<< 8) ||| lo.toUInt16).toNat 2 [] = (m.items.map cell, .reset) := by
    intro m rest hbytes
    rw [Counted.bytes, List.append_assoc] at hbytes
    obtain ⟨hcount, hbody⟩ := (countBytes_append_eq_iff m.few).mp hbytes.symm
    rw [← hcount]
    simpa using h.complete m.items 2 [] hbody.symm
  refine ⟨⟨?_, ?_⟩, fun m rest hbytes => congrArg Prod.fst (hreturns m rest hbytes)⟩
  · intro hok
    obtain ⟨xs, rest, hlen, hbody⟩ := h.sound _ 2 [] hok
    have hfew : xs.length < 2 ^ 16 := hlen ▸ UInt16.toNat_lt _
    refine ⟨⟨xs, hfew⟩, rest, ?_⟩
    rw [Counted.bytes, List.append_assoc]
    exact ((countBytes_append_eq_iff hfew).mpr ⟨hlen, hbody.symm⟩).symm
  · rintro ⟨m, rest, hbytes⟩
    rw [hreturns m rest hbytes]
    rfl

end

theorem exists_two_of_length {bytes : Bytes} (h : ¬ bytes.length < 2) :
    ∃ hi lo body, bytes = hi :: lo :: body := by
  match bytes, h with
  | hi :: lo :: body, _ => exact ⟨hi, lo, body, rfl⟩
  | [], h | [_], h => exact absurd (by simp) h

theorem parseDataRowEx_cons_cons (hi lo : UInt8) (body : Bytes) (outRow : List Bytes) :
    parseDataRowEx (hi :: lo :: body) outRow =
      rd16 (hi :: lo :: body) 0 >>= fun ncols =>
        dataRowFrom (hi :: lo :: body) ncols.toNat 2 outRow := by
  have hlen : ¬ (hi :: lo :: body).length < 2 := by simp
  rw [parseDataRowEx, if_neg hlen]

theorem parseRowDescriptionEx_cons_cons (hi lo : UInt8) (body : Bytes) :
    parseRowDescriptionEx (hi :: lo :: body) =
      rd16 (hi :: lo :: body) 0 >>= fun nfields =>
        rowDescriptionFrom (hi :: lo :: body) nfields.toNat 2 [] := by
  have hlen : ¬ (hi :: lo :: body).length < 2 := by simp
  rw [parseRowDescriptionEx, if_neg hlen]

/-- **The row parsers accept exactly the messages.**  Bytes behind the message are ignored. -/
theorem parsers_accept_exactly (payload : Bytes) :
    AcceptsExactly (parseDataRowEx payload []).value payload Field.bytes Field.cell ∧
      AcceptsExactly (parseRowDescriptionEx payload).value payload Column.bytes Column.name := by
  by_cases hshort : payload.length < 2
  · rw [parseDataRowEx, parseRowDescriptionEx, if_pos hshort, if_pos hshort]
    exact ⟨.of_short hshort rfl, .of_short hshort rfl⟩
  · obtain ⟨hi, lo, body, rfl⟩ := exists_two_of_length hshort
    rw [parseDataRowEx_cons_cons, parseRowDescriptionEx_cons_cons, value_bind, value_bind,
      (rd16_cons_cons hi lo body).1]
    exact ⟨(dataRowFrom_items _).accepts, (rowDescriptionFrom_items _).accepts⟩

/-! ## Accesses -/

theorem scanNul_inBounds (payload : Bytes) (off : Nat) :
    InBounds payload.length (scanNul payload off) := by
  fun_induction scanNul payload off with
  | case1 off hoff ih =>
      rw [inBounds_bind, inBounds_elem]
      refine ⟨hoff, ?_⟩
      split
      · rw [inBounds_bind]
        exact ⟨ih, inBounds_pure _ _⟩
      · exact inBounds_pure _ _
  | case2 off hoff => exact inBounds_pure _ _

/-- A name or a value is taken before its NUL. -/
theorem span_inBounds {payload : Bytes} {start : Nat} {stop : { stop : Nat // start ≤ stop }}
    (h : ¬ stop.1 ≥ payload.length) :
    InBounds payload.length (span payload start (stop.1 - start)) := by
  have hstop := stop.2
  rw [inBounds_span]
  omega

theorem errorFieldsFrom_inBounds (payload : Bytes) (i : Nat) (f : PgServerErrorFields) :
    InBounds payload.length (errorFieldsFrom payload i f) := by
  fun_induction errorFieldsFrom payload i f with
  | case1 i f hi ih =>
      rw [inBounds_bind, inBounds_elem]
      refine ⟨hi, ?_⟩
      split
      · exact inBounds_pure _ _
      · rw [inBounds_bind]
        refine ⟨scanNul_inBounds payload (i + 1), ?_⟩
        split
        · exact inBounds_pure _ _
        · rename_i hinside
          rw [inBounds_bind]
          exact ⟨span_inBounds hinside, ih _ _ hinside _⟩
  | case2 i f hi => exact inBounds_pure _ _

theorem rowDescriptionFrom_inBounds (payload : Bytes) (left start : Nat) (cols : List Bytes) :
    InBounds payload.length (rowDescriptionFrom payload left start cols) := by
  induction left generalizing start cols with
  | zero => exact inBounds_pure _ _
  | succ left ih =>
      rw [rowDescriptionFrom, inBounds_bind]
      refine ⟨scanNul_inBounds payload start, ?_⟩
      split
      · exact inBounds_pure _ _
      · rename_i hinside
        rw [inBounds_bind]
        refine ⟨span_inBounds hinside, ?_⟩
        dsimp only
        split
        · exact inBounds_pure _ _
        · exact ih _ _

/-- A DataRow that breaks off right after the length of an empty field. -/
def EndsInEmptyField (payload : Bytes) : Prop :=
  ∃ (n : Nat) (fields : List Field), n < 2 ^ 16 ∧ fields.length < n ∧
    payload = countBytes n ++ (fields.flatMap Field.bytes ++ Field.empty.bytes)

/-- An empty field at the end is the first field, or comes after it. -/
theorem endsInEmpty_cons_iff (f : Field) (more : Bytes) (left : Nat) :
    (∃ fields : List Field, fields.length < left + 1 ∧
        f.bytes ++ more = fields.flatMap Field.bytes ++ Field.empty.bytes) ↔
      (f = .empty ∧ more = []) ∨
        ∃ fields : List Field, fields.length < left ∧
          more = fields.flatMap Field.bytes ++ Field.empty.bytes := by
  constructor
  · rintro ⟨fields, hlen, h⟩
    cases fields with
    | nil =>
        have hnil : f.bytes ++ more = Field.empty.bytes ++ [] := by simpa using h
        obtain rfl := Field.unique hnil
        exact .inl ⟨rfl, List.append_cancel_left hnil⟩
    | cons g gs =>
        rw [List.flatMap_cons, List.append_assoc] at h
        obtain rfl := Field.unique h
        exact .inr ⟨gs, Nat.lt_of_succ_lt_succ hlen, List.append_cancel_left h⟩
  · rintro (⟨rfl, rfl⟩ | ⟨fields, hlen, rfl⟩)
    · exact ⟨[], Nat.succ_pos left, by simp⟩
    · refine ⟨f :: fields, Nat.succ_lt_succ hlen, ?_⟩
      rw [List.flatMap_cons, List.append_assoc]

/-- **Run rule.**  The only access outside is the address of an empty field at the end. -/
theorem dataRowFrom_inBounds_iff (payload : Bytes) (left off : Nat) (cols : List Bytes) :
    InBounds payload.length (dataRowFrom payload left off cols) ↔
      ¬ ∃ fields : List Field, fields.length < left ∧
        payload.drop off = fields.flatMap Field.bytes ++ Field.empty.bytes := by
  induction left generalizing off cols with
  | zero =>
      refine iff_of_true (inBounds_pure _ _) ?_
      rintro ⟨fields, hlen, -⟩
      exact absurd hlen (Nat.not_lt_zero _)
  | succ left ih =>
      rcases dataRowFrom_next payload left off cols with
        ⟨-, hinside, hnone⟩ | ⟨f, more, hdrop, -, hbounds⟩
      · refine iff_of_true hinside ?_
        rintro ⟨fields, -, hfields⟩
        cases fields with
        | nil => exact hnone .empty [] (by rw [hfields]; simp)
        | cons g gs => exact hnone g _ (by rw [hfields, List.flatMap_cons, List.append_assoc])
      · rw [hbounds, ih, drop_add_of_drop hdrop, hdrop, endsInEmpty_cons_iff, not_or, not_and]

/-- **The parsers stay in bounds except at an empty field at the end.** -/
theorem in_bounds_iff (payload : Bytes) :
    (InBounds payload.length (parseErrorFields payload) ∧
        InBounds payload.length (parseRowDescriptionEx payload) ∧
        ∀ outRow, InBounds payload.length (parseDataRowEx payload outRow)) ↔
      ¬ EndsInEmptyField payload := by
  have herror : InBounds payload.length (parseErrorFields payload) :=
    errorFieldsFrom_inBounds payload 0 {}
  rw [and_iff_right herror]
  by_cases hshort : payload.length < 2
  · refine iff_of_true ⟨?_, fun outRow => ?_⟩ ?_
    · rw [parseRowDescriptionEx, if_pos hshort]
      exact inBounds_pure _ _
    · rw [parseDataRowEx, if_pos hshort]
      exact inBounds_pure _ _
    · rintro ⟨n, fields, -, -, rfl⟩
      rw [List.length_append, countBytes, List.length_cons, List.length_singleton] at hshort
      omega
  · obtain ⟨hi, lo, body, rfl⟩ := exists_two_of_length hshort
    obtain ⟨hcount, hrd16⟩ := rd16_cons_cons hi lo body
    simp only [parseDataRowEx_cons_cons, parseRowDescriptionEx_cons_cons, inBounds_bind, hrd16,
      rowDescriptionFrom_inBounds, true_and, hcount, dataRowFrom_inBounds_iff, forall_const]
    refine not_congr ⟨?_, ?_⟩
    · rintro ⟨fields, hlen, hbody⟩
      refine ⟨_, fields, UInt16.toNat_lt _, hlen, ?_⟩
      exact ((countBytes_append_eq_iff (UInt16.toNat_lt _)).mpr ⟨rfl, hbody.symm⟩).symm
    · rintro ⟨n, fields, hn, hlen, hbytes⟩
      obtain ⟨rfl, hbody⟩ := (countBytes_append_eq_iff hn).mp hbytes.symm
      exact ⟨fields, hlen, hbody.symm⟩

/-- One empty field and nothing behind it. -/
theorem empty_field_at_end :
    ¬ InBounds ([0, 1, 0, 0, 0, 0] : Bytes).length (parseDataRowEx [0, 1, 0, 0, 0, 0] []) := by
  intro h
  exact absurd (h 6 (by decide +kernel)) (by decide)

end Upq.Wire
