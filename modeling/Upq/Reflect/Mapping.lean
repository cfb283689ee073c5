/-
  Reflect/Mapping.lean --- rows as aggregates: by column name, or by position.

  Source: `include/upq/PgReflect.h`, `normalize_ident`, `make_named_plan`, `decode_named`,
  `fill_from_row_positional_ex`, the `map_*_reflect_positional` functions,
  `map_rows_named_or_positional` and `map_row_named_or_positional`;
  `include/upq/PgRowStream.h`, `PgTypedRowStream::map`.

  An aggregate type is the list of its fields, and a field is its name, the name of its
  type and its `Decoder`.  A `std::runtime_error` is the `Except.error` of its text.

  The whole-result mapping turns to positions for every row as soon as one row fails by
  name, the other two only for that row.  They agree at a row unless another row fails
  by name and this row reads differently by name and by position (`mapping_paths_agree_iff`).
-/
import Upq.Reflect.Cells
import Mathlib.Data.List.Forall2

set_option autoImplicit false

namespace Upq.Reflect

open Upq.ArrayText

/-! ## Aggregates -/

/-- A field of an aggregate; `decode` is `Decoder<FieldT>::apply`. -/
structure Field where
  name : String
  typeName : String
  Value : Type
  decode : String → Option Value

/-- The values of the fields. -/
def Values : List Field → Type
  | [] => Unit
  | f :: fs => f.Value × Values fs

/-- `ReflectAggregate`: an aggregate has at least one member. -/
structure Aggregate where
  fields : List Field
  nonempty : fields ≠ []

/-- The number of members. -/
def Aggregate.size (T : Aggregate) : Nat := T.fields.length

/-- The values of an aggregate type. -/
def Aggregate.Val (T : Aggregate) : Type := Values T.fields

/-- The bytes of a `std::string`. -/
def bytesOf (s : String) : Bytes := s.toList.map fun c => UInt8.ofNat c.toNat

/-- A field of one of the target types of a cell. -/
def Field.ofTarget (name typeName : String) (t : Target) : Field :=
  ⟨name, typeName, t.Val, fun sv => Reflect.decode t (bytesOf sv)⟩

/-! ## Names -/

/-- One turn of the first loop of `normalize_ident`. -/
def keepIdent (ch : Char) : Option Char :=
  if ch.isAlphanum then some ch.toLower else if ch == '_' then some '_' else none

/-- The second loop of `normalize_ident`. -/
def collapse : List Char → (prevUs : Bool) → List Char
  | [], _ => []
  | ch :: s, prevUs =>
      if ch == '_' then
        if !prevUs then '_' :: collapse s true else collapse s true
      else ch :: collapse s false

/-- `normalize_ident` -/
def normalizeIdent (s : String) : String :=
  String.ofList (collapse (s.toList.filterMap keepIdent) false)

/-- `find_col_idx`; `none` is -1. -/
def findColIdx (cols : List String) (normName : String) : Option Nat :=
  cols.findIdx? (· == normName)

/-- `NamedPlan` -/
structure NamedPlan where
  col : List (Option Nat)
  usable : Bool
  why : String

/-- `join_csv` -/
def joinCsv (v : List String) : String := ", ".intercalate v

/-- `make_named_plan` -/
def makeNamedPlan (T : Aggregate) (columns : List String) (explain : Bool) : NamedPlan :=
  if columns.isEmpty then
    ⟨T.fields.map fun _ => some 0, false,
      if explain then "columns are empty (driver didn't fill names)" else ""⟩
  else
    let normCols := columns.map normalizeIdent
    let names := T.fields.map fun f => normalizeIdent f.name
    let col := names.map (findColIdx normCols)
    let missing := names.filter fun field => (findColIdx normCols field).isNone
    if missing.isEmpty then ⟨col, true, ""⟩
    else
      ⟨col, false,
        if explain then
          "not all fields matched by name: missing=[" ++ joinCsv missing ++
            "], available_cols=[" ++ joinCsv columns ++ "]"
        else ""⟩

/-! ## Decoding a row -/

/-- `preview_val` -/
def previewVal (sv : String) : String :=
  if sv.length ≤ 80 then sv else String.ofList (sv.toList.take 80) ++ "..."

/-- The end of both mismatch texts. -/
def mismatchTail (fieldType colType valPreview : String) : String :=
  " (type=" ++ colType ++ "): expected=" ++ fieldType ++ ", got=\"" ++ valPreview ++ "\""

/-- `format_mismatch_named` -/
def formatMismatchNamed (fieldName fieldType colName colType valPreview : String) : String :=
  "decode failed: field='" ++ fieldName ++ "' (type=" ++ fieldType ++ ") \xe2\x86\x90 column='" ++
    colName ++ "'" ++ mismatchTail fieldType colType valPreview

/-- `format_mismatch_positional` -/
def formatMismatchPositional (fieldIndex : Nat) (fieldType : String) (colIndex : Nat)
    (colName colType valPreview : String) : String :=
  "decode failed: field#" ++ toString fieldIndex ++ " (type=" ++ fieldType ++
    ") \xe2\x86\x90 column#" ++ toString colIndex ++
    (if colName.isEmpty then "" else " '" ++ colName ++ "'") ++
    mismatchTail fieldType colType valPreview

/-- Two fields of a fold over the fields: both are tried, and the text of the later
failure stays. -/
def both {α β : Type} : Except String α → Except String β → Except String (α × β)
  | _, .error e => .error e
  | .error e, .ok _ => .error e
  | .ok a, .ok b => .ok (a, b)

/-- The fold over the fields, from the field with index `i` on. -/
def decodeFields (read : Nat → (f : Field) → Except String f.Value) :
    Nat → (fs : List Field) → Except String (Values fs)
  | _, [] => .ok ()
  | i, f :: fs => both (read i f) (decodeFields read (i + 1) fs)

/-- An error without a text gets one. -/
def orText {α : Type} (text : String) : Except String α → Except String α
  | .error e => .error (if e.isEmpty then text else e)
  | .ok v => .ok v

/-- One field of `decode_named`. -/
def readNamed (plan : NamedPlan) (columns row : List String) (i : Nat) (f : Field) :
    Except String f.Value :=
  match plan.col[i]?.join with
  | none => .error "column index out of row bounds"
  | some c =>
      match row[c]? with
      | none => .error "column index out of row bounds"
      | some sv =>
          match f.decode sv with
          | some v => .ok v
          | none =>
              .error (formatMismatchNamed f.name f.typeName (columns.getD c "") "unknown"
                (previewVal sv))

/-- `decode_named` -/
def decodeNamed (T : Aggregate) (plan : NamedPlan) (columns row : List String) :
    Except String T.Val :=
  orText "failed to decode aggregate field (named)"
    (decodeFields (readNamed plan columns row) 0 T.fields)

/-- One field of `fill_from_row_positional_ex`; no OIDs are kept in a result. -/
def readPositional (colNames : Option (List String)) (row : List String) (i : Nat) (f : Field) :
    Except String f.Value :=
  let sv := row.getD i ""
  match f.decode sv with
  | some v => .ok v
  | none =>
      .error (formatMismatchPositional i f.typeName i ((colNames.getD []).getD i "") "unknown"
        (previewVal sv))

/-- `fill_from_row_positional_ex` -/
def fillFromRowPositionalEx (T : Aggregate) (row : List String) (colNames : Option (List String)) :
    Except String T.Val :=
  if row.length < T.size then
    .error ("not enough columns: expected=" ++ toString T.size ++ ", got=" ++ toString row.length)
  else
    orText "failed to decode aggregate field (positional)"
      (decodeFields (readPositional colNames row) 0 T.fields)

/-- The column names as `fill_from_row_positional_ex` gets them. -/
def colNames (columns : List String) : Option (List String) :=
  if columns.isEmpty then none else some columns

/-! ## Mapping -/

/-- `map_row_reflect_positional_ex` -/
def mapRowReflectPositionalEx (T : Aggregate) (qr : QueryResult) (rowIndex : Nat) :
    Except String T.Val :=
  match qr.rows[rowIndex]? with
  | none => .error "row out of range"
  | some row => fillFromRowPositionalEx T row (colNames qr.columns)

/-- `map_single_reflect_positional` -/
def mapSingleReflectPositional (T : Aggregate) (qr : QueryResult) (row : Nat) :
    Except String T.Val :=
  orText "decode failed" (mapRowReflectPositionalEx T qr row)

/-- One turn of the loop of `map_all_reflect_positional`. -/
def mapPositionalRow (T : Aggregate) (qr : QueryResult) (i : Nat) : Except String T.Val :=
  match orText "decode failed" (mapRowReflectPositionalEx T qr i) with
  | .error e => .error ("row=" ++ toString i ++ ": " ++ e)
  | .ok v => .ok v

/-- `map_all_reflect_positional` -/
def mapAllReflectPositional (T : Aggregate) (qr : QueryResult) : Except String (List T.Val) :=
  (List.range qr.rows.length).mapM (mapPositionalRow T qr)

/-- `map_rows_named_or_positional` -/
def mapRowsNamedOrPositional (T : Aggregate) (qr : QueryResult) : Except String (List T.Val) :=
  if qr.rows.isEmpty then .ok []
  else
    let plan := makeNamedPlan T qr.columns false
    if plan.usable then
      match qr.rows.mapM (decodeNamed T plan qr.columns) with
      | .ok out => .ok out
      | .error _ => mapAllReflectPositional T qr
    else mapAllReflectPositional T qr

/-- `map_row_named_or_positional` -/
def mapRowNamedOrPositional (T : Aggregate) (qr : QueryResult) (row : Nat) : Except String T.Val :=
  match qr.rows[row]? with
  | none => mapSingleReflectPositional T qr row
  | some cells =>
      let plan := makeNamedPlan T qr.columns false
      if plan.usable then
        match decodeNamed T plan qr.columns cells with
        | .ok dst => .ok dst
        | .error _ => mapSingleReflectPositional T qr row
      else mapSingleReflectPositional T qr row

/-- `PgTypedRowStream::map`, with `plan_` if `plan_ready_`: the value and the plan kept. -/
def typedMap (T : Aggregate) (cols : List String) (plan? : Option NamedPlan) (row : List String) :
    Except String T.Val × NamedPlan :=
  let plan := plan?.getD (makeNamedPlan T cols false)
  let positional := orText "decode failed" (fillFromRowPositionalEx T row (colNames cols))
  if plan.usable then
    match decodeNamed T plan cols row with
    | .ok dst => (.ok dst, plan)
    | .error _ => (positional, plan)
  else (positional, plan)

/-- What a stream gives for the rows of its cursor, one after the other. -/
def typedRows (T : Aggregate) (cols : List String) :
    Option NamedPlan → List (List String) → List (Except String T.Val)
  | _, [] => []
  | plan?, row :: rows =>
      let (value, plan) := typedMap T cols plan? row
      value :: typedRows T cols (some plan) rows

/-- A row by the names of the columns. -/
def byName (T : Aggregate) (qr : QueryResult) (row : List String) : Except String T.Val :=
  decodeNamed T (makeNamedPlan T qr.columns false) qr.columns row

/-- A row by the positions of the columns. -/
def byPosition (T : Aggregate) (qr : QueryResult) (row : List String) : Except String T.Val :=
  fillFromRowPositionalEx T row (colNames qr.columns)

/-- Every row decodes by name. -/
def AllByName (T : Aggregate) (qr : QueryResult) : Prop :=
  (makeNamedPlan T qr.columns false).usable = true ∧ ∀ row ∈ qr.rows, ∃ v, byName T qr row = .ok v

/-- The row path and the stream path give a value at an index. -/
def PathsGive (T : Aggregate) (qr : QueryResult) (i : Nat) (v : T.Val) : Prop :=
  mapRowNamedOrPositional T qr i = .ok v ∧ (typedRows T qr.columns none qr.rows)[i]? = some (.ok v)

/-- The row at an index does not depend on which rows fail by name: every row decodes by
name, or no row is tried by name, or this one reads by position what it reads by name. -/
def Unmixed (T : Aggregate) (qr : QueryResult) (i : Nat) : Prop :=
  AllByName T qr ∨ (makeNamedPlan T qr.columns false).usable = false ∨
    ∀ row, qr.rows[i]? = some row → ∀ v, byName T qr row = .ok v → byPosition T qr row = .ok v

/-- A `bool` named `a` and a `std::string` named `b`. -/
def flagAndText : Aggregate := ⟨[.ofTarget "a" "bool" .bool, .ofTarget "b" "string" .string], nofun⟩

/-- The columns are in the other order; `a` is a truth value in the second row only. -/
def mixedResult : QueryResult :=
  { ok := true, rows := [["t", "x"], ["t", "f"]], columns := ["b", "a"] }

/-- The second row is `(true, "f")` in the whole result and `(false, "t")` alone: the
columns are swapped. -/
theorem mixed_rows_swap_columns :
    mapRowsNamedOrPositional flagAndText mixedResult =
        .ok [(true, bytesOf "x", ()), (true, bytesOf "f", ())] ∧
      mapRowNamedOrPositional flagAndText mixedResult 1 = .ok (false, bytesOf "t", ()) ∧
      ¬∀ (T : Aggregate) (qr : QueryResult) (vs : List T.Val),
        mapRowsNamedOrPositional T qr = .ok vs → ∀ i v, vs[i]? = some v → PathsGive T qr i v := by
  have hwhole : mapRowsNamedOrPositional flagAndText mixedResult =
      .ok [(true, bytesOf "x", ()), (true, bytesOf "f", ())] := by rfl
  have hrow : mapRowNamedOrPositional flagAndText mixedResult 1 = .ok (false, bytesOf "t", ()) := by
    rfl
  refine ⟨hwhole, hrow, fun h => ?_⟩
  obtain ⟨hgiven, -⟩ := h flagAndText mixedResult _ hwhole 1 (true, bytesOf "f", ()) rfl
  have hsame := hrow.symm.trans hgiven
  have hflag : false = true := congrArg Prod.fst (Except.ok.inj hsame)
  cases hflag

/-! ## What the three paths compute -/

/-- A traversal that succeeds has succeeded at every element. -/
theorem mapM_eq_ok {ε α β : Type} {f : α → Except ε β} {xs : List α} {ys : List β}
    (h : xs.mapM f = .ok ys) : List.Forall₂ (fun x y => f x = .ok y) xs ys := by
  induction xs generalizing ys with
  | nil =>
      cases h
      exact .nil
  | cons x xs ih =>
      rw [List.mapM_cons] at h
      cases hx : f x with
      | error e =>
          rw [hx] at h
          cases h
      | ok y =>
          cases hxs : xs.mapM f with
          | error e =>
              rw [hx, hxs] at h
              cases h
          | ok rest =>
              rw [hx, hxs] at h
              cases h
              exact .cons hx (ih hxs)

/-- A traversal that succeeds at every element succeeds. -/
theorem mapM_ok_of_forall {ε α β : Type} {f : α → Except ε β} {xs : List α}
    (h : ∀ x ∈ xs, ∃ y, f x = .ok y) : ∃ ys, xs.mapM f = .ok ys := by
  induction xs with
  | nil => exact ⟨[], rfl⟩
  | cons x xs ih =>
      obtain ⟨y, hy⟩ := h x List.mem_cons_self
      obtain ⟨ys, hys⟩ := ih fun z hz => h z (List.mem_cons_of_mem x hz)
      refine ⟨y :: ys, ?_⟩
      rw [List.mapM_cons, hy, hys]
      rfl

theorem forall₂_getElem? {α β : Type} {R : α → β → Prop} {xs : List α} {ys : List β}
    (h : List.Forall₂ R xs ys) {i : Nat} {y : β} (hy : ys[i]? = some y) :
    ∃ x, xs[i]? = some x ∧ R x y := by
  induction h generalizing i with
  | nil => cases hy
  | cons hxy _ ih =>
      cases i with
      | zero =>
          cases hy
          exact ⟨_, rfl, hxy⟩
      | succ i => exact ih hy

theorem forall₂_exists {α β : Type} {R : α → β → Prop} {xs : List α} {ys : List β}
    (h : List.Forall₂ R xs ys) {x : α} (hx : x ∈ xs) : ∃ y, R x y := by
  obtain ⟨i, hi⟩ := List.getElem?_of_mem hx
  obtain ⟨y, -, hxy⟩ := forall₂_getElem? h.flip hi
  exact ⟨y, hxy⟩

@[simp] theorem orText_eq_ok {α : Type} {text : String} {r : Except String α} {v : α} :
    orText text r = .ok v ↔ r = .ok v := by
  cases r <;> simp [orText]

theorem mapPositionalRow_eq_ok {T : Aggregate} {qr : QueryResult} {i : Nat} {v : T.Val}
    (h : mapPositionalRow T qr i = .ok v) :
    ∃ row, qr.rows[i]? = some row ∧ byPosition T qr row = .ok v := by
  unfold mapPositionalRow at h
  split at h
  · cases h
  · rename_i w hw
    cases h
    rw [orText_eq_ok, mapRowReflectPositionalEx] at hw
    split at hw
    · cases hw
    · rename_i row hrow
      exact ⟨row, hrow, hw⟩

theorem mapAllReflectPositional_getElem? {T : Aggregate} {qr : QueryResult} {vs : List T.Val}
    (h : mapAllReflectPositional T qr = .ok vs) {i : Nat} {v : T.Val} (hv : vs[i]? = some v) :
    ∃ row, qr.rows[i]? = some row ∧ byPosition T qr row = .ok v := by
  obtain ⟨j, hj, hrow⟩ := forall₂_getElem? (mapM_eq_ok h) hv
  have hlt : i < qr.rows.length := by simpa using (List.getElem?_eq_some_iff.mp hj).1
  rw [List.getElem?_range hlt] at hj
  cases hj
  exact mapPositionalRow_eq_ok hrow

/-- The whole-result mapping: by name if every row decodes by name, and by position for
every row otherwise. -/
theorem mapRowsNamedOrPositional_getElem? {T : Aggregate} {qr : QueryResult} {vs : List T.Val}
    (h : mapRowsNamedOrPositional T qr = .ok vs) {i : Nat} {v : T.Val} (hv : vs[i]? = some v) :
    ∃ row, qr.rows[i]? = some row ∧
      (AllByName T qr ∧ byName T qr row = .ok v ∨
        ¬AllByName T qr ∧ byPosition T qr row = .ok v) := by
  have hpositional : ¬AllByName T qr → mapAllReflectPositional T qr = .ok vs →
      ∃ row, qr.rows[i]? = some row ∧ (AllByName T qr ∧ byName T qr row = .ok v ∨
        ¬AllByName T qr ∧ byPosition T qr row = .ok v) := by
    intro hnot hall
    obtain ⟨row, hrow, hvalue⟩ := mapAllReflectPositional_getElem? hall hv
    exact ⟨row, hrow, .inr ⟨hnot, hvalue⟩⟩
  unfold mapRowsNamedOrPositional at h
  split at h
  · cases h
    cases hv
  · dsimp only at h
    split at h
    · rename_i husable
      split at h
      · rename_i out hout
        cases h
        have hforall := mapM_eq_ok hout
        obtain ⟨row, hrow, hvalue⟩ := forall₂_getElem? hforall hv
        exact ⟨row, hrow, .inl ⟨⟨husable, fun r hr => forall₂_exists hforall hr⟩, hvalue⟩⟩
      · rename_i e hfailed
        refine hpositional (fun hall => ?_) h
        obtain ⟨out, hout⟩ := mapM_ok_of_forall hall.2
        cases hfailed.symm.trans hout
    · rename_i husable
      exact hpositional (fun hall => husable hall.1) h

/-- One row: by name if it decodes by name, and by position otherwise. -/
theorem typedMap_eq_ok {T : Aggregate} {qr : QueryResult} {row : List String} {v : T.Val} :
    (typedMap T qr.columns none row).1 = .ok v ↔
      (makeNamedPlan T qr.columns false).usable = true ∧ byName T qr row = .ok v ∨
        ((makeNamedPlan T qr.columns false).usable = true → ∀ w, byName T qr row ≠ .ok w) ∧
          byPosition T qr row = .ok v := by
  unfold typedMap byName byPosition
  rw [Option.getD_none]
  cases husable : (makeNamedPlan T qr.columns false).usable with
  | false => simp [husable]
  | true =>
      cases hnamed : decodeNamed T (makeNamedPlan T qr.columns false) qr.columns row with
      | ok w => simp [husable, hnamed]
      | error e => simp [husable, hnamed]

/-- The plan that a stream keeps is the one it would make anew. -/
theorem typedRows_getElem? (T : Aggregate) (cols : List String) (rows : List (List String))
    (plan? : Option NamedPlan)
    (hplan : plan?.getD (makeNamedPlan T cols false) = makeNamedPlan T cols false) (i : Nat) :
    (typedRows T cols plan? rows)[i]? = rows[i]?.map fun row => (typedMap T cols none row).1 := by
  induction rows generalizing plan? i with
  | nil => rfl
  | cons row rows ih =>
      have hfresh : typedMap T cols plan? row = typedMap T cols none row := by
        unfold typedMap
        rw [hplan, Option.getD_none]
      have hkept : (typedMap T cols none row).2 = makeNamedPlan T cols false := by
        unfold typedMap
        rw [Option.getD_none]
        dsimp only
        split
        · split <;> rfl
        · rfl
      rw [typedRows, hfresh]
      cases i with
      | zero => rfl
      | succ i => exact ih (some _) hkept i

theorem mapRowNamedOrPositional_eq {T : Aggregate} {qr : QueryResult} {i : Nat}
    {row : List String} (hrow : qr.rows[i]? = some row) :
    mapRowNamedOrPositional T qr i = (typedMap T qr.columns none row).1 := by
  unfold mapRowNamedOrPositional typedMap mapSingleReflectPositional mapRowReflectPositionalEx
  rw [hrow, Option.getD_none]
  dsimp only
  split
  · split <;> rfl
  · rfl

/-- The row path and the stream path give the same. -/
theorem pathsGive_iff {T : Aggregate} {qr : QueryResult} {i : Nat} {row : List String}
    (hrow : qr.rows[i]? = some row) {v : T.Val} :
    PathsGive T qr i v ↔ (typedMap T qr.columns none row).1 = .ok v := by
  unfold PathsGive
  rw [mapRowNamedOrPositional_eq hrow, typedRows_getElem? T qr.columns qr.rows none rfl i, hrow]
  simp

/-- **The mapping paths agree at a row exactly when it is not mixed.**  Where the whole
result maps, the row path and the stream path give the same value at an index if and only
if every row decodes by name, or no row is tried by name, or the row reads by position
what it reads by name, if it reads by name at all. -/
theorem mapping_paths_agree_iff (T : Aggregate) (qr : QueryResult) (vs : List T.Val)
    (hwhole : mapRowsNamedOrPositional T qr = .ok vs) (i : Nat) (v : T.Val)
    (hv : vs[i]? = some v) : PathsGive T qr i v ↔ Unmixed T qr i := by
  obtain ⟨row, hrow, hvalue⟩ := mapRowsNamedOrPositional_getElem? hwhole hv
  rw [pathsGive_iff hrow, typedMap_eq_ok]
  rcases hvalue with ⟨hall, hnamed⟩ | ⟨hnot, hposition⟩
  · exact iff_of_true (.inl ⟨hall.1, hnamed⟩) (.inl hall)
  · constructor
    · rintro (⟨husable, hnamed⟩ | ⟨hnone, -⟩)
      · refine .inr (.inr fun r hr w hw => ?_)
        cases hrow.symm.trans hr
        cases hnamed.symm.trans hw
        exact hposition
      · cases husable : (makeNamedPlan T qr.columns false).usable with
        | false => exact .inr (.inl husable)
        | true =>
            refine .inr (.inr fun r hr w hw => ?_)
            cases hrow.symm.trans hr
            exact absurd hw (hnone husable w)
    · rintro (hall | hunusable | hsame)
      · exact absurd hall hnot
      · exact .inr ⟨fun husable => absurd (hunusable.symm.trans husable) (by decide), hposition⟩
      · by_cases hnamed : (makeNamedPlan T qr.columns false).usable = true ∧
            ∃ w, byName T qr row = .ok w
        · obtain ⟨husable, w, hw⟩ := hnamed
          cases hposition.symm.trans (hsame row hrow w hw)
          exact .inl ⟨husable, hw⟩
        · exact .inr ⟨fun husable w hw => hnamed ⟨husable, w, hw⟩, hposition⟩

/-- Two rows that decode by name, in columns of another order than the fields. -/
def namedResult : QueryResult :=
  { ok := true, rows := [["x", "t"], ["t", "f"]], columns := ["b", "a"] }

theorem mapping_paths_agree_iff_named :
    PathsGive flagAndText namedResult 1 (false, bytesOf "t", ()) := by
  have hwhole : mapRowsNamedOrPositional flagAndText namedResult =
      .ok [(true, bytesOf "x", ()), (false, bytesOf "t", ())] := by rfl
  have hrows : namedResult.rows.mapM (byName flagAndText namedResult) =
      .ok [(true, bytesOf "x", ()), (false, bytesOf "t", ())] := by rfl
  exact (mapping_paths_agree_iff flagAndText namedResult _ hwhole 1 _ rfl).mpr
    (.inl ⟨rfl, fun row hrow => forall₂_exists (mapM_eq_ok hrows) hrow⟩)

end Upq.Reflect
