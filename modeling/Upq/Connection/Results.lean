/-
  Connection/Results.lean --- what `run_query` makes of the results of one statement text.

  Source: `append_rows`, `absorb_result` and `collect_step` in `src/upq/PgConnection.cpp`;
  `fail_io`, `after_wait` and `run_query` in `include/upq/PgConnection.h`;
  `docs/results.md`, "Row invariants".

  Without a COPY, folding the results one after the other gives `gathered` of the results
  read so far: the last error if there was one, and otherwise all rows with the columns of
  the first row set that has any.  How libpq cuts the results into groups does not matter
  (`results_folded`).

  The row sets of a statement text need not have the same width, and `append_rows` does not
  compare them with the columns already there.  Which texts keep the documented row
  invariants is said by `row_invariants_iff`.
-/
import Upq.Connection.RunQuery

set_option autoImplicit false

namespace Upq

/-! ## The results of a statement text -/

/-- The results of the statement text, in the order in which libpq makes them ready. -/
def Collect.results : Collect → List PGresult
  | .failed _ _ => []
  | .finished results => results
  | .wait results _ _ rest => results ++ rest.results

/-- No wait for results fails, meets the deadline or is canceled. -/
def Collect.intact : Collect → Bool
  | .failed _ _ => false
  | .finished _ => true
  | .wait _ timedOut canceled rest => !timedOut && !canceled && rest.intact

/-- The statement goes out whole. -/
def Flush.intact : Flush → Bool
  | .done => true
  | .failed _ _ => false
  | .wait timedOut canceled rest => !timedOut && !canceled && rest.intact

/-- The statement is sent and all its results arrive. -/
def Script.arrives (sc : Script) (l : Link) : Bool :=
  l.connected && sc.sendOk && !l.busy && sc.flush.intact && sc.collect.intact

/-- The rows of a result. -/
def PGresult.rows : PGresult → List (List String)
  | .tuples _ rows => rows
  | _ => []

/-- The column names of a result. -/
def PGresult.columns : PGresult → List String
  | .tuples columns _ => columns
  | _ => []

/-- What a result adds to `rows_affected`. -/
def PGresult.count : PGresult → Nat
  | .tuples _ rows => rows.length
  | .command affected => affected
  | _ => 0

/-- The result of an ERROR. -/
def PGresult.asError? : PGresult → Option QueryResult
  | .error sqlstate primary fallback detail hint =>
      some (serverErrorResult sqlstate primary fallback detail hint)
  | _ => none

/-- An ERROR or a COPY result. -/
def PGresult.isFailure : PGresult → Bool
  | .copy | .error _ _ _ _ _ => true
  | _ => false

/-- The columns of the first row set that has any. -/
def firstColumns (read : List PGresult) : List String :=
  ((read.map PGresult.columns).find? (· ≠ [])).getD []

/-- What results without an ERROR amount to; `rows_affected` is a `uint64_t`. -/
def allRows (read : List PGresult) : QueryResult :=
  { ok := true
    code := .ok
    rows := read.flatMap PGresult.rows
    columns := firstColumns read
    rowsAffected := (read.map PGresult.count).sum % 2 ^ 64 }

/-- What results without a COPY amount to. -/
def gathered (read : List PGresult) : QueryResult :=
  ((read.filterMap PGresult.asError?).getLast?).getD (allRows read)

/-! ## Folding -/

section

variable {read rs : List PGresult} {res : PGresult}

theorem firstColumns_append (read rs : List PGresult) :
    firstColumns (read ++ rs) =
      if firstColumns read = [] then firstColumns rs else firstColumns read := by
  unfold firstColumns
  rw [List.map_append, List.find?_append]
  cases hfind : (read.map PGresult.columns).find? (· ≠ []) with
  | none => simp
  | some columns =>
      have hne : columns ≠ [] := by simpa using List.find?_some hfind
      simp [hne]

theorem firstColumns_singleton (res : PGresult) : firstColumns [res] = res.columns := by
  unfold firstColumns
  by_cases h : res.columns = []
  · simp [h]
  · simp [h]

theorem asError?_empty {e : QueryResult} (h : res.asError? = some e) :
    e.ok = false ∧ e.rows = [] ∧ e.columns = [] := by
  cases res with
  | error _ _ _ _ _ =>
      cases h
      exact ⟨rfl, rfl, rfl⟩
  | _ => cases h

/-- The results hold no ERROR, or there is a last one. -/
theorem gathered_cases (read : List PGresult) :
    (∀ res ∈ read, res.asError? = none) ∧ gathered read = allRows read ∨
      ∃ res ∈ read, ∃ e, res.asError? = some e ∧ gathered read = e := by
  unfold gathered
  cases hlast : (read.filterMap PGresult.asError?).getLast? with
  | none =>
      rw [List.getLast?_eq_none_iff, List.filterMap_eq_nil_iff] at hlast
      exact .inl ⟨hlast, rfl⟩
  | some e =>
      obtain ⟨res, hres, he⟩ := List.mem_filterMap.mp (List.mem_of_getLast? hlast)
      exact .inr ⟨res, hres, e, he, rfl⟩

theorem ite_eq_self (columns : List String) [Decidable (columns = [])] :
    (if columns = [] then [] else columns) = columns := by
  split
  · exact Eq.symm ‹_›
  · rfl

theorem gathered_snoc_error {e : QueryResult} (h : res.asError? = some e) :
    gathered (read ++ [res]) = e := by
  simp [gathered, h]

theorem gathered_snoc (h : res.asError? = none) :
    gathered (read ++ [res]) =
      if (gathered read).ok then allRows (read ++ [res]) else gathered read := by
  have hsame : (read ++ [res]).filterMap PGresult.asError? = read.filterMap PGresult.asError? := by
    simp [h]
  unfold gathered
  rw [hsame]
  cases hlast : (read.filterMap PGresult.asError?).getLast? with
  | none => rfl
  | some e =>
      obtain ⟨res', -, he⟩ := List.mem_filterMap.mp (List.mem_of_getLast? hlast)
      rw [Option.getD_some, Option.getD_some, (asError?_empty he).1]
      rfl

theorem allRows_snoc (read : List PGresult) (res : PGresult) :
    allRows (read ++ [res]) =
      { allRows read with
        rows := (allRows read).rows ++ res.rows
        columns := if firstColumns read = [] then res.columns else firstColumns read
        rowsAffected := ((allRows read).rowsAffected + res.count) % 2 ^ 64 } := by
  simp only [allRows, firstColumns_append, firstColumns_singleton, List.map_append, List.sum_append,
    List.flatMap_append, List.flatMap_singleton, List.map_cons, List.map_nil, List.sum_singleton,
    Nat.mod_add_mod]

/-- **Step rule.**  One more result is folded in. -/
theorem absorb_gathered (read : List PGresult) (hres : res ≠ .copy) :
    absorbResult res (gathered read) = (gathered (read ++ [res]), false) := by
  cases res with
  | tuples columns rows =>
      rw [gathered_snoc rfl, allRows_snoc, absorbResult]
      rcases gathered_cases read with ⟨-, heq⟩ | ⟨_, _, e, he, heq⟩
      · rw [heq]
        rfl
      · rw [heq, (asError?_empty he).1]
        rfl
  | command affected =>
      rw [gathered_snoc rfl, allRows_snoc, absorbResult]
      rcases gathered_cases read with ⟨-, heq⟩ | ⟨_, _, e, he, heq⟩
      · simp only [heq, allRows, PGresult.rows, PGresult.columns, PGresult.count, if_true,
          List.append_nil, ite_eq_self]
      · rw [heq, (asError?_empty he).1]
        rfl
  | copy => exact absurd rfl hres
  | error sqlstate primary fallback detail hint =>
      rw [gathered_snoc_error rfl]
      rfl

/-- The results of one group are folded in, up to a COPY. -/
theorem absorbAll_gathered (read rs : List PGresult) :
    (.copy ∉ rs ∧ absorbAll rs (gathered read) = (gathered (read ++ rs), false, rs)) ∨
      .copy ∈ rs ∧ ∃ new, absorbAll rs (gathered read) = (copyMisuseResult, true, new) := by
  induction rs generalizing read with
  | nil => exact .inl ⟨List.not_mem_nil, by simp [absorbAll]⟩
  | cons res rs ih =>
      by_cases hres : res = .copy
      · subst hres
        exact .inr ⟨List.mem_cons_self, _, rfl⟩
      · unfold absorbAll
        rw [absorb_gathered read hres]
        rcases ih (read ++ [res]) with ⟨hno, heq⟩ | ⟨hcopy, new, heq⟩
        · refine .inl ⟨?_, ?_⟩
          · simp [hno, Ne.symm hres]
          · simp only [heq, List.append_assoc, List.singleton_append]
        · refine .inr ⟨List.mem_cons_of_mem res hcopy, res :: new, ?_⟩
          simp only [heq]

end

/-! ## Waits -/

/-- A result without rows that is not ok. -/
structure Refused (out : QueryResult) : Prop where
  ok : out.ok = false
  rows : out.rows = []
  columns : out.columns = []

section

variable {sc : Script} {after : List PGresult → TxStatus} {l : Link} {read : List PGresult}

theorem refused_failIo (l : Link) (out : QueryResult) (code : PgErrorCode) (msg : String)
    (read : List PGresult) : Refused (failIo l out code msg read).result :=
  ⟨rfl, rfl, rfl⟩

theorem refused_copy : Refused copyMisuseResult := ⟨rfl, rfl, rfl⟩

/-- A wait is given up exactly when the deadline has passed or the task is canceled. -/
theorem afterWait_cases (sc : Script) (hl : l.ioTimedOut = false) (out : QueryResult)
    (timedOut canceled : Bool) (read : List PGresult) :
    (timedOut = false ∧ canceled = false ∧ afterWait sc l out timedOut canceled read = none) ∨
      (!timedOut && !canceled) = false ∧
        ∃ o, afterWait sc l out timedOut canceled read = some o ∧ Refused o.result := by
  unfold afterWait
  rw [hl]
  cases timedOut with
  | true => exact .inr ⟨rfl, _, rfl, refused_failIo ..⟩
  | false =>
      cases canceled with
      | true => exact .inr ⟨rfl, _, rfl, refused_failIo ..⟩
      | false => exact .inl ⟨rfl, rfl, rfl⟩

/-- **Loop rule.**  The second loop of `run_query` gathers everything, or refuses. -/
theorem collectLoop_gathered (hl : l.ioTimedOut = false) (c : Collect) (read : List PGresult) :
    (c.intact = true ∧ .copy ∉ c.results ∧
        (collectLoop sc after l c (gathered read) read).result = gathered (read ++ c.results)) ∨
      ¬(c.intact = true ∧ .copy ∉ c.results) ∧
        Refused (collectLoop sc after l c (gathered read) read).result := by
  induction c generalizing read with
  | failed timedOut msg => exact .inr ⟨nofun, refused_failIo ..⟩
  | finished results =>
      unfold collectLoop
      rcases absorbAll_gathered read results with ⟨hno, heq⟩ | ⟨hcopy, new, heq⟩
      · rw [heq]
        exact .inl ⟨rfl, hno, rfl⟩
      · rw [heq]
        exact .inr ⟨fun h => h.2 hcopy, refused_copy⟩
  | wait results timedOut canceled rest ih =>
      unfold collectLoop
      rcases absorbAll_gathered read results with ⟨hno, heq⟩ | ⟨hcopy, new, heq⟩
      · simp only [heq]
        rcases afterWait_cases sc hl (gathered (read ++ results)) timedOut canceled
          (read ++ results) with ⟨rfl, rfl, hgo⟩ | ⟨hstop, o, ho, hrefused⟩
        · simp only [hgo]
          rcases ih (read ++ results) with ⟨hintact, hrest, hout⟩ | ⟨hnot, hrefused⟩
          · refine .inl ⟨hintact, ?_, ?_⟩
            · simp [Collect.results, hno, hrest]
            · rw [hout, Collect.results, List.append_assoc]
          · refine .inr ⟨fun h => hnot ⟨h.1, fun hc => h.2 ?_⟩, hrefused⟩
            exact List.mem_append_right _ hc
        · simp only [ho]
          refine .inr ⟨fun h => ?_, hrefused⟩
          simp only [Collect.intact, hstop, Bool.false_and, Bool.false_eq_true] at h
          exact h.1
      · rw [heq]
        refine .inr ⟨fun h => h.2 ?_, refused_copy⟩
        exact List.mem_append_left _ hcopy

/-- The first loop of `run_query`, with the second behind it. -/
theorem flushLoop_gathered (hl : l.ioTimedOut = false) (f : Flush) :
    (f.intact = true ∧ flushLoop sc after l (gathered []) f =
        collectLoop sc after { l with busy := true } sc.collect (gathered []) []) ∨
      f.intact = false ∧ Refused (flushLoop sc after l (gathered []) f).result := by
  induction f with
  | done => exact .inl ⟨rfl, rfl⟩
  | failed timedOut msg => exact .inr ⟨rfl, refused_failIo ..⟩
  | wait timedOut canceled rest ih =>
      unfold flushLoop
      rcases afterWait_cases sc hl (gathered []) timedOut canceled [] with
        ⟨rfl, rfl, hgo⟩ | ⟨hstop, o, ho, hrefused⟩
      · simp only [hgo]
        exact ih
      · simp only [ho]
        refine .inr ⟨?_, hrefused⟩
        rw [Flush.intact, hstop, Bool.false_and]

/-- **Call rule.**  `run_query` passes on everything the results amount to, or refuses. -/
theorem runQuery_gathered (sc : Script) (after : List PGresult → TxStatus) (l : Link) :
    (sc.arrives l = true ∧ .copy ∉ sc.collect.results ∧
        (runQuery sc after l).result = gathered sc.collect.results) ∨
      ¬(sc.arrives l = true ∧ .copy ∉ sc.collect.results) ∧
        Refused (runQuery sc after l).result := by
  unfold runQuery
  split
  · rename_i hclosed
    rw [Bool.not_eq_true'] at hclosed
    exact .inr ⟨by simp [Script.arrives, hclosed], rfl, rfl, rfl⟩
  · rename_i hconn
    have hconn : l.connected = true := by simpa using hconn
    have hl : l.ioTimedOut = false := by simpa using (Bool.and_eq_true_iff.mp hconn).2
    split
    · rename_i hsend
      refine .inr ⟨fun h => ?_, refused_failIo ..⟩
      simp only [Script.arrives, Bool.and_eq_true, Bool.not_eq_true'] at h
      simp [h.1.1.1.1.2, h.1.1.1.2] at hsend
    · rename_i hsend
      obtain ⟨hsend, hbusy⟩ : sc.sendOk = true ∧ l.busy = false := by simpa using hsend
      have harrives : sc.arrives l = (sc.flush.intact && sc.collect.intact) := by
        simp [Script.arrives, hconn, hsend, hbusy]
      rw [harrives]
      change (_ ∧ _ ∧ (flushLoop sc after l (gathered []) sc.flush).result = _) ∨
        _ ∧ Refused (flushLoop sc after l (gathered []) sc.flush).result
      rcases flushLoop_gathered hl sc.flush with ⟨hflush, heq⟩ | ⟨hflush, hrefused⟩
      · rw [heq, hflush, Bool.true_and]
        have hbusy : ({ l with busy := true } : Link).ioTimedOut = false := hl
        simpa using collectLoop_gathered hbusy sc.collect []
      · rw [hflush, Bool.false_and]
        exact .inr ⟨nofun, hrefused⟩

end

/-! ## The result of a call -/

theorem isFailure_iff (res : PGresult) :
    res.isFailure = false ↔ res ≠ .copy ∧ res.asError? = none := by
  cases res <;> simp [PGresult.isFailure, PGresult.asError?]

/-- Results without a failure amount to all their rows. -/
theorem gathered_ok_iff (read : List PGresult) :
    (gathered read).ok = true ↔ ∀ res ∈ read, res.asError? = none := by
  rcases gathered_cases read with ⟨hnone, heq⟩ | ⟨res, hres, e, he, heq⟩
  · rw [heq]
    exact iff_of_true rfl hnone
  · rw [heq, (asError?_empty he).1]
    refine ⟨nofun, fun hall => ?_⟩
    rw [hall res hres] at he
    cases he

/-- A successful call has gathered the rows of all results. -/
theorem runQuery_ok_iff (sc : Script) (after : List PGresult → TxStatus) (l : Link) :
    (runQuery sc after l).result.ok = true ↔
      sc.arrives l = true ∧ ∀ res ∈ sc.collect.results, res.isFailure = false := by
  simp only [isFailure_iff]
  rcases runQuery_gathered sc after l with ⟨harrives, hcopy, heq⟩ | ⟨hnot, hrefused⟩
  · rw [heq, gathered_ok_iff]
    refine ⟨fun hnone => ⟨harrives, fun res hres => ⟨?_, hnone res hres⟩⟩, fun h res hres => ?_⟩
    · rintro rfl
      exact hcopy hres
    · exact (h.2 res hres).2
  · rw [hrefused.ok]
    refine ⟨nofun, fun h => absurd ⟨h.1, fun hcopy => ?_⟩ hnot⟩
    exact (h.2 _ hcopy).1 rfl

theorem runQuery_allRows {sc : Script} {after : List PGresult → TxStatus} {l : Link}
    (hok : (runQuery sc after l).result.ok = true) :
    (runQuery sc after l).result = allRows sc.collect.results := by
  rcases runQuery_gathered sc after l with ⟨-, -, heq⟩ | ⟨-, hrefused⟩
  · rw [heq] at hok ⊢
    rcases gathered_cases sc.collect.results with ⟨-, hall⟩ | ⟨_, _, e, he, hlast⟩
    · exact hall
    · rw [hlast, (asError?_empty he).1] at hok
      cases hok
  · rw [hrefused.ok] at hok
    cases hok

/-- A failed call passes on no rows and no columns. -/
theorem runQuery_refused {sc : Script} {after : List PGresult → TxStatus} {l : Link}
    (hok : (runQuery sc after l).result.ok = false) : Refused (runQuery sc after l).result := by
  rcases runQuery_gathered sc after l with ⟨-, -, heq⟩ | ⟨-, hrefused⟩
  · rw [heq] at hok ⊢
    rcases gathered_cases sc.collect.results with ⟨-, hall⟩ | ⟨_, _, e, he, hlast⟩
    · rw [hall] at hok
      cases hok
    · rw [hlast]
      exact ⟨(asError?_empty he).1, (asError?_empty he).2.1, (asError?_empty he).2.2⟩
  · exact hrefused

theorem gathered_last_error {pre post : List PGresult} {res : PGresult} {e : QueryResult}
    (he : res.asError? = some e) (hpost : ∀ r ∈ post, r.isFailure = false) :
    gathered (pre ++ res :: post) = e := by
  have hnone : post.filterMap PGresult.asError? = [] := by
    rw [List.filterMap_eq_nil_iff]
    exact fun r hr => ((isFailure_iff r).mp (hpost r hr)).2
  simp [gathered, he, hnone]

/-- **Results are folded without loss or leftovers.**  For every sequence of results, every
way in which they become ready, and any failure, deadline or cancellation at any wait: the
result is ok exactly when all results arrived and none was an ERROR or a COPY result; it
then has the rows of all of them in order, and their counts added up (in the 64 bits of
`rows_affected`); otherwise it has neither rows nor columns; and where all results arrived
and none follows a COPY, it carries the code and the SQLSTATE of the last ERROR. -/
theorem results_folded (sc : Script) (after : List PGresult → TxStatus) (l : Link) :
    ((runQuery sc after l).result.ok = true ↔
      sc.arrives l = true ∧ ∀ res ∈ sc.collect.results, res.isFailure = false) ∧
    ((runQuery sc after l).result.ok = true →
      (runQuery sc after l).result.rows = sc.collect.results.flatMap PGresult.rows ∧
      (runQuery sc after l).result.rowsAffected =
        (sc.collect.results.map PGresult.count).sum % 2 ^ 64) ∧
    ((runQuery sc after l).result.ok = false →
      (runQuery sc after l).result.rows = [] ∧ (runQuery sc after l).result.columns = []) ∧
    ∀ pre sqlstate primary fallback detail hint post,
      sc.collect.results = pre ++ .error sqlstate primary fallback detail hint :: post →
      sc.arrives l = true → .copy ∉ pre → (∀ res ∈ post, res.isFailure = false) →
      (runQuery sc after l).result.code = .serverError ∧
        (runQuery sc after l).result.errDetail.sqlstate = sqlstate := by
  refine ⟨runQuery_ok_iff sc after l, fun hok => ?_, fun hok => ?_, ?_⟩
  · rw [runQuery_allRows hok]
    exact ⟨rfl, rfl⟩
  · have hrefused := runQuery_refused hok
    exact ⟨hrefused.rows, hrefused.columns⟩
  · intro pre sqlstate primary fallback detail hint post hresults harrives hpre hpost
    have hcopy : .copy ∉ sc.collect.results := by
      rw [hresults]
      intro hmem
      rcases List.mem_append.mp hmem with hin | hin
      · exact hpre hin
      · rcases List.mem_cons.mp hin with heq | hin
        · cases heq
        · exact absurd (hpost _ hin) (by decide)
    rcases runQuery_gathered sc after l with ⟨-, -, heq⟩ | ⟨hnot, -⟩
    · rw [heq, hresults, gathered_last_error rfl hpost]
      exact ⟨rfl, rfl⟩
    · exact absurd ⟨harrives, hcopy⟩ hnot

/-! ## Row invariants -/

/-- A row set as libpq holds it: every row has a cell for every column. -/
structure RowSet where
  columns : List String
  rows : List (List String)
  wide : ∀ row ∈ rows, row.length = columns.length

/-- A row set or a command result. -/
inductive Reply where
  | rowSet (t : RowSet)
  | command (affected : Nat)

/-- The `PGresult`. -/
def Reply.result : Reply → PGresult
  | .rowSet t => .tuples t.columns t.rows
  | .command affected => .command affected

/-- The row sets among the replies. -/
def rowSets (replies : List Reply) : List RowSet :=
  replies.filterMap fun r => match r with
    | .rowSet t => some t
    | .command _ => none

/-- The number of columns of the first row set that has any. -/
def firstWidth (replies : List Reply) : Nat :=
  (((rowSets replies).find? fun t => t.columns ≠ []).map (·.columns.length)).getD 0

/-- The row invariants of `docs/results.md`, with the columns. -/
structure RowInvariants (out : QueryResult) : Prop where
  wide : ∀ row ∈ out.rows, row.length = out.columns.length
  cells : ∀ row ∈ out.rows, row ≠ []

theorem firstColumns_cons (res : PGresult) (read : List PGresult) :
    firstColumns (res :: read) =
      if res.columns = [] then firstColumns read else res.columns := by
  rw [← List.singleton_append, firstColumns_append, firstColumns_singleton]

theorem length_firstColumns (replies : List Reply) :
    (firstColumns (replies.map Reply.result)).length = firstWidth replies := by
  induction replies with
  | nil => rfl
  | cons r replies ih =>
      rw [List.map_cons, firstColumns_cons]
      cases r with
      | command affected => exact ih
      | rowSet t =>
          change (if t.columns = [] then _ else t.columns).length = _
          by_cases hnone : t.columns = []
          · rw [if_pos hnone, ih]
            simp [firstWidth, rowSets, hnone]
          · rw [if_neg hnone]
            simp [firstWidth, rowSets, hnone]

theorem mem_rows_iff {replies : List Reply} {row : List String} :
    row ∈ (replies.map Reply.result).flatMap PGresult.rows ↔
      ∃ t ∈ rowSets replies, row ∈ t.rows := by
  simp only [List.mem_flatMap, List.mem_map, rowSets, List.mem_filterMap]
  constructor
  · rintro ⟨_, ⟨r, hr, rfl⟩, hrow⟩
    cases r with
    | command affected => cases hrow
    | rowSet t => exact ⟨t, ⟨.rowSet t, hr, rfl⟩, hrow⟩
  · rintro ⟨t, ⟨r, hr, ht⟩, hrow⟩
    cases r with
    | command affected => cases ht
    | rowSet t' =>
        cases ht
        exact ⟨_, ⟨_, hr, rfl⟩, hrow⟩

/-- Every row set that has a row has a column, and as many as the first row set with columns. -/
def SameWidth (replies : List Reply) : Prop :=
  ∀ t ∈ rowSets replies, t.rows ≠ [] →
    t.columns ≠ [] ∧ t.columns.length = firstWidth replies

/-- **When the row invariants hold.**  For every sequence of row sets of any widths and
command results, in whatever groups they arrive, that `run_query` folds into an ok result:
all rows have as many cells as there are columns, and none is without cells, if and only if
every row set that has a row has a column and is as wide as the first row set with
columns. -/
theorem row_invariants_iff (sc : Script) (after : List PGresult → TxStatus) (l : Link)
    (replies : List Reply) (hresults : sc.collect.results = replies.map Reply.result)
    (hok : (runQuery sc after l).result.ok = true) :
    RowInvariants (runQuery sc after l).result ↔ SameWidth replies := by
  have hout := runQuery_allRows hok
  have hwidth := length_firstColumns replies
  rw [hresults] at hout
  have hrows : ∀ row, row ∈ (runQuery sc after l).result.rows ↔
      ∃ t ∈ rowSets replies, row ∈ t.rows := by
    intro row
    rw [hout]
    exact mem_rows_iff
  have hcolumns : (runQuery sc after l).result.columns.length = firstWidth replies := by
    rw [hout]
    exact hwidth
  constructor
  · intro hinv t ht hne
    obtain ⟨row, hrow⟩ := List.exists_mem_of_ne_nil _ hne
    have hmem := (hrows row).mpr ⟨t, ht, hrow⟩
    have hlen := t.wide row hrow
    refine ⟨fun hnone => hinv.cells row hmem ?_, ?_⟩
    · rw [hnone] at hlen
      exact List.eq_nil_of_length_eq_zero hlen
    · rw [← hlen, hinv.wide row hmem, hcolumns]
  · intro hsame
    constructor
    · intro row hmem
      obtain ⟨t, ht, hrow⟩ := (hrows row).mp hmem
      rw [t.wide row hrow, (hsame t ht (List.ne_nil_of_mem hrow)).2, hcolumns]
    · intro row hmem hnil
      obtain ⟨t, ht, hrow⟩ := (hrows row).mp hmem
      have hlen := t.wide row hrow
      rw [hnil] at hlen
      exact (hsame t ht (List.ne_nil_of_mem hrow)).1 (List.eq_nil_of_length_eq_zero hlen.symm)

/-- A statement text whose results are ready at once. -/
def readyAtOnce (replies : List Reply) : Script :=
  .answered (replies.map Reply.result)

/-- `SELECT 1 AS a; SELECT 2 AS a` -/
def sameColumns : List Reply :=
  [.rowSet ⟨["a"], [["1"]], by simp⟩, .rowSet ⟨["a"], [["2"]], by simp⟩]

theorem row_invariants_iff_same :
    RowInvariants (runQuery (readyAtOnce sameColumns) (fun _ => .idle) idleLink).result := by
  refine (row_invariants_iff _ _ _ sameColumns rfl (by decide +kernel)).mpr ?_
  intro t ht _
  simp only [sameColumns, rowSets, List.filterMap_cons, List.filterMap_nil, List.mem_cons,
    List.not_mem_nil, or_false] at ht
  rcases ht with rfl | rfl
  · exact ⟨by simp, rfl⟩
  · exact ⟨by simp, rfl⟩

/-- `SELECT 1 AS a; SELECT 2 AS a, 3 AS b` -/
def widerLater : List Reply :=
  [.rowSet ⟨["a"], [["1"]], by simp⟩, .rowSet ⟨["a", "b"], [["2", "3"]], by simp⟩]

/-- The second row has two cells, the result one column. -/
theorem rows_of_two_widths :
    (runQuery (readyAtOnce widerLater) (fun _ => .idle) idleLink).result.ok = true ∧
      (runQuery (readyAtOnce widerLater) (fun _ => .idle) idleLink).result.rows =
        [["1"], ["2", "3"]] ∧
      (runQuery (readyAtOnce widerLater) (fun _ => .idle) idleLink).result.columns = ["a"] ∧
      ¬∀ sc after l (replies : List Reply), sc.collect.results = replies.map Reply.result →
        (runQuery sc after l).result.ok = true → RowInvariants (runQuery sc after l).result := by
  have hrows : (runQuery (readyAtOnce widerLater) (fun _ => .idle) idleLink).result.rows =
      [["1"], ["2", "3"]] := by decide +kernel
  have hcolumns : (runQuery (readyAtOnce widerLater) (fun _ => .idle) idleLink).result.columns =
      ["a"] := by decide +kernel
  refine ⟨by decide +kernel, hrows, hcolumns, fun hall => ?_⟩
  have hinv := hall (readyAtOnce widerLater) (fun _ => .idle) idleLink widerLater rfl
    (by decide +kernel)
  have hwide := hinv.wide ["2", "3"] (by rw [hrows]; simp)
  rw [hcolumns] at hwide
  cases hwide

end Upq
