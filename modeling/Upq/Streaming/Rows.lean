/-
  Streaming/Rows.lean --- the rows of a cursor, read batch by batch.

  Source: `src/upq/PgRowStream.cpp` and `include/upq/PgRowStream.h`, `next`, `fetch`,
  `close` and `set_batch_size`; `cursor_fetch_chunk` in `src/upq/PgConnection.cpp`.

  A cursor is the list of its remaining rows, and FETCH FORWARD takes the next rows from
  it.  Which of the coming FETCHes fail is given with the cursor, so that a reading is
  determined by it.  `buf` holds the rows from `buf_idx_` on, and the invariant that a
  batch is not empty is a field of the stream.

  `received` is what a reader gets: everything up to the first FETCH that fails.  It is
  the abstraction that makes a stream a `Pull` (`rowSource`).  The model of stream
  ownership sees the same object without its rows (`forget_next`).
-/
import Upq.Foundation.Pull
import Upq.RowStream

set_option autoImplicit false

namespace Upq.Streaming

open Upq.Foundation

/-! ## The cursor -/

/-- `QueryResult::Row` -/
abbrev Row := List String

/-- A cursor on the server: the rows that are left, and for the coming FETCHes whether
they fail, and how; none fails beyond the list. -/
structure Cursor where
  rows : List Row
  columns : List String
  faults : List (Option PgOpError)

/-- `cursor_fetch_chunk`: the answer to FETCH FORWARD `count`. -/
def Cursor.fetchChunk (c : Cursor) (count : Nat) : QueryResult × Cursor :=
  match c.faults.head?.join with
  | some e =>
      ({ ok := false, code := e.code, error := e.error, errDetail := e.errDetail },
        { c with faults := c.faults.tail })
  | none =>
      ({ ok := true, code := .ok, rows := c.rows.take count, columns := c.columns },
        { c with rows := c.rows.drop count, faults := c.faults.tail })

/-! ## The stream -/

/-- `PgRowStream` as the reader sees it. -/
structure PgRowStream where
  batchSize : Nat
  batchSize_pos : 0 < batchSize
  ownsTx : Bool
  active : Bool
  exhausted : Bool
  buf : List Row
  err : Option PgOpError
  columns : List String

/-- `n ? n : 1` -/
def orOne (n : Nat) : Nat := if n = 0 then 1 else n

theorem orOne_pos (n : Nat) : 0 < orOne n := by
  unfold orOne
  split <;> omega

/-- `PgRowStream::borrowed` and `PgRowStream::owning` -/
def PgRowStream.opened (batchSize : Nat) (ownsTx : Bool) : PgRowStream :=
  { batchSize := orOne batchSize, batchSize_pos := orOne_pos batchSize, ownsTx, active := true
    exhausted := false, buf := [], err := none, columns := [] }

/-- `set_batch_size` -/
def PgRowStream.setBatchSize (st : PgRowStream) (n : Nat) : PgRowStream :=
  { st with batchSize := orOne n, batchSize_pos := orOne_pos n }

/-- `has_buffered` -/
def PgRowStream.hasBuffered (st : PgRowStream) : Bool := st.active && !st.buf.isEmpty

/-- A stream and its cursor. -/
structure Source where
  stream : PgRowStream
  cursor : Cursor

/-- A new stream on a cursor none of whose FETCHes fails. -/
def Source.opened (rows : List Row) (columns : List String) (batchSize : Nat) (ownsTx : Bool) :
    Source :=
  ⟨.opened batchSize ownsTx, ⟨rows, columns, []⟩⟩

/-- The stream after a FETCH answered with `chunk`. -/
def PgRowStream.fetched (st : PgRowStream) (chunk : QueryResult) : PgRowStream :=
  if !chunk.ok then { st with err := some (toOpError chunk), exhausted := true }
  else
    { st with
      columns := if st.columns.isEmpty && !chunk.columns.isEmpty then chunk.columns else st.columns
      buf := chunk.rows
      exhausted := chunk.rows.isEmpty || st.exhausted }

/-- `PgRowStream::fetch` -/
def Source.fetch (s : Source) : Bool × Source :=
  if !s.stream.active || s.stream.exhausted then (false, s)
  else
    match s.cursor.fetchChunk s.stream.batchSize with
    | (chunk, cursor) => (chunk.ok && !chunk.rows.isEmpty, ⟨s.stream.fetched chunk, cursor⟩)

/-- `pop_buffered` -/
def Source.popBuffered (s : Source) : Option Row × Source :=
  (s.stream.buf.head?, { s with stream := { s.stream with buf := s.stream.buf.tail } })

/-- `PgRowStream::next` -/
def Source.next (s : Source) : Option Row × Source :=
  if s.stream.hasBuffered then s.popBuffered
  else
    match s.fetch with
    | (false, s) => (none, s)
    | (true, s) => s.popBuffered

/-- `set_batch_size` on the stream. -/
def Source.setBatchSize (s : Source) (n : Nat) : Source :=
  { s with stream := s.stream.setBatchSize n }

/-- What `close` meets: whether the connection is up, and the answers to CLOSE and
COMMIT. -/
structure CloseOutcome where
  connected : Bool
  closed : QueryResult
  committed : QueryResult

/-- `note` in `close` -/
def note (err : Option PgOpError) (r : QueryResult) : Option PgOpError :=
  if r.ok then err else err.or (some (toOpError r))

/-- `PgRowStream::close`; where the connection goes is the subject of the model of
ownership. -/
def PgRowStream.close (st : PgRowStream) (o : CloseOutcome) : PgRowStream :=
  if !st.active then st
  else if !o.connected then { st with active := false }
  else
    let err := note st.err o.closed
    { st with
      active := false
      err := if !isFatalConnectionError o.closed && st.ownsTx then note err o.committed else err }

/-- Close the stream. -/
def Source.close (s : Source) (o : CloseOutcome) : Source :=
  { s with stream := s.stream.close o }

theorem close_active (st : PgRowStream) (o : CloseOutcome) : (st.close o).active = false := by
  unfold PgRowStream.close
  split
  · rename_i hactive
    simpa using hactive
  · split <;> rfl

/-! ## What a reader gets -/

/-- The rows that the coming FETCHes of `n` rows deliver. -/
def fetchable (n : Nat) : List (Option PgOpError) → List Row → List Row
  | [], rows => rows
  | some _ :: _, _ => []
  | none :: faults, rows => rows.take n ++ fetchable n faults (rows.drop n)

/-- The rows that `next` answers from here on. -/
def Source.received (s : Source) : List Row :=
  if s.stream.active then
    s.stream.buf ++
      if s.stream.exhausted then []
      else fetchable s.stream.batchSize s.cursor.faults s.cursor.rows
  else []

theorem fetchable_of_fault {n : Nat} {faults : List (Option PgOpError)} {rows : List Row}
    {e : PgOpError} (h : faults.head?.join = some e) : fetchable n faults rows = [] := by
  cases faults with
  | nil => cases h
  | cons fault faults =>
      cases fault with
      | none => cases h
      | some e => rfl

theorem fetchable_of_ok {n : Nat} {faults : List (Option PgOpError)} (rows : List Row)
    (h : faults.head?.join = none) :
    fetchable n faults rows = rows.take n ++ fetchable n faults.tail (rows.drop n) := by
  cases faults with
  | nil => exact (List.take_append_drop n rows).symm
  | cons fault faults =>
      cases fault with
      | none => rfl
      | some e => cases h

theorem fetchable_nil (n : Nat) (faults : List (Option PgOpError)) :
    fetchable n faults [] = [] := by
  induction faults with
  | nil => rfl
  | cons fault faults ih =>
      cases fault with
      | none => rw [fetchable, List.take_nil, List.drop_nil, ih, List.append_nil]
      | some e => rfl

/-- A buffered row is the next one. -/
theorem popBuffered_spec {s : Source} (h : s.stream.hasBuffered = true) :
    s.popBuffered.1 = s.received.head? ∧ s.popBuffered.2.received = s.received.tail := by
  obtain ⟨hactive, hbuf⟩ := Bool.and_eq_true_iff.mp h
  cases hrows : s.stream.buf with
  | nil => simp [hrows] at hbuf
  | cons row rows => simp [Source.popBuffered, Source.received, hactive, hrows]

/-- A stream without a buffered row receives what it can fetch. -/
theorem received_of_empty {s : Source} (h : s.stream.hasBuffered = false) :
    s.received =
      if !s.stream.active || s.stream.exhausted then []
      else fetchable s.stream.batchSize s.cursor.faults s.cursor.rows := by
  unfold Source.received
  cases hactive : s.stream.active with
  | false => rfl
  | true =>
      have hbuf : s.stream.buf = [] := by
        simpa [PgRowStream.hasBuffered, hactive] using h
      rw [hbuf]
      rfl

/-- The answer to a FETCH, for a stream without a buffered row: what is received does not
change, and there is a row unless nothing is left. -/
theorem fetchChunk_spec {s : Source} (hactive : s.stream.active = true)
    (hbuf : s.stream.buf = []) (hleft : s.stream.exhausted = false) {chunk : QueryResult}
    {cursor : Cursor} (h : s.cursor.fetchChunk s.stream.batchSize = (chunk, cursor)) :
    Source.received ⟨s.stream.fetched chunk, cursor⟩ =
        fetchable s.stream.batchSize s.cursor.faults s.cursor.rows ∧
      (s.stream.fetched chunk).hasBuffered = (chunk.ok && !chunk.rows.isEmpty) ∧
      (s.stream.fetched chunk).exhausted = !(chunk.ok && !chunk.rows.isEmpty) := by
  unfold Cursor.fetchChunk at h
  split at h
  · rename_i e he
    cases h
    rw [fetchable_of_fault he]
    simp [Source.received, PgRowStream.fetched, PgRowStream.hasBuffered, hbuf]
  · rename_i hok
    cases h
    rw [fetchable_of_ok s.cursor.rows hok]
    refine ⟨?_, by simp [PgRowStream.fetched, PgRowStream.hasBuffered, hactive],
      by simp [PgRowStream.fetched, hleft]⟩
    cases hrows : s.cursor.rows with
    | nil => simp [Source.received, PgRowStream.fetched, fetchable_nil]
    | cons row rows =>
        have hpos : s.stream.batchSize ≠ 0 := s.stream.batchSize_pos.ne'
        simp [Source.received, PgRowStream.fetched, hactive, hleft, hpos]

/-- `fetch` for a stream without a buffered row: what is received does not change, and
there is a row unless nothing is left. -/
theorem fetch_spec {s : Source} (h : s.stream.hasBuffered = false) :
    s.fetch.2.received = s.received ∧ s.fetch.2.stream.hasBuffered = s.fetch.1 ∧
      (s.fetch.1 = false → s.received = []) := by
  have hreceived := received_of_empty h
  unfold Source.fetch
  cases hstop : !s.stream.active || s.stream.exhausted with
  | true =>
      rw [hstop, if_pos rfl] at hreceived
      rw [if_pos rfl]
      exact ⟨rfl, h, fun _ => hreceived⟩
  | false =>
      obtain ⟨hinactive, hleft⟩ := Bool.or_eq_false_iff.mp hstop
      have hactive : s.stream.active = true := by simpa using hinactive
      have hbuf : s.stream.buf = [] := by simpa [PgRowStream.hasBuffered, hactive] using h
      rw [hstop, if_neg Bool.false_ne_true] at hreceived
      rw [if_neg Bool.false_ne_true]
      cases hchunk : s.cursor.fetchChunk s.stream.batchSize with
      | mk chunk cursor =>
          obtain ⟨hsame, hfetched, hexhausted⟩ := fetchChunk_spec hactive hbuf hleft hchunk
          rw [← hreceived] at hsame
          refine ⟨hsame, hfetched, fun hnone : (chunk.ok && !chunk.rows.isEmpty) = false => ?_⟩
          have hstopped := received_of_empty (s := ⟨s.stream.fetched chunk, cursor⟩)
            (hfetched.trans hnone)
          rw [hexhausted, hnone, Bool.not_false, Bool.or_true, if_pos rfl] at hstopped
          exact hsame.symm.trans hstopped

/-- `next` answers the first row that is received and leaves the others. -/
theorem next_spec (s : Source) :
    s.next.1 = s.received.head? ∧ s.next.2.received = s.received.tail := by
  unfold Source.next
  cases hbuffered : s.stream.hasBuffered with
  | true => exact popBuffered_spec hbuffered
  | false =>
      obtain ⟨hsame, hrow, hnone⟩ := fetch_spec hbuffered
      rw [if_neg Bool.false_ne_true]
      rcases hfetch : s.fetch with ⟨fetched, s'⟩
      rw [hfetch] at hsame hrow hnone
      cases fetched with
      | false =>
          have hnil := hnone rfl
          rw [hnil] at hsame ⊢
          exact ⟨rfl, hsame⟩
      | true =>
          rw [← hsame]
          exact popBuffered_spec hrow

/-- A stream as an object that is pulled. -/
def rowSource (o : CloseOutcome) : Pull Row where
  State := Source
  next := Source.next
  close := fun s => s.close o
  items := Source.received
  next_fst := fun s => (next_spec s).1
  next_snd := fun s => (next_spec s).2

/-! ## Reading -/

/-- What a reader does with a stream. -/
inductive ReadOp where
  | next
  | setBatchSize (n : Nat)
  deriving DecidableEq, Repr

/-- A sequence of operations: the answers of `next`, and the stream after it. -/
def Source.read (s : Source) : List ReadOp → List (Option Row) × Source
  | [] => ([], s)
  | .next :: ops => (s.next.1 :: (s.next.2.read ops).1, (s.next.2.read ops).2)
  | .setBatchSize n :: ops => (s.setBatchSize n).read ops

/-- The calls of `next` in a sequence. -/
def nexts (ops : List ReadOp) : Nat := ops.count .next

/-- The first answers that a list of rows gives, nothing beyond its end. -/
def answers (rows : List Row) (k : Nat) : List (Option Row) := (List.range k).map fun i => rows[i]?

theorem answers_succ (rows : List Row) (k : Nat) :
    answers rows (k + 1) = rows.head? :: answers rows.tail k := by
  rw [answers, List.range_succ_eq_map, List.map_cons, List.map_map, answers]
  congr 1
  · exact List.head?_eq_getElem?.symm
  · exact List.map_congr_left fun i _ => by simp

theorem next_faults {s : Source} (h : s.cursor.faults = []) : s.next.2.cursor.faults = [] := by
  unfold Source.next
  split
  · exact h
  · have hfetch : s.fetch.2.cursor.faults = [] := by
      unfold Source.fetch Cursor.fetchChunk
      rw [h]
      split <;> simp [h]
    split <;> rename_i hs <;> rw [hs] at hfetch <;> exact hfetch

/-- Without a fault the batch size does not matter. -/
theorem setBatchSize_received {s : Source} (h : s.cursor.faults = []) (n : Nat) :
    (s.setBatchSize n).received = s.received := by
  simp [Source.received, Source.setBatchSize, PgRowStream.setBatchSize, h, fetchable]

/-- A sequence of operations without a fault answers the rows in order. -/
theorem read_spec {s : Source} (h : s.cursor.faults = []) (ops : List ReadOp) :
    (s.read ops).1 = answers s.received (nexts ops) ∧
      (s.read ops).2.received = s.received.drop (nexts ops) := by
  induction ops generalizing s with
  | nil => exact ⟨rfl, rfl⟩
  | cons op ops ih =>
      cases op with
      | next =>
          obtain ⟨hfirst, hrest⟩ := next_spec s
          obtain ⟨hanswers, hleft⟩ := ih (next_faults h)
          have hcount : nexts (.next :: ops) = nexts ops + 1 := List.count_cons_self
          rw [Source.read, hcount, answers_succ, hfirst, hanswers, hleft, hrest, List.drop_tail]
          exact ⟨rfl, rfl⟩
      | setBatchSize n =>
          have hne : ReadOp.setBatchSize n ≠ .next := nofun
          have hcount : nexts (.setBatchSize n :: ops) = nexts ops := List.count_cons_of_ne hne
          rw [Source.read, hcount, ← setBatchSize_received h n]
          exact ih h

/-! ## The model of ownership -/

/-- A stream without its rows. -/
def PgRowStream.forget (st : PgRowStream) (pooled : Bool) (conn : Option Nat) :
    Upq.Cursor.RowStream :=
  { pooled, conn, ownsTx := st.ownsTx, active := st.active, exhausted := st.exhausted
    buffered := st.buf.length }

/-- `next` is the `next` of the ownership model, for the answer of this cursor. -/
theorem forget_next (s : Source) (pooled : Bool) (conn : Option Nat) :
    s.next.2.stream.forget pooled conn =
      let st := s.stream.forget pooled conn
      if st.active && decide (0 < st.buffered) then { st with buffered := st.buffered - 1 }
      else if !st.active || st.exhausted then st
      else st.fetched (s.cursor.fetchChunk s.stream.batchSize).1 := by
  cases hactive : s.stream.active with
  | false =>
      simp [Source.next, Source.fetch, PgRowStream.hasBuffered, PgRowStream.forget, hactive]
  | true =>
      cases hbuf : s.stream.buf with
      | cons row rows =>
          simp [Source.next, Source.popBuffered, PgRowStream.hasBuffered, PgRowStream.forget,
            hactive, hbuf]
      | nil =>
          cases hleft : s.stream.exhausted with
          | true =>
              simp [Source.next, Source.fetch, PgRowStream.hasBuffered, PgRowStream.forget, hactive,
                hbuf, hleft]
          | false =>
              cases hchunk : s.cursor.fetchChunk s.stream.batchSize with
              | mk chunk cursor =>
                  cases hok : chunk.ok with
                  | false =>
                      simp [Source.next, Source.fetch, PgRowStream.hasBuffered, PgRowStream.forget,
                        PgRowStream.fetched, Cursor.RowStream.fetched, hactive, hbuf, hleft, hchunk,
                        hok]
                  | true =>
                      cases hrows : chunk.rows <;>
                        simp [Source.next, Source.fetch, Source.popBuffered,
                          PgRowStream.hasBuffered, PgRowStream.forget, PgRowStream.fetched,
                          Cursor.RowStream.fetched, hactive, hbuf, hleft, hchunk, hok, hrows]

end Upq.Streaming
