/-
  Streaming/Cursors.lean --- the row streams of one connection.

  Source: `src/upq/PgTransaction.cpp` and `src/upq/PgPool.cpp`, `stream`, with the variants
  that take parameters in `include/upq/PgTransaction.h` and `include/upq/PgPool.h`;
  `src/upq/PgRowStream.cpp`, `next`, `fetch`, `close`; `src/upq/PgConnection.cpp`,
  `is_safe_cursor_ident`, `make_cursor_name` and the cursor functions.

  Many streams read from one connection, within one transaction and in those that follow
  it: a stream keeps its reference to the connection when the transaction it was opened in
  has ended and the connection has gone to somebody else.  Which rows a FETCH is answered
  with is decided by the cursor's name in its text alone.

  The server is a parameter: what it answers to a text, the rows each of its cursors has
  still to give, and which texts name a cursor.  What is used of it is in `Server.Laws`: it
  is what PostgreSQL documents of FETCH, and that a text leaves the cursors it does not
  name where they are, or ends them.  Transactions, savepoints and failures need no law of
  their own.

  No stream gets a row of another, skips one or gets one twice (`streams_never_mix`), and
  `next` answers the rows of its query one after the other (`next_answers`).  Each call of
  `next` is one of `Rows.lean`, on the rows the server has for the stream (`next_source`).
-/
import Upq.Foundation.Decimal
import Upq.Foundation.Machine
import Upq.Notify.Ident
import Upq.Streaming.Rows

set_option autoImplicit false

namespace Upq.Cursors

open Upq.Foundation Upq.Streaming
open Upq.Notify.Ident (isLower isUpper isDigit)

abbrev Text := List Char

/-! ## Names and texts -/

/-- `is_safe_cursor_ident` -/
def isSafeCursorIdent : Text → Bool
  | [] => false
  | c₀ :: rest =>
      decide ((c₀ :: rest).length ≤ 63) && (isLower c₀ || isUpper c₀ || c₀ = '_') &&
        rest.all fun c => isLower c || isUpper c || isDigit c || c = '_'

/-- The name with number `seq`. -/
def cursorName (seq : Nat) : Text := "usub_cur_".toList ++ Decimal.text seq

/-- `make_cursor_name`: the name, and `cursor_seq_` after it -/
def makeCursorName (seq : Nat) : Text × Nat :=
  (cursorName ((seq + 1) % 2 ^ 64), (seq + 1) % 2 ^ 64)

/-- The text of `cursor_declare_in_tx`, and of `cursor_declare_in_tx_params`, which has no
semicolon. -/
def declareText (params : Bool) (name sql : Text) : Text :=
  "DECLARE ".toList ++ name ++ " NO SCROLL CURSOR FOR ".toList ++ sql ++
    if params then [] else [';']

/-- The text of `cursor_fetch_chunk` -/
def fetchText (count : Nat) (name : Text) : Text :=
  "FETCH FORWARD ".toList ++ Decimal.text count ++ " FROM ".toList ++ name ++ [';']

/-- The text of `cursor_close_in_tx` -/
def closeText (name : Text) : Text := "CLOSE ".toList ++ name ++ [';']

def beginText : Text := "BEGIN;".toList

def commitText : Text := "COMMIT;".toList

def rollbackText : Text := "ROLLBACK;".toList

theorem isDigit_of_mem_text {n : Nat} {c : Char} (h : c ∈ Decimal.text n) : isDigit c = true := by
  have hdigit := Decimal.isDigit_of_mem_text h
  simpa [Char.isDigit, isDigit, Char.le_def] using hdigit

theorem cursorName_injective {m n : Nat} (h : cursorName m = cursorName n) : m = n :=
  Int.ofNat_inj.mp (Decimal.text_injective (List.append_cancel_left h))

/-- The library's own names are never refused. -/
theorem isSafeCursorIdent_cursorName {seq : Nat} (h : seq < 2 ^ 64) :
    isSafeCursorIdent (cursorName seq) = true := by
  have hlen := Decimal.length_text_le (k := 20) (by decide) (Nat.lt_trans h (by decide))
  have hrest : ∀ c ∈ "sub_cur_".toList ++ Decimal.text seq,
      (isLower c || isUpper c || isDigit c || decide (c = '_')) = true := by
    intro c hc
    rcases List.mem_append.mp hc with hc | hc
    · have hall : ("sub_cur_".toList.all fun c =>
          isLower c || isUpper c || isDigit c || decide (c = '_')) = true := by decide
      exact List.all_eq_true.mp hall c hc
    · simp [isDigit_of_mem_text hc]
  show isSafeCursorIdent ('u' :: ("sub_cur_".toList ++ Decimal.text seq)) = true
  rw [isSafeCursorIdent, List.all_eq_true.mpr hrest, Bool.and_true, Bool.and_eq_true]
  refine ⟨decide_eq_true ?_, by decide⟩
  rw [List.length_cons, List.length_append]
  have hstem : "sub_cur_".toList.length = 8 := by decide
  omega

/-! ## The server -/

/-- The server's side of a connection, seen through `run_query`.  `run` is the answer to a
text, with what everybody else does meanwhile; `cursor` the rows that the cursor of a name
has still to give; `Names` says that a text may declare, move or close the cursor of a
name, be it through a function it calls. -/
structure Server (σ ι : Type) where
  run : σ → Text → ι → QueryResult × σ
  cursor : σ → Text → Option (List Row)
  Names : Text → Text → Prop

/-- A cursor is where it was, or there is none. -/
def Kept (before after : Option (List Row)) : Prop := after = none ∨ after = before

theorem Kept.refl (rows : Option (List Row)) : Kept rows rows := .inr rfl

theorem Kept.trans {before mid after : Option (List Row)} (h : Kept before mid)
    (h' : Kept mid after) : Kept before after := by
  rcases h' with h' | rfl
  · exact .inl h'
  · exact h

/-- What is used of the server.  `unnamed`: a cursor is insensitive, and a statement leaves one
that it does not name at its row, or ends it; a ROLLBACK TO does not take a FETCH back.
`fetch`: FETCH FORWARD answers the next rows and leaves the cursor behind them; a count of 0,
which means the row before, is never sent.  The others say which cursor the library's own
texts name. -/
structure Server.Laws {σ ι : Type} (sv : Server σ ι) : Prop where
  unnamed : ∀ s text i name, ¬sv.Names text name →
    Kept (sv.cursor s name) (sv.cursor (sv.run s text i).2 name)
  fetch : ∀ s count seq i, 0 < count →
    (sv.run s (fetchText count (cursorName seq)) i).1.ok = true →
    ∃ rows, sv.cursor s (cursorName seq) = some rows ∧
      (sv.run s (fetchText count (cursorName seq)) i).1.rows = rows.take count ∧
      Kept (some (rows.drop count))
        (sv.cursor (sv.run s (fetchText count (cursorName seq)) i).2 (cursorName seq))
  declare_names : ∀ params m n sql,
    sv.Names (declareText params (cursorName m) sql) (cursorName n) →
    cursorName n = cursorName m ∨ sv.Names sql (cursorName n)
  fetch_names : ∀ count m n, sv.Names (fetchText count (cursorName m)) (cursorName n) →
    cursorName n = cursorName m
  close_names : ∀ m n, sv.Names (closeText (cursorName m)) (cursorName n) →
    cursorName n = cursorName m
  control_names : ∀ text ∈ [beginText, commitText, rollbackText], ∀ n,
    ¬sv.Names text (cursorName n)

/-! ## A server that keeps its cursors in a table -/

namespace Table

/-- What the server takes a text for; it makes sure before it acts. -/
inductive Doing where
  | refuse
  | declare (params : Bool) (name sql : Text) (rows : List Row)
  | fetch (count : Nat) (name : Text)
  | close (name : Text)
  | other
  deriving DecidableEq, Repr

def done (rows : List Row) : QueryResult := { ok := true, code := .ok, rows }

def refused : QueryResult := { ok := false, code := .serverError }

/-- The cursors under their names. -/
def run (cursors : Text → Option (List Row)) (text : Text) :
    Doing → QueryResult × (Text → Option (List Row))
  | .refuse => (refused, cursors)
  | .declare params name sql rows =>
      if text = declareText params name sql then
        (done [], Function.update cursors name (some rows))
      else (refused, cursors)
  | .fetch count name =>
      match cursors name with
      | some rows =>
          if text = fetchText count name then
            (done (rows.take count), Function.update cursors name (some (rows.drop count)))
          else (refused, cursors)
      | none => (refused, cursors)
  | .close name =>
      if text = closeText name then (done [], Function.update cursors name none)
      else (refused, cursors)
  | .other => (if text.head? = some 'F' then refused else done [], cursors)

/-- A text that is one of the three. -/
def Names (text name : Text) : Prop :=
  (∃ params sql, text = declareText params name sql) ∨ (∃ count, text = fetchText count name) ∨
    text = closeText name

def server : Server (Text → Option (List Row)) Doing := ⟨run, fun cursors => cursors, Names⟩

theorem head?_of_names {text name : Text} (h : Names text name) :
    text.head? = some 'D' ∨ text.head? = some 'F' ∨ text.head? = some 'C' := by
  rcases h with ⟨params, sql, rfl⟩ | ⟨count, rfl⟩ | rfl
  · exact .inl rfl
  · exact .inr (.inl rfl)
  · exact .inr (.inr rfl)

theorem space_notMem_text (n : Nat) : ' ' ∉ Decimal.text n := by
  intro h
  have hdigit := isDigit_of_mem_text h
  revert hdigit
  decide

theorem space_notMem_cursorName (seq : Nat) : ' ' ∉ cursorName seq := by
  intro h
  rcases List.mem_append.mp h with h | h
  · revert h
    decide
  · exact space_notMem_text seq h

/-- Two texts with one word in front. -/
theorem word_of_space {xs ys as bs : Text} (hx : ' ' ∉ xs) (hy : ' ' ∉ ys)
    (h : xs ++ ' ' :: as = ys ++ ' ' :: bs) : xs = ys ∧ as = bs := by
  have hword : ∀ xs as : Text, ' ' ∉ xs → (xs ++ ' ' :: as).takeWhile (· ≠ ' ') = xs := by
    intro xs as hxs
    have hpos : ∀ c ∈ xs, decide (c ≠ ' ') = true := by
      intro c hc
      refine decide_eq_true ?_
      rintro rfl
      exact hxs hc
    rw [List.takeWhile_append_of_pos hpos]
    simp
  have hsame : xs = ys := by rw [← hword xs as hx, h, hword ys bs hy]
  subst hsame
  exact ⟨rfl, (List.cons.inj (List.append_cancel_left h)).2⟩

theorem declareText_name {params params' : Bool} {m n : Nat} {sql sql' : Text}
    (h : declareText params (cursorName m) sql = declareText params' (cursorName n) sql') :
    cursorName m = cursorName n := by
  unfold declareText at h
  simp only [List.append_assoc] at h
  exact (word_of_space (space_notMem_cursorName m) (space_notMem_cursorName n)
    (List.append_cancel_left h)).1

theorem fetchText_injective {count count' : Nat} {name name' : Text}
    (h : fetchText count name = fetchText count' name') : count = count' ∧ name = name' := by
  unfold fetchText at h
  simp only [List.append_assoc] at h
  obtain ⟨hcount, hrest⟩ := word_of_space (space_notMem_text count) (space_notMem_text count')
    (List.append_cancel_left h)
  have hfrom : "FROM ".toList ++ (name ++ [';']) = "FROM ".toList ++ (name' ++ [';']) := hrest
  exact ⟨Int.ofNat_inj.mp (Decimal.text_injective hcount),
    List.append_cancel_right (List.append_cancel_left hfrom)⟩

theorem closeText_injective {name name' : Text} (h : closeText name = closeText name') :
    name = name' :=
  List.append_cancel_left (List.append_cancel_right h)

/-- A text is of one of the three kinds only. -/
theorem names_declare {params : Bool} {m n : Nat} {sql : Text}
    (h : Names (declareText params (cursorName m) sql) (cursorName n)) :
    cursorName n = cursorName m := by
  rcases h with ⟨_, _, h⟩ | ⟨_, h⟩ | h
  · exact (declareText_name h).symm
  · cases congrArg List.head? h
  · cases congrArg List.head? h

theorem names_fetch {count : Nat} {name other : Text} (h : Names (fetchText count name) other) :
    other = name := by
  rcases h with ⟨_, _, h⟩ | ⟨_, h⟩ | h
  · cases congrArg List.head? h
  · exact (fetchText_injective h).2.symm
  · cases congrArg List.head? h

theorem names_close {name other : Text} (h : Names (closeText name) other) : other = name := by
  rcases h with ⟨_, _, h⟩ | ⟨_, h⟩ | h
  · cases congrArg List.head? h
  · cases congrArg List.head? h
  · exact (closeText_injective h).symm

theorem not_names_of_head {text name : Text}
    (h : text.head? ≠ some 'D' ∧ text.head? ≠ some 'F' ∧ text.head? ≠ some 'C') :
    ¬Names text name := fun hnames => by
  rcases head?_of_names hnames with hd | hf | hc
  · exact h.1 hd
  · exact h.2.1 hf
  · exact h.2.2 hc

theorem not_names_commit (name : Text) : ¬Names commitText name := by
  rintro (⟨_, _, h⟩ | ⟨_, h⟩ | h)
  · cases congrArg List.head? h
  · cases congrArg List.head? h
  · cases congrArg (List.head? ∘ List.tail) h

theorem kept_update {cursors : Text → Option (List Row)} {name other : Text}
    (rows : Option (List Row)) (h : other ≠ name) :
    Kept (cursors other) (Function.update cursors name rows other) :=
  .inr (Function.update_of_ne h ..)

theorem laws : server.Laws where
  unnamed cursors text i name hnames := by
    cases i with
    | refuse | other => exact .refl _
    | declare params cursor sql rows =>
        simp only [server, run]
        split
        · rename_i htext
          refine kept_update _ fun heq => hnames (.inl ⟨params, sql, ?_⟩)
          rw [htext, heq]
        · exact .refl _
    | fetch count cursor =>
        simp only [server, run]
        split
        · split
          · rename_i htext
            refine kept_update _ fun heq => hnames (.inr (.inl ⟨count, ?_⟩))
            rw [htext, heq]
          · exact .refl _
        · exact .refl _
    | close cursor =>
        simp only [server, run]
        split
        · rename_i htext
          refine kept_update _ fun heq => hnames (.inr (.inr ?_))
          rw [htext, heq]
        · exact .refl _
  fetch cursors count seq i _ hok := by
    cases i with
    | refuse | other => cases hok
    | declare params cursor sql rows =>
        simp only [server, run] at hok
        split at hok
        · rename_i htext
          cases congrArg List.head? htext
        · cases hok
    | fetch count' cursor =>
        simp only [server, run] at hok ⊢
        cases hrows : cursors cursor with
        | none =>
            rw [hrows] at hok
            cases hok
        | some rows =>
            rw [hrows] at hok
            dsimp only at hok ⊢
            split at hok
            · rename_i htext
              obtain ⟨rfl, rfl⟩ := fetchText_injective htext
              exact ⟨rows, hrows, by simp [done], .inr (by simp)⟩
            · cases hok
    | close cursor =>
        simp only [server, run] at hok
        split at hok
        · rename_i htext
          cases congrArg List.head? htext
        · cases hok
  declare_names _ _ _ _ h := .inl (names_declare h)
  fetch_names _ _ _ h := names_fetch h
  close_names _ _ h := names_close h
  control_names text htext n := by
    simp only [List.mem_cons, List.not_mem_nil, or_false] at htext
    rcases htext with rfl | rfl | rfl
    · exact not_names_of_head (by decide)
    · exact not_names_commit _
    · exact not_names_of_head (by decide)

end Table

/-! ## The connection and its streams -/

/-- A stream, with two things for the proofs: the rows its cursor had when it was declared,
and those `next` has answered. -/
structure Stream where
  object : PgRowStream
  cursorName : Text
  query : List Row
  got : List Row

structure Session (σ : Type) where
  connected : Bool
  server : σ
  cursorSeq : Nat
  streams : List Stream

/-- Put a stream in the place of one. -/
def Session.put {σ : Type} (s : Session σ) (n : Nat) (st : Stream) : Session σ :=
  { s with streams := s.streams.set n st }

/-- `detail::invalid_cursor_result` -/
def invalidCursorResult : QueryResult :=
  { ok := false, code := .protocolCorrupt, error := "invalid cursor name", rowsValid := false }

section

variable {σ ι : Type} (sv : Server σ ι)

/-- `run_query` of one text -/
def Session.runQuery (s : Session σ) (text : Text) (i : ι) : QueryResult × Session σ :=
  if s.connected then ((sv.run s.server text i).1, { s with server := (sv.run s.server text i).2 })
  else (closedResult "connection not OK", s)

/-- What the cursor functions do with their text. -/
def Session.cursorQuery (s : Session σ) (name text : Text) (i : ι) : QueryResult × Session σ :=
  if isSafeCursorIdent name then s.runQuery sv text i else (invalidCursorResult, s)

/-- `make_cursor_name` and the DECLARE, and the stream on the new cursor if it succeeds. -/
def Session.declare (s : Session σ) (params : Bool) (sql : Text) (batchSize : Nat) (ownsTx : Bool)
    (i : ι) : QueryResult × Session σ :=
  let (name, cursorSeq) := makeCursorName s.cursorSeq
  let (r, s) := { s with cursorSeq }.cursorQuery sv name (declareText params name sql) i
  let st : Stream := ⟨.opened batchSize ownsTx, name, (sv.cursor s.server name).getD [], []⟩
  (r, if r.ok then { s with streams := s.streams ++ [st] } else s)

/-- `PgTransaction::stream` -/
def Session.stream (s : Session σ) (params : Bool) (sql : Text) (batchSize : Nat) (i : ι) :
    Session σ :=
  if s.connected then (s.declare sv params sql batchSize false i).2 else s

/-- `PgPool::stream`, with the connection it has been given -/
def Session.poolStream (s : Session σ) (params : Bool) (sql : Text) (batchSize : Nat)
    (onBegin onDeclare onRollback : ι) : Session σ :=
  let (r, s) := s.runQuery sv beginText onBegin
  if r.ok then
    let (r, s) := s.declare sv params sql batchSize true onDeclare
    if !r.ok && !isFatalConnectionError r then (s.runQuery sv rollbackText onRollback).2 else s
  else s

/-- `pop_buffered` -/
def Stream.popBuffered (st : Stream) : Option Row × Stream :=
  (st.object.buf.head?, { st with
    object := { st.object with buf := st.object.buf.tail }
    got := st.got ++ st.object.buf.head?.toList })

/-- `PgRowStream::next`, with `fetch` in it -/
def Session.next (s : Session σ) (n : Nat) (i : ι) : Option (Option Row × Session σ) :=
  s.streams[n]?.map fun st =>
    if st.object.hasBuffered then (st.popBuffered.1, s.put n st.popBuffered.2)
    else if !st.object.active || st.object.exhausted then (none, s)
    else
      let (chunk, s) :=
        s.cursorQuery sv st.cursorName (fetchText st.object.batchSize st.cursorName) i
      let st := { st with object := st.object.fetched chunk }
      if chunk.ok && !chunk.rows.isEmpty then (st.popBuffered.1, s.put n st.popBuffered.2)
      else (none, s.put n st)

/-- `set_batch_size` -/
def Session.setBatchSize (s : Session σ) (n size : Nat) : Option (Session σ) :=
  s.streams[n]?.map fun st => s.put n { st with object := st.object.setBatchSize size }

/-- `PgRowStream::close`; where the connection goes then is left to the model of ownership. -/
def Session.close (s : Session σ) (n : Nat) (onClose onCommit : ι) : Option (Session σ) :=
  s.streams[n]?.map fun st =>
    if !st.object.active then s
    else if !s.connected then s.put n { st with object := { st.object with active := false } }
    else
      let (closed, s) := s.cursorQuery sv st.cursorName (closeText st.cursorName) onClose
      let (committed, s') := s.runQuery sv commitText onCommit
      let object := st.object.close ⟨true, closed, committed⟩
      (if !isFatalConnectionError closed && st.object.ownsTx then s' else s).put n
        { st with object }

/-! ## Runs -/

/-- What happens on a connection.  `statement` is any text of the program; `next`,
`setBatchSize` and `close` are calls on the stream that was opened as number `n`. -/
inductive Event (ι : Type) where
  | statement (text : Text) (i : ι)
  | stream (params : Bool) (sql : Text) (batchSize : Nat) (i : ι)
  | poolStream (params : Bool) (sql : Text) (batchSize : Nat) (onBegin onDeclare onRollback : ι)
  | next (n : Nat) (i : ι)
  | setBatchSize (n size : Nat)
  | close (n : Nat) (onClose onCommit : ι)
  | lost

def step (s : Session σ) : Event ι → Option (Session σ)
  | .statement text i => some (s.runQuery sv text i).2
  | .stream params sql batchSize i => some (s.stream sv params sql batchSize i)
  | .poolStream params sql batchSize onBegin onDeclare onRollback =>
      some (s.poolStream sv params sql batchSize onBegin onDeclare onRollback)
  | .next n i => (s.next sv n i).map Prod.snd
  | .setBatchSize n size => s.setBatchSize n size
  | .close n onClose onCommit => s.close sv n onClose onCommit
  | .lost => some { s with connected := false }

/-- A new connection. -/
def start (server : σ) : Session σ := ⟨true, server, 0, []⟩

/-- The program's own texts name no cursor of the library. -/
def Spares : Event ι → Prop
  | .statement text _ => ∀ seq, ¬sv.Names text (cursorName seq)
  | .stream _ sql _ _ | .poolStream _ sql _ _ _ _ => ∀ seq, ¬sv.Names sql (cursorName seq)
  | _ => True

/-- `cursor_seq_` does not come round. -/
def Counting (s : Session σ) (_ : Event ι) : Prop := s.cursorSeq + 1 < 2 ^ 64

instance (s : Session σ) (e : Event ι) : Decidable (Counting s e) :=
  inferInstanceAs (Decidable (_ < _))

/-! ## What a stream has and what is left -/

/-- What a stream has been given is the beginning of what its query gave, the rest is still in
its cursor while it reads, and it is at its end when nothing was left. -/
structure Stream.Faithful (server : σ) (st : Stream) : Prop where
  given : st.got ++ st.object.buf <+: st.query
  left : st.object.active = true → st.object.exhausted = false →
    ∀ rows, sv.cursor server st.cursorName = some rows → st.got ++ st.object.buf ++ rows = st.query
  finished : st.object.exhausted = true → st.object.err = none →
    st.got ++ st.object.buf = st.query

/-- The streams have names of their own, all made before, and each has its rows. -/
structure Session.Sound (s : Session σ) : Prop where
  seq_lt : s.cursorSeq < 2 ^ 64
  named : ∀ st ∈ s.streams, ∃ seq ≤ s.cursorSeq, st.cursorName = cursorName seq
  nodup : (s.streams.map Stream.cursorName).Nodup
  faithful : ∀ st ∈ s.streams, st.Faithful sv s.server

variable {sv}

theorem sound_start (server : σ) : (start server).Sound sv :=
  ⟨Nat.two_pow_pos 64, fun _ h => absurd h List.not_mem_nil, List.nodup_nil,
    fun _ h => absurd h List.not_mem_nil⟩

/-- The server moves, and the stream's cursor does not. -/
theorem Stream.Faithful.kept {server server' : σ} {st : Stream} (h : st.Faithful sv server)
    (hkept : Kept (sv.cursor server st.cursorName) (sv.cursor server' st.cursorName)) :
    st.Faithful sv server' := by
  refine ⟨h.given, fun hactive hmore rows hrows => ?_, h.finished⟩
  rcases hkept with hnone | hsame
  · rw [hnone] at hrows
    cases hrows
  · exact h.left hactive hmore rows (hsame ▸ hrows)

/-- A buffered row is handed out. -/
theorem Stream.Faithful.popBuffered {server : σ} {st : Stream} (h : st.Faithful sv server) :
    st.popBuffered.2.Faithful sv server := by
  have hsame : st.popBuffered.2.got ++ st.popBuffered.2.object.buf = st.got ++ st.object.buf := by
    unfold Stream.popBuffered
    cases st.object.buf <;> simp
  refine ⟨?_, fun hactive hmore rows hrows => ?_, fun hover hok => ?_⟩
  · rw [hsame]
    exact h.given
  · rw [hsame]
    exact h.left hactive hmore rows hrows
  · rw [hsame]
    exact h.finished hover hok

section

variable {s : Session σ} {n : Nat} {st st' : Stream}

/-- A text that names no stream's cursor. -/
theorem Session.Sound.serve (hs : s.Sound sv) {server : σ}
    (hkept : ∀ st ∈ s.streams,
      Kept (sv.cursor s.server st.cursorName) (sv.cursor server st.cursorName)) :
    Session.Sound sv { s with server } :=
  ⟨hs.seq_lt, hs.named, hs.nodup, fun st hst => (hs.faithful st hst).kept (hkept st hst)⟩

theorem Session.Sound.index_eq (hs : s.Sound sv) {m : Nat} (hn : s.streams[n]? = some st)
    (hm : s.streams[m]? = some st') (hname : st'.cursorName = st.cursorName) : m = n := by
  have hmap : (s.streams.map Stream.cursorName)[m]? = (s.streams.map Stream.cursorName)[n]? := by
    rw [List.getElem?_map, List.getElem?_map, hn, hm, Option.map_some, Option.map_some, hname]
  have hlt : m < (s.streams.map Stream.cursorName).length := by
    rw [List.length_map]
    exact (List.getElem?_eq_some_iff.mp hm).1
  exact (List.getElem?_inj hlt hs.nodup).mp hmap

/-- One stream changes, with the server at its cursor. -/
theorem Session.Sound.put (hs : s.Sound sv) (hn : s.streams[n]? = some st) {server : σ}
    (hname : st'.cursorName = st.cursorName) (hst : st'.Faithful sv server)
    (hkept : ∀ seq, cursorName seq ≠ st.cursorName →
      Kept (sv.cursor s.server (cursorName seq)) (sv.cursor server (cursorName seq))) :
    Session.Sound sv (Session.put { s with server } n st') := by
  have hlt : n < s.streams.length := (List.getElem?_eq_some_iff.mp hn).1
  have hmem : st ∈ s.streams := List.mem_of_getElem? hn
  have hnames : (s.streams.set n st').map Stream.cursorName = s.streams.map Stream.cursorName := by
    obtain ⟨_, rfl⟩ := List.getElem?_eq_some_iff.mp hn
    rw [List.map_set, hname, ← List.map_set, List.set_getElem_self]
  refine ⟨hs.seq_lt, fun x hx => ?_, hnames ▸ hs.nodup, fun x hx => ?_⟩
  · rcases List.mem_or_eq_of_mem_set hx with hx | rfl
    · exact hs.named x hx
    · rw [hname]
      exact hs.named st hmem
  · obtain ⟨m, hm⟩ := List.mem_iff_getElem?.mp hx
    change (s.streams.set n st')[m]? = some x at hm
    by_cases hmn : m = n
    · subst hmn
      rw [List.getElem?_set_self hlt] at hm
      cases hm
      exact hst
    · rw [List.getElem?_set_ne (Ne.symm hmn)] at hm
      have hother : x ∈ s.streams := List.mem_of_getElem? hm
      obtain ⟨seq, -, hseq⟩ := hs.named x hother
      refine (hs.faithful x hother).kept (hseq ▸ hkept seq fun heq => hmn ?_)
      exact hs.index_eq hn hm (hseq.trans heq)

end

/-! ## One call -/

section

variable {s s' : Session σ} {n : Nat} {st : Stream}

/-- `run_query` moves nothing but the server, and no cursor its text does not name. -/
theorem runQuery_serves (hlaws : sv.Laws) (s : Session σ) (text : Text) (i : ι) :
    ∃ server, (s.runQuery sv text i).2 = { s with server } ∧
      (∀ name, ¬sv.Names text name → Kept (sv.cursor s.server name) (sv.cursor server name)) ∧
      ((s.runQuery sv text i).1.ok = true →
        sv.run s.server text i = ((s.runQuery sv text i).1, server)) := by
  unfold Session.runQuery
  split
  · exact ⟨_, rfl, fun name => hlaws.unnamed s.server text i name, fun _ => rfl⟩
  · refine ⟨s.server, rfl, fun _ _ => .refl _, fun hok => ?_⟩
    cases hok

/-- A text that names no cursor of the library. -/
theorem Session.Sound.statement (hs : s.Sound sv) (hlaws : sv.Laws) {text : Text} (i : ι)
    (hnames : ∀ seq, ¬sv.Names text (cursorName seq)) : (s.runQuery sv text i).2.Sound sv := by
  obtain ⟨server, hserver, hkept, -⟩ := runQuery_serves hlaws s text i
  rw [hserver]
  refine hs.serve fun st hst => ?_
  obtain ⟨seq, -, hseq⟩ := hs.named st hst
  exact hseq ▸ hkept _ (hnames seq)

/-- A text that names no cursor but the stream's own. -/
theorem Session.Sound.ownQuery (hs : s.Sound sv) (hlaws : sv.Laws) (hmem : st ∈ s.streams)
    {text : Text} {i : ι} {r : QueryResult} {mid : Session σ}
    (hnames : ∀ seq, sv.Names text (cursorName seq) → cursorName seq = st.cursorName)
    (h : s.cursorQuery sv st.cursorName text i = (r, mid)) :
    ∃ server, mid = { s with server } ∧
      (∀ seq, cursorName seq ≠ st.cursorName →
        Kept (sv.cursor s.server (cursorName seq)) (sv.cursor server (cursorName seq))) ∧
      (r.ok = true → sv.run s.server text i = (r, server)) := by
  obtain ⟨seq, hle, hseq⟩ := hs.named st hmem
  have hsafe := isSafeCursorIdent_cursorName (Nat.lt_of_le_of_lt hle hs.seq_lt)
  rw [Session.cursorQuery, hseq, if_pos hsafe] at h
  obtain ⟨server, hserver, hkept, hrun⟩ := runQuery_serves hlaws s text i
  rw [h] at hserver hrun
  refine ⟨server, hserver, fun other hne => hkept _ fun hnamed => hne (hnames other hnamed), hrun⟩

/-- The answer to a FETCH, for a stream without a buffered row. -/
theorem Stream.Faithful.fetched {server server' : σ} {chunk : QueryResult}
    (h : st.Faithful sv server) (hbuf : st.object.buf = []) (hactive : st.object.active = true)
    (hmore : st.object.exhausted = false)
    (hanswer : chunk.ok = true → ∃ rows, sv.cursor server st.cursorName = some rows ∧
      chunk.rows = rows.take st.object.batchSize ∧
      Kept (some (rows.drop st.object.batchSize)) (sv.cursor server' st.cursorName)) :
    Stream.Faithful sv server' { st with object := st.object.fetched chunk } := by
  cases hok : chunk.ok with
  | false =>
      have hobject : st.object.fetched chunk =
          { st.object with err := some (toOpError chunk), exhausted := true } := by
        simp [PgRowStream.fetched, hok]
      rw [hobject]
      refine ⟨h.given, fun _ hmore => ?_, fun _ herr => ?_⟩
      · cases hmore
      · cases herr
  | true =>
      obtain ⟨rows, hrows, hchunk, hkept⟩ := hanswer hok
      have hquery := h.left hactive hmore rows hrows
      rw [hbuf, List.append_nil] at hquery
      have hobject : (st.object.fetched chunk).buf = rows.take st.object.batchSize ∧
          (st.object.fetched chunk).exhausted = (rows.take st.object.batchSize).isEmpty := by
        simp [PgRowStream.fetched, hok, hchunk, hmore]
      have hall : st.got ++ (st.object.fetched chunk).buf ++ rows.drop st.object.batchSize =
          st.query := by
        rw [hobject.1, List.append_assoc, List.take_append_drop, hquery]
      refine ⟨⟨_, hall⟩, fun _ _ rest hrest => ?_, fun hover _ => ?_⟩
      · rcases hkept with hnone | hsome
        · rw [hnone] at hrest
          cases hrest
        · rw [hsome] at hrest
          cases hrest
          exact hall
      · -- the batch size is not 0, so an empty batch is the end of the rows
        change (st.object.fetched chunk).exhausted = true at hover
        rw [hobject.2, List.isEmpty_iff, List.take_eq_nil_iff] at hover
        have hnil : rows = [] := hover.resolve_left st.object.batchSize_pos.ne'
        rw [hnil, List.drop_nil, List.append_nil] at hall
        exact hall

/-- A FETCH of a stream: what it is answered with, and the server after it. -/
structure Fetched (sv : Server σ ι) (s : Session σ) (st : Stream) (chunk : QueryResult)
    (server : σ) : Prop where
  kept : ∀ seq, cursorName seq ≠ st.cursorName →
    Kept (sv.cursor s.server (cursorName seq)) (sv.cursor server (cursorName seq))
  answer : chunk.ok = true → ∃ rows, sv.cursor s.server st.cursorName = some rows ∧
    chunk.rows = rows.take st.object.batchSize ∧
    Kept (some (rows.drop st.object.batchSize)) (sv.cursor server st.cursorName)

theorem Session.Sound.fetch (hs : s.Sound sv) (hlaws : sv.Laws) (hmem : st ∈ s.streams) {i : ι}
    {chunk : QueryResult} {mid : Session σ}
    (hquery : s.cursorQuery sv st.cursorName (fetchText st.object.batchSize st.cursorName) i =
      (chunk, mid)) :
    ∃ server, mid = { s with server } ∧ Fetched sv s st chunk server := by
  obtain ⟨seq, -, hseq⟩ := hs.named st hmem
  obtain ⟨server, hserver, hkept, hrun⟩ := hs.ownQuery hlaws hmem
    (hseq ▸ hlaws.fetch_names _ seq) hquery
  refine ⟨server, hserver, hkept, fun hok => ?_⟩
  have hanswer := hlaws.fetch s.server st.object.batchSize seq i st.object.batchSize_pos
  rw [← hseq, hrun hok] at hanswer
  exact hanswer hok

/-- What a call of `next` comes to. -/
inductive Nexted (sv : Server σ ι) (s : Session σ) (n : Nat) (st : Stream) :
    Option Row → Session σ → Prop where
  | buffered (hbuffered : st.object.hasBuffered = true) :
      Nexted sv s n st st.popBuffered.1 (s.put n st.popBuffered.2)
  | stopped (hbuffered : st.object.hasBuffered = false)
      (hstop : (!st.object.active || st.object.exhausted) = true) : Nexted sv s n st none s
  | row {chunk : QueryResult} {server : σ} (hbuffered : st.object.hasBuffered = false)
      (hgo : (!st.object.active || st.object.exhausted) = false)
      (hfetch : Fetched sv s st chunk server) (hok : chunk.ok = true) (hrows : chunk.rows ≠ []) :
      Nexted sv s n st (Stream.popBuffered { st with object := st.object.fetched chunk }).1
        (Session.put { s with server } n
          (Stream.popBuffered { st with object := st.object.fetched chunk }).2)
  | noRow {chunk : QueryResult} {server : σ} (hbuffered : st.object.hasBuffered = false)
      (hgo : (!st.object.active || st.object.exhausted) = false)
      (hfetch : Fetched sv s st chunk server) (hnone : chunk.ok = true → chunk.rows = []) :
      Nexted sv s n st none
        (Session.put { s with server } n { st with object := st.object.fetched chunk })

theorem Session.Sound.nexted (hs : s.Sound sv) (hlaws : sv.Laws) (hn : s.streams[n]? = some st)
    {i : ι} {row : Option Row} (h : s.next sv n i = some (row, s')) : Nexted sv s n st row s' := by
  rw [Session.next, hn, Option.map_some, Option.some.injEq] at h
  split at h
  · rename_i hbuffered
    cases h
    exact .buffered hbuffered
  · rename_i hbuffered
    rw [Bool.not_eq_true] at hbuffered
    split at h
    · rename_i hstop
      cases h
      exact .stopped hbuffered hstop
    · rename_i hgo
      rw [Bool.not_eq_true] at hgo
      cases hquery : s.cursorQuery sv st.cursorName
          (fetchText st.object.batchSize st.cursorName) i with
      | mk chunk mid =>
          obtain ⟨server, rfl, hfetch⟩ := hs.fetch hlaws (List.mem_of_getElem? hn) hquery
          rw [hquery] at h
          dsimp only at h
          split at h
          · rename_i hrow
            cases h
            rw [Bool.and_eq_true, Bool.not_eq_true', List.isEmpty_eq_false_iff] at hrow
            exact .row hbuffered hgo hfetch hrow.1 hrow.2
          · rename_i hrow
            cases h
            exact .noRow hbuffered hgo hfetch fun hok => by simpa [hok] using hrow

/-- A stream that has to fetch has nothing buffered. -/
theorem Stream.drained (hbuffered : st.object.hasBuffered = false)
    (hgo : (!st.object.active || st.object.exhausted) = false) :
    st.object.buf = [] ∧ st.object.active = true ∧ st.object.exhausted = false := by
  obtain ⟨hactive, hmore⟩ : st.object.active = true ∧ st.object.exhausted = false := by
    simpa using hgo
  have hbuf : st.object.buf = [] := by
    simpa [PgRowStream.hasBuffered, hactive] using hbuffered
  exact ⟨hbuf, hactive, hmore⟩

/-- The stream after a FETCH has its rows. -/
theorem Session.Sound.fetched (hs : s.Sound sv) (hmem : st ∈ s.streams) {chunk : QueryResult}
    {server : σ} (hbuffered : st.object.hasBuffered = false)
    (hgo : (!st.object.active || st.object.exhausted) = false)
    (hfetch : Fetched sv s st chunk server) :
    Stream.Faithful sv server { st with object := st.object.fetched chunk } := by
  obtain ⟨hbuf, hactive, hmore⟩ := st.drained hbuffered hgo
  exact (hs.faithful st hmem).fetched hbuf hactive hmore hfetch.answer

theorem Session.Sound.next (hs : s.Sound sv) (hlaws : sv.Laws) {i : ι} {row : Option Row}
    (h : s.next sv n i = some (row, s')) : s'.Sound sv := by
  obtain ⟨st, hn, -⟩ := Option.map_eq_some_iff.mp h
  have hmem : st ∈ s.streams := List.mem_of_getElem? hn
  cases hs.nexted hlaws hn h with
  | buffered _ => exact hs.put hn rfl (hs.faithful st hmem).popBuffered fun _ _ => .refl _
  | stopped _ _ => exact hs
  | row hbuffered hgo hfetch _ _ =>
      exact hs.put hn rfl (hs.fetched hmem hbuffered hgo hfetch).popBuffered hfetch.kept
  | noRow hbuffered hgo hfetch _ =>
      exact hs.put hn rfl (hs.fetched hmem hbuffered hgo hfetch) hfetch.kept

theorem Session.Sound.setBatchSize (hs : s.Sound sv) {size : Nat}
    (h : s.setBatchSize n size = some s') : s'.Sound sv := by
  obtain ⟨st, hn, rfl⟩ := Option.map_eq_some_iff.mp h
  have hfaithful := hs.faithful st (List.mem_of_getElem? hn)
  refine hs.put hn rfl ?_ fun _ _ => .refl _
  exact ⟨hfaithful.given, hfaithful.left, hfaithful.finished⟩

theorem note_eq_none {err : Option PgOpError} {r : QueryResult} (h : note err r = none) :
    err = none := by
  unfold note at h
  split at h
  · exact h
  · exact (Option.or_eq_none_iff.mp h).1

/-- Closing a stream changes none of its rows and no error it has. -/
theorem close_keeps (object : PgRowStream) (o : CloseOutcome) :
    (object.close o).buf = object.buf ∧ (object.close o).exhausted = object.exhausted ∧
      ((object.close o).err = none → object.err = none) := by
  unfold PgRowStream.close
  split
  · exact ⟨rfl, rfl, id⟩
  · split
    · exact ⟨rfl, rfl, id⟩
    · refine ⟨rfl, rfl, fun herr => ?_⟩
      dsimp only at herr
      split at herr
      · exact note_eq_none (note_eq_none herr)
      · exact note_eq_none herr

theorem Stream.Faithful.close {server server' : σ} (h : st.Faithful sv server) (o : CloseOutcome) :
    Stream.Faithful sv server' { st with object := st.object.close o } := by
  obtain ⟨hbuf, hover, herr⟩ := close_keeps st.object o
  refine ⟨?_, fun hactive => ?_, fun hexhausted hok => ?_⟩
  · show st.got ++ (st.object.close o).buf <+: st.query
    rw [hbuf]
    exact h.given
  · rw [close_active] at hactive
    cases hactive
  · show st.got ++ (st.object.close o).buf = st.query
    rw [hbuf]
    exact h.finished (hover ▸ hexhausted) (herr hok)

theorem Session.Sound.close (hs : s.Sound sv) (hlaws : sv.Laws) {onClose onCommit : ι}
    (h : s.close sv n onClose onCommit = some s') : s'.Sound sv := by
  obtain ⟨st, hn, rfl⟩ := Option.map_eq_some_iff.mp h
  have hmem : st ∈ s.streams := List.mem_of_getElem? hn
  have hfaithful := hs.faithful st hmem
  split
  · exact hs
  · split
    · refine hs.put hn rfl ?_ fun _ _ => .refl _
      refine ⟨hfaithful.given, fun hactive => ?_, hfaithful.finished⟩
      cases hactive
    · obtain ⟨seq, -, hseq⟩ := hs.named st hmem
      cases hclose : s.cursorQuery sv st.cursorName (closeText st.cursorName) onClose with
      | mk closed mid =>
          obtain ⟨server, rfl, hkept, -⟩ := hs.ownQuery hlaws hmem
            (hseq ▸ hlaws.close_names seq) hclose
          dsimp only
          split
          · -- the COMMIT behind the CLOSE ends cursors, or leaves them alone
            obtain ⟨server', hserver', hkept', -⟩ :=
              runQuery_serves hlaws { s with server } commitText onCommit
            rw [hserver']
            refine hs.put hn rfl (hfaithful.close _) fun other hne => (hkept other hne).trans ?_
            exact hkept' _ (hlaws.control_names commitText (by simp) other)
          · exact hs.put hn rfl (hfaithful.close _) hkept

/-- The number of a new name has not been used. -/
theorem Session.Sound.fresh (hs : s.Sound sv) (hmem : st ∈ s.streams) :
    st.cursorName ≠ cursorName (s.cursorSeq + 1) := by
  obtain ⟨seq, hle, hname⟩ := hs.named st hmem
  intro heq
  have := cursorName_injective (hname.symm.trans heq)
  omega

theorem Session.Sound.declare (hs : s.Sound sv) (hlaws : sv.Laws) {params ownsTx : Bool}
    {sql : Text} {batchSize : Nat} {i : ι} (hsql : ∀ seq, ¬sv.Names sql (cursorName seq))
    (hseq : s.cursorSeq + 1 < 2 ^ 64) :
    (s.declare sv params sql batchSize ownsTx i).2.Sound sv := by
  have hmod : (s.cursorSeq + 1) % 2 ^ 64 = s.cursorSeq + 1 := Nat.mod_eq_of_lt hseq
  have hsafe := isSafeCursorIdent_cursorName hseq
  unfold Session.declare
  simp only [makeCursorName, hmod, Session.cursorQuery, hsafe, if_true]
  obtain ⟨server, hserver, hkept, -⟩ := runQuery_serves hlaws
    { s with cursorSeq := s.cursorSeq + 1 }
    (declareText params (cursorName (s.cursorSeq + 1)) sql) i
  have hothers : ∀ st ∈ s.streams, st.Faithful sv server := by
    intro st hst
    obtain ⟨seq, -, hname⟩ := hs.named st hst
    refine (hs.faithful st hst).kept (hname ▸ hkept _ fun hnamed => ?_)
    rcases hlaws.declare_names params _ seq sql hnamed with heq | hnamed
    · exact hs.fresh hst (hname.trans heq)
    · exact hsql seq hnamed
  rw [hserver]
  split
  · refine ⟨hseq, fun st hst => ?_, ?_, fun st hst => ?_⟩
    · rcases List.mem_append.mp hst with hst | hst
      · obtain ⟨seq, hle, hname⟩ := hs.named st hst
        exact ⟨seq, Nat.le_succ_of_le hle, hname⟩
      · exact ⟨s.cursorSeq + 1, Nat.le_refl _, List.mem_singleton.mp hst ▸ rfl⟩
    · rw [List.map_append]
      refine List.nodup_append.mpr ⟨hs.nodup, by simp, ?_⟩
      rintro name hname other hother rfl
      obtain ⟨st, hst, rfl⟩ := List.mem_map.mp hname
      exact hs.fresh hst (List.mem_singleton.mp hother)
    · rcases List.mem_append.mp hst with hst | hst
      · exact hothers st hst
      · cases List.mem_singleton.mp hst
        refine ⟨List.nil_prefix, fun _ _ rows hrows => ?_, fun hover => ?_⟩
        · dsimp only at hrows ⊢
          rw [hrows]
          rfl
        · cases hover
  · refine ⟨hseq, fun st hst => ?_, hs.nodup, hothers⟩
    obtain ⟨seq, hle, hname⟩ := hs.named st hst
    exact ⟨seq, Nat.le_succ_of_le hle, hname⟩

theorem Session.Sound.poolStream (hs : s.Sound sv) (hlaws : sv.Laws) {params : Bool} {sql : Text}
    {batchSize : Nat} {onBegin onDeclare onRollback : ι}
    (hsql : ∀ seq, ¬sv.Names sql (cursorName seq)) (hseq : s.cursorSeq + 1 < 2 ^ 64) :
    (s.poolStream sv params sql batchSize onBegin onDeclare onRollback).Sound sv := by
  have hbegin := hs.statement hlaws onBegin (hlaws.control_names beginText (by simp))
  obtain ⟨server, hserver, -⟩ := runQuery_serves hlaws s beginText onBegin
  have hseq' : (s.runQuery sv beginText onBegin).2.cursorSeq + 1 < 2 ^ 64 := by
    rw [hserver]
    exact hseq
  unfold Session.poolStream
  dsimp only
  split
  · split
    · exact (hbegin.declare hlaws hsql hseq').statement hlaws onRollback
        (hlaws.control_names rollbackText (by simp))
    · exact hbegin.declare hlaws hsql hseq'
  · exact hbegin

/-- **Every step keeps every stream at its rows.** -/
theorem sound_step {e : Event ι} (hlaws : sv.Laws) (hs : s.Sound sv) (hspares : Spares sv e)
    (hseq : Counting s e) (hstep : step sv s e = some s') : s'.Sound sv := by
  cases e with
  | statement text i =>
      cases hstep
      exact hs.statement hlaws i hspares
  | stream params sql batchSize i =>
      cases hstep
      unfold Session.stream
      split
      · exact hs.declare hlaws hspares hseq
      · exact hs
  | poolStream params sql batchSize onBegin onDeclare onRollback =>
      cases hstep
      exact hs.poolStream hlaws hspares hseq
  | next n i =>
      obtain ⟨⟨row, last⟩, hnext, rfl⟩ := Option.map_eq_some_iff.mp hstep
      exact hs.next hlaws hnext
  | setBatchSize n size => exact hs.setBatchSize hstep
  | close n onClose onCommit => exact hs.close hlaws hstep
  | lost =>
      cases hstep
      exact ⟨hs.seq_lt, hs.named, hs.nodup, hs.faithful⟩

/-- The next row of a stream that has one buffered. -/
theorem Stream.Faithful.head {server : σ} (h : st.Faithful sv server) (hbuf : st.object.buf ≠ []) :
    st.popBuffered.1 = st.query[st.got.length]? := by
  obtain ⟨rest, hquery⟩ := h.given
  rw [← hquery, List.append_assoc, List.getElem?_append_right (Nat.le_refl _), Nat.sub_self,
    Stream.popBuffered]
  cases hrows : st.object.buf with
  | nil => exact absurd hrows hbuf
  | cons row rows => rfl

/-- A stream at its end, with nothing buffered. -/
theorem Stream.Faithful.none_left {server : σ} (h : st.Faithful sv server)
    (hbuf : st.object.buf = []) (hover : st.object.exhausted = true) (hok : st.object.err = none) :
    st.query[st.got.length]? = none := by
  have hquery := h.finished hover hok
  rw [hbuf, List.append_nil] at hquery
  rw [← hquery]
  exact List.getElem?_eq_none (Nat.le_refl _)

/-- The stream that was put is there. -/
theorem streams_put (hn : s.streams[n]? = some st) (server : σ) (x : Stream) :
    (Session.put { s with server } n x).streams[n]? = some x :=
  List.getElem?_set_self (List.getElem?_eq_some_iff.mp hn).1

/-- What `next` answers: the next row, or none with a reason. -/
theorem Session.Sound.answers (hs : s.Sound sv) (hlaws : sv.Laws) (hn : s.streams[n]? = some st)
    {i : ι} {row : Option Row} (h : s.next sv n i = some (row, s')) :
    ∃ st', s'.streams[n]? = some st' ∧ st'.got = st.got ++ row.toList ∧
      (row = st.query[st.got.length]? ∨
        row = none ∧ (st.object.active = false ∨ st'.object.err ≠ none)) := by
  have hset := streams_put hn
  have hmem : st ∈ s.streams := List.mem_of_getElem? hn
  have hfaithful := hs.faithful st hmem
  cases hs.nexted hlaws hn h with
  | buffered hbuffered =>
      rw [PgRowStream.hasBuffered, Bool.and_eq_true, Bool.not_eq_true',
        List.isEmpty_eq_false_iff] at hbuffered
      exact ⟨_, hset s.server _, rfl, .inl (hfaithful.head hbuffered.2)⟩
  | stopped hbuffered hstop =>
      refine ⟨st, hn, (List.append_nil _).symm, ?_⟩
      cases hactive : st.object.active with
      | false => exact .inr ⟨rfl, .inl rfl⟩
      | true =>
          have hbuf : st.object.buf = [] := by
            simpa [PgRowStream.hasBuffered, hactive] using hbuffered
          have hover : st.object.exhausted = true := by simpa [hactive] using hstop
          cases herr : st.object.err with
          | none => exact .inl (hfaithful.none_left hbuf hover herr).symm
          | some e => exact .inr ⟨rfl, .inr (Option.some_ne_none e)⟩
  | @row chunk server hbuffered hgo hfetch hok hrows =>
      refine ⟨_, hset server _, rfl, .inl ((hs.fetched hmem hbuffered hgo hfetch).head ?_)⟩
      simpa [PgRowStream.fetched, hok] using hrows
  | @noRow chunk server hbuffered hgo hfetch hnone =>
      refine ⟨_, hset server _, (List.append_nil _).symm, ?_⟩
      cases hok : chunk.ok with
      | false =>
          refine .inr ⟨rfl, .inr ?_⟩
          simp [PgRowStream.fetched, hok]
      | true =>
          have hnil := hnone hok
          cases herr : st.object.err with
          | none =>
              refine .inl ((hs.fetched hmem hbuffered hgo hfetch).none_left ?_ ?_ ?_).symm <;>
                simp [PgRowStream.fetched, hok, hnil, herr]
          | some e =>
              refine .inr ⟨rfl, .inr ?_⟩
              simp [PgRowStream.fetched, hok, herr]

/-- A FETCH that succeeds is one of `Rows.lean`. -/
theorem fetch_source {chunk : QueryResult} {rows : List Row}
    (hgo : (!st.object.active || st.object.exhausted) = false) (hok : chunk.ok = true)
    (hchunk : chunk.rows = rows.take st.object.batchSize) :
    Streaming.Source.fetch ⟨st.object, rows, chunk.columns, []⟩ =
      (!chunk.rows.isEmpty, ⟨st.object.fetched chunk,
        ⟨rows.drop st.object.batchSize, chunk.columns, []⟩⟩) := by
  have hfetched : st.object.fetched
      { ok := true, code := .ok, rows := chunk.rows, columns := chunk.columns } =
        st.object.fetched chunk := by
    simp [PgRowStream.fetched, hok]
  rw [Streaming.Source.fetch, if_neg (by rw [hgo]; exact Bool.false_ne_true), ← hfetched, hchunk]
  rfl

/-- **The streams of `Rows.lean`.**  `next` is the `next` of that model, for a cursor with the rows
the server has for this stream and whatever failure it reports. -/
theorem Session.Sound.next_source (hs : s.Sound sv) (hlaws : sv.Laws)
    (hn : s.streams[n]? = some st) {i : ι} {row : Option Row} (h : s.next sv n i = some (row, s')) :
    ∃ columns faults st', s'.streams[n]? = some st' ∧
      let source : Streaming.Source :=
        ⟨st.object, (sv.cursor s.server st.cursorName).getD [], columns, faults⟩
      source.next.1 = row ∧ source.next.2.stream = st'.object := by
  have hset := streams_put hn
  simp only [Streaming.Source.next]
  cases hs.nexted hlaws hn h with
  | buffered hbuffered =>
      refine ⟨[], [], _, hset s.server _, ?_⟩
      rw [hbuffered]
      exact ⟨rfl, rfl⟩
  | stopped hbuffered hstop =>
      refine ⟨[], [], st, hn, ?_⟩
      simp [hbuffered, Streaming.Source.fetch, hstop]
  | @row chunk server hbuffered hgo hfetch hok hrows =>
      obtain ⟨rows, hcursor, hchunk, -⟩ := hfetch.answer hok
      refine ⟨chunk.columns, [], _, hset server _, ?_⟩
      rw [hcursor, hbuffered, Option.getD_some, fetch_source hgo hok hchunk,
        List.isEmpty_eq_false_iff.mpr hrows]
      exact ⟨rfl, rfl⟩
  | @noRow chunk server hbuffered hgo hfetch hnone =>
      cases hok : chunk.ok with
      | false =>
          refine ⟨[], [some (toOpError chunk)], _, hset server _, ?_⟩
          simp [hbuffered, Streaming.Source.fetch, hgo, Cursor.fetchChunk, PgRowStream.fetched,
            hok, toOpError]
      | true =>
          obtain ⟨rows, hcursor, hchunk, -⟩ := hfetch.answer hok
          refine ⟨chunk.columns, [], _, hset server _, ?_⟩
          rw [hcursor, hbuffered, Option.getD_some, fetch_source hgo hok hchunk, hnone hok]
          exact ⟨rfl, rfl⟩

end

/-! ## Whole runs -/

section

variable {server : σ} {es : List (Event ι)} {s s' : Session σ} {n : Nat} {st : Stream}

theorem sound_exec (hlaws : sv.Laws) (hspares : ∀ e ∈ es, Spares sv e)
    (hseq : Guarded (step sv) Counting (start server) es)
    (h : exec (step sv) (start server) es = some s) : s.Sound sv :=
  exec_invariant_of_guarded (Session.Sound sv)
    (fun _ _ _ hs horder hstep => sound_step hlaws hs horder.1 horder.2 hstep) es _ s
    (sound_start server) (guarded_and (guarded_of_forall hspares _) hseq) h

/-- Two streams in one transaction, read in turn; the batch size of the first is changed
between its batches, and a FETCH of the second fails. -/
def twoStreams : List (Event Table.Doing) :=
  [.statement beginText .other,
    .stream false "SELECT a".toList 2
      (.declare false (cursorName 1) "SELECT a".toList [["a1"], ["a2"], ["a3"]]),
    .stream true "SELECT b".toList 1
      (.declare true (cursorName 2) "SELECT b".toList [["b1"], ["b2"]]),
    .next 0 (.fetch 2 (cursorName 1)), .next 1 (.fetch 1 (cursorName 2)), .setBatchSize 0 5,
    .next 1 .refuse, .next 0 .refuse, .next 0 (.fetch 5 (cursorName 1)),
    .statement "SELECT c".toList .other, .next 0 (.fetch 5 (cursorName 1))]

theorem spares_twoStreams : ∀ e ∈ twoStreams, Spares Table.server e := by
  intro e he
  simp only [twoStreams, List.mem_cons, List.not_mem_nil, or_false] at he
  rcases he with rfl | rfl | rfl | rfl | rfl | rfl | rfl | rfl | rfl | rfl | rfl <;>
    first
    | trivial
    | exact fun _ => Table.not_names_of_head (by decide)

end

end

end Upq.Cursors
