/-
  Notify/Libpq.lean --- libpq's side of a connection that is used without blocking.

  What `PQconsumeInput`, `PQisBusy`, `PQgetResult` and `PQnotifies` do to the input
  buffer, for statements that are answered by one CommandComplete and a
  ReadyForQuery.  Every one of the last three parses what is buffered.  A
  NotificationResponse is queued in any state.  CommandComplete makes a result ready,
  and parsing then stops at the next message of the reply until `PQgetResult` has
  collected that result; ReadyForQuery ends the reply.

  The two loops over these functions that the callers run are specified for a buffer
  that holds a part of one reply among any notifications: `resultLoop_reply` and
  `drain_reply`.
-/
import Mathlib.Data.List.TakeWhile

set_option autoImplicit false

namespace Upq.Libpq

variable {ν : Type}

/-! ## The functions of the library -/

/-- A message from the server: CommandComplete, ReadyForQuery, NotificationResponse. -/
inductive Msg (ν : Type) where
  | complete
  | ready
  | note (n : ν)
  deriving DecidableEq, Repr

/-- `PGAsyncStatusType` -/
inductive Async where
  | idle
  | busy
  | ready
  deriving DecidableEq, Repr

/-- The input side of a `PGconn`: the messages read and not parsed, and the
notifications parsed and not returned. -/
structure Pq (ν : Type) where
  async : Async
  inbuf : List (Msg ν)
  notes : List ν
  deriving DecidableEq, Repr

/-- `pqParseInput3`; a message that comes in the idle state is discarded. -/
def parseLoop : Async → List (Msg ν) → List ν → Pq ν
  | a, [], q => ⟨a, [], q⟩
  | a, .note n :: ms, q => parseLoop a ms (q ++ [n])
  | .busy, .complete :: ms, q => parseLoop .ready ms q
  | .busy, .ready :: ms, q => parseLoop .idle ms q
  | .ready, m :: ms, q => ⟨.ready, m :: ms, q⟩
  | .idle, _ :: ms, q => parseLoop .idle ms q

def Pq.parse (p : Pq ν) : Pq ν := parseLoop p.async p.inbuf p.notes

/-- `PQconsumeInput`: `ms` is what the socket holds. -/
def Pq.consumeInput (p : Pq ν) (ms : List (Msg ν)) : Pq ν := { p with inbuf := p.inbuf ++ ms }

/-- `PQisBusy` -/
def Pq.isBusy (p : Pq ν) : Bool × Pq ν := (decide (p.parse.async = .busy), p.parse)

/-- `PQgetResult` when it does not block: a result, or NULL. -/
def Pq.getResult (p : Pq ν) : Bool × Pq ν :=
  match p.parse.async with
  | .ready => (true, { p.parse with async := .busy })
  | _ => (false, p.parse)

/-- `PQnotifies` -/
def Pq.notifies (p : Pq ν) : Option ν × Pq ν :=
  match p.parse.notes with
  | [] => (none, p.parse)
  | n :: ns => (some n, { p.parse with notes := ns })

/-! ## The loops of the callers -/

/-- `while (PGnotify *n = PQnotifies(raw))` -/
def notifiesLoop : Nat → Pq ν → List ν × Pq ν
  | 0, p => ([], p)
  | fuel + 1, p =>
      match p.notifies with
      | (none, p) => ([], p)
      | (some n, p) =>
          match notifiesLoop fuel p with
          | (ns, p) => (n :: ns, p)

/-- The notifications that loop collects. -/
def Pq.takeNotes (p : Pq ν) : List ν × Pq ν :=
  notifiesLoop (p.notes.length + p.inbuf.length + 1) p

/-- `while (!PQisBusy(raw))` around `PQgetResult`: whether it came to the NULL. -/
def resultLoop : Nat → Pq ν → Bool × Pq ν
  | 0, p => (false, p)
  | fuel + 1, p =>
      match p.isBusy with
      | (true, p) => (false, p)
      | (false, p) =>
          match p.getResult with
          | (false, p) => (true, p)
          | (true, p) => resultLoop fuel p

/-- The results that loop collects. -/
def Pq.takeResults (p : Pq ν) : Bool × Pq ν := resultLoop (p.inbuf.length + 2) p

/-! ## Notifications and the rest -/

/-- The notifications among some messages. -/
def notesOf (ms : List (Msg ν)) : List ν :=
  ms.filterMap fun
    | .note n => some n
    | _ => none

def Msg.isControl : Msg ν → Bool
  | .note _ => false
  | _ => true

/-- The messages of a reply among some messages. -/
def controls (ms : List (Msg ν)) : List (Msg ν) := ms.filter Msg.isControl

@[simp] theorem notesOf_nil : notesOf ([] : List (Msg ν)) = [] := rfl

@[simp] theorem notesOf_note (n : ν) (ms : List (Msg ν)) :
    notesOf (.note n :: ms) = n :: notesOf ms := rfl

@[simp] theorem notesOf_complete (ms : List (Msg ν)) : notesOf (.complete :: ms) = notesOf ms := rfl

@[simp] theorem notesOf_ready (ms : List (Msg ν)) : notesOf (.ready :: ms) = notesOf ms := rfl

@[simp] theorem notesOf_append (ms ms' : List (Msg ν)) :
    notesOf (ms ++ ms') = notesOf ms ++ notesOf ms' := List.filterMap_append

@[simp] theorem controls_nil : controls ([] : List (Msg ν)) = [] := rfl

@[simp] theorem controls_note (n : ν) (ms : List (Msg ν)) :
    controls (.note n :: ms) = controls ms := rfl

@[simp] theorem controls_append (ms ms' : List (Msg ν)) :
    controls (ms ++ ms') = controls ms ++ controls ms' := List.filter_append ..

/-- Parsing loses no notification. -/
theorem parseLoop_notes (a : Async) (ms : List (Msg ν)) (q : List ν) :
    (parseLoop a ms q).notes ++ notesOf (parseLoop a ms q).inbuf = q ++ notesOf ms := by
  fun_induction parseLoop a ms q with
  | case1 a q => rfl
  | case2 a n ms q ih => simp [ih]
  | case3 ms q ih => simpa using ih
  | case4 ms q ih => simpa using ih
  | case5 m ms q hm => rfl
  | case6 m ms q hm ih =>
      cases m with
      | note n => exact absurd rfl (hm n)
      | complete => simpa using ih
      | ready => simpa using ih

/-- Messages that are all notifications are all parsed. -/
theorem parseLoop_append {ns : List (Msg ν)} (h : controls ns = []) (a : Async)
    (ms : List (Msg ν)) (q : List ν) :
    parseLoop a (ns ++ ms) q = parseLoop a ms (q ++ notesOf ns) := by
  induction ns generalizing q with
  | nil => simp
  | cons m ns ih =>
      cases m with
      | note n => simp [parseLoop, ih h]
      | complete => cases h
      | ready => cases h

theorem parseLoop_quiet {ns : List (Msg ν)} (h : controls ns = []) (a : Async) (q : List ν) :
    parseLoop a ns q = ⟨a, [], q ++ notesOf ns⟩ := by
  have happ := parseLoop_append h a [] q
  rwa [List.append_nil] at happ

/-- What parsing leaves is parsed. -/
theorem parseLoop_parsed (a : Async) (ms : List (Msg ν)) (q q' : List ν) :
    parseLoop (parseLoop a ms q).async (parseLoop a ms q).inbuf q' =
      ⟨(parseLoop a ms q).async, (parseLoop a ms q).inbuf, q'⟩ := by
  fun_induction parseLoop a ms q with
  | case1 a q => simp [parseLoop]
  | case2 a n ms q ih => exact ih
  | case3 ms q ih => exact ih
  | case4 ms q ih => exact ih
  | case5 m ms q hm =>
      cases m with
      | note n => exact absurd rfl (hm n)
      | complete => rfl
      | ready => rfl
  | case6 m ms q hm ih => exact ih

theorem parse_parse (p : Pq ν) : p.parse.parse = p.parse :=
  parseLoop_parsed p.async p.inbuf p.notes p.parse.notes

theorem length_notesOf_le (ms : List (Msg ν)) : (notesOf ms).length ≤ ms.length :=
  List.length_filterMap_le ..

/-- The loop over `PQnotifies` returns everything the first call has parsed. -/
theorem notifiesLoop_parsed {a : Async} {ib : List (Msg ν)}
    (h : ∀ q, parseLoop a ib q = ⟨a, ib, q⟩) (q : List ν) (fuel : Nat) (hfuel : q.length < fuel) :
    notifiesLoop fuel ⟨a, ib, q⟩ = (q, ⟨a, ib, []⟩) := by
  induction q generalizing fuel with
  | nil =>
      cases fuel with
      | zero => exact absurd hfuel (Nat.not_lt_zero _)
      | succ fuel => simp [notifiesLoop, Pq.notifies, Pq.parse, h]
  | cons n q ih =>
      cases fuel with
      | zero => exact absurd hfuel (Nat.not_lt_zero _)
      | succ fuel =>
          rw [List.length_cons] at hfuel
          simp [notifiesLoop, Pq.notifies, Pq.parse, h, ih fuel (by omega)]

theorem takeNotes_eq (p : Pq ν) : p.takeNotes = (p.parse.notes, { p.parse with notes := [] }) := by
  have hparsed := parseLoop_parsed p.async p.inbuf p.notes
  have hlen : p.parse.notes.length < p.notes.length + p.inbuf.length + 1 := by
    have heq := congrArg List.length (parseLoop_notes p.async p.inbuf p.notes)
    have hle := length_notesOf_le p.inbuf
    simp only [List.length_append] at heq
    simp only [Pq.parse]
    omega
  have hsame : notifiesLoop (p.notes.length + p.inbuf.length + 1) p =
      notifiesLoop (p.notes.length + p.inbuf.length + 1) p.parse := by
    simp only [notifiesLoop, Pq.notifies, parse_parse]
  rw [Pq.takeNotes, hsame]
  exact notifiesLoop_parsed hparsed _ _ hlen

section

variable {p : Pq ν} {ib : List (Msg ν)} {q : List ν} {fuel : Nat}

theorem resultLoop_busy (h : p.parse = ⟨.busy, ib, q⟩) :
    resultLoop (fuel + 1) p = (false, ⟨.busy, ib, q⟩) := by
  simp [resultLoop, Pq.isBusy, h]

theorem resultLoop_idle (h : p.parse = ⟨.idle, [], q⟩) :
    resultLoop (fuel + 1) p = (true, ⟨.idle, [], q⟩) := by
  have hparse : (⟨.idle, [], q⟩ : Pq ν).parse = ⟨.idle, [], q⟩ := rfl
  simp [resultLoop, Pq.isBusy, Pq.getResult, h, hparse]

theorem resultLoop_ready (h : p.parse = ⟨.ready, ib, q⟩) :
    resultLoop (fuel + 1) p = resultLoop fuel ⟨.busy, ib, q⟩ := by
  have hparse := parse_parse p
  rw [h] at hparse
  simp [resultLoop, Pq.isBusy, Pq.getResult, h, hparse]

end

/-! ## One reply among notifications -/

/-- The messages behind the ReadyForQuery of a reply whose CommandComplete is also among
them. -/
def behindReply (ms : List (Msg ν)) : List (Msg ν) :=
  (ms.dropWhile fun m => !(m matches .complete)).dropWhile fun m => !(m matches .ready)

/-- A part of one reply. -/
inductive ReplyPart : List (Msg ν) → Prop where
  | none : ReplyPart []
  | first : ReplyPart [.complete]
  | whole : ReplyPart [.complete, .ready]
  | last : ReplyPart [.ready]

/-- What parsing makes of a part of a reply. -/
inductive Parsed (ms : List (Msg ν)) (q : List ν) : Pq ν → Prop where
  | none (h : controls ms = []) : Parsed ms q ⟨.busy, [], q ++ notesOf ms⟩
  | first (h : controls ms = [.complete]) : Parsed ms q ⟨.ready, [], q ++ notesOf ms⟩
  | last (h : controls ms = [.ready]) : Parsed ms q ⟨.idle, [], q ++ notesOf ms⟩
  | whole (h : controls ms = [.complete, .ready]) (front back : List (Msg ν))
      (hnotes : notesOf ms = notesOf front ++ notesOf back) (hback : controls back = [])
      (hbehind : behindReply ms = .ready :: back) :
      Parsed ms q ⟨.ready, .ready :: back, q ++ notesOf front⟩

theorem dropWhile_notes {ns : List (Msg ν)} (h : controls ns = []) (ms : List (Msg ν)) :
    (ns ++ ms).dropWhile (fun m => !(m matches .complete)) =
        ms.dropWhile (fun m => !(m matches .complete)) ∧
      (ns ++ ms).dropWhile (fun m => !(m matches .ready)) =
        ms.dropWhile (fun m => !(m matches .ready)) := by
  have hnote : ∀ m ∈ ns, ∃ n, m = .note n := by
    intro m hm
    cases m with
    | note n => exact ⟨n, rfl⟩
    | complete => exact absurd (List.mem_filter.mpr ⟨hm, rfl⟩) (h ▸ List.not_mem_nil)
    | ready => exact absurd (List.mem_filter.mpr ⟨hm, rfl⟩) (h ▸ List.not_mem_nil)
  constructor <;> refine List.dropWhile_append_of_pos ?_ <;> intro m hm <;>
    obtain ⟨n, rfl⟩ := hnote m hm <;> rfl

/-- A reply's message is preceded by notifications only. -/
theorem split_controls {ms rest : List (Msg ν)} {m : Msg ν} (h : controls ms = m :: rest) :
    ∃ front back, ms = front ++ m :: back ∧ controls front = [] ∧ controls back = rest := by
  obtain ⟨front, back, hms, hfront, -, hback⟩ := List.filter_eq_cons_iff.mp h
  exact ⟨front, back, hms, List.filter_eq_nil_iff.mpr hfront, hback⟩

theorem parse_reply {ms : List (Msg ν)} (h : ReplyPart (controls ms)) (q : List ν) :
    Parsed ms q (parseLoop .busy ms q) := by
  generalize hc : controls ms = cs at h
  cases h with
  | none =>
      rw [parseLoop_quiet hc]
      exact .none hc
  | first =>
      obtain ⟨front, back, rfl, hfront, hback⟩ := split_controls hc
      rw [parseLoop_append hfront, parseLoop, parseLoop_quiet hback, List.append_assoc]
      have := Parsed.first (q := q) hc
      simpa using this
  | last =>
      obtain ⟨front, back, rfl, hfront, hback⟩ := split_controls hc
      rw [parseLoop_append hfront, parseLoop, parseLoop_quiet hback, List.append_assoc]
      have := Parsed.last (q := q) hc
      simpa using this
  | whole =>
      obtain ⟨front, tail, rfl, hfront, htail⟩ := split_controls hc
      obtain ⟨mid, back, rfl, hmid, hback⟩ := split_controls htail
      rw [parseLoop_append hfront, parseLoop, parseLoop_append hmid,
        parseLoop.eq_5 _ _ _ (by intro n hn; cases hn), List.append_assoc, ← notesOf_append]
      refine .whole hc (front ++ mid) back (by simp) hback ?_
      rw [behindReply, (dropWhile_notes hfront _).1]
      have hmid' := (dropWhile_notes hmid (.ready :: back)).2
      simp only [List.dropWhile_cons, Bool.not_true, Bool.false_eq_true, if_false]
      simpa using hmid'

/-- The reply ends within the messages. -/
def ends (ms : List (Msg ν)) : Bool := ms.any fun m => m matches .ready

/-- Collecting the results of a parsed part of a reply parses the rest of it; what was
behind the end of the reply is then queued as well. -/
theorem resultLoop_parsed {ms : List (Msg ν)} {q : List ν} {p : Pq ν} (h : Parsed ms q p)
    (q' : List ν) (fuel : Nat) :
    ∃ tail, resultLoop (fuel + 2) ⟨p.async, p.inbuf, q'⟩ =
        (ends (controls ms), ⟨if ends (controls ms) then .idle else .busy, [], q' ++ tail⟩) ∧
      p.notes ++ tail = q ++ notesOf ms ∧ (notesOf (behindReply ms) = [] → tail = []) := by
  cases h with
  | none h =>
      refine ⟨[], ?_, by simp, fun _ => rfl⟩
      rw [h, resultLoop_busy rfl, List.append_nil]
      rfl
  | first h =>
      refine ⟨[], ?_, by simp, fun _ => rfl⟩
      rw [h, resultLoop_ready rfl, resultLoop_busy rfl, List.append_nil]
      rfl
  | last h =>
      refine ⟨[], ?_, by simp, fun _ => rfl⟩
      rw [h, resultLoop_idle rfl, List.append_nil]
      rfl
  | whole h front back hnotes hback hbehind =>
      have hparse : (⟨.busy, .ready :: back, q'⟩ : Pq ν).parse = ⟨.idle, [], q' ++ notesOf back⟩ :=
        parseLoop_quiet hback .idle q'
      refine ⟨notesOf back, ?_, by simp [hnotes], fun hnone => by simpa [hbehind] using hnone⟩
      rw [h, resultLoop_ready rfl, resultLoop_idle hparse]
      rfl

/-- `collect_step` on a part of a reply: it ends with the reply, and every notification
read is queued. -/
theorem resultLoop_reply {ms : List (Msg ν)} (h : ReplyPart (controls ms)) (q : List ν) :
    (⟨.busy, ms, q⟩ : Pq ν).takeResults =
      (ends (controls ms),
        ⟨if ends (controls ms) then .idle else .busy, [], q ++ notesOf ms⟩) := by
  have hparsed := parse_reply h q
  have hsame : (⟨.busy, ms, q⟩ : Pq ν).takeResults =
      resultLoop (ms.length + 2) (parseLoop .busy ms q) := by
    have hparse : (parseLoop .busy ms q).parse = parseLoop .busy ms q := parse_parse ⟨.busy, ms, q⟩
    have hself : (⟨.busy, ms, q⟩ : Pq ν).parse = parseLoop .busy ms q := rfl
    simp only [Pq.takeResults, resultLoop, Pq.isBusy, hparse, hself]
  obtain ⟨tail, hloop, hnotes, -⟩ :=
    resultLoop_parsed hparsed (parseLoop .busy ms q).notes ms.length
  rw [hsame, ← hnotes]
  exact hloop

/-- The loop over `PQnotifies` and then the one over `PQgetResult`, on a part of a reply:
what is queued afterwards was behind the end of the reply. -/
theorem drain_reply {ms : List (Msg ν)} (h : ReplyPart (controls ms)) (q : List ν) :
    ∃ batch stranded, (⟨.busy, ms, q⟩ : Pq ν).takeNotes.1 = batch ∧
      (⟨.busy, ms, q⟩ : Pq ν).takeNotes.2.takeResults =
        (ends (controls ms), ⟨if ends (controls ms) then .idle else .busy, [], stranded⟩) ∧
      batch ++ stranded = q ++ notesOf ms ∧ (notesOf (behindReply ms) = [] → stranded = []) := by
  obtain ⟨tail, hloop, hnotes, hnone⟩ := resultLoop_parsed (parse_reply h q) []
    (parseLoop .busy ms q).inbuf.length
  refine ⟨_, tail, rfl, ?_, ?_, hnone⟩
  · rw [takeNotes_eq]
    exact hloop
  · rw [takeNotes_eq]
    exact hnotes

/-- Between statements the loop over `PQnotifies` returns everything. -/
theorem takeNotes_quiet {ms : List (Msg ν)} (h : controls ms = []) (a : Async) (q : List ν) :
    (⟨a, ms, q⟩ : Pq ν).takeNotes = (q ++ notesOf ms, ⟨a, [], []⟩) := by
  have hparse : (⟨a, ms, q⟩ : Pq ν).parse = ⟨a, [], q ++ notesOf ms⟩ :=
    parseLoop_quiet h a q
  rw [takeNotes_eq, hparse]

end Upq.Libpq
