/-
  Connection/CopyLines.lean --- `copy_to_lines` passes on the lines of the data.

  Source: `copy_to` and `copy_to_lines` in `include/upq/PgConnection.h`.

  The lines of a COPY OUT do not depend on how libpq cuts the data.  `chunkSink` leaves
  behind a chunk what it would have left behind its bytes one at a time (`breakLines`), so
  after any chunks the line sink has been fed the lines that end in their concatenation.
  With the unfinished line that `copy_to_lines` adds at the end these are the `pieces` of
  the data, whatever the sink answers (`copyToLines_eq_feed`).  The source searches a chunk
  for its newlines instead, which comes to the same (`scanChunk_eq`).
-/
import Upq.Connection.Copy

set_option autoImplicit false

namespace Upq

/-! ## Lines -/

/-- The newline-separated pieces of the data; an empty last one does not count. -/
def pieces (data : List Char) : List (List Char) :=
  let all := data.splitOn '\n'
  if all.getLast? = some [] then all.dropLast else all

/-- The lines that end in the data, the first of which starts with `carry`, and what stands
behind them. -/
def breakLines : (carry data : List Char) → List (List Char) × List Char
  | carry, [] => ([], carry)
  | carry, c :: data =>
      if c == '\n' then (carry :: (breakLines [] data).1, (breakLines [] data).2)
      else breakLines (carry ++ [c]) data

theorem breakLines_append (data more carry : List Char) :
    breakLines carry (data ++ more) =
      ((breakLines carry data).1 ++ (breakLines (breakLines carry data).2 more).1,
        (breakLines (breakLines carry data).2 more).2) := by
  induction data generalizing carry with
  | nil => rfl
  | cons c data ih =>
      rw [List.cons_append, breakLines, breakLines]
      split
      · rw [ih]
        rfl
      · exact ih _

/-- The lines and what stands behind them are the pieces between the newlines. -/
theorem breakLines_splitOn (data carry : List Char) :
    (breakLines carry data).1 ++ [(breakLines carry data).2] =
      (data.splitOn '\n').modifyHead (carry ++ ·) := by
  induction data generalizing carry with
  | nil => simp [breakLines]
  | cons c data ih =>
      rw [breakLines, List.splitOn_cons_eq_if_modifyHead]
      split
      · rw [List.cons_append, ih]
        exact congrArg₂ List.cons (List.append_nil carry).symm (congrFun List.modifyHead_id _)
      · rw [ih, List.modifyHead_modifyHead]
        congr 1
        funext s
        simp

theorem pieces_eq (data : List Char) :
    pieces data = (breakLines [] data).1 ++
      if (breakLines [] data).2 = [] then [] else [(breakLines [] data).2] := by
  have hsplit : data.splitOn '\n' = (breakLines [] data).1 ++ [(breakLines [] data).2] := by
    rw [breakLines_splitOn]
    exact (congrFun List.modifyHead_id _).symm
  rw [pieces, hsplit]
  simp only [List.getLast?_concat, Option.some.injEq, List.dropLast_concat]
  split
  · rw [List.append_nil]
  · rfl

/-! ## Feeding a sink -/

section

variable {σ : Type}

/-- Gives a sink one item after the other, to the first that it does not keep. -/
def feed (sink : Sink σ) : σ → List (List Char) → σ × Verdict
  | st, [] => (st, .keep)
  | st, item :: items =>
      match sink st item with
      | (st, .keep) => feed sink st items
      | (st, .stop) => (st, .stop)
      | (st, .throws) => (st, .throws)

theorem feed_cons_keep {sink : Sink σ} {st st' : σ} {item : List Char}
    (h : sink st item = (st', .keep)) (items : List (List Char)) :
    feed sink st (item :: items) = feed sink st' items := by
  rw [feed, h]

theorem feed_cons_end {sink : Sink σ} {st st' : σ} {item : List Char} {v : Verdict}
    (h : sink st item = (st', v)) (hv : v ≠ .keep) (items : List (List Char)) :
    feed sink st (item :: items) = (st', v) := by
  rw [feed, h]
  cases v with
  | keep => exact absurd rfl hv
  | stop => rfl
  | throws => rfl

theorem feed_append_keep {sink : Sink σ} {items : List (List Char)} {st st' : σ}
    (h : feed sink st items = (st', .keep)) (more : List (List Char)) :
    feed sink st (items ++ more) = feed sink st' more := by
  induction items generalizing st with
  | nil => cases h; rfl
  | cons item items ih =>
      rcases hsink : sink st item with ⟨st₁, v⟩
      by_cases hv : v = .keep
      · subst hv
        rw [feed_cons_keep hsink] at h
        rw [List.cons_append, feed_cons_keep hsink, ih h]
      · rw [feed_cons_end hsink hv] at h
        cases h
        exact absurd rfl hv

theorem feed_append_end {sink : Sink σ} {items : List (List Char)} {st st' : σ} {v : Verdict}
    (h : feed sink st items = (st', v)) (hv : v ≠ .keep) (more : List (List Char)) :
    feed sink st (items ++ more) = (st', v) := by
  induction items generalizing st with
  | nil =>
      cases h
      exact absurd rfl hv
  | cons item items ih =>
      rcases hsink : sink st item with ⟨st₁, v₁⟩
      by_cases hkeep : v₁ = .keep
      · subst hkeep
        rw [feed_cons_keep hsink] at h
        rw [List.cons_append, feed_cons_keep hsink, ih h]
      · rw [feed_cons_end hsink hkeep] at h
        rw [List.cons_append, feed_cons_end hsink hkeep, h]

/-! ## Chunks

A line sink behind `chunkSink` is fed the lines that end in the chunks. -/

theorem chunkSink_eq (lineSink : Sink σ) (sv carry : List Char) (st : σ) :
    ∃ left, chunkSink lineSink (st, carry) sv =
        (((feed lineSink st (breakLines carry sv).1).1, left),
          (feed lineSink st (breakLines carry sv).1).2) ∧
      ((feed lineSink st (breakLines carry sv).1).2 = .keep → left = (breakLines carry sv).2) := by
  induction sv generalizing st carry with
  | nil => exact ⟨carry, rfl, fun _ => rfl⟩
  | cons c sv ih =>
      rw [chunkSink, breakLines]
      split
      · rcases hline : lineSink st carry with ⟨st₁, v⟩
        cases v with
        | keep =>
            simp only [feed_cons_keep hline]
            exact ih [] st₁
        | stop =>
            simp only [feed_cons_end hline (by decide : Verdict.stop ≠ .keep)]
            exact ⟨[], rfl, fun h => by cases h⟩
        | throws =>
            simp only [feed_cons_end hline (by decide : Verdict.throws ≠ .keep)]
            exact ⟨carry, rfl, fun h => by cases h⟩
      · exact ih _ _

theorem feed_chunkSink (lineSink : Sink σ) (chunks : List (List Char)) (carry : List Char)
    (st : σ) :
    ∃ left, feed (chunkSink lineSink) (st, carry) chunks =
        (((feed lineSink st (breakLines carry chunks.flatten).1).1, left),
          (feed lineSink st (breakLines carry chunks.flatten).1).2) ∧
      ((feed lineSink st (breakLines carry chunks.flatten).1).2 = .keep →
        left = (breakLines carry chunks.flatten).2) := by
  induction chunks generalizing st carry with
  | nil => exact ⟨carry, rfl, fun _ => rfl⟩
  | cons chunk chunks ih =>
      obtain ⟨left, hchunk, hleft⟩ := chunkSink_eq lineSink chunk carry st
      rw [List.flatten_cons, breakLines_append]
      rcases hlines : feed lineSink st (breakLines carry chunk).1 with ⟨st₁, v⟩
      rw [hlines] at hchunk hleft
      by_cases hv : v = .keep
      · subst hv
        obtain rfl := hleft rfl
        rw [feed_cons_keep hchunk]
        simp only [feed_append_keep hlines]
        exact ih _ st₁
      · rw [feed_cons_end hchunk hv]
        simp only [feed_append_end hlines hv]
        exact ⟨left, rfl, fun h => absurd h hv⟩

/-! ## The lambda as it is written

`chunkSink` looks at one byte after the other.  The source searches for the next newline
and passes the line on in place, unless a part of it was carried over. -/

/-- `chunk_sink` of `copy_to_lines`, from `pos` on; `carry` is gone with an exception. -/
def scanChunk (lineSink : Sink σ) : σ × List Char → List Char → (σ × List Char) × Verdict
  | (st, carry), [] => ((st, carry), .keep)
  | (st, carry), c :: sv =>
      match (c :: sv).findIdx? (· == '\n') with
      | none => ((st, carry ++ c :: sv), .keep)
      | some nl =>
          let line := if carry != [] then carry ++ (c :: sv).take nl else (c :: sv).take nl
          match lineSink st line with
          | (st, .keep) => scanChunk lineSink (st, []) (sv.drop nl)
          | (st, .stop) => ((st, []), .stop)
          | (st, .throws) => ((st, line), .throws)
termination_by _ sv => sv.length
decreasing_by
  rw [List.length_drop, List.length_cons]
  exact Nat.lt_succ_of_le (Nat.sub_le ..)

theorem chunkSink_plain (lineSink : Sink σ) {xs : List Char} (h : ∀ c ∈ xs, ¬(c == '\n') = true)
    (ys carry : List Char) (st : σ) :
    chunkSink lineSink (st, carry) (xs ++ ys) = chunkSink lineSink (st, carry ++ xs) ys := by
  induction xs generalizing carry with
  | nil => simp
  | cons c xs ih =>
      rw [List.cons_append, chunkSink, if_neg (h c List.mem_cons_self),
        ih fun d hd => h d (List.mem_cons_of_mem _ hd)]
      simp

/-- The text in front of the first newline has none. -/
theorem take_findIdx_plain {xs : List Char} {nl : Nat}
    (h : xs.findIdx? (· == '\n') = some nl) :
    (∀ c ∈ xs.take nl, ¬(c == '\n') = true) ∧ xs = xs.take nl ++ '\n' :: xs.drop (nl + 1) := by
  obtain ⟨hlt, hnl, hbefore⟩ := List.findIdx?_eq_some_iff_getElem.mp h
  constructor
  · intro c hc
    obtain ⟨i, hi, rfl⟩ := List.mem_iff_getElem.mp hc
    rw [List.getElem_take]
    exact hbefore i (by rw [List.length_take] at hi; omega)
  · conv_lhs => rw [← List.take_append_drop nl xs, List.drop_eq_getElem_cons hlt]
    rw [beq_iff_eq.mp hnl]

/-- A chunk with a newline: the line it ends is passed on. -/
theorem chunkSink_line (lineSink : Sink σ) {xs : List Char} {nl : Nat}
    (h : xs.findIdx? (· == '\n') = some nl) (st : σ) (carry : List Char) :
    chunkSink lineSink (st, carry) xs =
      match lineSink st (carry ++ xs.take nl) with
      | (st, .keep) => chunkSink lineSink (st, []) (xs.drop (nl + 1))
      | (st, .stop) => ((st, []), .stop)
      | (st, .throws) => ((st, carry ++ xs.take nl), .throws) := by
  obtain ⟨hplain, hxs⟩ := take_findIdx_plain h
  calc chunkSink lineSink (st, carry) xs
      = chunkSink lineSink (st, carry) (xs.take nl ++ '\n' :: xs.drop (nl + 1)) := by rw [← hxs]
    _ = chunkSink lineSink (st, carry ++ xs.take nl) ('\n' :: xs.drop (nl + 1)) :=
        chunkSink_plain lineSink hplain _ carry st
    _ = _ := if_pos (by decide)

/-- The line that is passed on, in place or carried over. -/
theorem carried_or_in_place (carry part : List Char) :
    (if carry != [] then carry ++ part else part) = carry ++ part := by
  cases carry with
  | nil => rfl
  | cons c carry => rfl

/-- **The search computes what the bytes one by one would.** -/
theorem scanChunk_eq (lineSink : Sink σ) (p : σ × List Char) (sv : List Char) :
    scanChunk lineSink p sv = chunkSink lineSink p sv := by
  fun_induction scanChunk lineSink p sv with
  | case1 st carry => rfl
  | case2 st carry c sv hnone =>
      have hplain : ∀ d ∈ c :: sv, ¬(d == '\n') = true := fun d hd => by
        simpa using List.findIdx?_eq_none_iff.mp hnone d hd
      have hall := chunkSink_plain lineSink hplain [] carry st
      rw [List.append_nil] at hall
      rw [hall, chunkSink]
  | case3 st carry c sv nl hfind line st' hline ih =>
      have hcarried : line = carry ++ (c :: sv).take nl := carried_or_in_place carry _
      rw [hcarried] at hline
      rw [chunkSink_line lineSink hfind, hline]
      exact ih
  | case4 st carry c sv nl hfind line st' hline =>
      have hcarried : line = carry ++ (c :: sv).take nl := carried_or_in_place carry _
      rw [hcarried] at hline
      rw [chunkSink_line lineSink hfind, hline]
  | case5 st carry c sv nl hfind line st' hline =>
      have hcarried : line = carry ++ (c :: sv).take nl := carried_or_in_place carry _
      rw [hcarried] at hline ⊢
      rw [chunkSink_line lineSink hfind, hline]

/-! ## Deliveries -/

/-- A wait that ended with something to read. -/
def ReadWait.Quiet (w : ReadWait) : Prop :=
  w.timedOut = false ∧ w.canceled = false ∧ w.inputError = none

/-- A chunk as it arrives: some waits, then its bytes, of which there is at least one. -/
structure Delivery where
  waits : List ReadWait
  first : Char
  more : List Char
  quiet : ∀ w ∈ waits, w.Quiet

/-- The chunk. -/
def Delivery.bytes (d : Delivery) : List Char := d.first :: d.more

/-- The call of `copy_out_read_chunk` that reads it. -/
def Delivery.read (d : Delivery) : ReadChunk := ⟨d.waits, .data d.first d.more⟩

/-- The end of a COPY OUT that succeeds on the server. -/
structure DataEnd where
  waits : List ReadWait
  reply : PGresult
  after : TxStatus
  quiet : ∀ w ∈ waits, w.Quiet
  succeeded : (∃ affected, reply = .command affected) ∨ ∃ columns rows, reply = .tuples columns rows

/-- The call of `copy_out_read_chunk` that meets it. -/
def DataEnd.read (fin : DataEnd) : ReadChunk := ⟨fin.waits, .done (some fin.reply) fin.after⟩

/-- The calls of a COPY OUT whose data arrives in these chunks. -/
def reads (cut : List Delivery) (fin : DataEnd) : List ReadChunk :=
  cut.map Delivery.read ++ [fin.read]

theorem readLoop_quiet {waits : List ReadWait} (h : ∀ w ∈ waits, w.Quiet) (l : Link)
    (last : ReadEnd) : readLoop l last waits = readLoop l last [] := by
  induction waits with
  | nil => rfl
  | cons w waits ih =>
      obtain ⟨htimed, hcanceled, hinput⟩ := h w List.mem_cons_self
      rw [readLoop, htimed, hcanceled, hinput]
      exact ih fun v hv => h v (List.mem_cons_of_mem _ hv)

theorem copyOutReadChunk_delivery {l : Link} (hl : l.connected = true) (d : Delivery) :
    copyOutReadChunk d.read l = (l, .ok (d.first :: d.more)) := by
  rw [copyOutReadChunk, hl, Delivery.read]
  exact readLoop_quiet d.quiet l _

theorem copyOutReadChunk_dataEnd {l : Link} (hl : l.connected = true) (fin : DataEnd) :
    copyOutReadChunk fin.read l = ({ l with busy := false, status := fin.after }, .ok []) := by
  rw [copyOutReadChunk, hl, DataEnd.read]
  refine (readLoop_quiet fin.quiet l _).trans ?_
  obtain ⟨affected, hreply⟩ | ⟨columns, rows, hreply⟩ := fin.succeeded
  · rw [hreply]
    rfl
  · rw [hreply]
    rfl

/-- How a COPY OUT ends, by the last verdict of its sink. -/
def Verdict.ended : Verdict → Ended
  | .keep => .returned (copyToResult false)
  | .stop => .returned (copyToResult true)
  | .throws => .threw

/-- After the sink gave up the rest of the data is drained. -/
theorem copyToLoop_drains (sink : Sink σ) (st : σ) {l : Link} (hl : l.connected = true)
    (cut : List Delivery) (fin : DataEnd) :
    copyToLoop sink st l true (reads cut fin) =
      some ⟨st, { l with busy := false, status := fin.after }, [], Verdict.ended .stop⟩ := by
  induction cut with
  | nil =>
      rw [reads, List.map_nil, List.nil_append, copyToLoop, copyOutReadChunk_dataEnd hl]
      rfl
  | cons d cut ih =>
      rw [reads, List.map_cons, List.cons_append, copyToLoop, copyOutReadChunk_delivery hl]
      exact ih

/-- `copy_to` feeds its sink the chunks. -/
theorem copyToLoop_eq_feed (sink : Sink σ) {l : Link} (hl : l.connected = true)
    (cut : List Delivery) (fin : DataEnd) (st : σ) :
    ∃ link, copyToLoop sink st l false (reads cut fin) =
      some ⟨(feed sink st (cut.map Delivery.bytes)).1, link, [],
        (feed sink st (cut.map Delivery.bytes)).2.ended⟩ := by
  induction cut generalizing st with
  | nil =>
      rw [reads, List.map_nil, List.nil_append, copyToLoop, copyOutReadChunk_dataEnd hl]
      exact ⟨_, rfl⟩
  | cons d cut ih =>
      rw [reads, List.map_cons, List.cons_append, copyToLoop, copyOutReadChunk_delivery hl,
        List.map_cons, Delivery.bytes]
      simp only [Bool.false_eq_true, if_false]
      rcases hsink : sink st (d.first :: d.more) with ⟨st₁, v⟩
      cases v with
      | keep =>
          rw [feed_cons_keep hsink]
          exact ih st₁
      | stop =>
          rw [feed_cons_end hsink (by decide)]
          exact ⟨_, copyToLoop_drains sink st₁ hl cut fin⟩
      | throws =>
          rw [feed_cons_end hsink (by decide)]
          exact ⟨l, rfl⟩

theorem copyOutStart_connected {start : CopyStart} {l : Link}
    (h : (copyOutStart start l).2.ok = true) : (copyOutStart start l).1.connected = true := by
  obtain ⟨hl, hlink⟩ := copyStart_ok h
  exact (congrArg Link.connected hlink).trans hl

theorem copyTo_started {sink : Sink σ} {st : σ} {start : CopyStart} {l : Link}
    (h : (copyOutStart start l).2.ok = true) (chunks : List ReadChunk) :
    copyTo sink st start chunks l =
      copyToLoop sink st (copyOutStart start l).1 false chunks := by
  simp only [copyTo, h, Bool.not_true, Bool.false_eq_true, if_false]

/-- **`copy_to_lines` feeds its sink the pieces of the data**, whatever the chunks and
whatever the sink answers. -/
theorem copyToLines_eq_feed (lineSink : Sink σ) (st : σ) {start : CopyStart} {l : Link}
    (hstart : (copyOutStart start l).2.ok = true) (cut : List Delivery) (fin : DataEnd) :
    ∃ link, copyToLines lineSink st start (reads cut fin) l =
      some ⟨(feed lineSink st (pieces (cut.flatMap Delivery.bytes))).1, link, [],
        (feed lineSink st (pieces (cut.flatMap Delivery.bytes))).2.ended⟩ := by
  obtain ⟨link, hloop⟩ :=
    copyToLoop_eq_feed (chunkSink lineSink) (copyOutStart_connected hstart) cut fin (st, [])
  obtain ⟨left, hchunks, hleft⟩ := feed_chunkSink lineSink (cut.map Delivery.bytes) [] st
  rw [← List.flatMap_def] at hchunks hleft
  rw [pieces_eq, copyToLines, copyTo_started hstart, hloop, hchunks]
  rcases hlines : feed lineSink st (breakLines [] (cut.flatMap Delivery.bytes)).1 with ⟨st₁, v⟩
  rw [hlines] at hleft
  cases v with
  | keep =>
      obtain rfl := hleft rfl
      rw [feed_append_keep hlines]
      -- the unfinished line, if there is one, is the last piece
      by_cases hrest : (breakLines [] (cut.flatMap Delivery.bytes)).2 = []
      · rw [if_pos hrest, hrest]
        exact ⟨link, rfl⟩
      · rw [if_neg hrest]
        have hne : ((breakLines [] (cut.flatMap Delivery.bytes)).2 != []) = true := by
          simpa using hrest
        simp only [Verdict.ended, copyToResult, hne]
        rcases hline : lineSink st₁ (breakLines [] (cut.flatMap Delivery.bytes)).2 with ⟨st₂, v⟩
        cases v with
        | keep =>
            rw [feed_cons_keep hline]
            exact ⟨link, rfl⟩
        | stop =>
            rw [feed_cons_end hline (by decide)]
            exact ⟨link, rfl⟩
        | throws =>
            rw [feed_cons_end hline (by decide)]
            exact ⟨link, rfl⟩
  | stop =>
      rw [feed_append_end hlines (by decide)]
      exact ⟨link, rfl⟩
  | throws =>
      rw [feed_append_end hlines (by decide)]
      exact ⟨link, rfl⟩

end

/-! ## Sinks that stop after some lines -/

/-- The line sink that accepts the first `k` lines, or every line, and keeps what it was
given. -/
def acceptFirst (k : Option Nat) : Sink (List (List Char)) :=
  Sink.ofHistory fun seen => if k.all (seen.length ≤ ·) then .keep else .stop

/-- The lines to the first that is refused. -/
def throughRefused (k : Option Nat) (lines : List (List Char)) : List (List Char) :=
  match k with
  | none => lines
  | some k => lines.take (k + 1)

theorem feed_acceptFirst (k : Option Nat) (lines seen : List (List Char))
    (hseen : k.all (seen.length ≤ ·) = true) :
    feed (acceptFirst k) seen lines =
      (throughRefused k (seen ++ lines),
        if k.all ((seen ++ lines).length ≤ ·) then .keep else .stop) := by
  induction lines generalizing seen with
  | nil =>
      rw [feed, List.append_nil, hseen]
      cases k with
      | none => rfl
      | some k =>
          have hlen : seen.length ≤ k + 1 := by simp at hseen; omega
          simp [throughRefused, List.take_of_length_le hlen]
  | cons line lines ih =>
      rw [← List.singleton_append, ← List.append_assoc]
      by_cases hnext : k.all ((seen ++ [line]).length ≤ ·) = true
      · have hsink : acceptFirst k seen line = (seen ++ [line], .keep) := by
          rw [acceptFirst, Sink.ofHistory, if_pos hnext]
        rw [List.singleton_append, feed_cons_keep hsink, ih _ hnext]
      · have hsink : acceptFirst k seen line = (seen ++ [line], .stop) := by
          rw [acceptFirst, Sink.ofHistory, if_neg hnext]
        rw [List.singleton_append, feed_cons_end hsink (by decide)]
        cases k with
        | none => exact absurd rfl hnext
        | some k =>
            -- `line` is the first that is refused
            simp only [Option.all_some, decide_eq_true_eq, List.length_append,
              List.length_singleton] at hseen hnext ⊢
            have hlen : (seen ++ [line]).length = k + 1 := by
              simp only [List.length_append, List.length_singleton]
              omega
            rw [if_neg (by omega), throughRefused, ← hlen, List.take_left]

/-- **`copy_to_lines` does not depend on the chunks.**  However the data is cut, a sink that
accepts the first `k` lines, or all of them, is given exactly the pieces of the data in
order, to the first it refuses, and the result is ok exactly when it refuses none. -/
theorem copyToLines_pieces (data : List Char) (cut : List Delivery)
    (hcut : cut.flatMap Delivery.bytes = data) (fin : DataEnd) (k : Option Nat)
    (start : CopyStart) (l : Link) (hstart : (copyOutStart start l).2.ok = true) :
    ∃ run r, copyToLines (acceptFirst k) [] start (reads cut fin) l = some run ∧
      run.state = throughRefused k (pieces data) ∧ run.ended = .returned r ∧
      (r.ok = true ↔ ∀ n, k = some n → (pieces data).length ≤ n) := by
  subst hcut
  obtain ⟨link, hrun⟩ := copyToLines_eq_feed (acceptFirst k) [] hstart cut fin
  have hempty : k.all (([] : List (List Char)).length ≤ ·) = true := by cases k <;> simp
  have hfeed := feed_acceptFirst k (pieces (cut.flatMap Delivery.bytes)) [] hempty
  rw [List.nil_append] at hfeed
  rw [hfeed] at hrun
  have hall : k.all ((pieces (cut.flatMap Delivery.bytes)).length ≤ ·) = true ↔
      ∀ n, k = some n → (pieces (cut.flatMap Delivery.bytes)).length ≤ n := by
    cases k <;> simp
  rw [← hall]
  by_cases hfits : k.all ((pieces (cut.flatMap Delivery.bytes)).length ≤ ·) = true
  · rw [if_pos hfits] at hrun
    exact ⟨_, _, hrun, rfl, rfl, fun _ => hfits, fun _ => rfl⟩
  · rw [if_neg hfits] at hrun
    exact ⟨_, _, hrun, rfl, rfl, nofun, fun h => absurd h hfits⟩

/-- A COPY statement that the server accepts. -/
def copyOutStarts : CopyStart :=
  { sendOk := true, sendError := "", io := .done, reply := .copying .copyOut }

/-- The end that the server announces with the number of rows. -/
def copyOutEnds : DataEnd :=
  { waits := [], reply := .command 2, after := .idle, quiet := nofun, succeeded := .inl ⟨2, rfl⟩ }

/-- A chunk that ends before a newline, one that has it in front, and an unfinished line: a
sink that accepts one line is given two. -/
theorem copyToLines_pieces_cut :
    ∃ run r, copyToLines (acceptFirst (some 1)) [] copyOutStarts
        (reads [⟨[], 'a', [], nofun⟩, ⟨[], '\n', ['b'], nofun⟩] copyOutEnds)
        idleLink = some run ∧
      run.state = [['a'], ['b']] ∧ run.ended = .returned r ∧ r.ok = false := by
  obtain ⟨run, r, hrun, hstate, hended, hok⟩ :=
    copyToLines_pieces ['a', '\n', 'b'] [⟨[], 'a', [], nofun⟩, ⟨[], '\n', ['b'], nofun⟩] rfl
      copyOutEnds (some 1) copyOutStarts
      idleLink rfl
  refine ⟨run, r, hrun, hstate, hended, Bool.eq_false_iff.mpr fun h => ?_⟩
  exact absurd (hok.mp h 1 rfl) (by decide)

end Upq
