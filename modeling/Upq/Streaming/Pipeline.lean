/-
  Streaming/Pipeline.lean --- pipelines over a row stream, and their terminals.

  Source: `include/upq/PgStream.h`, the stages `TransformStream`, `FilterStream`,
  `TakeStream` and `SkipStream`, and the terminals `count`, `collect`, `for_each` and
  `reduce`.

  A stage turns a `Pull` into a `Pull`: its `next` is that of the source, and the list
  function it stands for is its abstraction.  A pipeline is a list of stages as
  `operator|` nests them, and `denote` is its meaning on lists.  The functions of the
  stages are functions of their argument; what `for_each` is given has a state.

  Without a failing FETCH the terminals compute what lists compute
  (`streams_mean_lists`).  A FETCH that fails ends the stream like its last row does,
  and the terminals return what came before: the result is the full one exactly when the
  stages pass nothing of the rest (`terminals_complete_iff`).
-/
import Upq.Streaming.Rows

set_option autoImplicit false

namespace Upq.Streaming

open Upq.Foundation

/-! ## Stages -/

section

variable {α β : Type}

/-- `TransformStream::next` -/
def transformNext (up : Pull α) (f : α → β) (s : up.State) : Option β × up.State :=
  match up.next s with
  | (none, s) => (none, s)
  | (some v, s) => (some (f v), s)

theorem transformNext_spec (up : Pull α) (f : α → β) (s : up.State) :
    (transformNext up f s).1 = ((up.items s).map f).head? ∧
      (up.items (transformNext up f s).2).map f = ((up.items s).map f).tail := by
  unfold transformNext
  cases hitems : up.items s with
  | nil =>
      obtain ⟨s', hnext, hleft⟩ := up.next_of_nil hitems
      rw [hnext]
      exact ⟨rfl, congrArg (List.map f) hleft⟩
  | cons a as =>
      obtain ⟨s', hnext, rfl⟩ := up.next_of_cons hitems
      rw [hnext]
      exact ⟨rfl, rfl⟩

/-- `TransformStream` -/
def transformStream (up : Pull α) (f : α → β) : Pull β where
  State := up.State
  next := transformNext up f
  close := up.close
  items := fun s => (up.items s).map f
  next_fst := fun s => (transformNext_spec up f s).1
  next_snd := fun s => (transformNext_spec up f s).2

/-- `FilterStream` -/
def filterStream (up : Pull α) (f : α → Bool) : Pull α where
  State := up.State
  next := up.seek f
  close := up.close
  items := fun s => (up.items s).filter f
  next_fst := fun s => (up.seek_spec f s).1
  next_snd := fun s => (up.seek_spec f s).2

/-- `TakeStream::next`, with `rem_`. -/
def takeNext (up : Pull α) : up.State × Nat → Option α × (up.State × Nat)
  | (s, 0) => (none, (s, 0))
  | (s, rem + 1) =>
      match up.next s with
      | (none, s) => (none, (s, rem + 1))
      | (some v, s) => (some v, (s, rem))

theorem takeNext_spec (up : Pull α) (s : up.State) (rem : Nat) :
    (takeNext up (s, rem)).1 = ((up.items s).take rem).head? ∧
      (up.items (takeNext up (s, rem)).2.1).take (takeNext up (s, rem)).2.2 =
        ((up.items s).take rem).tail := by
  cases rem with
  | zero => simp [takeNext]
  | succ rem =>
      rw [takeNext]
      cases hitems : up.items s with
      | nil =>
          obtain ⟨s', hnext, hleft⟩ := up.next_of_nil hitems
          rw [hnext]
          dsimp only
          rw [hleft]
          exact ⟨rfl, rfl⟩
      | cons a as =>
          obtain ⟨s', hnext, rfl⟩ := up.next_of_cons hitems
          rw [hnext]
          exact ⟨rfl, rfl⟩

/-- `TakeStream` -/
def takeStream (up : Pull α) : Pull α where
  State := up.State × Nat
  next := takeNext up
  close := fun s => (up.close s.1, s.2)
  items := fun s => (up.items s.1).take s.2
  next_fst := fun s => (takeNext_spec up s.1 s.2).1
  next_snd := fun s => (takeNext_spec up s.1 s.2).2

/-- `SkipStream::next`, with `rem_`. -/
def skipNext (up : Pull α) : Nat → up.State → Option α × (up.State × Nat)
  | 0, s =>
      match up.next s with
      | (v, s) => (v, (s, 0))
  | rem + 1, s =>
      match up.next s with
      | (none, s) => (none, (s, rem + 1))
      | (some _, s) => skipNext up rem s

theorem skipNext_spec (up : Pull α) (rem : Nat) (s : up.State) :
    (skipNext up rem s).1 = ((up.items s).drop rem).head? ∧
      (up.items (skipNext up rem s).2.1).drop (skipNext up rem s).2.2 =
        ((up.items s).drop rem).tail := by
  induction rem generalizing s with
  | zero => exact ⟨up.next_fst s, up.next_snd s⟩
  | succ rem ih =>
      rw [skipNext]
      cases hitems : up.items s with
      | nil =>
          obtain ⟨s', hnext, hleft⟩ := up.next_of_nil hitems
          rw [hnext]
          dsimp only
          rw [hleft]
          exact ⟨rfl, rfl⟩
      | cons a as =>
          obtain ⟨s', hnext, rfl⟩ := up.next_of_cons hitems
          rw [hnext]
          exact ih s'

/-- `SkipStream` -/
def skipStream (up : Pull α) : Pull α where
  State := up.State × Nat
  next := fun s => skipNext up s.2 s.1
  close := fun s => (up.close s.1, s.2)
  items := fun s => (up.items s.1).drop s.2
  next_fst := fun s => (skipNext_spec up s.2 s.1).1
  next_snd := fun s => (skipNext_spec up s.2 s.1).2

end

/-! ## Pipelines -/

/-- Stages over a stream of `α`, the last one outermost. -/
inductive Pipeline (α : Type) : Type → Type 1 where
  | stream : Pipeline α α
  | transform {β γ : Type} (p : Pipeline α β) (f : β → γ) : Pipeline α γ
  | filter {β : Type} (p : Pipeline α β) (f : β → Bool) : Pipeline α β
  | take {β : Type} (p : Pipeline α β) (n : Nat) : Pipeline α β
  | skip {β : Type} (p : Pipeline α β) (n : Nat) : Pipeline α β

namespace Pipeline

variable {α : Type}

/-- The nested stage objects. -/
def build (S : Pull α) : {β : Type} → Pipeline α β → Pull β
  | _, .stream => S
  | _, .transform p f => transformStream (p.build S) f
  | _, .filter p f => filterStream (p.build S) f
  | _, .take p _ => takeStream (p.build S)
  | _, .skip p _ => skipStream (p.build S)

/-- Their state when the pipeline is put together. -/
def start (S : Pull α) (s : S.State) : {β : Type} → (p : Pipeline α β) → (p.build S).State
  | _, .stream => s
  | _, .transform p _ => p.start S s
  | _, .filter p _ => p.start S s
  | _, .take p n => (p.start S s, n)
  | _, .skip p n => (p.start S s, n)

/-- The stream inside. -/
def source (S : Pull α) : {β : Type} → (p : Pipeline α β) → (p.build S).State → S.State
  | _, .stream, s => s
  | _, .transform p _, s => p.source S s
  | _, .filter p _, s => p.source S s
  | _, .take p _, s => p.source S s.1
  | _, .skip p _, s => p.source S s.1

/-- The meaning of a pipeline on lists. -/
def denote : {β : Type} → Pipeline α β → List α → List β
  | _, .stream, xs => xs
  | _, .transform p f, xs => (p.denote xs).map f
  | _, .filter p f, xs => (p.denote xs).filter f
  | _, .take p n, xs => (p.denote xs).take n
  | _, .skip p n, xs => (p.denote xs).drop n

/-- What is left of a pipeline behind some items: `take` and `skip` have counted. -/
def after : {β : Type} → Pipeline α β → List α → Pipeline α β
  | _, .stream, _ => .stream
  | _, .transform p f, xs => .transform (p.after xs) f
  | _, .filter p f, xs => .filter (p.after xs) f
  | _, .take p n, xs => .take (p.after xs) (n - (p.denote xs).length)
  | _, .skip p n, xs => .skip (p.after xs) (n - (p.denote xs).length)

variable {β : Type}

/-- A pipeline gives what it means on the items of its stream. -/
theorem items_start (S : Pull α) (s : S.State) (p : Pipeline α β) :
    (p.build S).items (p.start S s) = p.denote (S.items s) := by
  induction p with
  | stream => rfl
  | transform p f ih => exact congrArg (List.map f) ih
  | filter p f ih => exact congrArg (List.filter f) ih
  | take p n ih => exact congrArg (List.take n) ih
  | skip p n ih => exact congrArg (List.drop n) ih

/-- `close` of a stage is `close` of the stream. -/
theorem source_close (S : Pull α) (p : Pipeline α β) (s : (p.build S).State) :
    p.source S ((p.build S).close s) = S.close (p.source S s) := by
  induction p with
  | stream => rfl
  | transform p f ih => exact ih s
  | filter p f ih => exact ih s
  | take p n ih => exact ih s.1
  | skip p n ih => exact ih s.1

theorem denote_append (p : Pipeline α β) (xs ys : List α) :
    p.denote (xs ++ ys) = p.denote xs ++ (p.after xs).denote ys := by
  induction p with
  | stream => rfl
  | transform p f ih => rw [denote, ih, List.map_append, denote, after, denote]
  | filter p f ih => rw [denote, ih, List.filter_append, denote, after, denote]
  | take p n ih => rw [denote, ih, List.take_append, denote, after, denote]
  | skip p n ih => rw [denote, ih, List.drop_append, denote, after, denote]

end Pipeline

/-! ## Terminals -/

section

variable {α β γ : Type}

/-- A loop over a stream, and `close_if_possible` behind it. -/
def consume (S : Pull α) (f : β → α → β) (acc : β) (s : S.State) : β × S.State :=
  match S.fold f acc s with
  | (acc, s) => (acc, S.close s)

/-- `count`, without the limit of its `uint64_t` (`count_wrapped`). -/
def count (S : Pull α) (s : S.State) : Nat × S.State := consume S (fun n _ => n + 1) 0 s

/-- `collect` -/
def collect (S : Pull α) (s : S.State) : List α × S.State :=
  consume S (fun out v => out ++ [v]) [] s

/-- `for_each`, counting as `count` does; `f` acts on the state of the function it is
given. -/
def forEach (S : Pull α) (f : γ → α → γ) (fn : γ) (s : S.State) : (γ × Nat) × S.State :=
  consume S (fun acc v => (f acc.1 v, acc.2 + 1)) (fn, 0) s

/-- `reduce` -/
def reduce (S : Pull α) (init : γ) (f : γ → α → γ) (s : S.State) : γ × S.State :=
  consume S f init s

theorem consume_fst (S : Pull α) (f : β → α → β) (acc : β) (s : S.State) :
    (consume S f acc s).1 = (S.items s).foldl f acc := S.fold_eq f acc s

theorem count_fst (S : Pull α) (s : S.State) : (count S s).1 = (S.items s).length := by
  rw [count, consume_fst, List.foldl_add_const]
  omega

/-- A loop that counts in `uint64_t` returns this count up to `2 ^ 64`. -/
theorem count_wrapped (S : Pull α) (s : S.State) :
    (consume S (fun n _ => (n + 1) % 2 ^ 64) 0 s).1 = (count S s).1 % 2 ^ 64 := by
  rw [count, consume_fst, consume_fst]
  symm
  refine (List.foldl_hom (· % 2 ^ 64) fun n _ => ?_).symm
  exact Nat.mod_add_mod n (2 ^ 64) 1

theorem forEach_wrapped (S : Pull α) (f : γ → α → γ) (fn : γ) (s : S.State) :
    (consume S (fun acc v => (f acc.1 v, (acc.2 + 1) % 2 ^ 64)) (fn, 0) s).1 =
      ((forEach S f fn s).1.1, (forEach S f fn s).1.2 % 2 ^ 64) := by
  rw [forEach, consume_fst, consume_fst]
  symm
  refine (List.foldl_hom (fun acc : γ × Nat => (acc.1, acc.2 % 2 ^ 64)) fun acc v => ?_).symm
  exact Prod.ext rfl (Nat.mod_add_mod acc.2 (2 ^ 64) 1)

theorem collect_fst (S : Pull α) (s : S.State) : (collect S s).1 = S.items s := by
  rw [collect, consume_fst, List.foldl_append_eq_append, List.nil_append, ← List.flatMap_def,
    List.flatMap_singleton']

theorem forEach_fst (S : Pull α) (f : γ → α → γ) (fn : γ) (s : S.State) :
    (forEach S f fn s).1 = ((S.items s).foldl f fn, (S.items s).length) := by
  have hloop : ∀ (xs : List α) (fn : γ) (n : Nat),
      xs.foldl (fun acc v => (f acc.1 v, acc.2 + 1)) (fn, n) = (xs.foldl f fn, n + xs.length) := by
    intro xs
    induction xs with
    | nil => exact fun fn n => rfl
    | cons x xs ih =>
        intro fn n
        rw [List.foldl_cons, ih, List.foldl_cons, List.length_cons]
        congr 1
        omega
  rw [forEach, consume_fst, hloop, Nat.zero_add]

theorem reduce_fst (S : Pull α) (init : γ) (f : γ → α → γ) (s : S.State) :
    (reduce S init f s).1 = (S.items s).foldl f init := consume_fst S f init s

end

/-- The stream inside a pipeline has been closed. -/
def Closed {β : Type} (o : CloseOutcome) (p : Pipeline Row β) (s : (p.build (rowSource o)).State) :
    Prop :=
  (p.source (rowSource o) s : Source).stream.active = false

theorem closed_consume {β γ : Type} (o : CloseOutcome) (p : Pipeline Row β) (f : γ → β → γ)
    (acc : γ) (s : (p.build (rowSource o)).State) :
    Closed o p (consume (p.build (rowSource o)) f acc s).2 := by
  have hclose := p.source_close (rowSource o) ((p.build (rowSource o)).fold f acc s).2
  have hstream := congrArg (fun s : Source => s.stream.active) hclose
  exact hstream.trans (close_active _ o)

/-! ## Streams mean lists -/

/-- **Row streams and pipelines mean what lists mean.**  For every list of rows, every
batch size and every sequence of `next` and `set_batch_size` on a cursor none of whose
FETCHes fails: the calls of `next` answer the rows in order, each once, and then nothing.
Every pipeline over what is left gives with `collect`, `count`, `for_each` and `reduce`
what it means on the list of the rows left, and leaves the stream closed. -/
theorem streams_mean_lists (rows : List Row) (columns : List String) (batchSize : Nat)
    (ownsTx : Bool) (ops : List ReadOp) (o : CloseOutcome) {β : Type} (p : Pipeline Row β) :
    let reading := (Source.opened rows columns batchSize ownsTx).read ops
    let S := p.build (rowSource o)
    let s := p.start (rowSource o) reading.2
    let out := p.denote (rows.drop (nexts ops))
    reading.1 = answers rows (nexts ops) ∧
      ((collect S s).1 = out ∧ Closed o p (collect S s).2) ∧
      ((count S s).1 = out.length ∧ Closed o p (count S s).2) ∧
      (∀ {γ : Type} (f : γ → β → γ) (fn : γ),
        (forEach S f fn s).1 = (out.foldl f fn, out.length) ∧ Closed o p (forEach S f fn s).2) ∧
      ∀ {γ : Type} (init : γ) (f : γ → β → γ),
        (reduce S init f s).1 = out.foldl f init ∧ Closed o p (reduce S init f s).2 := by
  intro reading S s out
  obtain ⟨hanswers, hleft⟩ :=
    read_spec (s := Source.opened rows columns batchSize ownsTx) rfl ops
  have hitems : S.items s = out := by
    rw [p.items_start (rowSource o) reading.2]
    exact congrArg p.denote hleft
  refine ⟨hanswers, ⟨?_, closed_consume o p _ _ s⟩, ⟨?_, closed_consume o p _ _ s⟩,
    fun f fn => ⟨?_, closed_consume o p _ _ s⟩, fun init f => ⟨?_, closed_consume o p _ _ s⟩⟩
  · rw [collect_fst, hitems]
  · rw [count_fst, hitems]
  · rw [forEach_fst, hitems]
  · rw [reduce_fst, hitems]

/-! ## A FETCH that fails -/

/-- The same stream on a cursor none of whose FETCHes fails. -/
def Source.unfailing (s : Source) : Source := { s with cursor := { s.cursor with faults := [] } }

/-- The rows behind the FETCH that fails. -/
def Source.lost (s : Source) : List Row := s.unfailing.received.drop s.received.length

/-- The stages pass nothing of the rows behind the FETCH that fails. -/
def PassesNothing {β : Type} (p : Pipeline Row β) (s : Source) : Prop :=
  (p.after s.received).denote s.lost = []

theorem exists_unfetched (n : Nat) (faults : List (Option PgOpError)) (rows : List Row) :
    ∃ rest, rows = fetchable n faults rows ++ rest := by
  induction faults generalizing rows with
  | nil => exact ⟨[], (List.append_nil rows).symm⟩
  | cons fault faults ih =>
      cases fault with
      | some e => exact ⟨rows, rfl⟩
      | none =>
          obtain ⟨rest, hrest⟩ := ih (rows.drop n)
          refine ⟨rest, ?_⟩
          rw [fetchable, List.append_assoc, ← hrest, List.take_append_drop]

theorem received_append_lost (s : Source) : s.received ++ s.lost = s.unfailing.received := by
  obtain ⟨rest, hrest⟩ : ∃ rest, s.unfailing.received = s.received ++ rest := by
    unfold Source.received Source.unfailing
    split
    · split
      · exact ⟨[], (List.append_nil _).symm⟩
      · obtain ⟨rest, hrest⟩ := exists_unfetched s.stream.batchSize s.cursor.faults s.cursor.rows
        refine ⟨rest, ?_⟩
        rw [List.append_assoc, ← hrest]
        rfl
    · exact ⟨[], rfl⟩
  rw [Source.lost, hrest, List.drop_left]

/-- A pipeline over a failing cursor gives the first part of what it would have given. -/
theorem items_unfailing (o : CloseOutcome) {β : Type} (p : Pipeline Row β) (s : Source) :
    (p.build (rowSource o)).items (p.start (rowSource o) s.unfailing) =
      (p.build (rowSource o)).items (p.start (rowSource o) s) ++
        (p.after s.received).denote s.lost := by
  have hfull : (p.build (rowSource o)).items (p.start (rowSource o) s.unfailing) =
      p.denote s.unfailing.received := p.items_start (rowSource o) s.unfailing
  have hpart : (p.build (rowSource o)).items (p.start (rowSource o) s) = p.denote s.received :=
    p.items_start (rowSource o) s
  rw [hfull, hpart, ← received_append_lost, p.denote_append]

/-- Two rows in batches of one; the connection is lost before the second. -/
def cutSource : Source :=
  ⟨.opened 1 true,
    ⟨[["1"], ["2"]], ["n"], [none, some { code := .connectionClosed, error := "connection lost" }]⟩⟩

/-- `close` finds the connection down. -/
def lostClose : CloseOutcome := ⟨false, {}, {}⟩

/-- `collect` then returns the first row alone. -/
theorem truncated_result :
    (collect (rowSource lostClose) cutSource).1 = [["1"]] ∧
      (collect (rowSource lostClose) cutSource.unfailing).1 = [["1"], ["2"]] ∧
      ¬∀ (o : CloseOutcome) (s : Source) {β : Type} (p : Pipeline Row β),
        let S := p.build (rowSource o)
        let t := p.start (rowSource o) s
        let full := p.start (rowSource o) s.unfailing
        (collect S t).1 = (collect S full).1 ∧ (count S t).1 = (count S full).1 ∧
          (∀ {γ : Type} (f : γ → β → γ) (fn : γ), (forEach S f fn t).1 = (forEach S f fn full).1) ∧
          ∀ {γ : Type} (init : γ) (f : γ → β → γ),
            (reduce S init f t).1 = (reduce S init f full).1 := by
  have hcut : (collect (rowSource lostClose) cutSource).1 = [["1"]] :=
    collect_fst (rowSource lostClose) cutSource
  have hfull : (collect (rowSource lostClose) cutSource.unfailing).1 = [["1"], ["2"]] :=
    collect_fst (rowSource lostClose) cutSource.unfailing
  refine ⟨hcut, hfull, fun h => ?_⟩
  obtain ⟨hsame, -⟩ := h lostClose cutSource .stream
  have hlists : [["1"]] = [["1"], ["2"]] := hcut.symm.trans (hsame.trans hfull)
  exact absurd (congrArg List.length hlists) (by decide)

/-- **A terminal returns the full result exactly when nothing of the rest would have
passed.**  For every stream, every FETCH that fails and every pipeline: `collect`,
`count` and `for_each` return what they would have returned on a cursor that does not
fail if and only if the stages pass none of the rows behind the FETCH that fails; and so
does `reduce` for all functions. -/
theorem terminals_complete_iff (o : CloseOutcome) (s : Source) {β : Type} (p : Pipeline Row β) :
    let S := p.build (rowSource o)
    let t := p.start (rowSource o) s
    let full := p.start (rowSource o) s.unfailing
    ((collect S t).1 = (collect S full).1 ↔ PassesNothing p s) ∧
      ((count S t).1 = (count S full).1 ↔ PassesNothing p s) ∧
      (∀ {γ : Type} (f : γ → β → γ) (fn : γ),
        (forEach S f fn t).1 = (forEach S f fn full).1 ↔ PassesNothing p s) ∧
      ((∀ {γ : Type} (init : γ) (f : γ → β → γ),
        (reduce S init f t).1 = (reduce S init f full).1) ↔ PassesNothing p s) := by
  intro S t full
  have hitems : S.items full = S.items t ++ (p.after s.received).denote s.lost :=
    items_unfailing o p s
  unfold PassesNothing
  refine ⟨?_, ?_, fun f fn => ?_, ?_⟩
  · rw [collect_fst, collect_fst, hitems, List.self_eq_append_right]
  · rw [count_fst, count_fst, hitems, List.length_append, ← List.length_eq_zero_iff]
    omega
  · rw [forEach_fst, forEach_fst, hitems]
    constructor
    · intro h
      have hlength := congrArg Prod.snd h
      rw [List.length_append] at hlength
      exact List.length_eq_zero_iff.mp (by omega)
    · intro h
      rw [h, List.append_nil]
  · constructor
    · intro h
      have hcollect := h [] fun out v => out ++ [v]
      have hlists : S.items t = S.items full :=
        (collect_fst S t).symm.trans (hcollect.trans (collect_fst S full))
      rw [hitems] at hlists
      exact List.self_eq_append_right.mp hlists
    · intro h γ init f
      rw [reduce_fst, reduce_fst, hitems, h, List.append_nil]

end Upq.Streaming
