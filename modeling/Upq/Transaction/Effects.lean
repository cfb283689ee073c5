/-
  Transaction/Effects.lean --- every operation as a sequence of effects.

  Source: `include/upq/PgTransaction.h`, `src/upq/PgTransaction.cpp`.

  An operation of `PgTransaction`, its savepoints or its streams is a sequence of
  few kinds of effects, each under the guard its branch of the source has checked.
  Which ones depends on its kind: statements and savepoints have those of `Statement`,
  `begin` those of `Beginning`, the ends of a transaction those of `Ending`, and a
  borrowed stream those of `Borrowing`.

  `Inner` are the effects of all but the ends, `Effect` are all.  An invariant that every
  effect keeps is kept by every operation (`effects_apply`), with any outcome of its steps.
-/
import Mathlib.Logic.Relation
import Upq.Transaction.Ownership

set_option autoImplicit false

namespace Upq.Transaction

open Relation (ReflTransGen)
open Upq.Pool (HandBack)

/-- Statements other than BEGIN, COMMIT, ROLLBACK and ABORT. -/
def Stmt.isInner : Stmt → Bool
  | .savepoint | .release | .rollbackTo | .other => true
  | _ => false

/-- A COPY on `c` that came to `o`. -/
def World.copied (w : World) (c : Nat) (o : CopyOutcome) : World :=
  { w with
    links := Function.update w.links c (o.link (w.links c))
    log := w.log ++ [.issued c .other (w.links c).status (!o.busy) o.errors] }

/-- A cursor was declared on `c`. -/
def World.addStream (w : World) (c : Nat) : World :=
  { w with
    streams := w.streams ++ [{ conn := some c, active := true, exhausted := false
                               epoch := w.epoch }] }

/-- The flags when a transaction is over. -/
def World.over (w : World) (committed rolledBack : Bool) (e : Option PgOpError) : World :=
  { w with active := false, committed := committed, rolledBack := rolledBack, lastCommitError := e }

/-- An effect of a statement or of a savepoint operation. -/
inductive Statement (w : World) : World → Prop where
  | refused (hlive : w.live = none) : Statement w w.refuse
  | dropped : Statement w w.dropConnection
  | queried (c : Nat) (k : Stmt) (sc : Script) (hup : w.up = some c) (hk : k.isInner = true) :
      Statement w (w.query c k sc).1
  | copied (c : Nat) (o : CopyOutcome) (hlive : w.live = some c) : Statement w (w.copied c o)
  | subsSet (subs : List Sub) : Statement w { w with subs := subs }
  | replaced (hact : w.active = true) (hemu : w.emulate = true) : Statement w w.markDead
  | replacedBy (c : Nat) (up : Bool) (hact : w.active = true) (hemu : w.emulate = true) :
      Statement w (w.markDead.acquire c up)

/-- An effect of `begin`. -/
inductive Beginning (w : World) : World → Prop where
  | found (c : Nat) (hact : w.active = false) : Beginning w (w.acquire c false).markDead
  | tried (c : Nat) (sc : Script) (hact : w.active = false) :
      Beginning w ((w.acquire c true).query c .begin sc).1.markDead
  | notBegun (hact : w.active = false) : Beginning w w.notBegun
  | emulated (c : Nat) (hact : w.active = false) (hemu : w.emulate = true) :
      Beginning w (w.acquire c true).activate
  | opened (c : Nat) (sc : Script) (hact : w.active = false) (hemu : w.emulate = false)
      (hok : ((w.acquire c true).query c .begin sc).2.ok = true) :
      Beginning w (((w.acquire c true).query c .begin sc).1.began c).activate

/-- An effect of the borrowed stream `i`. -/
inductive Borrowing (i : Nat) (w : World) : World → Prop where
  | sent (st : Stream) (c : Nat) (sc : Script) (hst : w.streams[i]? = some st)
      (hconn : st.conn = some c) : Borrowing i w (w.queryVia st c sc).1
  | set (st st' : Stream) (hst : w.streams[i]? = some st) (hepoch : st'.epoch = st.epoch)
      (hconn : ∀ c, st'.conn = some c → st.conn = some c) :
      Borrowing i w { w with streams := w.streams.set i st' }

/-- An effect of the end of a transaction. -/
inductive Ending (w : World) : World → Prop where
  | noted (e : Option PgOpError) : Ending w { w with lastCommitError := e }
  | ended (committed rolledBack : Bool) (e : Option PgOpError) :
      Ending w (w.over committed rolledBack e)
  | endedBy (c : Nat) (k : Stmt) (sc : Script) (hup : w.up = some c) (committed rolledBack : Bool)
      (e : Option PgOpError) : Ending w ((w.query c k sc).1.over committed rolledBack e)
  | retired (hact : w.active = false) : Ending w w.markDead
  | returned (how : HandBack) (hact : w.active = false) (halive : how ≠ .markDead) :
      Ending w (w.release how)

/-- An effect of an operation on the transaction object itself. -/
inductive Own (w : World) : World → Prop where
  | statement {w' : World} (h : Statement w w') : Own w w'
  | beginning {w' : World} (h : Beginning w w') : Own w w'
  | ending {w' : World} (h : Ending w w') : Own w w'

/-- An effect that does not end a transaction. -/
inductive Inner (w : World) : World → Prop where
  | statement {w' : World} (h : Statement w w') : Inner w w'
  | streamAdded (c : Nat) (hact : w.active = true) (hconn : w.conn = some c) :
      Inner w (w.addStream c)
  | borrowing (i : Nat) {w' : World} (h : Borrowing i w w') : Inner w w'
  | beginning {w' : World} (h : Beginning w w') : Inner w w'

/-- Any effect. -/
inductive Effect (w : World) : World → Prop where
  | inner {w' : World} (h : Inner w w') : Effect w w'
  | ending {w' : World} (h : Ending w w') : Effect w w'

theorem Own.effect {w w' : World} (h : Own w w') : Effect w w' := by
  cases h with
  | statement h => exact .inner (.statement h)
  | beginning h => exact .inner (.beginning h)
  | ending h => exact .ending h

/-- Effects of one kind, in sequence. -/
abbrev Statements : World → World → Prop := ReflTransGen Statement

/-- Effects of statements, savepoints, streams and `begin`, in sequence. -/
abbrev Inners : World → World → Prop := ReflTransGen Inner

/-- Effects in sequence. -/
abbrev Effects : World → World → Prop := ReflTransGen Effect

theorem Statements.inners {w w' : World} (h : Statements w w') : Inners w w' :=
  h.lift id fun _ _ => .statement

theorem Inners.effects {w w' : World} (h : Inners w w') : Effects w w' :=
  h.lift id fun _ _ => .inner

/-- **Effect rule.**  What every effect keeps, a sequence of effects keeps. -/
theorem keep_of_effects {R : World → World → Prop} {P : World → Prop}
    (hstep : ∀ w w', P w → R w w' → P w') {w w' : World} (h : ReflTransGen R w w') (hw : P w) :
    P w' := by
  induction h with
  | refl => exact hw
  | tail _ hlast ih => exact hstep _ _ ih hlast

section

variable {w : World}

theorem up_of_live {c : Nat} (h : w.live = some c) : w.up = some c := by
  unfold World.live at h
  split at h
  · exact h
  · cases h

theorem conn_of_up {c : Nat} (h : w.up = some c) :
    w.conn = some c ∧ (w.links c).connected = true := by
  unfold World.up at h
  split at h
  · cases h
  · split at h
    · rename_i d hconn hup
      cases h
      exact ⟨hconn, hup⟩
    · cases h

theorem query_link (w : World) (c : Nat) (k : Stmt) (sc : Script) :
    (w.query c k sc).1.links c =
      (runQuery sc (k.after (w.links c).status) (w.links c)).link := by
  simp [World.query]

/-! ## Operations that do not end a transaction -/

theorem beginnings_begin (env : Nat → OpenTurn) : ReflTransGen Beginning w (w.begin env).1 := by
  unfold World.begin
  split
  · exact .refl
  · rename_i hact
    refine openLoop_rule (fun w' => ReflTransGen Beginning w w' ∧ w'.active = false)
      (fun w' _ => ReflTransGen Beginning w w')
      ?_ ?_ _ _ w ⟨.refl, Bool.eq_false_iff.mpr hact⟩
    · rintro w₁ w' r ⟨h, hact⟩ hturn
      cases hturn with
      | denied => exact h
      | down c _ => exact h.tail (.found c hact)
      | emulated c hemu => exact h.tail (.emulated c hact hemu)
      | opened c sc hemu hok => exact h.tail (.opened c sc hact hemu hok)
      | failed c sc _ =>
          refine (h.tail (.tried c sc hact)).tail (.notBegun ?_)
          exact (sameFlags_markDead _).active.trans hact
    · rintro w₁ w' r ⟨h, hact⟩ hturn
      cases hturn with
      | again c sc _ =>
          have hdead := h.tail (.tried c sc hact)
          have hinactive : ((w₁.acquire c true).query c .begin sc).1.markDead.active = false :=
            (sameFlags_markDead _).active.trans hact
          exact ⟨⟨hdead, hinactive⟩, hdead.tail (.notBegun hinactive)⟩

theorem inners_begin (env : Nat → OpenTurn) : Inners w (w.begin env).1 :=
  (beginnings_begin env).lift id fun _ _ => .beginning

theorem statements_run (pre : Precheck) (env : Nat → RunTurn) : Statements w (w.run pre env).1 := by
  refine runLoop_rule (P := Statements w) ?_ ?_ ?_ ?_ _ _ w .refl
  · intro w' h hlive
    exact h.tail (.refused hlive)
  · intro w' h
    exact h.tail .dropped
  · intro w' c sc h hlive
    exact h.tail (.queried c .other sc (up_of_live hlive) rfl)
  · intro w' h hact hemu
    exact ⟨h.tail (.replaced hact hemu), fun d up => h.tail (.replacedBy d up hact hemu)⟩

theorem statements_plain (sc : Script) : Statements w (w.plain sc) := by
  unfold World.plain
  split
  · exact .single (.refused ‹_›)
  · exact .single (.queried _ .other sc (up_of_live ‹_›) rfl)

theorem statements_copy (o : CopyOutcome) : Statements w (w.copy o) := by
  unfold World.copy
  split
  · exact .single (.refused ‹_›)
  · rename_i c hlive
    have hcopied : Statements w (w.copied c o) := .single (.copied c o hlive)
    dsimp only
    split
    · exact hcopied.tail .dropped
    · exact hcopied

/-- `PgTransaction::stream` is a statement that may leave a stream on its connection. -/
theorem stream_cases (sc : Script) :
    Statements w (w.stream sc) ∨
      ∃ c, w.live = some c ∧ w.stream sc = (w.query c .other sc).1.addStream c := by
  unfold World.stream
  split
  · exact Or.inl (.single (.refused ‹_›))
  · rename_i c hlive
    have hq : Statements w (w.query c .other sc).1 :=
      .single (.queried c .other sc (up_of_live hlive) rfl)
    dsimp only
    split
    · exact Or.inr ⟨c, hlive, rfl⟩
    · split
      · exact Or.inl (hq.tail .dropped)
      · exact Or.inl hq

theorem inners_stream (sc : Script) : Inners w (w.stream sc) := by
  rcases stream_cases (w := w) sc with hs | ⟨c, hlive, heq⟩
  · exact hs.inners
  · have hup := up_of_live hlive
    rw [heq]
    have hact : w.active = true := active_of_live hlive
    refine (ReflTransGen.single (.statement (.queried c .other sc hup rfl))).tail ?_
    exact .streamAdded c hact (conn_of_up hup).1

@[simp] theorem queryVia_streams (st : Stream) (c : Nat) (sc : Script) :
    (w.queryVia st c sc).1.streams = w.streams := by
  unfold World.queryVia
  split <;> rfl

theorem borrowings_fetch (i : Nat) (sc : Script) : ReflTransGen (Borrowing i) w (w.fetch i sc) := by
  unfold World.fetch
  split
  · exact .refl
  · rename_i st hst
    split
    · exact .refl
    · rename_i c hconn
      split
      · exact .refl
      · refine (ReflTransGen.single (.sent st c sc hst hconn)).tail ?_
        exact .set st _ (by rw [queryVia_streams, hst]) rfl fun _ => id

theorem borrowings_closeStream (i : Nat) (sc : Script) :
    ReflTransGen (Borrowing i) w (w.closeStream i sc) := by
  unfold World.closeStream
  split
  · exact .refl
  · rename_i st hst
    have hclosed : ReflTransGen (Borrowing i) w
        { w with streams := w.streams.set i { st with active := false } } :=
      .single (.set st _ hst rfl fun _ => id)
    split
    · exact .refl
    · split
      · exact hclosed
      · rename_i c hconn
        split
        · exact hclosed
        · refine (ReflTransGen.single (.sent st c sc hst hconn)).tail ?_
          exact .set st _ (by rw [queryVia_streams, hst]) rfl (fun _ h => by cases h)

theorem statements_runControl {c : Nat} {k : Stmt} (hup : w.up = some c) (hk : k.isInner = true)
    (sc : Script) : Statements w (w.runControl c k sc).1 := by
  have hq : Statements w (w.query c k sc).1 := .single (.queried c k sc hup hk)
  unfold World.runControl
  dsimp only
  split
  · exact hq.tail .dropped
  · exact hq

theorem statements_subBegin (i : Nat) (sc : Script) : Statements w (w.subBegin i sc) := by
  unfold World.subBegin
  split
  · exact .refl
  · rename_i c hlive
    have hup : w.up = some c := by
      split at hlive
      · cases hlive
      · exact up_of_live hlive
    have hrc := statements_runControl hup (k := .savepoint) rfl sc
    split
    · rename_i w' heq
      rw [heq] at hrc
      exact hrc.tail (.subsSet _)
    · rename_i w' heq
      rw [heq] at hrc
      exact hrc

theorem statements_subCommit (i : Nat) (sc : Script) : Statements w (w.subCommit i sc) := by
  unfold World.subCommit
  split
  · exact .refl
  · split
    · exact .refl
    · split
      · exact .single (.subsSet _)
      · rename_i c hup
        split
        · exact .refl
        · exact (statements_runControl hup (k := .release) rfl sc).tail (.subsSet _)

theorem statements_subRollback (i : Nat) (sc : Script) : Statements w (w.subRollback i sc) := by
  unfold World.subRollback
  split
  · exact .refl
  · split
    · exact .refl
    · dsimp only
      split
      · exact .single (.subsSet _)
      · rename_i c hup
        split at hup
        · cases hup
        · exact (statements_runControl hup (k := .rollbackTo) rfl sc).tail (.subsSet _)

/-- Statements and savepoint operations. -/
def Op.isStatement : Op → Bool
  | .run _ _ | .plain _ | .copy _ | .makeSubtx | .subBegin _ _ | .subCommit _ _
  | .subRollback _ _ => true
  | _ => false

/-- **Operation rule**, for statements. -/
theorem statements_apply {op : Op} (h : op.isStatement = true) : Statements w (w.apply op) := by
  cases op with
  | run pre env => exact statements_run pre env
  | plain sc => exact statements_plain sc
  | copy o => exact statements_copy o
  | makeSubtx => exact .single (.subsSet _)
  | subBegin i sc => exact statements_subBegin i sc
  | subCommit i sc => exact statements_subCommit i sc
  | subRollback i sc => exact statements_subRollback i sc
  | _ => cases h

/-- Operations a body may use that does not itself commit or roll back. -/
def Op.isInner : Op → Bool
  | .commit _ _ | .rollback _ | .abort _ | .finish _ => false
  | _ => true

/-- **Operation rule**, for operations that do not end a transaction. -/
theorem inners_apply {op : Op} (h : op.isInner = true) : Inners w (w.apply op) := by
  cases op with
  | begin env => exact inners_begin env
  | stream sc => exact inners_stream sc
  | fetch i sc => exact (borrowings_fetch i sc).lift id fun _ _ => .borrowing i
  | closeStream i sc => exact (borrowings_closeStream i sc).lift id fun _ _ => .borrowing i
  | commit _ _ | rollback _ | abort _ | finish _ => cases h
  | _ => exact (statements_apply rfl).inners

/-! ## Operations that end a transaction -/

/-- A connection retired before the flags are set is retired after them. -/
theorem over_markDead (committed rolledBack : Bool) (e : Option PgOpError) :
    w.markDead.over committed rolledBack e = (w.over committed rolledBack e).markDead := by
  unfold World.markDead
  cases hconn : w.conn <;> simp [World.over, hconn]

theorem own_giveBack (hact : w.active = false) : Own w w.giveBack := by
  obtain ⟨how, halive, hhow⟩ := giveBack_cases w
  rw [hhow]
  exact .ending (.returned how hact halive)

theorem owns_endWith (k : Stmt) (sc : Script) : ReflTransGen Own w (w.endWith k sc) := by
  unfold World.endWith
  split
  · have hover : Own w (w.over false true w.lastCommitError) := .ending (.ended _ _ _)
    exact (ReflTransGen.single hover).tail (own_giveBack rfl)
  · rename_i c hup
    have hup : w.up = some c := by
      split at hup
      · cases hup
      · exact hup
    have hover : Own w ((w.query c k sc).1.over false true w.lastCommitError) :=
      .ending (.endedBy c k sc hup _ _ _)
    dsimp only
    split
    · have hdead := (ReflTransGen.single hover).tail (.ending (.retired rfl))
      rw [← over_markDead] at hdead
      have hlast : (w.query c k sc).1.markDead.lastCommitError = w.lastCommitError := by
        unfold World.markDead
        split <;> rfl
      rw [← hlast] at hdead
      exact hdead.tail (own_giveBack rfl)
    · exact (ReflTransGen.single hover).tail (own_giveBack rfl)

theorem owns_commit (sc scEnd : Script) : ReflTransGen Own w (w.commit sc scEnd).1 := by
  unfold World.commit
  split
  · exact .refl
  · split
    · exact (ReflTransGen.single (.statement .dropped)).tail (.ending (.noted _))
    · rename_i c hup
      dsimp only
      split
      · exact (ReflTransGen.single (.ending (.ended true false none))).tail (own_giveBack rfl)
      · split
        · have hnoted : Own w { w with lastCommitError := some abortedError } := .ending (.noted _)
          exact (ReflTransGen.single hnoted).trans (owns_endWith .rollback scEnd)
        · have hended := ReflTransGen.single (Own.ending (.endedBy (w := w) c .commit sc hup
            (w.query c .commit sc).2.ok (!(w.query c .commit sc).2.ok)
            (if (w.query c .commit sc).2.ok then none
              else some (toOpError (w.query c .commit sc).2))))
          split
          · exact hended.tail (.ending (.retired rfl))
          · exact hended.tail (own_giveBack rfl)

theorem owns_finish (sc : Script) : ReflTransGen Own w (w.finish sc) := by
  unfold World.finish
  split
  · exact owns_endWith .rollback sc
  · exact .single (.ending (.returned _ (Bool.eq_false_iff.mpr ‹_›) (by decide)))

theorem owns_rollback (k : Stmt) (sc : Script) : ReflTransGen Own w (w.rollback k sc) := by
  unfold World.rollback
  split
  · exact owns_endWith k sc
  · exact .refl

/-- Operations on the object itself that open no stream. -/
def Op.isOwn : Op → Bool
  | .stream _ | .fetch _ _ | .closeStream _ _ => false
  | _ => true

/-- **Operation rule**, for operations on the object itself. -/
theorem owns_apply {op : Op} (h : op.isOwn = true) : ReflTransGen Own w (w.apply op) := by
  cases op with
  | begin env => exact (beginnings_begin env).lift id fun _ _ => Own.beginning
  | commit sc scEnd => exact owns_commit sc scEnd
  | rollback sc => exact owns_rollback .rollback sc
  | abort sc => exact owns_rollback .abort sc
  | finish sc => exact owns_finish sc
  | stream _ | fetch _ _ | closeStream _ _ => cases h
  | _ => exact (statements_apply rfl).lift id fun _ _ => Own.statement

/-- **Operation rule.**  Every public operation is a sequence of effects. -/
theorem effects_apply (op : Op) : Effects w (w.apply op) := by
  cases hop : op.isOwn with
  | true => exact (owns_apply hop).lift id fun _ _ => Own.effect
  | false =>
      cases op with
      | stream sc => exact (inners_stream sc).effects
      | fetch i sc => exact (borrowings_fetch i sc).lift id fun _ _ h => .inner (.borrowing i h)
      | closeStream i sc =>
          exact (borrowings_closeStream i sc).lift id fun _ _ h => .inner (.borrowing i h)
      | _ => cases hop

end

/-- What every operation keeps, every sequence of operations keeps. -/
theorem keep_of_applyAll {P : World → Prop} {ops : List Op}
    (hstep : ∀ op ∈ ops, ∀ w, P w → P (w.apply op)) {w : World} (hw : P w) :
    P (w.applyAll ops) := by
  induction ops generalizing w with
  | nil => exact hw
  | cons op ops ih =>
      refine ih (fun o ho => hstep o (List.mem_cons_of_mem _ ho)) ?_
      exact hstep op List.mem_cons_self w hw

/-- What an operation adds to the log. -/
def World.logged (w : World) (o : Op) : List Entry := (w.apply o).log.drop w.log.length

theorem logged_eq {w : World} {o : Op} {new : List Entry}
    (h : (w.apply o).log = w.log ++ new) : w.logged o = new := by
  rw [World.logged, h, List.drop_left]

end Upq.Transaction
