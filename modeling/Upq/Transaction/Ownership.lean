/-
  Transaction/Ownership.lean --- a `PgTransaction` returns what it takes.

  The log is scanned for connections taken and handed back: `scan` fails on a second
  connection while one is held and on a hand-back of anything but the connection
  held.  `Held` says that the scan succeeds and ends with `conn_`.  Every primitive
  of the object keeps it, so every operation does, whatever its steps meet; the
  entry points differ in where they leave the object, which `Owned` bounds.
-/
import Upq.Transaction.Machine

set_option autoImplicit false

namespace Upq.Transaction

open Upq.Pool (HandBack)

/-! ## Taken and handed back -/

/-- The connection held after the log, starting with `held`; `none` if a connection
was taken while one was held, or another one than the held was handed back. -/
def scan : Option Nat → List Entry → Option (Option Nat)
  | held, [] => some held
  | none, .acquired c :: es => scan (some c) es
  | some _, .acquired _ :: _ => none
  | none, .handedBack _ _ :: _ => none
  | some c, .handedBack c' _ :: es => if c = c' then scan none es else none
  | held, .began _ :: es => scan held es
  | held, .issued _ _ _ _ _ :: es => scan held es
  | held, .refused :: es => scan held es
  | held, .stale _ :: es => scan held es

theorem scan_append (held : Option Nat) (xs ys : List Entry) :
    scan held (xs ++ ys) = (scan held xs).bind fun h => scan h ys := by
  induction xs generalizing held with
  | nil => rfl
  | cons e es ih =>
      cases held with
      | none => cases e <;> simp [scan, ih]
      | some c =>
          cases e with
          | handedBack c' how =>
              by_cases heq : c = c'
              · simp [scan, heq, ih]
              · simp [scan, heq]
          | _ => simp [scan, ih]

/-- The log accounts for `conn_`. -/
def Held (w : World) : Prop := scan none w.log = some w.conn

/-- One more entry of the log. -/
theorem Held.append {w w' : World} {e : Entry} (h : Held w) (hlog : w'.log = w.log ++ [e])
    (hscan : scan w.conn [e] = some w'.conn) : Held w' := by
  unfold Held at h ⊢
  rw [hlog, scan_append, h]
  exact hscan

/-- The same log and the same connection. -/
theorem Held.congr {w w' : World} (h : Held w) (hlog : w'.log = w.log) (hconn : w'.conn = w.conn) :
    Held w' := by
  unfold Held at h ⊢
  rw [hlog, hconn, h]

section Primitives

variable {w : World}

theorem Held.acquire (h : Held w) (hnone : w.conn = none) (c : Nat) (up : Bool) :
    Held (w.acquire c up) :=
  h.append rfl (by rw [hnone]; rfl)

@[simp] theorem markDead_conn (w : World) : w.markDead.conn = none := by
  unfold World.markDead
  split
  · assumption
  · rfl

@[simp] theorem release_conn (w : World) (how : HandBack) : (w.release how).conn = none := by
  unfold World.release
  split
  · assumption
  · rfl

theorem Held.markDead (h : Held w) : Held w.markDead := by
  unfold World.markDead
  split
  · exact h
  · rename_i c hc
    exact h.append rfl (by simp [hc, scan])

theorem Held.release (h : Held w) (how : HandBack) : Held (w.release how) := by
  unfold World.release
  split
  · exact h
  · rename_i c hc
    exact h.append rfl (by simp [hc, scan])

theorem Held.refuse (h : Held w) : Held w.refuse := h.append rfl rfl

theorem Held.query (h : Held w) (c : Nat) (k : Stmt) (sc : Script) : Held (w.query c k sc).1 := by
  refine h.append rfl ?_
  split <;> rfl

/-- What a hand-back leaves alone. -/
structure SameFlags (w w' : World) : Prop where
  active : w'.active = w.active
  committed : w'.committed = w.committed
  rolledBack : w'.rolledBack = w.rolledBack
  emulate : w'.emulate = w.emulate

theorem sameFlags_markDead (w : World) : SameFlags w w.markDead := by
  unfold World.markDead
  split <;> exact ⟨rfl, rfl, rfl, rfl⟩

theorem sameFlags_release (w : World) (how : HandBack) : SameFlags w (w.release how) := by
  unfold World.release
  split <;> exact ⟨rfl, rfl, rfl, rfl⟩

/-- Giving back hands the connection back one way or the other. -/
theorem giveBack_cases (w : World) : ∃ how, how ≠ .markDead ∧ w.giveBack = w.release how := by
  unfold World.giveBack World.releaseNow
  cases hconn : w.conn with
  | none => exact ⟨.release, by decide, by simp [World.release, hconn]⟩
  | some c =>
      by_cases hbusy : ((w.links c).connected && !(w.links c).isIdle) = true
      · exact ⟨.releaseAsync, by decide, by simp only [hbusy, if_true]⟩
      · exact ⟨.release, by decide, by simp only [hbusy, Bool.false_eq_true, if_false]⟩

end Primitives

/-! ## Between operations -/

/-- At most one of the three flags. -/
structure OneFlag (w : World) : Prop where
  activeCommitted : ¬(w.active = true ∧ w.committed = true)
  activeRolledBack : ¬(w.active = true ∧ w.rolledBack = true)
  committedRolledBack : ¬(w.committed = true ∧ w.rolledBack = true)

/-- What holds between operations: the log accounts for `conn_`, an object that is
not active holds nothing, and at most one flag is set. -/
structure Owned (w : World) : Prop where
  held : Held w
  idle : w.active = false → w.conn = none
  flags : OneFlag w

theorem OneFlag.congr {w w' : World} (h : OneFlag w) (hs : SameFlags w w') : OneFlag w' := by
  constructor
  · rw [hs.active, hs.committed]; exact h.activeCommitted
  · rw [hs.active, hs.rolledBack]; exact h.activeRolledBack
  · rw [hs.committed, hs.rolledBack]; exact h.committedRolledBack

section Operations

variable {w : World}

/-- An operation that keeps connection and flags. -/
theorem Owned.keep {w' : World} (h : Owned w) (hheld : Held w') (hconn : w'.conn = w.conn)
    (hs : SameFlags w w') : Owned w' :=
  ⟨hheld, fun hact => by rw [hconn]; exact h.idle (hs.active ▸ hact), h.flags.congr hs⟩

theorem Owned.refuse (h : Owned w) : Owned w.refuse := h.keep h.held.refuse rfl ⟨rfl, rfl, rfl, rfl⟩

theorem Owned.query (h : Owned w) (c : Nat) (k : Stmt) (sc : Script) : Owned (w.query c k sc).1 :=
  h.keep (h.held.query c k sc) rfl ⟨rfl, rfl, rfl, rfl⟩

theorem owned_dropConnection (h : Held w) : Owned w.dropConnection where
  held := h.markDead.congr rfl rfl
  idle _ := markDead_conn w
  flags := ⟨by simp [World.dropConnection], by simp [World.dropConnection],
    by simp [World.dropConnection]⟩

/-- Whatever the flags, an object whose connection went back is fine if at most one
flag is set. -/
theorem owned_giveBack (h : Held w) (hflags : OneFlag w) : Owned w.giveBack := by
  obtain ⟨how, -, heq⟩ := giveBack_cases w
  rw [heq]
  exact ⟨h.release how, fun _ => release_conn w how, hflags.congr (sameFlags_release w how)⟩

theorem owned_markDead (h : Held w) (hflags : OneFlag w) : Owned w.markDead :=
  ⟨h.markDead, fun _ => markDead_conn w, hflags.congr (sameFlags_markDead w)⟩

theorem owned_begin (h : Owned w) (env : Nat → OpenTurn) : Owned (w.begin env).1 := by
  unfold World.begin
  split
  · exact h
  · rename_i hact
    have hact : w.active = false := Bool.eq_false_iff.mpr hact
    refine openLoop_rule (fun w => Held w ∧ w.conn = none ∧ w.active = false ∧ OneFlag w)
      (fun w _ => Owned w) ?_ ?_ _ _ w ⟨h.held, h.idle hact, hact, h.flags⟩
    · rintro w w' r ⟨hheld, hconn, hact, hflags⟩ hturn
      cases hturn with
      | denied => exact ⟨hheld, fun _ => hconn, hflags⟩
      | down c _ =>
          exact owned_markDead (hheld.acquire hconn c false) (hflags.congr ⟨rfl, rfl, rfl, rfl⟩)
      | emulated c hemu =>
          refine ⟨(hheld.acquire hconn c true).congr rfl rfl, nofun, ?_⟩
          exact ⟨by simp [World.activate], by simp [World.activate], by simp [World.activate]⟩
      | opened c sc hemu hok =>
          refine ⟨?_, nofun, ?_⟩
          · refine ((hheld.acquire hconn c true).query c .begin sc).append (e := .began c) rfl ?_
            rfl
          · exact ⟨by simp [World.activate], by simp [World.activate], by simp [World.activate]⟩
      | failed c sc _ =>
          refine ⟨((hheld.acquire hconn c true).query c .begin sc).markDead.congr rfl rfl,
            fun _ => markDead_conn _, ?_⟩
          exact ⟨by simp [World.notBegun], by simp [World.notBegun], by simp [World.notBegun]⟩
    · rintro w w' r ⟨hheld, hconn, hact, hflags⟩ hturn
      cases hturn with
      | again c sc _ =>
          have hheld' := ((hheld.acquire hconn c true).query c .begin sc).markDead
          have hsame := sameFlags_markDead ((w.acquire c true).query c .begin sc).1
          refine ⟨⟨hheld', markDead_conn _, hsame.active.trans hact, ?_⟩, ?_⟩
          · exact hflags.congr ⟨hsame.active, hsame.committed, hsame.rolledBack, hsame.emulate⟩
          · refine ⟨hheld'.congr rfl rfl, fun _ => markDead_conn _, ?_⟩
            exact ⟨by simp [World.notBegun], by simp [World.notBegun], by simp [World.notBegun]⟩

theorem owned_run (h : Owned w) (pre : Precheck) (env : Nat → RunTurn) :
    Owned (w.run pre env).1 := by
  refine runLoop_rule (P := Owned) ?_ ?_ ?_ ?_ _ _ w h
  · intro w hw _
    exact hw.refuse
  · intro w hw
    exact owned_dropConnection hw.held
  · intro w c sc hw _
    exact hw.query c .other sc
  · intro w hw hact _
    refine ⟨owned_markDead hw.held hw.flags, ?_⟩
    intro d up
    have hsame := sameFlags_markDead w
    refine ⟨hw.held.markDead.acquire (markDead_conn w) d up, ?_, hw.flags.congr ?_⟩
    · intro hfalse
      have htrue : w.markDead.active = true := hsame.active.trans hact
      exact absurd (htrue.symm.trans hfalse) (by decide)
    · exact ⟨hsame.active, hsame.committed, hsame.rolledBack, hsame.emulate⟩

theorem owned_plain (h : Owned w) (sc : Script) : Owned (w.plain sc) := by
  unfold World.plain
  split
  · exact h.refuse
  · exact h.query _ _ _

theorem owned_copy (h : Owned w) (o : CopyOutcome) : Owned (w.copy o) := by
  unfold World.copy
  split
  · exact h.refuse
  · rename_i c hlive
    dsimp only
    split
    · exact owned_dropConnection (h.held.append rfl rfl)
    · exact h.keep (h.held.append rfl rfl) rfl ⟨rfl, rfl, rfl, rfl⟩

theorem owned_stream (h : Owned w) (sc : Script) : Owned (w.stream sc) := by
  unfold World.stream
  split
  · exact h.refuse
  · rename_i c hlive
    have hq := h.query c .other sc
    dsimp only
    split
    · exact hq.keep (hq.held.congr rfl rfl) rfl ⟨rfl, rfl, rfl, rfl⟩
    · split
      · exact owned_dropConnection hq.held
      · exact hq

theorem owned_queryVia (h : Owned w) (st : Stream) (c : Nat) (sc : Script) :
    Owned (w.queryVia st c sc).1 := by
  unfold World.queryVia
  split
  · exact h.query c .other sc
  · exact h.keep (h.held.append rfl rfl) rfl ⟨rfl, rfl, rfl, rfl⟩

theorem owned_fetch (h : Owned w) (i : Nat) (sc : Script) : Owned (w.fetch i sc) := by
  unfold World.fetch
  split
  · exact h
  · rename_i st hst
    split
    · exact h
    · rename_i c hc
      split
      · exact h
      · have hq := owned_queryVia h st c sc
        exact hq.keep (hq.held.congr rfl rfl) rfl ⟨rfl, rfl, rfl, rfl⟩

theorem owned_closeStream (h : Owned w) (i : Nat) (sc : Script) : Owned (w.closeStream i sc) := by
  have hset : ∀ st, Owned { w with streams := w.streams.set i st } := fun _ =>
    h.keep (h.held.congr rfl rfl) rfl ⟨rfl, rfl, rfl, rfl⟩
  unfold World.closeStream
  split
  · exact h
  · rename_i st hst
    split
    · exact h
    · split
      · exact hset _
      · rename_i c hc
        split
        · exact hset _
        · have hq := owned_queryVia h st c sc
          exact hq.keep (hq.held.congr rfl rfl) rfl ⟨rfl, rfl, rfl, rfl⟩

theorem Owned.setSub (h : Owned w) (i : Nat) (sub : Sub) : Owned (w.setSub i sub) :=
  h.keep (h.held.congr rfl rfl) rfl ⟨rfl, rfl, rfl, rfl⟩

theorem owned_runControl (h : Owned w) (c : Nat) (k : Stmt) (sc : Script) :
    Owned (w.runControl c k sc).1 := by
  have hq := h.query c k sc
  unfold World.runControl
  dsimp only
  split
  · exact owned_dropConnection hq.held
  · exact hq

theorem owned_subBegin (h : Owned w) (i : Nat) (sc : Script) : Owned (w.subBegin i sc) := by
  unfold World.subBegin
  split
  · exact h
  · rename_i c _
    have hrc := owned_runControl h c .savepoint sc
    split
    · rename_i w' heq
      rw [heq] at hrc
      exact hrc.setSub i _
    · rename_i w' heq
      rw [heq] at hrc
      exact hrc

theorem owned_subCommit (h : Owned w) (i : Nat) (sc : Script) : Owned (w.subCommit i sc) := by
  unfold World.subCommit
  split
  · exact h
  · split
    · exact h
    · split
      · exact h.setSub i _
      · split
        · exact h
        · exact (owned_runControl h _ .release sc).setSub i _

theorem owned_subRollback (h : Owned w) (i : Nat) (sc : Script) : Owned (w.subRollback i sc) := by
  unfold World.subRollback
  split
  · exact h
  · split
    · exact h
    · dsimp only
      split
      · exact h.setSub i _
      · exact (owned_runControl h _ .rollbackTo sc).setSub i _

theorem owned_endWith (h : Owned w) (k : Stmt) (sc : Script) : Owned (w.endWith k sc) := by
  have hback : ∀ w' : World, Held w' →
      Owned (World.giveBack { w' with committed := false, rolledBack := true, active := false }) :=
    fun w' hw' => owned_giveBack (hw'.congr rfl rfl) ⟨by simp, by simp, by simp⟩
  unfold World.endWith
  refine hback _ ?_
  split
  · exact h.held
  · rename_i c _
    have hq := h.held.query c k sc
    dsimp only
    split
    · exact hq.markDead
    · exact hq

theorem owned_commit (h : Owned w) (sc scEnd : Script) : Owned (w.commit sc scEnd).1 := by
  unfold World.commit
  split
  · exact h
  · split
    · have hdrop := owned_dropConnection h.held
      exact hdrop.keep (hdrop.held.congr rfl rfl) rfl ⟨rfl, rfl, rfl, rfl⟩
    · rename_i c _
      dsimp only
      split
      · exact owned_giveBack (h.held.congr rfl rfl) ⟨by simp, by simp, by simp⟩
      · split
        · have hnoted : Owned { w with lastCommitError := some abortedError } :=
            h.keep (h.held.congr rfl rfl) rfl ⟨rfl, rfl, rfl, rfl⟩
          exact owned_endWith hnoted .rollback scEnd
        · have hheld : Held ({ w with lastCommitError := none }.query c .commit sc).1 :=
            Held.query (h.held.congr rfl rfl) c .commit sc
          split
          · exact owned_markDead (hheld.congr rfl rfl) ⟨by simp, by simp, by simp⟩
          · exact owned_giveBack (hheld.congr rfl rfl) ⟨by simp, by simp, by simp⟩

theorem owned_rollback (h : Owned w) (k : Stmt) (sc : Script) : Owned (w.rollback k sc) := by
  unfold World.rollback
  split
  · exact owned_endWith h k sc
  · exact h

theorem owned_finish (h : Owned w) (sc : Script) : Owned (w.finish sc) := by
  unfold World.finish
  split
  · exact owned_endWith h .rollback sc
  · exact ⟨h.held.release _, fun _ => release_conn w _, h.flags.congr (sameFlags_release w _)⟩

/-- **Step rule.**  Every public operation leaves the object fine. -/
theorem owned_apply (h : Owned w) (op : Op) : Owned (w.apply op) := by
  cases op with
  | begin env => exact owned_begin h env
  | run pre env => exact owned_run h pre env
  | plain sc => exact owned_plain h sc
  | copy o => exact owned_copy h o
  | stream sc => exact owned_stream h sc
  | fetch i sc => exact owned_fetch h i sc
  | closeStream i sc => exact owned_closeStream h i sc
  | makeSubtx => exact h.keep (h.held.congr rfl rfl) rfl ⟨rfl, rfl, rfl, rfl⟩
  | subBegin i sc => exact owned_subBegin h i sc
  | subCommit i sc => exact owned_subCommit h i sc
  | subRollback i sc => exact owned_subRollback h i sc
  | commit sc scEnd => exact owned_commit h sc scEnd
  | rollback sc => exact owned_rollback h .rollback sc
  | abort sc => exact owned_rollback h .abort sc
  | finish sc => exact owned_finish h sc

end Operations

theorem owned_init (emulate : Bool) (attempts : Nat) (links : Nat → Link) :
    Owned (World.init emulate attempts links) :=
  ⟨rfl, fun _ => rfl, by simp [World.init], by simp [World.init], by simp [World.init]⟩

/-- **Run rule.**  So does every sequence of them. -/
theorem owned_applyAll {w : World} (h : Owned w) (ops : List Op) : Owned (w.applyAll ops) := by
  induction ops generalizing w with
  | nil => exact h
  | cons op ops ih => exact ih (owned_apply h op)

/-- The destructor hands back what is still held. -/
theorem scan_destroy {w : World} (h : Owned w) : scan none w.destroy.log = some none := by
  have hdead : Held w.destroy := h.held.markDead
  unfold Held at hdead
  rw [hdead]
  exact congrArg some (markDead_conn w)

end Upq.Transaction
