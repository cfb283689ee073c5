/-
  Transaction/RolledBack.lean --- what `is_rolled_back()` says about the server.

  Source: `drop_connection`, `commit`, `end_with`, `rollback`, `abort` and `finish` in
  `src/upq/PgTransaction.cpp`; `after_wait` in `include/upq/PgConnection.h`.

  The server is watched beside the object (`Watched`): `committed` says that it has
  committed, or will commit, the transaction begun last.  What is assumed of it: nothing
  but a COMMIT that was handed to libpq commits; one answered by an ERROR does not; one
  answered to its end without an ERROR does, in a transaction that was not aborted; and
  one whose reply is lost may or may not have been applied, which is an input of the step.

  `commit()` reports every failure as a rollback, also one that lost the reply: an IO
  error, the deadline of the watchdog, a cancellation.  That is the only path on which
  `is_rolled_back()` can be wrong (`rolledBack_sound_iff`).
-/
import Upq.Foundation.Machine
import Upq.Transaction.Commit

set_option autoImplicit false

namespace Upq.Transaction

open Relation (ReflTransGen)

/-! ## The server -/

/-- COMMIT on `l` was handed to libpq, and no verdict of the server has come back. -/
def commitLost (l : Link) (sc : Script) : Bool :=
  let o := runQuery sc (Stmt.commit.after l.status) l
  l.connected && sc.sendOk && !l.busy && !o.complete && !hasError o.read

/-- The server carries out COMMIT on `l`; `applied` decides where no verdict tells. -/
def serverCommits (l : Link) (sc : Script) (applied : Bool) : Bool :=
  let o := runQuery sc (Stmt.commit.after l.status) l
  if commitLost l sc then applied
  else l.connected && sc.sendOk && !l.busy && !hasError o.read && l.status == .inTrans

/-- A public operation, and whether the server applies a COMMIT of it whose reply is
lost. -/
structure Act where
  op : Op
  applied : Bool

/-- The link on which the operation sends COMMIT, with its script. -/
def World.sendsCommit (w : World) : Op → Option (Link × Script)
  | .commit sc _ =>
      match w.live with
      | none => none
      | some c => if w.emulate || (w.links c).inError then none else some (w.links c, sc)
  | _ => none

/-- The object, and whether the server has committed, or will commit, the transaction
begun last. -/
structure Watched where
  world : World
  committed : Bool

/-- One operation.  With a new transaction the question is open again. -/
def Watched.apply (s : Watched) (a : Act) : Watched where
  world := s.world.apply a.op
  committed :=
    if (s.world.apply a.op).epoch ≠ s.world.epoch then false
    else s.committed || (s.world.sendsCommit a.op).any fun p => serverCommits p.1 p.2 a.applied

/-- A sequence of operations. -/
def Watched.run (s : Watched) (acts : List Act) : Watched := acts.foldl Watched.apply s

/-- A new object with a real BEGIN. -/
def Watched.init (attempts : Nat) (links : Nat → Link) : Watched :=
  { world := .init false attempts links, committed := false }

/-- `is_rolled_back()` is right. -/
def Watched.Sound (s : Watched) : Prop := s.world.rolledBack = true → s.committed = false

/-- The operation sends a COMMIT whose reply is lost and which the server applies. -/
def Watched.lostCommit (s : Watched) (a : Act) : Bool :=
  (s.world.sendsCommit a.op).any fun p => commitLost p.1 p.2 && a.applied

/-- A task is canceled while it waits for the reply to COMMIT, which the server
applies. -/
def canceledCommitRun : List Act :=
  [⟨.begin fun _ => ⟨some (0, true), .answered [.command 0], true⟩, false⟩,
    ⟨.plain (.answered [.command 1]), false⟩,
    ⟨.commit { Script.answered [] with collect := .wait [] false true (.finished [.command 0]) }
      (.answered []), true⟩]

/-- `is_rolled_back()` then says that a committed transaction was rolled back. -/
theorem rolledBack_after_commit :
    ¬∀ (attempts : Nat) (links : Nat → Link) (acts : List Act),
      ((Watched.init attempts links).run acts).Sound := by
  intro h
  have hrun : (((Watched.init 3 fun _ => unusedLink).run canceledCommitRun).world.rolledBack &&
      ((Watched.init 3 fun _ => unusedLink).run canceledCommitRun).committed) = true := by
    decide +kernel
  obtain ⟨hrolled, hcommitted⟩ := Bool.and_eq_true_iff.mp hrun
  have hsound := h 3 (fun _ => unusedLink) canceledCommitRun hrolled
  rw [hcommitted] at hsound
  cases hsound

/-! ## COMMIT -/

/-- A COMMIT that is reported as failed was carried out exactly when its reply was lost
and the server applied it. -/
theorem serverCommits_of_failed {l : Link} {sc : Script} (applied : Bool)
    (hfailed : (runQuery sc (Stmt.commit.after l.status) l).result.ok = false) :
    serverCommits l sc applied = (commitLost l sc && applied) := by
  unfold serverCommits
  dsimp only
  cases hlost : commitLost l sc with
  | true => rfl
  | false =>
      -- a reply without an ERROR that was read to its end is no failure
      have hno : (l.connected && sc.sendOk && !l.busy &&
          !hasError (runQuery sc (Stmt.commit.after l.status) l).read) = false := by
        by_contra hyes
        simp only [Bool.not_eq_false, Bool.and_eq_true] at hyes
        have hcomplete : (runQuery sc (Stmt.commit.after l.status) l).complete = true := by
          by_contra hnot
          simp [commitLost, hyes, hnot] at hlost
        have hok := runQuery_ok_eq sc (Stmt.commit.after l.status) hyes.1.1.1
        rw [hfailed, hcomplete, Bool.true_and, ← Bool.not_not (List.isEmpty _), ← hasError_eq,
          hyes.2] at hok
        cases hok
      rw [hno]
      rfl

section

variable {w : World}

theorem endWith_flags (w : World) (k : Stmt) (sc : Script) :
    (w.endWith k sc).active = false ∧ (w.endWith k sc).epoch = w.epoch := by
  unfold World.endWith
  obtain ⟨how, -, hhow⟩ := giveBack_cases _
  rw [hhow, (sameFlags_release _ how).active, (sameStreams_release _ how).epoch]
  refine ⟨rfl, ?_⟩
  split
  · rfl
  · rename_i c _
    dsimp only
    split
    · exact (sameStreams_markDead _).epoch
    · rfl

/-- What the last lines of `commit` leave alone. -/
theorem handBack_flags (w : World) (fatal : Bool) :
    SameFlags w (if fatal then w.markDead else w.giveBack) ∧
      (if fatal then w.markDead else w.giveBack).epoch = w.epoch := by
  cases fatal with
  | true => exact ⟨sameFlags_markDead w, (sameStreams_markDead w).epoch⟩
  | false =>
      obtain ⟨how, -, hhow⟩ := giveBack_cases w
      simp only [Bool.false_eq_true, if_false, hhow]
      exact ⟨sameFlags_release w how, (sameStreams_release w how).epoch⟩

/-- `commit()` of an active transaction: it is over, and where COMMIT was sent its failure
is reported as a rollback. -/
theorem commit_flags (hreal : w.emulate = false) (hact : w.active = true) (sc scEnd : Script) :
    (w.commit sc scEnd).1.active = false ∧ (w.commit sc scEnd).1.epoch = w.epoch ∧
      ∀ c, w.up = some c → (w.links c).inError = false →
        (w.commit sc scEnd).1.rolledBack = !(w.query c .commit sc).2.ok := by
  unfold World.commit
  split
  · rename_i hinactive
    rw [hact] at hinactive
    cases hinactive
  · split
    · rename_i hnone
      refine ⟨rfl, (sameStreams_markDead w).epoch, fun c hup => ?_⟩
      exact absurd (hnone.symm.trans hup) (fun h => by cases h)
    · rename_i d hd
      have hemu : ¬w.emulate = true := Bool.eq_false_iff.mp hreal
      dsimp only
      rw [if_neg hemu]
      split
      · rename_i herr
        obtain ⟨hover, hepoch⟩ :=
          endWith_flags { w with lastCommitError := some abortedError } .rollback scEnd
        refine ⟨hover, hepoch, fun c hup hfine => ?_⟩
        obtain rfl : d = c := Option.some.inj (hd.symm.trans hup)
        exact absurd (hfine.symm.trans herr) (by decide)
      · obtain ⟨hflags, hepoch⟩ := handBack_flags
          ((World.query { w with lastCommitError := none } d .commit sc).1.over
            (w.query d .commit sc).2.ok (!(w.query d .commit sc).2.ok)
            (if (w.query d .commit sc).2.ok then none
              else some (toOpError (w.query d .commit sc).2)))
          (isFatalConnectionError (w.query d .commit sc).2)
        refine ⟨hflags.active, hepoch, fun c hup _ => ?_⟩
        obtain rfl : d = c := Option.some.inj (hd.symm.trans hup)
        exact hflags.rolledBack

/-! ## Without a transaction -/

/-- `w'` has the flags of `w`, and no transaction has begun. -/
structure SameTx (w w' : World) : Prop where
  active : w'.active = w.active
  rolledBack : w'.rolledBack = w.rolledBack
  epoch : w'.epoch = w.epoch

theorem SameTx.refl (w : World) : SameTx w w := ⟨rfl, rfl, rfl⟩

theorem sameTx_borrowing {i : Nat} {w₀ w' : World} (h : SameTx w₀ w) (hw' : Borrowing i w w') :
    SameTx w₀ w' := by
  cases hw' with
  | sent st c sc _ _ =>
      unfold World.queryVia
      split
      · exact ⟨h.active, h.rolledBack, h.epoch⟩
      · exact ⟨h.active, h.rolledBack, h.epoch⟩
  | set st st' _ _ _ => exact ⟨h.active, h.rolledBack, h.epoch⟩

/-- The operation is `begin`. -/
def Op.isBegin : Op → Bool
  | .begin _ => true
  | _ => false

/-- **Frame rule.**  On an object without a transaction every operation but `begin`
leaves the flags alone. -/
theorem sameTx_apply (h : Owned w) (hact : w.active = false) {op : Op} (hop : op.isBegin = false) :
    SameTx w (w.apply op) := by
  have hlive : w.live = none := by simp [World.live, hact]
  have hup : w.up = none := by simp [World.up, h.idle hact]
  cases op with
  | begin env => cases hop
  | run pre env =>
      have hturn : runTurn pre (env 0) w = .done w.refuse notActiveResult := by
        simp [runTurn, hlive, hact]
      have hloop : runLoop pre env (w.attempts - 1) 0 w = (w.refuse, notActiveResult) := by
        unfold runLoop
        rw [hturn]
      simp only [World.apply, World.run, hloop]
      exact ⟨rfl, rfl, rfl⟩
  | plain sc =>
      simp only [World.apply, World.plain, hlive]
      exact ⟨rfl, rfl, rfl⟩
  | copy o =>
      simp only [World.apply, World.copy, hlive]
      exact ⟨rfl, rfl, rfl⟩
  | stream sc =>
      simp only [World.apply, World.stream, hlive]
      exact ⟨rfl, rfl, rfl⟩
  | fetch i sc =>
      exact keep_of_effects (R := Borrowing i) (fun _ _ => sameTx_borrowing) (borrowings_fetch i sc)
        (.refl w)
  | closeStream i sc =>
      exact keep_of_effects (R := Borrowing i) (fun _ _ => sameTx_borrowing)
        (borrowings_closeStream i sc) (.refl w)
  | makeSubtx => exact ⟨rfl, rfl, rfl⟩
  | subBegin i sc =>
      simp only [World.apply, World.subBegin, hlive, ite_self]
      exact .refl w
  | subCommit i sc =>
      simp only [World.apply, World.subCommit, hup]
      split
      · exact .refl w
      · split
        · exact .refl w
        · exact ⟨rfl, rfl, rfl⟩
  | subRollback i sc =>
      simp only [World.apply, World.subRollback, hup, ite_self]
      split
      · exact .refl w
      · split
        · exact .refl w
        · exact ⟨rfl, rfl, rfl⟩
  | commit sc scEnd =>
      simp only [World.apply, World.commit, hact, Bool.not_false, if_true]
      exact .refl w
  | rollback sc | abort sc =>
      simp only [World.apply, World.rollback, hact, Bool.false_eq_true, if_false]
      exact .refl w
  | finish sc =>
      simp only [World.apply, World.finish, hact, Bool.false_eq_true, if_false]
      have hflags := sameFlags_release w .releaseAsync
      exact ⟨hflags.active, hflags.rolledBack, (sameStreams_release w .releaseAsync).epoch⟩

/-- `begin` begins a transaction or leaves none. -/
theorem begin_flags (hreal : w.emulate = false) (hact : w.active = false) (env : Nat → OpenTurn) :
    (w.begin env).1.epoch ≠ w.epoch ∨
      (w.begin env).1.active = false ∧
        ((w.begin env).1.rolledBack = true → w.rolledBack = true) := by
  unfold World.begin
  rw [if_neg (Bool.eq_false_iff.mp hact)]
  refine openLoop_rule
    (fun w' => w'.emulate = false ∧ w'.epoch = w.epoch ∧ w'.active = false ∧
      (w'.rolledBack = true → w.rolledBack = true))
    (fun w' _ => w'.epoch ≠ w.epoch ∨
      w'.active = false ∧ (w'.rolledBack = true → w.rolledBack = true))
    ?_ ?_ _ _ w ⟨hreal, rfl, hact, id⟩
  · rintro w₁ w' r ⟨hemu, hepoch, hinactive, hrolled⟩ hturn
    cases hturn with
    | denied => exact .inr ⟨hinactive, hrolled⟩
    | down c _ =>
        have hflags := sameFlags_markDead (w₁.acquire c false)
        refine .inr ⟨hflags.active.trans hinactive, fun h => hrolled ?_⟩
        exact hflags.rolledBack.symm.trans h
    | emulated c hemu' => exact absurd (hemu.symm.trans hemu') (by decide)
    | opened c sc _ _ =>
        refine .inl ?_
        change w₁.epoch + 1 ≠ w.epoch
        omega
    | failed c sc _ => exact .inr ⟨rfl, nofun⟩
  · rintro w₁ w' r ⟨hemu, hepoch, hinactive, hrolled⟩ hturn
    cases hturn with
    | again c sc _ =>
        have hflags := sameFlags_markDead ((w₁.acquire c true).query c .begin sc).1
        have hsame := sameStreams_markDead ((w₁.acquire c true).query c .begin sc).1
        refine ⟨⟨hsame.emulate.trans hemu, hsame.epoch.trans hepoch, hflags.active.trans hinactive,
          fun h => hrolled ?_⟩, .inr ⟨rfl, nofun⟩⟩
        exact hflags.rolledBack.symm.trans h

end

/-! ## Steps and runs -/

/-- What every operation keeps: the object is fine, and a transaction that is active has
not been committed. -/
structure Watched.Inv (s : Watched) : Prop where
  owned : Owned s.world
  session : OnSession s.world
  active : s.world.active = true → s.committed = false

section

variable {s : Watched}

/-- Without a transaction nothing is sent. -/
theorem sendsCommit_of_inactive {w : World} (hact : w.active = false) (op : Op) :
    w.sendsCommit op = none := by
  have hlive : w.live = none := by simp [World.live, hact]
  cases op <;> simp [World.sendsCommit, hlive]

/-- Only `commit()` sends COMMIT, on the connection of a transaction not seen aborted. -/
theorem sendsCommit_eq_some {w : World} {op : Op} {p : Link × Script}
    (h : w.sendsCommit op = some p) :
    ∃ c sc scEnd, op = .commit sc scEnd ∧ p = (w.links c, sc) ∧ w.up = some c ∧
      (w.links c).inError = false := by
  cases op with
  | commit sc scEnd =>
      simp only [World.sendsCommit] at h
      split at h
      · cases h
      · rename_i c hlive
        split at h
        · cases h
        · rename_i hfine
          rw [Bool.not_eq_true, Bool.or_eq_false_iff] at hfine
          exact ⟨c, sc, scEnd, rfl, (Option.some.inj h).symm, up_of_live hlive, hfine.2⟩
  | _ => cases h

/-- An operation on an object without a transaction: one begins, or there is none after
it either and `is_rolled_back()` has not become true. -/
theorem begun_or_none {w : World} (h : Owned w) (hreal : w.emulate = false)
    (hact : w.active = false) (op : Op) :
    (w.apply op).epoch ≠ w.epoch ∨
      (w.apply op).active = false ∧ ((w.apply op).rolledBack = true → w.rolledBack = true) := by
  cases hop : op.isBegin with
  | false =>
      have hsame := sameTx_apply h hact hop
      exact .inr ⟨hsame.active.trans hact, fun hr => hsame.rolledBack.symm.trans hr⟩
  | true =>
      cases op with
      | begin env => exact begin_flags hreal hact env
      | _ => cases hop

/-- Where no COMMIT is sent, `committed` becomes false or stays. -/
theorem Watched.committed_of_none {a : Act} (h : s.world.sendsCommit a.op = none) :
    (s.apply a).committed =
      if (s.world.apply a.op).epoch ≠ s.world.epoch then false else s.committed := by
  rw [Watched.apply, h, Option.any_none, Bool.or_false]

theorem Watched.lostCommit_of_none {a : Act} (h : s.world.sendsCommit a.op = none) :
    s.lostCommit a = false := by
  rw [Watched.lostCommit, h, Option.any_none]

/-- `commit()` on a connection that was not seen aborted. -/
theorem Watched.Inv.apply_commit (h : s.Inv) (hact : s.world.active = true) {a : Act} {c : Nat}
    {sc scEnd : Script} (hop : a.op = .commit sc scEnd) (hup : s.world.up = some c)
    (hfine : (s.world.links c).inError = false)
    (hsends : s.world.sendsCommit a.op = some (s.world.links c, sc)) :
    (s.world.apply a.op).active = false ∧ ((s.apply a).Sound ↔ s.lostCommit a = false) := by
  obtain ⟨hover, hepoch, hrolled⟩ := commit_flags h.session.real hact sc scEnd
  have happly : s.world.apply a.op = (s.world.commit sc scEnd).1 := by rw [hop, World.apply]
  have hcommitted : (s.apply a).committed = serverCommits (s.world.links c) sc a.applied := by
    simp only [Watched.apply, happly, hepoch, ne_eq, not_true_eq_false, if_false, h.active hact,
      hsends, Option.any_some, Bool.false_or]
  have hlost : s.lostCommit a = (commitLost (s.world.links c) sc && a.applied) := by
    simp only [Watched.lostCommit, hsends, Option.any_some]
  refine ⟨happly ▸ hover, ?_⟩
  change ((s.world.apply a.op).rolledBack = true → (s.apply a).committed = false) ↔ _
  rw [happly, hrolled c hup hfine, hcommitted, hlost]
  cases hok : (s.world.query c .commit sc).2.ok with
  | true =>
      have hcomplete := (runQuery_ok hok).2.2.1
      simp [commitLost, hcomplete]
  | false =>
      rw [serverCommits_of_failed a.applied hok]
      simp

/-- **Step rule.**  An operation keeps the invariant, and `is_rolled_back()` is right after
it exactly when it lost no COMMIT that was applied. -/
theorem Watched.Inv.apply (h : s.Inv) (hsound : s.Sound) (a : Act) :
    (s.apply a).Inv ∧ ((s.apply a).Sound ↔ s.lostCommit a = false) := by
  have howned := owned_apply h.owned a.op
  have hsession := onSession_apply h.session a.op
  suffices hgoal : ((s.world.apply a.op).active = true → (s.apply a).committed = false) ∧
      ((s.apply a).Sound ↔ s.lostCommit a = false) from
    ⟨⟨howned, hsession, hgoal.1⟩, hgoal.2⟩
  cases hsends : s.world.sendsCommit a.op with
  | some p =>
      obtain ⟨c, sc, scEnd, hop, rfl, hup, hfine⟩ := sendsCommit_eq_some hsends
      cases hact : s.world.active with
      | false =>
          rw [sendsCommit_of_inactive hact] at hsends
          cases hsends
      | true =>
          obtain ⟨hover, hiff⟩ := h.apply_commit hact hop hup hfine hsends
          exact ⟨fun hactive => absurd (hover.symm.trans hactive) (by decide), hiff⟩
  | none =>
      rw [Watched.Sound, Watched.lostCommit_of_none hsends, Watched.committed_of_none hsends]
      simp only [iff_true]
      cases hact : s.world.active with
      | true =>
          rw [h.active hact, ite_self]
          exact ⟨fun _ => rfl, fun _ => rfl⟩
      | false =>
          rcases begun_or_none h.owned h.session.real hact a.op with hbegun | ⟨hidle, hrolled⟩
          · rw [if_pos hbegun]
            exact ⟨fun _ => rfl, fun _ => rfl⟩
          · rw [hidle]
            refine ⟨nofun, fun hr => ?_⟩
            split
            · rfl
            · exact hsound (hrolled hr)

theorem inv_init (attempts : Nat) (links : Nat → Link) : (Watched.init attempts links).Inv :=
  ⟨owned_init false attempts links, onSession_init attempts links, fun _ => rfl⟩

end

/-- **When `is_rolled_back()` is sound.**  For every object with a real BEGIN and every
sequence of operations with any outcomes: in every state reached, `is_rolled_back()` means
that the server has not committed the transaction and will not, if and only if no
operation of the sequence sends a COMMIT whose reply is lost and which the server
applies. -/
theorem rolledBack_sound_iff (attempts : Nat) (links : Nat → Link) (acts : List Act) :
    (∀ n, ((Watched.init attempts links).run (acts.take n)).Sound) ↔
      ∀ n a, acts[n]? = some a →
        ((Watched.init attempts links).run (acts.take n)).lostCommit a = false := by
  exact Foundation.foldl_iff_guarded (fun s a hs hsound => hs.apply hsound a) acts
    (inv_init attempts links) fun _ => rfl

end Upq.Transaction
