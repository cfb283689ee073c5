/-
  Transaction/Commit.lean --- `commit()` tells the truth.

  Source: `src/upq/PgTransaction.cpp`, `open` and `commit`.

  An active transaction with a real BEGIN stays on the session where BEGIN
  succeeded: its connection is dropped on some paths and never replaced.  While
  that connection is connected and not busy, it has answered everything sent since
  BEGIN and its server is inside the transaction (`InTx`).  The check of
  PQTRANS_INERROR before COMMIT then leaves one status in which COMMIT can be
  answered without an error.
-/
import Upq.Transaction.Effects

set_option autoImplicit false

namespace Upq.Transaction

open Upq.Pool (HandBack)

/-! ## The session of a transaction -/

/-- A statement that `c` has answered to its end.  What an earlier transaction's
stream sends is not a statement of this one: a stream is bound to its transaction
(`docs/large-exports.md`). -/
def Entry.AnsweredBy (c : Nat) : Entry → Prop
  | .issued d _ _ complete _ => d = c ∧ complete = true
  | .stale _ => True
  | _ => False

/-- The link is connected and no reply is outstanding. -/
def Free (l : Link) : Prop := l.connected = true ∧ l.busy = false

/-- The transaction was begun on `c` after `before`, and `since` was logged after
that. -/
structure InTx (w : World) (c : Nat) (before since : List Entry) : Prop where
  log : w.log = before ++ .began c :: since
  conn : w.conn = some c
  answered : Free (w.links c) → ∀ e ∈ since, e.AnsweredBy c
  inside : Free (w.links c) → (w.links c).status ≠ .idle

/-- Inner statements leave the server inside its transaction. -/
theorem Stmt.after_ne_idle {k : Stmt} {status : TxStatus} (hk : k.isInner = true)
    (hstatus : status ≠ .idle) (read : List PGresult) : k.after status read ≠ .idle := by
  cases status with
  | idle => exact absurd rfl hstatus
  | inTrans => cases k <;> simp [Stmt.after, Stmt.isInner] at hk ⊢ <;> split <;> simp
  | inError =>
      cases k <;> simp [Stmt.after, Stmt.isInner] at hk ⊢
      split <;> simp

section

variable {w : World} {c : Nat} {before since : List Entry}

/-- **Entry rule.**  An operation that logs one entry keeps the transaction, if a link
that is free after it was free before, with the entry answered and the server not
taken out of the transaction. -/
theorem InTx.append {w' : World} {e : Entry} (h : InTx w c before since)
    (hlog : w'.log = w.log ++ [e]) (hconn : w'.conn = w.conn)
    (hfree : Free (w'.links c) → Free (w.links c) ∧ e.AnsweredBy c ∧
      ((w.links c).status ≠ .idle → (w'.links c).status ≠ .idle)) :
    InTx w' c before (since ++ [e]) where
  log := by rw [hlog, h.log, List.append_assoc, List.cons_append]
  conn := hconn.trans h.conn
  answered := by
    intro hf f hmem
    obtain ⟨hold, he, -⟩ := hfree hf
    rcases List.mem_append.mp hmem with hin | hnew
    · exact h.answered hold f hin
    · rw [List.mem_singleton.mp hnew]
      exact he
  inside := by
    intro hf
    obtain ⟨hold, -, hstatus⟩ := hfree hf
    exact hstatus (h.inside hold)

/-- A link that is free after a call was free before it, and the call was answered. -/
theorem query_free {d : Nat} {k : Stmt} {sc : Script} (hk : k.isInner = true)
    (h : Free ((w.query d k sc).1.links d)) :
    Free (w.links d) ∧
      ((w.links d).status ≠ .idle → ((w.query d k sc).1.links d).status ≠ .idle) ∧
      (w.links d).connected = true ∧
      (runQuery sc (k.after (w.links d).status) (w.links d)).complete = true := by
  rw [query_link] at h ⊢
  obtain ⟨hconn, hbusy, hcomplete, -, hstatus⟩ := runQuery_connected h.1
  refine ⟨⟨hconn, hbusy⟩, ?_, hconn, hcomplete⟩
  intro hidle
  rw [hstatus]
  exact Stmt.after_ne_idle hk hidle _

/-- A statement of the transaction. -/
theorem InTx.query (h : InTx w c before since) {k : Stmt} (hk : k.isInner = true) (sc : Script) :
    ∃ e, InTx (w.query c k sc).1 c before (since ++ [e]) := by
  refine ⟨_, h.append rfl rfl ?_⟩
  intro hfree
  obtain ⟨hold, hstatus, hconn, hcomplete⟩ := query_free hk hfree
  refine ⟨hold, ?_, hstatus⟩
  rw [if_pos hconn]
  exact ⟨rfl, hcomplete⟩

/-- A statement of an earlier transaction's stream. -/
theorem InTx.stale (h : InTx w c before since) (d : Nat) (sc : Script) :
    InTx { (w.query d .other sc).1 with log := w.log ++ [.stale d] } c before
      (since ++ [.stale d]) := by
  refine h.append rfl rfl ?_
  intro hfree
  by_cases heq : d = c
  · subst heq
    obtain ⟨hold, hstatus, -⟩ := query_free rfl hfree
    exact ⟨hold, trivial, hstatus⟩
  · have hlink : (w.query d .other sc).1.links c = w.links c :=
      Function.update_of_ne (Ne.symm heq) _ _
    change Free ((w.query d .other sc).1.links c) at hfree
    change _ ∧ _ ∧ (_ → ((w.query d .other sc).1.links c).status ≠ _)
    rw [hlink] at hfree ⊢
    exact ⟨hfree, trivial, id⟩

/-- A COPY of the transaction. -/
theorem InTx.copy (h : InTx w c before since) (o : CopyOutcome) :
    InTx (w.copied c o) c before
      (since ++ [.issued c .other (w.links c).status (!o.busy) o.errors]) := by
  refine h.append rfl rfl ?_
  simp only [World.copied, Function.update_self]
  intro hfree
  obtain ⟨hconn, hbusy⟩ := hfree
  simp only [CopyOutcome.link, Link.connected, Bool.and_eq_true, Bool.not_eq_true',
    Bool.or_eq_false_iff] at hconn hbusy
  refine ⟨⟨?_, hbusy.1⟩, ⟨rfl, by simp [hbusy.2]⟩, ?_⟩
  · simp [Link.connected, hconn.1.1.1, hconn.2.1]
  · intro hidle
    exact Stmt.after_ne_idle rfl hidle _

end

/-! ## Every operation keeps an active transaction on its session -/

/-- A stream of the transaction that is active is on its connection. -/
structure Stream.Fits (st : Stream) (w : World) : Prop where
  epoch : st.epoch ≤ w.epoch
  conn : w.active = true → st.epoch = w.epoch → ∀ c, st.conn = some c → w.conn = some c

/-- An object with a real BEGIN: an active transaction is on its session. -/
structure OnSession (w : World) : Prop where
  real : w.emulate = false
  streams : ∀ st ∈ w.streams, st.Fits w
  inTx : w.active = true → ∃ c before since, InTx w c before since

/-- `w'` has the mode and the streams of `w`. -/
structure SameStreams (w w' : World) : Prop where
  emulate : w'.emulate = w.emulate
  streams : w'.streams = w.streams
  epoch : w'.epoch = w.epoch

theorem sameStreams_markDead (w : World) : SameStreams w w.markDead := by
  unfold World.markDead
  split <;> exact ⟨rfl, rfl, rfl⟩

theorem sameStreams_release (w : World) (how : HandBack) : SameStreams w (w.release how) := by
  unfold World.release
  split <;> exact ⟨rfl, rfl, rfl⟩

section

variable {w : World}

theorem OnSession.inactive {w' : World} (h : OnSession w) (hs : SameStreams w w')
    (hact : w'.active = false) : OnSession w' where
  real := hs.emulate.trans h.real
  streams := by
    intro st hst
    refine ⟨hs.epoch ▸ (h.streams st (hs.streams ▸ hst)).epoch, ?_⟩
    rw [hact]
    rintro ⟨⟩
  inTx := by rw [hact]; rintro ⟨⟩

theorem OnSession.keep {w' : World} (h : OnSession w) (hs : SameStreams w w')
    (hact : w'.active = w.active) (hconn : w'.conn = w.conn)
    (hin : ∀ c before since, InTx w c before since → ∃ since', InTx w' c before since') :
    OnSession w' where
  real := hs.emulate.trans h.real
  streams := by
    intro st hst
    have hfits := h.streams st (hs.streams ▸ hst)
    refine ⟨hs.epoch ▸ hfits.epoch, ?_⟩
    rw [hact, hconn, hs.epoch]
    exact hfits.conn
  inTx := by
    rw [hact]
    intro ha
    obtain ⟨c, before, since, htx⟩ := h.inTx ha
    exact ⟨c, before, hin c before since htx⟩

theorem onSession_markDead (h : OnSession w) (hact : w.active = false) : OnSession w.markDead :=
  h.inactive (sameStreams_markDead w) ((sameFlags_markDead w).active.trans hact)

theorem onSession_release (h : OnSession w) (hact : w.active = false) (how : HandBack) :
    OnSession (w.release how) :=
  h.inactive (sameStreams_release w how) ((sameFlags_release w how).active.trans hact)

theorem onSession_dropConnection (h : OnSession w) : OnSession w.dropConnection :=
  h.inactive ⟨(sameStreams_markDead w).emulate, (sameStreams_markDead w).streams,
    (sameStreams_markDead w).epoch⟩ rfl

/-- A statement is refused in a transaction only when its connection is lost. -/
theorem onSession_refuse (h : OnSession w) (hlive : w.live = none) : OnSession w.refuse where
  real := h.real
  streams := fun st hst => ⟨(h.streams st hst).epoch, (h.streams st hst).conn⟩
  inTx := by
    intro hact
    obtain ⟨c, before, since, htx⟩ := h.inTx hact
    refine ⟨c, before, _, htx.append rfl rfl ?_⟩
    intro hfree
    have hup : w.live = some c := by
      simp only [World.live, World.up, show w.active = true from hact, htx.conn, if_true]
      exact if_pos hfree.1
    exact absurd (hlive.symm.trans hup) (by simp)

theorem onSession_query (h : OnSession w) {c : Nat} (hup : w.up = some c) {k : Stmt}
    (hk : k.isInner = true) (sc : Script) : OnSession (w.query c k sc).1 := by
  refine h.keep ⟨rfl, rfl, rfl⟩ rfl rfl ?_
  intro d before since htx
  have heq : d = c := Option.some.inj (htx.conn.symm.trans (conn_of_up hup).1)
  subst heq
  obtain ⟨e, he⟩ := htx.query hk sc
  exact ⟨_, he⟩

theorem hasError_eq_false {read : List PGresult} (h : ∀ res ∈ read, res.errorState? = none) :
    hasError read = false := by
  rw [hasError, List.any_eq_false]
  intro res hres
  simp [h res hres]

theorem hasError_eq (read : List PGresult) :
    hasError read = !(read.filterMap PGresult.errorState?).isEmpty := by
  induction read with
  | nil => rfl
  | cons res read ih =>
      rw [hasError, List.any_cons]
      cases hres : res.errorState? with
      | none =>
          rw [List.filterMap_cons_none hres, ← ih]
          rfl
      | some state =>
          rw [List.filterMap_cons_some hres]
          rfl

/-- BEGIN answered without an ERROR has opened a transaction. -/
theorem began_inTrans {c : Nat} {sc : Script}
    (hok : ((w.acquire c true).query c .begin sc).2.ok = true) :
    (((w.acquire c true).query c .begin sc).1.links c).status = .inTrans := by
  obtain ⟨-, -, -, hnone, -, hstatus⟩ := runQuery_ok hok
  have hidle : ((w.acquire c true).links c).status = .idle := by simp [World.acquire]
  rw [query_link, hstatus, hidle]
  simp only [Stmt.after, hasError_eq_false (hidle ▸ hnone), Bool.false_eq_true, if_false]

theorem onSession_queryVia (h : OnSession w) {st : Stream} (hst : st.Fits w) {c : Nat}
    (hc : st.conn = some c) (sc : Script) : OnSession (w.queryVia st c sc).1 := by
  unfold World.queryVia
  split
  · rename_i hepoch
    refine ⟨h.real, fun st hst => ⟨(h.streams st hst).epoch, (h.streams st hst).conn⟩, ?_⟩
    intro hact
    obtain ⟨d, before, since, htx⟩ := h.inTx hact
    have heq : d = c := Option.some.inj (htx.conn.symm.trans (hst.conn hact hepoch c hc))
    subst heq
    obtain ⟨e, he⟩ := htx.query (k := .other) rfl sc
    exact ⟨d, before, _, he⟩
  · refine h.keep ⟨rfl, rfl, rfl⟩ rfl rfl ?_
    intro d before since htx
    exact ⟨_, htx.stale c sc⟩

/-- Replacing the streams by fitting ones. -/
theorem OnSession.setStreams (h : OnSession w) {streams : List Stream}
    (hfits : ∀ st ∈ streams, st.Fits w) : OnSession { w with streams := streams } where
  real := h.real
  streams := fun st hst => ⟨(hfits st hst).epoch, (hfits st hst).conn⟩
  inTx := by
    intro hact
    obtain ⟨c, before, since, htx⟩ := h.inTx hact
    exact ⟨c, before, since, htx.log, htx.conn, htx.answered, htx.inside⟩

/-- The savepoint objects and the flags other than `active_` do not matter. -/
theorem OnSession.congr {w' : World} (h : OnSession w) (hs : SameStreams w w')
    (hact : w'.active = w.active) (hconn : w'.conn = w.conn) (hlog : w'.log = w.log)
    (hlinks : w'.links = w.links) : OnSession w' := by
  refine h.keep hs hact hconn ?_
  intro c before since htx
  refine ⟨since, hlog.trans htx.log, hconn.trans htx.conn, ?_, ?_⟩
  · rw [hlinks]; exact htx.answered
  · rw [hlinks]; exact htx.inside

/-- A transaction is opened. -/
theorem onSession_opened (h : OnSession w) {c : Nat} {sc : Script}
    (hok : ((w.acquire c true).query c .begin sc).2.ok = true) :
    OnSession (((w.acquire c true).query c .begin sc).1.began c).activate := by
  refine ⟨h.real, ?_, fun _ => ⟨c, _, [], rfl, rfl, nofun, fun _ => ?_⟩⟩
  · -- every stream there is belongs to an earlier transaction
    intro st hst
    have hle := (h.streams st hst).epoch
    refine ⟨hle.trans (Nat.le_succ _), fun _ hepoch => ?_⟩
    change st.epoch = w.epoch + 1 at hepoch
    omega
  · exact (began_inTrans hok).trans_ne (by decide)

theorem onSession_statement {w' : World} (h : OnSession w) (hw' : Statement w w') :
    OnSession w' := by
  cases hw' with
  | refused hlive => exact onSession_refuse h hlive
  | dropped => exact onSession_dropConnection h
  | queried c k sc hup hk => exact onSession_query h hup hk sc
  | copied c o hlive =>
      refine h.keep ⟨rfl, rfl, rfl⟩ rfl rfl ?_
      intro d before since htx
      have heq : d = c := Option.some.inj (htx.conn.symm.trans (conn_of_up (up_of_live hlive)).1)
      subst heq
      exact ⟨_, htx.copy o⟩
  | subsSet subs => exact h.congr ⟨rfl, rfl, rfl⟩ rfl rfl rfl rfl
  | replaced _ hemu => exact absurd (h.real.symm.trans hemu) (by decide)
  | replacedBy _ _ _ hemu => exact absurd (h.real.symm.trans hemu) (by decide)

theorem onSession_borrowing {w' : World} {i : Nat} (h : OnSession w) (hw' : Borrowing i w w') :
    OnSession w' := by
  cases hw' with
  | sent st c sc hst hconn =>
      exact onSession_queryVia h (h.streams st (List.mem_of_getElem? hst)) hconn sc
  | set st st' hst hepoch hconn =>
      have hfits := h.streams st (List.mem_of_getElem? hst)
      refine h.setStreams ?_
      intro x hx
      rcases List.mem_or_eq_of_mem_set hx with hold | rfl
      · exact h.streams x hold
      · refine ⟨hepoch ▸ hfits.epoch, fun hact heq c hc => ?_⟩
        exact hfits.conn hact (hepoch ▸ heq) c (hconn c hc)

theorem onSession_beginning {w' : World} (h : OnSession w) (hw' : Beginning w w') :
    OnSession w' := by
  cases hw' with
  | found c hact => exact onSession_markDead (h.inactive ⟨rfl, rfl, rfl⟩ hact) hact
  | tried c sc hact => exact onSession_markDead (h.inactive ⟨rfl, rfl, rfl⟩ hact) hact
  | notBegun _ => exact h.inactive ⟨rfl, rfl, rfl⟩ rfl
  | emulated _ _ hemu => exact absurd (h.real.symm.trans hemu) (by decide)
  | opened c sc _ _ hok => exact onSession_opened h hok

/-- Every effect short of the end keeps an active transaction on its session. -/
theorem onSession_inner {w' : World} (h : OnSession w) (hw' : Inner w w') : OnSession w' := by
  cases hw' with
  | statement hstatement => exact onSession_statement h hstatement
  | streamAdded c hact hconn =>
      refine h.setStreams ?_
      intro st hst
      rcases List.mem_append.mp hst with hold | hnew
      · exact h.streams st hold
      · rw [List.mem_singleton.mp hnew]
        exact ⟨le_rfl, fun _ _ d hd => Option.some.inj hd ▸ hconn⟩
  | borrowing i hborrowing => exact onSession_borrowing h hborrowing
  | beginning hbeginning => exact onSession_beginning h hbeginning

/-- **Step rule.**  Every effect keeps an active transaction on its session. -/
theorem onSession_effect {w' : World} (h : OnSession w) (hw' : Effect w w') : OnSession w' := by
  cases hw' with
  | inner hinner => exact onSession_inner h hinner
  | ending hending =>
      cases hending with
      | noted e => exact h.congr ⟨rfl, rfl, rfl⟩ rfl rfl rfl rfl
      | ended _ _ _ => exact h.inactive ⟨rfl, rfl, rfl⟩ rfl
      | endedBy _ _ _ _ _ _ _ => exact h.inactive ⟨rfl, rfl, rfl⟩ rfl
      | retired hact => exact onSession_markDead h hact
      | returned how hact _ => exact onSession_release h hact how

end

theorem onSession_init (attempts : Nat) (links : Nat → Link) :
    OnSession (World.init false attempts links) :=
  ⟨rfl, nofun, nofun⟩

theorem onSession_apply {w : World} (h : OnSession w) (op : Op) : OnSession (w.apply op) :=
  keep_of_effects (R := Effect) (fun _ _ => onSession_effect) (effects_apply op) h

/-- **Run rule.**  So does every sequence of operations. -/
theorem onSession_applyAll {w : World} (h : OnSession w) (ops : List Op) :
    OnSession (w.applyAll ops) := by
  refine keep_of_applyAll (fun op _ w hw => ?_) h
  exact onSession_apply hw op

/-! ## commit() returns true -/

/-- The log of a transaction committed on `c`: after its BEGIN only statements `c` has
answered, then a COMMIT answered to its end without an ERROR by a server that was in
the transaction and had not aborted it, then at most the connection's return. -/
def CommittedOn (c : Nat) (log : List Entry) : Prop :=
  ∃ before since after, log = before ++ .began c :: since ++
      .issued c .commit .inTrans true [] :: after ∧
    (∀ e ∈ since, e.AnsweredBy c) ∧ ∀ e ∈ after, ∃ how, e = .handedBack c how

/-- What the last lines of `commit` do with the connection. -/
theorem handBack_log {w : World} {c : Nat} (h : w.conn = some c) (fatal : Bool) :
    (if fatal then w.markDead else w.giveBack).committed = w.committed ∧
      (if fatal then w.markDead else w.giveBack).lastCommitError = w.lastCommitError ∧
      ∃ how, (if fatal then w.markDead else w.giveBack).log = w.log ++ [.handedBack c how] := by
  cases fatal with
  | true => simp [World.markDead, h]
  | false =>
      obtain ⟨how, -, hhow⟩ := giveBack_cases w
      simp [hhow, World.release, h]

/-- What `commit()` can come to with a real BEGIN: there is no transaction, its
connection is lost, it is aborted and rolled back instead, or COMMIT is sent. -/
inductive Committing (w : World) (sc scEnd : Script) : World → Bool → Prop where
  | inactive (hact : w.active = false) : Committing w sc scEnd w false
  | lost (hup : w.up = none) :
      Committing w sc scEnd
        { w.dropConnection with lastCommitError := some connectionLostError } false
  | aborted (c : Nat) (hup : w.up = some c) (herr : (w.links c).inError = true) :
      Committing w sc scEnd
        (World.endWith { w with lastCommitError := some abortedError } .rollback scEnd) false
  | sent (c : Nat) (how : HandBack) (w' : World) (hact : w.active = true) (hup : w.up = some c)
      (herr : (w.links c).inError = false)
      (hcommitted : w'.committed = (w.query c .commit sc).2.ok)
      (hlast : w'.lastCommitError =
        if (w.query c .commit sc).2.ok then none else some (toOpError (w.query c .commit sc).2))
      (hlog : w'.log = (w.query c .commit sc).1.log ++ [.handedBack c how]) :
      Committing w sc scEnd w' (w.query c .commit sc).2.ok

theorem commit_committing {w : World} (hreal : w.emulate = false) (sc scEnd : Script) :
    Committing w sc scEnd (w.commit sc scEnd).1 (w.commit sc scEnd).2 := by
  unfold World.commit
  split
  · rename_i hact
    exact .inactive (by simpa using hact)
  · rename_i hact
    split
    · exact .lost ‹_›
    · rename_i c hup
      have hemu : ¬w.emulate = true := Bool.eq_false_iff.mp hreal
      dsimp only
      rw [if_neg hemu]
      split
      · exact .aborted c hup ‹_›
      · rename_i herr
        -- COMMIT does not read `last_commit_error_`, which was just cleared
        obtain ⟨hcommitted, hlast, how, hlog⟩ := handBack_log
          (w := (World.query { w with lastCommitError := none } c .commit sc).1.over
            (w.query c .commit sc).2.ok (!(w.query c .commit sc).2.ok)
            (if (w.query c .commit sc).2.ok then none
              else some (toOpError (w.query c .commit sc).2)))
          (conn_of_up hup).1 (isFatalConnectionError (w.query c .commit sc).2)
        exact .sent c how _ (by simpa using hact) hup (Bool.eq_false_iff.mpr herr)
          hcommitted hlast hlog

/-- A COMMIT answered without an ERROR, on a connection not seen in an aborted
transaction, was executed by a server inside a transaction it had not aborted. -/
theorem commit_entry {w : World} {c : Nat} {before since : List Entry} {sc : Script}
    (htx : InTx w c before since) (herr : (w.links c).inError = false)
    (hok : (w.query c .commit sc).2.ok = true) :
    Free (w.links c) ∧
      (w.query c .commit sc).1.log = w.log ++ [.issued c .commit .inTrans true []] := by
  obtain ⟨hconn, hbusy, hcomplete, hnone, -, -⟩ := runQuery_ok hok
  have hfree : Free (w.links c) := ⟨hconn, hbusy⟩
  have hstatus : (w.links c).status = .inTrans := by
    have hidle := htx.inside hfree
    simp only [Link.inError, hbusy] at herr
    cases hs : (w.links c).status with
    | idle => exact absurd hs hidle
    | inTrans => rfl
    | inError => simp [hs] at herr
  refine ⟨hfree, ?_⟩
  simp only [World.query, hconn, hcomplete, List.filterMap_eq_nil_iff.mpr hnone, if_true]
  rw [hstatus]

/-- A transaction on its session that `commit()` reports as committed is. -/
theorem committedOn_of_commit {w : World} (hon : OnSession w) {sc scEnd : Script}
    (h : (w.commit sc scEnd).2 = true) :
    (w.commit sc scEnd).1.committed = true ∧ ∃ c, CommittedOn c (w.commit sc scEnd).1.log := by
  have hcases := commit_committing hon.real sc scEnd
  generalize w.commit sc scEnd = r at h hcases ⊢
  obtain ⟨w', b⟩ := r
  dsimp only at h hcases ⊢
  cases hcases with
  | inactive _ => cases h
  | lost _ => cases h
  | aborted _ _ _ => cases h
  | sent c how _ hact hup herr hcommitted hlast hlog =>
      obtain ⟨d, before, since, htx⟩ := hon.inTx hact
      have heq : d = c := Option.some.inj (htx.conn.symm.trans (conn_of_up hup).1)
      subst heq
      obtain ⟨hfree, hentry⟩ := commit_entry htx herr h
      refine ⟨hcommitted.trans h, d, before, since, [.handedBack d how], ?_,
        htx.answered hfree, ?_⟩
      · rw [hlog, hentry, htx.log, List.append_assoc]
        rfl
      · intro e he
        exact ⟨how, List.mem_singleton.mp he⟩

/-- **commit() is sound.**  Whatever an object with a real BEGIN has been through, if
`commit()` returns true then `is_committed()` holds, and the server executed COMMIT in a
transaction that was not aborted, on the session where this object's BEGIN succeeded
and which has answered every statement issued in between. -/
theorem commit_sound (attempts : Nat) (links : Nat → Link) (ops : List Op) (sc scEnd : Script)
    (h : (((World.init false attempts links).applyAll ops).commit sc scEnd).2 = true) :
    (((World.init false attempts links).applyAll ops).commit sc scEnd).1.committed = true ∧
      ∃ c, CommittedOn c (((World.init false attempts links).applyAll ops).commit sc scEnd).1.log :=
  committedOn_of_commit (onSession_applyAll (onSession_init attempts links) ops) h

/-- A failed statement inside a savepoint scope that is rolled back, then COMMIT. -/
theorem commit_sound_after_savepoint :
    let ops : List Op :=
      [.begin fun _ => ⟨some (0, true), .answered [.command 0], true⟩, .makeSubtx,
        .subBegin 0 (.answered []), .plain (.answered [.error "23505" "duplicate key" "" "" ""]),
        .subRollback 0 (.answered [])]
    let w := (World.init false 3 fun _ => unusedLink).applyAll ops
    (w.commit (.answered [.command 0]) (.answered [])).2 = true ∧
      ∃ c, CommittedOn c (w.commit (.answered [.command 0]) (.answered [])).1.log := by
  intro ops w
  have h : (w.commit (.answered [.command 0]) (.answered [])).2 = true := by decide +kernel
  exact ⟨h, (commit_sound 3 (fun _ => unusedLink) ops _ _ h).2⟩

end Upq.Transaction
