/-
  Transaction/Borrowed.lean --- who may send on a pooled connection.

  Source: `PgRowStream::borrowed`, `fetch` and `close` in `src/upq/PgRowStream.cpp`,
  `PgTransaction::stream`, `commit` and `end_with` in `src/upq/PgTransaction.cpp`.

  A borrowed stream keeps its own `shared_ptr` to the connection its transaction held
  when the cursor was declared.  `Users` puts one transaction object, its streams and the
  other users of the pool side by side.  The pool grants a connection to one of them at a
  time and never one it has buried.  Each statement is recorded with whether its sender
  held the connection: the transaction while the log says so, a stream as long as its
  transaction has not handed a connection back since the stream was opened.

  A stream checks neither: it sends as long as its connection is connected.  What keeps
  it from another user's connection is that its caller stops using it when the
  transaction that opened it ends (`InTransaction`).
-/
import Upq.Foundation.Machine
import Upq.Transaction.Commit
import Upq.Transaction.Holding

set_option autoImplicit false

namespace Upq.Transaction

open Relation (ReflTransGen)
open Upq.Foundation

/-! ## The users of a pool -/

/-- What was so when a stream was opened: how often its transaction object had handed a
connection back, and how often it had begun. -/
structure Lease where
  handBacks : Nat
  begins : Nat
  deriving DecidableEq, Repr

/-- A transaction object with its streams, and the other users of its pool.  `begins`
counts the transactions it has begun, `taken` says which other user holds a connection;
the connections themselves are `tx.links`. -/
structure Users where
  tx : World
  gone : Bool
  begins : Nat
  leases : List Lease
  taken : Nat → Option Nat
  sends : List Send

/-- A new transaction object; nobody else holds a connection. -/
def Users.init (emulate : Bool) (attempts : Nat) (links : Nat → Link) : Users :=
  { tx := World.init emulate attempts links, gone := false, begins := 0, leases := []
    taken := fun _ => none, sends := [] }

/-- Stream `i` is within its lease: nothing was handed back since it was opened. -/
def Users.stillLent (s : Users) (i : Nat) : Bool :=
  match s.leases[i]? with
  | none => false
  | some lease => lease.handBacks == handBacks s.tx.log

/-- The transaction in which stream `i` was opened is still active. -/
def Users.stillOpen (s : Users) (i : Nat) : Bool :=
  match s.leases[i]? with
  | none => false
  | some lease => s.tx.active && lease.begins == s.begins

/-- The connections statements were handed to. -/
def targets (log : List Entry) : List Nat :=
  log.filterMap fun e => match e with
    | .issued c _ _ _ _ | .stale c => some c
    | _ => none

/-- The statements an operation sends. -/
def Users.sendsOf (s : Users) (o : Op) : List Send :=
  match o.stream? with
  | none => sendsIn s.tx.conn (s.tx.logged o)
  | some i =>
      ((targets (s.tx.logged o)).filter fun c => (s.tx.links c).connected).map
        fun c => ⟨c, s.stillLent i⟩

/-- An operation on the transaction object or on one of its streams. -/
def Users.apply (s : Users) (o : Op) : Users :=
  let w := s.tx.apply o
  { s with
    tx := w
    begins := if !s.tx.active && w.active then s.begins + 1 else s.begins
    leases :=
      if s.tx.streams.length < w.streams.length then s.leases ++ [⟨handBacks w.log, s.begins⟩]
      else s.leases
    sends := s.sends ++ s.sendsOf o }

/-- `c` is now as `l` says. -/
def Users.setLink (s : Users) (c : Nat) (l : Link) : Users :=
  { s with tx := { s.tx with links := Function.update s.tx.links c l } }

/-- One step of one of the users; `l` is the connection after it. -/
inductive UserEvent where
  | op (o : Op)
  | destroy
  | take (u c : Nat) (l : Link)
  | use (u c : Nat) (l : Link)
  | give (u c : Nat)

/-- The pool grants what nobody holds and nobody gave up as dead.  The transaction object
may be destroyed before its streams. -/
def usersStep (s : Users) : UserEvent → Option Users
  | .op o =>
      if s.gone = true ∧ o.stream? = none then none
      else if fresh [] (s.tx.apply o).log = true ∧
          ∀ c ∈ acquisitions (s.tx.logged o), s.taken c = none then
        some (s.apply o)
      else none
  | .destroy => if s.gone then none else some { s with tx := s.tx.destroy, gone := true }
  | .take u c l =>
      if s.taken c = none ∧ s.tx.conn ≠ some c ∧ ¬Buried c s.tx.log then
        some { s.setLink c l with taken := Function.update s.taken c (some u) }
      else none
  | .use u c l => if s.taken c = some u then some (s.setLink c l) else none
  | .give u c =>
      if s.taken c = some u then some { s with taken := Function.update s.taken c none } else none

/-- A connection has one user at a time: every statement was sent by a holder, and the
transaction object holds nothing that another user holds. -/
structure Users.OneUser (s : Users) : Prop where
  held : ∀ x ∈ s.sends, x.held = true
  alone : ∀ c u, s.taken c = some u → s.tx.conn ≠ some c

/-! ## Streams -/

/-- The stream and the connection on which `fetch` or `close` sends. -/
def borrowedSend (w : World) : Op → Option (Nat × Nat)
  | .fetch i _ =>
      match w.streams[i]? with
      | some ⟨some c, true, false, _⟩ => if (w.links c).connected then some (i, c) else none
      | _ => none
  | .closeStream i _ =>
      match w.streams[i]? with
      | some ⟨some c, true, _, _⟩ => if (w.links c).connected then some (i, c) else none
      | _ => none
  | _ => none

/-- A stream sends only in the transaction in which it was opened. -/
def InTransaction (s : Users) : UserEvent → Prop
  | .op o =>
      match borrowedSend s.tx o with
      | none => True
      | some (i, _) => s.stillOpen i = true
  | _ => True

instance (s : Users) (e : UserEvent) : Decidable (InTransaction s e) := by
  unfold InTransaction
  split
  · split <;> infer_instance
  · infer_instance

theorem borrowedSend_spec {w : World} {o : Op} {i c : Nat} (h : borrowedSend w o = some (i, c)) :
    o.stream? = some i ∧ (w.links c).connected = true ∧
      ∃ st, w.streams[i]? = some st ∧ st.conn = some c := by
  unfold borrowedSend at h
  split at h
  all_goals try cases h
  all_goals
    split at h
    · split at h
      · cases h
        exact ⟨rfl, ‹_›, _, ‹_›, rfl⟩
      · cases h
    · cases h

/-- What a stream logs when it sends through `queryVia`. -/
theorem queryVia_log (w : World) (st : Stream) (c : Nat) (sc : Script) :
    ∃ e, (w.queryVia st c sc).1.log = w.log ++ [e] ∧
      (targets [e]).filter (fun d => (w.links d).connected) =
        if (w.links c).connected then [c] else [] := by
  unfold World.queryVia
  split
  · refine ⟨_, rfl, ?_⟩
    cases h : (w.links c).connected <;> simp [targets, h]
  · refine ⟨.stale c, rfl, ?_⟩
    cases h : (w.links c).connected <;> simp [targets, h]

/-- **A stream sends where `borrowedSend` says.** -/
theorem targets_borrowed {w : World} {o : Op} {i : Nat} (ho : o.stream? = some i) :
    (targets (w.logged o)).filter (fun c => (w.links c).connected) =
      ((borrowedSend w o).map Prod.snd).toList := by
  have hnone : ∀ {w' : World}, w'.log = w.log →
      (targets (w'.log.drop w.log.length)).filter (fun c => (w.links c).connected) = [] := by
    intro w' hlog
    simp [hlog, targets]
  have hsent : ∀ (st : Stream) (c : Nat) (sc : Script),
      (targets ((w.queryVia st c sc).1.log.drop w.log.length)).filter
        (fun d => (w.links d).connected) = if (w.links c).connected then [c] else [] := by
    intro st c sc
    obtain ⟨e, hlog, htargets⟩ := queryVia_log w st c sc
    rw [hlog, List.drop_left, htargets]
  unfold World.logged
  cases o with
  | fetch j sc =>
      simp only [World.apply, World.fetch, borrowedSend]
      rcases hst : w.streams[j]? with _ | ⟨conn, active, exhausted, epoch⟩
      · exact hnone rfl
      · cases conn with
        | none => exact hnone rfl
        | some c =>
            cases active with
            | false => exact hnone rfl
            | true =>
                cases exhausted with
                | true => exact hnone rfl
                | false =>
                    refine (hsent _ c sc).trans ?_
                    dsimp only
                    split <;> rfl
  | closeStream j sc =>
      simp only [World.apply, World.closeStream, borrowedSend]
      rcases hst : w.streams[j]? with _ | ⟨conn, active, exhausted, epoch⟩
      · exact hnone rfl
      · cases active with
        | false => cases conn <;> exact hnone rfl
        | true =>
            cases conn with
            | none => exact hnone rfl
            | some c =>
                simp only [Bool.not_true, Bool.false_eq_true, if_false]
                by_cases hup : (w.links c).connected = true
                · rw [if_neg (by simp [hup]), if_pos hup]
                  refine (hsent _ c sc).trans ?_
                  rw [if_pos hup]
                  rfl
                · rw [if_pos (by simp [hup]), if_neg hup]
                  exact hnone rfl
  | _ => cases ho

/-! ## What operations do to leases -/

/-- A stream on `c` with this lease: within it, the transaction holds `c` and is the one
that opened the stream; past it, that transaction is over or `c` is buried. -/
structure LentOn (w : World) (begins c : Nat) (lease : Lease) : Prop where
  returned : lease.handBacks ≤ handBacks w.log
  begun : lease.begins ≤ begins
  kept : lease.handBacks = handBacks w.log → w.conn = some c ∧ lease.begins = begins
  active : w.active = true → lease.begins = begins →
    lease.handBacks = handBacks w.log ∨ Buried c w.log

section

variable {w w' : World}

/-- **Lease rule.**  An operation keeps the leases, if a transaction that stays active
gives its connection up only as dead. -/
theorem LentOn.step {begins c : Nat} {lease : Lease} (h : LentOn w begins c lease) (hw : Owned w)
    (hw' : Owned w') (hlog : ∃ new, w'.log = w.log ++ new)
    (hdead : w.active = true → w'.active = true → OnlyDead w w') :
    LentOn w' (if !w.active && w'.active then begins + 1 else begins) c lease := by
  obtain ⟨new, hlog⟩ := hlog
  have hscan : scan w.conn new = some w'.conn := by
    have hheld : scan none w'.log = some w'.conn := hw'.held
    rw [hlog, scan_append, show scan none w.log = some w.conn from hw.held] at hheld
    exact hheld
  have hcount : handBacks w'.log = handBacks w.log + handBacks new := by
    rw [hlog, handBacks_append]
  have hbegins : ∀ n, n = (if !w.active && w'.active then begins + 1 else begins) →
      begins ≤ n ∧ (w.active = true → n = begins) := by
    rintro n rfl
    split
    · rename_i hnew
      refine ⟨Nat.le_succ _, fun hact => ?_⟩
      simp [hact] at hnew
    · exact ⟨le_rfl, fun _ => rfl⟩
  obtain ⟨hle, hsame⟩ := hbegins _ rfl
  refine ⟨by have := h.returned; omega, h.begun.trans hle, ?_, ?_⟩
  · intro heq
    have hold := h.returned
    obtain ⟨hconn, hopen⟩ := h.kept (by omega)
    have hact : w.active = true := by
      by_contra hinactive
      rw [hw.idle (Bool.eq_false_iff.mpr hinactive)] at hconn
      cases hconn
    rw [hconn] at hscan
    rcases scan_some hscan with ⟨hlast, -⟩ | ⟨-, hpos⟩
    · exact ⟨hlast, hopen.trans (hsame hact).symm⟩
    · omega
  · intro hact' heq
    cases hact : w.active with
    | false =>
        -- a new transaction, later than the one the stream was opened in
        rw [hact, hact'] at heq
        have hbegun := h.begun
        simp at heq
        omega
    | true =>
        rw [hsame hact] at heq
        rcases h.active hact heq with hkept | hburied
        · rw [(h.kept hkept).1] at hscan
          rcases scan_some hscan with ⟨-, hzero⟩ | ⟨⟨how, hmem⟩, -⟩
          · exact Or.inl (by omega)
          · obtain ⟨new', hlog', honly⟩ := hdead hact hact'
            have hnew : new = new' := List.append_cancel_left (hlog.symm.trans hlog')
            obtain rfl : how = .markDead := honly c how (hnew ▸ hmem)
            exact Or.inr (hlog ▸ List.mem_append_right _ hmem)
        · exact Or.inr (hlog ▸ List.mem_append_left _ hburied)

theorem own_streams (h : Own w w') : w'.streams = w.streams := by
  cases h with
  | statement h =>
      cases h with
      | dropped => exact (sameStreams_markDead w).streams
      | replaced _ _ => exact (sameStreams_markDead w).streams
      | replacedBy _ _ _ _ => exact (sameStreams_markDead w).streams
      | _ => rfl
  | beginning h =>
      cases h with
      | found c _ => exact (sameStreams_markDead _).streams
      | tried c sc _ => exact (sameStreams_markDead _).streams
      | _ => rfl
  | ending h =>
      cases h with
      | retired _ => exact (sameStreams_markDead w).streams
      | returned how _ _ => exact (sameStreams_release w how).streams
      | _ => rfl

theorem endWith_active (w : World) (k : Stmt) (sc : Script) : (w.endWith k sc).active = false := by
  unfold World.endWith
  obtain ⟨how, -, heq⟩ := giveBack_cases _
  rw [heq]
  exact (sameFlags_release _ how).active

theorem commit_active (w : World) (sc scEnd : Script) : (w.commit sc scEnd).1.active = false := by
  have hback : ∀ {w : World}, w.active = false → w.giveBack.active = false := by
    intro w hact
    obtain ⟨how, -, heq⟩ := giveBack_cases w
    rw [heq]
    exact (sameFlags_release w how).active.trans hact
  unfold World.commit
  split
  · rename_i hact
    exact Bool.not_eq_true' _ ▸ hact
  · split
    · rfl
    · dsimp only
      split
      · exact hback rfl
      · split
        · exact endWith_active _ _ _
        · split
          · exact (sameFlags_markDead _).active
          · exact hback rfl

/-- Operations that end a transaction leave none. -/
theorem ended_active {o : Op} (hown : o.isInner = false) : (w.apply o).active = false := by
  cases o with
  | commit sc scEnd => exact commit_active w sc scEnd
  | rollback sc | abort sc =>
      simp only [World.apply, World.rollback]
      split
      · exact endWith_active _ _ _
      · exact Bool.eq_false_iff.mpr ‹_›
  | finish sc =>
      simp only [World.apply, World.finish]
      split
      · exact endWith_active _ _ _
      · exact (sameFlags_release _ _).active.trans (Bool.eq_false_iff.mpr ‹_›)
  | _ => cases hown

/-- A transaction that stays active gives a connection up only as dead. -/
theorem onlyDead_apply (o : Op) (hact : w.active = true) (hact' : (w.apply o).active = true) :
    OnlyDead w (w.apply o) := by
  have hrefl : OnlyDead w w := .of_same rfl
  have hstatements : ∀ {w' : World}, Statements w w' → OnlyDead w w' := fun hs =>
    keep_of_effects (P := OnlyDead w) (fun _ _ h h' => h.trans (onlyDead_statement h')) hs hrefl
  have hborrowings : ∀ {i : Nat} {w' : World}, ReflTransGen (Borrowing i) w w' → OnlyDead w w' :=
    fun hs =>
    keep_of_effects (P := OnlyDead w) (fun _ _ h h' => h.trans (onlyDead_borrowing h')) hs hrefl
  cases hinner : o.isInner with
  | false => exact absurd (hact'.symm.trans (ended_active hinner)) (by decide)
  | true =>
      cases o with
      | begin env =>
          simp only [World.apply, World.begin, hact, if_true]
          exact hrefl
      | stream sc =>
          rcases stream_cases (w := w) sc with hs | ⟨c, -, heq⟩
          · exact hstatements hs
          · simp only [World.apply, heq]
            exact (onlyDead_query w c .other sc).trans (.of_same rfl)
      | fetch i sc => exact hborrowings (borrowings_fetch i sc)
      | closeStream i sc => exact hborrowings (borrowings_closeStream i sc)
      | commit _ _ | rollback _ | abort _ | finish _ => cases hinner
      | _ => exact hstatements (statements_apply rfl)

theorem deadStay_apply (h : DeadStay w) (o : Op) : DeadStay (w.apply o) := by
  have hborrowings : ∀ {i : Nat} {w' : World}, ReflTransGen (Borrowing i) w w' → DeadStay w' :=
    fun hs =>
    keep_of_effects (P := DeadStay) (fun _ _ h' => deadStay_borrowing h') hs h
  cases hown : o.isOwn with
  | true =>
      exact keep_of_effects (P := DeadStay) (fun _ _ h' => deadStay_own h') (owns_apply hown) h
  | false =>
      cases o with
      | stream sc =>
          rcases stream_cases (w := w) sc with hs | ⟨c, -, heq⟩
          · exact keep_of_effects (P := DeadStay) (fun _ _ h' => deadStay_statement h') hs h
          · simp only [World.apply, heq]
            exact (h.query c .other sc).congr rfl rfl rfl
      | fetch i sc => exact hborrowings (borrowings_fetch i sc)
      | closeStream i sc => exact hborrowings (borrowings_closeStream i sc)
      | _ => cases hown

/-- What an operation does to the streams: nothing, one more on the connection held, or
one that keeps its connection or loses it. -/
inductive Restreamed (w w' : World) : Prop where
  | same (h : w'.streams = w.streams)
  | opened (c : Nat) (st : Stream) (hact : w.active = true) (hconn : w'.conn = some c)
      (hst : st.conn = some c) (h : w'.streams = w.streams ++ [st])
  | set (h : w'.streams.length = w.streams.length)
      (hold : ∀ (i : Nat) (st : Stream) (c : Nat), w'.streams[i]? = some st → st.conn = some c →
        ∃ st', w.streams[i]? = some st' ∧ st'.conn = some c)

theorem borrowing_restreamed {j : Nat} (hs : ReflTransGen (Borrowing j) w w') :
    Restreamed w w' := by
  suffices h : w'.streams.length = w.streams.length ∧
      ∀ (i : Nat) (st : Stream) (c : Nat), w'.streams[i]? = some st → st.conn = some c →
        ∃ st', w.streams[i]? = some st' ∧ st'.conn = some c from .set h.1 h.2
  induction hs with
  | refl => exact ⟨rfl, fun i st c hst hc => ⟨st, hst, hc⟩⟩
  | tail _ hlast ih =>
      cases hlast with
      | sent st c sc _ _ => rw [queryVia_streams]; exact ih
      | set st st' hst _ hconn =>
          refine ⟨by simpa using ih.1, ?_⟩
          intro i x c hx hc
          by_cases heq : j = i
          · subst heq
            rw [List.getElem?_set_self' , hst] at hx
            obtain rfl := Option.some.inj hx
            exact ih.2 j st c hst (hconn c hc)
          · rw [List.getElem?_set_ne heq] at hx
            exact ih.2 i x c hx hc

theorem restreamed_apply (o : Op) : Restreamed w (w.apply o) := by
  have howns : ∀ {w' : World}, ReflTransGen Own w w' → w'.streams = w.streams := fun hs =>
    keep_of_effects (P := fun w' => w'.streams = w.streams)
      (fun _ _ h h' => (own_streams h').trans h) hs rfl
  cases hown : o.isOwn with
  | true => exact .same (howns (owns_apply hown))
  | false =>
      cases o with
      | stream sc =>
          rcases stream_cases (w := w) sc with hs | ⟨c, hlive, heq⟩
          · exact .same (howns (hs.lift id fun _ _ => Own.statement))
          · simp only [World.apply, heq]
            exact .opened c _ (active_of_live hlive) (conn_of_up (up_of_live hlive)).1 rfl rfl
      | fetch i sc => exact borrowing_restreamed (borrowings_fetch i sc)
      | closeStream i sc => exact borrowing_restreamed (borrowings_closeStream i sc)
      | _ => cases hown

/-- The log of every operation is appended to. -/
theorem log_apply (w : World) (o : Op) : ∃ new, (w.apply o).log = w.log ++ new := by
  have hborrowings : ∀ {i : Nat} {w' : World}, ReflTransGen (Borrowing i) w w' →
      ∃ new, w'.log = w.log ++ new := by
    intro i w' hs
    obtain ⟨new, hlog, -⟩ := keep_of_effects (P := OnlyDead w)
      (fun _ _ h h' => h.trans (onlyDead_borrowing h')) hs (.of_same rfl)
    exact ⟨new, hlog⟩
  cases hstream : o.stream? with
  | none =>
      obtain ⟨new, hlog, -⟩ := follows_apply (w := w) hstream
      exact ⟨new, hlog⟩
  | some i =>
      cases o with
      | fetch i sc => exact hborrowings (borrowings_fetch i sc)
      | closeStream i sc => exact hborrowings (borrowings_closeStream i sc)
      | _ => cases hstream

theorem log_eq_logged (w : World) (o : Op) : (w.apply o).log = w.log ++ w.logged o := by
  obtain ⟨new, hlog⟩ := log_apply w o
  rw [logged_eq hlog, hlog]

theorem scan_logged (h : Owned w) (o : Op) : scan w.conn (w.logged o) = some (w.apply o).conn := by
  have hheld : scan none (w.apply o).log = some (w.apply o).conn := (owned_apply h o).held
  rw [log_eq_logged, scan_append, show scan none w.log = some w.conn from h.held] at hheld
  exact hheld

end

/-! ## The invariant -/

/-- What holds of the users of a pool between steps. -/
structure Users.Inv (s : Users) : Prop where
  owned : Owned s.tx
  dead : DeadStay s.tx
  granted : fresh [] s.tx.log = true
  -- the others hold neither the transaction's connection nor a buried one
  alone : ∀ c u, s.taken c = some u → s.tx.conn ≠ some c
  unburied : ∀ c u, s.taken c = some u → ¬Buried c s.tx.log
  leases : s.leases.length = s.tx.streams.length
  lent : ∀ (i : Nat) (st : Stream) (lease : Lease) (c : Nat), s.tx.streams[i]? = some st →
    s.leases[i]? = some lease → st.conn = some c → LentOn s.tx s.begins c lease

section

variable {s s' : Users}

/-- An operation leaves the leases in order, the one it may add included. -/
theorem lent_apply (h : s.Inv) (o : Op) :
    (s.apply o).leases.length = (s.apply o).tx.streams.length ∧
      ∀ (i : Nat) (st : Stream) (lease : Lease) (c : Nat), (s.apply o).tx.streams[i]? = some st →
        (s.apply o).leases[i]? = some lease → st.conn = some c →
        LentOn (s.apply o).tx (s.apply o).begins c lease := by
  have hold : ∀ (i : Nat) (st : Stream) (lease : Lease) (c : Nat), s.tx.streams[i]? = some st →
      s.leases[i]? = some lease → st.conn = some c →
      LentOn (s.apply o).tx (s.apply o).begins c lease := by
    intro i st lease c hst hlease hc
    exact (h.lent i st lease c hst hlease hc).step h.owned (owned_apply h.owned o)
      ⟨_, log_eq_logged s.tx o⟩ (onlyDead_apply o)
  have hkept : (s.tx.apply o).streams.length = s.tx.streams.length →
      (s.apply o).leases = s.leases := by
    intro hlen
    simp [Users.apply, hlen]
  cases restreamed_apply (w := s.tx) o with
  | same hst =>
      rw [hkept (by rw [hst])]
      change _ = (s.tx.apply o).streams.length ∧ ∀ i st _ _, (s.tx.apply o).streams[i]? = _ → _
      rw [hst]
      exact ⟨h.leases, hold⟩
  | set hlen hsame =>
      rw [hkept hlen]
      refine ⟨h.leases.trans hlen.symm, ?_⟩
      intro i st lease c hst hlease hc
      obtain ⟨st', hst', hc'⟩ := hsame i st c hst hc
      exact hold i st' lease c hst' hlease hc'
  | opened d st hact hconn hd hst =>
      have hleases : (s.apply o).leases =
          s.leases ++ [⟨handBacks (s.tx.apply o).log, s.begins⟩] := by
        simp [Users.apply, hst]
      have hbegins : (s.apply o).begins = s.begins := by simp [Users.apply, hact]
      change _ = (s.tx.apply o).streams.length ∧ ∀ i st _ _, (s.tx.apply o).streams[i]? = _ → _
      rw [hleases, hst]
      refine ⟨by simp [h.leases], ?_⟩
      intro i x lease c hx hlease hc
      rcases lt_trichotomy i s.tx.streams.length with hlt | heq | hgt
      · rw [List.getElem?_append_left hlt] at hx
        rw [List.getElem?_append_left (h.leases ▸ hlt)] at hlease
        exact hold i x lease c hx hlease hc
      · subst heq
        rw [List.getElem?_concat_length] at hx
        rw [← h.leases, List.getElem?_concat_length] at hlease
        obtain rfl := Option.some.inj hx
        obtain rfl := Option.some.inj hlease
        obtain rfl : d = c := Option.some.inj (hd.symm.trans hc)
        rw [hbegins]
        exact ⟨le_rfl, le_rfl, fun _ => ⟨hconn, rfl⟩, fun _ _ => Or.inl rfl⟩
      · rw [List.getElem?_eq_none (by simp; omega)] at hx
        cases hx

theorem inv_apply (h : s.Inv) {o : Op} (hfresh : fresh [] (s.tx.apply o).log = true)
    (hfree : ∀ c ∈ acquisitions (s.tx.logged o), s.taken c = none) : (s.apply o).Inv := by
  have hscan := scan_logged h.owned o
  -- what the operation held on the way was the transaction's own or free
  have hfree : ∀ c u, s.taken c = some u → s.tx.conn = some c ∨ .acquired c ∈ s.tx.logged o →
      False := by
    rintro c u htaken (hconn | hacq)
    · exact h.alone c u htaken hconn
    · rw [hfree c (mem_acquisitions.mpr hacq)] at htaken
      cases htaken
  obtain ⟨hlen, hlent⟩ := lent_apply h o
  refine ⟨owned_apply h.owned o, deadStay_apply h.dead o, hfresh, ?_, ?_, hlen, hlent⟩
  · intro c u htaken hconn
    rw [show (s.tx.apply o).conn = some c from hconn] at hscan
    exact hfree c u htaken (scan_source hscan)
  · intro c u htaken hburied
    rw [Buried, show (s.apply o).tx.log = s.tx.log ++ s.tx.logged o from log_eq_logged s.tx o]
      at hburied
    rcases List.mem_append.mp hburied with hmem | hmem
    · exact h.unburied c u htaken hmem
    · exact hfree c u htaken (scan_returned hscan hmem)

theorem inv_destroy (h : s.Inv) : ({ s with tx := s.tx.destroy, gone := true } : Users).Inv := by
  have hsame := sameFlags_markDead s.tx
  have hdead := onlyDead_markDead s.tx
  have howned : Owned s.tx.markDead := owned_markDead h.owned.held h.owned.flags
  have hburied : ∀ c, Buried c s.tx.markDead.log → Buried c s.tx.log ∨ s.tx.conn = some c := by
    intro c hmem
    unfold World.markDead at hmem
    split at hmem
    · exact Or.inl hmem
    · rename_i d hconn
      rcases List.mem_append.mp hmem with hmem | hmem
      · exact Or.inl hmem
      · rw [(Entry.handedBack.inj (List.mem_singleton.mp hmem)).1]
        exact Or.inr hconn
  refine ⟨howned, h.dead.markDead, ?_, ?_, ?_, ?_, ?_⟩
  · unfold World.destroy World.markDead
    split
    · exact h.granted
    · exact fresh_handedBack h.granted _ _
  · intro c u _ hconn
    rw [show s.tx.destroy.conn = none from markDead_conn s.tx] at hconn
    cases hconn
  · intro c u htaken hmem
    exact (hburied c hmem).elim (h.unburied c u htaken) (h.alone c u htaken)
  · exact h.leases.trans (congrArg _ (sameStreams_markDead s.tx).streams.symm)
  · intro i st lease c hst hlease hc
    have hst : s.tx.streams[i]? = some st := (sameStreams_markDead s.tx).streams ▸ hst
    have hlent := (h.lent i st lease c hst hlease hc).step h.owned howned
      (hdead.imp fun _ => And.left) fun _ _ => hdead
    rwa [hsame.active, Bool.not_and_self, if_neg (by decide)] at hlent

theorem inv_setLink (h : s.Inv) {c : Nat} (hc : ¬Buried c s.tx.log) (l : Link) :
    (s.setLink c l).Inv := by
  refine ⟨⟨h.owned.held, h.owned.idle, h.owned.flags.congr ⟨rfl, rfl, rfl, rfl⟩⟩, ?_, h.granted,
    h.alone, h.unburied, h.leases, ?_⟩
  · intro hfresh d hburied
    have hne : d ≠ c := fun heq => hc (heq ▸ hburied)
    simpa [Users.setLink, Function.update_of_ne hne] using h.dead hfresh d hburied
  · intro i st lease d hst hlease hd
    obtain ⟨hreturned, hbegun, hkept, hactive⟩ := h.lent i st lease d hst hlease hd
    exact ⟨hreturned, hbegun, hkept, hactive⟩

theorem inv_usersStep {e : UserEvent} (h : s.Inv) (hs : usersStep s e = some s') : s'.Inv := by
  cases e with
  | op o =>
      simp only [usersStep] at hs
      split at hs
      · cases hs
      · split at hs
        · rename_i hgrant
          obtain rfl := Option.some.inj hs
          exact inv_apply h hgrant.1 hgrant.2
        · cases hs
  | destroy =>
      simp only [usersStep] at hs
      split at hs
      · cases hs
      · obtain rfl := Option.some.inj hs
        exact inv_destroy h
  | take u c l =>
      simp only [usersStep] at hs
      split at hs
      · rename_i hfree
        obtain ⟨hnone, hconn, hburied⟩ := hfree
        obtain rfl := Option.some.inj hs
        have hset := inv_setLink h hburied l
        have hnew : ∀ d v, Function.update s.taken c (some u) d = some v →
            d = c ∨ s.taken d = some v := by
          intro d v hd
          by_cases heq : d = c
          · exact Or.inl heq
          · rw [Function.update_of_ne heq] at hd
            exact Or.inr hd
        refine ⟨hset.owned, hset.dead, hset.granted, ?_, ?_, hset.leases, hset.lent⟩
        · intro d v hd
          exact (hnew d v hd).elim (fun heq => heq ▸ hconn) (h.alone d v)
        · intro d v hd
          exact (hnew d v hd).elim (fun heq => heq ▸ hburied) (h.unburied d v)
      · cases hs
  | use u c l =>
      simp only [usersStep] at hs
      split at hs
      · obtain rfl := Option.some.inj hs
        exact inv_setLink h (h.unburied c u ‹_›) l
      · cases hs
  | give u c =>
      simp only [usersStep] at hs
      split at hs
      · obtain rfl := Option.some.inj hs
        have hold : ∀ d v, Function.update s.taken c none d = some v → s.taken d = some v := by
          intro d v hd
          by_cases heq : d = c
          · rw [heq, Function.update_self] at hd
            cases hd
          · rwa [Function.update_of_ne heq] at hd
        refine ⟨h.owned, h.dead, h.granted, ?_, ?_, h.leases, h.lent⟩
        · intro d v hd
          exact h.alone d v (hold d v hd)
        · intro d v hd
          exact h.unburied d v (hold d v hd)
      · cases hs

theorem inv_usersInit (emulate : Bool) (attempts : Nat) (links : Nat → Link) :
    (Users.init emulate attempts links).Inv :=
  ⟨owned_init emulate attempts links, nofun, rfl, nofun, nofun, rfl, nofun⟩

/-! ## One user at a time -/

/-- **A stream that sends is within its lease exactly if the transaction that opened it is
still active.**  Between the two lies the connection a retry gave up in emulated mode,
which is closed. -/
theorem stillLent_iff (h : s.Inv) {o : Op} {i c : Nat} (hsend : borrowedSend s.tx o = some (i, c)) :
    s.stillLent i = true ↔ s.stillOpen i = true := by
  obtain ⟨-, hup, st, hst, hc⟩ := borrowedSend_spec hsend
  have hlt : i < s.leases.length := by
    rw [h.leases]
    exact (List.getElem?_eq_some_iff.mp hst).1
  have hlease : s.leases[i]? = some s.leases[i] := List.getElem?_eq_getElem hlt
  have hlent := h.lent i st _ c hst hlease hc
  simp only [Users.stillLent, Users.stillOpen, hlease, beq_iff_eq, Bool.and_eq_true]
  constructor
  · intro hkept
    obtain ⟨hconn, hbegins⟩ := hlent.kept hkept
    refine ⟨?_, hbegins⟩
    by_contra hact
    rw [h.owned.idle (Bool.eq_false_iff.mpr hact)] at hconn
    cases hconn
  · rintro ⟨hact, hbegins⟩
    rcases hlent.active hact hbegins with hkept | hburied
    · exact hkept
    · rw [(h.dead h.granted c hburied).1] at hup
      cases hup

/-- What an operation sends is sent by a holder exactly if a stream sends only in its
transaction. -/
theorem sendsOf_held_iff (h : s.Inv) (o : Op) :
    (∀ x ∈ s.sendsOf o, x.held = true) ↔ InTransaction s (.op o) := by
  unfold Users.sendsOf InTransaction
  cases hstream : o.stream? with
  | none =>
      have hnone : borrowedSend s.tx o = none := by
        cases o <;> first | rfl | cases hstream
      obtain ⟨new, hlog, -, hheld⟩ := follows_apply (w := s.tx) hstream
      simp only [hnone, logged_eq hlog, iff_true]
      exact hheld
  | some i =>
      dsimp only
      rw [targets_borrowed hstream]
      cases hsend : borrowedSend s.tx o with
      | none => simp
      | some ic =>
          obtain ⟨j, c⟩ := ic
          obtain ⟨hj, -⟩ := borrowedSend_spec hsend
          obtain rfl : i = j := Option.some.inj (hstream.symm.trans hj)
          simpa using stillLent_iff h hsend

/-- **Step rule.**  A step adds only statements of holders exactly if a stream sends only
in its transaction. -/
theorem held_usersStep {e : UserEvent} (h : s.Inv) (hs : usersStep s e = some s') :
    (∀ x ∈ s'.sends, x.held = true) ↔ (∀ x ∈ s.sends, x.held = true) ∧ InTransaction s e := by
  cases e with
  | op o =>
      simp only [usersStep] at hs
      split at hs
      · cases hs
      · split at hs
        · obtain rfl := Option.some.inj hs
          rw [← sendsOf_held_iff h o]
          simp only [Users.apply, List.mem_append, or_imp, forall_and]
        · cases hs
  | destroy | take _ _ _ | use _ _ _ | give _ _ =>
      simp only [usersStep] at hs
      split at hs
      · cases hs <;> simp [InTransaction, Users.setLink]
      · cases hs <;> simp [InTransaction]

end

/-- **One user at a time.**  Whatever a transaction object, its borrowed streams and the
other users of its pool do, with any outcome of every step: every statement was sent by
whoever held the connection, and nobody else held it, exactly if each stream was made to
send only in the transaction that opened it. -/
theorem oneUser_iff (emulate : Bool) (attempts : Nat) (links : Nat → Link) (es : List UserEvent)
    (s : Users) (h : exec usersStep (Users.init emulate attempts links) es = some s) :
    s.OneUser ↔ Guarded usersStep InTransaction (Users.init emulate attempts links) es := by
  have hinit := inv_usersInit emulate attempts links
  have hinv : s.Inv := exec_invariant Users.Inv (fun _ _ _ => inv_usersStep) hinit h
  have hheld := exec_iff_guarded (fun _ _ _ => inv_usersStep) (fun _ _ _ => held_usersStep) hinit h
  constructor
  · intro hone
    exact (hheld.mp hone.held).2
  · intro hguard
    exact ⟨hheld.mpr ⟨nofun, hguard⟩, hinv.alone⟩

/-- Begin on connection 0 and open a stream. -/
def openStream : List UserEvent :=
  [.op (.begin fun _ => ⟨some (0, true), .commandDone, true⟩), .op (.stream .commandDone)]

/-- The stream is read and closed, the transaction commits, and user 1 gets the
connection. -/
def lentRun : List UserEvent :=
  openStream ++ [.op (.fetch 0 .commandDone), .op (.closeStream 0 .commandDone),
    .op (.commit .commandDone .commandDone), .take 1 0 idleLink, .use 1 0 idleLink, .give 1 0]

theorem oneUser_iff_lentRun :
    ∃ s, exec usersStep (Users.init false 3 fun _ => idleLink) lentRun = some s ∧
      s.sends.length = 5 ∧ s.OneUser := by
  have hrun : (exec usersStep (Users.init false 3 fun _ => idleLink) lentRun).any
      (fun s => decide (s.sends.length = 5)) = true := by decide +kernel
  obtain ⟨s, hs, hlen⟩ := (Option.any_eq_true ..).mp hrun
  have hguard : Guarded usersStep InTransaction (Users.init false 3 fun _ => idleLink) lentRun := by
    decide +kernel
  exact ⟨s, hs, of_decide_eq_true hlen, (oneUser_iff false 3 _ lentRun s hs).mpr hguard⟩

/-- The transaction commits while its stream is open, user 1 gets the connection, and the
stream is read on. -/
def strayRun : List UserEvent :=
  openStream ++
    [.op (.commit .commandDone .commandDone), .take 1 0 idleLink, .op (.fetch 0 .commandDone)]

/-- **A stray FETCH.**  `commit()` returns the connection although a stream is open on it;
the stream then sends FETCH on a connection that another user holds. -/
theorem stray_fetch :
    ∃ s, exec usersStep (Users.init false 3 fun _ => idleLink) strayRun = some s ∧
      s.taken 0 = some 1 ∧ ⟨0, false⟩ ∈ s.sends ∧ ¬s.OneUser := by
  have hrun : (exec usersStep (Users.init false 3 fun _ => idleLink) strayRun).any
      (fun s => decide (s.taken 0 = some 1 ∧ ⟨0, false⟩ ∈ s.sends)) = true := by decide +kernel
  obtain ⟨s, hs, hcond⟩ := (Option.any_eq_true ..).mp hrun
  obtain ⟨htaken, hsent⟩ := of_decide_eq_true hcond
  refine ⟨s, hs, htaken, hsent, ?_⟩
  intro hone
  exact absurd (hone.held _ hsent) (by decide)

end Upq.Transaction
