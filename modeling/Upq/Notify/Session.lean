/-
  Notify/Session.lean --- the session and the statement sent last.

  `Sync` relates whether somebody waits for a reply to what libpq and the server still
  have to do.  It is kept by the server, the network, and every read and send of the
  client, and it says what a read comes to (`collect_eq`).  `Conn.target` is what the
  session will listen to once it has executed what was sent.
-/
import Upq.Notify.Multiplexer

set_option autoImplicit false

namespace Upq.Notify

open Upq.Libpq

/-! ## The statement sent last -/

/-- What the session listens to once it has executed what was sent. -/
def Conn.target (c : Conn) : Finset String :=
  match c.pending with
  | none => c.listens
  | some st => st.apply c.listens

/-- Whether a reply is waited for, against libpq and the messages to come. -/
inductive Sync (c : Conn) : Bool → Prop where
  | idle (hasync : c.pq.async = .idle) (hbuf : c.pq.inbuf = []) (hpending : c.pending = none)
      (hrest : controls c.sock ++ c.owed = []) : Sync c false
  | sent (hasync : c.pq.async = .busy) (hbuf : c.pq.inbuf = []) (hpending : c.pending ≠ none)
      (hrest : controls c.sock ++ c.owed = []) : Sync c true
  | answered (hasync : c.pq.async = .busy) (hbuf : c.pq.inbuf = []) (hpending : c.pending = none)
      (hrest : controls c.sock ++ c.owed = [.complete, .ready] ∨
        controls c.sock ++ c.owed = [.ready]) :
      Sync c true

theorem sync_fresh : Sync (Conn.fresh true) false := .idle rfl rfl rfl rfl

/-- The connection after a statement was sent. -/
def Conn.sent (c : Conn) (st : Statement) : Conn :=
  { c with pending := some st, pq := { c.pq with async := .busy } }

theorem send_true {c c' : Conn} {st : Statement} {sendOk : Bool}
    (h : c.send st sendOk = (true, c')) :
    c' = c.sent st := by
  unfold Conn.send at h
  split at h
  · exact (Prod.mk.inj h).2.symm
  · cases h

theorem send_false {c c' : Conn} {st : Statement} {sendOk : Bool}
    (h : c.send st sendOk = (false, c')) : c'.alive = false := by
  unfold Conn.send at h
  split at h
  · cases h
  · exact (Prod.mk.inj h).2 ▸ rfl

theorem Sync.send {c : Conn} (h : Sync c false) (st : Statement) : Sync (c.sent st) true := by
  cases h with
  | idle _ hbuf _ hrest => exact .sent rfl hbuf nofun hrest

theorem Sync.target {c : Conn} (h : Sync c false) : c.target = c.listens := by
  cases h with
  | idle _ _ hpending _ => rw [Conn.target, hpending]

theorem mem_apply {st : Statement} {listens : Finset String} {ch : String} :
    ch ∈ st.apply listens ↔ if ch = st.channel then st.listen = true else ch ∈ listens := by
  unfold Statement.apply
  by_cases hch : ch = st.channel <;> cases st.listen <;> simp [hch]

theorem Sync.mem_target_sent {c : Conn} (h : Sync c false) (st : Statement) (ch : String) :
    ch ∈ (c.sent st).target ↔ if ch = st.channel then st.listen = true else ch ∈ c.target := by
  rw [h.target]
  exact mem_apply

theorem Sync.mem_target_listen {c : Conn} (h : Sync c false) (channel ch : String) :
    ch ∈ (c.sent ⟨true, channel⟩).target ↔ ch = channel ∨ ch ∈ c.target := by
  rw [h.mem_target_sent]
  by_cases hch : ch = channel <;> simp [hch]

/-- What has arrived of a reply that is waited for. -/
theorem Sync.replyPart {c : Conn} (h : Sync c true) : ReplyPart (controls c.sock) := by
  cases h with
  | sent _ _ _ hrest =>
      rw [(List.append_eq_nil_iff.mp hrest).1]
      exact .none
  | answered _ _ _ hrest =>
      generalize controls c.sock = cs at hrest
      match cs with
      | [] => exact .none
      | [m] => rcases hrest with h | h <;> simp at h <;> rcases h with ⟨rfl, -⟩ <;> constructor
      | [m, m'] => rcases hrest with h | h <;> simp at h; rcases h with ⟨rfl, rfl, -⟩; constructor
      | m :: m' :: m'' :: cs => rcases hrest with h | h <;> simp at h

/-- The connection after everything was read and the results were collected: whether a
reply is still waited for, and what is queued in libpq. -/
def Conn.drained (c : Conn) (out : Bool) (notes : List Notification) : Conn :=
  { c with
    sock := [], taken := c.taken ++ notesOf c.sock
    pq := ⟨if out then .busy else .idle, [], notes⟩ }

theorem Sync.drained {c : Conn} (h : Sync c true) (notes : List Notification) :
    Sync (c.drained (!ends (controls c.sock)) notes) (!ends (controls c.sock)) := by
  have hpart := h.replyPart
  cases h with
  | sent _ _ hpending hrest =>
      obtain ⟨hsock, howed⟩ := List.append_eq_nil_iff.mp hrest
      rw [hsock]
      exact .sent rfl rfl hpending howed
  | answered _ _ hpending hrest =>
      generalize controls c.sock = cs at hrest hpart
      cases hpart with
      | none => exact .answered rfl rfl hpending hrest
      | first => exact .answered rfl rfl hpending (Or.inr (by simpa [Conn.drained] using hrest))
      | whole => exact .idle rfl rfl hpending (by simpa [Conn.drained] using hrest)
      | last => exact .idle rfl rfl hpending (by simpa [Conn.drained] using hrest)

theorem Sync.read_pq {c : Conn} {out : Bool} (h : Sync c out) :
    c.read.pq = ⟨if out then .busy else .idle, c.sock, c.pq.notes⟩ := by
  cases h with
  | idle hasync hbuf => simp [Conn.read, Pq.consumeInput, hasync, hbuf]
  | sent hasync hbuf => simp [Conn.read, Pq.consumeInput, hasync, hbuf]
  | answered hasync hbuf => simp [Conn.read, Pq.consumeInput, hasync, hbuf]

theorem Sync.inbuf {c : Conn} {out : Bool} (h : Sync c out) : c.pq.inbuf = [] := by
  cases h <;> assumption

theorem drained_eq (c : Conn) (fin : Bool) (notes : List Notification) :
    { c.read with pq := ⟨if fin then .idle else .busy, [], notes⟩ } = c.drained (!fin) notes := by
  cases fin <;> rfl

theorem collect_eq {c : Conn} (h : Sync c true) :
    c.collect = (ends (controls c.sock),
      c.drained (!ends (controls c.sock)) (c.pq.notes ++ notesOf c.sock)) := by
  rw [Conn.collect, h.read_pq, if_pos rfl, resultLoop_reply h.replyPart, ← drained_eq]

theorem Sync.collect {c c' : Conn} {fin : Bool} (h : Sync c true) (hc : c.collect = (fin, c')) :
    Sync c' (!fin) := by
  rw [collect_eq h] at hc
  obtain ⟨rfl, rfl⟩ := Prod.mk.inj hc
  exact h.drained _

theorem collect_same {c c' : Conn} {fin : Bool} (hc : c.collect = (fin, c')) :
    c'.alive = c.alive ∧ c'.up = c.up ∧ c'.target = c.target := by
  rw [← (Prod.mk.inj hc).2]
  exact ⟨rfl, rfl, rfl⟩

/-- `Sync` reads the connection through these. -/
theorem Sync.congr {c c' : Conn} {out : Bool} (h : Sync c out) (hpq : c'.pq = c.pq)
    (hpending : c'.pending = c.pending)
    (hrest : controls c'.sock ++ c'.owed = controls c.sock ++ c.owed) : Sync c' out := by
  cases h with
  | idle hasync hbuf hnone hr =>
      exact .idle (hpq ▸ hasync) (hpq ▸ hbuf) (hpending ▸ hnone) (hrest ▸ hr)
  | sent hasync hbuf hsome hr =>
      exact .sent (hpq ▸ hasync) (hpq ▸ hbuf) (hpending ▸ hsome) (hrest ▸ hr)
  | answered hasync hbuf hnone hr =>
      exact .answered (hpq ▸ hasync) (hpq ▸ hbuf) (hpending ▸ hnone) (hrest ▸ hr)

/-- What is owed is a part of a reply. -/
theorem Sync.controls_owed {c : Conn} {out : Bool} (h : Sync c out) {m : Msg Notification}
    (hm : m ∈ c.owed) : controls [m] = [m] := by
  have hmem : m ∈ controls c.sock ++ c.owed := List.mem_append_right _ hm
  have hcases : m = .complete ∨ m = .ready := by
    cases h with
    | idle _ _ _ hrest => simp [hrest] at hmem
    | sent _ _ _ hrest => simp [hrest] at hmem
    | answered _ _ _ hrest =>
        rcases hrest with hrest | hrest
        · simpa [hrest] using hmem
        · exact Or.inr (by simpa [hrest] using hmem)
  rcases hcases with rfl | rfl <;> rfl

/-- The server executes the statement that was sent. -/
theorem Sync.execute {c : Conn} {out : Bool} (h : Sync c out) {st : Statement}
    (hst : c.pending = some st) :
    Sync { c with
      listens := st.apply c.listens, pending := none, owed := [.complete, .ready] } out := by
  cases h with
  | idle _ _ hnone _ => cases hst.symm.trans hnone
  | answered _ _ hnone _ => cases hst.symm.trans hnone
  | sent hasync hbuf _ hrest =>
      refine .answered hasync hbuf rfl (Or.inl ?_)
      dsimp only
      rw [(List.append_eq_nil_iff.mp hrest).1]
      rfl

/-- What the server and the network do keeps `Sync` and the target. -/
theorem connStep_sync {c c' : Conn} {e : Event} (h : connStep c e = some c')
    (halive : c'.alive = true) :
    c.alive = true ∧ c'.up = c.up ∧ c'.target = c.target ∧ ∀ out, Sync c out → Sync c' out := by
  cases e with
  | execute =>
      cases hst : c.pending with
      | none => simp [connStep, hst] at h
      | some st =>
          simp only [connStep, hst, Option.ite_none_right_eq_some, Option.some.injEq] at h
          obtain ⟨hc, rfl⟩ := h
          exact ⟨hc, rfl, by simp [Conn.target, hst], fun out hsync => hsync.execute hst⟩
  | reply =>
      cases howed : c.owed with
      | nil => simp [connStep, howed] at h
      | cons m owed =>
          simp only [connStep, howed, Option.some.injEq] at h
          subst h
          refine ⟨halive, rfl, rfl, fun out hsync => hsync.congr rfl rfl ?_⟩
          have hm := hsync.controls_owed (m := m) (by simp [howed])
          simp [hm, howed]
  | notify n =>
      simp only [connStep, Option.some.injEq] at h
      subst h
      exact ⟨halive, rfl, rfl, fun out hsync => hsync.congr rfl rfl (by simp)⟩
  | lose noticed =>
      simp only [connStep, Option.some.injEq] at h
      subst h
      cases halive
  | _ => cases h

end Upq.Notify
