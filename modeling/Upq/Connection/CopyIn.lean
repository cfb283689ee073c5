/-
  Connection/CopyIn.lean --- which bytes a COPY IN queues for the server.

  Source: `copy_in_send_chunk`, `copy_in_finish` and `copy_from_buffer` in
  `src/upq/PgConnection.cpp`; `copy_from` in `include/upq/PgConnection.h`.

  `copy_in_send_chunk` hands libpq the length as `static_cast<int>(len)`, and libpq queues
  no byte for a negative one.  A chunk is therefore sent whole exactly when its length is
  below 2^31, however often libpq has no room for it; above that bytes are lost in a call
  that reports ok (`copyIn_sends_all_iff`).
-/
import Upq.Connection.Copy

set_option autoImplicit false

namespace Upq

/-! ## Chunks -/

theorem toInt_of_lt {n : Nat} (h : n < 2 ^ 31) : toInt n = n := by
  unfold toInt
  exact Int.bmod_eq_of_le_mul_two (by omega) (by omega)

theorem toInt_lt (n : Nat) : toInt n < 2 ^ 31 := by
  unfold toInt
  have := Int.bmod_lt (x := n) (m := 2 ^ 32) (by decide)
  omega

/-- What libpq queues of a chunk. -/
def queuedBytes (data : List Char) : List Char := data.take (toInt data.length).toNat

theorem queuedBytes_eq_iff (data : List Char) : queuedBytes data = data ↔ data.length < 2 ^ 31 := by
  have hlt := toInt_lt data.length
  rw [queuedBytes, List.take_eq_self_iff]
  constructor
  · intro h
    omega
  · intro h
    rw [toInt_of_lt h]
    exact Nat.le_refl _

theorem length_queuedBytes_le (data : List Char) : (queuedBytes data).length ≤ data.length :=
  List.length_take_le' _ _

/-- The chunks that were queued are the chunks only if each of them is. -/
theorem flatten_queuedBytes_eq_iff (chunks : List (List Char)) :
    (chunks.map queuedBytes).flatten = chunks.flatten ↔
      ∀ chunk ∈ chunks, chunk.length < 2 ^ 31 := by
  have hle : ∀ cs : List (List Char), (cs.map queuedBytes).flatten.length ≤ cs.flatten.length := by
    intro cs
    induction cs with
    | nil => exact Nat.le_refl _
    | cons c cs ih =>
        have := length_queuedBytes_le c
        simp only [List.map_cons, List.flatten_cons, List.length_append]
        omega
  induction chunks with
  | nil => simp
  | cons c cs ih =>
      rw [List.map_cons, List.flatten_cons, List.flatten_cons, List.forall_mem_cons,
        ← queuedBytes_eq_iff]
      refine Iff.trans ?_ (and_congr_right fun _ => ih)
      constructor
      · intro h
        have hsum := congrArg List.length h
        have hc := length_queuedBytes_le c
        have hcs := hle cs
        simp only [List.length_append] at hsum
        exact List.append_inj h (by omega)
      · rintro ⟨hc, hcs⟩
        rw [hc, hcs]

/-! ## Calls that report ok -/

theorem putLoop_some {put : Put} {l l' : Link} {failure : PgCopyResult}
    (h : putLoop l put = (l', some failure)) : failure.ok = false := by
  induction put with
  | queued => cases h
  | refused msg => cases h; rfl
  | full flush rest ih =>
      cases flush with
      | done => exact ih h
      | failed timedOut msg => cases h; rfl

/-- A chunk that was sent was queued once, whatever was tried before. -/
theorem copyInSendChunk_ok {put : Put} {data : List Char} {l l' : Link} {new : List Char}
    {r : PgCopyResult} (h : copyInSendChunk put data l = (l', new, r)) (hok : r.ok = true) :
    new = queuedBytes data := by
  unfold copyInSendChunk at h
  split at h
  · cases h
    cases hok
  · split at h
    · rename_i hput
      cases h
      exact absurd hok (by rw [putLoop_some hput]; decide)
    · simp only [Prod.mk.injEq] at h
      exact h.2.1.symm

/-- `copy_from_buffer` -/
theorem copyFromBuffer_ok {data : List Char} {start : CopyStart} {put : Put} {fin : CopyFinish}
    {l : Link} {r : PgCopyResult} (h : (copyFromBuffer data start put fin l).ended = .returned r)
    (hok : r.ok = true) : (copyFromBuffer data start put fin l).sent = queuedBytes data := by
  unfold copyFromBuffer at h ⊢
  rcases hstart : copyInStart start l with ⟨l', started⟩
  simp only [hstart] at h ⊢
  cases hs : started.ok with
  | false =>
      simp only [hs, Bool.not_false, if_true] at h
      cases h
      exact absurd hok (by rw [hs]; decide)
  | true =>
      simp only [hs, Bool.not_true, Bool.false_eq_true, if_false] at h ⊢
      cases data with
      | nil => rfl
      | cons first more =>
          simp only [List.length_cons, Nat.add_one_ne_zero, beq_iff_eq, if_false] at h ⊢
          rcases hsend : copyInSendChunk put (first :: more) l' with ⟨l'', new, sent⟩
          simp only [hsend] at h ⊢
          cases hsent : sent.ok with
          | false =>
              simp only [hsent, Bool.false_eq_true, if_false] at h
              cases h
              exact absurd hok (by rw [hsent]; decide)
          | true =>
              simp only [if_true]
              exact copyInSendChunk_ok hsend hsent

/-! ## A server that takes everything -/

/-- The server accepts the COPY. -/
def copyInStarts : CopyStart :=
  { sendOk := true, sendError := "", io := .done, reply := .copying .copyIn }

/-- The server acknowledges the end of the data. -/
def copyInEnds : CopyFinish :=
  { put := .queued, io := .done, results := fun _ => [.command 1], complete := true
    after := .idle }

theorem copyInFinish_copyInEnds {l : Link} (hl : l.connected = true) :
    (copyInFinish none copyInEnds l).2.ok = true := by
  rw [copyInFinish, hl]
  rfl

theorem copyInSendChunk_queued {l : Link} (hl : l.connected = true) (data : List Char) :
    copyInSendChunk .queued data l = (l, queuedBytes data, { ok := true, code := .ok }) := by
  rw [copyInSendChunk, hl, queuedBytes]
  rfl

theorem copyFromBuffer_queued (data : List Char) :
    ∃ r, (copyFromBuffer data copyInStarts .queued copyInEnds idleLink).ended = .returned r ∧
      r.ok = true := by
  have hstart : copyInStart copyInStarts idleLink =
      ({ idleLink with busy := true }, { ok := true, code := .ok }) := rfl
  have hfinish := copyInFinish_copyInEnds (l := { idleLink with busy := true }) rfl
  unfold copyFromBuffer
  simp only [hstart]
  cases data with
  | nil => exact ⟨_, rfl, hfinish⟩
  | cons first more =>
      simp only [copyInSendChunk_queued (l := { idleLink with busy := true }) rfl, if_true]
      exact ⟨_, rfl, hfinish⟩

/-! ## Sources -/

section

variable {σ : Type}

/-- The source returns these chunks, none of them empty, and then an empty one. -/
def Supplies (source : Source σ) : σ → List (List Char) → Prop
  | st, [] => ∃ st', source st = (st', some [])
  | st, chunk :: chunks =>
      ∃ st', source st = (st', some chunk) ∧ chunk ≠ [] ∧ Supplies source st' chunks

theorem copyFromLoop_end {source : Source σ} {st st' : σ} (h : source st = (st', some []))
    (fin : CopyFinish) (l : Link) (sent : List Char) (puts : List Put) :
    copyFromLoop source fin st l sent puts =
      some ⟨st', (copyInFinish none fin l).1, sent, .returned (copyInFinish none fin l).2⟩ := by
  unfold copyFromLoop
  simp only [h]

theorem copyFromLoop_chunk {source : Source σ} {st st' : σ} {chunk : List Char}
    (h : source st = (st', some chunk)) (hne : chunk ≠ []) (fin : CopyFinish) (l : Link)
    (sent : List Char) (put : Put) (puts : List Put) :
    copyFromLoop source fin st l sent (put :: puts) =
      match copyInSendChunk put chunk l with
      | (l, new, r) =>
          if r.ok then copyFromLoop source fin st' l (sent ++ new) puts
          else
            some ⟨st', (copyInFinish (some "aborted: send chunk failed") fin l).1, sent ++ new,
              .returned r⟩ := by
  obtain ⟨first, more, rfl⟩ := List.exists_cons_of_ne_nil hne
  conv_lhs => unfold copyFromLoop
  simp only [h]

theorem copyFromLoop_ok {source : Source σ} {fin : CopyFinish} {chunks : List (List Char)}
    {puts : List Put} {st : σ} {l : Link} {sent : List Char} {run : CopyRun σ} {r : PgCopyResult}
    (hsupplies : Supplies source st chunks)
    (h : copyFromLoop source fin st l sent puts = some run) (hended : run.ended = .returned r)
    (hok : r.ok = true) : run.sent = sent ++ (chunks.map queuedBytes).flatten := by
  induction chunks generalizing st l sent puts with
  | nil =>
      obtain ⟨st', hsource⟩ := hsupplies
      rw [copyFromLoop_end hsource] at h
      cases h
      simp
  | cons chunk chunks ih =>
      obtain ⟨st', hsource, hne, hrest⟩ := hsupplies
      cases puts with
      | nil =>
          obtain ⟨first, more, rfl⟩ := List.exists_cons_of_ne_nil hne
          unfold copyFromLoop at h
          simp only [hsource] at h
          cases h
      | cons put puts =>
          rw [copyFromLoop_chunk hsource hne] at h
          rcases hsend : copyInSendChunk put chunk l with ⟨l', new, sent'⟩
          simp only [hsend] at h
          cases hsent : sent'.ok with
          | false =>
              simp only [hsent, Bool.false_eq_true, if_false] at h
              cases h
              cases hended
              exact absurd hok (by rw [hsent]; decide)
          | true =>
              simp only [hsent, if_true] at h
              rw [ih hrest h, copyInSendChunk_ok hsend hsent]
              simp

theorem copyFromLoop_queued {source : Source σ} {chunks : List (List Char)} {st : σ} {l : Link}
    (hl : l.connected = true) (hsupplies : Supplies source st chunks) (sent : List Char) :
    ∃ run r, copyFromLoop source copyInEnds st l sent (chunks.map fun _ => .queued) = some run ∧
      run.ended = .returned r ∧ r.ok = true := by
  induction chunks generalizing st sent with
  | nil =>
      obtain ⟨st', hsource⟩ := hsupplies
      rw [copyFromLoop_end hsource]
      exact ⟨_, _, rfl, rfl, copyInFinish_copyInEnds hl⟩
  | cons chunk chunks ih =>
      obtain ⟨st', hsource, hne, hrest⟩ := hsupplies
      rw [List.map_cons, copyFromLoop_chunk hsource hne, copyInSendChunk_queued hl]
      exact ih hrest _

/-- `copy_from` -/
theorem copyFrom_ok {source : Source σ} {chunks : List (List Char)} {st : σ} {start : CopyStart}
    {puts : List Put} {fin : CopyFinish} {l : Link} {run : CopyRun σ} {r : PgCopyResult}
    (hsupplies : Supplies source st chunks) (h : copyFrom source st start puts fin l = some run)
    (hended : run.ended = .returned r) (hok : r.ok = true) :
    run.sent = (chunks.map queuedBytes).flatten := by
  unfold copyFrom at h
  split at h
  split at h
  · rename_i hstart
    cases h
    cases hended
    simp [hok] at hstart
  · exact copyFromLoop_ok hsupplies h hended hok

theorem copyFrom_queued {source : Source σ} {chunks : List (List Char)} {st : σ}
    (hsupplies : Supplies source st chunks) :
    ∃ run r, copyFrom source st copyInStarts (chunks.map fun _ => .queued) copyInEnds idleLink =
        some run ∧ run.ended = .returned r ∧ r.ok = true :=
  copyFromLoop_queued (l := { idleLink with busy := true }) rfl hsupplies []

end

/-- **When a COPY IN sends every byte.**  A call of `copy_from_buffer` that reports ok has
queued the buffer, for all it meets, if and only if the buffer is shorter than 2^31; a call
of `copy_from` that reports ok has queued the concatenation of what its source supplied, for
all it meets, if and only if every chunk is. -/
theorem copyIn_sends_all_iff {σ : Type} (data : List Char) (source : Source σ) (st : σ)
    (chunks : List (List Char)) (hsupplies : Supplies source st chunks) :
    ((∀ start put fin l r, (copyFromBuffer data start put fin l).ended = .returned r →
        r.ok = true → (copyFromBuffer data start put fin l).sent = data) ↔
      data.length < 2 ^ 31) ∧
    ((∀ start puts fin l run r, copyFrom source st start puts fin l = some run →
        run.ended = .returned r → r.ok = true → run.sent = chunks.flatten) ↔
      ∀ chunk ∈ chunks, chunk.length < 2 ^ 31) := by
  rw [← queuedBytes_eq_iff, ← flatten_queuedBytes_eq_iff]
  refine ⟨⟨fun hall => ?_, fun hdata start put fin l r hended hok => ?_⟩,
    fun hall => ?_, fun hchunks start puts fin l run r hrun hended hok => ?_⟩
  · obtain ⟨r, hended, hok⟩ := copyFromBuffer_queued data
    rw [← copyFromBuffer_ok hended hok]
    exact hall _ _ _ _ r hended hok
  · rw [copyFromBuffer_ok hended hok, hdata]
  · obtain ⟨run, r, hrun, hended, hok⟩ := copyFrom_queued hsupplies
    rw [← copyFrom_ok hsupplies hrun hended hok]
    exact hall _ _ _ _ run r hrun hended hok
  · rw [copyFrom_ok hsupplies hrun hended hok, hchunks]

/-- The source of one chunk. -/
def oneChunk (chunk : List Char) : Source Bool
  | true => (false, some chunk)
  | false => (false, some [])

/-- A short buffer and a short chunk arrive. -/
theorem copyIn_sends_all_iff_short :
    (∀ start put fin l r, (copyFromBuffer ['a', 'b'] start put fin l).ended = .returned r →
        r.ok = true → (copyFromBuffer ['a', 'b'] start put fin l).sent = ['a', 'b']) ∧
      ∀ start puts fin l run r, copyFrom (oneChunk ['c']) true start puts fin l = some run →
        run.ended = .returned r → r.ok = true → run.sent = ['c'] := by
  have hboth := copyIn_sends_all_iff ['a', 'b'] (oneChunk ['c']) true [['c']]
    ⟨false, rfl, by decide, false, rfl⟩
  exact ⟨hboth.1.mpr (by decide), hboth.2.mpr (by decide)⟩

/-- Of a buffer of 2^31 bytes nothing is queued, and the call reports ok. -/
theorem buffer_lost :
    ∃ r, (copyFromBuffer (List.replicate (2 ^ 31) 'a') copyInStarts .queued copyInEnds
        idleLink).ended = .returned r ∧ r.ok = true ∧
      (copyFromBuffer (List.replicate (2 ^ 31) 'a') copyInStarts .queued copyInEnds
        idleLink).sent = [] ∧
      ¬∀ (data : List Char) start put fin l r,
        (copyFromBuffer data start put fin l).ended = .returned r → r.ok = true →
          (copyFromBuffer data start put fin l).sent = data := by
  obtain ⟨r, hended, hok⟩ := copyFromBuffer_queued (List.replicate (2 ^ 31) 'a')
  have hsent : queuedBytes (List.replicate (2 ^ 31) 'a') = [] := by
    have hneg : (toInt (2 ^ 31)).toNat = 0 := by decide
    rw [queuedBytes, List.length_replicate, hneg, List.take_zero]
  have hlost := (copyFromBuffer_ok hended hok).trans hsent
  refine ⟨r, hended, hok, hlost, fun hall => ?_⟩
  have heq := hlost.symm.trans (hall _ _ _ _ _ r hended hok)
  have hlen := congrArg List.length heq
  rw [List.length_replicate] at hlen
  exact absurd hlen (by decide)

end Upq
