/-
  Notify/ChannelQueue.lean --- the queue of one channel and its handler runs.

  Source: `Delivery`, `ChannelQueue`, `dispatch`, `take_ready_locked`, `start` and
  `run_handler` in `include/upq/PgNotificationMultiplexer.h`.

  A section under `ChannelQueue::mtx` is one step: the end of `dispatch`, and the end of
  `run_handler`.  Both leave deliveries in the `ready` of the worker that took them;
  `start` spawns their runs one by one after the lock is released, so every spawn is a
  step of its own and workers interleave.  A handler that throws is caught, and its run
  goes on to the same section as one that returns.

  A counter of runs never reaches 2^64, since every run has its frame in memory; the
  decrement at 0 would wrap, and does so here.
-/
import Mathlib.Data.List.Perm.Basic
import Upq.Notify.Multiplexer

set_option autoImplicit false

namespace Upq.Notify

open Upq.Foundation

/-! ## The queue -/

/-- A `Delivery`; `seq` is its place among all notifications that reached
`dispatch`. -/
structure Delivery where
  n : Notification
  handlers : List Nat
  seq : Nat
  deriving DecidableEq, Repr

/-- A call of `run_handler`: the `pos`-th handler of the delivery `seq`. -/
structure Run where
  seq : Nat
  pos : Nat
  handler : Nat
  deriving DecidableEq, Repr

/-- The runs `start` spawns for a delivery, in this order. -/
def Delivery.runs (d : Delivery) : List Run := d.handlers.mapIdx fun pos h => ⟨d.seq, pos, h⟩

/-- `ChannelQueue` -/
structure ChannelQueue where
  limit : Nat
  running : Nat
  waiting : List Delivery
  deriving DecidableEq, Repr

/-- The loop of `take_ready_locked` over `waiting`: what is ready, what still waits, and
`running`. -/
def takeLoop (limit : Nat) : List Delivery → Nat → List Delivery × List Delivery × Nat
  | [], running => ([], [], running)
  | d :: rest, running =>
      if limit = 0 ∨ running < limit then
        match takeLoop limit rest (running + d.handlers.length) with
        | (ready, waiting, running) => (d :: ready, waiting, running)
      else ([], d :: rest, running)

/-- `take_ready_locked` -/
def ChannelQueue.takeReadyLocked (q : ChannelQueue) : List Delivery × ChannelQueue :=
  match takeLoop q.limit q.waiting q.running with
  | (ready, waiting, running) => (ready, { q with waiting, running })

/-- `--running` of a `size_t` -/
def sizePred (n : Nat) : Nat := if n = 0 then 2 ^ 64 - 1 else n - 1

/-- What `take_ready_locked` takes is the front of the queue; it charges one slot for
each handler, and stops only when no slot is free. -/
theorem takeLoop_spec (limit : Nat) (waiting : List Delivery) (running : Nat) :
    (takeLoop limit waiting running).1 ++ (takeLoop limit waiting running).2.1 = waiting ∧
      (takeLoop limit waiting running).2.2 =
        running + ((takeLoop limit waiting running).1.flatMap Delivery.runs).length ∧
      ((takeLoop limit waiting running).2.1 ≠ [] →
        0 < limit ∧ limit ≤ (takeLoop limit waiting running).2.2) := by
  induction waiting generalizing running with
  | nil => simp [takeLoop]
  | cons d rest ih =>
      unfold takeLoop
      split
      · obtain ⟨hsplit, hrunning, hfull⟩ := ih (running + d.handlers.length)
        refine ⟨congrArg (d :: ·) hsplit, ?_, hfull⟩
        simp only [hrunning, List.flatMap_cons, List.length_append, Delivery.runs,
          List.length_mapIdx]
        omega
      · rename_i hfull
        refine ⟨rfl, by simp, fun _ => ?_⟩
        change 0 < limit ∧ limit ≤ running
        omega

/-- With one slot, a delivery is taken only when no run is left, and then alone. -/
theorem takeLoop_one (waiting : List Delivery) (running : Nat)
    (hne : ∀ d ∈ waiting, d.handlers ≠ []) :
    (takeLoop 1 waiting running).1 = [] ∨
      (running = 0 ∧ ∃ d, (takeLoop 1 waiting running).1 = [d]) := by
  cases waiting with
  | nil => exact .inl rfl
  | cons d rest =>
      unfold takeLoop
      split
      · rename_i hfree
        have hlen : 0 < d.handlers.length := List.length_pos_iff.mpr (hne d List.mem_cons_self)
        have hstop : (takeLoop 1 rest (running + d.handlers.length)).1 = [] := by
          cases rest with
          | nil => rfl
          | cons d' rest =>
              unfold takeLoop
              rw [if_neg (by omega)]
        refine .inr ⟨by omega, d, ?_⟩
        simp only [hstop]
      · exact .inl rfl

/-! ## The machine -/

/-- A queue with its runs: `starting` holds, for each section that took deliveries, the
runs its worker has still to spawn; `active` the runs spawned and not finished.  `arrived`,
`out`, `started` and `finished` remember what came, what left `waiting`, and the runs
spawned and finished, in order. -/
structure QueueState where
  q : ChannelQueue
  starting : List (List Run)
  active : List Run
  arrived : List Delivery
  out : List Delivery
  started : List Run
  finished : List Run
  deriving DecidableEq, Repr

/-- A queue as constructed. -/
def QueueState.init (limit : Nat) : QueueState :=
  { q := ⟨limit, 0, []⟩, starting := [], active := [], arrived := [], out := [], started := []
    finished := [] }

/-- `take_ready_locked` at the end of a section, whose worker goes on to `start`. -/
def QueueState.take (s : QueueState) : QueueState :=
  match s.q.takeReadyLocked with
  | (ready, q) =>
      { s with
        q, out := s.out ++ ready, starting := s.starting ++ [ready.flatMap Delivery.runs] }

/-- `waiting.push_back` -/
def QueueState.push (s : QueueState) (d : Delivery) : QueueState :=
  { s with q := { s.q with waiting := s.q.waiting ++ [d] }, arrived := s.arrived ++ [d] }

/-- A run has ended and its slot is free. -/
def QueueState.complete (s : QueueState) (r : Run) : QueueState :=
  { s with
    q := { s.q with running := sizePred s.q.running }
    active := s.active.erase r, finished := s.finished ++ [r] }

/-- The `j`-th worker spawns its next run `r`. -/
def QueueState.spawn (s : QueueState) (j : Nat) (r : Run) (rest : List Run) : QueueState :=
  { s with
    starting := s.starting.set j rest, active := s.active ++ [r], started := s.started ++ [r] }

inductive QueueEvent where
  | dispatch (d : Delivery)
  | spawn (j : Nat)
  | finish (r : Run) (threw : Bool)
  deriving DecidableEq, Repr

/-- One step.  `dispatch` is called with at least one handler, and deliveries come in the
order of their `seq`. -/
def queueStep (s : QueueState) : QueueEvent → Option QueueState
  | .dispatch d =>
      if d.handlers ≠ [] ∧ ∀ x ∈ s.arrived, x.seq < d.seq then some (s.push d).take else none
  | .spawn j =>
      match s.starting[j]? with
      | some (r :: rest) => some (s.spawn j r rest)
      | _ => none
  | .finish r _ => if r ∈ s.active then some (s.complete r).take else none

/-- What a step can be. -/
inductive QueueStepped (s : QueueState) : QueueEvent → QueueState → Prop where
  | dispatch (d : Delivery) (hne : d.handlers ≠ []) (hseq : ∀ x ∈ s.arrived, x.seq < d.seq) :
      QueueStepped s (.dispatch d) (s.push d).take
  | spawn (j : Nat) (r : Run) (rest : List Run) (hj : s.starting[j]? = some (r :: rest)) :
      QueueStepped s (.spawn j) (s.spawn j r rest)
  | finish (r : Run) (threw : Bool) (hr : r ∈ s.active) :
      QueueStepped s (.finish r threw) (s.complete r).take

theorem queueStep_stepped {s t : QueueState} {e : QueueEvent} (h : queueStep s e = some t) :
    QueueStepped s e t := by
  cases e with
  | dispatch d =>
      simp only [queueStep, Option.ite_none_right_eq_some, Option.some.injEq] at h
      exact h.2 ▸ .dispatch d h.1.1 h.1.2
  | spawn j =>
      simp only [queueStep] at h
      split at h
      · rename_i r rest hj
        cases h
        exact .spawn j r rest hj
      · cases h
  | finish r threw =>
      simp only [queueStep, Option.ite_none_right_eq_some, Option.some.injEq] at h
      exact h.2 ▸ .finish r threw h.1

/-! ## The invariant -/

/-- The runs taken out of the queue that some worker has still to spawn. -/
def QueueState.unspawned (s : QueueState) : List Run := s.starting.flatten

/-- What holds between the two halves of a section as well. -/
structure InOrder (s : QueueState) : Prop where
  order : s.out ++ s.q.waiting = s.arrived
  seqs : s.arrived.Pairwise fun a b => a.seq < b.seq
  handlers : ∀ d ∈ s.q.waiting, d.handlers ≠ []
  started : (s.started ++ s.unspawned).Perm (s.out.flatMap Delivery.runs)
  finished : s.started.Perm (s.finished ++ s.active)
  running : s.q.running = s.unspawned.length + s.active.length
  single : s.q.limit = 1 → ∀ r ∈ s.unspawned ++ s.active, ∃ d, s.out.getLast? = some d ∧ r ∈ d.runs

/-- What holds whenever the lock is free: a delivery waits only when no slot is free. -/
structure Flowing (s : QueueState) : Prop extends InOrder s where
  noStall : s.q.waiting ≠ [] → 0 < s.q.limit ∧ s.q.limit ≤ s.q.running

theorem seq_of_mem_runs {d : Delivery} {r : Run} (h : r ∈ d.runs) : r.seq = d.seq := by
  obtain ⟨i, hi, rfl⟩ := List.mem_mapIdx.mp h
  rfl

/-- The end of a section. -/
theorem flowing_take {s : QueueState} (h : InOrder s) : Flowing s.take := by
  obtain ⟨hsplit, hrunning, hfull⟩ := takeLoop_spec s.q.limit s.q.waiting s.q.running
  have hone := takeLoop_one s.q.waiting s.q.running h.handlers
  unfold QueueState.take ChannelQueue.takeReadyLocked
  cases hloop : takeLoop s.q.limit s.q.waiting s.q.running with
  | mk ready rest =>
      obtain ⟨waiting, running⟩ := rest
      rw [hloop] at hsplit hrunning hfull
      dsimp only at hsplit hrunning hfull ⊢
      have hunspawned : (s.starting ++ [ready.flatMap Delivery.runs]).flatten =
          s.unspawned ++ ready.flatMap Delivery.runs := by
        simp [QueueState.unspawned]
      refine ⟨⟨?_, h.seqs, ?_, ?_, h.finished, ?_, ?_⟩, hfull⟩
      · rw [List.append_assoc, hsplit]
        exact h.order
      · intro d hd
        exact h.handlers d (hsplit ▸ List.mem_append_right ready hd)
      · simp only [QueueState.unspawned, hunspawned, List.flatMap_append, ← List.append_assoc]
        exact h.started.append_right _
      · simp only [QueueState.unspawned, hunspawned, hrunning, h.running, List.length_append]
        omega
      · intro hlimit r hr
        change s.q.limit = 1 at hlimit
        rw [← hlimit, hloop] at hone
        change r ∈ (s.starting ++ [ready.flatMap Delivery.runs]).flatten ++ s.active at hr
        rw [hunspawned] at hr
        rcases hone with hnone | ⟨hzero, d, hready⟩
        · dsimp only at hnone
          subst hnone
          simp only [List.flatMap_nil, List.append_nil] at hr ⊢
          exact h.single hlimit r hr
        · -- no run was left, so every run there is belongs to the delivery taken
          dsimp only at hready
          subst hready
          have hidle : s.unspawned = [] ∧ s.active = [] := by
            rw [← List.length_eq_zero_iff, ← List.length_eq_zero_iff]
            have := h.running
            omega
          refine ⟨d, by simp, ?_⟩
          simpa only [hidle.1, hidle.2, List.flatMap_singleton, List.nil_append, List.append_nil]
            using hr

theorem inOrder_push {s : QueueState} (h : InOrder s) {d : Delivery} (hne : d.handlers ≠ [])
    (hseq : ∀ x ∈ s.arrived, x.seq < d.seq) : InOrder (s.push d) where
  order := by
    change s.out ++ (s.q.waiting ++ [d]) = s.arrived ++ [d]
    rw [← List.append_assoc, h.order]
  seqs := by
    refine List.pairwise_append.mpr ⟨h.seqs, List.pairwise_singleton _ _, ?_⟩
    intro x hx y hy
    rw [List.mem_singleton.mp hy]
    exact hseq x hx
  handlers := by
    intro x hx
    rcases List.mem_append.mp hx with hold | hnew
    · exact h.handlers x hold
    · rw [List.mem_singleton.mp hnew]
      exact hne
  started := h.started
  finished := h.finished
  running := h.running
  single := h.single

theorem inOrder_complete {s : QueueState} (h : InOrder s) {r : Run} (hr : r ∈ s.active) :
    InOrder (s.complete r) where
  order := h.order
  seqs := h.seqs
  handlers := h.handlers
  started := h.started
  finished := by
    have hmove : (r :: s.active.erase r).Perm s.active := (List.perm_cons_erase hr).symm
    change s.started.Perm ((s.finished ++ [r]) ++ s.active.erase r)
    rw [List.append_assoc]
    exact h.finished.trans (hmove.symm.append_left s.finished)
  running := by
    have hlen : (s.active.erase r).length = s.active.length - 1 := List.length_erase_of_mem hr
    have hpos : 0 < s.active.length := List.length_pos_of_mem hr
    have hrun := h.running
    change sizePred s.q.running = s.unspawned.length + (s.active.erase r).length
    rw [sizePred, if_neg (by omega)]
    omega
  single := by
    intro hlimit x hx
    refine h.single hlimit x ?_
    rcases List.mem_append.mp hx with hin | hin
    · exact List.mem_append_left _ hin
    · exact List.mem_append_right _ (List.mem_of_mem_erase hin)

/-- A spawn moves the head of one worker's list. -/
theorem unspawned_perm {s : QueueState} {j : Nat} {r : Run} {rest : List Run}
    (hj : s.starting[j]? = some (r :: rest)) :
    s.unspawned.Perm (r :: (s.starting.set j rest).flatten) := by
  obtain ⟨hlt, hget⟩ := List.getElem?_eq_some_iff.mp hj
  have hset : s.starting.set j rest = s.starting.take j ++ rest :: s.starting.drop (j + 1) :=
    List.set_eq_take_append_cons_drop.trans (if_pos hlt)
  have hsplit : s.starting = s.starting.take j ++ (r :: rest) :: s.starting.drop (j + 1) := by
    rw [← hget, ← List.drop_eq_getElem_cons hlt, List.take_append_drop]
  rw [QueueState.unspawned, hset]
  nth_rewrite 1 [hsplit]
  simp only [List.flatten_append, List.flatten_cons, List.cons_append]
  exact List.perm_middle

theorem flowing_spawn {s : QueueState} (h : Flowing s) {j : Nat} {r : Run} {rest : List Run}
    (hj : s.starting[j]? = some (r :: rest)) : Flowing (s.spawn j r rest) := by
  have hperm := unspawned_perm hj
  have hlen := hperm.length_eq
  refine ⟨⟨h.order, h.seqs, h.handlers, ?_, ?_, ?_, ?_⟩, h.noStall⟩
  · change ((s.started ++ [r]) ++ (s.starting.set j rest).flatten).Perm _
    rw [List.append_assoc]
    exact (hperm.symm.append_left s.started).trans h.started
  · change (s.started ++ [r]).Perm (s.finished ++ (s.active ++ [r]))
    rw [← List.append_assoc]
    exact h.finished.append_right [r]
  · change s.q.running = (s.starting.set j rest).flatten.length + (s.active ++ [r]).length
    rw [h.running, hlen, List.length_cons, List.length_append, List.length_singleton]
    omega
  · intro hlimit x hx
    refine h.single hlimit x ?_
    change x ∈ (s.starting.set j rest).flatten ++ (s.active ++ [r]) at hx
    simp only [List.mem_append, hperm.mem_iff, List.mem_cons] at hx ⊢
    tauto

/-- **Step rule.** -/
theorem flowing_step {s t : QueueState} {e : QueueEvent} (h : Flowing s)
    (hstep : queueStep s e = some t) : Flowing t := by
  cases queueStep_stepped hstep with
  | dispatch d hne hseq => exact flowing_take (inOrder_push h.toInOrder hne hseq)
  | spawn j r rest hj => exact flowing_spawn h hj
  | finish r _ hr => exact flowing_take (inOrder_complete h.toInOrder hr)

theorem flowing_init (limit : Nat) : Flowing (QueueState.init limit) where
  order := rfl
  seqs := List.Pairwise.nil
  handlers := nofun
  started := List.Perm.nil
  finished := List.Perm.nil
  running := rfl
  single := nofun
  noStall := fun h => absurd rfl h

/-! ## Nothing is lost, duplicated or stalled -/

/-- No run occurs twice among the runs of deliveries in the order they came. -/
theorem nodup_runs {ds : List Delivery} (h : ds.Pairwise fun a b => a.seq < b.seq) :
    (ds.flatMap Delivery.runs).Nodup := by
  refine List.nodup_flatMap.mpr ⟨fun d _ => ?_, h.imp fun {a b} hlt => ?_⟩
  · refine List.nodup_iff_getElem?_ne_getElem?.mpr fun i j hij hj heq => ?_
    have hi := hij.trans hj
    rw [List.getElem?_eq_getElem hi, List.getElem?_eq_getElem hj, Option.some.injEq] at heq
    simp only [Delivery.runs, List.getElem_mapIdx, Run.mk.injEq] at heq
    omega
  · intro r ha hb
    have := seq_of_mem_runs ha
    have := seq_of_mem_runs hb
    omega

/-- What is asked of a queue of limit `limit`: deliveries leave in the order they came,
each once; the runs of those that left are spawned once each, or about to be; `running`
counts the runs taken out and not finished, and a run that ends finds it above 0; a
delivery waits only when every slot is taken; and with one slot, all runs taken out and
not finished belong to the delivery taken last. -/
structure Delivered (limit : Nat) (s : QueueState) : Prop where
  order : s.out ++ s.q.waiting = s.arrived
  once : (s.started ++ s.unspawned).Nodup
  every : ∀ r, r ∈ s.started ++ s.unspawned ↔ ∃ d ∈ s.out, r ∈ d.runs
  running : s.q.running + s.finished.length = (s.out.flatMap Delivery.runs).length
  noUnderflow : ∀ r ∈ s.active, 0 < s.q.running
  noStall : s.q.waiting ≠ [] → 0 < limit ∧ limit ≤ s.q.running
  single : limit = 1 → ∀ r ∈ s.unspawned ++ s.active, ∃ d, s.out.getLast? = some d ∧ r ∈ d.runs

/-- No step changes the limit. -/
theorem queueStep_limit {s t : QueueState} {e : QueueEvent} (h : queueStep s e = some t) :
    t.q.limit = s.q.limit := by
  have htake : ∀ s : QueueState, s.take.q.limit = s.q.limit := fun _ => rfl
  cases queueStep_stepped h with
  | dispatch d _ _ => exact htake (s.push d)
  | spawn j r rest _ => rfl
  | finish r _ _ => exact htake (s.complete r)

theorem Flowing.delivered {s : QueueState} (h : Flowing s) : Delivered s.q.limit s where
  order := h.order
  once := by
    refine h.started.nodup_iff.mpr (nodup_runs ?_)
    exact (List.pairwise_append.mp (h.order ▸ h.seqs)).1
  every := by
    intro r
    rw [h.started.mem_iff, List.mem_flatMap]
  running := by
    have hstarted := h.started.length_eq
    have hfinished := h.finished.length_eq
    rw [List.length_append] at hstarted hfinished
    have hrunning := h.running
    omega
  noUnderflow := by
    intro r hr
    have hpos := List.length_pos_of_mem hr
    have hrunning := h.running
    omega
  noStall := h.noStall
  single := h.single

/-- **A channel queue loses, repeats and stalls nothing**, whatever its limit and however
arrivals, spawns and ends of runs interleave. -/
theorem delivered_exec (limit : Nat) (es : List QueueEvent) (s : QueueState)
    (h : exec queueStep (QueueState.init limit) es = some s) : Delivered limit s := by
  have hinv : Flowing s ∧ s.q.limit = limit := by
    refine exec_invariant (fun s => Flowing s ∧ s.q.limit = limit) ?_ ⟨flowing_init limit, rfl⟩ h
    intro s e t hs hstep
    exact ⟨flowing_step hs.1 hstep, (queueStep_limit hstep).trans hs.2⟩
  exact hinv.2 ▸ hinv.1.delivered

/-- Two notifications for two handlers each, over one slot: the second waits until both
runs of the first have ended, one of them by throwing. -/
def burst : List QueueEvent :=
  let first : Delivery := ⟨⟨"a", "1", 7⟩, [3, 5], 0⟩
  let second : Delivery := ⟨⟨"a", "2", 7⟩, [3, 5], 1⟩
  [.dispatch first, .spawn 0, .dispatch second, .spawn 0, .finish ⟨0, 0, 3⟩ true,
    .finish ⟨0, 1, 5⟩ false, .spawn 3]

theorem delivered_exec_burst :
    ∃ s, exec queueStep (QueueState.init 1) burst = some s ∧ s.active = [⟨1, 0, 3⟩] ∧
      Delivered 1 s := by
  have hrun : (exec queueStep (QueueState.init 1) burst).any (fun s =>
      decide (s.active = [⟨1, 0, 3⟩])) = true := by decide +kernel
  obtain ⟨s, hs, hactive⟩ := (Option.any_eq_true ..).mp hrun
  exact ⟨s, hs, of_decide_eq_true hactive, delivered_exec 1 burst s hs⟩

end Upq.Notify
