/-
  Notify/StartOrder.lean --- in which order the handler runs of a channel start.

  Source: `dispatch`, `take_ready_locked`, `start` and `run_handler` in
  `include/upq/PgNotificationMultiplexer.h`; `docs/notification-multiplexer.md`,
  Backpressure.

  Deliveries leave their queue in order, but their runs are spawned after the queue's
  lock is released.  They start in order as long as no section takes deliveries behind
  the back of a worker that has runs to spawn, and the channel keeps its queue while the
  queue is in use: then the runs spawned, pending in the queue and on their way to it
  form one line (`Channels.lineOf`), which grows at its end only.
-/
import Upq.Notify.Backpressure

set_option autoImplicit false

namespace Upq.Notify

open Upq.Foundation

/-! ## One queue -/

/-- The runs of a queue that are not spawned yet, in the order they should be. -/
def QueueState.pending (qs : QueueState) : List Run :=
  qs.unspawned ++ qs.q.waiting.flatMap Delivery.runs

/-- At most one worker has runs to spawn. -/
def Sequential (qs : QueueState) : Prop :=
  ∃ k, ∀ (j : Nat) b, qs.starting[j]? = some b → j ≠ k → b = []

/-- The section takes nothing, or no worker has runs to spawn. -/
def QueueState.Calm (qs : QueueState) : Prop :=
  qs.unspawned = [] ∨ qs.q.takeReadyLocked.1 = []

instance (qs : QueueState) : Decidable qs.Calm := inferInstanceAs (Decidable (_ ∨ _))

theorem take_starting (qs : QueueState) :
    qs.take.starting = qs.starting ++ [qs.q.takeReadyLocked.1.flatMap Delivery.runs] := rfl

theorem pending_take (qs : QueueState) : qs.take.pending = qs.pending := by
  have hsplit := (takeLoop_spec qs.q.limit qs.q.waiting qs.q.running).1
  have hready : qs.q.takeReadyLocked.1 ++ qs.take.q.waiting = qs.q.waiting := hsplit
  unfold QueueState.pending QueueState.unspawned
  rw [take_starting, List.flatten_append, List.flatten_singleton, List.append_assoc,
    ← List.flatMap_append, hready]

theorem sequential_take {qs : QueueState} (h : Sequential qs) (hcalm : qs.Calm) :
    Sequential qs.take := by
  rcases hcalm with hempty | hnothing
  · -- the new list is the only one that can hold a run
    refine ⟨qs.starting.length, fun j b hj hne => ?_⟩
    rw [take_starting, List.getElem?_append] at hj
    split at hj
    · exact List.flatten_eq_nil_iff.mp hempty b (List.mem_of_getElem? hj)
    · rename_i hge
      rw [List.getElem?_eq_none (by simp; omega)] at hj
      cases hj
  · obtain ⟨k, hk⟩ := h
    refine ⟨k, fun j b hj hne => ?_⟩
    rw [take_starting, hnothing, List.getElem?_append] at hj
    split at hj
    · exact hk j b hj hne
    · exact List.mem_singleton.mp (List.mem_of_getElem? hj)

theorem pending_push (qs : QueueState) (d : Delivery) :
    (qs.push d).pending = qs.pending ++ d.runs := by
  simp [QueueState.pending, QueueState.push, QueueState.unspawned]

/-- With one worker at work, a spawn takes the first run that is pending. -/
theorem pending_spawn {qs : QueueState} (h : Sequential qs) {j : Nat} {r : Run} {rest : List Run}
    (hj : qs.starting[j]? = some (r :: rest)) :
    qs.pending = r :: (qs.spawn j r rest).pending ∧ Sequential (qs.spawn j r rest) := by
  obtain ⟨k, hk⟩ := h
  have hjk : j = k := by
    by_contra hne
    cases hk j _ hj hne
  subst hjk
  have hlt := (List.getElem?_eq_some_iff.mp hj).1
  have hset : ∀ (i : Nat) b, (qs.starting.set j rest)[i]? = some b → i ≠ j → b = [] := by
    intro i b hi hne
    rw [List.getElem?_set_ne (Ne.symm hne)] at hi
    exact hk i b hi hne
  have hbefore : qs.unspawned = r :: rest := by
    have := flatMap_eq_of_unique (f := id) hk
    rw [List.flatMap_id, hj] at this
    exact this
  have hafter : (qs.spawn j r rest).unspawned = rest := by
    have := flatMap_eq_of_unique (f := id) hset
    rw [List.flatMap_id, List.getElem?_set_self hlt] at this
    exact this
  refine ⟨?_, j, hset⟩
  unfold QueueState.pending
  rw [hbefore, hafter]
  rfl

theorem pending_of_done {qs : QueueState} (h : qs.Done) (hflow : Flowing qs) : qs.pending = [] := by
  simp [QueueState.pending, (h.runs hflow).1, h.2]

/-! ## The line of a channel -/

namespace Channels

/-- The runs of a channel spawned so far. -/
def spawnedOf (s : Channels) (channel : String) : List Run :=
  (s.spawned.filter fun p => p.1 == channel).map (·.2)

/-- The runs pending in the channel's queue. -/
def pendingOf (s : Channels) (channel : String) : List Run :=
  ((s.slots channel).bind fun i => s.queues[i]?).elim [] fun q => q.2.pending

/-- The runs of the delivery on its way to the channel's queue. -/
def arrivingOf (s : Channels) (channel : String) : List Run :=
  s.dispatching.elim [] fun p => if p.2.n.channel = channel then p.2.runs else []

/-- Every run of a channel, in the order it was or should be spawned. -/
def lineOf (s : Channels) (channel : String) : List Run :=
  s.spawnedOf channel ++ s.pendingOf channel ++ s.arrivingOf channel

end Channels

section

variable {s : Channels}

theorem pendingOf_eq {i : Nat} {channel : String} {qs : QueueState}
    (hcur : s.slots channel = some i) (hi : s.queues[i]? = some (channel, qs)) :
    s.pendingOf channel = qs.pending := by
  simp [Channels.pendingOf, hcur, hi]

theorem pendingOf_retire (h : Wired s) {e : Event} (hquiet : QuietDrops s e) {mux : State}
    (hstep : step s.mux e = some mux) (channel : String) :
    (s.retire mux).pendingOf channel = s.pendingOf channel := by
  by_cases hdrop : channel ∈ s.mux.exact ∧ channel ∉ mux.exact
  · have hslot : (s.retire mux).slots channel = none := if_pos hdrop
    have hleft : (s.retire mux).pendingOf channel = [] := by simp [Channels.pendingOf, hslot]
    rw [hleft]
    cases hcur : s.slots channel with
    | none => simp [Channels.pendingOf, hcur]
    | some i =>
        -- what is dropped is idle
        obtain ⟨qs, hi⟩ := h.slot channel i hcur
        have hidle := hquiet channel (mem_dropped hstep hdrop.1 hdrop.2)
        rw [hcur] at hidle
        have hdone := (idleAt_iff.mp hidle).1 channel qs hi
        rw [pendingOf_eq hcur hi]
        exact (pending_of_done hdone (h.queue i channel qs hi).flowing).symm
  · have hslot : (s.retire mux).slots channel = s.slots channel := if_neg hdrop
    unfold Channels.pendingOf
    rw [hslot]
    rfl

theorem pendingOf_channelStateLocked (h : Wired s) (channel c : String) :
    (s.channelStateLocked channel).1.pendingOf c = s.pendingOf c := by
  unfold Channels.channelStateLocked
  split
  · rfl
  · rename_i hnone
    by_cases heq : c = channel
    · subst heq
      simp [Channels.pendingOf, hnone, QueueState.pending, QueueState.unspawned, QueueState.init]
    · simp only [Channels.pendingOf, Function.update_of_ne heq]
      cases hcur : s.slots c with
      | none => rfl
      | some i =>
          obtain ⟨qs, hi⟩ := h.slot c i hcur
          simp only [Option.bind_some, hi]
          rw [List.getElem?_append_left (List.getElem?_eq_some_iff.mp hi).1, hi]

/-- A step of the queue of `channel` changes what is pending there and nowhere else. -/
theorem pendingOf_setQueue (h : Wired s) {i : Nat} {channel : String} {qs : QueueState}
    (hcur : s.slots channel = some i) (hi : s.queues[i]? = some (channel, qs)) (qs' : QueueState)
    (c : String) :
    (s.setQueue i channel qs').pendingOf c =
      if c = channel then qs'.pending else s.pendingOf c := by
  have hlt := (List.getElem?_eq_some_iff.mp hi).1
  unfold Channels.pendingOf Channels.setQueue
  split
  · rename_i heq
    subst heq
    simp only [hcur, Option.bind_some, List.getElem?_set_self hlt]
    rfl
  · rename_i hne
    cases hc : s.slots c with
    | none => rfl
    | some j =>
        obtain ⟨q, hq⟩ := h.slot c j hc
        have hij : i ≠ j := by
          rintro rfl
          rw [hi] at hq
          cases hq
          exact hne rfl
        simp only [Option.bind_some, List.getElem?_set_ne hij]

end

/-! ## Runs -/

/-- No queue is dropped while it is in use, and no section takes deliveries out of a queue
while a worker has runs of that queue to spawn. -/
def InTurn (s : Channels) : ChannelEvent → Prop
  | .mux e => QuietDrops s e
  | .enqueue =>
      ∀ p ∈ s.dispatching, ∀ q ∈ s.queues[p.1]?, (q.2.push p.2).Calm
  | .spawn _ _ => True
  | .finish i r _ => ∀ q ∈ s.queues[i]?, (q.2.complete r).Calm

instance (s : Channels) (e : ChannelEvent) : Decidable (InTurn s e) :=
  match e with
  | .mux _ => inferInstanceAs (Decidable (QuietDrops _ _))
  | .enqueue => inferInstanceAs (Decidable (∀ _ ∈ _, ∀ _ ∈ _, _))
  | .spawn _ _ => isTrue trivial
  | .finish _ _ _ => inferInstanceAs (Decidable (∀ _ ∈ _, _))

/-- The invariant behind the order. -/
structure Lined (s : Channels) : Prop where
  wired : Wired s
  workers : ∀ (i : Nat) channel qs, s.queues[i]? = some (channel, qs) → Sequential qs
  sorted : ∀ channel, (s.lineOf channel).Pairwise fun a b => a.seq ≤ b.seq
  counted : ∀ channel, ∀ r ∈ s.lineOf channel, r.seq < s.count

theorem sequential_init (limit : Nat) : Sequential (QueueState.init limit) := ⟨0, nofun⟩

theorem lined_init (capacity : Nat) (up : Bool) : Lined (Channels.init capacity up) :=
  ⟨wired_init capacity up, nofun, fun _ => List.Pairwise.nil, fun _ => nofun⟩

/-- A step that keeps every line. -/
theorem Lined.keep {s t : Channels} (h : Lined s) (hwired : Wired t)
    (hworkers : ∀ (i : Nat) channel qs, t.queues[i]? = some (channel, qs) → Sequential qs)
    (hline : ∀ channel, t.lineOf channel = s.lineOf channel) (hcount : s.count ≤ t.count) :
    Lined t := by
  refine ⟨hwired, hworkers, fun channel => ?_, fun channel r hr => ?_⟩
  · rw [hline]
    exact h.sorted channel
  · rw [hline] at hr
    exact (h.counted channel r hr).trans_le hcount

theorem lined_retire {s : Channels} (h : Lined s) {e : Event} (hquiet : QuietDrops s e)
    {mux : State} (hstep : step s.mux e = some mux) : Lined (s.retire mux) := by
  refine h.keep (wired_retire h.wired hquiet hstep) h.workers (fun channel => ?_) le_rfl
  unfold Channels.lineOf
  rw [pendingOf_retire h.wired hquiet hstep]
  rfl

theorem lined_channelStateLocked {s : Channels} (h : Lined s) (channel : String) :
    Lined (s.channelStateLocked channel).1 := by
  obtain ⟨hdisp, hcount, hspawned, -⟩ := channelStateLocked_same s channel
  refine h.keep (wired_channelStateLocked h.wired channel) ?_ (fun c => ?_) hcount.ge
  · intro i c qs hi
    rcases mem_channelStateLocked hi with rfl | hold
    · exact sequential_init _
    · exact h.workers i c qs hold
  · unfold Channels.lineOf
    rw [pendingOf_channelStateLocked h.wired, Channels.spawnedOf, Channels.arrivingOf, hdisp,
      hspawned]
    rfl

/-- A notification that arrives goes to the end of its channel's line. -/
theorem lined_arrive {s : Channels} (h : Lined s) (n : Notification)
    (hfree : s.dispatching = none) :
    Lined (s.arrive n) := by
  have hwired := wired_arrive h.wired n hfree
  unfold Channels.arrive at hwired ⊢
  dsimp only at hwired ⊢
  split
  · rename_i hnone
    rw [if_pos hnone] at hwired
    exact h.keep hwired h.workers (fun _ => rfl) (Nat.le_succ _)
  · rename_i hsome
    rw [if_neg hsome] at hwired
    have hlined := lined_channelStateLocked h n.channel
    obtain ⟨hdisp, hcount, -, -⟩ := channelStateLocked_same s n.channel
    generalize s.channelStateLocked n.channel = p at hwired hlined hdisp hcount ⊢
    obtain ⟨s', i⟩ := p
    dsimp only at hwired hlined hdisp hcount ⊢
    have hline : ∀ c, s'.lineOf c = s'.spawnedOf c ++ s'.pendingOf c := by
      intro c
      simp [Channels.lineOf, Channels.arrivingOf, hdisp, hfree]
    have hold := fun c => hline c ▸ hlined.counted c
    have hsorted := fun c => hline c ▸ hlined.sorted c
    have hnew : ∀ c, ∀ r ∈ (if n.channel = c then
        (⟨n, s.mux.resolve n.channel, s'.count⟩ : Delivery).runs else []), r.seq = s'.count := by
      intro c r hr
      split at hr
      · exact seq_of_mem_runs hr
      · cases hr
    refine ⟨hwired, hlined.workers, fun c => ?_, fun c r hr => ?_⟩
    · refine List.pairwise_append.mpr ⟨hsorted c, ?_, ?_⟩
      · refine List.pairwise_of_forall_mem_list fun a ha b hb => ?_
        exact ((hnew c a ha).trans (hnew c b hb).symm).le
      · intro a ha b hb
        exact (hold c a ha).le.trans (hnew c b hb).ge
    · rcases List.mem_append.mp hr with hin | hin
      · exact (hold c r hin).trans (Nat.lt_succ_self _)
      · exact (hnew c r hin).trans_lt (Nat.lt_succ_self _)

theorem lined_step {s t : Channels} {e : ChannelEvent} (h : Lined s) (hguard : InTurn s e)
    (hstep : channelStep s e = some t) : Lined t := by
  have hwired : Wired t := by
    refine wired_step h.wired ?_ hstep
    rintro e' rfl
    exact hguard
  cases channelStep_stepped hstep with
  | mux e m hfree hmux =>
      have hretired := lined_retire h hguard hmux
      unfold Channels.muxed
      split
      · split
        · exact hretired
        · exact lined_channelStateLocked hretired _
      · split
        · exact lined_arrive hretired _ (hfree rfl)
        · exact hretired
      · exact hretired
  | enqueue i d channel qs hdisp hi =>
      obtain ⟨rfl, hcur, -⟩ := h.wired.enqueue_queue hdisp hi
      have hcalm : (qs.push d).Calm := hguard (i, d) hdisp (d.n.channel, qs) hi
      refine h.keep hwired ?_ (fun c => ?_) le_rfl
      · intro j c q hj
        rcases mem_setQueue hj with rfl | hold
        · exact sequential_take (h.workers i _ qs hi) hcalm
        · exact h.workers j c q hold
      · have hpend : ({ s with dispatching := none }.setQueue i d.n.channel
            (qs.push d).take).pendingOf c = _ :=
          pendingOf_setQueue h.wired hcur hi (qs.push d).take c
        unfold Channels.lineOf
        rw [hpend, pending_take, pending_push]
        simp only [Channels.arrivingOf, hdisp, Option.elim_some]
        change s.spawnedOf c ++ _ ++ [] = _
        by_cases heq : c = d.n.channel
        · subst heq
          simp [pendingOf_eq hcur hi]
        · simp [heq, Ne.symm heq]
  | spawn i j channel qs r rest hi hj =>
      have hcur := h.wired.current_of_run hi (.inl (ne_nil_of_starting hj))
      obtain ⟨hpop, hseq⟩ := pending_spawn (h.workers i channel qs hi) hj
      refine h.keep hwired ?_ (fun c => ?_) le_rfl
      · intro k c q hk
        rcases mem_setQueue hk with rfl | hold
        · exact hseq
        · exact h.workers k c q hold
      · have hpend : ({ s with spawned := s.spawned ++ [(channel, r)] }.setQueue i channel
            (qs.spawn j r rest)).pendingOf c = _ :=
          pendingOf_setQueue h.wired hcur hi (qs.spawn j r rest) c
        have hspawned : ({ s with spawned := s.spawned ++ [(channel, r)] }.setQueue i channel
            (qs.spawn j r rest)).spawnedOf c =
              s.spawnedOf c ++ if channel = c then [r] else [] := by
          by_cases heq : channel = c
          · simp [Channels.spawnedOf, Channels.setQueue, heq]
          · simp [Channels.spawnedOf, Channels.setQueue, heq]
        unfold Channels.lineOf
        rw [hpend, hspawned]
        change _ ++ _ ++ s.arrivingOf c = _
        by_cases heq : c = channel
        · subst heq
          simp [pendingOf_eq hcur hi, hpop]
        · simp [heq, Ne.symm heq]
  | finish i r threw channel qs hi hr =>
      have hcur := h.wired.current_of_run hi (.inr (List.ne_nil_of_mem hr))
      have hcalm : (qs.complete r).Calm := hguard (channel, qs) hi
      refine h.keep hwired ?_ (fun c => ?_) le_rfl
      · intro k c q hk
        rcases mem_setQueue hk with rfl | hold
        · exact sequential_take (h.workers i channel qs hi) hcalm
        · exact h.workers k c q hold
      · unfold Channels.lineOf
        rw [pendingOf_setQueue h.wired hcur hi, pending_take]
        change s.spawnedOf c ++ _ ++ s.arrivingOf c = _
        by_cases heq : c = channel
        · subst heq
          simp only [if_true, pendingOf_eq hcur hi]
          rfl
        · simp [heq]

/-- What is asked of the runs of a channel: each handler's runs are spawned in the order
its notifications arrived, and over one slot all runs in flight belong to the same
notification. -/
structure StartInOrder (capacity : Nat) (s : Channels) (channel : String) : Prop where
  order : ∀ handler, (((s.spawnedOf channel).filter fun r => r.handler == handler).map
    (·.seq)).Pairwise (· ≤ ·)
  noOverlap : capacity = 1 → ∀ r ∈ s.inFlight channel, ∀ r' ∈ s.inFlight channel, r.seq = r'.seq

theorem Lined.startInOrder {s : Channels} (h : Lined s) (channel : String) :
    StartInOrder s.capacity s channel where
  order := by
    intro handler
    have hqueue := (List.pairwise_append.mp (h.sorted channel)).1
    have hspawned := (List.pairwise_append.mp hqueue).1
    exact (hspawned.filter _).map _ fun _ _ => id
  noOverlap := by
    intro hone r hr r' hr'
    rcases h.wired.inFlight channel with hnone | ⟨i, qs, hi, heq⟩
    · rw [hnone] at hr
      cases hr
    · rw [heq] at hr hr'
      have hfits := h.wired.queue i channel qs hi
      have hsingle := hfits.flowing.single (hfits.limit.trans hone)
      obtain ⟨d, hd, hmem⟩ := hsingle r (List.mem_append_right _ hr)
      obtain ⟨d', hd', hmem'⟩ := hsingle r' (List.mem_append_right _ hr')
      obtain rfl : d = d' := Option.some.inj (hd.symm.trans hd')
      rw [seq_of_mem_runs hmem, seq_of_mem_runs hmem']

/-- **Order.**  In every run in which queues are dropped only when empty and nobody
overtakes a worker that has runs to spawn, the runs of each channel start in order. -/
theorem runs_start_in_order (capacity : Nat) (up : Bool) (es : List ChannelEvent) (s : Channels)
    (hguard : Guarded channelStep InTurn (Channels.init capacity up) es)
    (h : exec channelStep (Channels.init capacity up) es = some s) (channel : String) :
    StartInOrder capacity s channel := by
  have hcap : s.capacity = capacity :=
    exec_invariant (fun s => s.capacity = capacity)
      (fun _ _ _ hs hstep => (channelStep_capacity hstep).trans hs) rfl h
  have hlined : Lined s :=
    exec_invariant_of_guarded Lined (fun _ _ _ => lined_step) es _ s (lined_init capacity up)
      hguard h
  exact hcap ▸ hlined.startInOrder channel

/-- Two slots, three notifications for one handler. -/
def inTurnRun : List ChannelEvent :=
  [.mux (.start true), .mux (.addHandler "a" true)] ++ oneArrival "1" ++ [.spawn 0 0] ++
    oneArrival "2" ++ [.spawn 0 1] ++ oneArrival "3" ++ [.finish 0 ⟨1, 0, 1⟩ false, .spawn 0 3]

theorem runs_start_in_order_inTurnRun :
    ∃ s, exec channelStep (Channels.init 2 true) inTurnRun = some s ∧
      (s.spawnedOf "a").map (·.seq) = [0, 1, 2] ∧ StartInOrder 2 s "a" := by
  have hguard : Guarded channelStep InTurn (Channels.init 2 true) inTurnRun := by decide +kernel
  have hrun : (exec channelStep (Channels.init 2 true) inTurnRun).any (fun s =>
      decide ((s.spawnedOf "a").map (·.seq) = [0, 1, 2])) = true := by decide +kernel
  obtain ⟨s, hs, hspawned⟩ := (Option.any_eq_true ..).mp hrun
  exact ⟨s, hs, of_decide_eq_true hspawned, runs_start_in_order 2 true inTurnRun s hguard hs "a"⟩

/-- Two runs end, and each of their workers takes one of the two notifications that
wait; the second worker spawns first. -/
def overtakingRun : List ChannelEvent :=
  [.mux (.start true), .mux (.addHandler "a" true)] ++ oneArrival "1" ++ [.spawn 0 0] ++
    oneArrival "2" ++ [.spawn 0 1] ++ oneArrival "3" ++ oneArrival "4" ++
    [.finish 0 ⟨0, 0, 1⟩ false, .finish 0 ⟨1, 0, 1⟩ false, .spawn 0 5, .spawn 0 4]

/-- A channel is removed and added again while a run of it is in flight: the next
notification finds a fresh queue with a free slot. -/
def replacedQueueRun : List ChannelEvent :=
  [.mux (.start true), .mux (.addHandler "a" true)] ++ oneArrival "1" ++
    [.spawn 0 0, .mux (.removeChannel "a" true), .mux (.addHandler "a" true)] ++
    oneArrival "2" ++ [.spawn 1 0]

/-- Either half fails without its condition: the order over two slots, and the exclusion
over one. -/
theorem runs_start_out_of_order :
    (¬∀ capacity up es s, exec channelStep (Channels.init capacity up) es = some s →
      ∀ channel handler, (((s.spawnedOf channel).filter fun r => r.handler == handler).map
        (·.seq)).Pairwise (· ≤ ·)) ∧
      ¬∀ up es s, exec channelStep (Channels.init 1 up) es = some s →
        ∀ channel, ∀ r ∈ s.inFlight channel, ∀ r' ∈ s.inFlight channel, r.seq = r'.seq := by
  refine ⟨fun hall => ?_, fun hall => ?_⟩
  · have hrun : (exec channelStep (Channels.init 2 true) overtakingRun).any (fun s =>
        decide (((s.spawnedOf "a").filter fun r => r.handler == 1).map (·.seq) = [0, 1, 3, 2])) =
          true := by decide +kernel
    obtain ⟨s, hs, hcond⟩ := (Option.any_eq_true ..).mp hrun
    have hsorted := hall 2 true overtakingRun s hs "a" 1
    rw [of_decide_eq_true hcond] at hsorted
    exact absurd hsorted (by decide)
  · have hrun : (exec channelStep (Channels.init 1 true) replacedQueueRun).any (fun s =>
        decide (s.inFlight "a" = [⟨0, 0, 1⟩, ⟨1, 0, 2⟩])) = true := by decide +kernel
    obtain ⟨s, hs, hcond⟩ := (Option.any_eq_true ..).mp hrun
    have hflight : s.inFlight "a" = [⟨0, 0, 1⟩, ⟨1, 0, 2⟩] := of_decide_eq_true hcond
    have hsame := hall true replacedQueueRun s hs "a" ⟨0, 0, 1⟩ (by simp [hflight]) ⟨1, 0, 2⟩
      (by simp [hflight])
    exact absurd hsame (by decide)

end Upq.Notify
