/-
  Notify/Channels.lean --- the multiplexer with its channel queues.

  Source: `channel_state_locked`, `erase_exact_locked`, `remove_channel`, `dispatch`,
  `start` and `run_handler` in `include/upq/PgNotificationMultiplexer.h`.

  The multiplexer of `Multiplexer.lean` takes its steps; what they do to `channels_` is
  added here.  `channel_state_locked` makes the queue of a channel when there is none, and
  every `exact_.erase(channel)` comes with a `channels_.erase(channel)`: the queue object
  then lives on with its runs, but the next notification of the channel gets a fresh
  one.  `dispatch` is two sections: under `mtx_` the handlers are resolved and the queue
  is looked up, under the queue's own lock the delivery is pushed.  The run loop
  dispatches one notification after the other, everything else interleaves.

  `Wired` is what holds as long as a queue is dropped only when nothing is left in it.
-/
import Upq.Notify.ChannelQueue

set_option autoImplicit false

namespace Upq.Notify

open Upq.Foundation

/-! ## Routing a notification to its handlers -/

/-- `wildcard_matches` -/
def wildcardMatches (pattern channel : String) : Bool :=
  pattern.toList.dropLast.isPrefixOf channel.toList

/-- The handlers `dispatch` finds for a channel. -/
def State.resolve (s : State) (channel : String) : List Nat :=
  (s.exact.lookup channel).getD [] ++
    (s.wildcard.entries.filter fun kv => wildcardMatches kv.1 channel).flatMap (·.2)

/-! ## The machine -/

/-- The multiplexer and every `ChannelQueue` it has made, with the name of its channel.
`slots` is `channels_`, by position in `queues`; `dispatching` the delivery the run loop
holds between the two sections of `dispatch`, with its queue.  `count` and `spawned`
remember how many notifications reached `dispatch`, and the runs spawned, in order. -/
structure Channels where
  mux : State
  capacity : Nat
  slots : String → Option Nat
  queues : List (String × QueueState)
  dispatching : Option (Nat × Delivery)
  count : Nat
  spawned : List (String × Run)

def Channels.init (capacity : Nat) (up : Bool) : Channels :=
  { mux := .init up, capacity, slots := fun _ => none, queues := [], dispatching := none
    count := 0, spawned := [] }

namespace Channels

/-- `channel_state_locked` -/
def channelStateLocked (s : Channels) (channel : String) : Channels × Nat :=
  match s.slots channel with
  | some i => (s, i)
  | none =>
      ({ s with
          slots := Function.update s.slots channel (some s.queues.length)
          queues := s.queues ++ [(channel, .init s.capacity)] }, s.queues.length)

/-- The first section of `dispatch`. -/
def arrive (s : Channels) (n : Notification) : Channels :=
  let handlers := s.mux.resolve n.channel
  if handlers = [] then { s with count := s.count + 1 }
  else
    match s.channelStateLocked n.channel with
    | (s, i) =>
        { s with dispatching := some (i, ⟨n, handlers, s.count⟩), count := s.count + 1 }

/-- The registry has become `mux`; the queues of channels erased from it are dropped. -/
def retire (s : Channels) (mux : State) : Channels :=
  { s with
    mux
    slots := fun channel =>
      if channel ∈ s.mux.exact ∧ channel ∉ mux.exact then none else s.slots channel }

/-- What a step of the multiplexer to `mux` does to the channels. -/
def muxed (s : Channels) (e : Event) (mux : State) : Channels :=
  match e with
  | .addHandler channel _ =>
      if isWildcard channel then s.retire mux else ((s.retire mux).channelStateLocked channel).1
  | .dispatch =>
      match s.mux.loop with
      | .dispatch (n :: _) => (s.retire mux).arrive n
      | _ => s.retire mux
  | _ => s.retire mux

/-- The state of queue `i` becomes `qs`. -/
def setQueue (s : Channels) (i : Nat) (channel : String) (qs : QueueState) : Channels :=
  { s with queues := s.queues.set i (channel, qs) }

end Channels

inductive ChannelEvent where
  | mux (e : Event)
  | enqueue
  | spawn (i j : Nat)
  | finish (i : Nat) (r : Run) (threw : Bool)
  deriving DecidableEq, Repr

/-- One step of the multiplexer, of `dispatch` behind its first section, of a `start`, or
of a run that ends. -/
def channelStep (s : Channels) : ChannelEvent → Option Channels
  | .mux e =>
      if e = .dispatch ∧ s.dispatching.isSome then none
      else (step s.mux e).map (s.muxed e)
  | .enqueue =>
      match s.dispatching with
      | none => none
      | some (i, d) =>
          match s.queues[i]? with
          | none => none
          | some (channel, qs) =>
              some ({ s with dispatching := none }.setQueue i channel (qs.push d).take)
  | .spawn i j =>
      match s.queues[i]? with
      | none => none
      | some (channel, qs) =>
          match qs.starting[j]? with
          | some (r :: rest) =>
              some ({ s with spawned := s.spawned ++ [(channel, r)] }.setQueue i channel
                (qs.spawn j r rest))
          | _ => none
  | .finish i r _ =>
      match s.queues[i]? with
      | none => none
      | some (channel, qs) =>
          if r ∈ qs.active then some (s.setQueue i channel (qs.complete r).take) else none

/-- What a step can be. -/
inductive ChannelStepped (s : Channels) : ChannelEvent → Channels → Prop where
  | mux (e : Event) (m : State) (hfree : e = .dispatch → s.dispatching = none)
      (hstep : step s.mux e = some m) : ChannelStepped s (.mux e) (s.muxed e m)
  | enqueue (i : Nat) (d : Delivery) (channel : String) (qs : QueueState)
      (hdisp : s.dispatching = some (i, d)) (hi : s.queues[i]? = some (channel, qs)) :
      ChannelStepped s .enqueue
        ({ s with dispatching := none }.setQueue i channel (qs.push d).take)
  | spawn (i j : Nat) (channel : String) (qs : QueueState) (r : Run) (rest : List Run)
      (hi : s.queues[i]? = some (channel, qs)) (hj : qs.starting[j]? = some (r :: rest)) :
      ChannelStepped s (.spawn i j)
        ({ s with spawned := s.spawned ++ [(channel, r)] }.setQueue i channel (qs.spawn j r rest))
  | finish (i : Nat) (r : Run) (threw : Bool) (channel : String) (qs : QueueState)
      (hi : s.queues[i]? = some (channel, qs)) (hr : r ∈ qs.active) :
      ChannelStepped s (.finish i r threw) (s.setQueue i channel (qs.complete r).take)

theorem channelStep_stepped {s t : Channels} {e : ChannelEvent} (h : channelStep s e = some t) :
    ChannelStepped s e t := by
  cases e with
  | mux e =>
      simp only [channelStep, Option.ite_none_left_eq_some, Option.map_eq_some_iff, not_and,
        Option.not_isSome_iff_eq_none] at h
      obtain ⟨hfree, m, hstep, rfl⟩ := h
      exact .mux e m hfree hstep
  | enqueue =>
      simp only [channelStep] at h
      split at h
      · cases h
      · rename_i i d hdisp
        split at h
        · cases h
        · rename_i channel qs hi
          cases h
          exact .enqueue i d channel qs hdisp hi
  | spawn i j =>
      simp only [channelStep] at h
      split at h
      · cases h
      · rename_i channel qs hi
        split at h
        · rename_i r rest hj
          cases h
          exact .spawn i j channel qs r rest hi hj
        · cases h
  | finish i r threw =>
      simp only [channelStep] at h
      split at h
      · cases h
      · rename_i channel qs hi
        simp only [Option.ite_none_right_eq_some, Option.some.injEq] at h
        exact h.2 ▸ .finish i r threw channel qs hi h.1

/-! ## Queues dropped only when they are empty -/

/-- Nothing waits in queue `i`, no run taken out of it is unfinished, and no delivery is on
its way to it. -/
def Channels.idleAt (s : Channels) (i : Nat) : Bool :=
  (s.queues[i]?).all (fun q => q.2.q.waiting.isEmpty && q.2.q.running == 0) &&
    s.dispatching.all fun p => p.1 != i

/-- The channels whose queue a step of the multiplexer drops. -/
def Channels.dropped (s : Channels) (e : Event) : List String :=
  match step s.mux e with
  | none => []
  | some mux => s.mux.exact.keys.filter fun channel => decide (channel ∉ mux.exact)

/-- The step drops no queue that is in use. -/
def QuietDrops (s : Channels) (e : Event) : Prop :=
  ∀ channel ∈ s.dropped e, (s.slots channel).all s.idleAt = true

instance (s : Channels) (e : Event) : Decidable (QuietDrops s e) :=
  inferInstanceAs (Decidable (∀ _ ∈ _, _))

theorem mem_dropped {s : Channels} {e : Event} {mux : State} (hstep : step s.mux e = some mux)
    {channel : String} (hin : channel ∈ s.mux.exact) (hout : channel ∉ mux.exact) :
    channel ∈ s.dropped e := by
  simp only [Channels.dropped, hstep, List.mem_filter, decide_eq_true_eq]
  exact ⟨AList.mem_keys.mp hin, hout⟩

/-- Nothing is left in the queue. -/
def QueueState.Done (qs : QueueState) : Prop := qs.q.running = 0 ∧ qs.q.waiting = []

theorem QueueState.Done.runs {qs : QueueState} (h : qs.Done) (hflow : Flowing qs) :
    qs.unspawned = [] ∧ qs.active = [] := by
  have hrunning := hflow.running
  rw [h.1] at hrunning
  exact ⟨List.length_eq_zero_iff.mp (by omega), List.length_eq_zero_iff.mp (by omega)⟩

theorem idleAt_iff {s : Channels} {i : Nat} :
    s.idleAt i = true ↔
      (∀ channel qs, s.queues[i]? = some (channel, qs) → qs.Done) ∧
        ∀ d, s.dispatching ≠ some (i, d) := by
  simp only [Channels.idleAt, Bool.and_eq_true, Option.all_eq_true,
    List.isEmpty_iff, beq_iff_eq, bne_iff_ne, Prod.forall, QueueState.Done]
  constructor
  · rintro ⟨hq, hd⟩
    exact ⟨fun channel qs hi => (hq channel qs hi).symm, fun d heq => hd i d heq rfl⟩
  · rintro ⟨hq, hd⟩
    refine ⟨fun channel qs hi => (hq channel qs hi).symm, fun j d heq hij => ?_⟩
    exact hd d (hij ▸ heq)

/-- A queue of channel `channel` at position `i`. -/
structure QueueFits (s : Channels) (i : Nat) (channel : String) (qs : QueueState) : Prop where
  flowing : Flowing qs
  limit : qs.q.limit = s.capacity
  seqs : ∀ d ∈ qs.arrived, d.seq < s.count
  current : s.slots channel = some i ∨ qs.Done

/-- A delivery on its way to queue `i`. -/
structure DeliveryFits (s : Channels) (i : Nat) (d : Delivery) : Prop where
  current : s.slots d.n.channel = some i
  handlers : d.handlers ≠ []
  seq : d.seq < s.count
  last : ∀ channel qs, s.queues[i]? = some (channel, qs) → ∀ x ∈ qs.arrived, x.seq < d.seq

/-- Every channel in use has one queue, and the others are done. -/
structure Wired (s : Channels) : Prop where
  slot : ∀ channel i, s.slots channel = some i → ∃ qs, s.queues[i]? = some (channel, qs)
  queue : ∀ i channel qs, s.queues[i]? = some (channel, qs) → QueueFits s i channel qs
  dispatching : ∀ i d, s.dispatching = some (i, d) → DeliveryFits s i d

theorem wired_init (capacity : Nat) (up : Bool) : Wired (Channels.init capacity up) :=
  ⟨nofun, nofun, nofun⟩

section

variable {s : Channels}

theorem wired_retire (h : Wired s) {e : Event} (hquiet : QuietDrops s e) {mux : State}
    (hstep : step s.mux e = some mux) : Wired (s.retire mux) := by
  have hslot : ∀ channel i, s.slots channel = some i →
      (s.retire mux).slots channel = some i ∨ s.idleAt i = true := by
    intro channel i hi
    by_cases hdrop : channel ∈ s.mux.exact ∧ channel ∉ mux.exact
    · have hidle := hquiet channel (mem_dropped hstep hdrop.1 hdrop.2)
      rw [hi] at hidle
      exact .inr hidle
    · exact .inl ((if_neg hdrop).trans hi)
  refine ⟨?_, ?_, ?_⟩
  · intro channel i hi
    refine h.slot channel i ?_
    change (if _ then none else s.slots channel) = some i at hi
    split at hi
    · cases hi
    · exact hi
  · intro i channel qs hi
    have hfits := h.queue i channel qs hi
    refine ⟨hfits.flowing, hfits.limit, hfits.seqs, ?_⟩
    rcases hfits.current with hcur | hdone
    · rcases hslot channel i hcur with hkept | hidle
      · exact .inl hkept
      · exact .inr ((idleAt_iff.mp hidle).1 channel qs hi)
    · exact .inr hdone
  · intro i d hd
    have hfits := h.dispatching i d hd
    refine ⟨?_, hfits.handlers, hfits.seq, hfits.last⟩
    rcases hslot d.n.channel i hfits.current with hkept | hidle
    · exact hkept
    · exact absurd hd ((idleAt_iff.mp hidle).2 d)

/-- A fresh queue takes the empty slot of its channel. -/
theorem wired_channelStateLocked (h : Wired s) (channel : String) :
    Wired (s.channelStateLocked channel).1 := by
  unfold Channels.channelStateLocked
  split
  · exact h
  · rename_i hnone
    have hne : ∀ c i, s.slots c = some i → c ≠ channel := by
      rintro c i hi rfl
      rw [hnone] at hi
      cases hi
    have hkeep : ∀ c i, s.slots c = some i →
        Function.update s.slots channel (some s.queues.length) c = some i := by
      intro c i hi
      rw [Function.update_of_ne (hne c i hi)]
      exact hi
    have hold : ∀ (i : Nat) q, s.queues[i]? = some q →
        (s.queues ++ [(channel, QueueState.init s.capacity)])[i]? = some q := by
      intro i q hi
      rw [List.getElem?_append_left (List.getElem?_eq_some_iff.mp hi).1]
      exact hi
    refine ⟨?_, ?_, ?_⟩
    · intro c i hi
      by_cases heq : c = channel
      · subst heq
        simp only [Function.update_self, Option.some.injEq] at hi
        subst hi
        exact ⟨QueueState.init s.capacity, by simp⟩
      · simp only [Function.update_of_ne heq] at hi
        obtain ⟨qs, hqs⟩ := h.slot c i hi
        exact ⟨qs, hold i _ hqs⟩
    · intro i c qs hi
      change (s.queues ++ [(channel, QueueState.init s.capacity)])[i]? = some (c, qs) at hi
      rcases lt_trichotomy i s.queues.length with hlt | heq | hgt
      · rw [List.getElem?_append_left hlt] at hi
        have hfits := h.queue i c qs hi
        exact ⟨hfits.flowing, hfits.limit, hfits.seqs, hfits.current.imp_left (hkeep c i)⟩
      · subst heq
        simp only [List.getElem?_append_right le_rfl, Nat.sub_self, List.getElem?_cons_zero,
          Option.some.injEq, Prod.mk.injEq] at hi
        obtain ⟨rfl, rfl⟩ := hi
        exact ⟨flowing_init _, rfl, nofun, .inl (Function.update_self ..)⟩
      · rw [List.getElem?_eq_none (by simp; omega)] at hi
        cases hi
    · intro i d hd
      have hfits := h.dispatching i d hd
      refine ⟨hkeep _ i hfits.current, hfits.handlers, hfits.seq, ?_⟩
      intro c qs hi
      obtain ⟨qs', hqs'⟩ := h.slot _ i hfits.current
      have heq := (hold i _ hqs').symm.trans hi
      cases heq
      exact hfits.last _ _ hqs'

theorem channelStateLocked_slot (s : Channels) (channel : String) :
    (s.channelStateLocked channel).1.slots channel = some (s.channelStateLocked channel).2 := by
  unfold Channels.channelStateLocked
  split
  · assumption
  · exact Function.update_self ..

theorem channelStateLocked_same (s : Channels) (channel : String) :
    (s.channelStateLocked channel).1.dispatching = s.dispatching ∧
      (s.channelStateLocked channel).1.count = s.count ∧
      (s.channelStateLocked channel).1.spawned = s.spawned ∧
      (s.channelStateLocked channel).1.capacity = s.capacity := by
  unfold Channels.channelStateLocked
  split
  · exact ⟨rfl, rfl, rfl, rfl⟩
  · exact ⟨rfl, rfl, rfl, rfl⟩

theorem muxed_capacity (s : Channels) (e : Event) (mux : State) :
    (s.muxed e mux).capacity = s.capacity := by
  have hsame : ∀ channel, ((s.retire mux).channelStateLocked channel).1.capacity = s.capacity :=
    fun channel => (channelStateLocked_same (s.retire mux) channel).2.2.2
  unfold Channels.muxed
  split
  · split
    · rfl
    · exact hsame _
  · split
    · unfold Channels.arrive
      dsimp only
      split
      · rfl
      · exact hsame _
    · rfl
  · rfl

/-- No step changes the capacity. -/
theorem channelStep_capacity {t : Channels} {e : ChannelEvent} (h : channelStep s e = some t) :
    t.capacity = s.capacity := by
  cases channelStep_stepped h with
  | mux e m _ _ => exact muxed_capacity s e m
  | enqueue i d channel qs _ _ => rfl
  | spawn i j channel qs r rest _ _ => rfl
  | finish i r threw channel qs _ _ => rfl

theorem QueueFits.count_le {i : Nat} {channel : String} {qs : QueueState}
    (h : QueueFits s i channel qs) {x : Delivery} (hx : x ∈ qs.arrived) : x.seq < s.count + 1 :=
  (h.seqs x hx).trans (Nat.lt_succ_self _)

theorem wired_arrive (h : Wired s) (n : Notification) (hfree : s.dispatching = none) :
    Wired (s.arrive n) := by
  unfold Channels.arrive
  dsimp only
  split
  · refine ⟨h.slot, ?_, ?_⟩
    · intro i channel qs hi
      have hfits := h.queue i channel qs hi
      exact ⟨hfits.flowing, hfits.limit, fun x hx => hfits.count_le hx, hfits.current⟩
    · intro i d hd
      rw [show s.dispatching = some (i, d) from hd] at hfree
      cases hfree
  · rename_i hne
    have hw := wired_channelStateLocked h n.channel
    have hslot := channelStateLocked_slot s n.channel
    refine ⟨hw.slot, ?_, ?_⟩
    · intro i channel qs hi
      have hfits := hw.queue i channel qs hi
      exact ⟨hfits.flowing, hfits.limit, fun x hx => hfits.count_le hx, hfits.current⟩
    · rintro i d hd
      simp only [Option.some.injEq, Prod.mk.injEq] at hd
      obtain ⟨rfl, rfl⟩ := hd
      refine ⟨hslot, hne, Nat.lt_succ_self _, ?_⟩
      intro channel qs hi x hx
      exact (hw.queue _ channel qs hi).seqs x hx

/-- A queue in use takes a step. -/
theorem Wired.setQueue (h : Wired s) {i : Nat} {channel : String} {qs qs' : QueueState}
    (hi : s.queues[i]? = some (channel, qs)) (hcur : s.slots channel = some i)
    (hflow : Flowing qs') (hlimit : qs'.q.limit = qs.q.limit)
    (hseqs : ∀ d ∈ qs'.arrived, d.seq < s.count)
    (hdisp : ∀ d, s.dispatching = some (i, d) → qs'.arrived = qs.arrived) :
    Wired (s.setQueue i channel qs') := by
  have hlt := (List.getElem?_eq_some_iff.mp hi).1
  have hget : ∀ (j : Nat) q, (s.queues.set i (channel, qs'))[j]? = some q →
      (j = i ∧ q = (channel, qs')) ∨ (j ≠ i ∧ s.queues[j]? = some q) := by
    intro j q hj
    by_cases heq : i = j
    · subst heq
      rw [List.getElem?_set_self hlt] at hj
      exact .inl ⟨rfl, (Option.some.inj hj).symm⟩
    · rw [List.getElem?_set_ne heq] at hj
      exact .inr ⟨Ne.symm heq, hj⟩
  refine ⟨?_, ?_, ?_⟩
  · intro c j hj
    obtain ⟨q, hq⟩ := h.slot c j hj
    by_cases heq : i = j
    · subst heq
      rw [hi] at hq
      cases hq
      exact ⟨qs', List.getElem?_set_self hlt⟩
    · exact ⟨q, (List.getElem?_set_ne heq).trans hq⟩
  · intro j c q hj
    rcases hget j _ hj with ⟨rfl, heq⟩ | ⟨-, hold⟩
    · cases heq
      exact ⟨hflow, hlimit.trans (h.queue _ _ _ hi).limit, hseqs, .inl hcur⟩
    · have hfits := h.queue j c q hold
      exact ⟨hfits.flowing, hfits.limit, hfits.seqs, hfits.current⟩
  · intro j d hd
    have hfits := h.dispatching j d hd
    refine ⟨hfits.current, hfits.handlers, hfits.seq, ?_⟩
    intro c q hj
    rcases hget j _ hj with ⟨rfl, heq⟩ | ⟨-, hold⟩
    · cases heq
      rw [hdisp d hd]
      exact hfits.last _ _ hi
    · exact hfits.last c q hold

/-- A queue with a run is in use. -/
theorem Wired.current_of_run (h : Wired s) {i : Nat} {channel : String} {qs : QueueState}
    (hi : s.queues[i]? = some (channel, qs)) (hrun : qs.unspawned ≠ [] ∨ qs.active ≠ []) :
    s.slots channel = some i := by
  have hfits := h.queue i channel qs hi
  rcases hfits.current with hcur | hdone
  · exact hcur
  · obtain ⟨hnone, hnone'⟩ := hdone.runs hfits.flowing
    exact absurd hrun (by simp [hnone, hnone'])

theorem ne_nil_of_starting {qs : QueueState} {j : Nat} {r : Run} {rest : List Run}
    (hj : qs.starting[j]? = some (r :: rest)) : qs.unspawned ≠ [] := by
  intro hnil
  have hmem := (unspawned_perm hj).mem_iff.mpr List.mem_cons_self
  rw [hnil] at hmem
  cases hmem

end

/-- The queue step behind a channel step. -/
theorem Wired.enqueue_queue {s : Channels} (h : Wired s) {i : Nat} {d : Delivery} {channel : String}
    {qs : QueueState} (hdisp : s.dispatching = some (i, d))
    (hi : s.queues[i]? = some (channel, qs)) :
    channel = d.n.channel ∧ s.slots channel = some i ∧
      queueStep qs (.dispatch d) = some (qs.push d).take := by
  have hfits := h.dispatching i d hdisp
  obtain ⟨qs', hqs'⟩ := h.slot _ i hfits.current
  rw [hi] at hqs'
  cases hqs'
  exact ⟨rfl, hfits.current, if_pos ⟨hfits.handlers, hfits.last _ _ hi⟩⟩

/-- **Step rule.** -/
theorem wired_step {s t : Channels} {e : ChannelEvent} (h : Wired s)
    (hquiet : ∀ e', e = .mux e' → QuietDrops s e') (hstep : channelStep s e = some t) :
    Wired t := by
  cases channelStep_stepped hstep with
  | mux e m hfree hmux =>
      have hretired := wired_retire h (hquiet e rfl) hmux
      unfold Channels.muxed
      split
      · split
        · exact hretired
        · exact wired_channelStateLocked hretired _
      · split
        · exact wired_arrive hretired _ (hfree rfl)
        · exact hretired
      · exact hretired
  | enqueue i d channel qs hdisp hi =>
      obtain ⟨-, hcur, hq⟩ := h.enqueue_queue hdisp hi
      have hfits := h.queue i channel qs hi
      have hwired : Wired { s with dispatching := none } := by
        refine ⟨h.slot, fun j c q hj => ?_, nofun⟩
        have hj := h.queue j c q hj
        exact ⟨hj.flowing, hj.limit, hj.seqs, hj.current⟩
      refine hwired.setQueue hi hcur (flowing_step hfits.flowing hq) (queueStep_limit hq) ?_ nofun
      intro x hx
      rcases List.mem_append.mp hx with hold | hnew
      · exact hfits.seqs x hold
      · rw [List.mem_singleton.mp hnew]
        exact (h.dispatching i d hdisp).seq
  | spawn i j channel qs r rest hi hj =>
      have hcur := h.current_of_run hi (.inl (ne_nil_of_starting hj))
      have hfits := h.queue i channel qs hi
      have hwired : Wired { s with spawned := s.spawned ++ [(channel, r)] } := by
        refine ⟨h.slot, fun j c q hj => ?_, fun j d hd => ?_⟩
        · have hj := h.queue j c q hj
          exact ⟨hj.flowing, hj.limit, hj.seqs, hj.current⟩
        · have hd := h.dispatching j d hd
          exact ⟨hd.current, hd.handlers, hd.seq, hd.last⟩
      exact hwired.setQueue hi hcur (flowing_spawn hfits.flowing hj) rfl hfits.seqs fun _ _ => rfl
  | finish i r threw channel qs hi hr =>
      have hcur := h.current_of_run hi (.inr (List.ne_nil_of_mem hr))
      have hfits := h.queue i channel qs hi
      have hq : queueStep qs (.finish r threw) = some (qs.complete r).take := if_pos hr
      exact h.setQueue hi hcur (flowing_step hfits.flowing hq) (queueStep_limit hq) hfits.seqs
        fun _ _ => rfl

end Upq.Notify
