/-
  Notify/Backpressure.lean --- how many handler runs a channel has.

  Source: `dispatch`, `take_ready_locked`, `run_handler` and `erase_exact_locked` in
  `include/upq/PgNotificationMultiplexer.h`; `docs/notification-multiplexer.md`,
  Backpressure.

  Slots are counted in runs but admitted by notification, so `channel_queue_capacity`
  bounds the runs of a channel only while a notification has one handler and the channel
  keeps its queue while the queue is in use.
-/
import Upq.Notify.Channels

set_option autoImplicit false

namespace Upq.Notify

open Upq.Foundation

/-! ## The runs of a channel -/

/-- A list all of whose members but the one at `k` contribute nothing. -/
theorem flatMap_eq_of_unique {α β : Type} {f : α → List β} {l : List α} {k : Nat}
    (h : ∀ (j : Nat) x, l[j]? = some x → j ≠ k → f x = []) :
    l.flatMap f = (l[k]?).elim [] f := by
  induction l generalizing k with
  | nil => rfl
  | cons a l ih =>
      rw [List.flatMap_cons]
      cases k with
      | zero =>
          have hrest : l.flatMap f = [] := by
            refine List.flatMap_eq_nil_iff.mpr fun x hx => ?_
            obtain ⟨j, hj⟩ := List.mem_iff_getElem?.mp hx
            exact h (j + 1) x hj (Nat.succ_ne_zero j)
          simp [hrest]
      | succ k =>
          rw [h 0 a rfl (Nat.succ_ne_zero k).symm, List.nil_append, List.getElem?_cons_succ]
          exact ih fun j x hj hne => h (j + 1) x hj (by omega)

/-- The handler runs of a channel that were spawned and have not finished, whichever of
its queues they came through. -/
def Channels.inFlight (s : Channels) (channel : String) : List Run :=
  s.queues.flatMap fun q => if q.1 = channel then q.2.active else []

/-- They are the runs of the queue in the channel's slot. -/
theorem Wired.inFlight {s : Channels} (h : Wired s) (channel : String) :
    s.inFlight channel = [] ∨ ∃ (i : Nat) (qs : QueueState), s.queues[i]? = some (channel, qs) ∧
      s.inFlight channel = qs.active := by
  have hother : ∀ (j : Nat) q, s.queues[j]? = some q → s.slots channel ≠ some j →
      (if q.1 = channel then q.2.active else []) = [] := by
    rintro j ⟨c, qs⟩ hj hne
    split
    · rename_i heq
      have hfits := h.queue j c qs hj
      rw [show c = channel from heq] at hfits
      exact ((hfits.current.resolve_left hne).runs hfits.flowing).2
    · rfl
  unfold Channels.inFlight
  cases hslot : s.slots channel with
  | none =>
      refine .inl (List.flatMap_eq_nil_iff.mpr fun q hq => ?_)
      obtain ⟨j, hj⟩ := List.mem_iff_getElem?.mp hq
      exact hother j q hj (by rw [hslot]; exact nofun)
  | some i =>
      obtain ⟨qs, hqs⟩ := h.slot channel i hslot
      have hunique := flatMap_eq_of_unique
        (f := fun q : String × QueueState => if q.1 = channel then q.2.active else [])
        (l := s.queues) (k := i) fun j q hj hne =>
          hother j q hj (by rw [hslot]; exact fun heq => hne (Option.some.inj heq).symm)
      refine .inr ⟨i, qs, hqs, ?_⟩
      rw [hunique, hqs]
      exact if_pos rfl

/-! ## Backpressure -/

/-- The handlers of the notification the run loop dispatches next. -/
def Channels.nextHandlers (s : Channels) : List Nat :=
  match s.mux.loop with
  | .dispatch (n :: _) => s.mux.resolve n.channel
  | _ => []

/-- No notification has more than one handler, and no queue is dropped while it is in
use. -/
def OneHandler (s : Channels) : ChannelEvent → Prop
  | .mux e => QuietDrops s e ∧ (e = .dispatch → s.nextHandlers.length ≤ 1)
  | _ => True

instance (s : Channels) (e : ChannelEvent) : Decidable (OneHandler s e) :=
  match e with
  | .mux _ => inferInstanceAs (Decidable (_ ∧ (_ → _)))
  | .enqueue | .spawn _ _ | .finish _ _ _ => isTrue trivial

/-- Every delivery takes at most one slot, and the slots taken are at most the limit. -/
structure Slim (qs : QueueState) : Prop where
  waiting : ∀ d ∈ qs.q.waiting, d.handlers.length ≤ 1
  running : qs.q.running ≤ qs.q.limit

theorem takeLoop_le {limit : Nat} (hpos : 0 < limit) {waiting : List Delivery} {running : Nat}
    (hone : ∀ d ∈ waiting, d.handlers.length ≤ 1) (hle : running ≤ limit) :
    (takeLoop limit waiting running).2.2 ≤ limit := by
  induction waiting generalizing running with
  | nil => exact hle
  | cons d rest ih =>
      unfold takeLoop
      split
      · rename_i hfree
        have hd := hone d List.mem_cons_self
        exact ih (fun x hx => hone x (List.mem_cons_of_mem _ hx)) (by omega)
      · exact hle

theorem slim_take {qs : QueueState} (hpos : 0 < qs.q.limit) (h : Slim qs) : Slim qs.take where
  waiting := by
    intro d hd
    refine h.waiting d ?_
    have hsplit := (takeLoop_spec qs.q.limit qs.q.waiting qs.q.running).1
    rw [← hsplit]
    exact List.mem_append_right _ hd
  running := takeLoop_le hpos h.waiting h.running

theorem slim_push {qs : QueueState} (h : Slim qs) {d : Delivery} (hd : d.handlers.length ≤ 1) :
    Slim (qs.push d) where
  waiting := by
    intro x hx
    rcases List.mem_append.mp hx with hold | hnew
    · exact h.waiting x hold
    · rw [List.mem_singleton.mp hnew]
      exact hd
  running := h.running

theorem slim_complete {qs : QueueState} (h : Slim qs) (hflow : Flowing qs) {r : Run}
    (hr : r ∈ qs.active) : Slim (qs.complete r) where
  waiting := h.waiting
  running := by
    have hpos := hflow.delivered.noUnderflow r hr
    have hle := h.running
    change sizePred qs.q.running ≤ qs.q.limit
    rw [sizePred, if_neg (by omega)]
    omega

/-- The invariant behind the bound. -/
structure SlimChannels (s : Channels) : Prop where
  wired : Wired s
  pos : 0 < s.capacity
  queues : ∀ (i : Nat) channel qs, s.queues[i]? = some (channel, qs) → Slim qs
  dispatching : ∀ i d, s.dispatching = some (i, d) → d.handlers.length ≤ 1

theorem resolve_dispatch {s m : State} (h : step s .dispatch = some m) (channel : String) :
    m.resolve channel = s.resolve channel := by
  simp only [step, runStep] at h
  split at h
  · cases h
    rfl
  · cases h
    rfl
  · cases h

/-- A queue that is set is the new one or an old one. -/
theorem mem_setQueue {s : Channels} {i j : Nat} {channel c : String} {qs q : QueueState}
    (h : (s.setQueue i channel qs).queues[j]? = some (c, q)) :
    q = qs ∨ s.queues[j]? = some (c, q) := by
  change (s.queues.set i (channel, qs))[j]? = some (c, q) at h
  by_cases heq : i = j
  · subst heq
    rw [List.getElem?_set_self' ] at h
    obtain ⟨_, -, heq⟩ := Option.map_eq_some_iff.mp h
    cases heq
    exact .inl rfl
  · rw [List.getElem?_set_ne heq] at h
    exact .inr h

/-- A queue after `channel_state_locked` is a fresh one or an old one. -/
theorem mem_channelStateLocked {s : Channels} {channel c : String} {j : Nat} {q : QueueState}
    (h : (s.channelStateLocked channel).1.queues[j]? = some (c, q)) :
    q = .init s.capacity ∨ s.queues[j]? = some (c, q) := by
  unfold Channels.channelStateLocked at h
  split at h
  · exact .inr h
  · change (s.queues ++ [(channel, QueueState.init s.capacity)])[j]? = some (c, q) at h
    rw [List.getElem?_append] at h
    split at h
    · exact .inr h
    · have hmem := List.mem_of_getElem? h
      rw [List.mem_singleton] at hmem
      cases hmem
      exact .inl rfl

theorem slim_init (limit : Nat) : Slim (QueueState.init limit) := ⟨nofun, Nat.zero_le _⟩

theorem slimChannels_step {s t : Channels} {e : ChannelEvent} (h : SlimChannels s)
    (hguard : OneHandler s e) (hstep : channelStep s e = some t) : SlimChannels t := by
  have hwired : Wired t := by
    refine wired_step h.wired ?_ hstep
    rintro e' rfl
    exact hguard.1
  have hlimit : ∀ {i : Nat} {channel qs}, s.queues[i]? = some (channel, qs) → 0 < qs.q.limit :=
    fun hi => (h.wired.queue _ _ _ hi).limit ▸ h.pos
  cases channelStep_stepped hstep with
  | mux e m hfree hmux =>
      have hfresh : ∀ {j : Nat} {channel c q},
          ((s.retire m).channelStateLocked channel).1.queues[j]? = some (c, q) → Slim q := by
        intro j channel c q hj
        rcases mem_channelStateLocked hj with rfl | hold
        · exact slim_init _
        · exact h.queues j c q hold
      have hretired : SlimChannels (s.retire m) :=
        ⟨wired_retire h.wired hguard.1 hmux, h.pos, h.queues, h.dispatching⟩
      unfold Channels.muxed at hwired ⊢
      split
      · split
        · exact hretired
        · rename_i channel _ hwild
          obtain ⟨hdisp, -, -, hcap⟩ := channelStateLocked_same (s.retire m) channel
          refine ⟨wired_channelStateLocked hretired.wired channel, hcap ▸ h.pos,
            fun j c q hj => hfresh hj, ?_⟩
          rw [hdisp]
          exact h.dispatching
      · split
        · rename_i n batch hloop
          have hnext : (m.resolve n.channel).length ≤ 1 := by
            have hone := hguard.2 rfl
            rw [Channels.nextHandlers, hloop] at hone
            rw [resolve_dispatch hmux]
            exact hone
          have hw := wired_arrive hretired.wired n (hfree rfl)
          unfold Channels.arrive at hw ⊢
          dsimp only at hw ⊢
          split
          · rename_i hnone
            rw [if_pos hnone] at hw
            exact ⟨hw, h.pos, h.queues, h.dispatching⟩
          · rename_i hsome
            rw [if_neg hsome] at hw
            obtain ⟨-, -, -, hcap⟩ := channelStateLocked_same (s.retire m) n.channel
            refine ⟨hw, hcap ▸ h.pos, fun j c q hj => hfresh hj, ?_⟩
            rintro i d hd
            cases hd
            exact hnext
        · exact hretired
      · exact hretired
  | enqueue i d channel qs hdisp hi =>
      refine ⟨hwired, h.pos, ?_, nofun⟩
      intro j c q hj
      rcases mem_setQueue hj with rfl | hold
      · have hone := h.dispatching i d hdisp
        have hpos := hlimit hi
        exact slim_take hpos (slim_push (h.queues i channel qs hi) hone)
      · exact h.queues j c q hold
  | spawn i j channel qs r rest hi hj =>
      refine ⟨hwired, h.pos, ?_, h.dispatching⟩
      intro k c q hk
      rcases mem_setQueue hk with rfl | hold
      · have hq := h.queues i channel qs hi
        exact ⟨hq.waiting, hq.running⟩
      · exact h.queues k c q hold
  | finish i r threw channel qs hi hr =>
      refine ⟨hwired, h.pos, ?_, h.dispatching⟩
      intro k c q hk
      rcases mem_setQueue hk with rfl | hold
      · have hflow := (h.wired.queue i channel qs hi).flowing
        have hpos := hlimit hi
        exact slim_take hpos (slim_complete (h.queues i channel qs hi) hflow hr)
      · exact h.queues k c q hold

/-- **Backpressure.**  In every run in which each notification has one handler and queues
are dropped only when empty, a channel never has more than `capacity` handler runs in
flight. -/
theorem inFlight_le_capacity (capacity : Nat) (up : Bool) (es : List ChannelEvent) (s : Channels)
    (hpos : 0 < capacity) (hguard : Guarded channelStep OneHandler (Channels.init capacity up) es)
    (h : exec channelStep (Channels.init capacity up) es = some s) (channel : String) :
    (s.inFlight channel).length ≤ capacity := by
  have hcap : s.capacity = capacity :=
    exec_invariant (fun s => s.capacity = capacity)
      (fun _ _ _ hs hstep => (channelStep_capacity hstep).trans hs) rfl h
  have hinit : SlimChannels (Channels.init capacity up) :=
    ⟨wired_init capacity up, hpos, nofun, nofun⟩
  have hinv : SlimChannels s :=
    exec_invariant_of_guarded SlimChannels (fun _ _ _ => slimChannels_step) es _ s hinit hguard h
  rw [← hcap]
  rcases hinv.wired.inFlight channel with hnone | ⟨i, qs, hi, heq⟩
  · rw [hnone]
    exact Nat.zero_le _
  · have hfits := hinv.wired.queue i channel qs hi
    have hle := (hinv.queues i channel qs hi).running
    rw [heq, ← hfits.limit]
    exact (Nat.le_add_left _ _).trans (hfits.flowing.running ▸ hle)

/-- A notification of channel `a`, from the socket to the queue's lock. -/
def oneArrival (payload : String) : List ChannelEvent :=
  [.mux (.notify ⟨"a", payload, 7⟩), .mux .check, .mux (.wait false), .mux (.drain true),
    .mux .dispatch, .enqueue, .mux .dispatch]

/-- One handler on `a`, two notifications over one slot. -/
def oneHandlerRun : List ChannelEvent :=
  [.mux (.start true), .mux (.addHandler "a" true)] ++ oneArrival "1" ++ [.spawn 0 0] ++
    oneArrival "2" ++ [.finish 0 ⟨0, 0, 1⟩ false, .spawn 0 2]

theorem inFlight_le_capacity_oneHandlerRun :
    ∃ s, exec channelStep (Channels.init 1 true) oneHandlerRun = some s ∧
      s.inFlight "a" = [⟨1, 0, 1⟩] ∧ (s.inFlight "a").length ≤ 1 := by
  have hguard : Guarded channelStep OneHandler (Channels.init 1 true) oneHandlerRun := by
    decide +kernel
  have hrun : (exec channelStep (Channels.init 1 true) oneHandlerRun).any (fun s =>
      decide (s.inFlight "a" = [⟨1, 0, 1⟩])) = true := by decide +kernel
  obtain ⟨s, hs, hflight⟩ := (Option.any_eq_true ..).mp hrun
  exact ⟨s, hs, of_decide_eq_true hflight,
    inFlight_le_capacity 1 true oneHandlerRun s Nat.one_pos hguard hs "a"⟩

/-- Two handlers on `a`: one notification starts both over a single slot. -/
theorem inFlight_exceeds_capacity :
    ¬∀ capacity up es s, 0 < capacity →
      exec channelStep (Channels.init capacity up) es = some s →
      ∀ channel, (s.inFlight channel).length ≤ capacity := by
  intro hall
  have hrun : (exec channelStep (Channels.init 1 true)
      ([.mux (.start true), .mux (.addHandler "a" true), .mux (.addHandler "a" true)] ++
        oneArrival "1" ++ [.spawn 0 0, .spawn 0 0])).any (fun s =>
      decide ((s.inFlight "a").length = 2)) = true := by decide +kernel
  obtain ⟨s, hs, hcond⟩ := (Option.any_eq_true ..).mp hrun
  have hlen := of_decide_eq_true hcond
  have hle := hall 1 true _ s Nat.one_pos hs "a"
  omega

end Upq.Notify
