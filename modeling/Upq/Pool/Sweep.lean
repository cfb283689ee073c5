/-
  Pool/Sweep.lean --- the IO watchdog and all connections of its pool.

  Source: `PgPool::register_connection` and `PgPool::io_watchdog_loop` in
  `src/upq/PgPool.cpp`; `mark_await_begin`, `mark_await_end` and
  `abort_io_from_watchdog` in `src/upq/PgConnection.cpp`.

  `Connection/Watchdog.lean` follows one connection and shows that a pass cuts nothing
  that is not overdue.  Here is the other half, for any number of connections: a pass
  forgets no connection and leaves no overdue await alone.  Every connection of the pool is
  one of those machines and moves by its steps (`conn_of_exec`).

  The registry `conns_` is a vector of weak pointers.  A pass compacts it in place under
  `conns_mtx_`, one slot a step: registrations wait for the mutex, but the last owner of
  a connection may let go of it between any two steps.  Behind the mutex the pass looks
  at its snapshot, one atomic access a step.
-/
import Upq.Connection.Watchdog
import Mathlib.Data.List.ReduceOption

set_option autoImplicit false

namespace Upq.Sweep

open Upq.Foundation Upq.Watchdog

/-! ## State -/

/-- A connection of the pool.  `held` says that somebody other than the watchdog has a
`shared_ptr` to it, `settled` that its deadline was not set since its last await began, and
`noSocket` that the watchdog came to cut it when libpq had no socket. -/
structure Link where
  held : Bool
  conn : Watchdog.State
  settled : Bool
  noSocket : Bool
  deriving DecidableEq, Repr

/-- A connection as `std::make_shared` creates it.  It publishes no await before its connect
has succeeded. -/
def Link.fresh (clock : Nat) : Link :=
  { held := true, conn := .init clock, settled := true, noSocket := false }

/-- A step of one connection. -/
def Link.take (l : Link) (e : Watchdog.Event) : Option Link :=
  (Watchdog.step l.conn e).map fun conn =>
    { l with
      conn
      settled :=
        match e with
        | .markAwaitBegin => true
        | .setIoDeadlineMs _ => false
        | _ => l.settled
      noSocket := l.noSocket || decide (e = .cut false) }

/-- The pass that has read the clock comes to the connection with its value. -/
def Link.readNow (l : Link) : Link := (l.take .readNow).getD l

/-- Where `io_watchdog_loop` is.  `compact r w live` is the loop under `conns_mtx_`; `known`
are the connections registered when the mutex was released, `rest` those of the snapshot
still to be dealt with.  How far the pass is with the first of them, that connection says. -/
inductive Pass where
  | away
  | stopped
  | compact (r w : Nat) (live : List Nat)
  | stamp (live known : List Nat)
  | scan (now : Nat) (known rest : List Nat)
  deriving DecidableEq, Repr

/-- The pool.  Connections are numbered as they are made; `registered` are those given to
`register_connection`, in order; a slot of `conns` is a weak pointer, empty when it was
moved from; `last` is the clock value and the `known` of the last complete pass. -/
structure State where
  clock : Nat
  made : Nat
  links : Nat → Link
  registered : List Nat
  conns : List (Option Nat)
  pass : Pass
  last : Option (Nat × List Nat)

def State.init (clock : Nat) : State :=
  { clock, made := 0, links := fun _ => .fresh clock, registered := [], conns := [], pass := .away
    last := none }

/-- One connection has moved. -/
def State.setLink (s : State) (c : Nat) (l : Link) : State :=
  { s with links := Function.update s.links c l }

/-- `conns_[w] = std::move(conns_[r])`; a slot moved onto itself keeps its pointer. -/
def moveSlot (conns : List (Option Nat)) (r w : Nat) : List (Option Nat) :=
  if w = r then conns else (conns.set w (conns[r]?.join)).set r none

/-! ## Steps -/

/-- The owners of a connection, and `own` one of their steps; then the watchdog, and `look`
one of its steps at the connection it is at. -/
inductive Event where
  | time (clock : Nat)
  | make
  | register (c : Nat)
  | own (c : Nat) (e : Watchdog.Event)
  | letGo (c : Nat)
  | wake
  | stop
  | turn
  | readNow
  | look (e : Watchdog.Event)
  | done
  deriving DecidableEq, Repr

/-- A step of the connection itself. -/
def isOwn : Watchdog.Event → Bool
  | .markAwaitBegin | .markAwaitEnd | .setIoDeadlineMs _ | .close => true
  | _ => false

/-- A step of the watchdog at one connection. -/
def isLook : Watchdog.Event → Bool
  | .readSince | .compare | .enterAbort | .cut _ => true
  | _ => false

def step (s : State) : Event → Option State
  | .time clock =>
      if s.clock ≤ clock ∧ clock < 2 ^ 64 then
        some { s with
          clock, links := fun c => { s.links c with conn := { (s.links c).conn with clock } } }
      else none
  | .make => some { s with made := s.made + 1 }
  | .register c =>
      match s.pass with
      | .compact .. => none
      | _ =>
          if c < s.made ∧ c ∉ s.registered then
            some { s with conns := s.conns ++ [some c], registered := s.registered ++ [c] }
          else none
  | .own c e =>
      -- a coroutine that awaits on a connection has a pointer to it
      if isOwn e ∧ c < s.made ∧ (e = .markAwaitBegin → (s.links c).held) then
        ((s.links c).take e).map (s.setLink c)
      else none
  | .letGo c =>
      if c < s.made ∧ (s.links c).conn.awaitSinceMs = 0 then
        some (s.setLink c { s.links c with held := false })
      else none
  | .wake =>
      match s.pass with
      | .away => some { s with pass := .compact 0 0 [] }
      | _ => none
  | .stop =>
      match s.pass with
      | .away => some { s with pass := .stopped }
      | _ => none
  | .turn =>
      match s.pass with
      | .compact r w live =>
          match s.conns[r]? with
          | none => some { s with conns := s.conns.take w, pass := .stamp live s.registered }
          | some none => some { s with pass := .compact (r + 1) w live }
          | some (some c) =>
              -- `lock()`: the pointers in `live` keep a connection alive as well
              if (s.links c).held ∨ c ∈ live then
                some { s with
                  conns := moveSlot s.conns r w, pass := .compact (r + 1) (w + 1) (live ++ [c]) }
              else some { s with pass := .compact (r + 1) w live }
      | _ => none
  | .readNow =>
      match s.pass with
      | .stamp live known =>
          -- the one clock value is for all of the snapshot
          some { s with
            pass := .scan s.clock known live
            links := fun c => if c ∈ live then (s.links c).readNow else s.links c }
      | _ => none
  | .look e =>
      match s.pass with
      | .scan now known (c :: rest) =>
          if isLook e then
            ((s.links c).take e).map fun l =>
              { s.setLink c l with
                pass := .scan now known (if l.conn.pass = .away then rest else c :: rest) }
          else none
      | _ => none
  | .done =>
      match s.pass with
      | .scan now known [] => some { s with pass := .away, last := some (now, known) }
      | _ => none

/-! ## What a step does -/

/-- `conns_mtx_` is free. -/
def Pass.unlocked : Pass → Bool
  | .compact .. => false
  | _ => true

/-- The steps that are possible. -/
inductive Stepped (s : State) : State → Prop where
  | time (clock : Nat) (hle : s.clock ≤ clock) (hlt : clock < 2 ^ 64) :
      Stepped s { s with
        clock, links := fun c => { s.links c with conn := { (s.links c).conn with clock } } }
  | make : Stepped s { s with made := s.made + 1 }
  | register (c : Nat) (hunlocked : s.pass.unlocked = true) (hfresh : c ∉ s.registered) :
      Stepped s { s with conns := s.conns ++ [some c], registered := s.registered ++ [c] }
  | own (c : Nat) (e : Watchdog.Event) (l : Link) (hown : isOwn e = true)
      (htake : (s.links c).take e = some l) : Stepped s (s.setLink c l)
  | letGo (c : Nat) : Stepped s (s.setLink c { s.links c with held := false })
  | wake (hpass : s.pass = .away) : Stepped s { s with pass := .compact 0 0 [] }
  | stop (hpass : s.pass = .away) : Stepped s { s with pass := .stopped }
  | resize (r w : Nat) (live : List Nat) (hpass : s.pass = .compact r w live)
      (hp : s.conns[r]? = none) :
      Stepped s { s with conns := s.conns.take w, pass := .stamp live s.registered }
  | skip (r w : Nat) (live : List Nat) (p : Option Nat) (hpass : s.pass = .compact r w live)
      (hp : s.conns[r]? = some p) (hdead : ∀ c, p = some c → (s.links c).held = false) :
      Stepped s { s with pass := .compact (r + 1) w live }
  | keep (r w : Nat) (live : List Nat) (c : Nat) (hpass : s.pass = .compact r w live)
      (hp : s.conns[r]? = some (some c)) :
      Stepped s { s with
        conns := moveSlot s.conns r w, pass := .compact (r + 1) (w + 1) (live ++ [c]) }
  | readNow (live known : List Nat) (hpass : s.pass = .stamp live known) :
      Stepped s { s with
        pass := .scan s.clock known live
        links := fun c => if c ∈ live then (s.links c).readNow else s.links c }
  | look (now c : Nat) (known rest : List Nat) (e : Watchdog.Event) (l : Link)
      (hpass : s.pass = .scan now known (c :: rest)) (hlook : isLook e = true)
      (htake : (s.links c).take e = some l) :
      Stepped s { s.setLink c l with
        pass := .scan now known (if l.conn.pass = .away then rest else c :: rest) }
  | done (now : Nat) (known : List Nat) (hpass : s.pass = .scan now known []) :
      Stepped s { s with pass := .away, last := some (now, known) }

/-- **Inversion.** -/
theorem step_stepped {s s' : State} {e : Event} (h : step s e = some s') : Stepped s s' := by
  cases e with
  | time clock =>
      simp only [step, Option.ite_none_right_eq_some, Option.some.injEq] at h
      exact h.2 ▸ .time clock h.1.1 h.1.2
  | make =>
      cases h
      exact .make
  | register c =>
      simp only [step] at h
      split at h
      · cases h
      · rename_i hpass
        simp only [Option.ite_none_right_eq_some, Option.some.injEq] at h
        refine h.2 ▸ .register c ?_ h.1.2
        cases hp : s.pass with
        | compact r w live => exact absurd hp (hpass r w live)
        | _ => rfl
  | own c e =>
      simp only [step, Option.ite_none_right_eq_some, Option.map_eq_some_iff] at h
      obtain ⟨⟨hown, -⟩, l, htake, rfl⟩ := h
      exact .own c e l hown htake
  | letGo c =>
      simp only [step, Option.ite_none_right_eq_some, Option.some.injEq] at h
      exact h.2 ▸ .letGo c
  | wake =>
      simp only [step] at h
      split at h <;> cases h
      exact .wake ‹_›
  | stop =>
      simp only [step] at h
      split at h <;> cases h
      exact .stop ‹_›
  | turn =>
      simp only [step] at h
      split at h
      · rename_i r w live hpass
        split at h
        · cases h
          exact .resize r w live hpass ‹_›
        · cases h
          exact .skip r w live none hpass ‹_› fun c hc => by cases hc
        · rename_i c hp
          split at h
          · cases h
            exact .keep r w live c hpass hp
          · rename_i hdead
            cases h
            refine .skip r w live (some c) hpass hp fun c' hc' => ?_
            cases hc'
            simpa using not_or.mp hdead |>.1
      · cases h
  | readNow =>
      simp only [step] at h
      split at h <;> cases h
      exact .readNow _ _ ‹_›
  | look e =>
      simp only [step] at h
      split at h
      · rename_i now known c rest hpass
        simp only [Option.ite_none_right_eq_some, Option.map_eq_some_iff] at h
        obtain ⟨hlook, l, htake, rfl⟩ := h
        exact .look now c known rest e l hpass hlook htake
      · cases h
  | done =>
      simp only [step] at h
      split at h <;> cases h
      exact .done _ _ ‹_›

/-! ## Compacting in place -/

section

variable {conns : List (Option Nat)} {r w : Nat} {p : Option Nat}

theorem length_moveSlot (conns : List (Option Nat)) (r w : Nat) :
    (moveSlot conns r w).length = conns.length := by
  unfold moveSlot
  split
  · rfl
  · rw [List.length_set, List.length_set]

/-- The slots behind the reader are as they were. -/
theorem drop_moveSlot (h : w ≤ r) : (moveSlot conns r w).drop (r + 1) = conns.drop (r + 1) := by
  unfold moveSlot
  split
  · rfl
  · rw [List.drop_set_of_lt (by omega), List.drop_set_of_lt (by omega)]

/-- The slots before the writer gain the one that was read. -/
theorem take_moveSlot (h : w ≤ r) (hp : conns[r]? = some p) :
    (moveSlot conns r w).take (w + 1) = conns.take w ++ [p] := by
  have hr : r < conns.length := (List.getElem?_eq_some_iff.mp hp).1
  unfold moveSlot
  split
  · rename_i heq
    subst heq
    rw [List.take_add_one, hp]
    rfl
  · rename_i hne
    rw [List.take_set_of_le (by omega), hp, List.take_add_one, List.take_set_of_le (Nat.le_refl w),
      List.getElem?_set_self (by omega)]
    rfl

/-- The slots not yet read begin with the next one. -/
theorem drop_eq_slot (hp : conns[r]? = some p) : conns.drop r = p :: conns.drop (r + 1) := by
  obtain ⟨hr, rfl⟩ := List.getElem?_eq_some_iff.mp hp
  exact List.drop_eq_getElem_cons hr

end

theorem reduceOption_map_some {α : Type} (cs : List α) : (cs.map some).reduceOption = cs := by
  rw [List.reduceOption, List.filterMap_map]
  exact List.filterMap_some

/-! ## Nothing is forgotten -/

/-- The pointers the registry holds; while it is compacted, those before the writer and those
from the reader on. -/
def State.entries (s : State) : List Nat :=
  match s.pass with
  | .compact r w _ => (s.conns.take w ++ s.conns.drop r).reduceOption
  | _ => s.conns.reduceOption

/-- Those of some connections that are held. -/
def State.held (s : State) (cs : List Nat) : List Nat := cs.filter fun c => (s.links c).held

/-- The connections that are registered and held are in the registry, in order, and nothing
that is not registered; a loop under the mutex has moved to the front what it has put into
its snapshot. -/
structure Registry (s : State) : Prop where
  nodup : s.registered.Nodup
  sublist : s.entries.Sublist s.registered
  complete : s.held s.entries = s.held s.registered
  compacting : ∀ r w live, s.pass = .compact r w live →
    w ≤ r ∧ r ≤ s.conns.length ∧ s.conns.take w = live.map some
  stamped : ∀ live known, s.pass = .stamp live known → live.Nodup ∧ ∀ c ∈ s.held known, c ∈ live

theorem registry_init (clock : Nat) : Registry (State.init clock) where
  nodup := List.nodup_nil
  sublist := List.Sublist.refl _
  complete := rfl
  compacting r w live h := by cases h
  stamped live known h := by cases h

section

variable {s s' : State}

theorem mem_held {cs : List Nat} {c : Nat} : c ∈ s.held cs ↔ c ∈ cs ∧ (s.links c).held = true :=
  List.mem_filter

/-- Who is held afterwards was held before. -/
theorem held_of_le {links : Nat → Link}
    (h : ∀ c, (links c).held = true → (s.links c).held = true) (cs : List Nat) :
    State.held { s with links } cs = (s.held cs).filter fun c => (links c).held := by
  rw [State.held, State.held, List.filter_filter]
  refine List.filter_congr fun c _ => ?_
  cases hc : (links c).held with
  | false => rfl
  | true => simp [h c hc]

/-- Connections change, and none is held anew. -/
theorem Registry.links (h : Registry s) (links : Nat → Link)
    (hheld : ∀ c, (links c).held = true → (s.links c).held = true) :
    Registry { s with links } where
  nodup := h.nodup
  sublist := h.sublist
  complete := by
    rw [held_of_le hheld, held_of_le hheld]
    exact congrArg _ h.complete
  compacting := h.compacting
  stamped live known hpass := by
    obtain ⟨hnodup, hall⟩ := h.stamped live known hpass
    refine ⟨hnodup, fun c hc => ?_⟩
    rw [held_of_le hheld] at hc
    exact hall c (List.mem_of_mem_filter hc)

theorem Registry.setLink (h : Registry s) (c : Nat) {l : Link}
    (hl : l.held = true → (s.links c).held = true) : Registry (s.setLink c l) := by
  refine h.links _ fun c' hc' => ?_
  by_cases heq : c' = c
  · subst heq
    rw [Function.update_self] at hc'
    exact hl hc'
  · rwa [Function.update_of_ne heq] at hc'

theorem entries_of_unlocked (h : s.pass.unlocked = true) : s.entries = s.conns.reduceOption := by
  unfold State.entries
  split
  · rename_i hpass
    rw [hpass] at h
    cases h
  · rfl

theorem Pass.ne_compact {pass : Pass} (h : pass.unlocked = true) {r w : Nat} {live : List Nat} :
    pass ≠ .compact r w live := by
  rintro rfl
  cases h

/-- The pass goes on outside the mutex. -/
theorem Registry.move (h : Registry s) {pass : Pass} (last : Option (Nat × List Nat))
    (hfrom : s.pass.unlocked = true) (hto : pass.unlocked = true)
    (hstamp : ∀ live known, pass ≠ .stamp live known) : Registry { s with pass, last } := by
  have hentries : State.entries { s with pass, last } = s.entries := by
    rw [entries_of_unlocked hfrom]
    exact entries_of_unlocked hto
  refine ⟨h.nodup, ?_, ?_, fun r w live heq => absurd heq (Pass.ne_compact hto),
    fun live known heq => absurd heq (hstamp live known)⟩
  · rw [hentries]
    exact h.sublist
  · rw [hentries]
    exact h.complete

/-- A slot whose pointer is empty or dead is passed over. -/
theorem Registry.skip (h : Registry s) {r w : Nat} {live : List Nat} {p : Option Nat}
    (hpass : s.pass = .compact r w live) (hp : s.conns[r]? = some p)
    (hdead : ∀ c, p = some c → (s.links c).held = false) :
    Registry { s with pass := .compact (r + 1) w live } := by
  obtain ⟨hwr, hr, hlive⟩ := h.compacting r w live hpass
  have hlt : r < s.conns.length := (List.getElem?_eq_some_iff.mp hp).1
  have hentries : s.entries = (s.conns.take w).reduceOption ++ p.toList ++
      (s.conns.drop (r + 1)).reduceOption := by
    rw [State.entries, hpass]
    dsimp only
    rw [drop_eq_slot hp, List.reduceOption_append]
    cases p <;> simp
  have hentries' : State.entries { s with pass := .compact (r + 1) w live } =
      (s.conns.take w).reduceOption ++ (s.conns.drop (r + 1)).reduceOption :=
    List.reduceOption_append _ _
  refine ⟨h.nodup, ?_, ?_, fun r' w' live' heq => ?_, fun _ _ heq => by cases heq⟩
  · refine List.Sublist.trans ?_ h.sublist
    rw [hentries, hentries']
    exact (List.sublist_append_left _ _).append (List.Sublist.refl _)
  · refine Eq.trans ?_ h.complete
    rw [hentries, hentries']
    cases p with
    | none => simp [State.held]
    | some c => simp [State.held, hdead c rfl]
  · cases heq
    exact ⟨Nat.le_succ_of_le hwr, hlt, hlive⟩

/-- A slot whose pointer could be locked is moved to the front. -/
theorem Registry.keep (h : Registry s) {r w c : Nat} {live : List Nat}
    (hpass : s.pass = .compact r w live) (hp : s.conns[r]? = some (some c)) :
    Registry { s with
      conns := moveSlot s.conns r w, pass := .compact (r + 1) (w + 1) (live ++ [c]) } := by
  obtain ⟨hwr, hr, hlive⟩ := h.compacting r w live hpass
  have hlt : r < s.conns.length := (List.getElem?_eq_some_iff.mp hp).1
  have hentries : State.entries { s with
      conns := moveSlot s.conns r w, pass := .compact (r + 1) (w + 1) (live ++ [c]) } =
        s.entries := by
    rw [State.entries, State.entries, hpass]
    dsimp only
    rw [take_moveSlot hwr hp, drop_moveSlot hwr, drop_eq_slot hp, List.append_assoc]
    rfl
  refine ⟨h.nodup, hentries ▸ h.sublist, ?_, fun r' w' live' heq => ?_,
    fun _ _ heq => by cases heq⟩
  · rw [hentries]
    exact h.complete
  · cases heq
    rw [length_moveSlot, take_moveSlot hwr hp, hlive, List.map_append]
    exact ⟨by omega, by omega, rfl⟩

/-- At the end of the loop the registry is the snapshot. -/
theorem Registry.entries_eq_live (h : Registry s) {r w : Nat} {live : List Nat}
    (hpass : s.pass = .compact r w live) (hp : s.conns[r]? = none) : s.entries = live := by
  obtain ⟨-, -, hlive⟩ := h.compacting r w live hpass
  rw [State.entries, hpass]
  dsimp only
  rw [List.drop_eq_nil_of_le (List.getElem?_eq_none_iff.mp hp), List.append_nil, hlive,
    reduceOption_map_some]

/-- And the snapshot has everything that is held. -/
theorem Registry.snapshot (h : Registry s) {r w : Nat} {live : List Nat}
    (hpass : s.pass = .compact r w live) (hp : s.conns[r]? = none) :
    s.held live = s.held s.registered := by
  rw [← h.entries_eq_live hpass hp]
  exact h.complete

theorem Registry.resize (h : Registry s) {r w : Nat} {live : List Nat}
    (hpass : s.pass = .compact r w live) (hp : s.conns[r]? = none) :
    Registry { s with conns := s.conns.take w, pass := .stamp live s.registered } := by
  obtain ⟨-, -, hlive⟩ := h.compacting r w live hpass
  have hall := h.snapshot hpass hp
  have hsublist := h.sublist
  rw [h.entries_eq_live hpass hp] at hsublist
  have hentries : State.entries { s with
      conns := s.conns.take w, pass := .stamp live s.registered } = live := by
    show (s.conns.take w).reduceOption = live
    rw [hlive, reduceOption_map_some]
  refine ⟨h.nodup, hentries ▸ hsublist, ?_, (fun r' w' live' heq => by cases heq),
    fun live' known heq => ?_⟩
  · rw [hentries]
    exact hall
  · cases heq
    refine ⟨h.nodup.sublist hsublist, fun c hc => ?_⟩
    have hmem : c ∈ s.held s.registered := hc
    rw [← hall] at hmem
    exact List.mem_of_mem_filter hmem

theorem Registry.register (h : Registry s) {c : Nat} (hfresh : c ∉ s.registered)
    (hpass : s.pass.unlocked = true) :
    Registry { s with conns := s.conns ++ [some c], registered := s.registered ++ [c] } := by
  let t : State := { s with conns := s.conns ++ [some c], registered := s.registered ++ [c] }
  have hentries : t.entries = s.entries ++ [c] := by
    rw [entries_of_unlocked (s := s) hpass, entries_of_unlocked (s := t) hpass]
    exact List.reduceOption_append _ _
  refine ⟨?_, hentries ▸ h.sublist.append (List.Sublist.refl _), ?_,
    fun r w live heq => absurd heq (Pass.ne_compact hpass), h.stamped⟩
  · refine List.nodup_append.mpr ⟨h.nodup, by simp, ?_⟩
    rintro x hx y hy rfl
    exact hfresh (List.mem_singleton.mp hy ▸ hx)
  · have hcomplete := h.complete
    rw [hentries, State.held, State.held, List.filter_append, List.filter_append]
    exact congrArg (· ++ _) hcomplete

/-- A step of a connection leaves its owners alone. -/
theorem take_held {l l' : Link} {e : Watchdog.Event} (h : l.take e = some l') :
    l'.held = l.held := by
  obtain ⟨conn, -, rfl⟩ := Option.map_eq_some_iff.mp h
  rfl

theorem readNow_held (l : Link) : l.readNow.held = l.held := by
  unfold Link.readNow
  cases htake : l.take .readNow with
  | none => rfl
  | some l' => exact take_held htake

theorem registry_step (h : Registry s) (hstep : Stepped s s') : Registry s' := by
  cases hstep with
  | time clock _ _ =>
      have hlinks := h.links
        (fun c => { s.links c with conn := { (s.links c).conn with clock } }) fun _ => id
      exact ⟨hlinks.nodup, hlinks.sublist, hlinks.complete, hlinks.compacting, hlinks.stamped⟩
  | make => exact ⟨h.nodup, h.sublist, h.complete, h.compacting, h.stamped⟩
  | register c hunlocked hfresh => exact h.register hfresh hunlocked
  | own c e l _ htake => exact h.setLink c fun hheld => take_held htake ▸ hheld
  | letGo c => exact h.setLink c fun hno => by cases hno
  | wake hpass =>
      have hentries : s.entries = State.entries { s with pass := .compact 0 0 [] } :=
        entries_of_unlocked (by rw [hpass]; rfl)
      refine ⟨h.nodup, hentries ▸ h.sublist, ?_, fun r w live heq => ?_,
        fun _ _ heq => by cases heq⟩
      · rw [← hentries]
        exact h.complete
      · cases heq
        exact ⟨Nat.le_refl 0, Nat.zero_le _, rfl⟩
  | stop hpass => exact h.move s.last (by rw [hpass]; rfl) rfl fun _ _ => Pass.noConfusion
  | resize r w live hpass hp => exact h.resize hpass hp
  | skip r w live p hpass hp hdead => exact h.skip hpass hp hdead
  | keep r w live c hpass hp => exact h.keep hpass hp
  | readNow live known hpass =>
      have hlinks := h.links (fun c => if c ∈ live then (s.links c).readNow else s.links c)
        fun c hheld => by
          split at hheld
          · exact readNow_held _ ▸ hheld
          · exact hheld
      exact hlinks.move s.last (by rw [hpass]; rfl) rfl fun _ _ => Pass.noConfusion
  | look now c known rest e l hpass _ htake =>
      have hset := h.setLink c (l := l) fun hheld => take_held htake ▸ hheld
      have hunlocked : s.pass.unlocked = true := by rw [hpass]; rfl
      exact hset.move s.last hunlocked rfl fun _ _ => Pass.noConfusion
  | done now known hpass => exact h.move _ (by rw [hpass]; rfl) rfl fun _ _ => Pass.noConfusion

end

/-! ## Every connection is a machine of its own -/

/-- The connection has come here by steps of its own and of the watchdog at it. -/
def Reached (clock : Nat) (conn : Watchdog.State) : Prop :=
  ∃ es, exec Watchdog.step (Watchdog.State.init clock) es = some conn

theorem Reached.step {clock : Nat} {conn conn' : Watchdog.State} {e : Watchdog.Event}
    (h : Reached clock conn) (hstep : Watchdog.step conn e = some conn') :
    Reached clock conn' := by
  obtain ⟨es, hes⟩ := h
  refine ⟨es ++ [e], ?_⟩
  rw [exec_append, hes]
  exact exec_cons_of_step hstep []

/-- All connections of the pool see one clock. -/
structure Followed (clock : Nat) (s : State) : Prop where
  clocks : ∀ c, (s.links c).conn.clock = s.clock
  reached : ∀ c, Reached clock (s.links c).conn

theorem followed_init (clock : Nat) : Followed clock (State.init clock) :=
  ⟨fun _ => rfl, fun _ => ⟨[], rfl⟩⟩

section

variable {s s' : State} {clock : Nat}

theorem setLink_self (c : Nat) (l : Link) : (s.setLink c l).links c = l :=
  Function.update_self ..

theorem setLink_of_ne {c x : Nat} (hx : x ≠ c) (l : Link) :
    (s.setLink c l).links x = s.links x :=
  Function.update_of_ne hx ..

theorem take_step {l l' : Link} {e : Watchdog.Event} (h : l.take e = some l') :
    Watchdog.step l.conn e = some l'.conn := by
  obtain ⟨conn, hconn, rfl⟩ := Option.map_eq_some_iff.mp h
  exact hconn

/-- A step that is not time's leaves the clock alone. -/
theorem take_clock {l l' : Link} {e : Watchdog.Event} (h : l.take e = some l')
    (he : isOwn e = true ∨ isLook e = true ∨ e = .readNow) : l'.conn.clock = l.conn.clock := by
  rcases step_clock (take_step h) with hclock | ⟨clock, rfl, -, -⟩
  · exact hclock
  · rcases he with he | he | he <;> cases he

/-- One connection moves. -/
theorem Followed.take (h : Followed clock s) {c : Nat} {l : Link} {e : Watchdog.Event}
    (htake : (s.links c).take e = some l)
    (he : isOwn e = true ∨ isLook e = true ∨ e = .readNow) :
    l.conn.clock = s.clock ∧ Reached clock l.conn :=
  ⟨(take_clock htake he).trans (h.clocks c), (h.reached c).step (take_step htake)⟩

theorem Followed.readNow (h : Followed clock s) (c : Nat) :
    (s.links c).readNow.conn.clock = s.clock ∧ Reached clock (s.links c).readNow.conn := by
  unfold Link.readNow
  cases htake : (s.links c).take .readNow with
  | none => exact ⟨h.clocks c, h.reached c⟩
  | some l => exact h.take htake (.inr (.inr rfl))

theorem Followed.setLink (h : Followed clock s) (c : Nat) {l : Link}
    (hl : l.conn.clock = s.clock ∧ Reached clock l.conn) : Followed clock (s.setLink c l) := by
  have hall : ∀ x, ((s.setLink c l).links x).conn.clock = s.clock ∧
      Reached clock ((s.setLink c l).links x).conn := by
    intro x
    by_cases hx : x = c
    · subst hx
      rw [setLink_self]
      exact hl
    · rw [setLink_of_ne hx]
      exact ⟨h.clocks x, h.reached x⟩
  exact ⟨fun x => (hall x).1, fun x => (hall x).2⟩

theorem followed_step (h : Followed clock s) (hstep : Stepped s s') : Followed clock s' := by
  cases hstep with
  | time now hle hlt =>
      refine ⟨fun _ => rfl, fun c => (h.reached c).step (e := .time now) ?_⟩
      rw [← h.clocks c] at hle
      exact if_pos ⟨hle, hlt⟩
  | own c e l hown htake => exact h.setLink c (h.take htake (.inl hown))
  | letGo c => exact h.setLink c ⟨h.clocks c, h.reached c⟩
  | readNow live known _ =>
      have hall : ∀ c, ((if c ∈ live then (s.links c).readNow else s.links c) : Link).conn.clock =
          s.clock ∧
          Reached clock ((if c ∈ live then (s.links c).readNow else s.links c) : Link).conn := by
        intro c
        split
        · exact h.readNow c
        · exact ⟨h.clocks c, h.reached c⟩
      exact ⟨fun c => (hall c).1, fun c => (hall c).2⟩
  | look now c known rest e l _ hlook htake =>
      have hset := h.setLink c (h.take htake (.inr (.inl hlook)))
      exact ⟨hset.clocks, hset.reached⟩
  | make | register | wake | stop | resize | skip | keep | done => exact ⟨h.clocks, h.reached⟩

end

/-! ## No overdue await is left alone -/

/-- An await is published and was overdue at `now`, under a deadline that was not set since
it began. -/
def Link.Overdue (l : Link) (now : Nat) : Prop :=
  l.conn.awaitSinceMs ≠ 0 ∧ l.conn.awaitSinceMs + l.conn.deadline ≤ now ∧ l.settled = true

/-- The socket was shut down, or the connection is closed, or the watchdog came to shut the
socket down and libpq had none. -/
def Link.Answered (l : Link) : Prop :=
  l.conn.shutdown = true ∨ l.conn.isOpen = false ∨ l.noSocket = true

instance (l : Link) (now : Nat) : Decidable (l.Overdue now) := inferInstanceAs (Decidable (_ ∧ _))

instance (l : Link) : Decidable l.Answered := inferInstanceAs (Decidable (_ ∨ _))

theorem deadlineOf_pos (ms : Nat) : 0 < deadlineOf ms := by
  unfold deadlineOf
  split
  · omega
  · decide

/-- An await that began at `now` or later was not overdue then. -/
theorem not_overdue_of_le {l : Link} {now : Nat} (h : now ≤ l.conn.awaitSinceMs) :
    ¬l.Overdue now := by
  rintro ⟨-, hle, -⟩
  have hpos : 0 < l.conn.deadline := deadlineOf_pos _
  omega

/-- A change that is not the watchdog's: an await that is overdue afterwards was there before,
and what was answered stays so. -/
structure Tame (clock : Nat) (l l' : Link) : Prop where
  held : l'.held = true → l.held = true
  pass : l'.conn.pass = l.conn.pass
  overdue : ∀ now ≤ clock, l'.Overdue now →
    l.Overdue now ∧ l'.conn.awaitSinceMs = l.conn.awaitSinceMs
  answered : l.Answered → l'.Answered

theorem Tame.refl (clock : Nat) (l : Link) : Tame clock l l :=
  ⟨id, rfl, fun _ _ h => ⟨h, rfl⟩, id⟩

/-- What a step of a connection does to an answer: nothing undoes one. -/
theorem take_answered {l l' : Link} {e : Watchdog.Event} (h : l.take e = some l')
    (ha : l.Answered) : l'.Answered := by
  obtain ⟨conn, hstep, rfl⟩ := Option.map_eq_some_iff.mp h
  have hnone : l.noSocket = true → (l.noSocket || decide (e = .cut false)) = true := by
    intro hn
    rw [hn, Bool.true_or]
  suffices hconn : (l.conn.shutdown = true → conn.shutdown = true) ∧
      (l.conn.isOpen = false → conn.isOpen = false) from
    ha.imp hconn.1 (.imp hconn.2 hnone)
  cases e with
  | time clock | markAwaitBegin | setIoDeadlineMs ms | readNow | enterAbort =>
      simp only [Watchdog.step, Option.ite_none_right_eq_some, Option.some.injEq] at hstep
      exact hstep.2 ▸ ⟨id, id⟩
  | markAwaitEnd =>
      cases hstep
      exact ⟨id, id⟩
  | close =>
      simp only [Watchdog.step, Option.ite_none_left_eq_some, Option.some.injEq] at hstep
      exact hstep.2 ▸ ⟨id, fun _ => rfl⟩
  | readSince | compare =>
      simp only [Watchdog.step] at hstep
      split at hstep <;> cases hstep
      exact ⟨id, id⟩
  | cut socketOk =>
      simp only [Watchdog.step, Option.ite_none_right_eq_some, Option.some.injEq] at hstep
      refine hstep.2 ▸ ⟨fun hshut => ?_, id⟩
      simp [Watchdog.State.cut, hshut]

/-- The steps of the owners. -/
theorem tame_take {l l' : Link} {e : Watchdog.Event} (hown : isOwn e = true)
    (h : l.take e = some l') : Tame l.conn.clock l l' := by
  obtain ⟨conn, hstep, rfl⟩ := Option.map_eq_some_iff.mp h
  cases e with
  | markAwaitBegin =>
      simp only [Watchdog.step, Option.ite_none_right_eq_some, Option.some.injEq] at hstep
      obtain ⟨-, rfl⟩ := hstep
      refine ⟨fun hl => hl, rfl, fun now hnow hover => ?_, take_answered h⟩
      exact absurd hover (not_overdue_of_le hnow)
  | markAwaitEnd =>
      cases hstep
      exact ⟨fun hl => hl, rfl, fun now _ hover => absurd rfl hover.1, take_answered h⟩
  | setIoDeadlineMs ms =>
      simp only [Watchdog.step, Option.ite_none_right_eq_some, Option.some.injEq] at hstep
      obtain ⟨-, rfl⟩ := hstep
      refine ⟨fun hl => hl, rfl, fun now _ hover => ?_, take_answered h⟩
      cases hover.2.2
  | close =>
      simp only [Watchdog.step, Option.ite_none_left_eq_some, Option.some.injEq] at hstep
      obtain ⟨-, rfl⟩ := hstep
      exact ⟨fun hl => hl, rfl, fun now _ hover => ⟨hover, rfl⟩, fun _ => .inr (.inl rfl)⟩
  | _ => cases hown

/-- What a pass that read the clock at `now` knows of the connection it has to deal with. -/
def Link.At (l : Link) (now : Nat) : Prop :=
  match l.conn.pass with
  | .away => False
  | .scan now' => now' = now
  | .compare now' since => now' = now ∧ (l.Overdue now → since = l.conn.awaitSinceMs)
  | .abort | .fire => True

theorem Tame.at {clock now : Nat} {l l' : Link} (h : Tame clock l l') (hnow : now ≤ clock)
    (hat : l.At now) : l'.At now := by
  unfold Link.At at hat ⊢
  rw [h.pass]
  split at hat
  · exact hat
  · exact hat
  · refine ⟨hat.1, fun hover => ?_⟩
    obtain ⟨hover', hsince⟩ := h.overdue now hnow hover
    rw [hsince]
    exact hat.2 hover'
  · trivial
  · trivial

/-- **The watchdog at one connection.**  When it turns away, an await that was overdue has
been answered. -/
theorem look_take {l l' : Link} {e : Watchdog.Event} {now : Nat} (hlook : isLook e = true)
    (hat : l.At now) (h : l.take e = some l') (hnow : now ≤ l.conn.clock)
    (hlt : l.conn.clock < 2 ^ 64) :
    (∀ t, l'.Overdue t → l.Overdue t) ∧ (l.Answered → l'.Answered) ∧
      (l'.conn.pass = .away → l.Overdue now → l'.Answered) ∧
      (l'.conn.pass ≠ .away → l'.At now) := by
  obtain ⟨conn, hstep, rfl⟩ := Option.map_eq_some_iff.mp h
  cases e with
  | readSince =>
      simp only [Watchdog.step] at hstep
      split at hstep
      · rename_i now' hpass
        cases hstep
        unfold Link.At at hat
        rw [hpass] at hat
        subst hat
        refine ⟨fun _ hover => hover, take_answered h, fun haway hover => ?_,
          fun hne => ?_⟩
        · dsimp only at haway
          rw [if_neg hover.1] at haway
          cases haway
        · dsimp only at hne
          by_cases hzero : l.conn.awaitSinceMs = 0
          · rw [if_pos hzero] at hne
            exact absurd rfl hne
          · simp only [Link.At, if_neg hzero]
            exact ⟨trivial, fun _ => trivial⟩
      · cases hstep
  | compare =>
      simp only [Watchdog.step] at hstep
      split at hstep
      · rename_i now' since hpass
        cases hstep
        unfold Link.At at hat
        rw [hpass] at hat
        obtain ⟨rfl, hsince⟩ := hat
        refine ⟨fun _ hover => hover, take_answered h, fun haway hover => ?_,
          fun hne => ?_⟩
        · -- the sum does not wrap: it is at most `now`
          have hsum := hover.2.1
          rw [hsince hover, Nat.mod_eq_of_lt (by omega), if_neg (by omega)] at haway
          cases haway
        · dsimp only at hne
          split at hne
          · exact absurd rfl hne
          · rename_i hlate
            simp only [Link.At, if_neg hlate]
      · cases hstep
  | enterAbort =>
      simp only [Watchdog.step, Option.ite_none_right_eq_some, Option.some.injEq] at hstep
      obtain ⟨-, rfl⟩ := hstep
      refine ⟨fun _ hover => hover, take_answered h, fun haway hover => ?_,
        fun hne => ?_⟩
      · dsimp only at haway
        split at haway
        · rename_i hgone
          rcases hgone with hclosed | hzero
          · exact .inr (.inl hclosed)
          · exact absurd hzero hover.1
        · cases haway
      · dsimp only at hne
        split at hne
        · exact absurd rfl hne
        · rename_i hparked
          simp only [Link.At, if_neg hparked]
  | cut socketOk =>
      simp only [Watchdog.step, Option.ite_none_right_eq_some, Option.some.injEq] at hstep
      obtain ⟨-, rfl⟩ := hstep
      refine ⟨fun _ hover => hover, take_answered h, fun _ _ => ?_, fun hne => absurd rfl hne⟩
      cases socketOk with
      | true => exact .inl (by simp [Watchdog.State.cut])
      | false => exact .inr (.inr (by simp))
  | _ => cases hlook

theorem readNow_eq {l : Link} (h : l.conn.pass = .away) :
    l.readNow = { l with conn := { l.conn with pass := .scan l.conn.clock } } := by
  simp [Link.readNow, Link.take, Watchdog.step, h]

/-- What a pass has still to deal with. -/
def Pass.rest : Pass → List Nat
  | .scan _ _ rest => rest
  | _ => []

/-- An await that was overdue when the pass read the clock is answered or still to come; so
it is answered when the pass is over. -/
structure Watched (s : State) : Prop where
  clock_lt : s.clock < 2 ^ 64
  nodup : s.pass.rest.Nodup
  away : ∀ c, c ∉ s.pass.rest → (s.links c).conn.pass = .away
  current : ∀ now known rest, s.pass = .scan now known rest → now ≤ s.clock ∧
    (∀ c ∈ rest, (s.links c).At now) ∧
    ∀ c ∈ s.held known, (s.links c).Overdue now → (s.links c).Answered ∨ c ∈ rest
  last : ∀ now known, s.last = some (now, known) → now ≤ s.clock ∧
    ∀ c ∈ s.held known, (s.links c).Overdue now → (s.links c).Answered

theorem watched_init {clock : Nat} (h : clock < 2 ^ 64) : Watched (State.init clock) where
  clock_lt := h
  nodup := List.nodup_nil
  away _ _ := rfl
  current now known rest heq := by cases heq
  last now known heq := by cases heq

section

variable {s s' : State}

/-- Connections change, but not at the watchdog's hands, and time may go on. -/
theorem Watched.tame (h : Watched s) (clock : Nat) (links : Nat → Link) (hle : s.clock ≤ clock)
    (hlt : clock < 2 ^ 64) (htame : ∀ c, Tame s.clock (s.links c) (links c)) :
    Watched { s with clock, links } := by
  have hheld : ∀ {known : List Nat} {c : Nat}, c ∈ State.held { s with clock, links } known →
      c ∈ s.held known := fun hc =>
    mem_held.mpr ⟨(mem_held.mp hc).1, (htame _).held (mem_held.mp hc).2⟩
  refine ⟨hlt, h.nodup, fun c hc => (htame c).pass.trans (h.away c hc),
    fun now known rest heq => ?_, fun now known heq => ?_⟩
  · obtain ⟨hnow, hat, hcur⟩ := h.current now known rest heq
    refine ⟨hnow.trans hle, fun c hc => (htame c).at hnow (hat c hc), fun c hc hover => ?_⟩
    rcases hcur c (hheld hc) ((htame c).overdue now hnow hover).1 with ha | hmem
    · exact .inl ((htame c).answered ha)
    · exact .inr hmem
  · obtain ⟨hnow, hlast⟩ := h.last now known heq
    refine ⟨hnow.trans hle, fun c hc hover => (htame c).answered ?_⟩
    exact hlast c (hheld hc) ((htame c).overdue now hnow hover).1

theorem Watched.setLink (h : Watched s) (c : Nat) {l : Link}
    (hl : Tame s.clock (s.links c) l) : Watched (s.setLink c l) := by
  refine h.tame s.clock _ (Nat.le_refl _) h.clock_lt fun x => ?_
  by_cases hx : x = c
  · subst hx
    rw [Function.update_self]
    exact hl
  · rw [Function.update_of_ne hx]
    exact .refl _ _

/-- The pass is not at its snapshot, before or after. -/
theorem Watched.move (h : Watched s) (conns : List (Option Nat)) (hfrom : s.pass.rest = [])
    {pass : Pass} (hto : ∀ now known rest, pass ≠ .scan now known rest) :
    Watched { s with conns, pass } := by
  have hrest : pass.rest = [] := by
    cases pass with
    | scan now known rest => exact absurd rfl (hto now known rest)
    | _ => rfl
  refine ⟨h.clock_lt, ?_, fun c _ => ?_, fun now known rest heq => absurd heq (hto now known rest),
    h.last⟩
  · show pass.rest.Nodup
    rw [hrest]
    exact List.nodup_nil
  · exact h.away c (by rw [hfrom]; exact List.not_mem_nil)

/-- The clock is read: every connection of the snapshot is still to be dealt with. -/
theorem Watched.readNow (h : Watched s) (hreg : Registry s)
    (hclocks : ∀ c, (s.links c).conn.clock = s.clock) {live known : List Nat}
    (hpass : s.pass = .stamp live known) :
    Watched { s with
      pass := .scan s.clock known live
      links := fun c => if c ∈ live then (s.links c).readNow else s.links c } := by
  obtain ⟨hnodup, hall⟩ := hreg.stamped live known hpass
  have haway : ∀ c, (s.links c).conn.pass = .away := fun c =>
    h.away c (by rw [hpass]; exact List.not_mem_nil)
  let links := fun c => if c ∈ live then (s.links c).readNow else s.links c
  -- whoever holds a connection, its await and its answer are as they were
  have hsame : ∀ c, (links c).held = (s.links c).held ∧
      (∀ now, (links c).Overdue now → (s.links c).Overdue now) ∧
      ((s.links c).Answered → (links c).Answered) := by
    intro c
    by_cases hmem : c ∈ live
    · rw [show links c = _ from if_pos hmem, readNow_eq (haway c)]
      exact ⟨rfl, fun _ => id, id⟩
    · rw [show links c = _ from if_neg hmem]
      exact ⟨rfl, fun _ => id, id⟩
  have hheld : ∀ {cs : List Nat} {c : Nat}, c ∈ cs ∧ (links c).held = true → c ∈ s.held cs :=
    fun hc => mem_held.mpr ⟨hc.1, (hsame _).1 ▸ hc.2⟩
  refine ⟨h.clock_lt, hnodup, fun c hc => ?_, fun now known' rest heq => ?_,
    fun now known' heq => ?_⟩
  · have hmem : c ∉ live := hc
    show (links c).conn.pass = .away
    rw [show links c = _ from if_neg hmem]
    exact haway c
  · cases heq
    refine ⟨Nat.le_refl _, fun c hc => ?_, fun c hc _ => .inr (hall c (hheld (mem_held.mp hc)))⟩
    show (links c).At s.clock
    rw [show links c = _ from if_pos hc, readNow_eq (haway c)]
    exact hclocks c
  · obtain ⟨hnow, hlast⟩ := h.last now known' heq
    refine ⟨hnow, fun c hc hover => (hsame c).2.2 ?_⟩
    exact hlast c (hheld (mem_held.mp hc)) ((hsame c).2.1 now hover)

/-- What is left of a pass that may be done with its first connection. -/
theorem mem_left_of_ne {c x : Nat} {rest : List Nat} {gone : Prop} [Decidable gone] (h : x ≠ c) :
    x ∈ (if gone then rest else c :: rest) ↔ x ∈ c :: rest := by
  split <;> simp [h]

theorem self_mem_left {c : Nat} {rest : List Nat} {gone : Prop} [Decidable gone] (h : c ∉ rest) :
    c ∈ (if gone then rest else c :: rest) ↔ ¬gone := by
  split <;> simp [*]

/-- A connection that is held after the watchdog's step was held before it. -/
theorem held_of_take {c : Nat} {l : Link} {e : Watchdog.Event} (htake : (s.links c).take e = some l)
    {cs : List Nat} {x : Nat} (hx : x ∈ State.held (s.setLink c l) cs) : x ∈ s.held cs := by
  obtain ⟨hmem, hx⟩ := mem_held.mp hx
  refine mem_held.mpr ⟨hmem, ?_⟩
  by_cases heq : x = c
  · subst heq
    rw [setLink_self] at hx
    exact take_held htake ▸ hx
  · rwa [setLink_of_ne heq] at hx

/-- The watchdog is at a connection, and may be done with it. -/
theorem Watched.look (h : Watched s) (hclocks : ∀ c, (s.links c).conn.clock = s.clock)
    {e : Watchdog.Event} (hlook : isLook e = true) {now c : Nat} {known rest : List Nat} {l : Link}
    (hpass : s.pass = .scan now known (c :: rest)) (htake : (s.links c).take e = some l) :
    Watched { s.setLink c l with
      pass := .scan now known (if l.conn.pass = .away then rest else c :: rest) } := by
  obtain ⟨hnow, hat, hcur⟩ := h.current now known (c :: rest) hpass
  have hnodup := h.nodup
  rw [hpass] at hnodup
  obtain ⟨hnotin, hnodup'⟩ := List.nodup_cons.mp hnodup
  have hlt : (s.links c).conn.clock < 2 ^ 64 := (hclocks c).trans_lt h.clock_lt
  obtain ⟨hover, hans, hdone, hstays⟩ := look_take hlook (hat c List.mem_cons_self) htake
    (hnow.trans (hclocks c).ge) hlt
  refine ⟨h.clock_lt, ?_, fun x hx => ?_, fun now' known' rest' heq => ?_,
    fun now' known' heq => ?_⟩
  · show (if l.conn.pass = .away then rest else c :: rest).Nodup
    split
    · exact hnodup'
    · exact hnodup
  · change x ∉ (if l.conn.pass = .away then rest else c :: rest) at hx
    change ((s.setLink c l).links x).conn.pass = .away
    by_cases hxc : x = c
    · subst hxc
      rw [self_mem_left hnotin, not_not] at hx
      rwa [setLink_self]
    · rw [mem_left_of_ne hxc] at hx
      rw [setLink_of_ne hxc]
      exact h.away x (by rwa [hpass])
  · injection heq with hnow' hknown' hrest'
    subst hnow' hknown' hrest'
    refine ⟨hnow, fun x hx => ?_, fun x hx hoverx => ?_⟩
    · change ((s.setLink c l).links x).At now
      by_cases hxc : x = c
      · subst hxc
        rw [setLink_self]
        exact hstays ((self_mem_left hnotin).mp hx)
      · rw [setLink_of_ne hxc]
        exact hat x ((mem_left_of_ne hxc).mp hx)
    · change ((s.setLink c l).links x).Overdue now at hoverx
      change ((s.setLink c l).links x).Answered ∨ _
      by_cases hxc : x = c
      · subst hxc
        rw [setLink_self] at hoverx ⊢
        rw [self_mem_left hnotin]
        exact or_iff_not_imp_right.mpr fun hpassed =>
          hdone (not_not.mp hpassed) (hover now hoverx)
      · rw [setLink_of_ne hxc] at hoverx ⊢
        rw [mem_left_of_ne hxc]
        exact hcur x (held_of_take htake hx) hoverx
  · obtain ⟨hle, hlast⟩ := h.last now' known' heq
    refine ⟨hle, fun x hx hoverx => ?_⟩
    change ((s.setLink c l).links x).Overdue now' at hoverx
    change ((s.setLink c l).links x).Answered
    have hbefore := hlast x (held_of_take htake hx)
    by_cases hxc : x = c
    · subst hxc
      rw [setLink_self] at hoverx ⊢
      exact hans (hbefore (hover now' hoverx))
    · rw [setLink_of_ne hxc] at hoverx ⊢
      exact hbefore hoverx

theorem watched_step (h : Watched s) (hreg : Registry s)
    (hclocks : ∀ c, (s.links c).conn.clock = s.clock) (hstep : Stepped s s') : Watched s' := by
  cases hstep with
  | time clock hle hlt =>
      exact h.tame clock _ hle hlt fun c => ⟨id, rfl, fun _ _ hover => ⟨hover, rfl⟩, id⟩
  | make | register => exact ⟨h.clock_lt, h.nodup, h.away, h.current, h.last⟩
  | own c e l hown htake => exact h.setLink c (hclocks c ▸ tame_take hown htake)
  | letGo c =>
      refine h.setLink c ⟨fun hno => ?_, rfl, fun _ _ hover => ⟨hover, rfl⟩, id⟩
      cases hno
  | wake hpass | stop hpass =>
      exact h.move _ (by rw [hpass]; rfl) fun _ _ _ => Pass.noConfusion
  | resize r w live hpass _ | keep r w live c hpass _ | skip r w live p hpass _ _ =>
      exact h.move _ (by rw [hpass]; rfl) fun _ _ _ => Pass.noConfusion
  | readNow live known hpass => exact h.readNow hreg hclocks hpass
  | look now c known rest e l hpass hlook htake => exact h.look hclocks hlook hpass htake
  | done now known hpass =>
      obtain ⟨hnow, -, hcur⟩ := h.current now known [] hpass
      refine ⟨h.clock_lt, List.nodup_nil, fun c _ => h.away c ?_, fun _ _ _ heq => ?_,
        fun now' known' heq => ?_⟩
      · rw [hpass]
        exact List.not_mem_nil
      · cases heq
      · cases heq
        exact ⟨hnow, fun c hc hover => (hcur c hc hover).resolve_right List.not_mem_nil⟩

end

/-! ## Whole runs -/

section

variable {clock : Nat} {es : List Event} {s : State}

theorem followed_of_exec (h : exec step (State.init clock) es = some s) : Followed clock s :=
  exec_invariant (Followed clock) (fun _ _ _ hs hstep => followed_step hs (step_stepped hstep))
    (followed_init clock) h

/-- Each connection of the pool has run as `Connection/Watchdog.lean` has it. -/
theorem conn_of_exec (h : exec step (State.init clock) es = some s) (c : Nat) :
    Reached clock (s.links c).conn :=
  (followed_of_exec h).reached c

theorem registry_of_exec (h : exec step (State.init clock) es = some s) : Registry s :=
  exec_invariant Registry (fun _ _ _ hs hstep => registry_step hs (step_stepped hstep))
    (registry_init clock) h

theorem watched_of_exec (hclock : clock < 2 ^ 64)
    (h : exec step (State.init clock) es = some s) : Watched s := by
  have hall := exec_invariant (fun s => Watched s ∧ Registry s ∧ Followed clock s)
    (fun _ _ _ hs hstep => ⟨watched_step hs.1 hs.2.1 hs.2.2.clocks (step_stepped hstep),
      registry_step hs.2.1 (step_stepped hstep), followed_step hs.2.2 (step_stepped hstep)⟩)
    ⟨watched_init hclock, registry_init clock, followed_init clock⟩ h
  exact hall.1

/-- **The registry forgets nothing.**  Whatever is registered and let go while passes compact
the registry: each registered connection that somebody holds is in it once, in the order
of registration, and when the loop of a pass ends, the slots it keeps are its snapshot, in
which all of them are. -/
theorem registry_forgets_nothing (h : exec step (State.init clock) es = some s) :
    s.registered.Nodup ∧
      (s.pass.unlocked = true → s.held s.conns.reduceOption = s.held s.registered) ∧
      ∀ r w live, s.pass = .compact r w live → s.conns[r]? = none →
        s.conns.take w = live.map some ∧ s.held live = s.held s.registered := by
  have hreg := registry_of_exec h
  refine ⟨hreg.nodup, fun hunlocked => ?_, fun r w live hpass hend => ?_⟩
  · rw [← entries_of_unlocked hunlocked]
    exact hreg.complete
  · exact ⟨(hreg.compacting r w live hpass).2.2, hreg.snapshot hpass hend⟩

/-- Three connections; the first is let go before the pass, the third while it is at the
second slot. -/
def sweepRun : List Event :=
  [.make, .register 0, .make, .register 1, .make, .register 2, .letGo 0, .wake, .turn, .turn,
    .letGo 2, .turn]

theorem registry_forgets_nothing_sweep :
    ∃ s, exec step (State.init 1000) sweepRun = some s ∧ s.pass = .compact 3 1 [1] ∧
      s.conns.take 1 = [some 1] ∧ s.held [1] = s.held s.registered := by
  have hrun : (exec step (State.init 1000) sweepRun).map
      (fun s => decide (s.pass = .compact 3 1 [1] ∧ s.conns[3]? = none)) = some true := by decide
  obtain ⟨s, hs, hend⟩ := Option.map_eq_some_iff.mp hrun
  obtain ⟨hpass, hover⟩ := of_decide_eq_true hend
  obtain ⟨-, -, hsnapshot⟩ := registry_forgets_nothing hs
  exact ⟨s, hs, hpass, hsnapshot 3 1 [1] hpass hover⟩

/-- **No overdue await survives a pass.**  After a pass that read the clock at `now`, a
connection that was registered before the pass, and that is held, has no await that was
overdue at `now` under a deadline that was not set since the await began, unless its socket
was shut down, it is closed, or libpq had no socket for it when the watchdog came to cut it:
however awaits, registrations and closes fall between the steps of the pass. -/
theorem overdue_await_answered (hclock : clock < 2 ^ 64)
    (h : exec step (State.init clock) es = some s) {now c : Nat} {known : List Nat}
    (hlast : s.last = some (now, known)) (hknown : c ∈ known) (hheld : (s.links c).held = true)
    (hover : (s.links c).Overdue now) : (s.links c).Answered :=
  ((watched_of_exec hclock h).last now known hlast).2 c (mem_held.mpr ⟨hknown, hheld⟩) hover

/-- The first connection is let go while the pass compacts, a third one is registered while it
scans, and the second one's await is overdue. -/
def overdueRun : List Event :=
  [.make, .register 0, .make, .register 1, .own 1 (.setIoDeadlineMs 50), .own 1 .markAwaitBegin,
    .time 2000, .wake, .turn, .letGo 0, .turn, .turn, .readNow, .look .readSince,
    .look .readSince, .look .compare, .make, .register 2, .look .enterAbort, .look (.cut true),
    .done]

theorem overdue_await_answered_second :
    ∃ s, exec step (State.init 1000) overdueRun = some s ∧ s.last = some (2000, [0, 1]) ∧
      (s.links 1).Overdue 2000 ∧ (s.links 1).Answered := by
  have hrun : (exec step (State.init 1000) overdueRun).map
      (fun s => decide (s.last = some (2000, [0, 1]) ∧ (s.links 1).held = true ∧
        (s.links 1).Overdue 2000)) = some true := by decide +kernel
  obtain ⟨s, hs, hend⟩ := Option.map_eq_some_iff.mp hrun
  obtain ⟨hlast, hheld, hover⟩ := of_decide_eq_true hend
  exact ⟨s, hs, hlast, hover,
    overdue_await_answered (by decide) hs hlast (by decide) hheld hover⟩

end

end Upq.Sweep
