/-
  Pool/Wakeup.lean --- no wake-up of `idle_sem_` is lost.

  Source: `src/upq/PgPool.cpp`, `acquire_connection`, `release_connection` and
  `mark_dead`.

  The idle check, the capacity check and the park of `acquire_connection` are
  three steps, and a client of `take_idle` can take an idle connection without
  taking a permit.  So neither "a connection is idle" nor "there is capacity" is
  matched by a permit; what is matched is their sum, and only while somebody is
  about to park.  `Wakeups` keeps two such counts:

    * while a coroutine has found the queue empty and is about to read
      `live_count_`, every idle connection is matched by a permit, a woken waiter,
      a woken coroutine before its idle check, or a release still to come (`idle`);
    * while a coroutine is about to park or is parked, idle connections and free
      capacity together are matched by those and by the woken coroutines before
      their capacity check (`capacity`).

  The second follows from the first at the moment `live_count_` is seen full.
-/
import Upq.Pool.Accounting

set_option autoImplicit false

namespace Upq.Pool

open Upq.Foundation

/-! ## Who re-checks and who will release -/

/-- 1 for a coroutine that has come out of `idle_sem_` with a permit and has not
finished re-checking: it is in `take_idle`, or between the load and the
compare-exchange of `live_count_`. -/
def rechecking : Coro → Nat
  | .tryDequeue (.acquire true) | .checkUsable (.acquire true) _ | .checkSocket (.acquire true) _
  | .deadCas (.takeIdle (.acquire true)) _ | .deadClose (.takeIdle (.acquire true)) _
  | .deadFetchSub (.takeIdle (.acquire true)) _ | .deadCloseAgain (.takeIdle (.acquire true)) _
  | .semRelease (.takeIdle (.acquire true)) | .loadLive true | .casLive true _ => 1
  | _ => 0

/-- 1 for a call of `release_connection` or `mark_dead` that has enqueued or
decremented and not yet released `idle_sem_`. -/
def releasing : Coro → Nat
  | .semRelease _ => 1
  | _ => 0

/-- 1 for a woken coroutine before its idle check. -/
def beforeIdle : Coro → Nat
  | .tryDequeue (.acquire true) => 1
  | _ => 0

/-- 1 for a woken coroutine before its idle check or its capacity check. -/
def beforeCapacity : Coro → Nat
  | .tryDequeue (.acquire true) | .loadLive true | .casLive true _ => 1
  | _ => 0

/-- 1 for a coroutine that found the queue empty and is about to read
`live_count_`. -/
def loading : Coro → Nat
  | .loadLive _ => 1
  | _ => 0

/-- 1 for a coroutine about to take a permit or to park. -/
def acquiring : Coro → Nat
  | .semAcquire => 1
  | _ => 0

/-- 1 for a coroutine that parked and has not run since. -/
def parks : Coro → Nat
  | .parked => 1
  | _ => 0

@[simp] theorem beforeIdle_tryDequeue (w : Bool) :
    beforeIdle (.tryDequeue (.acquire w)) = w.toNat := by
  cases w <;> rfl

@[simp] theorem beforeCapacity_tryDequeue (w : Bool) :
    beforeCapacity (.tryDequeue (.acquire w)) = w.toNat := by
  cases w <;> rfl

@[simp] theorem beforeCapacity_loadLive (w : Bool) : beforeCapacity (.loadLive w) = w.toNat := by
  cases w <;> rfl

@[simp] theorem beforeCapacity_casLive (w : Bool) (n : Nat) :
    beforeCapacity (.casLive w n) = w.toNat := by
  cases w <;> rfl

theorem beforeIdle_le_beforeCapacity (l : Coro) : beforeIdle l ≤ beforeCapacity l := by
  unfold beforeIdle
  split <;> simp

theorem beforeCapacity_le_rechecking (l : Coro) : beforeCapacity l ≤ rechecking l := by
  unfold beforeCapacity rechecking
  split <;> simp

/-! ## What one action can do -/

/-- A coroutine that no count but the idle check's sees. -/
structure Coro.Plain (l : Coro) : Prop where
  loading : loading l = 0
  acquiring : acquiring l = 0
  parks : parks l = 0
  releasing : releasing l = 0
  capacity : beforeCapacity l = beforeIdle l

theorem Back.coro_plain (b : Back) : b.coro.Plain := by
  rcases b with _ | _ | w
  · exact ⟨rfl, rfl, rfl, rfl, rfl⟩
  · exact ⟨rfl, rfl, rfl, rfl, rfl⟩
  · exact ⟨rfl, rfl, rfl, rfl, by simp [Back.coro]⟩

/-- The effect of one action on the semaphore and on what it counts. -/
inductive Wake (cfg : Config) (s s' : Shared) : Coro → Coro → Prop where
  -- at most the queue shrinks, and a woken coroutine that dequeues takes from it
  | still {l l' : Coro} (hlive : s'.liveCount = s.liveCount) (hsem : s'.idleSem = s.idleSem)
      (hidle : s'.idle.length + beforeIdle l ≤ s.idle.length + beforeIdle l')
      (hl : l.Plain) (hl' : l'.Plain) : Wake cfg s s' l l'
  | lookEmpty (w : Bool) (hs : s' = s) (hempty : s.idle = []) :
      Wake cfg s s' (.tryDequeue (.acquire w)) (.loadLive w)
  | loadRoom (w : Bool) (hs : s' = s) : Wake cfg s s' (.loadLive w) (.casLive w s.liveCount)
  | loadFull (w : Bool) (hs : s' = s) (hfull : cfg.maxPool ≤ s.liveCount) :
      Wake cfg s s' (.loadLive w) .semAcquire
  | permit (m : Semaphore) (hs : s' = { s with idleSem := m })
      (hm : s.idleSem.acquire = (m, true)) :
      Wake cfg s s' .semAcquire (.tryDequeue (.acquire true))
  | park (m : Semaphore) (hs : s' = { s with idleSem := m })
      (hm : s.idleSem.acquire = (m, false)) : Wake cfg s s' .semAcquire .parked
  | quit (hs : s' = s) : Wake cfg s s' .semAcquire .outside
  | resume (m : Semaphore) (hs : s' = { s with idleSem := m })
      (hm : s.idleSem.resume = some m) : Wake cfg s s' .parked (.tryDequeue (.acquire true))
  | quitParked (m : Semaphore) (hs : s' = { s with idleSem := m })
      (hm : s.idleSem.cancel = some m) : Wake cfg s s' .parked .outside
  | casOk (w : Bool) (c : Nat) (hidle : s'.idle = s.idle) (hsem : s'.idleSem = s.idleSem)
      (hlive : s'.liveCount = sizeSucc s.liveCount) :
      Wake cfg s s' (.casLive w s.liveCount) (.connecting c 0)
  | casFail (w : Bool) (n : Nat) (hs : s' = s) :
      Wake cfg s s' (.casLive w n) (.tryDequeue (.acquire w))
  | enqueue (c : Nat) (hs : s' = { s with idle := s.idle ++ [c] }) :
      Wake cfg s s' (.tryEnqueue c) (.semRelease .client)
  | decrement (b : Back) (c : Nat) (hidle : s'.idle = s.idle) (hsem : s'.idleSem = s.idleSem)
      (hlive : s'.liveCount = fetchSub s.liveCount) :
      Wake cfg s s' (.deadFetchSub b c) (.semRelease b)
  | release (b : Back) (hs : s' = { s with idleSem := s.idleSem.release }) :
      Wake cfg s s' (.semRelease b) b.coro

@[simp] theorem update_idleSem (s : Shared) (c : Nat) (f : Conn → Conn) :
    (s.update c f).idleSem = s.idleSem := by
  unfold Shared.update; split <;> rfl

section Inversion

attribute [local irreducible] sizeSucc fetchSub

/-- **Step inversion** for the wake-ups. -/
theorem coroStep_wake {cfg : Config} {s s' : Shared} {l l' : Coro} {e : Event}
    (h : coroStep cfg s l e = some (s', l')) : Wake cfg s s' l l' := by
  unfold coroStep at h
  repeat' split at h
  all_goals first
    | cases h; done
    | obtain ⟨rfl, rfl⟩ := Prod.mk.inj (Option.some.inj h)
  all_goals first
    | exact .still rfl rfl (Nat.le_refl _) ⟨rfl, rfl, rfl, rfl, rfl⟩ ⟨rfl, rfl, rfl, rfl, rfl⟩
    | exact .still (update_liveCount _ _ _) (update_idleSem _ _ _) (by simp [beforeIdle])
        ⟨rfl, rfl, rfl, rfl, rfl⟩ ⟨rfl, rfl, rfl, rfl, rfl⟩
    | exact .still (update_liveCount _ _ _) (update_idleSem _ _ _)
        (by rw [update_idle]; exact Nat.le_add_right _ _)
        ⟨rfl, rfl, rfl, rfl, rfl⟩ (Back.coro_plain _)
    | exact .loadRoom _ rfl
    | exact .loadFull _ rfl ‹_›
    | exact .permit _ rfl ‹_›
    | exact .park _ rfl ‹_›
    | exact .quit rfl
    | exact .resume _ rfl ‹_›
    | exact .quitParked _ rfl ‹_›
    | exact .casFail _ _ rfl
    | exact .enqueue _ rfl
    | exact .decrement _ _ (update_idle _ _ _) (update_idleSem _ _ _) rfl
    | exact .release _ rfl
    | skip
  -- left: the two outcomes of `try_dequeue` and the successful compare-exchange
  · rename_i k _ hempty
    rcases k with _ | w
    · exact .still rfl rfl (Nat.le_refl _) ⟨rfl, rfl, rfl, rfl, rfl⟩ ⟨rfl, rfl, rfl, rfl, rfl⟩
    · exact .lookEmpty w rfl hempty
  · rename_i k _ c rest hidle
    have hlen : s.idle.length = rest.length + 1 := by rw [hidle, List.length_cons]
    rcases k with _ | w
    · exact .still rfl rfl (by rw [hlen]; exact Nat.le_succ _) ⟨rfl, rfl, rfl, rfl, rfl⟩
        ⟨rfl, rfl, rfl, rfl, rfl⟩
    · refine .still rfl rfl ?_ ⟨rfl, rfl, rfl, rfl, by simp⟩ ⟨rfl, rfl, rfl, rfl, rfl⟩
      rw [hlen, beforeIdle_tryDequeue]
      exact Nat.add_le_add_left (Bool.toNat_le w) _
  · rename_i heq
    subst heq
    exact .casOk _ _ rfl rfl rfl

end Inversion

/-! ## The invariant -/

/-- What is matched by permits, wake-ups and releases to come. -/
structure Wakeups (cfg : Config) (s : Shared) (ls : List Coro) : Prop where
  idle : 0 < tally loading ls →
    s.idle.length ≤ s.idleSem.permits + s.idleSem.granted + tally beforeIdle ls + tally releasing ls
  capacity : 0 < tally acquiring ls + s.idleSem.waiters →
    s.idle.length + (cfg.maxPool - s.liveCount) ≤
      s.idleSem.permits + s.idleSem.granted + tally beforeCapacity ls + tally releasing ls
  parked : tally parks ls = s.idleSem.waiters + s.idleSem.granted
  noIdlePermit : s.idleSem.NoIdlePermit

/-- One coroutine moves from `l` to `l'`. -/
structure Counted (l l' : Coro) (ls ls' : List Coro) : Prop where
  loading : tally loading ls' + loading l = tally loading ls + loading l'
  acquiring : tally acquiring ls' + acquiring l = tally acquiring ls + acquiring l'
  parks : tally parks ls' + parks l = tally parks ls + parks l'
  releasing : tally releasing ls' + releasing l = tally releasing ls + releasing l'
  beforeIdle : tally beforeIdle ls' + beforeIdle l = tally beforeIdle ls + beforeIdle l'
  beforeCapacity :
    tally beforeCapacity ls' + beforeCapacity l = tally beforeCapacity ls + beforeCapacity l'

theorem counted_set {ls : List Coro} {i : Nat} {l : Coro} (l' : Coro) (hl : ls[i]? = some l) :
    Counted l l' ls (ls.set i l') :=
  ⟨tally_set l' hl, tally_set l' hl, tally_set l' hl, tally_set l' hl, tally_set l' hl,
    tally_set l' hl⟩

section Semaphore

variable {cfg : Config} {s : Shared} {ls ls' : List Coro} {m : Semaphore}

theorem wakeups_permit (hc : Counted .semAcquire (.tryDequeue (.acquire true)) ls ls')
    (hm : s.idleSem.acquire = (m, true)) (hw : Wakeups cfg s ls) :
    Wakeups cfg { s with idleSem := m } ls' := by
  obtain ⟨hload, hacq, hpark, hrel, hbi, hbc⟩ := hc
  obtain ⟨hidle, hcap, hparked, hperm⟩ := hw
  simp only [loading, acquiring, parks, releasing, beforeIdle, beforeCapacity]
    at hload hacq hpark hrel hbi hbc
  rcases s.idleSem.acquire_cases with ⟨hpos, heq⟩ | ⟨_, heq⟩
  · obtain ⟨rfl, -⟩ := Prod.mk.inj (hm.symm.trans heq)
    unfold Semaphore.NoIdlePermit at hperm
    constructor
    all_goals simp only [Semaphore.NoIdlePermit]
    all_goals omega
  · rw [heq] at hm
    cases hm

theorem wakeups_park (hc : Counted .semAcquire .parked ls ls')
    (hm : s.idleSem.acquire = (m, false)) (hw : Wakeups cfg s ls) :
    Wakeups cfg { s with idleSem := m } ls' := by
  obtain ⟨hload, hacq, hpark, hrel, hbi, hbc⟩ := hc
  obtain ⟨hidle, hcap, hparked, -⟩ := hw
  simp only [loading, acquiring, parks, releasing, beforeIdle, beforeCapacity]
    at hload hacq hpark hrel hbi hbc
  rcases s.idleSem.acquire_cases with ⟨_, heq⟩ | ⟨hzero, heq⟩
  · rw [heq] at hm
    cases hm
  · obtain ⟨rfl, -⟩ := Prod.mk.inj (hm.symm.trans heq)
    constructor
    all_goals simp only [Semaphore.NoIdlePermit]
    all_goals omega

theorem wakeups_resume (hc : Counted .parked (.tryDequeue (.acquire true)) ls ls')
    (hm : s.idleSem.resume = some m) (hw : Wakeups cfg s ls) :
    Wakeups cfg { s with idleSem := m } ls' := by
  obtain ⟨hpos, rfl⟩ := Semaphore.resume_eq_some hm
  obtain ⟨hload, hacq, hpark, hrel, hbi, hbc⟩ := hc
  obtain ⟨hidle, hcap, hparked, hperm⟩ := hw
  simp only [loading, acquiring, parks, releasing, beforeIdle, beforeCapacity]
    at hload hacq hpark hrel hbi hbc
  constructor
  all_goals first | exact hperm | (dsimp only; omega)

theorem wakeups_quitParked (hc : Counted .parked .outside ls ls') (hm : s.idleSem.cancel = some m)
    (hw : Wakeups cfg s ls) : Wakeups cfg { s with idleSem := m } ls' := by
  obtain ⟨hpos, rfl⟩ := Semaphore.cancel_eq_some hm
  obtain ⟨hload, hacq, hpark, hrel, hbi, hbc⟩ := hc
  obtain ⟨hidle, hcap, hparked, hperm⟩ := hw
  unfold Semaphore.NoIdlePermit at hperm
  simp only [loading, acquiring, parks, releasing, beforeIdle, beforeCapacity]
    at hload hacq hpark hrel hbi hbc
  constructor
  all_goals simp only [Semaphore.NoIdlePermit]
  all_goals omega

theorem wakeups_release {b : Back} (hc : Counted (.semRelease b) b.coro ls ls')
    (hw : Wakeups cfg s ls) : Wakeups cfg { s with idleSem := s.idleSem.release } ls' := by
  obtain ⟨hload, hacq, hpark, hrel, hbi, hbc⟩ := hc
  obtain ⟨hidle, hcap, hparked, hperm⟩ := hw
  have hpl := b.coro_plain
  unfold Semaphore.NoIdlePermit at hperm
  rw [hpl.loading] at hload
  rw [hpl.acquiring] at hacq
  rw [hpl.parks] at hpark
  rw [hpl.releasing] at hrel
  rw [hpl.capacity] at hbc
  have hloadl : loading (.semRelease b) = 0 := rfl
  have hacql : acquiring (.semRelease b) = 0 := rfl
  have hparkl : parks (.semRelease b) = 0 := rfl
  have hrell : releasing (.semRelease b) = 1 := rfl
  have hbil : beforeIdle (.semRelease b) = 0 := rfl
  have hbcl : beforeCapacity (.semRelease b) = 0 := rfl
  rcases s.idleSem.release_cases with ⟨hpos, heq⟩ | ⟨hzero, heq⟩
  · constructor
    all_goals simp only [heq, Semaphore.NoIdlePermit]
    all_goals omega
  · constructor
    all_goals simp only [heq, Semaphore.NoIdlePermit]
    all_goals omega

end Semaphore

/-- **Step rule.**  One action of one coroutine keeps the counts. -/
theorem wakeups_step {cfg : Config} {s s' : Shared} {l l' : Coro} {ls : List Coro} {i : Nat}
    {e : Event} (hl : ls[i]? = some l) (hstep : coroStep cfg s l e = some (s', l'))
    (hb : Books cfg s ls) (hw : Wakeups cfg s ls) : Wakeups cfg s' (ls.set i l') := by
  have hc := counted_set l' hl
  have hmem := List.mem_of_getElem? hl
  have ⟨hload, hacq, hpark, hrel, hbi, hbc⟩ := hc
  have ⟨hidle, hcap, hparked, hperm⟩ := hw
  cases coroStep_wake hstep with
  | still hlive hsem hle hpl hpl' =>
      simp only [hpl.loading, hpl'.loading, hpl.acquiring, hpl'.acquiring, hpl.parks, hpl'.parks,
        hpl.releasing, hpl'.releasing, hpl.capacity, hpl'.capacity] at hload hacq hpark hrel hbc
      constructor
      all_goals simp only [hsem, hlive]
      all_goals first | exact hperm | omega
  | lookEmpty w hs hempty =>
      subst hs
      simp only [loading, acquiring, parks, releasing, beforeIdle,
        beforeCapacity_tryDequeue, beforeCapacity_loadLive] at hload hacq hpark hrel hbi hbc
      have hlen : s'.idle.length = 0 := by rw [hempty]; rfl
      constructor
      all_goals first | exact hperm | omega
  | loadRoom w hs =>
      subst hs
      simp only [loading, acquiring, parks, releasing, beforeIdle, beforeCapacity_casLive,
        beforeCapacity_loadLive] at hload hacq hpark hrel hbi hbc
      constructor
      all_goals first | exact hperm | omega
  | loadFull w hs hfull =>
      subst hs
      -- no capacity is left, so the count of the idle check is the whole count
      have hmono := tally_mono beforeIdle_le_beforeCapacity (ls.set i .semAcquire)
      simp only [loading, acquiring, parks, releasing, beforeIdle] at hload hacq hpark hrel hbi
      constructor
      all_goals first | exact hperm | omega
  | permit m hs hm => exact hs ▸ wakeups_permit hc hm hw
  | park m hs hm => exact hs ▸ wakeups_park hc hm hw
  | quit hs =>
      subst hs
      simp only [loading, acquiring, parks, releasing, beforeIdle, beforeCapacity]
        at hload hacq hpark hrel hbi hbc
      constructor
      all_goals first | exact hperm | omega
  | resume m hs hm => exact hs ▸ wakeups_resume hc hm hw
  | quitParked m hs hm => exact hs ▸ wakeups_quitParked hc hm hw
  | casOk w c hidle' hsem hlive =>
      have hlt := hb.expected _ hmem _ rfl
      have hw := Bool.toNat_le w
      simp only [loading, acquiring, parks, releasing, beforeIdle, beforeCapacity_casLive]
        at hload hacq hpark hrel hbi hbc
      constructor
      all_goals simp only [hsem, hidle', hlive, sizeSucc_of_lt hlt]
      all_goals first | exact hperm | omega
  | casFail w n hs =>
      subst hs
      simp only [loading, acquiring, parks, releasing, beforeIdle,
        beforeCapacity_casLive, beforeCapacity_tryDequeue] at hload hacq hpark hrel hbi hbc
      constructor
      all_goals first | exact hperm | omega
  | enqueue c hs =>
      subst hs
      simp only [loading, acquiring, parks, releasing, beforeIdle, beforeCapacity]
        at hload hacq hpark hrel hbi hbc
      constructor
      all_goals simp only [List.length_append, List.length_cons, List.length_nil]
      all_goals first | exact hperm | omega
  | decrement b c hidle' hsem hlive =>
      have hpos := hb.liveCount_pos hmem rfl
      have hbound := hb.bound
      simp only [loading, acquiring, parks, releasing, beforeIdle, beforeCapacity]
        at hload hacq hpark hrel hbi hbc
      constructor
      all_goals simp only [hsem, hidle', hlive, fetchSub_of_le hbound hpos]
      all_goals first | exact hperm | omega
  | release b hs => exact hs ▸ wakeups_release hc hw

theorem wakeups_init (cfg : Config) (n : Nat) :
    Wakeups cfg (State.init n).1 (State.init n).2 where
  idle h := by
    rw [State.init, tally_replicate (by rfl)] at h
    omega
  capacity h := by
    rw [State.init, tally_replicate (by rfl)] at h
    simp [Shared.init] at h
  parked := by
    rw [State.init, tally_replicate (by rfl)]
    rfl
  noIdlePermit _ := rfl

/-- **Run rule.**  The counts hold in every state a run reaches. -/
theorem wakeups_of_exec {cfg : Config} {n : Nat} {evs : List (Nat × Event)} {st : State}
    (h : exec (step cfg) (State.init n) evs = some st) : Wakeups cfg st.1 st.2 := by
  have hboth := exec_invariant (fun st => Books cfg st.1 st.2 ∧ Wakeups cfg st.1 st.2) ?_
    ⟨books_init cfg n, wakeups_init cfg n⟩ h
  · exact hboth.2
  · rintro st ev st' ⟨hb, hw⟩ hstep
    obtain ⟨l, s', l', hl, hmove, rfl⟩ := interleave_eq_some hstep
    exact ⟨books_step hl hmove hb, wakeups_step hl hmove hb hw⟩

/-- **No lost wake-up.**  The semaphore's waiters are coroutines parked in
`acquire_connection`; and whenever one of them has not been woken, the idle
connections and the free capacity together are at most the coroutines that were
woken and still re-check, plus the releases still to come.  A coroutine is woken
from the moment it is handed a permit (`granted`, or the permit it found). -/
theorem no_lost_wakeup (cfg : Config) (n : Nat) (evs : List (Nat × Event)) (st : State)
    (h : exec (step cfg) (State.init n) evs = some st) :
    tally parks st.2 = st.1.idleSem.waiters + st.1.idleSem.granted ∧
    (0 < st.1.idleSem.waiters →
      st.1.idle.length + (cfg.maxPool - st.1.liveCount) ≤
        (st.1.idleSem.granted + tally rechecking st.2) + tally releasing st.2) := by
  have hw := wakeups_of_exec h
  refine ⟨hw.parked, ?_⟩
  intro hwait
  have hcap := hw.capacity (by omega)
  have hpermits : st.1.idleSem.permits = 0 := by
    by_contra hne
    have := hw.noIdlePermit (by omega)
    omega
  have hmono := tally_mono beforeCapacity_le_rechecking st.2
  omega

/-- A coroutine waits for the only connection; its holder has enqueued it and has
not released the semaphore yet. -/
theorem no_lost_wakeup_handover :
    let st : State := (⟨[Conn.fresh], [0], 1, ⟨0, 1, 0⟩⟩, [.semRelease .client, .parked])
    exec (step ⟨1, by decide, 1, true⟩) (State.init 2)
      [(0, .callAcquire), (0, .tick), (0, .tick), (0, .tick), (0, .connect true),
        (1, .callAcquire), (1, .tick), (1, .tick), (1, .tick), (0, .callRelease), (0, .tick),
        (0, .usable true true), (0, .tick)] = some st ∧
    0 < st.1.idleSem.waiters ∧
    st.1.idle.length + (1 - st.1.liveCount) ≤
      (st.1.idleSem.granted + tally rechecking st.2) + tally releasing st.2 := by
  intro st
  have hrun : exec (step ⟨1, by decide, 1, true⟩) (State.init 2)
      [(0, .callAcquire), (0, .tick), (0, .tick), (0, .tick), (0, .connect true),
        (1, .callAcquire), (1, .tick), (1, .tick), (1, .tick), (0, .callRelease), (0, .tick),
        (0, .usable true true), (0, .tick)] = some st := by decide
  have hwait : 0 < st.1.idleSem.waiters := by decide
  exact ⟨hrun, hwait, (no_lost_wakeup _ _ _ _ hrun).2 hwait⟩

end Upq.Pool
