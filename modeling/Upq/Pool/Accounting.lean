/-
  Pool/Accounting.lean --- what every interleaving keeps of the pool's books.

  `Effect` says once what an action can do to the connections, the idle queue,
  `live_count_` and the connection in the coroutine's hands.  The invariant
  `Books` is then preserved by one short argument per effect instead of one per action:

    * a connection is in `idle_` or in the hands of one coroutine, at most once
      in total, and neither once it is accounted dead (`owner`);
    * it is accounted dead exactly when its decrement has happened or some
      coroutine is between the compare-exchange and the `fetch_sub` (`dying`);
    * `live_count_` counts the connections that are not decremented (`live`),
      never passes `max_pool_` (`bound`), and covers what is idle or in hands
      (`room`);
    * an idle connection, or one about to be enqueued, has no deadline override
      (`deadline`).
-/
import Mathlib.Data.List.Nodup
import Upq.Pool.Machine

set_option autoImplicit false

namespace Upq.Pool

open Upq.Foundation

/-! ## What a coroutine has in its hands -/

/-- The connection a coroutine owns until it has given it back. -/
def Coro.conn? : Coro → Option Nat
  | .holding c | .checkUsable _ c | .checkSocket _ c | .connecting c _ | .connectPause c _
  | .resetDeadline c | .checkIdle c | .tryEnqueue c | .asyncReset c | .asyncCheck c
  | .asyncDrain c | .deadCas _ c | .deadClose _ c | .deadFetchSub _ c
  | .deadCloseAgain _ c => some c
  | .outside | .tryDequeue _ | .loadLive _ | .semAcquire | .parked | .casLive _ _
  | .semRelease _ => none

/-- `mark_dead` has accounted the connection and not yet decremented. -/
def Coro.dying : Coro → Bool
  | .deadClose _ _ | .deadFetchSub _ _ => true
  | _ => false

/-- `release_connection` has reset the deadline and not yet enqueued. -/
def Coro.clean : Coro → Bool
  | .checkIdle _ | .tryEnqueue _ => true
  | _ => false

/-- The value a coroutine expects in its compare-exchange of `live_count_`. -/
def Coro.expects? : Coro → Option Nat
  | .casLive _ live => some live
  | _ => none

/-- 1 for the coroutine that owns `c` and has not accounted it dead. -/
def holds (c : Nat) (l : Coro) : Nat := if l.conn? = some c ∧ l.dying = false then 1 else 0

/-- 1 for the coroutine that has accounted `c` dead and not decremented. -/
def dies (c : Nat) (l : Coro) : Nat := if l.conn? = some c ∧ l.dying = true then 1 else 0

/-- 1 for the coroutine about to enqueue `c`. -/
def cleans (c : Nat) (l : Coro) : Nat := if l.conn? = some c ∧ l.clean = true then 1 else 0

/-- 1 for a coroutine that owns some connection. -/
def owns (l : Coro) : Nat := if l.conn?.isSome then 1 else 0

/-- A number read off the record of `c`, with a value for a connection that does
not exist yet. -/
def Shared.weigh (s : Shared) (absent : Nat) (g : Conn → Nat) (c : Nat) : Nat :=
  match s.conns[c]? with
  | none => absent
  | some k => g k

/-- `dead_accounted_` of `c` as a number; a connection that does not exist yet
counts as accounted. -/
def Shared.accounted (s : Shared) : Nat → Nat := s.weigh 1 fun k => k.deadAccounted.toNat

/-- The decrement for `c` has happened, as a number. -/
def Shared.decremented (s : Shared) : Nat → Nat := s.weigh 1 fun k => k.decremented.toNat

/-- The deadline override of `c`. -/
def Shared.ioDeadlineMs (s : Shared) : Nat → Nat := s.weigh 0 fun k => k.ioDeadlineMs

/-- The number of created connections whose `live_count_` decrement has not
happened yet. -/
def Shared.undecremented (s : Shared) : Nat :=
  tally (fun k => (!k.decremented).toNat) s.conns

/-! ## Reading a record after an update -/

theorem conns_update (s : Shared) (c c' : Nat) (f : Conn → Conn) :
    (s.update c f).conns[c']? = if c' = c then s.conns[c']?.map f else s.conns[c']? := by
  unfold Shared.update
  split
  · rename_i hnone
    by_cases heq : c' = c
    · rw [if_pos heq, heq, hnone]; rfl
    · rw [if_neg heq]
  · rename_i k hk
    by_cases heq : c' = c
    · subst heq
      have hlt : c' < s.conns.length := (List.getElem?_eq_some_iff.mp hk).1
      rw [if_pos rfl, hk]
      simp [hlt]
    · rw [if_neg heq]
      simp [Ne.symm heq]

@[simp] theorem update_idle (s : Shared) (c : Nat) (f : Conn → Conn) :
    (s.update c f).idle = s.idle := by
  unfold Shared.update; split <;> rfl

@[simp] theorem update_liveCount (s : Shared) (c : Nat) (f : Conn → Conn) :
    (s.update c f).liveCount = s.liveCount := by
  unfold Shared.update; split <;> rfl

/-- **Frame.**  An update that keeps a number of every record keeps the number of
every connection. -/
theorem weigh_update_of_keep {s : Shared} {absent c : Nat} {g : Conn → Nat} {f : Conn → Conn}
    (hkeep : ∀ k, g (f k) = g k) (c' : Nat) :
    (s.update c f).weigh absent g c' = s.weigh absent g c' := by
  unfold Shared.weigh
  rw [conns_update]
  by_cases heq : c' = c
  · rw [if_pos heq]
    cases s.conns[c']? with
    | none => rfl
    | some k => exact hkeep k
  · rw [if_neg heq]

theorem weigh_congr {s s' : Shared} (h : s'.conns = s.conns) : s'.weigh = s.weigh := by
  funext absent g c
  unfold Shared.weigh
  rw [h]

theorem weigh_update_of_ne {s : Shared} {absent c c' : Nat} {g : Conn → Nat} {f : Conn → Conn}
    (hne : c' ≠ c) : (s.update c f).weigh absent g c' = s.weigh absent g c' := by
  unfold Shared.weigh
  rw [conns_update, if_neg hne]

theorem weigh_update_self {s : Shared} {absent c : Nat} {g : Conn → Nat} {f : Conn → Conn}
    {k : Conn} (hk : s.conns[c]? = some k) : (s.update c f).weigh absent g c = g (f k) := by
  unfold Shared.weigh
  rw [conns_update, if_pos rfl, hk]
  rfl

/-- Reading the numbers after a connection was created. -/
theorem weigh_append {s s' : Shared} {absent : Nat} {g : Conn → Nat} {k : Conn}
    (hs : s'.conns = s.conns ++ [k]) (c : Nat) :
    s'.weigh absent g c = if c = s.conns.length then g k else s.weigh absent g c := by
  unfold Shared.weigh
  rw [hs]
  by_cases heq : c = s.conns.length
  · rw [if_pos heq, heq]; simp
  · rw [if_neg heq]
    rcases Nat.lt_or_gt_of_ne heq with hlt | hgt
    · rw [List.getElem?_append_left hlt]
    · rw [List.getElem?_eq_none (by simp; omega), List.getElem?_eq_none (by omega)]

theorem undecremented_update_of_keep {s : Shared} {c : Nat} {f : Conn → Conn}
    (hkeep : ∀ k, (f k).decremented = k.decremented) :
    (s.update c f).undecremented = s.undecremented := by
  unfold Shared.update
  split
  · rfl
  · rename_i k hk
    have hset := tally_set (f := fun k : Conn => (!k.decremented).toNat) (f k) hk
    simp only [hkeep] at hset
    unfold Shared.undecremented
    dsimp only
    omega

/-! ## What one action can do -/

/-- The queue, `live_count_` and the dead accounting are the same. -/
structure SameBooks (s s' : Shared) : Prop where
  idle : s'.idle = s.idle
  liveCount : s'.liveCount = s.liveCount
  accounted : s'.accounted = s.accounted
  decremented : s'.decremented = s.decremented
  undecremented : s'.undecremented = s.undecremented

theorem SameBooks.update {f : Conn → Conn} (hacc : ∀ k, (f k).deadAccounted = k.deadAccounted)
    (hdec : ∀ k, (f k).decremented = k.decremented) (s : Shared) (c : Nat) :
    SameBooks s (s.update c f) where
  idle := update_idle s c f
  liveCount := update_liveCount s c f
  accounted := funext fun c' => weigh_update_of_keep (fun k => by rw [hacc]) c'
  decremented := funext fun c' => weigh_update_of_keep (fun k => by rw [hdec]) c'
  undecremented := undecremented_update_of_keep hdec

theorem sameBooks_close (s : Shared) (c : Nat) :
    SameBooks s (s.update c fun k => { k with closed := true }) :=
  .update (by intro; rfl) (by intro; rfl) s c

theorem ioDeadlineMs_close (s : Shared) (c : Nat) :
    (s.update c fun k => { k with closed := true }).ioDeadlineMs = s.ioDeadlineMs :=
  funext fun _ => weigh_update_of_keep (by intro; rfl) _

theorem sameBooks_deadline (s : Shared) (c ms : Nat) :
    SameBooks s (s.update c fun k => { k with ioDeadlineMs := ms }) :=
  .update (by intro; rfl) (by intro; rfl) s c

/-- The effect of one action on the books. -/
inductive Effect (s s' : Shared) (l l' : Coro) : Prop where
  -- books and hands stay
  | quiet (hs : SameBooks s s') (hms : s'.ioDeadlineMs = s.ioDeadlineMs)
      (hconn : l'.conn? = l.conn?) (hdying : l'.dying = l.dying)
      (hclean : l'.clean = true → l.clean = true)
  -- the coroutine holds nothing afterwards
  | letGo (hs : SameBooks s s') (hms : s'.ioDeadlineMs = s.ioDeadlineMs)
      (hdying : l.dying = false) (hconn : l'.conn? = none)
  | dequeue (c : Nat) (rest : List Nat) (hidle : s.idle = c :: rest)
      (hs : s' = { s with idle := rest }) (hconn : l.conn? = none)
      (hconn' : l'.conn? = some c) (hdying : l'.dying = false) (hclean : l'.clean = false)
  | enqueue (c : Nat) (hs : s' = { s with idle := s.idle ++ [c] })
      (hconn : l.conn? = some c) (hdying : l.dying = false) (hclean : l.clean = true)
      (hconn' : l'.conn? = none)
  | create (hcas : l.expects? = some s.liveCount) (hidle : s'.idle = s.idle)
      (hlive : s'.liveCount = sizeSucc s.liveCount)
      (hconns : s'.conns = s.conns ++ [Conn.fresh]) (hconn : l.conn? = none)
      (hconn' : l'.conn? = some s.conns.length) (hdying : l'.dying = false)
      (hclean : l'.clean = false)
  | deadline (c ms : Nat) (hs : SameBooks s s')
      (hconns : s'.conns = (s.update c fun k => { k with ioDeadlineMs := ms }).conns)
      (hconn : l.conn? = some c) (hconn' : l'.conn? = some c) (hdying : l.dying = false)
      (hdying' : l'.dying = false) (hclean : l.clean = false) (hms : l'.clean = true → ms = 0)
  | account (c : Nat) (k : Conn) (hk : s.conns[c]? = some k) (hfree : k.deadAccounted = false)
      (hs : s' = s.update c fun k => { k with deadAccounted := true })
      (hconn : l.conn? = some c) (hconn' : l'.conn? = some c) (hdying : l.dying = false)
      (hdying' : l'.dying = true) (hclean : l'.clean = false)
  | decrement (c : Nat) (hidle : s'.idle = s.idle) (hlive : s'.liveCount = fetchSub s.liveCount)
      (hconns : s'.conns = (s.update c fun k => { k with decremented := true }).conns)
      (hconn : l.conn? = some c) (hdying : l.dying = true) (hconn' : l'.conn? = none)

@[simp] theorem Back.coro_conn? (b : Back) : b.coro.conn? = none := by
  cases b <;> rfl

@[simp] theorem Back.coro_expects? (b : Back) : b.coro.expects? = none := by
  cases b <;> rfl

@[simp] theorem Caller.nullptr_conn? (k : Caller) : k.nullptr.conn? = none := by
  cases k <;> rfl

@[simp] theorem Caller.nullptr_expects? (k : Caller) : k.nullptr.expects? = none := by
  cases k <;> rfl

section Inversion

attribute [local irreducible] sizeSucc fetchSub

/-- **Step inversion.**  Every action has one of the effects. -/
theorem coroStep_effect {cfg : Config} {s s' : Shared} {l l' : Coro} {e : Event}
    (h : coroStep cfg s l e = some (s', l')) : Effect s s' l l' := by
  unfold coroStep at h
  repeat' split at h
  all_goals first
    | cases h; done
    | obtain ⟨rfl, rfl⟩ := Prod.mk.inj (Option.some.inj h)
  all_goals first
    | exact .quiet ⟨rfl, rfl, rfl, rfl, rfl⟩ rfl rfl rfl (by simp [Coro.clean])
    | exact .letGo ⟨rfl, rfl, rfl, rfl, rfl⟩ rfl rfl rfl
    | exact .letGo ⟨rfl, rfl, rfl, rfl, rfl⟩ rfl rfl (Caller.nullptr_conn? _)
    | exact .letGo ⟨rfl, rfl, rfl, rfl, rfl⟩ rfl rfl (Back.coro_conn? _)
    | exact .dequeue _ _ ‹_› rfl rfl rfl rfl rfl
    | exact .enqueue _ rfl rfl rfl rfl rfl
    | exact .deadline _ _ (sameBooks_deadline _ _ _) rfl rfl rfl rfl rfl rfl (by simp [Coro.clean])
    | exact .account _ _ ‹s.conns[_]? = some _› (Bool.eq_false_iff.mpr ‹¬ _›) rfl rfl rfl rfl
        rfl rfl
    | exact .quiet (sameBooks_close _ _) (ioDeadlineMs_close _ _) rfl rfl (by simp [Coro.clean])
    | exact .letGo (sameBooks_close _ _) (ioDeadlineMs_close _ _) rfl (Back.coro_conn? _)
    | exact .decrement _ (update_idle _ _ _) rfl rfl rfl rfl rfl
    | exact .create (congrArg some ‹s.liveCount = _›.symm) rfl (by rw [‹s.liveCount = _›]) rfl rfl
        rfl rfl rfl

/-- The value a compare-exchange of `live_count_` expects was seen below
`max_pool_`. -/
theorem coroStep_expects {cfg : Config} {s s' : Shared} {l l' : Coro} {e : Event} {n : Nat}
    (h : coroStep cfg s l e = some (s', l')) (hn : l'.expects? = some n) : n < cfg.maxPool := by
  unfold coroStep at h
  repeat' split at h
  all_goals first
    | cases h; done
    | obtain ⟨-, rfl⟩ := Prod.mk.inj (Option.some.inj h)
  all_goals first
    | cases hn; done
    | rw [Caller.nullptr_expects?] at hn; cases hn
    | rw [Back.coro_expects?] at hn; cases hn
    | skip
  -- what is left is the load that saw room
  obtain rfl : s.liveCount = n := Option.some.inj hn
  omega

/-- A coroutine that only lets go of a connection was told to, or was in a `mark_dead` that
had nothing to account. -/
theorem coroStep_letGo {cfg : Config} {s s' : Shared} {l l' : Coro} {e : Event}
    (h : coroStep cfg s l e = some (s', l')) (hheld : l.conn?.isSome = true)
    (hconn : l'.conn? = none) (hs : SameBooks s s') :
    e = .abandon ∨ ∃ b c, l = .deadCloseAgain b c := by
  have hidle := congrArg List.length hs.idle
  have hlive := hs.liveCount
  unfold coroStep at h
  repeat' split at h
  all_goals first
    | cases h; done
    | obtain ⟨rfl, rfl⟩ := Prod.mk.inj (Option.some.inj h)
  all_goals first
    | cases hheld; done
    | cases hconn; done
    | exact Or.inl rfl
    | exact Or.inr ⟨_, _, rfl⟩
    | skip
  · simp at hidle
  · simp only [fetchSub] at hlive
    omega

theorem coroStep_abandon {cfg : Config} {s s' : Shared} {l l' : Coro}
    (h : coroStep cfg s l .abandon = some (s', l')) :
    ∃ c, l = .holding c ∧ s' = s ∧ l' = .outside := by
  cases l <;> cases h
  exact ⟨_, rfl, rfl, rfl⟩

/-- Where a `mark_dead` with nothing to account comes from. -/
theorem coroStep_closeAgain {cfg : Config} {s s' : Shared} {l l' : Coro} {e : Event} {b : Back}
    {c : Nat} (h : coroStep cfg s l e = some (s', l')) (hl' : l' = .deadCloseAgain b c) :
    l = .deadCas b c ∧ ∃ k, s.conns[c]? = some k ∧ k.deadAccounted = true := by
  unfold coroStep at h
  repeat' split at h
  all_goals first
    | cases h; done
    | obtain ⟨-, rfl⟩ := Prod.mk.inj (Option.some.inj h)
  all_goals first
    | cases hl'; done
    | (exact absurd (congrArg Coro.conn? hl') (by rw [Caller.nullptr_conn?]; nofun))
    | (exact absurd (congrArg Coro.conn? hl') (by rw [Back.coro_conn?]; nofun))
    | skip
  cases hl'
  exact ⟨rfl, _, ‹_›, ‹_›⟩

end Inversion

/-! ## The invariant -/

/-- The pool's books. -/
structure Books (cfg : Config) (s : Shared) (ls : List Coro) : Prop where
  owner : ∀ c, s.idle.count c + tally (holds c) ls + s.accounted c ≤ 1
  dying : ∀ c, tally (dies c) ls + s.decremented c = s.accounted c
  live : s.liveCount = s.undecremented
  bound : s.liveCount ≤ cfg.maxPool
  room : s.idle.length + tally owns ls ≤ s.liveCount
  expected : ∀ l ∈ ls, ∀ n, l.expects? = some n → n < cfg.maxPool
  deadline : ∀ c, s.ioDeadlineMs c ≠ 0 → s.idle.count c + tally (cleans c) ls = 0

theorem sizeSucc_of_lt {cfg : Config} {n : Nat} (h : n < cfg.maxPool) : sizeSucc n = n + 1 := by
  have := cfg.maxPool_lt
  unfold sizeSucc
  omega

theorem fetchSub_of_le {cfg : Config} {n : Nat} (h : n ≤ cfg.maxPool) (hpos : 0 < n) :
    fetchSub n = n - 1 := by
  have := cfg.maxPool_lt
  unfold fetchSub
  omega

theorem cleans_le_holds (c : Nat) (l : Coro) : cleans c l ≤ holds c l := by
  unfold cleans holds
  cases l <;> simp [Coro.clean, Coro.dying]

/-- A connection on its way out was created and is not decremented yet. -/
theorem Books.undecremented_of_dying {cfg : Config} {s : Shared} {ls : List Coro} {l : Coro}
    {c : Nat} (hb : Books cfg s ls) (hmem : l ∈ ls) (hconn : l.conn? = some c)
    (hdying : l.dying = true) : ∃ k, s.conns[c]? = some k ∧ k.decremented = false := by
  have hone : 1 ≤ tally (dies c) ls := by
    have hle := le_tally_of_mem (f := dies c) hmem
    simp [dies, hconn, hdying] at hle
    exact hle
  have howner := hb.owner c
  have hdy := hb.dying c
  have hzero : s.decremented c = 0 := by omega
  unfold Shared.decremented Shared.weigh at hzero
  cases hk : s.conns[c]? with
  | none => simp [hk] at hzero
  | some k => exact ⟨k, rfl, by simpa [hk] using hzero⟩

section Preservation

variable {cfg : Config} {s s' : Shared} {l l' : Coro} {ls : List Coro} {i : Nat}

/-- A connection that does not exist yet counts as accounted and decremented. -/
theorem accounted_new (s : Shared) :
    s.accounted s.conns.length = 1 ∧ s.decremented s.conns.length = 1 := by
  simp [Shared.accounted, Shared.decremented, Shared.weigh]

/-- The accounting after `mark_dead` has accounted `d`. -/
theorem accounted_account {d : Nat} {k : Conn} (hk : s.conns[d]? = some k)
    (hs : s' = s.update d fun k => { k with deadAccounted := true }) (c : Nat) :
    s'.accounted c = if c = d then 1 else s.accounted c := by
  rw [hs]
  by_cases heq : c = d
  · subst heq
    rw [if_pos rfl, Shared.accounted, weigh_update_self hk]
    rfl
  · rw [if_neg heq, Shared.accounted, weigh_update_of_ne heq, Shared.accounted]

/-- The accounting after the decrement for `d`. -/
theorem accounted_decrement {d : Nat}
    (hconns : s'.conns = (s.update d fun k => { k with decremented := true }).conns) (c : Nat) :
    s'.accounted c = s.accounted c := by
  rw [Shared.accounted, weigh_congr hconns]
  exact weigh_update_of_keep (by intro; rfl) c

theorem owner_step (hl : ls[i]? = some l) (he : Effect s s' l l') (hb : Books cfg s ls)
    (c : Nat) : s'.idle.count c + tally (holds c) (ls.set i l') + s'.accounted c ≤ 1 := by
  have hmove := tally_set (f := holds c) l' hl
  have hc := hb.owner c
  cases he with
  | quiet hs _ hconn hdying _ =>
      rw [hs.idle, hs.accounted]
      simp only [holds, hconn, hdying] at hmove
      omega
  | letGo hs _ _ hconn =>
      rw [hs.idle, hs.accounted]
      simp [holds, hconn] at hmove
      omega
  | dequeue d rest hidle hs hconn hconn' hdying _ =>
      subst hs
      change rest.count c + _ + s.accounted c ≤ 1
      simp [holds, hconn, hconn', hdying] at hmove
      simp [hidle, List.count_cons] at hc
      omega
  | enqueue d hs hconn hdying _ hconn' =>
      subst hs
      change (s.idle ++ [d]).count c + _ + s.accounted c ≤ 1
      simp [holds, hconn, hconn', hdying] at hmove
      simp [List.count_cons]
      omega
  | create _ hidle _ hconns hconn hconn' hdying _ =>
      have hacc : s'.accounted c = if c = s.conns.length then 0 else s.accounted c :=
        weigh_append hconns c
      have hnew := (accounted_new s).1
      simp [holds, hconn, hconn', hdying] at hmove
      rw [hidle, hacc]
      by_cases heq : c = s.conns.length
      · subst heq
        simp at hmove ⊢
        omega
      · simp [heq, Ne.symm heq] at hmove ⊢
        omega
  | deadline d ms hs _ hconn hconn' hdying hdying' _ _ =>
      rw [hs.idle, hs.accounted]
      simp [holds, hconn, hconn', hdying, hdying'] at hmove
      omega
  | account d k hk hfree hs hconn hconn' hdying hdying' _ =>
      have hidle : s'.idle = s.idle := by rw [hs, update_idle]
      have hzero : s.accounted d = 0 := by simp [Shared.accounted, Shared.weigh, hk, hfree]
      simp [holds, hconn, hconn', hdying, hdying'] at hmove
      rw [hidle, accounted_account hk hs]
      by_cases heq : c = d
      · subst heq
        simp at hmove ⊢
        omega
      · rw [if_neg heq]
        omega
  | decrement d hidle _ hconns hconn hdying hconn' =>
      simp [holds, hconn, hconn', hdying] at hmove
      rw [hidle, accounted_decrement hconns]
      omega

theorem dying_step (hl : ls[i]? = some l) (he : Effect s s' l l') (hb : Books cfg s ls)
    (c : Nat) : tally (dies c) (ls.set i l') + s'.decremented c = s'.accounted c := by
  have hmove := tally_set (f := dies c) l' hl
  have hc := hb.dying c
  cases he with
  | quiet hs _ hconn hdying _ =>
      rw [hs.accounted, hs.decremented]
      simp only [dies, hconn, hdying] at hmove
      omega
  | letGo hs _ hdying hconn =>
      rw [hs.accounted, hs.decremented]
      simp [dies, hconn, hdying] at hmove
      omega
  | dequeue d rest hidle hs hconn hconn' hdying _ =>
      subst hs
      change _ + s.decremented c = s.accounted c
      simp [dies, hconn, hconn', hdying] at hmove
      omega
  | enqueue d hs hconn hdying _ hconn' =>
      subst hs
      change _ + s.decremented c = s.accounted c
      simp [dies, hconn, hconn', hdying] at hmove
      omega
  | create _ hidle _ hconns hconn hconn' hdying _ =>
      have hacc : s'.accounted c = if c = s.conns.length then 0 else s.accounted c :=
        weigh_append hconns c
      have hdec : s'.decremented c = if c = s.conns.length then 0 else s.decremented c :=
        weigh_append hconns c
      obtain ⟨hnew, hnew'⟩ := accounted_new s
      simp [dies, hconn, hconn', hdying] at hmove
      rw [hacc, hdec]
      by_cases heq : c = s.conns.length
      · subst heq
        simp
        omega
      · simp [heq]
        omega
  | deadline d ms hs _ hconn hconn' hdying hdying' _ _ =>
      rw [hs.accounted, hs.decremented]
      simp [dies, hconn, hconn', hdying, hdying'] at hmove
      omega
  | account d k hk hfree hs hconn hconn' hdying hdying' _ =>
      have hzero : s.accounted d = 0 := by simp [Shared.accounted, Shared.weigh, hk, hfree]
      have hdec : s'.decremented c = s.decremented c := by
        rw [hs]; exact weigh_update_of_keep (by intro; rfl) c
      simp [dies, hconn, hconn', hdying, hdying'] at hmove
      rw [hdec, accounted_account hk hs]
      by_cases heq : c = d
      · subst heq
        simp at hmove ⊢
        omega
      · simp [heq, Ne.symm heq] at hmove ⊢
        omega
  | decrement d hidle _ hconns hconn hdying hconn' =>
      simp [dies, hconn, hconn', hdying] at hmove
      rw [accounted_decrement hconns]
      by_cases heq : c = d
      · subst heq
        obtain ⟨k, hk, hzero⟩ := hb.undecremented_of_dying (List.mem_of_getElem? hl) hconn hdying
        have hdec : s'.decremented c = 1 := by
          rw [Shared.decremented, weigh_congr hconns]
          exact weigh_update_self hk
        have hdec0 : s.decremented c = 0 := by simp [Shared.decremented, Shared.weigh, hk, hzero]
        simp at hmove
        omega
      · have hdec : s'.decremented c = s.decremented c := by
          rw [Shared.decremented, weigh_congr hconns]
          exact weigh_update_of_ne heq
        simp [Ne.symm heq] at hmove
        omega

theorem Books.liveCount_pos {c : Nat} (hb : Books cfg s ls) (hmem : l ∈ ls)
    (hconn : l.conn? = some c) : 0 < s.liveCount := by
  have hone := le_tally_of_mem (f := owns) hmem
  have hroom := hb.room
  simp [owns, hconn] at hone
  omega

/-- What is idle or in hands moves with `live_count_`, unless a coroutine lets go of a
connection and nothing else happens. -/
theorem room_balance (hl : ls[i]? = some l) (he : Effect s s' l l') (hb : Books cfg s ls) :
    s'.idle.length + tally owns (ls.set i l') + s.liveCount =
        s.idle.length + tally owns ls + s'.liveCount ∨
      l.conn?.isSome = true ∧ l'.conn? = none ∧ SameBooks s s' := by
  have hmove := tally_set (f := owns) l' hl
  cases he with
  | quiet hs _ hconn _ _ =>
      rw [hs.idle, hs.liveCount]
      simp only [owns, hconn] at hmove
      omega
  | letGo hs _ _ hconn =>
      cases hheld : l.conn?.isSome with
      | true => exact Or.inr ⟨rfl, hconn, hs⟩
      | false =>
          rw [hs.idle, hs.liveCount]
          simp [owns, hconn, hheld] at hmove
          omega
  | dequeue d rest hidle hs hconn hconn' _ _ =>
      subst hs
      simp [owns, hconn, hconn'] at hmove
      simp only [hidle, List.length_cons]
      omega
  | enqueue d hs hconn _ _ hconn' =>
      subst hs
      simp [owns, hconn, hconn'] at hmove
      simp only [List.length_append, List.length_singleton]
      omega
  | create hcas hidle hlive _ hconn hconn' _ _ =>
      have hlt := hb.expected l (List.mem_of_getElem? hl) _ hcas
      rw [hidle, hlive, sizeSucc_of_lt hlt]
      simp [owns, hconn, hconn'] at hmove
      omega
  | deadline d ms hs _ hconn hconn' _ _ _ _ =>
      rw [hs.idle, hs.liveCount]
      simp [owns, hconn, hconn'] at hmove
      omega
  | account d k _ _ hs hconn hconn' _ _ _ =>
      rw [hs, update_idle, update_liveCount]
      simp [owns, hconn, hconn'] at hmove
      omega
  | decrement d hidle hlive _ hconn _ hconn' =>
      have hpos := hb.liveCount_pos (List.mem_of_getElem? hl) hconn
      rw [hidle, hlive, fetchSub_of_le hb.bound hpos]
      simp [owns, hconn, hconn'] at hmove
      omega

theorem owns_letGo (hl : ls[i]? = some l) (hheld : l.conn?.isSome = true)
    (hconn : l'.conn? = none) :
    tally owns (ls.set i l') + 1 = tally owns ls := by
  have hmove := tally_set (f := owns) l' hl
  simp [owns, hheld, hconn] at hmove
  exact hmove

/-- A connection in hands has not been accounted dead. -/
theorem Books.not_accounted {c : Nat} {k : Conn} (hb : Books cfg s ls) (hmem : l ∈ ls)
    (hconn : l.conn? = some c) (hdying : l.dying = false) (hk : s.conns[c]? = some k) :
    k.deadAccounted = false := by
  have hone := le_tally_of_mem (f := holds c) hmem
  have howner := hb.owner c
  simp only [holds, hconn, hdying, and_self, if_true] at hone
  have hzero : s.accounted c = 0 := by omega
  simpa [Shared.accounted, Shared.weigh, hk] using hzero

/-- No call of `mark_dead` finds its connection accounted. -/
theorem Books.not_closeAgain {e : Event} (hb : Books cfg s ls) (hmem : l ∈ ls)
    (hstep : coroStep cfg s l e = some (s', l')) (b : Back) (c : Nat) :
    l' ≠ .deadCloseAgain b c := by
  intro hagain
  obtain ⟨rfl, k, hk, hdead⟩ := coroStep_closeAgain hstep hagain
  have hfree := hb.not_accounted hmem rfl rfl hk
  exact absurd (hfree.symm.trans hdead) (by decide)

/-- What is idle or in hands moves with `live_count_`, unless a connection is abandoned. -/
theorem room_kept {e : Event} (hl : ls[i]? = some l)
    (hstep : coroStep cfg s l e = some (s', l')) (hb : Books cfg s ls) (he : e ≠ .abandon)
    (honce : ∀ b c, l ≠ .deadCloseAgain b c) :
    s'.idle.length + tally owns (ls.set i l') + s.liveCount =
      s.idle.length + tally owns ls + s'.liveCount := by
  rcases room_balance hl (coroStep_effect hstep) hb with hsame | ⟨hheld, hconn, hs⟩
  · exact hsame
  · rcases coroStep_letGo hstep hheld hconn hs with rfl | ⟨b, c, hagain⟩
    · exact absurd rfl he
    · exact absurd hagain (honce b c)

theorem room_step (hl : ls[i]? = some l) (he : Effect s s' l l') (hb : Books cfg s ls) :
    s'.idle.length + tally owns (ls.set i l') ≤ s'.liveCount := by
  have hroom := hb.room
  rcases room_balance hl he hb with hsame | ⟨hheld, hconn, hs⟩
  · omega
  · have hless := owns_letGo hl hheld hconn
    rw [hs.idle, hs.liveCount]
    omega

theorem live_step (hl : ls[i]? = some l) (he : Effect s s' l l') (hb : Books cfg s ls) :
    s'.liveCount = s'.undecremented ∧ s'.liveCount ≤ cfg.maxPool := by
  have hlive := hb.live
  have hbound := hb.bound
  have hmem := List.mem_of_getElem? hl
  cases he with
  | quiet hs _ _ _ _ | letGo hs _ _ _ | deadline d ms hs _ _ _ _ _ _ _ =>
      rw [hs.liveCount, hs.undecremented]
      exact ⟨hlive, hbound⟩
  | dequeue d rest _ hs _ _ _ _ | enqueue d hs _ _ _ _ =>
      subst hs
      exact ⟨hlive, hbound⟩
  | create hcas _ hlive' hconns _ _ _ _ =>
      have hlt := hb.expected l hmem _ hcas
      have hnew : s'.undecremented = s.undecremented + 1 := by
        simp [Shared.undecremented, tally, hconns, Conn.fresh]
      rw [hlive', sizeSucc_of_lt hlt, hnew]
      omega
  | account d k _ _ hs _ _ _ _ _ =>
      have hsame : s'.undecremented = s.undecremented := by
        rw [hs]; exact undecremented_update_of_keep (by intro; rfl)
      rw [hsame, hs, update_liveCount]
      exact ⟨hlive, hbound⟩
  | decrement d _ hlive' hconns hconn hdying _ =>
      obtain ⟨k, hk, hfree⟩ := hb.undecremented_of_dying hmem hconn hdying
      have hpos := hb.liveCount_pos hmem hconn
      have hless : s'.undecremented + 1 = s.undecremented := by
        have hset := tally_set (f := fun k : Conn => (!k.decremented).toNat)
          { k with decremented := true } hk
        simp only [hfree] at hset
        simp only [Shared.undecremented, hconns, Shared.update, hk]
        simpa using hset
      rw [hlive', fetchSub_of_le hbound hpos]
      omega

/-- An override is set on `d` alone. -/
theorem ioDeadlineMs_override {d ms c : Nat}
    (hconns : s'.conns = (s.update d fun k => { k with ioDeadlineMs := ms }).conns)
    (hc : s'.ioDeadlineMs c ≠ 0) : c = d ∧ ms ≠ 0 ∨ c ≠ d ∧ s.ioDeadlineMs c ≠ 0 := by
  rw [Shared.ioDeadlineMs, weigh_congr hconns] at hc
  by_cases heq : c = d
  · subst heq
    refine .inl ⟨rfl, ?_⟩
    rintro rfl
    cases hk : s.conns[c]? with
    | none => simp [Shared.weigh, conns_update, hk] at hc
    | some k => exact hc (weigh_update_self hk)
  · rw [weigh_update_of_ne heq] at hc
    exact .inr ⟨heq, hc⟩

/-- The holder of a connection is its only owner; if it is not about to enqueue it, nobody
is. -/
theorem Books.not_cleaning {c : Nat} (hb : Books cfg s ls) (hmem : l ∈ ls)
    (hconn : l.conn? = some c) (hdying : l.dying = false) (hclean : l.clean = false) :
    s.idle.count c + tally (cleans c) ls = 0 := by
  have hstrict := tally_add_one_le hmem (cleans_le_holds c)
    (by simp [cleans, holds, hconn, hdying, hclean])
  have howner := hb.owner c
  omega

theorem deadline_step (hl : ls[i]? = some l) (he : Effect s s' l l') (hb : Books cfg s ls)
    (c : Nat) (hc : s'.ioDeadlineMs c ≠ 0) :
    s'.idle.count c + tally (cleans c) (ls.set i l') = 0 := by
  have hmove := tally_set (f := cleans c) l' hl
  have hzero := hb.deadline c
  cases he with
  | quiet hs hms hconn _ hclean =>
      rw [hms] at hc
      rw [hs.idle]
      have hle : cleans c l' ≤ cleans c l := by
        unfold cleans
        rw [hconn]
        by_cases hcl : l'.clean = true
        · simp [hcl, hclean hcl]
        · simp [hcl]
      have := hzero hc
      omega
  | letGo hs hms _ hconn =>
      rw [hms] at hc
      rw [hs.idle]
      simp [cleans, hconn] at hmove
      have := hzero hc
      omega
  | dequeue d rest hidle hs hconn hconn' _ hclean =>
      subst hs
      have := hzero hc
      simp [cleans, hconn, hconn', hclean] at hmove
      simp only [hidle, List.count_cons] at this
      change rest.count c + _ = 0
      omega
  | enqueue d hs hconn _ hclean hconn' =>
      subst hs
      have := hzero hc
      simp [cleans, hconn, hconn', hclean] at hmove
      change (s.idle ++ [d]).count c + _ = 0
      simp only [List.count_append, List.count_cons, List.count_nil, beq_iff_eq]
      omega
  | create _ hidle _ hconns hconn hconn' _ hclean =>
      have hms : s'.ioDeadlineMs c = if c = s.conns.length then 0 else s.ioDeadlineMs c :=
        weigh_append hconns c
      have hne : c ≠ s.conns.length := by
        rintro rfl
        simp [hms] at hc
      rw [hms, if_neg hne] at hc
      simp [cleans, hconn, hconn', hclean] at hmove
      rw [hidle]
      have := hzero hc
      omega
  | deadline d ms hs hconns hconn hconn' hdying hdying' hclean hms =>
      rw [hs.idle]
      rcases ioDeadlineMs_override hconns hc with ⟨rfl, hnz⟩ | ⟨hne, hold⟩
      · have hclean' : l'.clean = false := Bool.eq_false_iff.mpr fun hcl => hnz (hms hcl)
        have hnone := hb.not_cleaning (List.mem_of_getElem? hl) hconn hdying hclean
        simp [cleans, hconn, hconn', hclean, hclean'] at hmove
        omega
      · simp [cleans, hconn, hconn', Ne.symm hne] at hmove
        have := hzero hold
        omega
  | account d k _ _ hs hconn hconn' _ _ hclean =>
      have hms : s'.ioDeadlineMs c = s.ioDeadlineMs c := by
        rw [hs]; exact weigh_update_of_keep (by intro; rfl) c
      rw [hms] at hc
      simp [cleans, hconn, hconn', hclean] at hmove
      rw [hs, update_idle]
      have := hzero hc
      omega
  | decrement d hidle _ hconns hconn _ hconn' =>
      have hms : s'.ioDeadlineMs c = s.ioDeadlineMs c := by
        rw [Shared.ioDeadlineMs, weigh_congr hconns]
        exact weigh_update_of_keep (by intro; rfl) c
      rw [hms] at hc
      simp [cleans, hconn, hconn'] at hmove
      rw [hidle]
      have := hzero hc
      omega

/-- **Step rule.**  One action of one coroutine keeps the books. -/
theorem books_step {e : Event} (hl : ls[i]? = some l)
    (hstep : coroStep cfg s l e = some (s', l')) (hb : Books cfg s ls) :
    Books cfg s' (ls.set i l') := by
  have he := coroStep_effect hstep
  refine ⟨owner_step hl he hb, dying_step hl he hb, (live_step hl he hb).1, (live_step hl he hb).2,
    room_step hl he hb, ?_, deadline_step hl he hb⟩
  intro x hx n hn
  rcases List.mem_or_eq_of_mem_set hx with hold | rfl
  · exact hb.expected x hold n hn
  · exact coroStep_expects hstep hn

end Preservation

theorem books_init (cfg : Config) (n : Nat) : Books cfg (State.init n).1 (State.init n).2 where
  owner c := by
    rw [State.init, tally_replicate (by rfl)]
    simp [Shared.init, Shared.accounted, Shared.weigh]
  dying c := by
    rw [State.init, tally_replicate (by rfl)]
    simp [Shared.init, Shared.decremented, Shared.accounted, Shared.weigh]
  live := rfl
  bound := Nat.zero_le _
  room := by
    rw [State.init, tally_replicate (by rfl)]
    simp [Shared.init]
  expected l hl n hn := by
    rw [List.eq_of_mem_replicate hl] at hn
    cases hn
  deadline c hc := absurd rfl hc

/-- **Run rule.**  The books are right in every state a run reaches. -/
theorem books_of_exec {cfg : Config} {n : Nat} {evs : List (Nat × Event)} {st : State}
    (h : exec (step cfg) (State.init n) evs = some st) : Books cfg st.1 st.2 := by
  refine exec_invariant (fun st => Books cfg st.1 st.2) ?_ (books_init cfg n) h
  intro st ev st' hb hstep
  obtain ⟨l, s', l', hl, hmove, rfl⟩ := interleave_eq_some hstep
  exact books_step hl hmove hb

/-! ## What the books say -/

theorem Books.not_mem_idle_of_conn {cfg : Config} {s : Shared} {ls : List Coro} {l : Coro}
    {c : Nat} (hb : Books cfg s ls) (hmem : l ∈ ls) (hconn : l.conn? = some c) : c ∉ s.idle := by
  have howner := hb.owner c
  have hdying := hb.dying c
  have hzero : s.idle.count c = 0 := by
    cases hd : l.dying with
    | false =>
        have hone := le_tally_of_mem (f := holds c) hmem
        simp [holds, hconn, hd] at hone
        omega
    | true =>
        have hone := le_tally_of_mem (f := dies c) hmem
        simp [dies, hconn, hd] at hone
        omega
  exact List.count_eq_zero.mp hzero

/-- An idle connection exists and has no deadline override. -/
theorem Books.deadline_of_mem_idle {cfg : Config} {s : Shared} {ls : List Coro} {c : Nat}
    (hb : Books cfg s ls) (hmem : c ∈ s.idle) : ∃ k, s.conns[c]? = some k ∧ k.ioDeadlineMs = 0 := by
  have hcount : 0 < s.idle.count c := List.count_pos_iff.mpr hmem
  have howner := hb.owner c
  have hms : s.ioDeadlineMs c = 0 := by
    by_contra hne
    have := hb.deadline c hne
    omega
  cases hk : s.conns[c]? with
  | none =>
      have hnew : s.accounted c = 1 := by simp [Shared.accounted, Shared.weigh, hk]
      omega
  | some k => exact ⟨k, rfl, by simpa [Shared.ioDeadlineMs, Shared.weigh, hk] using hms⟩

/-- **Pool accounting.**  In every state that any number of coroutines reach,
`live_count_` is the number of connections not decremented yet, stays within
`max_pool_` and is positive before every decrement; the idle queue has no
duplicate, holds nothing that is in a coroutine's hands, has room at every
enqueue, and holds only connections without a deadline override. -/
theorem pool_accounting (cfg : Config) (n : Nat) (evs : List (Nat × Event)) (st : State)
    (h : exec (step cfg) (State.init n) evs = some st) :
    st.1.liveCount = st.1.undecremented ∧ st.1.liveCount ≤ cfg.maxPool ∧
    (∀ b c, Coro.deadFetchSub b c ∈ st.2 → 0 < st.1.liveCount) ∧
    st.1.idle.Nodup ∧
    (∀ l ∈ st.2, ∀ c, l.conn? = some c → c ∉ st.1.idle) ∧
    (∀ c, Coro.tryEnqueue c ∈ st.2 → st.1.idle.length < cfg.maxPool) ∧
    (∀ c ∈ st.1.idle, ∃ k, st.1.conns[c]? = some k ∧ k.ioDeadlineMs = 0) := by
  have hb := books_of_exec h
  refine ⟨hb.live, hb.bound, ?_, ?_, ?_, ?_, ?_⟩
  · intro b c hmem
    exact hb.liveCount_pos hmem rfl
  · rw [List.nodup_iff_count_le_one]
    intro c
    have := hb.owner c
    omega
  · intro l hmem c hconn
    exact hb.not_mem_idle_of_conn hmem hconn
  · intro c hmem
    have hone := le_tally_of_mem (f := owns) hmem
    have hroom := hb.room
    have hbound := hb.bound
    simp [owns, Coro.conn?] at hone
    omega
  · intro c hmem
    exact hb.deadline_of_mem_idle hmem

/-- Two coroutines after the only place of a pool: the second loses the exchange on
`live_count_` and finds no idle connection, the first connects, overrides the deadline and
releases. -/
def raceForPlace : List (Nat × Event) :=
  [(0, .callAcquire), (1, .callAcquire), (0, .tick), (1, .tick), (0, .tick), (1, .tick),
    (0, .tick), (1, .tick), (0, .connect true), (1, .tick), (0, .setIoDeadline 5),
    (0, .callRelease), (0, .tick), (0, .usable true true), (0, .tick)]

theorem pool_accounting_race :
    let st : State := (⟨[Conn.fresh], [0], 1, ⟨0, 0, 0⟩⟩, [.semRelease .client, .loadLive false])
    exec (step ⟨1, by decide, 1, true⟩) (State.init 2) raceForPlace = some st ∧
    st.1.liveCount = st.1.undecremented ∧
    (∀ c ∈ st.1.idle, ∃ k, st.1.conns[c]? = some k ∧ k.ioDeadlineMs = 0) := by
  intro st
  have hrun : exec (step ⟨1, by decide, 1, true⟩) (State.init 2) raceForPlace = some st := by
    decide
  obtain ⟨hlive, -, -, -, -, -, hidle⟩ := pool_accounting _ _ _ _ hrun
  exact ⟨hrun, hlive, hidle⟩

end Upq.Pool
