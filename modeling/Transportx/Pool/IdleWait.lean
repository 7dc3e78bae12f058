import Transportx.Pool.Capacity

/-!
# Transportx.Pool.IdleWait — `checkout_idle_timeout` over a history of wakeups

The whole call, from its entry to its return.  What it sees is a list of observations, one each time it
takes the lock: at entry, and after every wakeup, for whatever reason it woke up.  A round of the loop
(`idleLoop`, `idleAfterWait`) ends the call or leaves it waiting for the next observation.

`Quiet` observations are those that leave it waiting.  The first one that is not quiet ends the call,
with the object on top of the stack if there is one.
-/

namespace Transportx.Pool

variable {w : ℕ} {T : Type}

/-! ## The call -/

/-- What the call finds under the lock, the time since its entry, and whether the wait that has just
ended reported a timeout. -/
structure Observation (T : Type) where
  pool : PoolState T
  elapsed : Duration
  timedOut : Bool
deriving DecidableEq, Repr

/-- A return of the call: the wakeups it took, the result, and the state that it leaves. -/
structure IdleReturn (T : Type) where
  wakeups : ℕ
  result : Except TransportError (Option T)
  pool : PoolState T

/-- All that the call sees, from its entry on, where no wait has reported anything. -/
def observations (entry : PoolState T) (elapsed : Duration) (wakeups : List (Observation T)) :
    List (Observation T) :=
  ⟨entry, elapsed, false⟩ :: wakeups

/-- The loop from the end of a round, `none` if the call still waits when the history ends. -/
def idleRounds (w : ℕ) (timeout : Duration) : IdleRound T × PoolState T → List (Observation T) →
    Option (IdleReturn T)
  | (.found item, g), _ => some ⟨0, .ok (some item), g⟩
  | (.gaveUp, g), _ => some ⟨0, .ok none, g⟩
  | (.wait _, _), [] => none
  | (.wait _, _), o :: os =>
    (idleRounds w timeout (idleAfterWait w o.timedOut timeout o.elapsed o.pool) os).map fun r =>
      { r with wakeups := r.wakeups + 1 }

/-- `HttpClientPool::checkout_idle_timeout`, entered in a state of the pool, with the wakeups that follow. -/
def checkoutIdleTimeout (w : ℕ) (timeout : Duration) (entry : PoolState T) (elapsed : Duration)
    (wakeups : List (Observation T)) : Option (IdleReturn T) :=
  idleRounds w timeout (idleLoop w timeout elapsed entry) wakeups

/-! ## One round -/

namespace Observation

variable {timeout : Duration} {o : Observation T}

/-- The deadline has fired, by the report of the wait or by the clock. -/
def Expired (timeout : Duration) (o : Observation T) : Prop := o.timedOut = true ∨ timeout ≤ o.elapsed

/-- There is nothing to take, and time left. -/
def Quiet (timeout : Duration) (o : Observation T) : Prop := o.pool.idle = [] ∧ ¬ o.Expired timeout

/-- The round that begins with an observation. -/
def round (w : ℕ) (timeout : Duration) (o : Observation T) : IdleRound T × PoolState T :=
  idleAfterWait w o.timedOut timeout o.elapsed o.pool

/-- An object is taken, whatever the clock says. -/
theorem round_of_idle {item : T} {rest : List T} (h : o.pool.idle = item :: rest) :
    o.round w timeout = (.found item, ⟨rest, Usize.wrappingAdd w o.pool.checkedOut 1⟩) :=
  idleAfterWait_of_idle h o.timedOut timeout o.elapsed

theorem expired_iff : o.Expired timeout ↔ o.timedOut = true ∨ timeout - o.elapsed = 0 := by
  rw [Nat.sub_eq_zero_iff_le]
  exact Iff.rfl

theorem round_of_expired (hidle : o.pool.idle = []) (h : o.Expired timeout) :
    o.round w timeout = (.gaveUp, o.pool) := by
  rw [round, idleAfterWait_of_empty hidle, if_pos (expired_iff.mp h)]

theorem round_of_quiet (h : o.Quiet timeout) :
    o.round w timeout = (.wait (timeout - o.elapsed), o.pool) := by
  rw [round, idleAfterWait_of_empty h.1, if_neg (mt expired_iff.mpr h.2)]

end Observation

/-! ## The whole call -/

section History

variable {timeout : Duration} {o : Observation T}

theorem idleRounds_cons (left : Duration) (g : PoolState T) (p : Observation T) (os : List (Observation T)) :
    idleRounds w timeout (.wait left, g) (p :: os) =
      (idleRounds w timeout (p.round w timeout) os).map fun r => { r with wakeups := r.wakeups + 1 } := rfl

theorem idleRounds_of_quiet (h : o.Quiet timeout) (p : Observation T) (os : List (Observation T)) :
    idleRounds w timeout (o.round w timeout) (p :: os) =
      (idleRounds w timeout (p.round w timeout) os).map fun r => { r with wakeups := r.wakeups + 1 } := by
  rw [o.round_of_quiet h, idleRounds_cons]

/-- Quiet observations are waited through. -/
theorem idleRounds_skip {after : List (Observation T)} : ∀ {before : List (Observation T)}
    {first : Observation T} {os : List (Observation T)}, first :: os = before ++ o :: after →
      (∀ p ∈ before, p.Quiet timeout) →
      idleRounds w timeout (first.round w timeout) os =
        (idleRounds w timeout (o.round w timeout) after).map fun r =>
          { r with wakeups := r.wakeups + before.length }
  | [], first, os, h, _ => by
    obtain ⟨rfl, rfl⟩ := List.cons.inj h
    cases idleRounds w timeout (first.round w timeout) os <;> rfl
  | p :: before, first, os, h, hquiet => by
    rw [List.cons_append] at h
    obtain ⟨rfl, hos⟩ := List.cons.inj h
    obtain ⟨next, rest, hnext⟩ : ∃ next rest, before ++ o :: after = next :: rest := by
      cases before <;> exact ⟨_, _, rfl⟩
    rw [hos, hnext, idleRounds_of_quiet (hquiet first (by simp)),
      idleRounds_skip hnext.symm fun q hq => hquiet q (by simp [hq]), Option.map_map]
    congr 1

/-- A history is quiet throughout, or has a first observation that is not. -/
theorem quiet_or_first (timeout : Duration) : ∀ l : List (Observation T), (∀ p ∈ l, p.Quiet timeout) ∨
    ∃ before o after, l = before ++ o :: after ∧ (∀ p ∈ before, p.Quiet timeout) ∧ ¬ o.Quiet timeout
  | [] => Or.inl (by simp)
  | p :: l => by
    -- the first observation, and then those of the rest
    by_cases hp : p.Quiet timeout
    · rcases quiet_or_first timeout l with hall | ⟨before, o, after, rfl, hbefore, ho⟩
      · exact Or.inl (List.forall_mem_cons.mpr ⟨hp, hall⟩)
      · exact Or.inr ⟨p :: before, o, after, rfl, List.forall_mem_cons.mpr ⟨hp, hbefore⟩, ho⟩
    · exact Or.inr ⟨[], p, l, rfl, by simp, hp⟩

theorem idleRounds_of_all_quiet : ∀ {os : List (Observation T)} {first : Observation T},
    (∀ p ∈ first :: os, p.Quiet timeout) → idleRounds w timeout (first.round w timeout) os = none
  | [], first, h => by
    rw [first.round_of_quiet (h first (by simp))]
    rfl
  | p :: os, first, h => by
    obtain ⟨hfirst, hrest⟩ := List.forall_mem_cons.mp h
    rw [idleRounds_of_quiet hfirst, idleRounds_of_all_quiet hrest]
    rfl

/-- The call begins as after a wait that reported nothing. -/
theorem checkoutIdleTimeout_eq (entry : PoolState T) (elapsed : Duration) (wakeups : List (Observation T)) :
    checkoutIdleTimeout w timeout entry elapsed wakeups =
      idleRounds w timeout (Observation.round w timeout ⟨entry, elapsed, false⟩) wakeups := rfl

variable {entry : PoolState T} {elapsed : Duration} {wakeups before after : List (Observation T)}

theorem checkoutIdleTimeout_of_idle (hseen : observations entry elapsed wakeups = before ++ o :: after)
    (hquiet : ∀ p ∈ before, p.Quiet timeout) {item : T} {rest : List T} (h : o.pool.idle = item :: rest) :
    checkoutIdleTimeout w timeout entry elapsed wakeups =
      some ⟨before.length, .ok (some item), ⟨rest, Usize.wrappingAdd w o.pool.checkedOut 1⟩⟩ := by
  rw [checkoutIdleTimeout_eq, idleRounds_skip hseen hquiet, o.round_of_idle h]
  simp only [idleRounds, Option.map_some, Nat.zero_add]

theorem checkoutIdleTimeout_of_expired (hseen : observations entry elapsed wakeups = before ++ o :: after)
    (hquiet : ∀ p ∈ before, p.Quiet timeout) (hidle : o.pool.idle = []) (h : o.Expired timeout) :
    checkoutIdleTimeout w timeout entry elapsed wakeups = some ⟨before.length, .ok none, o.pool⟩ := by
  rw [checkoutIdleTimeout_eq, idleRounds_skip hseen hquiet, o.round_of_expired hidle h]
  simp only [idleRounds, Option.map_some, Nat.zero_add]

/-- An observation that is not quiet ends the call, in one of two ways. -/
theorem Observation.not_quiet (h : ¬ o.Quiet timeout) :
    (∃ item rest, o.pool.idle = item :: rest) ∨ (o.pool.idle = [] ∧ o.Expired timeout) := by
  cases hidle : o.pool.idle with
  | nil => exact Or.inr ⟨rfl, Classical.byContradiction fun hexp => h ⟨hidle, hexp⟩⟩
  | cons item rest => exact Or.inl ⟨item, rest, rfl⟩

/-- How a call stands at the end of a history: it waits, or the first observation that was not quiet has
ended it. -/
theorem checkoutIdleTimeout_cases (w : ℕ) (timeout : Duration) (entry : PoolState T) (elapsed : Duration)
    (wakeups : List (Observation T)) :
    (checkoutIdleTimeout w timeout entry elapsed wakeups = none ∧
      ∀ p ∈ observations entry elapsed wakeups, p.Quiet timeout) ∨
    ∃ (before after : List (Observation T)) (o : Observation T),
      observations entry elapsed wakeups = before ++ o :: after ∧
      (∀ p ∈ before, p.Quiet timeout) ∧
      ((∃ item rest, o.pool.idle = item :: rest ∧ checkoutIdleTimeout w timeout entry elapsed wakeups =
          some ⟨before.length, .ok (some item), ⟨rest, Usize.wrappingAdd w o.pool.checkedOut 1⟩⟩) ∨
        (o.pool.idle = [] ∧ o.Expired timeout ∧ checkoutIdleTimeout w timeout entry elapsed wakeups =
          some ⟨before.length, .ok none, o.pool⟩)) := by
  rcases quiet_or_first timeout (observations entry elapsed wakeups) with
    hall | ⟨before, o, after, hseen, hquiet, ho⟩
  · exact Or.inl ⟨idleRounds_of_all_quiet hall, hall⟩
  · refine Or.inr ⟨before, after, o, hseen, hquiet, ?_⟩
    rcases o.not_quiet ho with ⟨item, rest, hidle⟩ | ⟨hidle, hexp⟩
    · exact Or.inl ⟨item, rest, hidle, checkoutIdleTimeout_of_idle hseen hquiet hidle⟩
    · exact Or.inr ⟨hidle, hexp, checkoutIdleTimeout_of_expired hseen hquiet hidle hexp⟩

theorem mem_of_split {α : Type} {before after before' after' : List α} {a a' : α}
    (h : before ++ a :: after = before' ++ a' :: after') (hlt : before.length < before'.length) :
    a ∈ before' := by
  have hget : (before' ++ a' :: after')[before.length]? = some a := by
    rw [← h, List.getElem?_append_right (Nat.le_refl _), Nat.sub_self]
    rfl
  rw [List.getElem?_append_left hlt] at hget
  exact List.mem_of_getElem? hget

/-- **`checkout_idle_timeout` neither misses an object nor overstays**, for every timeout, every state at entry
and every history of wakeups: the first observation with an idle object ends the call with the one on top,
`None` is returned only where nothing is idle and the deadline has fired, and an observation of either kind is
the last at the latest. -/
theorem checkoutIdleTimeout_history (cfg : PoolConfig w) (timeout : Duration) (entry : PoolState T)
    (elapsed : Duration) (wakeups : List (Observation T)) :
    (∀ (before after : List (Observation T)) (o : Observation T) (item : T) (rest : List T),
      observations entry elapsed wakeups = before ++ o :: after →
      (∀ p ∈ before, p.pool.idle = [] ∧ ¬ p.Expired timeout) → o.pool.idle = item :: rest →
      checkoutIdleTimeout w timeout entry elapsed wakeups =
        some ⟨before.length, .ok (some item), ⟨rest, Usize.wrappingAdd w o.pool.checkedOut 1⟩⟩ ∧
      (Cap cfg o.pool → Usize.wrappingAdd w o.pool.checkedOut 1 = o.pool.checkedOut + 1)) ∧
    (∀ r, checkoutIdleTimeout w timeout entry elapsed wakeups = some r →
      ∃ (before after : List (Observation T)) (o : Observation T),
        observations entry elapsed wakeups = before ++ o :: after ∧
        before.length = r.wakeups ∧ (∀ p ∈ before, p.pool.idle = [] ∧ ¬ p.Expired timeout) ∧
        (∀ p ∈ before, p.round w timeout = (.wait (timeout - p.elapsed), p.pool)) ∧
        ((∃ item rest, o.pool.idle = item :: rest ∧ r.result = .ok (some item) ∧
            r.pool = ⟨rest, Usize.wrappingAdd w o.pool.checkedOut 1⟩) ∨
          (o.pool.idle = [] ∧ o.Expired timeout ∧ r.result = .ok none ∧ r.pool = o.pool))) ∧
    (∀ (before after : List (Observation T)) (o : Observation T),
      observations entry elapsed wakeups = before ++ o :: after →
      o.Expired timeout ∨ o.pool.idle ≠ [] →
      ∃ r, checkoutIdleTimeout w timeout entry elapsed wakeups = some r ∧ r.wakeups ≤ before.length) := by
  refine ⟨?_, ?_, ?_⟩
  · intro before after o item rest hseen hquiet hidle
    refine ⟨checkoutIdleTimeout_of_idle hseen hquiet hidle, fun hcap => ?_⟩
    have hsum := hcap.sum_le
    rw [hidle, List.length_cons] at hsum
    exact Usize.wrappingAdd_one (by omega) cfg.maxPoolSize_lt
  · intro r hr
    rcases checkoutIdleTimeout_cases w timeout entry elapsed wakeups with
      ⟨hwaits, -⟩ | ⟨before, after, o, hseen, hquiet, hend⟩
    · rw [hr] at hwaits
      cases hwaits
    · refine ⟨before, after, o, hseen, ?_, hquiet, fun p hp => p.round_of_quiet (hquiet p hp), ?_⟩
      all_goals rcases hend with ⟨item, rest, hidle, hcall⟩ | ⟨hidle, hexp, hcall⟩
      all_goals obtain rfl := Option.some.inj (hr.symm.trans hcall)
      · rfl
      · rfl
      · exact Or.inl ⟨item, rest, hidle, rfl, rfl⟩
      · exact Or.inr ⟨hidle, hexp, rfl, rfl⟩
  · intro before after o hseen hend
    have ho : ¬ o.Quiet timeout := fun hquiet => hend.elim hquiet.2 fun hidle => hidle hquiet.1
    rcases checkoutIdleTimeout_cases w timeout entry elapsed wakeups with
      ⟨-, hall⟩ | ⟨before', after', o', hseen', hquiet, hcall⟩
    · exact absurd (hall o (by rw [hseen]; simp)) ho
    · -- before the end of the call all is quiet, so `o` does not come before it
      have hle : before'.length ≤ before.length := by
        by_contra hlt
        exact ho (hquiet o (mem_of_split (hseen.symm.trans hseen') (by omega)))
      rcases hcall with ⟨item, rest, -, hcall⟩ | ⟨-, -, hcall⟩
      · exact ⟨_, hcall, hle⟩
      · exact ⟨_, hcall, hle⟩

end History

/-! ## In a pool in use -/

section Run

variable {cfg : PoolConfig w} {c : CallId} {timeout : Duration}

/-- What the call `c` observes in a step, if it takes the lock again there. -/
def wakeupOf (c : CallId) (t : Step T) : Option (Observation T) :=
  match t.ev.1, t.pre.calls.get c with
  | .idleResume c' elapsed, some (.waiting _ wait) =>
    if c' = c then some ⟨t.pre.pool, elapsed, wait.timedOut⟩ else none
  | _, _ => none

/-- A step in which the call `c` returns `ret`, up to the count of wakeups. -/
def Returns (t : Step T) (ret : IdleReturn T) : Prop :=
  t.post.pool = ret.pool ∧
    ((∃ item, t.out = .hit item ∧ ret.result = .ok (some item)) ∨ (t.out = .idleNone ∧ ret.result = .ok none))

/-- A notification leaves a waiter waiting. -/
theorem Wakes.get_waiting {m : Move T} {pick : Option CallId} {calls calls' : Ledger CallId (Call T)}
    (h : Wakes m pick calls calls') {wait : Wait} (hget : calls.get c = some (.waiting timeout wait)) :
    ∃ wait', calls'.get c = some (.waiting timeout wait') := by
  unfold Wakes at h
  split at h
  · rcases notifyOne_some h with ⟨-, rfl⟩ | ⟨d, timeout', hd, rfl⟩
    · exact ⟨wait, hget⟩
    · -- a notification that picks this waiter leaves it waiting too
      by_cases hcd : c = d
      · subst hcd
        rw [hget] at hd
        cases hd
        exact ⟨.notified, Ledger.get_put_self _ _ _⟩
      · exact ⟨wait, by rw [Ledger.get_put_of_ne _ _ hcd, hget]⟩
  · exact ⟨wait, by rw [h, hget]⟩

/-- A step that is not a round of a waiting call leaves it waiting. -/
theorem step_keeps_waiting {s s' : Sys T} {l : Label T} {o : Outcome T} (h : step cfg s l = some (o, s'))
    {wait : Wait} (hget : s.calls.get c = some (.waiting timeout wait))
    (hne : ∀ elapsed, l.1 ≠ .idleResume c elapsed) : ∃ wait', s'.calls.get c = some (.waiting timeout wait') := by
  cases step_cases h with
  | @call ev o d old new m pick _ hc hold hpool hwakes =>
    by_cases hcd : c = d
    · subst hcd
      obtain rfl := hget.symm.trans hold
      cases hc with
      | woke _ timedOut => exact hwakes.get_waiting (Ledger.get_put_self _ _ _)
      | resumeHit _ _ elapsed | resumeSlept _ | resumeNone _ => exact absurd rfl (hne _)
    · exact hwakes.get_waiting (by rw [Ledger.get_put_of_ne _ _ hcd, hget])
  | foreign hpool hwakes => exact hwakes.get_waiting hget
  | poison hpool hcalls => exact ⟨wait, by rw [hcalls, hget]⟩

theorem wakeupOf_of_ne {t : Step T} (hne : ∀ elapsed, t.ev.1 ≠ .idleResume c elapsed) : wakeupOf c t = none := by
  unfold wakeupOf
  split
  · next d elapsed _ _ hev _ =>
    rw [if_neg]
    rintro rfl
    exact hne elapsed hev
  · rfl

/-- After the end of a round the call waits, or the step returns what the round returns. -/
theorem endRound_cases {t : Step T} {s : Sys T} {x : IdleRound T × PoolState T}
    (h : (t.out, t.post) = s.endRound c timeout x) :
    (∃ left g, x = (.wait left, g) ∧ t.post.calls.get c = some (.waiting timeout .asleep)) ∨
    ∃ ret, (∀ os, idleRounds w timeout x os = some ret) ∧ Returns t ret := by
  obtain ⟨round, g⟩ := x
  cases round with
  | found item =>
    obtain ⟨hout, hpost⟩ := Prod.mk.inj h
    refine Or.inr ⟨⟨0, .ok (some item), g⟩, fun os => by simp only [idleRounds], ?_, Or.inl ⟨item, hout, rfl⟩⟩
    rw [hpost, pool_setCall, pool_unlock]
  | gaveUp =>
    obtain ⟨hout, hpost⟩ := Prod.mk.inj h
    refine Or.inr ⟨⟨0, .ok none, g⟩, fun os => by simp only [idleRounds], ?_, Or.inr ⟨hout, rfl⟩⟩
    rw [hpost, pool_setCall, pool_unlock]
  | wait left =>
    obtain ⟨-, hpost⟩ := Prod.mk.inj h
    refine Or.inl ⟨left, g, rfl, ?_⟩
    rw [hpost, calls_setCall, Ledger.get_put_self]

/-- A round of a waiting call is the round of what it observes. -/
theorem step_round {t : Step T} (ht : Lts.IsStep (step cfg) t) {wait : Wait} {elapsed : Duration}
    (hget : t.pre.calls.get c = some (.waiting timeout wait)) (hev : t.ev.1 = .idleResume c elapsed) :
    ∃ o, wakeupOf c t = some o ∧
      (t.out, t.post) = t.pre.clearPoison.endRound c timeout (o.round w timeout) := by
  obtain ⟨pre, ⟨ev, pick⟩, out, post⟩ := t
  obtain rfl : ev = .idleResume c elapsed := hev
  -- a sleeper does not take the lock
  have hne : wait ≠ .asleep := by
    rintro rfl
    simp only [Lts.IsStep, step, hget] at ht
    cases ht
  have hstep : step cfg pre (.idleResume c elapsed, pick) = _ := step_idleResume hget hne elapsed pick
  refine ⟨⟨pre.pool, elapsed, wait.timedOut⟩, ?_, Option.some.inj (ht.symm.trans hstep)⟩
  simp only [wakeupOf, hget, if_true]

/-- **A waiting call goes through its rounds**: after any run it still waits, as `idleRounds` does, or it
has returned in one of the steps what `idleRounds` returns. -/
theorem run_idleRounds {s s' : Sys T} {r : List (Step T)} (h : Lts.Path (step cfg) s r s') :
    ∀ {wait : Wait}, s.calls.get c = some (.waiting timeout wait) → ∀ (left : Duration) (g : PoolState T),
    (idleRounds w timeout (.wait left, g) (r.filterMap (wakeupOf c)) = none ∧
      ∃ wait', s'.calls.get c = some (.waiting timeout wait')) ∨
    ∃ t ∈ r, ∃ ret, idleRounds w timeout (.wait left, g) (r.filterMap (wakeupOf c)) = some ret ∧
      Returns t ret := by
  induction h with
  | nil => exact fun hget left g => Or.inl ⟨rfl, _, hget⟩
  | @cons t r s' ht _ ih =>
    intro wait hget left g
    by_cases hev : ∃ elapsed, t.ev.1 = .idleResume c elapsed
    · obtain ⟨elapsed, hev⟩ := hev
      obtain ⟨o, ho, hend⟩ := step_round ht hget hev
      rw [List.filterMap_cons_some ho, idleRounds_cons]
      rcases endRound_cases (w := w) hend with ⟨left', g', hround, hget'⟩ | ⟨ret, hret, hreturns⟩
      · rw [hround]
        rcases ih hget' left' g' with ⟨hnone, hwaits⟩ | ⟨u, hu, ret, hret, hreturns⟩
        · exact Or.inl ⟨by rw [hnone]; rfl, hwaits⟩
        · exact Or.inr ⟨u, List.mem_cons_of_mem t hu, { ret with wakeups := ret.wakeups + 1 }, by rw [hret]; rfl,
            hreturns⟩
      · exact Or.inr ⟨t, List.mem_cons_self, { ret with wakeups := ret.wakeups + 1 }, by rw [hret]; rfl, hreturns⟩
    · have hne : ∀ elapsed, t.ev.1 ≠ .idleResume c elapsed := fun elapsed h => hev ⟨elapsed, h⟩
      obtain ⟨wait', hget'⟩ := step_keeps_waiting ht hget hne
      rw [List.filterMap_cons_none (wakeupOf_of_ne hne)]
      rcases ih hget' left g with hwaits | ⟨u, hu, hret⟩
      · exact Or.inl hwaits
      · exact Or.inr ⟨u, List.mem_cons_of_mem t hu, hret⟩

/-- **A call in a pool in use is a call over a history**: after any run from its entry it still waits, as
`checkoutIdleTimeout` does on what the call has observed, or it has returned in one of the steps what
`checkoutIdleTimeout` returns. -/
theorem run_checkoutIdleTimeout {s s' : Sys T} {t : Step T} {r : List (Step T)} {elapsed : Duration}
    (h : Lts.Path (step cfg) s (t :: r) s') (hev : t.ev.1 = .idleEnter c timeout elapsed) :
    (checkoutIdleTimeout w timeout t.pre.pool elapsed (r.filterMap (wakeupOf c)) = none ∧
      ∃ wait, s'.calls.get c = some (.waiting timeout wait)) ∨
    ∃ u ∈ t :: r, ∃ ret, checkoutIdleTimeout w timeout t.pre.pool elapsed (r.filterMap (wakeupOf c)) = some ret ∧
      Returns u ret := by
  cases h with
  | cons ht hr =>
    have hlabel : t.ev = (.idleEnter c timeout elapsed, t.ev.2) := by rw [← hev]
    have hend : (t.out, t.post) = t.pre.endRound c timeout (idleLoop w timeout elapsed t.pre.pool) := by
      unfold Lts.IsStep at ht
      rw [hlabel] at ht
      simp only [step] at ht
      cases hget : t.pre.calls.get c with
      | some v => simp only [hget] at ht; cases ht
      | none => simp only [hget] at ht; exact (Option.some.inj ht).symm
    unfold checkoutIdleTimeout
    rcases endRound_cases (w := w) hend with ⟨left, g, hround, hget⟩ | ⟨ret, hret, hreturns⟩
    · rw [hround]
      rcases run_idleRounds hr hget left g with hwaits | ⟨u, hu, hreturns⟩
      · exact Or.inl hwaits
      · exact Or.inr ⟨u, List.mem_cons_of_mem _ hu, hreturns⟩
    · exact Or.inr ⟨_, List.mem_cons_self, ret, hret _, hreturns⟩

end Run

end Transportx.Pool
