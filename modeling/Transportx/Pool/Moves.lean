import Transportx.Pool.System

/-!
# Transportx.Pool.Moves — what one step can do

`step` taken apart into three independent effects, once for all the proofs about runs:

* `Move`, `PoolMove`: what a critical section does to the pool state;
* `CallMove`: where the call was, where it is afterwards, and which move and outcome go with that;
* `Wakes`: what `notify_one` does to the other calls, after the two moves that notify.

`step_cases` reads these off a step, `step_of_moves` builds a step from them.
-/

namespace Transportx.Pool

variable {w : ℕ} {T : Type}

/-! ## Moves -/

/-- The ways in which a critical section ends, as seen from the pool state. -/
inductive Move (T : Type)
  | take (item : T)
  | reserve
  | refuse
  | miss
  | give (item : T) (dropped : Option T)
  | release
  | skip

def Move.notifies : Move T → Bool
  | .give _ _ | .release => true
  | _ => false

def Move.taken : Move T → ℕ
  | .take _ | .reserve => 1
  | _ => 0

def Move.given : Move T → ℕ
  | .give _ _ | .release => 1
  | _ => 0

def Move.popped : Move T → ℕ
  | .take _ => 1
  | _ => 0

/-- Whether the code makes this move only on an empty `idle`. -/
def Move.onEmpty : Move T → Bool
  | .reserve | .refuse | .miss => true
  | _ => false

/-- The effect of a move on the pool state, with the condition under which the code makes it. -/
inductive PoolMove (cfg : PoolConfig w) : Move T → PoolState T → PoolState T → Prop
  | take (item : T) (rest : List T) (n : ℕ) :
      PoolMove cfg (.take item) ⟨item :: rest, n⟩ ⟨rest, Usize.wrappingAdd w n 1⟩
  | reserve {n : ℕ} (h : n < cfg.maxPoolSize) :
      PoolMove cfg .reserve ⟨[], n⟩ ⟨[], Usize.wrappingAdd w n 1⟩
  | refuse {n : ℕ} (h : cfg.maxPoolSize ≤ n) : PoolMove cfg .refuse ⟨[], n⟩ ⟨[], n⟩
  | miss (n : ℕ) : PoolMove cfg .miss ⟨[], n⟩ ⟨[], n⟩
  | give (item : T) (g : PoolState T) :
      PoolMove cfg (.give item (returnClient cfg g item).2) g (returnClient cfg g item).1
  | release (g : PoolState T) : PoolMove cfg .release g (releasePermit w g)
  | skip (g : PoolState T) : PoolMove cfg .skip g g

/-- The life of a call: event, outcome, call, where it was, where it is, and what it does to the
pool.  A call that was nowhere begins. -/
inductive CallMove (cfg : PoolConfig w) :
    Event T → Outcome T → CallId → Option (Call T) → Call T → Move T → Prop
  | hit (c : CallId) (kind : Kind) (item : T) :
      CallMove cfg (.checkout c kind) (.hit item) c none (handOut kind item) (.take item)
  | reserved (c : CallId) (kind : Kind) :
      CallMove cfg (.checkout c kind) .reserved c none (.inFlight kind) .reserve
  | exhausted (c : CallId) (kind : Kind) :
      CallMove cfg (.checkout c kind) (.exhausted (.poolExhausted cfg.maxPoolSize)) c none .failed .refuse
  | created (c : CallId) (kind : Kind) (item : T) :
      CallMove cfg (.factory c (.ok item)) (.created item) c (some (.inFlight kind)) (handOut kind item)
        .skip
  | erred (c : CallId) (kind : Kind) (e : TransportError) :
      CallMove cfg (.factory c (.err e)) (.rolledBack (some e)) c (some (.inFlight kind)) .failed .release
  | unwound (c : CallId) (kind : Kind) :
      CallMove cfg (.factory c .unwind) (.rolledBack none) c (some (.inFlight kind)) .failed .release
  | returned (c : CallId) (item : T) (dropped : Option T) :
      CallMove cfg (.returnManual c) (.returned dropped) c (some (.manual item)) .closed
        (.give item dropped)
  | dropped (c : CallId) (item : T) (dropped : Option T) :
      CallMove cfg (.dropLease c) (.returned dropped) c (some (.lease (some item))) .closed
        (.give item dropped)
  | emptyLease (c : CallId) : CallMove cfg (.dropLease c) .emptyLease c (some (.lease none)) .closed .skip
  | detached (c : CallId) (item : T) :
      CallMove cfg (.intoInner c) (.detached (some item)) c (some (.lease (some item))) (.lease none)
        .release
  | detachedNone (c : CallId) :
      CallMove cfg (.intoInner c) (.detached none) c (some (.lease none)) (.lease none) .skip
  | entryHit (c : CallId) (timeout elapsed : Duration) (item : T) :
      CallMove cfg (.idleEnter c timeout elapsed) (.hit item) c none (.manual item) (.take item)
  | entrySlept (c : CallId) {timeout elapsed : Duration} (h : timeout - elapsed ≠ 0) :
      CallMove cfg (.idleEnter c timeout elapsed) .slept c none (.waiting timeout .asleep) .miss
  | entryNone (c : CallId) {timeout elapsed : Duration} (h : timeout - elapsed = 0) :
      CallMove cfg (.idleEnter c timeout elapsed) .idleNone c none .failed .miss
  | woke (c : CallId) (timedOut : Bool) (timeout : Duration) :
      CallMove cfg (.wake c timedOut) .woke c (some (.waiting timeout .asleep))
        (.waiting timeout (.awake timedOut)) .skip
  | resumeHit (c : CallId) (timeout elapsed : Duration) (item : T) {wait : Wait} (hw : wait ≠ .asleep) :
      CallMove cfg (.idleResume c elapsed) (.hit item) c (some (.waiting timeout wait)) (.manual item)
        (.take item)
  | resumeSlept (c : CallId) {timeout elapsed : Duration} {wait : Wait} (hw : wait ≠ .asleep)
      (ht : wait.timedOut = false) (h : timeout - elapsed ≠ 0) :
      CallMove cfg (.idleResume c elapsed) .slept c (some (.waiting timeout wait))
        (.waiting timeout .asleep) .miss
  | resumeNone (c : CallId) {timeout elapsed : Duration} {wait : Wait} (hw : wait ≠ .asleep)
      (h : wait.timedOut = true ∨ timeout - elapsed = 0) :
      CallMove cfg (.idleResume c elapsed) .idleNone c (some (.waiting timeout wait)) .failed .miss

/-- `notify_one` at the end of a move that notifies. -/
def Wakes (m : Move T) (pick : Option CallId) (calls calls' : Ledger CallId (Call T)) : Prop :=
  if m.notifies then notifyOne pick calls = some calls' else calls' = calls

@[simp] theorem pool_unlock (s : Sys T) (g : PoolState T) : (s.unlock g).pool = g := lockState_eq _

@[simp] theorem calls_unlock (s : Sys T) (g : PoolState T) : (s.unlock g).calls = s.calls := rfl

@[simp] theorem pool_setCall (s : Sys T) (c : CallId) (v : Call T) : (s.setCall c v).pool = s.pool := rfl

@[simp] theorem calls_setCall (s : Sys T) (c : CallId) (v : Call T) :
    (s.setCall c v).calls = s.calls.put c v := rfl

@[simp] theorem pool_calls (s : Sys T) (l : Ledger CallId (Call T)) :
    Sys.pool { s with calls := l } = s.pool := rfl

/-! Poison is invisible to the critical sections. -/

@[simp] theorem pool_poison (s : Sys T) : s.poison.pool = s.pool := by
  simp [Sys.pool, Sys.poison]

@[simp] theorem pool_clearPoison (s : Sys T) : s.clearPoison.pool = s.pool := by
  simp [Sys.pool, Sys.clearPoison]

@[simp] theorem calls_clearPoison (s : Sys T) : s.clearPoison.calls = s.calls := rfl

/-! ## The critical sections make moves -/

section Sections

variable (cfg : PoolConfig w) (g : PoolState T)

theorem checkoutWith_cases :
    (∃ item g', checkoutWith cfg g = (.hit item, g') ∧ PoolMove cfg (.take item) g g') ∨
    (∃ g', checkoutWith cfg g = (.reserved, g') ∧ PoolMove cfg .reserve g g') ∨
    (checkoutWith cfg g = (.exhausted (.poolExhausted cfg.maxPoolSize), g) ∧ PoolMove cfg .refuse g g) := by
  obtain ⟨idle, n⟩ := g
  cases idle with
  | cons item rest => exact Or.inl ⟨item, _, rfl, .take item rest n⟩
  | nil =>
    simp only [checkoutWith, popIdle_nil]
    by_cases hn : n < cfg.maxPoolSize
    · exact Or.inr (Or.inl ⟨_, by rw [if_pos hn], .reserve hn⟩)
    · exact Or.inr (Or.inr ⟨by rw [if_neg hn], .refuse (Nat.le_of_not_lt hn)⟩)

theorem idleLoop_cases (timeout elapsed : Duration) :
    (∃ item g', idleLoop w timeout elapsed g = (.found item, g') ∧ PoolMove cfg (.take item) g g') ∨
    (idleLoop w timeout elapsed g = (.gaveUp, g) ∧ PoolMove cfg .miss g g ∧ timeout - elapsed = 0) ∨
    (∃ left, idleLoop w timeout elapsed g = (.wait left, g) ∧ PoolMove cfg .miss g g ∧
      timeout - elapsed ≠ 0) := by
  obtain ⟨idle, n⟩ := g
  cases idle with
  | cons item rest => exact Or.inl ⟨item, _, rfl, .take item rest n⟩
  | nil =>
    simp only [idleLoop, popIdle_nil]
    by_cases ht : timeout - elapsed = 0
    · exact Or.inr (Or.inl ⟨by rw [if_pos ht], .miss n, ht⟩)
    · exact Or.inr (Or.inr ⟨_, by rw [if_neg ht], .miss n, ht⟩)

theorem idleAfterWait_cases (timedOut : Bool) (timeout elapsed : Duration) :
    (∃ item g', idleAfterWait w timedOut timeout elapsed g = (.found item, g') ∧
      PoolMove cfg (.take item) g g') ∨
    (idleAfterWait w timedOut timeout elapsed g = (.gaveUp, g) ∧ PoolMove cfg .miss g g ∧
      (timedOut = true ∨ timeout - elapsed = 0)) ∨
    (∃ left, idleAfterWait w timedOut timeout elapsed g = (.wait left, g) ∧ PoolMove cfg .miss g g ∧
      timedOut = false ∧ timeout - elapsed ≠ 0) := by
  obtain ⟨idle, n⟩ := g
  cases idle with
  | cons item rest => exact Or.inl ⟨item, _, idleAfterWait_of_idle rfl timedOut timeout elapsed, .take item rest n⟩
  | nil =>
    have hround : idleAfterWait w timedOut timeout elapsed (⟨[], n⟩ : PoolState T) = _ :=
      idleAfterWait_of_empty rfl timedOut timeout elapsed
    by_cases ht : timedOut = true ∨ timeout - elapsed = 0
    · rw [if_pos ht] at hround
      exact Or.inr (Or.inl ⟨hround, .miss n, ht⟩)
    · rw [if_neg ht] at hround
      obtain ⟨htimed, hleft⟩ := not_or.mp ht
      exact Or.inr (Or.inr ⟨_, hround, .miss n, Bool.eq_false_iff.mpr htimed, hleft⟩)

variable {cfg g} {g' : PoolState T}

theorem checkoutWith_of_take {item : T} (h : PoolMove cfg (.take item) g g') :
    checkoutWith cfg g = (.hit item, g') := by
  cases h; rfl

theorem checkoutWith_of_reserve (h : PoolMove cfg .reserve g g') : checkoutWith cfg g = (.reserved, g') := by
  cases h with
  | reserve hn => simp [checkoutWith, popIdle_nil, hn]

theorem checkoutWith_of_refuse (h : PoolMove cfg .refuse g g') :
    checkoutWith cfg g = (.exhausted (.poolExhausted cfg.maxPoolSize), g') := by
  cases h with
  | refuse hn => simp [checkoutWith, popIdle_nil, Nat.not_lt.mpr hn]

theorem idleLoop_of_take {item : T} (h : PoolMove cfg (.take item) g g') (timeout elapsed : Duration) :
    idleLoop w timeout elapsed g = (.found item, g') := by
  cases h
  exact idleLoop_of_idle rfl timeout elapsed

theorem idleLoop_of_miss (h : PoolMove cfg .miss g g') (timeout elapsed : Duration) :
    idleLoop w timeout elapsed g =
      (if timeout - elapsed = 0 then .gaveUp else .wait (timeout - elapsed), g') := by
  cases h
  exact idleLoop_of_empty rfl timeout elapsed

theorem idleAfterWait_of_take {item : T} (h : PoolMove cfg (.take item) g g') (timedOut : Bool)
    (timeout elapsed : Duration) : idleAfterWait w timedOut timeout elapsed g = (.found item, g') := by
  cases h
  exact idleAfterWait_of_idle rfl timedOut timeout elapsed

theorem idleAfterWait_of_miss (h : PoolMove cfg .miss g g') (timedOut : Bool) (timeout elapsed : Duration) :
    idleAfterWait w timedOut timeout elapsed g =
      (if timedOut = true ∨ timeout - elapsed = 0 then .gaveUp else .wait (timeout - elapsed), g') := by
  cases h
  exact idleAfterWait_of_empty rfl timedOut timeout elapsed

end Sections

/-! ## What a move says of the state before it -/

theorem PoolMove.eq_of_skip {cfg : PoolConfig w} {g g' : PoolState T} (h : PoolMove cfg .skip g g') : g' = g := by
  cases h
  rfl

theorem PoolMove.le_of_refuse {cfg : PoolConfig w} {g g' : PoolState T} (h : PoolMove cfg .refuse g g') :
    cfg.maxPoolSize ≤ g.checkedOut := by
  cases h with
  | refuse hn => exact hn

/-! ## The length of the idle stack -/

theorem PoolMove.idle_of_onEmpty {cfg : PoolConfig w} {m : Move T} {g g' : PoolState T}
    (h : PoolMove cfg m g g') (hm : m.onEmpty = true) : g'.idle = [] := by
  cases h <;> first | rfl | cases hm

theorem PoolMove.length_le {cfg : PoolConfig w} {m : Move T} {g g' : PoolState T} (h : PoolMove cfg m g g') :
    g'.idle.length + m.popped ≤ g.idle.length + m.given := by
  cases h with
  | give item g =>
    have hlen : (returnClient cfg g item).1.idle.length ≤ g.idle.length + 1 := by
      unfold returnClient
      dsimp only
      split <;> simp
    exact hlen
  | release g =>
    have hidle : (releasePermit w g).idle = g.idle := giveBackPermit_idle g
    rw [hidle]
    exact Nat.le_succ _
  | _ => simp [Move.popped, Move.given]

/-! ## Steps are moves -/

/-- What one step does: a move of one call, a return of a foreign object, or poison. -/
inductive StepCase (cfg : PoolConfig w) (s : Sys T) : Label T → Outcome T → Sys T → Prop
  | call {ev : Event T} {o : Outcome T} {c : CallId} {old : Option (Call T)} {new : Call T} {m : Move T}
      {pick : Option CallId} {s' : Sys T} (hc : CallMove cfg ev o c old new m)
      (hget : s.calls.get c = old) (hpool : PoolMove cfg m s.pool s'.pool)
      (hwakes : Wakes m pick (s.calls.put c new) s'.calls) : StepCase cfg s (ev, pick) o s'
  | foreign {item : T} {dropped : Option T} {pick : Option CallId} {s' : Sys T}
      (hpool : PoolMove cfg (.give item dropped) s.pool s'.pool)
      (hwakes : Wakes (.give item dropped) pick s.calls s'.calls) :
      StepCase cfg s (.returnForeign item, pick) (.returned dropped) s'
  | poison {pick : Option CallId} {s' : Sys T} (hpool : s'.pool = s.pool) (hcalls : s'.calls = s.calls) :
      StepCase cfg s (.poison, pick) .poisoned s'

theorem giveBack_of_wakes {cfg : PoolConfig w} {pick : Option CallId} {s : Sys T} {item : T}
    {d : Option T} {g : PoolState T} {calls : Ledger CallId (Call T)}
    (hm : PoolMove cfg (.give item d) s.pool g) (hw : Wakes (.give item d) pick s.calls calls) :
    ∃ s', s.giveBack cfg pick item = some (.returned d, s') ∧ s'.pool = g ∧ s'.calls = calls := by
  have hn : notifyOne pick s.calls = some calls := hw
  cases hm
  exact ⟨{ s.unlock (returnClient cfg s.pool item).1 with calls }, by rw [Sys.giveBack, hn]; rfl,
    by simp, rfl⟩

theorem release_of_wakes {cfg : PoolConfig w} {pick : Option CallId} {s : Sys T} {out : Outcome T}
    {g : PoolState T} {calls : Ledger CallId (Call T)} (hm : PoolMove cfg .release s.pool g)
    (hw : Wakes (.release : Move T) pick s.calls calls) :
    ∃ s', s.release w pick out = some (out, s') ∧ s'.pool = g ∧ s'.calls = calls := by
  have hn : notifyOne pick s.calls = some calls := hw
  cases hm
  exact ⟨{ s.unlock (releasePermit w s.pool) with calls }, by rw [Sys.release, hn]; rfl, by simp, rfl⟩

theorem giveBack_some {cfg : PoolConfig w} {pick : Option CallId} {s s' : Sys T} {item : T} {o : Outcome T}
    (h : s.giveBack cfg pick item = some (o, s')) :
    ∃ d, o = .returned d ∧ PoolMove cfg (.give item d) s.pool s'.pool ∧
      Wakes (.give item d) pick s.calls s'.calls := by
  simp only [Sys.giveBack, Option.map_eq_some_iff, Prod.mk.injEq] at h
  obtain ⟨calls, hn, rfl, rfl⟩ := h
  refine ⟨_, rfl, ?_, hn⟩
  simpa using PoolMove.give item s.pool

theorem release_some {cfg : PoolConfig w} {pick : Option CallId} {s s' : Sys T} {out o : Outcome T}
    (h : s.release w pick out = some (o, s')) :
    o = out ∧ PoolMove cfg .release s.pool s'.pool ∧ Wakes .release pick s.calls s'.calls := by
  simp only [Sys.release, Option.map_eq_some_iff, Prod.mk.injEq] at h
  obtain ⟨calls, hn, rfl, rfl⟩ := h
  refine ⟨rfl, ?_, hn⟩
  simpa using PoolMove.release s.pool

/-- A step of a call whose move does not notify. -/
theorem StepCase.quiet {cfg : PoolConfig w} {s : Sys T} {ev : Event T} {o : Outcome T} {c : CallId}
    {old : Option (Call T)} {new : Call T} {m : Move T} {pick : Option CallId} {g : PoolState T}
    (hc : CallMove cfg ev o c old new m) (hget : s.calls.get c = old) (hpool : PoolMove cfg m s.pool g)
    (hm : m.notifies = false) : StepCase cfg s (ev, pick) o ((s.unlock g).setCall c new) :=
  .call hc hget (by simpa using hpool) (by simp [Wakes, hm])

theorem StepCase.outside {cfg : PoolConfig w} {s : Sys T} {ev : Event T} {o : Outcome T} {c : CallId}
    {old : Option (Call T)} {new : Call T} {pick : Option CallId}
    (hc : CallMove cfg ev o c old new .skip) (hget : s.calls.get c = old) :
    StepCase cfg s (ev, pick) o (s.setCall c new) :=
  .call hc hget (.skip _) (by simp [Wakes, Move.notifies])

/-- **Every step is one of the cases.** -/
theorem step_cases {cfg : PoolConfig w} {s s' : Sys T} {l : Label T} {o : Outcome T}
    (h : step cfg s l = some (o, s')) : StepCase cfg s l o s' := by
  obtain ⟨ev, pick⟩ := l
  cases ev with
  | checkout c kind =>
    simp only [step] at h
    split at h
    · cases h
    · next hget =>
      rcases checkoutWith_cases cfg s.pool with ⟨item, g, hg, hm⟩ | ⟨g, hg, hm⟩ | ⟨hg, hm⟩ <;>
        rw [hg] at h <;> obtain ⟨rfl, rfl⟩ := Prod.mk.inj (Option.some.inj h)
      · exact .quiet (.hit c kind item) hget hm rfl
      · exact .quiet (.reserved c kind) hget hm rfl
      · exact .quiet (.exhausted c kind) hget hm rfl
  | factory c result =>
    simp only [step] at h
    split at h
    · next kind hget =>
      cases result with
      | ok item =>
        obtain ⟨rfl, rfl⟩ := Prod.mk.inj (Option.some.inj h)
        -- the guard is disarmed: the permit stays with the object
        exact .outside (.created c kind item) hget
      | err e =>
        obtain ⟨rfl, hm, hw⟩ := release_some h
        exact .call (.erred c kind e) hget hm hw
      | unwind =>
        obtain ⟨rfl, hm, hw⟩ := release_some h
        exact .call (.unwound c kind) hget hm hw
    · cases h
  | returnManual c =>
    simp only [step] at h
    split at h
    · next item hget =>
      obtain ⟨d, rfl, hm, hw⟩ := giveBack_some h
      exact .call (.returned c item d) hget hm hw
    · cases h
  | returnForeign item =>
    obtain ⟨d, rfl, hm, hw⟩ := giveBack_some h
    exact .foreign hm hw
  | dropLease c =>
    simp only [step] at h
    split at h
    · next item hget =>
      obtain ⟨d, rfl, hm, hw⟩ := giveBack_some h
      exact .call (.dropped c item d) hget hm hw
    · next hget =>
      obtain ⟨rfl, rfl⟩ := Prod.mk.inj (Option.some.inj h)
      -- `into_inner` has taken the object and released the permit
      exact .outside (.emptyLease c) hget
    · cases h
  | intoInner c =>
    simp only [step] at h
    split at h
    · next item hget =>
      obtain ⟨rfl, hm, hw⟩ := release_some h
      exact .call (.detached c item) hget hm hw
    · next hget =>
      obtain ⟨rfl, rfl⟩ := Prod.mk.inj (Option.some.inj h)
      exact .outside (.detachedNone c) hget
    · cases h
  | idleEnter c timeout elapsed =>
    simp only [step] at h
    split at h
    · cases h
    · next hget =>
      rcases idleLoop_cases cfg s.pool timeout elapsed with ⟨item, g, hg, hm⟩ | ⟨hg, hm, ht⟩ |
        ⟨left, hg, hm, ht⟩ <;> rw [hg] at h <;> obtain ⟨rfl, rfl⟩ := Prod.mk.inj (Option.some.inj h)
      · exact .quiet (.entryHit c timeout elapsed item) hget hm rfl
      · exact .quiet (.entryNone c ht) hget hm rfl
      · exact .quiet (.entrySlept c ht) hget hm rfl
  | wake c timedOut =>
    simp only [step] at h
    split at h
    · next timeout hget =>
      obtain ⟨rfl, rfl⟩ := Prod.mk.inj (Option.some.inj h)
      exact .outside (.woke c timedOut timeout) hget
    · cases h
  | idleResume c elapsed =>
    simp only [step] at h
    split at h
    · cases h
    · next timeout wait hne hget =>
      have hw : wait ≠ .asleep := by rintro rfl; exact hne rfl
      -- clearing the flag does not touch the state under the lock
      rw [pool_clearPoison] at h
      rcases idleAfterWait_cases cfg s.pool wait.timedOut timeout elapsed with ⟨item, g, hg, hm⟩ |
        ⟨hg, hm, ht⟩ | ⟨left, hg, hm, ht, hl⟩ <;> rw [hg] at h <;>
        obtain ⟨rfl, rfl⟩ := Prod.mk.inj (Option.some.inj h)
      · exact .call (.resumeHit c timeout elapsed item hw) hget (by simpa using hm) rfl
      · exact .call (.resumeNone c hw ht) hget (by simpa using hm) rfl
      · exact .call (.resumeSlept c hw ht hl) hget (by simpa using hm) rfl
    · cases h
  | poison =>
    obtain ⟨rfl, rfl⟩ := Prod.mk.inj (Option.some.inj h)
    exact .poison (by simp) rfl

theorem step_idleResume {cfg : PoolConfig w} {s : Sys T} {c : CallId} {timeout : Duration} {wait : Wait}
    (hget : s.calls.get c = some (.waiting timeout wait)) (hne : wait ≠ .asleep) (elapsed : Duration)
    (pick : Option CallId) :
    step cfg s (.idleResume c elapsed, pick) = some (s.clearPoison.endRound c timeout
      (idleAfterWait w wait.timedOut timeout elapsed s.pool)) := by
  cases wait with
  | asleep => exact absurd rfl hne
  | _ => simp only [step, hget, pool_clearPoison]

theorem Wakes.calls_eq {m : Move T} {pick : Option CallId} {calls calls' : Ledger CallId (Call T)}
    (h : Wakes m pick calls calls') (hm : m.notifies = false) : calls' = calls := by
  simpa [Wakes, hm] using h

/-- **Every case of a call is a step**: the effects of a call move on the pool and on the other calls
can be had together. -/
theorem step_of_moves {cfg : PoolConfig w} {s : Sys T} {ev : Event T} {o : Outcome T} {c : CallId}
    {old : Option (Call T)} {new : Call T} {m : Move T} {pick : Option CallId} {g : PoolState T}
    {calls : Ledger CallId (Call T)} (hc : CallMove cfg ev o c old new m) (hget : s.calls.get c = old)
    (hm : PoolMove cfg m s.pool g) (hw : Wakes m pick (s.calls.put c new) calls) :
    ∃ s', step cfg s (ev, pick) = some (o, s') ∧ s'.pool = g ∧ s'.calls = calls := by
  -- a call that does not notify: its new state is the one that `step` stores
  have quiet : ∀ {t : Sys T}, m.notifies = false → t.calls = s.calls →
      step cfg s (ev, pick) = some (o, (t.unlock g).setCall c new) →
      ∃ s', step cfg s (ev, pick) = some (o, s') ∧ s'.pool = g ∧ s'.calls = calls := by
    intro t hq ht hstep
    exact ⟨_, hstep, by simp, by rw [hw.calls_eq hq, calls_setCall, calls_unlock, ht]⟩
  have outside : m = .skip → step cfg s (ev, pick) = some (o, s.setCall c new) →
      ∃ s', step cfg s (ev, pick) = some (o, s') ∧ s'.pool = g ∧ s'.calls = calls := by
    rintro rfl hstep
    cases hm
    exact ⟨_, hstep, rfl, (hw.calls_eq rfl).symm⟩
  cases hc with
  | hit _ kind item => exact quiet rfl rfl (by simp only [step, hget, checkoutWith_of_take hm])
  | reserved _ kind => exact quiet rfl rfl (by simp only [step, hget, checkoutWith_of_reserve hm])
  | exhausted _ kind => exact quiet rfl rfl (by simp only [step, hget, checkoutWith_of_refuse hm])
  | created _ kind item => exact outside rfl (by simp only [step, hget])
  | erred _ kind e =>
    obtain ⟨s', hs, hp, hl⟩ := release_of_wakes (s := s.setCall c .failed) hm hw
    exact ⟨s', by simp only [step, hget]; exact hs, hp, hl⟩
  | unwound _ kind =>
    obtain ⟨s', hs, hp, hl⟩ := release_of_wakes (s := s.setCall c .failed) hm hw
    exact ⟨s', by simp only [step, hget]; exact hs, hp, hl⟩
  | returned _ item d =>
    obtain ⟨s', hs, hp, hl⟩ := giveBack_of_wakes (s := s.setCall c .closed) hm hw
    exact ⟨s', by simp only [step, hget]; exact hs, hp, hl⟩
  | dropped _ item d =>
    obtain ⟨s', hs, hp, hl⟩ := giveBack_of_wakes (s := s.setCall c .closed) hm hw
    exact ⟨s', by simp only [step, hget]; exact hs, hp, hl⟩
  | emptyLease => exact outside rfl (by simp only [step, hget])
  | detached _ item =>
    obtain ⟨s', hs, hp, hl⟩ := release_of_wakes (s := s.setCall c (.lease none)) hm hw
    exact ⟨s', by simp only [step, hget]; exact hs, hp, hl⟩
  | detachedNone => exact outside rfl (by simp only [step, hget])
  | entryHit _ timeout elapsed item =>
    exact quiet rfl rfl (by simp only [step, hget, idleLoop_of_take hm, Sys.endRound])
  | entrySlept _ h =>
    exact quiet rfl rfl (by simp only [step, hget, idleLoop_of_miss hm, if_neg h, Sys.endRound])
  | entryNone _ h =>
    exact quiet rfl rfl (by simp only [step, hget, idleLoop_of_miss hm, if_pos h, Sys.endRound])
  | woke _ timedOut timeout => exact outside rfl (by simp only [step, hget])
  | resumeHit _ timeout elapsed item hne =>
    -- a waiter clears the flag first, which neither the pool nor the calls show
    refine quiet (t := s.clearPoison) rfl rfl ?_
    rw [step_idleResume hget hne, idleAfterWait_of_take hm, Sys.endRound]
  | resumeSlept _ hne ht h =>
    refine quiet (t := s.clearPoison) rfl rfl ?_
    rw [step_idleResume hget hne, idleAfterWait_of_miss hm, if_neg (by simp [ht, h]), Sys.endRound]
  | resumeNone _ hne h =>
    refine quiet (t := s.clearPoison) rfl rfl ?_
    rw [step_idleResume hget hne, idleAfterWait_of_miss hm, if_pos h, Sys.endRound]

/-- A case of a call that does not notify is a step which leaves the other calls alone. -/
theorem step_of_quiet {cfg : PoolConfig w} {s : Sys T} {ev : Event T} {o : Outcome T} {c : CallId}
    {old : Option (Call T)} {new : Call T} {m : Move T} {g : PoolState T}
    (hc : CallMove cfg ev o c old new m) (hget : s.calls.get c = old) (hm : PoolMove cfg m s.pool g)
    (hq : m.notifies = false) (pick : Option CallId) :
    ∃ s', step cfg s (ev, pick) = some (o, s') ∧ s'.pool = g ∧ s'.calls = s.calls.put c new :=
  step_of_moves hc hget hm (by simp [Wakes, hq])

/-! ## Notification -/

/-- A weight that does not tell a notified waiter from a sleeper. -/
def Blind {M : Type} (g : Call T → M) : Prop :=
  ∀ timeout, g (.waiting timeout .notified) = g (.waiting timeout .asleep)

theorem notifyOne_some {pick : Option CallId} {calls calls' : Ledger CallId (Call T)}
    (h : notifyOne pick calls = some calls') :
    (calls.total Call.asleep = 0 ∧ calls' = calls) ∨
    ∃ c timeout, calls.get c = some (.waiting timeout .asleep) ∧
      calls' = calls.put c (.waiting timeout .notified) := by
  cases pick with
  | none =>
    simp only [notifyOne] at h
    split at h
    · next h0 => exact Or.inl ⟨h0, (Option.some.inj h).symm⟩
    · cases h
  | some c =>
    simp only [notifyOne] at h
    split at h
    · next timeout hget => exact Or.inr ⟨c, timeout, hget, (Option.some.inj h).symm⟩
    · cases h

/-- There is always a sleeper to choose, unless nobody sleeps. -/
theorem exists_notifyOne (calls : Ledger CallId (Call T)) :
    ∃ pick calls', notifyOne pick calls = some calls' := by
  by_cases h0 : calls.total Call.asleep = 0
  · exact ⟨none, calls, by simp [notifyOne, h0]⟩
  · obtain ⟨c, v, hget, hv⟩ := Ledger.exists_of_total_pos (Nat.pos_of_ne_zero h0)
    -- only a sleeper weighs anything here
    obtain ⟨timeout, rfl⟩ : ∃ timeout, v = .waiting timeout .asleep := by
      unfold Call.asleep at hv
      split at hv
      · exact ⟨_, rfl⟩
      · omega
    exact ⟨some c, calls.put c (.waiting timeout .notified), by simp only [notifyOne, hget]⟩

theorem exists_wakes (m : Move T) (calls : Ledger CallId (Call T)) :
    ∃ pick calls', Wakes m pick calls calls' := by
  unfold Wakes
  cases m.notifies with
  | true => exact exists_notifyOne calls
  | false => exact ⟨none, calls, rfl⟩

/-- Notification moves nothing that a blind weight sees. -/
theorem Wakes.total_eq {M : Type} [AddCommMonoid M] {g : Call T → M} (hg : Blind g) {m : Move T}
    {pick : Option CallId} {calls calls' : Ledger CallId (Call T)} (h : Wakes m pick calls calls') :
    calls'.total g = calls.total g := by
  unfold Wakes at h
  split at h
  · rcases notifyOne_some h with ⟨-, rfl⟩ | ⟨c, timeout, hget, rfl⟩
    · rfl
    · exact Ledger.total_put_same hget (hg timeout)
  · rw [h]

/-- **The balance of a call move** in a blind weight: the old entry against the new one. -/
theorem CallMove.balance {M : Type} [AddCommMonoid M] {g : Call T → M} (hg : Blind g) {m : Move T}
    {pick : Option CallId} {s s' : Sys T} {c : CallId} {old : Option (Call T)} {new : Call T}
    (hget : s.calls.get c = old) (hw : Wakes m pick (s.calls.put c new) s'.calls) :
    s'.calls.total g + old.elim 0 g = s.calls.total g + g new := by
  rw [hw.total_eq hg, ← hget]
  exact Ledger.total_put_get _ _ _ _

end Transportx.Pool
