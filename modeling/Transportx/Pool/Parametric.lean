import Transportx.Pool.Moves

/-!
# Transportx.Pool.Parametric — a pool does not look into its objects

`HttpClientPool<T>` moves values of `T` and never reads one.  So every map between two types of objects
takes the steps of the one pool to steps of the other (`step_map`): same branch, same permits, same
calls, with the images of the objects in the same places.
-/

namespace Transportx.Pool

variable {w : ℕ} {A B : Type} {cfg : PoolConfig w}

/-! ## Images -/

def Call.map (f : A → B) : Call A → Call B
  | .inFlight kind => .inFlight kind
  | .manual item => .manual (f item)
  | .lease item => .lease (item.map f)
  | .waiting timeout wait => .waiting timeout wait
  | .closed => .closed
  | .failed => .failed

def FactoryResult.map (f : A → B) : FactoryResult A → FactoryResult B
  | .ok item => .ok (f item)
  | .err e => .err e
  | .unwind => .unwind

def Event.map (f : A → B) : Event A → Event B
  | .checkout c kind => .checkout c kind
  | .factory c result => .factory c (result.map f)
  | .returnManual c => .returnManual c
  | .returnForeign item => .returnForeign (f item)
  | .dropLease c => .dropLease c
  | .intoInner c => .intoInner c
  | .idleEnter c timeout elapsed => .idleEnter c timeout elapsed
  | .wake c timedOut => .wake c timedOut
  | .idleResume c elapsed => .idleResume c elapsed
  | .poison => .poison

def Label.map (f : A → B) (l : Label A) : Label B := (l.1.map f, l.2)

def Outcome.map (f : A → B) : Outcome A → Outcome B
  | .hit item => .hit (f item)
  | .reserved => .reserved
  | .exhausted e => .exhausted e
  | .created item => .created (f item)
  | .rolledBack e => .rolledBack e
  | .returned dropped => .returned (dropped.map f)
  | .emptyLease => .emptyLease
  | .detached item => .detached (item.map f)
  | .slept => .slept
  | .idleNone => .idleNone
  | .woke => .woke
  | .poisoned => .poisoned

def PoolState.map (f : A → B) (g : PoolState A) : PoolState B := ⟨g.idle.map f, g.checkedOut⟩

def Checkout.map (f : A → B) : Checkout A → Checkout B
  | .hit item => .hit (f item)
  | .reserved => .reserved
  | .exhausted e => .exhausted e

def IdleRound.map (f : A → B) : IdleRound A → IdleRound B
  | .found item => .found (f item)
  | .gaveUp => .gaveUp
  | .wait left => .wait left

def Sys.map (f : A → B) (s : Sys A) : Sys B :=
  ⟨⟨s.mutex.data.map f, s.mutex.poisoned⟩, s.calls.map (Call.map f)⟩

section Images

variable (f : A → B) (s : Sys A) (g : PoolState A) (c : CallId) (v : Call A)

@[simp] theorem idle_map : (g.map f).idle = g.idle.map f := rfl

@[simp] theorem checkedOut_map : (g.map f).checkedOut = g.checkedOut := rfl

@[simp] theorem pool_map : (s.map f).pool = s.pool.map f := by
  simp only [Sys.pool, lockState_eq]
  rfl

@[simp] theorem calls_map : (s.map f).calls = s.calls.map (Call.map f) := rfl

theorem unlock_map : (s.unlock g).map f = (s.map f).unlock (g.map f) := rfl

theorem clearPoison_map : s.clearPoison.map f = (s.map f).clearPoison := rfl

theorem setCall_map : (s.setCall c v).map f = (s.map f).setCall c (v.map f) := by
  unfold Sys.map Sys.setCall
  rw [Ledger.map_put]

theorem handOut_map (kind : Kind) (item : A) : (handOut kind item).map f = handOut kind (f item) := by
  cases kind <;> rfl

end Images

/-! ## The critical sections -/

section Sections

variable (f : A → B) (g : PoolState A)

theorem popIdle_map : popIdle w (g.map f) = (popIdle w g).map (Prod.map f (PoolState.map f)) := by
  obtain ⟨idle, n⟩ := g
  cases idle <;> rfl

theorem checkoutWith_map :
    checkoutWith cfg (g.map f) = Prod.map (Checkout.map f) (PoolState.map f) (checkoutWith cfg g) := by
  unfold checkoutWith
  rw [popIdle_map]
  -- `checkout_with` asks for an idle object first, and only then for a permit
  cases popIdle w g with
  | some hit => rfl
  | none =>
    have hcount : (g.map f).checkedOut < cfg.maxPoolSize ↔ g.checkedOut < cfg.maxPoolSize := Iff.rfl
    simp only [Option.map_none]
    by_cases hn : g.checkedOut < cfg.maxPoolSize
    · rw [if_pos hn, if_pos (hcount.mpr hn)]
      rfl
    · rw [if_neg hn, if_neg (mt hcount.mp hn)]
      rfl

theorem giveBackPermit_map : giveBackPermit w (g.map f) = (giveBackPermit w g).map f := by
  unfold giveBackPermit
  rw [checkedOut_map]
  split <;> rfl

theorem returnClient_map (item : A) :
    returnClient cfg (g.map f) (f item) = Prod.map (PoolState.map f) (Option.map f) (returnClient cfg g item) := by
  unfold returnClient
  simp only [giveBackPermit_map, idle_map, List.length_map]
  split <;> rfl

theorem releasePermit_map : releasePermit w (g.map f) = (releasePermit w g).map f := giveBackPermit_map f g

theorem idleLoop_map (timeout elapsed : Duration) :
    idleLoop w timeout elapsed (g.map f) =
      Prod.map (IdleRound.map f) (PoolState.map f) (idleLoop w timeout elapsed g) := by
  unfold idleLoop
  rw [popIdle_map]
  cases popIdle w g with
  | some hit => rfl
  | none =>
    simp only [Option.map_none]
    split <;> rfl

theorem idleAfterWait_map (timedOut : Bool) (timeout elapsed : Duration) :
    idleAfterWait w timedOut timeout elapsed (g.map f) =
      Prod.map (IdleRound.map f) (PoolState.map f) (idleAfterWait w timedOut timeout elapsed g) := by
  unfold idleAfterWait
  rw [idleLoop_map, idle_map, List.isEmpty_map]
  split <;> rfl

end Sections

/-! ## The steps -/

section Steps

variable (f : A → B) (s : Sys A)

theorem asleep_map (calls : Ledger CallId (Call A)) :
    (calls.map (Call.map f)).total Call.asleep = calls.total Call.asleep := by
  rw [Ledger.total_map]
  refine Finset.sum_congr rfl fun c _ => ?_
  show (Call.map f (calls.val c)).asleep = _
  cases calls.val c with
  | waiting timeout wait => cases wait <;> rfl
  | _ => rfl

theorem notifyOne_map (pick : Option CallId) (calls : Ledger CallId (Call A)) :
    notifyOne pick (calls.map (Call.map f)) = (notifyOne pick calls).map (Ledger.map (Call.map f)) := by
  cases pick with
  | none =>
    simp only [notifyOne, asleep_map]
    split <;> rfl
  | some c =>
    simp only [notifyOne, Ledger.get_map]
    cases calls.get c with
    | none => rfl
    | some v =>
      cases v with
      | waiting timeout wait =>
        cases wait with
        | asleep => exact congrArg some (Ledger.map_put calls (Call.map f) c (.waiting timeout .notified)).symm
        | _ => rfl
      | _ => rfl

theorem giveBack_map (pick : Option CallId) (item : A) :
    (s.map f).giveBack cfg pick (f item) =
      (s.giveBack cfg pick item).map (Prod.map (Outcome.map f) (Sys.map f)) := by
  unfold Sys.giveBack
  rw [pool_map, returnClient_map, calls_map, notifyOne_map]
  obtain ⟨g, dropped⟩ := returnClient cfg s.pool item
  dsimp only [Prod.map]
  rw [Option.map_map, Option.map_map]
  rfl

theorem release_map (pick : Option CallId) (out : Outcome A) :
    (s.map f).release w pick (out.map f) =
      (s.release w pick out).map (Prod.map (Outcome.map f) (Sys.map f)) := by
  unfold Sys.release
  rw [pool_map, releasePermit_map, calls_map, notifyOne_map, Option.map_map, Option.map_map]
  rfl

theorem endRound_map (c : CallId) (timeout : Duration) (round : IdleRound A × PoolState A) :
    (s.map f).endRound c timeout (Prod.map (IdleRound.map f) (PoolState.map f) round) =
      Prod.map (Outcome.map f) (Sys.map f) (s.endRound c timeout round) := by
  obtain ⟨round, g⟩ := round
  cases round with
  | found item => exact congrArg (Prod.mk _) (setCall_map f (s.unlock g) c (.manual item)).symm
  | gaveUp => exact congrArg (Prod.mk _) (setCall_map f (s.unlock g) c .failed).symm
  | wait left => exact congrArg (Prod.mk _) (setCall_map f (s.unlock g) c (.waiting timeout .asleep)).symm

theorem step_checkout_map (c : CallId) (kind : Kind) (pick : Option CallId) :
    step cfg (s.map f) (.checkout c kind, pick) =
      (step cfg s (.checkout c kind, pick)).map (Prod.map (Outcome.map f) (Sys.map f)) := by
  simp only [step, calls_map, Ledger.get_map, pool_map, checkoutWith_map]
  cases s.calls.get c with
  | some v => rfl
  | none =>
    obtain ⟨answer, g⟩ := checkoutWith cfg s.pool
    cases answer with
    | hit item =>
      -- only a hit hands out an object; the other two answers have none
      show some (_, ((s.map f).unlock _).setCall c (handOut kind (f item))) = _
      rw [← handOut_map, ← unlock_map, ← setCall_map]
      rfl
    | reserved => exact congrArg (fun s => some (_, s)) (setCall_map f (s.unlock g) c (.inFlight kind)).symm
    | exhausted e => exact congrArg (fun s => some (_, s)) (setCall_map f (s.unlock g) c .failed).symm

theorem step_factory_map (c : CallId) (result : FactoryResult A) (pick : Option CallId) :
    step cfg (s.map f) (.factory c (result.map f), pick) =
      (step cfg s (.factory c result, pick)).map (Prod.map (Outcome.map f) (Sys.map f)) := by
  simp only [step, calls_map, Ledger.get_map]
  cases s.calls.get c with
  | none => rfl
  | some v =>
    cases v with
    | inFlight kind =>
      -- the guard of a factory that fails releases the permit with the call already over
      have hfailed := setCall_map f s c (.failed : Call A)
      cases result with
      | ok item =>
        show some (_, (s.map f).setCall c (handOut kind (f item))) = _
        rw [← handOut_map, ← setCall_map]
        rfl
      | err e =>
        show ((s.map f).setCall c .failed).release w pick (Outcome.map f (.rolledBack (some e))) = _
        rw [← release_map, hfailed]
        rfl
      | unwind =>
        show ((s.map f).setCall c .failed).release w pick (Outcome.map f (.rolledBack none)) = _
        rw [← release_map, hfailed]
        rfl
    | _ => rfl

/-- **The pool is parametric in its objects**: a step of the image is the image of a step, and none is
possible where none is. -/
theorem step_map (l : Label A) :
    step cfg (s.map f) (l.map f) = (step cfg s l).map (Prod.map (Outcome.map f) (Sys.map f)) := by
  obtain ⟨ev, pick⟩ := l
  have hclosed := fun c => setCall_map f s c (.closed : Call A)
  cases ev with
  | checkout c kind => exact step_checkout_map f s c kind pick
  | factory c result => exact step_factory_map f s c result pick
  | returnManual c =>
    simp only [Label.map, Event.map, step, calls_map, Ledger.get_map]
    cases s.calls.get c with
    | none => rfl
    | some v =>
      cases v with
      | manual item =>
        -- the borrow is over before the object is back
        show ((s.map f).setCall c .closed).giveBack cfg pick (f item) = _
        rw [← giveBack_map, hclosed]
        rfl
      | _ => rfl
  | returnForeign item => exact giveBack_map f s pick item
  | dropLease c =>
    simp only [Label.map, Event.map, step, calls_map, Ledger.get_map]
    cases s.calls.get c with
    | none => rfl
    | some v =>
      cases v with
      | lease item =>
        cases item with
        -- `into_inner` has been here: nothing is given back
        | none => exact congrArg (fun s => some (_, s)) (hclosed c).symm
        | some item =>
          show ((s.map f).setCall c .closed).giveBack cfg pick (f item) = _
          rw [← giveBack_map, hclosed]
          rfl
      | _ => rfl
  | intoInner c =>
    have hlease := setCall_map f s c (.lease none)
    simp only [Label.map, Event.map, step, calls_map, Ledger.get_map]
    cases s.calls.get c with
    | none => rfl
    | some v =>
      cases v with
      | lease item =>
        cases item with
        | none => exact congrArg (fun s => some (_, s)) hlease.symm
        | some item =>
          -- only the permit goes back, the object stays with the caller
          show ((s.map f).setCall c (.lease none)).release w pick (Outcome.map f (.detached (some item))) = _
          rw [← release_map, hlease]
          rfl
      | _ => rfl
  | idleEnter c timeout elapsed =>
    simp only [Label.map, Event.map, step, calls_map, Ledger.get_map]
    cases s.calls.get c with
    | some v => rfl
    | none =>
      show some ((s.map f).endRound c timeout (idleLoop w timeout elapsed (s.map f).pool)) = _
      rw [pool_map, idleLoop_map, endRound_map]
      rfl
  | wake c timedOut =>
    simp only [Label.map, Event.map, step, calls_map, Ledger.get_map]
    cases s.calls.get c with
    | none => rfl
    | some v =>
      cases v with
      | waiting timeout wait =>
        cases wait with
        | asleep =>
          have hwoke := setCall_map f s c (.waiting timeout (.awake timedOut))
          exact congrArg (fun s => some (_, s)) hwoke.symm
        | _ => rfl
      | _ => rfl
  | idleResume c elapsed =>
    simp only [Label.map, Event.map, step, calls_map, Ledger.get_map]
    cases s.calls.get c with
    | none => rfl
    | some v =>
      cases v with
      | waiting timeout wait =>
        -- the flag is cleared before the round, which looks at the state alone
        have hround : some ((s.map f).clearPoison.endRound c timeout
            (idleAfterWait w wait.timedOut timeout elapsed (s.map f).clearPoison.pool)) =
          some (Prod.map (Outcome.map f) (Sys.map f) (s.clearPoison.endRound c timeout
            (idleAfterWait w wait.timedOut timeout elapsed s.clearPoison.pool))) := by
          rw [← clearPoison_map, pool_map, idleAfterWait_map, endRound_map]
        cases wait with
        | asleep => rfl
        | notified => exact hround
        | awake timedOut => exact hround
      | _ => rfl
  | poison => rfl

end Steps

end Transportx.Pool
