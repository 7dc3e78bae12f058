import Transportx.Lib.Ledger
import Transportx.Lib.Path
import Transportx.Pool.State

/-!
# Transportx.Pool.System — calls on a pool, interleaved

A pool in use: the mutex and the calls that have been made on it.  Each call has an identity and a
`Call` state, which says where it stands outside the lock: its factory is running, its object is
out, its lease is alive, it sleeps on the condition variable.  An `Event` is one critical section
(or one step outside the lock) of one call; any event may follow any other, from any number of
threads, and also from inside a running factory.

`step` is the transition function.  What the environment chooses is in the label: the result of a
factory, the reading of the clock, why a sleeper woke up, and which sleeper `notify_one` wakes.
What the code decides is in the `Outcome`.
-/

namespace Transportx.Pool

variable {w : ℕ} {T : Type}

/-! ## Calls -/

abbrev CallId := ℕ

/-- The two checkout entry points with a factory: `checkout_with`, which hands out the object, and
`checkout_lease_with`, which wraps it in a lease. -/
inductive Kind
  | manual
  | lease
deriving DecidableEq, Repr

/-- A waiter of the condition variable: in its wait set, moved out by `notify_one`, or out by a
timeout or a spurious wakeup.  Only in the first state is it asleep; the others wait for the lock. -/
inductive Wait
  | asleep
  | notified
  | awake (timedOut : Bool)
deriving DecidableEq, Repr

def Wait.timedOut : Wait → Bool
  | .awake timedOut => timedOut
  | _ => false

/-- Where a call stands between critical sections: its permit is reserved and the factory runs, with
the rollback guard armed; its object is out through `checkout_with` or `checkout_idle_timeout`; it is
an `HttpClientLease` with its `item` field; it is inside `wait_timeout`; its borrow has ended; or it
returned an error or `None`, or unwound. -/
inductive Call (T : Type)
  | inFlight (kind : Kind)
  | manual (item : T)
  | lease (item : Option T)
  | waiting (timeout : Duration) (wait : Wait)
  | closed
  | failed
deriving DecidableEq, Repr

inductive FactoryResult (T : Type)
  | ok (item : T)
  | err (e : TransportError)
  | unwind
deriving DecidableEq, Repr

/-- One step of one call, with what the environment chooses in it.

* `checkout`: the critical section of `checkout_with` or `checkout_lease_with`.
* `factory`: the factory ends; on a failure the rollback guard releases the permit.
* `returnManual`, `returnForeign`: `return_client` by hand, with the object that `c` borrowed, or any.
* `dropLease`, `intoInner`: `Drop` of a lease; `into_inner`, up to the drop of the emptied lease.
* `idleEnter`: `checkout_idle_timeout` up to its first wait or its return.
* `wake`: a sleeper leaves the wait set by a timeout or spuriously.
* `idleResume`: a woken waiter takes the lock again, up to its next wait or its return.
* `poison`: a thread panics while it holds the lock and leaves the state as it is. -/
inductive Event (T : Type)
  | checkout (c : CallId) (kind : Kind)
  | factory (c : CallId) (result : FactoryResult T)
  | returnManual (c : CallId)
  | returnForeign (item : T)
  | dropLease (c : CallId)
  | intoInner (c : CallId)
  | idleEnter (c : CallId) (timeout elapsed : Duration)
  | wake (c : CallId) (timedOut : Bool)
  | idleResume (c : CallId) (elapsed : Duration)
  | poison
deriving DecidableEq, Repr

/-- An event, and the sleeper that `notify_one` wakes in it, if it notifies and there is one. -/
abbrev Label (T : Type) := Event T × Option CallId

/-- The branch that the code takes, with what it hands out, returns or drops. -/
inductive Outcome (T : Type)
  | hit (item : T)
  | reserved
  | exhausted (e : TransportError)
  | created (item : T)
  | rolledBack (e : Option TransportError)
  | returned (dropped : Option T)
  | emptyLease
  | detached (item : Option T)
  | slept
  | idleNone
  | woke
  | poisoned
deriving DecidableEq, Repr

def Event.call : Event T → Option CallId
  | .checkout c _ | .factory c _ | .returnManual c | .dropLease c | .intoInner c | .idleEnter c _ _
  | .wake c _ | .idleResume c _ => some c
  | .returnForeign _ | .poison => none

/-! ## Weights: what a call counts for

A call is counted as a lease that still holds its item, a manual borrow not yet returned, a checkout
whose factory has neither succeeded nor been rolled back, a waiter in the wait set of the condition
variable, or a notified waiter that has not taken the lock again. -/

namespace Call

def leases : Call T → ℕ
  | .lease (some _) => 1
  | _ => 0

def manuals : Call T → ℕ
  | .manual _ => 1
  | _ => 0

def inFlights : Call T → ℕ
  | .inFlight _ => 1
  | _ => 0

/-- A checkout that is open or in progress. -/
def opens (v : Call T) : ℕ := v.leases + v.manuals + v.inFlights

/-- The object that is out with this call. -/
def items : Call T → Multiset T
  | .manual item | .lease (some item) => {item}
  | _ => 0

def asleep : Call T → ℕ
  | .waiting _ .asleep => 1
  | _ => 0

def notified : Call T → ℕ
  | .waiting _ .notified => 1
  | _ => 0

end Call

/-! ## The system -/

/-- A pool and the calls made on it so far. -/
structure Sys (T : Type) where
  mutex : Mutex (PoolState T)
  calls : Ledger CallId (Call T)

namespace Sys

/-- A new pool, on which no call has been made. -/
def init : Sys T := ⟨newUnchecked, .empty .closed⟩

/-- The state under the lock. -/
def pool (s : Sys T) : PoolState T := lockState s.mutex

/-- `HttpClientPool::checked_out`. -/
def checkedOut (s : Sys T) : ℕ := s.pool.checkedOut

/-- The idle stack, the last returned object first. -/
def idle (s : Sys T) : List T := s.pool.idle

def leases (s : Sys T) : ℕ := s.calls.total Call.leases

def manuals (s : Sys T) : ℕ := s.calls.total Call.manuals

def inFlights (s : Sys T) : ℕ := s.calls.total Call.inFlights

def asleep (s : Sys T) : ℕ := s.calls.total Call.asleep

def notified (s : Sys T) : ℕ := s.calls.total Call.notified

/-- The objects that are out with leases and manual borrowers. -/
def out (s : Sys T) : Multiset T := s.calls.total Call.items

def unlock (s : Sys T) (g : PoolState T) : Sys T := { s with mutex := { s.mutex with data := g } }

def poison (s : Sys T) : Sys T := { s with mutex := { s.mutex with poisoned := true } }

/-- `clear_poison`, which a waiter calls when `wait_timeout` hands it a poisoned lock. -/
def clearPoison (s : Sys T) : Sys T := { s with mutex := { s.mutex with poisoned := false } }

def setCall (s : Sys T) (c : CallId) (v : Call T) : Sys T := { s with calls := s.calls.put c v }

end Sys

/-- `HttpClientPool::try_new`. -/
def tryNew (cfg : PoolConfig w) : Except TransportError (Sys T) :=
  cfg.validate.map fun _ => Sys.init

/-- A pool exists exactly for a valid configuration, and starts empty. -/
theorem tryNew_ok {cfg : PoolConfig w} {s : Sys T} :
    tryNew cfg = .ok s ↔ cfg.validate = .ok () ∧ s = Sys.init := by
  unfold tryNew
  cases cfg.validate with
  | error e => exact ⟨fun h => (by cases h), fun h => (by cases h.1)⟩
  | ok u => exact ⟨fun h => ⟨rfl, (Except.ok.inj h).symm⟩, fun h => by rw [h.2]; rfl⟩

/-! ## Transitions -/

/-- `Condvar::notify_one`: one sleeper, of the scheduler's choice, is moved out of the wait set; the
choice is `none` only when there is no sleeper. -/
def notifyOne (pick : Option CallId) (calls : Ledger CallId (Call T)) :
    Option (Ledger CallId (Call T)) :=
  match pick with
  | some c =>
    match calls.get c with
    | some (.waiting timeout .asleep) => some (calls.put c (.waiting timeout .notified))
    | _ => none
  | none => if calls.total Call.asleep = 0 then some calls else none

/-- The object of a checkout of this kind goes to the caller: `checkout_lease_with` wraps it. -/
def handOut : Kind → T → Call T
  | .manual, item => .manual item
  | .lease, item => .lease (some item)

/-- `return_client(item)`, the last critical section of a borrow or a call of its own. -/
def Sys.giveBack (cfg : PoolConfig w) (pick : Option CallId) (s : Sys T) (item : T) :
    Option (Outcome T × Sys T) :=
  let (g, dropped) := returnClient cfg s.pool item
  (notifyOne pick s.calls).map fun calls => (.returned dropped, { s.unlock g with calls })

/-- `release_permit`, with the outcome of the call that runs it. -/
def Sys.release (w : ℕ) (pick : Option CallId) (s : Sys T) (out : Outcome T) :
    Option (Outcome T × Sys T) :=
  (notifyOne pick s.calls).map fun calls => (out, { s.unlock (releasePermit w s.pool) with calls })

/-- The end of a round of `checkout_idle_timeout` by `c`. -/
def Sys.endRound (s : Sys T) (c : CallId) (timeout : Duration) :
    IdleRound T × PoolState T → Outcome T × Sys T
  | (.found item, g) => (.hit item, (s.unlock g).setCall c (.manual item))
  | (.gaveUp, g) => (.idleNone, (s.unlock g).setCall c .failed)
  | (.wait _, g) => (.slept, (s.unlock g).setCall c (.waiting timeout .asleep))

/-- **The transition function**: the outcome and the next state of an event, `none` where the event
is not possible. -/
def step (cfg : PoolConfig w) (s : Sys T) : Label T → Option (Outcome T × Sys T)
  | (.checkout c kind, _) =>
    match s.calls.get c with
    | some _ => none
    | none =>
      match checkoutWith cfg s.pool with
      | (.hit item, g) => some (.hit item, (s.unlock g).setCall c (handOut kind item))
      | (.reserved, g) => some (.reserved, (s.unlock g).setCall c (.inFlight kind))
      | (.exhausted e, g) => some (.exhausted e, (s.unlock g).setCall c .failed)
  | (.factory c result, pick) =>
    match s.calls.get c with
    | some (.inFlight kind) =>
      match result with
      -- `rollback.disarm()`: the guard is dropped without effect
      | .ok item => some (.created item, s.setCall c (handOut kind item))
      | .err e => (s.setCall c .failed).release w pick (.rolledBack (some e))
      | .unwind => (s.setCall c .failed).release w pick (.rolledBack none)
    | _ => none
  | (.returnManual c, pick) =>
    match s.calls.get c with
    | some (.manual item) => (s.setCall c .closed).giveBack cfg pick item
    | _ => none
  | (.returnForeign item, pick) => s.giveBack cfg pick item
  | (.dropLease c, pick) =>
    match s.calls.get c with
    | some (.lease (some item)) => (s.setCall c .closed).giveBack cfg pick item
    | some (.lease none) => some (.emptyLease, s.setCall c .closed)
    | _ => none
  | (.intoInner c, pick) =>
    match s.calls.get c with
    | some (.lease (some item)) => (s.setCall c (.lease none)).release w pick (.detached (some item))
    | some (.lease none) => some (.detached none, s.setCall c (.lease none))
    | _ => none
  | (.idleEnter c timeout elapsed, _) =>
    match s.calls.get c with
    | some _ => none
    | none => some (s.endRound c timeout (idleLoop w timeout elapsed s.pool))
  | (.wake c timedOut, _) =>
    match s.calls.get c with
    | some (.waiting timeout .asleep) => some (.woke, s.setCall c (.waiting timeout (.awake timedOut)))
    | _ => none
  | (.idleResume c elapsed, _) =>
    match s.calls.get c with
    | some (.waiting _ .asleep) => none
    | some (.waiting timeout wait) =>
      let s := s.clearPoison
      some (s.endRound c timeout (idleAfterWait w wait.timedOut timeout elapsed s.pool))
    | _ => none
  | (.poison, _) => some (.poisoned, s.poison)

abbrev Step (T : Type) := Lts.Transition (Sys T) (Label T) (Outcome T)

/-- **A run** of a pool from its construction. -/
abbrev Run (cfg : PoolConfig w) (r : List (Step T)) (s : Sys T) : Prop :=
  Lts.Path (step cfg) Sys.init r s

/-- A step that is not `return_client` by hand with an object that no manual borrower holds. -/
def Lawful (t : Step T) : Prop := ∀ item, t.ev.1 ≠ .returnForeign item

/-- **The return discipline**: `return_client` is called by hand only with an object that is borrowed
through a manual checkout, and only once for a borrow (`returnManual` ends the borrow). -/
def Disciplined (r : List (Step T)) : Prop := ∀ t ∈ r, Lawful t

/-! ## A run to look at -/

def sampleConfig : PoolConfig 64 := ⟨2, 2, by decide, by decide⟩

/-- Two permits are reserved and a third checkout fails; a factory fails and its rollback wakes a
waiter in vain; the other object is returned, and wakes that waiter again, while a second one sleeps. -/
def sampleLabels : List (Label ℕ) :=
  [(.checkout 0 .lease, none), (.checkout 1 .manual, none), (.checkout 2 .lease, none),
    (.factory 0 (.ok 10), none), (.idleEnter 3 5 0, none), (.factory 1 .unwind, some 3),
    (.idleResume 3 1, none), (.idleEnter 4 5 2, none), (.dropLease 0, some 3)]

theorem sampleConfig_valid : sampleConfig.validate = .ok () :=
  PoolConfig.validate_ok.mpr (by decide)

theorem sample_enabled : (Lts.replay (step sampleConfig) Sys.init sampleLabels).isSome = true := by
  decide +kernel

def sample : List (Step ℕ) × Sys ℕ :=
  (Lts.replay (step sampleConfig) Sys.init sampleLabels).get sample_enabled

theorem sample_run : Run sampleConfig sample.1 sample.2 ∧ Disciplined sample.1 := by
  have hreplay : Lts.replay (step sampleConfig) Sys.init sampleLabels = some (sample.1, sample.2) :=
    (Option.some_get sample_enabled).symm
  obtain ⟨hrun, hev⟩ := Lts.replay_path hreplay
  refine ⟨hrun, fun t ht item hforeign => ?_⟩
  have hmem : t.ev ∈ sampleLabels := hev ▸ List.mem_map_of_mem ht
  simp only [sampleLabels, List.mem_cons, List.not_mem_nil, or_false] at hmem
  rcases hmem with h | h | h | h | h | h | h | h | h <;> rw [h] at hforeign <;> cases hforeign

end Transportx.Pool
