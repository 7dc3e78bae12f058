import Transportx.Error
import Transportx.Lib.Usize

/-!
# Transportx.Pool.State — the critical sections of `HttpClientPool`

Everything that `pool.rs` does while it holds the mutex, as functions on `PoolState`.  `w` is the
pointer width: the counters are `usize`, so `+= 1` and `-= 1` wrap at `2 ^ w`.

* `idle` is the `Vec` of idle objects as a list with the end of the vector first, so `push` is `::`
  and `pop` takes the head.
* `Mutex` keeps the poison flag; `lockState` recovers the state of a poisoned mutex as it is.
* `checkoutWith`, `returnClient`, `releasePermit`: the bodies between `lock_state` and the unlock.
* `idleLoop`, `idleAfterWait`: one round of the loop of `checkout_idle_timeout`, up to the wait.
-/

namespace Transportx.Pool

variable {w : ℕ} {T : Type}

/-! ## Configuration -/

/-- The two limits of a pool, each a `usize`. -/
structure PoolConfig (w : ℕ) where
  maxPoolSize : ℕ
  maxIdle : ℕ
  maxPoolSize_lt : maxPoolSize < 2 ^ w
  maxIdle_lt : maxIdle < 2 ^ w

/-- `PoolConfig::validate`. -/
def PoolConfig.validate (c : PoolConfig w) : Except TransportError Unit :=
  if c.maxPoolSize = 0 then
    .error (.protocolViolation "HTTP 客户端池 max_pool_size 必须大于 0")
  else if c.maxIdle > c.maxPoolSize then
    .error (.protocolViolation s!"HTTP 客户端池 max_idle {c.maxIdle} 不得超过 max_pool_size {c.maxPoolSize}")
  else .ok ()

theorem PoolConfig.validate_ok {c : PoolConfig w} :
    c.validate = .ok () ↔ 0 < c.maxPoolSize ∧ c.maxIdle ≤ c.maxPoolSize := by
  unfold validate
  split
  · simp; omega
  · split <;> simp <;> omega

/-! ## State under the lock -/

/-- The state that the mutex guards: the idle objects, the last returned first, and the number of
permits that are out. -/
@[ext]
structure PoolState (T : Type) where
  idle : List T
  checkedOut : ℕ
deriving DecidableEq, Repr

/-- A `std::sync::Mutex`, between critical sections. -/
structure Mutex (α : Type) where
  data : α
  poisoned : Bool
deriving DecidableEq, Repr

/-- `Mutex::lock`; a `PoisonError` carries the guard. -/
def Mutex.lock {α : Type} (m : Mutex α) : Except α α :=
  if m.poisoned then .error m.data else .ok m.data

/-- `HttpClientPool::lock_state`. -/
def lockState (m : Mutex (PoolState T)) : PoolState T :=
  match m.lock with
  | .ok state => state
  | .error poisoned => poisoned

/-- Poison does not change what a critical section sees. -/
@[simp] theorem lockState_eq (m : Mutex (PoolState T)) : lockState m = m.data := by
  unfold lockState Mutex.lock
  cases m.poisoned <;> rfl

/-- `HttpClientPool::new_unchecked`: nothing idle, nothing out. -/
def newUnchecked : Mutex (PoolState T) := ⟨⟨[], 0⟩, false⟩

/-! ## Critical sections -/

/-- `g.idle.pop()` and, on a hit, `g.checked_out += 1`: what both checkout paths begin with. -/
def popIdle (w : ℕ) (g : PoolState T) : Option (T × PoolState T) :=
  match g.idle with
  | item :: rest => some (item, ⟨rest, Usize.wrappingAdd w g.checkedOut 1⟩)
  | [] => none

/-- How the critical section of `checkout_with` ends. -/
inductive Checkout (T : Type)
  | hit (item : T)
  | reserved
  | exhausted (e : TransportError)

/-- The critical section of `checkout_with`: an idle object, else a permit for the factory, else
`PoolExhausted`. -/
def checkoutWith (cfg : PoolConfig w) (g : PoolState T) : Checkout T × PoolState T :=
  match popIdle w g with
  | some (item, g) => (.hit item, g)
  | none =>
    if g.checkedOut < cfg.maxPoolSize then
      (.reserved, { g with checkedOut := Usize.wrappingAdd w g.checkedOut 1 })
    else (.exhausted (.poolExhausted cfg.maxPoolSize), g)

/-- `if checked_out > 0 { checked_out -= 1 }`. -/
def giveBackPermit (w : ℕ) (g : PoolState T) : PoolState T :=
  if g.checkedOut > 0 then { g with checkedOut := Usize.wrappingSub w g.checkedOut 1 } else g

/-- The critical section of `return_client`, with the object it drops when `idle` is full. -/
def returnClient (cfg : PoolConfig w) (g : PoolState T) (item : T) : PoolState T × Option T :=
  let g := giveBackPermit w g
  if g.idle.length < cfg.maxIdle then ({ g with idle := item :: g.idle }, none) else (g, some item)

/-- The critical section of `release_permit`. -/
def releasePermit (w : ℕ) (g : PoolState T) : PoolState T := giveBackPermit w g

/-- How one round of the loop of `checkout_idle_timeout` ends. -/
inductive IdleRound (T : Type)
  | found (item : T)
  | gaveUp
  | wait (left : Duration)

/-- The round from the top of the loop: pop, then the deadline. -/
def idleLoop (w : ℕ) (timeout elapsed : Duration) (g : PoolState T) : IdleRound T × PoolState T :=
  match popIdle w g with
  | some (item, g) => (.found item, g)
  | none =>
    let left := timeout - elapsed
    if left = 0 then (.gaveUp, g) else (.wait left, g)

/-- The round after `wait_timeout` returned: give up only when the wait timed out and nothing is
idle, else back to the top of the loop. -/
def idleAfterWait (w : ℕ) (timedOut : Bool) (timeout elapsed : Duration) (g : PoolState T) :
    IdleRound T × PoolState T :=
  if timedOut && g.idle.isEmpty then (.gaveUp, g) else idleLoop w timeout elapsed g

/-! ## What the critical sections do -/

@[simp] theorem giveBackPermit_idle (g : PoolState T) : (giveBackPermit w g).idle = g.idle := by
  unfold giveBackPermit
  split <;> rfl

theorem giveBackPermit_checkedOut {g : PoolState T} (h : g.checkedOut < 2 ^ w) :
    (giveBackPermit w g).checkedOut = g.checkedOut - 1 := by
  unfold giveBackPermit
  split
  · next hpos => exact Usize.wrappingSub_one hpos h
  · next hpos => omega

theorem popIdle_nil (n : ℕ) : popIdle w (⟨[], n⟩ : PoolState T) = none := rfl

section Idle

variable {g : PoolState T} {item : T} {rest : List T}

theorem popIdle_of_idle (h : g.idle = item :: rest) :
    popIdle w g = some (item, ⟨rest, Usize.wrappingAdd w g.checkedOut 1⟩) := by
  unfold popIdle
  rw [h]

theorem popIdle_of_empty (h : g.idle = []) : popIdle w g = none := by
  unfold popIdle
  rw [h]

theorem idleLoop_of_idle (h : g.idle = item :: rest) (timeout elapsed : Duration) :
    idleLoop w timeout elapsed g = (.found item, ⟨rest, Usize.wrappingAdd w g.checkedOut 1⟩) := by
  simp only [idleLoop, popIdle_of_idle h]

theorem idleLoop_of_empty (h : g.idle = []) (timeout elapsed : Duration) :
    idleLoop w timeout elapsed g =
      (if timeout - elapsed = 0 then .gaveUp else .wait (timeout - elapsed), g) := by
  simp only [idleLoop, popIdle_of_empty h]
  split <;> rfl

/-- An object is taken, whatever the wait reported. -/
theorem idleAfterWait_of_idle (h : g.idle = item :: rest) (timedOut : Bool) (timeout elapsed : Duration) :
    idleAfterWait w timedOut timeout elapsed g =
      (.found item, ⟨rest, Usize.wrappingAdd w g.checkedOut 1⟩) := by
  have hne : g.idle.isEmpty = false := by rw [h]; rfl
  simp only [idleAfterWait, hne, Bool.and_false, Bool.false_eq_true, if_false]
  exact idleLoop_of_idle h timeout elapsed

theorem idleAfterWait_of_empty (h : g.idle = []) (timedOut : Bool) (timeout elapsed : Duration) :
    idleAfterWait w timedOut timeout elapsed g =
      (if timedOut = true ∨ timeout - elapsed = 0 then .gaveUp else .wait (timeout - elapsed), g) := by
  have hempty : g.idle.isEmpty = true := by rw [h]; rfl
  have hloop := idleLoop_of_empty (w := w) h timeout elapsed
  cases timedOut <;> simp [idleAfterWait, hempty, hloop]

end Idle

end Transportx.Pool
