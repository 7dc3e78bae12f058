import Transportx.Pool.Moves

/-!
# Transportx.Pool.Wakeup — no wakeup is lost

Waiters of `checkout_idle_timeout` sleep on the condition variable; `return_client` and
`release_permit` call `notify_one`, also when no object was added.  A notified waiter may find that
another checkout was faster, or that its deadline has passed, and a timeout may take a waiter that an
object was meant for.  The counting invariant `Covered` holds through all of that: while somebody
sleeps, every idle object has a notified waiter on its way.

It rests on two facts of the loop: a waiter that takes the lock pops before it looks at the deadline,
and it goes to sleep or gives up only when nothing is idle.
-/

namespace Transportx.Pool

variable {w : ℕ} {T : Type} {cfg : PoolConfig w} {s s' : Sys T} {l : Label T} {o : Outcome T}
  {ev : Event T} {c : CallId} {old : Option (Call T)} {new : Call T} {m : Move T}
  {g g' : PoolState T}

/-- While a waiter sleeps, each idle object has a notified waiter on its way. -/
def Covered (s : Sys T) : Prop := 0 < s.asleep → s.idle.length ≤ s.notified

/-- A call leaves a waiter behind only when nothing is idle, and uses up a notification only together
with an object, or when nothing is idle. -/
theorem CallMove.waits (h : CallMove cfg ev o c old new m) :
    m.onEmpty = true ∨
      (new.asleep = 0 ∧ new.notified = 0 ∧ old.elim 0 Call.notified ≤ m.popped) := by
  cases h with
  | hit _ kind item | created _ kind item =>
    cases kind <;> exact Or.inr ⟨rfl, rfl, Nat.zero_le _⟩
  | reserved | exhausted | entrySlept | entryNone | resumeSlept | resumeNone => exact Or.inl rfl
  | resumeHit _ timeout elapsed item hw =>
    refine Or.inr ⟨rfl, rfl, ?_⟩
    simp only [Option.elim_some, Call.notified, Move.popped]
    split <;> omega
  | _ => exact Or.inr ⟨rfl, rfl, Nat.zero_le _⟩

/-- `notify_one` moves a sleeper to the notified waiters if there is one. -/
theorem notifyOne_counts {pick : Option CallId} {calls calls' : Ledger CallId (Call T)}
    (h : notifyOne pick calls = some calls') :
    calls'.total Call.asleep = 0 ∨
      (0 < calls.total Call.asleep ∧ calls'.total Call.notified = calls.total Call.notified + 1) := by
  rcases notifyOne_some h with ⟨h0, rfl⟩ | ⟨c, timeout, hget, rfl⟩
  · exact Or.inl h0
  · have hsleep := Ledger.le_total Call.asleep hget
    have hnot := Ledger.total_put (g := Call.notified) (.waiting timeout .notified) hget
    simp only [Call.asleep, Call.notified] at hsleep hnot
    exact Or.inr ⟨by omega, by omega⟩

/-- After a move, with the other calls notified, the invariant holds if it could be blamed on neither
the call nor the pool. -/
theorem covered_of_move {s s' : Sys T} {m : Move T} {pick : Option CallId}
    {calls : Ledger CallId (Call T)} (hs : Covered s) (hpool : PoolMove cfg m s.pool s'.pool)
    (hwakes : Wakes m pick calls s'.calls) (hsleep : calls.total Call.asleep ≤ s.asleep)
    (hnot : s.notified ≤ calls.total Call.notified + m.popped) : Covered s' := by
  intro hpos
  have hlen : s'.idle.length + m.popped ≤ s.idle.length + m.given := hpool.length_le
  unfold Sys.asleep Sys.notified at *
  cases hm : m.notifies with
  | false =>
    have hgiven : m.given = 0 := by cases m <;> first | rfl | cases hm
    rw [hwakes.calls_eq hm] at hpos ⊢
    have := hs (by unfold Sys.asleep; omega)
    unfold Sys.notified at this
    omega
  | true =>
    have hgiven : m.given = 1 ∧ m.popped = 0 := by cases m <;> first | exact ⟨rfl, rfl⟩ | cases hm
    rcases notifyOne_counts (by simpa [Wakes, hm] using hwakes) with h0 | ⟨hp, hn⟩
    · omega
    · have := hs (by unfold Sys.asleep; omega)
      unfold Sys.notified at this
      omega

/-- **Every step keeps the invariant.** -/
theorem covered_step (h : step cfg s l = some (o, s'))
    (hs : Covered s) : Covered s' := by
  cases step_cases h with
  | @call ev o c old new m pick s' hc hget hpool hwakes =>
    rcases hc.waits with hempty | ⟨hsleep, hnot, hpop⟩
    · intro _
      have hidle : s'.idle = [] := hpool.idle_of_onEmpty hempty
      simp [hidle]
    · have ha := Ledger.total_put_get s.calls Call.asleep c new
      have hn := Ledger.total_put_get s.calls Call.notified c new
      rw [hget] at ha hn
      exact covered_of_move hs hpool hwakes (by unfold Sys.asleep; omega) (by unfold Sys.notified; omega)
  | foreign hpool hwakes => exact covered_of_move hs hpool hwakes le_rfl (Nat.le_add_right _ _)
  | poison hpool hcalls =>
    unfold Covered Sys.idle Sys.asleep Sys.notified at *
    rwa [hpool, hcalls]

/-- **No lost wakeup.**  In every run of a pool, in whatever order waiters, returns, releases and
checkouts come, if at least one waiter is asleep then `idle` has at most as many objects as there are
notified waiters that have not taken the lock again.  So no state is reached in which an object is
idle, a waiter sleeps, and no notified waiter is on its way. -/
theorem no_lost_wakeup (cfg : PoolConfig w) {r : List (Step T)} {s : Sys T} (hr : Run cfg r s) :
    (0 < s.asleep → s.idle.length ≤ s.notified) ∧
    ¬ (s.idle ≠ [] ∧ 0 < s.asleep ∧ s.notified = 0) := by
  have hcov : Covered s := hr.keeps (fun t ht => covered_step ht) (by
    simp [Covered, Sys.init, Sys.asleep])
  refine ⟨hcov, ?_⟩
  rintro ⟨hne, hpos, h0⟩
  have hlen := hcov hpos
  have := List.length_pos_iff.mpr hne
  omega

theorem no_lost_wakeup_sample : 0 < sample.2.asleep ∧ sample.2.idle.length ≤ sample.2.notified :=
  have hpos : 0 < sample.2.asleep := by decide
  ⟨hpos, (no_lost_wakeup sampleConfig sample_run.1).1 hpos⟩

end Transportx.Pool
