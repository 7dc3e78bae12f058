import Transportx.Pool.Moves

/-!
# Transportx.Pool.Capacity — the bounds of a pool hold in every run

`checked_out ≤ max_pool_size` alone is not kept: both idle hits raise `checked_out` without
comparing it to the limit.  The invariant is `Cap`: `idle` is within `max_idle`, and `idle` and
`checked_out` together are within `max_pool_size`.  A return that finds `checked_out = 0` adds to
`idle` without a permit to give back; there `max_idle ≤ max_pool_size` is needed.

No discipline is assumed here: `returnForeign` may return any object at any time.
-/

namespace Transportx.Pool

variable {w : ℕ} {T : Type} {cfg : PoolConfig w} {s s' : Sys T} {l : Label T} {o : Outcome T}
  {ev : Event T} {c : CallId} {old : Option (Call T)} {new : Call T} {m : Move T}
  {g g' : PoolState T}

structure Cap (cfg : PoolConfig w) (g : PoolState T) : Prop where
  idle_le : g.idle.length ≤ cfg.maxIdle
  sum_le : g.idle.length + g.checkedOut ≤ cfg.maxPoolSize

theorem Cap.lt_word {g : PoolState T} (h : Cap cfg g) : g.checkedOut < 2 ^ w := by
  have h1 := h.sum_le
  have h2 := cfg.maxPoolSize_lt
  omega

theorem Cap.init (cfg : PoolConfig w) : Cap cfg (Sys.init : Sys T).pool := by
  constructor <;> simp [Sys.init, Sys.pool, newUnchecked]

/-- Within capacity the counter does not wrap: a move changes it by the permits it takes or gives. -/
theorem PoolMove.checkedOut_eq (h : PoolMove cfg m g g')
    (hc : Cap cfg g) : g'.checkedOut = g.checkedOut + m.taken - m.given := by
  have hsum := hc.sum_le
  have hmax := cfg.maxPoolSize_lt
  cases h with
  | take item rest n =>
    simp only [List.length_cons] at hsum
    exact Usize.wrappingAdd_one (b := cfg.maxPoolSize) (by omega) hmax
  | reserve hn => exact Usize.wrappingAdd_one hn hmax
  | refuse | miss | skip => simp [Move.taken, Move.given]
  | give item g =>
    have : (returnClient cfg g item).1.checkedOut = (giveBackPermit w g).checkedOut := by
      unfold returnClient
      dsimp only
      split <;> rfl
    rw [this, giveBackPermit_checkedOut hc.lt_word]
    rfl
  | release g =>
    rw [releasePermit, giveBackPermit_checkedOut hc.lt_word]
    rfl

theorem returnClient_length (cfg : PoolConfig w) (g : PoolState T) (item : T) :
    (returnClient cfg g item).1.idle.length =
      if g.idle.length < cfg.maxIdle then g.idle.length + 1 else g.idle.length := by
  unfold returnClient
  simp only [giveBackPermit_idle]
  split <;> simp

/-- **Every move keeps the capacity invariant.** -/
theorem PoolMove.cap (hv : cfg.maxIdle ≤ cfg.maxPoolSize) (h : PoolMove cfg m g g') (hc : Cap cfg g) : Cap cfg g' := by
  have hco := h.checkedOut_eq hc
  have hidle := hc.idle_le
  have hsum := hc.sum_le
  cases h with
  | take item rest n =>
    simp only [List.length_cons] at hidle hsum
    simp only [Move.taken, Move.given] at hco
    exact ⟨by dsimp only; omega, by dsimp only at hco ⊢; omega⟩
  | reserve hn =>
    simp only [Move.taken, Move.given] at hco
    exact ⟨hidle, by dsimp only [List.length_nil] at hco hsum ⊢; omega⟩
  | refuse | miss | skip => exact hc
  | give item g =>
    -- with no permit out, `idle` grows on its own, up to `max_idle`
    have hlen := returnClient_length cfg g item
    simp only [Move.taken, Move.given] at hco
    split at hlen
    · exact ⟨by omega, by omega⟩
    · exact ⟨by omega, by omega⟩
  | release g =>
    have hlen : (releasePermit w g).idle = g.idle := giveBackPermit_idle g
    simp only [Move.taken, Move.given] at hco
    exact ⟨by rw [hlen]; exact hidle, by rw [hlen]; omega⟩

/-- Within capacity a permit is taken only while one is free. -/
theorem PoolMove.lt_of_taken (h : PoolMove cfg m g g') (hcap : Cap cfg g) (hm : m.taken = 1) :
    g.checkedOut < cfg.maxPoolSize := by
  have hsum := hcap.sum_le
  cases h with
  | take item rest n =>
    rw [List.length_cons] at hsum
    exact Nat.lt_of_lt_of_le (by dsimp only; omega) hsum
  | reserve hn => exact hn
  | _ => cases hm

/-! ## Steps and runs -/

/-- The permits that the branch of this outcome takes. -/
def Outcome.taken : Outcome T → ℕ
  | .hit _ | .reserved => 1
  | _ => 0

/-- The permits that the branch of this outcome gives back, by `return_client` or `release_permit`. -/
def Outcome.given : Outcome T → ℕ
  | .returned _ | .rolledBack _ | .detached (some _) => 1
  | _ => 0

theorem CallMove.permits (h : CallMove cfg ev o c old new m) : m.taken = o.taken ∧ m.given = o.given := by
  cases h <;> exact ⟨rfl, rfl⟩

theorem step_poolMove (h : step cfg s l = some (o, s')) :
    ∃ m, PoolMove cfg m s.pool s'.pool ∧ m.taken = o.taken ∧ m.given = o.given := by
  cases step_cases h with
  | call hc _ hpool _ => exact ⟨_, hpool, hc.permits⟩
  | foreign hpool _ => exact ⟨_, hpool, rfl, rfl⟩
  | poison hpool _ => exact ⟨.skip, hpool ▸ .skip _, rfl, rfl⟩

theorem Outcome.taken_given (o : Outcome T) : o.taken + o.given ≤ 1 := by
  cases o with
  | detached item => cases item <;> simp [taken, given]
  | _ => simp [taken, given]

/-- Within capacity a step changes the counter by the permits of its branch. -/
theorem step_checkedOut (h : step cfg s l = some (o, s'))
    (hcap : Cap cfg s.pool) : s'.checkedOut = s.checkedOut + o.taken - o.given := by
  obtain ⟨m, hm, htaken, hgiven⟩ := step_poolMove h
  rw [← htaken, ← hgiven]
  exact hm.checkedOut_eq hcap

theorem run_cap (hv : cfg.maxIdle ≤ cfg.maxPoolSize) {r : List (Step T)} {s : Sys T} (hr : Run cfg r s) :
    Cap cfg s.pool ∧ ∀ t ∈ r, Cap cfg t.pre.pool ∧ Cap cfg t.post.pool := by
  refine hr.invariant (P := fun s => Cap cfg s.pool) (K := fun _ => True) ?_ (fun _ _ => trivial)
    (Cap.init cfg)
  intro t ht _ hc
  obtain ⟨m, hm, -⟩ := step_poolMove ht
  exact hm.cap hv hc

/-- **Capacity**: in every run of a pool with a valid configuration, whatever is returned and however
often, `idle` stays within `max_idle` and `idle` and `checked_out` together within `max_pool_size`.
No `+= 1` passes the limit or the largest `usize`, and no `-= 1` goes below zero. -/
theorem capacity (cfg : PoolConfig w) (hv : cfg.validate = .ok ()) {r : List (Step T)} {s : Sys T}
    (hr : Run cfg r s) :
    s.idle.length ≤ cfg.maxIdle ∧ s.idle.length + s.checkedOut ≤ cfg.maxPoolSize ∧
    ∀ t ∈ r,
      (t.out.taken = 1 → t.post.checkedOut = t.pre.checkedOut + 1 ∧
        t.pre.checkedOut + 1 ≤ cfg.maxPoolSize ∧ t.pre.checkedOut + 1 < 2 ^ w) ∧
      (t.out.given = 1 → 0 < t.pre.checkedOut → t.post.checkedOut + 1 = t.pre.checkedOut) ∧
      (t.out.given = 1 → t.pre.checkedOut = 0 → t.post.checkedOut = 0) := by
  obtain ⟨hend, hmem⟩ := run_cap (PoolConfig.validate_ok.mp hv).2 hr
  refine ⟨hend.idle_le, hend.sum_le, fun t ht => ?_⟩
  obtain ⟨hpre, hpost⟩ := hmem t ht
  have hco := step_checkedOut (hr.isStep t ht) hpre
  have hone := t.out.taken_given
  refine ⟨fun h => ?_, fun h hpos => by omega, fun h h0 => by omega⟩
  have hmax := cfg.maxPoolSize_lt
  have hsum : t.post.idle.length + t.post.checkedOut ≤ cfg.maxPoolSize := hpost.sum_le
  omega

theorem capacity_sample : sample.2.idle.length ≤ 2 ∧ sample.2.idle.length + sample.2.checkedOut ≤ 2 :=
  have h := capacity sampleConfig sampleConfig_valid sample_run.1
  ⟨h.1, h.2.1⟩

end Transportx.Pool
