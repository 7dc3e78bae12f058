import Mathlib.Algebra.Ring.Nat
import Transportx.Pool.Misuse

/-!
# Transportx.Pool.Snapshot — what `Debug` of a pool shows

`fmt` calls `idle_len()` and then `checked_out()`.  Each takes the lock for itself, and other calls may run
in between, so the two numbers need not be those of one state.  `debug_is_torn` says which pairs can be
shown: each number stays within its own limit, and nothing more is true.
-/

namespace Transportx.Pool

open Lts

variable {w : ℕ} {T : Type} {cfg : PoolConfig w} {s s' : Sys T}

/-- `HttpClientPool::idle_len`. -/
def Sys.idleLen (s : Sys T) : ℕ := s.pool.idle.length

/-- The fields that `fmt` shows. -/
structure PoolDebug (w : ℕ) where
  config : PoolConfig w
  idle : ℕ
  checkedOut : ℕ

/-- `fmt` of a pool, from the states at its two locks. -/
def poolDebug (cfg : PoolConfig w) (first second : Sys T) : PoolDebug w :=
  ⟨cfg, first.idleLen, second.checkedOut⟩

/-- The permits that are taken in a run. -/
def takenIn (r : List (Step T)) : ℕ := (r.map fun t => t.out.taken).sum

/-! ## What cannot be shown -/

theorem checkedOut_le_takenIn (hv : cfg.maxIdle ≤ cfg.maxPoolSize) {r : List (Step T)}
    (hr : Path (step cfg) s r s') (hcap : Cap cfg s.pool) : s'.checkedOut ≤ s.checkedOut + takenIn r := by
  induction hr with
  | nil s => exact Nat.le_add_right _ _
  | @cons t r s' ht _ ih =>
    obtain ⟨m, hm, -⟩ := step_poolMove ht
    have hrest := ih (hm.cap hv hcap)
    have hco := step_checkedOut ht hcap
    unfold takenIn at hrest ⊢
    rw [List.map_cons, List.sum_cons]
    omega

/-! ## What can be shown -/

theorem Disciplined.nil : Disciplined ([] : List (Step T)) := fun _ ht => absurd ht List.not_mem_nil

theorem Disciplined.append {r r' : List (Step T)} (h : Disciplined r) (h' : Disciplined r') :
    Disciplined (r ++ r') := by
  intro t ht
  rcases List.mem_append.mp ht with ht | ht
  · exact h t ht
  · exact h' t ht

/-- A step of a call keeps the discipline. -/
theorem Disciplined.single {t : Step T} {c : CallId} (h : t.ev.1.call = some c) : Disciplined [t] := by
  intro u hu item hev
  rw [List.mem_singleton.mp hu] at hev
  rw [hev] at h
  cases h

/-- With nothing idle and a permit free, an object can be created and borrowed. -/
theorem exists_borrow (item : T) (hidle : s.idle = []) (hcap : Cap cfg s.pool)
    (hv : cfg.maxIdle ≤ cfg.maxPoolSize) (hlt : s.checkedOut < cfg.maxPoolSize) :
    ∃ r s', Path (step cfg) s r s' ∧ Disciplined r ∧ s'.idle = [] ∧ s'.manuals = s.manuals + 1 ∧
      s'.checkedOut = s.checkedOut + 1 := by
  obtain ⟨c, hget⟩ := exists_fresh s
  have hpool : s.pool = ⟨[], s.checkedOut⟩ := PoolState.ext hidle rfl
  have hreserve : PoolMove cfg .reserve s.pool ⟨[], Usize.wrappingAdd w s.checkedOut 1⟩ := hpool ▸ .reserve hlt
  obtain ⟨s₁, hs₁, hp₁, hc₁⟩ := step_of_quiet (.reserved c .manual) hget hreserve rfl none
  have hget₁ : s₁.calls.get c = some (.inFlight .manual) := by
    rw [hc₁]
    exact Ledger.get_put_self _ _ _
  have hcap₁ : Cap cfg s₁.pool := hp₁ ▸ hreserve.cap hv hcap
  obtain ⟨s₂, hs₂, hp₂, hc₂⟩ := step_of_quiet (.created c .manual item) hget₁ (.skip s₁.pool) rfl none
  have hco₁ := step_checkedOut hs₁ hcap
  have hco₂ := step_checkedOut hs₂ hcap₁
  have hm₁ : s₁.manuals = s.manuals + 0 := by
    unfold Sys.manuals
    rw [hc₁]
    exact Ledger.total_put_new _ hget
  have hm₂ : s₂.manuals + 0 = s₁.manuals + 1 := by
    unfold Sys.manuals
    rw [hc₂]
    exact Ledger.total_put _ hget₁
  simp only [Outcome.taken, Outcome.given] at hco₁ hco₂
  refine ⟨_, s₂, (Path.of_step hs₁).append (Path.of_step hs₂),
    (Disciplined.single rfl).append (Disciplined.single rfl), ?_, by omega, by omega⟩
  show s₂.pool.idle = []
  rw [hp₂, hp₁]

/-- With room in `idle`, what was borrowed by hand can be returned. -/
theorem exists_return (hpos : 0 < s.manuals) (hroom : s.idleLen < cfg.maxIdle) (hcap : Cap cfg s.pool) :
    ∃ r s', Path (step cfg) s r s' ∧ Disciplined r ∧ s'.idleLen = s.idleLen + 1 ∧ s'.manuals + 1 = s.manuals ∧
      s'.checkedOut = s.checkedOut - 1 := by
  obtain ⟨c, v, hget, hv⟩ := Ledger.exists_of_total_pos hpos
  -- only a borrow by hand weighs anything here
  obtain ⟨item, rfl⟩ : ∃ item, v = .manual item := by
    unfold Call.manuals at hv
    split at hv
    · exact ⟨_, rfl⟩
    · omega
  obtain ⟨pick, calls, hn⟩ := exists_notifyOne (s.calls.put c .closed)
  have hwakes : Wakes (.give item (returnClient cfg s.pool item).2) pick (s.calls.put c .closed) calls := hn
  obtain ⟨s', hs, hp, rfl⟩ := step_of_moves (.returned c item _) hget (.give item s.pool) hwakes
  have hco := step_checkedOut hs hcap
  have hm : s'.manuals + 1 = s.manuals + 0 := CallMove.balance (fun _ => rfl) hget hwakes
  refine ⟨_, s', Path.of_step hs, Disciplined.single rfl, ?_, by omega, hco⟩
  unfold Sys.idleLen at hroom ⊢
  rw [hp]
  unfold returnClient
  simp only [giveBackPermit_idle, if_pos hroom, List.length_cons]

theorem exists_borrowed (item : T) (hv : cfg.maxIdle ≤ cfg.maxPoolSize) : ∀ k, k ≤ cfg.maxPoolSize →
    ∃ (r : List (Step T)) (s : Sys T), Run cfg r s ∧ Disciplined r ∧ s.idle = [] ∧ s.manuals = k ∧
      s.checkedOut = k
  | 0, _ => ⟨[], Sys.init, Path.nil _, .nil, rfl, rfl, rfl⟩
  | k + 1, hk => by
    obtain ⟨r, s, hr, hd, hidle, hm, hco⟩ := exists_borrowed item hv k (Nat.le_of_succ_le hk)
    obtain ⟨r', s', hr', hd', hidle', hm', hco'⟩ :=
      exists_borrow item hidle (run_cap hv hr).1 hv (hco ▸ hk)
    exact ⟨_, s', hr.append hr', hd.append hd', hidle', by rw [hm', hm], by rw [hco', hco]⟩

/-- Any number up to `max_idle` can be idle while nothing is out. -/
theorem exists_idle (item : T) (hv : cfg.maxIdle ≤ cfg.maxPoolSize) {i : ℕ} (hi : i ≤ cfg.maxIdle) : ∀ m, m ≤ i →
    ∃ (r : List (Step T)) (s : Sys T), Run cfg r s ∧ Disciplined r ∧ s.idleLen = m ∧ s.manuals = i - m ∧
      s.checkedOut = i - m
  | 0, _ => by
    obtain ⟨r, s, hr, hd, hidle, hm, hco⟩ := exists_borrowed item hv i (Nat.le_trans hi hv)
    exact ⟨r, s, hr, hd, congrArg List.length hidle, hm, hco⟩
  | m + 1, hm => by
    obtain ⟨r, s, hr, hd, hidle, hmanuals, hco⟩ := exists_idle item hv hi m (Nat.le_of_succ_le hm)
    have hpos : 0 < s.manuals := by omega
    have hroom : s.idleLen < cfg.maxIdle := by omega
    obtain ⟨r', s', hr', hd', hidle', hmanuals', hco'⟩ := exists_return hpos hroom (run_cap hv hr).1
    exact ⟨_, s', hr.append hr', hd.append hd', by omega, by omega, by omega⟩

/-- From a pool with nothing out, any number of permits can be taken. -/
theorem exists_out (hv : cfg.maxIdle ≤ cfg.maxPoolSize) {r₁ : List (Step T)} (hr₁ : Run cfg r₁ s)
    (hs : s.checkedOut = 0) : ∀ n, n ≤ cfg.maxPoolSize →
    ∃ r s', Path (step cfg) s r s' ∧ Disciplined r ∧ s'.checkedOut = n
  | 0, _ => ⟨[], s, Path.nil s, .nil, hs⟩
  | n + 1, hn => by
    obtain ⟨r, s', hr, hd, hco⟩ := exists_out hv hr₁ hs n (Nat.le_of_succ_le hn)
    obtain ⟨c, o, s'', hs'', hco'', -⟩ := exists_checkout (run_cap hv (hr₁.append hr)).1 (by omega)
    exact ⟨_, s'', hr.append (Path.of_step hs''), hd.append (Disciplined.single rfl), by rw [hco'', hco]⟩

/-- **`Debug` of a pool is torn.**  Whatever callers do, the two numbers exceed `max_pool_size` together by no
more than the permits that are taken between the two locks.  With callers that return what they borrow, the
pairs that can be shown are all those within `max_idle` and `max_pool_size`. -/
theorem debug_is_torn (cfg : PoolConfig w) (hv : cfg.validate = .ok ()) :
    (∀ (r₁ r₂ : List (Step T)) (s₁ s₂ : Sys T), Run cfg r₁ s₁ → Path (step cfg) s₁ r₂ s₂ →
      (poolDebug cfg s₁ s₂).idle + (poolDebug cfg s₁ s₂).checkedOut ≤ cfg.maxPoolSize + takenIn r₂) ∧
    (Nonempty T → ∀ i n, (∃ (r₁ r₂ : List (Step T)) (s₁ s₂ : Sys T), Run cfg r₁ s₁ ∧ Path (step cfg) s₁ r₂ s₂ ∧
        Disciplined (r₁ ++ r₂) ∧ poolDebug cfg s₁ s₂ = ⟨cfg, i, n⟩) ↔
      i ≤ cfg.maxIdle ∧ n ≤ cfg.maxPoolSize) := by
  obtain ⟨-, hv'⟩ := PoolConfig.validate_ok.mp hv
  constructor
  · intro r₁ r₂ s₁ s₂ hr₁ hr₂
    have hsum : s₁.idleLen + s₁.checkedOut ≤ cfg.maxPoolSize := (run_cap hv' hr₁).1.sum_le
    have hle := checkedOut_le_takenIn hv' hr₂ (run_cap hv' hr₁).1
    show s₁.idleLen + s₂.checkedOut ≤ _
    omega
  · rintro ⟨item⟩ i n
    constructor
    · rintro ⟨r₁, r₂, s₁, s₂, hr₁, hr₂, -, heq⟩
      obtain ⟨-, rfl, rfl⟩ := PoolDebug.mk.inj heq
      have hsum : s₂.idle.length + s₂.checkedOut ≤ cfg.maxPoolSize := (run_cap hv' (hr₁.append hr₂)).1.sum_le
      exact ⟨(run_cap hv' hr₁).1.idle_le, by omega⟩
    · rintro ⟨hi, hn⟩
      obtain ⟨r₁, s₁, hr₁, hd₁, hidle, -, hco⟩ := exists_idle item hv' hi i le_rfl
      obtain ⟨r₂, s₂, hr₂, hd₂, hco₂⟩ := exists_out hv' hr₁ (by omega) n hn
      refine ⟨r₁, r₂, s₁, s₂, hr₁, hr₂, hd₁.append hd₂, ?_⟩
      show PoolDebug.mk cfg s₁.idleLen s₂.checkedOut = _
      rw [hidle, hco₂]

/-- A pool of two may be shown with two objects idle and two out. -/
theorem debug_is_torn_sample :
    ∃ (r₁ r₂ : List (Step ℕ)) (s₁ s₂ : Sys ℕ), Run sampleConfig r₁ s₁ ∧ Path (step sampleConfig) s₁ r₂ s₂ ∧
      Disciplined (r₁ ++ r₂) ∧ poolDebug sampleConfig s₁ s₂ = ⟨sampleConfig, 2, 2⟩ :=
  ((debug_is_torn sampleConfig sampleConfig_valid).2 ⟨10⟩ 2 2).mpr (by decide)

end Transportx.Pool
