import Mathlib.Data.Fintype.EquivFin
import Transportx.Pool.Permits

/-!
# Transportx.Pool.Misuse — permits when callers return what they do not hold

`return_client` takes any object at any time.  A return that ends no borrow gives back a permit that belongs
to somebody else, or finds `checked_out` at zero and gives back none (`absorbed`).  `run_accounting` keeps the
exact books of every run: the counter lags behind the open calls by the foreign returns that were not
absorbed.  So each of them costs at most one permit of the limit, and the bound is attained.
-/

namespace Transportx.Pool

open Lts

variable {w : ℕ} {T : Type} {cfg : PoolConfig w} {s s' : Sys T} {l : Label T} {o : Outcome T}

/-- A `return_client` by hand that ends no borrow. -/
def isForeign (t : Step T) : Bool :=
  match t.ev.1 with
  | .returnForeign _ => true
  | _ => false

/-- The step was to give back a permit, and found that none was out. -/
def isAbsorbed (t : Step T) : Bool := t.out.given == 1 && t.pre.checkedOut == 0

def foreignReturns (r : List (Step T)) : ℕ := r.countP isForeign

def absorbed (r : List (Step T)) : ℕ := r.countP isAbsorbed

/-- The calls that are open. -/
def Sys.opens (s : Sys T) : ℕ := s.calls.total Call.opens

/-! ## The books -/

theorem isAbsorbed_cases (t : Step T) :
    (isAbsorbed t = true ∧ t.out.given = 1 ∧ t.pre.checkedOut = 0) ∨
    (isAbsorbed t = false ∧ (t.out.given = 0 ∨ 0 < t.pre.checkedOut)) := by
  have hone := t.out.taken_given
  have habs : isAbsorbed t = true ↔ t.out.given = 1 ∧ t.pre.checkedOut = 0 := by simp [isAbsorbed]
  cases h : isAbsorbed t with
  | true => exact Or.inl ⟨rfl, habs.mp h⟩
  | false =>
    rw [h] at habs
    exact Or.inr ⟨rfl, by by_contra hnot; exact absurd (habs.mpr (by omega)) Bool.false_ne_true⟩

/-- What a step does to the open calls. -/
theorem step_opens (h : step cfg s l = some (o, s')) :
    s'.opens + (if isForeign ⟨s, l, o, s'⟩ then 0 else o.given) = s.opens + o.taken ∧
      (isForeign ⟨s, l, o, s'⟩ = true → o.given = 1 ∧ o.taken = 0) := by
  unfold Sys.opens
  cases step_cases h with
  | call hc hget hpool hwakes =>
    have hbal := CallMove.balance opens_blind hget hwakes
    have hopens := hc.opens
    rw [hc.permits.1, hc.permits.2] at hopens
    rw [show isForeign ⟨s, _, o, s'⟩ = false by cases hc <;> rfl, if_neg Bool.false_ne_true]
    exact ⟨by omega, fun h => (by cases h)⟩
  | foreign hpool hwakes => exact ⟨hwakes.total_eq opens_blind, fun _ => ⟨rfl, rfl⟩⟩
  | poison hpool hcalls => exact ⟨by rw [hcalls]; rfl, fun h => (by cases h)⟩

/-- **The books of one step**: the counter follows the open calls, but for a foreign return and for a permit
that was not there to give back. -/
theorem step_accounting {t : Step T} (ht : IsStep (step cfg) t) (hcap : Cap cfg t.pre.pool) :
    t.post.checkedOut + (if isForeign t then 1 else 0) + t.pre.opens =
      t.pre.checkedOut + t.post.opens + if isAbsorbed t then 1 else 0 := by
  have hco := step_checkedOut ht hcap
  have hone := t.out.taken_given
  obtain ⟨hopens, hforeign⟩ := step_opens ht
  cases hf : isForeign t with
  | true =>
    -- a foreign return closes no call, and may find no permit to give back
    obtain ⟨hgiven, htaken⟩ := hforeign hf
    rw [if_pos hf] at hopens
    rcases isAbsorbed_cases t with ⟨ha, -, h0⟩ | ⟨ha, hpos⟩ <;>
      simp only [ha, if_true, Bool.false_eq_true, if_false] <;> omega
  | false =>
    rw [if_neg (by simp [hf])] at hopens
    rcases isAbsorbed_cases t with ⟨ha, hgiven, h0⟩ | ⟨ha, hpos⟩ <;>
      simp only [ha, if_true, Bool.false_eq_true, if_false] <;> omega

theorem run_accounting (hv : cfg.maxIdle ≤ cfg.maxPoolSize) {r : List (Step T)} (hr : Path (step cfg) s r s')
    (hcap : Cap cfg s.pool) :
    s'.checkedOut + foreignReturns r + s.opens = s.checkedOut + s'.opens + absorbed r := by
  induction hr with
  | nil s => rfl
  | @cons t r s' ht _ ih =>
    obtain ⟨m, hm, -⟩ := step_poolMove ht
    have hrest := ih (hm.cap hv hcap)
    have hstep := step_accounting ht hcap
    unfold foreignReturns absorbed at hrest ⊢
    rw [List.countP_cons, List.countP_cons]
    omega

/-- The counter never runs ahead of the open calls. -/
theorem checkedOut_le_opens (hv : cfg.maxIdle ≤ cfg.maxPoolSize) {r : List (Step T)} {s : Sys T}
    (hr : Run cfg r s) : s.checkedOut ≤ s.opens := by
  refine (hr.keeps (P := fun s => Cap cfg s.pool ∧ s.checkedOut ≤ s.opens) ?_ ⟨Cap.init cfg, Nat.zero_le _⟩).2
  rintro t ht ⟨hcap, hle⟩
  obtain ⟨m, hm, -⟩ := step_poolMove ht
  refine ⟨hm.cap hv hcap, ?_⟩
  have hstep := step_accounting ht hcap
  have hco := step_checkedOut ht hcap
  rcases isAbsorbed_cases t with ⟨ha, hgiven, h0⟩ | ⟨ha, -⟩
  · -- an absorbed return leaves the counter at zero
    have hone := t.out.taken_given
    omega
  · rw [ha, if_neg Bool.false_ne_true] at hstep
    omega

/-! ## The bound is attained -/

theorem exists_fresh (s : Sys T) : ∃ c, s.calls.get c = none := by
  obtain ⟨c, hc⟩ := Infinite.exists_notMem_finset s.calls.ids
  exact ⟨c, Ledger.get_eq_none.mpr hc⟩

/-- While a permit is free somebody can take it. -/
theorem exists_checkout (hcap : Cap cfg s.pool) (hlt : s.checkedOut < cfg.maxPoolSize) :
    ∃ c o s', step cfg s (.checkout c .manual, none) = some (o, s') ∧ s'.checkedOut = s.checkedOut + 1 ∧
      s'.opens = s.opens + 1 := by
  obtain ⟨c, hget⟩ := exists_fresh s
  obtain ⟨o, s', hs, htaken⟩ : ∃ o s', step cfg s (.checkout c .manual, none) = some (o, s') ∧ o.taken = 1 := by
    rcases checkoutWith_cases cfg s.pool with ⟨item, g, -, hm⟩ | ⟨g, -, hm⟩ | ⟨-, hm⟩
    · obtain ⟨s', hs, -⟩ := step_of_quiet (.hit c .manual item) hget hm rfl none
      exact ⟨_, s', hs, rfl⟩
    · obtain ⟨s', hs, -⟩ := step_of_quiet (.reserved c .manual) hget hm rfl none
      exact ⟨_, s', hs, rfl⟩
    · -- with a permit free the pool does not refuse
      exact absurd hm.le_of_refuse (Nat.not_le_of_lt hlt)
  have hone := o.taken_given
  have hco := step_checkedOut hs hcap
  have hopens := (step_opens hs).1
  rw [show isForeign ⟨s, (.checkout c .manual, none), o, s'⟩ = false from rfl, if_neg Bool.false_ne_true] at hopens
  exact ⟨c, o, s', hs, by omega, by omega⟩

theorem exists_foreign (cfg : PoolConfig w) (s : Sys T) (item : T) :
    ∃ pick d s', step cfg s (.returnForeign item, pick) = some (.returned d, s') := by
  obtain ⟨pick, calls, hn⟩ := exists_notifyOne s.calls
  have hgive : PoolMove cfg (.give item _) s.pool _ := .give item s.pool
  obtain ⟨s', hs, -⟩ := giveBack_of_wakes hgive hn
  exact ⟨pick, _, s', hs⟩

/-- A pool can be filled up. -/
theorem exists_full (hv : cfg.maxIdle ≤ cfg.maxPoolSize) : ∀ k, k ≤ cfg.maxPoolSize →
    ∃ (r : List (Step T)) (s : Sys T), Run cfg r s ∧ foreignReturns r = 0 ∧ s.checkedOut = k ∧ s.opens = k
  | 0, _ => ⟨[], Sys.init, Path.nil _, rfl, rfl, rfl⟩
  | k + 1, hk => by
    obtain ⟨r, s, hr, hf, hco, hopens⟩ := exists_full hv k (Nat.le_of_succ_le hk)
    obtain ⟨c, o, s', hs, hco', hopens'⟩ := exists_checkout (run_cap hv hr).1 (hco ▸ hk)
    refine ⟨_, s', hr.append (Path.of_step hs), ?_, by rw [hco', hco], by rw [hopens', hopens]⟩
    rw [foreignReturns, List.countP_append]
    exact hf

/-- A foreign return frees a permit that is in use, and one more call can take it. -/
theorem exists_misuse (hv : cfg.maxIdle ≤ cfg.maxPoolSize) (hpos : 0 < cfg.maxPoolSize) (item : T) : ∀ n,
    ∃ (r : List (Step T)) (s : Sys T), Run cfg r s ∧ foreignReturns r = n ∧ s.checkedOut = cfg.maxPoolSize ∧
      s.opens = cfg.maxPoolSize + n
  | 0 => exists_full hv _ le_rfl
  | n + 1 => by
    obtain ⟨r, s, hr, hf, hco, hopens⟩ := exists_misuse hv hpos item n
    obtain ⟨pick, d, s₁, hs₁⟩ := exists_foreign cfg s item
    have hr₁ := hr.append (Path.of_step hs₁)
    -- the counter drops below the number of open calls
    have hco₁ := step_checkedOut hs₁ (run_cap hv hr).1
    have hopens₁ := (step_opens hs₁).1
    rw [show isForeign ⟨s, (.returnForeign item, pick), .returned d, s₁⟩ = true from rfl, if_pos rfl] at hopens₁
    simp only [Outcome.taken, Outcome.given] at hco₁ hopens₁
    obtain ⟨c, o, s₂, hs₂, hco₂, hopens₂⟩ := exists_checkout (run_cap hv hr₁).1 (by omega)
    refine ⟨_, s₂, hr₁.append (Path.of_step hs₂), ?_, by omega, by omega⟩
    rw [foreignReturns, List.countP_append, List.countP_append]
    exact congrArg (· + 1) hf

/-- **What misuse can do.**  In every run of a pool with a valid configuration, whatever callers return:
`checked_out` and the foreign returns add up to the open calls and the absorbed returns, and the counter
never exceeds the open calls.  So with `n` foreign returns at most `max_pool_size + n` checkouts are open
or in progress at once, and for every `n` there is a run in which as many are. -/
theorem misuse_bound (cfg : PoolConfig w) (hv : cfg.validate = .ok ()) :
    (∀ (r : List (Step T)) (s : Sys T), Run cfg r s →
      s.checkedOut + foreignReturns r = s.leases + s.manuals + s.inFlights + absorbed r ∧
      s.checkedOut ≤ s.leases + s.manuals + s.inFlights ∧ absorbed r ≤ foreignReturns r ∧
      s.leases + s.manuals + s.inFlights ≤ cfg.maxPoolSize + foreignReturns r) ∧
    (Nonempty T → ∀ n, ∃ (r : List (Step T)) (s : Sys T), Run cfg r s ∧ foreignReturns r = n ∧
      s.leases + s.manuals + s.inFlights = cfg.maxPoolSize + n) := by
  obtain ⟨hpos, hv'⟩ := PoolConfig.validate_ok.mp hv
  constructor
  · intro r s hr
    have hbooks := run_accounting hv' hr (Cap.init cfg)
    have hle := checkedOut_le_opens hv' hr
    have hsum : s.idle.length + s.checkedOut ≤ cfg.maxPoolSize := (run_cap hv' hr).1.sum_le
    have hinit : (Sys.init : Sys T).checkedOut = 0 ∧ (Sys.init : Sys T).opens = 0 := ⟨rfl, rfl⟩
    rw [hinit.1, hinit.2] at hbooks
    unfold Sys.opens at hbooks hle
    rw [total_opens] at hbooks hle
    exact ⟨by omega, hle, by omega, by omega⟩
  · rintro ⟨item⟩ n
    obtain ⟨r, s, hr, hf, -, hopens⟩ := exists_misuse hv' hpos item n
    exact ⟨r, s, hr, hf, by rw [← total_opens]; exact hopens⟩

theorem misuse_bound_sample :
    ∃ (r : List (Step ℕ)) (s : Sys ℕ), Run sampleConfig r s ∧ foreignReturns r = 3 ∧
      s.leases + s.manuals + s.inFlights = 2 + 3 :=
  (misuse_bound sampleConfig sampleConfig_valid).2 ⟨10⟩ 3

end Transportx.Pool
