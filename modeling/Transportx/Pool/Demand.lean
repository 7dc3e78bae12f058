import Transportx.Pool.Conservation

/-!
# Transportx.Pool.Demand — the pool creates no more objects than peak demand requires

The high-water mark `peak` of `checked_out` bounds `idle + checked_out` at every moment: a permit for
a new object is reserved only when nothing is idle, so the sum grows only together with the mark.
With conservation of objects the number of successful factory calls is then at most the mark, plus
what was detached or discarded.
-/

namespace Transportx.Pool

open Lts

variable {w : ℕ} {T : Type} {cfg : PoolConfig w} {m : Move T} {g g' : PoolState T}

/-- A move raises `idle + checked_out` at most to the new value of `checked_out`. -/
theorem PoolMove.load_le (h : PoolMove cfg m g g') (hcap : Cap cfg g)
    (hpos : m.given = 1 → 0 < g.checkedOut) :
    g'.idle.length + g'.checkedOut ≤ max (g.idle.length + g.checkedOut) g'.checkedOut := by
  have hco := h.checkedOut_eq hcap
  have hlen := h.length_le
  cases hm : m.onEmpty with
  | true => simp [h.idle_of_onEmpty hm]
  | false =>
    -- a permit is taken together with an idle object, and given back with at most one
    have htaken : m.taken = m.popped := by cases m <;> first | rfl | cases hm
    have hgiven : m.given ≤ 1 := by cases m <;> simp [Move.given]
    refine le_max_of_le_left ?_
    rcases Nat.le_one_iff_eq_zero_or_eq_one.mp hgiven with h0 | h1
    · omega
    · have := hpos h1
      omega

theorem load_le_peak (hv : cfg.maxIdle ≤ cfg.maxPoolSize) {r : List (Step T)} {s : Sys T} (hr : Run cfg r s)
    (hd : Disciplined r) : s.idle.length + s.checkedOut ≤ peak Sys.checkedOut 0 r := by
  obtain ⟨-, hmem⟩ := run_exact hv hr hd
  refine hr.le_peak (g := fun s => s.idle.length + s.checkedOut) (fun t ht => ?_) ?_
  · obtain ⟨⟨hcap, hex⟩, -⟩ := hmem t ht
    obtain ⟨m, hm, -, hgiven⟩ := step_poolMove (hr.isStep t ht)
    exact hm.load_le hcap fun h1 =>
      (exact_step (hr.isStep t ht) (hd t ht) hcap hex).2 (hgiven ▸ h1)
  · simp [Sys.init, Sys.idle, Sys.checkedOut, Sys.pool, newUnchecked]

/-- A call holds at most one object, and only while it is open. -/
theorem card_out_le (s : Sys T) : s.out.card ≤ s.calls.total Call.opens := by
  unfold Sys.out Ledger.total
  rw [Multiset.card_sum]
  refine Finset.sum_le_sum fun c _ => ?_
  cases s.calls.val c with
  | lease item => cases item <;> simp
  | _ => simp

theorem sum_eq_zero_of_forall {f : Outcome T → Multiset T} {r : List (Step T)}
    (h : ∀ t ∈ r, f t.out = 0) : (r.map fun t => f t.out).sum = 0 := by
  induction r with
  | nil => rfl
  | cons t r ih =>
    rw [List.map_cons, List.sum_cons, h t (by simp), ih fun u hu => h u (by simp [hu]), add_zero]

/-- **Creation is bounded by demand.**  Along every disciplined run of a pool with a valid
configuration, with `H` the largest value that `checked_out` has had: `idle + checked_out ≤ H`, and the
successful factory calls are at most `H` plus the detached plus the discarded objects, which are those
that a return found no room for under `max_idle`.  So a run that never has more than `k` checkouts open or
in progress, detaches nothing and discards nothing creates at most `k` objects. -/
theorem creation_le_demand (cfg : PoolConfig w) (hv : cfg.validate = .ok ()) {r : List (Step T)} {s : Sys T}
    (hr : Run cfg r s) (hd : Disciplined r) :
    s.idle.length + s.checkedOut ≤ peak Sys.checkedOut 0 r ∧
    (createdIn r).card ≤ peak Sys.checkedOut 0 r + (detachedIn r).card + (discardedIn r).card ∧
    (∀ t ∈ r, ∀ x, t.out = .returned (some x) → t.pre.idle.length = cfg.maxIdle) ∧
    ∀ k, (∀ t ∈ r, t.post.leases + t.post.manuals + t.post.inFlights ≤ k) →
      (∀ t ∈ r, ∀ x, t.out ≠ .detached (some x)) → (∀ t ∈ r, ∀ x, t.out ≠ .returned (some x)) →
      (createdIn r).card ≤ k := by
  have hv' := (PoolConfig.validate_ok.mp hv).2
  have hload := load_le_peak hv' hr hd
  obtain ⟨⟨-, hex⟩, hmem⟩ := run_exact hv' hr hd
  have hcount : (createdIn r).card ≤
      peak Sys.checkedOut 0 r + (detachedIn r).card + (discardedIn r).card := by
    have hcons := congrArg Multiset.card (places_run hr hd)
    have hout := card_out_le s
    simp only [Multiset.card_add, Multiset.coe_card] at hcons
    unfold Exact at hex
    omega
  refine ⟨hload, hcount, run_full_of_discard hv' hr hd, fun k hk hdet hdis => ?_⟩
  have hpeak : peak Sys.checkedOut 0 r ≤ k := by
    refine peak_le (fun t ht => ?_) (Nat.zero_le k)
    have hopen : t.post.checkedOut = t.post.calls.total Call.opens := (hmem t ht).2.2
    rw [hopen, total_opens]
    exact hk t ht
  have hdet0 : detachedIn r = 0 := sum_eq_zero_of_forall fun t ht => by
    have := hdet t ht
    cases ho : t.out with
    | detached item =>
      cases item with
      | none => rfl
      | some x => exact absurd ho (this x)
    | _ => rfl
  have hdis0 : discardedIn r = 0 := sum_eq_zero_of_forall fun t ht => by
    have := hdis t ht
    cases ho : t.out with
    | returned item =>
      cases item with
      | none => rfl
      | some x => exact absurd ho (this x)
    | _ => rfl
  rw [hdet0, hdis0] at hcount
  simp only [Multiset.card_zero] at hcount
  omega

theorem creation_le_demand_sample :
    sample.2.idle.length + sample.2.checkedOut ≤ peak Sys.checkedOut 0 sample.1 ∧
      (createdIn sample.1).card ≤
        peak Sys.checkedOut 0 sample.1 + (detachedIn sample.1).card + (discardedIn sample.1).card :=
  have h := creation_le_demand sampleConfig sampleConfig_valid sample_run.1 sample_run.2
  ⟨h.1, h.2.1⟩

end Transportx.Pool
