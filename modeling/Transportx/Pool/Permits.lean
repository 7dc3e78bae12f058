import Transportx.Pool.Capacity

/-!
# Transportx.Pool.Permits — exact accounting of permits under the return discipline

`checked_out` is taken in one critical section and given back in another, by one of five paths
(manual return, lease drop, `into_inner`, rollback on `Err`, rollback on unwind).  In a run that
obeys the return discipline it is always the number of calls that are open: leases that hold an
item, manual borrows not yet returned, and checkouts in flight (`Exact`).  So the guards
`checked_out > 0` hold whenever they are tested, and the saturating decrement never hides a permit
that was given back twice.
-/

namespace Transportx.Pool

variable {w : ℕ} {T : Type} {cfg : PoolConfig w} {s s' : Sys T} {l : Label T} {o : Outcome T}
  {ev : Event T} {c : CallId} {old : Option (Call T)} {new : Call T} {m : Move T}

/-- The counter is the number of open calls. -/
def Exact (s : Sys T) : Prop := s.checkedOut = s.calls.total Call.opens

theorem opens_blind : Blind (T := T) Call.opens := fun _ => rfl

theorem total_opens (s : Sys T) : s.calls.total Call.opens = s.leases + s.manuals + s.inFlights := by
  unfold Sys.leases Sys.manuals Sys.inFlights
  rw [← Ledger.total_add, ← Ledger.total_add]
  rfl

section Opens

variable (kind : Kind) (item : T) (timeout : Duration) (wait : Wait)

@[simp] theorem opens_inFlight : (Call.inFlight kind : Call T).opens = 1 := rfl

@[simp] theorem opens_manual : (Call.manual item).opens = 1 := rfl

@[simp] theorem opens_lease : (Call.lease (some item)).opens = 1 := rfl

@[simp] theorem opens_emptyLease : (Call.lease none : Call T).opens = 0 := rfl

@[simp] theorem opens_waiting : (Call.waiting timeout wait : Call T).opens = 0 := rfl

@[simp] theorem opens_closed : (Call.closed : Call T).opens = 0 := rfl

@[simp] theorem opens_failed : (Call.failed : Call T).opens = 0 := rfl

@[simp] theorem opens_handOut : (handOut kind item).opens = 1 := by
  cases kind <;> rfl

end Opens

/-- A call opens when it takes a permit and closes when it gives one back. -/
theorem CallMove.opens (h : CallMove cfg ev o c old new m) :
    new.opens + m.given = old.elim 0 Call.opens + m.taken := by
  cases h <;> simp [Move.given, Move.taken]

/-! ## Steps and runs -/

theorem exact_step (h : step cfg s l = some (o, s'))
    (hd : ∀ item, l.1 ≠ .returnForeign item) (hcap : Cap cfg s.pool) (hs : Exact s) :
    Exact s' ∧ (o.given = 1 → 0 < s.checkedOut) := by
  have hco := step_checkedOut h hcap
  have hone := o.taken_given
  cases step_cases h with
  | @call ev o c old new m pick s' hc hget hpool hwakes =>
    have hbal := CallMove.balance opens_blind hget hwakes
    have hopens := hc.opens
    rw [hc.permits.1, hc.permits.2] at hopens
    -- a call that gives a permit back was open, so the total was positive
    have hold : old.elim 0 Call.opens ≤ s.calls.total Call.opens := by
      cases old with
      | none => exact Nat.zero_le _
      | some v => exact Ledger.le_total Call.opens hget
    unfold Exact at hs ⊢
    exact ⟨by omega, by omega⟩
  | foreign => exact absurd rfl (hd _)
  | poison _ hcalls =>
    unfold Exact at hs ⊢
    rw [hcalls, hco, ← hs]
    exact ⟨rfl, by simp [Outcome.given]⟩

theorem run_exact (hv : cfg.maxIdle ≤ cfg.maxPoolSize) {r : List (Step T)} {s : Sys T} (hr : Run cfg r s)
    (hd : Disciplined r) :
    (Cap cfg s.pool ∧ Exact s) ∧
      ∀ t ∈ r, (Cap cfg t.pre.pool ∧ Exact t.pre) ∧ (Cap cfg t.post.pool ∧ Exact t.post) := by
  refine hr.invariant (P := fun s => Cap cfg s.pool ∧ Exact s) (K := Lawful) ?_ hd ⟨Cap.init cfg, ?_⟩
  · rintro t ht hok ⟨hcap, hex⟩
    obtain ⟨m, hm, -⟩ := step_poolMove ht
    exact ⟨hm.cap hv hcap, (exact_step ht hok hcap hex).1⟩
  · simp [Exact, Sys.init, Sys.checkedOut, Sys.pool, newUnchecked]

/-- **Exact permit accounting.**  In every disciplined run of a pool with a valid configuration,
`checked_out` is the number of leases that hold an item, manual borrows and checkouts in flight.  Each
critical section that tests `checked_out > 0` finds it true and gives back one permit.  Idle, borrowed
and in-flight objects together never exceed `max_pool_size`, and a pool on which no call is open has
all its permits. -/
theorem exact_permit_accounting (cfg : PoolConfig w) (hv : cfg.validate = .ok ()) {r : List (Step T)}
    {s : Sys T} (hr : Run cfg r s) (hd : Disciplined r) :
    s.checkedOut = s.leases + s.manuals + s.inFlights ∧
    (∀ t ∈ r, t.out.given = 1 → 0 < t.pre.checkedOut ∧ t.post.checkedOut + 1 = t.pre.checkedOut) ∧
    s.idle.length + s.leases + s.manuals + s.inFlights ≤ cfg.maxPoolSize ∧
    (s.leases = 0 → s.manuals = 0 → s.inFlights = 0 → s.checkedOut = 0) := by
  obtain ⟨⟨hcap, hex⟩, hmem⟩ := run_exact (PoolConfig.validate_ok.mp hv).2 hr hd
  have hsum : s.idle.length + s.checkedOut ≤ cfg.maxPoolSize := hcap.sum_le
  unfold Exact at hex
  rw [total_opens] at hex
  refine ⟨hex, fun t ht hgiven => ?_, by omega, by omega⟩
  obtain ⟨⟨hpre, hexpre⟩, -⟩ := hmem t ht
  have hpos := (exact_step (hr.isStep t ht) (hd t ht) hpre hexpre).2 hgiven
  have hco := step_checkedOut (hr.isStep t ht) hpre
  have hone := t.out.taken_given
  exact ⟨hpos, by omega⟩

theorem exact_permit_accounting_sample :
    sample.2.checkedOut = sample.2.leases + sample.2.manuals + sample.2.inFlights ∧
      ∀ t ∈ sample.1, t.out.given = 1 → 0 < t.pre.checkedOut ∧ t.post.checkedOut + 1 = t.pre.checkedOut :=
  have h := exact_permit_accounting sampleConfig sampleConfig_valid sample_run.1 sample_run.2
  ⟨h.1, h.2.1⟩

end Transportx.Pool
