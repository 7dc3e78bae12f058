import Transportx.Lib.Semaphore
import Transportx.Pool.Permits

/-!
# Transportx.Pool.Semaphore — a pool is a counting semaphore

`pool.rs` calls itself a pool with a checkout in the manner of a semaphore, but it keeps a number, not the
holders, and takes permits in three places and gives them back in five.  Under the return discipline the
set of open calls (`Sys.holders`) is a refinement mapping to `Semaphore.step`: a checkout that gets an
object or a reservation acquires, a return, a rollback or `into_inner` releases, `PoolExhausted` is a refusal,
and nothing else moves.  The mapping is faithful in both directions: what the semaphore grants, the pool
grants (`checkout_answer`).
-/

namespace Transportx.Pool

open Lts

variable {w : ℕ} {T : Type} {cfg : PoolConfig w} {s s' : Sys T} {l : Label T} {o : Outcome T}
  {ev : Event T} {c : CallId} {old : Option (Call T)} {new : Call T} {m : Move T}
  {g g' : PoolState T}

/-- The calls that are open: they hold a permit. -/
def Sys.holders (s : Sys T) : Finset CallId := s.calls.support Call.opens

/-- What a step is to the semaphore. -/
def semaphoreView (t : Step T) : Option (Semaphore.Op CallId × Unit) :=
  match t.ev.1.call, t.out with
  | some c, .hit _ | some c, .reserved => some (.acquire c, ())
  | some c, .returned _ | some c, .rolledBack _ | some c, .detached (some _) => some (.release c, ())
  | some c, .exhausted _ => some (.refuse c, ())
  | _, _ => none

theorem opens_le_one (v : Call T) : v.opens ≤ 1 := by
  cases v with
  | lease item => cases item <;> simp
  | _ => simp

theorem card_holders (s : Sys T) : s.holders.card = s.calls.total Call.opens :=
  Ledger.card_support opens_le_one

/-- Notification does not change who holds a permit. -/
theorem Wakes.support_eq {pick : Option CallId} {calls calls' : Ledger CallId (Call T)}
    (h : Wakes m pick calls calls') : calls'.support Call.opens = calls.support Call.opens := by
  unfold Wakes at h
  split at h
  · rcases notifyOne_some h with ⟨-, rfl⟩ | ⟨c, timeout, hget, rfl⟩
    · rfl
    · exact Ledger.support_put_same hget rfl
  · rw [h]

/-! ## Every step is a step of the semaphore -/

section Maps

variable {pick : Option CallId} {t : Step T}

/-- The holders after a step of a call. -/
theorem holders_put (hcalls : s'.calls = s.calls.put c new) :
    s'.holders = if 0 < new.opens then insert c s.holders else s.holders.erase c := by
  unfold Sys.holders
  rw [hcalls]
  split
  · next hpos => exact Ledger.support_put_pos hpos
  · next h0 => exact Ledger.support_put_zero (Nat.eq_zero_of_not_pos h0)

theorem holders_call (hwakes : Wakes m pick (s.calls.put c new) s'.calls) :
    s'.holders = if 0 < new.opens then insert c s.holders else s.holders.erase c := by
  have hput : (s.setCall c new).holders = _ := holders_put rfl
  rw [← hput]
  exact hwakes.support_eq

theorem mem_holders (hget : s.calls.get c = old) : c ∈ s.holders ↔ 0 < old.elim 0 Call.opens := by
  subst hget
  unfold Sys.holders
  cases h : s.calls.get c with
  | none => simp [Ledger.mem_support, h]
  | some v => exact Ledger.mem_support_of_get h

theorem maps_semaphore (ht : IsStep (step cfg) t) (hlawful : Lawful t) (hcap : Cap cfg t.pre.pool)
    (hex : Exact t.pre) : Maps (Semaphore.step cfg.maxPoolSize) Sys.holders semaphoreView t := by
  obtain ⟨pre, ⟨ev, pick⟩, out, post⟩ := t
  have hcard : pre.holders.card = pre.pool.checkedOut := (card_holders pre).trans hex.symm
  cases step_cases ht with
  | @call ev o c old new m pick s' hc hget hpool hwakes =>
    have hpost := holders_call hwakes
    have hmem := mem_holders hget
    have acquires : semaphoreView ⟨pre, (ev, pick), out, post⟩ = some (.acquire c, ()) → m.taken = 1 →
        old.elim 0 Call.opens = 0 → new.opens = 1 →
        Maps (Semaphore.step cfg.maxPoolSize) Sys.holders semaphoreView ⟨pre, (ev, pick), out, post⟩ := by
      intro hview hm hold hnew
      rw [hnew, if_pos Nat.one_pos] at hpost
      refine .of_some hview ?_
      rw [hpost]
      exact Semaphore.step_acquire (by rw [hmem, hold]; exact Nat.lt_irrefl 0)
        (hcard.trans_lt (hpool.lt_of_taken hcap hm))
    have releases : semaphoreView ⟨pre, (ev, pick), out, post⟩ = some (.release c, ()) →
        old.elim 0 Call.opens = 1 → new.opens = 0 →
        Maps (Semaphore.step cfg.maxPoolSize) Sys.holders semaphoreView ⟨pre, (ev, pick), out, post⟩ := by
      intro hview hold hnew
      rw [hnew, if_neg (Nat.lt_irrefl 0)] at hpost
      refine .of_some hview ?_
      rw [hpost]
      exact Semaphore.step_release (by rw [hmem, hold]; exact Nat.one_pos)
    have stutters : semaphoreView ⟨pre, (ev, pick), out, post⟩ = none → new.opens = old.elim 0 Call.opens →
        Maps (Semaphore.step cfg.maxPoolSize) Sys.holders semaphoreView ⟨pre, (ev, pick), out, post⟩ := by
      intro hview hsame
      refine .of_none hview ?_
      dsimp only
      rw [hpost, hsame]
      split
      · next hpos => exact Finset.insert_eq_of_mem (hmem.mpr hpos)
      · next h0 => exact Finset.erase_eq_of_notMem (mt hmem.mp h0)
    cases hc with
    | hit _ kind item => exact acquires rfl rfl rfl (opens_handOut kind item)
    | reserved | entryHit | resumeHit => exact acquires rfl rfl rfl rfl
    | erred | unwound | returned | dropped | detached => exact releases rfl rfl rfl
    | exhausted _ kind =>
      -- a refusal is a step of its own, which is possible only when every permit is held
      rw [show (Call.failed : Call T).opens = 0 from rfl, if_neg (Nat.lt_irrefl 0)] at hpost
      have hnot : c ∉ pre.holders := by rw [hmem]; exact Nat.lt_irrefl 0
      refine .of_some rfl ?_
      rw [hpost, Finset.erase_eq_of_notMem hnot]
      exact Semaphore.step_refuse hnot (hcard ▸ hpool.le_of_refuse)
    | created _ kind item => exact stutters rfl (opens_handOut kind item)
    | _ => exact stutters rfl rfl
  | foreign => exact absurd rfl (hlawful _)
  | poison hpool hcalls => exact .of_none rfl (by unfold Sys.holders; rw [hcalls])

end Maps

/-! ## What the semaphore grants -/

/-- A new checkout is granted if a permit is free, and refused if none is. -/
theorem checkout_answer (hcap : Cap cfg s.pool) (hex : Exact s) (hget : s.calls.get c = none) (kind : Kind) :
    ∃ o s', step cfg s (.checkout c kind, none) = some (o, s') ∧
      (s.holders.card < cfg.maxPoolSize → o.taken = 1 ∧ s'.holders = insert c s.holders) ∧
      (s.holders.card = cfg.maxPoolSize →
        o = .exhausted (.poolExhausted cfg.maxPoolSize) ∧ s'.holders = s.holders) := by
  have hcard : s.holders.card = s.pool.checkedOut := (card_holders s).trans hex.symm
  have hnot : c ∉ s.holders := by rw [mem_holders hget]; exact Nat.lt_irrefl 0
  rcases checkoutWith_cases cfg s.pool with ⟨item, g, -, hm⟩ | ⟨g, -, hm⟩ | ⟨-, hm⟩
  · obtain ⟨s', hs, hpool, hcalls⟩ := step_of_quiet (.hit c kind item) hget hm rfl none
    have hlt := hm.lt_of_taken hcap rfl
    have hpost := holders_put hcalls
    rw [opens_handOut, if_pos Nat.one_pos] at hpost
    exact ⟨_, s', hs, fun _ => ⟨rfl, hpost⟩, fun hfull => by omega⟩
  · obtain ⟨s', hs, hpool, hcalls⟩ := step_of_quiet (.reserved c kind) hget hm rfl none
    have hlt := hm.lt_of_taken hcap rfl
    have hpost := holders_put hcalls
    rw [opens_inFlight, if_pos Nat.one_pos] at hpost
    exact ⟨_, s', hs, fun _ => ⟨rfl, hpost⟩, fun hfull => by omega⟩
  · obtain ⟨s', hs, hpool, hcalls⟩ := step_of_quiet (.exhausted c kind) hget hm rfl none
    have hle := hm.le_of_refuse
    have hpost := holders_put hcalls
    rw [opens_failed, if_neg (Nat.lt_irrefl 0), Finset.erase_eq_of_notMem hnot] at hpost
    exact ⟨_, s', hs, fun hfree => by omega, fun _ => ⟨rfl, hpost⟩⟩

/-- **A pool is a counting semaphore.**  Every disciplined run of a pool with a valid configuration is a run of
the semaphore with `max_pool_size` permits, whose holders are the open calls; `checked_out` is how many they
are.  Each call gives back its permit exactly as often as it acquired it, unless it holds it still.  And the
pool grants all that the semaphore grants: a new checkout succeeds while a permit is free, and finds the pool
exhausted only when every permit is held. -/
theorem pool_is_semaphore (cfg : PoolConfig w) (hv : cfg.validate = .ok ()) {r : List (Step T)} {s : Sys T}
    (hr : Run cfg r s) (hd : Disciplined r) :
    Path (Semaphore.step cfg.maxPoolSize) ∅ (r.filterMap (image Sys.holders semaphoreView)) s.holders ∧
    s.checkedOut = s.holders.card ∧ s.holders.card ≤ cfg.maxPoolSize ∧
    (∀ c, Semaphore.acquired c (r.filterMap (image Sys.holders semaphoreView)) =
      Semaphore.released c (r.filterMap (image Sys.holders semaphoreView)) +
        if c ∈ s.holders then 1 else 0) ∧
    ∀ c kind, s.calls.get c = none → ∃ o s', step cfg s (.checkout c kind, none) = some (o, s') ∧
      (s.holders.card < cfg.maxPoolSize → o.taken = 1 ∧ s'.holders = insert c s.holders) ∧
      (s.holders.card = cfg.maxPoolSize →
        o = .exhausted (.poolExhausted cfg.maxPoolSize) ∧ s'.holders = s.holders) := by
  obtain ⟨⟨hcap, hex⟩, hmem⟩ := run_exact (PoolConfig.validate_ok.mp hv).2 hr hd
  have hinit : (Sys.init : Sys T).holders = ∅ := rfl
  have hrun : Path (Semaphore.step cfg.maxPoolSize) (Sys.init : Sys T).holders _ s.holders :=
    hr.map fun t ht => maps_semaphore (hr.isStep t ht) (hd t ht) (hmem t ht).1.1 (hmem t ht).1.2
  rw [hinit] at hrun
  refine ⟨hrun, hex.trans (card_holders s).symm, Semaphore.card_le hrun (by simp), fun c => ?_,
    fun c kind hget => checkout_answer hcap hex hget kind⟩
  simpa using Semaphore.acquired_eq c hrun

theorem pool_is_semaphore_sample :
    sample.2.checkedOut = sample.2.holders.card ∧
      ∃ o s', step sampleConfig sample.2 (.checkout 5 .lease, none) = some (o, s') ∧ o.taken = 1 := by
  have h := pool_is_semaphore sampleConfig sampleConfig_valid sample_run.1 sample_run.2
  obtain ⟨o, s', hs, hgrant, -⟩ := h.2.2.2.2 5 .lease (by decide)
  exact ⟨h.2.1, o, s', hs, (hgrant (by decide)).1⟩

end Transportx.Pool
