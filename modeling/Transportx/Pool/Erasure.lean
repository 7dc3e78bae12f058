import Transportx.Pool.Permits

/-!
# Transportx.Pool.Erasure — failed checkouts are invisible

A failed checkout is not atomic: between the critical section that reserves the permit and the one
that rolls it back, other calls run and may branch on `checked_out`.  Still the rest of a disciplined
run does not depend on it.  `failed_checkouts_invisible` erases every checkout that failed (factory
`Err` or unwind, `PoolExhausted`, a wait without an object) and gives a run of the same pool with the
same remaining operations.

* `Call.core`: where a call stands, up to the reason why a waiter is awake.
* `Sim F s u`: `u` is `s` without the calls `F`.  The idle stacks agree; the counters differ by
  the calls of `F` that are in flight, which follows from exact accounting on both sides.
* An erased rollback also notified somebody.  In the reduced run that waiter wakes up spuriously, just
  before it takes the lock; wakeups are the scheduler's, so they are not compared.
-/

namespace Transportx.Pool

open Lts

variable {w : ℕ} {T : Type} {cfg : PoolConfig w} {s s' : Sys T} {l : Label T} {o : Outcome T}
  {ev : Event T} {c : CallId} {old : Option (Call T)} {new : Call T} {m : Move T}
  {g g' : PoolState T}

/-! ## What is erased -/

def Outcome.failed : Outcome T → Bool
  | .exhausted _ | .rolledBack _ | .idleNone => true
  | _ => false

def failedCalls (r : List (Step T)) : List CallId :=
  (r.filter fun t => t.out.failed).filterMap fun t => t.ev.1.call

def erased (F : List CallId) (t : Step T) : Bool := t.ev.1.call.any (· ∈ F)

/-- A step that is not just a wakeup of the condition variable. -/
def visible (t : Step T) : Bool :=
  match t.ev.1 with
  | .wake _ _ => false
  | _ => true

def kept (F : List CallId) (t : Step T) : Bool := visible t && !erased F t

/-- The failing factories that are in flight. -/
def failing (F : List CallId) (s : Sys T) : ℕ := s.calls.totalOn (· ∈ F) Call.inFlights

/-! ## Calls up to the reason of a wakeup -/

/-- A waiter is a waiter, whether or why it is awake. -/
def Call.core : Call T → Call T
  | .waiting timeout _ => .waiting timeout .asleep
  | v => v

def Call.won : Call T → Bool
  | .manual _ | .lease _ | .closed => true
  | _ => false

/-- A waiter that no timeout has woken. -/
def Call.onTime : Call T → Bool
  | .waiting _ (.awake true) => false
  | _ => true

def coreAt (calls : Ledger CallId (Call T)) (c : CallId) : Option (Call T) := (calls.get c).map Call.core

@[simp] theorem won_core (v : Call T) : v.core.won = v.won := by
  cases v <;> rfl

@[simp] theorem opens_core (v : Call T) : v.core.opens = v.opens := by
  cases v <;> rfl

theorem core_eq_waiting {v : Call T} {timeout : Duration} {wait : Wait}
    (h : v.core = (Call.waiting timeout wait).core) : ∃ wait', v = .waiting timeout wait' := by
  cases v with
  | waiting timeout' wait' =>
    obtain ⟨rfl, -⟩ := Call.waiting.inj h
    exact ⟨wait', rfl⟩
  | _ => cases h

theorem core_eq_of_ne_waiting {u v : Call T} (h : u.core = v.core)
    (hv : ∀ timeout wait, v ≠ .waiting timeout wait) : u = v := by
  cases v with
  | waiting timeout wait => exact absurd rfl (hv timeout wait)
  | _ => cases u <;> first | exact h | cases h

theorem get_of_coreAt {calls : Ledger CallId (Call T)} {c : CallId} {v : Call T}
    (h : coreAt calls c = some v) (hv : ∀ timeout wait, v ≠ .waiting timeout wait) :
    calls.get c = some v := by
  obtain ⟨u, hu, rfl⟩ := Option.map_eq_some_iff.mp h
  have hcore : u.core = u.core.core := by cases u <;> rfl
  rw [hu, ← core_eq_of_ne_waiting hcore hv]

theorem coreAt_put (calls : Ledger CallId (Call T)) (c d : CallId) (v : Call T) :
    coreAt (calls.put c v) d = if d = c then some v.core else coreAt calls d := by
  unfold coreAt
  rw [Ledger.get_put]
  split <;> rfl

theorem Wakes.coreAt {m : Move T} {pick : Option CallId} {calls calls' : Ledger CallId (Call T)}
    (h : Wakes m pick calls calls') (d : CallId) : coreAt calls' d = coreAt calls d := by
  unfold Wakes at h
  split at h
  · rcases notifyOne_some h with ⟨-, rfl⟩ | ⟨c, timeout, hget, rfl⟩
    · rfl
    · rw [coreAt_put]
      split
      · -- the core of a waiter does not say what has woken it
        next hd => rw [hd, Pool.coreAt, hget]; rfl
      · rfl
  · rw [h]

theorem Wakes.onTime {m : Move T} {pick : Option CallId} {calls calls' : Ledger CallId (Call T)}
    (h : Wakes m pick calls calls') (hc : ∀ d v, calls.get d = some v → v.onTime = true) :
    ∀ d v, calls'.get d = some v → v.onTime = true := by
  unfold Wakes at h
  split at h
  · rcases notifyOne_some h with ⟨-, rfl⟩ | ⟨c, timeout, hget, rfl⟩
    · exact hc
    · intro d v hv
      rw [Ledger.get_put] at hv
      split at hv
      · rw [← Option.some.inj hv]; rfl
      · exact hc d v hv
  · rw [h]; exact hc

/-! ## A call that fails has never got an object -/

theorem CallMove.won_mono (h : CallMove cfg ev o c old new m) (hold : old.any Call.won = true) : new.won = true := by
  cases h <;> first | rfl | cases hold

theorem CallMove.not_failed (h : CallMove cfg ev o c old new m) : old ≠ some .failed := by
  cases h <;> rintro ⟨⟩

theorem CallMove.failed_eq (h : CallMove cfg ev o c old new m) (ho : o.failed = true) : new = .failed := by
  cases h <;> first | rfl | cases ho

theorem CallMove.event (h : CallMove cfg ev o c old new m) : ev.call = some c := by
  cases h <;> rfl

/-- The move of a call that has not got an object leaves the idle stack alone. -/
theorem CallMove.idle_eq (h : CallMove cfg ev o c old new m) (hw : new.won = false) {g g' : PoolState T}
    (hm : PoolMove cfg m g g') : g'.idle = g.idle := by
  cases h with
  | hit _ kind item | created _ kind item => cases kind <;> cases hw
  | erred | unwound => cases hm; exact giveBackPermit_idle _
  | reserved | exhausted | entrySlept | entryNone | resumeSlept | resumeNone | woke => cases hm; rfl
  | _ => cases hw

/-- What one step does to each call, up to the reason of a wakeup. -/
theorem step_coreAt (h : step cfg s l = some (o, s')) :
    (∃ c old new m, CallMove cfg l.1 o c old new m ∧ s.calls.get c = old ∧ PoolMove cfg m s.pool s'.pool ∧
      ∀ d, coreAt s'.calls d = if d = c then some new.core else coreAt s.calls d) ∨
    (o.failed = false ∧ l.1.call = none ∧ ∀ d, coreAt s'.calls d = coreAt s.calls d) := by
  cases step_cases h with
  | call hc hget hpool hwakes =>
    exact Or.inl ⟨_, _, _, _, hc, hget, hpool, fun d => by rw [hwakes.coreAt, coreAt_put]⟩
  | foreign _ hwakes => exact Or.inr ⟨rfl, rfl, hwakes.coreAt⟩
  | poison _ hcalls => exact Or.inr ⟨rfl, rfl, fun d => by rw [hcalls]⟩

def WonAt (s : Sys T) (c : CallId) : Prop := (coreAt s.calls c).any Call.won = true

theorem wonAt_step (h : step cfg s l = some (o, s'))
    {c : CallId} (hc : WonAt s c) : WonAt s' c := by
  unfold WonAt at *
  rcases step_coreAt h with ⟨d, old, new, m, hm, hget, -, hcore⟩ | ⟨-, -, hcore⟩
  · rw [hcore]
    split
    · next hcd =>
      subst hcd
      have hold : old.any Call.won = true := by
        rw [coreAt, hget] at hc
        simpa [Option.any_map, Function.comp_def] using hc
      simpa using hm.won_mono hold
    · exact hc
  · rwa [hcore]

theorem failedAt_step (h : step cfg s l = some (o, s'))
    {c : CallId} (hc : coreAt s.calls c = some .failed) : coreAt s'.calls c = some .failed := by
  rcases step_coreAt h with ⟨d, old, new, m, hm, hget, -, hcore⟩ | ⟨-, -, hcore⟩
  · rw [hcore, if_neg]
    · exact hc
    · rintro rfl
      exact hm.not_failed (hget.symm.trans (get_of_coreAt hc (by rintro _ _ ⟨⟩)))
  · rwa [hcore]

theorem mem_failedCalls {r : List (Step T)} {c : CallId} :
    c ∈ failedCalls r ↔ ∃ t ∈ r, t.out.failed = true ∧ t.ev.1.call = some c := by
  simp [failedCalls, and_assoc]

theorem failedAt_end {r : List (Step T)} {s : Sys T} (hr : Run cfg r s) {c : CallId}
    (hc : c ∈ failedCalls r) : coreAt s.calls c = some .failed := by
  obtain ⟨t, ht, hfail, hcall⟩ := mem_failedCalls.mp hc
  refine hr.stable (P := fun s => coreAt s.calls c = some .failed) (fun t ht => failedAt_step ht) t ht ?_
  rcases step_coreAt (hr.isStep t ht) with ⟨d, old, new, m, hm, -, -, hcore⟩ | ⟨hno, -, -⟩
  · have hd : d = c := Option.some.inj (hm.event.symm.trans hcall)
    rw [hcore, if_pos hd.symm, hm.failed_eq hfail]
    rfl
  · rw [hno] at hfail; cases hfail

/-- **A call that fails has no object at any moment of the run.** -/
theorem not_wonAt {r : List (Step T)} {s : Sys T} (hr : Run cfg r s) {c : CallId}
    (hc : c ∈ failedCalls r) : ∀ t ∈ r, ¬ WonAt t.pre c ∧ ¬ WonAt t.post c := by
  have hend : ¬ WonAt s c := by
    unfold WonAt
    rw [failedAt_end hr hc]
    exact Bool.false_ne_true
  intro t ht
  have hpost : ¬ WonAt t.post c := fun h =>
    hend (hr.stable (P := (WonAt · c)) (fun u hu => wonAt_step hu) t ht h)
  exact ⟨fun h => hpost (wonAt_step (hr.isStep t ht) h), hpost⟩

/-! ## The reduced state -/

/-- `u` is the state `s` without the calls `F`. -/
structure Sim (cfg : PoolConfig w) (F : List CallId) (s u : Sys T) : Prop where
  idle : u.idle = s.idle
  gone : ∀ c ∈ F, u.calls.get c = none
  core : ∀ c ∉ F, coreAt u.calls c = coreAt s.calls c
  onTime : ∀ c v, u.calls.get c = some v → v.onTime = true
  cap : Cap cfg u.pool
  exact : Exact u

theorem Sim.init (cfg : PoolConfig w) (F : List CallId) : Sim cfg F (Sys.init : Sys T) Sys.init where
  idle := rfl
  gone := fun _ _ => Ledger.get_empty _ _
  core := fun _ _ => rfl
  onTime := fun c v hv => by rw [Sys.init, Ledger.get_empty] at hv; cases hv
  cap := Cap.init cfg
  exact := by simp [Exact, Sys.init, Sys.checkedOut, Sys.pool, newUnchecked]

/-- **The counters differ by the failing factories in flight.** -/
theorem Sim.checkedOut_eq {F : List CallId} {s u : Sys T} (h : Sim cfg F s u) (hs : Exact s)
    (hlost : ∀ c ∈ F, ¬ WonAt s c) : s.checkedOut = u.checkedOut + failing F s := by
  have hopens : Call.opens ∘ Call.core = (Call.opens : Call T → ℕ) := funext opens_core
  have htotal := Ledger.total_eq_add_totalOn (l := s.calls) (F := (· ∈ F))
    (g := Call.opens) h.gone fun c hc => by
      have hcore := congrArg (Option.map Call.opens) (h.core c hc)
      simpa only [coreAt, Option.map_map, hopens] using hcore
  have hfail : s.calls.totalOn (· ∈ F) Call.opens = failing F s := by
    refine Finset.sum_congr rfl fun c hc => ?_
    obtain ⟨hmem, hF⟩ := Finset.mem_filter.mp hc
    -- a call of `F` never gets an object, so it is open only while its factory runs
    have hnot := hlost c hF
    rw [WonAt, coreAt, Ledger.get_of_mem hmem] at hnot
    generalize s.calls.val c = v at hnot
    cases v <;> first | rfl | exact absurd rfl hnot
  rw [hs, htotal, h.exact, hfail]

/-- A step that changes neither the idle stack nor a call outside `F` is not seen. -/
theorem Sim.skip {F : List CallId} {s s' u : Sys T} (h : Sim cfg F s u) (hidle : s'.idle = s.idle)
    (hcore : ∀ c ∉ F, coreAt s'.calls c = coreAt s.calls c) : Sim cfg F s' u :=
  { h with
    idle := h.idle.trans hidle.symm
    core := fun c hc => (h.core c hc).trans (hcore c hc).symm }

theorem Sim.get_eq {F : List CallId} {s u : Sys T} (h : Sim cfg F s u) {c : CallId} (hc : c ∉ F)
    (hw : ∀ timeout wait, s.calls.get c ≠ some (.waiting timeout wait)) :
    u.calls.get c = s.calls.get c := by
  have hcore := h.core c hc
  unfold coreAt at hcore
  cases hs : s.calls.get c with
  | none => simpa [hs] using hcore
  | some v =>
    rw [hs] at hcore
    obtain ⟨v', hv', heq⟩ := Option.map_eq_some_iff.mp hcore
    rw [hv', core_eq_of_ne_waiting heq fun timeout wait hv => hw timeout wait (hv ▸ hs)]

theorem Sim.get_waiting {F : List CallId} {s u : Sys T} (h : Sim cfg F s u) {c : CallId} (hc : c ∉ F)
    {timeout : Duration} {wait : Wait} (hw : s.calls.get c = some (.waiting timeout wait)) :
    ∃ wait', u.calls.get c = some (.waiting timeout wait') := by
  have hcore := h.core c hc
  rw [coreAt, coreAt, hw] at hcore
  obtain ⟨v', hv', heq⟩ := Option.map_eq_some_iff.mp hcore
  obtain ⟨wait', rfl⟩ := core_eq_waiting heq
  exact ⟨wait', hv'⟩

/-! ## Answering a step -/

/-- A move can be made on the same idle stack with fewer permits out. -/
theorem PoolMove.transport {m : Move T} {g g' h : PoolState T} (hm : PoolMove cfg m g g')
    (hidle : h.idle = g.idle) (hle : h.checkedOut ≤ g.checkedOut) (hr : ∀ _ : m = .refuse, False) :
    ∃ h', PoolMove cfg m h h' ∧ h'.idle = g'.idle := by
  obtain ⟨idle, n⟩ := h
  dsimp only at hidle hle
  subst hidle
  cases hm with
  | take item rest => exact ⟨_, .take item rest n, rfl⟩
  | reserve hn => exact ⟨_, .reserve (Nat.lt_of_le_of_lt hle hn), rfl⟩
  | refuse => exact (hr rfl).elim
  | miss => exact ⟨_, .miss n, rfl⟩
  | release => exact ⟨_, .release _, by simp [releasePermit]⟩
  | skip => exact ⟨_, .skip _, rfl⟩
  | give item =>
    refine ⟨(returnClient cfg ⟨g.idle, n⟩ item).1, ?_, ?_⟩
    · -- whether the object is kept depends on the idle stack alone
      have hdrop : (returnClient cfg g item).2 = (returnClient cfg ⟨g.idle, n⟩ item).2 := by
        unfold returnClient
        simp only [giveBackPermit_idle]
        split <;> rfl
      rw [hdrop]
      exact .give item _
    · unfold returnClient
      simp only [giveBackPermit_idle]
      split <;> simp

/-- A waiter outside `F` can be made to leave the wait set, if it has not left it yet. -/
theorem Sim.wakeUp {F : List CallId} {s u : Sys T} (h : Sim cfg F s u) {c : CallId} (hc : c ∉ F)
    {timeout : Duration} {wait : Wait} (hw : s.calls.get c = some (.waiting timeout wait)) :
    ∃ q u₁ wait₁, Path (step cfg) u q u₁ ∧ (∀ t ∈ q, visible t = false) ∧ Sim cfg F s u₁ ∧
      u₁.calls.get c = some (.waiting timeout wait₁) ∧ wait₁ ≠ .asleep ∧ wait₁.timedOut = false := by
  obtain ⟨wait', hget⟩ := h.get_waiting hc hw
  cases wait' with
  | asleep =>
    -- a spurious wakeup
    have hstep : step cfg u (.wake c false, none) =
        some (.woke, u.setCall c (.waiting timeout (.awake false))) := by
      simp only [step, hget]
    refine ⟨_, _, .awake false, Path.of_step hstep, by simp [visible], ?_, Ledger.get_put_self _ _ _,
      by rintro ⟨⟩, rfl⟩
    have hopens : (u.calls.put c (.waiting timeout (.awake false))).total Call.opens =
        u.calls.total Call.opens := Ledger.total_put_same hget rfl
    refine ⟨h.idle, fun d hd => ?_, fun d hd => ?_, fun d v hv => ?_, h.cap, h.exact.trans hopens.symm⟩
    · rw [calls_setCall, Ledger.get_put_of_ne _ _ (by rintro rfl; exact hc hd)]
      exact h.gone d hd
    · rw [calls_setCall, coreAt_put, ← h.core d hd]
      split
      · next hdc => rw [hdc, coreAt, hget]; rfl
      · rfl
    · rw [calls_setCall, Ledger.get_put] at hv
      split at hv
      · rw [← Option.some.inj hv]; rfl
      · exact h.onTime d v hv
  | notified => exact ⟨[], u, .notified, Path.nil u, by simp, h, hget, by rintro ⟨⟩, rfl⟩
  | awake timedOut =>
    -- no timeout has fired in the reduced run
    have ht := h.onTime c _ hget
    cases timedOut with
    | true => cases ht
    | false => exact ⟨[], u, .awake false, Path.nil u, by simp, h, hget, by rintro ⟨⟩, rfl⟩

/-- A waiter that resumes without failing does so whatever woke it in time. -/
theorem CallMove.retime {timeout : Duration} {wait wait' : Wait}
    (h : CallMove cfg ev o c (some (.waiting timeout wait)) new m) (hev : ∀ d b, ev ≠ .wake d b)
    (ho : o.failed = false) (hne : wait' ≠ .asleep) (ht : wait'.timedOut = false) :
    CallMove cfg ev o c (some (.waiting timeout wait')) new m := by
  cases h with
  | woke => exact absurd rfl (hev _ _)
  | resumeHit _ _ elapsed item => exact .resumeHit c timeout elapsed item hne
  | resumeSlept _ _ _ hleft => exact .resumeSlept c hne ht hleft
  | resumeNone => cases ho

theorem CallMove.not_refuse (h : CallMove cfg ev o c old new m) (ho : o.failed = false) : m ≠ .refuse := by
  cases h with
  | exhausted => cases ho
  | _ => rintro ⟨⟩

theorem CallMove.new_onTime (h : CallMove cfg ev o c old new m) (hev : ∀ d b, ev ≠ .wake d b) : new.onTime = true := by
  cases h with
  | hit _ kind | created _ kind => cases kind <;> rfl
  | woke => exact absurd rfl (hev _ _)
  | _ => rfl

/-- The reduced state can be brought to where the call makes the same move. -/
theorem Sim.ready {F : List CallId} {s u : Sys T} (h : Sim cfg F s u) {ev : Event T} {o : Outcome T}
    {c : CallId} {old : Option (Call T)} {new : Call T} {m : Move T} (hm : CallMove cfg ev o c old new m)
    (hget : s.calls.get c = old) (hc : c ∉ F) (hev : ∀ d b, ev ≠ .wake d b) (ho : o.failed = false) :
    ∃ q u₁ old₁, Path (step cfg) u q u₁ ∧ (∀ t ∈ q, visible t = false) ∧ Sim cfg F s u₁ ∧
      u₁.calls.get c = old₁ ∧ CallMove cfg ev o c old₁ new m := by
  by_cases hw : ∃ timeout wait, old = some (.waiting timeout wait)
  · obtain ⟨timeout, wait, rfl⟩ := hw
    obtain ⟨q, u₁, wait₁, hq, hvis, hsim, hget₁, hne, ht⟩ := h.wakeUp hc hget
    exact ⟨q, u₁, _, hq, hvis, hsim, hget₁, hm.retime hev ho hne ht⟩
  · -- any other call stands where it stands in the full run
    refine ⟨[], u, old, Path.nil u, by simp, h, ?_, hm⟩
    rw [← hget]
    exact h.get_eq hc fun timeout wait hs => hw ⟨timeout, wait, hget ▸ hs⟩

theorem coreAt_eq_none {calls : Ledger CallId (Call T)} {c : CallId} :
    coreAt calls c = none ↔ calls.get c = none := by
  simp [coreAt]

/-- **A kept step is answered** by a step of the same event with the same outcome, after at most one
wakeup. -/
theorem Sim.answer (hv : cfg.maxIdle ≤ cfg.maxPoolSize) {F : List CallId} {s s' u : Sys T} {l : Label T}
    {o : Outcome T} (h : step cfg s l = some (o, s')) (hsim : Sim cfg F s u) (hex : Exact s)
    (hlost : ∀ c ∈ F, ¬ WonAt s c) (hd : ∀ item, l.1 ≠ .returnForeign item)
    (hev : ∀ d b, l.1 ≠ .wake d b) (hF : ∀ c ∈ F, l.1.call ≠ some c) (ho : o.failed = false) :
    ∃ q u₁ pick u', Path (step cfg) u q u₁ ∧ (∀ t ∈ q, visible t = false) ∧ Sim cfg F s u₁ ∧
      step cfg u₁ (l.1, pick) = some (o, u') ∧ Sim cfg F s' u' := by
  cases step_cases h with
  | @call ev o c old new m pick s' hc hget hpool hwakes =>
    have hcF : c ∉ F := fun hmem => hF c hmem hc.event
    obtain ⟨q, u₁, old₁, hq, hvis, hsim₁, hget₁, hc₁⟩ := hsim.ready hc hget hcF hev ho
    have hco := hsim₁.checkedOut_eq hex hlost
    -- the same object from the same stack, with fewer permits out
    obtain ⟨g, hg, hidle⟩ := hpool.transport (h := u₁.pool) hsim₁.idle
      (by unfold Sys.checkedOut at hco; omega) (fun hm => hc.not_refuse ho hm)
    -- who sleeps may differ, so the sleeper to wake is chosen anew
    obtain ⟨pick₁, calls₁, hw₁⟩ := exists_wakes m (u₁.calls.put c new)
    obtain ⟨u', hstep, hp', hl'⟩ := step_of_moves hc₁ hget₁ hg hw₁
    subst hp' hl'
    refine ⟨q, u₁, pick₁, u', hq, hvis, hsim₁, hstep, hidle, fun d hdF => ?_, fun d hdF => ?_, ?_,
      hg.cap hv hsim₁.cap, (exact_step hstep hd hsim₁.cap hsim₁.exact).1⟩
    · have hdc : d ≠ c := by rintro rfl; exact hcF hdF
      rw [← coreAt_eq_none, hw₁.coreAt, coreAt_put, if_neg hdc, coreAt_eq_none]
      exact hsim₁.gone d hdF
    · rw [hw₁.coreAt, hwakes.coreAt, coreAt_put, coreAt_put, hsim₁.core d hdF]
    · refine hw₁.onTime fun d v hget => ?_
      rw [Ledger.get_put] at hget
      split at hget
      · rw [← Option.some.inj hget]; exact hc.new_onTime hev
      · exact hsim₁.onTime d v hget
  | foreign => exact absurd rfl (hd _)
  | poison hpool hcalls =>
    refine ⟨[], u, none, u.poison, Path.nil u, by simp, hsim, rfl, ?_, hsim.gone, fun c hc => ?_, hsim.onTime,
      ?_, ?_⟩
    · unfold Sys.idle
      rw [pool_poison, hpool]
      exact hsim.idle
    · rw [hcalls]; exact hsim.core c hc
    · rw [pool_poison]; exact hsim.cap
    · unfold Exact Sys.checkedOut
      rw [pool_poison]
      exact hsim.exact

/-! ## Runs -/

/-- A step of the full run and the step of the reduced run that it becomes. -/
structure Matches (F : List CallId) (t t' : Step T) : Prop where
  ev : t'.ev.1 = t.ev.1
  out : t'.out = t.out
  idle_pre : t'.pre.idle = t.pre.idle
  idle_post : t'.post.idle = t.post.idle
  count_pre : t.pre.checkedOut = t'.pre.checkedOut + failing F t.pre
  count_post : t.post.checkedOut = t'.post.checkedOut + failing F t.post

/-- A step that is erased, or only wakes a waiter, is not seen. -/
theorem Sim.skip_step {F : List CallId} {s s' u : Sys T} {l : Label T} {o : Outcome T}
    (h : step cfg s l = some (o, s')) (hsim : Sim cfg F s u) (hlost : ∀ c ∈ F, ¬ WonAt s' c)
    (hskip : (∃ d b, l.1 = .wake d b) ∨ ∃ c ∈ F, l.1.call = some c) : Sim cfg F s' u := by
  rcases step_coreAt h with ⟨c, old, new, m, hm, hget, hpool, hcore⟩ | ⟨-, hnone, -⟩
  · rcases hskip with ⟨d, b, hev⟩ | ⟨d, hd, hcall⟩
    · rw [hev] at hm
      have hidle : ∀ hw : new.won = false, s'.idle = s.idle := fun hw => hm.idle_eq hw hpool
      cases hm with
      | woke _ _ timeout =>
        refine hsim.skip (hidle rfl) fun e _ => ?_
        rw [hcore]
        split
        · next he => rw [he, coreAt, hget]; rfl
        · rfl
    · have hdc : d = c := Option.some.inj (hcall.symm.trans hm.event)
      subst hdc
      have hlost' := hlost d hd
      rw [WonAt, hcore, if_pos rfl] at hlost'
      -- an erased call gets no object, so its move leaves the stack alone
      have hnew : new.won = false := by simpa using hlost'
      refine hsim.skip (hm.idle_eq hnew hpool) fun e he => ?_
      rw [hcore, if_neg (by rintro rfl; exact he hd)]
  · rcases hskip with ⟨d, b, hev⟩ | ⟨d, -, hcall⟩
    · rw [hev] at hnone; cases hnone
    · rw [hnone] at hcall; cases hcall

theorem called_step (h : step cfg s l = some (o, s'))
    {c : CallId} (hc : l.1.call = some c ∨ coreAt s.calls c ≠ none) : coreAt s'.calls c ≠ none := by
  rcases step_coreAt h with ⟨d, old, new, m, hm, -, -, hcore⟩ | ⟨-, hnone, hcore⟩
  · rw [hcore]
    split
    · exact Option.some_ne_none _
    · next hcd =>
      refine hc.resolve_left fun hcall => hcd ?_
      exact Option.some.inj (hcall.symm.trans hm.event)
  · rw [hcore]
    exact hc.resolve_left (by rw [hnone]; rintro ⟨⟩)

theorem not_called {r : List (Step T)} {s : Sys T} (hr : Run cfg r s) {c : CallId}
    (hc : s.calls.get c = none) : ∀ t ∈ r, t.ev.1.call ≠ some c := by
  intro t ht hcall
  have hpost := called_step (hr.isStep t ht) (Or.inl hcall)
  exact hr.stable (P := fun s => coreAt s.calls c ≠ none) (fun u hu h => called_step hu (Or.inr h)) t ht hpost
    (coreAt_eq_none.mpr hc)

theorem disciplined_of_matches {F : List CallId} {r r' : List (Step T)} (hd : Disciplined r)
    (h : List.Forall₂ (Matches F) (r.filter (kept F)) (r'.filter visible)) : Disciplined r' := by
  intro t' ht' item hev
  have hvis : t' ∈ r'.filter visible := List.mem_filter.mpr ⟨ht', by simp [visible, hev]⟩
  have hmap := List.forall₂_map_left_iff.mpr (List.forall₂_map_right_iff.mpr (h.imp fun _ _ hm => hm.ev.symm))
  rw [List.forall₂_eq_eq_eq] at hmap
  have hmem : t'.ev.1 ∈ (r.filter (kept F)).map fun t => t.ev.1 := hmap ▸ List.mem_map_of_mem hvis
  obtain ⟨t, ht, hev'⟩ := List.mem_map.mp hmem
  exact hd t (List.mem_filter.mp ht).1 item (hev'.trans hev)

theorem failing_end {r : List (Step T)} {s : Sys T} (hr : Run cfg r s) : failing (failedCalls r) s = 0 := by
  refine Finset.sum_eq_zero fun c hc => ?_
  obtain ⟨hmem, hF⟩ := Finset.mem_filter.mp hc
  have hfail := get_of_coreAt (failedAt_end hr hF) (by rintro _ _ ⟨⟩)
  rw [Ledger.get_of_mem hmem] at hfail
  rw [Option.some.inj hfail]
  rfl

theorem erased_of_failed {r : List (Step T)} {s : Sys T} (hr : Run cfg r s) {t : Step T} (ht : t ∈ r)
    (ho : t.out.failed = true) : ∃ c ∈ failedCalls r, t.ev.1.call = some c := by
  rcases step_coreAt (hr.isStep t ht) with ⟨c, _, _, _, hm, -⟩ | ⟨hno, -⟩
  · exact ⟨c, mem_failedCalls.mpr ⟨t, ht, ho, hm.event⟩, hm.event⟩
  · rw [hno] at ho; cases ho

theorem kept_eq_false {F : List CallId} {t : Step T} :
    kept F t = false ↔ (∃ d b, t.ev.1 = .wake d b) ∨ ∃ c ∈ F, t.ev.1.call = some c := by
  have hvis : visible t = false ↔ ∃ d b, t.ev.1 = .wake d b := by
    unfold visible
    cases t.ev.1 <;> simp
  have her : erased F t = true ↔ ∃ c ∈ F, t.ev.1.call = some c := by
    unfold erased
    cases t.ev.1.call <;> simp
  rw [kept, Bool.and_eq_false_iff, Bool.not_eq_false', hvis, her]

/-- **Failed checkouts are invisible.**  Without the checkouts whose factory failed, that found the pool exhausted
or that waited in vain, a disciplined run is, step for step, the visible part of another one: each remaining
operation takes the same branch with the same object, on the same idle stack.  `checked_out` differs by the
failing factories in flight, and the final pool state is the same. -/
theorem failed_checkouts_invisible (cfg : PoolConfig w) (hv : cfg.validate = .ok ()) {r : List (Step T)}
    {s : Sys T} (hr : Run cfg r s) (hd : Disciplined r) :
    ∃ r' s', Run cfg r' s' ∧ Disciplined r' ∧
      (∀ t ∈ r', ∀ c ∈ failedCalls r, t.ev.1.call ≠ some c) ∧
      List.Forall₂ (Matches (failedCalls r)) (r.filter (kept (failedCalls r))) (r'.filter visible) ∧
      s'.pool = s.pool ∧ ∀ c ∉ failedCalls r, coreAt s'.calls c = coreAt s.calls c := by
  have hv' := (PoolConfig.validate_ok.mp hv).2
  obtain ⟨⟨-, hexs⟩, hmem⟩ := run_exact hv' hr hd
  have hlost := fun t ht c hc => not_wonAt (c := c) hr hc t ht
  have hskip : ∀ t ∈ r, kept (failedCalls r) t = false → ∀ u, Sim cfg (failedCalls r) t.pre u →
      Sim cfg (failedCalls r) t.post u := fun t ht hk u hu =>
    hu.skip_step (hr.isStep t ht) (fun c hc => (hlost t ht c hc).2) (kept_eq_false.mp hk)
  have hkeep : ∀ t ∈ r, kept (failedCalls r) t = true → ∀ u, Sim cfg (failedCalls r) t.pre u →
      ∃ q t', Path (step cfg) u q t'.pre ∧ (∀ v ∈ q, visible v = false) ∧ IsStep (step cfg) t' ∧
        visible t' = true ∧ Matches (failedCalls r) t t' ∧ Sim cfg (failedCalls r) t.post t'.post := by
    intro t ht hk u hu
    have hnot : ¬ ((∃ d b, t.ev.1 = .wake d b) ∨ ∃ c ∈ failedCalls r, t.ev.1.call = some c) := by
      rw [← kept_eq_false, hk]; exact Bool.noConfusion
    rw [not_or] at hnot
    -- a step that fails belongs to a call that is erased
    have ho : t.out.failed = false := by
      by_contra hne
      exact hnot.2 (erased_of_failed hr ht (by simpa using hne))
    obtain ⟨q, u₁, pick, u', hq, hvis, hsim₁, hstep, hsim'⟩ := hu.answer hv' (hr.isStep t ht)
      (hmem t ht).1.2 (fun c hc => (hlost t ht c hc).1) (hd t ht)
      (fun d b h => hnot.1 ⟨d, b, h⟩) (fun c hc h => hnot.2 ⟨c, hc, h⟩) ho
    refine ⟨q, ⟨u₁, (t.ev.1, pick), t.out, u'⟩, hq, hvis, hstep, (Bool.and_eq_true_iff.mp hk).1, ?_, hsim'⟩
    exact ⟨rfl, rfl, hsim₁.idle, hsim'.idle,
      hsim₁.checkedOut_eq (hmem t ht).1.2 fun c hc => (hlost t ht c hc).1,
      hsim'.checkedOut_eq (hmem t ht).2.2 fun c hc => (hlost t ht c hc).2⟩
  obtain ⟨r', s', hr', hsim, hmatch⟩ := hr.erase hskip hkeep (Sim.init cfg (failedCalls r))
  have hcount := hsim.checkedOut_eq hexs fun c hc => by
    rw [WonAt, failedAt_end hr hc]; exact Bool.false_ne_true
  rw [failing_end hr, Nat.add_zero] at hcount
  exact ⟨r', s', hr', disciplined_of_matches hd hmatch,
    fun t ht c hc => not_called hr' (hsim.gone c hc) t ht, hmatch,
    PoolState.ext hsim.idle hcount.symm, hsim.core⟩

theorem failed_checkouts_invisible_sample :
    failedCalls sample.1 = [2, 1] ∧
      ∃ r s, Run sampleConfig r s ∧ List.Forall₂ (Matches [2, 1]) (sample.1.filter (kept [2, 1]))
        (r.filter visible) ∧ s.pool = sample.2.pool := by
  have hfailed : failedCalls sample.1 = [2, 1] := by decide
  obtain ⟨r, s, hr, -, -, hmatch, hpool, -⟩ :=
    failed_checkouts_invisible sampleConfig sampleConfig_valid sample_run.1 sample_run.2
  exact ⟨hfailed, r, s, hr, hfailed ▸ hmatch, hpool⟩

end Transportx.Pool
