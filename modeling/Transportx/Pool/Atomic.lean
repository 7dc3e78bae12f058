import Transportx.Pool.Erasure
import Transportx.Pool.Poison

/-!
# Transportx.Pool.Atomic — a checkout that succeeds is atomic

`checkout_with` reserves a permit in one critical section and runs its factory after that, outside the
lock, while other calls come and go.  `atomicStep` is the pool of the specification, where a factory that
succeeds runs under the lock: reserving the permit and creating the object are one event, `create`.

`Sys.settle` maps each state of the code to one of the specification.  It gives a call in flight its
object at once, if its factory is going to succeed; the later step of the factory is then a stutter.
That a factory has one result (`factoryResults_length`) makes what is foretold come true.
-/

namespace Transportx.Pool

open Lts

variable {w : ℕ} {T : Type} {cfg : PoolConfig w} {s s' : Sys T} {l : Label T} {o : Outcome T}
  {ev : Event T} {c : CallId} {old : Option (Call T)} {new : Call T} {m : Move T}

/-! ## The specification -/

/-- The events of a pool in which a checkout that creates its object is one critical section. -/
inductive AtomicEvent (T : Type)
  | create (c : CallId) (kind : Kind) (item : T)
  | other (ev : Event T)

def atomicStep (cfg : PoolConfig w) (s : Sys T) :
    AtomicEvent T × Option CallId → Option (Outcome T × Sys T)
  | (.create c kind item, _) =>
    match s.calls.get c with
    | some _ => none
    | none =>
      match checkoutWith cfg s.pool with
      | (.reserved, g) => some (.created item, (s.unlock g).setCall c (handOut kind item))
      | _ => none
  | (.other (.factory _ (.ok _)), _) => none
  | (.other ev, pick) => step cfg s (ev, pick)

abbrev AtomicTransition (T : Type) := Transition (Sys T) (AtomicEvent T × Option CallId) (Outcome T)

theorem atomicStep_other (h : step cfg s (ev, l.2) = some (o, s')) (hev : ∀ c item, ev ≠ .factory c (.ok item)) :
    atomicStep cfg s (.other ev, l.2) = some (o, s') := by
  rw [← h]
  unfold atomicStep
  split
  · next heq => cases congrArg Prod.fst heq
  · next c item _ heq => exact absurd (AtomicEvent.other.inj (congrArg Prod.fst heq)) (hev c item)
  · next heq =>
    obtain ⟨hev', rfl⟩ := Prod.mk.inj heq
    rw [AtomicEvent.other.inj hev']

/-! ## A factory has one result -/

/-- The result with which this event ends the factory of `c`. -/
def factoryResult (c : CallId) (t : Step T) : Option (FactoryResult T) :=
  match t.ev.1 with
  | .factory d result => if d = c then some result else none
  | _ => none

def factoryResults (c : CallId) (r : List (Step T)) : List (FactoryResult T) := r.filterMap (factoryResult c)

/-- The call has been made and is not in flight. -/
def Past (s : Sys T) (c : CallId) : Prop := ∃ v, coreAt s.calls c = some v ∧ v.inFlights = 0

@[simp] theorem inFlights_core (v : Call T) : v.core.inFlights = v.inFlights := by
  cases v <;> rfl

theorem CallMove.past (h : CallMove cfg ev o c old new m) {v : Call T} (hold : old = some v)
    (hv : v.inFlights = 0) : new.inFlights = 0 := by
  cases h with
  | created _ kind | erred _ kind | unwound _ kind =>
    cases hold
    cases hv
  | reserved => cases hold
  | hit _ kind => cases kind <;> rfl
  | _ => rfl

theorem past_step (h : step cfg s l = some (o, s')) (hc : Past s c) : Past s' c := by
  obtain ⟨v, hget, hv⟩ := hc
  rcases step_coreAt h with ⟨d, old, new, m, hm, hold, -, hcore⟩ | ⟨-, -, hcore⟩
  · unfold Past
    rw [hcore]
    split
    · next hcd =>
      subst hcd
      obtain ⟨u, hu, rfl⟩ := Option.map_eq_some_iff.mp hget
      exact ⟨_, rfl, by rw [inFlights_core] at hv ⊢; exact hm.past (hold.symm.trans hu) hv⟩
    · exact ⟨v, hget, hv⟩
  · exact ⟨v, by rw [hcore]; exact hget, hv⟩

/-- The step of a factory finds its call in flight and leaves it past that. -/
theorem factory_past {result : FactoryResult T} (h : step cfg s l = some (o, s'))
    (hev : l.1 = .factory c result) : ¬ Past s c ∧ Past s' c := by
  rcases step_coreAt h with ⟨d, old, new, m, hm, hold, -, hcore⟩ | ⟨-, hnone, -⟩
  · obtain rfl : d = c := by
      have hcall := hm.event
      rw [hev] at hcall
      exact (Option.some.inj hcall).symm
    have hpre : ∃ kind, old = some (.inFlight kind) ∧ new.inFlights = 0 := by
      rw [hev] at hm
      cases hm with
      | created _ kind => exact ⟨kind, rfl, by cases kind <;> rfl⟩
      | erred _ kind | unwound _ kind => exact ⟨kind, rfl, rfl⟩
    -- before the step the call is in flight, so it is not past
    obtain ⟨kind, rfl, hnew⟩ := hpre
    constructor
    · rintro ⟨v, hv, h0⟩
      rw [coreAt, hold] at hv
      cases hv
      cases h0
    · exact ⟨new.core, by rw [hcore, if_pos rfl], by rw [inFlights_core]; exact hnew⟩
  · rw [hev] at hnone
    cases hnone

theorem factoryResult_some {t : Step T} {result : FactoryResult T} :
    factoryResult c t = some result ↔ t.ev.1 = .factory c result := by
  unfold factoryResult
  split
  · next d res hev =>
    rw [hev]
    split
    · next hdc => subst hdc; simp
    · next hdc => simp [hdc]
  · next hne => exact ⟨fun h => (by cases h), fun h => absurd h (hne c result)⟩

/-- **A factory has at most one result**, and none once its call is past that. -/
theorem factoryResults_length {r : List (Step T)} (hr : Path (step cfg) s r s') :
    (factoryResults c r).length ≤ 1 ∧ (Past s c → factoryResults c r = []) := by
  induction hr with
  | nil s => exact ⟨Nat.zero_le _, fun _ => rfl⟩
  | @cons t r s' ht _ ih =>
    unfold factoryResults at ih ⊢
    cases hres : factoryResult c t with
    | none =>
      rw [List.filterMap_cons_none hres]
      exact ⟨ih.1, fun hpast => ih.2 (past_step ht hpast)⟩
    | some result =>
      obtain ⟨hpre, hpost⟩ := factory_past ht (factoryResult_some.mp hres)
      rw [List.filterMap_cons_some hres, ih.2 hpost]
      exact ⟨le_rfl, fun hpast => absurd hpast hpre⟩

theorem factoryResults_of_mem {r : List (Step T)} (hr : Path (step cfg) s r s') {t : Step T} (ht : t ∈ r)
    {result : FactoryResult T} (hev : t.ev.1 = .factory c result) : factoryResults c r = [result] := by
  have hmem : result ∈ factoryResults c r :=
    List.mem_filterMap.mpr ⟨t, ht, factoryResult_some.mpr hev⟩
  obtain ⟨res, hres⟩ := List.length_eq_one_iff.mp
    (le_antisymm (factoryResults_length hr).1 (List.length_pos_of_mem hmem))
  rw [hres] at hmem ⊢
  rw [List.mem_singleton.mp hmem]

/-- What the factory of `c` creates in the run. -/
def fate (r : List (Step T)) (c : CallId) : Option T :=
  match factoryResults c r with
  | [.ok item] => some item
  | _ => none

theorem fate_some {r : List (Step T)} {item : T} (h : fate r c = some item) :
    ∃ t ∈ r, t.ev.1 = .factory c (.ok item) := by
  unfold fate at h
  split at h
  · next x hres =>
    obtain rfl := Option.some.inj h
    have hmem : FactoryResult.ok x ∈ factoryResults c r := by rw [hres]; exact List.mem_singleton_self _
    obtain ⟨t, ht, hev⟩ := List.mem_filterMap.mp hmem
    exact ⟨t, ht, factoryResult_some.mp hev⟩
  · cases h

/-! ## The mapping -/

/-- A call in flight has its object already, if its factory is going to succeed. -/
def Call.settle (fate : Option T) : Call T → Call T
  | .inFlight kind =>
    match fate with
    | some item => handOut kind item
    | none => .inFlight kind
  | v => v

def Sys.settle (fate : CallId → Option T) (s : Sys T) : Sys T :=
  { s with calls := s.calls.alter fun c => Call.settle (fate c) }

@[simp] theorem pool_settle (fate : CallId → Option T) (s : Sys T) : (s.settle fate).pool = s.pool := rfl

@[simp] theorem settle_none (v : Call T) : v.settle none = v := by
  cases v <;> rfl

theorem settle_of_past {v : Call T} (h : v.inFlights = 0) (fate : Option T) : v.settle fate = v := by
  cases v with
  | inFlight => cases h
  | _ => rfl

theorem asleep_settle (fate : Option T) (v : Call T) : (v.settle fate).asleep = v.asleep := by
  cases v with
  | inFlight kind => cases fate <;> cases kind <;> rfl
  | _ => rfl

theorem notifyOne_settle {fate : CallId → Option T} {pick : Option CallId} {calls calls' : Ledger CallId (Call T)}
    (h : notifyOne pick calls = some calls') :
    notifyOne pick (calls.alter fun c => Call.settle (fate c)) =
      some (calls'.alter fun c => Call.settle (fate c)) := by
  cases pick with
  | none =>
    simp only [notifyOne] at h ⊢
    rw [Ledger.total_alter fun c v => asleep_settle (fate c) v]
    split at h
    · next h0 => rw [if_pos h0, Option.some.inj h]
    · cases h
  | some c =>
    simp only [notifyOne] at h ⊢
    split at h
    · next timeout hget =>
      rw [← Option.some.inj h, Ledger.get_alter, hget, Ledger.alter_put]
      rfl
    · cases h

theorem Wakes.settle (fate : CallId → Option T) {pick : Option CallId} {calls calls' : Ledger CallId (Call T)}
    (h : Wakes m pick calls calls') :
    Wakes m pick (calls.alter fun c => Call.settle (fate c)) (calls'.alter fun c => Call.settle (fate c)) := by
  unfold Wakes at h ⊢
  split
  · next hm => rw [if_pos hm] at h; exact notifyOne_settle h
  · next hm => rw [if_neg hm] at h; rw [h]

/-- What the specification sees of a step. -/
def atomicView (fate : CallId → Option T) (t : Step T) :
    Option ((AtomicEvent T × Option CallId) × Outcome T) :=
  match t.ev.1, t.out with
  | .factory _ (.ok _), _ => none
  | .checkout c kind, .reserved =>
    match fate c with
    | some item => some ((.create c kind item, t.ev.2), .created item)
    | none => some ((.other t.ev.1, t.ev.2), t.out)
  | _, _ => some ((.other t.ev.1, t.ev.2), t.out)

/-- A step after which the state of the specification is the image can be made there. -/
theorem settle_step {fate : CallId → Option T} (h : step cfg s l = some (o, s'))
    (hstep : ∃ u, step cfg (s.settle fate) l = some (o, u) ∧ u.pool = s'.pool ∧
      u.calls = (s'.settle fate).calls) : step cfg (s.settle fate) l = some (o, s'.settle fate) := by
  obtain ⟨u, hu, hpool, hcalls⟩ := hstep
  have hflag : u.mutex.poisoned = s'.mutex.poisoned := by
    rw [step_flag hu, step_flag h]
    rfl
  rw [hu, sys_ext (u := s'.settle fate) hpool hflag hcalls]

/-- The factory that was foretold to succeed does: its call has had the object all along. -/
theorem settle_created {fate : CallId → Option T} {pick : Option CallId} {kind : Kind} {item : T}
    (h : step cfg s (.factory c (.ok item), pick) = some (o, s')) (hget : s.calls.get c = some (.inFlight kind))
    (hcalls : s'.calls = s.calls.put c (handOut kind item)) (hpool : s'.pool = s.pool)
    (hfate : fate c = some item) : s'.settle fate = s.settle fate := by
  refine sys_ext hpool (step_flag h) ?_
  have hsame : (Call.inFlight kind).settle (fate c) = handOut kind item := by rw [hfate]; rfl
  have hput : (handOut kind item).settle (fate c) = handOut kind item :=
    settle_of_past (by cases kind <;> rfl) _
  simp only [Sys.settle]
  rw [hcalls, Ledger.alter_put, hput]
  exact Ledger.put_eq_self (by rw [Ledger.get_alter, hget, Option.map_some, hsame])

/-- The reservation, with the creation that was foretold. -/
theorem settle_reserved {fate : CallId → Option T} {pick : Option CallId} {kind : Kind} {item : T}
    (h : step cfg s (.checkout c kind, pick) = some (.reserved, s')) (hget : s.calls.get c = none)
    (hcalls : s'.calls = s.calls.put c (.inFlight kind)) (hpool : PoolMove cfg .reserve s.pool s'.pool)
    (hfate : fate c = some item) :
    atomicStep cfg (s.settle fate) (.create c kind item, pick) = some (.created item, s'.settle fate) := by
  have hnone : (s.settle fate).calls.get c = none := by
    simp only [Sys.settle, Ledger.get_alter, hget, Option.map_none]
  simp only [atomicStep, hnone, pool_settle, checkoutWith_of_reserve hpool, Option.some.injEq, Prod.mk.injEq,
    true_and]
  refine sys_ext (by simp) (step_flag h).symm ?_
  have hsettled : (Call.inFlight kind).settle (fate c) = handOut kind item := by rw [hfate]; rfl
  simp only [Sys.settle, calls_setCall, calls_unlock]
  rw [hcalls, Ledger.alter_put, hsettled]

theorem maps_settle {fate : CallId → Option T} {t : Step T} (ht : IsStep (step cfg) t)
    (hok : ∀ c item, t.ev.1 = .factory c (.ok item) → fate c = some item)
    (hfail : ∀ c result, t.ev.1 = .factory c result → (∀ item, result ≠ .ok item) → fate c = none) :
    Maps (atomicStep cfg) (Sys.settle fate) (atomicView fate) t := by
  obtain ⟨pre, ⟨ev, pick⟩, out, post⟩ := t
  dsimp only at hok hfail
  cases step_cases ht with
  | @call ev o c old new m pick s' hc hget hpool hwakes =>
    -- a call that the mapping leaves alone makes the same step in the specification
    have plain : atomicView fate ⟨pre, (ev, pick), out, post⟩ = some ((.other ev, pick), out) →
        (∀ d item, ev ≠ .factory d (.ok item)) → old.map (Call.settle (fate c)) = old →
        new.settle (fate c) = new →
        Maps (atomicStep cfg) (Sys.settle fate) (atomicView fate) ⟨pre, (ev, pick), out, post⟩ := by
      intro hview hev hold hnew
      refine .of_some hview (atomicStep_other (l := (ev, pick)) (settle_step ht ?_) hev)
      have hget' : (pre.settle fate).calls.get c = old := by
        simp only [Sys.settle, Ledger.get_alter, hget, hold]
      have hwakes' := hwakes.settle fate
      rw [Ledger.alter_put, hnew] at hwakes'
      exact step_of_moves hc hget' hpool hwakes'
    cases hc with
    | created _ kind item =>
      exact .of_none rfl (settle_created ht hget (hwakes.calls_eq rfl) hpool.eq_of_skip (hok c item rfl))
    | reserved _ kind =>
      cases hfate : fate c with
      | none => exact plain (by simp [atomicView, hfate]) (by rintro _ _ ⟨⟩) rfl (by rw [hfate, settle_none])
      | some item =>
        exact .of_some (by simp only [atomicView, hfate])
          (settle_reserved ht hget (hwakes.calls_eq rfl) hpool hfate)
    | erred _ kind e =>
      -- a factory that fails was not foretold anything
      have hfate := hfail c _ rfl (by rintro _ ⟨⟩)
      exact plain rfl (by rintro _ _ ⟨⟩) (by rw [hfate]; rfl) rfl
    | unwound _ kind =>
      have hfate := hfail c _ rfl (by rintro _ ⟨⟩)
      exact plain rfl (by rintro _ _ ⟨⟩) (by rw [hfate]; rfl) rfl
    | hit _ kind item => exact plain rfl (by rintro _ _ ⟨⟩) rfl (by cases kind <;> rfl)
    | _ => exact plain rfl (by rintro _ _ ⟨⟩) rfl rfl
  | foreign hpool hwakes =>
    refine .of_some rfl (atomicStep_other (l := (_, pick)) (settle_step ht ?_) (by rintro _ _ ⟨⟩))
    exact giveBack_of_wakes (s := pre.settle fate) hpool (hwakes.settle fate)
  | poison hpool hcalls =>
    refine .of_some rfl (atomicStep_other (l := (_, pick)) (settle_step ht ?_) (by rintro _ _ ⟨⟩))
    exact ⟨_, rfl, by rw [pool_poison, pool_settle, hpool], by simp only [Sys.settle]; rw [hcalls]; rfl⟩

/-! ## Runs -/

def isCreated (t : Step T) : Bool :=
  match t.ev.1 with
  | .factory _ (.ok _) => true
  | _ => false

/-- `u` is `t` in the specification: the same event with the same outcome, or the reservation of a checkout
together with the creation that comes later in `r`. -/
structure AsAtomic (r : List (Step T)) (t : Step T) (u : AtomicTransition T) : Prop where
  pre : u.pre.pool = t.pre.pool
  post : u.post.pool = t.post.pool
  pick : u.ev.2 = t.ev.2
  does : (u.ev.1 = .other t.ev.1 ∧ u.out = t.out ∧
      ∀ c kind, t.ev.1 = .checkout c kind → t.out = .reserved → fate r c = none) ∨
    ∃ c kind item, t.ev.1 = .checkout c kind ∧ t.out = .reserved ∧ u.ev.1 = .create c kind item ∧
      u.out = .created item ∧ ∃ t' ∈ r, t'.ev.1 = .factory c (.ok item)

theorem atomicView_of_created {fate : CallId → Option T} {t : Step T} (h : isCreated t = true) :
    atomicView fate t = none := by
  unfold isCreated at h
  split at h
  · next hev => simp only [atomicView, hev]
  · cases h

theorem exists_atomicView {r : List (Step T)} {t : Step T} (h : isCreated t = false) :
    ∃ seen, atomicView (fate r) t = some seen ∧
      AsAtomic r t ⟨t.pre.settle (fate r), seen.1, seen.2, t.post.settle (fate r)⟩ := by
  unfold atomicView
  split
  · next hev => simp [isCreated, hev] at h
  · next c kind hev hout =>
    cases hfate : fate r c with
    | none =>
      refine ⟨_, rfl, rfl, rfl, rfl, Or.inl ⟨rfl, rfl, fun d kind' hd _ => ?_⟩⟩
      obtain ⟨rfl, -⟩ := Event.checkout.inj (hev.symm.trans hd)
      exact hfate
    | some item => exact ⟨_, rfl, rfl, rfl, rfl, Or.inr ⟨c, kind, item, hev, hout, rfl, rfl, fate_some hfate⟩⟩
  · next hne =>
    exact ⟨_, rfl, rfl, rfl, rfl, Or.inl ⟨rfl, rfl, fun c kind hev hout => absurd hout (hne c kind hev)⟩⟩

theorem fate_of_ok {r : List (Step T)} (hr : Path (step cfg) s r s') {t : Step T} (ht : t ∈ r) {item : T}
    (hev : t.ev.1 = .factory c (.ok item)) : fate r c = some item := by
  rw [fate, factoryResults_of_mem hr ht hev]

theorem fate_of_failure {r : List (Step T)} (hr : Path (step cfg) s r s') {t : Step T} (ht : t ∈ r)
    {result : FactoryResult T} (hev : t.ev.1 = .factory c result) (hres : ∀ item, result ≠ .ok item) :
    fate r c = none := by
  rw [fate, factoryResults_of_mem hr ht hev]
  cases result with
  | ok item => exact absurd rfl (hres item)
  | _ => rfl

/-- At the end of the run nothing is left to foretell. -/
theorem settle_end {r : List (Step T)} (hr : Path (step cfg) s r s') : s'.settle (fate r) = s' := by
  refine sys_ext rfl rfl (Ledger.alter_eq_self fun c v hget => ?_)
  cases hfate : fate r c with
  | none => exact settle_none v
  | some item =>
    -- what was foretold has happened by then
    obtain ⟨t, ht, hev⟩ := fate_some hfate
    have hpast := hr.stable (P := (Past · c)) (fun u hu => past_step hu) t ht
      (factory_past (hr.isStep t ht) hev).2
    obtain ⟨u, hu, h0⟩ := hpast
    rw [coreAt, hget] at hu
    obtain rfl := Option.some.inj hu
    exact settle_of_past (by rwa [inFlights_core] at h0) _

/-- **A checkout that succeeds is atomic.**  For every run of a pool there is a run of the specification, in
which a factory that succeeds runs under the lock together with the reservation of its permit.  It leads to
the same state, and has the steps of the run without those of the factories that succeed: one for one, in
the same order, with the same outcomes, on the same idle stack and counter before and after. -/
theorem checkout_is_atomic (cfg : PoolConfig w) {r : List (Step T)} {s : Sys T} (hr : Run cfg r s) :
    ∃ r', Path (atomicStep cfg) Sys.init r' s ∧
      List.Forall₂ (AsAtomic r) (r.filter fun t => !isCreated t) r' := by
  have hmap : Path (atomicStep cfg) ((Sys.init : Sys T).settle (fate r)) _ (s.settle (fate r)) :=
    hr.map fun t ht => maps_settle (hr.isStep t ht) (fun c item hev => fate_of_ok hr ht hev)
      fun c result hev hres => fate_of_failure hr ht hev hres
  have hinit : (Sys.init : Sys T).settle (fate r) = Sys.init :=
    sys_ext rfl rfl (Ledger.alter_eq_self fun c v hget => by simp [Sys.init] at hget)
  rw [hinit, settle_end hr] at hmap
  refine ⟨_, hmap, forall₂_image ?_ ?_⟩
  · exact fun t _ hk => atomicView_of_created (by simpa using hk)
  · exact fun t _ hk => exists_atomicView (by simpa using hk)

/-- The third checkout is refused between a reservation and its creation, in both runs. -/
theorem checkout_is_atomic_sample :
    ∃ r', Path (atomicStep sampleConfig) Sys.init r' sample.2 ∧
      List.Forall₂ (AsAtomic sample.1) (sample.1.filter fun t => !isCreated t) r' :=
  checkout_is_atomic sampleConfig sample_run.1

end Transportx.Pool
