import Transportx.Pool.Moves

/-!
# Transportx.Pool.Poison — a poisoned mutex is a working mutex

`lock_state` takes the state out of a `PoisonError`, and the loop of `checkout_idle_timeout` does the
same with the lock that `wait_timeout` gives back, where it also clears the flag.  `clearPoison` is then a
refinement mapping: the run with all poison taken out is a run of the same pool, in which every call
takes the same branch with the same result, in the same states.
-/

namespace Transportx.Pool

open Lts

variable {w : ℕ} {T : Type} {cfg : PoolConfig w} {s s' : Sys T} {l : Label T} {o : Outcome T}

def isPoison (t : Step T) : Bool :=
  match t.ev.1 with
  | .poison => true
  | _ => false

/-- A waiter takes the lock again. -/
def isResume (t : Step T) : Bool :=
  match t.ev.1 with
  | .idleResume _ _ => true
  | _ => false

/-- What is left of a step when poison is taken out. -/
def unpoisoned (t : Step T) : Option (Label T × Outcome T) := if isPoison t then none else some (t.ev, t.out)

/-! ## The flag -/

theorem giveBack_flag {pick : Option CallId} {item : T} (h : s.giveBack cfg pick item = some (o, s')) :
    s'.mutex.poisoned = s.mutex.poisoned := by
  simp only [Sys.giveBack, Option.map_eq_some_iff, Prod.mk.injEq] at h
  obtain ⟨calls, -, -, rfl⟩ := h
  rfl

theorem release_flag {pick : Option CallId} {out : Outcome T} (h : s.release w pick out = some (o, s')) :
    s'.mutex.poisoned = s.mutex.poisoned := by
  simp only [Sys.release, Option.map_eq_some_iff, Prod.mk.injEq] at h
  obtain ⟨calls, -, -, rfl⟩ := h
  rfl

theorem endRound_flag (s : Sys T) (c : CallId) (timeout : Duration) (round : IdleRound T × PoolState T) :
    (s.endRound c timeout round).2.mutex.poisoned = s.mutex.poisoned := by
  obtain ⟨round, g⟩ := round
  cases round <;> rfl

/-- **The flag after a step**: a panic sets it, a waiter that takes the lock clears it, and nothing
else looks at it or touches it. -/
theorem step_flag (h : step cfg s l = some (o, s')) :
    s'.mutex.poisoned =
      match l.1 with
      | .poison => true
      | .idleResume _ _ => false
      | _ => s.mutex.poisoned := by
  obtain ⟨ev, pick⟩ := l
  cases ev with
  | checkout c kind =>
    simp only [step] at h
    split at h
    · cases h
    · -- whichever answer the section gives, it stores the state and leaves the flag
      split at h <;> obtain ⟨-, rfl⟩ := Prod.mk.inj (Option.some.inj h) <;> rfl
  | factory c result =>
    simp only [step] at h
    split at h
    · cases result with
      -- a disarmed guard does not lock; the guard of a failure does, through `lock_state`
      | ok item => obtain ⟨-, rfl⟩ := Prod.mk.inj (Option.some.inj h); rfl
      | err e => exact (release_flag h :)
      | unwind => exact (release_flag h :)
    · cases h
  | returnManual c =>
    simp only [step] at h
    split at h
    · exact (giveBack_flag h :)
    · cases h
  | returnForeign item => exact giveBack_flag h
  | dropLease c =>
    simp only [step] at h
    split at h
    · exact (giveBack_flag h :)
    · obtain ⟨-, rfl⟩ := Prod.mk.inj (Option.some.inj h); rfl
    · cases h
  | intoInner c =>
    simp only [step] at h
    split at h
    · exact (release_flag h :)
    · obtain ⟨-, rfl⟩ := Prod.mk.inj (Option.some.inj h); rfl
    · cases h
  | idleEnter c timeout elapsed =>
    simp only [step] at h
    split at h
    · cases h
    · -- the first round of a waiter takes the lock with `lock_state`, which clears nothing
      have hs' := congrArg Prod.snd (Option.some.inj h)
      dsimp only at hs'
      rw [← hs', endRound_flag]
  | wake c timedOut =>
    simp only [step] at h
    split at h
    · obtain ⟨-, rfl⟩ := Prod.mk.inj (Option.some.inj h); rfl
    · cases h
  | idleResume c elapsed =>
    simp only [step] at h
    split at h
    · cases h
    · -- a later round begins with `clear_poison`
      have hs' := congrArg Prod.snd (Option.some.inj h)
      dsimp only at hs'
      rw [← hs', endRound_flag]
      rfl
    · cases h
  | poison => obtain ⟨-, rfl⟩ := Prod.mk.inj (Option.some.inj h); rfl

/-- After the last panic with the lock held, has any waiter taken it again? -/
theorem flag_iff {r : List (Step T)} (hr : Path (step cfg) s r s') :
    s'.mutex.poisoned = true ↔
      (∃ before t after, r = before ++ t :: after ∧ isPoison t = true ∧ ∀ u ∈ after, isResume u = false) ∨
      (s.mutex.poisoned = true ∧ ∀ u ∈ r, isResume u = false) := by
  induction hr with
  | nil s => simp
  | @cons t r s' ht _ ih =>
    have hflag := step_flag ht
    rw [ih]
    constructor
    · rintro (⟨before, p, after, rfl, hp, hafter⟩ | ⟨hpost, hquiet⟩)
      · exact Or.inl ⟨t :: before, p, after, rfl, hp, hafter⟩
      · -- the first step comes before the rest: is the last panic this step, or was the flag set before?
        cases hpoison : isPoison t with
        | true => exact Or.inl ⟨[], t, r, rfl, hpoison, hquiet⟩
        | false =>
          rw [hpost] at hflag
          unfold isPoison at hpoison
          split at hflag
          · next hev => rw [hev] at hpoison; cases hpoison
          · cases hflag
          · next hne =>
            have hres : isResume t = false := by
              unfold isResume
              split
              · next c elapsed hev => exact absurd hev (hne c elapsed)
              · rfl
            refine Or.inr ⟨hflag.symm, fun u hu => ?_⟩
            rcases List.mem_cons.mp hu with rfl | hu
            · exact hres
            · exact hquiet u hu
    · rintro (⟨before, p, after, heq, hp, hafter⟩ | ⟨hpre, hquiet⟩)
      · -- the last panic is the first step, or is in the rest
        cases before with
        | nil =>
          obtain ⟨rfl, rfl⟩ := List.cons.inj heq
          refine Or.inr ⟨?_, hafter⟩
          unfold isPoison at hp
          split at hp
          · next hev => rw [hflag, hev]
          · cases hp
        | cons q before =>
          obtain ⟨rfl, rfl⟩ := List.cons.inj heq
          exact Or.inl ⟨before, p, after, rfl, hp, hafter⟩
      · refine Or.inr ⟨?_, fun u hu => hquiet u (by simp [hu])⟩
        have hres := hquiet t (by simp)
        unfold isResume at hres
        rw [hflag]
        split
        · rfl
        · next hev => rw [hev] at hres; cases hres
        · exact hpre

/-! ## The mapping -/

theorem sys_ext {s u : Sys T} (hpool : s.pool = u.pool) (hflag : s.mutex.poisoned = u.mutex.poisoned)
    (hcalls : s.calls = u.calls) : s = u := by
  obtain ⟨⟨data, poisoned⟩, calls⟩ := s
  obtain ⟨⟨data', poisoned'⟩, calls'⟩ := u
  simp only [Sys.pool, lockState_eq] at hpool
  dsimp only at hflag hcalls
  rw [hpool, hflag, hcalls]

/-- A step that is no poison can be made with the flag cleared, and to the same end. -/
theorem step_clearPoison (h : step cfg s l = some (o, s')) (hl : l.1 ≠ .poison) :
    step cfg s.clearPoison l = some (o, s'.clearPoison) := by
  have hsame : ∃ u, step cfg s.clearPoison l = some (o, u) ∧ u.pool = s'.pool ∧ u.calls = s'.calls := by
    -- neither the sections nor the notification look at the flag
    cases step_cases h with
    | call hc hget hpool hwakes => exact step_of_moves hc hget (by simpa using hpool) hwakes
    | foreign hpool hwakes => exact giveBack_of_wakes (s := s.clearPoison) (by simpa using hpool) hwakes
    | poison => exact absurd rfl hl
  obtain ⟨u, hu, hpool, hcalls⟩ := hsame
  have hclear : u.mutex.poisoned = false := by
    have hflag := step_flag hu
    split at hflag
    · next hev => exact absurd hev hl
    · exact hflag
    · exact hflag
  rw [hu, sys_ext (u := s'.clearPoison) (by rw [hpool, pool_clearPoison]) hclear hcalls]

theorem maps_clearPoison {t : Step T} (ht : IsStep (step cfg) t) :
    Maps (step cfg) Sys.clearPoison unpoisoned t := by
  cases hp : isPoison t with
  | true =>
    refine .of_none (by simp [unpoisoned, hp]) ?_
    unfold isPoison at hp
    split at hp
    · next hev =>
      unfold IsStep at ht
      obtain ⟨pre, ⟨ev, pick⟩, out, post⟩ := t
      dsimp only at hev ht ⊢
      subst hev
      obtain ⟨-, rfl⟩ := Prod.mk.inj (Option.some.inj ht)
      rfl
    · cases hp
  | false =>
    refine .of_some (by simp [unpoisoned, hp]) (step_clearPoison ht fun hev => ?_)
    unfold isPoison at hp
    rw [hev] at hp
    cases hp

/-- `u` does what `t` does, on a mutex that is not poisoned. -/
structure SameStep (t u : Step T) : Prop where
  ev : u.ev = t.ev
  out : u.out = t.out
  pre : u.pre = t.pre.clearPoison
  post : u.post = t.post.clearPoison

/-- **Poison is invisible.**  Take the panics with the lock held out of any run of a pool: what is left is
a run of the same pool on a mutex that is never poisoned, step for step with the same events, the same
outcomes, and the same pool and calls before and after.  The flag itself is set exactly if no waiter has
taken the lock since the last panic. -/
theorem poison_invisible (cfg : PoolConfig w) {r : List (Step T)} {s : Sys T} (hr : Run cfg r s) :
    (∃ r', Run cfg r' s.clearPoison ∧ List.Forall₂ SameStep (r.filter fun t => !isPoison t) r' ∧
      ∀ u ∈ r', isPoison u = false ∧ u.pre.mutex.poisoned = false ∧ u.post.mutex.poisoned = false) ∧
    (s.mutex.poisoned = true ↔ ∃ before t after, r = before ++ t :: after ∧ isPoison t = true ∧
      ∀ u ∈ after, isResume u = false) := by
  constructor
  · refine ⟨_, hr.map fun t ht => maps_clearPoison (hr.isStep t ht), forall₂_image ?_ ?_, fun u hu => ?_⟩
    · exact fun t _ hp => by simpa [unpoisoned] using hp
    · exact fun t _ hp => ⟨(t.ev, t.out), by simpa [unpoisoned] using hp, rfl, rfl, rfl, rfl⟩
    obtain ⟨t, -, himage⟩ := List.mem_filterMap.mp hu
    cases hp : isPoison t with
    | true => simp [image, unpoisoned, hp] at himage
    | false =>
      simp only [image, unpoisoned, hp, Bool.false_eq_true, if_false, Option.map_some, Option.some.injEq] at himage
      subst himage
      exact ⟨hp, rfl, rfl⟩
  · rw [flag_iff hr]
    exact or_iff_left fun h => by cases h.1

/-- The panic comes between two returns, and the waiter clears the flag. -/
def poisonLabels : List (Label ℕ) :=
  [(.checkout 0 .lease, none), (.factory 0 (.ok 10), none), (.poison, none), (.idleEnter 1 5 0, none),
    (.dropLease 0, some 1), (.idleResume 1 2, none), (.poison, none)]

theorem poison_enabled : (Lts.replay (step sampleConfig) Sys.init poisonLabels).isSome = true := by
  decide +kernel

theorem poison_invisible_sample : ∃ (r : List (Step ℕ)) (s : Sys ℕ), Run sampleConfig r s ∧
    s.mutex.poisoned = true ∧ ∃ r', Run sampleConfig r' s.clearPoison ∧ r'.length = 5 := by
  obtain ⟨hrun, -⟩ := Lts.replay_path (Option.some_get poison_enabled).symm
  obtain ⟨r', hr', hsame, -⟩ := (poison_invisible sampleConfig hrun).1
  exact ⟨_, _, hrun, by decide +kernel, r', hr', hsame.length_eq.symm.trans (by decide +kernel)⟩

end Transportx.Pool
