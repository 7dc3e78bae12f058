import Mathlib.Algebra.BigOperators.Group.List.Basic
import Mathlib.Data.List.Forall2

/-!
# Transportx.Lib.Path — recorded runs of a labelled transition function

General support, independent of any particular system.  `step : σ → ε → Option (ο × σ)` takes a
state and a label to an outcome and the next state, and is `none` where the label is not enabled.

* `Path step s r s'`: the transitions `r` lead from `s` to `s'`.
* `replay`: the run with given labels.
* `Path.invariant`: what every step keeps holds at both ends of every transition.
* `Path.stable`: what every step keeps, once true, is true at the end.
* `Path.exists_switch`: what becomes true becomes true in some step.
* `Path.telescope`: a quantity that changes by inflow and outflow of each step.
* `Path.last_write`: a cell holds what was written last.
* `peak`: the high-water mark of a quantity along a run.
* `Path.erase`: a run stays a run when the transitions that a simulation does not see are removed.
* `Path.map`: a refinement mapping, which may stutter, takes runs of one system to runs of another.
* `Path.lift`, `Path.along`: runs go up and down along an abstraction function that commutes with the steps.
* `Path.length_add_le`, `exists_path_rest`: a run of steps that lower a measure is no longer than the
  measure, and comes to rest.
-/

namespace Lts

variable {σ ε ο : Type*}

structure Transition (σ ε ο : Type*) where
  pre : σ
  ev : ε
  out : ο
  post : σ

def IsStep (step : σ → ε → Option (ο × σ)) (t : Transition σ ε ο) : Prop :=
  step t.pre t.ev = some (t.out, t.post)

/-- The transitions `r`, in order, lead from the first state to the last. -/
inductive Path (step : σ → ε → Option (ο × σ)) : σ → List (Transition σ ε ο) → σ → Prop
  | nil (s : σ) : Path step s [] s
  | cons {t : Transition σ ε ο} {r : List (Transition σ ε ο)} {s' : σ} :
      IsStep step t → Path step t.post r s' → Path step t.pre (t :: r) s'

variable {step : σ → ε → Option (ο × σ)}

theorem Path.of_step {s s' : σ} {e : ε} {o : ο} (h : step s e = some (o, s')) :
    Path step s [⟨s, e, o, s'⟩] s' :=
  Path.cons (t := ⟨s, e, o, s'⟩) h (Path.nil s')

theorem Path.append {s s' s'' : σ} {r r' : List (Transition σ ε ο)} (h : Path step s r s')
    (h' : Path step s' r' s'') : Path step s (r ++ r') s'' := by
  induction h with
  | nil => exact h'
  | cons ht _ ih => exact Path.cons ht (ih h')

theorem Path.split {s s' : σ} {r r' : List (Transition σ ε ο)} (h : Path step s (r ++ r') s') :
    ∃ m, Path step s r m ∧ Path step m r' s' := by
  induction r generalizing s with
  | nil => exact ⟨s, Path.nil s, h⟩
  | cons t r ih =>
    cases h with
    | cons ht h =>
      obtain ⟨m, hm, hm'⟩ := ih h
      exact ⟨m, Path.cons ht hm, hm'⟩

theorem Path.isStep {s s' : σ} {r : List (Transition σ ε ο)} (h : Path step s r s') :
    ∀ t ∈ r, IsStep step t := by
  induction h with
  | nil => simp
  | cons ht _ ih =>
    intro u hu
    rcases List.mem_cons.mp hu with rfl | hu
    · exact ht
    · exact ih u hu

/-- Perform the labels one after the other, as long as they are enabled. -/
def replay (step : σ → ε → Option (ο × σ)) (s : σ) : List ε → Option (List (Transition σ ε ο) × σ)
  | [] => some ([], s)
  | e :: es =>
    match step s e with
    | none => none
    | some (o, s') => (replay step s' es).map fun (r, u) => (⟨s, e, o, s'⟩ :: r, u)

theorem replay_path : ∀ {es : List ε} {s s' : σ} {r : List (Transition σ ε ο)},
    replay step s es = some (r, s') → Path step s r s' ∧ r.map Transition.ev = es
  | [], s, s', r, h => by
    obtain ⟨rfl, rfl⟩ := Prod.mk.inj (Option.some.inj h)
    exact ⟨Path.nil s, rfl⟩
  | e :: es, s, s', r, h => by
    simp only [replay] at h
    split at h
    · cases h
    · next o s₁ hstep =>
      obtain ⟨⟨r', u⟩, hr', heq⟩ := Option.map_eq_some_iff.mp h
      obtain ⟨rfl, rfl⟩ := Prod.mk.inj heq
      obtain ⟨hp, hev⟩ := replay_path hr'
      exact ⟨Path.cons (t := ⟨s, e, o, s₁⟩) hstep hp, by rw [List.map_cons, hev]⟩

/-! ## Invariants -/

/-- **The invariant rule.**  What holds at the start and is kept by every step that satisfies `K`
holds at the end of a run of such steps, and at both ends of each of them. -/
theorem Path.invariant {P : σ → Prop} {K : Transition σ ε ο → Prop}
    (hstep : ∀ t, IsStep step t → K t → P t.pre → P t.post) {s s' : σ}
    {r : List (Transition σ ε ο)} (h : Path step s r s') (hK : ∀ t ∈ r, K t) (hs : P s) :
    P s' ∧ ∀ t ∈ r, P t.pre ∧ P t.post := by
  induction h with
  | nil => exact ⟨hs, by simp⟩
  | @cons t r s' ht _ ih =>
    have hpost : P t.post := hstep t ht (hK t (by simp)) hs
    obtain ⟨hend, hmem⟩ := ih (fun u hu => hK u (by simp [hu])) hpost
    refine ⟨hend, fun u hu => ?_⟩
    rcases List.mem_cons.mp hu with rfl | hu
    · exact ⟨hs, hpost⟩
    · exact hmem u hu

/-- A property that every step keeps is still true at the end of a run. -/
theorem Path.keeps {P : σ → Prop} (hstep : ∀ t, IsStep step t → P t.pre → P t.post) {s s' : σ}
    {r : List (Transition σ ε ο)} (h : Path step s r s') (hs : P s) : P s' :=
  (h.invariant (K := fun _ => True) (fun t ht _ => hstep t ht) (fun _ _ => trivial) hs).1

/-- A property that every step keeps is true at the end once it was true after some step. -/
theorem Path.stable {P : σ → Prop} (hstep : ∀ t, IsStep step t → P t.pre → P t.post) {s s' : σ}
    {r : List (Transition σ ε ο)} (h : Path step s r s') :
    ∀ t ∈ r, P t.post → P s' := by
  induction h with
  | nil => simp
  | cons _ hr ih =>
    intro u hu hP
    rcases List.mem_cons.mp hu with rfl | hu
    · exact hr.keeps hstep hP
    · exact ih u hu hP

/-- What was false and is true has become true in some step. -/
theorem Path.exists_switch {P : σ → Prop} {s s' : σ} {r : List (Transition σ ε ο)} (h : Path step s r s')
    (hs : ¬ P s) (hs' : P s') : ∃ a t b, r = a ++ t :: b ∧ ¬ P t.pre ∧ P t.post := by
  induction h with
  | nil => exact absurd hs' hs
  | @cons t r s' _ _ ih =>
    by_cases hpost : P t.post
    · exact ⟨[], t, r, rfl, hs, hpost⟩
    · obtain ⟨a, u, b, rfl, hu⟩ := ih hpost hs'
      exact ⟨t :: a, u, b, rfl, hu⟩

/-! ## Quantities along a run -/

/-- **Telescoping.**  If every step balances a quantity against what flows in and out, so does the
run. -/
theorem Path.telescope {M : Type*} [AddCommMonoid M] (f : σ → M) (inflow outflow : Transition σ ε ο → M)
    {s s' : σ} {r : List (Transition σ ε ο)} (h : Path step s r s')
    (hstep : ∀ t ∈ r, f t.post + outflow t = f t.pre + inflow t) :
    f s' + (r.map outflow).sum = f s + (r.map inflow).sum := by
  induction h with
  | nil => simp
  | @cons t r s' _ _ ih =>
    have hr := ih (fun u hu => hstep u (by simp [hu]))
    have ht := hstep t (by simp)
    simp only [List.map_cons, List.sum_cons]
    calc f s' + (outflow t + (r.map outflow).sum)
        = (f s' + (r.map outflow).sum) + outflow t := by rw [add_comm (outflow t), add_assoc]
      _ = (f t.post + (r.map inflow).sum) + outflow t := by rw [hr]
      _ = (f t.post + outflow t) + (r.map inflow).sum := add_right_comm _ _ _
      _ = f t.pre + (inflow t + (r.map inflow).sum) := by rw [ht, add_assoc]

/-- **The last write.**  If a step leaves in a cell what it writes there, or else what was there, then a run
leaves in it what was written last. -/
theorem Path.last_write {α : Type*} {f : σ → Option α} {w : Transition σ ε ο → Option α} {s s' : σ}
    {r : List (Transition σ ε ο)} (h : Path step s r s') (hstep : ∀ t ∈ r, f t.post = (w t).or (f t.pre)) :
    f s' = ((r.filterMap w).getLast?).or (f s) := by
  induction h with
  | nil s => rfl
  | @cons t r s' _ _ ih =>
    have hr := ih fun u hu => hstep u (by simp [hu])
    have ht := hstep t (by simp)
    rw [hr, ht]
    cases hw : w t with
    | none => rw [List.filterMap_cons_none hw, Option.none_or]
    | some a =>
      rw [List.filterMap_cons_some hw, List.getLast?_cons]
      cases (r.filterMap w).getLast? <;> rfl

/-- The largest value that `f` has had along the run, starting from `h`. -/
def peak (f : σ → ℕ) (h : ℕ) (r : List (Transition σ ε ο)) : ℕ :=
  r.foldl (fun m t => max m (f t.post)) h

@[simp] theorem peak_nil (f : σ → ℕ) (h : ℕ) : peak f h ([] : List (Transition σ ε ο)) = h := rfl

@[simp] theorem peak_cons (f : σ → ℕ) (h : ℕ) (t : Transition σ ε ο) (r : List (Transition σ ε ο)) :
    peak f h (t :: r) = peak f (max h (f t.post)) r := rfl

theorem peak_le {f : σ → ℕ} {k : ℕ} {r : List (Transition σ ε ο)} (hr : ∀ t ∈ r, f t.post ≤ k) :
    ∀ {h : ℕ}, h ≤ k → peak f h r ≤ k := by
  induction r with
  | nil => exact fun hh => hh
  | cons t r ih =>
    intro h hh
    rw [peak_cons]
    exact ih (fun u hu => hr u (by simp [hu])) (Nat.max_le.mpr ⟨hh, hr t (by simp)⟩)

/-- If a step can only raise `g` to the new value of `f`, then `g` stays below the high-water mark
of `f`. -/
theorem Path.le_peak {f g : σ → ℕ} {s s' : σ} {r : List (Transition σ ε ο)} (h : Path step s r s')
    (hstep : ∀ t ∈ r, g t.post ≤ max (g t.pre) (f t.post)) :
    ∀ {m : ℕ}, g s ≤ m → g s' ≤ peak f m r := by
  induction h with
  | nil => exact fun hm => hm
  | @cons t r s' _ _ ih =>
    intro m hm
    have ht := hstep t (by simp)
    rw [peak_cons]
    exact ih (fun u hu => hstep u (by simp [hu])) (by omega)

/-! ## Erasure -/

/-- **The erasure rule.**  `S` relates the states of the full run to those of the reduced run.  A
transition outside `K` changes nothing that `S` sees; one inside `K` is answered, after some
invisible steps, by a visible one that corresponds to it under `R`.  Then the kept transitions are,
one for one, the visible transitions of a run of the same system. -/
theorem Path.erase {S : σ → σ → Prop} {R : Transition σ ε ο → Transition σ ε ο → Prop}
    {K V : Transition σ ε ο → Bool} {s s' : σ} {r : List (Transition σ ε ο)}
    (h : Path step s r s')
    (hskip : ∀ t ∈ r, K t = false → ∀ u, S t.pre u → S t.post u)
    (hkeep : ∀ t ∈ r, K t = true → ∀ u, S t.pre u →
      ∃ q t', Path step u q t'.pre ∧ (∀ v ∈ q, V v = false) ∧ IsStep step t' ∧ V t' = true ∧
        R t t' ∧ S t.post t'.post) :
    ∀ {u : σ}, S s u → ∃ r' u', Path step u r' u' ∧ S s' u' ∧
      List.Forall₂ R (r.filter K) (r'.filter V) := by
  induction h with
  | nil s => exact fun {u} hu => ⟨[], u, Path.nil u, hu, by simp⟩
  | @cons t r s' _ _ ih =>
    intro u hu
    have ih' := @ih (fun v hv => hskip v (by simp [hv])) (fun v hv => hkeep v (by simp [hv]))
    cases hk : K t with
    | false =>
      obtain ⟨r', u', hp, hs, hf⟩ := ih' (hskip t (by simp) hk u hu)
      exact ⟨r', u', hp, hs, by simpa [List.filter_cons, hk] using hf⟩
    | true =>
      obtain ⟨q, t', hq, hqv, ht', hv, hR, hsim⟩ := hkeep t (by simp) hk u hu
      obtain ⟨r', u', hp, hs, hf⟩ := ih' hsim
      refine ⟨q ++ t' :: r', u', hq.append (Path.cons ht' hp), hs, ?_⟩
      have hq0 : q.filter V = [] := List.filter_eq_nil_iff.mpr fun v hv' => by simp [hqv v hv']
      simpa [List.filter_append, List.filter_cons, hk, hv, hq0] using List.Forall₂.cons hR hf

/-! ## Refinement mappings -/

section Map

variable {τ δ κ : Type*}

/-- What another system sees of a transition: its states through `f`, and through `g` a label and an
outcome, or nothing. -/
def image (f : σ → τ) (g : Transition σ ε ο → Option (δ × κ)) (t : Transition σ ε ο) :
    Option (Transition τ δ κ) :=
  (g t).map fun (e, o) => ⟨f t.pre, e, o, f t.post⟩

/-- What is seen of the transition is a step; if nothing is seen, the state has not moved. -/
def Maps (step' : τ → δ → Option (κ × τ)) (f : σ → τ) (g : Transition σ ε ο → Option (δ × κ))
    (t : Transition σ ε ο) : Prop :=
  match g t with
  | some (e, o) => step' (f t.pre) e = some (o, f t.post)
  | none => f t.post = f t.pre

variable {step' : τ → δ → Option (κ × τ)} {f : σ → τ} {g : Transition σ ε ο → Option (δ × κ)}

theorem Maps.of_some {t : Transition σ ε ο} {e : δ} {o : κ} (hg : g t = some (e, o))
    (h : step' (f t.pre) e = some (o, f t.post)) : Maps step' f g t := by
  unfold Maps
  rw [hg]
  exact h

theorem Maps.of_none {t : Transition σ ε ο} (hg : g t = none) (h : f t.post = f t.pre) : Maps step' f g t := by
  unfold Maps
  rw [hg]
  exact h

/-- **The mapping rule.**  What another system sees of a run is a run of it. -/
theorem Path.map {s s' : σ} {r : List (Transition σ ε ο)} (h : Path step s r s')
    (hmap : ∀ t ∈ r, Maps step' f g t) : Path step' (f s) (r.filterMap (image f g)) (f s') := by
  induction h with
  | nil s => exact Path.nil (f s)
  | @cons t r s' _ _ ih =>
    have ht : Maps step' f g t := hmap t (by simp)
    have hr := ih fun u hu => hmap u (by simp [hu])
    unfold Maps at ht
    cases hg : g t with
    | none =>
      rw [hg] at ht
      rw [List.filterMap_cons_none (by simp [image, hg]), ← ht]
      exact hr
    | some seen =>
      rw [hg] at ht
      rw [List.filterMap_cons_some (by simp [image, hg]; rfl)]
      exact Path.cons (t := ⟨f t.pre, seen.1, seen.2, f t.post⟩) ht hr

/-- What is seen corresponds, one for one, to the transitions that are seen. -/
theorem forall₂_image {K : Transition σ ε ο → Bool} {R : Transition σ ε ο → Transition τ δ κ → Prop} :
    ∀ {r : List (Transition σ ε ο)}, (∀ t ∈ r, K t = false → g t = none) →
      (∀ t ∈ r, K t = true → ∃ seen, g t = some seen ∧ R t ⟨f t.pre, seen.1, seen.2, f t.post⟩) →
      List.Forall₂ R (r.filter K) (r.filterMap (image f g))
  | [], _, _ => .nil
  | t :: r, hskip, hsee => by
    have hr : List.Forall₂ R (r.filter K) (r.filterMap (image f g)) :=
      forall₂_image (fun u hu => hskip u (by simp [hu])) fun u hu => hsee u (by simp [hu])
    cases hk : K t with
    | false =>
      rw [List.filter_cons_of_neg (by simp [hk]),
        List.filterMap_cons_none (by simp [image, hskip t (by simp) hk])]
      exact hr
    | true =>
      obtain ⟨seen, hg, hR⟩ := hsee t (by simp) hk
      rw [List.filter_cons_of_pos hk,
        List.filterMap_cons_some (b := ⟨f t.pre, seen.1, seen.2, f t.post⟩) (by simp [image, hg])]
      exact .cons hR hr

end Map

/-! ## Abstraction functions -/

section Lift

variable {τ : Type*} {step' : τ → ε → Option (ο × τ)} {abs : σ → τ} {P : σ → Prop}

/-- A transition, with its states seen through `abs`. -/
def Transition.along (abs : σ → τ) (t : Transition σ ε ο) : Transition τ ε ο :=
  ⟨abs t.pre, t.ev, t.out, abs t.post⟩

/-- **The lifting rule.**  Where the steps from an image are the images of the steps, a run from an image is
the image of a run. -/
theorem Path.lift (hP : ∀ t, IsStep step t → P t.pre → P t.post)
    (habs : ∀ s e, P s → step' (abs s) e = (step s e).map (Prod.map id abs)) {a b : τ}
    {r : List (Transition τ ε ο)} (h : Path step' a r b) :
    ∀ {s : σ}, abs s = a → P s → ∃ q s', Path step s q s' ∧ abs s' = b ∧ r = q.map (Transition.along abs) := by
  induction h with
  | nil a => exact fun {s} hs _ => ⟨[], s, Path.nil s, hs, rfl⟩
  | @cons t r b ht _ ih =>
    intro s hs hPs
    unfold IsStep at ht
    rw [← hs, habs s t.ev hPs] at ht
    obtain ⟨⟨o, s₁⟩, hstep, hout⟩ := Option.map_eq_some_iff.mp ht
    obtain ⟨ho, hpost⟩ := Prod.mk.inj hout
    have hone : IsStep step ⟨s, t.ev, o, s₁⟩ := hstep
    obtain ⟨q, s', hq, hs', hr⟩ := ih hpost (hP _ hone hPs)
    refine ⟨⟨s, t.ev, o, s₁⟩ :: q, s', Path.cons hone hq, hs', ?_⟩
    rw [List.map_cons, ← hr]
    refine congrArg (· :: r) ?_
    show t = ⟨abs s, t.ev, id o, abs s₁⟩
    rw [hs, hpost, show id o = t.out from ho]

/-- The image of a run is a run. -/
theorem Path.along (hP : ∀ t, IsStep step t → P t.pre → P t.post)
    (habs : ∀ s e, P s → step' (abs s) e = (step s e).map (Prod.map id abs)) {s s' : σ}
    {q : List (Transition σ ε ο)} (h : Path step s q s') (hs : P s) :
    Path step' (abs s) (q.map (Transition.along abs)) (abs s') := by
  induction h with
  | nil s => exact Path.nil (abs s)
  | @cons t q s' ht _ ih =>
    have hstep : IsStep step' (t.along abs) := by
      show step' (abs t.pre) t.ev = some (t.out, abs t.post)
      rw [habs t.pre t.ev hs, ht]
      rfl
    exact Path.cons hstep (ih (hP t ht hs))

end Lift

/-! ## Measures -/

/-- Steps that lower a measure are at most as many as it is high. -/
theorem Path.length_add_le {μ : σ → ℕ} {s s' : σ} {r : List (Transition σ ε ο)} (h : Path step s r s')
    (hdec : ∀ t ∈ r, μ t.post < μ t.pre) : r.length + μ s' ≤ μ s := by
  induction h with
  | nil => simp
  | @cons t r s' _ _ ih =>
    have hr := ih fun u hu => hdec u (by simp [hu])
    have ht := hdec t (by simp)
    rw [List.length_cons]
    omega

/-- Some run of such steps cannot be continued. -/
theorem exists_path_rest {μ : σ → ℕ} {K : Transition σ ε ο → Prop}
    (hdec : ∀ t, IsStep step t → K t → μ t.post < μ t.pre) (s : σ) :
    ∃ r s', Path step s r s' ∧ (∀ t ∈ r, K t) ∧ ∀ t, IsStep step t → t.pre = s' → ¬ K t := by
  induction hn : μ s using Nat.strongRecOn generalizing s with
  | _ n ih =>
    by_cases hrest : ∀ t, IsStep step t → t.pre = s → ¬ K t
    · exact ⟨[], s, Path.nil s, by simp, hrest⟩
    · push Not at hrest
      obtain ⟨t, ht, rfl, hK⟩ := hrest
      obtain ⟨r, s', hr, hKr, hend⟩ := ih (μ t.post) (hn ▸ hdec t ht hK) t.post rfl
      refine ⟨t :: r, s', Path.cons ht hr, fun u hu => ?_, hend⟩
      rcases List.mem_cons.mp hu with rfl | hu
      · exact hK
      · exact hKr u hu

end Lts
