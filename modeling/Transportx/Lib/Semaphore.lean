import Mathlib.Data.Finset.Card
import Transportx.Lib.Path

/-!
# Transportx.Lib.Semaphore — a counting semaphore with named holders

General support, independent of any particular system.  The state is the set of those who hold a permit,
out of `n`.  A permit is granted exactly while fewer than `n` are held, and only its holder gives it back.
-/

namespace Semaphore

open Lts

variable {ι : Type*} [DecidableEq ι] {n : ℕ}

inductive Op (ι : Type*)
  | acquire (c : ι)
  | release (c : ι)
  | refuse (c : ι)
deriving DecidableEq

def step (n : ℕ) (held : Finset ι) : Op ι → Option (Unit × Finset ι)
  | .acquire c => if c ∉ held ∧ held.card < n then some ((), insert c held) else none
  | .release c => if c ∈ held then some ((), held.erase c) else none
  | .refuse c => if c ∉ held ∧ n ≤ held.card then some ((), held) else none

section Steps

variable {held : Finset ι} {c : ι}

theorem step_acquire (hc : c ∉ held) (hn : held.card < n) :
    step n held (.acquire c) = some ((), insert c held) := if_pos ⟨hc, hn⟩

theorem step_release (hc : c ∈ held) : step n held (.release c) = some ((), held.erase c) := if_pos hc

theorem step_refuse (hc : c ∉ held) (hn : n ≤ held.card) : step n held (.refuse c) = some ((), held) :=
  if_pos ⟨hc, hn⟩

theorem step_cases {held' : Finset ι} {op : Op ι} {o : Unit} (h : step n held op = some (o, held')) :
    (∃ c, op = .acquire c ∧ c ∉ held ∧ held.card < n ∧ held' = insert c held) ∨
    (∃ c, op = .release c ∧ c ∈ held ∧ held' = held.erase c) ∨
    (∃ c, op = .refuse c ∧ c ∉ held ∧ n ≤ held.card ∧ held' = held) := by
  cases op with
  | acquire c =>
    obtain ⟨⟨hc, hlt⟩, heq⟩ := Option.ite_none_right_eq_some.mp h
    exact Or.inl ⟨c, rfl, hc, hlt, (Prod.mk.inj (Option.some.inj heq)).2.symm⟩
  | release c =>
    obtain ⟨hc, heq⟩ := Option.ite_none_right_eq_some.mp h
    exact Or.inr (Or.inl ⟨c, rfl, hc, (Prod.mk.inj (Option.some.inj heq)).2.symm⟩)
  | refuse c =>
    obtain ⟨⟨hc, hle⟩, heq⟩ := Option.ite_none_right_eq_some.mp h
    exact Or.inr (Or.inr ⟨c, rfl, hc, hle, (Prod.mk.inj (Option.some.inj heq)).2.symm⟩)

end Steps

/-- No more permits are held than there are. -/
theorem card_le {held held' : Finset ι} {r : List (Transition (Finset ι) (Op ι) Unit)}
    (h : Path (step n) held r held') (hn : held.card ≤ n) : held'.card ≤ n := by
  refine h.keeps (P := fun held => held.card ≤ n) (fun t ht hpre => ?_) hn
  rcases step_cases ht with ⟨c, -, hc, hlt, hpost⟩ | ⟨c, -, -, hpost⟩ | ⟨c, -, -, -, hpost⟩ <;> rw [hpost]
  · exact (Finset.card_insert_le _ _).trans hlt
  · exact Finset.card_erase_le.trans hpre
  · exact hpre

def acquired (c : ι) (r : List (Transition (Finset ι) (Op ι) Unit)) : ℕ := r.countP fun t => t.ev = .acquire c

def released (c : ι) (r : List (Transition (Finset ι) (Op ι) Unit)) : ℕ := r.countP fun t => t.ev = .release c

/-- **A permit is given back once for each time it was acquired**, but for the one that is still held. -/
theorem acquired_eq (c : ι) {held held' : Finset ι} {r : List (Transition (Finset ι) (Op ι) Unit)}
    (h : Path (step n) held r held') :
    (if c ∈ held then 1 else 0) + acquired c r = released c r + if c ∈ held' then 1 else 0 := by
  unfold acquired released
  induction h with
  | nil => simp
  | @cons t r held' ht _ ih =>
    rw [List.countP_cons, List.countP_cons]
    rcases step_cases ht with ⟨d, hev, hd, -, hpost⟩ | ⟨d, hev, hd, hpost⟩ | ⟨d, hev, -, -, hpost⟩ <;>
      rw [hpost] at ih <;> simp only [hev, decide_eq_true_eq, reduceCtorEq, if_false]
    · by_cases hcd : c = d
      · subst hcd
        simp [hd] at ih ⊢
        omega
      · simp [hcd, Ne.symm hcd] at ih ⊢
        omega
    · by_cases hcd : c = d
      · subst hcd
        simp [hd] at ih ⊢
        omega
      · simp [hcd, Ne.symm hcd] at ih ⊢
        omega
    · exact ih

end Semaphore
