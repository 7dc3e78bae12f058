import Mathlib.Algebra.Order.Group.Multiset
import Transportx.Lib.Path

/-!
# Transportx.Lib.Buffer — a stack or a queue inside the state of a labelled transition function

General support, independent of any particular system.

* A run whose steps keep, push or pop the stack `f s` remembers, for the object on top, the push that put it
  there (`Path.last_push`), and has pushed and popped the same objects but for what it holds (`Path.balanced`).
* A run whose steps put at the end of the queue `f s` and take from its head takes in the order in which it
  put, and nothing is lost (`Path.fifo`).
* A reader that stops at the first element of some kind reads the list up to it (`upTo`).
-/

namespace Lts

variable {σ ε ο α : Type*} {step : σ → ε → Option (ο × σ)} {f : σ → List α}

/-! ## Stacks -/

section Stack

variable {pushes pops : Transition σ ε ο → Option α}

/-- The stack after the step is the stack before it, without what the step pops and with what it pushes. -/
def StackStep (f : σ → List α) (pushes pops : Transition σ ε ο → Option α) (t : Transition σ ε ο) : Prop :=
  (pushes t).toList ++ f t.pre = (pops t).toList ++ f t.post ∧ (pushes t = none ∨ pops t = none)

/-- What the run pushes, or pops. -/
def collect (g : Transition σ ε ο → Option α) (r : List (Transition σ ε ο)) : Multiset α :=
  (r.map fun t => ((g t).toList : Multiset α)).sum

theorem StackStep.of_push {t : Transition σ ε ο} (h : StackStep f pushes pops t) {x : α} (hx : pushes t = some x) :
    f t.post = x :: f t.pre := by
  obtain ⟨heq, hone⟩ := h
  have hpop : pops t = none := hone.resolve_left (by rw [hx]; exact Option.some_ne_none x)
  rw [hx, hpop] at heq
  exact heq.symm

theorem StackStep.of_pop {t : Transition σ ε ο} (h : StackStep f pushes pops t) {x : α} (hx : pops t = some x) :
    f t.pre = x :: f t.post := by
  obtain ⟨heq, hone⟩ := h
  have hpush : pushes t = none := hone.resolve_right (by rw [hx]; exact Option.some_ne_none x)
  rw [hx, hpush] at heq
  exact heq

theorem StackStep.of_none {t : Transition σ ε ο} (h : StackStep f pushes pops t) (hpush : pushes t = none)
    (hpop : pops t = none) : f t.post = f t.pre := by
  obtain ⟨heq, -⟩ := h
  rw [hpush, hpop] at heq
  exact heq.symm

/-- **The last push.**  What is on the stack at the end, down to `x`, was there from the start, or was made
by a push of `x` since which nothing below has been touched. -/
theorem Path.last_push {s s' : σ} {r : List (Transition σ ε ο)} (h : Path step s r s')
    (hstack : ∀ t ∈ r, StackStep f pushes pops t) {x : α} {base : List α} (hend : x :: base <:+ f s') :
    (x :: base <:+ f s ∧ ∀ u ∈ r, x :: base <:+ f u.post) ∨
    ∃ a p b, r = a ++ p :: b ∧ pushes p = some x ∧ f p.pre = base ∧ f p.post = x :: base ∧
      ∀ u ∈ b, x :: base <:+ f u.post := by
  induction h with
  | nil s => exact Or.inl ⟨hend, by simp⟩
  | @cons t r s' _ _ ih =>
    have ht := hstack t (by simp)
    rcases ih (fun u hu => hstack u (by simp [hu])) hend with ⟨hpost, hall⟩ | ⟨a, p, b, rfl, hp⟩
    · have hall' : ∀ u ∈ t :: r, x :: base <:+ f u.post := by
        intro u hu
        rcases List.mem_cons.mp hu with rfl | hu
        · exact hpost
        · exact hall u hu
      cases hpush : pushes t with
      | some y =>
        have hy := ht.of_push hpush
        rw [hy, List.suffix_cons_iff] at hpost
        rcases hpost with heq | hpre
        · -- this step pushed the top of what has stayed
          obtain ⟨rfl, rfl⟩ := List.cons.inj heq
          exact Or.inr ⟨[], t, r, rfl, hpush, rfl, hy, hall⟩
        · exact Or.inl ⟨hpre, hall'⟩
      | none =>
        cases hpop : pops t with
        | some y =>
          refine Or.inl ⟨?_, hall'⟩
          rw [ht.of_pop hpop]
          exact hpost.trans (List.suffix_cons y _)
        | none => exact Or.inl ⟨ht.of_none hpush hpop ▸ hpost, hall'⟩
    · exact Or.inr ⟨t :: a, p, b, rfl, hp⟩

/-- **Balance.**  What was on the stack and was pushed is on the stack or was popped. -/
theorem Path.balanced {s s' : σ} {r : List (Transition σ ε ο)} (h : Path step s r s')
    (hstack : ∀ t ∈ r, StackStep f pushes pops t) :
    (f s' : Multiset α) + collect pops r = f s + collect pushes r := by
  refine h.telescope (fun s => (f s : Multiset α)) _ _ fun t ht => ?_
  have hlists := congrArg (fun l : List α => (l : Multiset α)) (hstack t ht).1
  simp only [← Multiset.coe_add] at hlists
  rw [add_comm, ← hlists, add_comm]

end Stack

/-! ## Queues -/

section Queue

variable {puts takes : Transition σ ε ο → List α}

/-- The step takes from the head of the queue and puts at its end. -/
def QueueStep (f : σ → List α) (puts takes : Transition σ ε ο → List α) (t : Transition σ ε ο) : Prop :=
  takes t ++ f t.post = f t.pre ++ puts t

/-- **First in, first out.**  What was taken, followed by what is queued, is what was queued at the start,
followed by what was put. -/
theorem Path.fifo {s s' : σ} {r : List (Transition σ ε ο)} (h : Path step s r s')
    (hqueue : ∀ t ∈ r, QueueStep f puts takes t) : r.flatMap takes ++ f s' = f s ++ r.flatMap puts := by
  induction h with
  | nil s => rw [List.flatMap_nil, List.flatMap_nil, List.nil_append, List.append_nil]
  | @cons t r s' _ _ ih =>
    have hr := ih fun u hu => hqueue u (by simp [hu])
    have ht : takes t ++ f t.post = f t.pre ++ puts t := hqueue t (by simp)
    rw [List.flatMap_cons, List.flatMap_cons, List.append_assoc, hr, ← List.append_assoc, ht, List.append_assoc]

end Queue

/-! ## Readers that stop -/

section UpTo

variable {p : α → Bool} {l l' : List α}

/-- The list up to the first element that satisfies `p`, and with it. -/
def upTo (p : α → Bool) : List α → List α
  | [] => []
  | x :: l => if p x then [x] else x :: upTo p l

theorem upTo_append (h : ∀ x ∈ l, p x = false) : upTo p (l ++ l') = l ++ upTo p l' := by
  induction l with
  | nil => rfl
  | cons x l ih =>
    have htail := ih fun y hy => h y (by simp [hy])
    simp only [List.cons_append, upTo, h x (by simp), Bool.false_eq_true, if_false, htail]

theorem upTo_eq_self (h : ∀ x ∈ l, p x = false) : upTo p l = l := by
  have happend : upTo p (l ++ []) = l ++ upTo p [] := upTo_append h
  rwa [List.append_nil, upTo, List.append_nil] at happend

theorem upTo_congr {q : α → Bool} (h : ∀ x ∈ l, p x = q x) : upTo p l = upTo q l := by
  induction l with
  | nil => rfl
  | cons x l ih => rw [upTo, upTo, h x (by simp), ih fun y hy => h y (by simp [hy])]

/-- What is added behind does not change what has been read. -/
theorem upTo_mono (h : l <+: l') : upTo p l <+: upTo p l' := by
  obtain ⟨more, rfl⟩ := h
  induction l with
  | nil => exact List.nil_prefix
  | cons x l ih =>
    simp only [List.cons_append, upTo]
    split
    · exact List.prefix_rfl
    · exact (List.prefix_cons_inj x).mpr ih

/-- One more element is read while the reader has not stopped. -/
theorem concat_prefix_upTo {x : α} (h : ∀ y ∈ l, p y = false) (hl : l ++ [x] <+: l') :
    l ++ [x] <+: upTo p l' := by
  obtain ⟨more, rfl⟩ := hl
  rw [List.append_assoc, upTo_append h]
  refine (List.prefix_append_right_inj l).mpr ?_
  simp only [List.cons_append, List.nil_append, upTo]
  split
  · exact List.prefix_rfl
  · exact (List.prefix_cons_inj x).mpr List.nil_prefix

/-- A reader that has read an element to stop at has read everything. -/
theorem eq_upTo (h : l <+: upTo p l') (hx : ∃ x ∈ l, p x = true) : l = upTo p l' := by
  induction l generalizing l' with
  | nil => obtain ⟨x, hx, -⟩ := hx; cases hx
  | cons y l ih =>
    cases l' with
    | nil => exact List.prefix_nil.mp h
    | cons z l' =>
      rw [upTo] at h ⊢
      split at h
      · next hz =>
        obtain ⟨rfl, hl⟩ := List.cons_prefix_cons.mp h
        rw [if_pos hz, List.prefix_nil.mp hl]
      · next hz =>
        obtain ⟨rfl, hl⟩ := List.cons_prefix_cons.mp h
        -- the element to stop at is not the first one
        have htail : ∃ x ∈ l, p x = true := by
          obtain ⟨x, hmem, hpx⟩ := hx
          rcases List.mem_cons.mp hmem with rfl | hmem
          · exact absurd hpx hz
          · exact ⟨x, hmem, hpx⟩
        rw [if_neg hz, ← ih hl htail]

end UpTo

end Lts
