import Transportx.Lib.Buffer
import Transportx.Pool.Moves

/-!
# Transportx.Pool.Lifo — the idle objects are a stack in every run

`return_client` pushes, unless it finds `idle` full, and both checkout paths pop.  Many callers do this
in any order, and some return objects that the pool never had.  Still every object that the pool hands out
again is matched with one return of that very object, the latest that has not been answered, and nothing is
handed out twice for one return.
-/

namespace Transportx.Pool

open Lts

variable {w : ℕ} {T : Type} {cfg : PoolConfig w} {s s' : Sys T} {ev : Event T} {o : Outcome T} {c : CallId}
  {old : Option (Call T)} {new : Call T} {m : Move T} {g g' : PoolState T}

/-- The object that a borrower has. -/
def Call.item : Call T → Option T
  | .manual item | .lease (some item) => some item
  | _ => none

/-- The object that an event hands to `return_client`. -/
def Sys.brings (s : Sys T) : Event T → Option T
  | .returnForeign item => some item
  | .returnManual c | .dropLease c => (s.calls.get c).bind Call.item
  | _ => none

/-- The object that this step leaves on the idle stack. -/
def pushedItem (t : Step T) : Option T :=
  match t.out with
  | .returned none => t.pre.brings t.ev.1
  | _ => none

/-- The object that this step takes from the idle stack. -/
def poppedItem (t : Step T) : Option T :=
  match t.out with
  | .hit item => some item
  | _ => none

/-! ## Every step keeps, pushes or pops -/

def Move.pushed : Move T → Option T
  | .give item none => some item
  | _ => none

def Move.tops : Move T → Option T
  | .take item => some item
  | _ => none

theorem PoolMove.stack (h : PoolMove cfg m g g') :
    m.pushed.toList ++ g.idle = m.tops.toList ++ g'.idle ∧ (m.pushed = none ∨ m.tops = none) := by
  cases h with
  | give item g =>
    refine ⟨?_, Or.inr rfl⟩
    unfold returnClient
    simp only [giveBackPermit_idle]
    split
    · rfl
    · exact (giveBackPermit_idle g).symm
  | release g => exact ⟨(giveBackPermit_idle g).symm, Or.inl rfl⟩
  | _ => exact ⟨rfl, Or.inl rfl⟩

theorem CallMove.stack {pick : Option CallId} (h : CallMove cfg ev o c old new m) (hget : s.calls.get c = old) :
    pushedItem ⟨s, (ev, pick), o, s'⟩ = m.pushed ∧ poppedItem ⟨s, (ev, pick), o, s'⟩ = m.tops := by
  cases h with
  | returned _ item dropped | dropped _ item dropped =>
    refine ⟨?_, rfl⟩
    -- an object that is discarded is not pushed
    cases dropped with
    | none => simp only [pushedItem, Sys.brings, hget, Option.bind_some, Call.item, Move.pushed]
    | some x => rfl
  | _ => exact ⟨rfl, rfl⟩

theorem step_stack {t : Step T} (ht : IsStep (step cfg) t) : StackStep Sys.idle pushedItem poppedItem t := by
  obtain ⟨pre, ⟨ev, pick⟩, out, post⟩ := t
  unfold StackStep
  cases step_cases ht with
  | call hc hget hpool hwakes =>
    rw [(hc.stack hget).1, (hc.stack hget).2]
    exact hpool.stack
  | @foreign item dropped _ _ hpool hwakes =>
    have hpushed : pushedItem ⟨pre, (.returnForeign item, pick), .returned dropped, post⟩ =
        (Move.give item dropped).pushed := by
      cases dropped <;> rfl
    rw [hpushed]
    exact hpool.stack
  | poison hpool hcalls => exact ⟨congrArg PoolState.idle hpool.symm, Or.inl rfl⟩

/-! ## Returns and hits are matched -/

/-- **The idle objects are a stack**, in every run and whatever is returned.  What has been kept is idle or
has been handed out again, each object as often.  And when an object is handed out, it is the top of `idle`; an
earlier return brought that very object and was kept, and between the two the pool has kept and handed out
the same objects, all of them above it. -/
theorem idle_is_lifo (cfg : PoolConfig w) {r : List (Step T)} {s : Sys T} (hr : Run cfg r s) :
    (s.idle : Multiset T) + collect poppedItem r = collect pushedItem r ∧
    ∀ a t b x, r = a ++ t :: b → t.out = .hit x → t.pre.idle = x :: t.post.idle ∧
      ∃ a₁ p a₂, a = a₁ ++ p :: a₂ ∧ p.out = .returned none ∧ p.pre.brings p.ev.1 = some x ∧
        p.pre.idle = t.post.idle ∧ p.post.idle = t.pre.idle ∧ collect pushedItem a₂ = collect poppedItem a₂ ∧
        ∀ u ∈ a₂, t.pre.idle <:+ u.post.idle := by
  have hstack : ∀ t ∈ r, StackStep Sys.idle pushedItem poppedItem t := fun t ht => step_stack (hr.isStep t ht)
  constructor
  · have hbal := hr.balanced hstack
    rw [show ((Sys.init : Sys T).idle : Multiset T) = 0 from rfl, zero_add] at hbal
    exact hbal
  · rintro a t b x rfl hout
    obtain ⟨mid, ha, hb⟩ := hr.split
    obtain ⟨-⟩ : t.pre = mid := by cases hb; rfl
    have hhit : poppedItem t = some x := by
      unfold poppedItem
      rw [hout]
    have htop := (hstack t (by simp)).of_pop hhit
    refine ⟨htop, ?_⟩
    have hstackA : ∀ u ∈ a, StackStep Sys.idle pushedItem poppedItem u := fun u hu => hstack u (by simp [hu])
    have hend : x :: t.post.idle <:+ t.pre.idle := by rw [htop]
    rcases ha.last_push hstackA hend with
      ⟨hinit, -⟩ | ⟨a₁, p, a₂, rfl, hkept, hpre, hpost, hall⟩
    · -- nothing is idle in a new pool
      have hnil := List.suffix_nil.mp (show x :: t.post.idle <:+ ([] : List T) from hinit)
      cases hnil
    · -- the push is a return that was kept
      have hp : p.out = .returned none ∧ p.pre.brings p.ev.1 = some x := by
        unfold pushedItem at hkept
        split at hkept
        · next hout => exact ⟨hout, hkept⟩
        · cases hkept
      obtain ⟨m, -, hrest⟩ := ha.split
      cases hrest with
      | cons _ hrest =>
        have hbal := hrest.balanced fun u hu => hstackA u (by simp [hu])
        rw [hpost, ← htop] at hbal
        exact ⟨a₁, p, a₂, rfl, hp.1, hp.2, hpre, hpost.trans htop.symm, (add_left_cancel hbal).symm,
          fun u hu => htop ▸ hall u hu⟩

theorem idle_is_lifo_sample : (sample.2.idle : Multiset ℕ) = {10} := by
  have h := (idle_is_lifo sampleConfig sample_run.1).1
  have hpop : collect poppedItem sample.1 = 0 := by decide
  have hpush : collect pushedItem sample.1 = {10} := by decide
  rwa [hpop, hpush, add_zero] at h

end Transportx.Pool
