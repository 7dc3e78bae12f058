import Transportx.Pool.Conservation
import Transportx.Pool.Parametric

/-!
# Transportx.Pool.InPlace — objects that their holders change

`HttpClientLease::get_mut` lets the holder of a lease change the object in place, and who borrowed an
object by hand owns it.  `useStep` adds these changes to the steps of the pool.

`Cells` is the same pool by reference: the pool moves addresses, the objects stay where they are in a
heap, and a change writes to the heap.  `values_are_owned`: the two cannot be told apart, since no
address is ever in two places.  So what holds of the addresses in every run of the plain pool holds of
objects that are changed on the way.

`kept_everywhere`: what holds of every object that comes in, and is kept by the changes, holds of every
object wherever it is.
-/

namespace Transportx.Pool

open Lts

variable {w : ℕ} {T : Type} {cfg : PoolConfig w}

/-! ## Using what was borrowed -/

/-- What happens to a pool in use: a step of the pool, or a change of an object by the call that
holds it. -/
inductive Use (T : Type)
  | label (l : Label T)
  | change (c : CallId) (f : T → T)

/-- A change by the holder: `get_mut` of a lease, which gives nothing once the item is taken, or the
borrower's own object. -/
def Call.getMut (f : T → T) : Call T → Option (Call T)
  | .manual item => some (.manual (f item))
  | .lease item => some (.lease (item.map f))
  | _ => none

def useStep (cfg : PoolConfig w) (s : Sys T) : Use T → Option (Option (Outcome T) × Sys T)
  | .label l => (step cfg s l).map (Prod.map some id)
  | .change c f => ((s.calls.get c).bind (Call.getMut f)).map fun v => (none, s.setCall c v)

/-! ## The pool by reference -/

/-- A pool of addresses, what is stored at them, and the next address that is free. -/
structure Cells (T : Type) where
  pool : Sys ℕ
  heap : ℕ → T
  next : ℕ

/-- The object that an event brings in from outside. -/
def Event.item : Event T → Option T
  | .factory _ (.ok item) => some item
  | .returnForeign item => some item
  | _ => none

namespace Cells

/-- What the pool of values looks like. -/
def abs (s : Cells T) : Sys T := s.pool.map s.heap

/-- A new object goes to a new address. -/
def alloc (s : Cells T) : Option T → Cells T
  | some item => { s with heap := Function.update s.heap s.next item, next := s.next + 1 }
  | none => s

def write (s : Cells T) (f : T → T) (i : ℕ) : Cells T :=
  { s with heap := Function.update s.heap i (f (s.heap i)) }

def init (heap : ℕ → T) : Cells T := ⟨Sys.init, heap, 0⟩

end Cells

/-- The steps of `useStep`, by reference. -/
def cellsStep (cfg : PoolConfig w) (s : Cells T) : Use T → Option (Option (Outcome T) × Cells T)
  | .label l =>
    let s' := s.alloc l.1.item
    (step cfg s.pool (l.map fun _ => s.next)).map fun (o, pool) => (some (o.map s'.heap), { s' with pool })
  | .change c f =>
    match s.pool.calls.get c with
    | some (.manual i) => some (none, s.write f i)
    | some (.lease (some i)) => some (none, s.write f i)
    | some (.lease none) => some (none, s)
    | _ => none

abbrev CellsStep (T : Type) := Transition (Cells T) (Use T) (Option (Outcome T))

/-- No address is in two places, and none is in a place that was not given out. -/
structure Cells.Owned (s : Cells T) : Prop where
  nodup : s.pool.places.Nodup
  lt_next : ∀ i ∈ s.pool.places, i < s.next
  blank : s.pool.calls.Blank .closed

/-! ## Places -/

def Event.brings (ev : Event T) : Multiset T := ev.item.elim 0 ({·})

theorem places_le_step {s s' : Sys T} {l : Label T} {o : Outcome T} (h : step cfg s l = some (o, s')) :
    s'.places ≤ s.places + l.1.brings := by
  by_cases hforeign : ∃ item, l.1 = .returnForeign item
  · obtain ⟨item, hitem⟩ := hforeign
    cases step_cases h with
    | call hc => cases hc <;> cases hitem
    | poison => cases hitem
    | @foreign item' dropped pick s' hpool hwakes =>
      have hidle : (s'.idle : Multiset T) + 0 + _ = s.idle + {item'} := hpool.items
      have hout : s'.out = s.out := hwakes.total_eq items_blind
      show (s'.idle : Multiset T) + s'.out ≤ s.idle + s.out + {item'}
      rw [hout, add_right_comm, ← hidle, add_zero]
      exact add_le_add_left (Multiset.le_add_right _ _) _
  · have hlawful : ∀ item, l.1 ≠ .returnForeign item := fun item hitem => hforeign ⟨item, hitem⟩
    have hbal := places_step h hlawful
    have hcreates : o.creates ≤ l.1.brings := by
      cases step_cases h with
      | call hc => cases hc <;> first | exact Multiset.zero_le _ | exact le_rfl
      | foreign => exact Multiset.zero_le _
      | poison => exact Multiset.zero_le _
    calc s'.places ≤ s'.places + (o.detaches + o.discards) := Multiset.le_add_right _ _
      _ = s.places + o.creates := hbal
      _ ≤ s.places + l.1.brings := add_le_add_right hcreates _

theorem Wakes.blank {m : Move T} {pick : Option CallId} {calls calls' : Ledger CallId (Call T)}
    (h : Wakes m pick calls calls') (hb : calls.Blank .closed) : calls'.Blank .closed := by
  unfold Wakes at h
  split at h
  · rcases notifyOne_some h with ⟨-, rfl⟩ | ⟨c, timeout, -, rfl⟩
    · exact hb
    · exact hb.put c _
  · rwa [h]

theorem blank_step {s s' : Sys T} {l : Label T} {o : Outcome T} (h : step cfg s l = some (o, s'))
    (hb : s.calls.Blank .closed) : s'.calls.Blank .closed := by
  cases step_cases h with
  | call _ _ _ hwakes => exact hwakes.blank (hb.put _ _)
  | foreign _ hwakes => exact hwakes.blank hb
  | poison _ hcalls => rwa [hcalls]

/-! ## Images that agree on the places -/

section Images

variable {A B : Type} {s : Sys A} {f f' : A → B}

theorem mem_places_of_idle {x : A} (h : x ∈ s.idle) : x ∈ s.places :=
  Multiset.mem_add.mpr (Or.inl (Multiset.mem_coe.mpr h))

theorem mem_places_of_get {c : CallId} {v : Call A} {x : A} (hget : s.calls.get c = some v) (hx : x ∈ v.items) :
    x ∈ s.places :=
  Multiset.mem_add.mpr (Or.inr (Ledger.mem_total.mpr ⟨c, v, hget, hx⟩))

theorem Call.map_congr {v : Call A} (h : ∀ x ∈ v.items, f x = f' x) : v.map f = v.map f' := by
  cases v with
  | manual item => exact congrArg Call.manual (h item (Multiset.mem_singleton_self item))
  | lease item =>
    cases item with
    | none => rfl
    | some item => exact congrArg (fun x => Call.lease (some x)) (h item (Multiset.mem_singleton_self item))
  | _ => rfl

theorem mutex_map_congr (h : ∀ x ∈ s.idle, f x = f' x) : (s.map f).mutex = (s.map f').mutex := by
  have hidle : s.idle = s.mutex.data.idle := by
    unfold Sys.idle Sys.pool
    rw [lockState_eq]
  rw [hidle] at h
  unfold Sys.map PoolState.map
  rw [List.map_congr_left h]

theorem Sys.map_congr (hb : s.calls.Blank .closed) (h : ∀ x ∈ s.places, f x = f' x) : s.map f = s.map f' := by
  have hcalls : s.calls.map (Call.map f) = s.calls.map (Call.map f') :=
    hb.map_congr rfl fun c v hget => Call.map_congr fun x hx => h x (mem_places_of_get hget hx)
  have hmutex : (s.map f).mutex = (s.map f').mutex := mutex_map_congr fun x hx => h x (mem_places_of_idle hx)
  show (⟨(s.map f).mutex, s.calls.map (Call.map f)⟩ : Sys B) = ⟨(s.map f').mutex, s.calls.map (Call.map f')⟩
  rw [hcalls, hmutex]

/-- Images that agree everywhere but at one call are the same once that call is set. -/
theorem map_setCall_congr (hb : s.calls.Blank .closed) {c : CallId} (hidle : ∀ x ∈ s.idle, f x = f' x)
    (hout : ∀ d v, d ≠ c → s.calls.get d = some v → ∀ x ∈ v.items, f x = f' x) (u : Call B) :
    (s.map f).setCall c u = (s.map f').setCall c u := by
  have hagree : ∀ d v, d ≠ c → s.calls.get d = some v → Call.map f v = Call.map f' v :=
    fun d v hd hget => Call.map_congr (hout d v hd hget)
  have hcalls : (s.calls.map (Call.map f)).put c u = (s.calls.map (Call.map f')).put c u :=
    hb.map_put_congr (show Call.map f .closed = Call.map f' .closed from rfl) c hagree u
  show (⟨(s.map f).mutex, (s.calls.map (Call.map f)).put c u⟩ : Sys B) =
    ⟨(s.map f').mutex, (s.calls.map (Call.map f')).put c u⟩
  rw [hcalls, mutex_map_congr hidle]

end Images

/-! ## Values and references -/

section Cells

variable {s : Cells T}

theorem alloc_heap_of_lt (item : Option T) {i : ℕ} (hi : i < s.next) : (s.alloc item).heap i = s.heap i := by
  cases item with
  | none => rfl
  | some item => exact Function.update_of_ne (Nat.ne_of_lt hi) item s.heap

theorem alloc_heap_next {item : Option T} {x : T} (hx : x ∈ item) : (s.alloc item).heap s.next = x := by
  rw [Option.mem_def.mp hx]
  exact Function.update_self s.next x s.heap

theorem Event.map_address {ev : Event T} {heap : ℕ → T} {n : ℕ} (h : ∀ x ∈ ev.item, heap n = x) :
    (ev.map fun _ => n).map heap = ev := by
  cases ev with
  | factory c result =>
    cases result with
    | ok item => exact congrArg (fun x => Event.factory c (.ok x)) (h item rfl)
    | _ => rfl
  | returnForeign item => exact congrArg Event.returnForeign (h item rfl)
  | _ => rfl

theorem Event.item_map {A B : Type} (f : A → B) (ev : Event A) : (ev.map f).item = ev.item.map f := by
  cases ev with
  | factory c result => cases result <;> rfl
  | _ => rfl

/-- A step of the pool of values is that step of the pool of addresses. -/
theorem useStep_label (hs : s.Owned) (l : Label T) :
    useStep cfg s.abs (.label l) = (cellsStep cfg s (.label l)).map (Prod.map id Cells.abs) := by
  have habs : s.abs = s.pool.map (s.alloc l.1.item).heap :=
    Sys.map_congr hs.blank fun i hi => (alloc_heap_of_lt l.1.item (hs.lt_next i hi)).symm
  have hl : Label.map (s.alloc l.1.item).heap (l.map fun _ => s.next) = l :=
    congrArg (Prod.mk · l.2) (Event.map_address fun x hx => alloc_heap_next hx)
  have hstep : step cfg (s.pool.map (s.alloc l.1.item).heap) (Label.map _ (l.map fun _ => s.next)) = _ :=
    step_map (s.alloc l.1.item).heap s.pool (l.map fun _ => s.next)
  rw [← habs, hl] at hstep
  show (step cfg s.abs l).map (Prod.map some id) = _
  unfold cellsStep
  rw [hstep, Option.map_map, Option.map_map]
  rfl

/-- A write to what a call holds is seen at that call only. -/
theorem abs_write (hs : s.Owned) {c : CallId} {v : Call ℕ} (hget : s.pool.calls.get c = some v) {i : ℕ}
    (hi : i ∈ v.items) (f : T → T) : (s.write f i).abs = s.abs.setCall c (v.map (s.write f i).heap) := by
  obtain ⟨-, hout, hdisj⟩ := Multiset.nodup_add.mp hs.nodup
  have hother : ∀ j, j ≠ i → (s.write f i).heap j = s.heap j := fun j hj => Function.update_of_ne hj _ _
  have hself : s.pool.setCall c v = s.pool := by
    unfold Sys.setCall
    rw [Ledger.put_eq_self hget]
  calc (s.write f i).abs = (s.pool.setCall c v).map (s.write f i).heap := by rw [hself]; rfl
    _ = (s.pool.map (s.write f i).heap).setCall c (v.map (s.write f i).heap) := setCall_map _ _ _ _
    _ = s.abs.setCall c (v.map (s.write f i).heap) := by
      -- no other place has the address
      refine map_setCall_congr hs.blank (fun j hj => hother j ?_) (fun d u hd hu j hj => hother j ?_) _
      · rintro rfl
        exact Multiset.disjoint_left.mp hdisj (Multiset.mem_coe.mpr hj) (Ledger.mem_total.mpr ⟨c, v, hget, hi⟩)
      · rintro rfl
        exact hd (Ledger.key_unique hout hu hget hj hi)

theorem useStep_change (hs : s.Owned) (c : CallId) (f : T → T) :
    useStep cfg s.abs (.change c f) = (cellsStep cfg s (.change c f)).map (Prod.map id Cells.abs) := by
  have hget : s.abs.calls.get c = (s.pool.calls.get c).map (Call.map s.heap) := Ledger.get_map _ _ _
  have hheap : ∀ i, (s.write f i).heap i = f (s.heap i) := fun i => Function.update_self i _ s.heap
  simp only [useStep, cellsStep, hget]
  cases hc : s.pool.calls.get c with
  | none => rfl
  | some v =>
    cases v with
    | manual i =>
      have hwrite := abs_write hs hc (Multiset.mem_singleton_self i) f
      simp only [Call.map, hheap] at hwrite
      exact congrArg (fun s => some (none, s)) hwrite.symm
    | lease item =>
      cases item with
      | none =>
        have hself : s.abs.setCall c (.lease none) = s.abs := by
          unfold Sys.setCall
          rw [Ledger.put_eq_self (by rw [hget, hc]; rfl)]
        exact congrArg (fun s => some (none, s)) hself
      | some i =>
        have hwrite := abs_write hs hc (Multiset.mem_singleton_self i) f
        simp only [Call.map, Option.map_some, hheap] at hwrite
        exact congrArg (fun s => some (none, s)) hwrite.symm
    | _ => rfl

/-- **The steps by value are the steps by reference.** -/
theorem useStep_abs (hs : s.Owned) (u : Use T) :
    useStep cfg s.abs u = (cellsStep cfg s u).map (Prod.map id Cells.abs) := by
  cases u with
  | label l => exact useStep_label hs l
  | change c f => exact useStep_change hs c f

theorem Cells.Owned.init (heap : ℕ → T) : (Cells.init heap).Owned := by
  have hplaces : (Sys.init : Sys ℕ).places = 0 := by
    simp [Sys.places, Sys.init, Sys.idle, Sys.out, Sys.pool, newUnchecked]
  refine ⟨?_, ?_, Ledger.Blank.empty _⟩
  · exact hplaces ▸ Multiset.nodup_zero
  · intro i hi
    rw [show (Cells.init heap).pool.places = 0 from hplaces] at hi
    exact absurd hi (Multiset.notMem_zero i)

theorem cellsStep_label {l : Label T} {o : Option (Outcome T)} {s' : Cells T}
    (h : cellsStep cfg s (.label l) = some (o, s')) :
    ∃ o', step cfg s.pool (l.map fun _ => s.next) = some (o', s'.pool) ∧ o = some (o'.map s'.heap) ∧
      s'.heap = (s.alloc l.1.item).heap ∧ s'.next = (s.alloc l.1.item).next := by
  obtain ⟨⟨o', pool⟩, hstep, heq⟩ := Option.map_eq_some_iff.mp h
  obtain ⟨rfl, rfl⟩ := Prod.mk.inj heq
  exact ⟨o', hstep, rfl, rfl, rfl⟩

theorem cellsStep_change {c : CallId} {f : T → T} {o : Option (Outcome T)} {s' : Cells T}
    (h : cellsStep cfg s (.change c f) = some (o, s')) :
    s' = s ∨ ∃ v i, s.pool.calls.get c = some v ∧ i ∈ v.items ∧ s' = s.write f i := by
  simp only [cellsStep] at h
  split at h
  · next i hget =>
    obtain ⟨-, rfl⟩ := Prod.mk.inj (Option.some.inj h)
    exact Or.inr ⟨_, i, hget, Multiset.mem_singleton_self i, rfl⟩
  · next i hget =>
    obtain ⟨-, rfl⟩ := Prod.mk.inj (Option.some.inj h)
    exact Or.inr ⟨_, i, hget, Multiset.mem_singleton_self i, rfl⟩
  · obtain ⟨-, rfl⟩ := Prod.mk.inj (Option.some.inj h)
    exact Or.inl rfl
  · cases h

/-- **An address that is given out is nowhere else**, and stays so. -/
theorem Cells.Owned.step {u : Use T} {o : Option (Outcome T)} {s' : Cells T} (h : cellsStep cfg s u = some (o, s'))
    (hs : s.Owned) : s'.Owned := by
  cases u with
  | label l =>
    obtain ⟨o', hstep, -, -, hnext⟩ := cellsStep_label h
    have hle : s'.pool.places ≤ s.pool.places + ((l.1.item.map fun _ => s.next).elim 0 ({·})) := by
      rw [← Event.item_map]
      exact places_le_step hstep
    have hblank := blank_step hstep hs.blank
    cases hitem : l.1.item with
    | none =>
      rw [hitem, Option.map_none, Option.elim_none, add_zero] at hle
      rw [hitem] at hnext
      exact ⟨Multiset.nodup_of_le hle hs.nodup,
        fun i hi => hnext ▸ hs.lt_next i (Multiset.mem_of_le hle hi), hblank⟩
    | some item =>
      rw [hitem, Option.map_some, Option.elim_some, add_comm, Multiset.singleton_add] at hle
      rw [hitem] at hnext
      -- an object that comes in gets an address of its own
      have hfresh : s.next ∉ s.pool.places := fun hmem => Nat.lt_irrefl _ (hs.lt_next _ hmem)
      refine ⟨Multiset.nodup_of_le hle (Multiset.nodup_cons.mpr ⟨hfresh, hs.nodup⟩), fun i hi => ?_, hblank⟩
      rw [hnext]
      show i < s.next + 1
      rcases Multiset.mem_cons.mp (Multiset.mem_of_le hle hi) with rfl | hmem
      · exact Nat.lt_succ_self _
      · exact Nat.lt_succ_of_lt (hs.lt_next i hmem)
  | change c f =>
    rcases cellsStep_change h with rfl | ⟨v, i, -, -, rfl⟩
    · exact hs
    · exact ⟨hs.nodup, hs.lt_next, hs.blank⟩

/-- What a step does to a cell: nothing, or the change of the call that holds it. -/
def Framed (t : CellsStep T) (i : ℕ) : Prop :=
  t.post.heap i = t.pre.heap i ∨
  ∃ c f v, t.ev = .change c f ∧ t.pre.pool.calls.get c = some v ∧ i ∈ v.items ∧
    t.post.heap i = f (t.pre.heap i)

theorem cellsStep_framed {t : CellsStep T} (ht : IsStep (cellsStep cfg) t)
    {i : ℕ} (hi : i < t.pre.next) : Framed t i := by
  obtain ⟨s, u, o, s'⟩ := t
  cases u with
  | label l =>
    obtain ⟨-, -, -, hheap, -⟩ := cellsStep_label ht
    exact Or.inl ((congrFun hheap i).trans (alloc_heap_of_lt l.1.item hi))
  | change c f =>
    have hstep : cellsStep cfg s (.change c f) = some (o, s') := ht
    rcases cellsStep_change hstep with rfl | ⟨v, j, hget, hj, rfl⟩
    · exact Or.inl rfl
    · -- a change writes one cell
      by_cases hij : i = j
      · subst hij
        exact Or.inr ⟨c, f, v, rfl, hget, hj, Function.update_self i _ s.heap⟩
      · exact Or.inl (Function.update_of_ne hij _ s.heap)

/-- The step of the plain pool of addresses in a step by reference, if there is one. -/
def plain (cfg : PoolConfig w) (t : CellsStep T) :
    Option (Label ℕ × Outcome ℕ) :=
  match t.ev with
  | .label l =>
    let l := l.map fun _ => t.pre.next
    (step cfg t.pre.pool l).map fun (o, _) => (l, o)
  | .change _ _ => none

theorem plain_maps {t : CellsStep T} (ht : IsStep (cellsStep cfg) t) :
    Maps (step cfg) Cells.pool (plain cfg) t := by
  obtain ⟨s, u, o, s'⟩ := t
  cases u with
  | label l =>
    obtain ⟨o', hstep, -⟩ := cellsStep_label ht
    have hplain : plain cfg ⟨s, .label l, o, s'⟩ = some (l.map fun _ => s.next, o') := by
      simp only [plain, hstep]
      rfl
    exact .of_some hplain hstep
  | change c f =>
    have hstep : cellsStep cfg s (.change c f) = some (o, s') := ht
    refine .of_none rfl ?_
    rcases cellsStep_change hstep with rfl | ⟨v, i, -, -, rfl⟩ <;> rfl

end Cells

/-- **Objects are owned**, in every run of a pool whose objects are also changed by their holders: a run by value
is a run by reference, and the other way round.  By reference, no address is ever in two places, and a cell
changes only when the call that holds it changes it. -/
theorem values_are_owned (cfg : PoolConfig w) (heap : ℕ → T) :
    (∀ r s, Path (useStep cfg) Sys.init r s →
      ∃ q u, Path (cellsStep cfg) (Cells.init heap) q u ∧ u.abs = s ∧ r = q.map (Transition.along Cells.abs)) ∧
    (∀ q u, Path (cellsStep cfg) (Cells.init heap) q u →
      Path (useStep cfg) Sys.init (q.map (Transition.along Cells.abs)) u.abs ∧
      Run cfg (q.filterMap (image Cells.pool (plain cfg))) u.pool ∧ u.pool.places.Nodup ∧
      ∀ t ∈ q, t.pre.pool.places.Nodup ∧ ∀ i < t.pre.next, Framed t i) := by
  have hkeeps : ∀ t : CellsStep T, IsStep (cellsStep cfg) t → t.pre.Owned → t.post.Owned :=
    fun t ht => Cells.Owned.step ht
  have habs : ∀ (s : Cells T) u, s.Owned →
      useStep cfg s.abs u = (cellsStep cfg s u).map (Prod.map id Cells.abs) := fun s u hs => useStep_abs hs u
  constructor
  · intro r s hr
    exact hr.lift hkeeps habs rfl (Cells.Owned.init heap)
  · intro q u hq
    obtain ⟨hu, hmem⟩ := hq.invariant (K := fun _ => True) (fun t ht _ => hkeeps t ht) (fun _ _ => trivial)
      (Cells.Owned.init heap)
    have hplain : ∀ t ∈ q, Maps (step cfg) Cells.pool (plain cfg) t := fun t ht => plain_maps (hq.isStep t ht)
    exact ⟨hq.along hkeeps habs (Cells.Owned.init heap), hq.map hplain, hu.nodup,
      fun t ht => ⟨(hmem t ht).1.nodup, fun i hi => cellsStep_framed (hq.isStep t ht) hi⟩⟩

/-- A lease is taken, its object changed, the lease dropped, and the object borrowed again. -/
def sampleUses : List (Use ℕ) :=
  [.label (.checkout 0 .lease, none), .label (.factory 0 (.ok 10), none), .change 0 (· + 1),
    .label (.dropLease 0, none), .label (.checkout 1 .manual, none), .change 1 (· * 2)]

theorem sampleUses_enabled : (replay (useStep sampleConfig) Sys.init sampleUses).isSome = true := by
  decide +kernel

/-- By reference the second borrower doubles, in its one cell, what the first one left there. -/
theorem values_are_owned_sample :
    ∃ q u, Path (cellsStep sampleConfig) (Cells.init fun _ => 0) q u ∧ u.abs.out = {22} := by
  have hreplay := (Option.some_get sampleUses_enabled).symm
  obtain ⟨q, u, hq, habs, -⟩ :=
    (values_are_owned sampleConfig fun _ => 0).1 _ _ (replay_path hreplay).1
  refine ⟨q, u, hq, ?_⟩
  rw [habs]
  decide +kernel

/-! ## What holds of all objects -/

section Kept

variable {P : T → Prop}

/-- What comes in has the property, and a change keeps it. -/
def Supplies (P : T → Prop) : Use T → Prop
  | .label l => ∀ x ∈ l.1.item, P x
  | .change _ f => ∀ x, P x → P (f x)

/-- What a step hands to a caller. -/
def Outcome.handed : Outcome T → Option T
  | .hit item | .created item => some item
  | .detached item => item
  | _ => none

theorem handed_step {s s' : Sys T} {l : Label T} {o : Outcome T} (h : step cfg s l = some (o, s')) {x : T}
    (hx : x ∈ o.handed) : x ∈ s.places ∨ x ∈ l.1.item := by
  cases step_cases h with
  | @call ev o c old new m pick s' hc hget hpool hwakes =>
    have htake : ∀ item, m = .take item → item ∈ s.places := by
      rintro item rfl
      refine mem_places_of_idle ?_
      generalize hg : s.pool = g at hpool
      generalize s'.pool = g' at hpool
      cases hpool
      show item ∈ s.pool.idle
      rw [hg]
      exact List.mem_cons_self
    cases hc <;> cases hx <;> first
      | exact Or.inl (htake _ rfl)
      | exact Or.inr rfl
      | exact Or.inl (mem_places_of_get hget (Multiset.mem_singleton_self x))
  | foreign => cases hx
  | poison => cases hx

theorem places_setCall {s : Sys T} {c : CallId} {v : Call T} {x : T} (hx : x ∈ (s.setCall c v).places) :
    x ∈ s.places ∨ x ∈ v.items := by
  rcases Multiset.mem_add.mp hx with hidle | hout
  · exact Or.inl (mem_places_of_idle (Multiset.mem_coe.mp hidle))
  · obtain ⟨d, u, hget, hu⟩ := Ledger.mem_total.mp hout
    have hget' : (s.calls.put c v).get d = some u := hget
    rw [Ledger.get_put] at hget'
    split at hget'
    · exact Or.inr (Option.some.inj hget' ▸ hu)
    · exact Or.inl (mem_places_of_get hget' hu)

theorem getMut_items {f : T → T} {v v' : Call T} (h : v.getMut f = some v') {x : T} (hx : x ∈ v'.items) :
    ∃ y ∈ v.items, f y = x := by
  cases v with
  | manual item =>
    obtain rfl := Option.some.inj h
    exact ⟨item, Multiset.mem_singleton_self item, (Multiset.mem_singleton.mp hx).symm⟩
  | lease item =>
    obtain rfl := Option.some.inj h
    cases item with
    | none => exact absurd hx (Multiset.notMem_zero x)
    | some item => exact ⟨item, Multiset.mem_singleton_self item, (Multiset.mem_singleton.mp hx).symm⟩
  | _ => cases h

/-- **One use keeps the property of all objects**, and hands out none without it. -/
theorem useStep_keeps {s s' : Sys T} {u : Use T} {o : Option (Outcome T)} (h : useStep cfg s u = some (o, s'))
    (hu : Supplies P u) (hs : ∀ x ∈ s.places, P x) :
    (∀ x ∈ s'.places, P x) ∧ ∀ o' ∈ o, ∀ x ∈ o'.handed, P x := by
  cases u with
  | label l =>
    obtain ⟨⟨o', s₁⟩, hstep, heq⟩ := Option.map_eq_some_iff.mp h
    obtain ⟨rfl, rfl⟩ := Prod.mk.inj heq
    constructor
    · intro x hx
      rcases Multiset.mem_add.mp (Multiset.mem_of_le (places_le_step hstep) hx) with hold | hnew
      · exact hs x hold
      · refine hu x ?_
        unfold Event.brings at hnew
        cases hitem : l.1.item with
        | none =>
          rw [hitem] at hnew
          exact absurd hnew (Multiset.notMem_zero x)
        | some item =>
          rw [hitem] at hnew
          rw [Multiset.mem_singleton.mp hnew]
          rfl
    · rintro o'' ⟨⟩ x hx
      exact (handed_step hstep hx).elim (hs x) (hu x)
  | change c f =>
    obtain ⟨v', hv', heq⟩ := Option.map_eq_some_iff.mp h
    obtain ⟨rfl, rfl⟩ := Prod.mk.inj heq
    obtain ⟨v, hget, hchange⟩ := Option.bind_eq_some_iff.mp hv'
    refine ⟨fun x hx => ?_, fun o' ho' => (by cases ho')⟩
    rcases places_setCall hx with hold | hnew
    · exact hs x hold
    · obtain ⟨y, hy, rfl⟩ := getMut_items hchange hnew
      exact hu y (hs y (mem_places_of_get hget hy))

/-- **What holds of all objects that come in holds of all objects, everywhere and always.** -/
theorem kept_everywhere {r : List (Transition (Sys T) (Use T) (Option (Outcome T)))} {s : Sys T}
    (hr : Path (useStep cfg) Sys.init r s) (hP : ∀ t ∈ r, Supplies P t.ev) :
    (∀ x ∈ s.places, P x) ∧ ∀ t ∈ r, ∀ o ∈ t.out, ∀ x ∈ o.handed, P x := by
  have hinit : ∀ x ∈ (Sys.init : Sys T).places, P x := by
    simp [Sys.places, Sys.init, Sys.idle, Sys.out, Sys.pool, newUnchecked]
  obtain ⟨hend, hmem⟩ := hr.invariant (P := fun s : Sys T => ∀ x ∈ s.places, P x)
    (K := fun t => Supplies P t.ev) (fun t ht hK hs => (useStep_keeps ht hK hs).1) hP hinit
  exact ⟨hend, fun t ht => (useStep_keeps (hr.isStep t ht) (hP t ht) (hmem t ht).1).2⟩

end Kept

end Transportx.Pool
