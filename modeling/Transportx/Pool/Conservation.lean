import Mathlib.Tactic.Abel
import Transportx.Pool.Permits

/-!
# Transportx.Pool.Conservation — every created object is in exactly one place

Objects move between factories, the idle stack, leases, manual borrowers and waiters through separate
critical sections.  `places_run` balances them as multisets: what was created is what is idle
or out, with what was detached by `into_inner` and what a return discarded.  If every created object
has its own identity, the balance says that each of them is in exactly one `Place`.

A return discards its object only when `idle` is at `max_idle`.  With `max_idle = max_pool_size` it
never does: by exact accounting the return holds a permit of its own, so `idle` has room for it.
-/

namespace Transportx.Pool

variable {w : ℕ} {T : Type} {cfg : PoolConfig w} {s s' : Sys T} {l : Label T} {o : Outcome T}
  {ev : Event T} {c : CallId} {old : Option (Call T)} {new : Call T} {m : Move T}
  {g g' : PoolState T}

/-! ## What flows in and out -/

def Outcome.creates : Outcome T → Multiset T
  | .created item => {item}
  | _ => 0

def Outcome.detaches : Outcome T → Multiset T
  | .detached (some item) => {item}
  | _ => 0

def Outcome.discards : Outcome T → Multiset T
  | .returned dropped => dropped.elim 0 ({·})
  | _ => 0

def createdIn (r : List (Step T)) : Multiset T := (r.map fun t => t.out.creates).sum

def detachedIn (r : List (Step T)) : Multiset T := (r.map fun t => t.out.detaches).sum

def discardedIn (r : List (Step T)) : Multiset T := (r.map fun t => t.out.discards).sum

/-- The objects that the pool and its borrowers hold. -/
def Sys.places (s : Sys T) : Multiset T := (s.idle : Multiset T) + s.out

/-! ## One step -/

def Move.takenOut : Move T → Multiset T
  | .take item => {item}
  | _ => 0

def Move.broughtBack : Move T → Multiset T
  | .give item _ => {item}
  | _ => 0

def Move.droppedItem : Move T → Multiset T
  | .give _ dropped => dropped.elim 0 ({·})
  | _ => 0

theorem PoolMove.items (h : PoolMove cfg m g g') :
    (g'.idle : Multiset T) + m.takenOut + m.droppedItem = (g.idle : Multiset T) + m.broughtBack := by
  cases h with
  | take item rest n =>
    show (rest : Multiset T) + {item} + 0 = ((item :: rest : List T) : Multiset T) + 0
    rw [add_zero, add_zero, add_comm, Multiset.singleton_add, Multiset.cons_coe]
  | give item g =>
    unfold returnClient
    simp only [giveBackPermit_idle]
    split
    · -- there is room: the object is pushed
      show ((item :: g.idle : List T) : Multiset T) + 0 + 0 = (g.idle : Multiset T) + {item}
      rw [add_zero, add_zero, add_comm, Multiset.singleton_add, Multiset.cons_coe]
    · simp [Move.takenOut, Move.droppedItem, Move.broughtBack]
  | release g => simp [Move.takenOut, Move.droppedItem, Move.broughtBack, releasePermit]
  | _ => simp [Move.takenOut, Move.droppedItem, Move.broughtBack]

theorem items_blind : Blind (T := T) Call.items := fun _ => rfl

section Items

variable (kind : Kind) (item : T) (timeout : Duration) (wait : Wait)

@[simp] theorem items_inFlight : (Call.inFlight kind : Call T).items = 0 := rfl

@[simp] theorem items_manual : (Call.manual item).items = {item} := rfl

@[simp] theorem items_lease : (Call.lease (some item)).items = {item} := rfl

@[simp] theorem items_emptyLease : (Call.lease none : Call T).items = 0 := rfl

@[simp] theorem items_waiting : (Call.waiting timeout wait : Call T).items = 0 := rfl

@[simp] theorem items_closed : (Call.closed : Call T).items = 0 := rfl

@[simp] theorem items_failed : (Call.failed : Call T).items = 0 := rfl

@[simp] theorem items_handOut : (handOut kind item).items = {item} := by
  cases kind <;> rfl

end Items

/-- What a call holds changes by what it is handed, what it gives back and what it detaches. -/
theorem CallMove.items (h : CallMove cfg ev o c old new m) :
    new.items + m.broughtBack + o.detaches = old.elim 0 Call.items + m.takenOut + o.creates ∧
      m.droppedItem = o.discards := by
  cases h <;> constructor <;>
    simp [Move.broughtBack, Move.takenOut, Move.droppedItem, Outcome.detaches, Outcome.creates,
      Outcome.discards]

/-- **One step balances**: what is created enters, what is detached or discarded leaves. -/
theorem places_step (h : step cfg s l = some (o, s'))
    (hd : ∀ item, l.1 ≠ .returnForeign item) :
    s'.places + (o.detaches + o.discards) = s.places + o.creates := by
  cases step_cases h with
  | @call ev o c old new m pick s' hc hget hpool hwakes =>
    have hcalls : s'.out + old.elim 0 Call.items = s.out + new.items :=
      CallMove.balance items_blind hget hwakes
    have hidle : (s'.idle : Multiset T) + m.takenOut + m.droppedItem = s.idle + m.broughtBack :=
      hpool.items
    obtain ⟨hitems, hdrop⟩ := hc.items
    rw [← hdrop]
    -- the three balances add up once the object that moved is cancelled
    refine add_right_cancel (b := old.elim 0 Call.items + m.takenOut + m.broughtBack + new.items) ?_
    unfold Sys.places
    calc (s'.idle : Multiset T) + s'.out + (o.detaches + m.droppedItem) +
          (old.elim 0 Call.items + m.takenOut + m.broughtBack + new.items)
        = (s'.out + old.elim 0 Call.items) + ((s'.idle : Multiset T) + m.takenOut + m.droppedItem) +
            (new.items + m.broughtBack + o.detaches) := by abel
      _ = (s.out + new.items) + ((s.idle : Multiset T) + m.broughtBack) +
            (old.elim 0 Call.items + m.takenOut + o.creates) := by rw [hcalls, hidle, hitems]
      _ = (s.idle : Multiset T) + s.out + o.creates +
          (old.elim 0 Call.items + m.takenOut + m.broughtBack + new.items) := by abel
  | foreign => exact absurd rfl (hd _)
  | poison hpool hcalls =>
    unfold Sys.places Sys.idle Sys.out
    rw [hpool, hcalls]
    rfl

/-- **Conservation**: what was created is idle, out, detached or discarded. -/
theorem places_run {r : List (Step T)} {s : Sys T} (hr : Run cfg r s) (hd : Disciplined r) :
    (s.idle : Multiset T) + s.out + detachedIn r + discardedIn r = createdIn r := by
  have htel := hr.telescope Sys.places (fun t => t.out.creates) (fun t => t.out.detaches + t.out.discards)
    fun t ht => places_step (hr.isStep t ht) (hd t ht)
  have hsum : (r.map fun t => t.out.detaches + t.out.discards).sum = detachedIn r + discardedIn r :=
    List.sum_map_add
  have hinit : (Sys.init : Sys T).places = 0 := by
    simp [Sys.places, Sys.init, Sys.idle, Sys.out, Sys.pool, newUnchecked]
  rw [hsum, hinit, zero_add] at htel
  rw [add_assoc]
  exact htel

/-! ## Places -/

inductive Place
  | idle
  | borrowed (c : CallId)
  | detached
  | discarded

/-- `x` is in this place after the run `r`, which ended in `s`. -/
def Located (r : List (Step T)) (s : Sys T) (x : T) : Place → Prop
  | .idle => x ∈ s.idle
  | .borrowed c => ∃ v, s.calls.get c = some v ∧ x ∈ v.items
  | .detached => x ∈ detachedIn r
  | .discarded => x ∈ discardedIn r

/-- The objects that a kind of place holds, all of it together. -/
def Place.contents (r : List (Step T)) (s : Sys T) : Place → Multiset T
  | .idle => s.idle
  | .borrowed _ => s.out
  | .detached => detachedIn r
  | .discarded => discardedIn r

theorem mem_contents {r : List (Step T)} {s : Sys T} {x : T} {p : Place} (h : Located r s x p) :
    x ∈ p.contents r s := by
  cases p with
  | borrowed c =>
    obtain ⟨v, hget, hx⟩ := h
    exact Ledger.mem_total.mpr ⟨c, v, hget, hx⟩
  | _ => exact h

theorem exists_located {r : List (Step T)} {s : Sys T} {x : T}
    (h : x ∈ (s.idle : Multiset T) + s.out + detachedIn r + discardedIn r) : ∃ p, Located r s x p := by
  rcases Multiset.mem_add.mp h with h | h
  · rcases Multiset.mem_add.mp h with h | h
    · rcases Multiset.mem_add.mp h with h | h
      · exact ⟨.idle, h⟩
      · obtain ⟨c, v, hget, hx⟩ := Ledger.mem_total.mp h
        exact ⟨.borrowed c, v, hget, hx⟩
    · exact ⟨.detached, h⟩
  · exact ⟨.discarded, h⟩

/-- If nothing is anywhere twice, an object has one place. -/
theorem located_unique {r : List (Step T)} {s : Sys T}
    (hnd : ((s.idle : Multiset T) + s.out + detachedIn r + discardedIn r).Nodup) {x : T} {p q : Place}
    (hp : Located r s x p) (hq : Located r s x q) : p = q := by
  obtain ⟨h3, -, d3⟩ := Multiset.nodup_add.mp hnd
  obtain ⟨h2, -, d2⟩ := Multiset.nodup_add.mp h3
  obtain ⟨-, hout, d1⟩ := Multiset.nodup_add.mp h2
  rw [Multiset.disjoint_left] at d1 d2 d3
  have io : x ∈ s.idle → x ∉ s.out := fun h => d1 (Multiset.mem_coe.mpr h)
  have id : x ∈ s.idle → x ∉ detachedIn r := fun h => d2 (Multiset.mem_add.mpr (.inl h))
  have od : x ∈ s.out → x ∉ detachedIn r := fun h => d2 (Multiset.mem_add.mpr (.inr h))
  have ix : x ∈ s.idle → x ∉ discardedIn r := fun h =>
    d3 (Multiset.mem_add.mpr (.inl (Multiset.mem_add.mpr (.inl h))))
  have ox : x ∈ s.out → x ∉ discardedIn r := fun h =>
    d3 (Multiset.mem_add.mpr (.inl (Multiset.mem_add.mpr (.inr h))))
  have dx : x ∈ detachedIn r → x ∉ discardedIn r := fun h => d3 (Multiset.mem_add.mpr (.inr h))
  have mp := mem_contents hp
  have mq := mem_contents hq
  cases p with
  | idle =>
    cases q with
    | idle => rfl
    | borrowed c => exact absurd mq (io mp)
    | detached => exact absurd mq (id mp)
    | discarded => exact absurd mq (ix mp)
  | borrowed c =>
    cases q with
    | idle => exact absurd mp (io mq)
    | borrowed d =>
      -- two calls that hold the same object are one
      obtain ⟨u, hu, hxu⟩ := hp
      obtain ⟨v, hv, hxv⟩ := hq
      rw [Ledger.key_unique hout hu hv hxu hxv]
    | detached => exact absurd mq (od mp)
    | discarded => exact absurd mq (ox mp)
  | detached =>
    cases q with
    | idle => exact absurd mp (id mq)
    | borrowed d => exact absurd mp (od mq)
    | detached => rfl
    | discarded => exact absurd mq (dx mp)
  | discarded =>
    cases q with
    | idle => exact absurd mp (ix mq)
    | borrowed d => exact absurd mp (ox mq)
    | detached => exact absurd mp (dx mq)
    | discarded => rfl

/-! ## Discarding -/

/-- A return discards only on a full idle stack. -/
theorem PoolMove.full_of_discard {item x : T} {g g' : PoolState T}
    (h : PoolMove cfg (.give item (some x)) g g') : cfg.maxIdle ≤ g.idle.length := by
  generalize hd : some x = d at h
  cases h with
  | give =>
    unfold returnClient at hd
    simp only [giveBackPermit_idle] at hd
    split at hd
    · cases hd
    · next hlen => exact Nat.le_of_not_lt hlen

theorem full_of_discard {s s' : Sys T} {l : Label T} {x : T}
    (h : step cfg s l = some (.returned (some x), s')) : cfg.maxIdle ≤ s.idle.length := by
  generalize ho : Outcome.returned (some x) = o at h
  cases step_cases h with
  | call hc hget hpool hwakes =>
    cases hc <;> cases ho <;> exact hpool.full_of_discard
  | foreign hpool hwakes => cases ho; exact hpool.full_of_discard
  | poison => cases ho

/-- In a disciplined run a return discards only when it finds `idle` at `max_idle`. -/
theorem run_full_of_discard (hv : cfg.maxIdle ≤ cfg.maxPoolSize) {r : List (Step T)} {s : Sys T}
    (hr : Run cfg r s) (hd : Disciplined r) :
    ∀ t ∈ r, ∀ x, t.out = .returned (some x) → t.pre.idle.length = cfg.maxIdle := by
  intro t ht x hx
  have hstep := hr.isStep t ht
  unfold Lts.IsStep at hstep
  rw [hx] at hstep
  exact le_antisymm ((run_exact hv hr hd).2 t ht).1.1.idle_le (full_of_discard hstep)

/-- **Object conservation.**  In every disciplined run of a pool with a valid configuration, created
objects are, as a multiset, those that are idle, borrowed, detached or discarded.  If the created
objects are distinct, each is in exactly one place, `idle` holds nothing twice, and what is in some
place was created.  A return discards its object only when it finds `idle` at `max_idle`, and never
when `max_idle = max_pool_size`. -/
theorem object_conservation (cfg : PoolConfig w) (hv : cfg.validate = .ok ()) {r : List (Step T)} {s : Sys T}
    (hr : Run cfg r s) (hd : Disciplined r) :
    (s.idle : Multiset T) + s.out + detachedIn r + discardedIn r = createdIn r ∧
    ((createdIn r).Nodup →
      (∀ x ∈ createdIn r, ∃! p, Located r s x p) ∧ s.idle.Nodup ∧
      ∀ x p, Located r s x p → x ∈ createdIn r) ∧
    (∀ t ∈ r, ∀ x, t.out = .returned (some x) → t.pre.idle.length = cfg.maxIdle) ∧
    (cfg.maxIdle = cfg.maxPoolSize → ∀ t ∈ r, ∀ x, t.out ≠ .returned (some x)) := by
  have hcons := places_run hr hd
  have hv' := (PoolConfig.validate_ok.mp hv).2
  obtain ⟨-, hmem⟩ := run_exact hv' hr hd
  have hfull := run_full_of_discard hv' hr hd
  refine ⟨hcons, fun hnd => ?_, hfull, fun hmax t ht x hx => ?_⟩
  · rw [← hcons] at hnd ⊢
    refine ⟨fun x hx => ?_, ?_, fun x p hp => ?_⟩
    · obtain ⟨p, hp⟩ := exists_located hx
      exact ⟨p, hp, fun q hq => located_unique hnd hq hp⟩
    · exact Multiset.coe_nodup.mp
        (Multiset.nodup_add.mp (Multiset.nodup_add.mp (Multiset.nodup_add.mp hnd).1).1).1
    · have hc := mem_contents hp
      cases p <;> simp only [Place.contents] at hc <;> simp only [Multiset.mem_add] <;> tauto
  · -- the return gives back a permit of its own, so `idle` was not at `max_pool_size`
    obtain ⟨⟨hcap, hex⟩, -⟩ := hmem t ht
    have hpos := (exact_step (hr.isStep t ht) (hd t ht) hcap hex).2 (by rw [hx]; rfl)
    have hlen := hfull t ht x hx
    have hsum : t.pre.idle.length + t.pre.checkedOut ≤ cfg.maxPoolSize := hcap.sum_le
    omega

theorem object_conservation_sample :
    createdIn sample.1 = {10} ∧ (∃! p, Located sample.1 sample.2 10 p) ∧ sample.2.idle.Nodup ∧
      ∀ t ∈ sample.1, ∀ x, t.out ≠ .returned (some x) :=
  have h := object_conservation sampleConfig sampleConfig_valid sample_run.1 sample_run.2
  have hcreated : createdIn sample.1 = {10} := by decide
  have hnd : (createdIn sample.1).Nodup := hcreated ▸ Multiset.nodup_singleton 10
  have hmem : 10 ∈ createdIn sample.1 := hcreated ▸ Multiset.mem_singleton_self 10
  ⟨hcreated, (h.2.1 hnd).1 10 hmem, (h.2.1 hnd).2.1, h.2.2.2 rfl⟩

end Transportx.Pool
