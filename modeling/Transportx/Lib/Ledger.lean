import Mathlib.Algebra.BigOperators.Group.Finset.Basic
import Mathlib.Algebra.BigOperators.Group.Finset.Piecewise
import Mathlib.Algebra.Order.BigOperators.Group.Finset

/-!
# Transportx.Lib.Ledger — finitely many entries, each with its state, and totals over them

General support, independent of any particular system.  A `Ledger ι τ` records for finitely many
keys a value of `τ`.  `total g` adds the weight `g` of every entry in a commutative monoid, so one
lemma about `put` counts entries (weights in `ℕ`) and collects what they hold (weights in
`Multiset`).
-/

/-- Finitely many keys `ids`, each with a value.  Off `ids` the function `val` is junk. -/
structure Ledger (ι τ : Type*) where
  ids : Finset ι
  val : ι → τ

namespace Ledger

/-! ## Totals -/

section Total

variable {ι τ M : Type*} [AddCommMonoid M]

def total (l : Ledger ι τ) (g : τ → M) : M := ∑ c ∈ l.ids, g (l.val c)

/-- The sum of a weight over the entries whose keys satisfy `F`. -/
def totalOn (l : Ledger ι τ) (F : ι → Prop) [DecidablePred F] (g : τ → M) : M :=
  ∑ c ∈ l.ids with F c, g (l.val c)

def empty (d : τ) : Ledger ι τ := ⟨∅, fun _ => d⟩

@[simp] theorem total_empty (d : τ) (g : τ → M) : (empty d : Ledger ι τ).total g = 0 := by
  simp [empty, total]

theorem total_add (l : Ledger ι τ) (g g' : τ → M) :
    l.total (fun v => g v + g' v) = l.total g + l.total g' :=
  Finset.sum_add_distrib

theorem total_eq_zero {l : Ledger ι τ} {g : τ → M} {h : τ → ℕ} (hl : l.total h = 0)
    (hg : ∀ v, h v = 0 → g v = 0) : l.total g = 0 :=
  Finset.sum_eq_zero fun c hc => hg _ (Finset.sum_eq_zero_iff.mp hl c hc)

/-- The keys whose entries have a positive weight. -/
def support (l : Ledger ι τ) (g : τ → ℕ) : Finset ι := l.ids.filter fun c => 0 < g (l.val c)

/-- Entries that weigh at most one are counted by their weight. -/
theorem card_support {l : Ledger ι τ} {g : τ → ℕ} (hg : ∀ v, g v ≤ 1) : (l.support g).card = l.total g := by
  unfold support total
  rw [Finset.card_filter]
  refine Finset.sum_congr rfl fun c _ => ?_
  have := hg (l.val c)
  split <;> omega

end Total

/-! ## Reading and writing entries -/

section Entries

variable {ι τ M : Type*} [DecidableEq ι]

def get (l : Ledger ι τ) (c : ι) : Option τ := if c ∈ l.ids then some (l.val c) else none

/-- Set the value of a key, new or not. -/
def put (l : Ledger ι τ) (c : ι) (v : τ) : Ledger ι τ := ⟨insert c l.ids, Function.update l.val c v⟩

@[simp] theorem get_empty (d : τ) (c : ι) : (empty d : Ledger ι τ).get c = none := by
  simp [empty, get]

@[simp] theorem get_put_self (l : Ledger ι τ) (c : ι) (v : τ) : (l.put c v).get c = some v := by
  simp [get, put]

theorem get_put_of_ne (l : Ledger ι τ) {c d : ι} (v : τ) (h : d ≠ c) : (l.put c v).get d = l.get d := by
  simp [get, put, h]

theorem get_put (l : Ledger ι τ) (c d : ι) (v : τ) :
    (l.put c v).get d = if d = c then some v else l.get d := by
  split
  · next h => subst h; exact get_put_self l d v
  · next h => exact get_put_of_ne l v h

theorem mem_of_get {l : Ledger ι τ} {c : ι} {v : τ} (h : l.get c = some v) : c ∈ l.ids ∧ l.val c = v := by
  unfold get at h
  split at h
  · next hc => exact ⟨hc, Option.some.inj h⟩
  · cases h

theorem get_eq_none {l : Ledger ι τ} {c : ι} : l.get c = none ↔ c ∉ l.ids := by
  simp [get]

theorem get_of_mem {l : Ledger ι τ} {c : ι} (h : c ∈ l.ids) : l.get c = some (l.val c) := if_pos h

variable [AddCommMonoid M] {l : Ledger ι τ} {g : τ → M}

theorem total_eq_add {c : ι} {u : τ} (h : l.get c = some u) :
    l.total g = g u + ∑ d ∈ l.ids.erase c, g (l.val d) := by
  obtain ⟨hc, hv⟩ := mem_of_get h
  rw [total, ← Finset.add_sum_erase _ _ hc, hv]

theorem sum_update (s : Finset ι) (f : ι → τ) {c : ι} (v : τ) (hc : c ∉ s) :
    ∑ d ∈ s, g (Function.update f c v d) = ∑ d ∈ s, g (f d) := by
  refine Finset.sum_congr rfl fun d hd => ?_
  have hne : d ≠ c := by rintro rfl; exact hc hd
  rw [Function.update_of_ne hne]

theorem total_put_new {c : ι} (v : τ) (h : l.get c = none) :
    (l.put c v).total g = l.total g + g v := by
  have hc : c ∉ l.ids := get_eq_none.mp h
  simp only [total, put]
  rw [Finset.sum_insert hc, Function.update_self, sum_update _ _ _ hc, add_comm]

theorem total_put_eq_add {c : ι} {u : τ} (v : τ) (h : l.get c = some u) :
    (l.put c v).total g = g v + ∑ d ∈ l.ids.erase c, g (l.val d) := by
  have hids : (l.put c v).ids.erase c = l.ids.erase c := by
    simp [put, Finset.insert_eq_of_mem (mem_of_get h).1]
  rw [total_eq_add (get_put_self l c v), hids]
  exact congrArg (g v + ·) (sum_update _ _ _ (Finset.notMem_erase c l.ids))

/-- **Overwriting an entry** exchanges the old weight for the new one. -/
theorem total_put {c : ι} {u : τ} (v : τ) (h : l.get c = some u) :
    (l.put c v).total g + g u = l.total g + g v := by
  rw [total_put_eq_add v h, total_eq_add h, add_right_comm, add_comm (g v), add_right_comm]

theorem total_put_same {c : ι} {u v : τ} (h : l.get c = some u) (hg : g v = g u) :
    (l.put c v).total g = l.total g := by
  rw [total_put_eq_add v h, total_eq_add h, hg]

/-- **Writing an entry**, new or not: what a missing entry weighs is `0`. -/
theorem total_put_get (l : Ledger ι τ) (g : τ → M) (c : ι) (v : τ) :
    (l.put c v).total g + (l.get c).elim 0 g = l.total g + g v := by
  cases h : l.get c with
  | none => rw [Option.elim_none, add_zero, total_put_new v h]
  | some u => exact total_put v h

theorem le_total (g : τ → ℕ) {c : ι} {u : τ} (h : l.get c = some u) : g u ≤ l.total g := by
  rw [total_eq_add h]
  exact Nat.le_add_right _ _

/-- A positive total comes from an entry of positive weight. -/
theorem exists_of_total_pos {g : τ → ℕ} (h : 0 < l.total g) : ∃ c v, l.get c = some v ∧ 0 < g v := by
  obtain ⟨c, hc, hpos⟩ := Finset.exists_lt_of_sum_lt
    (s := l.ids) (f := fun _ => 0) (g := fun c => g (l.val c)) (by simpa [total] using h)
  exact ⟨c, l.val c, get_of_mem hc, hpos⟩

/-- A ledger without the entries in `F`, and otherwise of the same weights, lacks the weight of `F`. -/
theorem total_eq_add_totalOn {l l' : Ledger ι τ} {F : ι → Prop} [DecidablePred F] {g : τ → M}
    (hF : ∀ c, F c → l'.get c = none) (h : ∀ c, ¬ F c → (l'.get c).map g = (l.get c).map g) :
    l.total g = l'.total g + l.totalOn F g := by
  have hids : l'.ids = l.ids.filter fun c => ¬ F c := by
    ext c
    rw [Finset.mem_filter]
    by_cases hc : F c
    · simp [hc, get_eq_none.mp (hF c hc)]
    · have hsome := congrArg Option.isSome (h c hc)
      simp only [Option.isSome_map] at hsome
      simpa [hc, get, apply_ite Option.isSome] using hsome
  unfold total totalOn
  rw [hids, ← Finset.sum_filter_add_sum_filter_not l.ids F, add_comm]
  refine congrArg (· + _) (Finset.sum_congr rfl fun c hc => ?_)
  have hmem := Finset.mem_filter.mp hc
  have hval := h c hmem.2
  rw [get_of_mem hmem.1, get_of_mem (hids ▸ hc)] at hval
  exact (Option.some.inj hval).symm

/-! ## The entries of positive weight -/

section Support

variable {l : Ledger ι τ} {g : τ → ℕ} {c : ι} {u v : τ}

theorem mem_support : c ∈ l.support g ↔ ∃ v, l.get c = some v ∧ 0 < g v := by
  unfold support
  rw [Finset.mem_filter]
  constructor
  · rintro ⟨hc, hpos⟩
    exact ⟨l.val c, get_of_mem hc, hpos⟩
  · rintro ⟨v, hget, hpos⟩
    obtain ⟨hc, rfl⟩ := mem_of_get hget
    exact ⟨hc, hpos⟩

theorem mem_support_of_get (h : l.get c = some v) : c ∈ l.support g ↔ 0 < g v := by
  rw [mem_support, h]
  constructor
  · rintro ⟨u, hu, hpos⟩
    rwa [Option.some.inj hu]
  · exact fun hpos => ⟨v, rfl, hpos⟩

theorem support_put_pos (hv : 0 < g v) : (l.put c v).support g = insert c (l.support g) := by
  ext d
  rw [Finset.mem_insert, mem_support, mem_support, get_put]
  by_cases hd : d = c <;> simp [hd, hv]

theorem support_put_zero (hv : g v = 0) : (l.put c v).support g = (l.support g).erase c := by
  ext d
  rw [Finset.mem_erase, mem_support, mem_support, get_put]
  by_cases hd : d = c <;> simp [hd, hv]

/-- Overwriting an entry by one of the same weight. -/
theorem support_put_same (h : l.get c = some u) (hg : g v = g u) : (l.put c v).support g = l.support g := by
  ext d
  by_cases hd : d = c
  · subst hd
    rw [mem_support_of_get h, mem_support_of_get (get_put_self l d v), hg]
  · rw [mem_support, mem_support, get_put_of_ne l v hd]

end Support

/-! ## Changing all entries -/

section Alter

variable {h : ι → τ → τ}

/-- Change the value of every entry, as its key says. -/
def alter (l : Ledger ι τ) (h : ι → τ → τ) : Ledger ι τ :=
  ⟨l.ids, fun c => if c ∈ l.ids then h c (l.val c) else l.val c⟩

theorem get_alter (l : Ledger ι τ) (h : ι → τ → τ) (c : ι) : (l.alter h).get c = (l.get c).map (h c) := by
  unfold get alter
  by_cases hc : c ∈ l.ids <;> simp [hc]

theorem alter_put (l : Ledger ι τ) (h : ι → τ → τ) (c : ι) (v : τ) :
    (l.put c v).alter h = (l.alter h).put c (h c v) := by
  unfold alter put
  congr 1
  funext d
  by_cases hd : d = c
  · subst hd; simp
  · simp [hd]

/-- Writing the value that an entry has changes nothing. -/
theorem put_eq_self {c : ι} {v : τ} (hget : l.get c = some v) : l.put c v = l := by
  obtain ⟨hc, rfl⟩ := mem_of_get hget
  unfold put
  rw [Finset.insert_eq_of_mem hc, Function.update_eq_self]

theorem alter_eq_self (hl : ∀ c v, l.get c = some v → h c v = v) : l.alter h = l := by
  have hval : (fun c => if c ∈ l.ids then h c (l.val c) else l.val c) = l.val := by
    funext c
    split
    · next hc => exact hl c (l.val c) (get_of_mem hc)
    · rfl
  unfold alter
  rw [hval]

theorem total_alter (hg : ∀ c v, g (h c v) = g v) : (l.alter h).total g = l.total g := by
  refine Finset.sum_congr rfl fun c hc => ?_
  have hval : (l.alter h).val c = h c (l.val c) := if_pos hc
  rw [hval, hg]

end Alter

/-! ## Mapping -/

section Map

variable {τ' : Type*} {f : τ → τ'}

/-- The ledger with the images of its values. -/
def map (f : τ → τ') (l : Ledger ι τ) : Ledger ι τ' := ⟨l.ids, fun c => f (l.val c)⟩

theorem get_map (l : Ledger ι τ) (f : τ → τ') (c : ι) : (l.map f).get c = (l.get c).map f := by
  unfold get map
  by_cases hc : c ∈ l.ids <;> simp [hc]

theorem map_put (l : Ledger ι τ) (f : τ → τ') (c : ι) (v : τ) : (l.put c v).map f = (l.map f).put c (f v) := by
  unfold map put
  congr 1
  funext d
  by_cases hd : d = c
  · subst hd; simp
  · simp [hd]

omit [DecidableEq ι] in
theorem total_map (l : Ledger ι τ) (f : τ → τ') (g : τ' → M) : (l.map f).total g = l.total fun v => g (f v) :=
  rfl

/-- The junk of the ledger is one value. -/
def Blank (d : τ) (l : Ledger ι τ) : Prop := ∀ c, l.get c = none → l.val c = d

theorem Blank.empty (d : τ) : Blank d (empty d : Ledger ι τ) := fun _ _ => rfl

theorem Blank.put {d : τ} {l : Ledger ι τ} (h : Blank d l) (c : ι) (v : τ) : Blank d (l.put c v) := by
  intro e he
  rw [get_put] at he
  split at he
  · cases he
  · next hne => exact (Function.update_of_ne hne v l.val).trans (h e he)

/-- Maps that agree on the junk and on the entries but one give the same ledger, once that one is written. -/
theorem Blank.map_put_congr {d : τ} {l : Ledger ι τ} (h : Blank d l) {f f' : τ → τ'} (hd : f d = f' d) (c : ι)
    (hf : ∀ e v, e ≠ c → l.get e = some v → f v = f' v) (u : τ') : (l.map f).put c u = (l.map f').put c u := by
  unfold Ledger.map Ledger.put
  congr 1
  funext e
  by_cases he : e = c
  · subst he; simp
  · rw [Function.update_of_ne he, Function.update_of_ne he]
    show f (l.val e) = f' (l.val e)
    cases hget : l.get e with
    | none => rw [h e hget, hd]
    | some v =>
      have hv := hf e v he hget
      rwa [← (mem_of_get hget).2] at hv

theorem Blank.map_congr {d : τ} {l : Ledger ι τ} (h : Blank d l) {f f' : τ → τ'} (hd : f d = f' d)
    (hf : ∀ c v, l.get c = some v → f v = f' v) : l.map f = l.map f' := by
  unfold Ledger.map
  congr 1
  funext c
  cases hget : l.get c with
  | none => rw [h c hget, hd]
  | some v =>
    have hv := hf c v hget
    rwa [← (mem_of_get hget).2] at hv

end Map

/-! ## Collecting -/

section Collect

variable {α : Type*} {l : Ledger ι τ} {g : τ → Multiset α} {x : α}

theorem mem_total : x ∈ l.total g ↔ ∃ c v, l.get c = some v ∧ x ∈ g v := by
  unfold total
  rw [Multiset.mem_sum]
  constructor
  · rintro ⟨c, hc, hx⟩
    exact ⟨c, l.val c, get_of_mem hc, hx⟩
  · rintro ⟨c, v, hget, hx⟩
    obtain ⟨hc, rfl⟩ := mem_of_get hget
    exact ⟨c, hc, hx⟩

/-- If a total holds nothing twice, no two entries hold the same thing. -/
theorem key_unique (hl : (l.total g).Nodup) {c d : ι} {u v : τ} (hc : l.get c = some u)
    (hd : l.get d = some v) (hu : x ∈ g u) (hv : x ∈ g v) : c = d := by
  by_contra hne
  rw [total_eq_add hc] at hl
  obtain ⟨hdm, rfl⟩ := mem_of_get hd
  have hrest : x ∈ ∑ e ∈ l.ids.erase c, g (l.val e) :=
    Multiset.mem_sum.mpr ⟨d, Finset.mem_erase.mpr ⟨Ne.symm hne, hdm⟩, hv⟩
  exact Multiset.disjoint_left.mp (Multiset.nodup_add.mp hl).2.2 hu hrest

end Collect

end Entries

end Ledger
