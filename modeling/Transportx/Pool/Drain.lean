import Transportx.Pool.Conservation

/-!
# Transportx.Pool.Drain — calls come to their end, and the pool is whole again

Nothing in `pool.rs` waits for a permit, and `checkout_idle_timeout` waits until a deadline.  So when no new
calls are made and no waiter goes back to sleep, every call comes to its end after at most three steps of
its own, whatever the order (`Call.work`), none is ever stuck, and what is left is a pool with all its permits
and every object accounted for.
-/

namespace Transportx.Pool

open Lts

variable {w : ℕ} {T : Type} {cfg : PoolConfig w} {s s' : Sys T} {l : Label T} {o : Outcome T}
  {ev : Event T} {c : CallId} {old : Option (Call T)} {new : Call T} {m : Move T}

/-- The steps that a call still has before it, at most: a lease whose object was detached is still to be
dropped, and a sleeper wakes up, may get an object, and returns it. -/
def Call.work : Call T → ℕ
  | .inFlight _ => 3
  | .lease (some _) => 2
  | .lease none => 1
  | .manual _ => 1
  | .waiting _ .asleep => 3
  | .waiting _ _ => 2
  | .closed | .failed => 0

def Sys.work (s : Sys T) : ℕ := s.calls.total Call.work

/-- The steps that bring a call which has begun nearer to its end: all but a waiter's going back to sleep. -/
def finishing (t : Step T) : Bool :=
  match t.ev.1, t.out with
  | .factory _ _, _ | .returnManual _, _ | .dropLease _, _ | .wake _ _, _ => true
  | .intoInner _, .detached (some _) => true
  | .idleResume _ _, .hit _ | .idleResume _ _, .idleNone => true
  | _, _ => false

/-- No step of any call can bring it nearer to its end. -/
def AtRest (cfg : PoolConfig w) (s : Sys T) : Prop :=
  ∀ t, IsStep (step cfg) t → t.pre = s → ¬ finishing t = true

theorem Call.ended_of_work {v : Call T} (h : v.work = 0) : v = .closed ∨ v = .failed := by
  unfold work at h
  split at h <;> first | omega | simp

theorem Call.work_le (v : Call T) : v.work ≤ 3 := by
  unfold work
  split <;> omega

/-! ## Every such step lowers the work -/

/-- Notification is part of a sleeper's work. -/
theorem Wakes.work_le {pick : Option CallId} {calls calls' : Ledger CallId (Call T)}
    (h : Wakes m pick calls calls') : calls'.total Call.work ≤ calls.total Call.work := by
  unfold Wakes at h
  split at h
  · rcases notifyOne_some h with ⟨-, rfl⟩ | ⟨c, timeout, hget, rfl⟩
    · exact le_rfl
    · have hput := Ledger.total_put (g := Call.work) (.waiting timeout .notified) hget
      simp only [Call.work] at hput
      omega
  · rw [h]

theorem CallMove.work_lt {pick : Option CallId} (h : CallMove cfg ev o c old new m)
    (hf : finishing ⟨s, (ev, pick), o, s'⟩ = true) : new.work < old.elim 0 Call.work := by
  cases h with
  | created _ kind item => cases kind <;> simp [handOut, Call.work]
  | detachedNone | resumeSlept | hit | reserved | exhausted | entryHit | entrySlept | entryNone =>
    simp [finishing] at hf
  | @resumeHit _ _ _ _ wait hw | @resumeNone _ _ _ wait hw =>
    cases wait with
    | asleep => exact absurd rfl hw
    | _ => simp [Call.work]
  | _ => simp [Call.work]

theorem work_lt {t : Step T} (ht : IsStep (step cfg) t) (hf : finishing t = true) : t.post.work < t.pre.work := by
  obtain ⟨pre, ⟨ev, pick⟩, out, post⟩ := t
  unfold Sys.work
  cases step_cases ht with
  | @call ev o c old new m pick s' hc hget hpool hwakes =>
    have hnew := hc.work_lt hf
    have hle : post.calls.total Call.work ≤ (pre.calls.put c new).total Call.work := hwakes.work_le
    have hput := Ledger.total_put_get pre.calls Call.work c new
    rw [hget] at hput
    show post.calls.total Call.work < pre.calls.total Call.work
    omega
  | foreign | poison => cases hf

/-! ## No call is stuck -/

/-- A call that has not ended can take a step towards its end, whatever the others do. -/
theorem exists_finishing (cfg : PoolConfig w) {v : Call T} (hget : s.calls.get c = some v) (hv : 0 < v.work) :
    ∃ t, IsStep (step cfg) t ∧ t.pre = s ∧ t.ev.1.call = some c ∧ finishing t = true := by
  have go : ∀ {ev : Event T} {o : Outcome T} {new : Call T} {m : Move T} {g : PoolState T},
      CallMove cfg ev o c (some v) new m → PoolMove cfg m s.pool g → ev.call = some c →
      (∀ pick s', finishing ⟨s, (ev, pick), o, s'⟩ = true) →
      ∃ t, IsStep (step cfg) t ∧ t.pre = s ∧ t.ev.1.call = some c ∧ finishing t = true := by
    intro ev o new m g hc hm hcall hf
    obtain ⟨pick, calls', hw⟩ := exists_wakes m (s.calls.put c new)
    obtain ⟨s', hs, -⟩ := step_of_moves hc hget hm hw
    exact ⟨⟨s, (ev, pick), o, s'⟩, hs, rfl, hcall, hf pick s'⟩
  cases v with
  | inFlight kind => exact go (.unwound c kind) (.release _) rfl fun _ _ => rfl
  | manual item => exact go (.returned c item _) (.give item _) rfl fun _ _ => rfl
  | lease item =>
    cases item with
    | some item => exact go (.dropped c item _) (.give item _) rfl fun _ _ => rfl
    | none => exact go (.emptyLease c) (.skip _) rfl fun _ _ => rfl
  | waiting timeout wait =>
    by_cases hw : wait = .asleep
    · subst hw
      exact go (.woke c true timeout) (.skip _) rfl fun _ _ => rfl
    · -- the deadline has passed: the round ends with an object or with `None`
      rcases idleAfterWait_cases cfg s.pool wait.timedOut timeout timeout with
        ⟨item, g, -, hm⟩ | ⟨-, hm, hend⟩ | ⟨left, -, -, -, hleft⟩
      · exact go (.resumeHit c timeout timeout item hw) hm rfl fun _ _ => rfl
      · exact go (.resumeNone c hw hend) hm rfl fun _ _ => rfl
      · exact absurd (Nat.sub_self timeout) hleft
  | closed | failed => exact absurd hv (Nat.lt_irrefl 0)

theorem work_of_rest (h : AtRest cfg s) : s.work = 0 := by
  by_contra hne
  obtain ⟨c, v, hget, hv⟩ := Ledger.exists_of_total_pos (Nat.pos_of_ne_zero hne)
  obtain ⟨t, ht, hpre, -, hf⟩ := exists_finishing cfg hget hv
  exact h t ht hpre hf

theorem lawful_of_finishing {t : Step T} (h : finishing t = true) : Lawful t := by
  intro item hev
  unfold finishing at h
  rw [hev] at h
  cases h

/-- **A pool drains.**  After any disciplined run of a pool from `try_new`, let the calls go on in
any order, but begin no new ones, and let no waiter go back to sleep.  That takes at most as many steps as
there is work, which is no more than three for a call, and no call that has not ended is ever stuck.  When
nothing is left to do, all permits are back, nobody waits, and every object that was ever created is idle, was
detached or was discarded; that is reached from everywhere. -/
theorem pool_drains (cfg : PoolConfig w) {new : Sys T} (hnew : tryNew cfg = .ok new) {r : List (Step T)}
    {s : Sys T} (hr : Path (step cfg) new r s) (hd : Disciplined r) :
    s.work ≤ 3 * s.calls.ids.card ∧
    (∀ r' s', Path (step cfg) s r' s' → (∀ t ∈ r', finishing t = true) →
      r'.length + s'.work ≤ s.work ∧
      (∀ c v, s'.calls.get c = some v → v = .closed ∨ v = .failed ∨
        ∃ t, IsStep (step cfg) t ∧ t.pre = s' ∧ t.ev.1.call = some c ∧ finishing t = true) ∧
      (AtRest cfg s' → s'.checkedOut = 0 ∧ s'.asleep = 0 ∧ s'.notified = 0 ∧
        (s'.idle : Multiset T) + detachedIn (r ++ r') + discardedIn (r ++ r') = createdIn (r ++ r'))) ∧
    ∃ r' s', Path (step cfg) s r' s' ∧ (∀ t ∈ r', finishing t = true) ∧ AtRest cfg s' := by
  obtain ⟨hv, rfl⟩ := tryNew_ok.mp hnew
  refine ⟨?_, fun r' s' hr' hf => ⟨?_, fun c v hget => ?_, fun hrest => ?_⟩, ?_⟩
  · calc s.work ≤ s.calls.ids.card • 3 := Finset.sum_le_card_nsmul _ _ _ fun c _ => Call.work_le _
      _ = 3 * s.calls.ids.card := Nat.mul_comm _ _
  · exact hr'.length_add_le fun t ht => work_lt (hr'.isStep t ht) (hf t ht)
  · rcases Nat.eq_zero_or_pos v.work with h0 | hpos
    · rcases Call.ended_of_work h0 with h | h
      · exact Or.inl h
      · exact Or.inr (Or.inl h)
    · exact Or.inr (Or.inr (exists_finishing cfg hget hpos))
  · have hrun : Run cfg (r ++ r') s' := hr.append hr'
    have hdis : Disciplined (r ++ r') := by
      intro t ht
      rcases List.mem_append.mp ht with ht | ht
      · exact hd t ht
      · exact lawful_of_finishing (hf t ht)
    have hex := (run_exact (PoolConfig.validate_ok.mp hv).2 hrun hdis).1.2
    have hplaces := places_run hrun hdis
    -- a call that has ended weighs nothing
    have ended : ∀ {M : Type} [AddCommMonoid M] (g : Call T → M), g .closed = 0 → g .failed = 0 →
        s'.calls.total g = 0 := by
      intro M _ g hclosed hfailed
      refine Ledger.total_eq_zero (work_of_rest hrest) fun v hv => ?_
      rcases Call.ended_of_work hv with rfl | rfl
      · exact hclosed
      · exact hfailed
    have hout : s'.out = 0 := ended Call.items rfl rfl
    rw [hout, add_zero] at hplaces
    exact ⟨hex.trans (ended Call.opens rfl rfl), ended Call.asleep rfl rfl, ended Call.notified rfl rfl, hplaces⟩
  · exact exists_path_rest (fun t ht hf => work_lt ht hf) s

theorem pool_drains_sample : ∃ r' s', Path (step sampleConfig) sample.2 r' s' ∧ r'.length ≤ 5 ∧
    s'.checkedOut = 0 ∧ s'.asleep = 0 := by
  obtain ⟨-, hbound, r', s', hr', hf, hrest⟩ :=
    pool_drains sampleConfig (tryNew_ok.mpr ⟨sampleConfig_valid, rfl⟩) sample_run.1 sample_run.2
  have hwork : sample.2.work = 5 := by decide
  have h := hbound r' s' hr' hf
  have hend := h.2.2 hrest
  exact ⟨r', s', hr', by omega, hend.1, hend.2.1⟩

end Transportx.Pool
