import Transportx.Ws.Delivery

/-!
# Transportx.Ws.Close — what `ConnectionClosed { clean }` says after a `Close`

`clean` is documented to say whether the closing handshake was completed.  A connection keeps no memory
of a `Close`: `next_frame` answers it with `Ok(None)`, and the call after that finds the end of the
stream and reports an unclean end.  `unclean_report_iff` says exactly when the report can be trusted: if
no `Close` comes, or if `next_frame` is called no more often than there are items to answer with.
-/

namespace Transportx.Ws

/-- The stream ends after a `Close`. -/
def EndsAtClose (items : List Item) : Prop :=
  ∀ before reason rest, items = before ++ .ok (.close reason) :: rest → rest = []

def NoClose (items : List Item) : Prop := ∀ reason, Except.ok (Message.close reason) ∉ items

/-- A `Close` is among the items that have been taken from the stream of `conn` when it is at `now`. -/
def CloseReceived (conn now : Connection) : Prop :=
  ∃ taken reason, conn.stream.incoming = taken ++ now.stream.incoming ∧ .ok (.close reason) ∈ taken

theorem mem_answering_close {items : List Item} {reason : Option String} :
    .ok (.close reason) ∈ answering items ↔ .ok (.close reason) ∈ items := by
  simp [answering, isControl]

theorem exists_call : ∀ {r : List Call} {k : ℕ}, k < frameCalls r →
    ∃ r₁ t r₂, r = r₁ ++ t :: r₂ ∧ t.ev = .nextFrame ∧ frameCalls r₁ = k
  | [], k, h => by simp [frameCalls] at h
  | t :: r, k, h => by
    by_cases ht : t.ev = .nextFrame
    · cases k with
      | zero => exact ⟨[], t, r, rfl, ht, rfl⟩
      | succ k =>
        have hcount : frameCalls (t :: r) = frameCalls r + 1 := List.countP_cons_of_pos (by simpa using ht)
        obtain ⟨r₁, u, r₂, rfl, hu, hk⟩ := exists_call (r := r) (k := k) (by omega)
        refine ⟨t :: r₁, u, r₂, rfl, hu, ?_⟩
        rw [frameCalls, List.countP_cons_of_pos (by simpa using ht)]
        exact congrArg (· + 1) hk
    · have hcount : frameCalls (t :: r) = frameCalls r := List.countP_cons_of_neg (by simpa using ht)
      obtain ⟨r₁, u, r₂, rfl, hu, hk⟩ := exists_call (r := r) (k := k) (by omega)
      refine ⟨t :: r₁, u, r₂, rfl, hu, ?_⟩
      rw [frameCalls, List.countP_cons_of_neg (by simpa using ht)]
      exact hk

/-- Only `next_frame` returns a frame or the end. -/
theorem received_nextFrame {sink : Sink} {t : Call} (h : Lts.IsStep (step sink) t)
    {result : Except TransportError (Option Http.Bytes)} (ho : t.out = .received result) :
    t.ev = .nextFrame := by
  unfold Lts.IsStep at h
  rw [ho] at h
  cases hev : t.ev with
  | nextFrame => rfl
  | sendFrame | close => rw [hev] at h; cases (Prod.mk.inj (Option.some.inj h)).1

section Run

variable {sink : Sink} {conn conn' : Connection} {r₁ r₂ : List Call} {t : Call}

/-- What is left after a call: a suffix, to answer the calls after it. -/
theorem incoming_after (hr : Run sink conn (r₁ ++ t :: r₂) conn') (ht : t.ev = .nextFrame) :
    t.post.stream.incoming <:+ conn.stream.incoming ∧
      answering t.post.stream.incoming = (answering conn.stream.incoming).drop (frameCalls r₁ + 1) := by
  obtain ⟨mid, hbefore, hafter⟩ := hr.split
  cases hafter with
  | cons hstep hrest =>
    have hrun : Run sink conn (r₁ ++ [t]) t.post := hbefore.append (Lts.Path.cons hstep (Lts.Path.nil _))
    obtain ⟨hanswer, hsuffix, -⟩ := run_incoming hrun
    refine ⟨hsuffix, ?_⟩
    rw [hanswer, frameCalls, List.countP_append, List.countP_singleton]
    simp [ht, frameCalls]

/-- Past the last item a call reports an unclean end, and a `Close` is then behind it. -/
theorem unclean_past_end (hr : Run sink conn (r₁ ++ t :: r₂) conn') (ht : t.ev = .nextFrame)
    (hk : frameCalls r₁ = (answering conn.stream.incoming).length) {reason : Option String}
    (hclose : .ok (.close reason) ∈ conn.stream.incoming) :
    t.out = .received (.error (.connectionClosed false)) ∧ CloseReceived conn t.post := by
  obtain ⟨⟨taken, htaken⟩, hanswer⟩ := incoming_after hr ht
  have hnil : answering t.post.stream.incoming = [] := by
    rw [hanswer, List.drop_eq_nil_iff]
    omega
  constructor
  · rw [(run_nextFrame hr ht).1, expected, hk, List.getElem?_eq_none le_rfl]
  · refine ⟨taken, reason, htaken.symm, ?_⟩
    rw [← htaken] at hclose
    -- the `Close` has been taken, as nothing is left to answer with
    rcases List.mem_append.mp hclose with h | h
    · exact h
    · rw [← mem_answering_close, hnil] at h
      cases h

/-- The call that takes the `Close` is the last one that an item answers. -/
theorem last_answer (hends : EndsAtClose conn.stream.incoming) (hr : Run sink conn (r₁ ++ t :: r₂) conn')
    (ht : t.ev = .nextFrame) (hk : frameCalls r₁ < (answering conn.stream.incoming).length)
    (hrec : CloseReceived conn t.post) : t.out = .received (.ok none) := by
  obtain ⟨taken, reason, htaken, hmem⟩ := hrec
  obtain ⟨before, rest, rfl⟩ := List.append_of_mem hmem
  rw [List.append_assoc, List.cons_append] at htaken
  -- behind the `Close` there is nothing, so it is the last item and the stream is at its end
  obtain ⟨rfl, hpost⟩ := List.append_eq_nil_iff.mp (hends _ _ _ htaken)
  have hanswer := (incoming_after hr ht).2
  rw [hpost] at hanswer htaken
  have hlast : answering conn.stream.incoming = answering before ++ [.ok (.close reason)] := by
    rw [htaken]
    simp [answering, isControl]
  have hlen : (answering conn.stream.incoming).length ≤ frameCalls r₁ + 1 :=
    List.drop_eq_nil_iff.mp hanswer.symm
  rw [(run_nextFrame hr ht).1, expected, hlast]
  rw [hlast, List.length_append, List.length_singleton] at hk hlen
  rw [List.getElem?_append_right (by omega), show frameCalls r₁ - (answering before).length = 0 by omega]
  rfl

end Run

/-- **When an unclean end is reported truthfully.**  On a stream that ends after a `Close`, in a run with
any calls: no call reports an unclean end after a `Close` has been received if and only if no `Close`
comes, or `next_frame` is called at most as often as there are items that are not control. -/
theorem unclean_report_iff {sink : Sink} {conn conn' : Connection} {r : List Call}
    (hr : Run sink conn r conn') (hends : EndsAtClose conn.stream.incoming) :
    (∀ t ∈ r, t.out = .received (.error (.connectionClosed false)) → ¬ CloseReceived conn t.post) ↔
      NoClose conn.stream.incoming ∨ frameCalls r ≤ (answering conn.stream.incoming).length := by
  constructor
  · intro htrue
    by_contra hnot
    rw [not_or] at hnot
    obtain ⟨hclose, hcalls⟩ := hnot
    obtain ⟨reason, hmem⟩ : ∃ reason, .ok (.close reason) ∈ conn.stream.incoming := by
      simpa only [NoClose, Classical.not_forall, Classical.not_not] using hclose
    -- one call too many: it comes after the last item
    obtain ⟨r₁, t, r₂, rfl, ht, hk⟩ := exists_call (Nat.lt_of_not_le hcalls)
    obtain ⟨hout, hrec⟩ := unclean_past_end hr ht hk hmem
    exact htrue t (by simp) hout hrec
  · rintro hcond t ht hout hrec
    obtain ⟨r₁, r₂, rfl⟩ := List.append_of_mem ht
    rcases hcond with hclose | hcalls
    · obtain ⟨taken, reason, htaken, hmem⟩ := hrec
      exact hclose reason (htaken ▸ List.mem_append_left _ hmem)
    · have hev := received_nextFrame (hr.isStep t ht) hout
      have hk : frameCalls r₁ < frameCalls (r₁ ++ t :: r₂) := by
        rw [frameCalls, frameCalls, List.countP_append, List.countP_cons_of_pos (by simpa using hev)]
        omega
      rw [last_answer hends hr hev (by omega) hrec] at hout
      cases hout

def closedByPeer : Connection := ⟨⟨[.ok (.close none)], []⟩, 0⟩

def drained : Connection := ⟨⟨[], []⟩, 0⟩

theorem closedByPeer_ends : EndsAtClose closedByPeer.stream.incoming := by
  intro before reason rest h
  cases before with
  | nil => exact (List.cons.inj h).2.symm
  | cons item before =>
    have hlen := congrArg List.length h
    simp [closedByPeer] at hlen

theorem unclean_report_sample :
    ∃ r, Run appendSink closedByPeer r drained ∧ frameCalls r = 1 ∧
      ∀ t ∈ r, t.out = .received (.error (.connectionClosed false)) → ¬ CloseReceived closedByPeer t.post :=
  have hr : Run appendSink closedByPeer [⟨closedByPeer, .nextFrame, .received (.ok none), drained⟩] drained :=
    Lts.Path.of_step rfl
  ⟨_, hr, rfl, (unclean_report_iff hr closedByPeer_ends).mpr (Or.inr le_rfl)⟩

/-- The second call on this connection reports an unclean end, after the `Close` was received. -/
theorem unclean_after_close :
    ∃ r, Run appendSink closedByPeer r drained ∧ EndsAtClose closedByPeer.stream.incoming ∧
      r.map Lts.Transition.ev = [.nextFrame, .nextFrame] ∧
      ∃ t ∈ r, t.out = .received (.error (.connectionClosed false)) ∧ CloseReceived closedByPeer t.post := by
  have hfirst : Run appendSink closedByPeer _ drained :=
    Lts.Path.of_step (e := .nextFrame) (o := .received (.ok none)) rfl
  have hsecond : Run appendSink drained _ drained :=
    Lts.Path.of_step (e := .nextFrame) (o := .received (.error (.connectionClosed false))) rfl
  exact ⟨_, hfirst.append hsecond, closedByPeer_ends, rfl, _,
    List.mem_append_right _ (List.mem_singleton_self _), rfl, [.ok (.close none)], none, rfl,
    List.mem_singleton_self _⟩

end Transportx.Ws
