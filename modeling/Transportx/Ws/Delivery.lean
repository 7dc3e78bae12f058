import Transportx.Ws.Connection

/-!
# Transportx.Ws.Delivery — frames over a whole connection

Each call of `next_frame` runs over the control items (`Ping`, `Pong`, `Frame`) and answers with the
next item after them.  `nextFrame_spec` says so of one call, `run_incoming` of a run: after `k` calls the
items that are left to answer with are those from the `k`-th on, whatever was sent in between.

Two limits look at the size of what comes in: the one that `connect` gives to the decoder and
`enforceFrameLimit`.  They are the same predicate on sizes (`admits_inboundLimit`).
-/

namespace Transportx.Ws

open Http (Bytes)

/-! ## What a call should return -/

/-- The items that `next_frame` skips. -/
def isControl : Item → Bool
  | .ok (.ping _) | .ok (.pong _) | .ok (.frame _) => true
  | _ => false

/-- The items that answer the calls of `next_frame`, in order. -/
def answering (items : List Item) : List Item := items.filter fun item => !isControl item

def Message.data : Message → Option Bytes
  | .text s => some (asBytes s)
  | .binary b => some b
  | _ => none

def Within (maxFrameBytes n : ℕ) : Prop := maxFrameBytes = 0 ∨ n ≤ maxFrameBytes

instance (maxFrameBytes n : ℕ) : Decidable (Within maxFrameBytes n) := inferInstanceAs (Decidable (_ ∨ _))

def frameTooLarge (maxFrameBytes got : ℕ) : TransportError := .payloadTooLarge "ws_frame" maxFrameBytes got

/-- The answer that an item gives: its error, its bytes within the limit, or the end. -/
def outcome (maxFrameBytes : ℕ) : Item → Except TransportError (Option Bytes)
  | .error e => .error (mapTungsteniteError e)
  | .ok message =>
    match message.data with
    | some bytes =>
      if Within maxFrameBytes bytes.length then .ok (some bytes)
      else .error (frameTooLarge maxFrameBytes bytes.length)
    | none => .ok none

/-- The answer to call number `k`, counted from `0`, on a connection with these items to come. -/
def expected (maxFrameBytes : ℕ) (items : List Item) (k : ℕ) : Except TransportError (Option Bytes) :=
  match (answering items)[k]? with
  | some item => outcome maxFrameBytes item
  | none => .error (.connectionClosed false)

theorem enforceFrameLimit_eq (maxFrameBytes : ℕ) (payload : Bytes) :
    enforceFrameLimit maxFrameBytes payload =
      if Within maxFrameBytes payload.length then .ok payload
      else .error (frameTooLarge maxFrameBytes payload.length) := by
  unfold enforceFrameLimit
  by_cases hw : Within maxFrameBytes payload.length
  · rw [if_pos hw, if_neg]
    unfold Within at hw
    omega
  · rw [if_neg hw, if_pos]
    · rfl
    · unfold Within at hw
      omega

/-- The driver answers with data as the limit says. -/
theorem outcome_of_data {maxFrameBytes : ℕ} {message : Message} {bytes : Bytes}
    (h : message.data = some bytes) :
    outcome maxFrameBytes (.ok message) = (enforceFrameLimit maxFrameBytes bytes).map some := by
  simp only [outcome, h, enforceFrameLimit_eq]
  split <;> rfl

/-! ## One call -/

/-- **One call of `next_frame`** answers with the next item that is not control, and leaves what comes
after it. -/
theorem nextFrame_spec (maxFrameBytes : ℕ) : ∀ items : List Item,
    (nextFrame maxFrameBytes items).1 = expected maxFrameBytes items 0 ∧
      answering (nextFrame maxFrameBytes items).2 = (answering items).drop 1 ∧
      (nextFrame maxFrameBytes items).2 <:+ items
  | [] => ⟨rfl, rfl, List.suffix_refl _⟩
  | .error _ :: rest => ⟨rfl, rfl, List.suffix_cons _ _⟩
  | .ok (.close _) :: rest => ⟨rfl, rfl, List.suffix_cons _ _⟩
  | .ok (.text text) :: rest => by
    have hdata : (Message.text text).data = some (asBytes text) := rfl
    exact ⟨(outcome_of_data hdata).symm, rfl, List.suffix_cons _ _⟩
  | .ok (.binary bytes) :: rest => by
    have hdata : (Message.binary bytes).data = some bytes := rfl
    exact ⟨(outcome_of_data hdata).symm, rfl, List.suffix_cons _ _⟩
  | .ok (.ping _) :: rest | .ok (.pong _) :: rest | .ok (.frame _) :: rest => by
    obtain ⟨hreply, hrest, hsuffix⟩ := nextFrame_spec maxFrameBytes rest
    exact ⟨hreply, hrest, hsuffix.trans (List.suffix_cons _ _)⟩

/-- The answers after a call are those from the next one on. -/
theorem expected_drop {maxFrameBytes : ℕ} {items rest : List Item} {n : ℕ}
    (h : answering rest = (answering items).drop n) (k : ℕ) :
    expected maxFrameBytes rest k = expected maxFrameBytes items (n + k) := by
  unfold expected
  rw [h, List.getElem?_drop]

theorem step_nextFrame {sink : Sink} {conn conn' : Connection} {o : Reply}
    (h : step sink conn .nextFrame = some (o, conn')) :
    o = .received (expected conn.maxFrameBytes conn.stream.incoming 0) ∧
      answering conn'.stream.incoming = (answering conn.stream.incoming).drop 1 ∧
      conn'.stream.incoming <:+ conn.stream.incoming ∧ conn'.stream.outgoing = conn.stream.outgoing ∧
      conn'.maxFrameBytes = conn.maxFrameBytes := by
  obtain ⟨hreply, hrest, hsuffix⟩ := nextFrame_spec conn.maxFrameBytes conn.stream.incoming
  obtain ⟨rfl, rfl⟩ := Prod.mk.inj (Option.some.inj h)
  exact ⟨congrArg Reply.received hreply, hrest, hsuffix, rfl, rfl⟩

theorem send_incoming (sink : Sink) (conn : Connection) (message : Message) :
    (conn.send sink message).2.stream.incoming = conn.stream.incoming ∧
      (conn.send sink message).2.maxFrameBytes = conn.maxFrameBytes := by
  unfold Connection.send
  split <;> exact ⟨rfl, rfl⟩

/-- What is sent does not touch what comes in. -/
theorem step_other {sink : Sink} {conn conn' : Connection} {op : Op} {o : Reply}
    (h : step sink conn op = some (o, conn')) (hop : op ≠ .nextFrame) :
    conn'.stream.incoming = conn.stream.incoming ∧ conn'.maxFrameBytes = conn.maxFrameBytes := by
  cases op with
  | nextFrame => exact absurd rfl hop
  | sendFrame frame =>
    obtain ⟨-, rfl⟩ := Prod.mk.inj (Option.some.inj h)
    split
    · exact send_incoming sink conn _
    · exact ⟨rfl, rfl⟩
  | close =>
    obtain ⟨-, rfl⟩ := Prod.mk.inj (Option.some.inj h)
    exact send_incoming sink conn _

/-! ## Runs -/

def frameCalls (r : List Call) : ℕ := r.countP fun t => t.ev = .nextFrame

/-- **After a run** the items left are a suffix of those there were, and what is left to answer with
starts after the calls that were made. -/
theorem run_incoming {sink : Sink} {conn conn' : Connection} {r : List Call} (hr : Run sink conn r conn') :
    answering conn'.stream.incoming = (answering conn.stream.incoming).drop (frameCalls r) ∧
      conn'.stream.incoming <:+ conn.stream.incoming ∧ conn'.maxFrameBytes = conn.maxFrameBytes := by
  induction hr with
  | nil => exact ⟨rfl, List.suffix_refl _, rfl⟩
  | @cons t r conn' ht _ ih =>
    obtain ⟨hanswer, hsuffix, hmax⟩ := ih
    -- only `next_frame` takes items
    by_cases hop : t.ev = .nextFrame
    · have hcalls : frameCalls (t :: r) = 1 + frameCalls r := by
        rw [frameCalls, List.countP_cons_of_pos (by simpa using hop), Nat.add_comm]
        rfl
      unfold Lts.IsStep at ht
      rw [hop] at ht
      obtain ⟨-, hstep, hsub, -, hm⟩ := step_nextFrame ht
      exact ⟨by rw [hanswer, hstep, List.drop_drop, hcalls], hsuffix.trans hsub, hmax.trans hm⟩
    · have hcalls : frameCalls (t :: r) = frameCalls r :=
        List.countP_cons_of_neg (by simpa using hop)
      obtain ⟨hin, hm⟩ := step_other ht hop
      exact ⟨by rw [hanswer, hin, hcalls], hin ▸ hsuffix, hmax.trans hm⟩

/-- **The answer to each call** of a run. -/
theorem run_nextFrame {sink : Sink} {conn conn' : Connection} {r₁ r₂ : List Call} {t : Call}
    (hr : Run sink conn (r₁ ++ t :: r₂) conn') (ht : t.ev = .nextFrame) :
    t.out = .received (expected conn.maxFrameBytes conn.stream.incoming (frameCalls r₁)) ∧
      t.post.stream.outgoing = t.pre.stream.outgoing := by
  obtain ⟨mid, hbefore, hafter⟩ := hr.split
  obtain ⟨hanswer, -, hmax⟩ := run_incoming hbefore
  cases hafter with
  | cons hstep _ =>
    unfold Lts.IsStep at hstep
    rw [ht] at hstep
    obtain ⟨hout, -, -, hsame, -⟩ := step_nextFrame hstep
    rw [hmax, expected_drop hanswer] at hout
    exact ⟨hout, hsame⟩

/-! ## Sending -/

/-- The message that a call puts out. -/
def putOut (maxFrameBytes : ℕ) : Op → Option Message
  | .nextFrame => none
  | .sendFrame frame => if Within maxFrameBytes frame.length then some (.binary frame) else none
  | .close => some (.close none)

section Sending

variable {sink : Sink} (hsink : ∀ out message, sink out message = .ok (out ++ [message]))
include hsink

theorem send_eq (conn : Connection) (message : Message) :
    conn.send sink message =
      (.ok (), ⟨⟨conn.stream.incoming, conn.stream.outgoing ++ [message]⟩, conn.maxFrameBytes⟩) := by
  simp only [Connection.send, hsink]

theorem step_sendFrame {conn conn' : Connection} {frame : Bytes} {o : Reply}
    (h : step sink conn (.sendFrame frame) = some (o, conn')) :
    (Within conn.maxFrameBytes frame.length → o = .sent (.ok ()) ∧
      conn'.stream.outgoing = conn.stream.outgoing ++ [.binary frame]) ∧
    (¬ Within conn.maxFrameBytes frame.length →
      o = .sent (.error (frameTooLarge conn.maxFrameBytes frame.length)) ∧
        conn'.stream.outgoing = conn.stream.outgoing) := by
  simp only [step, sendFrame, enforceFrameLimit_eq] at h
  by_cases hw : Within conn.maxFrameBytes frame.length
  · rw [if_pos hw] at h
    simp only [send_eq hsink] at h
    obtain ⟨rfl, rfl⟩ := Prod.mk.inj (Option.some.inj h)
    exact ⟨fun _ => ⟨rfl, rfl⟩, fun hn => absurd hw hn⟩
  · rw [if_neg hw] at h
    obtain ⟨rfl, rfl⟩ := Prod.mk.inj (Option.some.inj h)
    exact ⟨fun hn => absurd hn hw, fun _ => ⟨rfl, rfl⟩⟩

theorem step_outgoing {conn conn' : Connection} {op : Op} {o : Reply}
    (h : step sink conn op = some (o, conn')) :
    conn'.stream.outgoing = conn.stream.outgoing ++ (putOut conn.maxFrameBytes op).toList := by
  cases op with
  | nextFrame =>
    obtain ⟨-, -, -, hsame, -⟩ := step_nextFrame h
    rw [hsame, putOut, Option.toList_none, List.append_nil]
  | sendFrame frame =>
    obtain ⟨hin, hout⟩ := step_sendFrame hsink h
    by_cases hw : Within conn.maxFrameBytes frame.length
    · rw [(hin hw).2, putOut, if_pos hw]
      rfl
    · rw [(hout hw).2, putOut, if_neg hw, Option.toList_none, List.append_nil]
  | close =>
    simp only [step, close, send_eq hsink] at h
    obtain ⟨-, rfl⟩ := Prod.mk.inj (Option.some.inj h)
    rfl

/-- **What has gone out** is what the calls put out, in order. -/
theorem run_outgoing {conn conn' : Connection} {r : List Call} (hr : Run sink conn r conn') :
    conn'.stream.outgoing =
      conn.stream.outgoing ++ r.filterMap fun t => putOut conn.maxFrameBytes t.ev := by
  induction hr with
  | nil => rw [List.filterMap_nil, List.append_nil]
  | @cons t r conn' ht hr ih =>
    obtain ⟨-, -, hmax⟩ := run_incoming (Lts.Path.cons ht (Lts.Path.nil t.post))
    rw [ih, step_outgoing hsink ht, hmax, List.filterMap_cons, List.append_assoc]
    cases putOut t.pre.maxFrameBytes t.ev <;> rfl

end Sending

/-! ## The two limits -/

/-- A decoder with this limit lets a size pass. -/
def admits (limit : Option ℕ) (n : ℕ) : Prop := ∀ max ∈ limit, n ≤ max

/-- **The decoder and the driver agree on every size**, also for the limit `0`. -/
theorem admits_inboundLimit (maxFrameBytes n : ℕ) :
    admits (inboundLimit maxFrameBytes) n ↔ Within maxFrameBytes n := by
  unfold admits inboundLimit Within
  split
  · next h =>
    simp only [Option.mem_some_iff, forall_eq']
    omega
  · next h =>
    simp only [Option.not_mem_none, false_implies, implies_true, true_iff]
    omega

/-- The limit that a size is over is the one that the decoder is given. -/
theorem mem_inboundLimit {maxFrameBytes n : ℕ} (h : ¬ Within maxFrameBytes n) :
    maxFrameBytes ∈ inboundLimit maxFrameBytes ∧ maxFrameBytes < n := by
  unfold Within at h
  have hpos : 0 < maxFrameBytes := by omega
  refine ⟨?_, by omega⟩
  rw [inboundLimit, if_pos hpos]
  rfl

theorem inboundLimit_ne_zero (maxFrameBytes : ℕ) : inboundLimit maxFrameBytes ≠ some 0 := by
  unfold inboundLimit
  split
  · next h => simpa using Nat.ne_of_gt h
  · rintro ⟨⟩

theorem expected_of_admitted {maxFrameBytes : ℕ} {items : List Item}
    (hdecoder : ∀ message bytes, .ok message ∈ items → message.data = some bytes →
      admits (inboundLimit maxFrameBytes) bytes.length)
    {k : ℕ} {message : Message} {bytes : Bytes} (hk : (answering items)[k]? = some (.ok message))
    (hdata : message.data = some bytes) : expected maxFrameBytes items k = .ok (some bytes) := by
  have hmem : .ok message ∈ items := List.mem_of_mem_filter (List.mem_of_getElem? hk)
  have hw := (admits_inboundLimit _ _).mp (hdecoder message bytes hmem hdata)
  simp only [expected, hk, outcome, hdata, if_pos hw]

/-- A decoder that enforces the limit it is given: a message within it passes, a longer one is reported
as too long. -/
def Enforces (decode : Option ℕ → Message → Item) : Prop :=
  ∀ limit message bytes, message.data = some bytes →
    (admits limit bytes.length → decode limit message = .ok message) ∧
    ∀ max ∈ limit, max < bytes.length →
      ∃ size, max < size ∧ decode limit message = .error (.capacity (.messageTooLong size max))

/-- Behind such a decoder a message is delivered if it is within the limit of the driver, and is
otherwise refused by the decoder, never by the driver. -/
theorem outcome_of_enforces {decode : Option ℕ → Message → Item} (h : Enforces decode) (maxFrameBytes : ℕ)
    {message : Message} {bytes : Bytes} (hdata : message.data = some bytes) :
    (Within maxFrameBytes bytes.length →
      outcome maxFrameBytes (decode (inboundLimit maxFrameBytes) message) = .ok (some bytes)) ∧
    (¬ Within maxFrameBytes bytes.length → ∃ size, maxFrameBytes < size ∧
      outcome maxFrameBytes (decode (inboundLimit maxFrameBytes) message) =
        .error (.payloadTooLarge "ws_message" maxFrameBytes size)) := by
  obtain ⟨hpass, hrefuse⟩ := h (inboundLimit maxFrameBytes) message bytes hdata
  constructor
  · intro hw
    rw [hpass ((admits_inboundLimit _ _).mpr hw), outcome_of_data hdata, enforceFrameLimit_eq, if_pos hw]
    rfl
  · intro hw
    obtain ⟨hmem, hlt⟩ := mem_inboundLimit hw
    obtain ⟨size, hsize, hitem⟩ := hrefuse maxFrameBytes hmem hlt
    exact ⟨size, hsize, by rw [hitem]; rfl⟩

theorem connect_ok {dial : Dial} {c : Connector} {url : String} {conn : Connection}
    (h : connect dial c url = .ok conn) :
    conn.maxFrameBytes = c.maxFrameBytes ∧ dial c.connectTimeout url
      ⟨inboundLimit conn.maxFrameBytes, inboundLimit conn.maxFrameBytes⟩ = some (.ok conn.stream) := by
  unfold connect at h
  split at h
  · cases h
  · cases h
  · next stream hdial =>
    obtain rfl := Except.ok.inj h
    exact ⟨rfl, hdial⟩

/-- **Frame delivery**, on every connection and for every order of calls, with a sink that takes what it is given:
call number `k` of `next_frame` returns the answer of item number `k` among those that are not control, and a
frame within the limit is sent as one message.  The decoder is configured to let pass exactly the sizes that
the driver lets pass, so that an over-limit message is refused by the decoder alone. -/
theorem frame_delivery {sink : Sink} (hsink : ∀ out message, sink out message = .ok (out ++ [message]))
    {conn conn' : Connection} {r : List Call} (hr : Run sink conn r conn') :
    (∀ (r₁ r₂ : List Call) (t : Call), r = r₁ ++ t :: r₂ → t.ev = .nextFrame →
      t.out = .received (expected conn.maxFrameBytes conn.stream.incoming (frameCalls r₁)) ∧
        t.post.stream.outgoing = t.pre.stream.outgoing) ∧
    (∀ (r₁ r₂ : List Call) (t : Call) (frame : Bytes), r = r₁ ++ t :: r₂ → t.ev = .sendFrame frame →
      t.post.stream.incoming = t.pre.stream.incoming ∧
      (Within conn.maxFrameBytes frame.length → t.out = .sent (.ok ()) ∧
        t.post.stream.outgoing = t.pre.stream.outgoing ++ [.binary frame]) ∧
      (¬ Within conn.maxFrameBytes frame.length → conn.maxFrameBytes < frame.length ∧
        t.out = .sent (.error (.payloadTooLarge "ws_frame" conn.maxFrameBytes frame.length)) ∧
        t.post.stream.outgoing = t.pre.stream.outgoing)) ∧
    answering conn'.stream.incoming = (answering conn.stream.incoming).drop (frameCalls r) ∧
    conn'.stream.outgoing =
      conn.stream.outgoing ++ (r.filterMap fun t => putOut conn.maxFrameBytes t.ev) ∧
    (∀ (dial : Dial) (c : Connector) (url : String), connect dial c url = .ok conn → dial c.connectTimeout url
      ⟨inboundLimit conn.maxFrameBytes, inboundLimit conn.maxFrameBytes⟩ = some (.ok conn.stream)) ∧
    (∀ n, admits (inboundLimit conn.maxFrameBytes) n ↔ Within conn.maxFrameBytes n) ∧
    inboundLimit conn.maxFrameBytes ≠ some 0 ∧
    ((∀ message bytes, .ok message ∈ conn.stream.incoming → message.data = some bytes →
        admits (inboundLimit conn.maxFrameBytes) bytes.length) →
      ∀ k message bytes, (answering conn.stream.incoming)[k]? = some (.ok message) →
        message.data = some bytes →
          expected conn.maxFrameBytes conn.stream.incoming k = .ok (some bytes)) ∧
    ∀ decode, Enforces decode → ∀ message bytes, message.data = some bytes →
      (Within conn.maxFrameBytes bytes.length →
        outcome conn.maxFrameBytes (decode (inboundLimit conn.maxFrameBytes) message) = .ok (some bytes)) ∧
      (¬ Within conn.maxFrameBytes bytes.length → ∃ size, conn.maxFrameBytes < size ∧
        outcome conn.maxFrameBytes (decode (inboundLimit conn.maxFrameBytes) message) =
          .error (.payloadTooLarge "ws_message" conn.maxFrameBytes size)) := by
  refine ⟨?_, ?_, (run_incoming hr).1, run_outgoing hsink hr, fun dial c url h => (connect_ok h).2,
    admits_inboundLimit _, inboundLimit_ne_zero _,
    fun hdecoder k message bytes => expected_of_admitted hdecoder,
    fun decode hdecode message bytes => outcome_of_enforces hdecode conn.maxFrameBytes⟩
  · rintro r₁ r₂ t rfl ht
    exact run_nextFrame hr ht
  · rintro r₁ r₂ t frame rfl ht
    obtain ⟨mid, hbefore, hafter⟩ := hr.split
    obtain ⟨-, -, hmax⟩ := run_incoming hbefore
    cases hafter with
    | cons hstep _ =>
      obtain ⟨hin, -⟩ := step_other hstep (by rw [ht]; rintro ⟨⟩)
      unfold Lts.IsStep at hstep
      rw [ht] at hstep
      have hsend := step_sendFrame hsink hstep
      rw [hmax] at hsend
      refine ⟨hin, hsend.1, fun hw => ⟨?_, hsend.2 hw⟩⟩
      unfold Within at hw
      omega

def appendSink : Sink := fun out message => .ok (out ++ [message])

theorem frame_delivery_sample :
    ∃ r conn', Run appendSink ⟨⟨[.ok (.ping []), .ok (.binary [7])], []⟩, 1⟩ r conn' ∧
      r.map Lts.Transition.ev = [.nextFrame, .sendFrame [1, 2], .sendFrame [9]] ∧
      conn'.stream.outgoing = [.binary [9]] := by
  obtain ⟨⟨r, conn'⟩, hreplay⟩ := Option.isSome_iff_exists.mp (show (Lts.replay (step appendSink)
    ⟨⟨[.ok (.ping []), .ok (.binary [7])], []⟩, 1⟩
    [.nextFrame, .sendFrame [1, 2], .sendFrame [9]]).isSome = true from rfl)
  obtain ⟨hr, hev⟩ := Lts.replay_path hreplay
  refine ⟨r, conn', hr, hev, ?_⟩
  have hout := (frame_delivery (fun _ _ => rfl) hr).2.2.2.1
  rw [hout, ← Function.comp_def (putOut 1) Lts.Transition.ev, ← List.filterMap_map, hev]
  rfl

/-- A message over the limit is not delivered, whatever its bytes. -/
theorem oversized_not_delivered :
    ¬ ∀ (conn conn' : Connection) (r₁ r₂ : List Call) (t : Call) (message : Message) (bytes : Bytes),
      Run appendSink conn (r₁ ++ t :: r₂) conn' → t.ev = .nextFrame →
      (answering conn.stream.incoming)[frameCalls r₁]? = some (.ok message) → message.data = some bytes →
      t.out = .received (.ok (some bytes)) := by
  intro h
  have hout := h ⟨⟨[.ok (.binary [1, 2])], []⟩, 1⟩ ⟨⟨[], []⟩, 1⟩ [] []
    ⟨⟨⟨[.ok (.binary [1, 2])], []⟩, 1⟩, .nextFrame, .received (.error (.payloadTooLarge "ws_frame" 1 2)),
      ⟨⟨[], []⟩, 1⟩⟩
    (.binary [1, 2]) [1, 2] (Lts.Path.of_step rfl) rfl rfl rfl
  cases hout

end Transportx.Ws
