import Transportx.Lib.Buffer
import Transportx.Ws.Delivery

/-!
# Transportx.Ws.Duplex — two connections back to back

Both ends of a WebSocket are connections of this driver.  What one end has sent travels to the other in
order (TCP), passes the decoder there and arrives as an item; control frames may arrive at any time, through
the same decoder.  A stream ends behind an error or a `Close`, or is cut (`hangUp`), perhaps with such an item:
a failure of the network, or the `Close` with which the other `tungstenite` answers one.  The calls on both
ends and the network take turns in any order, and a send may be refused at any time; a `next_frame` that has
no item to answer with is not over before there is one, or before the stream has ended.

`DuplexCase.moves` says what a step does to an end, `run_heard` what a run does, and `duplex_delivery` what
this means for the frames.
-/

namespace Transportx.Ws

open Http (Bytes)
open Lts

inductive Side
  | left
  | right
deriving DecidableEq

def Side.other : Side → Side
  | .left => .right
  | .right => .left

theorem Side.other_ne (x : Side) : x.other ≠ x := by
  cases x <;> rintro ⟨⟩

theorem Side.eq_other {x y : Side} (h : x ≠ y) : y = x.other := by
  cases x <;> cases y <;> first | rfl | exact absurd rfl h

/-- One end: the connection, whose `incoming` is what has arrived, how many messages of the other end have
arrived, and whether the stream has ended. -/
structure Peer where
  conn : Connection
  taken : ℕ
  ended : Bool

/-- A stream yields nothing behind an error or a `Close`. -/
def isLast : Item → Bool
  | .error _ | .ok (.close _) => true
  | _ => false

def Peer.receive (p : Peer) (items : List Item) : Peer :=
  { p with
    conn := { p.conn with stream := { p.conn.stream with incoming := p.conn.stream.incoming ++ items } }
    ended := p.ended || items.any isLast }

abbrev Duplex := Side → Peer

/-- What a `tungstenite` that is given this limit makes of a message of the other end. -/
abbrev Decoder := Option ℕ → Message → Item

/-- The item that a message becomes in front of a driver with this limit. -/
def itemOf (decode : Decoder) (maxFrameBytes : ℕ) (message : Message) : Item :=
  decode (inboundLimit maxFrameBytes) message

/-- The payload of a control frame; a raw `Frame` is never read. -/
def Message.control : Message → Option Bytes
  | .ping bytes | .pong bytes => some bytes
  | _ => none

/-- A call on one end, which is refused with an error if it sends and there is one; or an act of the network. -/
inductive DuplexEvent
  | call (x : Side) (op : Op) (refused : Option TungsteniteError)
  | arrive (x : Side)
  | control (x : Side) (message : Message)
  | hangUp (x : Side) (last : Option Item)

/-- A `Close` behind another one is put out like any message: where the first one arrives the stream ends. -/
def sinkOf (refused : Option TungsteniteError) : Sink := fun out message =>
  match refused with
  | none => .ok (out ++ [message])
  | some e => .error e

/-- Nothing has arrived that `next_frame` could answer with. -/
def Peer.idle (p : Peer) : Prop := answering p.conn.stream.incoming = []

instance (p : Peer) : Decidable p.idle := inferInstanceAs (Decidable (_ = _))

def duplexStep (decode : Decoder) (s : Duplex) : DuplexEvent → Option (Option Reply × Duplex)
  | .call x op refused =>
    -- the call still waits for an item
    if op = .nextFrame ∧ (s x).idle ∧ (s x).ended = false then none
    else (step (sinkOf refused) (s x).conn op).map fun (reply, conn) =>
      (some reply, Function.update s x { s x with conn })
  | .arrive x =>
    if (s x).ended then none
    else (s x.other).conn.stream.outgoing[(s x).taken]?.map fun message =>
      (none, Function.update s x { (s x).receive [itemOf decode (s x).conn.maxFrameBytes message] with
        taken := (s x).taken + 1 })
  | .control x message =>
    if (s x).ended = false ∧ message.control.isSome then
      some (none, Function.update s x ((s x).receive [itemOf decode (s x).conn.maxFrameBytes message]))
    else none
  | .hangUp x last =>
    if (s x).ended = false ∧ last.all isLast then
      some (none, Function.update s x { (s x).receive last.toList with ended := true })
    else none

abbrev DuplexCall := Transition Duplex DuplexEvent (Option Reply)

/-- Two new connections with these frame limits. -/
def Duplex.fresh (limit : Side → ℕ) : Duplex := fun x => ⟨⟨⟨[], []⟩, limit x⟩, 0, false⟩

/-! ## What goes in and what comes out -/

/-- The message that a call is to send. -/
def Op.message : Op → Option Message
  | .nextFrame => none
  | .sendFrame frame => some (.binary frame)
  | .close => some (.close none)

/-- The message that a call with this reply has sent. -/
def sentMessage (op : Op) : Reply → Option Message
  | .sent (.ok ()) => op.message
  | _ => none

/-- The messages that `x` sends in a step with this event and this reply. -/
def sends (x : Side) : DuplexEvent → Option Reply → List Message
  | .call y op _, some reply => if y = x then (sentMessage op reply).toList else []
  | _, _ => []

/-- What `next_frame` returns to `x`. -/
def replies (x : Side) : DuplexEvent → Option Reply → List (Except TransportError (Option Bytes))
  | .call y _ _, some (.received result) => if y = x then [result] else []
  | _, _ => []

def sentBy (x : Side) (r : List DuplexCall) : List Message := r.flatMap fun t => sends x t.ev t.out

def receivedBy (x : Side) (r : List DuplexCall) : List (Except TransportError (Option Bytes)) :=
  r.flatMap fun t => replies x t.ev t.out

/-- The item that answers a `next_frame` of `x`. -/
def Duplex.answers (s : Duplex) (x : Side) : DuplexEvent → List Item
  | .call y .nextFrame _ => if y = x then (answering (s x).conn.stream.incoming).head?.toList else []
  | _ => []

def answersIn (x : Side) (r : List DuplexCall) : List Item := r.flatMap fun t => t.pre.answers x t.ev

/-- What has arrived at `x` of what the other end has sent. -/
def Duplex.arrived (s : Duplex) (x : Side) : List Message := (s x.other).conn.stream.outgoing.take (s x).taken

/-- The limits stay what they are, nothing arrives that was not sent, and nothing behind a message that ends
the stream. -/
structure Duplex.Ok (decode : Decoder) (limit : Side → ℕ) (s : Duplex) : Prop where
  maxFrameBytes : ∀ x, (s x).conn.maxFrameBytes = limit x
  taken_le : ∀ x, (s x).taken ≤ (s x.other).conn.stream.outgoing.length
  goes_on : ∀ x, (s x).ended = false → ∀ m ∈ s.arrived x, isLast (itemOf decode (limit x) m) = false
  heard : ∀ x, s.arrived x <+: upTo (fun m => isLast (itemOf decode (limit x) m)) (s x.other).conn.stream.outgoing

/-! ## One step -/

section Step

variable {decode : Decoder} {limit : Side → ℕ} {s s' : Duplex} {x y : Side} {ev : DuplexEvent} {o : Option Reply}

/-- What a call does to its connection. -/
theorem call_conn {refused : Option TungsteniteError} {conn conn' : Connection} {op : Op} {reply : Reply}
    (h : step (sinkOf refused) conn op = some (reply, conn')) :
    conn'.maxFrameBytes = conn.maxFrameBytes ∧
      conn'.stream.outgoing = conn.stream.outgoing ++ (sentMessage op reply).toList := by
  have hsend : ∀ message, conn.send (sinkOf refused) message =
        (.ok (), ⟨⟨conn.stream.incoming, conn.stream.outgoing ++ [message]⟩, conn.maxFrameBytes⟩) ∨
      ∃ e, conn.send (sinkOf refused) message = (.error e, conn) := by
    intro message
    cases refused with
    | none => exact Or.inl rfl
    | some e => exact Or.inr ⟨_, rfl⟩
  cases op with
  | nextFrame =>
    obtain ⟨rfl, -, -, hout, hmax⟩ := step_nextFrame h
    exact ⟨hmax, by rw [hout]; exact (List.append_nil _).symm⟩
  | sendFrame frame =>
    simp only [step, sendFrame, enforceFrameLimit_eq] at h
    split at h
    · next frame' hframe =>
      split at hframe
      · obtain rfl := Except.ok.inj hframe
        rcases hsend (.binary frame) with heq | ⟨e, heq⟩ <;> rw [heq] at h <;>
          obtain ⟨rfl, rfl⟩ := Prod.mk.inj (Option.some.inj h)
        · exact ⟨rfl, rfl⟩
        · exact ⟨rfl, (List.append_nil _).symm⟩
      · cases hframe
    · obtain ⟨rfl, rfl⟩ := Prod.mk.inj (Option.some.inj h)
      exact ⟨rfl, (List.append_nil _).symm⟩
  | close =>
    simp only [step, close] at h
    rcases hsend (.close none) with heq | ⟨e, heq⟩ <;> rw [heq] at h <;>
      obtain ⟨rfl, rfl⟩ := Prod.mk.inj (Option.some.inj h)
    · exact ⟨rfl, rfl⟩
    · exact ⟨rfl, (List.append_nil _).symm⟩

/-- What is sent passes the limit of the sender. -/
theorem sentMessage_cases {sink : Sink} {conn conn' : Connection} {op : Op} {reply : Reply} {message : Message}
    (h : step sink conn op = some (reply, conn')) (hm : sentMessage op reply = some message) :
    (∃ frame, message = .binary frame ∧ Within conn.maxFrameBytes frame.length) ∨ message = .close none := by
  have hop : op.message = some message := by
    unfold sentMessage at hm
    split at hm
    · exact hm
    · cases hm
  cases op with
  | nextFrame => cases hop
  | sendFrame frame =>
    refine Or.inl ⟨frame, (Option.some.inj hop).symm, ?_⟩
    by_contra hw
    simp only [step, sendFrame, enforceFrameLimit_eq, if_neg hw] at h
    obtain ⟨rfl, -⟩ := Prod.mk.inj (Option.some.inj h)
    cases hm
  | close => exact Or.inr (Option.some.inj hop).symm

/-- What one step does. -/
inductive DuplexCase (decode : Decoder) (s : Duplex) : DuplexEvent → Option Reply → Duplex → Prop
  | call (x : Side) (op : Op) {refused : Option TungsteniteError} {reply : Reply} {conn : Connection}
      (hwait : op = .nextFrame → (s x).idle → (s x).ended = true)
      (hstep : step (sinkOf refused) (s x).conn op = some (reply, conn)) :
      DuplexCase decode s (.call x op refused) (some reply) (Function.update s x { s x with conn })
  | arrive (x : Side) {message : Message} (hopen : (s x).ended = false)
      (hnext : (s x.other).conn.stream.outgoing[(s x).taken]? = some message) :
      DuplexCase decode s (.arrive x) none
        (Function.update s x { (s x).receive [itemOf decode (s x).conn.maxFrameBytes message] with
          taken := (s x).taken + 1 })
  | control (x : Side) {message : Message} (hopen : (s x).ended = false)
      (hcontrol : message.control.isSome = true) :
      DuplexCase decode s (.control x message) none
        (Function.update s x ((s x).receive [itemOf decode (s x).conn.maxFrameBytes message]))
  | hangUp (x : Side) {last : Option Item} (hopen : (s x).ended = false) (hlast : last.all isLast = true) :
      DuplexCase decode s (.hangUp x last) none
        (Function.update s x { (s x).receive last.toList with ended := true })

theorem duplexStep_iff : duplexStep decode s ev = some (o, s') ↔ DuplexCase decode s ev o s' := by
  constructor
  · intro h
    cases ev with
    | call x op refused =>
      simp only [duplexStep] at h
      split at h
      · cases h
      · next hwait =>
        obtain ⟨⟨reply, conn⟩, hstep, heq⟩ := Option.map_eq_some_iff.mp h
        obtain ⟨rfl, rfl⟩ := Prod.mk.inj heq
        exact .call x op (fun hop hidle => by simpa [hop, hidle] using hwait) hstep
    | arrive x =>
      simp only [duplexStep] at h
      split at h
      · cases h
      · next hopen =>
        obtain ⟨message, hnext, heq⟩ := Option.map_eq_some_iff.mp h
        obtain ⟨rfl, rfl⟩ := Prod.mk.inj heq
        exact .arrive x (Bool.eq_false_iff.mpr hopen) hnext
    | control x message =>
      simp only [duplexStep] at h
      split at h
      · next hc =>
        obtain ⟨rfl, rfl⟩ := Prod.mk.inj (Option.some.inj h)
        exact .control x hc.1 hc.2
      · cases h
    | hangUp x last =>
      simp only [duplexStep] at h
      split at h
      · next hc =>
        obtain ⟨rfl, rfl⟩ := Prod.mk.inj (Option.some.inj h)
        exact .hangUp x hc.1 hc.2
      · cases h
  · intro h
    cases h with
    | call x op hwait hstep =>
      have hnot : ¬ (op = .nextFrame ∧ (s x).idle ∧ (s x).ended = false) := by
        rintro ⟨hop, hidle, hopen⟩
        rw [hwait hop hidle] at hopen
        cases hopen
      simp only [duplexStep, if_neg hnot, hstep, Option.map_some]
    | arrive x hopen hnext => simp only [duplexStep, hopen, hnext, Option.map_some, Bool.false_eq_true, if_false]
    | control x hopen hcontrol => simp only [duplexStep, hopen, hcontrol, and_self, if_true]
    | hangUp x hopen hlast => simp only [duplexStep, hopen, hlast, and_self, if_true]

theorem answering_append (items items' : List Item) :
    answering (items ++ items') = answering items ++ answering items' := List.filter_append _ _

theorem isControl_of_control {message : Message} (h : message.control.isSome = true) :
    isControl (.ok message) = true := by
  unfold Message.control at h
  split at h
  · rfl
  · rfl
  · cases h

theorem isLast_of_isControl {item : Item} (h : isControl item = true) : isLast item = false := by
  unfold isControl at h
  split at h
  · rfl
  · rfl
  · rfl
  · cases h

theorem answering_eq_self {items : List Item} (h : ∀ item ∈ items, isControl item = false) :
    answering items = items :=
  List.filter_eq_self.mpr fun item hitem => by rw [h item hitem]; rfl

theorem answering_of_isLast {items : List Item} (h : ∀ item ∈ items, isLast item = true) :
    answering items = items := by
  refine answering_eq_self fun item hitem => ?_
  cases hcontrol : isControl item with
  | false => rfl
  | true => cases (isLast_of_isControl hcontrol).symm.trans (h item hitem)

/-- What arrives at an end in a step, and what becomes of its stream: nothing arrives once it has ended. -/
inductive Arrives (decode : Decoder) (maxFrameBytes : ℕ) (x : Side) (ended ended' : Bool) :
    DuplexEvent → List Message → List Item → Prop
  | nothing {ev : DuplexEvent} (hsame : ended' = ended) : Arrives decode maxFrameBytes x ended ended' ev [] []
  | message {message : Message} (hopen : ended = false)
      (hlast : ended' = isLast (itemOf decode maxFrameBytes message)) :
      Arrives decode maxFrameBytes x ended ended' (.arrive x) [message] [itemOf decode maxFrameBytes message]
  | control {message : Message} (hopen : ended = false) (hcontrol : message.control.isSome = true)
      (hlast : ended' = isLast (itemOf decode maxFrameBytes message)) :
      Arrives decode maxFrameBytes x ended ended' (.control x message) [] [itemOf decode maxFrameBytes message]
  | hangUp {last : Option Item} (hopen : ended = false) (hended : ended' = true)
      (hlast : ∀ item ∈ last, isLast item = true) :
      Arrives decode maxFrameBytes x ended ended' (.hangUp x last) [] last.toList

/-- What a step does to the end `x`, at which these messages of the other end and these items arrive. -/
structure Moves (decode : Decoder) (limit : Side → ℕ) (s s' : Duplex) (ev : DuplexEvent) (o : Option Reply)
    (x : Side) (messages : List Message) (items : List Item) : Prop where
  maxFrameBytes : (s' x).conn.maxFrameBytes = (s x).conn.maxFrameBytes
  outgoing : (s' x).conn.stream.outgoing = (s x).conn.stream.outgoing ++ sends x ev o
  taken : (s' x).taken = (s x).taken + messages.length
  arrived : s'.arrived x = s.arrived x ++ messages
  queue : s.answers x ev ++ answering (s' x).conn.stream.incoming =
    answering (s x).conn.stream.incoming ++ answering items
  arrives : Arrives decode (limit x) x (s x).ended (s' x).ended ev messages items

/-- An event of the other end changes nothing here, but for what is under way. -/
theorem Moves.of_ne {p : Peer} {more : List Message} (hx : x ≠ y) (hs : s.Ok decode limit)
    (hout : p.conn.stream.outgoing = (s y).conn.stream.outgoing ++ more) (hsends : sends x ev o = [])
    (hans : s.answers x ev = []) : Moves decode limit s (Function.update s y p) ev o x [] [] := by
  have hself : Function.update s y p x = s x := Function.update_of_ne hx _ _
  obtain rfl := Side.eq_other hx
  refine ⟨by rw [hself], by rw [hself, hsends, List.append_nil], by rw [hself]; rfl, ?_, ?_, .nothing (by rw [hself])⟩
  · unfold Duplex.arrived
    rw [hself, Function.update_self, hout, List.take_append_of_le_length (hs.taken_le x), List.append_nil]
  · rw [hself, hans]
    exact (List.append_nil _).symm

/-- What arrives here is put behind what has arrived. -/
theorem Moves.of_receive {p : Peer} {items : List Item} (hconn : p.conn = ((s x).receive items).conn)
    (htaken : p.taken = (s x).taken) (hsends : sends x ev o = []) (hans : s.answers x ev = [])
    (harr : Arrives decode (limit x) x (s x).ended p.ended ev [] items) :
    Moves decode limit s (Function.update s x p) ev o x [] items := by
  have hself : Function.update s x p x = p := Function.update_self _ _ _
  refine ⟨by rw [hself, hconn]; rfl, ?_, by rw [hself, htaken]; rfl, ?_, ?_, by rw [hself]; exact harr⟩
  · rw [hself, hconn, hsends, List.append_nil]
    rfl
  · unfold Duplex.arrived
    rw [hself, Function.update_of_ne x.other_ne, htaken, List.append_nil]
  · rw [hself, hconn, hans]
    exact answering_append _ _

/-- **What a step does to an end.** -/
theorem DuplexCase.moves (h : DuplexCase decode s ev o s') (hs : s.Ok decode limit) (x : Side) :
    ∃ messages items, Moves decode limit s s' ev o x messages items := by
  cases h with
  | @call y op refused reply conn hwait hstep =>
    obtain ⟨hmax, hout⟩ := call_conn hstep
    by_cases hx : x = y
    · subst hx
      have hself : sends x (.call x op refused) (some reply) = (sentMessage op reply).toList := if_pos rfl
      refine ⟨[], [], by rw [Function.update_self]; exact hmax, by rw [Function.update_self, hself]; exact hout,
        by rw [Function.update_self]; rfl, ?_, ?_, .nothing (by rw [Function.update_self])⟩
      · unfold Duplex.arrived
        rw [Function.update_self, Function.update_of_ne x.other_ne, List.append_nil]
      · rw [Function.update_self]
        cases op with
        | nextFrame =>
          -- the call takes the item that it answers with
          obtain ⟨-, hdrop, -⟩ := step_nextFrame hstep
          have hans : s.answers x (.call x .nextFrame refused) =
            (answering (s x).conn.stream.incoming).head?.toList := if_pos rfl
          rw [hans, hdrop]
          cases answering (s x).conn.stream.incoming <;> simp [answering]
        | sendFrame | close =>
          obtain ⟨hin, -⟩ := step_other hstep (by rintro ⟨⟩)
          rw [hin]
          exact (List.append_nil _).symm
    · refine ⟨[], [], .of_ne hx hs hout (if_neg (Ne.symm hx)) ?_⟩
      cases op with
      | nextFrame => exact if_neg (Ne.symm hx)
      | sendFrame | close => rfl
  | @arrive y message hopen hnext =>
    by_cases hx : x = y
    · subst hx
      refine ⟨[message], [itemOf decode (s x).conn.maxFrameBytes message], by rw [Function.update_self]; rfl,
        by rw [Function.update_self]; exact (List.append_nil _).symm, by rw [Function.update_self]; rfl, ?_, ?_, ?_⟩
      · -- what has arrived is one message longer
        unfold Duplex.arrived
        rw [Function.update_self, Function.update_of_ne x.other_ne]
        dsimp only
        rw [List.take_add_one, hnext]
        rfl
      · rw [Function.update_self]
        exact answering_append _ _
      · rw [Function.update_self, ← hs.maxFrameBytes x]
        exact .message hopen (by simp [Peer.receive, hopen])
    · exact ⟨[], [], .of_ne hx hs (List.append_nil _).symm rfl rfl⟩
  | @control y message hopen hcontrol =>
    by_cases hx : x = y
    · subst hx
      refine ⟨[], [itemOf decode (s x).conn.maxFrameBytes message], .of_receive rfl rfl rfl rfl ?_⟩
      rw [hs.maxFrameBytes x]
      exact .control hopen hcontrol (by simp [Peer.receive, hopen])
    · exact ⟨[], [], .of_ne hx hs (List.append_nil _).symm rfl rfl⟩
  | @hangUp y last hopen hlast =>
    by_cases hx : x = y
    · subst hx
      refine ⟨[], last.toList, .of_receive rfl rfl rfl rfl (.hangUp hopen rfl fun item hitem => ?_)⟩
      rw [Option.mem_def.mp hitem] at hlast
      exact hlast
    · exact ⟨[], [], .of_ne hx hs (List.append_nil _).symm rfl rfl⟩

theorem Moves.ended {messages : List Message} {items : List Item} (h : Moves decode limit s s' ev o x messages items)
    (hended : (s x).ended = true) : (s' x).ended = true ∧ messages = [] ∧ items = [] := by
  cases h.arrives with
  | nothing hsame => exact ⟨hsame.trans hended, rfl, rfl⟩
  | message hopen | control hopen | hangUp hopen => cases hopen.symm.trans hended

/-- A stream that goes on has yielded nothing to end it. -/
theorem Moves.goes_on {messages : List Message} {items : List Item}
    (h : Moves decode limit s s' ev o x messages items) (hopen : (s' x).ended = false) :
    (s x).ended = false ∧ ∀ m ∈ messages, isLast (itemOf decode (limit x) m) = false := by
  cases h.arrives with
  | nothing hsame => exact ⟨hsame.symm.trans hopen, fun m hm => (by cases hm)⟩
  | message hpre hlast =>
    refine ⟨hpre, fun m hm => ?_⟩
    rw [List.mem_singleton.mp hm]
    exact hlast.symm.trans hopen
  | control hpre => exact ⟨hpre, fun m hm => (by cases hm)⟩
  | hangUp _ hended => cases hended.symm.trans hopen

/-- The stream of `x` is cut, perhaps with a last item: by the network, or by a control frame that its decoder
refuses. -/
inductive Cut (decode : Decoder) (maxFrameBytes : ℕ) (x : Side) : DuplexEvent → Option Item → Prop
  | hangUp (last : Option Item) : Cut decode maxFrameBytes x (.hangUp x last) last
  | control {message : Message} {e : TungsteniteError} (h : itemOf decode maxFrameBytes message = .error e) :
      Cut decode maxFrameBytes x (.control x message) (some (.error e))

/-- Control frames come through a decoder as they are, or as an error. -/
def PassesControl (decode : Decoder) : Prop :=
  ∀ limit message, message.control.isSome = true →
    decode limit message = .ok message ∨ ∃ e, decode limit message = .error e

/-- What a step of an open stream lets its end hear: the messages that arrive, or the last item of a stream that
is cut. -/
theorem Moves.hears {messages : List Message} {items : List Item}
    (h : Moves decode limit s s' ev o x messages items) (hdecode : PassesControl decode)
    (hopen : (s x).ended = false) :
    ∃ last, answering items = answering (messages.map (itemOf decode (limit x))) ++ last.toList ∧
      ((s' x).ended = false → last = none) ∧ (∀ item ∈ last, Cut decode (limit x) x ev (some item)) ∧
      ((s' x).ended = true → (∃ m ∈ messages, isLast (itemOf decode (limit x) m) = true) ∨
        ∃ last, Cut decode (limit x) x ev last) := by
  cases h.arrives with
  | nothing hsame =>
    refine ⟨none, rfl, fun _ => rfl, fun item hitem => (by cases hitem), fun hended => ?_⟩
    cases hopen.symm.trans (hsame.symm.trans hended)
  | @message message _ hlast =>
    refine ⟨none, (List.append_nil _).symm, fun _ => rfl, fun item hitem => (by cases hitem), fun hended => ?_⟩
    exact Or.inl ⟨message, List.mem_singleton_self _, hlast.symm.trans hended⟩
  | @control message _ hcontrol hlast =>
    rcases hdecode (inboundLimit (limit x)) message hcontrol with heq | ⟨e, heq⟩
    · -- it comes through, is skipped, and the stream goes on
      have hitem : itemOf decode (limit x) message = .ok message := heq
      have hskip := isControl_of_control hcontrol
      rw [hitem, isLast_of_isControl hskip] at hlast
      refine ⟨none, by simp [answering, hitem, hskip], fun _ => rfl, fun item h => (by cases h), fun hended => ?_⟩
      cases hlast.symm.trans hended
    · have hitem : itemOf decode (limit x) message = .error e := heq
      rw [hitem] at hlast
      refine ⟨some (.error e), by simp [answering, hitem, isControl], fun hgoes => ?_, ?_,
        fun _ => Or.inr ⟨_, .control hitem⟩⟩
      · cases hgoes.symm.trans hlast
      · rintro item ⟨⟩
        exact .control hitem
  | @hangUp last _ hended hlast =>
    refine ⟨last, ?_, fun hgoes => (by cases hgoes.symm.trans hended), ?_, fun _ => Or.inr ⟨_, .hangUp last⟩⟩
    · exact answering_of_isLast fun item hitem => hlast item (Option.mem_toList.mp hitem)
    · rintro item ⟨⟩
      exact .hangUp _

theorem ok_step (h : DuplexCase decode s ev o s') (hs : s.Ok decode limit) : s'.Ok decode limit := by
  have htaken : ∀ x, (s' x).taken ≤ (s' x.other).conn.stream.outgoing.length := by
    intro x
    obtain ⟨messages, items, hm⟩ := h.moves hs x
    have hlength := congrArg List.length hm.arrived
    have hle := hs.taken_le x
    simp only [Duplex.arrived, List.length_append, List.length_take] at hlength
    have heq := hm.taken
    omega
  refine ⟨fun x => ?_, htaken, fun x hopen m hmem => ?_, fun x => ?_⟩
  · obtain ⟨messages, items, hm⟩ := h.moves hs x
    exact hm.maxFrameBytes.trans (hs.maxFrameBytes x)
  · obtain ⟨messages, items, hm⟩ := h.moves hs x
    obtain ⟨hpre, hnew⟩ := hm.goes_on hopen
    rw [hm.arrived, List.mem_append] at hmem
    exact hmem.elim (hs.goes_on x hpre m) (hnew m)
  · obtain ⟨messages, items, hm⟩ := h.moves hs x
    obtain ⟨messages', items', hm'⟩ := h.moves hs x.other
    have hout : (s x.other).conn.stream.outgoing <+: (s' x.other).conn.stream.outgoing := ⟨_, hm'.outgoing.symm⟩
    have harr : s'.arrived x <+: (s' x.other).conn.stream.outgoing := List.take_prefix _ _
    rw [hm.arrived] at harr ⊢
    cases hm.arrives with
    | nothing | control | hangUp =>
      rw [List.append_nil]
      exact (hs.heard x).trans (upTo_mono hout)
    -- the stream was open, so nothing before this message has ended it
    | message hopen => exact concat_prefix_upTo (hs.goes_on x hopen) harr

/-- The stream of `x` has ended, and nothing is left to answer with. -/
def Duplex.Drained (s : Duplex) (x : Side) : Prop := (s x).ended = true ∧ (s x).idle

theorem Duplex.Drained.answers (h : s.Drained x) (ev : DuplexEvent) : s.answers x ev = [] := by
  unfold Duplex.answers
  split
  · split
    · rw [h.2]; rfl
    · rfl
  · rfl

theorem DuplexCase.drained (h : DuplexCase decode s ev o s') (hs : s.Ok decode limit) (hx : s.Drained x) :
    s'.Drained x := by
  obtain ⟨messages, items, hm⟩ := h.moves hs x
  obtain ⟨hended, rfl, rfl⟩ := hm.ended hx.1
  have hqueue := hm.queue
  rw [hx.answers, hx.2] at hqueue
  exact ⟨hended, hqueue⟩

/-- A `next_frame` returns what its item says, or the unclean end once there will be no more items. -/
theorem DuplexCase.replies (h : DuplexCase decode s ev o s') (hs : s.Ok decode limit) (x : Side) :
    replies x ev o = (s.answers x ev).map (outcome (limit x)) ∨
      (replies x ev o = [.error (.connectionClosed false)] ∧ s.answers x ev = [] ∧ s.Drained x) := by
  cases h with
  | @call y op refused reply conn hwait hstep =>
    by_cases hx : y = x
    · subst hx
      cases op with
      | nextFrame =>
        obtain ⟨rfl, -⟩ := step_nextFrame hstep
        have hreply : Ws.replies y (.call y .nextFrame refused) (some (.received
            (expected (s y).conn.maxFrameBytes (s y).conn.stream.incoming 0))) =
              [expected (s y).conn.maxFrameBytes (s y).conn.stream.incoming 0] := if_pos rfl
        have hans : s.answers y (.call y .nextFrame refused) =
          (answering (s y).conn.stream.incoming).head?.toList := if_pos rfl
        rw [hreply, hans, hs.maxFrameBytes]
        unfold expected
        cases hitems : answering (s y).conn.stream.incoming with
        | nil => exact Or.inr ⟨rfl, rfl, hwait rfl hitems, hitems⟩
        | cons item items => exact Or.inl rfl
      | sendFrame | close =>
        obtain ⟨rfl, -⟩ := Prod.mk.inj (Option.some.inj hstep)
        exact Or.inl rfl
    · have hreply : Ws.replies x (.call y op refused) (some reply) = [] := by
        cases reply with
        | received result => exact if_neg hx
        | sent result => rfl
      have hans : s.answers x (.call y op refused) = [] := by
        cases op with
        | nextFrame => exact if_neg hx
        | sendFrame | close => rfl
      rw [hreply, hans]
      exact Or.inl rfl
  | arrive | control | hangUp => exact Or.inl rfl

/-- What a step sends has passed the limit of the sender. -/
theorem DuplexCase.sends (h : DuplexCase decode s ev o s') (hs : s.Ok decode limit)
    {message : Message} (hm : message ∈ sends x ev o) :
    (∃ frame, message = .binary frame ∧ Within (limit x) frame.length) ∨ message = .close none := by
  cases h with
  | @call y op refused reply conn _ hstep =>
    unfold Ws.sends at hm
    dsimp only at hm
    split at hm
    · next hx =>
      subst hx
      rw [← hs.maxFrameBytes y]
      exact sentMessage_cases hstep (Option.mem_toList.mp hm)
    · cases hm
  | arrive | control | hangUp => cases hm

end Step

/-! ## Runs -/

section Run

variable {decode : Decoder} {limit : Side → ℕ} {s s' : Duplex} {r : List DuplexCall} {x : Side}

theorem run_ok (hr : Path (duplexStep decode) s r s') (hs : s.Ok decode limit) :
    s'.Ok decode limit ∧ ∀ t ∈ r, t.pre.Ok decode limit := by
  obtain ⟨hend, hmem⟩ := hr.invariant (P := Duplex.Ok decode limit) (K := fun _ => True)
    (fun t ht _ hpre => ok_step (duplexStep_iff.mp ht) hpre) (fun _ _ => trivial) hs
  exact ⟨hend, fun t ht => (hmem t ht).1⟩

theorem run_outgoing_duplex (hr : Path (duplexStep decode) s r s') (hs : s.Ok decode limit) (x : Side) :
    (s' x).conn.stream.outgoing = (s x).conn.stream.outgoing ++ sentBy x r := by
  have hqueue : ∀ t ∈ r, QueueStep (fun s : Duplex => (s x).conn.stream.outgoing)
      (fun t : DuplexCall => sends x t.ev t.out) (fun _ => []) t := by
    intro t ht
    obtain ⟨messages, items, hm⟩ := (duplexStep_iff.mp (hr.isStep t ht)).moves ((run_ok hr hs).2 t ht) x
    exact hm.outgoing
  have hfifo := hr.fifo hqueue
  rwa [List.flatMap_eq_nil_iff.mpr fun _ _ => rfl, List.nil_append] at hfifo

/-- A stream that has ended stays so, and nothing arrives any more. -/
theorem run_ended (hr : Path (duplexStep decode) s r s') (hs : s.Ok decode limit) (hended : (s x).ended = true) :
    (s' x).ended = true ∧ s'.arrived x = s.arrived x ∧
      answersIn x r ++ answering (s' x).conn.stream.incoming = answering (s x).conn.stream.incoming := by
  obtain ⟨⟨-, hend, harr⟩, hmem⟩ := hr.invariant
    (P := fun u => u.Ok decode limit ∧ (u x).ended = true ∧ u.arrived x = s.arrived x) (K := fun _ => True)
    (fun t ht _ ⟨hok, hpre, heq⟩ => by
      have hcase := duplexStep_iff.mp ht
      obtain ⟨messages, items, hm⟩ := hcase.moves hok x
      obtain ⟨hpost, rfl, rfl⟩ := hm.ended hpre
      exact ⟨ok_step hcase hok, hpost, by rw [hm.arrived, List.append_nil, heq]⟩)
    (fun _ _ => trivial) ⟨hs, hended, rfl⟩
  have hqueue : ∀ t ∈ r, QueueStep (fun s : Duplex => answering (s x).conn.stream.incoming) (fun _ => [])
      (fun t : DuplexCall => t.pre.answers x t.ev) t := by
    intro t ht
    obtain ⟨messages, items, hm⟩ := (duplexStep_iff.mp (hr.isStep t ht)).moves (hmem t ht).1.1 x
    obtain ⟨-, rfl, rfl⟩ := hm.ended (hmem t ht).1.2.1
    exact hm.queue
  have hfifo := hr.fifo hqueue
  rw [List.flatMap_eq_nil_iff.mpr fun _ _ => rfl, List.append_nil] at hfifo
  exact ⟨hend, harr, hfifo⟩

/-- **What is heard**, over a whole run of an open stream: the messages that have arrived, in order, and then
the last item of the stream if it was cut.  It ends with one of these messages or with a cut. -/
theorem run_heard (hdecode : PassesControl decode) (hr : Path (duplexStep decode) s r s') (hs : s.Ok decode limit)
    (hopen : (s x).ended = false) :
    ∃ messages last, s'.arrived x = s.arrived x ++ messages ∧
      answersIn x r ++ answering (s' x).conn.stream.incoming =
        answering (s x).conn.stream.incoming ++ answering (messages.map (itemOf decode (limit x))) ++ last.toList ∧
      ((s' x).ended = false → last = none) ∧
      (∀ item ∈ last, ∃ t ∈ r, Cut decode (limit x) x t.ev (some item)) ∧
      ((s' x).ended = true → (∃ m ∈ messages, isLast (itemOf decode (limit x) m) = true) ∨
        ∃ t ∈ r, ∃ last, Cut decode (limit x) x t.ev last) := by
  induction hr with
  | nil s =>
    refine ⟨[], none, (List.append_nil _).symm, by simp [answersIn, answering], fun _ => rfl,
      fun item h => (by cases h), fun hended => (by cases hopen.symm.trans hended)⟩
  | @cons t r s' ht hr ih =>
    have hcase := duplexStep_iff.mp ht
    have hpost := ok_step hcase hs
    obtain ⟨messages, items, hm⟩ := hcase.moves hs x
    obtain ⟨last, hitems, hlast, hcause, hend⟩ := hm.hears hdecode hopen
    have hcons : answersIn x (t :: r) = t.pre.answers x t.ev ++ answersIn x r := List.flatMap_cons
    cases hgoes : (t.post x).ended with
    | false =>
      obtain rfl := hlast hgoes
      obtain ⟨messages', last, harr, hanswers, hlast', hcause', hend'⟩ := ih hpost hgoes
      refine ⟨messages ++ messages', last, ?_, ?_, hlast', fun item hitem => ?_, fun hended => ?_⟩
      · rw [harr, hm.arrived, List.append_assoc]
      · rw [hcons, List.append_assoc, hanswers, ← List.append_assoc, ← List.append_assoc, hm.queue, hitems,
          List.map_append, answering_append, Option.toList_none, List.append_nil]
        simp only [List.append_assoc]
      · obtain ⟨u, hu, hcut⟩ := hcause' item hitem
        exact ⟨u, List.mem_cons_of_mem _ hu, hcut⟩
      · rcases hend' hended with ⟨m, hmem, hlast⟩ | ⟨u, hu, hcut⟩
        · exact Or.inl ⟨m, List.mem_append_right _ hmem, hlast⟩
        · exact Or.inr ⟨u, List.mem_cons_of_mem _ hu, hcut⟩
    | true =>
      -- the stream ends here, and the rest of the run brings nothing
      obtain ⟨hended, harr, hanswers⟩ := run_ended hr hpost hgoes
      refine ⟨messages, last, harr.trans hm.arrived, ?_, fun h => (by cases hended.symm.trans h),
        fun item hitem => ⟨t, List.mem_cons_self, hcause item hitem⟩,
        fun _ => (hend hgoes).imp_right fun hcut => ⟨t, List.mem_cons_self, hcut⟩⟩
      rw [hcons, List.append_assoc, hanswers, hm.queue, hitems, List.append_assoc]

/-- What `next_frame` returns is what the items say, and unclean ends once there will be none. -/
theorem run_replies (hr : Path (duplexStep decode) s r s') (hs : s.Ok decode limit) (x : Side) :
    ∃ k, receivedBy x r = (answersIn x r).map (outcome (limit x)) ++
      List.replicate k (.error (.connectionClosed false)) ∧ (0 < k → s'.Drained x) := by
  induction hr with
  | nil s => exact ⟨0, rfl, fun h => absurd h (Nat.lt_irrefl 0)⟩
  | @cons t r s' ht hr ih =>
    have hcase := duplexStep_iff.mp ht
    have hpost := ok_step hcase hs
    obtain ⟨k, hk, hdrained⟩ := ih hpost
    unfold receivedBy answersIn at hk ⊢
    rw [List.flatMap_cons, List.flatMap_cons, hk, List.map_append]
    rcases hcase.replies hs x with heq | ⟨heq, hans, hnow⟩
    · exact ⟨k, by rw [heq, List.append_assoc], hdrained⟩
    · -- from here on there are no items
      obtain ⟨hend, hmem⟩ := hr.invariant (P := fun u => u.Ok decode limit ∧ u.Drained x) (K := fun _ => True)
        (fun t ht _ h => ⟨ok_step (duplexStep_iff.mp ht) h.1, (duplexStep_iff.mp ht).drained h.1 h.2⟩)
        (fun _ _ => trivial) ⟨hpost, hcase.drained hs hnow⟩
      have hlater : (r.flatMap fun t => t.pre.answers x t.ev) = [] :=
        List.flatMap_eq_nil_iff.mpr fun u hu => (hmem u hu).1.2.answers _
      rw [heq, hans, hlater]
      exact ⟨k + 1, rfl, fun _ => hend.2⟩

theorem sentBy_cases (hr : Path (duplexStep decode) s r s') (hs : s.Ok decode limit) {message : Message}
    (hm : message ∈ sentBy x r) :
    (∃ frame, message = .binary frame ∧ Within (limit x) frame.length) ∨ message = .close none := by
  obtain ⟨t, ht, hm⟩ := List.mem_flatMap.mp hm
  exact (duplexStep_iff.mp (hr.isStep t ht)).sends ((run_ok hr hs).2 t ht) hm

end Run

/-! ## What arrives -/

/-- What is known of a decoder: it applies its limit to data and to control frames, and a `Close` without a
reason comes through. -/
structure Conforms (decode : Decoder) : Prop where
  data : Enforces decode
  close : ∀ limit, decode limit (.close none) = .ok (.close none)
  control : PassesControl decode
  oversized : ∀ limit message bytes, message.control = some bytes → ∀ max ∈ limit, max < bytes.length →
    ∃ size, max < size ∧ decode limit message = .error (.capacity (.messageTooLong size max))

/-- A message behind which the stream of a receiver with this limit ends. -/
def ends (maxFrameBytes : ℕ) : Message → Bool
  | .close _ => true
  | message => message.data.any fun bytes => ¬ Within maxFrameBytes bytes.length

/-- What `next_frame` makes of a message of the other end. -/
def arrival (decode : Decoder) (maxFrameBytes : ℕ) (message : Message) : Except TransportError (Option Bytes) :=
  outcome maxFrameBytes (itemOf decode maxFrameBytes message)

section Arrival

variable {decode : Decoder} {limit : Side → ℕ} {s s' : Duplex} {r : List DuplexCall} {x : Side}

theorem itemOf_binary (hdecode : Enforces decode) (maxFrameBytes : ℕ) (frame : Bytes) :
    (Within maxFrameBytes frame.length ∧ itemOf decode maxFrameBytes (.binary frame) = .ok (.binary frame)) ∨
      (¬ Within maxFrameBytes frame.length ∧ ∃ e, itemOf decode maxFrameBytes (.binary frame) = .error e) := by
  obtain ⟨hpass, hrefuse⟩ := hdecode (inboundLimit maxFrameBytes) (.binary frame) frame rfl
  by_cases hw : Within maxFrameBytes frame.length
  · exact Or.inl ⟨hw, hpass ((admits_inboundLimit _ _).mpr hw)⟩
  · obtain ⟨hmem, hlt⟩ := mem_inboundLimit hw
    obtain ⟨size, -, hitem⟩ := hrefuse maxFrameBytes hmem hlt
    exact Or.inr ⟨hw, _, hitem⟩

/-- No message of a driver is skipped, and it ends the stream if it says so. -/
theorem itemOf_sent (hdecode : Conforms decode) {maxFrameBytes : ℕ} {message : Message}
    (hm : (∃ frame, message = .binary frame) ∨ message = .close none) :
    isControl (itemOf decode maxFrameBytes message) = false ∧
      isLast (itemOf decode maxFrameBytes message) = ends maxFrameBytes message := by
  rcases hm with ⟨frame, rfl⟩ | rfl
  · rcases itemOf_binary hdecode.data maxFrameBytes frame with ⟨hw, hitem⟩ | ⟨hw, e, hitem⟩
    · rw [hitem]
      exact ⟨rfl, by simp [isLast, ends, Message.data, hw]⟩
    · rw [hitem]
      exact ⟨rfl, by simp [isLast, ends, Message.data, hw]⟩
  · have hitem : itemOf decode maxFrameBytes (.close none) = .ok (.close none) := hdecode.close _
    rw [hitem]
    exact ⟨rfl, rfl⟩

theorem fresh_ok (limit : Side → ℕ) : (Duplex.fresh limit).Ok decode limit :=
  ⟨fun _ => rfl, fun _ => Nat.zero_le _, fun _ _ m hm => (by cases hm), fun _ => List.nil_prefix⟩

/-- A control frame over the limit ends the stream. -/
theorem run_control (hdecode : Conforms decode) (hr : Path (duplexStep decode) s r s') (hs : s.Ok decode limit)
    {t : DuplexCall} (ht : t ∈ r) {message : Message} {bytes : Bytes} (hev : t.ev = .control x message)
    (hcontrol : message.control = some bytes) (hw : ¬ Within (limit x) bytes.length) :
    (s' x).ended = true ∧ ∃ size, limit x < size ∧
      arrival decode (limit x) message = .error (.payloadTooLarge "ws_message" (limit x) size) := by
  obtain ⟨hmem, hlt⟩ := mem_inboundLimit hw
  obtain ⟨size, hsize, hitem⟩ := hdecode.oversized (inboundLimit (limit x)) message bytes hcontrol (limit x) hmem hlt
  have hitem' : itemOf decode (limit x) message = .error (.capacity (.messageTooLong size (limit x))) := hitem
  have hok := (run_ok hr hs).2 t ht
  have hcase := duplexStep_iff.mp (hr.isStep t ht)
  have hpost : (t.post x).ended = true := by
    obtain ⟨pre, ev, out, post⟩ := t
    dsimp only at hev hok hcase ⊢
    subst hev
    cases hcase with
    | control =>
      rw [Function.update_self, hok.maxFrameBytes, hitem']
      exact Bool.or_true _
  obtain ⟨a, b, rfl⟩ := List.append_of_mem ht
  obtain ⟨mid, -, hafter⟩ := hr.split
  cases hafter with
  | cons _ hlater =>
    refine ⟨(run_ended hlater (ok_step hcase hok) hpost).1, size, hsize, ?_⟩
    unfold arrival
    rw [hitem']
    rfl

/-- What arrives of what was sent to two new connections. -/
theorem arrived_sent (hdecode : Conforms decode) (hr : Path (duplexStep decode) (Duplex.fresh limit) r s) (x : Side) :
    (s x.other).conn.stream.outgoing = sentBy x.other r ∧
      upTo (fun m => isLast (itemOf decode (limit x) m)) (s x.other).conn.stream.outgoing =
        upTo (ends (limit x)) (sentBy x.other r) ∧
      ∀ m ∈ s.arrived x, isControl (itemOf decode (limit x) m) = false := by
  have hout := run_outgoing_duplex hr (fresh_ok limit) x.other
  have hkind : ∀ m ∈ sentBy x.other r, (∃ frame, m = .binary frame) ∨ m = .close none := fun m hm =>
    (sentBy_cases hr (fresh_ok limit) hm).imp_left fun ⟨frame, heq, _⟩ => ⟨frame, heq⟩
  have hsent : (s x.other).conn.stream.outgoing = sentBy x.other r := hout
  refine ⟨hsent, ?_, fun m hm => ?_⟩
  · rw [hsent]
    exact upTo_congr fun m hm => (itemOf_sent hdecode (hkind m hm)).2
  · have hmem : m ∈ (s x.other).conn.stream.outgoing := List.mem_of_mem_take hm
    rw [hsent] at hmem
    exact (itemOf_sent hdecode (hkind m hmem)).1

/-- What has arrived is what the other end has sent up to the message that ends the stream, unless more is under
way or the stream was cut. -/
theorem arrived_eq (hdecode : Conforms decode) (hr : Path (duplexStep decode) (Duplex.fresh limit) r s)
    (hcut : ∀ t ∈ r, ∀ last, ¬ Cut decode (limit x) x t.ev last)
    (hall : (s x).ended = true ∨ (s x.other).conn.stream.outgoing.length ≤ (s x).taken) :
    s.arrived x = upTo (ends (limit x)) (sentBy x.other r) := by
  have hok := (run_ok hr (fresh_ok limit)).1
  obtain ⟨-, hread, -⟩ := arrived_sent hdecode hr x
  rw [← hread]
  cases hended : (s x).ended with
  | true =>
    obtain ⟨messages, last, harr, -, -, -, hend⟩ := run_heard hdecode.control hr (fresh_ok limit) (x := x) rfl
    have hmessages : s.arrived x = messages := harr
    refine eq_upTo (hok.heard x) (hmessages ▸ ?_)
    exact (hend hended).resolve_right fun ⟨t, ht, last, h⟩ => hcut t ht last h
  | false =>
    have hle := hall.resolve_left (by rw [hended]; rintro ⟨⟩)
    have harr : s.arrived x = (s x.other).conn.stream.outgoing := List.take_of_length_le hle
    rw [upTo_eq_self fun m hm => hok.goes_on x hended m (harr ▸ hm)]
    exact harr

/-- **In order, exactly once**: what has been read, and then what is still to be read, is what has arrived and the
last item of a stream that was cut. -/
theorem heard_initial (hdecode : Conforms decode) (hr : Path (duplexStep decode) (Duplex.fresh limit) r s)
    (x : Side) :
    ∃ last, (answersIn x r).map (outcome (limit x)) ++
          (answering (s x).conn.stream.incoming).map (outcome (limit x)) =
        (s.arrived x).map (arrival decode (limit x)) ++ last.toList.map (outcome (limit x)) ∧
      ((s x).ended = false → last = none) ∧ ∀ item ∈ last, ∃ t ∈ r, Cut decode (limit x) x t.ev (some item) := by
  obtain ⟨messages, last, harr, hans, hlast, hcause, -⟩ := run_heard hdecode.control hr (fresh_ok limit) (x := x) rfl
  have hmessages : s.arrived x = messages := harr
  have hskip : answering (messages.map (itemOf decode (limit x))) = messages.map (itemOf decode (limit x)) := by
    refine answering_eq_self fun item hitem => ?_
    obtain ⟨m, hm, rfl⟩ := List.mem_map.mp hitem
    exact (arrived_sent hdecode hr x).2.2 m (hmessages ▸ hm)
  have hempty : answering (Duplex.fresh limit x).conn.stream.incoming = [] := rfl
  refine ⟨last, ?_, hlast, hcause⟩
  rw [← List.map_append, hans, hempty, List.nil_append, hskip, List.map_append, List.map_map, hmessages]
  rfl

/-- What `x` has received, as far as it has asked. -/
theorem receivedBy_initial (hdecode : Conforms decode) (hr : Path (duplexStep decode) (Duplex.fresh limit) r s)
    (x : Side) :
    ∃ n last k, receivedBy x r <+:
        ((upTo (ends (limit x)) (sentBy x.other r)).take n).map (arrival decode (limit x)) ++
          last.toList.map (outcome (limit x)) ++ List.replicate k (.error (.connectionClosed false)) ∧
      ((s x).ended = false → last = none ∧ k = 0) ∧
      ∀ item ∈ last, ∃ t ∈ r, Cut decode (limit x) x t.ev (some item) := by
  obtain ⟨k, hk, hdrained⟩ := run_replies hr (fresh_ok limit) x
  obtain ⟨last, hheard, hlast, hcause⟩ := heard_initial hdecode hr x
  have harr := (run_ok hr (fresh_ok limit)).1.heard x
  rw [(arrived_sent hdecode hr x).2.1] at harr
  refine ⟨(s.arrived x).length, last, k, ?_, fun hopen => ⟨hlast hopen, ?_⟩, hcause⟩
  · rw [← List.prefix_iff_eq_take.mp harr, ← hheard, hk]
    rcases Nat.eq_zero_or_pos k with rfl | hpos
    · rw [List.replicate_zero, List.append_nil, List.append_nil]
      exact List.prefix_append _ _
    · -- an unclean end comes after everything else
      have hidle : answering (s x).conn.stream.incoming = [] := (hdrained hpos).2
      simp only [hidle, List.map_nil, List.append_nil, List.prefix_rfl]
  · by_contra hne
    cases hopen.symm.trans (hdrained (Nat.pos_of_ne_zero hne)).1

/-! ## Everything arrives -/

/-- A step towards having received everything. -/
def receiving (x : Side) (t : DuplexCall) : Prop :=
  t.ev = .arrive x ∨ (t.ev = .call x .nextFrame none ∧ ¬ (t.pre x).idle)

/-- How far `x` is from having received everything: a message is to arrive and to be read. -/
def Duplex.lag (x : Side) (s : Duplex) : ℕ :=
  2 * ((s x.other).conn.stream.outgoing.length - (s x).taken) + (answering (s x).conn.stream.incoming).length

theorem lag_lt {t : DuplexCall} (ht : IsStep (duplexStep decode) t) (hx : receiving x t) :
    t.post.lag x < t.pre.lag x ∧ sends x.other t.ev t.out = [] ∧
      ∀ maxFrameBytes last, ¬ Cut decode maxFrameBytes x t.ev last := by
  obtain ⟨pre, ev, out, post⟩ := t
  have hcase := duplexStep_iff.mp ht
  unfold Duplex.lag
  dsimp only at hcase ⊢
  rcases hx with rfl | ⟨rfl, hbusy⟩
  · cases hcase with
    | @arrive _ message hended hnext =>
      obtain ⟨hlt, -⟩ := List.getElem?_eq_some_iff.mp hnext
      rw [Function.update_self, Function.update_of_ne x.other_ne]
      refine ⟨?_, rfl, fun _ last h => (by cases h)⟩
      have hlen : (answering ((pre x).conn.stream.incoming ++
          [itemOf decode (pre x).conn.maxFrameBytes message])).length ≤
          (answering (pre x).conn.stream.incoming).length + 1 := by
        rw [answering_append, List.length_append]
        exact Nat.add_le_add_left (List.length_filter_le _ _) _
      show 2 * (_ - ((pre x).taken + 1)) + (answering ((pre x).conn.stream.incoming ++ [_])).length < _
      omega
  · cases hcase with
    | @call _ _ _ reply conn hwait hstep =>
      obtain ⟨-, hdrop, -⟩ := step_nextFrame hstep
      rw [Function.update_self, Function.update_of_ne x.other_ne]
      refine ⟨?_, if_neg x.other_ne.symm, fun _ last h => (by cases h)⟩
      have hpos : 0 < (answering (pre x).conn.stream.incoming).length := List.length_pos_iff.mpr hbusy
      show 2 * (_ - (pre x).taken) + (answering conn.stream.incoming).length < _
      rw [hdrop, List.length_drop]
      omega

theorem replies_of_receiving {t : DuplexCall} (ht : IsStep (duplexStep decode) t) (hs : t.pre.Ok decode limit)
    (hx : receiving x t) : replies x t.ev t.out = (t.pre.answers x t.ev).map (outcome (limit x)) := by
  refine ((duplexStep_iff.mp ht).replies hs x).resolve_right ?_
  rintro ⟨hreply, -, hdrained⟩
  rcases hx with hev | ⟨-, hbusy⟩
  · rw [hev] at hreply
    cases hreply
  · exact hbusy hdrained.2

/-- Where no such step is possible everything has been read, and nothing more can arrive. -/
theorem idle_of_rest (hrest : ∀ t, IsStep (duplexStep decode) t → t.pre = s → ¬ receiving x t) :
    (s x).idle ∧ ((s x).ended = true ∨ (s x.other).conn.stream.outgoing.length ≤ (s x).taken) := by
  constructor
  · by_contra hbusy
    obtain ⟨⟨reply, conn⟩, hstep⟩ : ∃ p, step (sinkOf none) (s x).conn .nextFrame = some p := ⟨_, rfl⟩
    have hcase : DuplexCase decode s (.call x .nextFrame none) _ _ :=
      .call x .nextFrame (fun _ h => absurd h hbusy) hstep
    exact hrest ⟨s, .call x .nextFrame none, _, _⟩ (duplexStep_iff.mpr hcase) rfl (Or.inr ⟨rfl, hbusy⟩)
  · by_contra hmore
    rw [not_or, Bool.not_eq_true, Nat.not_le] at hmore
    have hnext := List.getElem?_eq_getElem hmore.2
    have hcase : DuplexCase decode s (.arrive x) _ _ := .arrive x hmore.1 hnext
    exact hrest ⟨s, .arrive x, _, _⟩ (duplexStep_iff.mpr hcase) rfl (Or.inl rfl)

/-- An end whose stream was not cut goes on to receive everything. -/
theorem exists_receives (hdecode : Conforms decode) (hr : Path (duplexStep decode) (Duplex.fresh limit) r s)
    (hcut : ∀ t ∈ r, ∀ last, ¬ Cut decode (limit x) x t.ev last) :
    ∃ r' s' k, Path (duplexStep decode) s r' s' ∧ (∀ t ∈ r', t.ev = .arrive x ∨ t.ev = .call x .nextFrame none) ∧
      receivedBy x (r ++ r') = (upTo (ends (limit x)) (sentBy x.other r)).map (arrival decode (limit x)) ++
        List.replicate k (.error (.connectionClosed false)) ∧ ((s x).ended = false → k = 0) := by
  obtain ⟨r', s', hr', hK, hrest⟩ :=
    exists_path_rest (fun t (ht : IsStep (duplexStep decode) t) (hx : receiving x t) => (lag_lt ht hx).1) s
  have hlag := fun t ht => lag_lt (hr'.isStep t ht) (hK t ht)
  have hcut' : ∀ t ∈ r ++ r', ∀ last, ¬ Cut decode (limit x) x t.ev last := by
    intro t ht
    rcases List.mem_append.mp ht with ht | ht
    · exact hcut t ht
    · exact (hlag t ht).2.2 _
  have hsent : sentBy x.other (r ++ r') = sentBy x.other r := by
    have hnone : sentBy x.other r' = [] := List.flatMap_eq_nil_iff.mpr fun t ht => (hlag t ht).2.1
    unfold sentBy at hnone ⊢
    rw [List.flatMap_append, hnone, List.append_nil]
  -- at the end everything that was sent has been read
  have hread : (answersIn x (r ++ r')).map (outcome (limit x)) =
      (upTo (ends (limit x)) (sentBy x.other r)).map (arrival decode (limit x)) := by
    obtain ⟨hidle, hall⟩ := idle_of_rest hrest
    obtain ⟨last, hheard, -, hcause⟩ := heard_initial hdecode (hr.append hr') x
    have hlast : last = none := Option.eq_none_iff_forall_not_mem.mpr fun item hitem => by
      obtain ⟨t, ht, h⟩ := hcause item hitem
      exact hcut' t ht _ h
    rw [show answering (s' x).conn.stream.incoming = [] from hidle, hlast,
      arrived_eq hdecode (hr.append hr') hcut' hall, hsent] at hheard
    simpa only [List.map_nil, Option.toList_none, List.append_nil] using hheard
  obtain ⟨k, hk, -⟩ := run_replies (hr.append hr') (fresh_ok limit) x
  refine ⟨r', s', k, hr', fun t ht => (hK t ht).imp_right And.left, by rw [hk, hread], fun hopen => ?_⟩
  -- while the stream goes on every call is answered with an item
  have hbefore : receivedBy x r = (answersIn x r).map (outcome (limit x)) := by
    obtain ⟨k, hk, hdrained⟩ := run_replies hr (fresh_ok limit) x
    rcases Nat.eq_zero_or_pos k with rfl | hpos
    · rw [hk, List.replicate_zero, List.append_nil]
    · cases hopen.symm.trans (hdrained hpos).1
  have hafter : receivedBy x r' = (answersIn x r').map (outcome (limit x)) := by
    have hok := (run_ok hr' (run_ok hr (fresh_ok limit)).1).2
    unfold receivedBy answersIn
    rw [List.map_flatMap]
    exact List.flatMap_congr fun t ht => replies_of_receiving (hr'.isStep t ht) (hok t ht) (hK t ht)
  unfold receivedBy answersIn at hk hbefore hafter
  rw [List.flatMap_append, List.flatMap_append, List.map_append, hbefore, hafter] at hk
  simpa only [List.replicate_eq_nil_iff] using List.self_eq_append_right.mp hk

end Arrival

/-- **Two connections deliver each other's frames.**  In every run `next_frame` returns to an end, in order, a
first part of what the other end has sent up to the first `Close` or over-limit frame, and behind it at most the
last item of a stream that was cut and unclean ends.  If it was not cut, the end can go on to receive all of it. -/
theorem duplex_delivery {decode : Decoder} (hdecode : Conforms decode) (limit : Side → ℕ) {r : List DuplexCall}
    {s : Duplex} (hr : Path (duplexStep decode) (Duplex.fresh limit) r s) (x : Side) :
    (∃ n last k, receivedBy x r <+:
        ((upTo (ends (limit x)) (sentBy x.other r)).take n).map (arrival decode (limit x)) ++
          last.toList.map (outcome (limit x)) ++ List.replicate k (.error (.connectionClosed false)) ∧
      ((s x).ended = false → last = none ∧ k = 0) ∧
      ∀ item ∈ last, ∃ t ∈ r, Cut decode (limit x) x t.ev (some item)) ∧
    (∀ message ∈ sentBy x.other r,
      (∃ frame, message = .binary frame ∧
        (Within (limit x) frame.length → arrival decode (limit x) message = .ok (some frame)) ∧
        (¬ Within (limit x) frame.length → ∃ size, limit x < size ∧
          arrival decode (limit x) message = .error (.payloadTooLarge "ws_message" (limit x) size)) ∧
        (limit x = limit x.other → Within (limit x) frame.length)) ∨
      (message = .close none ∧ arrival decode (limit x) message = .ok none)) ∧
    (∀ t ∈ r, ∀ message bytes, t.ev = .control x message → message.control = some bytes →
      ¬ Within (limit x) bytes.length → (s x).ended = true ∧ ∃ size, limit x < size ∧
        arrival decode (limit x) message = .error (.payloadTooLarge "ws_message" (limit x) size)) ∧
    ((∀ t ∈ r, ∀ last, ¬ Cut decode (limit x) x t.ev last) →
      ∃ r' s' k, Path (duplexStep decode) s r' s' ∧
        (∀ t ∈ r', t.ev = .arrive x ∨ t.ev = .call x .nextFrame none) ∧
        receivedBy x (r ++ r') = (upTo (ends (limit x)) (sentBy x.other r)).map (arrival decode (limit x)) ++
          List.replicate k (.error (.connectionClosed false)) ∧
        ((s x).ended = false → k = 0)) := by
  refine ⟨receivedBy_initial hdecode hr x, fun message hm => ?_,
    fun t ht message bytes => run_control hdecode hr (fresh_ok limit) ht, exists_receives hdecode hr⟩
  rcases sentBy_cases hr (fresh_ok limit) hm with ⟨frame, rfl, hw⟩ | rfl
  · have hdata : (Message.binary frame).data = some frame := rfl
    obtain ⟨hin, hout⟩ := outcome_of_enforces hdecode.data (limit x) hdata
    exact Or.inl ⟨frame, rfl, hin, hout, fun heq => heq ▸ hw⟩
  · have hitem : itemOf decode (limit x) (.close none) = .ok (.close none) := hdecode.close _
    refine Or.inr ⟨rfl, ?_⟩
    unfold arrival
    rw [hitem]
    rfl

/-- A decoder that looks at sizes and at nothing else. -/
def sizeDecoder : Decoder := fun limit message =>
  match message.data.or message.control, limit with
  | some bytes, some max =>
    if bytes.length ≤ max then .ok message else .error (.capacity (.messageTooLong bytes.length max))
  | _, _ => .ok message

theorem sizeDecoder_conforms : Conforms sizeDecoder where
  data limit message bytes hdata := by
    cases limit with
    | none => exact ⟨fun _ => by simp only [sizeDecoder, hdata, Option.some_or], fun max hmax => (by cases hmax)⟩
    | some limit =>
      simp only [sizeDecoder, hdata, Option.some_or]
      refine ⟨fun h => if_pos (h limit rfl), fun max hmax hlt => ⟨bytes.length, hlt, ?_⟩⟩
      obtain rfl : limit = max := Option.some.inj hmax
      exact if_neg (Nat.not_le.mpr hlt)
  close limit := by cases limit <;> rfl
  control limit message _ := by
    unfold sizeDecoder
    split
    · split
      · exact Or.inl rfl
      · exact Or.inr ⟨_, rfl⟩
    · exact Or.inl rfl
  oversized limit message bytes hcontrol max hmax hlt := by
    have hdata : message.data = none := by
      unfold Message.control at hcontrol
      split at hcontrol
      · rfl
      · rfl
      · cases hcontrol
    obtain rfl : limit = some max := hmax
    refine ⟨bytes.length, hlt, ?_⟩
    simp only [sizeDecoder, hdata, hcontrol, Option.none_or]
    exact if_neg (Nat.not_le.mpr hlt)

theorem duplex_delivery_sample :
    ∃ r s, Path (duplexStep sizeDecoder) (Duplex.fresh fun _ => 2) r s ∧
      receivedBy .right r = [.ok (some [1, 2]), .ok none] := by
  have hframe : Path (duplexStep sizeDecoder) (Duplex.fresh fun _ => 2) _ _ :=
    Path.of_step (e := .call .left (.sendFrame [1, 2]) none) rfl
  have hr := hframe.append (Path.of_step (e := .call .left .close none) rfl)
  obtain ⟨r', s', k, hr', -, heq, hk⟩ := (duplex_delivery sizeDecoder_conforms (fun _ => 2) hr .right).2.2.2 (by
    intro t ht last hcut
    rcases List.mem_cons.mp ht with rfl | ht
    · cases hcut
    · rw [List.mem_singleton.mp ht] at hcut
      cases hcut)
  rw [hk rfl] at heq
  exact ⟨_, s', hr.append hr', heq⟩

end Transportx.Ws
