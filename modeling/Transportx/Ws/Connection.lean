import Transportx.Http.Boundary
import Transportx.Lib.Path

/-!
# Transportx.Ws.Connection — the WebSocket driver

A connection is a `tungstenite` stream and a frame limit.  The stream is what will come in, item by
item, each a message or an error, and what has gone out.

* `mapTungsteniteError`: how errors of `tungstenite` become errors of the transport.
* `enforceFrameLimit`: the limit of the driver, `0` for none.
* `nextFrame`, `sendFrame`, `close`: the three operations; `step` is a connection in use.
* `connect`: the limit that the decoder is given, and the connection that results.
-/

namespace Transportx.Ws

open Http (Bytes)

/-! ## `tungstenite` -/

inductive Message
  | text (text : String)
  | binary (bytes : Bytes)
  | ping (bytes : Bytes)
  | pong (bytes : Bytes)
  | frame (bytes : Bytes)
  | close (reason : Option String)
deriving DecidableEq

/-- The `ProtocolError`s that the driver tells apart; the others are known by their text. -/
inductive ProtocolError
  | resetWithoutClosingHandshake
  | other (text : String)
deriving DecidableEq

inductive CapacityError
  | messageTooLong (size maxSize : ℕ)
  | other (text : String)
deriving DecidableEq

inductive TungsteniteError
  | connectionClosed
  | alreadyClosed
  | io (error : IoError)
  | protocol (error : ProtocolError)
  | url (text : String)
  | capacity (error : CapacityError)
  | other (text : String)
deriving DecidableEq

abbrev Item := Except TungsteniteError Message

/-- A `WebSocketStream`: the items to come and the messages sent. -/
structure WebSocketStream where
  incoming : List Item
  outgoing : List Message

/-- `WebSocketStream::send` on the messages sent so far. -/
abbrev Sink := List Message → Message → Except TungsteniteError (List Message)

/-- The bytes of a text in UTF-8. -/
def asBytes (text : String) : Bytes := text.toUTF8.data.toList

/-! ## Errors and limits -/

/-- `map_tungstenite_error`. -/
def mapTungsteniteError : TungsteniteError → TransportError
  | .connectionClosed | .alreadyClosed => .connectionClosed true
  | .io error =>
    match error.kind with
    | .unexpectedEof | .connectionReset | .connectionAborted | .brokenPipe => .connectionClosed false
    | .other => .io (.io error)
  | .protocol .resetWithoutClosingHandshake => .connectionClosed false
  | .protocol (.other text) => .protocolViolation text
  | .url text => .protocolViolation text
  | .capacity (.messageTooLong size maxSize) => .payloadTooLarge "ws_message" maxSize size
  | .capacity (.other text) => .protocolViolation text
  | .other text => .protocolViolation text

/-- `enforce_frame_limit`. -/
def enforceFrameLimit (maxFrameBytes : ℕ) (payload : Bytes) : Except TransportError Bytes :=
  if maxFrameBytes > 0 ∧ payload.length > maxFrameBytes then
    .error (.payloadTooLarge "ws_frame" maxFrameBytes payload.length)
  else .ok payload

/-! ## The connection -/

structure Connection where
  stream : WebSocketStream
  maxFrameBytes : ℕ

/-- The loop of `next_frame`, with the items that it leaves in the stream. -/
def nextFrame (maxFrameBytes : ℕ) : List Item → Except TransportError (Option Bytes) × List Item
  | [] => (.error (.connectionClosed false), [])
  | .error e :: rest => (.error (mapTungsteniteError e), rest)
  | .ok (.text text) :: rest => ((enforceFrameLimit maxFrameBytes (asBytes text)).map some, rest)
  | .ok (.binary bytes) :: rest => ((enforceFrameLimit maxFrameBytes bytes).map some, rest)
  | .ok (.ping _) :: rest | .ok (.pong _) :: rest | .ok (.frame _) :: rest => nextFrame maxFrameBytes rest
  | .ok (.close _) :: rest => (.ok none, rest)

/-- `stream.send(message)`. -/
def Connection.send (sink : Sink) (conn : Connection) (message : Message) :
    Except TransportError Unit × Connection :=
  match sink conn.stream.outgoing message with
  | .ok outgoing => (.ok (), { conn with stream := { conn.stream with outgoing } })
  | .error e => (.error (mapTungsteniteError e), conn)

/-- `send_frame`. -/
def sendFrame (sink : Sink) (conn : Connection) (frame : Bytes) : Except TransportError Unit × Connection :=
  match enforceFrameLimit conn.maxFrameBytes frame with
  | .ok frame => conn.send sink (.binary frame)
  | .error e => (.error e, conn)

/-- `close`. -/
def close (sink : Sink) (conn : Connection) : Except TransportError Unit × Connection :=
  conn.send sink (.close none)

inductive Op
  | nextFrame
  | sendFrame (frame : Bytes)
  | close
deriving DecidableEq

inductive Reply
  | received (result : Except TransportError (Option Bytes))
  | sent (result : Except TransportError Unit)

/-- A connection in use.  Every call is possible at any time. -/
def step (sink : Sink) (conn : Connection) : Op → Option (Reply × Connection)
  | .nextFrame =>
    let (result, incoming) := nextFrame conn.maxFrameBytes conn.stream.incoming
    some (.received result, { conn with stream := { conn.stream with incoming } })
  | .sendFrame frame =>
    let (result, conn) := sendFrame sink conn frame
    some (.sent result, conn)
  | .close =>
    let (result, conn) := close sink conn
    some (.sent result, conn)

abbrev Call := Lts.Transition Connection Op Reply

abbrev Run (sink : Sink) (conn : Connection) (r : List Call) (conn' : Connection) : Prop :=
  Lts.Path (step sink) conn r conn'

/-! ## The connector -/

structure WebSocketConfig where
  maxFrameSize : Option ℕ
  maxMessageSize : Option ℕ

structure Connector where
  connectTimeout : Duration
  maxFrameBytes : ℕ

/-- `(max_frame_bytes > 0).then_some(max_frame_bytes)`. -/
def inboundLimit (maxFrameBytes : ℕ) : Option ℕ := if maxFrameBytes > 0 then some maxFrameBytes else none

/-- The configuration that `connect` passes on. -/
def Connector.config (c : Connector) : WebSocketConfig :=
  ⟨inboundLimit c.maxFrameBytes, inboundLimit c.maxFrameBytes⟩

/-- `connect_async_with_config` under `timeout`; it is `none` when time is up. -/
abbrev Dial := Duration → String → WebSocketConfig → Option (Except TungsteniteError WebSocketStream)

/-- `connect`. -/
def connect (dial : Dial) (c : Connector) (url : String) : Except TransportError Connection :=
  match dial c.connectTimeout url c.config with
  | none => .error .connectTimeout
  | some (.error e) => .error (mapTungsteniteError e)
  | some (.ok stream) => .ok ⟨stream, c.maxFrameBytes⟩

end Transportx.Ws
