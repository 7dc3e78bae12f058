import Transportx.RetryAfter

/-!
# Transportx.Http.Boundary — requests, responses, and `reqwest` as an environment

* `HttpRequest`, `HttpResponse`: the types of the HTTP boundary.
* `Reqwest`: what the driver calls of `reqwest`, as arbitrary functions.  A response is a status, its
  headers, an optional declared length, and a stream of chunks that ends normally or with an error.
* `mapReqwestError`: how errors of `reqwest` become errors of the transport.
-/

namespace Transportx.Http

abbrev Bytes := List UInt8

structure HttpRequest where
  method : String
  url : String
  headers : List (String × String)
  body : Option Bytes
deriving DecidableEq, Repr

structure HttpResponse where
  status : ℕ
  body : Bytes
deriving DecidableEq, Repr

/-- A `reqwest::RequestBuilder`: what has been asked for, in order. -/
structure RequestBuilder (M : Type) where
  method : M
  url : String
  headers : List (String × String)
  body : Option Bytes

def RequestBuilder.new {M : Type} (method : M) (url : String) : RequestBuilder M := ⟨method, url, [], none⟩

def RequestBuilder.header {M : Type} (b : RequestBuilder M) (name value : String) : RequestBuilder M :=
  { b with headers := b.headers ++ [(name, value)] }

def RequestBuilder.withBody {M : Type} (b : RequestBuilder M) (body : Bytes) : RequestBuilder M :=
  { b with body := some body }

/-- A `reqwest::Response`.  The names of its headers are in lower case, as `HeaderMap` keeps them;
`fin` is what ends the stream after the chunks, nothing or an error. -/
structure Response (V : Type) where
  status : ℕ
  headers : List (String × V)
  contentLength : Option ℕ
  chunks : List Bytes
  fin : Option ReqwestError

/-- `HeaderMap::get`: the first value of a header. -/
def Response.header {V : Type} (response : Response V) (name : String) : Option V :=
  (response.headers.find? fun h => h.1 == name).map Prod.snd

/-- The part of `reqwest`, `httpdate` and the clock that the driver uses: `Method::from_bytes` with the
text of its error, `RequestBuilder::build`, `Client::execute` with all that it does before and after it
connects, `HeaderValue::to_str`, `httpdate::parse_http_date` and `SystemTime::now`. -/
structure Reqwest (C M Q V : Type) where
  fromBytes : String → Except String M
  build : C → RequestBuilder M → Except ReqwestError Q
  execute : C → Q → Except ReqwestError (Response V)
  toStr : V → Option String
  parseHttpDate : String → Option SystemTime
  now : SystemTime

/-- `classify_reqwest_timeout`. -/
def classifyReqwestTimeout (isTimeout isConnect : Bool) : Option TransportError :=
  if !isTimeout then none
  else if isConnect then some .connectTimeout
  else some .readTimeout

/-- `map_reqwest_error`. -/
def mapReqwestError (error : ReqwestError) : TransportError :=
  match classifyReqwestTimeout error.isTimeout error.isConnect with
  | some timeout => timeout
  | none => if error.isBuilder then .protocolViolation error.text else .io (.reqwest error)

/-- A mapped error is permanent exactly when it is an error of the builder and not a timeout. -/
theorem isRetryable_mapReqwestError (e : ReqwestError) :
    (mapReqwestError e).isRetryable = (e.isTimeout || !e.isBuilder) := by
  obtain ⟨timeout, connect, builder, text⟩ := e
  cases timeout <;> cases connect <;> cases builder <;> rfl

/-- No error of `reqwest` is taken for a rate limit. -/
theorem mapReqwestError_ne_rateLimited (e : ReqwestError) (ra : Option Duration) :
    mapReqwestError e ≠ .rateLimited ra := by
  obtain ⟨timeout, connect, builder, text⟩ := e
  cases timeout <;> cases connect <;> cases builder <;> rintro ⟨⟩

end Transportx.Http
