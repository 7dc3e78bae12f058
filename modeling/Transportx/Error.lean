import Mathlib.Data.Nat.Notation

/-!
# Transportx.Error — the error type of the transport boundary

`TransportError` with the data its variants carry, and `isRetryable`.  A boxed
`dyn Error + Send + Sync` is the error that was boxed: one of `reqwest`, seen through the flags the
crate asks for, or one of `std::io`.
-/

namespace Transportx

/-- `std::time::Duration`, in nanoseconds. -/
abbrev Duration := ℕ

def Duration.fromSecs (s : ℕ) : Duration := s * 1000000000

/-- A `reqwest::Error`, as the crate observes it. -/
structure ReqwestError where
  isTimeout : Bool
  isConnect : Bool
  isBuilder : Bool
  text : String
deriving DecidableEq, Repr

/-- The `std::io::ErrorKind`s that the crate tells apart. -/
inductive IoErrorKind
  | unexpectedEof
  | connectionReset
  | connectionAborted
  | brokenPipe
  | other
deriving DecidableEq, Repr

structure IoError where
  kind : IoErrorKind
  text : String
deriving DecidableEq, Repr

/-- What a `Box<dyn Error + Send + Sync>` of this crate holds. -/
inductive BoxedError
  | reqwest (e : ReqwestError)
  | io (e : IoError)
deriving DecidableEq, Repr

/-- Failures of the transport layer. -/
inductive TransportError
  | connectTimeout
  | readTimeout
  | connectionClosed (clean : Bool)
  | rateLimited (retryAfter : Option Duration)
  | poolExhausted (limit : ℕ)
  | payloadTooLarge (kind : String) (limit got : ℕ)
  | protocolViolation (message : String)
  | io (source : BoxedError)
deriving DecidableEq, Repr

/-- Whether the failure is transient, so that a retry may succeed. -/
def TransportError.isRetryable : TransportError → Bool
  | connectTimeout | readTimeout | connectionClosed _ | rateLimited _ | poolExhausted _ | io _ => true
  | payloadTooLarge _ _ _ | protocolViolation _ => false

end Transportx
