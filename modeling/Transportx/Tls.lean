import Mathlib.Data.Nat.Notation

/-!
# Transportx.Tls — TLS modes and configuration
-/

namespace Transportx

/-- `std::path::PathBuf`: the bytes of a path. -/
abbrev PathBuf := List UInt8

inductive TlsMode
  | systemRoots
  | customCa (path : PathBuf)
  | insecureDevOnly
deriving DecidableEq, Repr

structure TlsConfig where
  mode : TlsMode
  sni : Bool
deriving DecidableEq, Repr

namespace TlsConfig

def systemRoots : TlsConfig := ⟨.systemRoots, true⟩

def customCa (path : PathBuf) : TlsConfig := ⟨.customCa path, true⟩

def insecureDevOnly : TlsConfig := ⟨.insecureDevOnly, true⟩

def isInsecure (tls : TlsConfig) : Bool :=
  match tls.mode with
  | .insecureDevOnly => true
  | _ => false

end TlsConfig

end Transportx
