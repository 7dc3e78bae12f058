import Transportx.Error

/-!
# Transportx.Proxy — `ProxyConfig` and `build_reqwest_proxy`
-/

namespace Transportx

/-- A proxy with optional credentials. -/
structure ProxyConfig where
  url : String
  username : Option String
  password : Option String
deriving DecidableEq, Repr

def ProxyConfig.hasAuth (cfg : ProxyConfig) : Bool := cfg.username.isSome || cfg.password.isSome

/-- A `reqwest::Proxy`: what `Proxy::all` made of its URL, and the credentials it sends. -/
structure Proxy (U : Type) where
  all : U
  basicAuth : Option (String × String)
deriving DecidableEq, Repr

def Proxy.withBasicAuth {U : Type} (proxy : Proxy U) (username password : String) : Proxy U :=
  { proxy with basicAuth := some (username, password) }

/-- `build_reqwest_proxy`, over `reqwest::Proxy::all`, which gives the text of its error. -/
def buildReqwestProxy {U : Type} (all : String → Except String U) (cfg : ProxyConfig) :
    Except TransportError (Proxy U) :=
  match all cfg.url with
  | .error e => .error (.protocolViolation s!"invalid proxy url: {e}")
  | .ok url =>
    match cfg.username, cfg.password with
    | some u, some p => .ok (Proxy.withBasicAuth ⟨url, none⟩ u p)
    | _, _ => .ok ⟨url, none⟩

end Transportx
