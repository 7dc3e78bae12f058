import Transportx.Http.Builder
import Transportx.Http.Stream

/-!
# Transportx.Http.Constructors — the constructors of `ReqwestHttpDriver`

`new`, `withTimeout`, `withLimits`, `withTls` and `withProxy` call `builder` with the defaults of the crate
in the places that they do not ask for.  A `Constructor` is one such call; `Constructor.run_eq` says what it
passes on.

`Guarded` is what the defaults are for: a driver with them has a timeout, verifies certificates, and keeps
to the two limits in every exchange, whatever the server does.
-/

namespace Transportx.Http

variable {w : ℕ} {K U : Type}

/-! ## Defaults -/

def defaultRequestTimeout : Duration := Duration.fromSecs 30

/-- 16 MiB, a `usize` where words have more than 24 bits. -/
def defaultMaxBodyBytes (hw : 24 < w) : Fin (2 ^ w) :=
  ⟨16 * 1024 * 1024, show 2 ^ 24 < 2 ^ w from Nat.pow_lt_pow_right Nat.one_lt_two hw⟩

def defaultMaxResponseBodyBytes (hw : 24 < w) : Fin (2 ^ w) := defaultMaxBodyBytes hw

def defaultMaxRequestBodyBytes (hw : 24 < w) : Fin (2 ^ w) := defaultMaxBodyBytes hw

/-! ## Constructors -/

namespace ReqwestHttpDriver

variable (hw : 24 < w) (env : ClientEnv K U)

def withLimits (env : ClientEnv K U) (timeout : Option Duration)
    (maxResponseBodyBytes maxRequestBodyBytes : Fin (2 ^ w)) :
    Except TransportError (ReqwestHttpDriver w (Client K U)) :=
  builder env timeout maxResponseBodyBytes maxRequestBodyBytes none none

def withTimeout (timeout : Option Duration) : Except TransportError (ReqwestHttpDriver w (Client K U)) :=
  withLimits env timeout (defaultMaxResponseBodyBytes hw) (defaultMaxRequestBodyBytes hw)

def new : Except TransportError (ReqwestHttpDriver w (Client K U)) :=
  withTimeout hw env (some defaultRequestTimeout)

def withTls (tls : TlsConfig) : Except TransportError (ReqwestHttpDriver w (Client K U)) :=
  builder env (some defaultRequestTimeout) (defaultMaxResponseBodyBytes hw) (defaultMaxRequestBodyBytes hw)
    (some tls) none

def withProxy (proxy : ProxyConfig) : Except TransportError (ReqwestHttpDriver w (Client K U)) :=
  builder env (some defaultRequestTimeout) (defaultMaxResponseBodyBytes hw) (defaultMaxRequestBodyBytes hw)
    none (some proxy)

end ReqwestHttpDriver

/-- A call of a constructor. -/
inductive Constructor (w : ℕ)
  | new
  | withTimeout (timeout : Option Duration)
  | withLimits (timeout : Option Duration) (maxResponseBodyBytes maxRequestBodyBytes : Fin (2 ^ w))
  | withTls (tls : TlsConfig)
  | withProxy (proxy : ProxyConfig)
  | builder (timeout : Option Duration) (maxResponseBodyBytes maxRequestBodyBytes : Fin (2 ^ w))
      (tls : Option TlsConfig) (proxy : Option ProxyConfig)

namespace Constructor

variable (hw : 24 < w)

def run (env : ClientEnv K U) : Constructor w → Except TransportError (ReqwestHttpDriver w (Client K U))
  | new => ReqwestHttpDriver.new hw env
  | withTimeout timeout => ReqwestHttpDriver.withTimeout hw env timeout
  | withLimits timeout maxResponse maxRequest => ReqwestHttpDriver.withLimits env timeout maxResponse maxRequest
  | withTls tls => ReqwestHttpDriver.withTls hw env tls
  | withProxy proxy => ReqwestHttpDriver.withProxy hw env proxy
  | builder timeout maxResponse maxRequest tls proxy => Http.builder env timeout maxResponse maxRequest tls proxy

def timeout : Constructor w → Option Duration
  | new | withTls _ | withProxy _ => some defaultRequestTimeout
  | withTimeout timeout | withLimits timeout _ _ | builder timeout _ _ _ _ => timeout

def maxResponseBodyBytes : Constructor w → Fin (2 ^ w)
  | new | withTls _ | withProxy _ | withTimeout _ => defaultMaxResponseBodyBytes hw
  | withLimits _ limit _ | builder _ limit _ _ _ => limit

def maxRequestBodyBytes : Constructor w → Fin (2 ^ w)
  | new | withTls _ | withProxy _ | withTimeout _ => defaultMaxRequestBodyBytes hw
  | withLimits _ _ limit | builder _ _ limit _ _ => limit

def tls : Constructor w → Option TlsConfig
  | withTls tls => some tls
  | builder _ _ _ tls _ => tls
  | _ => none

def proxy : Constructor w → Option ProxyConfig
  | withProxy proxy => some proxy
  | builder _ _ _ _ proxy => proxy
  | _ => none

/-- Every constructor is the builder with the values it stands for. -/
theorem run_eq (env : ClientEnv K U) (c : Constructor w) :
    c.run hw env =
      Http.builder env c.timeout (c.maxResponseBodyBytes hw) (c.maxRequestBodyBytes hw) c.tls c.proxy := by
  cases c <;> rfl

/-- The call leaves the protections of the crate as they are. -/
structure Protected (c : Constructor w) : Prop where
  timeout : c.timeout = some defaultRequestTimeout
  maxResponseBodyBytes : c.maxResponseBodyBytes hw = defaultMaxResponseBodyBytes hw
  maxRequestBodyBytes : c.maxRequestBodyBytes hw = defaultMaxRequestBodyBytes hw
  secure : ∀ tls ∈ c.tls, tls.isInsecure = false

theorem protected_new : (new : Constructor w).Protected hw := ⟨rfl, rfl, rfl, nofun⟩

theorem protected_withProxy (proxy : ProxyConfig) : (withProxy proxy : Constructor w).Protected hw :=
  ⟨rfl, rfl, rfl, nofun⟩

theorem protected_withTls {tls : TlsConfig} (h : tls.isInsecure = false) :
    (withTls tls : Constructor w).Protected hw := by
  refine ⟨rfl, rfl, rfl, ?_⟩
  rintro t ⟨⟩
  exact h

end Constructor

/-! ## What a driver guarantees -/

/-- What holds of a driver for every network, every request and every response: a timeout is set,
certificates are verified, a request over the limit is refused before anything is sent, and of a response
no more than the limit is ever buffered or returned. -/
structure Guarded (hw : 24 < w) (d : ReqwestHttpDriver w (Client K U)) : Prop where
  timeout : d.client.settings.timeout = some defaultRequestTimeout
  verified : d.client.settings.acceptInvalidCerts = false
  request : ∀ {M Q V : Type} (rq : Reqwest (Client K U) M Q V) (request : HttpRequest) (body : Bytes),
    request.body = some body → (defaultMaxRequestBodyBytes hw : ℕ) < body.length →
    execute rq d request =
      ⟨none, 0, .error (.payloadTooLarge "request_body" (defaultMaxRequestBodyBytes hw) body.length)⟩
  buffered : ∀ (fin : Option ReqwestError) (chunks : List Bytes) (l : BodyLoop),
    BodyLoop.Reaches w d.maxResponseBodyBytes fin ⟨[], chunks⟩ l →
    l.body.length ≤ defaultMaxResponseBodyBytes hw
  response : ∀ {M Q V : Type} (rq : Reqwest (Client K U) M Q V) (request : HttpRequest) (ok : HttpResponse),
    (execute rq d request).result = .ok ok → ok.body.length ≤ defaultMaxResponseBodyBytes hw

/-- The default limit is neither none nor the largest word, so that it is compared with exact lengths. -/
theorem defaultMaxBodyBytes_exact (hw : 24 < w) :
    (defaultMaxBodyBytes hw : ℕ) ≠ 0 ∧ (defaultMaxBodyBytes hw : ℕ) < Usize.maxVal w := by
  have hpow : 2 ^ 25 ≤ 2 ^ w := Nat.pow_le_pow_right (by decide) hw
  show 16 * 1024 * 1024 ≠ 0 ∧ 16 * 1024 * 1024 < 2 ^ w - 1
  omega

theorem TlsAsks.secure {env : ClientEnv K U} {tls : Option TlsConfig} {certs : List K} {insecure : Bool}
    (h : TlsAsks env tls certs insecure) (hsecure : ∀ t ∈ tls, t.isInsecure = false) : insecure = false := by
  by_contra hne
  obtain ⟨t, rfl, hmode⟩ := h.insecure_iff.mp (by simpa using hne)
  have ht := hsecure t rfl
  unfold TlsConfig.isInsecure at ht
  rw [hmode] at ht
  cases ht

/-- **The defaults protect**: a driver from a constructor that leaves them as they are is guarded. -/
theorem guarded_of_protected (hw : 24 < w) {env : ClientEnv K U} {c : Constructor w} (hc : c.Protected hw)
    {d : ReqwestHttpDriver w (Client K U)} (h : c.run hw env = .ok d) : Guarded hw d := by
  obtain ⟨h0, hmax⟩ := defaultMaxBodyBytes_exact hw
  rw [Constructor.run_eq, hc.timeout, hc.maxResponseBodyBytes, hc.maxRequestBodyBytes] at h
  obtain ⟨certs, insecure, proxies, hcerts, -, -, rfl⟩ := builder_ok.mp h
  refine ⟨rfl, hcerts.secure hc.secure, ?_, ?_, ?_⟩
  · intro M Q V rq request body hbody hover
    exact (execute_stage rq _ request).of_over hbody (Nat.pos_of_ne_zero h0) hover
  · intro fin chunks l hl
    obtain ⟨-, -, -, hfits⟩ := hl.buffered
    exact (fits_iff h0 hmax).mp (hfits (fits_zero w _))
  · intro M Q V rq request ok hok
    have hstage := execute_stage rq
      (⟨⟨⟨some defaultRequestTimeout, certs, insecure, proxies⟩⟩, defaultMaxResponseBodyBytes hw,
        defaultMaxRequestBodyBytes hw, (defaultMaxResponseBodyBytes hw).isLt,
        (defaultMaxRequestBodyBytes hw).isLt⟩ : ReqwestHttpDriver w (Client K U)) request
    obtain ⟨q, response, hq, he⟩ := hstage.of_result (Or.inl ⟨ok, hok⟩)
    have ha := hstage.answer hq he
    rw [hok] at ha
    exact (fits_iff h0 hmax).mp ha.of_ok.2.2.2.2

end Transportx.Http
