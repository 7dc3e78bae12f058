import Transportx.Http.Driver
import Transportx.Lib.Ascii
import Transportx.Proxy
import Transportx.Tls

/-!
# Transportx.Http.Builder — `ReqwestHttpDriver::builder`

The `reqwest` client builder is a record of settings, and a client is the settings it was built with.
`ClientEnv` is what the code calls to get from a configuration to settings.

`TlsAsks` and `ProxyAsks` say which settings a configuration asks for; `builder_ok` reads every
successful call back to them.
-/

namespace Transportx.Http

variable {w : ℕ} {K U : Type}

/-! ## The client builder -/

/-- A `reqwest::ClientBuilder`, as far as the driver sets it. -/
structure ClientBuilder (K U : Type) where
  timeout : Option Duration
  rootCertificates : List K
  acceptInvalidCerts : Bool
  proxies : List (Proxy U)
deriving DecidableEq, Repr

namespace ClientBuilder

def new : ClientBuilder K U := ⟨none, [], false, []⟩

def withTimeout (b : ClientBuilder K U) (timeout : Duration) : ClientBuilder K U :=
  { b with timeout := some timeout }

def addRootCertificate (b : ClientBuilder K U) (cert : K) : ClientBuilder K U :=
  { b with rootCertificates := b.rootCertificates ++ [cert] }

def dangerAcceptInvalidCerts (b : ClientBuilder K U) (accept : Bool) : ClientBuilder K U :=
  { b with acceptInvalidCerts := accept }

def proxy (b : ClientBuilder K U) (proxy : Proxy U) : ClientBuilder K U :=
  { b with proxies := b.proxies ++ [proxy] }

end ClientBuilder

/-- A `reqwest::Client`, with the settings it was built with. -/
structure Client (K U : Type) where
  settings : ClientBuilder K U
deriving DecidableEq, Repr

/-- `std::fs::read`, `Path::display`, `Certificate::from_pem`, `Proxy::all` with the text of its error, and
`ClientBuilder::build`, which may fail. -/
structure ClientEnv (K U : Type) where
  read : PathBuf → Except IoError Bytes
  display : PathBuf → String
  fromPem : Bytes → Except ReqwestError K
  proxyAll : String → Except String U
  build : ClientBuilder K U → Option ReqwestError

/-! ## The builder of the driver -/

/-- `map_client_build_error`. -/
def mapClientBuildError (error : ReqwestError) : TransportError := .io (.reqwest error)

def certificateHeader : String := "-----BEGIN CERTIFICATE-----"

/-- `std::str::from_utf8`. -/
def fromUtf8 (bytes : Bytes) : Option String := String.fromUTF8? ⟨bytes.toArray⟩

/-- The branch `CustomCa`, up to the certificate. -/
def loadCustomCa (env : ClientEnv K U) (path : PathBuf) : Except TransportError K :=
  match env.read path with
  | .error e =>
    let shown := env.display path
    .error (.io (.io ⟨e.kind, s!"read custom CA {shown}: {e.text}"⟩))
  | .ok pem =>
    match fromUtf8 pem with
    | none => .error (.protocolViolation "invalid CA pem: not utf-8")
    | some pemText =>
      if !Ascii.contains certificateHeader.toList pemText.toList then
        .error (.protocolViolation "invalid CA pem: missing BEGIN CERTIFICATE")
      else
        match env.fromPem pem with
        | .error e => .error (mapClientBuildError e)
        | .ok cert => .ok cert

def wireTimeout (builder : ClientBuilder K U) : Option Duration → ClientBuilder K U
  | some timeout => builder.withTimeout timeout
  | none => builder

def wireTls (env : ClientEnv K U) (builder : ClientBuilder K U) :
    Option TlsConfig → Except TransportError (ClientBuilder K U)
  | none => .ok builder
  | some tls =>
    if !tls.sni then .error (.protocolViolation "SNI=false 当前未接线，拒绝静默忽略")
    else
      match tls.mode with
      | .systemRoots => .ok builder
      | .customCa path =>
        match loadCustomCa env path with
        | .error e => .error e
        | .ok cert => .ok (builder.addRootCertificate cert)
      | .insecureDevOnly => .ok (builder.dangerAcceptInvalidCerts true)

def wireProxy (env : ClientEnv K U) (builder : ClientBuilder K U) :
    Option ProxyConfig → Except TransportError (ClientBuilder K U)
  | none => .ok builder
  | some cfg =>
    match buildReqwestProxy env.proxyAll cfg with
    | .error e => .error e
    | .ok proxy => .ok (builder.proxy proxy)

/-- `ReqwestHttpDriver::builder`. -/
def builder (env : ClientEnv K U) (timeout : Option Duration)
    (maxResponseBodyBytes maxRequestBodyBytes : Fin (2 ^ w)) (tls : Option TlsConfig)
    (proxy : Option ProxyConfig) : Except TransportError (ReqwestHttpDriver w (Client K U)) :=
  match wireTls env (wireTimeout .new timeout) tls with
  | .error e => .error e
  | .ok builder =>
    match wireProxy env builder proxy with
    | .error e => .error e
    | .ok builder =>
      match env.build builder with
      | some e => .error (mapClientBuildError e)
      | none =>
        .ok ⟨⟨builder⟩, maxResponseBodyBytes, maxRequestBodyBytes, maxResponseBodyBytes.isLt,
          maxRequestBodyBytes.isLt⟩

/-! ## What a configuration asks for -/

/-- The file at `path` is readable UTF-8 text with the header of a certificate, and gives `cert`. -/
def CaFile (env : ClientEnv K U) (path : PathBuf) (cert : K) : Prop :=
  ∃ pem text, env.read path = .ok pem ∧ fromUtf8 pem = some text ∧
    certificateHeader.toList <:+: text.toList ∧ env.fromPem pem = .ok cert

/-- The TLS configuration can be honoured, by these certificates and this setting of the verification. -/
inductive TlsAsks (env : ClientEnv K U) : Option TlsConfig → List K → Bool → Prop
  | unset : TlsAsks env none [] false
  | systemRoots : TlsAsks env (some .systemRoots) [] false
  | customCa {path : PathBuf} {cert : K} (h : CaFile env path cert) :
      TlsAsks env (some (.customCa path)) [cert] false
  | insecureDevOnly : TlsAsks env (some .insecureDevOnly) [] true

/-- The credentials that reach the proxy. -/
def sentCredentials (cfg : ProxyConfig) : Option (String × String) :=
  match cfg.username, cfg.password with
  | some u, some p => some (u, p)
  | _, _ => none

/-- The proxy configuration is accepted, and gives these proxies. -/
inductive ProxyAsks (env : ClientEnv K U) : Option ProxyConfig → List (Proxy U) → Prop
  | unset : ProxyAsks env none []
  | proxy {cfg : ProxyConfig} {all : U} (h : env.proxyAll cfg.url = .ok all) :
      ProxyAsks env (some cfg) [⟨all, sentCredentials cfg⟩]

section Wiring

variable {env : ClientEnv K U} {b b' : ClientBuilder K U}

theorem loadCustomCa_ok {path : PathBuf} {cert : K} :
    loadCustomCa env path = .ok cert ↔ CaFile env path cert := by
  constructor
  · intro h
    unfold loadCustomCa at h
    cases hread : env.read path with
    | error e => simp only [hread] at h; cases h
    | ok pem =>
      cases hutf8 : fromUtf8 pem with
      | none => simp only [hread, hutf8] at h; cases h
      | some text =>
        by_cases hheader : Ascii.contains certificateHeader.toList text.toList = true
        · cases hcert : env.fromPem pem with
          | error e => simp only [hread, hutf8, hheader, hcert] at h; cases h
          | ok cert' =>
            simp only [hread, hutf8, hheader, hcert] at h
            obtain rfl : cert' = cert := Except.ok.inj h
            exact ⟨pem, text, hread, hutf8, Ascii.contains_iff.mp hheader, hcert⟩
        · simp only [hread, hutf8, hheader] at h
          cases h
  · rintro ⟨pem, text, hread, hutf8, hheader, hcert⟩
    simp only [loadCustomCa, hread, hutf8, hcert, Ascii.contains_iff.mpr hheader]
    rfl

/-- A TLS configuration is wired exactly when it can be honoured, by what it asks for. -/
theorem wireTls_ok {tls : Option TlsConfig} :
    wireTls env b tls = .ok b' ↔ ∃ certs insecure, TlsAsks env tls certs insecure ∧
      b' = { b with
        rootCertificates := b.rootCertificates ++ certs
        acceptInvalidCerts := b.acceptInvalidCerts || insecure } := by
  constructor
  · intro h
    cases tls with
    | none =>
      obtain rfl := Except.ok.inj h
      exact ⟨[], false, .unset, by simp⟩
    | some tls =>
      obtain ⟨mode, sni⟩ := tls
      cases sni with
      -- SNI cannot be switched off
      | false => cases h
      | true =>
        cases mode with
        | systemRoots =>
          obtain rfl := Except.ok.inj h
          exact ⟨[], false, .systemRoots, by simp⟩
        | customCa path =>
          cases hload : loadCustomCa env path with
          | error e => simp only [wireTls, hload] at h; cases h
          | ok cert =>
            simp only [wireTls, hload] at h
            obtain rfl := Except.ok.inj h
            exact ⟨[cert], false, .customCa (loadCustomCa_ok.mp hload), by simp [ClientBuilder.addRootCertificate]⟩
        | insecureDevOnly =>
          obtain rfl := Except.ok.inj h
          exact ⟨[], true, .insecureDevOnly, by simp [ClientBuilder.dangerAcceptInvalidCerts]⟩
  · rintro ⟨certs, insecure, hasks, rfl⟩
    cases hasks with
    | unset => simp [wireTls]
    | systemRoots => simp [wireTls, TlsConfig.systemRoots]
    | customCa h =>
      simp [wireTls, TlsConfig.customCa, loadCustomCa_ok.mpr h, ClientBuilder.addRootCertificate]
    | insecureDevOnly =>
      simp [wireTls, TlsConfig.insecureDevOnly, ClientBuilder.dangerAcceptInvalidCerts]

theorem buildReqwestProxy_ok {all : String → Except String U} {cfg : ProxyConfig} {proxy : Proxy U} :
    buildReqwestProxy all cfg = .ok proxy ↔
      ∃ url, all cfg.url = .ok url ∧ proxy = ⟨url, sentCredentials cfg⟩ := by
  obtain ⟨url, username, password⟩ := cfg
  unfold buildReqwestProxy
  cases all url with
  | error e => simp
  -- `basic_auth` is called only with both credentials
  | ok url => cases username <;> cases password <;> simp [sentCredentials, Proxy.withBasicAuth, eq_comm]

/-- A proxy is wired exactly when it is accepted. -/
theorem wireProxy_ok {proxy : Option ProxyConfig} :
    wireProxy env b proxy = .ok b' ↔
      ∃ proxies, ProxyAsks env proxy proxies ∧ b' = { b with proxies := b.proxies ++ proxies } := by
  constructor
  · intro h
    cases proxy with
    | none =>
      obtain rfl := Except.ok.inj h
      exact ⟨[], .unset, by simp⟩
    | some cfg =>
      cases hbuild : buildReqwestProxy env.proxyAll cfg with
      | error e => simp only [wireProxy, hbuild] at h; cases h
      | ok proxy =>
        simp only [wireProxy, hbuild] at h
        obtain rfl := Except.ok.inj h
        obtain ⟨url, hurl, rfl⟩ := buildReqwestProxy_ok.mp hbuild
        exact ⟨_, .proxy hurl, rfl⟩
  · rintro ⟨proxies, hasks, rfl⟩
    cases hasks with
    | unset => simp [wireProxy]
    | proxy h =>
      simp only [wireProxy, buildReqwestProxy_ok.mpr ⟨_, h, rfl⟩, ClientBuilder.proxy]

theorem wireTimeout_new (timeout : Option Duration) :
    wireTimeout (.new : ClientBuilder K U) timeout = ⟨timeout, [], false, []⟩ := by
  cases timeout <;> rfl

/-- **The driver is built exactly when every part of the configuration can be honoured**, and it is the
driver with the settings that the parts ask for. -/
theorem builder_ok {timeout : Option Duration} {maxResponseBodyBytes maxRequestBodyBytes : Fin (2 ^ w)}
    {tls : Option TlsConfig} {proxy : Option ProxyConfig} {d : ReqwestHttpDriver w (Client K U)} :
    builder env timeout maxResponseBodyBytes maxRequestBodyBytes tls proxy = .ok d ↔
      ∃ certs insecure proxies, TlsAsks env tls certs insecure ∧ ProxyAsks env proxy proxies ∧
        env.build ⟨timeout, certs, insecure, proxies⟩ = none ∧
        d = ⟨⟨⟨timeout, certs, insecure, proxies⟩⟩, maxResponseBodyBytes, maxRequestBodyBytes,
          maxResponseBodyBytes.isLt, maxRequestBodyBytes.isLt⟩ := by
  unfold builder
  rw [wireTimeout_new]
  constructor
  · intro h
    cases htls : wireTls env ⟨timeout, [], false, []⟩ tls with
    | error e => simp only [htls] at h; cases h
    | ok b =>
      cases hproxy : wireProxy env b proxy with
      | error e => simp only [htls, hproxy] at h; cases h
      | ok b' =>
        cases hbuild : env.build b' with
        | some e => simp only [htls, hproxy, hbuild] at h; cases h
        | none =>
          simp only [htls, hproxy, hbuild] at h
          obtain ⟨certs, insecure, hcerts, rfl⟩ := wireTls_ok.mp htls
          obtain ⟨proxies, hproxies, rfl⟩ := wireProxy_ok.mp hproxy
          exact ⟨certs, insecure, proxies, hcerts, hproxies, hbuild, (Except.ok.inj h).symm⟩
  · rintro ⟨certs, insecure, proxies, hcerts, hproxies, hbuild, rfl⟩
    rw [wireTls_ok.mpr ⟨certs, insecure, hcerts, rfl⟩]
    dsimp only
    rw [wireProxy_ok.mpr ⟨proxies, hproxies, rfl⟩]
    simp only [List.nil_append, Bool.false_or, hbuild]

end Wiring

/-! ## What reaches the client -/

/-- The driver has every setting that was given to the builder. -/
structure Reflects (env : ClientEnv K U) (timeout : Option Duration)
    (maxResponseBodyBytes maxRequestBodyBytes : Fin (2 ^ w)) (tls : Option TlsConfig)
    (proxy : Option ProxyConfig) (d : ReqwestHttpDriver w (Client K U)) : Prop where
  timeout : d.client.settings.timeout = timeout
  maxResponseBodyBytes : d.maxResponseBodyBytes = maxResponseBodyBytes
  maxRequestBodyBytes : d.maxRequestBodyBytes = maxRequestBodyBytes
  insecure : d.client.settings.acceptInvalidCerts = true ↔ ∃ t, tls = some t ∧ t.mode = .insecureDevOnly
  certificate : ∀ cert, cert ∈ d.client.settings.rootCertificates ↔
    ∃ t path, tls = some t ∧ t.mode = .customCa path ∧ CaFile env path cert
  customCa : ∀ t path, tls = some t → t.mode = .customCa path →
    ∃ cert, CaFile env path cert ∧ d.client.settings.rootCertificates = [cert]
  sni : ∀ t, tls = some t → t.sni = true
  noProxy : proxy = none → d.client.settings.proxies = []
  proxy : ∀ cfg, proxy = some cfg → ∃ url auth, env.proxyAll cfg.url = .ok url ∧
    d.client.settings.proxies = [⟨url, auth⟩] ∧
    (cfg.hasAuth = true → ∃ u p, auth = some (u, p) ∧ (∀ x, cfg.username = some x → u = x) ∧
      ∀ x, cfg.password = some x → p = x)

/-- One of the two credentials is given, and the other is not. -/
def HalfAuth (cfg : ProxyConfig) : Prop := cfg.username.isSome ≠ cfg.password.isSome

/-- Everything but the credentials of the proxy can be honoured. -/
def OtherwiseAccepted (env : ClientEnv K U) (timeout : Option Duration) (tls : Option TlsConfig)
    (cfg : ProxyConfig) : Prop :=
  ∃ certs insecure url, TlsAsks env tls certs insecure ∧ env.proxyAll cfg.url = .ok url ∧
    env.build ⟨timeout, certs, insecure, [⟨url, none⟩]⟩ = none

section Reflection

variable {env : ClientEnv K U} {cfg : ProxyConfig}

theorem sentCredentials_of_half (h : HalfAuth cfg) : sentCredentials cfg = none ∧ cfg.hasAuth = true := by
  obtain ⟨url, username, password⟩ := cfg
  cases username <;> cases password
  · exact absurd rfl h
  · exact ⟨rfl, rfl⟩
  · exact ⟨rfl, rfl⟩
  · exact absurd rfl h

/-- Credentials that are not half given are sent as they are. -/
theorem sentCredentials_of_not_half (h : ¬ HalfAuth cfg) (hauth : cfg.hasAuth = true) :
    ∃ u p, sentCredentials cfg = some (u, p) ∧ (∀ x, cfg.username = some x → u = x) ∧
      ∀ x, cfg.password = some x → p = x := by
  obtain ⟨url, username, password⟩ := cfg
  cases username <;> cases password
  · cases hauth
  · exact absurd nofun h
  · exact absurd nofun h
  · next u p => exact ⟨u, p, rfl, fun x hx => Option.some.inj hx, fun x hx => Option.some.inj hx⟩

theorem TlsAsks.insecure_iff {tls : Option TlsConfig} {certs : List K} {insecure : Bool}
    (h : TlsAsks env tls certs insecure) :
    insecure = true ↔ ∃ t, tls = some t ∧ t.mode = .insecureDevOnly := by
  cases h with
  | unset => exact ⟨nofun, nofun⟩
  | systemRoots | customCa =>
    refine ⟨nofun, ?_⟩
    rintro ⟨t, ht, hmode⟩
    cases ht
    cases hmode
  | insecureDevOnly => exact ⟨fun _ => ⟨_, rfl, rfl⟩, fun _ => rfl⟩

theorem CaFile.unique {path : PathBuf} {cert cert' : K} (h : CaFile env path cert)
    (h' : CaFile env path cert') : cert = cert' := by
  obtain ⟨pem, -, hread, -, -, hcert⟩ := h
  obtain ⟨pem', -, hread', -, -, hcert'⟩ := h'
  obtain rfl : pem = pem' := Except.ok.inj (hread.symm.trans hread')
  exact Except.ok.inj (hcert.symm.trans hcert')

theorem TlsAsks.mem_iff {tls : Option TlsConfig} {certs : List K} {insecure : Bool}
    (h : TlsAsks env tls certs insecure) (cert : K) :
    cert ∈ certs ↔ ∃ t path, tls = some t ∧ t.mode = .customCa path ∧ CaFile env path cert := by
  constructor
  · intro hmem
    cases h with
    | unset | systemRoots | insecureDevOnly => cases hmem
    | customCa hfile =>
      obtain rfl := List.mem_singleton.mp hmem
      exact ⟨_, _, rfl, rfl, hfile⟩
  · rintro ⟨t, path, ht, hmode, hfile⟩
    cases h with
    | unset => cases ht
    | systemRoots | insecureDevOnly =>
      cases ht
      cases hmode
    | customCa hfile' =>
      cases ht
      cases hmode
      exact List.mem_singleton.mpr (hfile.unique hfile')

/-- A custom CA is not left out. -/
theorem TlsAsks.customCa_eq {tls : Option TlsConfig} {certs : List K} {insecure : Bool}
    (h : TlsAsks env tls certs insecure) :
    ∀ t path, tls = some t → t.mode = .customCa path → ∃ cert, CaFile env path cert ∧ certs = [cert] := by
  rintro t path rfl hmode
  cases h with
  | systemRoots | insecureDevOnly => cases hmode
  | customCa hfile =>
    cases hmode
    exact ⟨_, hfile, rfl⟩

theorem TlsAsks.sni {tls : Option TlsConfig} {certs : List K} {insecure : Bool}
    (h : TlsAsks env tls certs insecure) : ∀ t, tls = some t → t.sni = true := by
  cases h with
  | unset => nofun
  | systemRoots | customCa | insecureDevOnly =>
    rintro t ⟨⟩
    rfl

end Reflection

/-- **`builder` drops a setting in exactly one case**: a proxy is given with one of its two credentials,
and everything else can be honoured.  In every other case a driver that is built has every setting that
was given. -/
theorem builder_reflects_iff (env : ClientEnv K U) (timeout : Option Duration)
    (maxResponseBodyBytes maxRequestBodyBytes : Fin (2 ^ w)) (tls : Option TlsConfig)
    (proxy : Option ProxyConfig) :
    (∀ d, builder env timeout maxResponseBodyBytes maxRequestBodyBytes tls proxy = .ok d →
      Reflects env timeout maxResponseBodyBytes maxRequestBodyBytes tls proxy d) ↔
    ¬ ∃ cfg, proxy = some cfg ∧ HalfAuth cfg ∧ OtherwiseAccepted env timeout tls cfg := by
  constructor
  · rintro hall ⟨cfg, rfl, hhalf, certs, insecure, url, hcerts, hurl, hbuild⟩
    -- the one credential that is given is not sent
    obtain ⟨hsent, hauth⟩ := sentCredentials_of_half hhalf
    have hproxies : ProxyAsks env (some cfg) [⟨url, none⟩] := hsent ▸ .proxy hurl
    have hreflects := hall _ (builder_ok.mpr ⟨certs, insecure, _, hcerts, hproxies, hbuild, rfl⟩)
    obtain ⟨url', auth, -, heq, hcarries⟩ := hreflects.proxy cfg rfl
    obtain ⟨u, p, rfl, -⟩ := hcarries hauth
    cases heq
  · intro hnot d hok
    obtain ⟨certs, insecure, proxies, hcerts, hproxies, hbuild, rfl⟩ := builder_ok.mp hok
    refine ⟨rfl, rfl, rfl, hcerts.insecure_iff, hcerts.mem_iff, hcerts.customCa_eq, hcerts.sni, ?_, ?_⟩
    · rintro rfl
      cases hproxies
      rfl
    · rintro cfg rfl
      cases hproxies with
      | proxy hurl =>
        refine ⟨_, _, hurl, rfl, fun hauth => sentCredentials_of_not_half (fun hhalf => ?_) hauth⟩
        -- with half of the credentials everything else would have been honoured
        rw [(sentCredentials_of_half hhalf).1] at hbuild
        exact hnot ⟨cfg, rfl, hhalf, certs, insecure, _, hcerts, hurl, hbuild⟩

/-- An environment in which the certificates and the URLs are what they are, and every client can be
built. -/
def sampleEnv : ClientEnv Bytes String where
  read _ := .error ⟨.other, "No such file or directory"⟩
  display _ := "ca.pem"
  fromPem pem := .ok pem
  proxyAll url := if url = "" then .error "builder error" else .ok url
  build _ := none

/-- A proxy with a user name alone is built without any credentials. -/
theorem builder_drops_username :
    ProxyConfig.hasAuth ⟨"http://proxy.local:8080", some "user", none⟩ = true ∧
    ∃ d : ReqwestHttpDriver 64 (Client Bytes String),
      builder sampleEnv none 0 0 none (some ⟨"http://proxy.local:8080", some "user", none⟩) = .ok d ∧
      d.client.settings.proxies = [⟨"http://proxy.local:8080", none⟩] ∧
      ¬ Reflects sampleEnv none 0 0 none (some ⟨"http://proxy.local:8080", some "user", none⟩) d := by
  refine ⟨rfl, _, rfl, rfl, fun hreflects => ?_⟩
  obtain ⟨url, auth, -, heq, hcarries⟩ := hreflects.proxy _ rfl
  obtain ⟨u, p, rfl, -⟩ := hcarries rfl
  cases heq

end Transportx.Http
