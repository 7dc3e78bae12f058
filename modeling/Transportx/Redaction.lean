import Transportx.Http.Boundary
import Transportx.Lib.Ascii
import Transportx.Lib.DebugFmt
import Transportx.Proxy

/-!
# Transportx.Redaction — what `Debug` shows of requests, responses and proxies

`HttpRequest`, `HttpResponse` and `ProxyConfig` print a body by its length, a URL by its origin, and a
header by its name alone when the name is sensitive.  `debug_noninterference` is the statement over two
runs: values that agree on what may be shown print the same, whatever their secrets.

* `isSensitiveHeaderName` is the classifier of the code; `Sensitive` says what it should accept, on the
  name as it is written (`isSensitiveHeaderName_iff`).
* `UrlLib` is `reqwest::Url`, with the parsing and the serialization of origins as parameters.
-/

namespace Transportx

open Http (Bytes HttpRequest HttpResponse)
open DebugFmt (Formatter Fmt)
open Ascii (lower contains EqIgnoreCase)

/-! ## Sensitive header names -/

def sensitiveNames : List String :=
  ["authorization", "proxy-authorization", "cookie", "set-cookie", "x-api-key", "x-auth-token",
    "ok-access-key", "ok-access-sign", "ok-access-timestamp", "ok-access-passphrase"]

def sensitiveWords : List String := ["token", "secret", "password", "api-key", "apikey", "passphrase"]

/-- `is_sensitive_header_name`. -/
def isSensitiveHeaderName (name : String) : Bool :=
  let n := lower name.toList
  sensitiveNames.any (fun listed => n == listed.toList) ||
    sensitiveWords.any fun word => contains word.toList n

/-- A name is sensitive if, up to the case of ASCII letters, it is listed or contains one of the words. -/
def Sensitive (name : String) : Prop :=
  (∃ listed ∈ sensitiveNames, EqIgnoreCase name.toList listed.toList) ∨
  ∃ word ∈ sensitiveWords, ∃ before piece after,
    name.toList = before ++ piece ++ after ∧ EqIgnoreCase piece word.toList

theorem lower_sensitiveNames : ∀ listed ∈ sensitiveNames, lower listed.toList = listed.toList := by
  decide

theorem lower_sensitiveWords : ∀ word ∈ sensitiveWords, lower word.toList = word.toList := by
  decide

/-- **The classifier accepts exactly the sensitive names.** -/
theorem isSensitiveHeaderName_iff (name : String) : isSensitiveHeaderName name = true ↔ Sensitive name := by
  unfold isSensitiveHeaderName Sensitive
  rw [Bool.or_eq_true, List.any_eq_true, List.any_eq_true]
  refine or_congr (exists_congr fun listed => and_congr_right fun hl => ?_)
    (exists_congr fun word => and_congr_right fun hw => ?_)
  · rw [beq_iff_eq, EqIgnoreCase, lower_sensitiveNames listed hl]
  · exact Ascii.contains_lower (lower_sensitiveWords word hw)

/-! ## URLs -/

/-- `reqwest::Url`, as far as the origin of a URL is concerned: `parse`, `cannot_be_a_base`, `scheme`,
`host`, `port_or_known_default`, and the `ascii_serialization` of `origin`. -/
structure UrlLib (U : Type) where
  parse : String → Option U
  cannotBeABase : U → Bool
  scheme : U → String
  host : U → Option String
  port : U → Option ℕ
  origin : U → String

namespace UrlLib

variable {U : Type} (lib : UrlLib U)

def HasHost (url : String) (u : U) : Prop :=
  lib.parse url = some u ∧ lib.cannotBeABase u = false ∧ (lib.host u).isSome = true

/-- The serialized origin of a URL with a host is a function of scheme, host and port.  Without a host it
need not be: that of a `blob:` URL is the origin of the URL inside. -/
def OriginOfParts : Prop :=
  ∀ url url' u v, lib.HasHost url u → lib.HasHost url' v → lib.scheme u = lib.scheme v →
    lib.host u = lib.host v → lib.port u = lib.port v → lib.origin u = lib.origin v

/-- Two URLs of the same origin, or two without one. -/
def SameOrigin (url url' : String) : Prop :=
  ((∀ u, ¬ lib.HasHost url u) ∧ ∀ u, ¬ lib.HasHost url' u) ∨
  ∃ u v, lib.HasHost url u ∧ lib.HasHost url' v ∧ lib.scheme u = lib.scheme v ∧ lib.host u = lib.host v ∧
    lib.port u = lib.port v

end UrlLib

/-! ## `Debug` -/

variable {U : Type}

def invalidUrl : String := "\"<invalid-url-redacted>\""

/-- `Debug` of `RedactedUrl`. -/
def redactedUrl (lib : UrlLib U) (url : String) : Fmt :=
  match lib.parse url with
  | none => DebugFmt.writeStr invalidUrl
  | some url =>
    if lib.cannotBeABase url || (lib.host url).isNone then DebugFmt.writeStr invalidUrl
    else DebugFmt.str (lib.origin url)

/-- One entry of `RedactedHeaders`. -/
def redactedHeader (header : String × String) : Fmt :=
  if isSensitiveHeaderName header.1 then DebugFmt.debugTuple "" [DebugFmt.str header.1, DebugFmt.str "***"]
  else DebugFmt.debugTuple "" [DebugFmt.str header.1, DebugFmt.str header.2]

/-- `Debug` of `RedactedHeaders`. -/
def redactedHeaders (headers : List (String × String)) : Fmt :=
  DebugFmt.debugList (headers.map redactedHeader)

/-- `Debug` of `BodyDebug`. -/
def bodyDebug : Option ℕ → Fmt
  | none => DebugFmt.writeStr "None"
  | some n => fun f => "Some(<" ++ f.displayNat n ++ " bytes>)"

/-- `Debug` of `HttpRequest`. -/
def Http.HttpRequest.fmt (lib : UrlLib U) (request : HttpRequest) : Fmt :=
  DebugFmt.debugStruct "HttpRequest" [("method", DebugFmt.str request.method),
    ("url", redactedUrl lib request.url), ("headers", redactedHeaders request.headers),
    ("body", bodyDebug (request.body.map List.length))]

/-- `Debug` of `HttpResponse`. -/
def Http.HttpResponse.fmt (response : HttpResponse) : Fmt :=
  DebugFmt.debugStruct "HttpResponse" [("status", DebugFmt.nat response.status),
    ("body", bodyDebug (some response.body.length))]

/-- `Debug` of `ProxyConfig`. -/
def ProxyConfig.fmt (lib : UrlLib U) (proxy : ProxyConfig) : Fmt :=
  DebugFmt.debugStruct "ProxyConfig" [("url", redactedUrl lib proxy.url),
    ("username", DebugFmt.option (proxy.username.map DebugFmt.str)),
    ("password", DebugFmt.option (proxy.password.map fun _ => DebugFmt.str "***"))]

/-! ## Two runs -/

/-- A URL without a host is not echoed. -/
theorem redactedUrl_of_not_hasHost {lib : UrlLib U} {url : String} (h : ∀ u, ¬ lib.HasHost url u) :
    redactedUrl lib url = DebugFmt.writeStr invalidUrl := by
  unfold redactedUrl
  split
  · rfl
  · next u hu =>
    split
    · rfl
    · next hbase =>
      refine absurd ⟨hu, ?_⟩ (h u)
      simpa [Option.isSome_iff_ne_none] using hbase

theorem redactedUrl_of_hasHost {lib : UrlLib U} {url : String} {u : U} (h : lib.HasHost url u) :
    redactedUrl lib url = DebugFmt.str (lib.origin u) := by
  obtain ⟨hu, hbase, hhost⟩ := h
  have hnone : (lib.host u).isNone = false := by rw [← Option.not_isSome, hhost]; rfl
  simp only [redactedUrl, hu, hbase, hnone, Bool.or_false, Bool.false_eq_true, if_false]

theorem redactedUrl_eq {lib : UrlLib U} (hlib : lib.OriginOfParts) {url url' : String}
    (h : lib.SameOrigin url url') : redactedUrl lib url = redactedUrl lib url' := by
  rcases h with ⟨hno, hno'⟩ | ⟨u, v, hu, hv, hscheme, hhost, hport⟩
  · rw [redactedUrl_of_not_hasHost hno, redactedUrl_of_not_hasHost hno']
  · rw [redactedUrl_of_hasHost hu, redactedUrl_of_hasHost hv, hlib url url' u v hu hv hscheme hhost hport]

/-- Headers of the same name, and of the same value unless the name is sensitive. -/
def SameHeader (header header' : String × String) : Prop :=
  header.1 = header'.1 ∧ (¬ Sensitive header.1 → header.2 = header'.2)

theorem redactedHeader_eq {header header' : String × String} (h : SameHeader header header') :
    redactedHeader header = redactedHeader header' := by
  obtain ⟨name, value⟩ := header
  obtain ⟨name', value'⟩ := header'
  obtain ⟨hname, hvalue⟩ := h
  dsimp only at hname hvalue
  subst hname
  unfold redactedHeader
  by_cases hs : Sensitive name
  · -- the value of a sensitive header is not printed
    rw [if_pos ((isSensitiveHeaderName_iff name).mpr hs), if_pos ((isSensitiveHeaderName_iff name).mpr hs)]
  · rw [hvalue hs]

theorem redactedHeaders_eq {headers headers' : List (String × String)}
    (h : List.Forall₂ SameHeader headers headers') : redactedHeaders headers = redactedHeaders headers' := by
  have hmap : headers.map redactedHeader = headers'.map redactedHeader := by
    induction h with
    | nil => rfl
    | cons hhead _ ih => rw [List.map_cons, List.map_cons, redactedHeader_eq hhead, ih]
  rw [redactedHeaders, redactedHeaders, hmap]

/-- **`Debug` does not depend on secrets.**  Two requests with the same method, the same header names,
equal values under the names that are not sensitive, equal body lengths and URLs of the same origin (or
both without one) print the same text, in every format; so do two responses with equal status and body
length, and two proxies with URLs of the same origin, equal user names, and a password both or neither.
The classifier of the code is the one that this speaks of. -/
theorem debug_noninterference (lib : UrlLib U) (hlib : lib.OriginOfParts) (f : Formatter) :
    (∀ a b : HttpRequest, a.method = b.method → List.Forall₂ SameHeader a.headers b.headers →
      a.body.map List.length = b.body.map List.length → lib.SameOrigin a.url b.url →
        a.fmt lib f = b.fmt lib f) ∧
    (∀ a b : HttpResponse, a.status = b.status → a.body.length = b.body.length → a.fmt f = b.fmt f) ∧
    (∀ a b : ProxyConfig, lib.SameOrigin a.url b.url → a.username = b.username →
      a.password.isSome = b.password.isSome → a.fmt lib f = b.fmt lib f) ∧
    ∀ name, isSensitiveHeaderName name = true ↔ Sensitive name := by
  refine ⟨?_, ?_, ?_, isSensitiveHeaderName_iff⟩
  · intro a b hmethod hheaders hbody hurl
    unfold Http.HttpRequest.fmt
    rw [hmethod, redactedHeaders_eq hheaders, hbody, redactedUrl_eq hlib hurl]
  · intro a b hstatus hbody
    unfold Http.HttpResponse.fmt
    rw [hstatus, hbody]
  · intro a b hurl huser hpass
    -- the mask does not look at the password
    have hmask : (a.password.map fun _ => DebugFmt.str "***") =
        b.password.map fun _ => DebugFmt.str "***" := by
      cases ha : a.password <;> cases hb : b.password <;> rw [ha, hb] at hpass <;> first | rfl | cases hpass
    unfold ProxyConfig.fmt
    rw [redactedUrl_eq hlib hurl, huser, hmask]

def sampleUrls : UrlLib Unit where
  parse url :=
    if url = "https://alice:pw@api.example:8443/a" ∨ url = "https://api.example:8443/b?token=t" then some ()
    else none
  cannotBeABase _ := false
  scheme _ := "https"
  host _ := some "api.example"
  port _ := some 8443
  origin _ := "https://api.example:8443"

theorem debug_noninterference_sample :
    (⟨"GET", "https://alice:pw@api.example:8443/a", [("Accept", "x"), ("AuthorizatioN", "one")],
        some [1, 2]⟩ : HttpRequest).fmt sampleUrls ⟨false, id, Nat.repr, Nat.repr⟩ =
      (⟨"GET", "https://api.example:8443/b?token=t", [("Accept", "x"), ("AuthorizatioN", "two")],
        some [3, 4]⟩ : HttpRequest).fmt sampleUrls ⟨false, id, Nat.repr, Nat.repr⟩ := by
  refine (debug_noninterference sampleUrls (fun _ _ _ _ _ _ _ _ _ => rfl) _).1 _ _ rfl ?_ rfl ?_
  · have hs : Sensitive "AuthorizatioN" := (isSensitiveHeaderName_iff _).mp (by decide)
    exact .cons ⟨rfl, fun _ => rfl⟩ (.cons ⟨rfl, fun h => absurd hs h⟩ .nil)
  · exact Or.inr ⟨(), (), ⟨rfl, rfl, rfl⟩, ⟨rfl, rfl, rfl⟩, rfl, rfl, rfl⟩

end Transportx
