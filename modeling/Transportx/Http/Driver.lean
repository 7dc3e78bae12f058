import Transportx.Http.Body

/-!
# Transportx.Http.Driver — `ReqwestHttpDriver::execute`

One call as a function of the environment.  An `Exchange` says what was handed to the network, how
often the chunk stream was polled, and what the call returned.

* Before anything is sent: the request limit, the method, the request (`checkRequestBody`, `fromBytes`,
  `build`), in this order.  A failure here is permanent.
* After a response has arrived: the status 429, the declared length, the body (`receive`).  `Answer` is
  the classification that `receive` meets.
-/

namespace Transportx.Http

variable {w : ℕ} {C M Q V : Type}

/-- The driver: a client and two limits, `0` for none. -/
structure ReqwestHttpDriver (w : ℕ) (C : Type) where
  client : C
  maxResponseBodyBytes : ℕ
  maxRequestBodyBytes : ℕ
  maxResponseBodyBytes_lt : maxResponseBodyBytes < 2 ^ w
  maxRequestBodyBytes_lt : maxRequestBodyBytes < 2 ^ w

/-- One call: the request that was sent, the polls of the response's stream, and the result. -/
structure Exchange (Q : Type) where
  sent : Option Q
  polls : ℕ
  result : Except TransportError HttpResponse

/-! ## The call -/

def checkRequestBody (limit : ℕ) (request : HttpRequest) : Except TransportError Unit :=
  match request.body with
  | some body =>
    if limit > 0 ∧ body.length > limit then .error (.payloadTooLarge "request_body" limit body.length)
    else .ok ()
  | none => .ok ()

def prepare (method : M) (request : HttpRequest) : RequestBuilder M :=
  let builder := request.headers.foldl (fun b h => b.header h.1 h.2) (.new method request.url)
  match request.body with
  | some body => builder.withBody body
  | none => builder

def retryAfter (rq : Reqwest C M Q V) (response : Response V) : Option Duration :=
  ((response.header "retry-after").bind rq.toStr).bind fun value =>
    parseRetryAfterAt rq.parseHttpDate value rq.now

/-- The limit on the declared length: `usize::try_from(cl).unwrap_or(usize::MAX)`. -/
def checkContentLength (w limit : ℕ) (contentLength : Option ℕ) : Except TransportError Unit :=
  match contentLength with
  | some cl =>
    let cl := (Usize.tryFrom w cl).getD (Usize.maxVal w)
    if limit > 0 ∧ cl > limit then .error (responseTooLarge limit cl) else .ok ()
  | none => .ok ()

/-- What follows once a response has arrived, with the number of polls. -/
def receive (w : ℕ) (rq : Reqwest C M Q V) (limit : ℕ) (response : Response V) :
    ℕ × Except TransportError HttpResponse :=
  if response.status = 429 then (0, .error (.rateLimited (retryAfter rq response)))
  else
    match checkContentLength w limit response.contentLength with
    | .error e => (0, .error e)
    | .ok () =>
      let (polls, body) := readBody w limit response.fin [] response.chunks
      (polls, body.map fun body => ⟨response.status, body⟩)

/-- `ReqwestHttpDriver::execute`. -/
def execute (rq : Reqwest C M Q V) (d : ReqwestHttpDriver w C) (request : HttpRequest) : Exchange Q :=
  match checkRequestBody d.maxRequestBodyBytes request with
  | .error e => ⟨none, 0, .error e⟩
  | .ok () =>
    match rq.fromBytes request.method with
    | .error text => ⟨none, 0, .error (.protocolViolation text)⟩
    | .ok method =>
      match rq.build d.client (prepare method request) with
      | .error e => ⟨none, 0, .error (mapReqwestError e)⟩
      | .ok q =>
        match rq.execute d.client q with
        | .error e => ⟨some q, 0, .error (mapReqwestError e)⟩
        | .ok response =>
          let (polls, result) := receive w rq d.maxResponseBodyBytes response
          ⟨some q, polls, result⟩

/-! ## Before anything is sent -/

def OverRequestLimit (limit : ℕ) (request : HttpRequest) : Prop :=
  ∃ body, request.body = some body ∧ 0 < limit ∧ limit < body.length

theorem checkRequestBody_of_over {limit : ℕ} {request : HttpRequest} {body : Bytes}
    (hbody : request.body = some body) (hpos : 0 < limit) (hover : limit < body.length) :
    checkRequestBody limit request = .error (.payloadTooLarge "request_body" limit body.length) := by
  simp only [checkRequestBody, hbody]
  exact if_pos ⟨hpos, hover⟩

theorem checkRequestBody_of_fits {limit : ℕ} {request : HttpRequest} (h : ¬ OverRequestLimit limit request) :
    checkRequestBody limit request = .ok () := by
  unfold checkRequestBody
  split
  · next body hbody => exact if_neg fun ⟨hpos, hover⟩ => h ⟨body, hbody, hpos, hover⟩
  · rfl

theorem foldl_header (headers : List (String × String)) : ∀ b : RequestBuilder M,
    headers.foldl (fun b h => b.header h.1 h.2) b = { b with headers := b.headers ++ headers } := by
  induction headers with
  | nil => intro b; simp
  | cons h hs ih => intro b; rw [List.foldl_cons, ih]; simp [RequestBuilder.header]

/-- The builder is given the request as it is, with every header in order. -/
theorem prepare_eq (method : M) (request : HttpRequest) :
    prepare method request = ⟨method, request.url, request.headers, request.body⟩ := by
  unfold prepare
  rw [foldl_header]
  cases request.body <;> rfl

/-! ## After a response has arrived -/

/-- How an answer is classified: the polls of its stream and the result of the call. -/
inductive Answer (w : ℕ) (rq : Reqwest C M Q V) (limit : ℕ) (response : Response V) :
    ℕ → Except TransportError HttpResponse → Prop
  | rateLimited (hs : response.status = 429) :
      Answer w rq limit response 0 (.error (.rateLimited (retryAfter rq response)))
  | declaredTooLarge (hs : response.status ≠ 429) {cl : ℕ} (hcl : response.contentLength = some cl)
      (hover : ¬ Fits w limit cl) :
      Answer w rq limit response 0 (.error (responseTooLarge limit (min cl (Usize.maxVal w))))
  | tooLarge (hs : response.status ≠ 429) (hcl : ∀ cl ∈ response.contentLength, Fits w limit cl)
      {before : List Bytes} {chunk : Bytes} {rest : List Bytes}
      (hchunks : response.chunks = before ++ chunk :: rest) (hfits : Fits w limit before.flatten.length)
      (hover : ¬ Fits w limit (before.flatten.length + chunk.length)) :
      Answer w rq limit response (before.length + 1)
        (.error (responseTooLarge limit (min (before.flatten.length + chunk.length) (Usize.maxVal w))))
  | broken (hs : response.status ≠ 429) (hcl : ∀ cl ∈ response.contentLength, Fits w limit cl)
      (hfits : Fits w limit response.chunks.flatten.length) {e : ReqwestError}
      (hfin : response.fin = some e) :
      Answer w rq limit response (response.chunks.length + 1) (.error (mapReqwestError e))
  | complete (hs : response.status ≠ 429) (hcl : ∀ cl ∈ response.contentLength, Fits w limit cl)
      (hfits : Fits w limit response.chunks.flatten.length) (hfin : response.fin = none) :
      Answer w rq limit response (response.chunks.length + 1) (.ok ⟨response.status, response.chunks.flatten⟩)

/-- The declared length, converted, is compared like a length that was counted. -/
theorem checkContentLength_eq (w limit cl : ℕ) :
    checkContentLength w limit (some cl) =
      if Fits w limit cl then .ok () else .error (responseTooLarge limit (min cl (Usize.maxVal w))) := by
  have hcl : (Usize.tryFrom w cl).getD (Usize.maxVal w) = min cl (Usize.maxVal w) := by
    unfold Usize.tryFrom
    split
    · next h => rw [Option.getD_some, Nat.min_eq_left h]
    · next h => rw [Option.getD_none, Nat.min_eq_right (Nat.le_of_not_le h)]
  simp only [checkContentLength, hcl]
  by_cases hf : Fits w limit cl
  · rw [if_pos hf, if_neg fun hover => Fits.not_iff.mpr hover hf]
  · rw [if_neg hf, if_pos (Fits.not_iff.mp hf)]

theorem checkContentLength_of_fits {limit : ℕ} {contentLength : Option ℕ}
    (h : ∀ cl ∈ contentLength, Fits w limit cl) : checkContentLength w limit contentLength = .ok () := by
  cases contentLength with
  | none => rfl
  | some cl => rw [checkContentLength_eq, if_pos (h cl rfl)]

theorem fits_zero (w limit : ℕ) : Fits w limit 0 := Or.inr (by simp)

/-- **`receive` classifies every answer.** -/
theorem receive_answer (w : ℕ) (rq : Reqwest C M Q V) (limit : ℕ) (response : Response V) :
    Answer w rq limit response (receive w rq limit response).1 (receive w rq limit response).2 := by
  unfold receive
  by_cases hs : response.status = 429
  · rw [if_pos hs]
    exact .rateLimited hs
  rw [if_neg hs]
  by_cases hcl : ∀ cl ∈ response.contentLength, Fits w limit cl
  · rw [checkContentLength_of_fits hcl]
    dsimp only
    -- the stream is read to its end, or up to the first chunk that is too much
    rcases fits_or_over response.chunks 0 (fits_zero w limit) with
      hfits | ⟨before, chunk, rest, hchunks, hin, hover⟩
    · have hread : readBody w limit response.fin [] response.chunks = _ := readBody_of_fits response.fin hfits
      rw [hread]
      rw [Nat.zero_add] at hfits
      cases hfin : response.fin with
      | none => exact .complete hs hcl hfits hfin
      | some e => exact .broken hs hcl hfits hfin
    · have hread : readBody w limit response.fin [] (before ++ chunk :: rest) = _ :=
        readBody_of_over response.fin hin hover
      rw [hchunks, hread]
      simp only [List.length_nil, Nat.zero_add] at hin hover ⊢
      exact .tooLarge hs hcl hchunks hin hover
  · obtain ⟨cl, hsome, hover⟩ : ∃ cl, cl ∈ response.contentLength ∧ ¬ Fits w limit cl := by
      simpa only [Classical.not_forall, exists_prop] using hcl
    -- the declared length is refused before the stream is polled
    rw [Option.mem_def.mp hsome, checkContentLength_eq, if_neg hover]
    exact .declaredTooLarge hs hsome hover

/-- **The stages of a call**: what ends it, in the order in which the code asks. -/
inductive Stage (rq : Reqwest C M Q V) (d : ReqwestHttpDriver w C) (request : HttpRequest) : Exchange Q → Prop
  | requestTooLarge {body : Bytes} (hbody : request.body = some body) (hpos : 0 < d.maxRequestBodyBytes)
      (hover : d.maxRequestBodyBytes < body.length) :
      Stage rq d request ⟨none, 0, .error (.payloadTooLarge "request_body" d.maxRequestBodyBytes body.length)⟩
  | badMethod (hbody : ¬ OverRequestLimit d.maxRequestBodyBytes request) {text : String}
      (hm : rq.fromBytes request.method = .error text) :
      Stage rq d request ⟨none, 0, .error (.protocolViolation text)⟩
  | badRequest (hbody : ¬ OverRequestLimit d.maxRequestBodyBytes request) {m : M}
      (hm : rq.fromBytes request.method = .ok m) {e : ReqwestError}
      (hb : rq.build d.client ⟨m, request.url, request.headers, request.body⟩ = .error e) :
      Stage rq d request ⟨none, 0, .error (mapReqwestError e)⟩
  | unreachable (hbody : ¬ OverRequestLimit d.maxRequestBodyBytes request) {m : M}
      (hm : rq.fromBytes request.method = .ok m) {q : Q}
      (hb : rq.build d.client ⟨m, request.url, request.headers, request.body⟩ = .ok q) {e : ReqwestError}
      (he : rq.execute d.client q = .error e) : Stage rq d request ⟨some q, 0, .error (mapReqwestError e)⟩
  | answered (hbody : ¬ OverRequestLimit d.maxRequestBodyBytes request) {m : M}
      (hm : rq.fromBytes request.method = .ok m) {q : Q}
      (hb : rq.build d.client ⟨m, request.url, request.headers, request.body⟩ = .ok q)
      {response : Response V} (he : rq.execute d.client q = .ok response) {polls : ℕ}
      {result : Except TransportError HttpResponse}
      (ha : Answer w rq d.maxResponseBodyBytes response polls result) :
      Stage rq d request ⟨some q, polls, result⟩

theorem execute_stage (rq : Reqwest C M Q V) (d : ReqwestHttpDriver w C) (request : HttpRequest) :
    Stage rq d request (execute rq d request) := by
  unfold execute
  by_cases hbody : OverRequestLimit d.maxRequestBodyBytes request
  · obtain ⟨body, hsome, hpos, hover⟩ := hbody
    rw [checkRequestBody_of_over hsome hpos hover]
    exact .requestTooLarge hsome hpos hover
  rw [checkRequestBody_of_fits hbody]
  dsimp only
  cases hm : rq.fromBytes request.method with
  | error text => exact .badMethod hbody hm
  | ok m =>
    dsimp only
    rw [prepare_eq]
    cases hb : rq.build d.client ⟨m, request.url, request.headers, request.body⟩ with
    | error e => exact .badRequest hbody hm hb
    | ok q =>
      dsimp only
      cases he : rq.execute d.client q with
      | error e => exact .unreachable hbody hm hb he
      | ok response => exact .answered hbody hm hb he (receive_answer w rq _ response)

section Stages

variable {rq : Reqwest C M Q V} {d : ReqwestHttpDriver w C} {request : HttpRequest} {x : Exchange Q}

theorem Stage.permanent (h : Stage rq d request x)
    (hbuild : ∀ b e, rq.build d.client b = .error e → e.isBuilder = true ∧ e.isTimeout = false)
    (hx : x.sent = none) : x.polls = 0 ∧ ∃ e, x.result = .error e ∧ e.isRetryable = false := by
  cases h with
  | requestTooLarge => exact ⟨rfl, _, rfl, rfl⟩
  | badMethod => exact ⟨rfl, _, rfl, rfl⟩
  | badRequest hbody hm hb =>
    obtain ⟨hbuilder, htimeout⟩ := hbuild _ _ hb
    refine ⟨rfl, _, rfl, ?_⟩
    rw [isRetryable_mapReqwestError, hbuilder, htimeout]
    rfl
  | unreachable => cases hx
  | answered => cases hx

theorem Stage.of_over (h : Stage rq d request x) {body : Bytes} (hbody : request.body = some body)
    (hpos : 0 < d.maxRequestBodyBytes) (hover : d.maxRequestBodyBytes < body.length) :
    x = ⟨none, 0, .error (.payloadTooLarge "request_body" d.maxRequestBodyBytes body.length)⟩ := by
  cases h with
  | requestTooLarge hbody' => rw [Option.some.inj (hbody'.symm.trans hbody)]
  | badMethod hfits | badRequest hfits | unreachable hfits | answered hfits =>
    exact absurd ⟨body, hbody, hpos, hover⟩ hfits

theorem Stage.of_unreachable (h : Stage rq d request x) {q : Q} (hq : x.sent = some q) {e : ReqwestError}
    (he : rq.execute d.client q = .error e) : x.polls = 0 ∧ x.result = .error (mapReqwestError e) := by
  cases h with
  | requestTooLarge | badMethod | badRequest => cases hq
  | unreachable _ _ _ he' =>
    cases hq
    rw [he'] at he
    cases he
    exact ⟨rfl, rfl⟩
  | answered _ _ _ he' =>
    cases hq
    rw [he'] at he
    cases he

theorem Stage.answer (h : Stage rq d request x) {q : Q} (hq : x.sent = some q) {response : Response V}
    (he : rq.execute d.client q = .ok response) :
    Answer w rq d.maxResponseBodyBytes response x.polls x.result := by
  cases h with
  | requestTooLarge | badMethod | badRequest => cases hq
  | unreachable _ _ _ he' =>
    cases hq
    rw [he'] at he
    cases he
  | answered _ _ _ he' ha =>
    cases hq
    rw [he'] at he
    cases he
    exact ha

/-- What is not an answer of the server is neither `Ok` nor a rate limit. -/
theorem Stage.of_result (h : Stage rq d request x)
    (hx : (∃ ok, x.result = .ok ok) ∨ ∃ ra, x.result = .error (.rateLimited ra)) :
    ∃ q response, x.sent = some q ∧ rq.execute d.client q = .ok response := by
  cases h with
  | requestTooLarge | badMethod =>
    obtain ⟨ok, hok⟩ | ⟨ra, hra⟩ := hx
    · cases hok
    · cases hra
  | badRequest | unreachable =>
    obtain ⟨ok, hok⟩ | ⟨ra, hra⟩ := hx
    · cases hok
    · exact absurd (Except.error.inj hra) (mapReqwestError_ne_rateLimited _ ra)
  | answered _ _ _ he => exact ⟨_, _, rfl, he⟩

theorem Answer.of_ok {limit : ℕ} {response : Response V} {polls : ℕ} {ok : HttpResponse}
    (h : Answer w rq limit response polls (.ok ok)) :
    ok.status = response.status ∧ response.status ≠ 429 ∧ response.fin = none ∧
      ok.body = response.chunks.flatten ∧ Fits w limit ok.body.length := by
  cases h with
  | complete hs hcl hfits hfin => exact ⟨rfl, hs, hfin, rfl, hfits⟩

end Stages

/-- A server that answers 429 with a long body: the limit of the response is not looked at. -/
def sampleReqwest : Reqwest Unit String (RequestBuilder String) String where
  fromBytes m := if m = "" then .error "invalid HTTP method" else .ok m
  build _ b := if b.url = "" then .error ⟨false, false, true, "builder error"⟩ else .ok b
  execute _ _ := .ok ⟨429, [("retry-after", " 120 ")], some 100, [[1, 2], [3]], none⟩
  toStr := some
  parseHttpDate _ := none
  now := 0

end Transportx.Http
