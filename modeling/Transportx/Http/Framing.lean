import Transportx.Http.Driver

/-!
# Transportx.Http.Framing — what a call depends on

How a body is cut into chunks is up to the network, and how large it may be is up to the driver.  A
`Content` is a response without its cuts, and `Judged` the results that a limit allows for it.

* `framing_irrelevant`: two networks that give the same contents give the same results, but for the
  number that a refusal reports.
* `limits_only_refuse`: between two limits the results are the same, but for the refusals of the
  tighter one.
* `permanent_failures`: the failures that are certain to repeat are those that do not get as far as the
  network.
-/

namespace Transportx.Http

variable {w limit limit' : ℕ} {C M Q V : Type}

/-! ## Contents -/

/-- A response without the cuts of its body. -/
structure Content (V : Type) where
  status : ℕ
  headers : List (String × V)
  contentLength : Option ℕ
  body : Bytes
  fin : Option ReqwestError

def Response.content (response : Response V) : Content V :=
  ⟨response.status, response.headers, response.contentLength, response.chunks.flatten, response.fin⟩

/-- A content with every byte in a chunk of its own. -/
def Content.bytewise (c : Content V) : Response V :=
  ⟨c.status, c.headers, c.contentLength, c.body.map ([·]), c.fin⟩

theorem Content.content_bytewise (c : Content V) : c.bytewise.content = c := by
  have hflatten : (c.body.map ([·])).flatten = c.body := by
    rw [← List.flatMap_def, List.flatMap_singleton']
  unfold Response.content bytewise
  rw [hflatten]

/-- A network that cuts every body byte by byte gives the same contents. -/
theorem map_content_bytewise (answer : Except ReqwestError (Response V)) :
    (answer.map fun r => r.content.bytewise).map Response.content = answer.map Response.content := by
  cases answer with
  | error e => rfl
  | ok response => exact congrArg Except.ok response.content.content_bytewise

/-- The declared length and the length pass the limit; those of a 429 are not looked at. -/
def Content.Admitted (w limit : ℕ) (c : Content V) : Prop :=
  c.status = 429 ∨ (∀ cl ∈ c.contentLength, Fits w limit cl) ∧ Fits w limit c.body.length

/-- What a content is to the caller. -/
def Content.result (rq : Reqwest C M Q V) (c : Content V) : Except TransportError HttpResponse :=
  if c.status = 429 then .error (.rateLimited (retryAfter rq c.bytewise))
  else
    match c.fin with
    | none => .ok ⟨c.status, c.body⟩
    | some e => .error (mapReqwestError e)

/-- The results that a limit allows for a content: its own, or a refusal. -/
inductive Judged (w : ℕ) (rq : Reqwest C M Q V) (limit : ℕ) (c : Content V) :
    Except TransportError HttpResponse → Prop
  | admitted (h : c.Admitted w limit) : Judged w rq limit c (c.result rq)
  | refused (h : ¬ c.Admitted w limit) {got : ℕ} (hgot : limit < got) :
      Judged w rq limit c (.error (responseTooLarge limit got))

section Content

variable {rq : Reqwest C M Q V} {response : Response V}

theorem lt_of_not_fits {n : ℕ} (h : ¬ Fits w limit n) : limit < min n (Usize.maxVal w) :=
  (Fits.not_iff.mp h).2

/-- **The decision on a response is one on its content.** -/
theorem Answer.judged {polls : ℕ} {result : Except TransportError HttpResponse}
    (h : Answer w rq limit response polls result) : Judged w rq limit response.content result := by
  cases h with
  | rateLimited hs =>
    have hresult : response.content.result rq = .error (.rateLimited (retryAfter rq response)) := if_pos hs
    exact hresult ▸ .admitted (Or.inl hs)
  | declaredTooLarge hs hcl hover =>
    refine .refused ?_ (lt_of_not_fits hover)
    rintro (h429 | ⟨hdeclared, -⟩)
    · exact hs h429
    · exact hover (hdeclared _ hcl)
  | tooLarge hs hcl hchunks hfits hover =>
    refine .refused ?_ (lt_of_not_fits hover)
    rintro (h429 | ⟨-, hbody⟩)
    · exact hs h429
    · exact hover (Fits.mono hbody (length_cut_le hchunks))
  | @broken hs hcl hfits e hfin =>
    have hne : response.content.status ≠ 429 := hs
    have hresult : response.content.result rq = .error (mapReqwestError e) := by
      rw [Content.result, if_neg hne, show response.content.fin = some e from hfin]
    exact hresult ▸ .admitted (Or.inr ⟨hcl, hfits⟩)
  | complete hs hcl hfits hfin =>
    have hne : response.content.status ≠ 429 := hs
    have hresult : response.content.result rq = .ok ⟨response.status, response.chunks.flatten⟩ := by
      rw [Content.result, if_neg hne, show response.content.fin = none from hfin]
      rfl
    exact hresult ▸ .admitted (Or.inr ⟨hcl, hfits⟩)

theorem receive_judged (w : ℕ) (rq : Reqwest C M Q V) (limit : ℕ) (response : Response V) :
    Judged w rq limit response.content (receive w rq limit response).2 :=
  (receive_answer w rq limit response).judged

end Content

/-! ## Up to the network -/

/-- The request that is handed to the network, or the error before. -/
def outgoing (rq : Reqwest C M Q V) (d : ReqwestHttpDriver w C) (request : HttpRequest) :
    Except TransportError Q :=
  match checkRequestBody d.maxRequestBodyBytes request with
  | .error e => .error e
  | .ok () =>
    match rq.fromBytes request.method with
    | .error text => .error (.protocolViolation text)
    | .ok method => (rq.build d.client (prepare method request)).mapError mapReqwestError

/-- What follows once the network has a request. -/
def answerOf (rq : Reqwest C M Q V) (limit : ℕ) (w : ℕ) :
    Except ReqwestError (Response V) → ℕ × Except TransportError HttpResponse
  | .error e => (0, .error (mapReqwestError e))
  | .ok response => receive w rq limit response

theorem execute_of_outgoing_error {rq : Reqwest C M Q V} {d : ReqwestHttpDriver w C} {request : HttpRequest}
    {e : TransportError} (h : outgoing rq d request = .error e) :
    execute rq d request = ⟨none, 0, .error e⟩ := by
  unfold outgoing at h
  unfold execute
  cases hbody : checkRequestBody d.maxRequestBodyBytes request with
  | error e' =>
    simp only [hbody] at h ⊢
    rw [Except.error.inj h]
  | ok u =>
    simp only [hbody] at h ⊢
    cases hm : rq.fromBytes request.method with
    | error text =>
      simp only [hm] at h ⊢
      rw [Except.error.inj h]
    | ok method =>
      simp only [hm] at h ⊢
      cases hb : rq.build d.client (prepare method request) with
      | error e' =>
        simp only [hb, Except.mapError] at h ⊢
        rw [Except.error.inj h]
      | ok q =>
        rw [hb] at h
        cases h

theorem execute_of_outgoing {rq : Reqwest C M Q V} {d : ReqwestHttpDriver w C} {request : HttpRequest} {q : Q}
    (h : outgoing rq d request = .ok q) :
    execute rq d request = ⟨some q, (answerOf rq d.maxResponseBodyBytes w (rq.execute d.client q)).1,
      (answerOf rq d.maxResponseBodyBytes w (rq.execute d.client q)).2⟩ := by
  unfold outgoing at h
  unfold execute
  cases hbody : checkRequestBody d.maxRequestBodyBytes request with
  | error e =>
    rw [hbody] at h
    cases h
  | ok u =>
    simp only [hbody] at h ⊢
    cases hm : rq.fromBytes request.method with
    | error text =>
      rw [hm] at h
      cases h
    | ok method =>
      simp only [hm] at h ⊢
      cases hb : rq.build d.client (prepare method request) with
      | error e =>
        rw [hb] at h
        cases h
      | ok q' =>
        rw [hb] at h
        obtain rfl : q' = q := Except.ok.inj h
        dsimp only
        cases rq.execute d.client q' <;> rfl

/-- Nothing that is done before a request is handed over depends on the network. -/
theorem outgoing_network (rq : Reqwest C M Q V) (d : ReqwestHttpDriver w C) (request : HttpRequest)
    (network : C → Q → Except ReqwestError (Response V)) :
    outgoing { rq with execute := network } d request = outgoing rq d request := rfl

/-! ## The cuts of the network -/

/-- Both calls refuse the response, each with a number over the limit. -/
def BothRefuse (limit : ℕ) (result result' : Except TransportError HttpResponse) : Prop :=
  ∃ got got', limit < got ∧ limit < got' ∧ result = .error (responseTooLarge limit got) ∧
    result' = .error (responseTooLarge limit got')

theorem Judged.agree {rq : Reqwest C M Q V} {c : Content V} {result result' : Except TransportError HttpResponse}
    (h : Judged w rq limit c result) (h' : Judged w rq limit c result') :
    result' = result ∨ BothRefuse limit result result' := by
  cases h with
  | admitted hadm =>
    cases h' with
    | admitted => exact Or.inl rfl
    | refused hnot => exact absurd hadm hnot
  | refused hnot hgot =>
    cases h' with
    | admitted hadm => exact absurd hadm hnot
    | refused _ hgot' => exact Or.inr ⟨_, _, hgot, hgot', rfl, rfl⟩

theorem Judged.of_network {rq : Reqwest C M Q V} {network : C → Q → Except ReqwestError (Response V)}
    {c : Content V} {result : Except TransportError HttpResponse}
    (h : Judged w { rq with execute := network } limit c result) : Judged w rq limit c result := by
  cases h with
  | admitted hadm => exact .admitted hadm
  | refused hnot hgot => exact .refused hnot hgot

/-- **How the network cuts a body into chunks does not matter**, for every request, both limits, and
every two networks that give the same contents.

The same request is sent or none is, and the results are the same, or both calls refuse the response
with a number over the limit. -/
theorem framing_irrelevant (rq : Reqwest C M Q V) (network : C → Q → Except ReqwestError (Response V))
    (hcontent : ∀ c q, (network c q).map Response.content = (rq.execute c q).map Response.content)
    (d : ReqwestHttpDriver w C) (request : HttpRequest) :
    (execute { rq with execute := network } d request).sent = (execute rq d request).sent ∧
    ((execute { rq with execute := network } d request).result = (execute rq d request).result ∨
      BothRefuse d.maxResponseBodyBytes (execute rq d request).result
        (execute { rq with execute := network } d request).result) := by
  cases hout : outgoing rq d request with
  | error e =>
    have hout' := (outgoing_network rq d request network).trans hout
    rw [execute_of_outgoing_error hout, execute_of_outgoing_error hout']
    exact ⟨rfl, Or.inl rfl⟩
  | ok q =>
    have hout' := (outgoing_network rq d request network).trans hout
    rw [execute_of_outgoing hout, execute_of_outgoing hout']
    refine ⟨rfl, ?_⟩
    have hq := hcontent d.client q
    show (answerOf _ _ w (network d.client q)).2 = _ ∨ BothRefuse _ _ (answerOf _ _ w (network d.client q)).2
    cases hx : rq.execute d.client q with
    | error e =>
      rw [hx] at hq
      cases hy : network d.client q with
      | error e' =>
        rw [hy] at hq
        rw [Except.error.inj hq]
        exact Or.inl rfl
      | ok response' =>
        rw [hy] at hq
        cases hq
    | ok response =>
      rw [hx] at hq
      cases hy : network d.client q with
      | error e' =>
        rw [hy] at hq
        cases hq
      | ok response' =>
        rw [hy] at hq
        have hsame : response'.content = response.content := Except.ok.inj hq
        have hjudged := receive_judged w rq d.maxResponseBodyBytes response
        have hjudged' := receive_judged w { rq with execute := network } d.maxResponseBodyBytes response'
        rw [hsame] at hjudged'
        exact hjudged.agree hjudged'.of_network

/-- The server of `sampleReqwest`, with a body in two chunks. -/
def sampleServer (status : ℕ) : Reqwest Unit String (RequestBuilder String) String :=
  { sampleReqwest with execute := fun _ _ => .ok ⟨status, [], none, [[1, 2], [3]], none⟩ }

/-- Byte by byte the body of three bytes is refused at the third, as it is in two chunks. -/
theorem framing_irrelevant_sample :
    BothRefuse 2
      (execute (sampleServer 200) (⟨(), 2, 0, by decide, by decide⟩ : ReqwestHttpDriver 64 Unit)
        ⟨"GET", "http://h", [], none⟩).result
      (execute { sampleServer 200 with
          execute := fun c q => ((sampleServer 200).execute c q).map fun r => r.content.bytewise }
        (⟨(), 2, 0, by decide, by decide⟩ : ReqwestHttpDriver 64 Unit) ⟨"GET", "http://h", [], none⟩).result := by
  have h := framing_irrelevant (sampleServer 200)
    (fun c q => ((sampleServer 200).execute c q).map fun r => r.content.bytewise)
    (fun c q => map_content_bytewise ((sampleServer 200).execute c q))
    (⟨(), 2, 0, by decide, by decide⟩ : ReqwestHttpDriver 64 Unit) ⟨"GET", "http://h", [], none⟩
  refine h.2.elim (fun heq => ?_) id
  exact ⟨3, 3, by decide, by decide, rfl, heq⟩

/-! ## The limits of the driver -/

/-- The second limit admits what the first one does. -/
def Loosens (limit limit' : ℕ) : Prop := limit' = 0 ∨ limit ≠ 0 ∧ limit ≤ limit'

theorem Fits.loosen {n : ℕ} (hl : Loosens limit limit') (h : Fits w limit n) : Fits w limit' n := by
  unfold Loosens at hl
  unfold Fits at *
  omega

/-- With the looser limit the loop polls no less, and its result is the same unless the tighter one
refuses the stream. -/
theorem readBody_loosen (hl : Loosens limit limit') (fin : Option ReqwestError) (chunks : List Bytes)
    (body : Bytes) :
    (readBody w limit fin body chunks).1 ≤ (readBody w limit' fin body chunks).1 ∧
    (readBody w limit' fin body chunks = readBody w limit fin body chunks ∨
      ∃ got, limit < got ∧ (readBody w limit fin body chunks).2 = .error (responseTooLarge limit got)) := by
  induction chunks generalizing body with
  | nil => exact ⟨le_rfl, Or.inl rfl⟩
  | cons chunk rest ih =>
    by_cases hfits : Fits w limit (body.length + chunk.length)
    · obtain ⟨hpolls, hresult⟩ := ih (body ++ chunk)
      simp only [readBody, acceptChunk_of_fits hfits, acceptChunk_of_fits (hfits.loosen hl)]
      refine ⟨Nat.succ_le_succ hpolls, hresult.imp (fun heq => ?_) id⟩
      rw [heq]
    · simp only [readBody, acceptChunk_of_over hfits]
      refine ⟨?_, Or.inr ⟨_, lt_of_not_fits hfits, rfl⟩⟩
      split <;> exact Nat.le_add_left 1 _

theorem receive_loosen (hl : Loosens limit limit') (rq : Reqwest C M Q V) (response : Response V) :
    (receive w rq limit response).1 ≤ (receive w rq limit' response).1 ∧
    (receive w rq limit' response = receive w rq limit response ∨
      ∃ got, limit < got ∧ (receive w rq limit response).2 = .error (responseTooLarge limit got)) := by
  unfold receive
  by_cases hs : response.status = 429
  · rw [if_pos hs, if_pos hs]
    exact ⟨le_rfl, Or.inl rfl⟩
  rw [if_neg hs, if_neg hs]
  by_cases hcl : ∀ cl ∈ response.contentLength, Fits w limit cl
  · rw [checkContentLength_of_fits hcl, checkContentLength_of_fits fun cl hmem => (hcl cl hmem).loosen hl]
    obtain ⟨hpolls, hresult⟩ := readBody_loosen (w := w) hl response.fin response.chunks []
    refine ⟨hpolls, hresult.imp (fun heq => ?_) ?_⟩
    · simp only [heq]
    · rintro ⟨got, hgot, heq⟩
      refine ⟨got, hgot, ?_⟩
      simp only [heq]
      rfl
  · obtain ⟨cl, hsome, hover⟩ : ∃ cl, cl ∈ response.contentLength ∧ ¬ Fits w limit cl := by
      simpa only [Classical.not_forall, exists_prop] using hcl
    rw [Option.mem_def.mp hsome, checkContentLength_eq w limit cl, if_neg hover]
    exact ⟨Nat.zero_le _, Or.inr ⟨_, lt_of_not_fits hover, rfl⟩⟩

theorem OverRequestLimit.tighten {request : HttpRequest} (hl : Loosens limit limit')
    (h : OverRequestLimit limit' request) : OverRequestLimit limit request := by
  obtain ⟨body, hbody, hpos, hover⟩ := h
  unfold Loosens at hl
  exact ⟨body, hbody, by omega, by omega⟩

/-- **A limit only refuses**, for every request and every network: with looser limits the call is the
same, step by step, unless the tighter driver refuses the request before anything is sent, or refuses
the response, after no more polls.  So a looser limit never turns a success or another error into
something else. -/
theorem limits_only_refuse (rq : Reqwest C M Q V) (d d' : ReqwestHttpDriver w C) (hclient : d'.client = d.client)
    (hrequest : Loosens d.maxRequestBodyBytes d'.maxRequestBodyBytes)
    (hresponse : Loosens d.maxResponseBodyBytes d'.maxResponseBodyBytes) (request : HttpRequest) :
    execute rq d' request = execute rq d request ∨
    (∃ body, request.body = some body ∧ d.maxRequestBodyBytes < body.length ∧ execute rq d request =
      ⟨none, 0, .error (.payloadTooLarge "request_body" d.maxRequestBodyBytes body.length)⟩) ∨
    ∃ q got, d.maxResponseBodyBytes < got ∧ (execute rq d request).sent = some q ∧
      (execute rq d' request).sent = some q ∧
      (execute rq d request).polls ≤ (execute rq d' request).polls ∧
      (execute rq d request).result = .error (responseTooLarge d.maxResponseBodyBytes got) := by
  by_cases hbody : OverRequestLimit d.maxRequestBodyBytes request
  · obtain ⟨body, hsome, hpos, hover⟩ := hbody
    exact Or.inr (Or.inl ⟨body, hsome, hover, (execute_stage rq d request).of_over hsome hpos hover⟩)
  have hout' : outgoing rq d' request = outgoing rq d request := by
    unfold outgoing
    rw [checkRequestBody_of_fits hbody, checkRequestBody_of_fits fun hover => hbody (hover.tighten hrequest),
      hclient]
  cases hout : outgoing rq d request with
  | error e =>
    rw [execute_of_outgoing_error hout, execute_of_outgoing_error (hout'.trans hout)]
    exact Or.inl rfl
  | ok q =>
    rw [execute_of_outgoing hout, execute_of_outgoing (hout'.trans hout), hclient]
    cases rq.execute d.client q with
    | error e => exact Or.inl rfl
    | ok response =>
      obtain ⟨hpolls, heq | ⟨got, hgot, hrefused⟩⟩ := receive_loosen (w := w) hresponse rq response
      · refine Or.inl ?_
        simp only [answerOf, heq]
      · exact Or.inr (Or.inr ⟨q, got, hgot, rfl, rfl, hpolls, hrefused⟩)

/-- Without its limits the same driver returns the body that it refuses with them. -/
theorem limits_only_refuse_sample :
    (execute (sampleServer 200) (⟨(), 2, 1, by decide, by decide⟩ : ReqwestHttpDriver 64 Unit)
        ⟨"GET", "http://h", [], none⟩).polls ≤
      (execute (sampleServer 200) (⟨(), 0, 0, by decide, by decide⟩ : ReqwestHttpDriver 64 Unit)
        ⟨"GET", "http://h", [], none⟩).polls := by
  have h := limits_only_refuse (sampleServer 200) (⟨(), 2, 1, by decide, by decide⟩ : ReqwestHttpDriver 64 Unit)
    ⟨(), 0, 0, by decide, by decide⟩ rfl (Or.inl rfl) (Or.inl rfl) ⟨"GET", "http://h", [], none⟩
  obtain heq | ⟨body, hbody, -⟩ | ⟨q, got, -, -, -, hpolls, -⟩ := h
  · rw [heq]
  · cases hbody
  · exact hpolls

/-! ## Calling again -/

/-- The same library at another time, over another network.  What `Client::execute` refuses by itself
before it connects, such as a scheme that is not HTTP, it refuses over every network. -/
def Reqwest.over (rq : Reqwest C M Q V) (refuses : C → Q → Option ReqwestError)
    (network : C → Q → Except ReqwestError (Response V)) (now : SystemTime) : Reqwest C M Q V :=
  { rq with
    execute := fun c q =>
      match refuses c q with
      | some e => .error e
      | none => network c q
    now := now }

section Over

variable {rq : Reqwest C M Q V} {refuses : C → Q → Option ReqwestError}
  {network : C → Q → Except ReqwestError (Response V)} {now : SystemTime} {d : ReqwestHttpDriver w C}
  {request : HttpRequest} {q : Q}

theorem outgoing_over (rq : Reqwest C M Q V) (refuses : C → Q → Option ReqwestError)
    (network : C → Q → Except ReqwestError (Response V)) (now : SystemTime) (d : ReqwestHttpDriver w C)
    (request : HttpRequest) : outgoing (rq.over refuses network now) d request = outgoing rq d request := rfl

theorem execute_over_refused (h : outgoing rq d request = .ok q) {e : ReqwestError}
    (hr : refuses d.client q = some e) :
    execute (rq.over refuses network now) d request = ⟨some q, 0, .error (mapReqwestError e)⟩ := by
  have hexec : (rq.over refuses network now).execute d.client q = .error e := by
    simp only [Reqwest.over, hr]
  rw [execute_of_outgoing ((outgoing_over rq refuses network now d request).trans h), hexec]
  rfl

/-- A network on which nothing fails. -/
def emptyAnswers : C → Q → Except ReqwestError (Response V) := fun _ _ => .ok ⟨200, [], none, [], none⟩

theorem execute_emptyAnswers (h : outgoing rq d request = .ok q) (hr : refuses d.client q = none) :
    (execute (rq.over refuses emptyAnswers now) d request).result = .ok ⟨200, []⟩ := by
  have hexec : (rq.over refuses emptyAnswers now).execute d.client q = emptyAnswers d.client q := by
    simp only [Reqwest.over, hr]
  rw [execute_of_outgoing ((outgoing_over rq refuses emptyAnswers now d request).trans h), hexec]
  rfl

end Over

theorem isRetryable_of_mapped {e : ReqwestError} (h : (mapReqwestError e).isRetryable = false) :
    e.isBuilder = true ∧ e.isTimeout = false ∧ mapReqwestError e = .protocolViolation e.text := by
  obtain ⟨timeout, connect, builder, text⟩ := e
  cases timeout <;> cases connect <;> cases builder <;> first | exact ⟨rfl, rfl, rfl⟩ | cases h

/-- A permanent error of an answer is a refusal, or an error of the builder that came late. -/
theorem Answer.of_permanent {rq : Reqwest C M Q V} {response : Response V} {polls : ℕ} {e : TransportError}
    (h : Answer w rq limit response polls (.error e)) (he : e.isRetryable = false) :
    (∃ got, limit < got ∧ e = responseTooLarge limit got) ∨
    ∃ err : ReqwestError, err.isBuilder = true ∧ err.isTimeout = false ∧ e = .protocolViolation err.text := by
  cases h with
  | rateLimited => cases he
  | declaredTooLarge _ _ hover | tooLarge _ _ _ _ hover => exact Or.inl ⟨_, lt_of_not_fits hover, rfl⟩
  | @broken _ _ _ err _ =>
    obtain ⟨hbuilder, htimeout, heq⟩ := isRetryable_of_mapped he
    exact Or.inr ⟨err, hbuilder, htimeout, heq⟩

/-- **Which failures are certain to repeat**: the same request fails in the same way at every time and over
every network if and only if this call did not get as far as the network.  Such an error is not retryable, if
the library makes it in its builder; any other one that is not retryable is the refusal of a response, or an
error that `reqwest` calls one of its builder. -/
theorem permanent_failures (rq : Reqwest C M Q V) (refuses : C → Q → Option ReqwestError)
    (network : C → Q → Except ReqwestError (Response V)) (now : SystemTime) (d : ReqwestHttpDriver w C)
    (request : HttpRequest) (e : TransportError)
    (he : (execute (rq.over refuses network now) d request).result = .error e) :
    ((∀ network' now', (execute (rq.over refuses network' now') d request).result = .error e) ↔
      ∀ q, (execute (rq.over refuses network now) d request).sent = some q → (refuses d.client q).isSome = true) ∧
    ((∀ b err, rq.build d.client b = .error err → err.isBuilder = true ∧ err.isTimeout = false) →
      (∀ q err, refuses d.client q = some err → err.isBuilder = true ∧ err.isTimeout = false) →
      (∀ network' now', (execute (rq.over refuses network' now') d request).result = .error e) →
        e.isRetryable = false) ∧
    (e.isRetryable = false → ∀ q, (execute (rq.over refuses network now) d request).sent = some q →
      refuses d.client q = none →
      (∃ got, d.maxResponseBodyBytes < got ∧ e = responseTooLarge d.maxResponseBodyBytes got) ∨
      ∃ err : ReqwestError, err.isBuilder = true ∧ err.isTimeout = false ∧ e = .protocolViolation err.text) := by
  have hstage := execute_stage (rq.over refuses network now) d request
  cases hout : outgoing rq d request with
  | error e' =>
    -- nothing is handed over, whatever the network
    have hall : ∀ network' now', execute (rq.over refuses network' now') d request = ⟨none, 0, .error e'⟩ :=
      fun network' now' => execute_of_outgoing_error ((outgoing_over rq refuses network' now' d request).trans hout)
    have hsent : (execute (rq.over refuses network now) d request).sent = none := by rw [hall]
    rw [hall] at he
    refine ⟨⟨fun _ q hq => ?_, fun _ network' now' => ?_⟩, fun hbuild _ _ => ?_, fun _ q hq => ?_⟩
    · cases hsent.symm.trans hq
    · rw [hall]
      exact he
    · obtain ⟨-, err, herr, hperm⟩ := hstage.permanent hbuild hsent
      rw [hall] at herr
      rw [← Except.error.inj (herr.symm.trans he)]
      exact hperm
    · cases hsent.symm.trans hq
  | ok q =>
    have hsent : (execute (rq.over refuses network now) d request).sent = some q := by
      rw [execute_of_outgoing ((outgoing_over rq refuses network now d request).trans hout)]
    cases href : refuses d.client q with
    | some err =>
      -- handed over, and refused before anything depends on the network
      have hall : ∀ network' now', (execute (rq.over refuses network' now') d request).result =
          .error (mapReqwestError err) := by
        intro network' now'
        rw [execute_over_refused hout href]
      rw [hall] at he
      refine ⟨⟨fun _ q' hq => ?_, fun _ network' now' => (hall network' now').trans he⟩, fun _ hlocal _ => ?_,
        fun _ q' hq hnone => ?_⟩
      · rw [← Option.some.inj (hsent.symm.trans hq), href]
        rfl
      · obtain ⟨hbuilder, htimeout⟩ := hlocal q err href
        rw [← Except.error.inj he, isRetryable_mapReqwestError, hbuilder, htimeout]
        rfl
      · rw [← Option.some.inj (hsent.symm.trans hq), href] at hnone
        cases hnone
    | none =>
      -- some network answers the same request
      have hnot : ¬ ∀ network' now', (execute (rq.over refuses network' now') d request).result = .error e := by
        intro hall
        have hok := hall emptyAnswers now
        rw [execute_emptyAnswers hout href] at hok
        cases hok
      refine ⟨⟨fun hall => absurd hall hnot, fun hsome => ?_⟩, fun _ _ hall => absurd hall hnot, fun hperm _ _ _ => ?_⟩
      · have hq := hsome q hsent
        rw [href] at hq
        cases hq
      · cases hx : (rq.over refuses network now).execute d.client q with
        | error err =>
          obtain rfl : mapReqwestError err = e :=
            Except.error.inj ((hstage.of_unreachable hsent hx).2.symm.trans he)
          obtain ⟨hbuilder, htimeout, heq⟩ := isRetryable_of_mapped hperm
          exact Or.inr ⟨err, hbuilder, htimeout, heq⟩
        | ok response =>
          have ha := hstage.answer hsent hx
          rw [he] at ha
          exact ha.of_permanent hperm

/-- The check of the scheme: `url_bad_scheme`. -/
def sampleRefuses (_ : Unit) (q : RequestBuilder String) : Option ReqwestError :=
  if q.url = "ftp://h" then some ⟨false, false, true, "builder error for url (ftp://h/)"⟩
  else none

/-- The refusal of a body of three bytes is not retryable, and still another network may answer; a scheme
that is not HTTP fails on every network. -/
theorem permanent_failures_sample :
    (¬ ∀ network now, (execute ((sampleServer 200).over sampleRefuses network now)
        (⟨(), 2, 1, by decide, by decide⟩ : ReqwestHttpDriver 64 Unit) ⟨"GET", "http://h", [], none⟩).result =
      .error (responseTooLarge 2 3)) ∧
    ∀ network now, (execute ((sampleServer 200).over sampleRefuses network now)
        (⟨(), 2, 1, by decide, by decide⟩ : ReqwestHttpDriver 64 Unit) ⟨"GET", "ftp://h", [], none⟩).result =
      .error (.protocolViolation "builder error for url (ftp://h/)") := by
  constructor
  · have h := permanent_failures (sampleServer 200) sampleRefuses (sampleServer 200).execute 0
      (⟨(), 2, 1, by decide, by decide⟩ : ReqwestHttpDriver 64 Unit) ⟨"GET", "http://h", [], none⟩
      (responseTooLarge 2 3) rfl
    intro hall
    cases h.1.mp hall _ rfl
  · have h := permanent_failures (sampleServer 200) sampleRefuses (sampleServer 200).execute 0
      (⟨(), 2, 1, by decide, by decide⟩ : ReqwestHttpDriver 64 Unit) ⟨"GET", "ftp://h", [], none⟩ _ rfl
    refine h.1.mpr fun q hq => ?_
    rw [← Option.some.inj hq]
    rfl

end Transportx.Http
