import Transportx.Http.Boundary
import Transportx.Lib.Ascii
import Transportx.Lib.Path

/-!
# Transportx.Http.Mock — `MockHttpTransport` in use

The mock keeps two maps, each behind its own `RwLock`.  `set_get` and `set_post` write even through a poisoned
lock, `execute` refuses to read through one.  Threads share the mock, and one of them may panic while it holds
a write guard (`poison`).  `mock_answers` says what `execute` returns in terms of what happened before it.
-/

namespace Transportx.Http

open Lts

/-! ## The mock -/

/-- A `std::sync::RwLock`, between critical sections. -/
structure RwLock (α : Type) where
  data : α
  poisoned : Bool

/-- `RwLock::read` and `RwLock::write`; a `PoisonError` carries the guard. -/
def RwLock.lock {α : Type} (l : RwLock α) : Except α α :=
  if l.poisoned then .error l.data else .ok l.data

/-- A `HashMap<String, Bytes>`: what `get` returns for each key. -/
abbrev Responses := String → Option Bytes

structure MockHttpTransport where
  gets : RwLock Responses
  posts : RwLock Responses

/-- `MockHttpTransport::new`. -/
def MockHttpTransport.new : MockHttpTransport := ⟨⟨fun _ => none, false⟩, ⟨fun _ => none, false⟩⟩

/-- `write().unwrap_or_else(PoisonError::into_inner).insert(url, response)`. -/
def insertRecovering (l : RwLock Responses) (url : String) (response : Bytes) : RwLock Responses :=
  let guard := match l.lock with
    | .ok responses => responses
    | .error poisoned => poisoned
  { l with data := Function.update guard url (some response) }

/-- `MockHttpTransport::set_get`. -/
def MockHttpTransport.setGet (m : MockHttpTransport) (url : String) (response : Bytes) : MockHttpTransport :=
  { m with gets := insertRecovering m.gets url response }

/-- `MockHttpTransport::set_post`. -/
def MockHttpTransport.setPost (m : MockHttpTransport) (url : String) (response : Bytes) : MockHttpTransport :=
  { m with posts := insertRecovering m.posts url response }

def mockLock : TransportError := .io (.io ⟨.other, "mock lock"⟩)

def readResponse (l : RwLock Responses) (url : String) : Except TransportError (Option Bytes) :=
  match l.lock with
  | .ok responses => .ok (responses url)
  | .error _ => .error mockLock

def toAsciiUppercase (s : String) : String := String.ofList (Ascii.upper s.toList)

def unsupported (method : String) : TransportError := .protocolViolation s!"mock method unsupported: {method}"

def missing (method url : String) : TransportError :=
  .protocolViolation s!"mock response missing for {method} {url}"

/-- The end of `execute`: a response is answered with `200`. -/
def respond (method url : String) : Except TransportError (Option Bytes) → Except TransportError HttpResponse
  | .error e => .error e
  | .ok (some body) => .ok ⟨200, body⟩
  | .ok none => .error (missing method url)

/-- `HttpDriver::execute` of the mock. -/
def MockHttpTransport.execute (m : MockHttpTransport) (request : HttpRequest) :
    Except TransportError HttpResponse :=
  respond request.method request.url <|
    match toAsciiUppercase request.method with
    | "GET" => readResponse m.gets request.url
    | "POST" => readResponse m.posts request.url
    | method => .error (unsupported method)

/-! ## The mock in use -/

inductive Verb
  | get
  | post
deriving DecidableEq

def Verb.name : Verb → String
  | .get => "GET"
  | .post => "POST"

inductive MockOp
  | set (verb : Verb) (url : String) (response : Bytes)
  | execute (request : HttpRequest)
  | poison (verb : Verb)
deriving DecidableEq

def mockStep (m : MockHttpTransport) :
    MockOp → Option (Option (Except TransportError HttpResponse) × MockHttpTransport)
  | .set .get url response => some (none, m.setGet url response)
  | .set .post url response => some (none, m.setPost url response)
  | .execute request => some (some (m.execute request), m)
  | .poison .get => some (none, { m with gets := { m.gets with poisoned := true } })
  | .poison .post => some (none, { m with posts := { m.posts with poisoned := true } })

abbrev MockCall := Transition MockHttpTransport MockOp (Option (Except TransportError HttpResponse))

def MockHttpTransport.of (m : MockHttpTransport) : Verb → RwLock Responses
  | .get => m.gets
  | .post => m.posts

/-! ## What the history says -/

/-- The method names this verb, in any letter case. -/
def Names (method : String) (verb : Verb) : Prop := Ascii.EqIgnoreCase method.toList verb.name.toList

instance (method : String) (verb : Verb) : Decidable (Names method verb) :=
  inferInstanceAs (Decidable (Ascii.EqIgnoreCase _ _))

/-- What is set for this verb and URL. -/
def setsFor (verb : Verb) (url : String) : MockOp → Option Bytes
  | .set v u response => if v = verb ∧ url = u then some response else none
  | _ => none

def lastSet (verb : Verb) (url : String) (r : List MockCall) : Option Bytes :=
  (r.filterMap fun t => setsFor verb url t.ev).getLast?

/-- Some thread has panicked while it wrote responses for this verb. -/
def Poisoned (verb : Verb) (r : List MockCall) : Prop := ∃ t ∈ r, t.ev = .poison verb

/-! ## One call -/

theorem names_iff (method : String) (verb : Verb) : Names method verb ↔ toAsciiUppercase method = verb.name := by
  have hname : Ascii.upper verb.name.toList = verb.name.toList := by cases verb <;> decide
  unfold Names toAsciiUppercase
  rw [← Ascii.upper_eq_iff, hname]
  constructor
  · intro h
    rw [h, String.ofList_toList]
  · intro h
    rw [← h, String.toList_ofList]

/-- The letter case of the method does not matter, and nothing but method and URL does. -/
theorem execute_of_names {m : MockHttpTransport} {request : HttpRequest} {verb : Verb}
    (h : Names request.method verb) :
    m.execute request = respond request.method request.url (readResponse (m.of verb) request.url) := by
  have hupper := (names_iff request.method verb).mp h
  unfold MockHttpTransport.execute
  cases verb <;> rw [hupper] <;> rfl

theorem execute_of_unnamed {m : MockHttpTransport} {request : HttpRequest}
    (h : ∀ verb, ¬ Names request.method verb) :
    m.execute request = .error (unsupported (toAsciiUppercase request.method)) := by
  unfold MockHttpTransport.execute
  split
  · next heq => exact absurd ((names_iff _ .get).mpr heq) (h .get)
  · next heq => exact absurd ((names_iff _ .post).mpr heq) (h .post)
  · rfl

theorem readResponse_eq (l : RwLock Responses) (url : String) :
    readResponse l url = if l.poisoned then .error mockLock else .ok (l.data url) := by
  obtain ⟨data, poisoned⟩ := l
  cases poisoned <;> rfl

theorem insertRecovering_data (l : RwLock Responses) (url : String) (response : Bytes) :
    (insertRecovering l url response).data = Function.update l.data url (some response) ∧
      (insertRecovering l url response).poisoned = l.poisoned := by
  obtain ⟨data, poisoned⟩ := l
  cases poisoned <;> exact ⟨rfl, rfl⟩

/-! ## Runs -/

section Step

variable {m m' : MockHttpTransport} {op : MockOp} {o : Option (Except TransportError HttpResponse)}

/-- Each call writes one map or none. -/
theorem step_of (h : mockStep m op = some (o, m')) (verb : Verb) :
    m'.of verb = match op with
      | .set v url response => if v = verb then insertRecovering (m.of verb) url response else m.of verb
      | .execute _ => m.of verb
      | .poison v => if v = verb then { m.of verb with poisoned := true } else m.of verb := by
  cases op with
  | execute request =>
    obtain ⟨-, rfl⟩ := Prod.mk.inj (Option.some.inj h)
    rfl
  | set v | poison v =>
    cases v <;> obtain ⟨-, rfl⟩ := Prod.mk.inj (Option.some.inj h) <;> cases verb <;> rfl

theorem step_data (h : mockStep m op = some (o, m')) (verb : Verb) (url : String) :
    (m'.of verb).data url = (setsFor verb url op).or ((m.of verb).data url) := by
  rw [step_of h]
  cases op with
  | set v u response =>
    unfold setsFor
    by_cases hv : v = verb
    · dsimp only
      rw [if_pos hv, (insertRecovering_data _ u response).1, Function.update_apply]
      -- a write to the map of this verb is seen at its own URL only
      by_cases hu : url = u
      · rw [if_pos hu, if_pos ⟨hv, hu⟩]
        rfl
      · rw [if_neg hu, if_neg (fun h => hu h.2)]
        rfl
    · dsimp only
      rw [if_neg hv, if_neg (fun h => hv h.1)]
      rfl
  | execute request => rfl
  | poison v =>
    dsimp only
    split <;> rfl

theorem step_poisoned (h : mockStep m op = some (o, m')) (verb : Verb) :
    (m'.of verb).poisoned = true ↔ (m.of verb).poisoned = true ∨ op = .poison verb := by
  rw [step_of h]
  cases op with
  | set v u response =>
    dsimp only
    split
    · -- a write takes the map out of a poisoned lock and leaves the flag set
      simp [(insertRecovering_data _ u response).2]
    · simp
  | execute request => simp
  | poison v => by_cases hv : v = verb <;> simp [hv]

end Step

section Run

variable {m : MockHttpTransport} {r : List MockCall}

/-- A response is the one that was set last, poisoned or not. -/
theorem run_data (hr : Path mockStep .new r m) (verb : Verb) (url : String) :
    (m.of verb).data url = lastSet verb url r := by
  have hlast := hr.last_write (f := fun m => (m.of verb).data url) fun t ht => step_data (hr.isStep t ht) verb url
  rw [hlast]
  cases verb <;> exact Option.or_none

/-- Nothing heals a lock. -/
theorem run_poisoned (hr : Path mockStep .new r m) (verb : Verb) :
    (m.of verb).poisoned = true ↔ Poisoned verb r := by
  constructor
  · intro h
    have hnew : ¬ ((MockHttpTransport.new.of verb).poisoned = true) := by cases verb <;> exact Bool.false_ne_true
    obtain ⟨a, t, b, rfl, hpre, hpost⟩ := hr.exists_switch (P := fun m => (m.of verb).poisoned = true) hnew h
    have ht := hr.isStep t (by simp)
    exact ⟨t, by simp, ((step_poisoned ht verb).mp hpost).resolve_left hpre⟩
  · rintro ⟨t, ht, hev⟩
    exact hr.stable (P := fun m => (m.of verb).poisoned = true) (fun t ht h => (step_poisoned ht verb).mpr (Or.inl h))
      t ht ((step_poisoned (hr.isStep t ht) verb).mpr (Or.inr hev))

end Run

/-- **What the mock answers**, in every order of calls of any number of threads: the response that was set last
for the verb, in any letter case, and the URL, or a protocol violation if there is none.  Once a thread has
panicked while it set responses for a verb, its requests fail, with an error that is called retryable. -/
theorem mock_answers {a b : List MockCall} {t : MockCall} {m : MockHttpTransport} {request : HttpRequest}
    (hr : Path mockStep .new (a ++ t :: b) m) (ht : t.ev = .execute request) :
    t.post = t.pre ∧
    (∀ verb, Names request.method verb →
      (Poisoned verb a → t.out = some (.error mockLock) ∧ mockLock.isRetryable = true) ∧
      (¬ Poisoned verb a → t.out = some (match lastSet verb request.url a with
        | some body => .ok ⟨200, body⟩
        | none => .error (missing request.method request.url)))) ∧
    ((∀ verb, ¬ Names request.method verb) →
      t.out = some (.error (unsupported (toAsciiUppercase request.method)))) := by
  obtain ⟨mid, ha, hb⟩ := hr.split
  cases hb with
  | cons hstep _ =>
    unfold IsStep at hstep
    rw [ht] at hstep
    obtain ⟨hout, hpost⟩ := Prod.mk.inj (Option.some.inj hstep)
    refine ⟨hpost.symm, fun verb hverb => ?_, fun hnone => ?_⟩
    · rw [← hout, execute_of_names hverb]
      -- what is read is the last write before this call
      rw [readResponse_eq, run_data ha]
      refine ⟨fun hp => ?_, fun hp => ?_⟩
      · rw [if_pos ((run_poisoned ha verb).mpr hp)]
        exact ⟨rfl, rfl⟩
      · rw [if_neg (mt (run_poisoned ha verb).mp hp)]
        cases lastSet verb request.url a <;> rfl
    · rw [← hout, execute_of_unnamed hnone]

/-- The letter case of the method and the body of the request do not matter. -/
theorem mock_answers_sample :
    ∃ r m, Path mockStep .new r m ∧ (r.map Transition.ev) =
        [.set .post "https://api/ping" [123, 125], .execute ⟨"Post", "https://api/ping", [], some [1]⟩] ∧
      r.map Transition.out = [none, some (.ok ⟨200, [123, 125]⟩)] := by
  have hset : Path mockStep .new _ _ := Path.of_step (e := .set .post "https://api/ping" [123, 125]) rfl
  have hr := hset.append (Path.of_step (e := .execute ⟨"Post", "https://api/ping", [], some [1]⟩) rfl)
  have h := ((mock_answers hr rfl).2.1 .post (by decide)).2
  refine ⟨_, _, hr, rfl, congrArg (fun out => [none, out]) (h ?_)⟩
  rintro ⟨t, ht, hev⟩
  cases List.mem_singleton.mp ht
  cases hev

end Transportx.Http
