import Mathlib.Algebra.GroupWithZero.Nat
import Mathlib.Data.Nat.Order.Lemmas
import Mathlib.Logic.Relation
import Transportx.Http.Driver

/-!
# Transportx.Http.Stream — the response stream against its specification

The loop of `Http.Body` seen turn by turn.  A `BodyLoop` is the loop between two polls, `turn` what one
poll does to it, and `Reaches` relates the loops of one run.

* `readBody_prefix_sums`: the result of the loop in terms of the prefix sums of the stream.
* `declared_length_agrees`: the check of the declared length decides as the loop does.
-/

namespace Transportx.Http

variable {w limit : ℕ}

/-! ## Turn by turn -/

/-- The loop between two polls: what is buffered, and what the stream still holds. -/
structure BodyLoop where
  body : Bytes
  chunks : List Bytes

namespace BodyLoop

/-- One turn of the loop: it goes on, or ends with a result. -/
def turn (w limit : ℕ) (fin : Option ReqwestError) : BodyLoop → BodyLoop ⊕ Except TransportError Bytes
  | ⟨body, []⟩ => .inr (endOfStream fin body)
  | ⟨body, chunk :: rest⟩ =>
    match acceptChunk w limit body chunk with
    | .error e => .inr (.error e)
    | .ok body => .inl ⟨body, rest⟩

/-- The second loop is a later moment of a run of the first. -/
def Reaches (w limit : ℕ) (fin : Option ReqwestError) : BodyLoop → BodyLoop → Prop :=
  Relation.ReflTransGen fun l l' => l.turn w limit fin = .inl l'

variable {fin : Option ReqwestError} {l l' : BodyLoop}

theorem turn_inl (h : l.turn w limit fin = .inl l') :
    ∃ chunk, l.chunks = chunk :: l'.chunks ∧ l'.body = l.body ++ chunk ∧ Fits w limit l'.body.length := by
  obtain ⟨body, chunks⟩ := l
  cases chunks with
  | nil => cases h
  | cons chunk rest =>
    refine ⟨chunk, ?_⟩
    by_cases hfits : Fits w limit (body.length + chunk.length)
    · simp only [turn, acceptChunk_of_fits hfits] at h
      cases h
      exact ⟨rfl, rfl, by rwa [List.length_append]⟩
    · simp only [turn, acceptChunk_of_over hfits] at h
      cases h

theorem turn_of_fits {body chunk : Bytes} {rest : List Bytes} (h : Fits w limit (body.length + chunk.length)) :
    turn w limit fin ⟨body, chunk :: rest⟩ = .inl ⟨body ++ chunk, rest⟩ := by
  simp only [turn, acceptChunk_of_fits h]

/-- The loop is its turns, one poll each. -/
theorem readBody_eq_turn (w limit : ℕ) (fin : Option ReqwestError) (l : BodyLoop) :
    readBody w limit fin l.body l.chunks =
      match l.turn w limit fin with
      | .inr result => (1, result)
      | .inl next =>
        ((readBody w limit fin next.body next.chunks).1 + 1, (readBody w limit fin next.body next.chunks).2) := by
  obtain ⟨body, chunks⟩ := l
  cases chunks with
  | nil => rfl
  | cons chunk rest =>
    simp only [readBody, turn]
    cases acceptChunk w limit body chunk <;> rfl

/-- A run ends as the loop does from any of its moments. -/
theorem Reaches.readBody_eq (h : Reaches w limit fin l l') :
    ∃ k, readBody w limit fin l.body l.chunks =
      (k + (readBody w limit fin l'.body l'.chunks).1, (readBody w limit fin l'.body l'.chunks).2) := by
  induction h with
  | refl => exact ⟨0, by rw [Nat.zero_add]⟩
  | @tail m n _ hturn ih =>
    obtain ⟨k, hk⟩ := ih
    refine ⟨k + 1, ?_⟩
    rw [hk, readBody_eq_turn w limit fin m, hturn]
    show (k + (_ + 1), _) = _
    rw [Nat.add_assoc, Nat.add_comm 1]

/-- What is buffered is what the stream has given, in order, and it fits. -/
theorem Reaches.buffered (h : Reaches w limit fin l l') :
    ∃ before, l.chunks = before ++ l'.chunks ∧ l'.body = l.body ++ before.flatten ∧
      (Fits w limit l.body.length → Fits w limit l'.body.length) := by
  induction h with
  | refl => exact ⟨[], rfl, by simp, id⟩
  | @tail m n _ hturn ih =>
    obtain ⟨before, hchunks, hbody, -⟩ := ih
    obtain ⟨chunk, hm, hn, hfits⟩ := turn_inl hturn
    refine ⟨before ++ [chunk], ?_, ?_, fun _ => hfits⟩
    · rw [hchunks, hm, List.append_assoc, List.singleton_append]
    · rw [hn, hbody, List.flatten_append, List.flatten_singleton, List.append_assoc]

/-- As long as the stream fits the loop goes on. -/
theorem reaches_of_fits {rest : List Bytes} : ∀ {before : List Bytes} {body : Bytes},
    Fits w limit (body.length + before.flatten.length) →
      Reaches w limit fin ⟨body, before ++ rest⟩ ⟨body ++ before.flatten, rest⟩
  | [], body, _ => by
    rw [List.flatten_nil, List.append_nil]
    exact Relation.ReflTransGen.refl
  | chunk :: before, body, h => by
    rw [length_flatten_cons] at h
    have hchunk : Fits w limit (body.length + chunk.length) :=
      h.mono (by rw [List.length_append]; omega)
    have hrest : Reaches w limit fin ⟨body ++ chunk, before ++ rest⟩ _ := reaches_of_fits h
    rw [List.flatten_cons, ← List.append_assoc]
    exact Relation.ReflTransGen.head (turn_of_fits hchunk) hrest

end BodyLoop

/-! ## Prefix sums -/

/-- The length of the first `n` chunks together. -/
def prefixSum (chunks : List Bytes) (n : ℕ) : ℕ := ((chunks.take n).map List.length).sum

theorem prefixSum_eq (chunks : List Bytes) (n : ℕ) : prefixSum chunks n = (chunks.take n).flatten.length := by
  rw [prefixSum, List.length_flatten]

theorem prefixSum_append (before rest : List Bytes) :
    prefixSum (before ++ rest) before.length = before.flatten.length := by
  rw [prefixSum_eq, List.take_left]

theorem prefixSum_succ (before : List Bytes) (chunk : Bytes) (rest : List Bytes) :
    prefixSum (before ++ chunk :: rest) (before.length + 1) = before.flatten.length + chunk.length := by
  have h := prefixSum_append (before ++ [chunk]) rest
  rwa [List.append_assoc, List.singleton_append, List.length_append, List.length_singleton,
    List.flatten_append, List.flatten_singleton, List.length_append] at h

theorem prefixSum_mono (chunks : List Bytes) {m n : ℕ} (h : m ≤ n) : prefixSum chunks m ≤ prefixSum chunks n := by
  have htake : chunks.take m = (chunks.take n).take m := by rw [List.take_take, Nat.min_eq_left h]
  have hsplit := List.take_append_drop m (chunks.take n)
  rw [prefixSum_eq, prefixSum_eq, htake, ← hsplit, List.flatten_append, List.length_append, hsplit]
  exact Nat.le_add_right _ _

/-- A stream with a prefix over the limit has a first one. -/
theorem exists_first_over {chunks : List Bytes} (h : ∃ n, limit < prefixSum chunks n) :
    ∃ before chunk rest, chunks = before ++ chunk :: rest ∧ before.flatten.length ≤ limit ∧
      limit < before.flatten.length + chunk.length := by
  obtain ⟨n, hn, hsucc⟩ := Nat.exists_not_and_succ_of_not_zero_of_exists
    (p := fun n => limit < prefixSum chunks n) (Nat.not_lt_zero limit) h
  have hlt : n < chunks.length := by
    by_contra hge
    rw [prefixSum, List.take_of_length_le (by omega)] at hn hsucc
    exact hn hsucc
  have hsplit : chunks = chunks.take n ++ chunks[n] :: chunks.drop (n + 1) := by
    rw [← List.drop_eq_getElem_cons hlt, List.take_append_drop]
  have hlen : (chunks.take n).length = n := List.length_take_of_le (Nat.le_of_lt hlt)
  refine ⟨_, _, _, hsplit, ?_, ?_⟩
  · rw [← prefixSum_eq]
    exact Nat.le_of_not_lt hn
  · have h := prefixSum_succ (chunks.take n) chunks[n] (chunks.drop (n + 1))
    rw [← hsplit, hlen] at h
    rwa [← h]

/-! ## The loop against the prefix sums -/

section Loop

variable {fin : Option ReqwestError} {chunks : List Bytes}

/-- The addition of a turn is exact when the buffer and the chunk are objects in memory. -/
theorem turn_add_exact (hchunk : ∀ chunk ∈ chunks, chunk.length ≤ Usize.isizeMax w)
    {l : BodyLoop} (hl : BodyLoop.Reaches w limit fin ⟨[], chunks⟩ l) (hbody : l.body.length ≤ Usize.isizeMax w)
    {chunk : Bytes} {rest : List Bytes} (hnext : l.chunks = chunk :: rest) :
    l.body.length + chunk.length ≤ Usize.maxVal w := by
  obtain ⟨before, hchunks, -, -⟩ := hl.buffered
  have hmem : chunk ∈ chunks := by
    rw [show chunks = before ++ l.chunks from hchunks, hnext]
    simp
  exact Usize.add_le_maxVal_of_isizeMax hbody (hchunk chunk hmem)

/-- A stream none of whose prefixes is over the limit is read to its end. -/
theorem readBody_of_prefixSum_le (fin : Option ReqwestError) (h : limit = 0 ∨ ∀ n, prefixSum chunks n ≤ limit) :
    readBody w limit fin [] chunks = (chunks.length + 1, endOfStream fin chunks.flatten) := by
  have hfits : Fits w limit (([] : Bytes).length + chunks.flatten.length) := by
    refine fits_of_le (h.imp_right fun hsum => ?_)
    have htotal := hsum chunks.length
    rwa [prefixSum_eq, List.take_length, ← Nat.zero_add (List.length _)] at htotal
  exact readBody_of_fits fin hfits

/-- The first chunk that takes the stream over the limit ends the loop, with the exact sum if that is a
word. -/
theorem readBody_of_first_over {before : List Bytes} {chunk : Bytes} (h0 : limit ≠ 0)
    (hin : before.flatten.length ≤ limit) (hout : limit < before.flatten.length + chunk.length)
    (hmax : before.flatten.length + chunk.length ≤ Usize.maxVal w) (later : List Bytes)
    (fin : Option ReqwestError) :
    readBody w limit fin [] (before ++ chunk :: later) =
      (before.length + 1,
        .error (.payloadTooLarge "response_body" limit (before.flatten.length + chunk.length))) := by
  have hzero : ∀ n, ([] : Bytes).length + n = n := Nat.zero_add
  have hfits : Fits w limit (([] : Bytes).length + before.flatten.length) :=
    fits_of_le (Or.inr (by rwa [hzero]))
  have hover : ¬ Fits w limit (([] : Bytes).length + before.flatten.length + chunk.length) := by
    rw [hzero]
    intro hf
    exact absurd (le_of_fits hf hmax h0) (Nat.not_le.mpr hout)
  rw [readBody_of_over fin hfits hover, hzero, Nat.min_eq_left hmax]
  rfl

/-- **The body loop meets its specification**, for every limit and every stream of chunks that are objects in
memory, as is what the loop buffers.  It returns the whole stream, or ends at the first chunk whose prefix sum
is over the limit, with exactly that sum and without a look at what comes after it. -/
theorem readBody_prefix_sums (w limit : ℕ) (fin : Option ReqwestError) (chunks : List Bytes)
    (hchunk : ∀ chunk ∈ chunks, chunk.length ≤ Usize.isizeMax w)
    (hbuffer : ∀ l, BodyLoop.Reaches w limit fin ⟨[], chunks⟩ l → l.body.length ≤ Usize.isizeMax w) :
    ((limit = 0 ∨ ∀ n, prefixSum chunks n ≤ limit) →
      readBody w limit fin [] chunks = (chunks.length + 1,
        match fin with
        | none => .ok chunks.flatten
        | some e => .error (mapReqwestError e))) ∧
    (limit ≠ 0 → (∃ n, limit < prefixSum chunks n) →
      ∃ n < chunks.length, (∀ m ≤ n, prefixSum chunks m ≤ limit) ∧ limit < prefixSum chunks (n + 1) ∧
        readBody w limit fin [] chunks =
          (n + 1, .error (.payloadTooLarge "response_body" limit (prefixSum chunks (n + 1)))) ∧
        ∀ later fin', readBody w limit fin' [] (chunks.take (n + 1) ++ later) =
          readBody w limit fin [] chunks) ∧
    (∀ l chunk rest, BodyLoop.Reaches w limit fin ⟨[], chunks⟩ l → l.chunks = chunk :: rest →
      Usize.saturatingAdd w l.body.length chunk.length = l.body.length + chunk.length) ∧
    (∀ l, BodyLoop.Reaches w limit fin ⟨[], chunks⟩ l →
      (∃ k, readBody w limit fin [] chunks =
        (k + (readBody w limit fin l.body l.chunks).1, (readBody w limit fin l.body l.chunks).2)) ∧
      (limit ≠ 0 → l.body.length ≤ limit)) := by
  refine ⟨?_, ?_, ?_, ?_⟩
  · intro h
    rw [readBody_of_prefixSum_le fin h]
    cases fin <;> rfl
  · intro h0 hover
    obtain ⟨before, chunk, rest, rfl, hin, hout⟩ := exists_first_over hover
    -- the loop gets as far as the chunk, so that the sum is exact
    have hreach : BodyLoop.Reaches w limit fin ⟨[], before ++ chunk :: rest⟩ ⟨before.flatten, chunk :: rest⟩ :=
      BodyLoop.reaches_of_fits (fits_of_le (Or.inr (by rwa [List.length_nil, Nat.zero_add])))
    have hmax : before.flatten.length + chunk.length ≤ Usize.maxVal w :=
      turn_add_exact hchunk hreach (hbuffer _ hreach) rfl
    refine ⟨before.length, by simp, fun m hm => ?_, ?_, ?_, fun later fin' => ?_⟩
    · have hmono := prefixSum_mono (before ++ chunk :: rest) hm
      rw [prefixSum_append] at hmono
      omega
    · rwa [prefixSum_succ]
    · rw [prefixSum_succ, readBody_of_first_over h0 hin hout hmax]
    · have htake : (before ++ chunk :: rest).take (before.length + 1) = before ++ [chunk] := by
        rw [List.take_length_add_append]
        rfl
      rw [htake, List.append_assoc, List.singleton_append, readBody_of_first_over h0 hin hout hmax,
        readBody_of_first_over h0 hin hout hmax]
  · intro l chunk rest hl hnext
    exact Usize.saturatingAdd_of_le (turn_add_exact hchunk hl (hbuffer l hl) hnext)
  · intro l hl
    refine ⟨hl.readBody_eq, fun h0 => ?_⟩
    obtain ⟨-, -, -, hfits⟩ := hl.buffered
    have hle := hbuffer l hl
    refine le_of_fits (hfits (fits_zero w limit)) ?_ h0
    have hmax := Usize.add_le_maxVal_of_isizeMax hle (Nat.zero_le (Usize.isizeMax w))
    omega

/-- On an 8-bit machine, a stream whose third chunk takes the body over the limit: neither the fourth
nor the error at the end is seen. -/
theorem readBody_prefix_sums_sample :
    readBody 8 4 (some ⟨true, false, false, "timeout"⟩) [] [[1, 2], [], [3, 4, 5], [6]] =
      (3, .error (.payloadTooLarge "response_body" 4 5)) := by
  have h := readBody_prefix_sums 8 4 (some ⟨true, false, false, "timeout"⟩) [[1, 2], [], [3, 4, 5], [6]]
    (by decide) (fun l hl => by
      obtain ⟨before, hchunks, hbody, -⟩ := hl.buffered
      have hlen : (before ++ l.chunks).flatten.length = 6 := by rw [← hchunks]; rfl
      rw [List.flatten_append, List.length_append] at hlen
      rw [hbody, List.nil_append]
      show _ ≤ 127
      omega)
  obtain ⟨n, hn, hbefore, hover, hread, -⟩ := h.2.1 (by decide) ⟨4, by decide⟩
  have h3 : ¬ 3 ≤ n := fun h3 => absurd (hbefore 3 h3) (by decide)
  have h0 : n ≠ 0 := by
    rintro rfl
    exact absurd hover (by decide)
  have h1 : n ≠ 1 := by
    rintro rfl
    exact absurd hover (by decide)
  obtain rfl : n = 2 := by omega
  exact hread

end Loop

/-! ## The declared length against the loop -/

section DeclaredLength

variable {C M Q V : Type}

/-- The environment in which a request that is sent meets this response. -/
def Reqwest.answering (rq : Reqwest C M Q V) (response : Response V) : Reqwest C M Q V :=
  { rq with execute := fun _ _ => .ok response }

/-- The response declares the length of its stream. -/
def Response.declared (response : Response V) : Response V :=
  { response with contentLength := some response.chunks.flatten.length }

/-- The response declares no length. -/
def Response.undeclared (response : Response V) : Response V := { response with contentLength := none }

/-- Whether a request is sent does not depend on the response. -/
theorem execute_answering {rq : Reqwest C M Q V} {d : ReqwestHttpDriver w C} {request : HttpRequest}
    {response : Response V} {q : Q} (hsent : (execute (rq.answering response) d request).sent = some q)
    (other : Response V) :
    execute (rq.answering other) d request =
      ⟨some q, (receive w rq d.maxResponseBodyBytes other).1, (receive w rq d.maxResponseBodyBytes other).2⟩ := by
  unfold execute at hsent ⊢
  cases hbody : checkRequestBody d.maxRequestBodyBytes request with
  | error e => simp only [hbody] at hsent; cases hsent
  | ok u =>
    simp only [hbody, Reqwest.answering] at hsent ⊢
    cases hm : rq.fromBytes request.method with
    | error text => simp only [hm] at hsent; cases hsent
    | ok m =>
      simp only [hm] at hsent ⊢
      cases hb : rq.build d.client (prepare m request) with
      | error e => simp only [hb] at hsent; cases hsent
      | ok q' =>
        simp only [hb] at hsent ⊢
        rw [show q' = q from Option.some.inj hsent]
        rfl

/-- The two ways of a complete answer: the whole length fits, and both return the body, or it does not, and the
one that counts has seen no more than was declared, which the other refuses unread. -/
theorem Answer.declared_agrees {rq : Reqwest C M Q V} {response : Response V} {p p' : ℕ}
    {result result' : Except TransportError HttpResponse} (h : Answer w rq limit response.declared p result)
    (h' : Answer w rq limit response.undeclared p' result') (hs : response.status ≠ 429)
    (hfin : response.fin = none) :
    (result = .ok ⟨response.status, response.chunks.flatten⟩ ∧
      result' = .ok ⟨response.status, response.chunks.flatten⟩) ∨
    p = 0 ∧ result = .error (responseTooLarge limit (min response.chunks.flatten.length (Usize.maxVal w))) ∧
      ∃ got', result' = .error (responseTooLarge limit got') ∧
        got' ≤ min response.chunks.flatten.length (Usize.maxVal w) ∧ limit < got' := by
  cases h with
  | rateLimited h429 => exact absurd h429 hs
  | broken _ _ _ hbroken => exact absurd (hbroken.symm.trans hfin) nofun
  -- what has been declared fits, and the chunks are no longer
  | tooLarge _ hcl hchunks _ hover => exact absurd ((hcl _ rfl).mono (length_cut_le hchunks)) hover
  | complete _ _ hfits _ =>
    cases h' with
    | rateLimited h429 => exact absurd h429 hs
    | declaredTooLarge _ hcl => cases hcl
    | broken _ _ _ hbroken => exact absurd (hbroken.symm.trans hfin) nofun
    | tooLarge _ _ hchunks _ hover => exact absurd (Fits.mono hfits (length_cut_le hchunks)) hover
    | complete => exact Or.inl ⟨rfl, rfl⟩
  | declaredTooLarge _ hcl hover =>
    cases hcl
    cases h' with
    | rateLimited h429 => exact absurd h429 hs
    | declaredTooLarge _ hcl => cases hcl
    | broken _ _ _ hbroken => exact absurd (hbroken.symm.trans hfin) nofun
    | complete _ _ hfits _ => exact absurd hfits hover
    | tooLarge _ _ hchunks _ hover' =>
      -- the loop stops at a part of what was declared
      have hle : _ ≤ response.chunks.flatten.length := length_cut_le hchunks
      refine Or.inr ⟨rfl, rfl, _, rfl, ?_, (Fits.not_iff.mp hover').2⟩
      omega

/-- **The declared length decides as the loop does**, for every width of `usize`, every limit and every
response but a 429 whose stream ends without an error: the call that is told the exact length and the
call that is told none both return the response, or both report the response limit, the first before it
polls and with the length, as far as a `usize` can hold it, the second with a number that is no larger. -/
theorem declared_length_agrees (rq : Reqwest C M Q V) (d : ReqwestHttpDriver w C) (request : HttpRequest)
    (response : Response V) (q : Q) (hsent : (execute (rq.answering response) d request).sent = some q)
    (hs : response.status ≠ 429) (hfin : response.fin = none) :
    ((execute (rq.answering response.declared) d request).result =
        .ok ⟨response.status, response.chunks.flatten⟩ ∧
      (execute (rq.answering response.undeclared) d request).result =
        .ok ⟨response.status, response.chunks.flatten⟩) ∨
    (execute (rq.answering response.declared) d request).polls = 0 ∧
      (execute (rq.answering response.declared) d request).result =
        .error (.payloadTooLarge "response_body" d.maxResponseBodyBytes
          (min response.chunks.flatten.length (Usize.maxVal w))) ∧
      ∃ got', (execute (rq.answering response.undeclared) d request).result =
          .error (.payloadTooLarge "response_body" d.maxResponseBodyBytes got') ∧
        got' ≤ min response.chunks.flatten.length (Usize.maxVal w) ∧ d.maxResponseBodyBytes < got' := by
  rw [execute_answering hsent response.declared, execute_answering hsent response.undeclared]
  exact (receive_answer w rq _ response.declared).declared_agrees (receive_answer w rq _ response.undeclared)
    hs hfin

/-- With a limit of two bytes the declared length of six is refused unread, and the loop stops at three. -/
theorem declared_length_agrees_sample :
    (execute (sampleReqwest.answering ⟨200, [], some 6, [[1], [2, 3], [4, 5, 6]], none⟩)
        (⟨(), 2, 0, by decide, by decide⟩ : ReqwestHttpDriver 32 Unit) ⟨"GET", "http://h", [], none⟩).result =
      .error (.payloadTooLarge "response_body" 2 6) := by
  have h := declared_length_agrees sampleReqwest
    (⟨(), 2, 0, by decide, by decide⟩ : ReqwestHttpDriver 32 Unit) ⟨"GET", "http://h", [], none⟩
    ⟨200, [], none, [[1], [2, 3], [4, 5, 6]], none⟩ ⟨"GET", "http://h", [], none⟩ rfl (by decide) rfl
  obtain ⟨hok, -⟩ | ⟨-, hgot, -⟩ := h
  · cases hok
  · exact hgot

end DeclaredLength

end Transportx.Http
