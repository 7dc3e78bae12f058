import Transportx.Http.Boundary

/-!
# Transportx.Http.Body — the response body loop of `ReqwestHttpDriver::execute`

`readBody` polls the chunk stream until it ends, fails, or a chunk would take the body over the limit.
Whether a number of bytes fits is one predicate, `Fits`; as the number only grows from chunk to chunk,
a stream either fits as a whole (`readBody_of_fits`) or has a first chunk that does not
(`readBody_of_over`), and that chunk ends the loop.
-/

namespace Transportx.Http

variable {w limit : ℕ}

/-! ## The loop -/

def responseTooLarge (limit got : ℕ) : TransportError := .payloadTooLarge "response_body" limit got

/-- The body of the loop: the limit is compared before the chunk is buffered. -/
def acceptChunk (w limit : ℕ) (body chunk : Bytes) : Except TransportError Bytes :=
  let got := Usize.saturatingAdd w body.length chunk.length
  if limit > 0 ∧ got > limit then .error (responseTooLarge limit got) else .ok (body ++ chunk)

def endOfStream (fin : Option ReqwestError) (body : Bytes) : Except TransportError Bytes :=
  match fin with
  | none => .ok body
  | some e => .error (mapReqwestError e)

/-- `while let Some(chunk) = response.chunk()`, with the number of polls. -/
def readBody (w limit : ℕ) (fin : Option ReqwestError) : Bytes → List Bytes → ℕ × Except TransportError Bytes
  | body, [] => (1, endOfStream fin body)
  | body, chunk :: rest =>
    match acceptChunk w limit body chunk with
    | .error e => (1, .error e)
    | .ok body =>
      let (polls, result) := readBody w limit fin body rest
      (polls + 1, result)

/-! ## What fits -/

/-- A body of `n` bytes passes the limit; `0` is no limit, and no counted length exceeds a `usize`. -/
def Fits (w limit n : ℕ) : Prop := limit = 0 ∨ min n (Usize.maxVal w) ≤ limit

instance (w limit n : ℕ) : Decidable (Fits w limit n) := inferInstanceAs (Decidable (_ ∨ _))

theorem Fits.mono {m n : ℕ} (h : Fits w limit n) (hmn : m ≤ n) : Fits w limit m := by
  unfold Fits at *
  omega

theorem fits_of_le {n : ℕ} (h : limit = 0 ∨ n ≤ limit) : Fits w limit n := by
  unfold Fits
  omega

theorem le_of_fits {n : ℕ} (h : Fits w limit n) (hn : n ≤ Usize.maxVal w) (h0 : limit ≠ 0) : n ≤ limit := by
  unfold Fits at h
  omega

/-- What does not fit is what the code compares with the limit and refuses. -/
theorem Fits.not_iff {n : ℕ} : ¬ Fits w limit n ↔ limit > 0 ∧ min n (Usize.maxVal w) > limit := by
  unfold Fits
  omega

theorem length_flatten_cons (body c : Bytes) (cs : List Bytes) :
    body.length + (c :: cs).flatten.length = (body ++ c).length + cs.flatten.length := by
  rw [List.flatten_cons, List.length_append, List.length_append, Nat.add_assoc]

/-- What was received up to a chunk is no longer than the whole body. -/
theorem length_cut_le {chunks before rest : List Bytes} {chunk : Bytes} (h : chunks = before ++ chunk :: rest) :
    before.flatten.length + chunk.length ≤ chunks.flatten.length := by
  rw [h, List.flatten_append, List.flatten_cons, List.length_append, List.length_append]
  omega

/-- Below the largest `usize` the limit is compared with the number itself. -/
theorem fits_iff {n : ℕ} (h : limit ≠ 0) (hlimit : limit < Usize.maxVal w) : Fits w limit n ↔ n ≤ limit := by
  unfold Fits
  omega

theorem acceptChunk_of_fits {body chunk : Bytes} (h : Fits w limit (body.length + chunk.length)) :
    acceptChunk w limit body chunk = .ok (body ++ chunk) := by
  have hnot : ¬ (limit > 0 ∧ Usize.saturatingAdd w body.length chunk.length > limit) :=
    fun hover => Fits.not_iff.mpr hover h
  simp only [acceptChunk, if_neg hnot]

theorem acceptChunk_of_over {body chunk : Bytes} (h : ¬ Fits w limit (body.length + chunk.length)) :
    acceptChunk w limit body chunk =
      .error (responseTooLarge limit (min (body.length + chunk.length) (Usize.maxVal w))) := by
  have hover : limit > 0 ∧ Usize.saturatingAdd w body.length chunk.length > limit := Fits.not_iff.mp h
  simp only [acceptChunk, if_pos hover]
  rfl

/-- A stream that fits is read to its end. -/
theorem readBody_of_fits (fin : Option ReqwestError) : ∀ {chunks : List Bytes} {body : Bytes},
    Fits w limit (body.length + chunks.flatten.length) →
      readBody w limit fin body chunks = (chunks.length + 1, endOfStream fin (body ++ chunks.flatten))
  | [], body, _ => by simp [readBody]
  | chunk :: rest, body, h => by
    rw [length_flatten_cons] at h
    have hchunk : acceptChunk w limit body chunk = .ok (body ++ chunk) :=
      acceptChunk_of_fits (h.mono (by rw [List.length_append]; omega))
    have hrest := readBody_of_fits fin h
    simp only [readBody, hchunk, hrest, List.append_assoc, List.flatten_cons, List.length_cons]

/-- The first chunk that does not fit ends the loop; what comes after it is not polled. -/
theorem readBody_of_over (fin : Option ReqwestError) {chunk : Bytes} {rest : List Bytes} :
    ∀ {before : List Bytes} {body : Bytes}, Fits w limit (body.length + before.flatten.length) →
      ¬ Fits w limit (body.length + before.flatten.length + chunk.length) →
      readBody w limit fin body (before ++ chunk :: rest) =
        (before.length + 1, .error (responseTooLarge limit
          (min (body.length + before.flatten.length + chunk.length) (Usize.maxVal w))))
  | [], body, _, hover => by
    have hbody : body.length + (List.flatten ([] : List Bytes)).length = body.length := by simp
    rw [hbody] at hover ⊢
    simp only [List.nil_append, readBody, acceptChunk_of_over hover, List.length_nil]
  | c :: before, body, h, hover => by
    rw [length_flatten_cons] at h hover ⊢
    have hc : acceptChunk w limit body c = .ok (body ++ c) :=
      acceptChunk_of_fits (h.mono (by rw [List.length_append]; omega))
    have hrest : readBody w limit fin (body ++ c) (before ++ chunk :: rest) = _ :=
      readBody_of_over fin h hover
    simp only [List.cons_append, readBody, hc, hrest, List.length_cons]

/-- A stream fits as a whole or has a first chunk that does not. -/
theorem fits_or_over : ∀ (chunks : List Bytes) (n : ℕ), Fits w limit n →
    Fits w limit (n + chunks.flatten.length) ∨
      ∃ before chunk rest, chunks = before ++ chunk :: rest ∧ Fits w limit (n + before.flatten.length) ∧
        ¬ Fits w limit (n + before.flatten.length + chunk.length)
  | [], n, h => Or.inl (by simpa using h)
  | c :: cs, n, h => by
    by_cases hc : Fits w limit (n + c.length)
    · rcases fits_or_over cs (n + c.length) hc with hall | ⟨before, chunk, rest, rfl, hin, hover⟩
      · exact Or.inl (by rwa [List.flatten_cons, List.length_append, ← Nat.add_assoc])
      · refine Or.inr ⟨c :: before, chunk, rest, rfl, ?_, ?_⟩
        · rwa [List.flatten_cons, List.length_append, ← Nat.add_assoc]
        · rwa [List.flatten_cons, List.length_append, ← Nat.add_assoc n]
    · exact Or.inr ⟨[], c, cs, rfl, by simpa using h, by simpa using hc⟩

end Transportx.Http
