import Transportx.Lib.Decimal
import Transportx.RetryAfter

/-!
# Transportx.RetryAfterGrammar — `Retry-After` against its grammar

The grammar has two forms, delay-seconds (a numeral) and HTTP-date, and the value may be surrounded by
whitespace.  `MeetsGrammar` says what a result has to be for every value.  `parseDigits` and `parseU64`
are brought to `Decimal`; they accept the numerals, and numerals behind a plus sign.
-/

namespace Transportx

open Decimal (IsNumeral AllDigits valueFrom)

/-! ## The reader of numbers -/

theorem toDigit_eq (c : Char) : toDigit c = if c.isDigit then some (Decimal.digit c) else none := by
  have h : ('0' ≤ c ∧ c ≤ '9') ↔ c.isDigit = true := by
    rw [Char.isDigit_iff_toNat, Char.le_def, Char.le_def]
    exact Iff.rfl
  unfold toDigit
  by_cases hd : c.isDigit = true
  · rw [if_pos hd, if_pos (h.mpr hd), Decimal.digit]
  · rw [if_neg hd, if_neg (mt h.mp hd)]

theorem tryFrom_eq (n : ℕ) : Usize.tryFrom 64 n = if n < 2 ^ 64 then some n else none := by
  unfold Usize.tryFrom
  simp only [← Usize.lt_iff_le_maxVal]

/-- The checked loop reads exactly the digits whose number is a `u64`. -/
theorem parseDigits_eq (s : List Char) : ∀ acc : ℕ, acc < 2 ^ 64 →
    parseDigits acc s = if AllDigits s ∧ valueFrom acc s < 2 ^ 64 then some (valueFrom acc s) else none := by
  induction s with
  | nil =>
    intro acc hacc
    rw [parseDigits, if_pos ⟨Decimal.allDigits_nil, hacc⟩, Decimal.valueFrom_nil]
  | cons c s ih =>
    intro acc hacc
    have hle := Decimal.le_valueFrom s (acc * 10 + Decimal.digit c)
    rw [parseDigits, toDigit_eq, Decimal.valueFrom_cons]
    simp only [Decimal.allDigits_cons]
    by_cases hd : c.isDigit = true
    · simp only [hd, if_true, true_and, tryFrom_eq]
      by_cases hnext : acc * 10 + Decimal.digit c < 2 ^ 64
      · have hmul : acc * 10 < 2 ^ 64 := by omega
        simp only [if_pos hmul, if_pos hnext]
        exact ih _ hnext
      · -- one of the two operations fails, and no later digit makes the number smaller
        have hover : ¬ (AllDigits s ∧ valueFrom (acc * 10 + Decimal.digit c) s < 2 ^ 64) := by
          intro h
          omega
        rw [if_neg hover]
        by_cases hmul : acc * 10 < 2 ^ 64
        · simp only [if_pos hmul, if_neg hnext]
        · simp only [if_neg hmul]
    · simp only [hd]
      rfl

theorem parseDigits_zero (s : List Char) :
    parseDigits 0 s =
      if AllDigits s ∧ Decimal.value s < 2 ^ 64 then some (Decimal.value s) else none := by
  rw [Decimal.value_eq]
  exact parseDigits_eq s 0 (Nat.two_pow_pos 64)

/-- One plus sign is read away. -/
theorem parseU64_plus {s : List Char} (h : s ≠ []) : parseU64 ('+' :: s) = parseDigits 0 s := by
  cases s with
  | nil => exact absurd rfl h
  | cons c s => rfl

theorem parseU64_other {s : List Char} (h : s ≠ []) (hplus : ∀ ds, s ≠ '+' :: ds) :
    parseU64 s = parseDigits 0 s := by
  unfold parseU64
  split
  · exact absurd rfl h
  · exact absurd rfl (hplus [])
  · decide
  · exact absurd rfl (hplus _)
  · rfl

/-- A plus sign before a numeral of a `u64`. -/
def SignedSeconds (s : List Char) : Prop := ∃ ds, s = '+' :: ds ∧ IsNumeral ds ∧ Decimal.value ds < 2 ^ 64

theorem parseU64_of_numeral {s : List Char} (h : IsNumeral s) :
    parseU64 s = if Decimal.value s < 2 ^ 64 then some (Decimal.value s) else none := by
  rw [parseU64_other h.1 (h.ne_cons (by decide)), parseDigits_zero]
  simp only [h.2, true_and]

theorem parseU64_of_signed {s : List Char} (h : SignedSeconds s) : ∃ n, parseU64 s = some n := by
  obtain ⟨ds, rfl, hds, hn⟩ := h
  exact ⟨Decimal.value ds, by rw [parseU64_plus hds.1, parseDigits_zero, if_pos ⟨hds.2, hn⟩]⟩

theorem parseU64_of_neither {s : List Char} (hnum : ¬ IsNumeral s) (hsigned : ¬ SignedSeconds s) :
    parseU64 s = none := by
  by_cases hs : s = []
  · rw [hs]; rfl
  by_cases hplus : ∃ ds, s = '+' :: ds
  · obtain ⟨ds, rfl⟩ := hplus
    -- a sign alone is no number, and what follows one is read as digits
    by_cases hds : ds = []
    · rw [hds]; rfl
    · rw [parseU64_plus hds, parseDigits_zero, if_neg]
      exact fun h => hsigned ⟨ds, rfl, ⟨hds, h.1⟩, h.2⟩
  · rw [parseU64_other hs fun ds h => hplus ⟨ds, h⟩, parseDigits_zero, if_neg]
    exact fun h => hnum ⟨hs, h.1⟩

/-! ## The grammar -/

/-- The names that an HTTP-date begins with. -/
def dayNames : List String := ["Mon", "Tue", "Wed", "Thu", "Fri", "Sat", "Sun"]

/-- What is relied on of `httpdate::parse_http_date`: it accepts exactly the HTTP-dates, and these begin
with the name of a day, in each of their three formats. -/
structure HttpDates (parseHttpDate : String → Option SystemTime) (IsHttpDate : String → SystemTime → Prop) :
    Prop where
  accepts : ∀ s d, parseHttpDate s = some d ↔ IsHttpDate s d
  dayName : ∀ s d, IsHttpDate s d → ∃ day ∈ dayNames, day.toList <+: s.toList

/-- What the result for `value` has to be: the seconds of a numeral, if they are a `u64`; the time until
an HTTP-date, zero for one that is not in the future; and nothing for any other text. -/
structure MeetsGrammar (IsHttpDate : String → SystemTime → Prop) (value : String) (now : SystemTime)
    (result : Option Duration) : Prop where
  seconds : IsNumeral (trim value.toList) → Decimal.value (trim value.toList) < 2 ^ 64 →
    result = some (Duration.fromSecs (Decimal.value (trim value.toList)))
  tooManySeconds : IsNumeral (trim value.toList) → 2 ^ 64 ≤ Decimal.value (trim value.toList) → result = none
  future : ∀ d, IsHttpDate (String.ofList (trim value.toList)) d → now < d → result = some (d - now).toNat
  past : ∀ d, IsHttpDate (String.ofList (trim value.toList)) d → d ≤ now → result = some 0
  other : ¬ IsNumeral (trim value.toList) → (∀ d, ¬ IsHttpDate (String.ofList (trim value.toList)) d) →
    result = none

section Grammar

variable {parseHttpDate : String → Option SystemTime} {IsHttpDate : String → SystemTime → Prop}

theorem HttpDates.not_numeral (h : HttpDates parseHttpDate IsHttpDate) {s : List Char} {d : SystemTime}
    (hd : IsHttpDate (String.ofList s) d) : ¬ IsNumeral s ∧ ¬ SignedSeconds s := by
  obtain ⟨day, hday, hprefix⟩ := h.dayName _ _ hd
  rw [String.toList_ofList] at hprefix
  have hhead : ∃ c rest, s = c :: rest ∧ ¬ c.isDigit ∧ c ≠ '+' := by
    -- a date begins with a letter
    obtain ⟨rest, rfl⟩ := hprefix
    simp only [dayNames, List.mem_cons, List.not_mem_nil, or_false] at hday
    rcases hday with rfl | rfl | rfl | rfl | rfl | rfl | rfl <;>
      exact ⟨_, _, rfl, by decide, by decide⟩
  obtain ⟨c, rest, rfl, hc, hplus⟩ := hhead
  refine ⟨fun hnum => hnum.ne_cons hc rest rfl, ?_⟩
  rintro ⟨ds, hds, -⟩
  exact hplus (List.cons.inj hds).1

theorem toNat_sub_eq_zero {d now : ℤ} (h : d ≤ now) : (d - now).toNat = 0 := by omega

theorem durationSince_or_zero (d now : SystemTime) :
    (match SystemTime.durationSince d now with
      | .ok left => left
      | .error _ => 0) = (d - now).toNat := by
  unfold SystemTime.durationSince
  by_cases h : now ≤ d
  · rw [if_pos h]
  · rw [if_neg h]
    exact (toNat_sub_eq_zero (Int.le_of_lt (Int.not_le.mp h))).symm

theorem parseRetryAfterAt_of_some {value : String} {n : ℕ} (h : parseU64 (trim value.toList) = some n)
    (now : SystemTime) : parseRetryAfterAt parseHttpDate value now = some (Duration.fromSecs n) := by
  simp only [parseRetryAfterAt, h]

theorem parseRetryAfterAt_of_none {value : String} (h : parseU64 (trim value.toList) = none)
    (now : SystemTime) :
    parseRetryAfterAt parseHttpDate value now =
      (parseHttpDate (String.ofList (trim value.toList))).map fun d => (d - now).toNat := by
  simp only [parseRetryAfterAt, h]
  congr 1
  funext d
  exact durationSince_or_zero d now

/-- What is neither a date nor a number gives nothing. -/
theorem HttpDates.eq_none (h : HttpDates parseHttpDate IsHttpDate) {s : String}
    (hs : ∀ d, ¬ IsHttpDate s d) : parseHttpDate s = none := by
  cases hd : parseHttpDate s with
  | none => rfl
  | some d => exact absurd ((h.accepts s d).mp hd) (hs d)

/-- **`parse_retry_after_at` meets the grammar exactly on the values that are no plus sign before the
seconds**, for every value and every `now`. -/
theorem parseRetryAfterAt_meetsGrammar_iff (parseHttpDate : String → Option SystemTime)
    (IsHttpDate : String → SystemTime → Prop) (h : HttpDates parseHttpDate IsHttpDate) (value : String)
    (now : SystemTime) :
    MeetsGrammar IsHttpDate value now (parseRetryAfterAt parseHttpDate value now) ↔
      ¬ SignedSeconds (trim value.toList) := by
  constructor
  · intro hmeets hsigned
    obtain ⟨n, hn⟩ := parseU64_of_signed hsigned
    have hnum : ¬ IsNumeral (trim value.toList) := by
      obtain ⟨ds, hds, -⟩ := hsigned
      exact fun hnum => hnum.ne_cons (by decide) ds hds
    have hnone := hmeets.other hnum fun d hd => (h.not_numeral hd).2 hsigned
    rw [parseRetryAfterAt_of_some hn] at hnone
    cases hnone
  · intro hsigned
    by_cases hnum : IsNumeral (trim value.toList)
    · have hdate : ∀ d, ¬ IsHttpDate (String.ofList (trim value.toList)) d :=
        fun d hd => (h.not_numeral hd).1 hnum
      have hread := parseU64_of_numeral hnum
      refine ⟨fun _ hlt => ?_, fun _ hge => ?_, fun d hd => absurd hd (hdate d),
        fun d hd => absurd hd (hdate d), fun hnot => absurd hnum hnot⟩
      · rw [if_pos hlt] at hread
        exact parseRetryAfterAt_of_some hread now
      · -- a numeral that is no `u64` is left to the reader of dates, which does not take it either
        rw [if_neg (by omega)] at hread
        rw [parseRetryAfterAt_of_none hread, h.eq_none hdate]
        rfl
    · have hread := parseU64_of_neither hnum hsigned
      have hresult : parseRetryAfterAt parseHttpDate value now = _ := parseRetryAfterAt_of_none hread now
      refine ⟨fun h' => absurd h' hnum, fun h' => absurd h' hnum, fun d hd _ => ?_, fun d hd hpast => ?_,
        fun _ hdate => ?_⟩
      · rw [hresult, (h.accepts _ d).mpr hd]
        rfl
      · rw [hresult, (h.accepts _ d).mpr hd]
        exact congrArg some (toNat_sub_eq_zero hpast)
      · rw [hresult, h.eq_none hdate]
        rfl

/-- A reader that knows one date. -/
def sampleParseHttpDate (s : String) : Option SystemTime :=
  if s = "Thu, 01 Jan 1970 00:00:00 GMT" then some 0 else none

def SampleHttpDate (s : String) (d : SystemTime) : Prop := s = "Thu, 01 Jan 1970 00:00:00 GMT" ∧ d = 0

theorem sampleParseHttpDate_httpDates : HttpDates sampleParseHttpDate SampleHttpDate where
  accepts s d := by
    unfold sampleParseHttpDate SampleHttpDate
    by_cases hs : s = "Thu, 01 Jan 1970 00:00:00 GMT"
    · simp [hs, eq_comm]
    · simp [hs]
  dayName := by
    rintro s d ⟨rfl, -⟩
    exact ⟨"Thu", by decide, by decide⟩

/-- Leading zeros are read away. -/
theorem parseRetryAfterAt_meetsGrammar_sample :
    MeetsGrammar SampleHttpDate " 007 " 0
      (parseRetryAfterAt sampleParseHttpDate " 007 " 0) :=
  (parseRetryAfterAt_meetsGrammar_iff sampleParseHttpDate SampleHttpDate sampleParseHttpDate_httpDates _ 0).mpr
    (by
      rintro ⟨ds, hds, -⟩
      exact Decimal.IsNumeral.ne_cons (by decide) (by decide) ds hds)

/-- `+5` is not in the grammar, and is read as five seconds. -/
theorem parseRetryAfterAt_accepts_plus :
    HttpDates sampleParseHttpDate SampleHttpDate ∧
      parseRetryAfterAt sampleParseHttpDate "+5" 0 = some (Duration.fromSecs 5) ∧
      ¬ MeetsGrammar SampleHttpDate "+5" 0 (parseRetryAfterAt sampleParseHttpDate "+5" 0) := by
  have hread : parseRetryAfterAt sampleParseHttpDate "+5" 0 = some (Duration.fromSecs 5) := by decide
  refine ⟨sampleParseHttpDate_httpDates, hread, fun hmeets => ?_⟩
  have hnone := hmeets.other (by decide) (by
    rintro d ⟨hs, -⟩
    revert hs
    decide)
  rw [hread] at hnone
  cases hnone

end Grammar

end Transportx
