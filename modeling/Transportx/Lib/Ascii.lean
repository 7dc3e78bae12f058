import Mathlib.Data.List.Basic

/-!
# Transportx.Lib.Ascii — substrings and the letter case of ASCII

General support.  Text is a list of characters.  `contains_lower` reads a substring test on
lower-cased text back to the text itself: a piece of it that differs from the word in letter case only.
`upper_eq_iff` says that it does not matter to which case two texts are brought to be compared.
-/

namespace Ascii

/-- `char::to_ascii_lowercase`. -/
def toLower (c : Char) : Char := if 'A' ≤ c ∧ c ≤ 'Z' then Char.ofNat (c.toNat + 32) else c

/-- `str::to_ascii_lowercase`. -/
def lower (s : List Char) : List Char := s.map toLower

/-- `char::to_ascii_uppercase`. -/
def toUpper (c : Char) : Char := if 'a' ≤ c ∧ c ≤ 'z' then Char.ofNat (c.toNat - 32) else c

/-- `str::to_ascii_uppercase`. -/
def upper (s : List Char) : List Char := s.map toUpper

/-- `str::eq_ignore_ascii_case`. -/
def EqIgnoreCase (s t : List Char) : Prop := lower s = lower t

instance (s t : List Char) : Decidable (EqIgnoreCase s t) := inferInstanceAs (Decidable (_ = _))

/-- `str::contains`: the needle begins at some position. -/
def contains (needle : List Char) : List Char → Bool
  | [] => needle.isPrefixOf []
  | c :: cs => needle.isPrefixOf (c :: cs) || contains needle cs

theorem contains_iff {needle : List Char} : ∀ {s : List Char}, contains needle s = true ↔ needle <:+: s
  | [] => by simp [contains]
  | c :: cs => by
    rw [contains, Bool.or_eq_true, List.isPrefixOf_iff_prefix, contains_iff, List.infix_cons_iff]

/-- A lower-cased text contains a word exactly when the text has a piece that is the word up to case. -/
theorem contains_lower {word s : List Char} (hw : lower word = word) :
    contains word (lower s) = true ↔
      ∃ before piece after, s = before ++ piece ++ after ∧ EqIgnoreCase piece word := by
  rw [contains_iff]
  constructor
  · rintro ⟨before, after, h⟩
    obtain ⟨l, after', rfl, hl, rfl⟩ := List.map_eq_append_iff.mp h.symm
    obtain ⟨before', piece, rfl, rfl, hpiece⟩ := List.map_eq_append_iff.mp hl
    exact ⟨before', piece, after', rfl, hpiece.trans hw.symm⟩
  · rintro ⟨before, piece, after, rfl, hpiece⟩
    refine ⟨lower before, lower after, ?_⟩
    rw [← hw, ← hpiece]
    simp [lower]

/-! ## Upper and lower case -/

theorem toNat_ofNat {n : ℕ} (h : n < 0xd800) : (Char.ofNat n).toNat = n := by
  have hv : n.isValidChar := Or.inl h
  unfold Char.ofNat
  rw [dif_pos hv]
  rfl

theorem toNat_toLower (c : Char) :
    (toLower c).toNat = if 65 ≤ c.toNat ∧ c.toNat ≤ 90 then c.toNat + 32 else c.toNat := by
  show (if 65 ≤ c.toNat ∧ c.toNat ≤ 90 then Char.ofNat (c.toNat + 32) else c).toNat = _
  split
  · exact toNat_ofNat (by omega)
  · rfl

theorem toNat_toUpper (c : Char) :
    (toUpper c).toNat = if 97 ≤ c.toNat ∧ c.toNat ≤ 122 then c.toNat - 32 else c.toNat := by
  show (if 97 ≤ c.toNat ∧ c.toNat ≤ 122 then Char.ofNat (c.toNat - 32) else c).toNat = _
  split
  · exact toNat_ofNat (by omega)
  · rfl

/-- Both letter cases identify the same characters. -/
theorem toUpper_eq_iff (c d : Char) : toUpper c = toUpper d ↔ toLower c = toLower d := by
  rw [← Char.toNat_inj, ← Char.toNat_inj, toNat_toUpper, toNat_toUpper, toNat_toLower, toNat_toLower]
  split <;> split <;> split <;> split <;> omega

theorem upper_eq_iff : ∀ s t : List Char, upper s = upper t ↔ EqIgnoreCase s t
  | [], [] => Iff.rfl
  | [], _ :: _ => ⟨nofun, nofun⟩
  | _ :: _, [] => ⟨nofun, nofun⟩
  | c :: s, d :: t => by
    have ih := upper_eq_iff s t
    unfold upper EqIgnoreCase lower at ih ⊢
    rw [List.map_cons, List.map_cons, List.map_cons, List.map_cons, List.cons.injEq, List.cons.injEq, ih,
      toUpper_eq_iff]

end Ascii
