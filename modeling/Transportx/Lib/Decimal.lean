import Mathlib.Data.Nat.Digits.Defs

/-!
# Transportx.Lib.Decimal — decimal numerals

General support.  A numeral is a nonempty list of ASCII digits, most significant first, with any number
of leading zeros; `value` is the number it denotes.  `valueFrom` is the value as a reader with an
accumulator computes it.
-/

namespace Decimal

variable {acc : ℕ} {c : Char} {s : List Char}

/-- The number that a digit stands for. -/
def digit (c : Char) : ℕ := c.toNat - '0'.toNat

def AllDigits (s : List Char) : Prop := ∀ c ∈ s, c.isDigit

instance (s : List Char) : Decidable (AllDigits s) := List.decidableBAll (fun c : Char => c.isDigit = true) s

def IsNumeral (s : List Char) : Prop := s ≠ [] ∧ AllDigits s

instance (s : List Char) : Decidable (IsNumeral s) := inferInstanceAs (Decidable (_ ∧ _))

/-- The number that a numeral denotes. -/
def value (s : List Char) : ℕ := Nat.ofDigits 10 (s.map digit).reverse

/-- The number read so far, after the digits of `s`. -/
def valueFrom (acc : ℕ) (s : List Char) : ℕ := s.foldl (fun n c => n * 10 + digit c) acc

@[simp] theorem valueFrom_nil : valueFrom acc [] = acc := rfl

@[simp] theorem valueFrom_cons : valueFrom acc (c :: s) = valueFrom (acc * 10 + digit c) s := by
  unfold valueFrom
  rw [List.foldl_cons]

theorem value_eq (s : List Char) : value s = valueFrom 0 s := by
  rw [value, Nat.ofDigits_eq_foldr, List.foldr_reverse, List.foldl_map, valueFrom]
  congr 1
  funext n c
  show digit c + 10 * n = n * 10 + digit c
  omega

/-- Reading on never makes the number smaller. -/
theorem le_valueFrom (s : List Char) : ∀ acc : ℕ, acc ≤ valueFrom acc s := by
  induction s with
  | nil => exact fun acc => Nat.le_refl acc
  | cons c s ih =>
    intro acc
    have h := ih (acc * 10 + digit c)
    rw [valueFrom_cons]
    omega

@[simp] theorem allDigits_nil : AllDigits [] := by simp [AllDigits]

@[simp] theorem allDigits_cons : AllDigits (c :: s) ↔ c.isDigit ∧ AllDigits s := by simp [AllDigits]

/-- A numeral begins with a digit. -/
theorem IsNumeral.ne_cons (h : IsNumeral s) (hc : ¬ c.isDigit) (t : List Char) : s ≠ c :: t := by
  rintro rfl
  exact hc (h.2 c (by simp))

end Decimal
