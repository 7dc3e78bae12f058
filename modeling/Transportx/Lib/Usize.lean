import Mathlib.Algebra.Group.Nat.Defs
import Mathlib.Data.Nat.Basic

/-!
# Transportx.Lib.Usize — `w`-bit unsigned machine arithmetic on `ℕ`

General support.  A machine word of `w` bits is a natural number below `2 ^ w`; the operations are
the wrapping, saturating and checked ones of the processor, for every width.
-/

namespace Usize

variable {w a b : ℕ}

/-- The largest word. -/
def maxVal (w : ℕ) : ℕ := 2 ^ w - 1

/-- The largest signed word, which bounds the size of an object in memory. -/
def isizeMax (w : ℕ) : ℕ := 2 ^ (w - 1) - 1

/-- `a + b`, wrapping around. -/
def wrappingAdd (w a b : ℕ) : ℕ := (a + b) % 2 ^ w

/-- `a - b`, wrapping around. -/
def wrappingSub (w a b : ℕ) : ℕ := (a + 2 ^ w - b) % 2 ^ w

/-- `a + b`, at most the largest word. -/
def saturatingAdd (w a b : ℕ) : ℕ := min (a + b) (maxVal w)

/-- The conversion of a wider unsigned number, when it fits. -/
def tryFrom (w n : ℕ) : Option ℕ := if n ≤ maxVal w then some n else none

theorem lt_iff_le_maxVal {n : ℕ} : n < 2 ^ w ↔ n ≤ maxVal w := by
  have := Nat.two_pow_pos w
  unfold maxVal
  omega

theorem wrappingAdd_of_lt (h : a + b < 2 ^ w) : wrappingAdd w a b = a + b := Nat.mod_eq_of_lt h

theorem wrappingSub_of_le (hb : b ≤ a) (ha : a < 2 ^ w) : wrappingSub w a b = a - b := by
  have h : a + 2 ^ w - b = (a - b) + 2 ^ w := by omega
  rw [wrappingSub, h, Nat.add_mod_right, Nat.mod_eq_of_lt (by omega)]

/-- Below a word the successor does not wrap. -/
theorem wrappingAdd_one (h : a < b) (hb : b < 2 ^ w) : wrappingAdd w a 1 = a + 1 :=
  wrappingAdd_of_lt (by omega)

/-- The sizes of two objects in memory do not overflow a word. -/
theorem add_le_maxVal_of_isizeMax (ha : a ≤ isizeMax w) (hb : b ≤ isizeMax w) : a + b ≤ maxVal w := by
  unfold isizeMax at ha hb
  unfold maxVal
  cases w with
  | zero => omega
  | succ w =>
    have hpow : 2 ^ (w + 1) = 2 ^ w + 2 ^ w := by rw [Nat.pow_succ]; omega
    have hpos := Nat.two_pow_pos w
    rw [Nat.add_sub_cancel] at ha hb
    omega

theorem saturatingAdd_of_le (h : a + b ≤ maxVal w) : saturatingAdd w a b = a + b := Nat.min_eq_left h

theorem wrappingSub_one (h : 0 < a) (ha : a < 2 ^ w) : wrappingSub w a 1 = a - 1 :=
  wrappingSub_of_le h ha

end Usize
