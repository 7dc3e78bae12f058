import Transportx.Error
import Transportx.Lib.Usize

/-!
# Transportx.RetryAfter — `parse_retry_after_at`

The value of a `Retry-After` header is a number of seconds, or an HTTP-date.  The first is whatever
`str::parse::<u64>` accepts on the trimmed value; the second is left to `httpdate::parse_http_date`,
which is a parameter here.
-/

namespace Transportx

/-! ## Text -/

/-- `char::is_whitespace`: the Unicode property `White_Space`. -/
def isWhitespace (c : Char) : Bool :=
  let n := c.toNat
  (0x9 ≤ n && n ≤ 0xD) || n == 0x20 || n == 0x85 || n == 0xA0 || n == 0x1680 ||
    (0x2000 ≤ n && n ≤ 0x200A) || n == 0x2028 || n == 0x2029 || n == 0x202F || n == 0x205F || n == 0x3000

def trim (s : List Char) : List Char :=
  ((s.dropWhile isWhitespace).reverse.dropWhile isWhitespace).reverse

def toDigit (c : Char) : Option ℕ :=
  if '0' ≤ c ∧ c ≤ '9' then some (c.toNat - '0'.toNat) else none

/-- The digit loop of `u64::from_str`: every multiplication and addition is checked. -/
def parseDigits : ℕ → List Char → Option ℕ
  | acc, [] => some acc
  | acc, c :: cs =>
    match toDigit c, Usize.tryFrom 64 (acc * 10) with
    | some d, some mul =>
      match Usize.tryFrom 64 (mul + d) with
      | some acc => parseDigits acc cs
      | none => none
    | _, _ => none

/-- `str::parse::<u64>`: one sign `+` may stand before the digits, and there is at least one digit. -/
def parseU64 : List Char → Option ℕ
  | [] => none
  | ['+'] => none
  | ['-'] => none
  | '+' :: cs => parseDigits 0 cs
  | cs => parseDigits 0 cs

/-! ## Time -/

/-- `std::time::SystemTime`, in nanoseconds from the epoch. -/
abbrev SystemTime := ℤ

/-- `SystemTime::duration_since`; the error carries the distance the other way. -/
def SystemTime.durationSince (t earlier : SystemTime) : Except Duration Duration :=
  if earlier ≤ t then .ok (t - earlier).toNat else .error (earlier - t).toNat

/-- `parse_retry_after_at`. -/
def parseRetryAfterAt (parseHttpDate : String → Option SystemTime) (value : String) (now : SystemTime) :
    Option Duration :=
  let value := trim value.toList
  match parseU64 value with
  | some seconds => some (Duration.fromSecs seconds)
  | none =>
    (parseHttpDate (String.ofList value)).map fun deadline =>
      match SystemTime.durationSince deadline now with
      | .ok d => d
      | .error _ => 0

end Transportx
