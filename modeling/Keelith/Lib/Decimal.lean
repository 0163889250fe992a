import Keelith.Lib.Text

/-!
# Decimal numbers of a fixed width

* `decimal width n`: `%0*d`, the decimal digits of a number with leading zeros, for a number that
  has at most `width` digits.
* `parseDecimal`: the value of a text of decimal digits, as `strconv.ParseUint` with base 10
  computes it before its range check.
-/

namespace Keelith

/-- The last `width` decimal digits of `n`. -/
def decimal : Nat → Nat → List Char
  | 0, _ => []
  | width + 1, n => decimal width (n / 10) ++ [Nat.digitChar (n % 10)]

/-- The value of a decimal digit. -/
def digitValue (c : Char) : Option Nat :=
  if '0' ≤ c && c ≤ '9' then some (c.toNat - '0'.toNat) else none

/-- The digits after a text of value `value`. -/
def parseDigits : Nat → List Char → Option Nat
  | value, [] => some value
  | value, c :: rest =>
    match digitValue c with
    | none => none
    | some d => parseDigits (10 * value + d) rest

/-- The value of a nonempty text of decimal digits. -/
def parseDecimal (text : List Char) : Option Nat :=
  if text.isEmpty then none else parseDigits 0 text

end Keelith
