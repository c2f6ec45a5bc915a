import UiScript.Text.Alphabetic
import UiScript.Text.Numeric

/-!
# Classes of characters

The character classes that the script language speaks of: blanks, letters, digits and controls. All are those of
Unicode; below U+0080 they are given by comparisons, so that closed questions about ASCII text are decided without the
tables.
-/

namespace UiScript.Text

/-- Whether a code point lies in one of the inclusive ranges. -/
def inRanges (ranges : List (Nat × Nat)) (n : Nat) : Bool :=
  ranges.any fun r => decide (r.1 ≤ n) && decide (n ≤ r.2)

/-- White space: the property `White_Space`. -/
def isBlank (c : Char) : Bool :=
  let n := c.toNat
  if n < 0x80 then n == 0x20 || (decide (0x09 ≤ n) && decide (n ≤ 0x0d))
  else n == 0x85 || n == 0xa0 || n == 0x1680 || (decide (0x2000 ≤ n) && decide (n ≤ 0x200a)) ||
    n == 0x2028 || n == 0x2029 || n == 0x202f || n == 0x205f || n == 0x3000

/-- The ten ASCII digits. -/
def isDigit (c : Char) : Bool := decide (0x30 ≤ c.toNat) && decide (c.toNat ≤ 0x39)

/-- Letters: the property `Alphabetic`. -/
def isLetter (c : Char) : Bool :=
  let n := c.toNat
  if n < 0x80 then (decide (0x41 ≤ n) && decide (n ≤ 0x5a)) || (decide (0x61 ≤ n) && decide (n ≤ 0x7a))
  else inRanges alphabeticRanges n

/-- Letters, and characters of a numeric general category. -/
def isAlphanumeric (c : Char) : Bool :=
  isLetter c || if c.toNat < 0x80 then isDigit c else inRanges numericRanges c.toNat

/-- Control characters: the general category `Cc`. -/
def isControl (c : Char) : Bool :=
  decide (c.toNat < 0x20) || (decide (0x7f ≤ c.toNat) && decide (c.toNat ≤ 0x9f))

/-- The value of a hexadecimal digit of either case. -/
def hexValue? (c : Char) : Option Nat :=
  let n := c.toNat
  if 0x30 ≤ n ∧ n ≤ 0x39 then some (n - 0x30)
  else if 0x61 ≤ n ∧ n ≤ 0x66 then some (n - 0x61 + 10)
  else if 0x41 ≤ n ∧ n ≤ 0x46 then some (n - 0x41 + 10)
  else none

/-- The lower-case hexadecimal digit of a value below sixteen. -/
def hexDigit (n : Nat) : Char := if n < 10 then Char.ofNat (0x30 + n) else Char.ofNat (0x61 + (n - 10))

/-- A value in lower-case hexadecimal digits, padded with zeros to exactly `width` digits. -/
def hexDigits : Nat → Nat → List Char
  | 0, _ => []
  | width + 1, n => hexDigits width (n / 16) ++ [hexDigit (n % 16)]

/-- A text without the blanks at its two ends. -/
def trim (cs : List Char) : List Char :=
  ((cs.dropWhile isBlank).reverse.dropWhile isBlank).reverse

end UiScript.Text
