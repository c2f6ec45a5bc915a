import UiScript.Text.Class

/-!
# Binary floating point

The values of the 64-bit binary format, as exact data: a finite value is a significand times a power of two. Rounding a
ratio of integers to the nearest value is done in integer arithmetic, so every result is a definite value that a proof
can compute with.
-/

namespace UiScript

/-- A value of the 64-bit binary format. The significand of a finite value is below `2 ^ 53`, and it is at least
`2 ^ 52` unless the exponent is `-1074`. -/
inductive Binary64 where
  | nan
  | infinity (negative : Bool)
  | finite (negative : Bool) (significand : Nat) (exponent : Int)
deriving DecidableEq, Repr, Inhabited

/-- A power of two. -/
def twoPow (n : Nat) : Nat := Nat.pow 2 n

/-- A power of ten. -/
def tenPow (n : Nat) : Nat := Nat.pow 10 n

namespace Binary64

/-! ## Rounding -/

/-- A quotient rounded to the nearest integer, a half to the even one. -/
def roundDiv (num den : Nat) : Nat :=
  let q := num / den
  let r := num % den
  if den < 2 * r ∨ (2 * r = den ∧ q % 2 = 1) then q + 1 else q

/-- The exponent of the greatest power of two that is at most `num / den`. -/
def log2Ratio (num den : Nat) : Int :=
  let k : Int := (num.log2 : Int) - (den.log2 : Int)
  let fits := if 0 ≤ k then den * twoPow k.toNat ≤ num else den ≤ num * twoPow (-k).toNat
  if fits then k else k - 1

/-- The value nearest to `num / den`, an exact half going to the even significand. -/
def ofRatio (negative : Bool) (num den : Nat) : Binary64 :=
  if num = 0 then finite negative 0 (-1074)
  else
    let e := max (log2Ratio num den - 52) (-1074)
    let m := if 0 ≤ e then roundDiv num (den * twoPow e.toNat) else roundDiv (num * twoPow (-e).toNat) den
    let (m, e) := if m = twoPow 53 then (twoPow 52, e + 1) else (m, e)
    if 971 < e then infinity negative else finite negative m e

/-- The value nearest to an integer. -/
def ofInt (n : Int) : Binary64 := ofRatio (decide (n < 0)) n.natAbs 1

/-! ## Parts and comparisons -/

/-- Neither infinite nor undefined. -/
def isFinite : Binary64 → Bool
  | finite .. => true
  | _ => false

/-- The value without its sign. -/
def abs : Binary64 → Binary64
  | nan => nan
  | infinity _ => infinity false
  | finite _ m e => finite false m e

/-- Whether the value is less than zero; a negative zero is not. -/
def isBelowZero : Binary64 → Bool
  | nan => false
  | infinity negative => negative
  | finite negative m _ => negative && m != 0

/-- The absolute value of an integer; nothing for other values. -/
def natAbs? : Binary64 → Option Nat
  | finite _ m e =>
    if 0 ≤ e then some (m * twoPow e.toNat)
    else if m % twoPow (-e).toNat = 0 then some (m / twoPow (-e).toNat) else none
  | _ => none

/-- Equality of values: both zeros are equal, and an undefined value equals nothing. -/
def same : Binary64 → Binary64 → Bool
  | finite s m e, finite s' m' e' => (m == 0 && m' == 0) || (s == s' && m == m' && e == e')
  | infinity s, infinity s' => s == s'
  | _, _ => false

/-! ## Bits -/

/-- The 64 bits of a value as a number. -/
def bits : Binary64 → Nat
  | nan => 0x7ff8000000000000
  | infinity negative => (if negative then twoPow 63 else 0) + 0x7ff0000000000000
  | finite negative m e =>
    (if negative then twoPow 63 else 0) +
      (if m < twoPow 52 then m else (e + 1075).toNat * twoPow 52 + (m - twoPow 52))

/-- The bits in sixteen hexadecimal digits. -/
def hex (x : Binary64) : String := String.ofList (Text.hexDigits 16 x.bits)

end Binary64

end UiScript
