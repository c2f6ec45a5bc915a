import UiScript.Binary64

/-!
# Decimal text

Reading a decimal text gives the nearest value. A decimal is kept as its digits and a power of ten until it is rounded,
once and exactly.
-/

namespace UiScript

open Text

/-- The number `digits * 10 ^ exponent` with a sign. -/
structure Decimal where
  negative : Bool
  digits : Nat
  exponent : Int
deriving DecidableEq, Repr, Inhabited

/-- The number that decimal digits write. -/
def natOfDigits (cs : List Char) : Nat := cs.foldl (fun n c => 10 * n + (c.toNat - 48)) 0

/-- The decimal digits of a number. -/
def decimalDigits (n : Nat) : List Char := Nat.toDigits 10 n

/-- The nearest binary value. Beyond either end of the binary range the power of ten is not computed. -/
def Decimal.toBinary64 (d : Decimal) : Binary64 :=
  let magnitude : Int := (decimalDigits d.digits).length + d.exponent
  if d.digits = 0 ∨ magnitude < -330 then .finite d.negative 0 (-1074)
  else if 310 < magnitude then .infinity d.negative
  else if 0 ≤ d.exponent then .ofRatio d.negative (d.digits * tenPow d.exponent.toNat) 1
  else .ofRatio d.negative d.digits (tenPow (-d.exponent).toNat)

/-! ## Reading -/

/-- An exponent after its mark: an optional sign and digits, up to the end of the text. -/
def readExponent? (cs : List Char) : Option Int :=
  let (negative, digits) : Bool × List Char :=
    match cs with
    | '-' :: r => (true, r)
    | '+' :: r => (false, r)
    | r => (false, r)
  if digits.isEmpty || !digits.all isDigit then none
  else some (if negative then -(natOfDigits digits : Int) else natOfDigits digits)

/-- A number without a sign: digits, at most one point with a digit on one of its sides, and an exponent. -/
def readUnsigned? (negative : Bool) (cs : List Char) : Option Decimal :=
  let whole := cs.takeWhile isDigit
  let afterWhole := cs.dropWhile isDigit
  let (fraction, rest) : List Char × List Char :=
    match afterWhole with
    | '.' :: r => (r.takeWhile isDigit, r.dropWhile isDigit)
    | r => ([], r)
  let exponent? : Option Int :=
    match rest with
    | [] => some 0
    | c :: r => if c = 'e' ∨ c = 'E' then readExponent? r else none
  if whole.isEmpty && fraction.isEmpty then none
  else exponent?.map fun e => ⟨negative, natOfDigits (whole ++ fraction), e - fraction.length⟩

/-- An ASCII letter in lower case. -/
def lowerAscii (c : Char) : Char := if 0x41 ≤ c.toNat ∧ c.toNat ≤ 0x5a then Char.ofNat (c.toNat + 32) else c

/-- A value in decimal text: an optional sign, then a number or the name of a special value in letters of any case. -/
def Binary64.ofText? (text : String) : Option Binary64 :=
  let (negative, cs) : Bool × List Char :=
    match text.toList with
    | '-' :: r => (true, r)
    | '+' :: r => (false, r)
    | r => (false, r)
  let name := cs.map lowerAscii
  if name = "inf".toList ∨ name = "infinity".toList then some (.infinity negative)
  else if name = "nan".toList then some .nan
  else (readUnsigned? negative cs).map Decimal.toBinary64

end UiScript
