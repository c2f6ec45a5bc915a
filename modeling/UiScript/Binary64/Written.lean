import UiScript.Binary64.Shortest

/-!
# Written numbers

Two ways to write a value with its shortest digits. The plain notation never uses an exponent and has no point in an
integer; the other one always shows that the number is not an integer type, and uses an exponent where many zeros would
be needed.
-/

namespace UiScript.Binary64

/-- `k * 10 ^ p` without an exponent: the digits before the point and those after it. -/
def positional (k : Nat) (p : Int) : List Char × List Char :=
  let digits := decimalDigits k
  if 0 ≤ p then (digits ++ List.replicate p.toNat '0', [])
  else
    let places := (-p).toNat
    if places < digits.length then (digits.take (digits.length - places), digits.drop (digits.length - places))
    else (['0'], List.replicate (places - digits.length) '0' ++ digits)

/-- A minus sign, if there is one. -/
def signText (negative : Bool) : String := if negative then "-" else ""

/-- The plain notation: no exponent, and a point only before digits. Of two equally near digits the upper is taken. -/
def plain : Binary64 → String
  | nan => "NaN"
  | infinity negative => signText negative ++ "inf"
  | finite negative m e =>
    if m = 0 then signText negative ++ "0"
    else
      let (k, p) := shortest .up m e
      let (whole, fraction) := positional k p
      signText negative ++ String.ofList (if fraction.isEmpty then whole else whole ++ '.' :: fraction)

/-- The notation of a JSON document: from `10 ^ -5` up to `10 ^ 16` without an exponent and with at least one digit
after the point, otherwise with a signed exponent. Of two equally near digits the even one is taken. -/
def jsonText : Binary64 → String
  | nan | infinity _ => "null"
  | finite negative m e =>
    if m = 0 then signText negative ++ "0.0"
    else
      let (k, p) := shortest .even m e
      let digits := decimalDigits k
      let magnitude : Int := p + digits.length - 1
      if -5 ≤ magnitude ∧ magnitude < 16 then
        let (whole, fraction) := positional k p
        signText negative ++ String.ofList (whole ++ '.' :: (if fraction.isEmpty then ['0'] else fraction))
      else
        let mantissa := digits.take 1 ++ (if digits.length ≤ 1 then [] else '.' :: digits.drop 1)
        let sign := if magnitude < 0 then '-' else '+'
        signText negative ++ String.ofList (mantissa ++ 'e' :: sign :: decimalDigits magnitude.natAbs)

end UiScript.Binary64
