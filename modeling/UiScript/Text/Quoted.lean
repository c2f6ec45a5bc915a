import UiScript.Text.Class

/-!
# Quoted strings

A string is written between two quotes of one kind. `escape` writes a value so that it stays on one line; `readBody`
reads what stands after the opening quote. Reading accepts more than writing produces: a string may run over several
lines, and a backslash that starts no known escape stands for itself.
-/

namespace UiScript.Text

/-! ## Writing -/

/-- One character of a value as it is written between quotes. -/
def escapeChar (quote c : Char) : List Char :=
  if c = '\n' then ['\\', 'n']
  else if c = '\t' then ['\\', 't']
  else if c = '\r' then ['\\', 'r']
  else if isControl c then '\\' :: 'u' :: hexDigits 4 c.toNat
  else if c = '\\' ∨ c = quote then ['\\', c]
  else [c]

/-- A value between quotes. -/
def escape (value : List Char) (quote : Char) : List Char :=
  quote :: (value.flatMap (escapeChar quote) ++ [quote])

/-! ## Reading -/

/-- What follows an opening quote: the value, how many characters it takes with its closing quote, and whether that
quote is there. -/
structure Body where
  value : List Char
  length : Nat
  closed : Bool
deriving DecidableEq, Repr

/-- One more character read, which adds nothing to the value. -/
def Body.past (b : Body) : Body := { b with length := b.length + 1 }

/-- One more character read, and `c` put in front of the value. -/
def Body.push (c : Char) (b : Body) : Body := { b with value := c :: b.value, length := b.length + 1 }

/-- The character with the code that four hexadecimal digits give, unless that is a surrogate. -/
def charOfHex? (a b c d : Char) : Option Char := do
  let n := ((← hexValue? a) * 16 + (← hexValue? b)) * 256 + ((← hexValue? c) * 16 + (← hexValue? d))
  if n < 0xd800 ∨ 0xe000 ≤ n then some (Char.ofNat n) else none

/-- The character that an escape stands for, given what follows the backslash, and how many characters it takes after
the backslash. -/
def unescape? (quote : Char) : List Char → Option (Char × Nat)
  | [] => none
  | c :: cs =>
    if c = quote ∨ c = '\\' then some (c, 1)
    else if c = 'n' then some ('\n', 1)
    else if c = 't' then some ('\t', 1)
    else if c = 'r' then some ('\r', 1)
    else if c = 'u' then
      match cs with
      | h₁ :: h₂ :: h₃ :: h₄ :: _ => (charOfHex? h₁ h₂ h₃ h₄).map (·, 5)
      | _ => none
    else none

/-- Reads up to the closing quote or the end of the text. The number is that of the characters ahead which the last
escape has already taken. -/
def readBody (quote : Char) : Nat → List Char → Body
  | _, [] => ⟨[], 0, false⟩
  | taken + 1, _ :: cs => (readBody quote taken cs).past
  | 0, c :: cs =>
    if c = quote then ⟨[], 1, true⟩
    else if c = '\\' then
      match unescape? quote cs with
      | some (d, taken) => (readBody quote taken cs).push d
      | none => (readBody quote 0 cs).push c
    else (readBody quote 0 cs).push c

end UiScript.Text
