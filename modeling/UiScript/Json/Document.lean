import UiScript.Json
import UiScript.Text.Class

/-!
# JSON documents

A document is what the grammar of JSON admits, before it is asked whether its numbers and strings have a meaning. So a
part of a document that nobody looks at may hold a number that is too large or half of a surrogate pair.
-/

namespace UiScript

open Text

/-- A piece of a written string: a character, or a unit that is given by its four hexadecimal digits. -/
inductive Piece where
  | char (c : Char)
  | unit (n : Nat)
deriving DecidableEq, Repr

/-- A number as it is written. -/
structure NumberText where
  negative : Bool
  whole : List Char
  fraction : Option (List Char)
  exponent : Option Int
deriving DecidableEq, Repr

mutual

/-- A JSON document. -/
inductive Document where
  | null
  | bool (value : Bool)
  | number (text : NumberText)
  | string (pieces : List Piece)
  | array (items : List Document)
  | object (members : List DocumentMember)

/-- A member of an object. -/
inductive DocumentMember where
  | mk (name : List Piece) (value : Document)

end

namespace Document

/-! ## Meaning -/

/-- The text of a string. The two units of a surrogate pair make one character; half of a pair has no meaning. -/
def decode? : List Piece → Option (List Char)
  | [] => some []
  | .char c :: ps => (decode? ps).map (c :: ·)
  | .unit n :: ps =>
    if n < 0xd800 ∨ 0xe000 ≤ n then (decode? ps).map (Char.ofNat n :: ·)
    else if n < 0xdc00 then
      match ps with
      | .unit m :: qs =>
        if 0xdc00 ≤ m ∧ m < 0xe000 then
          (decode? qs).map (Char.ofNat (0x10000 + (n - 0xd800) * 0x400 + (m - 0xdc00)) :: ·)
        else none
      | _ => none
    else none

/-- The value of a number: an integer if it is written as one and fits a 64-bit word, otherwise a floating-point value.
A negative zero is never an integer, and a value beyond all finite ones has no meaning. -/
def numberValue? (t : NumberText) : Option Json :=
  let n := natOfDigits t.whole
  let fraction := t.fraction.getD []
  let isInteger := t.fraction.isNone && t.exponent.isNone &&
    (if t.negative then n != 0 && decide (n ≤ twoPow 63) else decide (n < twoPow 64))
  if isInteger then some (.integer (if t.negative then -(n : Int) else n))
  else
    let x := Decimal.toBinary64 ⟨t.negative, natOfDigits (t.whole ++ fraction), t.exponent.getD 0 - fraction.length⟩
    if x.isFinite then some (.float x) else none

mutual

/-- The value of a document. -/
def value? : Document → Option Json
  | .null => some .null
  | .bool b => some (.bool b)
  | .number t => numberValue? t
  | .string ps => (decode? ps).map fun cs => .string (String.ofList cs)
  | .array items => (values? items).map .array
  | .object members => (memberValues? members).map Json.ofMembers

/-- The values of several documents. -/
def values? : List Document → Option (List Json)
  | [] => some []
  | d :: ds => do
    let v ← d.value?
    let vs ← values? ds
    return v :: vs

/-- The values of several members. -/
def memberValues? : List DocumentMember → Option (List (String × Json))
  | [] => some []
  | .mk name d :: ms => do
    let cs ← decode? name
    let v ← d.value?
    let vs ← memberValues? ms
    return (String.ofList cs, v) :: vs

end

/-! ## Grammar -/

/-- The four blanks of JSON. -/
def isSpace (c : Char) : Bool := c == ' ' || c == '\n' || c == '\t' || c == '\r'

/-- What follows the blanks at the front. -/
def skipSpace (cs : List Char) : List Char := cs.dropWhile isSpace

/-- The unit that four hexadecimal digits give. -/
def hexUnit? (a b c d : Char) : Option Nat := do
  return (((← hexValue? a) * 16 + (← hexValue? b)) * 16 + (← hexValue? c)) * 16 + (← hexValue? d)

/-- The character of an escape of one letter. -/
def simpleEscape? (c : Char) : Option Char :=
  match c with
  | '"' => some '"'
  | '\\' => some '\\'
  | '/' => some '/'
  | 'b' => some '\x08'
  | 'f' => some '\x0c'
  | 'n' => some '\n'
  | 'r' => some '\r'
  | 't' => some '\t'
  | _ => none

/-- Reads a string after its opening quote. -/
def readPieces? : List Char → Option (List Piece × List Char)
  | '"' :: r => some ([], r)
  | '\\' :: 'u' :: a :: b :: c :: d :: r => do
    let n ← hexUnit? a b c d
    let (ps, rest) ← readPieces? r
    return (.unit n :: ps, rest)
  | '\\' :: e :: r => do
    let c ← simpleEscape? e
    let (ps, rest) ← readPieces? r
    return (.char c :: ps, rest)
  | c :: r =>
    if c.toNat < 0x20 ∨ c = '\\' then none
    else (readPieces? r).map fun (ps, rest) => (.char c :: ps, rest)
  | [] => none

/-- Reads digits, of which there has to be one. -/
def readDigits? (cs : List Char) : Option (List Char × List Char) :=
  let digits := cs.takeWhile isDigit
  if digits.isEmpty then none else some (digits, cs.dropWhile isDigit)

/-- Reads the digits before the point: a zero that leads other digits is a number of its own. -/
def readWhole? : List Char → Option (List Char × List Char)
  | '0' :: r => some (['0'], r)
  | cs => readDigits? cs

/-- Reads the point and the digits after it, if there is a point. -/
def readFraction? : List Char → Option (Option (List Char) × List Char)
  | '.' :: r => (readDigits? r).map fun (digits, rest) => (some digits, rest)
  | cs => some (none, cs)

/-- Reads the exponent, if there is its mark. -/
def readPower? : List Char → Option (Option Int × List Char)
  | c :: r =>
    if c = 'e' ∨ c = 'E' then
      let (negative, ds) : Bool × List Char :=
        match r with
        | '-' :: r => (true, r)
        | '+' :: r => (false, r)
        | r => (false, r)
      (readDigits? ds).map fun (digits, rest) =>
        (some (if negative then -(natOfDigits digits : Int) else natOfDigits digits), rest)
    else some (none, c :: r)
  | [] => some (none, [])

/-- Reads a number. -/
def readNumber? (cs : List Char) : Option (NumberText × List Char) := do
  let (negative, unsigned) : Bool × List Char :=
    match cs with
    | '-' :: r => (true, r)
    | r => (false, r)
  let (whole, r₁) ← readWhole? unsigned
  let (fraction, r₂) ← readFraction? r₁
  let (exponent, r₃) ← readPower? r₂
  return (⟨negative, whole, fraction, exponent⟩, r₃)

/-- Reads items with commas between them, up to the closing mark. -/
def readItems? {α : Type} (item : List Char → Option (α × List Char)) (closer : Char) (cs : List Char) :
    Option (List α × List Char) :=
  match item cs with
  | none => none
  | some (a, r) =>
    match skipSpace r with
    | [] => none
    | c :: rest =>
      if c = closer then some ([a], rest)
      else if c = ',' then
        if rest.length < cs.length then (readItems? item closer rest).map fun (as, last) => (a :: as, last) else none
      else none
termination_by cs.length

/-- Reads what stands between brackets, after the opening one. -/
def readList? {α : Type} (item : List Char → Option (α × List Char)) (closer : Char) (cs : List Char) :
    Option (List α × List Char) :=
  match skipSpace cs with
  | [] => none
  | c :: rest => if c = closer then some ([], rest) else readItems? item closer (c :: rest)

/-- Reads a name, a colon and a value. -/
def readMember? (value : List Char → Option (Document × List Char)) (cs : List Char) :
    Option (DocumentMember × List Char) :=
  match skipSpace cs with
  | '"' :: r => do
    let (name, rest) ← readPieces? r
    match skipSpace rest with
    | ':' :: after => (value after).map fun (d, last) => (.mk name d, last)
    | _ => none
  | _ => none

/-- Reads a value in which at most `levels` arrays and objects stand inside each other. -/
def readValue? : Nat → List Char → Option (Document × List Char)
  | levels, cs =>
    match skipSpace cs with
    | 'n' :: 'u' :: 'l' :: 'l' :: r => some (.null, r)
    | 't' :: 'r' :: 'u' :: 'e' :: r => some (.bool true, r)
    | 'f' :: 'a' :: 'l' :: 's' :: 'e' :: r => some (.bool false, r)
    | '"' :: r => (readPieces? r).map fun (ps, rest) => (.string ps, rest)
    | '[' :: r =>
      match levels with
      | 0 => none
      | l + 1 => (readList? (readValue? l) ']' r).map fun (items, rest) => (.array items, rest)
    | '{' :: r =>
      match levels with
      | 0 => none
      | l + 1 => (readList? (readMember? (readValue? l)) '}' r).map fun (members, rest) => (.object members, rest)
    | other => (readNumber? other).map fun (t, rest) => (.number t, rest)

/-- Reads a whole text as one document. No document has more levels than characters. -/
def parse? (text : String) : Option Document :=
  let cs := text.toList
  match readValue? cs.length cs with
  | some (d, rest) => if (skipSpace rest).isEmpty then some d else none
  | none => none

end Document

/-- The value that a text writes. -/
def Json.parse? (text : String) : Option Json := (Document.parse? text).bind Document.value?

end UiScript
