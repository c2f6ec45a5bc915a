import UiScript.Binary64.Decimal
import UiScript.Element.Text

/-!
# Equality of literal containers

Two ways to compare elements that are written out in full. Tuples and arrays are compared part by part, numbers by
value; dictionaries are compared key by key in any order, and what is not a dictionary in them by its string value.
-/

namespace UiScript

/-- The value of a number; nothing for other elements. -/
def Element.numberValue? : Element → Option Binary64
  | .leaf _ (.number digits negative _) => Binary64.ofText? (numberText digits negative)
  | _ => none

/-- Whether two numbers have the same value; two texts that are no numbers count as the same. -/
def sameNumber : Option Binary64 → Option Binary64 → Bool
  | none, none => true
  | some x, some y => x.same y
  | _, _ => false

mutual

/-- Equality part by part: the same kinds all the way down, numbers by value and other scalars by string value. -/
def Element.strictEq : Element → Element → Bool
  | .tuple _ xs _, .tuple _ ys _ => strictEqAll xs ys
  | .array _ xs, .array _ ys => strictEqAll xs ys
  | .json _ xs, .json _ ys => strictEqEntries xs ys
  | .leaf i (.number d n f), .leaf j (.number d' n' f') =>
    sameNumber (Element.leaf i (.number d n f)).numberValue? (Element.leaf j (.number d' n' f')).numberValue?
  | a, b => a.kind == b.kind && a.stringValue == b.stringValue

/-- Equality of two lists, item by item. -/
def strictEqAll : List Element → List Element → Bool
  | [], [] => true
  | x :: xs, y :: ys => x.strictEq y && strictEqAll xs ys
  | _, _ => false

/-- Equality of two entries. -/
def Entry.strictEq : Entry → Entry → Bool
  | .pair k v, .pair k' v' => k.strictEq k' && v.strictEq v'
  | .bare k, .bare k' => k.strictEq k'
  | _, _ => false

/-- Equality of two lists of entries, in the same order. -/
def strictEqEntries : List Entry → List Entry → Bool
  | [], [] => true
  | x :: xs, y :: ys => x.strictEq y && strictEqEntries xs ys
  | _, _ => false

end

/-- The first entry whose key has a string value. -/
def findEntry (key : String) (entries : List Entry) : Option Entry := entries.find? (·.key.stringValue == key)

mutual

/-- Equality of dictionaries in any order: as many entries, and for every key of the first an equal value under the same
key of the second. Other elements are equal if their string values are. -/
def Element.looseEq : Element → Element → Bool
  | .json _ xs, .json _ ys => xs.length == ys.length && looseEqEntries xs ys
  | a, b => a.stringValue == b.stringValue

/-- Whether an entry has an equal one among others. -/
def Entry.looseEq : Entry → List Entry → Bool
  | .pair k v, ys =>
    match findEntry k.stringValue ys with
    | some (.pair _ w) => v.looseEq w
    | _ => false
  | .bare k, ys =>
    match findEntry k.stringValue ys with
    | some (.bare _) => true
    | _ => false

/-- Whether every entry has an equal one among others. -/
def looseEqEntries : List Entry → List Entry → Bool
  | [], _ => true
  | x :: xs, ys => x.looseEq ys && looseEqEntries xs ys

end

end UiScript
