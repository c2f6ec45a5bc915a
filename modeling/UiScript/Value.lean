import UiScript.Element.Text
import UiScript.Json.Written

/-!
# Values of variables

A variable has a truth value, a number, a text or a structured JSON value. Its type is never guessed from its text.
-/

namespace UiScript

/-- The value of a variable. -/
inductive Value where
  | boolean (value : Bool)
  | number (value : Binary64)
  | text (value : String)
  | structured (value : Json)

instance : Inhabited Value := ⟨.boolean false⟩

/-- A number in a script: an integer below `10 ^ 15` in plain digits and without a sign for zero, every other number in
the plain notation. -/
def formatNumber (x : Binary64) : String :=
  match x.natAbs? with
  | some n => if n < tenPow 15 then numberText (String.ofList (decimalDigits n)) x.isBelowZero else x.plain
  | none => x.plain

namespace Value

/-- The value that a JSON value gives. -/
def ofJson : Json → Value
  | .bool b => boolean b
  | .integer n => number (.ofInt n)
  | .float x => number x
  | .string s => text s
  | v => structured v

/-- The value as a text. -/
def asText : Value → String
  | boolean b => boolText b
  | number x => formatNumber x
  | text s => s
  | structured v => v.compact

end Value

/-- The leaf of a finite number. -/
def numberLeaf (x : Binary64) : Leaf :=
  let digits := formatNumber x.abs
  .number digits x.isBelowZero (digits.toList.contains '.')

/-! ## Structured values as elements -/

mutual

/-- The element of a JSON value, all parts of which stand at the given place. -/
def Json.element (place : Place) : Json → Element
  | .null => .leaf ⟨place, none⟩ (.ident "null")
  | .bool b => .leaf ⟨place, none⟩ (.boolean b)
  | .integer n => .leaf ⟨place, none⟩ (numberLeaf (.ofInt n))
  | .float x => .leaf ⟨place, none⟩ (if x.isFinite then numberLeaf x else .string x.jsonText '"')
  | .string s => .leaf ⟨place, none⟩ (.string s '"')
  | .array items =>
    let elements := jsonElements place items
    .array ⟨place, mixedKinds? elements⟩ elements
  | .object members => .json ⟨place, none⟩ (jsonEntries place members)

/-- The elements of several values. -/
def jsonElements (place : Place) : List Json → List Element
  | [] => []
  | v :: vs => v.element place :: jsonElements place vs

/-- The entry of a member. -/
def Member.entry (place : Place) : Member → Entry
  | .mk name value => .pair (.leaf ⟨place, none⟩ (.string name '"')) (value.element place)

/-- The entries of several members. -/
def jsonEntries (place : Place) : List Member → List Entry
  | [] => []
  | m :: ms => m.entry place :: jsonEntries place ms

end

/-! ## Lists -/

@[simp] theorem jsonElements_eq_map (place : Place) (es : List Json) :
    jsonElements place es = es.map (·.element place) := by
  induction es with
  | nil => simp [jsonElements]
  | cons e es ih => simp [jsonElements, ih]

@[simp] theorem jsonEntries_eq_map (place : Place) (es : List Member) :
    jsonEntries place es = es.map (·.entry place) := by
  induction es with
  | nil => simp [jsonEntries]
  | cons e es ih => simp [jsonEntries, ih]

end UiScript
