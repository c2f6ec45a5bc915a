import UiScript.Element
import UiScript.Text.Quoted

/-!
# Canonical text

Every element has one text that does not depend on how it was laid out in the script: single spaces, commas between
items, escapes in strings. A block keeps its own text, and an element that could not be read keeps its source.
-/

namespace UiScript

open Text

/-- A truth value as it is written. -/
def boolText (b : Bool) : String := if b then "true" else "false"

/-- A value between quotes. -/
def quoteText (value : String) (quote : Char) : String := String.ofList (escape value.toList quote)

/-- The text of a number. -/
def numberText (digits : String) (negative : Bool) : String := if negative then "-" ++ digits else digits

/-- The text of a leaf, given the source it was read from. -/
def Leaf.text (source : String) : Leaf → String
  | ident name => name
  | boolean b => boolText b
  | number digits negative _ => numberText digits negative
  | string value quote => quoteText value quote
  | reference name => "|" ++ name ++ "|"
  | operator op => op.text
  | char c => c.toString
  | unknown => source

mutual

/-- The canonical text of an element. Only a tuple of one item shows its trailing comma, since that comma tells it from
a group. -/
def Element.text : Element → String
  | .leaf i l => l.text i.source
  | .tuple _ items trailing =>
    "(" ++ ", ".intercalate (textsOf items) ++ (if trailing && items.length == 1 then "," else "") ++ ")"
  | .array _ items => "[" ++ ", ".intercalate (textsOf items) ++ "]"
  | .json _ entries => "\x7b" ++ ", ".intercalate (entryTexts entries) ++ "\x7d"
  | .expression _ _ (some r) => r.text
  | .expression _ parts none => " ".intercalate (textsOf parts)
  | .block _ _ text => "block \x7b" ++ text ++ "\x7d"

/-- The texts of several elements. -/
def textsOf : List Element → List String
  | [] => []
  | e :: es => e.text :: textsOf es

/-- The text of a dictionary entry. -/
def Entry.text : Entry → String
  | .pair k v => k.text ++ ": " ++ v.text
  | .bare k => k.text

/-- The texts of several entries. -/
def entryTexts : List Entry → List String
  | [] => []
  | e :: es => e.text :: entryTexts es

end

/-- The value of an element as a string: a string without its quotes, and any other element as its text. -/
def Element.stringValue : Element → String
  | .leaf _ (.string value _) => value
  | e => e.text

/-- The text of a command's argument. -/
def Command.argumentText (c : Command) : String :=
  match c.argument? with
  | some a => a.text
  | none => ""

/-! ## Texts of lists -/

@[simp] theorem textsOf_eq_map (es : List Element) : textsOf es = es.map Element.text := by
  induction es with
  | nil => simp [textsOf]
  | cons e es ih => simp [textsOf, ih]

@[simp] theorem entryTexts_eq_map (es : List Entry) : entryTexts es = es.map Entry.text := by
  induction es with
  | nil => simp [entryTexts]
  | cons e es ih => simp [entryTexts, ih]

end UiScript
