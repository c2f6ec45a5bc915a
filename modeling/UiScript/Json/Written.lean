import UiScript.Json

/-!
# Written JSON

Two layouts of a value: the compact one without any blanks, and the one for files, with a line for every item and member
and two blanks for every level. Both write strings in the same way: only quotes, backslashes and the characters below
U+0020 are escaped.
-/

namespace UiScript

open Text

/-- One character of a string as it is written. -/
def jsonChar (c : Char) : List Char :=
  if c = '"' then ['\\', '"']
  else if c = '\\' then ['\\', '\\']
  else if c = '\x08' then ['\\', 'b']
  else if c = '\x0c' then ['\\', 'f']
  else if c = '\n' then ['\\', 'n']
  else if c = '\r' then ['\\', 'r']
  else if c = '\t' then ['\\', 't']
  else if c.toNat < 0x20 then '\\' :: 'u' :: hexDigits 4 c.toNat
  else [c]

/-- A string between quotes. -/
def jsonString (s : String) : String := String.ofList ('"' :: (s.toList.flatMap jsonChar ++ ['"']))

/-- An integer in decimal digits. -/
def intText (n : Int) : String := (if n < 0 then "-" else "") ++ String.ofList (decimalDigits n.natAbs)

mutual

/-- The compact text of a value. -/
def Json.compact : Json → String
  | .null => "null"
  | .bool b => if b then "true" else "false"
  | .integer n => intText n
  | .float x => x.jsonText
  | .string s => jsonString s
  | .array items => "[" ++ ",".intercalate (compactItems items) ++ "]"
  | .object members => "\x7b" ++ ",".intercalate (compactMembers members) ++ "\x7d"

/-- The compact texts of several values. -/
def compactItems : List Json → List String
  | [] => []
  | v :: vs => v.compact :: compactItems vs

/-- The compact text of a member. -/
def Member.compact : Member → String
  | .mk name value => jsonString name ++ ":" ++ value.compact

/-- The compact texts of several members. -/
def compactMembers : List Member → List String
  | [] => []
  | m :: ms => m.compact :: compactMembers ms

end

/-- A new line that is indented by a number of levels. -/
def lineBreak (level : Nat) : String := String.ofList ('\n' :: List.replicate (2 * level) ' ')

/-- Texts between brackets, each on a line of its own; nothing stands between the brackets if there are none. -/
def onLines (opener closer : String) (level : Nat) (texts : List String) : String :=
  if texts.isEmpty then opener ++ closer
  else opener ++ lineBreak (level + 1) ++ ("," ++ lineBreak (level + 1)).intercalate texts ++ lineBreak level ++ closer

mutual

/-- The text of a value over several lines, as part of a document in which it stands at a level. -/
def Json.pretty (level : Nat) : Json → String
  | .null => "null"
  | .bool b => if b then "true" else "false"
  | .integer n => intText n
  | .float x => x.jsonText
  | .string s => jsonString s
  | .array items => onLines "[" "]" level (prettyItems (level + 1) items)
  | .object members => onLines "\x7b" "\x7d" level (prettyMembers (level + 1) members)

/-- The texts of several values. -/
def prettyItems (level : Nat) : List Json → List String
  | [] => []
  | v :: vs => v.pretty level :: prettyItems level vs

/-- The text of a member. -/
def Member.pretty (level : Nat) : Member → String
  | .mk name value => jsonString name ++ ": " ++ value.pretty level

/-- The texts of several members. -/
def prettyMembers (level : Nat) : List Member → List String
  | [] => []
  | m :: ms => m.pretty level :: prettyMembers level ms

end

end UiScript
