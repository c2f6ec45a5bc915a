import UiScript.Reading.Operand
import UiScript.Token.Scan

/-!
# Scripts

A script is a text with the commands that were read from it. Reading never fails: what is wrong stays as a problem on
the command or the element that has it, and the diagnostics of the script are all of these in reading order.
-/

namespace UiScript

open Reading

/-- Reads an element, which may run over several lines where `multiline` says so. -/
def Reading.element (catalog : Catalog) (multiline : Bool) (s : Source) (c : Cursor) : Element × Cursor :=
  chain s multiline (operand catalog maxNesting s multiline) c

/-- A text with the commands that it holds. -/
structure Script where
  text : String
  commands : List Command

namespace Script

/-- Reads a script with the commands of a catalog. -/
def parse (catalog : Catalog) (text : String) : Script :=
  let chars := text.toList
  let tokens := scan chars
  let source : Source := ⟨chars, Text.width chars, lastLineOf 1 tokens⟩
  ⟨text, Reading.commands catalog source (element catalog false source) ⟨tokens, 0⟩⟩

/-- The diagnostics of all commands. -/
def diagnostics (s : Script) : Diagnostics := s.commands.flatMap Command.diagnostics

/-- Whether nothing is wrong. -/
def isOk (s : Script) : Bool := s.diagnostics.isEmpty

/-- Whether some diagnostic is fatal. -/
def hasFatal (s : Script) : Bool := s.diagnostics.hasFatal

/-- The commands of a name. -/
def commandsNamed (s : Script) (name : String) : List Command := s.commands.filter (·.name == name)

end Script

/-- Reads a text that is a single element, over as many lines as it takes. -/
def Element.parse (text : String) : Element :=
  let chars := text.toList
  let tokens := scan chars
  let source : Source := ⟨chars, Text.width chars, lastLineOf 1 tokens⟩
  let start : Cursor := Cursor.skipTrivia ⟨tokens, 0⟩ true
  let (found, after) :=
    if start.rest.isEmpty then (start.missing source .elementMissing, start) else Reading.element .any true source start
  match (after.skipTrivia true).rest with
  | [] => found
  | t :: _ => found.noting (some (.afterElement t.describe))

end UiScript
