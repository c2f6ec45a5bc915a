import UiScript.Catalog
import UiScript.Element.Tree
import UiScript.Reading.Listing

/-!
# Commands

A command takes one line, `name: argument`, except that brackets may run over several. The first command with a fatal
problem is the last one that is read.
-/

namespace UiScript.Reading

/-- A command that cannot be read: the rest of its line is passed over. -/
def brokenCommand (s : Source) (t : Token) (name : String) (problem : Problem) (c : Cursor) : Command × Cursor :=
  let after := c.skipLine
  let span : Span := ⟨t.span.start, after.lastStop⟩
  (.bare ⟨name, t.line, span, s.slice span, some problem⟩, after)

/-- Reads the argument of a command, if something stands on its line. -/
def argument (element : Cursor → Element × Cursor) (c : Cursor) : Option Element × Cursor :=
  match c.skipComments.kind? with
  | none | some .newline => (none, c.skipComments)
  | some _ =>
    let (a, after) := element c.skipComments
    (some a, after)

/-- Passes over what stands after an argument, with a problem if there is something. -/
def lineEnd (c : Cursor) : Option Problem × Cursor :=
  match c.skipComments.rest with
  | [] => (none, c.skipComments)
  | t :: _ =>
    if t.kind = .newline then (none, c.skipComments) else (some (.afterArgument t.describe), c.skipComments.skipLine)

/-- Reads the command that starts with the token `t`, after which the cursor stands. -/
def command (catalog : Catalog) (s : Source) (element : Cursor → Element × Cursor) (t : Token) (c : Cursor) :
    Command × Cursor :=
  if t.kind = .word then
    match c.skipComments.rest with
    | [] => brokenCommand s t t.text (.commandColonMissing t.text) c.skipComments
    | u :: us =>
      if u.kind = .colon then
        let ahead := c.skipComments.past u us
        if catalog.contains t.text then
          let (arg, after) := argument element ahead
          let (problem, last) := lineEnd after
          let span : Span := ⟨t.span.start, last.lastStop⟩
          (.make ⟨t.text, t.line, span, s.slice span, problem⟩ arg, last)
        else brokenCommand s t t.text (.unknownCommand t.text) ahead
      else brokenCommand s t t.text (.commandColonMissing t.text) c.skipComments
  else brokenCommand s t t.describe (.commandNameMissing t.describe) c

/-- Reads commands up to the end of the range, or up to the first one with a fatal problem. -/
def commands (catalog : Catalog) (s : Source) (element : Cursor → Element × Cursor) (c : Cursor) : List Command :=
  match c.skipBlank.rest with
  | [] => []
  | t :: ts =>
    let (found, after) := command catalog s element t (c.skipBlank.past t ts)
    if found.hasFatal then [found]
    else if after.rest.length < c.rest.length then found :: commands catalog s element after
    else [found]
termination_by c.rest.length

end UiScript.Reading
