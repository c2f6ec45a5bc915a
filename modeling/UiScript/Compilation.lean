import UiScript.Preparation

/-!
# Compilation

Hands the commands of a script one by one to a back end that makes instructions of them. The back end sees only
prepared commands without diagnostics, and none after a fatal one.
-/

namespace UiScript

/-- A back end: the instructions of a command, or why there are none. -/
abbrev Dispatcher := Command → Except String (List String)

/-- What a compilation gives. -/
structure Compiled where
  instructions : List String
  diagnostics : Diagnostics
deriving DecidableEq, Repr, Inhabited

namespace Compiled

/-- Whether nothing is wrong. -/
def isOk (c : Compiled) : Bool := c.diagnostics.isEmpty

/-- The result with more instructions in front. -/
def afterInstructions (instructions : List String) (c : Compiled) : Compiled :=
  { c with instructions := instructions ++ c.instructions }

/-- The result with more diagnostics in front. -/
def afterDiagnostics (diagnostics : Diagnostics) (c : Compiled) : Compiled :=
  { c with diagnostics := diagnostics ++ c.diagnostics }

end Compiled

/-- The report of a command that the back end does not take. -/
def Command.rejected (c : Command) (message : String) : Diagnostic :=
  ⟨message, false, some c.line, some (String.ofList (Text.trim c.head.text.toList))⟩

/-- Compiles commands in order. A command with diagnostics is left out, and a fatal one ends the compilation. -/
def compile (dispatch : Dispatcher) (scope : Scope) (settings : Settings) : List Command → Compiled
  | [] => ⟨[], []⟩
  | c :: cs =>
    let prepared := c.prepare scope settings
    if prepared.isOk then
      match dispatch prepared.command with
      | .ok instructions => (compile dispatch scope settings cs).afterInstructions instructions
      | .error message => (compile dispatch scope settings cs).afterDiagnostics [c.rejected message]
    else if prepared.diagnostics.hasFatal then ⟨[], prepared.diagnostics⟩
    else (compile dispatch scope settings cs).afterDiagnostics prepared.diagnostics

end UiScript
