import UiScript.Problem

/-!
# Diagnostics

A diagnostic is a problem as it is reported: its wording and weight with the line it stands on and, for a command, the
text of the command.
-/

namespace UiScript

/-- A reported problem. -/
structure Diagnostic where
  message : String
  fatal : Bool
  line : Option Nat := none
  detail : Option String := none
deriving DecidableEq, Repr, Inhabited

namespace Diagnostic

/-- The report of a problem. -/
def ofProblem (p : Problem) (line : Nat) (detail : Option String) : Diagnostic :=
  ⟨p.message, p.isFatal, some line, detail⟩

/-- A diagnostic as shown to the reader of a report. -/
def render (d : Diagnostic) : String :=
  (if d.fatal then "[FATAL]" else "[ERROR]") ++
  (match d.line with
    | some line => " line " ++ toString line
    | none => "") ++
  ": " ++ d.message ++
  (match d.detail with
    | some detail => "\n  | " ++ detail
    | none => "")

end Diagnostic

/-- Diagnostics in the order they were found. -/
abbrev Diagnostics := List Diagnostic

namespace Diagnostics

/-- The fatal diagnostics. -/
def fatalOnly (ds : Diagnostics) : Diagnostics := ds.filter (·.fatal)

/-- How many diagnostics are fatal. -/
def fatalCount (ds : Diagnostics) : Nat := ds.countP (·.fatal)

/-- Whether some diagnostic is fatal. -/
def hasFatal (ds : Diagnostics) : Bool := ds.any (·.fatal)

end Diagnostics

end UiScript
