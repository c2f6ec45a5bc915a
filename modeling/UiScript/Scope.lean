import UiScript.Settings
import UiScript.Value

/-!
# Scopes

Where the value of a variable comes from: first the local bindings, then the global ones, then the environment of the
process, unless that is switched off.
-/

namespace UiScript

/-- Names with their values. -/
structure Bindings where
  pairs : List (String × Value)
deriving Inhabited

/-- The value of a name. -/
def Bindings.get? (b : Bindings) (name : String) : Option Value := b.pairs.lookup name

/-- The environment of a process: names with texts. -/
structure Environment where
  pairs : List (String × String)
deriving Inhabited

/-- What remains of a text after a given beginning. -/
def stripStart? : List Char → List Char → Option (List Char)
  | [], cs => some cs
  | _ :: _, [] => none
  | p :: ps, c :: cs => if p = c then stripStart? ps cs else none

/-- The text of a name. The environment is a list of lines `name=text`, and a name is found at the start of a line that
goes on with the equals sign; an empty name, or one that no line can hold, is never found. -/
def Environment.get? (e : Environment) (name : String) : Option String :=
  if name.isEmpty || name.toList.contains '\x00' then none
  else e.pairs.findSome? fun (key, text) =>
    (stripStart? (name ++ "=").toList (key ++ "=" ++ text).toList).map String.ofList

/-- The bindings that are in sight, and the environment of the process. -/
structure Scope where
  locals : Option Bindings := none
  globals : Option Bindings := none
  useEnvironment : Bool := true
  environment : Environment := ⟨[]⟩

instance : Inhabited Scope := ⟨{}⟩

namespace Scope

/-- The scope without any bindings, with the environment if the settings allow it. -/
def ofSettings (s : Settings) (environment : Environment) : Scope :=
  { useEnvironment := s.environmentFallback, environment }

/-- The value of a variable. -/
def lookup (s : Scope) (name : String) : Option Value :=
  ((s.locals.bind (·.get? name)).or (s.globals.bind (·.get? name))).or
    (if s.useEnvironment then (s.environment.get? name).map .text else none)

end Scope

end UiScript
