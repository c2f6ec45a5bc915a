/-!
# Catalogs of commands

A catalog says which names are commands. Reading a script asks it once for each command.
-/

namespace UiScript

/-- A finite set of command names. -/
structure Vocabulary where
  names : List String
deriving DecidableEq, Repr, Inhabited

namespace Vocabulary

/-- Whether a name is in the set. -/
def contains (v : Vocabulary) (name : String) : Bool := v.names.contains name

/-- The set with one more name. -/
def insert (v : Vocabulary) (name : String) : Vocabulary :=
  if v.contains name then v else ⟨v.names ++ [name]⟩

/-- The set of the names of a list. -/
def ofList (names : List String) : Vocabulary := names.foldl insert ⟨[]⟩

/-- The number of names. -/
def size (v : Vocabulary) : Nat := v.names.length

/-- Whether there is no name. -/
def isEmpty (v : Vocabulary) : Bool := v.names.isEmpty

end Vocabulary

/-- Which names are commands: all of them, or those of a vocabulary. -/
inductive Catalog where
  | any
  | known (vocabulary : Vocabulary)
deriving DecidableEq, Repr, Inhabited

/-- Whether a name is a command. -/
def Catalog.contains : Catalog → String → Bool
  | any, _ => true
  | known v, name => v.contains name

end UiScript
