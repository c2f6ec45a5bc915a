/-!
# Kinds of elements

The kind of an element is what messages call it and what the checks of arrays and operators compare.
-/

namespace UiScript

/-- What an element is. -/
inductive Kind where
  | ident | boolean | number | string | reference
  | tuple | array | json | expression | block
  | operator | char | unknown
deriving DecidableEq, Repr, Inhabited

namespace Kind

/-- Every kind. -/
def all : List Kind :=
  [ident, boolean, number, string, reference, tuple, array, json, expression, block, operator, char, unknown]

/-- The name of a kind in messages. -/
def name : Kind → String
  | ident => "ident"
  | boolean => "boolean"
  | number => "number"
  | string => "string"
  | reference => "variable"
  | tuple => "tuple"
  | array => "array"
  | json => "json"
  | expression => "expression"
  | block => "block"
  | operator => "operator"
  | char => "char"
  | unknown => "unknown"

/-- The kinds that are written between brackets. -/
def isContainer : Kind → Bool
  | tuple | array | json | block => true
  | _ => false

end Kind

end UiScript
