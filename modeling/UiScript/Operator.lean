/-!
# Binary operators

The operators of expressions, how they are written, and how tightly each binds in the text that leaves the program.
-/

namespace UiScript

/-- A binary operator. -/
inductive Operator where
  | add | sub | mul | div
  | equal | unequal
  | less | lessEqual | greater | greaterEqual
  | and | or
deriving DecidableEq, Repr, Inhabited

namespace Operator

/-- Every operator. -/
def all : List Operator :=
  [add, sub, mul, div, equal, unequal, less, lessEqual, greater, greaterEqual, and, or]

/-- How an operator is written. -/
def text : Operator → String
  | add => "+"
  | sub => "-"
  | mul => "*"
  | div => "/"
  | equal => "=="
  | unequal => "!="
  | less => "<"
  | lessEqual => "<="
  | greater => ">"
  | greaterEqual => ">="
  | and => "&&"
  | or => "||"

/-- The binding level: an operator of a higher level binds its operands first. -/
def precedence : Operator → Nat
  | mul | div => 5
  | add | sub => 4
  | less | lessEqual | greater | greaterEqual => 3
  | equal | unequal => 2
  | and => 1
  | or => 0

end Operator

end UiScript
