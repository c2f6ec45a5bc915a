import UiScript.Kind
import UiScript.Token

/-!
# Problems

What can be wrong with an element or a command. A problem is recorded by its cause; `Problem.message` words it, and
`Problem.isFatal` says whether what follows it can still be read. Each element has room for one problem, and `note` says
which of two stays.
-/

namespace UiScript

/-- What is written between brackets. -/
inductive Group where
  | tuple | array | json | block
deriving DecidableEq, Repr, Inhabited

namespace Group

/-- The kind of element that a group makes. -/
def kind : Group → Kind
  | tuple => .tuple
  | array => .array
  | json => .json
  | block => .block

/-- The brackets around a group. -/
def bracket : Group → Bracket
  | tuple => .round
  | array => .square
  | json | block => .curly

/-- The name of a group in messages. -/
def name (g : Group) : String := g.kind.name

/-- The closing mark of a group. -/
def closer (g : Group) : String := g.bracket.closer.toString

end Group

/-- The operands that an operator takes. -/
inductive Allowed where
  | numbersAndStrings | numbers | booleans
deriving DecidableEq, Repr, Inhabited

namespace Allowed

/-- The name of the operands in messages. -/
def name : Allowed → String
  | numbersAndStrings => "numbers and strings"
  | numbers => "numbers"
  | booleans => "booleans"

/-- Whether operands of a kind are taken. -/
def admits : Allowed → Kind → Bool
  | numbersAndStrings, .number | numbersAndStrings, .string => true
  | numbers, .number => true
  | booleans, .boolean => true
  | _, _ => false

end Allowed

/-- The most containers that can stand inside each other. -/
def maxNesting : Nat := 64

/-- What is wrong with an element or a command. -/
inductive Problem where
  /-- A mistake inside the token. -/
  | lexical (error : LexicalError)
  /-- The text ends where an element is expected. -/
  | elementMissing
  /-- The line ends where an element is expected. -/
  | elementMissingOnLine
  /-- A character that starts no token. -/
  | strayCharacter (c : Char)
  /-- An operator where an element is expected. -/
  | strayOperator (op : Operator)
  /-- A closing bracket, a comma or a colon where an element is expected. -/
  | strayMark (text : String)
  /-- A minus sign without a number right after it. -/
  | numberMissing
  /-- A bar without a name right after it. -/
  | nameMissing
  /-- A variable reference without its second bar. -/
  | unclosedVariable (name : String)
  /-- Two operators in a row. -/
  | operatorAfter (next op : Operator)
  /-- An operator without a second operand. -/
  | operandMissing (op : Operator)
  /-- The text ends inside brackets. -/
  | unclosed (group : Group)
  /-- A mark that has no place between these brackets. -/
  | strayInside (found : String) (group : Group)
  /-- Two items without a comma between them. -/
  | separatorMissing (group : Group) (found : String)
  /-- A dictionary key that is neither a string nor a variable. -/
  | keyKind (kind : Kind) (text : String)
  /-- A dictionary key without a colon. -/
  | colonMissing (key : String)
  /-- A dictionary key without a value. -/
  | valueMissing (key : String)
  /-- More containers inside each other than allowed. -/
  | tooDeep
  /-- An array with items of two kinds. -/
  | mixedArray (expected found : Kind) (position : Nat)
  /-- Something after the only element of a text. -/
  | afterElement (found : String)
  /-- Something after the argument of a command. -/
  | afterArgument (found : String)
  /-- A command that does not start with a name. -/
  | commandNameMissing (found : String)
  /-- A command name without a colon. -/
  | commandColonMissing (name : String)
  /-- A command that the catalog does not hold. -/
  | unknownCommand (name : String)
  /-- A variable without a value. -/
  | unboundVariable (name : String)
  /-- An operand of a kind that the operator does not take. -/
  | badOperand (op : Operator) (text : String) (kind : Kind) (allowed : Allowed)
  /-- A comparison of two kinds. -/
  | incomparable (left : String) (leftKind : Kind) (right : String) (rightKind : Kind)
  /-- A problem in the words of whoever reports it. -/
  | stated (message : String) (fatal : Bool)
deriving DecidableEq, Repr, Inhabited

namespace Problem

/-- A text between backquotes. -/
def quoted (text : String) : String := "`" ++ text ++ "`"

/-- The wording of a problem. -/
def message : Problem → String
  | lexical error => error.message
  | elementMissing => "expected an element, found end of input"
  | elementMissingOnLine => "expected an element, found newline"
  | strayCharacter c => "unexpected character " ++ quoted c.toString
  | strayOperator op => "unexpected operator " ++ quoted op.text
  | strayMark text => "unexpected " ++ quoted text
  | numberMissing => "expected a number after `-`"
  | nameMissing => "expected a variable name after `|`"
  | unclosedVariable name => "missing `|` after variable name " ++ quoted name
  | operatorAfter next op => "unexpected " ++ quoted next.text ++ " after " ++ quoted op.text
  | operandMissing op => "expected an element after " ++ quoted op.text
  | unclosed group => "missing " ++ quoted group.closer ++ " to close " ++ group.name
  | strayInside found group => "unexpected " ++ quoted found ++ " in " ++ group.name
  | separatorMissing group found =>
    "expected `,` or " ++ quoted group.closer ++ " in " ++ group.name ++ ", found " ++ quoted found
  | keyKind kind text =>
    "only strings can be used as keys in JSON dict, found " ++ quoted kind.name ++ " (" ++ quoted text ++ ")"
  | colonMissing key => "expected `:` after key " ++ quoted key ++ " in json"
  | valueMissing key => "expected a value after `:` for key " ++ quoted key
  | tooDeep => "nesting too deep: more than " ++ toString maxNesting ++ " levels"
  | mixedArray expected found position =>
    "all array's elements must be of the same kind: expected array of " ++ quoted expected.name ++
      " (because the first element is of this kind), found " ++ quoted found.name ++ " at position " ++
      toString position
  | afterElement found => "unexpected " ++ quoted found ++ " after element"
  | afterArgument found => "unexpected " ++ quoted found ++ " after command argument"
  | commandNameMissing found => "expected a command name, found " ++ quoted found
  | commandColonMissing name => "expected `:` after command name " ++ quoted name
  | unknownCommand name => "unknown command " ++ quoted name
  | unboundVariable name => "variable " ++ quoted name ++ " not found in options nor environment"
  | badOperand op text kind allowed =>
    "cannot use " ++ quoted op.text ++ " on " ++ quoted text ++ " which is a " ++ quoted kind.name ++
      ": only " ++ allowed.name ++ " are allowed"
  | incomparable left leftKind right rightKind =>
    "cannot compare " ++ quoted left ++ " (" ++ quoted leftKind.name ++ ") with " ++ quoted right ++ " (" ++
      quoted rightKind.name ++ "): both sides must be of the same kind"
  | stated message _ => message

/-- Whether reading stops at the command that has the problem. -/
def isFatal : Problem → Bool
  | lexical error => error.isFatal
  | unclosed _ | tooDeep | commandNameMissing _ | commandColonMissing _ | unknownCommand _ | unboundVariable _ => true
  | stated _ fatal => fatal
  | _ => false

/-- Of two problems in the order they were found, the one that is kept: the first, unless only the second is fatal. -/
def note : Option Problem → Option Problem → Option Problem
  | none, later => later
  | some first, some later => if !first.isFatal && later.isFatal then some later else some first
  | some first, none => some first

/-! ## Keeping one problem -/

@[simp] theorem note_none_left (p : Option Problem) : note none p = p := by cases p <;> rfl

@[simp] theorem note_none_right (p : Option Problem) : note p none = p := by cases p <;> rfl

theorem note_eq_none {p q : Option Problem} : note p q = none ↔ p = none ∧ q = none := by
  cases p <;> cases q <;> simp only [note]
  · simp
  · simp
  · simp
  · split <;> simp

/-- Which problem is kept does not depend on how the notes are grouped. -/
theorem note_assoc (p q r : Option Problem) : note (note p q) r = note p (note q r) := by
  rcases p with _ | p
  · simp
  rcases q with _ | q
  · simp
  rcases r with _ | r
  · simp
  cases hp : p.isFatal <;> cases hq : q.isFatal <;> cases hr : r.isFatal <;> simp [note, hp, hq, hr]

end Problem

end UiScript
