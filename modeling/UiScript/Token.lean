import UiScript.Operator
import UiScript.Span

/-!
# Tokens

The words and marks that a script is made of. A token keeps its own text, its span in the script and its line; a
lexical mistake stays on the token that holds it.
-/

namespace UiScript

/-- The three kinds of brackets. -/
inductive Bracket where
  | round | square | curly
deriving DecidableEq, Repr, Inhabited

/-- The closing mark of a kind of brackets. -/
def Bracket.closer : Bracket → Char
  | round => ')'
  | square => ']'
  | curly => '}'

/-- What a token is. -/
inductive TokenKind where
  | string (value : String) (quote : Char)
  | number (float : Bool)
  | word
  | boolean (value : Bool)
  | opening (bracket : Bracket)
  | closing (bracket : Bracket)
  | comma
  | colon
  | pipe
  | operator (op : Operator)
  | newline
  | comment
  | unknown (c : Char)
deriving DecidableEq, Repr, Inhabited

namespace TokenKind

/-- Whether the token closes a bracket. -/
def isCloser : TokenKind → Bool
  | closing _ => true
  | _ => false

/-- Comments and line ends. -/
def isTrivia : TokenKind → Bool
  | newline | comment => true
  | _ => false

/-- Whether an operand can start here; an operator never does. -/
def startsOperand : TokenKind → Bool
  | string .. | number _ | boolean _ | word | pipe | opening _ | unknown _ => true
  | _ => false

end TokenKind

/-- A mistake inside a single token. -/
inductive LexicalError where
  /-- The text ends inside a string. -/
  | unclosedString (quote : Char)
  /-- A number with more than one point. -/
  | extraPoint
deriving DecidableEq, Repr, Inhabited

namespace LexicalError

/-- The wording of the mistake. -/
def message : LexicalError → String
  | unclosedString quote => "unclosed string: missing `" ++ quote.toString ++ "`"
  | extraPoint => "unexpected `.` in number: a number can only contain one `.`"

/-- An open quote swallows the rest of the text, so nothing after it can be trusted. -/
def isFatal : LexicalError → Bool
  | unclosedString _ => true
  | extraPoint => false

end LexicalError

/-- A token with its place in the script. -/
structure Token where
  kind : TokenKind
  span : Span
  line : Nat
  text : String
  error : Option LexicalError := none
deriving DecidableEq, Repr, Inhabited

/-- How a token is named in a message. -/
def Token.describe (t : Token) : String := if t.kind = .newline then "newline" else t.text

end UiScript
