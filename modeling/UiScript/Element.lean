import UiScript.Problem
import UiScript.Text.Utf8

/-!
# Elements and commands

The tree of a script. The argument of a command is an element: a leaf, a container, a chain of operators, or a block of
further commands. Every element knows its place in the script and has room for one problem of its own; whether a whole
tree is sound is a question about all of its parts.
-/

namespace UiScript

open Text

/-- Where something stands: its span, its line, and the text of the span. -/
structure Place where
  span : Span
  line : Nat
  source : String
deriving DecidableEq, Repr, Inhabited

/-- The place of a span in a text. A span that does not fit the text has an empty source. -/
def Place.within (text : List Char) (span : Span) (line : Nat) : Place :=
  ⟨span, line, String.ofList (slice text span.start span.stop)⟩

/-- What every element carries: its place and its own problem. -/
structure Info extends Place where
  problem : Option Problem := none
deriving DecidableEq, Repr, Inhabited

/-- The elements without parts. -/
inductive Leaf where
  | ident (name : String)
  | boolean (value : Bool)
  | number (digits : String) (negative float : Bool)
  | string (value : String) (quote : Char)
  | reference (name : String)
  | operator (op : Operator)
  | char (c : Char)
  | unknown
deriving DecidableEq, Repr, Inhabited

/-- The outcome of an expression: its kind, its text, and the operator that was applied last, if the text needs
parentheses by it. -/
structure Resolved where
  kind : Kind
  text : String
  operator : Option Operator
deriving DecidableEq, Repr, Inhabited

/-- What every command carries: its name, its place, its text, and its own problem. -/
structure Heading where
  name : String
  line : Nat
  span : Span
  text : String
  problem : Option Problem := none
deriving DecidableEq, Repr, Inhabited

mutual

/-- An element of a script. -/
inductive Element where
  | leaf (info : Info) (leaf : Leaf)
  | tuple (info : Info) (items : List Element) (trailingComma : Bool)
  | array (info : Info) (items : List Element)
  | json (info : Info) (entries : List Entry)
  | expression (info : Info) (parts : List Element) (resolved : Option Resolved)
  | block (info : Info) (commands : List Command) (text : String)

/-- An entry of a dictionary; one whose value is missing has only a key. -/
inductive Entry where
  | pair (key value : Element)
  | bare (key : Element)

/-- A command, with or without an argument. -/
inductive Command where
  | bare (head : Heading)
  | given (head : Heading) (argument : Element)

end

instance : Inhabited Element := ⟨.leaf default default⟩

instance : Inhabited Command := ⟨.bare default⟩

namespace Leaf

/-- The kind of a leaf. -/
def kind : Leaf → Kind
  | ident _ => .ident
  | boolean _ => .boolean
  | number .. => .number
  | string .. => .string
  | reference _ => .reference
  | operator _ => .operator
  | char _ => .char
  | unknown => .unknown

end Leaf

namespace Element

/-- The place and the own problem of an element. -/
def info : Element → Info
  | leaf i _ | tuple i _ _ | array i _ | json i _ | expression i _ _ | block i _ _ => i

/-- The same element with other place and problem. -/
def withInfo (i : Info) : Element → Element
  | leaf _ l => leaf i l
  | tuple _ items t => tuple i items t
  | array _ items => array i items
  | json _ entries => json i entries
  | expression _ parts r => expression i parts r
  | block _ commands text => block i commands text

/-- The own problem of an element. -/
def problem (e : Element) : Option Problem := e.info.problem

/-- The element with one more problem noted on it. -/
def noting (e : Element) (p : Option Problem) : Element :=
  e.withInfo { e.info with problem := Problem.note e.problem p }

/-- The kind of an element. -/
def kind : Element → Kind
  | leaf _ l => l.kind
  | tuple .. => .tuple
  | array .. => .array
  | json .. => .json
  | expression .. => .expression
  | block .. => .block

/-- The kind of the value of an element: that of the outcome for a resolved expression. -/
def valueKind : Element → Kind
  | expression _ _ (some r) => r.kind
  | e => e.kind

/-- Whether the value kind of an element is settled: it has no problem of its own and waits for no variable and no
operator. -/
def isDecided (e : Element) : Bool :=
  e.problem.isNone &&
    match e with
    | leaf _ (.reference _) | leaf _ .unknown | expression _ _ none => false
    | _ => true

end Element

namespace Entry

/-- The key of an entry. -/
def key : Entry → Element
  | pair k _ | bare k => k

/-- The value of an entry. -/
def value? : Entry → Option Element
  | pair _ v => some v
  | bare _ => none

/-- Key and value. -/
def parts : Entry → List Element
  | pair k v => [k, v]
  | bare k => [k]

end Entry

namespace Command

/-- The name, place, text and own problem of a command. -/
def head : Command → Heading
  | bare h | given h _ => h

/-- The argument of a command. -/
def argument? : Command → Option Element
  | bare _ => none
  | given _ a => some a

/-- A command from its head and its argument. -/
def make (head : Heading) : Option Element → Command
  | none => bare head
  | some a => given head a

/-- The same command with another argument. -/
def withArgument (c : Command) (argument : Option Element) : Command := make c.head argument

/-- The name of a command. -/
def name (c : Command) : String := c.head.name

/-- The line a command starts on. -/
def line (c : Command) : Nat := c.head.line

end Command

/-- The parts that an element is made of; the commands of a block are none. -/
def Element.children : Element → List Element
  | .tuple _ items _ | .array _ items => items
  | .json _ entries => entries.flatMap Entry.parts
  | .expression _ parts _ => parts
  | .leaf .. | .block .. => []

/-- The first item of a settled kind other than that of the first item, with its position counted from `position`. -/
def findOther (expected : Kind) (position : Nat) : List Element → Option Problem
  | [] => none
  | e :: es =>
    if e.isDecided && e.valueKind != expected then some (.mixedArray expected e.valueKind position)
    else findOther expected (position + 1) es

/-- The problem of an array whose items are not of one kind. Items of an unsettled kind are passed over, and nothing is
said if the first item is such a one. -/
def mixedKinds? : List Element → Option Problem
  | [] => none
  | e :: es => if e.isDecided then findOther e.valueKind 1 es else none

end UiScript
