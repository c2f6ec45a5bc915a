import Mathlib.Data.PFun
import UiScript.Script

/-!
# Reading by position

The reader as a machine. It goes through the tokens of a range (`Range`) by position, and beside the position it counts
the brackets that are open, which make line ends blank, and the containers that it is in (`State`). A counter goes up
before a container is read and down after it; the tokens of a block are scanned anew from the range of the block.

A reader has no value where something happens that must not: a position or a cut is out of range, a counter falls below
zero, or a loop does not end. The numbers in `operand` and `element` say how many operands may be open inside each
other.
-/

namespace UiScript.Machine

open Text Reading

/-! ## Ranges and states -/

/-- A range of a text: its tokens, its end, and the line it starts on. -/
structure Range where
  text : List Char
  tokens : List Token
  stop : Nat
  firstLine : Nat
deriving DecidableEq, Repr

/-- How many tokens are read, how many brackets are open in the range, and how many containers are open in the text. -/
structure State where
  position : Nat
  depth : Nat
  nesting : Nat
deriving DecidableEq, Repr

/-- A reader of the machine: what it gives, and the state after it. -/
abbrev Reader (α : Type) : Type := State →. α × State

namespace State

/-- The same counters at another position. -/
def moveTo (st : State) (position : Nat) : State := { st with position }

/-- After the token ahead. -/
def next (st : State) : State := st.moveTo (st.position + 1)

/-- With one more open bracket. -/
def openBracket (st : State) : State := { st with depth := st.depth + 1 }

/-- With one open bracket less. -/
def closeBracket (st : State) : Part State :=
  match st.depth with
  | 0 => .none
  | depth + 1 => return { st with depth }

/-- With one more open container. -/
def enter (st : State) : State := { st with nesting := st.nesting + 1 }

/-- With one open container less. -/
def leave (st : State) : Part State :=
  match st.nesting with
  | 0 => .none
  | nesting + 1 => return { st with nesting }

end State

/-- Repeats a round until it ends with a result (`inl`); otherwise it goes on from where the round ends (`inr`). -/
def loop {α β : Type} (round : α → Part (β ⊕ α)) (a : α) : Part β := PFun.fix round a

namespace Range

/-- The range between two offsets of a text, scanned from the given line on. -/
def ofText (text : List Char) (start stop line : Nat) : Part Range := do
  let _ ← Part.ofOption (slice? text start (min stop (width text)))
  return ⟨text, scanRange text start stop line, min stop (width text), line⟩

/-- The range as the places of elements need it. -/
def source (r : Range) : Source := ⟨r.text, r.stop, lastLineOf r.firstLine r.tokens⟩

/-- The text of a span. -/
def slice (r : Range) (span : Span) : Part String :=
  Part.ofOption ((slice? r.text span.start span.stop).map String.ofList)

/-- How a token is named in a message. -/
def describe (r : Range) (t : Token) : Part String :=
  if t.kind = .newline then return "newline" else r.slice t.span

/-- The token ahead. -/
def current (r : Range) (st : State) : Option Token := r.tokens[st.position]?

/-- The kind of the token ahead. -/
def currentKind (r : Range) (st : State) : Option TokenKind := (r.current st).map Token.kind

/-- The line of the token ahead, of the last token, or the first line. -/
def line (r : Range) (st : State) : Nat :=
  (((r.current st).or r.tokens.getLast?).map Token.line).getD r.firstLine

/-- Where the token ahead starts, or where the range ends. -/
def offset (r : Range) (st : State) : Nat := ((r.current st).map (·.span.start)).getD r.stop

/-- The end of the last token that was read and is neither a comment nor a line end. -/
def lastEnd (r : Range) (st : State) (fallback : Nat) : Part Nat :=
  if st.position ≤ r.tokens.length then
    return (((r.tokens.take st.position).reverse.find? (!·.kind.isTrivia)).map (·.span.stop)).getD fallback
  else .none

/-- An element of no width for one that is not there. -/
def missing (r : Range) (st : State) (problem : Problem) : Element :=
  .leaf (r.source.info ⟨r.offset st, r.offset st⟩ (r.line st) (some problem)) .unknown

/-! ## Passing over tokens -/

/-- Passes over the token ahead if it is of a kind of `p`. -/
def skipRound (r : Range) (p : TokenKind → Bool) (st : State) : Part (State ⊕ State) :=
  match r.currentKind st with
  | some k => if p k then return .inr st.next else return .inl st
  | none => return .inl st

/-- Passes over tokens of the kinds of `p`. -/
def skip (r : Range) (p : TokenKind → Bool) : State →. State := loop (r.skipRound p)

/-- Passes over comments and, where brackets are open, line ends. -/
def skipTrivia (r : Range) (st : State) : Part State :=
  r.skip (fun k => k == .comment || (decide (0 < st.depth) && k == .newline)) st

/-- Passes over comments and line ends. -/
def skipBlank (r : Range) : State →. State := r.skip TokenKind.isTrivia

/-- Passes over comments. -/
def skipComments (r : Range) : State →. State := r.skip (· == .comment)

/-- Goes to the end of the line. -/
def skipLine (r : Range) : State →. State := r.skip (· != .newline)

end Range

/-! ## Containers beyond the last level -/

/-- A container that is passed over: how many brackets are open in it, and whether there was one. -/
structure Passing where
  pending : Nat
  entered : Bool
  state : State

/-- The brackets that are open after one more token. -/
def Passing.count (s : Passing) : TokenKind → Nat × Bool
  | .opening _ => (s.pending + 1, true)
  | .closing _ => (s.pending - 1, s.entered)
  | _ => (s.pending, s.entered)

/-- Passes over one token, which ends the container if it closes the last bracket. -/
def tooDeepRound (r : Range) (s : Passing) : Part (State ⊕ Passing) :=
  match r.currentKind s.state with
  | none => return .inl s.state
  | some k =>
    let (pending, entered) := s.count k
    if entered && pending == 0 then return .inl s.state.next else return .inr ⟨pending, entered, s.state.next⟩

/-- Passes over the container ahead. -/
def tooDeep (r : Range) : Reader Element := fun st => do
  let after ← loop (tooDeepRound r) ⟨0, false, st⟩
  let stop ← r.lastEnd after (r.offset st)
  return (.leaf (r.source.info ⟨r.offset st, stop⟩ (r.line st) (some .tooDeep)) .unknown, after)

/-- Reads a container one level deeper, if there is one. -/
def nested (r : Range) (read : Reader Element) : Reader Element := fun st =>
  if maxNesting ≤ st.nesting then tooDeep r st
  else do
    let (e, after) ← read st.enter
    let after ← after.leave
    return (e, after)

/-! ## Lists between brackets -/

/-- A list as far as it is read. -/
structure Filling (α : Type) where
  items : List α
  awaiting : Bool
  problem : Option Problem
  state : State

/-- The problem of an item that starts with the token `t`, if it needs a comma before it. -/
def separator (r : Range) (g : Group) (awaiting : Bool) (t : Token) : Part (Option Problem) := do
  if awaiting then return none
  else
    let found ← r.describe t
    return some (.separatorMissing g found)

/-- Reads one item, passes over one mark, or ends the list. The result has the end of the list beside it. -/
def fillRound {α : Type} (r : Range) (g : Group) (item : Reader (α × Option Problem)) (s : Filling α) :
    Part ((Filling α × Nat) ⊕ Filling α) := do
  let st ← r.skipTrivia s.state
  match r.current st with
  | none => return .inl (⟨s.items, s.awaiting, Problem.note s.problem (some (.unclosed g)), st⟩, r.stop)
  | some t =>
    if t.kind = .closing g.bracket then return .inl (⟨s.items, s.awaiting, s.problem, st.next⟩, t.span.stop)
    else if t.kind = .comma then
      let problem := if s.awaiting then some (.strayInside "," g) else none
      return .inr ⟨s.items, true, Problem.note s.problem problem, st.next⟩
    else if t.kind.isCloser || t.kind == .colon then
      let found ← r.describe t
      return .inr ⟨s.items, s.awaiting, Problem.note s.problem (some (.strayInside found g)), st.next⟩
    else
      let missing ← separator r g s.awaiting t
      let ((a, problem), after) ← item st
      return .inr ⟨s.items ++ [a], false, Problem.note (Problem.note s.problem missing) problem, after⟩

/-- The start and the line of the token ahead, and the state after it. -/
def opener (r : Range) (st : State) : Nat × Nat × State :=
  match r.current st with
  | some t => (t.span.start, t.line, st.next)
  | none => (r.stop, r.line st, st)

/-- Reads a list from its opening bracket on: its span, its line, and what is in it. -/
def fill {α : Type} (r : Range) (g : Group) (item : Reader (α × Option Problem)) (st : State) :
    Part (Span × Nat × Filling α) := do
  let (start, line, inside) := opener r st
  let (filled, stop) ← loop (fillRound r g item) ⟨[], true, none, inside.openBracket⟩
  let after ← filled.state.closeBracket
  return (⟨start, stop⟩, line, { filled with state := after })

/-- Reads an element as an item of a list. -/
def elementItem (read : Reader Element) : Reader (Element × Option Problem) := fun st => do
  let (e, after) ← read st
  return ((e, none), after)

/-- Reads a tuple. -/
def tuple (r : Range) (read : Reader Element) : Reader Element := fun st => do
  let (span, line, filled) ← fill r .tuple (elementItem read) st
  return (.tuple (r.source.info span line filled.problem) filled.items (filled.awaiting && !filled.items.isEmpty),
    filled.state)

/-- Reads an array. -/
def array (r : Range) (read : Reader Element) : Reader Element := fun st => do
  let (span, line, filled) ← fill r .array (elementItem read) st
  return (.array (r.source.info span line (Problem.note filled.problem (mixedKinds? filled.items))) filled.items,
    filled.state)

/-- Reads a key, a colon and a value. -/
def entry (r : Range) (read : Reader Element) : Reader (Entry × Option Problem) := fun st => do
  let (found, st) ← read st
  let key := found.noting (keyProblem? found)
  let st ← r.skipTrivia st
  if r.currentKind st = some .colon then
    let st ← r.skipTrivia st.next
    match r.currentKind st with
    | none | some .comma | some (.closing .curly) => return ((.bare key, some (.valueMissing key.text)), st)
    | some _ =>
      let (value, st) ← read st
      return ((.pair key value, none), st)
  else return ((.bare key, some (.colonMissing key.text)), st)

/-- Reads a dictionary. -/
def json (r : Range) (read : Reader Element) : Reader Element := fun st => do
  let (span, line, filled) ← fill r .json (entry r read) st
  return (.json (r.source.info span line filled.problem) filled.items, filled.state)

/-! ## Chains of operators -/

/-- An expression as far as it is read. -/
structure Linking where
  parts : List Element
  problem : Option Problem
  state : State

/-- Whether the token ahead is an operator. -/
def operatorAhead (r : Range) (st : State) : Bool :=
  match r.currentKind st with
  | some (.operator _) => true
  | _ => false

/-- Passes over a second operator, with a problem. -/
def skipOperator (r : Range) (op : Operator) (problem : Option Problem) : Reader (Option Problem) := fun st =>
  match r.currentKind st with
  | some (.operator next) => do
    let st ← r.skipTrivia st.next
    return (Problem.note problem (some (.operatorAfter next op)), st)
  | _ => return (problem, st)

/-- Reads an operator with the operand after it. -/
def linkRound (r : Range) (read : Reader Element) (s : Linking) : Part (Linking ⊕ Linking) := do
  let st ← r.skipTrivia s.state
  match r.current st with
  | none => return .inl ⟨s.parts, s.problem, st⟩
  | some t =>
    match t.kind with
    | .operator op =>
      let sign := Element.leaf (tokenInfo t none) (.operator op)
      let st ← r.skipTrivia st.next
      let (problem, st) ← skipOperator r op s.problem st
      if (r.currentKind st).any TokenKind.startsOperand then
        let (right, st) ← read st
        return .inr ⟨s.parts ++ [sign, right], problem, st⟩
      else return .inl ⟨s.parts ++ [sign], Problem.note problem (some (.operandMissing op)), st⟩
    | _ => return .inl ⟨s.parts, s.problem, st⟩

/-- Reads an element: an operand, or an expression if an operator follows it. -/
def chain (r : Range) (read : Reader Element) : Reader Element := fun st => do
  let (first, st) ← read st
  let st ← r.skipTrivia st
  if operatorAhead r st then
    let linked ← loop (linkRound r read) ⟨[first], none, st⟩
    let stop ← r.lastEnd linked.state first.info.span.start
    return (.expression (r.source.info ⟨first.info.span.start, stop⟩ first.info.line linked.problem) linked.parts none,
      linked.state)
  else return (first, st)

/-! ## Commands and blocks -/

/-- Reads a command that cannot be read: the rest of its line is passed over. -/
def brokenCommand (r : Range) (head : Token) (name : String) (problem : Problem) : Reader Command := fun st => do
  let st ← r.skipLine st
  let stop ← r.lastEnd st head.span.stop
  let text ← r.slice ⟨head.span.start, stop⟩
  return (.bare ⟨name, head.line, ⟨head.span.start, stop⟩, text, some problem⟩, st)

/-- Reads the argument of a command, if something stands on its line. -/
def argument (r : Range) (read : Reader Element) : Reader (Option Element) := fun st => do
  let st ← r.skipComments st
  match r.currentKind st with
  | none | some .newline => return (none, st)
  | some _ =>
    let (a, st) ← read st
    return (some a, st)

/-- Passes over what stands after an argument, with a problem if there is something. -/
def lineEnd (r : Range) : Reader (Option Problem) := fun st => do
  let st ← r.skipComments st
  match r.current st with
  | none => return (none, st)
  | some t =>
    if t.kind = .newline then return (none, st)
    else
      let found ← r.describe t
      let st ← r.skipLine st
      return (some (.afterArgument found), st)

/-- Reads the command that starts with the token `head`, which is behind. -/
def command (catalog : Catalog) (r : Range) (read : Reader Element) (head : Token) : Reader Command := fun st => do
  if head.kind = .word then
    let name ← r.slice head.span
    let st ← r.skipComments st
    if r.currentKind st = some .colon then
      if catalog.contains name then
        let (arg, st) ← argument r read st.next
        let (problem, st) ← lineEnd r st
        let stop ← r.lastEnd st head.span.stop
        let text ← r.slice ⟨head.span.start, stop⟩
        return (.make ⟨name, head.line, ⟨head.span.start, stop⟩, text, problem⟩ arg, st)
      else brokenCommand r head name (.unknownCommand name) st.next
    else brokenCommand r head name (.commandColonMissing name) st
  else
    let found ← r.describe head
    brokenCommand r head found (.commandNameMissing found) st

/-- Commands as far as they are read. -/
structure Listed where
  commands : List Command
  state : State

/-- Reads one command, which ends the reading if it has a fatal problem. -/
def commandsRound (catalog : Catalog) (r : Range) (read : Reader Element) (s : Listed) :
    Part (Listed ⊕ Listed) := do
  let st ← r.skipBlank s.state
  match r.current st with
  | none => return .inl ⟨s.commands, st⟩
  | some head =>
    let (found, st) ← command catalog r read head st.next
    if found.hasFatal then return .inl ⟨s.commands ++ [found], st⟩ else return .inr ⟨s.commands ++ [found], st⟩

/-- Reads the commands of a range. -/
def commands (catalog : Catalog) (r : Range) (read : Reader Element) (st : State) : Part (List Command) := do
  let listed ← loop (commandsRound catalog r read) ⟨[], st⟩
  return listed.commands

/-- The position of the brace that closes a block, if that many braces are open in it at the given position. -/
def closing? : Nat → Nat → List Token → Option Nat
  | _, _, [] => none
  | pending, position, t :: ts =>
    match t.kind, pending with
    | .closing .curly, 0 => some position
    | .closing .curly, pending + 1 => closing? pending (position + 1) ts
    | .opening .curly, pending => closing? (pending + 1) (position + 1) ts
    | _, pending => closing? pending (position + 1) ts

/-- Reads a block: the text between its braces is scanned again and read from its first token on. -/
def block (catalog : Catalog) (r : Range) (read : Range → Reader Element) : Reader Element := fun st => do
  let (start, line, st) := opener r st
  let st ← r.skipBlank st
  match r.current st with
  | none => return (r.missing st (.stated "expected `\x7b` after `block`" false), st)
  | some brace =>
    let close := closing? 0 (st.position + 1) (r.tokens.drop (st.position + 1))
    let (innerStop, stop, problem) : Nat × Nat × Option Problem :=
      match close.bind (r.tokens[·]?) with
      | some t => (t.span.start, t.span.stop, none)
      | none => (r.stop, r.stop, some (.unclosed .block))
    let inner ← Range.ofText r.text brace.span.stop innerStop brace.line
    let found ← commands catalog inner (read inner) ⟨0, 0, st.nesting⟩
    let text ← r.slice ⟨brace.span.stop, innerStop⟩
    return (.block (r.source.info ⟨start, stop⟩ line problem) found text,
      st.moveTo ((close.map (· + 1)).getD r.tokens.length))

/-! ## Operands -/

/-- Reads what a minus sign starts. -/
def negative (r : Range) (minus : Token) : Reader Element := fun st =>
  match r.current st with
  | none => return (stray minus (.operator .sub) .numberMissing, st)
  | some u =>
    match u.kind with
    | .number float =>
      if u.span.start = minus.span.stop then do
        let digits ← r.slice u.span
        return (.leaf (r.source.info (minus.span.merge u.span) minus.line (u.error.map Problem.lexical))
          (.number digits true float), st.next)
      else return (stray minus (.operator .sub) .numberMissing, st)
    | _ => return (stray minus (.operator .sub) .numberMissing, st)

/-- Reads what a bar starts. -/
def reference (r : Range) (bar : Token) : Reader Element := fun st =>
  match r.current st with
  | none => return (stray bar (.char '|') .nameMissing, st)
  | some n =>
    if isName n.kind then do
      let name ← r.slice n.span
      match r.current st.next with
      | some u =>
        if u.kind = .pipe then
          return (.leaf (r.source.info (bar.span.merge u.span) bar.line none) (.reference name), st.next.next)
        else
          return (.leaf (r.source.info (bar.span.merge n.span) bar.line (some (.unclosedVariable name)))
            (.reference name), st.next)
      | none =>
        return (.leaf (r.source.info (bar.span.merge n.span) bar.line (some (.unclosedVariable name)))
          (.reference name), st.next)
    else return (stray bar (.char '|') .nameMissing, st)

/-- Whether a brace follows the word ahead. -/
def blockFollows (r : Range) (st : State) : Part Bool :=
  if st.position + 1 ≤ r.tokens.length then
    return ((r.tokens.drop (st.position + 1)).find? (!·.kind.isTrivia)).any (·.kind == .opening .curly)
  else .none

/-- Reads the word ahead: a block if it is the word `block` before a brace, and a name otherwise. -/
def word (catalog : Catalog) (r : Range) (read : Range → Reader Element) (t : Token) : Reader Element := fun st => do
  let name ← r.slice t.span
  let opens ← if name = "block" then blockFollows r st else pure false
  if opens then nested r (block catalog r read) st else return (ofToken t (.ident name), st.next)

/-- Reads an operand, with at most that many operands open inside each other. -/
def operand (catalog : Catalog) : Nat → Range → Reader Element
  | 0, _ => fun _ => .none
  | calls + 1, r => fun st => do
    let read : Range → Reader Element := fun inner => chain inner (operand catalog calls inner)
    let st ← r.skipTrivia st
    match r.current st with
    | none => return (r.missing st .elementMissing, st)
    | some t =>
      match t.kind with
      | .string value quote => return (ofToken t (.string value quote), st.next)
      | .number float =>
        let digits ← r.slice t.span
        return (ofToken t (.number digits false float), st.next)
      | .operator .sub => negative r t st.next
      | .boolean b => return (ofToken t (.boolean b), st.next)
      | .word => word catalog r read t st
      | .pipe => reference r t st.next
      | .opening .round => nested r (tuple r (read r)) st
      | .opening .square => nested r (array r (read r)) st
      | .opening .curly => nested r (json r (read r)) st
      | .operator op => return (stray t (.operator op) (.strayOperator op), st.next)
      | .newline | .comment => return (r.missing st .elementMissingOnLine, st)
      | .unknown c => return (stray t (.char c) (.strayCharacter c), st.next)
      | .closing _ | .comma | .colon =>
        let text ← r.slice t.span
        return (stray t (.char (text.toList.headD '\x00')) (.strayMark text), st.next)

/-- Reads an element, with at most that many operands open inside each other. -/
def element (catalog : Catalog) (calls : Nat) (r : Range) : Reader Element := chain r (operand catalog calls r)

/-! ## Whole texts -/

/-- Reads the commands of a text. -/
def script (catalog : Catalog) (calls : Nat) (text : String) : Part (List Command) := do
  let r ← Range.ofText text.toList 0 (width text.toList) 1
  commands catalog r (element catalog calls r) ⟨0, 0, 0⟩

/-- Closes the bracket that a single element was read in, and notes the token that is left after the element. -/
def trailing (r : Range) (found : Element) (st : State) : Part Element := do
  let st ← r.skipTrivia st
  let _ ← st.closeBracket
  match r.current st with
  | some t =>
    let name ← r.describe t
    return found.noting (some (.afterElement name))
  | none => return found

/-- Reads a text that is a single element. -/
def single (calls : Nat) (text : String) : Part Element := do
  let r ← Range.ofText text.toList 0 (width text.toList) 1
  let st ← r.skipTrivia (State.openBracket ⟨0, 0, 0⟩)
  match r.current st with
  | none => trailing r (r.missing st .elementMissing) st
  | some _ =>
    let (found, st) ← element .any calls r st
    trailing r found st

end UiScript.Machine
