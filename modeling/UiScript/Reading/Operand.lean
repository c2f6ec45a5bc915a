import UiScript.Reading.Statement

/-!
# Operands

An operand is a leaf or a container. Reading a container takes one of the levels that are left; at level zero the
whole container is passed over. A block is read as a script of its own, from the tokens between its braces.
-/

namespace UiScript.Reading

/-! ## Leaves -/

/-- A leaf made of one token. -/
def ofToken (t : Token) (leaf : Leaf) : Element := .leaf (tokenInfo t (t.error.map Problem.lexical)) leaf

/-- A leaf made of one token that should not stand here. -/
def stray (t : Token) (leaf : Leaf) (problem : Problem) : Element := .leaf (tokenInfo t (some problem)) leaf

/-- Reads what a minus sign starts: a negative number, if a number stands right after it. -/
def negative (s : Source) (t : Token) (c : Cursor) : Element × Cursor :=
  match c.rest with
  | [] => (stray t (.operator .sub) .numberMissing, c)
  | u :: us =>
    match u.kind with
    | .number float =>
      if u.span.start = t.span.stop then
        (.leaf (s.info (t.span.merge u.span) t.line (u.error.map Problem.lexical)) (.number u.text true float),
          c.past u us)
      else (stray t (.operator .sub) .numberMissing, c)
    | _ => (stray t (.operator .sub) .numberMissing, c)

/-- Whether a token can be the name in a variable reference. -/
def isName : TokenKind → Bool
  | .word | .boolean _ => true
  | _ => false

/-- Reads what a bar starts: a variable reference, whose three tokens follow each other directly. -/
def reference (s : Source) (t : Token) (c : Cursor) : Element × Cursor :=
  match c.rest with
  | [] => (stray t (.char '|') .nameMissing, c)
  | n :: ns =>
    if isName n.kind then
      let unclosed :=
        (.leaf (s.info (t.span.merge n.span) t.line (some (.unclosedVariable n.text))) (.reference n.text), c.past n ns)
      match ns with
      | [] => unclosed
      | u :: us =>
        if u.kind = .pipe then
          (.leaf (s.info (t.span.merge u.span) t.line none) (.reference n.text), (c.past n ns).past u us)
        else unclosed
    else (stray t (.char '|') .nameMissing, c)

/-- Reads an operand that is not a container. -/
def leaf (s : Source) (c : Cursor) : Element × Cursor :=
  match c.rest with
  | [] => (c.missing s .elementMissing, c)
  | t :: ts =>
    let after := c.past t ts
    match t.kind with
    | .string value quote => (ofToken t (.string value quote), after)
    | .number float => (ofToken t (.number t.text false float), after)
    | .boolean b => (ofToken t (.boolean b), after)
    | .word => (ofToken t (.ident t.text), after)
    | .pipe => reference s t after
    | .operator .sub => negative s t after
    | .operator op => (stray t (.operator op) (.strayOperator op), after)
    | .unknown ch => (stray t (.char ch) (.strayCharacter ch), after)
    | .newline | .comment => (c.missing s .elementMissingOnLine, c)
    | .opening _ | .closing _ | .comma | .colon =>
      (stray t (.char (t.text.toList.headD '\x00')) (.strayMark t.text), after)

/-! ## Containers -/

/-- The group that the tokens ahead open, if they open one. The word `block` opens one only before a brace. -/
def opens? : List Token → Option Group
  | [] => none
  | t :: ts =>
    match t.kind with
    | .opening .round => some .tuple
    | .opening .square => some .array
    | .opening .curly => some .json
    | .word =>
      if t.text = "block" ∧ (ts.find? (!·.kind.isTrivia)).any (·.kind == .opening .curly) then some .block else none
    | _ => none

/-- The cursor after the bracket that closes the container ahead, inside which `depth` brackets are open. -/
def skipGroup (depth stop : Nat) : List Token → Cursor
  | [] => ⟨[], stop⟩
  | t :: ts =>
    let stop := if t.kind.isTrivia then stop else t.span.stop
    match t.kind with
    | .opening _ => skipGroup (depth + 1) stop ts
    | .closing _ => if depth ≤ 1 then ⟨ts, stop⟩ else skipGroup (depth - 1) stop ts
    | _ => skipGroup depth stop ts

/-- A container beyond the last level, passed over as a whole. -/
def tooDeep (s : Source) (c : Cursor) : Element × Cursor :=
  let after := skipGroup 0 c.lastStop c.rest
  (.leaf (s.info ⟨c.position s, after.lastStop⟩ (c.line s) (some .tooDeep)) .unknown, after)

/-- The tokens before the brace that closes a block, and that brace with the tokens after it. -/
def splitBlock : Nat → List Token → List Token × Option (Token × List Token)
  | _, [] => ([], none)
  | depth, t :: ts =>
    match t.kind, depth with
    | .closing .curly, 0 => ([], some (t, ts))
    | .closing .curly, depth + 1 => let (inside, rest) := splitBlock depth ts; (t :: inside, rest)
    | .opening .curly, depth => let (inside, rest) := splitBlock (depth + 1) ts; (t :: inside, rest)
    | _, depth => let (inside, rest) := splitBlock depth ts; (t :: inside, rest)

/-- Reads the block that the word `t` starts. -/
def block (catalog : Catalog) (s : Source) (element : Source → Cursor → Element × Cursor) (t : Token) (c : Cursor) :
    Element × Cursor :=
  match c.skipBlank.rest with
  | [] => (c.missing s .elementMissing, c)
  | brace :: ts =>
    let start := brace.span.stop
    let (inside, close) := splitBlock 0 ts
    let (innerStop, stop, problem, after) : Nat × Nat × Option Problem × Cursor :=
      match close with
      | some (u, us) => (u.span.start, u.span.stop, none, ⟨us, u.span.stop⟩)
      | none => (s.stop, s.stop, some (.unclosed .block), ⟨[], lastStopOf brace.span.stop ts⟩)
    let inner : Source := ⟨s.text, innerStop, lastLineOf brace.line inside⟩
    let read := commands catalog inner (element inner) ⟨inside, start⟩
    (.block (s.info ⟨t.span.start, stop⟩ t.line problem) read (s.slice ⟨start, innerStop⟩), after)

/-- Reads an operand, in which at most `levels` containers stand inside each other. -/
def operand (catalog : Catalog) : Nat → Source → Bool → Cursor → Element × Cursor
  | 0, s, multiline, c =>
    match opens? (c.skipTrivia multiline).rest with
    | none => leaf s (c.skipTrivia multiline)
    | some _ => tooDeep s (c.skipTrivia multiline)
  | levels + 1, s, multiline, c =>
    let ahead := c.skipTrivia multiline
    match opens? ahead.rest, ahead.rest with
    | some group, t :: ts =>
      let inside := chain s true (operand catalog levels s true)
      match group with
      | .tuple => tuple s inside t (ahead.past t ts)
      | .array => array s inside t (ahead.past t ts)
      | .json => json s inside t (ahead.past t ts)
      | .block =>
        block catalog s (fun inner => chain inner false (operand catalog levels inner false)) t (ahead.past t ts)
    | _, _ => leaf s ahead

end UiScript.Reading
