import UiScript.Reading.Cursor

/-!
# Chains of operators

Operands with operators between them are read into one flat expression; what the operators mean is settled when the
expression is evaluated. A chain that breaks off keeps what was read of it.
-/

namespace UiScript.Reading

theorem Cursor.length_rest_skip_le (p : TokenKind → Bool) (c : Cursor) : (c.skip p).rest.length ≤ c.rest.length :=
  (List.dropWhile_sublist _).length_le

/-- What follows the first operand: operators and operands in turn. -/
structure Tail where
  parts : List Element
  problem : Option Problem
  cursor : Cursor

/-- The second of two operators in a row is passed over, with a problem. -/
def skipOperator (op : Operator) (multiline : Bool) (c : Cursor) : Option Problem × Cursor :=
  match c.rest with
  | t :: ts =>
    match t.kind with
    | .operator next => (some (.operatorAfter next op), (c.past t ts).skipTrivia multiline)
    | _ => (none, c)
  | [] => (none, c)

/-- Reads operators, each with the operand after it. -/
def chainTail (multiline : Bool) (operand : Cursor → Element × Cursor) (c : Cursor) : Tail :=
  match (c.skipTrivia multiline).rest with
  | [] => ⟨[], none, c.skipTrivia multiline⟩
  | t :: ts =>
    match t.kind with
    | .operator op =>
      let sign := Element.leaf (tokenInfo t none) (.operator op)
      let (doubled, ahead) := skipOperator op multiline (((c.skipTrivia multiline).past t ts).skipTrivia multiline)
      if ahead.kind?.any TokenKind.startsOperand then
        let (right, after) := operand ahead
        if after.rest.length < c.rest.length then
          let tail := chainTail multiline operand after
          ⟨sign :: right :: tail.parts, Problem.note doubled tail.problem, tail.cursor⟩
        else ⟨[sign, right], doubled, after⟩
      else ⟨[sign], Problem.note doubled (some (.operandMissing op)), ahead⟩
    | _ => ⟨[], none, c.skipTrivia multiline⟩
termination_by c.rest.length

/-- Reads an element: an operand, or an expression if an operator follows it. -/
def chain (s : Source) (multiline : Bool) (operand : Cursor → Element × Cursor) (c : Cursor) : Element × Cursor :=
  let (first, after) := operand c
  let tail := chainTail multiline operand after
  if tail.parts.isEmpty then (first, tail.cursor)
  else
    let span : Span := ⟨first.info.span.start, tail.cursor.lastStop⟩
    (.expression (s.info span first.info.line tail.problem) (first :: tail.parts) none, tail.cursor)

end UiScript.Reading
