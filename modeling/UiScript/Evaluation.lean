import UiScript.Element.Tree
import UiScript.Equality
import UiScript.Settings

/-!
# Evaluation

Checks the operators of an element and settles what can be settled. A chain is folded strictly from left to right;
arithmetic and comparisons stay text, with the parentheses that keep this order for a reader who knows precedence.
Strings are joined, and containers that are written out in full are compared; other containers are compared by a call
of a helper.
-/

namespace UiScript

/-- An operand of a chain: its kind, its text, the operator that was applied last in its text, and its element if it is
written out in full. -/
structure Operand where
  kind : Kind
  text : String
  operator : Option Operator
  value : Option Element

mutual

/-- The element inside the parentheses of a group; a tuple of one item without a trailing comma is a group. -/
def Element.unwrap : Element → Element
  | .tuple i items false => (unwrapOnly items).getD (.tuple i items false)
  | e => e

/-- The only item of a list, without the parentheses around it. -/
def unwrapOnly : List Element → Option Element
  | [] => none
  | e :: es => if es.isEmpty then some e.unwrap else none

end

namespace Operand

/-- An element as an operand. -/
def ofElement (e : Element) : Operand :=
  match e.unwrap with
  | .expression _ _ (some r) => ⟨r.kind, r.text, r.operator, none⟩
  | inner => ⟨inner.valueKind, inner.text, none, if inner.isLiteral then some inner else none⟩

/-- An operand that is only text. -/
def computed (kind : Kind) (text : String) (operator : Option Operator) : Operand := ⟨kind, text, operator, none⟩

/-- An operand that is a leaf. -/
def ofLeaf (i : Info) (l : Leaf) : Operand := ⟨l.kind, l.text i.source, none, some (.leaf i l)⟩

/-- The text of a string or a number that is written out. -/
def scalar? (o : Operand) : Option String :=
  o.value.bind fun e =>
    match e.kind with
    | .string | .number => some e.stringValue
    | _ => none

/-- The text as a left operand: in parentheses if what it ends with binds less tightly. -/
def asLeft (o : Operand) (op : Operator) : String :=
  match o.operator with
  | some inner => if inner.precedence < op.precedence then "(" ++ o.text ++ ")" else o.text
  | none => o.text

/-- The text as a right operand: in parentheses unless what it ends with binds more tightly. -/
def asRight (o : Operand) (op : Operator) : String :=
  match o.operator with
  | some inner => if inner.precedence ≤ op.precedence then "(" ++ o.text ++ ")" else o.text
  | none => o.text

end Operand

/-- The problem of the first operand that an operator does not take. -/
def badOperand? (op : Operator) (left right : Operand) (allowed : Allowed) : Option Problem :=
  ([left, right].find? fun o => !allowed.admits o.kind).map fun o => .badOperand op o.text o.kind allowed

/-- The operator applied as text, if it takes both operands. -/
def textual (op : Operator) (left right : Operand) (allowed : Allowed) (kind : Kind) : Except Problem Operand :=
  match badOperand? op left right allowed with
  | some p => .error p
  | none => .ok (.computed kind (left.asLeft op ++ " " ++ op.text ++ " " ++ right.asRight op) (some op))

/-- An equality test. Containers that are written out are compared at once, others by a helper. -/
def compareOperands (settings : Settings) (i : Info) (op : Operator) (left right : Operand) :
    Except Problem Operand :=
  if left.kind ≠ right.kind then .error (.incomparable left.text left.kind right.text right.kind)
  else
    match left.kind with
    | .tuple | .array | .json =>
      let negate := op == .unequal
      match left.value, right.value with
      | some a, some b =>
        let equal := if left.kind = .json then a.looseEq b else a.strictEq b
        .ok (.ofLeaf i (.boolean (equal != negate)))
      | _, _ =>
        let helper := if left.kind = .json then settings.jsonHelper else settings.arrayHelper
        let call := (if negate then "!" else "") ++ helper ++ "(" ++ left.text ++ ", " ++ right.text ++ ")"
        .ok (.computed .boolean call none)
    | _ => .ok (.computed .boolean (left.asLeft op ++ " " ++ op.text ++ " " ++ right.asRight op) (some op))

/-- One step of a chain: the operator applied to what was read so far and the next operand. -/
def combine (settings : Settings) (i : Info) (left : Operand) (op : Operator) (right : Operand) :
    Except Problem Operand :=
  match op with
  | .add =>
    if left.kind = .number ∧ right.kind = .number then textual op left right .numbersAndStrings .number
    else
      match textual op left right .numbersAndStrings .string, left.scalar?, right.scalar? with
      | .ok _, some a, some b => .ok (.ofLeaf i (.string (a ++ b) '"'))
      | outcome, _, _ => outcome
  | .sub | .mul | .div => textual op left right .numbers .number
  | .less | .lessEqual | .greater | .greaterEqual => textual op left right .numbers .boolean
  | .and | .or => textual op left right .booleans .boolean
  | .equal | .unequal => compareOperands settings i op left right

/-- Folds the rest of a chain from left to right. There is no outcome for a chain that breaks off. -/
def foldChain (settings : Settings) (i : Info) : Operand → List Element → Option (Except Problem Operand)
  | acc, [] => some (.ok acc)
  | acc, .leaf _ (.operator op) :: right :: rest =>
    match combine settings i acc op (.ofElement right) with
    | .ok next => foldChain settings i next rest
    | .error p => some (.error p)
  | _, _ => none

/-- The outcome of a chain whose parts are evaluated: a problem, an element that is written out, or a text. -/
def resolveChain (settings : Settings) (i : Info) (parts : List Element) : Element :=
  if anyErrors parts then .expression i parts none
  else
    match parts with
    | [] => .expression i parts none
    | first :: rest =>
      match foldChain settings i (.ofElement first) rest with
      | none => .expression i parts none
      | some (.error p) => .expression { i with problem := some p } parts none
      | some (.ok o) => o.value.getD (.expression i parts (some ⟨o.kind, o.text, o.operator⟩))

mutual

/-- The element with its expressions resolved. Expressions with a problem or a variable stay as they are, and so do
blocks. -/
def Element.evaluate (settings : Settings) : Element → Element
  | .leaf i l => .leaf i l
  | .tuple i items trailing =>
    if anyUnresolved items then .tuple i (evaluateAll settings items) trailing else .tuple i items trailing
  | .array i items =>
    if anyUnresolved items then
      let evaluated := evaluateAll settings items
      .array { i with problem := Problem.note i.problem (mixedKinds? evaluated) } evaluated
    else .array i items
  | .json i entries =>
    if anyEntryUnresolved entries then .json i (evaluateEntries settings entries) else .json i entries
  | .expression i parts none =>
    if i.problem.isSome || anyErrors parts || anyVariable parts then .expression i parts none
    else resolveChain settings i (evaluateAll settings parts)
  | .expression i parts (some r) => .expression i parts (some r)
  | .block i commands text => .block i commands text

/-- Several elements with their expressions resolved. -/
def evaluateAll (settings : Settings) : List Element → List Element
  | [] => []
  | e :: es => e.evaluate settings :: evaluateAll settings es

/-- An entry with its expressions resolved. -/
def Entry.evaluate (settings : Settings) : Entry → Entry
  | .pair k v => .pair (k.evaluate settings) (v.evaluate settings)
  | .bare k => .bare (k.evaluate settings)

/-- Several entries with their expressions resolved. -/
def evaluateEntries (settings : Settings) : List Entry → List Entry
  | [] => []
  | e :: es => e.evaluate settings :: evaluateEntries settings es

end

/-! ## Lists -/

@[simp] theorem evaluateAll_eq_map (settings : Settings) (es : List Element) :
    evaluateAll settings es = es.map (·.evaluate settings) := by
  induction es with
  | nil => simp [evaluateAll]
  | cons e es ih => simp [evaluateAll, ih]

@[simp] theorem evaluateEntries_eq_map (settings : Settings) (es : List Entry) :
    evaluateEntries settings es = es.map (·.evaluate settings) := by
  induction es with
  | nil => simp [evaluateEntries]
  | cons e es ih => simp [evaluateEntries, ih]

end UiScript
