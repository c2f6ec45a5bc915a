import UiScript.Element.Tree
import UiScript.Scope

/-!
# Substitution

Replaces the variables of an element by their values. Parts without variables stay as they are, blocks are left for
later, and the keys of dictionaries are always strings. A variable without a value stays, with a fatal problem.
-/

namespace UiScript

/-- What stands in the place of a variable. Where a string is asked for, every value is given by its text. -/
def resolveVariable (scope : Scope) (forced : Bool) (i : Info) (name : String) : Element :=
  match scope.lookup name with
  | none => .leaf { i with problem := Problem.note i.problem (some (.unboundVariable name)) } (.reference name)
  | some value =>
    let asString := Element.leaf i (.string value.asText '"')
    if forced then asString
    else
      match value with
      | .boolean b => .leaf i (.boolean b)
      | .number x => if x.isFinite then .leaf i (numberLeaf x) else asString
      | .structured v => (v.element i.toPlace).noting i.problem
      | .text _ => asString

mutual

/-- The element with its variables replaced. The items of an array are compared again once they are known. -/
def Element.substitute (scope : Scope) (forced : Bool) : Element → Element
  | .leaf i (.reference name) => resolveVariable scope forced i name
  | .leaf i l => .leaf i l
  | .tuple i items trailing =>
    if anyVariable items then .tuple i (substituteAll scope forced items) trailing else .tuple i items trailing
  | .array i items =>
    if anyVariable items then
      let replaced := substituteAll scope forced items
      .array { i with problem := Problem.note i.problem (mixedKinds? replaced) } replaced
    else .array i items
  | .json i entries =>
    if anyEntryVariable entries then .json i (substituteEntries scope forced entries) else .json i entries
  | .expression i parts resolved =>
    if anyVariable parts then .expression i (substituteAll scope forced parts) none else .expression i parts resolved
  | .block i commands text => .block i commands text

/-- Several elements with their variables replaced. -/
def substituteAll (scope : Scope) (forced : Bool) : List Element → List Element
  | [] => []
  | e :: es => e.substitute scope forced :: substituteAll scope forced es

/-- An entry with its variables replaced. -/
def Entry.substitute (scope : Scope) (forced : Bool) : Entry → Entry
  | .pair k v => .pair (k.substitute scope true) (v.substitute scope forced)
  | .bare k => .bare (k.substitute scope true)

/-- Several entries with their variables replaced. -/
def substituteEntries (scope : Scope) (forced : Bool) : List Entry → List Entry
  | [] => []
  | e :: es => e.substitute scope forced :: substituteEntries scope forced es

end

/-! ## Lists -/

@[simp] theorem substituteAll_eq_map (scope : Scope) (forced : Bool) (es : List Element) :
    substituteAll scope forced es = es.map (·.substitute scope forced) := by
  induction es with
  | nil => simp [substituteAll]
  | cons e es ih => simp [substituteAll, ih]

@[simp] theorem substituteEntries_eq_map (scope : Scope) (forced : Bool) (es : List Entry) :
    substituteEntries scope forced es = es.map (·.substitute scope forced) := by
  induction es with
  | nil => simp [substituteEntries]
  | cons e es ih => simp [substituteEntries, ih]

end UiScript
