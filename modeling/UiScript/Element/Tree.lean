import UiScript.Diagnostic
import UiScript.Element
import UiScript.Text.Class

/-!
# Questions about whole trees

What holds of an element through all of its parts. Variables, unresolved expressions and blocks are looked for outside
blocks only, since the commands of a block wait until they are run; problems are looked for inside blocks too.
-/

namespace UiScript

open Text

/-- Whether a problem is there and fatal. -/
def isFatalProblem (p : Option Problem) : Bool := p.any Problem.isFatal

/-- What is kept of two problems is fatal if one of them is. -/
theorem isFatalProblem_note (p q : Option Problem) :
    isFatalProblem (Problem.note p q) = (isFatalProblem p || isFatalProblem q) := by
  rcases p with _ | p
  · rw [Problem.note_none_left]
    rfl
  rcases q with _ | q
  · rw [Problem.note_none_right]
    exact (Bool.or_false _).symm
  cases hp : p.isFatal <;> cases hq : q.isFatal <;> simp [Problem.note, isFatalProblem, hp, hq]

/-! ## Outside blocks -/

mutual

/-- Whether a variable occurs outside blocks. -/
def Element.hasVariable : Element → Bool
  | .leaf _ (.reference _) => true
  | .leaf .. => false
  | .tuple _ items _ => anyVariable items
  | .array _ items => anyVariable items
  | .json _ entries => anyEntryVariable entries
  | .expression _ parts _ => anyVariable parts
  | .block .. => false

/-- Whether a variable occurs in one of the elements. -/
def anyVariable : List Element → Bool
  | [] => false
  | e :: es => e.hasVariable || anyVariable es

/-- Whether a variable occurs in an entry. -/
def Entry.hasVariable : Entry → Bool
  | .pair k v => k.hasVariable || v.hasVariable
  | .bare k => k.hasVariable

/-- Whether a variable occurs in one of the entries. -/
def anyEntryVariable : List Entry → Bool
  | [] => false
  | e :: es => e.hasVariable || anyEntryVariable es

end

mutual

/-- Whether an expression without an outcome occurs outside blocks. -/
def Element.hasUnresolved : Element → Bool
  | .leaf .. => false
  | .tuple _ items _ => anyUnresolved items
  | .array _ items => anyUnresolved items
  | .json _ entries => anyEntryUnresolved entries
  | .expression _ _ none => true
  | .expression _ parts (some _) => anyUnresolved parts
  | .block .. => false

/-- Whether an expression without an outcome occurs in one of the elements. -/
def anyUnresolved : List Element → Bool
  | [] => false
  | e :: es => e.hasUnresolved || anyUnresolved es

/-- Whether an expression without an outcome occurs in an entry. -/
def Entry.hasUnresolved : Entry → Bool
  | .pair k v => k.hasUnresolved || v.hasUnresolved
  | .bare k => k.hasUnresolved

/-- Whether an expression without an outcome occurs in one of the entries. -/
def anyEntryUnresolved : List Entry → Bool
  | [] => false
  | e :: es => e.hasUnresolved || anyEntryUnresolved es

end

mutual

/-- Whether the element is written out in full: scalars, and containers of such with every value present. -/
def Element.isLiteral : Element → Bool
  | .leaf _ (.ident _) | .leaf _ (.boolean _) | .leaf _ (.number ..) | .leaf _ (.string ..) => true
  | .leaf .. => false
  | .tuple _ items _ => allLiteral items
  | .array _ items => allLiteral items
  | .json _ entries => allEntriesLiteral entries
  | .expression .. => false
  | .block .. => false

/-- Whether all elements are written out in full. -/
def allLiteral : List Element → Bool
  | [] => true
  | e :: es => e.isLiteral && allLiteral es

/-- Whether key and value are there and written out in full. -/
def Entry.isLiteral : Entry → Bool
  | .pair k v => k.isLiteral && v.isLiteral
  | .bare _ => false

/-- Whether all entries are written out in full. -/
def allEntriesLiteral : List Entry → Bool
  | [] => true
  | e :: es => e.isLiteral && allEntriesLiteral es

end

mutual

/-- The commands of the outermost blocks, in reading order. -/
def Element.blockCommands : Element → List Command
  | .leaf .. => []
  | .tuple _ items _ => blockCommandsOf items
  | .array _ items => blockCommandsOf items
  | .json _ entries => entryBlockCommands entries
  | .expression _ parts _ => blockCommandsOf parts
  | .block _ commands _ => commands

/-- The commands of the outermost blocks of several elements. -/
def blockCommandsOf : List Element → List Command
  | [] => []
  | e :: es => e.blockCommands ++ blockCommandsOf es

/-- The commands of the outermost blocks of an entry. -/
def Entry.blockCommands : Entry → List Command
  | .pair k v => k.blockCommands ++ v.blockCommands
  | .bare k => k.blockCommands

/-- The commands of the outermost blocks of several entries. -/
def entryBlockCommands : List Entry → List Command
  | [] => []
  | e :: es => e.blockCommands ++ entryBlockCommands es

end

/-- Whether a variable occurs in the argument of a command, outside blocks. -/
def Command.hasVariable (c : Command) : Bool := c.argument?.any Element.hasVariable

/-- The commands of the outermost blocks of a command's argument. -/
def Command.blockCommands (c : Command) : List Command :=
  match c.argument? with
  | some a => a.blockCommands
  | none => []

/-! ## Through blocks -/

mutual

/-- Whether some part has a problem. -/
def Element.hasErrors : Element → Bool
  | .leaf i _ => i.problem.isSome
  | .tuple i items _ => i.problem.isSome || anyErrors items
  | .array i items => i.problem.isSome || anyErrors items
  | .json i entries => i.problem.isSome || anyEntryErrors entries
  | .expression i parts _ => i.problem.isSome || anyErrors parts
  | .block i commands _ => i.problem.isSome || anyCommandErrors commands

/-- Whether one of the elements has a problem. -/
def anyErrors : List Element → Bool
  | [] => false
  | e :: es => e.hasErrors || anyErrors es

/-- Whether an entry has a problem. -/
def Entry.hasErrors : Entry → Bool
  | .pair k v => k.hasErrors || v.hasErrors
  | .bare k => k.hasErrors

/-- Whether one of the entries has a problem. -/
def anyEntryErrors : List Entry → Bool
  | [] => false
  | e :: es => e.hasErrors || anyEntryErrors es

/-- Whether a command or its argument has a problem. -/
def Command.hasErrors : Command → Bool
  | .bare h => h.problem.isSome
  | .given h a => h.problem.isSome || a.hasErrors

/-- Whether one of the commands has a problem. -/
def anyCommandErrors : List Command → Bool
  | [] => false
  | c :: cs => c.hasErrors || anyCommandErrors cs

end

mutual

/-- Whether some part has a fatal problem. -/
def Element.hasFatal : Element → Bool
  | .leaf i _ => isFatalProblem i.problem
  | .tuple i items _ => isFatalProblem i.problem || anyFatal items
  | .array i items => isFatalProblem i.problem || anyFatal items
  | .json i entries => isFatalProblem i.problem || anyEntryFatal entries
  | .expression i parts _ => isFatalProblem i.problem || anyFatal parts
  | .block i commands _ => isFatalProblem i.problem || anyCommandFatal commands

/-- Whether one of the elements has a fatal problem. -/
def anyFatal : List Element → Bool
  | [] => false
  | e :: es => e.hasFatal || anyFatal es

/-- Whether an entry has a fatal problem. -/
def Entry.hasFatal : Entry → Bool
  | .pair k v => k.hasFatal || v.hasFatal
  | .bare k => k.hasFatal

/-- Whether one of the entries has a fatal problem. -/
def anyEntryFatal : List Entry → Bool
  | [] => false
  | e :: es => e.hasFatal || anyEntryFatal es

/-- Whether a command or its argument has a fatal problem. -/
def Command.hasFatal : Command → Bool
  | .bare h => isFatalProblem h.problem
  | .given h a => isFatalProblem h.problem || a.hasFatal

/-- Whether one of the commands has a fatal problem. -/
def anyCommandFatal : List Command → Bool
  | [] => false
  | c :: cs => c.hasFatal || anyCommandFatal cs

end

/-- The report of an element's own problem. -/
def Info.diagnostics (i : Info) : Diagnostics := (i.problem.map (Diagnostic.ofProblem · i.line none)).toList

/-- The report of a command's own problem, with the text of the command. -/
def Heading.diagnostics (h : Heading) : Diagnostics :=
  (h.problem.map (Diagnostic.ofProblem · h.line (some (String.ofList (trim h.text.toList))))).toList

mutual

/-- The reports of all problems of an element, each before those of its parts. -/
def Element.diagnostics : Element → Diagnostics
  | .leaf i _ => i.diagnostics
  | .tuple i items _ => i.diagnostics ++ diagnosticsOf items
  | .array i items => i.diagnostics ++ diagnosticsOf items
  | .json i entries => i.diagnostics ++ entryDiagnostics entries
  | .expression i parts _ => i.diagnostics ++ diagnosticsOf parts
  | .block i commands _ => i.diagnostics ++ commandDiagnostics commands

/-- The reports of several elements. -/
def diagnosticsOf : List Element → Diagnostics
  | [] => []
  | e :: es => e.diagnostics ++ diagnosticsOf es

/-- The reports of an entry. -/
def Entry.diagnostics : Entry → Diagnostics
  | .pair k v => k.diagnostics ++ v.diagnostics
  | .bare k => k.diagnostics

/-- The reports of several entries. -/
def entryDiagnostics : List Entry → Diagnostics
  | [] => []
  | e :: es => e.diagnostics ++ entryDiagnostics es

/-- The reports of a command and its argument. -/
def Command.diagnostics : Command → Diagnostics
  | .bare h => h.diagnostics
  | .given h a => h.diagnostics ++ a.diagnostics

/-- The reports of several commands. -/
def commandDiagnostics : List Command → Diagnostics
  | [] => []
  | c :: cs => c.diagnostics ++ commandDiagnostics cs

end

/-! ## Lists -/

@[simp] theorem anyVariable_eq_any (es : List Element) : anyVariable es = es.any Element.hasVariable := by
  induction es with
  | nil => simp [anyVariable]
  | cons e es ih => simp [anyVariable, ih]

@[simp] theorem anyEntryVariable_eq_any (es : List Entry) : anyEntryVariable es = es.any Entry.hasVariable := by
  induction es with
  | nil => simp [anyEntryVariable]
  | cons e es ih => simp [anyEntryVariable, ih]

@[simp] theorem anyUnresolved_eq_any (es : List Element) : anyUnresolved es = es.any Element.hasUnresolved := by
  induction es with
  | nil => simp [anyUnresolved]
  | cons e es ih => simp [anyUnresolved, ih]

@[simp] theorem anyEntryUnresolved_eq_any (es : List Entry) : anyEntryUnresolved es = es.any Entry.hasUnresolved := by
  induction es with
  | nil => simp [anyEntryUnresolved]
  | cons e es ih => simp [anyEntryUnresolved, ih]

@[simp] theorem allLiteral_eq_all (es : List Element) : allLiteral es = es.all Element.isLiteral := by
  induction es with
  | nil => simp [allLiteral]
  | cons e es ih => simp [allLiteral, ih]

@[simp] theorem allEntriesLiteral_eq_all (es : List Entry) : allEntriesLiteral es = es.all Entry.isLiteral := by
  induction es with
  | nil => simp [allEntriesLiteral]
  | cons e es ih => simp [allEntriesLiteral, ih]

@[simp] theorem blockCommandsOf_eq_flatMap (es : List Element) :
    blockCommandsOf es = es.flatMap Element.blockCommands := by
  induction es with
  | nil => simp [blockCommandsOf]
  | cons e es ih => simp [blockCommandsOf, ih]

@[simp] theorem entryBlockCommands_eq_flatMap (es : List Entry) :
    entryBlockCommands es = es.flatMap Entry.blockCommands := by
  induction es with
  | nil => simp [entryBlockCommands]
  | cons e es ih => simp [entryBlockCommands, ih]

@[simp] theorem anyErrors_eq_any (es : List Element) : anyErrors es = es.any Element.hasErrors := by
  induction es with
  | nil => simp [anyErrors]
  | cons e es ih => simp [anyErrors, ih]

@[simp] theorem anyEntryErrors_eq_any (es : List Entry) : anyEntryErrors es = es.any Entry.hasErrors := by
  induction es with
  | nil => simp [anyEntryErrors]
  | cons e es ih => simp [anyEntryErrors, ih]

@[simp] theorem anyCommandErrors_eq_any (es : List Command) : anyCommandErrors es = es.any Command.hasErrors := by
  induction es with
  | nil => simp [anyCommandErrors]
  | cons e es ih => simp [anyCommandErrors, ih]

@[simp] theorem anyFatal_eq_any (es : List Element) : anyFatal es = es.any Element.hasFatal := by
  induction es with
  | nil => simp [anyFatal]
  | cons e es ih => simp [anyFatal, ih]

@[simp] theorem anyEntryFatal_eq_any (es : List Entry) : anyEntryFatal es = es.any Entry.hasFatal := by
  induction es with
  | nil => simp [anyEntryFatal]
  | cons e es ih => simp [anyEntryFatal, ih]

@[simp] theorem anyCommandFatal_eq_any (es : List Command) : anyCommandFatal es = es.any Command.hasFatal := by
  induction es with
  | nil => simp [anyCommandFatal]
  | cons e es ih => simp [anyCommandFatal, ih]

@[simp] theorem diagnosticsOf_eq_flatMap (es : List Element) : diagnosticsOf es = es.flatMap Element.diagnostics := by
  induction es with
  | nil => simp [diagnosticsOf]
  | cons e es ih => simp [diagnosticsOf, ih]

@[simp] theorem entryDiagnostics_eq_flatMap (es : List Entry) : entryDiagnostics es = es.flatMap Entry.diagnostics := by
  induction es with
  | nil => simp [entryDiagnostics]
  | cons e es ih => simp [entryDiagnostics, ih]

@[simp] theorem commandDiagnostics_eq_flatMap (es : List Command) :
    commandDiagnostics es = es.flatMap Command.diagnostics := by
  induction es with
  | nil => simp [commandDiagnostics]
  | cons e es ih => simp [commandDiagnostics, ih]

end UiScript
