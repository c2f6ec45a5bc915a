import UiScript.Evaluation
import UiScript.Script
import UiScript.Substitution

/-!
# Preparation and checking

A command is prepared by putting in the values of its variables and resolving its expressions; its diagnostics are then
those of the prepared command. Checking needs no values: a command with variables is taken as it stands, every other one
is prepared, and the commands in its blocks are checked in the same way.
-/

namespace UiScript

/-- A prepared command with its diagnostics. -/
structure Prepared where
  command : Command
  diagnostics : Diagnostics

/-- Whether nothing is wrong with the prepared command. -/
def Prepared.isOk (p : Prepared) : Bool := p.diagnostics.isEmpty

/-- Puts in the values of the variables and resolves the expressions. -/
def Command.prepare (scope : Scope) (settings : Settings) (c : Command) : Prepared :=
  let command := c.withArgument (c.argument?.map fun a => (a.substitute scope false).evaluate settings)
  ⟨command, command.diagnostics⟩

/-- The diagnostics of a command itself, without the checks of its blocks. -/
def Command.checkAlone (scope : Scope) (settings : Settings) (c : Command) : Diagnostics :=
  if c.hasVariable then c.diagnostics else (c.prepare scope settings).diagnostics

mutual

/-- The diagnostics of a command and of the commands in its blocks. The problems of these that were found while reading
are among its own; a command that has one, or a variable, is not checked again. -/
def Command.check (scope : Scope) (settings : Settings) : Command → Diagnostics
  | .bare h => (Command.bare h).checkAlone scope settings
  | .given h a => (Command.given h a).checkAlone scope settings ++ a.checkBlocks scope settings

/-- The checks of the commands in the outermost blocks of an element. -/
def Element.checkBlocks (scope : Scope) (settings : Settings) : Element → Diagnostics
  | .leaf .. => []
  | .tuple _ items _ => checkBlocksOf scope settings items
  | .array _ items => checkBlocksOf scope settings items
  | .json _ entries => checkEntryBlocks scope settings entries
  | .expression _ parts _ => checkBlocksOf scope settings parts
  | .block _ commands _ => checkCommands scope settings commands

/-- The checks of the commands in the blocks of several elements. -/
def checkBlocksOf (scope : Scope) (settings : Settings) : List Element → Diagnostics
  | [] => []
  | e :: es => e.checkBlocks scope settings ++ checkBlocksOf scope settings es

/-- The checks of the commands in the blocks of an entry. -/
def Entry.checkBlocks (scope : Scope) (settings : Settings) : Entry → Diagnostics
  | .pair k v => k.checkBlocks scope settings ++ v.checkBlocks scope settings
  | .bare k => k.checkBlocks scope settings

/-- The checks of the commands in the blocks of several entries. -/
def checkEntryBlocks (scope : Scope) (settings : Settings) : List Entry → Diagnostics
  | [] => []
  | e :: es => e.checkBlocks scope settings ++ checkEntryBlocks scope settings es

/-- The checks of those commands of a block that are sound and have no variable. -/
def checkCommands (scope : Scope) (settings : Settings) : List Command → Diagnostics
  | [] => []
  | c :: cs =>
    (if !c.hasVariable && !c.hasErrors then c.check scope settings else []) ++ checkCommands scope settings cs

end

/-- The checks of all commands of a script. -/
def Script.check (scope : Scope) (settings : Settings) (s : Script) : Diagnostics :=
  s.commands.flatMap (·.check scope settings)

/-! ## Blocks -/

/-- The check of a command that stands in a block. -/
def Command.checkInside (scope : Scope) (settings : Settings) (c : Command) : Diagnostics :=
  if !c.hasVariable && !c.hasErrors then c.check scope settings else []

@[simp] theorem checkCommands_eq_flatMap (scope : Scope) (settings : Settings) (cs : List Command) :
    checkCommands scope settings cs = cs.flatMap (·.checkInside scope settings) := by
  induction cs with
  | nil => simp [checkCommands]
  | cons c cs ih => simp [checkCommands, Command.checkInside, ih]

mutual

/-- The checks in the blocks of an element are those of the commands that these blocks hold. -/
theorem Element.checkBlocks_eq_flatMap (scope : Scope) (settings : Settings) : (e : Element) →
    e.checkBlocks scope settings = e.blockCommands.flatMap (·.checkInside scope settings)
  | .leaf .. => by simp [Element.checkBlocks, Element.blockCommands]
  | .tuple _ items _ => by
    simpa [Element.checkBlocks, Element.blockCommands] using checkBlocksOf_eq_flatMap scope settings items
  | .array _ items => by
    simpa [Element.checkBlocks, Element.blockCommands] using checkBlocksOf_eq_flatMap scope settings items
  | .json _ entries => by
    simpa [Element.checkBlocks, Element.blockCommands] using checkEntryBlocks_eq_flatMap scope settings entries
  | .expression _ parts _ => by
    simpa [Element.checkBlocks, Element.blockCommands] using checkBlocksOf_eq_flatMap scope settings parts
  | .block _ commands _ => by simp [Element.checkBlocks, Element.blockCommands]

theorem checkBlocksOf_eq_flatMap (scope : Scope) (settings : Settings) : (es : List Element) →
    checkBlocksOf scope settings es = (blockCommandsOf es).flatMap (·.checkInside scope settings)
  | [] => by simp [checkBlocksOf]
  | e :: es => by
    have h := Element.checkBlocks_eq_flatMap scope settings e
    have hs := checkBlocksOf_eq_flatMap scope settings es
    rw [checkBlocksOf, blockCommandsOf, List.flatMap_append, h, hs]

theorem Entry.checkBlocks_eq_flatMap (scope : Scope) (settings : Settings) : (e : Entry) →
    e.checkBlocks scope settings = e.blockCommands.flatMap (·.checkInside scope settings)
  | .pair k v => by
    have hk := Element.checkBlocks_eq_flatMap scope settings k
    have hv := Element.checkBlocks_eq_flatMap scope settings v
    rw [Entry.checkBlocks, Entry.blockCommands, List.flatMap_append, hk, hv]
  | .bare k => by
    have hk := Element.checkBlocks_eq_flatMap scope settings k
    rw [Entry.checkBlocks, Entry.blockCommands, hk]

theorem checkEntryBlocks_eq_flatMap (scope : Scope) (settings : Settings) : (es : List Entry) →
    checkEntryBlocks scope settings es = (entryBlockCommands es).flatMap (·.checkInside scope settings)
  | [] => by simp [checkEntryBlocks]
  | e :: es => by
    have h := Entry.checkBlocks_eq_flatMap scope settings e
    have hs := checkEntryBlocks_eq_flatMap scope settings es
    rw [checkEntryBlocks, entryBlockCommands, List.flatMap_append, h, hs]

end

/-- A check is that of the command itself followed by those of the commands in its blocks. -/
theorem Command.check_eq_append (scope : Scope) (settings : Settings) (c : Command) :
    c.check scope settings =
      c.checkAlone scope settings ++ c.blockCommands.flatMap (·.checkInside scope settings) := by
  cases c with
  | bare h => simp [Command.check, Command.blockCommands, Command.argument?]
  | given h a =>
    simp [Command.check, Command.blockCommands, Command.argument?, Element.checkBlocks_eq_flatMap scope settings a]

end UiScript
