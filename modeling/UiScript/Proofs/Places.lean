import UiScript.Proofs.Reading.Placement

/-!
# Every place is exact

Whatever is wrong with a script, each command and each element of it knows exactly where it stands: its span, its line
and its source are those of a part of the text. Where nothing fatal is wrong, arguments lie in their commands, parts in
what they are part of and commands in their blocks, one after the other (`parse_places`).
-/

namespace UiScript

open Text

/-- **Every place is exact.** Take any command of a script, or any command in its blocks at any depth: its place is that
of a part of the text, and so is the place of every element in its argument. If nothing fatal is wrong with the script,
its commands follow each other in the text, arguments lie in their commands, and the parts of every element, or its
commands if it is a block, lie in it one after the other. -/
theorem parse_places (catalog : Catalog) (text : String) :
    (∀ c ∈ (Script.parse catalog text).commands, ∀ d : Command, d.Within c →
      d.place.Exact text.toList ∧ ∀ a, d.argument? = some a → a.Every false fun e => e.place.Exact text.toList) ∧
    ((Script.parse catalog text).hasFatal = false →
      Laid 0 (width text.toList) ((Script.parse catalog text).commands.map (·.place.span)) ∧
      ∀ c ∈ (Script.parse catalog text).commands, ∀ d : Command, d.Within c →
        d.Encloses ∧ ∀ a, d.argument? = some a → a.Every false Element.Encloses) := by
  obtain ⟨hcommands, hlaid⟩ := Reading.parse_placed catalog text
  have hplaced : ∀ c ∈ (Script.parse catalog text).commands, ∀ d : Command, d.Within c →
      Reading.CommandPlaced text.toList d := fun c hc d hd => hd.keeps Reading.CommandPlaced.inside (hcommands c hc)
  refine ⟨fun c hc d hd => ?_, fun hfatal => ⟨hlaid, fun c hc d hd => ?_⟩⟩
  · have hd := hplaced c hc d hd
    exact ⟨hd.command.exact, fun a ha => (hd.argument a ha).shallow.mono fun e he => he.exact⟩
  · rw [Script.hasFatal_eq_any, List.any_eq_false] at hfatal
    have hdfatal : d.hasFatal = false := hd.keeps Command.hasFatal_inside (by simpa using hfatal c hc)
    have hd := hplaced c hc d hd
    refine ⟨hd.command.encloses hdfatal, fun a ha e he => ?_⟩
    have hefatal : e.hasFatal = false := he.keeps Element.hasFatal_child (Command.hasFatal_argument ha hdfatal)
    exact (hd.argument a ha e he.deepen).encloses hefatal

/-- A script of three lines with a mistake that is not fatal: the array in its block holds a string and a number. -/
def mixedArrayScript : Script := .parse .any "é: (1 2,\n block \x7b b: ['ü', 3] \x7d)\nc:"

set_option maxRecDepth 10000 in
/-- The command in the block of that script stands where it should, in the block as in the text, and the items of its
array lie in the array. -/
theorem parse_places_nested :
    mixedArrayScript.hasFatal = false ∧ ∃ c ∈ mixedArrayScript.commands, ∃ d ∈ c.blockCommands,
      d.hasErrors = true ∧ d.place = ⟨⟨19, 31⟩, 2, "b: ['ü', 3]"⟩ ∧ d.place.Exact mixedArrayScript.text.toList ∧
        d.Encloses ∧ ∃ a, d.argument? = some a ∧ a.children.map (·.place.span) = [⟨23, 27⟩, ⟨29, 30⟩] ∧
          a.Encloses := by
  have hfatal : mixedArrayScript.hasFatal = false := by decide +kernel
  have hshape : (mixedArrayScript.commands[0]?.any fun c => c.blockCommands[0]?.any fun d =>
      d.hasErrors && d.place == ⟨⟨19, 31⟩, 2, "b: ['ü', 3]"⟩ &&
        d.argument?.any fun a => a.children.map (·.place.span) == [⟨23, 27⟩, ⟨29, 30⟩]) = true := by decide +kernel
  obtain ⟨c, hc, hshape⟩ := (Option.any_eq_true _ _).mp hshape
  obtain ⟨d, hd, hshape⟩ := (Option.any_eq_true _ _).mp hshape
  simp only [Bool.and_eq_true, beq_iff_eq] at hshape
  obtain ⟨⟨herrors, hplace⟩, hargument⟩ := hshape
  obtain ⟨a, ha, hspans⟩ := (Option.any_eq_true _ _).mp hargument
  have hc := List.mem_of_getElem? hc
  have hd := List.mem_of_getElem? hd
  obtain ⟨hexact, hlaid⟩ := parse_places .any "é: (1 2,\n block \x7b b: ['ü', 3] \x7d)\nc:"
  obtain ⟨hplaced, -⟩ := hexact c hc d (.inside hd (.self d))
  obtain ⟨hencloses, hparts⟩ := (hlaid hfatal).2 c hc d (.inside hd (.self d))
  exact ⟨hfatal, c, hc, d, hd, herrors, hplace, hplaced, hencloses, a, ha, by simpa using hspans, (hparts a ha).here⟩

end UiScript
