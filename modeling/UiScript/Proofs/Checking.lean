import UiScript.Proofs.Preparation

/-!
# What a check finds

A check prepares the command itself, unless it has a variable, and then goes into its blocks; but a command in a block
is passed over with all of its blocks if it has a variable. So the check of a command finds nothing if and only if
nothing is wrong with what was read and every command without variables that the check visits (`Command.Visited`) can
be prepared, with whatever values (`check_eq_nil_iff`).

The blocks of a command with a variable are visited if the command is checked itself, and not if it stands in a block:
there a mistake two blocks down goes unnoticed (`check_misses_mistake`).
-/

namespace UiScript

/-- The first command is visited by the check of the second one: it is that command, or stands in its blocks below
commands without variables. -/
inductive Command.Visited : Command → Command → Prop where
  | self (c : Command) : Visited c c
  | inside {d k c : Command} (hk : k ∈ c.blockCommands) (hvariable : k.hasVariable = false) (h : Visited d k) :
      Visited d c

/-! ## One command -/

section Alone

variable {scope : Scope} {settings : Settings} {c k : Command}

/-- Commands in the blocks of a command without mistakes have none. -/
theorem Command.hasErrors_inside (hk : k ∈ c.blockCommands) (h : c.hasErrors = false) : k.hasErrors = false := by
  obtain ⟨a, i, commands, text, ha, hoccurs, hk⟩ := Command.mem_blockCommands hk
  have hblock := hoccurs.hasErrors (Command.hasErrors_argument ha h)
  rw [Element.hasErrors, anyCommandErrors_eq_any, Bool.or_eq_false_iff, List.any_eq_false] at hblock
  simpa using hblock.2 k hk

/-- Without variables, values do not matter. -/
theorem Command.prepare_of_hasVariable (scope' : Scope) (h : c.hasVariable = false) :
    c.prepare scope settings = c.prepare scope' settings := by
  cases c with
  | bare head => rfl
  | given head a =>
    have hvariable : a.hasVariable = false := h
    simp only [Command.prepare, Command.argument?, Option.map_some, substitute_of_hasVariable hvariable]

/-- The command itself is fine if nothing is wrong with it as it was read and, where it has no variable, it can be
prepared. -/
theorem Command.checkAlone_eq_nil_iff :
    c.checkAlone scope settings = [] ↔
      c.hasErrors = false ∧ (c.hasVariable = false → ∀ scope', (c.prepare scope' settings).isOk = true) := by
  unfold Command.checkAlone
  cases hvariable : c.hasVariable with
  | true =>
    rw [if_pos rfl, Command.diagnostics_eq_nil_iff]
    exact ⟨fun h => ⟨h, fun h' => by cases h'⟩, fun h => h.1⟩
  | false =>
    rw [if_neg (by simp)]
    constructor
    · intro h
      have hlength := (c.prepare_reported scope settings).length
      rw [h, List.length_nil, Nat.le_zero, List.length_eq_zero_iff, Command.diagnostics_eq_nil_iff] at hlength
      refine ⟨hlength, fun _ scope' => ?_⟩
      rw [← Command.prepare_of_hasVariable scope' hvariable, Prepared.isOk, h]
      rfl
    · rintro ⟨-, h⟩
      exact List.isEmpty_iff.mp (h rfl scope)

/-- A check finds nothing if the command itself is fine and so are the commands without variables in its blocks. -/
theorem Command.check_eq_nil_step :
    c.check scope settings = [] ↔
      c.checkAlone scope settings = [] ∧
        ∀ k ∈ c.blockCommands, k.hasVariable = false → k.check scope settings = [] := by
  rw [Command.check_eq_append, List.append_eq_nil_iff, List.flatMap_eq_nil_iff]
  refine and_congr_right fun halone => forall₂_congr fun k hk => ?_
  have herrors := Command.hasErrors_inside hk (Command.checkAlone_eq_nil_iff.mp halone).1
  cases hvariable : k.hasVariable <;> simp [Command.checkInside, hvariable, herrors]

end Alone

/-! ## All that is visited -/

/-- **A check finds nothing if and only if nothing is wrong with what it visits.** Then, and only then, the command was
read without mistakes, and every command without variables that is this command or stands in its blocks below commands
without variables can be prepared with whatever values. -/
theorem check_eq_nil_iff (scope : Scope) (settings : Settings) (c : Command) :
    c.check scope settings = [] ↔
      c.hasErrors = false ∧
        ∀ d : Command, d.Visited c → d.hasVariable = false → ∀ scope', (d.prepare scope' settings).isOk = true := by
  induction c using Command.byBlocks with
  | h c ih =>
    rw [Command.check_eq_nil_step, Command.checkAlone_eq_nil_iff, and_assoc]
    refine and_congr_right fun herrors => ⟨?_, ?_⟩
    · rintro ⟨halone, hblocks⟩ d hd hvariable scope'
      cases hd with
      | self => exact halone hvariable scope'
      | inside hk hk' hd => exact ((ih _ hk).mp (hblocks _ hk hk')).2 d hd hvariable scope'
    · intro h
      refine ⟨h c (.self c), fun k hk hvariable => (ih k hk).mpr ⟨Command.hasErrors_inside hk herrors, ?_⟩⟩
      exact fun d hd => h d (.inside hk hvariable hd)

set_option maxRecDepth 10000 in
/-- A command with a variable whose check finds nothing: the command in its block can be prepared. -/
theorem check_eq_nil_iff_block :
    ∃ c ∈ (Script.parse .any "a: (|x|, block \x7b b: 1 + 2 \x7d)").commands, c.hasVariable = true ∧
      c.check {} {} = [] ∧ ∃ d : Command, d.Visited c ∧ d.name = "b" ∧
        ∀ scope, (d.prepare scope {}).isOk = true := by
  have hshape : ((Script.parse .any "a: (|x|, block \x7b b: 1 + 2 \x7d)").commands[0]?.any fun c =>
      c.hasVariable && (c.check {} {}).isEmpty &&
        c.blockCommands[0]?.any fun d => d.name == "b" && !d.hasVariable) = true := by decide +kernel
  obtain ⟨c, hc, hshape⟩ := (Option.any_eq_true _ _).mp hshape
  simp only [Bool.and_eq_true, List.isEmpty_iff] at hshape
  obtain ⟨⟨hvariable, hcheck⟩, hinside⟩ := hshape
  obtain ⟨d, hd, hinside⟩ := (Option.any_eq_true _ _).mp hinside
  simp only [Bool.and_eq_true, beq_iff_eq, Bool.not_eq_true'] at hinside
  have hvisited : d.Visited c := .inside (List.mem_of_getElem? hd) hinside.2 (.self d)
  exact ⟨c, List.mem_of_getElem? hc, hvariable, hcheck, d, hvisited, hinside.1,
    ((check_eq_nil_iff {} {} c).mp hcheck).2 d hvisited hinside.2⟩

set_option maxRecDepth 10000 in
/-- A mistake that no check of the script finds: it stands in a block of a command with a variable, which stands in a
block itself. The command that has it has no variable and cannot be prepared. -/
theorem check_misses_mistake :
    ∃ c ∈ (Script.parse .any "a: block \x7b b: (|x|, block \x7b c: 1 + true \x7d) \x7d").commands,
      c.check {} {} = [] ∧ ∃ d : Command, d.Within c ∧ d.hasVariable = false ∧ (d.prepare {} {}).isOk = false := by
  have hshape : ((Script.parse .any "a: block \x7b b: (|x|, block \x7b c: 1 + true \x7d) \x7d").commands[0]?.any
      fun c => (c.check {} {}).isEmpty && c.blockCommands[0]?.any fun k => k.blockCommands[0]?.any fun d =>
        !d.hasVariable && !(d.prepare {} {}).isOk) = true := by decide +kernel
  obtain ⟨c, hc, hshape⟩ := (Option.any_eq_true _ _).mp hshape
  simp only [Bool.and_eq_true, List.isEmpty_iff] at hshape
  obtain ⟨k, hk, hinside⟩ := (Option.any_eq_true _ _).mp hshape.2
  obtain ⟨d, hd, hinside⟩ := (Option.any_eq_true _ _).mp hinside
  simp only [Bool.and_eq_true, Bool.not_eq_true'] at hinside
  have hwithin : d.Within c := .inside (List.mem_of_getElem? hk) (.inside (List.mem_of_getElem? hd) (.self d))
  exact ⟨c, List.mem_of_getElem? hc, hshape.1, d, hwithin, hinside⟩

end UiScript
