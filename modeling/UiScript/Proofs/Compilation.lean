import UiScript.Compilation
import UiScript.Proofs.Element.Report
import UiScript.Proofs.Evaluation
import UiScript.Proofs.Substitution

/-!
# What the back end sees

The commands that a compilation hands to the back end (`handed`) are all that its result depends on (`compile_congr`,
`compile_instructions`). For the commands of a script they are clean (`handed_clean`): without mistakes, variables and
open expressions, with arrays of one kind and dictionaries with string keys and values. From a command with a fatal
diagnostic on, nothing is handed over (`handed_fatal`).
-/

namespace UiScript

/-! ## Clean commands -/

/-- What the back end relies on for an element outside blocks. -/
structure Element.Settled (e : Element) : Prop where
  value : e.kind ≠ .reference
  outcome : ∀ i parts, e ≠ .expression i parts none
  array : ∀ i items, e = .array i items → ∀ a ∈ items, ∀ b ∈ items, a.valueKind = b.valueKind
  json : ∀ i entries, e = .json i entries → ∀ p ∈ entries, p.key.kind = .string ∧ p.value?.isSome = true

/-- What the back end relies on for a command. -/
structure Command.Clean (c : Command) : Prop where
  hasErrors : c.hasErrors = false
  hasVariable : c.hasVariable = false
  problem : ∀ a, c.argument? = some a → a.Every true fun e => e.problem = none
  settled : ∀ a, c.argument? = some a → a.Every false Element.Settled

section Clean

variable {e x : Element}

/-- **A regular tree in which nothing is wrong or open is settled.** -/
theorem settled_of_regular (hregular : e.Every false Element.Regular) (herrors : e.hasErrors = false)
    (hvariable : e.hasVariable = false) (hopen : e.hasUnresolved = false) : e.Every false Element.Settled := by
  intro x hx
  have hxregular := hregular.of_occurs hx
  have hxerrors := hx.hasErrors herrors
  have hxvariable := hx.keeps Element.hasVariable_child hvariable
  have hxopen := hx.keeps Element.hasUnresolved_child hopen
  have hxproblem := Element.problem_eq_none hxerrors
  constructor
  · exact (Element.hasVariable_eq_false_iff.mp hxvariable).1
  · exact (Element.hasUnresolved_eq_false_iff.mp hxopen).1
  · rintro i items rfl
    refine (mixedKinds?_eq_none_iff fun a ha => ?_).mp (hxregular.here hxproblem)
    have hchild : a ∈ (Element.array i items).children := ha
    exact isDecided_of_settled (hxregular.child hchild).here (Element.hasErrors_child hchild hxerrors)
      (Element.hasVariable_child hchild hxvariable) (Element.hasUnresolved_child hchild hxopen)
  · rintro i entries rfl p hp
    have hentry : p.Regular := hxregular.here hxproblem p hp
    cases p with
    | pair k v =>
      have hchild : k ∈ (Element.json i entries).children := mem_children_json hp (by simp [Entry.parts])
      have hkvariable := Element.hasVariable_child hchild hxvariable
      refine ⟨?_, rfl⟩
      rcases hentry (Element.problem_eq_none (Element.hasErrors_child hchild hxerrors)) with hk | hk
      · exact hk
      · exact absurd hk (Element.hasVariable_eq_false_iff.mp hkvariable).1
    | bare k => exact hentry.elim

end Clean

/-! ## The commands that are handed over -/

section Handed

variable {scope : Scope} {settings : Settings}

/-- **A prepared command without diagnostics is clean**, if its argument is raw. -/
theorem prepare_clean {c : Command} (hraw : ∀ a, c.argument? = some a → a.Every false Element.Raw)
    (hok : (c.prepare scope settings).isOk = true) : (c.prepare scope settings).command.Clean := by
  have herrors : (c.prepare scope settings).command.hasErrors = false := by
    rw [← Command.diagnostics_eq_nil_iff]
    exact List.isEmpty_iff.mp hok
  cases c with
  | bare h =>
    refine ⟨herrors, rfl, ?_, ?_⟩
    · intro a ha
      cases ha
    · intro a ha
      cases ha
  | given h a =>
    have hargument : ((a.substitute scope false).evaluate settings).hasErrors = false := by
      have h := herrors
      simp only [Command.prepare, Command.withArgument, Command.argument?, Option.map_some, Command.make,
        Command.hasErrors, Bool.or_eq_false_iff] at h
      exact h.2
    have hsubstitute := substitute_raw scope a false (hraw a rfl)
    have hvariable := substitute_hasVariable a false (evaluate_hasErrors _ hargument)
    obtain ⟨hvariable, hopen⟩ := evaluate_settled _ hsubstitute hvariable hargument
    refine ⟨herrors, hvariable, ?_, ?_⟩
    · rintro b ⟨⟩ x hx
      exact Element.problem_eq_none (hx.hasErrors hargument)
    · rintro b ⟨⟩
      exact settled_of_regular (evaluate_regular _ hsubstitute) hargument hvariable hopen

/-- The commands that a compilation hands to the back end, in order. -/
def handed (scope : Scope) (settings : Settings) : List Command → List Command
  | [] => []
  | c :: cs =>
    let prepared := c.prepare scope settings
    if prepared.isOk then prepared.command :: handed scope settings cs
    else if prepared.diagnostics.hasFatal then []
    else handed scope settings cs

/-- The instructions that a back end makes of a command. -/
def Dispatcher.instructions (dispatch : Dispatcher) (c : Command) : List String :=
  match dispatch c with
  | .ok instructions => instructions
  | .error _ => []

/-- **The instructions are those of the commands that are handed over, in order.** -/
theorem compile_instructions (dispatch : Dispatcher) (cs : List Command) :
    (compile dispatch scope settings cs).instructions = (handed scope settings cs).flatMap dispatch.instructions := by
  induction cs with
  | nil => rfl
  | cons c cs ih =>
    rw [compile, handed]
    split
    · rw [List.flatMap_cons, Dispatcher.instructions]
      cases dispatch (c.prepare scope settings).command with
      | ok instructions => simp only [Compiled.afterInstructions, ih]
      | error message => simp only [Compiled.afterDiagnostics, ih, List.nil_append]
    · split
      · rfl
      · rw [Compiled.afterDiagnostics, ih]

/-- **A compilation depends on nothing but what the back end makes of the commands that are handed over.** -/
theorem compile_congr {dispatch dispatch' : Dispatcher} {cs : List Command}
    (h : ∀ c ∈ handed scope settings cs, dispatch c = dispatch' c) :
    compile dispatch scope settings cs = compile dispatch' scope settings cs := by
  induction cs with
  | nil => rfl
  | cons c cs ih =>
    rw [handed] at h
    rw [compile, compile]
    split
    · rename_i hok
      rw [if_pos hok] at h
      obtain ⟨hc, hcs⟩ := List.forall_mem_cons.mp h
      rw [hc, ih hcs]
    · rename_i hok
      rw [if_neg hok] at h
      split
      · rfl
      · rename_i hfatal
        rw [if_neg hfatal] at h
        rw [ih h]

/-- **From a command with a fatal diagnostic on, nothing is handed over.** -/
theorem handed_fatal {c : Command} (h : (c.prepare scope settings).diagnostics.hasFatal = true)
    (before after : List Command) : handed scope settings (before ++ c :: after) = handed scope settings before := by
  induction before with
  | nil =>
    have hok : ¬ (c.prepare scope settings).isOk = true := by
      intro hok
      rw [List.isEmpty_iff.mp hok] at h
      cases h
    simp only [List.nil_append, handed, if_neg hok, if_pos h]
  | cons b before ih => rw [List.cons_append, handed, handed, ih]

/-- Commands with raw arguments are handed over clean. -/
theorem handed_clean {cs : List Command} (hraw : ∀ c ∈ cs, ∀ a, c.argument? = some a → a.Every false Element.Raw) :
    ∀ c ∈ handed scope settings cs, c.Clean := by
  induction cs with
  | nil => simp [handed]
  | cons c cs ih =>
    obtain ⟨hc, hcs⟩ := List.forall_mem_cons.mp hraw
    rw [handed]
    split
    · rename_i hok
      exact List.forall_mem_cons.mpr ⟨prepare_clean hc hok, ih hcs⟩
    · split
      · simp
      · exact ih hcs

end Handed

/-- **The back end sees only clean commands.** The commands of a script that are handed to the back end are clean; the
result comes from them alone, in their order, and from a command with a fatal diagnostic on nothing is handed over. -/
theorem compile_script_clean (catalog : Catalog) (text : String) (scope : Scope) (settings : Settings) :
    (∀ c ∈ handed scope settings (Script.parse catalog text).commands, c.Clean) ∧
      (∀ dispatch : Dispatcher, (compile dispatch scope settings (Script.parse catalog text).commands).instructions =
        (handed scope settings (Script.parse catalog text).commands).flatMap dispatch.instructions) ∧
      (∀ dispatch dispatch' : Dispatcher,
        (∀ c ∈ handed scope settings (Script.parse catalog text).commands, dispatch c = dispatch' c) →
          compile dispatch scope settings (Script.parse catalog text).commands =
            compile dispatch' scope settings (Script.parse catalog text).commands) ∧
      ∀ before c after, (Script.parse catalog text).commands = before ++ c :: after →
        (c.prepare scope settings).diagnostics.hasFatal = true →
          handed scope settings (Script.parse catalog text).commands = handed scope settings before := by
  refine ⟨?_, fun dispatch => compile_instructions dispatch _, fun _ _ h => compile_congr h, ?_⟩
  · apply handed_clean
    intro c hc a ha
    exact (script_asRead catalog text hc ha).shallow.mono fun _ h => h.toRaw
  · intro before c after heq hfatal
    rw [heq]
    exact handed_fatal hfatal before after

set_option maxRecDepth 10000 in
/-- A script whose second command has a variable without a value: only the first command is handed over. -/
theorem compile_script_clean_unbound :
    (handed {} {} (Script.parse .any "a: 1 + 2\nb: |x|\nc: 3").commands).map Command.argumentText = ["1 + 2"] ∧
      (∀ c ∈ handed {} {} (Script.parse .any "a: 1 + 2\nb: |x|\nc: 3").commands, c.Clean) ∧
      ∃ before c after, (Script.parse .any "a: 1 + 2\nb: |x|\nc: 3").commands = before ++ c :: after ∧
        (c.prepare {} {}).diagnostics.hasFatal = true ∧
        handed {} {} (Script.parse .any "a: 1 + 2\nb: |x|\nc: 3").commands = handed {} {} before := by
  obtain ⟨hclean, -, -, hfatal⟩ := compile_script_clean .any "a: 1 + 2\nb: |x|\nc: 3" {} {}
  refine ⟨by decide +kernel, hclean, ?_⟩
  have hsecond : ((Script.parse .any "a: 1 + 2\nb: |x|\nc: 3").commands[1]?.any fun c =>
      (c.prepare {} {}).diagnostics.hasFatal) = true := by decide +kernel
  obtain ⟨c, hc, hproblem⟩ := (Option.any_eq_true _ _).mp hsecond
  obtain ⟨hlength, rfl⟩ := List.getElem?_eq_some_iff.mp hc
  have hsplit := (List.take_append_drop 1 (Script.parse .any "a: 1 + 2\nb: |x|\nc: 3").commands).symm
  rw [List.drop_eq_getElem_cons hlength] at hsplit
  exact ⟨_, _, _, hsplit, hproblem, hfatal _ _ _ hsplit hproblem⟩

end UiScript
