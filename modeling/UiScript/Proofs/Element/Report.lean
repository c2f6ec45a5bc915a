import UiScript.Proofs.Element.Occurrence
import UiScript.Proofs.Element.Relabel
import UiScript.Script

/-!
# What is reported of a tree

The diagnostics of a tree are those of all of its parts, in reading order. There are none if and only if nothing is
wrong (`Element.diagnostics_eq_nil_iff`), one of them is fatal if and only if some part has a fatal problem
(`Element.diagnostics_hasFatal`), and a tree that is moved has the same diagnostics on other lines
(`Element.diagnostics_shift`).
-/

namespace UiScript

/-! ## Whether there is something to report -/

theorem Info.diagnostics_eq_nil_iff (i : Info) : i.diagnostics = [] ↔ i.problem.isSome = false := by
  cases h : i.problem <;> simp [Info.diagnostics, h]

theorem Heading.diagnostics_eq_nil_iff (h : Heading) : h.diagnostics = [] ↔ h.problem.isSome = false := by
  cases hp : h.problem <;> simp [Heading.diagnostics, hp]

mutual

/-- **There is nothing to report of an element if and only if it has no mistake.** -/
theorem Element.diagnostics_eq_nil_iff : (e : Element) → (e.diagnostics = [] ↔ e.hasErrors = false)
  | .leaf i _ => by rw [Element.diagnostics, Element.hasErrors, i.diagnostics_eq_nil_iff]
  | .tuple i items _ => by
    rw [Element.diagnostics, Element.hasErrors, List.append_eq_nil_iff, Bool.or_eq_false_iff, i.diagnostics_eq_nil_iff,
      diagnosticsOf_eq_nil_iff items]
  | .array i items => by
    rw [Element.diagnostics, Element.hasErrors, List.append_eq_nil_iff, Bool.or_eq_false_iff, i.diagnostics_eq_nil_iff,
      diagnosticsOf_eq_nil_iff items]
  | .json i entries => by
    rw [Element.diagnostics, Element.hasErrors, List.append_eq_nil_iff, Bool.or_eq_false_iff, i.diagnostics_eq_nil_iff,
      entryDiagnostics_eq_nil_iff entries]
  | .expression i parts _ => by
    rw [Element.diagnostics, Element.hasErrors, List.append_eq_nil_iff, Bool.or_eq_false_iff, i.diagnostics_eq_nil_iff,
      diagnosticsOf_eq_nil_iff parts]
  | .block i commands _ => by
    rw [Element.diagnostics, Element.hasErrors, List.append_eq_nil_iff, Bool.or_eq_false_iff, i.diagnostics_eq_nil_iff,
      commandDiagnostics_eq_nil_iff commands]

theorem diagnosticsOf_eq_nil_iff : (es : List Element) → (diagnosticsOf es = [] ↔ anyErrors es = false)
  | [] => by simp
  | e :: es => by
    rw [diagnosticsOf, anyErrors, List.append_eq_nil_iff, Bool.or_eq_false_iff, Element.diagnostics_eq_nil_iff e,
      diagnosticsOf_eq_nil_iff es]

theorem Entry.diagnostics_eq_nil_iff : (p : Entry) → (p.diagnostics = [] ↔ p.hasErrors = false)
  | .pair k v => by
    rw [Entry.diagnostics, Entry.hasErrors, List.append_eq_nil_iff, Bool.or_eq_false_iff,
      Element.diagnostics_eq_nil_iff k, Element.diagnostics_eq_nil_iff v]
  | .bare k => by rw [Entry.diagnostics, Entry.hasErrors, Element.diagnostics_eq_nil_iff k]

theorem entryDiagnostics_eq_nil_iff : (ps : List Entry) → (entryDiagnostics ps = [] ↔ anyEntryErrors ps = false)
  | [] => by simp
  | p :: ps => by
    rw [entryDiagnostics, anyEntryErrors, List.append_eq_nil_iff, Bool.or_eq_false_iff, Entry.diagnostics_eq_nil_iff p,
      entryDiagnostics_eq_nil_iff ps]

/-- **There is nothing to report of a command if and only if it has no mistake.** -/
theorem Command.diagnostics_eq_nil_iff : (c : Command) → (c.diagnostics = [] ↔ c.hasErrors = false)
  | .bare h => by rw [Command.diagnostics, Command.hasErrors, h.diagnostics_eq_nil_iff]
  | .given h a => by
    rw [Command.diagnostics, Command.hasErrors, List.append_eq_nil_iff, Bool.or_eq_false_iff, h.diagnostics_eq_nil_iff,
      Element.diagnostics_eq_nil_iff a]

theorem commandDiagnostics_eq_nil_iff : (cs : List Command) → (commandDiagnostics cs = [] ↔ anyCommandErrors cs = false)
  | [] => by simp
  | c :: cs => by
    rw [commandDiagnostics, anyCommandErrors, List.append_eq_nil_iff, Bool.or_eq_false_iff,
      Command.diagnostics_eq_nil_iff c, commandDiagnostics_eq_nil_iff cs]

end

/-! ## Whether something fatal is reported -/

@[simp] theorem Diagnostics.hasFatal_append (ds es : Diagnostics) :
    Diagnostics.hasFatal (ds ++ es) = (Diagnostics.hasFatal ds || Diagnostics.hasFatal es) := List.any_append

theorem Info.diagnostics_hasFatal (i : Info) : Diagnostics.hasFatal i.diagnostics = isFatalProblem i.problem := by
  cases h : i.problem <;> simp [Info.diagnostics, h, Diagnostics.hasFatal, isFatalProblem, Diagnostic.ofProblem]

theorem Heading.diagnostics_hasFatal (h : Heading) :
    Diagnostics.hasFatal h.diagnostics = isFatalProblem h.problem := by
  cases hp : h.problem <;> simp [Heading.diagnostics, hp, Diagnostics.hasFatal, isFatalProblem, Diagnostic.ofProblem]

mutual

/-- **A fatal diagnostic is reported of an element if and only if some part of it has a fatal problem.** -/
theorem Element.diagnostics_hasFatal : (e : Element) → Diagnostics.hasFatal e.diagnostics = e.hasFatal
  | .leaf i _ => by rw [Element.diagnostics, Element.hasFatal, i.diagnostics_hasFatal]
  | .tuple i items _ => by
    rw [Element.diagnostics, Element.hasFatal, Diagnostics.hasFatal_append, i.diagnostics_hasFatal,
      diagnosticsOf_hasFatal items]
  | .array i items => by
    rw [Element.diagnostics, Element.hasFatal, Diagnostics.hasFatal_append, i.diagnostics_hasFatal,
      diagnosticsOf_hasFatal items]
  | .json i entries => by
    rw [Element.diagnostics, Element.hasFatal, Diagnostics.hasFatal_append, i.diagnostics_hasFatal,
      entryDiagnostics_hasFatal entries]
  | .expression i parts _ => by
    rw [Element.diagnostics, Element.hasFatal, Diagnostics.hasFatal_append, i.diagnostics_hasFatal,
      diagnosticsOf_hasFatal parts]
  | .block i commands _ => by
    rw [Element.diagnostics, Element.hasFatal, Diagnostics.hasFatal_append, i.diagnostics_hasFatal,
      commandDiagnostics_hasFatal commands]

theorem diagnosticsOf_hasFatal : (es : List Element) → Diagnostics.hasFatal (diagnosticsOf es) = anyFatal es
  | [] => rfl
  | e :: es => by
    rw [diagnosticsOf, anyFatal, Diagnostics.hasFatal_append, Element.diagnostics_hasFatal e, diagnosticsOf_hasFatal es]

theorem Entry.diagnostics_hasFatal : (p : Entry) → Diagnostics.hasFatal p.diagnostics = p.hasFatal
  | .pair k v => by
    rw [Entry.diagnostics, Entry.hasFatal, Diagnostics.hasFatal_append, Element.diagnostics_hasFatal k,
      Element.diagnostics_hasFatal v]
  | .bare k => by rw [Entry.diagnostics, Entry.hasFatal, Element.diagnostics_hasFatal k]

theorem entryDiagnostics_hasFatal : (ps : List Entry) → Diagnostics.hasFatal (entryDiagnostics ps) = anyEntryFatal ps
  | [] => rfl
  | p :: ps => by
    rw [entryDiagnostics, anyEntryFatal, Diagnostics.hasFatal_append, Entry.diagnostics_hasFatal p,
      entryDiagnostics_hasFatal ps]

/-- **A fatal diagnostic is reported of a command if and only if it or its argument has a fatal problem.** -/
theorem Command.diagnostics_hasFatal : (c : Command) → Diagnostics.hasFatal c.diagnostics = c.hasFatal
  | .bare h => by rw [Command.diagnostics, Command.hasFatal, h.diagnostics_hasFatal]
  | .given h a => by
    rw [Command.diagnostics, Command.hasFatal, Diagnostics.hasFatal_append, h.diagnostics_hasFatal,
      Element.diagnostics_hasFatal a]

theorem commandDiagnostics_hasFatal : (cs : List Command) →
    Diagnostics.hasFatal (commandDiagnostics cs) = anyCommandFatal cs
  | [] => rfl
  | c :: cs => by
    rw [commandDiagnostics, anyCommandFatal, Diagnostics.hasFatal_append, Command.diagnostics_hasFatal c,
      commandDiagnostics_hasFatal cs]

end

theorem Script.hasFatal_eq_any (s : Script) : s.hasFatal = s.commands.any Command.hasFatal := by
  rw [Script.hasFatal, Script.diagnostics, ← commandDiagnostics_eq_flatMap, commandDiagnostics_hasFatal,
    anyCommandFatal_eq_any]

theorem Element.hasFatal_child {e c : Element} (hc : c ∈ e.children) (h : e.hasFatal = false) :
    c.hasFatal = false := by
  cases e with
  | leaf i l => cases hc
  | block i commands text => cases hc
  | json i entries =>
    have hentry : ∀ p : Entry, p.hasFatal = p.parts.any Element.hasFatal := by
      intro p
      cases p <;> simp [Entry.hasFatal, Entry.parts]
    rw [Element.hasFatal, anyEntryFatal_eq_any, any_parts hentry, Bool.or_eq_false_iff, List.any_eq_false] at h
    simpa using h.2 c hc
  | tuple i items trailing | array i items | expression i items resolved =>
    rw [Element.hasFatal, anyFatal_eq_any, Bool.or_eq_false_iff, List.any_eq_false] at h
    simpa using h.2 c hc

theorem Element.hasFatal_noting (e : Element) (p : Option Problem) :
    (e.noting p).hasFatal = (e.hasFatal || isFatalProblem p) := by
  cases e <;>
    simp [Element.noting, Element.withInfo, Element.hasFatal, Element.problem, Element.info, isFatalProblem_note,
      Bool.or_right_comm]

theorem Command.hasFatal_argument {c : Command} {a : Element} (ha : c.argument? = some a) (h : c.hasFatal = false) :
    a.hasFatal = false := by
  cases c with
  | bare head => cases ha
  | given head b =>
    cases ha
    rw [Command.hasFatal, Bool.or_eq_false_iff] at h
    exact h.2

/-- A command in a block has nothing fatal if the command around it has not. -/
theorem Command.hasFatal_inside {c k : Command} (hk : k ∈ c.blockCommands) (h : c.hasFatal = false) :
    k.hasFatal = false := by
  obtain ⟨a, i, commands, raw, ha, hblock, hk⟩ := Command.mem_blockCommands hk
  have hfatal : (Element.block i commands raw).hasFatal = false :=
    hblock.keeps Element.hasFatal_child (Command.hasFatal_argument ha h)
  rw [Element.hasFatal, anyCommandFatal_eq_any, Bool.or_eq_false_iff, List.any_eq_false] at hfatal
  simpa using hfatal.2 k hk

/-- Where nothing is fatal, no part has a fatal problem. -/
theorem Element.every_of_hasFatal {e : Element} (h : e.hasFatal = false) :
    e.Every true fun x => isFatalProblem x.problem = false := by
  intro x hx
  induction hx with
  | self =>
    cases x with
    | leaf i l => exact h
    | _ =>
      rw [Element.hasFatal, Bool.or_eq_false_iff] at h
      exact h.1
  | part hc _ ih => exact ih (Element.hasFatal_child hc h)
  | command _ hc ha _ ih =>
    rw [Element.hasFatal, anyCommandFatal_eq_any, Bool.or_eq_false_iff, List.any_eq_false] at h
    exact ih (Command.hasFatal_argument ha (by simpa using h.2 _ hc))

/-! ## Moved reports -/

/-- The diagnostic moved by a number of lines. -/
def Diagnostic.shift (lines : Nat) (d : Diagnostic) : Diagnostic := { d with line := d.line.map (· + lines) }

section Shift

variable (bytes lines : Nat)

theorem Info.diagnostics_shift (i : Info) :
    (i.shift bytes lines).diagnostics = i.diagnostics.map (Diagnostic.shift lines) := by
  cases h : i.problem <;> simp [Info.diagnostics, Info.shift, h, Diagnostic.ofProblem, Diagnostic.shift]

theorem Heading.diagnostics_shift (h : Heading) :
    ((Relabel.shift bytes lines).heading h).diagnostics = h.diagnostics.map (Diagnostic.shift lines) := by
  cases hp : h.problem <;>
    simp [Heading.diagnostics, Relabel.shift, hp, Diagnostic.ofProblem, Diagnostic.shift]

mutual

/-- **The diagnostics of a moved element** are the same on other lines. -/
theorem Element.diagnostics_shift : (e : Element) →
    (e.shift bytes lines).diagnostics = e.diagnostics.map (Diagnostic.shift lines)
  | .leaf i _ => i.diagnostics_shift bytes lines
  | .tuple i items _ => by
    simp only [Element.relabel, Element.diagnostics, List.map_append, diagnosticsOf_shift items]
    exact congrArg (· ++ _) (i.diagnostics_shift bytes lines)
  | .array i items => by
    simp only [Element.relabel, Element.diagnostics, List.map_append, diagnosticsOf_shift items]
    exact congrArg (· ++ _) (i.diagnostics_shift bytes lines)
  | .json i entries => by
    simp only [Element.relabel, Element.diagnostics, List.map_append, entryDiagnostics_shift entries]
    exact congrArg (· ++ _) (i.diagnostics_shift bytes lines)
  | .expression i parts _ => by
    simp only [Element.relabel, Element.diagnostics, List.map_append, diagnosticsOf_shift parts]
    exact congrArg (· ++ _) (i.diagnostics_shift bytes lines)
  | .block i commands _ => by
    simp only [Element.relabel, Element.diagnostics, List.map_append, commandDiagnostics_shift commands]
    exact congrArg (· ++ _) (i.diagnostics_shift bytes lines)

theorem diagnosticsOf_shift : (es : List Element) →
    diagnosticsOf (relabelAll (.shift bytes lines) es) = (diagnosticsOf es).map (Diagnostic.shift lines)
  | [] => rfl
  | e :: es => by
    simp only [relabelAll, diagnosticsOf, List.map_append, Element.diagnostics_shift e, diagnosticsOf_shift es]

theorem Entry.diagnostics_shift : (p : Entry) →
    (p.shift bytes lines).diagnostics = p.diagnostics.map (Diagnostic.shift lines)
  | .pair k v => by
    simp only [Entry.relabel, Entry.diagnostics, List.map_append, Element.diagnostics_shift k,
      Element.diagnostics_shift v]
  | .bare k => by simp only [Entry.relabel, Entry.diagnostics, Element.diagnostics_shift k]

theorem entryDiagnostics_shift : (ps : List Entry) →
    entryDiagnostics (relabelEntries (.shift bytes lines) ps) = (entryDiagnostics ps).map (Diagnostic.shift lines)
  | [] => rfl
  | p :: ps => by
    simp only [relabelEntries, entryDiagnostics, List.map_append, Entry.diagnostics_shift p, entryDiagnostics_shift ps]

/-- **The diagnostics of a moved command** are the same on other lines. -/
theorem Command.diagnostics_shift : (c : Command) →
    (c.shift bytes lines).diagnostics = c.diagnostics.map (Diagnostic.shift lines)
  | .bare h => h.diagnostics_shift bytes lines
  | .given h a => by
    simp only [Command.relabel, Command.diagnostics, List.map_append, Element.diagnostics_shift a]
    exact congrArg (· ++ _) (h.diagnostics_shift bytes lines)

theorem commandDiagnostics_shift : (cs : List Command) →
    commandDiagnostics (relabelCommands (.shift bytes lines) cs) =
      (commandDiagnostics cs).map (Diagnostic.shift lines)
  | [] => rfl
  | c :: cs => by
    simp only [relabelCommands, commandDiagnostics, List.map_append, Command.diagnostics_shift c,
      commandDiagnostics_shift cs]

end

end Shift

end UiScript
