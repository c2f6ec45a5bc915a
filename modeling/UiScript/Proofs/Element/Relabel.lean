import UiScript.Element.Tree
import UiScript.Element.Text

/-!
# Trees with other places

What a tree says does not depend on where it stands. A `Relabel` gives every element and every command another place and
keeps its problem; the trees before and after it have the same texts, kinds and mistakes. Two relabellings matter:

* **Shifting** (`Element.shift`) moves a tree by a number of bytes and lines.
* **Erasing** (`Element.erase`) forgets spans, lines and sources, and those trailing commas that do not show. Two
  trees are the same up to their places if they have the same erasure.
-/

namespace UiScript

/-- New places for the elements and commands of a tree. The place of an element that could not be read keeps its source,
which is the text of that element; the comma after the only item of a tuple stays. -/
structure Relabel where
  info : Info → Info
  leaf : Leaf → Info → Info
  heading : Heading → Heading
  comma : Bool → Nat → Bool
  info_noting : ∀ i p, info { i with problem := p } = { info i with problem := p }
  leaf_noting : ∀ l i p, leaf l { i with problem := p } = { leaf l i with problem := p }
  info_problem : ∀ i, (info i).problem = i.problem
  leaf_problem : ∀ l i, (leaf l i).problem = i.problem
  leaf_source : ∀ i, (leaf .unknown i).source = i.source
  heading_problem : ∀ h, (heading h).problem = h.problem
  comma_one : ∀ b, comma b 1 = b

mutual

/-- The element with other places. -/
def Element.relabel (ρ : Relabel) : Element → Element
  | .leaf i l => .leaf (ρ.leaf l i) l
  | .tuple i items trailing => .tuple (ρ.info i) (relabelAll ρ items) (ρ.comma trailing items.length)
  | .array i items => .array (ρ.info i) (relabelAll ρ items)
  | .json i entries => .json (ρ.info i) (relabelEntries ρ entries)
  | .expression i parts resolved => .expression (ρ.info i) (relabelAll ρ parts) resolved
  | .block i commands text => .block (ρ.info i) (relabelCommands ρ commands) text

/-- Several elements with other places. -/
def relabelAll (ρ : Relabel) : List Element → List Element
  | [] => []
  | e :: es => e.relabel ρ :: relabelAll ρ es

/-- The entry with other places. -/
def Entry.relabel (ρ : Relabel) : Entry → Entry
  | .pair k v => .pair (k.relabel ρ) (v.relabel ρ)
  | .bare k => .bare (k.relabel ρ)

/-- Several entries with other places. -/
def relabelEntries (ρ : Relabel) : List Entry → List Entry
  | [] => []
  | e :: es => e.relabel ρ :: relabelEntries ρ es

/-- The command with other places. -/
def Command.relabel (ρ : Relabel) : Command → Command
  | .bare h => .bare (ρ.heading h)
  | .given h a => .given (ρ.heading h) (a.relabel ρ)

/-- Several commands with other places. -/
def relabelCommands (ρ : Relabel) : List Command → List Command
  | [] => []
  | c :: cs => c.relabel ρ :: relabelCommands ρ cs

end

section Lists

variable {ρ : Relabel}

@[simp] theorem relabelAll_eq_map (es : List Element) : relabelAll ρ es = es.map (Element.relabel ρ) := by
  induction es with
  | nil => simp [relabelAll]
  | cons e es ih => simp [relabelAll, ih]

@[simp] theorem relabelEntries_eq_map (es : List Entry) : relabelEntries ρ es = es.map (Entry.relabel ρ) := by
  induction es with
  | nil => simp [relabelEntries]
  | cons e es ih => simp [relabelEntries, ih]

@[simp] theorem relabelCommands_eq_map (cs : List Command) :
    relabelCommands ρ cs = cs.map (Command.relabel ρ) := by
  induction cs with
  | nil => simp [relabelCommands]
  | cons c cs ih => simp [relabelCommands, ih]

end Lists

/-! ## What stays -/

section Invariants

variable {ρ : Relabel}

@[simp] theorem Element.relabel_problem (e : Element) : (e.relabel ρ).problem = e.problem := by
  cases e <;> simp [Element.relabel, Element.problem, Element.info, ρ.info_problem, ρ.leaf_problem]

@[simp] theorem Element.relabel_kind (e : Element) : (e.relabel ρ).kind = e.kind := by
  cases e <;> simp [Element.relabel, Element.kind]

@[simp] theorem Element.relabel_isDecided (e : Element) : (e.relabel ρ).isDecided = e.isDecided := by
  have h := e.relabel_problem (ρ := ρ)
  unfold Element.isDecided
  rw [h]
  cases e with
  | leaf i l => cases l <;> rfl
  | expression i parts r => cases r <;> rfl
  | tuple | array | json | block => rfl

@[simp] theorem Element.relabel_valueKind (e : Element) : (e.relabel ρ).valueKind = e.valueKind := by
  cases e with
  | expression i parts r => cases r <;> rfl
  | leaf | tuple | array | json | block => rfl

@[simp] theorem Element.relabel_noting (e : Element) (p : Option Problem) :
    (e.noting p).relabel ρ = (e.relabel ρ).noting p := by
  unfold Element.noting
  rw [Element.relabel_problem]
  cases e with
  | leaf i l =>
    simp only [Element.info, Element.withInfo, Element.relabel]
    rw [ρ.leaf_noting]
  | tuple i | array i | json i | expression i | block i =>
    simp only [Element.info, Element.withInfo, Element.relabel]
    rw [ρ.info_noting]

/-- Entries that are changed part by part. -/
theorem parts_map {f : Element → Element} {g : Entry → Entry} (h : ∀ p, (g p).parts = p.parts.map f)
    (entries : List Entry) : (entries.map g).flatMap Entry.parts = (entries.flatMap Entry.parts).map f := by
  rw [List.flatMap_map, List.map_flatMap]
  congr 1
  funext p
  exact h p

theorem Element.relabel_children (e : Element) : (e.relabel ρ).children = e.children.map (Element.relabel ρ) := by
  cases e with
  | json i entries =>
    simp only [Element.relabel, Element.children, relabelEntries_eq_map]
    exact parts_map (fun p => by cases p <;> rfl) entries
  | leaf | block => rfl
  | _ => simp [Element.relabel, Element.children]

theorem findOther_relabel (expected : Kind) (position : Nat) (es : List Element) :
    findOther expected position (es.map (Element.relabel ρ)) = findOther expected position es := by
  induction es generalizing position with
  | nil => rfl
  | cons e es ih => simp [findOther, ih]

@[simp] theorem mixedKinds?_relabel (es : List Element) :
    mixedKinds? (es.map (Element.relabel ρ)) = mixedKinds? es := by
  cases es with
  | nil => rfl
  | cons e es => simp [mixedKinds?, findOther_relabel]

theorem Relabel.comma_and (ρ : Relabel) (b : Bool) (n : Nat) : (ρ.comma b n && n == 1) = (b && n == 1) := by
  by_cases h : n = 1
  · subst h
    rw [ρ.comma_one]
  · rw [beq_eq_false_iff_ne.mpr h, Bool.and_false, Bool.and_false]

mutual

@[simp] theorem Element.relabel_text : (e : Element) → (e.relabel ρ).text = e.text
  | .leaf i l => by cases l <;> simp [Element.relabel, Element.text, Leaf.text, ρ.leaf_source]
  | .tuple _ items _ => by simp [Element.relabel, Element.text, relabel_texts items, ρ.comma_and]
  | .array _ items => by simp [Element.relabel, Element.text, relabel_texts items]
  | .json _ entries => by simp [Element.relabel, Element.text, relabel_entryTexts entries]
  | .expression _ parts none => by simp [Element.relabel, Element.text, relabel_texts parts]
  | .expression _ _ (some _) => rfl
  | .block .. => rfl

theorem relabel_texts : (es : List Element) → es.map (Element.text ∘ Element.relabel ρ) = es.map Element.text
  | [] => rfl
  | e :: es => by simp [relabel_texts es, Element.relabel_text e]

theorem Entry.relabel_text : (e : Entry) → (e.relabel ρ).text = e.text
  | .pair k v => by simp [Entry.relabel, Entry.text, Element.relabel_text k, Element.relabel_text v]
  | .bare k => by simp [Entry.relabel, Entry.text, Element.relabel_text k]

theorem relabel_entryTexts : (es : List Entry) → es.map (Entry.text ∘ Entry.relabel ρ) = es.map Entry.text
  | [] => rfl
  | e :: es => by simp [relabel_entryTexts es, Entry.relabel_text e]

end

@[simp] theorem Element.relabel_stringValue (e : Element) : (e.relabel ρ).stringValue = e.stringValue := by
  have htext := e.relabel_text (ρ := ρ)
  cases e with
  | leaf i l =>
    cases l with
    | string value quote => rfl
    | _ => exact htext
  | _ => exact htext

mutual

@[simp] theorem Element.relabel_hasErrors : (e : Element) → (e.relabel ρ).hasErrors = e.hasErrors
  | .leaf .. => by simp [Element.relabel, Element.hasErrors, ρ.leaf_problem]
  | .tuple _ items _ => by simp [Element.relabel, Element.hasErrors, ρ.info_problem, relabel_anyErrors items]
  | .array _ items => by simp [Element.relabel, Element.hasErrors, ρ.info_problem, relabel_anyErrors items]
  | .json _ entries => by simp [Element.relabel, Element.hasErrors, ρ.info_problem, relabel_anyEntryErrors entries]
  | .expression _ parts _ => by simp [Element.relabel, Element.hasErrors, ρ.info_problem, relabel_anyErrors parts]
  | .block _ cs _ => by simp [Element.relabel, Element.hasErrors, ρ.info_problem, relabel_anyCommandErrors cs]

theorem relabel_anyErrors : (es : List Element) →
    es.any (Element.hasErrors ∘ Element.relabel ρ) = es.any Element.hasErrors
  | [] => rfl
  | e :: es => by simp [relabel_anyErrors es, Element.relabel_hasErrors e]

theorem Entry.relabel_hasErrors : (e : Entry) → (e.relabel ρ).hasErrors = e.hasErrors
  | .pair k v => by simp [Entry.relabel, Entry.hasErrors, Element.relabel_hasErrors k, Element.relabel_hasErrors v]
  | .bare k => by simp [Entry.relabel, Entry.hasErrors, Element.relabel_hasErrors k]

theorem relabel_anyEntryErrors : (es : List Entry) →
    es.any (Entry.hasErrors ∘ Entry.relabel ρ) = es.any Entry.hasErrors
  | [] => rfl
  | e :: es => by simp [relabel_anyEntryErrors es, Entry.relabel_hasErrors e]

theorem Command.relabel_hasErrors : (c : Command) → (c.relabel ρ).hasErrors = c.hasErrors
  | .bare _ => by simp [Command.relabel, Command.hasErrors, ρ.heading_problem]
  | .given _ a => by simp [Command.relabel, Command.hasErrors, ρ.heading_problem, Element.relabel_hasErrors a]

theorem relabel_anyCommandErrors : (cs : List Command) →
    cs.any (Command.hasErrors ∘ Command.relabel ρ) = cs.any Command.hasErrors
  | [] => rfl
  | c :: cs => by simp [relabel_anyCommandErrors cs, Command.relabel_hasErrors c]

end

mutual

@[simp] theorem Element.relabel_hasFatal : (e : Element) → (e.relabel ρ).hasFatal = e.hasFatal
  | .leaf .. => by simp [Element.relabel, Element.hasFatal, ρ.leaf_problem]
  | .tuple _ items _ => by simp [Element.relabel, Element.hasFatal, ρ.info_problem, relabel_anyFatal items]
  | .array _ items => by simp [Element.relabel, Element.hasFatal, ρ.info_problem, relabel_anyFatal items]
  | .json _ entries => by simp [Element.relabel, Element.hasFatal, ρ.info_problem, relabel_anyEntryFatal entries]
  | .expression _ parts _ => by simp [Element.relabel, Element.hasFatal, ρ.info_problem, relabel_anyFatal parts]
  | .block _ cs _ => by simp [Element.relabel, Element.hasFatal, ρ.info_problem, relabel_anyCommandFatal cs]

theorem relabel_anyFatal : (es : List Element) →
    es.any (Element.hasFatal ∘ Element.relabel ρ) = es.any Element.hasFatal
  | [] => rfl
  | e :: es => by simp [relabel_anyFatal es, Element.relabel_hasFatal e]

theorem Entry.relabel_hasFatal : (e : Entry) → (e.relabel ρ).hasFatal = e.hasFatal
  | .pair k v => by simp [Entry.relabel, Entry.hasFatal, Element.relabel_hasFatal k, Element.relabel_hasFatal v]
  | .bare k => by simp [Entry.relabel, Entry.hasFatal, Element.relabel_hasFatal k]

theorem relabel_anyEntryFatal : (es : List Entry) →
    es.any (Entry.hasFatal ∘ Entry.relabel ρ) = es.any Entry.hasFatal
  | [] => rfl
  | e :: es => by simp [relabel_anyEntryFatal es, Entry.relabel_hasFatal e]

@[simp] theorem Command.relabel_hasFatal : (c : Command) → (c.relabel ρ).hasFatal = c.hasFatal
  | .bare _ => by simp [Command.relabel, Command.hasFatal, ρ.heading_problem]
  | .given _ a => by simp [Command.relabel, Command.hasFatal, ρ.heading_problem, Element.relabel_hasFatal a]

theorem relabel_anyCommandFatal : (cs : List Command) →
    cs.any (Command.hasFatal ∘ Command.relabel ρ) = cs.any Command.hasFatal
  | [] => rfl
  | c :: cs => by simp [relabel_anyCommandFatal cs, Command.relabel_hasFatal c]

end

mutual

@[simp] theorem Element.relabel_isLiteral : (e : Element) → (e.relabel ρ).isLiteral = e.isLiteral
  | .leaf _ l => by cases l <;> rfl
  | .tuple _ items _ => by simp [Element.relabel, Element.isLiteral, relabel_allLiteral items]
  | .array _ items => by simp [Element.relabel, Element.isLiteral, relabel_allLiteral items]
  | .json _ entries => by simp [Element.relabel, Element.isLiteral, relabel_allEntriesLiteral entries]
  | .expression .. => rfl
  | .block .. => rfl

theorem relabel_allLiteral : (es : List Element) →
    es.all (Element.isLiteral ∘ Element.relabel ρ) = es.all Element.isLiteral
  | [] => rfl
  | e :: es => by simp [relabel_allLiteral es, Element.relabel_isLiteral e]

theorem Entry.relabel_isLiteral : (e : Entry) → (e.relabel ρ).isLiteral = e.isLiteral
  | .pair k v => by simp [Entry.relabel, Entry.isLiteral, Element.relabel_isLiteral k, Element.relabel_isLiteral v]
  | .bare _ => rfl

theorem relabel_allEntriesLiteral : (es : List Entry) →
    es.all (Entry.isLiteral ∘ Entry.relabel ρ) = es.all Entry.isLiteral
  | [] => rfl
  | e :: es => by simp [relabel_allEntriesLiteral es, Entry.relabel_isLiteral e]

end

end Invariants

/-! ## One relabelling after another -/

/-- The places that a second relabelling gives after a first. -/
def Relabel.comp (σ ρ : Relabel) : Relabel where
  info i := σ.info (ρ.info i)
  leaf l i := σ.leaf l (ρ.leaf l i)
  heading h := σ.heading (ρ.heading h)
  comma b n := σ.comma (ρ.comma b n) n
  info_noting i p := by rw [ρ.info_noting, σ.info_noting]
  leaf_noting l i p := by rw [ρ.leaf_noting, σ.leaf_noting]
  info_problem i := by rw [σ.info_problem, ρ.info_problem]
  leaf_problem l i := by rw [σ.leaf_problem, ρ.leaf_problem]
  leaf_source i := by rw [σ.leaf_source, ρ.leaf_source]
  heading_problem h := by rw [σ.heading_problem, ρ.heading_problem]
  comma_one b := by rw [ρ.comma_one, σ.comma_one]

section Composition

variable {σ ρ : Relabel}

mutual

theorem Element.relabel_relabel : (e : Element) → (e.relabel ρ).relabel σ = e.relabel (σ.comp ρ)
  | .leaf .. => rfl
  | .tuple _ items _ => by simp [Element.relabel, Relabel.comp, relabel_relabelAll items]
  | .array _ items => by simp [Element.relabel, Relabel.comp, relabel_relabelAll items]
  | .json _ entries => by simp [Element.relabel, Relabel.comp, relabel_relabelEntries entries]
  | .expression _ parts _ => by simp [Element.relabel, Relabel.comp, relabel_relabelAll parts]
  | .block _ cs _ => by simp [Element.relabel, Relabel.comp, relabel_relabelCommands cs]

theorem relabel_relabelAll : (es : List Element) →
    es.map (Element.relabel σ ∘ Element.relabel ρ) = es.map (Element.relabel (σ.comp ρ))
  | [] => rfl
  | e :: es => by simp [relabel_relabelAll es, Element.relabel_relabel e]

theorem Entry.relabel_relabel : (e : Entry) → (e.relabel ρ).relabel σ = e.relabel (σ.comp ρ)
  | .pair k v => by simp [Entry.relabel, Element.relabel_relabel k, Element.relabel_relabel v]
  | .bare k => by simp [Entry.relabel, Element.relabel_relabel k]

theorem relabel_relabelEntries : (es : List Entry) →
    es.map (Entry.relabel σ ∘ Entry.relabel ρ) = es.map (Entry.relabel (σ.comp ρ))
  | [] => rfl
  | e :: es => by simp [relabel_relabelEntries es, Entry.relabel_relabel e]

theorem Command.relabel_relabel : (c : Command) → (c.relabel ρ).relabel σ = c.relabel (σ.comp ρ)
  | .bare _ => rfl
  | .given _ a => by simp [Command.relabel, Relabel.comp, Element.relabel_relabel a]

theorem relabel_relabelCommands : (cs : List Command) →
    cs.map (Command.relabel σ ∘ Command.relabel ρ) = cs.map (Command.relabel (σ.comp ρ))
  | [] => rfl
  | c :: cs => by simp [relabel_relabelCommands cs, Command.relabel_relabel c]

end

end Composition

/-! ## Shifting -/

/-- The span moved by a number of bytes. -/
def Span.shift (bytes : Nat) (s : Span) : Span := ⟨s.start + bytes, s.stop + bytes⟩

/-- The place moved by a number of bytes and lines. -/
def Info.shift (bytes lines : Nat) (i : Info) : Info :=
  ⟨⟨i.span.shift bytes, i.line + lines, i.source⟩, i.problem⟩

/-- All places moved by a number of bytes and lines. -/
def Relabel.shift (bytes lines : Nat) : Relabel where
  info := Info.shift bytes lines
  leaf _ := Info.shift bytes lines
  heading h := { h with span := h.span.shift bytes, line := h.line + lines }
  comma b _ := b
  info_noting _ _ := rfl
  leaf_noting _ _ _ := rfl
  info_problem _ := rfl
  leaf_problem _ _ := rfl
  leaf_source _ := rfl
  heading_problem _ := rfl
  comma_one _ := rfl

/-- The element moved by a number of bytes and lines. -/
abbrev Element.shift (bytes lines : Nat) (e : Element) : Element := e.relabel (.shift bytes lines)

/-- The entry moved by a number of bytes and lines. -/
abbrev Entry.shift (bytes lines : Nat) (e : Entry) : Entry := e.relabel (.shift bytes lines)

/-- The command moved by a number of bytes and lines. -/
abbrev Command.shift (bytes lines : Nat) (c : Command) : Command := c.relabel (.shift bytes lines)

@[simp] theorem Element.shift_info (bytes lines : Nat) (e : Element) :
    (e.shift bytes lines).info = e.info.shift bytes lines := by
  cases e <;> rfl

mutual

/-- An element that is moved by nothing stays. -/
@[simp] theorem Element.shift_zero : (e : Element) → e.shift 0 0 = e
  | .leaf .. => rfl
  | .tuple i items trailing => congrArg (Element.tuple i · trailing) (shiftAll_zero items)
  | .array i items => congrArg (Element.array i) (shiftAll_zero items)
  | .json i entries => congrArg (Element.json i) (shiftEntries_zero entries)
  | .expression i parts resolved => congrArg (Element.expression i · resolved) (shiftAll_zero parts)
  | .block i commands text => congrArg (Element.block i · text) (shiftCommands_zero commands)

theorem shiftAll_zero : (es : List Element) → relabelAll (.shift 0 0) es = es
  | [] => rfl
  | e :: es => by simp only [relabelAll, Element.shift_zero e, shiftAll_zero es]

theorem Entry.shift_zero : (e : Entry) → e.shift 0 0 = e
  | .pair k v => by simp only [Entry.relabel, Element.shift_zero k, Element.shift_zero v]
  | .bare k => by simp only [Entry.relabel, Element.shift_zero k]

theorem shiftEntries_zero : (es : List Entry) → relabelEntries (.shift 0 0) es = es
  | [] => rfl
  | e :: es => by simp only [relabelEntries, Entry.shift_zero e, shiftEntries_zero es]

/-- A command that is moved by nothing stays. -/
@[simp] theorem Command.shift_zero : (c : Command) → c.shift 0 0 = c
  | .bare _ => rfl
  | .given h a => congrArg (Command.given h) (Element.shift_zero a)

theorem shiftCommands_zero : (cs : List Command) → relabelCommands (.shift 0 0) cs = cs
  | [] => rfl
  | c :: cs => by simp only [relabelCommands, Command.shift_zero c, shiftCommands_zero cs]

end

/-! ## Erasing -/

/-- The place that says nothing, with a problem. -/
def Info.blank (problem : Option Problem) : Info := ⟨⟨⟨0, 0⟩, 0, ""⟩, problem⟩

/-- All places forgotten. Only a tuple of one item shows its trailing comma, so that of any other tuple is forgotten
too. -/
def Relabel.erase : Relabel where
  info i := .blank i.problem
  leaf l i := ⟨⟨⟨0, 0⟩, 0, if l = .unknown then i.source else ""⟩, i.problem⟩
  heading h := { h with span := ⟨0, 0⟩, line := 0 }
  comma b n := b && n == 1
  info_noting _ _ := rfl
  leaf_noting _ _ _ := rfl
  info_problem _ := rfl
  leaf_problem _ _ := rfl
  leaf_source _ := by simp
  heading_problem _ := rfl
  comma_one b := by simp

/-- The element without its places. -/
abbrev Element.erase (e : Element) : Element := e.relabel .erase

/-- The entry without its places. -/
abbrev Entry.erase (e : Entry) : Entry := e.relabel .erase

/-- The command without its places. -/
abbrev Command.erase (c : Command) : Command := c.relabel .erase

section Parts

variable {i : Info}

theorem Element.erase_tuple (items : List Element) (trailing : Bool) : (Element.tuple i items trailing).erase =
    .tuple (.blank i.problem) (items.map Element.erase) (trailing && items.length == 1) := by
  simp only [Element.relabel, relabelAll_eq_map]
  rfl

theorem Element.erase_array (items : List Element) :
    (Element.array i items).erase = .array (.blank i.problem) (items.map Element.erase) := by
  simp only [Element.relabel, relabelAll_eq_map]
  rfl

theorem Element.erase_json (entries : List Entry) :
    (Element.json i entries).erase = .json (.blank i.problem) (entries.map Entry.erase) := by
  simp only [Element.relabel, relabelEntries_eq_map]
  rfl

theorem Element.erase_expression (parts : List Element) (resolved : Option Resolved) :
    (Element.expression i parts resolved).erase =
      .expression (.blank i.problem) (parts.map Element.erase) resolved := by
  simp only [Element.relabel, relabelAll_eq_map]
  rfl

theorem Element.erase_block (commands : List Command) (text : String) :
    (Element.block i commands text).erase = .block (.blank i.problem) (commands.map Command.erase) text := by
  simp only [Element.relabel, relabelCommands_eq_map]
  rfl

end Parts

/-- Erasing forgets a shift. -/
theorem Relabel.erase_comp_shift (bytes lines : Nat) : Relabel.comp .erase (.shift bytes lines) = .erase := rfl

theorem Command.erase_shift (bytes lines : Nat) (c : Command) : (c.shift bytes lines).erase = c.erase := by
  simp only [Command.relabel_relabel, Relabel.erase_comp_shift]

/-- Trees that are the same up to their places have the same text. -/
theorem Element.text_eq_of_erase_eq {e e' : Element} (h : e.erase = e'.erase) : e.text = e'.text := by
  simpa only [Element.relabel_text] using congrArg Element.text h

/-- Trees that are the same up to their places have mistakes together. -/
theorem Element.hasErrors_eq_of_erase_eq {e e' : Element} (h : e.erase = e'.erase) : e.hasErrors = e'.hasErrors := by
  simpa only [Element.relabel_hasErrors] using congrArg Element.hasErrors h

end UiScript
