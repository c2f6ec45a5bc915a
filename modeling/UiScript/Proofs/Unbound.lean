import Mathlib.Algebra.BigOperators.Group.List.Basic
import Mathlib.Algebra.GroupWithZero.Nat
import Mathlib.Data.List.Forall2
import UiScript.Proofs.Preparation

/-!
# Variables without a value

Substitution leaves exactly the variables without a value (`substitute_unbound`): they stand where they stood and in the
same order, each with the fatal problem that it has no value, and no part of a value becomes a variable, whatever its
text. Nothing else becomes fatal or ceases to be.

* **Parts** (`children_substitute`): values are put into the parts of an element one by one.
* **Readers** (`mildVariable_ensured`): no variable has a fatal problem as it is read, so that every variable without a
  value adds one.
-/

namespace UiScript

open Reading

/-! ## The variables of a tree -/

/-- A variable where it stands. -/
structure Variable where
  info : Info
  name : String
deriving DecidableEq, Repr

mutual

/-- The variables of an element outside blocks, in reading order. -/
def Element.variables : Element → List Variable
  | .leaf i (.reference name) => [⟨i, name⟩]
  | .leaf .. => []
  | .tuple _ items _ => variablesOf items
  | .array _ items => variablesOf items
  | .json _ entries => entryVariables entries
  | .expression _ parts _ => variablesOf parts
  | .block .. => []

/-- The variables of several elements. -/
def variablesOf : List Element → List Variable
  | [] => []
  | e :: es => e.variables ++ variablesOf es

/-- The variables of an entry. -/
def Entry.variables : Entry → List Variable
  | .pair k v => k.variables ++ v.variables
  | .bare k => k.variables

/-- The variables of several entries. -/
def entryVariables : List Entry → List Variable
  | [] => []
  | p :: ps => p.variables ++ entryVariables ps

end

@[simp] theorem variablesOf_eq_flatMap (es : List Element) : variablesOf es = es.flatMap Element.variables := by
  induction es with
  | nil => simp [variablesOf]
  | cons e es ih => simp [variablesOf, ih]

@[simp] theorem entryVariables_eq_flatMap (ps : List Entry) : entryVariables ps = ps.flatMap Entry.variables := by
  induction ps with
  | nil => simp [entryVariables]
  | cons p ps ih => simp [entryVariables, ih]

/-- Whether the variable has no value. -/
def Scope.lacks (scope : Scope) (v : Variable) : Bool := (scope.lookup v.name).isNone

/-- The variable with the problem that it has no value. -/
def Variable.unbound (v : Variable) : Variable :=
  { v with info := { v.info with problem := some (.unboundVariable v.name) } }

/-! ## Trees by their parts -/

section Parts

variable {e : Element}

/-- To collect something from the entries is to collect it from their parts. -/
theorem flatMap_parts {α : Type} {f : Element → List α} {g : Entry → List α} (h : ∀ p, g p = p.parts.flatMap f)
    (entries : List Entry) : entries.flatMap g = (entries.flatMap Entry.parts).flatMap f := by
  rw [List.flatMap_assoc]
  congr 1
  funext p
  exact h p

/-- The variables of an element are those of its parts, unless it is a variable itself. -/
theorem Element.variables_eq_flatMap (hk : e.kind ≠ .reference) :
    e.variables = e.children.flatMap Element.variables := by
  cases e with
  | leaf i l =>
    cases l with
    | reference name => exact absurd rfl hk
    | _ => rfl
  | json i entries =>
    rw [Element.variables, entryVariables_eq_flatMap, Element.children]
    apply flatMap_parts
    intro p
    cases p <;> simp [Entry.variables, Entry.parts]
  | _ => simp [Element.variables, Element.children]

/-- An element other than a block reports its own problem and then those of its parts. -/
theorem Element.diagnostics_eq_append (hk : e.kind ≠ .block) :
    e.diagnostics = e.info.diagnostics ++ e.children.flatMap Element.diagnostics := by
  cases e with
  | json i entries =>
    rw [Element.diagnostics, entryDiagnostics_eq_flatMap, Element.children]
    congr 1
    apply flatMap_parts
    intro p
    cases p <;> simp [Entry.diagnostics, Entry.parts]
  | block i commands text => exact absurd rfl hk
  | _ => simp [Element.diagnostics, Element.children, Element.info]

theorem variables_of_hasVariable (e : Element) : e.hasVariable = false → e.variables = [] := by
  induction e using Element.byChildren with
  | h e ih =>
    intro h
    obtain ⟨hk, hchildren⟩ := Element.hasVariable_eq_false_iff.mp h
    rw [Element.variables_eq_flatMap hk, List.flatMap_eq_nil_iff]
    exact fun c hc => ih c hc (hchildren c hc)

end Parts

/-! ## Fatal diagnostics -/

@[simp] theorem Diagnostics.fatalCount_append (ds es : Diagnostics) :
    Diagnostics.fatalCount (ds ++ es) = Diagnostics.fatalCount ds + Diagnostics.fatalCount es := List.countP_append

theorem Diagnostics.fatalCount_eq_zero {ds : Diagnostics} : ds.fatalCount = 0 ↔ ds.hasFatal = false := by
  rw [Diagnostics.fatalCount, Diagnostics.hasFatal, List.countP_eq_zero, List.any_eq_false]

theorem Diagnostics.fatalCount_flatMap {α : Type} (f : α → Diagnostics) (as : List α) :
    Diagnostics.fatalCount (as.flatMap f) = (as.map fun a => (f a).fatalCount).sum := by
  rw [Diagnostics.fatalCount, List.countP_flatMap]
  rfl

/-- How much a problem of an element adds to the fatal diagnostics depends on whether it is fatal. -/
theorem Info.fatalCount_diagnostics {i j : Info} (h : isFatalProblem i.problem = isFatalProblem j.problem) :
    Diagnostics.fatalCount i.diagnostics = Diagnostics.fatalCount j.diagnostics := by
  cases hi : i.problem <;> cases hj : j.problem <;> rw [hi, hj] at h <;>
    simp_all [Info.diagnostics, Diagnostics.fatalCount, Diagnostic.ofProblem, isFatalProblem]

mutual

/-- **Nothing in a structured value is fatal.** -/
theorem Json.element_hasFatal (place : Place) : (v : Json) → (v.element place).hasFatal = false
  | .null => by rw [Json.element]; rfl
  | .bool b => by rw [Json.element]; rfl
  | .integer n => by rw [Json.element]; rfl
  | .float x => by rw [Json.element]; rfl
  | .string s => by rw [Json.element]; rfl
  | .array items => by
    rw [Json.element, Element.hasFatal, mixedKinds?_mild, Bool.false_or]
    exact jsonElements_hasFatal place items
  | .object members => by
    rw [Json.element, Element.hasFatal]
    exact jsonEntries_hasFatal place members

theorem jsonElements_hasFatal (place : Place) : (vs : List Json) → anyFatal (jsonElements place vs) = false
  | [] => rfl
  | v :: vs => by
    rw [jsonElements, anyFatal, Json.element_hasFatal place v, Bool.false_or]
    exact jsonElements_hasFatal place vs

theorem Member.entry_hasFatal (place : Place) : (m : Member) → (m.entry place).hasFatal = false
  | .mk name value => by
    rw [Member.entry, Entry.hasFatal, Json.element_hasFatal place value, Bool.or_false]
    rfl

theorem jsonEntries_hasFatal (place : Place) : (ms : List Member) → anyEntryFatal (jsonEntries place ms) = false
  | [] => rfl
  | m :: ms => by
    rw [jsonEntries, anyEntryFatal, Member.entry_hasFatal place m, Bool.false_or]
    exact jsonEntries_hasFatal place ms

end

/-! ## What is read -/

/-- A variable has no fatal problem. -/
def Element.MildVariable : Element → Prop
  | .leaf i (.reference _) => isFatalProblem i.problem = false
  | _ => True

theorem Element.MildVariable.noting {e : Element} {p : Option Problem} (hp : isFatalProblem p = false)
    (h : e.MildVariable) : (e.noting p).MildVariable := by
  cases e with
  | leaf i l =>
    cases l with
    | reference name =>
      show isFatalProblem (Problem.note i.problem p) = false
      rw [isFatalProblem_note, hp, Bool.or_false]
      exact h
    | _ => trivial
  | _ => trivial

namespace Reading

theorem reference_mildVariable (s : Source) (t : Token) (c : Cursor) : (reference s t c).1.MildVariable := by
  unfold reference
  split
  · trivial
  · split
    · dsimp only
      split
      · rfl
      · split <;> rfl
    · trivial

theorem negative_mildVariable (s : Source) (t : Token) (c : Cursor) : (negative s t c).1.MildVariable := by
  unfold negative
  split
  · trivial
  · split
    · split <;> trivial
    · trivial

theorem leaf_mildVariable (s : Source) (c : Cursor) : (leaf s c).1.MildVariable := by
  unfold leaf
  split
  · trivial
  · dsimp only
    split
    all_goals first
      | trivial
      | exact reference_mildVariable _ _ _
      | exact negative_mildVariable _ _ _

/-- **As it is read, no variable has a fatal problem.** -/
theorem mildVariable_ensured (catalog : Catalog) : Ensures catalog (fun _ _ => True) Element.MildVariable where
  reaches _ _ := trivial
  enters _ _ _ := trivial
  leaf _ := leaf_mildVariable _ _
  sign _ _ := trivial
  unknown _ := trivial
  tuple _ _ _ := trivial
  array _ := trivial
  json _ := trivial
  expression _ _ := trivial
  noting hp h := h.noting hp
  block _ _ _ hg := by
    obtain ⟨brace, us, hbrace, -⟩ := opens?_brace hg _
    obtain ⟨i, -, heq⟩ := block_inside hbrace
    rw [container, heq]
    trivial

end Reading

/-! ## Substitution -/

section Substitution

variable (scope : Scope) {e : Element}

theorem parts_substitute (forced : Bool) (p : Entry) :
    List.Forall₂ (fun b c : Element => ∃ f, c = b.substitute scope f) p.parts (p.substitute scope forced).parts := by
  cases p with
  | pair k v => exact .cons ⟨true, rfl⟩ (.cons ⟨forced, rfl⟩ .nil)
  | bare k => exact .cons ⟨true, rfl⟩ .nil

/-- **Values are put into the parts of an element one by one**, unless it is a variable itself. -/
theorem children_substitute (forced : Bool) (hk : e.kind ≠ .reference) :
    List.Forall₂ (fun b c : Element => ∃ f, c = b.substitute scope f) e.children
      (e.substitute scope forced).children := by
  have hall : ∀ items : List Element,
      List.Forall₂ (fun b c : Element => ∃ f, c = b.substitute scope f) items (substituteAll scope forced items) := by
    intro items
    rw [substituteAll_eq_map, List.forall₂_map_right_iff, List.forall₂_same]
    exact fun c _ => ⟨forced, rfl⟩
  by_cases hvariable : e.hasVariable = true
  · cases e with
    | leaf i l =>
      cases l with
      | reference name => exact absurd rfl hk
      | _ => cases hvariable
    | json i entries =>
      have hentries : List.Forall₂ (fun p q : Entry => q = p.substitute scope forced) entries
          (substituteEntries scope forced entries) := by
        rw [substituteEntries_eq_map, List.forall₂_map_right_iff, List.forall₂_same]
        exact fun p _ => rfl
      rw [Element.hasVariable] at hvariable
      rw [Element.substitute, if_pos hvariable]
      refine List.rel_flatMap hentries ?_
      rintro p - rfl
      exact parts_substitute scope forced p
    | block i commands text => cases hvariable
    | _ =>
      rw [Element.hasVariable] at hvariable
      rw [Element.substitute, if_pos hvariable]
      exact hall _
  · rw [Bool.not_eq_true] at hvariable
    rw [substitute_of_hasVariable hvariable, List.forall₂_same]
    exact fun c hc => ⟨forced, (substitute_of_hasVariable (Element.hasVariable_child hc hvariable)).symm⟩

/-- What is known of each part after substitution is known of all of them in order. -/
theorem map_children_substitute {α : Type} {f g : Element → α} (forced : Bool) (hk : e.kind ≠ .reference)
    (h : ∀ b ∈ e.children, ∀ flag, f (b.substitute scope flag) = g b) :
    (e.substitute scope forced).children.map f = e.children.map g := by
  have hchildren := children_substitute scope forced hk
  revert h
  generalize e.children = bs at hchildren ⊢
  generalize (e.substitute scope forced).children = cs at hchildren ⊢
  induction hchildren with
  | nil => exact fun _ => rfl
  | cons hbc _ ih =>
    intro h
    obtain ⟨hb, hbs⟩ := List.forall_mem_cons.mp h
    obtain ⟨flag, rfl⟩ := hbc
    rw [List.map_cons, List.map_cons, hb flag, ih hbs]

/-- Except for variables, the own problem is as fatal as it was. -/
theorem isFatalProblem_substitute (forced : Bool) (hk : e.kind ≠ .reference) :
    isFatalProblem (e.substitute scope forced).problem = isFatalProblem e.problem := by
  cases e with
  | leaf i l =>
    cases l with
    | reference name => exact absurd rfl hk
    | _ => simp [Element.substitute]
  | array i items =>
    rw [Element.substitute]
    split
    · show isFatalProblem (Problem.note i.problem _) = _
      rw [isFatalProblem_note, mixedKinds?_mild, Bool.or_false]
      rfl
    · rfl
  | block i commands text => simp [Element.substitute]
  | _ =>
    rw [Element.substitute]
    split <;> rfl

/-- What stands in the place of a variable that has a value has no variable and nothing fatal. -/
theorem resolveVariable_bound (forced : Bool) {i : Info} {name : String} {value : Value}
    (hvalue : scope.lookup name = some value) (hi : isFatalProblem i.problem = false) :
    (resolveVariable scope forced i name).hasVariable = false ∧
      (resolveVariable scope forced i name).hasFatal = false := by
  unfold resolveVariable
  rw [hvalue]
  dsimp only
  split
  · exact ⟨rfl, hi⟩
  · split
    · exact ⟨rfl, hi⟩
    · split
      · exact ⟨rfl, hi⟩
      · exact ⟨rfl, hi⟩
    · rename_i v
      rw [Element.hasVariable_noting, Element.hasFatal_noting, Json.element_hasFatal, hi]
      exact ⟨(Json.element_closed i.toPlace v).2, rfl⟩
    · exact ⟨rfl, hi⟩

/-- A variable stays, with a fatal problem, if and only if it has no value. -/
theorem resolveVariable_unbound (forced : Bool) {i : Info} (name : String) (hi : isFatalProblem i.problem = false) :
    (resolveVariable scope forced i name).variables =
        ([⟨i, name⟩].filter scope.lacks).map Variable.unbound ∧
      Diagnostics.fatalCount (resolveVariable scope forced i name).diagnostics =
        [⟨i, name⟩].countP scope.lacks := by
  cases hvalue : scope.lookup name with
  | some value =>
    obtain ⟨hvariable, hfatal⟩ := resolveVariable_bound scope forced hvalue hi
    rw [← Element.diagnostics_hasFatal, ← Diagnostics.fatalCount_eq_zero] at hfatal
    rw [variables_of_hasVariable _ hvariable, hfatal]
    simp [Scope.lacks, hvalue]
  | none =>
    have hnote : Problem.note i.problem (some (.unboundVariable name)) = some (.unboundVariable name) := by
      cases hp : i.problem with
      | none => rfl
      | some p =>
        rw [hp] at hi
        have hmild : p.isFatal = false := hi
        have hfatal : (Problem.unboundVariable name).isFatal = true := rfl
        simp [Problem.note, hmild, hfatal]
    have hstays : resolveVariable scope forced i name =
        .leaf { i with problem := some (.unboundVariable name) } (.reference name) := by
      simp only [resolveVariable, hvalue, hnote]
    rw [hstays]
    simp [Scope.lacks, hvalue, Element.variables, Variable.unbound, Element.diagnostics, Info.diagnostics,
      Diagnostics.fatalCount, Diagnostic.ofProblem, Problem.isFatal]

/-- **What substitution leaves of a tree** in which no variable has a fatal problem: the variables without a value, each
with one more fatal diagnostic. -/
theorem substitute_leaves (e : Element) : ∀ forced, e.Every false Element.MildVariable →
    (e.substitute scope forced).variables = (e.variables.filter scope.lacks).map Variable.unbound ∧
      Diagnostics.fatalCount (e.substitute scope forced).diagnostics =
        Diagnostics.fatalCount e.diagnostics + e.variables.countP scope.lacks := by
  induction e using Element.byChildren with
  | h e ih =>
    intro forced h
    by_cases hk : e.kind = .reference
    · obtain ⟨i, name, rfl⟩ := eq_reference hk
      have hi : isFatalProblem i.problem = false := h.here
      have hnone : Diagnostics.fatalCount (Element.leaf i (.reference name)).diagnostics = 0 := by
        rw [Diagnostics.fatalCount_eq_zero, Element.diagnostics_hasFatal]
        exact hi
      rw [Element.substitute, hnone, Nat.zero_add]
      exact resolveVariable_unbound scope forced name hi
    · by_cases hblock : e.kind = .block
      · have hvariable : e.hasVariable = false := by
          obtain ⟨i, commands, text, rfl⟩ := Element.exists_of_kind_block hblock
          rfl
        rw [substitute_of_hasVariable hvariable, variables_of_hasVariable e hvariable]
        exact ⟨rfl, rfl⟩
      · have hvariables := map_children_substitute scope forced hk fun b hb flag => (ih b hb flag (h.child hb)).1
        have hfatal := map_children_substitute (f := fun b => b.diagnostics.fatalCount) scope forced hk
          fun b hb flag => (ih b hb flag (h.child hb)).2
        have hown := Info.fatalCount_diagnostics (isFatalProblem_substitute scope forced hk)
        have hkind : (e.substitute scope forced).kind = e.kind := kind_substitute hk
        constructor
        · rw [Element.variables_eq_flatMap hk, Element.variables_eq_flatMap (hkind ▸ hk), List.filter_flatMap,
            List.map_flatMap, List.flatMap_def, List.flatMap_def, hvariables]
        · rw [Element.diagnostics_eq_append hblock, Element.diagnostics_eq_append (hkind ▸ hblock),
            Element.variables_eq_flatMap hk, Diagnostics.fatalCount_append, Diagnostics.fatalCount_append,
            Diagnostics.fatalCount_flatMap, Diagnostics.fatalCount_flatMap, List.countP_flatMap, hfatal, hown,
            List.sum_map_add, Nat.add_assoc]
          rfl

/-- **Substitution leaves exactly the variables without a value.** The variables of an element that was read, after
values were put in, are those that have no value, in their order, each with a fatal problem; and there are as many more
fatal diagnostics as there are such variables. -/
theorem substitute_unbound (forced : Bool) (h : Parsed e) :
    (e.substitute scope forced).variables = (e.variables.filter scope.lacks).map Variable.unbound ∧
      (∀ v ∈ (e.substitute scope forced).variables, isFatalProblem v.info.problem = true) ∧
      Diagnostics.fatalCount (e.substitute scope forced).diagnostics =
        Diagnostics.fatalCount e.diagnostics + e.variables.countP scope.lacks := by
  have hmild := (h.yields mildVariable_ensured fun _ => trivial).shallow
  obtain ⟨hvariables, hfatal⟩ := substitute_leaves scope e forced hmild
  refine ⟨hvariables, fun v hv => ?_, hfatal⟩
  rw [hvariables] at hv
  obtain ⟨w, -, rfl⟩ := List.mem_map.mp hv
  rfl

end Substitution

set_option maxRecDepth 10000 in
/-- Of four variables, one of them without its second bar and one with a value that reads like a variable, two have no
value; the variable in the block is left alone. -/
theorem substitute_unbound_mixed :
    let e := Element.parse "(|x|, |y, \x7b|k|: |z|\x7d, block \x7b a: |w| \x7d)"
    let scope : Scope := { locals := some ⟨[("x", .text "|y|"), ("k", .boolean true)]⟩, useEnvironment := false }
    e.variables.map (·.name) = ["x", "y", "k", "z"] ∧
      (e.substitute scope false).variables = (e.variables.filter scope.lacks).map Variable.unbound ∧
      (e.variables.filter scope.lacks).map (·.name) = ["y", "z"] ∧
      Diagnostics.fatalCount (e.substitute scope false).diagnostics = 0 + 2 := by
  intro e scope
  obtain ⟨hvariables, -, hfatal⟩ := substitute_unbound scope false (e := e) (Or.inl ⟨_, .self _⟩)
  have hcounts : Diagnostics.fatalCount e.diagnostics = 0 ∧ e.variables.countP scope.lacks = 2 := by decide +kernel
  rw [hcounts.1, hcounts.2] at hfatal
  exact ⟨by decide +kernel, hvariables, by decide +kernel, hfatal⟩

end UiScript
