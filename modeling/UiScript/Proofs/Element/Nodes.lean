import UiScript.Proofs.Element.Places

/-!
# The nodes of a tree

The nodes of a tree are its elements and commands, blocks included, each in front of what it holds (`Element.nodes`,
`Command.nodes`). They are the commands within a command at any depth and what occurs in the arguments of these
(`Command.mem_nodes`), and what is reported of a tree is the own problem of each of its nodes, in this order
(`Element.diagnostics_eq_flatMap`, `Command.diagnostics_eq_flatMap`).
-/

namespace UiScript

open Text

/-- An element or a command of a tree. -/
inductive Node where
  | element (e : Element)
  | command (c : Command)

namespace Node

/-- Where a node stands. -/
def place : Node → Place
  | element e => e.place
  | command c => c.place

/-- The own problem of a node. -/
def problem : Node → Option Problem
  | element e => e.problem
  | command c => c.head.problem

/-- What is shown with the problem of a node: the text of a command. -/
def detail? : Node → Option String
  | element _ => none
  | command c => some (String.ofList (trim c.head.text.toList))

/-- The report of a node's own problem. -/
def report (n : Node) : Diagnostics := (n.problem.map (Diagnostic.ofProblem · n.place.line n.detail?)).toList

/-- All that is reported of a node and of what it holds. -/
def diagnostics : Node → Diagnostics
  | element e => e.diagnostics
  | command c => c.diagnostics

/-- Whether a node or something that it holds has a problem. -/
def hasErrors : Node → Bool
  | element e => e.hasErrors
  | command c => c.hasErrors

/-- Whether a node or something that it holds has a fatal problem. -/
def hasFatal : Node → Bool
  | element e => e.hasFatal
  | command c => c.hasFatal

end Node

mutual

/-- The nodes of an element, itself in front. -/
def Element.nodes : Element → List Node
  | .leaf i l => [.element (.leaf i l)]
  | .tuple i items trailing => .element (.tuple i items trailing) :: nodesOf items
  | .array i items => .element (.array i items) :: nodesOf items
  | .json i entries => .element (.json i entries) :: entryNodes entries
  | .expression i parts resolved => .element (.expression i parts resolved) :: nodesOf parts
  | .block i commands text => .element (.block i commands text) :: commandNodes commands

/-- The nodes of several elements. -/
def nodesOf : List Element → List Node
  | [] => []
  | e :: es => e.nodes ++ nodesOf es

/-- The nodes of an entry. -/
def Entry.nodes : Entry → List Node
  | .pair k v => k.nodes ++ v.nodes
  | .bare k => k.nodes

/-- The nodes of several entries. -/
def entryNodes : List Entry → List Node
  | [] => []
  | p :: ps => p.nodes ++ entryNodes ps

/-- The nodes of a command, itself in front. -/
def Command.nodes : Command → List Node
  | .bare h => [.command (.bare h)]
  | .given h a => .command (.given h a) :: a.nodes

/-- The nodes of several commands. -/
def commandNodes : List Command → List Node
  | [] => []
  | c :: cs => c.nodes ++ commandNodes cs

end

/-- The nodes of a script. -/
def Script.nodes (s : Script) : List Node := s.commands.flatMap Command.nodes

/-! ## A node and what it holds -/

@[simp] theorem nodesOf_eq_flatMap (es : List Element) : nodesOf es = es.flatMap Element.nodes := by
  induction es with
  | nil => simp [nodesOf]
  | cons e es ih => simp [nodesOf, ih]

@[simp] theorem entryNodes_eq_flatMap (ps : List Entry) : entryNodes ps = ps.flatMap Entry.nodes := by
  induction ps with
  | nil => simp [entryNodes]
  | cons p ps ih => simp [entryNodes, ih]

@[simp] theorem commandNodes_eq_flatMap (cs : List Command) : commandNodes cs = cs.flatMap Command.nodes := by
  induction cs with
  | nil => simp [commandNodes]
  | cons c cs ih => simp [commandNodes, ih]

section Parts

variable {e x : Element} {c k : Command} {n : Node}

/-- Except for a block, an element holds its parts. -/
theorem Element.nodes_eq (hblock : e.kind ≠ .block) : e.nodes = .element e :: e.children.flatMap Element.nodes := by
  cases e with
  | json i entries =>
    have hentry : ∀ p : Entry, p.nodes = p.parts.flatMap Element.nodes := by
      intro p
      cases p <;> simp [Entry.nodes, Entry.parts]
    rw [Element.nodes, entryNodes_eq_flatMap, Element.children, List.flatMap_assoc]
    exact congrArg (_ :: entries.flatMap ·) (funext hentry)
  | block i commands text => exact absurd rfl hblock
  | _ => simp [Element.nodes, Element.children]

theorem Element.nodes_block (i : Info) (commands : List Command) (text : String) :
    (Element.block i commands text).nodes =
      .element (.block i commands text) :: commands.flatMap Command.nodes := by
  rw [Element.nodes, commandNodes_eq_flatMap]

/-- A command holds its argument. -/
theorem Command.nodes_eq (c : Command) : c.nodes = .command c :: c.argument?.toList.flatMap Element.nodes := by
  cases c <;> simp [Command.nodes, Command.argument?]

theorem Element.mem_nodes_self (e : Element) : .element e ∈ e.nodes := by
  cases e <;> simp [Element.nodes]

/-! ## Which nodes there are -/

/-- What occurs outside blocks has its nodes in the tree. -/
theorem Occurs.nodes_subset (h : Occurs false x e) : x.nodes ⊆ e.nodes := by
  induction h with
  | self => exact fun _ hn => hn
  | part hc _ ih =>
    intro n hn
    rw [Element.nodes_eq (Element.kind_ne_block hc)]
    exact List.mem_cons_of_mem _ (List.mem_flatMap.mpr ⟨_, hc, ih hn⟩)
  | command hdeep _ _ _ _ => cases hdeep

/-- The commands in the blocks of an element have their nodes in it. -/
theorem Element.nodes_subset_of_blockCommands (hk : k ∈ e.blockCommands) : k.nodes ⊆ e.nodes := by
  obtain ⟨i, commands, text, hblock, hk⟩ := Element.mem_blockCommands e hk
  intro n hn
  apply hblock.nodes_subset
  rw [Element.nodes_block]
  exact List.mem_cons_of_mem _ (List.mem_flatMap.mpr ⟨k, hk, hn⟩)

/-- The nodes of an element are what occurs in it outside blocks and the nodes of the commands in its blocks. -/
theorem Element.mem_nodes (e : Element) :
    n ∈ e.nodes → (∃ x, Occurs false x e ∧ n = .element x) ∨ ∃ k ∈ e.blockCommands, n ∈ k.nodes := by
  induction e using Element.byChildren with
  | h e ih =>
    intro hn
    by_cases hblock : e.kind = .block
    · obtain ⟨i, commands, text, rfl⟩ := Element.exists_of_kind_block hblock
      rw [Element.nodes_block, List.mem_cons] at hn
      rcases hn with rfl | hn
      · exact Or.inl ⟨_, .self _, rfl⟩
      · exact Or.inr (List.mem_flatMap.mp hn)
    · rw [Element.nodes_eq hblock, List.mem_cons] at hn
      rcases hn with rfl | hn
      · exact Or.inl ⟨e, .self e, rfl⟩
      · obtain ⟨c, hc, hn⟩ := List.mem_flatMap.mp hn
        rcases ih c hc hn with ⟨x, hx, rfl⟩ | ⟨k, hk, hn⟩
        · exact Or.inl ⟨x, .part hc hx, rfl⟩
        · rw [Element.blockCommands_eq_flatMap hblock]
          exact Or.inr ⟨k, List.mem_flatMap.mpr ⟨c, hc, hk⟩, hn⟩

/-- **The nodes of a command** are the commands within it, at any depth of blocks, and what occurs in their arguments. -/
theorem Command.mem_nodes (c : Command) :
    n ∈ c.nodes ↔ ∃ d : Command, d.Within c ∧
      (n = .command d ∨ ∃ a x, d.argument? = some a ∧ Occurs false x a ∧ n = .element x) := by
  constructor
  · induction c using Command.byBlocks with
    | h c ih =>
      intro hn
      rw [Command.nodes_eq, List.mem_cons] at hn
      rcases hn with rfl | hn
      · exact ⟨c, .self c, Or.inl rfl⟩
      · obtain ⟨a, ha, hn⟩ := List.mem_flatMap.mp hn
        have ha : c.argument? = some a := Option.mem_toList.mp ha
        rcases Element.mem_nodes a hn with ⟨x, hx, rfl⟩ | ⟨k, hk, hn⟩
        · exact ⟨c, .self c, Or.inr ⟨a, x, ha, hx, rfl⟩⟩
        · have hk : k ∈ c.blockCommands := by rwa [Command.blockCommands, ha]
          obtain ⟨d, hd, hn⟩ := ih k hk hn
          exact ⟨d, .inside hk hd, hn⟩
  · rintro ⟨d, hd, hn⟩
    have hargument : ∀ {c : Command} {a}, c.argument? = some a → a.nodes ⊆ c.nodes := by
      intro c a ha n hn
      rw [Command.nodes_eq, ha]
      exact List.mem_cons_of_mem _ (by simpa using hn)
    induction hd with
    | self =>
      rcases hn with rfl | ⟨a, x, ha, hx, rfl⟩
      · rw [Command.nodes_eq]
        exact List.mem_cons_self
      · exact hargument ha (hx.nodes_subset x.mem_nodes_self)
    | @inside k c hk _ ih =>
      cases ha : c.argument? with
      | none =>
        rw [Command.blockCommands, ha] at hk
        cases hk
      | some a =>
        rw [Command.blockCommands, ha] at hk
        exact hargument ha (Element.nodes_subset_of_blockCommands hk ih)

end Parts

/-! ## What is reported of the nodes -/

mutual

/-- **The diagnostics of an element** are the reports of its nodes. -/
theorem Element.diagnostics_eq_flatMap : (e : Element) → e.diagnostics = e.nodes.flatMap Node.report
  | .leaf i l => (List.append_nil _).symm
  | .tuple i items _ => by
    rw [Element.diagnostics, Element.nodes, List.flatMap_cons, diagnosticsOf_nodes items]
    rfl
  | .array i items => by
    rw [Element.diagnostics, Element.nodes, List.flatMap_cons, diagnosticsOf_nodes items]
    rfl
  | .json i entries => by
    rw [Element.diagnostics, Element.nodes, List.flatMap_cons, entryDiagnostics_nodes entries]
    rfl
  | .expression i parts _ => by
    rw [Element.diagnostics, Element.nodes, List.flatMap_cons, diagnosticsOf_nodes parts]
    rfl
  | .block i commands _ => by
    rw [Element.diagnostics, Element.nodes, List.flatMap_cons, commandDiagnostics_nodes commands]
    rfl

theorem diagnosticsOf_nodes : (es : List Element) → diagnosticsOf es = (nodesOf es).flatMap Node.report
  | [] => rfl
  | e :: es => by
    rw [diagnosticsOf, nodesOf, List.flatMap_append, Element.diagnostics_eq_flatMap e, diagnosticsOf_nodes es]

theorem Entry.diagnostics_nodes : (p : Entry) → p.diagnostics = p.nodes.flatMap Node.report
  | .pair k v => by
    rw [Entry.diagnostics, Entry.nodes, List.flatMap_append, Element.diagnostics_eq_flatMap k,
      Element.diagnostics_eq_flatMap v]
  | .bare k => by rw [Entry.diagnostics, Entry.nodes, Element.diagnostics_eq_flatMap k]

theorem entryDiagnostics_nodes : (ps : List Entry) → entryDiagnostics ps = (entryNodes ps).flatMap Node.report
  | [] => rfl
  | p :: ps => by
    rw [entryDiagnostics, entryNodes, List.flatMap_append, Entry.diagnostics_nodes p, entryDiagnostics_nodes ps]

/-- **The diagnostics of a command** are the reports of its nodes. -/
theorem Command.diagnostics_eq_flatMap : (c : Command) → c.diagnostics = c.nodes.flatMap Node.report
  | .bare h => (List.append_nil _).symm
  | .given h a => by
    rw [Command.diagnostics, Command.nodes, List.flatMap_cons, Element.diagnostics_eq_flatMap a]
    rfl

theorem commandDiagnostics_nodes : (cs : List Command) →
    commandDiagnostics cs = (commandNodes cs).flatMap Node.report
  | [] => rfl
  | c :: cs => by
    rw [commandDiagnostics, commandNodes, List.flatMap_append, Command.diagnostics_eq_flatMap c,
      commandDiagnostics_nodes cs]

end

/-- The diagnostics of a script are the reports of its nodes. -/
theorem Script.diagnostics_eq_flatMap (s : Script) : s.diagnostics = s.nodes.flatMap Node.report := by
  rw [Script.diagnostics, Script.nodes, List.flatMap_assoc]
  exact congrArg (s.commands.flatMap ·) (funext Command.diagnostics_eq_flatMap)

/-- One diagnostic is reported of every node that has a problem, with the line on which the node starts. -/
theorem map_line_reports (ns : List Node) :
    (ns.flatMap Node.report).map (·.line) = (ns.filter (·.problem.isSome)).map (some ·.place.line) := by
  induction ns with
  | nil => rfl
  | cons n ns ih =>
    rw [List.flatMap_cons, List.map_append, ih]
    cases hproblem : n.problem <;> simp [Node.report, Diagnostic.ofProblem, hproblem]

/-- Nothing is reported of a node if and only if neither it nor anything that it holds has a problem. -/
theorem Node.diagnostics_eq_nil_iff (n : Node) : n.diagnostics = [] ↔ n.hasErrors = false := by
  cases n with
  | element e => exact e.diagnostics_eq_nil_iff
  | command c => exact c.diagnostics_eq_nil_iff

/-- Something fatal is reported of a node if and only if it or something that it holds has a fatal problem. -/
theorem Node.diagnostics_hasFatal (n : Node) : Diagnostics.hasFatal n.diagnostics = n.hasFatal := by
  cases n with
  | element e => exact e.diagnostics_hasFatal
  | command c => exact c.diagnostics_hasFatal

end UiScript
