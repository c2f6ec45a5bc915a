import UiScript.Compilation
import UiScript.Proofs.Checking
import UiScript.Proofs.Unbound

/-!
# On which values a result depends

A compilation asks for the values of the variables outside blocks and for no others: two scopes that agree on these give
the same instructions and diagnostics, wherever their values come from, and a check asks for no value at all
(`compile_variables`). Substitution gives the same tree under scopes that agree on its variables
(`Element.substitute_congr`); a check prepares only commands in which there is nothing to substitute
(`Command.check_scope`).
-/

namespace UiScript

/-- The variables of a command outside blocks, in reading order. -/
def Command.variables (c : Command) : List Variable := c.argument?.elim [] Element.variables

/-- The two scopes give these variables the same values, or none in both. -/
def Scope.AgreesOn (scope scope' : Scope) (vs : List Variable) : Prop :=
  ∀ v ∈ vs, scope.lookup v.name = scope'.lookup v.name

section Agreement

variable {scope scope' : Scope}

theorem Scope.agreesOn_append {vs ws : List Variable} :
    scope.AgreesOn scope' (vs ++ ws) ↔ scope.AgreesOn scope' vs ∧ scope.AgreesOn scope' ws :=
  List.forall_mem_append

/-! ## Substitution -/

/-- What stands in the place of a variable depends on its value alone. -/
theorem resolveVariable_congr {name : String} (h : scope.lookup name = scope'.lookup name) (forced : Bool) (i : Info) :
    resolveVariable scope forced i name = resolveVariable scope' forced i name := by
  unfold resolveVariable
  rw [h]

mutual

/-- **Under scopes that agree on its variables an element becomes the same.** -/
theorem Element.substitute_congr : (e : Element) → (forced : Bool) → scope.AgreesOn scope' e.variables →
    e.substitute scope forced = e.substitute scope' forced
  | .leaf i l, forced, h => by
    cases l with
    | reference name => exact resolveVariable_congr (h ⟨i, name⟩ List.mem_cons_self) forced i
    | _ => rfl
  | .tuple i items trailing, forced, h => by
    rw [Element.substitute, Element.substitute, substituteAll_congr items forced h]
  | .array i items, forced, h => by
    simp only [Element.substitute, substituteAll_congr items forced h]
  | .json i entries, forced, h => by
    rw [Element.substitute, Element.substitute, substituteEntries_congr entries forced h]
  | .expression i parts resolved, forced, h => by
    rw [Element.substitute, Element.substitute, substituteAll_congr parts forced h]
  | .block i commands text, _, _ => rfl

theorem substituteAll_congr : (es : List Element) → (forced : Bool) → scope.AgreesOn scope' (variablesOf es) →
    substituteAll scope forced es = substituteAll scope' forced es
  | [], _, _ => rfl
  | e :: es, forced, h => by
    obtain ⟨he, hes⟩ := Scope.agreesOn_append.mp h
    rw [substituteAll, substituteAll, Element.substitute_congr e forced he, substituteAll_congr es forced hes]

theorem Entry.substitute_congr : (p : Entry) → (forced : Bool) → scope.AgreesOn scope' p.variables →
    p.substitute scope forced = p.substitute scope' forced
  | .pair k v, forced, h => by
    obtain ⟨hk, hv⟩ := Scope.agreesOn_append.mp h
    rw [Entry.substitute, Entry.substitute, Element.substitute_congr k true hk, Element.substitute_congr v forced hv]
  | .bare k, _, h => by rw [Entry.substitute, Entry.substitute, Element.substitute_congr k true h]

theorem substituteEntries_congr : (ps : List Entry) → (forced : Bool) → scope.AgreesOn scope' (entryVariables ps) →
    substituteEntries scope forced ps = substituteEntries scope' forced ps
  | [], _, _ => rfl
  | p :: ps, forced, h => by
    obtain ⟨hp, hps⟩ := Scope.agreesOn_append.mp h
    rw [substituteEntries, substituteEntries, Entry.substitute_congr p forced hp,
      substituteEntries_congr ps forced hps]

end

/-! ## Commands -/

variable {settings : Settings}

/-- Under scopes that agree on its variables a command is prepared to the same. -/
theorem Command.prepare_congr {c : Command} (h : scope.AgreesOn scope' c.variables) :
    c.prepare scope settings = c.prepare scope' settings := by
  cases c with
  | bare head => rfl
  | given head a =>
    have hargument : a.substitute scope false = a.substitute scope' false := a.substitute_congr false h
    simp only [Command.prepare, Command.argument?, Option.map_some, hargument]

/-- Commands that are prepared to the same compile to the same. -/
theorem compile_of_prepare (dispatch : Dispatcher) {cs : List Command}
    (h : ∀ c ∈ cs, c.prepare scope settings = c.prepare scope' settings) :
    compile dispatch scope settings cs = compile dispatch scope' settings cs := by
  induction cs with
  | nil => rfl
  | cons c cs ih =>
    obtain ⟨hc, hcs⟩ := List.forall_mem_cons.mp h
    rw [compile, compile, hc, ih hcs]

/-- Without its blocks, a command is checked without any value: it is prepared only where it has no variable. -/
theorem Command.checkAlone_scope (c : Command) : c.checkAlone scope settings = c.checkAlone scope' settings := by
  unfold Command.checkAlone
  cases hvariable : c.hasVariable with
  | true => rfl
  | false => rw [Command.prepare_of_hasVariable scope' hvariable]

/-- **No value is asked for in a check**, at any depth of blocks. -/
theorem Command.check_scope (c : Command) : c.check scope settings = c.check scope' settings := by
  induction c using Command.byBlocks with
  | h c ih =>
    have hblocks : c.blockCommands.flatMap (·.checkInside scope settings) =
        c.blockCommands.flatMap (·.checkInside scope' settings) := by
      refine List.flatMap_congr fun k hk => ?_
      rw [Command.checkInside, Command.checkInside, ih k hk]
    rw [Command.check_eq_append, Command.check_eq_append, c.checkAlone_scope, hblocks]

end Agreement

/-- **A compilation depends on the variables that it mentions and on nothing else.** Under two scopes that agree on the
variables outside blocks, whether local, global or of the environment, commands compile to the same instructions and
diagnostics; and a check gives the same under any two scopes. -/
theorem compile_variables (scope scope' : Scope) (settings : Settings) :
    (∀ (dispatch : Dispatcher) (cs : List Command), (∀ c ∈ cs, scope.AgreesOn scope' c.variables) →
        compile dispatch scope settings cs = compile dispatch scope' settings cs) ∧
      ∀ c : Command, c.check scope settings = c.check scope' settings :=
  ⟨fun dispatch _ h => compile_of_prepare dispatch fun c hc => Command.prepare_congr (h c hc),
    fun c => c.check_scope⟩

set_option maxRecDepth 10000 in
/-- Two scopes that have the value of a variable from different sources, and differ on a variable in a block: the script
compiles to the same, and its check asks for neither. -/
theorem compile_variables_block :
    let cs := (Script.parse .any "a: |x|\nb: (1, block \x7b c: |y| \x7d)").commands
    let scope : Scope := { locals := some ⟨[("x", .text "on")]⟩, globals := some ⟨[("y", .text "off")]⟩ }
    let scope' : Scope := { environment := ⟨[("x", "on")]⟩ }
    (∀ c ∈ cs, scope.AgreesOn scope' c.variables) ∧
      (compile (fun c => .ok [c.argumentText]) scope {} cs).instructions = ["\"on\"", "(1, block \x7b c: |y| \x7d)"] ∧
      (∀ dispatch : Dispatcher, compile dispatch scope {} cs = compile dispatch scope' {} cs) ∧
      ∀ c ∈ cs, c.check scope {} = c.check scope' {} := by
  intro cs scope scope'
  have hnames : (∀ c ∈ cs, ∀ v ∈ c.variables, v.name = "x") := by decide +kernel
  have hagree : ∀ c ∈ cs, scope.AgreesOn scope' c.variables := by
    intro c hc v hv
    rw [hnames c hc v hv]
    rfl
  obtain ⟨hcompile, hcheck⟩ := compile_variables scope scope' {}
  exact ⟨hagree, by decide +kernel, fun dispatch => hcompile dispatch cs hagree, fun c _ => hcheck c⟩

end UiScript
