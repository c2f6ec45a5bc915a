import UiScript.Proofs.Folding
import UiScript.Proofs.Unbound

/-!
# Blocks wait

Preparing a command neither drops nor changes what stands in its blocks (`prepare_lazy`). Values have no blocks
(`Json.element_isLiteral`), so that putting them in keeps the blocks of all parts (`Element.blockCommands_substitute`);
and a chain is replaced by an element that is written out only if none of its operands has a block
(`foldChain_literals`), so that evaluation keeps them too (`Element.blockCommands_evaluate`).
-/

namespace UiScript

/-! ## Elements without blocks -/

/-- What is written out in full has no blocks. -/
theorem blockCommands_of_isLiteral (e : Element) : e.isLiteral = true → e.blockCommands = [] := by
  induction e using Element.byChildren with
  | h e ih =>
    intro h
    have hblock : e.kind ≠ .block := by
      intro hk
      obtain ⟨i, commands, text, rfl⟩ := Element.exists_of_kind_block hk
      cases h
    rw [Element.blockCommands_eq_flatMap hblock, List.flatMap_eq_nil_iff]
    exact fun c hc => ih c hc (isLiteral_child h hc)

/-- Parentheses around an element make no difference to its blocks. -/
theorem blockCommands_unwrap (e : Element) : e.unwrap.blockCommands = e.blockCommands := by
  induction e using Element.byChildren with
  | h e ih =>
    cases e with
    | tuple i items trailing =>
      cases trailing with
      | true => rfl
      | false =>
        rcases items with _ | ⟨x, _ | ⟨y, items⟩⟩
        · rfl
        · have hgroup : (Element.tuple i [x] false).blockCommands = x.blockCommands := by simp [Element.blockCommands]
          exact (ih x (List.mem_singleton_self x)).trans hgroup.symm
        · rfl
    | _ => rfl

/-- An operand that is written out has no blocks. -/
theorem blockCommands_of_value {e : Element} (h : (Operand.ofElement e).value ≠ none) : e.blockCommands = [] := by
  obtain ⟨v, hv⟩ := Option.ne_none_iff_exists'.mp h
  rw [← blockCommands_unwrap, blockCommands_of_isLiteral _ (literal_of_some hv).1]

mutual

/-- **A structured value is written out in full.** -/
theorem Json.element_isLiteral (place : Place) : (v : Json) → (v.element place).isLiteral = true
  | .null => by rw [Json.element]; rfl
  | .bool b => by rw [Json.element]; rfl
  | .integer n => by rw [Json.element]; rfl
  | .float x => by
    rw [Json.element]
    split <;> rfl
  | .string s => by rw [Json.element]; rfl
  | .array items => by
    rw [Json.element, Element.isLiteral]
    exact jsonElements_isLiteral place items
  | .object members => by
    rw [Json.element, Element.isLiteral]
    exact jsonEntries_isLiteral place members

theorem jsonElements_isLiteral (place : Place) : (vs : List Json) → allLiteral (jsonElements place vs) = true
  | [] => rfl
  | v :: vs => by
    rw [jsonElements, allLiteral, Json.element_isLiteral place v, Bool.true_and]
    exact jsonElements_isLiteral place vs

theorem Member.entry_isLiteral (place : Place) : (m : Member) → (m.entry place).isLiteral = true
  | .mk name value => by
    rw [Member.entry, Entry.isLiteral, Json.element_isLiteral place value]
    rfl

theorem jsonEntries_isLiteral (place : Place) : (ms : List Member) →
    allEntriesLiteral (jsonEntries place ms) = true
  | [] => rfl
  | m :: ms => by
    rw [jsonEntries, allEntriesLiteral, Member.entry_isLiteral place m, Bool.true_and]
    exact jsonEntries_isLiteral place ms

end

/-! ## Substitution -/

section Substitution

variable (scope : Scope)

@[simp] theorem Element.blockCommands_noting (e : Element) (p : Option Problem) :
    (e.noting p).blockCommands = e.blockCommands := by
  cases e <;> rfl

/-- What stands in the place of a variable has no blocks. -/
theorem resolveVariable_blockCommands (forced : Bool) (i : Info) (name : String) :
    (resolveVariable scope forced i name).blockCommands = [] := by
  unfold resolveVariable
  split
  · rfl
  · dsimp only
    split
    · rfl
    · split
      · rfl
      · split <;> rfl
      · rw [Element.blockCommands_noting, blockCommands_of_isLiteral _ (Json.element_isLiteral i.toPlace _)]
      · rfl

/-- **Putting in values leaves the blocks as they are.** -/
theorem Element.blockCommands_substitute (e : Element) :
    ∀ forced, (e.substitute scope forced).blockCommands = e.blockCommands := by
  induction e using Element.byChildren with
  | h e ih =>
    intro forced
    by_cases hk : e.kind = .reference
    · obtain ⟨i, name, rfl⟩ := eq_reference hk
      rw [Element.substitute]
      exact resolveVariable_blockCommands scope forced i name
    · by_cases hblock : e.kind = .block
      · rw [substitute_of_hasVariable]
        exact Element.hasVariable_eq_false_iff.mpr ⟨hk, fun c hc => absurd hblock (Element.kind_ne_block hc)⟩
      · rw [Element.blockCommands_eq_flatMap hblock, Element.blockCommands_eq_flatMap (kind_substitute hk ▸ hblock),
          List.flatMap_def, List.flatMap_def, map_children_substitute scope forced hk ih]

end Substitution

/-! ## Evaluation -/

section Evaluation

variable {settings : Settings} {i : Info}

/-- **A chain that is written out was written out from the start**: so are all of its operands, and none has a block. -/
theorem foldChain_literals {acc o : Operand} {rest : List Element}
    (h : foldChain settings i acc rest = some (.ok o)) (ho : o.value ≠ none) :
    acc.value ≠ none ∧ ∀ c ∈ rest, c.blockCommands = [] := by
  refine ⟨fun hacc => ho (foldChain_value_none hacc h), ?_⟩
  fun_induction foldChain settings i acc rest with
  | case1 acc => simp
  | case2 acc j op right rest next hcombine ih =>
    have hright : (Operand.ofElement right).value ≠ none := by
      intro hnone
      apply ho
      cases combines_of_eq hcombine with
      | joined hresult ha hb => rw [Operand.scalar?, hnone] at hb; cases hb
      | compared hop hsame hkind ha hb => rw [hnone] at hb; cases hb
      | computed hresult hjoin hcompare => exact foldChain_value_none rfl h
    simp only [List.forall_mem_cons]
    exact ⟨rfl, blockCommands_of_value hright, ih h⟩
  | case3 acc j op right rest p hcombine => cases h
  | case4 => cases h

/-- What a chain comes to has the blocks of its parts. -/
theorem resolveChain_blockCommands (i : Info) (parts : List Element) :
    (resolveChain settings i parts).blockCommands = parts.flatMap Element.blockCommands := by
  have hexpression : ∀ j r, (Element.expression j parts r).blockCommands = parts.flatMap Element.blockCommands :=
    fun j r => Element.blockCommands_eq_flatMap (by simp [Element.kind])
  unfold resolveChain
  split
  · exact hexpression i none
  · split
    · rfl
    · rename_i first rest _
      split
      · exact hexpression i none
      · exact hexpression _ none
      · rename_i o hfold
        cases hvalue : o.value with
        | none => exact hexpression i _
        | some v =>
          obtain ⟨hfirst, hrest⟩ := foldChain_literals hfold (by simp [hvalue])
          have hliteral : v.isLiteral = true := by
            rcases foldChain_value hfold v hvalue with hv | hv
            · obtain ⟨hliteral, rfl⟩ := literal_of_some hv
              exact hliteral
            · exact hv.1
          rw [Option.getD_some, blockCommands_of_isLiteral v hliteral, List.flatMap_cons,
            blockCommands_of_value hfirst, List.flatMap_eq_nil_iff.mpr hrest]
          rfl

/-- **Evaluation leaves the blocks as they are.** -/
theorem Element.blockCommands_evaluate (e : Element) : (e.evaluate settings).blockCommands = e.blockCommands := by
  induction e using Element.byChildren with
  | h e ih =>
    have hparts : (e.children.map (·.evaluate settings)).flatMap Element.blockCommands =
        e.children.flatMap Element.blockCommands := by
      rw [List.flatMap_map]
      exact List.flatMap_congr ih
    cases e with
    | expression i parts resolved =>
      cases resolved with
      | some r => rw [Element.evaluate]
      | none =>
        rcases evaluate_expression settings i parts with ⟨heq, -⟩ | ⟨-, -, -, heq⟩
        · rw [heq]
        · rw [heq, resolveChain_blockCommands, Element.blockCommands_eq_flatMap (by simp [Element.kind])]
          exact hparts
    | leaf i l => rw [evaluate_leaf]
    | block i commands text => rw [Element.evaluate]
    | _ =>
      rw [Element.blockCommands_eq_flatMap (by rw [kind_evaluate (by simp [Element.kind])]; simp [Element.kind]),
        Element.blockCommands_eq_flatMap (by simp [Element.kind]), children_evaluate (by simp [Element.kind]), hparts]

end Evaluation

/-! ## Commands -/

/-- An element has a variable if and only if one occurs in it outside blocks. -/
theorem Element.hasVariable_iff_occurs (e : Element) :
    e.hasVariable = true ↔ ∃ i name, Occurs false (.leaf i (.reference name)) e := by
  constructor
  · induction e using Element.byChildren with
    | h e ih =>
      intro h
      by_cases hk : e.kind = .reference
      · obtain ⟨i, name, rfl⟩ := eq_reference hk
        exact ⟨i, name, .self _⟩
      · have hchild : ∃ c ∈ e.children, c.hasVariable = true := by
          by_contra hnone
          have hfalse : e.hasVariable = false :=
            Element.hasVariable_eq_false_iff.mpr ⟨hk, fun c hc => Bool.eq_false_iff.mpr fun hc' => hnone ⟨c, hc, hc'⟩⟩
          rw [hfalse] at h
          cases h
        obtain ⟨c, hc, hvariable⟩ := hchild
        obtain ⟨i, name, hoccurs⟩ := ih c hc hvariable
        exact ⟨i, name, .part hc hoccurs⟩
  · rintro ⟨i, name, hoccurs⟩
    cases hvariable : e.hasVariable with
    | true => rfl
    | false => exact (hoccurs.keeps Element.hasVariable_child hvariable).symm

theorem Command.hasVariable_iff_occurs (c : Command) :
    c.hasVariable = true ↔ ∃ a, c.argument? = some a ∧ ∃ i name, Occurs false (.leaf i (.reference name)) a := by
  rw [Command.hasVariable, Option.any_eq_true]
  exact exists_congr fun a => and_congr_right fun _ => a.hasVariable_iff_occurs

/-- **Blocks wait.** A prepared command has the name, the place, the text and the problem of the command; the commands
in its blocks are those of the command, in the same order and unchanged; and it has a variable if and only if one still
occurs in its argument outside blocks. -/
theorem prepare_lazy (scope : Scope) (settings : Settings) (c : Command) :
    (c.prepare scope settings).command.head = c.head ∧
      (c.prepare scope settings).command.blockCommands = c.blockCommands ∧
      ((c.prepare scope settings).command.hasVariable = true ↔
        ∃ a, (c.prepare scope settings).command.argument? = some a ∧
          ∃ i name, Occurs false (.leaf i (.reference name)) a) := by
  refine ⟨Command.head_make _ _, ?_, Command.hasVariable_iff_occurs _⟩
  cases c with
  | bare h => rfl
  | given h a => exact (Element.blockCommands_evaluate _).trans (a.blockCommands_substitute scope false)

end UiScript
