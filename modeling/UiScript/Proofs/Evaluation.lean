import UiScript.Proofs.Combining
import UiScript.Proofs.Reading.Regular

/-!
# What evaluation keeps

Evaluation hides no mistake (`evaluate_hasErrors`) and makes a raw tree regular (`evaluate_regular`). If it finds no
mistake in a raw tree without variables, it brings in no variable and leaves no expression open (`evaluate_settled`).
What a chain comes to is one of four things (`resolveChain_forms`): it stays open, it gets a problem, it has an outcome,
or it is an element that is written out. Everywhere else evaluation goes into all parts and nothing more
(`children_evaluate`).
-/

namespace UiScript

variable {settings : Settings}

@[simp] theorem evaluate_leaf (i : Info) (l : Leaf) : (Element.leaf i l).evaluate settings = .leaf i l := by
  simp [Element.evaluate]

/-- Where nothing is open, nothing is evaluated. -/
theorem evaluate_of_hasUnresolved {e : Element} (h : e.hasUnresolved = false) : e.evaluate settings = e := by
  cases e with
  | expression i parts resolved =>
    cases resolved with
    | none => cases h
    | some r => simp [Element.evaluate]
  | leaf i l => simp [Element.evaluate]
  | block i commands text => simp [Element.evaluate]
  | _ =>
    simp only [Element.hasUnresolved] at h
    rw [Element.evaluate, h]
    rfl

theorem map_evaluate_of_settled {es : List Element} (h : ¬anyUnresolved es = true) :
    es.map (·.evaluate settings) = es := by
  rw [anyUnresolved_eq_any, List.any_eq_true] at h
  rw [List.map_congr_left fun e he => evaluate_of_hasUnresolved (Bool.eq_false_iff.mpr fun hopen => h ⟨e, he, hopen⟩),
    List.map_id']

theorem evaluate_tuple (i : Info) (items : List Element) (trailing : Bool) :
    (Element.tuple i items trailing).evaluate settings = .tuple i (items.map (·.evaluate settings)) trailing := by
  rw [Element.evaluate]
  split
  · rw [evaluateAll_eq_map]
  · rename_i h
    rw [map_evaluate_of_settled h]

/-- The items of an array of one kind are checked again once they are evaluated. -/
theorem evaluate_array {i : Info} {items : List Element} (h : mixedKinds? items = none) :
    (Element.array i items).evaluate settings =
      .array { i with problem := Problem.note i.problem (mixedKinds? (items.map (·.evaluate settings))) }
        (items.map (·.evaluate settings)) := by
  rw [Element.evaluate]
  split
  · rw [evaluateAll_eq_map]
  · rename_i hopen
    rw [map_evaluate_of_settled hopen, h, Problem.note_none_right]

/-! ## Groups -/

/-- A group is the operand that its only item is. -/
theorem ofElement_group (i : Info) (e : Element) : Operand.ofElement (.tuple i [e] false) = .ofElement e := by
  simp [Operand.ofElement, Element.unwrap, unwrapOnly]

theorem evaluate_group (i : Info) (e : Element) :
    (Element.tuple i [e] false).evaluate settings = .tuple i [e.evaluate settings] false := evaluate_tuple i [e] false

/-- What is inside the parentheses of a group occurs in it. -/
theorem occurs_unwrap (e : Element) : Occurs false e.unwrap e := by
  induction e using Element.byChildren with
  | h e ih =>
    cases e with
    | tuple i items trailing =>
      cases trailing with
      | true => exact .self _
      | false =>
        rcases items with _ | ⟨x, _ | ⟨y, items⟩⟩
        · exact .self _
        · have hx : x ∈ (Element.tuple i [x] false).children := List.mem_singleton_self x
          exact .part hx (ih x hx)
        · exact .self _
    | _ => exact .self _

theorem unwrap_of_kind {e : Element} (h : e.kind ≠ .tuple) : e.unwrap = e := by
  cases e with
  | tuple i items trailing => exact absurd rfl h
  | _ => rfl

theorem valueKind_of_kind {e : Element} (h : e.kind ≠ .expression) : e.valueKind = e.kind := by
  cases e with
  | expression i parts resolved => exact absurd rfl h
  | _ => rfl

theorem Element.unwrap_unwrap (e : Element) : e.unwrap.unwrap = e.unwrap := by
  induction e using Element.byChildren with
  | h e ih =>
    cases e with
    | tuple i items trailing =>
      cases trailing with
      | true => rfl
      | false =>
        rcases items with _ | ⟨x, _ | ⟨y, items⟩⟩
        · rfl
        · exact ih x (List.mem_singleton_self x)
        · rfl
    | _ => rfl

theorem ofElement_kind (e : Element) : (Operand.ofElement e).kind = e.unwrap.valueKind := by
  unfold Operand.ofElement
  split
  · rename_i heq
    rw [heq]
    rfl
  · rfl

theorem ofElement_value (e : Element) :
    (Operand.ofElement e).value = if e.unwrap.isLiteral then some e.unwrap else none := by
  unfold Operand.ofElement
  split
  · rename_i heq
    rw [heq]
    rfl
  · rfl

theorem literal_of_some {e v : Element} (h : (Operand.ofElement e).value = some v) :
    e.unwrap.isLiteral = true ∧ e.unwrap = v := by
  rw [ofElement_value] at h
  split at h
  · rename_i hliteral
    exact ⟨hliteral, Option.some.inj h⟩
  · cases h

/-! ## Literals -/

/-- The kind of a regular element is known if nothing is wrong with it and nothing is open. -/
theorem isDecided_of_settled {e : Element} (hregular : e.Regular) (herrors : e.hasErrors = false)
    (hvariable : e.hasVariable = false) (hopen : e.hasUnresolved = false) : e.isDecided = true := by
  have hproblem := Element.problem_eq_none herrors
  cases e with
  | leaf i l =>
    cases l with
    | reference name => cases hvariable
    | unknown => exact absurd hproblem hregular
    | _ => simp [Element.isDecided, hproblem]
  | expression i parts resolved =>
    cases resolved with
    | none => cases hopen
    | some r => simp [Element.isDecided, hproblem]
  | _ => simp [Element.isDecided, hproblem]

theorem Entry.isLiteral_parts {p : Entry} (h : p.isLiteral = true) : ∀ c ∈ p.parts, c.isLiteral = true := by
  cases p with
  | pair k v =>
    rw [Entry.isLiteral, Bool.and_eq_true] at h
    exact List.forall_mem_cons.mpr ⟨h.1, List.forall_mem_singleton.mpr h.2⟩
  | bare k => cases h

/-- A tree whose parts have no variable and no open expression has none if it is none. -/
theorem settled_of_children {e : Element} (hvalue : e.kind ≠ .reference)
    (hopen : ∀ i parts, e ≠ .expression i parts none)
    (h : ∀ c ∈ e.children, c.hasVariable = false ∧ c.hasUnresolved = false) :
    e.hasVariable = false ∧ e.hasUnresolved = false := by
  constructor
  · exact Element.hasVariable_eq_false_iff.mpr ⟨hvalue, fun c hc => (h c hc).1⟩
  · exact Element.hasUnresolved_eq_false_iff.mpr ⟨hopen, fun c hc => (h c hc).2⟩

/-- The parts of what is written out in full are written out in full. -/
theorem isLiteral_child {e c : Element} (h : e.isLiteral = true) (hc : c ∈ e.children) : c.isLiteral = true := by
  cases e with
  | json i entries =>
    rw [Element.isLiteral, allEntriesLiteral_eq_all, List.all_eq_true] at h
    obtain ⟨p, hp, hc⟩ := List.mem_flatMap.mp hc
    exact Entry.isLiteral_parts (h p hp) c hc
  | tuple i items trailing =>
    rw [Element.isLiteral, allLiteral_eq_all, List.all_eq_true] at h
    exact h c hc
  | array i items =>
    rw [Element.isLiteral, allLiteral_eq_all, List.all_eq_true] at h
    exact h c hc
  | leaf i l => cases hc
  | expression i parts resolved => cases h
  | block i commands text => cases h

/-- **What is written out in full has no variable and no open expression.** -/
theorem isLiteral_settled (e : Element) : e.isLiteral = true → e.hasVariable = false ∧ e.hasUnresolved = false := by
  induction e using Element.byChildren with
  | h e ih =>
    intro h
    apply settled_of_children
    · intro hk
      cases e with
      | leaf i l =>
        cases l with
        | reference name => cases h
        | _ => cases hk
      | _ => cases hk
    · rintro i parts rfl
      cases h
    · exact fun c hc => ih c hc (isLiteral_child h hc)

/-- An element that is written out and regular. -/
def Element.Literal (e : Element) : Prop := e.isLiteral = true ∧ e.Every false Element.Regular

/-! ## Chains -/

/-- What an operand is written out as is literal. -/
def Operand.Sound (o : Operand) : Prop := ∀ v ∈ o.value, v.Literal

theorem ofElement_sound {e : Element} (h : e.Every false Element.Regular) : (Operand.ofElement e).Sound := by
  intro v hv
  obtain ⟨hliteral, rfl⟩ := literal_of_some hv
  exact ⟨hliteral, h.of_occurs (occurs_unwrap e)⟩

theorem ofLeaf_sound (i : Info) {l : Leaf} (h : (Element.leaf i l).isLiteral = true) : (Operand.ofLeaf i l).Sound := by
  rintro v ⟨⟩
  refine ⟨h, Element.every_leaf ?_⟩
  cases l with
  | unknown => cases h
  | _ => trivial

theorem computed_sound (kind : Kind) (text : String) (operator : Option Operator) :
    (Operand.computed kind text operator).Sound := by
  rintro v ⟨⟩

/-- One step of a chain keeps operands sound. -/
theorem combine_sound {i : Info} {op : Operator} {left right o : Operand}
    (h : combine settings i left op right = .ok o) : o.Sound := by
  cases combines_of_eq h with
  | joined | compared => exact ofLeaf_sound i rfl
  | computed => exact computed_sound _ _ _

/-- What a chain is written out as is what its first operand is, or a step wrote it. -/
theorem foldChain_value {i : Info} {acc o : Operand} {rest : List Element}
    (h : foldChain settings i acc rest = some (.ok o)) : ∀ v ∈ o.value, v ∈ acc.value ∨ v.Literal := by
  fun_induction foldChain settings i acc rest with
  | case1 acc =>
    cases h
    exact fun v hv => Or.inl hv
  | case2 acc j op right rest next hcombine ih =>
    intro v hv
    rcases ih h v hv with hnext | hliteral
    · exact Or.inr (combine_sound hcombine v hnext)
    · exact Or.inr hliteral
  | case3 acc j op right rest p hcombine => cases h
  | case4 => cases h

/-- A chain whose operators are linked does not break off. -/
theorem foldChain_ne_none {i : Info} {acc : Operand} {rest : List Element} (h : linked rest = true) :
    foldChain settings i acc rest ≠ none := by
  fun_induction foldChain settings i acc rest with
  | case1 acc => simp
  | case2 acc j op right rest next hcombine ih => exact ih h
  | case3 acc j op right rest p hcombine => simp
  | case4 acc rest h₁ h₂ =>
    rw [linked] at h
    · cases h
    · exact fun h => h₁ h
    · exact fun j op right rest h => h₂ j op right rest h

/-- **What a chain comes to**, whatever its parts are: it stays open, since a part has a mistake or the chain breaks
off; it gets a problem; it has an outcome; or it is written out, and is regular if its parts are. -/
theorem resolveChain_forms (i : Info) (parts : List Element) :
    (resolveChain settings i parts = .expression i parts none ∧
        (anyErrors parts = true ∨ parts = [] ∨ linked parts.tail = false)) ∨
      (∃ p : Problem, resolveChain settings i parts = .expression { i with problem := some p } parts none) ∨
      (∃ r, resolveChain settings i parts = .expression i parts (some r)) ∨
      ((resolveChain settings i parts).isLiteral = true ∧
        ((∀ p ∈ parts, p.Every false Element.Regular) → (resolveChain settings i parts).Literal)) := by
  unfold resolveChain
  by_cases herrors : anyErrors parts = true
  · exact Or.inl ⟨if_pos herrors, Or.inl herrors⟩
  · rw [if_neg herrors]
    cases parts with
    | nil => exact Or.inl ⟨rfl, Or.inr (Or.inl rfl)⟩
    | cons first rest =>
      dsimp only
      cases hfold : foldChain settings i (.ofElement first) rest with
      | none =>
        have hbroken : linked rest = false :=
          Bool.eq_false_iff.mpr fun hlinked => foldChain_ne_none hlinked hfold
        exact Or.inl ⟨rfl, Or.inr (Or.inr hbroken)⟩
      | some outcome =>
        cases outcome with
        | error p => exact Or.inr (Or.inl ⟨p, rfl⟩)
        | ok o =>
          cases hvalue : o.value with
          | none => exact Or.inr (Or.inr (Or.inl ⟨⟨o.kind, o.text, o.operator⟩, by simp [hvalue]⟩))
          | some v =>
            refine Or.inr (Or.inr (Or.inr ?_))
            simp only [hvalue, Option.getD_some]
            rcases foldChain_value hfold v hvalue with hfirst | hliteral
            · obtain ⟨hliteral, rfl⟩ := literal_of_some hfirst
              exact ⟨hliteral, fun hregular => ofElement_sound (hregular first List.mem_cons_self) _ hfirst⟩
            · exact ⟨hliteral.1, fun _ => hliteral⟩

/-- What a chain comes to that does not break off and has regular parts: an open expression with a mistake, an outcome,
or an element that is written out. -/
theorem resolveChain_cases (i : Info) {parts : List Element} (hne : parts ≠ []) (hlinked : linked parts.tail = true)
    (hregular : ∀ p ∈ parts, p.Every false Element.Regular) :
    (∃ p, resolveChain settings i parts = .expression { i with problem := p } parts none ∧
        (resolveChain settings i parts).hasErrors = true) ∨
      (∃ r, resolveChain settings i parts = .expression i parts (some r)) ∨
      (resolveChain settings i parts).Literal := by
  rcases @resolveChain_forms settings i parts with
    ⟨heq, herrors | hnil | hbroken⟩ | ⟨p, heq⟩ | houtcome | ⟨-, hliteral⟩
  · exact Or.inl ⟨i.problem, heq, by rw [heq, Element.hasErrors, herrors, Bool.or_true]⟩
  · exact absurd hnil hne
  · cases hbroken.symm.trans hlinked
  · exact Or.inl ⟨some p, heq, by rw [heq]; simp [Element.hasErrors]⟩
  · exact Or.inr (Or.inl houtcome)
  · exact Or.inr (Or.inr (hliteral hregular))

/-! ## Trees -/

theorem parts_evaluate (p : Entry) : (p.evaluate settings).parts = p.parts.map (·.evaluate settings) := by
  cases p <;> simp [Entry.evaluate, Entry.parts]

/-- Evaluation goes into all parts of what is not an expression itself. -/
theorem children_evaluate {e : Element} (hk : e.kind ≠ .expression) :
    (e.evaluate settings).children = e.children.map (·.evaluate settings) := by
  by_cases hopen : e.hasUnresolved = true
  · cases e with
    | leaf i l => cases hopen
    | json i entries =>
      rw [Element.evaluate, if_pos (by simpa [Element.hasUnresolved] using hopen), evaluateEntries_eq_map]
      simp only [Element.children, List.flatMap_map, List.map_flatMap, parts_evaluate]
    | expression i parts resolved => exact absurd rfl hk
    | block i commands text => cases hopen
    | _ =>
      rw [Element.evaluate, if_pos (by simpa [Element.hasUnresolved] using hopen)]
      simp only [Element.children, evaluateAll_eq_map]
  · rw [Bool.not_eq_true] at hopen
    have hsame : ∀ c ∈ e.children, c.evaluate settings = c := fun c hc =>
      evaluate_of_hasUnresolved (Element.hasUnresolved_child hc hopen)
    rw [evaluate_of_hasUnresolved hopen, List.map_congr_left hsame, List.map_id']

theorem kind_evaluate {e : Element} (hk : e.kind ≠ .expression) : (e.evaluate settings).kind = e.kind := by
  cases e with
  | leaf i l => simp [Element.evaluate]
  | expression i parts resolved => exact absurd rfl hk
  | block i commands text => simp [Element.evaluate]
  | _ =>
    rw [Element.evaluate]
    split <;> rfl

theorem linked_evaluate (settings : Settings) {parts : List Element} (h : linked parts.tail = true) :
    linked (parts.map (·.evaluate settings)).tail = true := by
  rw [← List.map_tail]
  exact linked_map (fun i op => evaluate_leaf i _) h

/-- The two ways in which an open expression is evaluated. -/
theorem evaluate_expression (settings : Settings) (i : Info) (parts : List Element) :
    ((Element.expression i parts none).evaluate settings = .expression i parts none ∧
        ((Element.expression i parts none).hasErrors = true ∨ anyVariable parts = true)) ∨
      (i.problem = none ∧ anyErrors parts = false ∧ anyVariable parts = false ∧
        (Element.expression i parts none).evaluate settings =
          resolveChain settings i (parts.map (·.evaluate settings))) := by
  rw [Element.evaluate, evaluateAll_eq_map]
  by_cases h : (i.problem.isSome || anyErrors parts || anyVariable parts) = true
  · rw [if_pos h]
    refine Or.inl ⟨rfl, ?_⟩
    rw [Bool.or_eq_true] at h
    exact h
  · rw [if_neg h]
    simp only [Bool.not_eq_true, Bool.or_eq_false_iff, Option.isSome_eq_false_iff, Option.isNone_iff_eq_none] at h
    exact Or.inr ⟨h.1.1, h.1.2, h.2, rfl⟩

/-- An open expression without mistakes and variables comes to what its chain comes to. -/
theorem evaluate_chain (settings : Settings) {i : Info} {parts : List Element}
    (herrors : (Element.expression i parts none).hasErrors = false)
    (hvariable : (Element.expression i parts none).hasVariable = false) :
    (Element.expression i parts none).evaluate settings =
      resolveChain settings i (parts.map (·.evaluate settings)) := by
  rcases evaluate_expression settings i parts with ⟨-, hbad | hbad⟩ | ⟨-, -, -, heq⟩
  · rw [herrors] at hbad
    cases hbad
  · rw [Element.hasVariable, hbad] at hvariable
    cases hvariable
  · exact heq

/-- A problem of an element stays. -/
theorem evaluate_problem {e : Element} (h : (e.evaluate settings).problem = none) : e.problem = none := by
  cases e with
  | array i items =>
    rw [Element.evaluate] at h
    split at h
    · exact (Problem.note_eq_none.mp h).1
    · exact h
  | expression i parts resolved =>
    cases resolved with
    | some r => simpa [Element.evaluate] using h
    | none =>
      rcases evaluate_expression settings i parts with ⟨heq, -⟩ | ⟨hproblem, -⟩
      · rwa [heq] at h
      · exact hproblem
  | leaf i l => simpa [Element.evaluate] using h
  | block i commands text => simpa [Element.evaluate] using h
  | _ =>
    rw [Element.evaluate] at h
    split at h <;> exact h

/-- **Evaluation hides no mistake.** -/
theorem evaluate_hasErrors (e : Element) : (e.evaluate settings).hasErrors = false → e.hasErrors = false := by
  induction e using Element.byChildren with
  | h e ih =>
    intro h
    cases e with
    | expression i parts resolved =>
      cases resolved with
      | some r => simpa [Element.evaluate] using h
      | none =>
        rcases evaluate_expression settings i parts with ⟨heq, -⟩ | ⟨hproblem, herrors, -, -⟩
        · rwa [heq] at h
        · rw [Element.hasErrors, hproblem, herrors]
          rfl
    | leaf i l => simpa [Element.evaluate] using h
    | block i commands text => simpa [Element.evaluate] using h
    | _ =>
      rw [Element.hasErrors_eq_false_iff (by simp [Element.kind])]
      refine ⟨evaluate_problem (Element.problem_eq_none h), fun c hc => ih c hc ?_⟩
      apply Element.hasErrors_child _ h
      rw [children_evaluate (by simp [Element.kind])]
      exact List.mem_map_of_mem hc

theorem Entry.Regular.evaluate {p : Entry} (h : p.Regular) : (p.evaluate settings).Regular := by
  cases p with
  | pair k v =>
    rw [Entry.evaluate]
    intro hproblem
    have hk := h (evaluate_problem hproblem)
    cases k with
    | leaf i l => simpa [Element.evaluate] using hk
    | _ => simp [Element.kind] at hk
  | bare k => exact h.elim

/-- An expression of a raw tree is open. -/
theorem pending_expression {e : Element} (hk : e.kind = .expression) (h : e.Raw) :
    ∃ i parts, e = .expression i parts none := by
  cases e with
  | expression i parts resolved =>
    have hpending : resolved = none := h.pending
    exact ⟨i, parts, by rw [hpending]⟩
  | leaf i l => cases l <;> cases hk
  | _ => cases hk

/-- What an element makes sure of is made sure of again. -/
theorem Element.Regular.evaluate {e : Element} (hk : e.kind ≠ .expression) (h : e.Regular) :
    (e.evaluate settings).Regular := by
  cases e with
  | leaf i l => simpa [Element.evaluate] using h
  | tuple i items trailing =>
    rw [Element.evaluate]
    split <;> trivial
  | array i items =>
    rw [Element.evaluate]
    split
    · exact fun hproblem => (Problem.note_eq_none.mp hproblem).2
    · exact h
  | json i entries =>
    rw [Element.evaluate]
    split
    · rw [evaluateEntries_eq_map]
      exact fun hproblem => List.forall_mem_map.mpr fun p hp => (h hproblem p hp).evaluate
    · exact h
  | expression i parts resolved => exact absurd rfl hk
  | block i commands text => simpa [Element.evaluate] using h

/-- **Evaluation makes a raw tree regular.** -/
theorem evaluate_regular (e : Element) :
    e.Every false Element.Raw → (e.evaluate settings).Every false Element.Regular := by
  induction e using Element.byChildren with
  | h e ih =>
    intro h
    have hparts : ∀ c ∈ e.children.map (·.evaluate settings), c.Every false Element.Regular :=
      List.forall_mem_map.mpr fun c hc => ih c hc (h.child hc)
    by_cases hk : e.kind = .expression
    · obtain ⟨i, parts, rfl⟩ := pending_expression hk h.here
      rcases evaluate_expression settings i parts with ⟨heq, -⟩ | ⟨hproblem, -, -, heq⟩
      · rw [heq]
        exact h.mono fun _ hx => hx.regular
      · obtain ⟨hne, hlinked⟩ := h.here.regular hproblem
        have hmap := linked_evaluate settings hlinked
        rw [heq]
        rcases resolveChain_cases i (by simpa using hne) hmap hparts with ⟨p, hchain, -⟩ | ⟨r, hchain⟩ | hliteral
        · rw [hchain]
          exact Element.every_of_children (fun _ => ⟨by simpa using hne, hmap⟩) hparts fun _ => rfl
        · rw [hchain]
          exact Element.every_of_children trivial hparts fun _ => rfl
        · exact hliteral.2
    · rw [← children_evaluate hk] at hparts
      exact Element.every_of_children (h.here.regular.evaluate hk) hparts fun _ => rfl

/-- **A raw tree without variables is settled by evaluation, unless a mistake is found**: it has no variable, and no
open expression. -/
theorem evaluate_settled (e : Element) : e.Every false Element.Raw → e.hasVariable = false →
    (e.evaluate settings).hasErrors = false →
    (e.evaluate settings).hasVariable = false ∧ (e.evaluate settings).hasUnresolved = false := by
  induction e using Element.byChildren with
  | h e ih =>
    intro h hvariable herrors
    have hparts : ∀ c ∈ e.children.map (·.evaluate settings), c.hasErrors = false →
        c.hasVariable = false ∧ c.hasUnresolved = false :=
      List.forall_mem_map.mpr fun c hc => ih c hc (h.child hc) (Element.hasVariable_child hc hvariable)
    by_cases hk : e.kind = .expression
    · obtain ⟨i, parts, rfl⟩ := pending_expression hk h.here
      rcases evaluate_expression settings i parts with ⟨heq, hbad⟩ | ⟨hproblem, -, -, heq⟩
      · rw [heq] at herrors
        rcases hbad with hbad | hbad
        · rw [herrors] at hbad
          cases hbad
        · rw [Element.hasVariable, hbad] at hvariable
          cases hvariable
      · obtain ⟨hne, hlinked⟩ := h.here.regular hproblem
        have hmap := linked_evaluate settings hlinked
        have hregular : ∀ p ∈ parts.map (·.evaluate settings), p.Every false Element.Regular :=
          List.forall_mem_map.mpr fun c hc => evaluate_regular c (h.child hc)
        rw [heq] at herrors ⊢
        rcases resolveChain_cases i (by simpa using hne) hmap hregular with ⟨p, -, hchain⟩ | ⟨r, hchain⟩ | hliteral
        · rw [herrors] at hchain
          cases hchain
        · rw [hchain] at herrors ⊢
          exact settled_of_children (by simp [Element.kind]) (by simp) fun c hc =>
            hparts c hc (Element.hasErrors_child hc herrors)
        · exact isLiteral_settled _ hliteral.1
    · rw [← children_evaluate hk] at hparts
      apply settled_of_children
      · rw [kind_evaluate hk]
        exact (Element.hasVariable_eq_false_iff.mp hvariable).1
      · intro i parts heq
        have hkind : (e.evaluate settings).kind = e.kind := kind_evaluate hk
        rw [heq] at hkind
        exact hk hkind.symm
      · exact fun c hc => hparts c hc (Element.hasErrors_child hc herrors)

end UiScript
