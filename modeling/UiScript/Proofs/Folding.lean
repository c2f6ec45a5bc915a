import UiScript.Proofs.Evaluation

/-!
# What evaluation settles

Of the chains that are read, evaluation settles two sorts and leaves the others as text (`evaluate_folds`): chains that
join strings and numbers, with a string among the first two (`Joins`), and comparisons of two containers that are
written out (`Compares`). A chain is settled as long as what was folded so far is a string that can be joined to the
next operand (`foldChain_string`). Whatever is text stays text (`foldChain_value_none`), and an outcome that is neither
a string nor a container becomes text with the next step (`Combines.inert`).
-/

namespace UiScript

open Reading

/-! ## Operators and operands -/

/-- The operators of a chain behind its first operand, each with the operand after it. -/
def links : List Element → List (Operator × Element)
  | .leaf _ (.operator op) :: right :: rest => (op, right) :: links rest
  | _ => []

/-- What leaves operators alone goes on to the operands. -/
theorem links_map {f : Element → Element} (hf : ∀ i op, f (.leaf i (.operator op)) = .leaf i (.operator op))
    {rest : List Element} (hlinked : linked rest = true) :
    links (rest.map f) = (links rest).map fun l => (l.1, f l.2) := by
  fun_induction linked rest with
  | case1 => rfl
  | case2 i op right rest ih =>
    rw [List.map_cons, List.map_cons, hf, links, links, List.map_cons, ih hlinked]
  | case3 => cases hlinked

theorem links_ne_nil {rest : List Element} (hlinked : linked rest = true) (hne : rest ≠ []) : links rest ≠ [] := by
  fun_cases linked rest with
  | case1 => exact absurd rfl hne
  | case2 j op right rest => simp [links]
  | case3 => simp_all [linked]

/-- The operators of an expression. -/
def Element.operators (e : Element) : List Operator := (links e.children.tail).map Prod.fst

/-- The operands of an expression, evaluated and without the parentheses around them. -/
def Element.operands (settings : Settings) (e : Element) : List Element :=
  (e.children.head?.toList ++ (links e.children.tail).map Prod.snd).map fun p => (p.evaluate settings).unwrap

/-- All operators join, all operands are strings or numbers that are written out, and one of the first two is a
string. -/
structure Joins (operators : List Operator) (operands : List Element) : Prop where
  operators : ∀ op ∈ operators, op = .add
  scalars : ∀ x ∈ operands, x.kind = .string ∨ x.kind = .number
  string : ∃ x ∈ operands.take 2, x.kind = .string

/-- The only operator compares two containers of one kind that are written out. -/
structure Compares (operators : List Operator) (operands : List Element) (op : Operator) (a b : Element) : Prop where
  operators : operators = [op]
  operands : operands = [a, b]
  equality : op = .equal ∨ op = .unequal
  literals : a.isLiteral = true ∧ b.isLiteral = true
  container : a.kind.IsCollection
  same : a.kind = b.kind

theorem Compares.operator {op op' : Operator} {operators : List Operator} {operands : List Element} {a b : Element}
    (h : Compares (op :: operators) operands op' a b) : (op = .equal ∨ op = .unequal) ∧ operators = [] := by
  obtain ⟨rfl, rfl⟩ := List.cons_eq_cons.mp h.operators
  exact ⟨h.equality, rfl⟩

theorem Compares.unique {operators : List Operator} {operands : List Element} {op op' : Operator}
    {a b a' b' : Element} (h : Compares operators operands op a b) (h' : Compares operators operands op' a' b') :
    op = op' ∧ a = a' ∧ b = b' := by
  have hoperators := h.operators.symm.trans h'.operators
  have hoperands := h.operands.symm.trans h'.operands
  simp only [List.cons.injEq, and_true] at hoperators hoperands
  exact ⟨hoperators, hoperands⟩

/-- A chain is not settled in both ways. -/
theorem Joins.not_compares {operators : List Operator} {operands : List Element} {op : Operator} {a b : Element}
    (h : Joins operators operands) : ¬Compares operators operands op a b := by
  intro hcompares
  obtain rfl := h.operators op (by simp [hcompares.operators])
  simpa using hcompares.equality

/-- An expression has an operator. -/
def Element.Operated : Element → Prop
  | .expression _ parts _ => parts.tail ≠ []
  | _ => True

theorem Element.Operated.noting {e : Element} (h : e.Operated) (p : Option Problem) : (e.noting p).Operated := by
  cases e <;> exact h

/-- **Every expression that is read has an operator.** -/
theorem operated_ensured (catalog : Catalog) : Ensures catalog (fun _ _ => True) Element.Operated where
  reaches _ _ := trivial
  enters _ _ _ := trivial
  leaf _ := by
    obtain ⟨i, l, heq⟩ := leaf_eq _ _
    rw [heq]
    trivial
  sign _ _ := trivial
  unknown _ := trivial
  tuple _ _ _ := trivial
  array _ := trivial
  json _ := trivial
  expression hne _ := hne
  noting _ h := h.noting _
  block _ _ _ hg := by
    obtain ⟨brace, us, hbrace, -⟩ := opens?_brace hg _
    obtain ⟨i, -, heq⟩ := block_inside hbrace
    rw [container, heq]
    trivial

/-! ## Steps -/

section Steps

variable {settings : Settings} {i : Info} {left right o : Operand} {op : Operator}

/-- What is written out as a string or a number is so inside the parentheses. -/
theorem scalar?_ofElement (e : Element) : (Operand.ofElement e).scalar? =
    if e.unwrap.kind = .string ∨ e.unwrap.kind = .number then some e.unwrap.stringValue else none := by
  rw [Operand.scalar?, ofElement_value]
  cases h : e.unwrap with
  | leaf i l => cases l <;> simp [Element.isLiteral, Element.kind, Leaf.kind]
  | expression i parts resolved => simp [Element.isLiteral, Element.kind]
  | block i commands text => simp [Element.isLiteral, Element.kind]
  | _ => split <;> simp [Element.kind]

theorem scalar_of_some {e : Element} {value : String} (h : (Operand.ofElement e).scalar? = some value) :
    (e.unwrap.kind = .string ∨ e.unwrap.kind = .number) ∧ e.unwrap.stringValue = value := by
  rw [scalar?_ofElement] at h
  split at h
  · rename_i hscalar
    exact ⟨hscalar, Option.some.inj h⟩
  · cases h

theorem ofElement_kind_eq {e : Element} (h : e.unwrap.kind ≠ .expression) :
    (Operand.ofElement e).kind = e.unwrap.kind := (ofElement_kind e).trans (valueKind_of_kind h)

theorem kind_of_isLiteral {e : Element} (h : e.isLiteral = true) : e.kind ≠ .expression := by
  cases e with
  | expression i parts resolved => cases h
  | leaf i l => cases l <;> simp [Element.kind, Leaf.kind]
  | _ => simp [Element.kind]

/-- What neither can be joined nor compared. -/
def Operand.Inert (o : Operand) : Prop :=
  o.scalar? = none ∧ (o.kind.IsCollection → o.value = none)

theorem inert_of_value (h : o.value = none) : o.Inert := ⟨by rw [Operand.scalar?, h]; rfl, fun _ => h⟩

/-- The next step makes text of it. -/
theorem Combines.inert (h : Combines i left op right (.ok o)) (hleft : left.Inert) : o.value = none := by
  cases h with
  | joined h ha hb =>
    rw [hleft.1] at ha
    cases ha
  | compared hop hsame hkind ha hb =>
    rw [hleft.2 hkind] at ha
    cases ha
  | computed h hjoin hcompare => rfl

end Steps

/-! ## Runs -/

section Runs

variable {settings : Settings} {i : Info} {acc o : Operand} {rest : List Element}

/-- **Text stays text.** -/
theorem foldChain_value_none (hacc : acc.value = none) (h : foldChain settings i acc rest = some (.ok o)) :
    o.value = none := by
  fun_induction foldChain settings i acc rest with
  | case1 acc =>
    cases h
    exact hacc
  | case2 acc j op right rest next hcombine ih =>
    exact ih ((combines_of_eq hcombine).inert (inert_of_value hacc)) h
  | case3 acc j op right rest p hcombine => cases h
  | case4 => cases h

/-- The operator joins, and the operand after it is a string or a number that is written out. -/
def JoinsNext (l : Operator × Element) : Prop := l.1 = .add ∧ (l.2.unwrap.kind = .string ∨ l.2.unwrap.kind = .number)

/-- **A string is joined to all operands that follow, or the chain comes to a text.** -/
theorem foldChain_string {s : String} (hlinked : linked rest = true)
    (h : foldChain settings i (.ofLeaf i (.string s '"')) rest = some (.ok o)) :
    ((∀ l ∈ links rest, JoinsNext l) ∧
        o.value = some (.leaf i (.string (s ++ String.join ((links rest).map fun l => l.2.unwrap.stringValue)) '"'))) ∨
      ((∃ l ∈ links rest, ¬JoinsNext l) ∧ o.value = none) := by
  fun_induction linked rest generalizing s with
  | case1 =>
    cases h
    exact Or.inl ⟨by simp [links], by simp [links, Operand.ofLeaf]⟩
  | case2 j op right rest ih =>
    rw [links, foldChain] at *
    cases hcombine : combine settings i (.ofLeaf i (.string s '"')) op (.ofElement right) with
    | error p => rw [hcombine] at h; cases h
    | ok next =>
      rw [hcombine] at h
      cases combines_of_eq hcombine with
      | @joined a b hresult ha hb =>
        obtain rfl : s = a := Option.some.inj ha
        obtain ⟨hscalar, rfl⟩ := scalar_of_some hb
        have hnext : JoinsNext (op, right) := ⟨(result?_eq_string hresult).1, hscalar⟩
        rcases ih hlinked h with ⟨hall, hvalue⟩ | ⟨⟨l, hl, hbad⟩, hvalue⟩
        · refine Or.inl ⟨List.forall_mem_cons.mpr ⟨hnext, hall⟩, ?_⟩
          rw [hvalue, List.map_cons, String.join_cons, String.append_assoc]
        · exact Or.inr ⟨⟨l, List.mem_cons_of_mem _ hl, hbad⟩, hvalue⟩
      | compared hop hsame hkind ha hb => simp [Kind.IsCollection, Operand.ofLeaf, Leaf.kind] at hkind
      | @computed kind text last hresult hjoin hcompare =>
        refine Or.inr ⟨⟨(op, right), List.mem_cons_self, ?_⟩, foldChain_value_none rfl h⟩
        rintro ⟨rfl, hscalar⟩
        rcases hjoin (result?_add hresult (Or.inl rfl)) with hnone | hnone
        · cases hnone
        · rw [scalar?_ofElement, if_pos hscalar] at hnone
          cases hnone
  | case3 => cases hlinked

/-- What neither can be joined nor compared becomes text with the next step. -/
theorem foldChain_inert (hacc : acc.Inert) (hne : rest ≠ []) (h : foldChain settings i acc rest = some (.ok o)) :
    o.value = none := by
  unfold foldChain at h
  split at h
  · exact absurd rfl hne
  · split at h
    · rename_i hcombine
      exact foldChain_value_none ((combines_of_eq hcombine).inert hacc) h
    · cases h
  · cases h

end Runs

/-! ## Chains -/

/-- What a chain comes to: a string, the outcome of a comparison, or a text. -/
inductive Folded (i : Info) (operators : List Operator) (operands : List Element) (o : Operand) : Prop where
  | joined (h : Joins operators operands)
      (hvalue : o.value = some (.leaf i (.string (String.join (operands.map Element.stringValue)) '"')))
  | compared {op : Operator} {a b : Element} (h : Compares operators operands op a b)
      (hvalue : o.value = some (.leaf i (.boolean (comparison op a.kind a b))))
  | text (hjoins : ¬Joins operators operands) (hcompares : ∀ op a b, ¬Compares operators operands op a b)
      (hvalue : o.value = none)

section Chains

variable {settings : Settings} {i j : Info} {o : Operand} {op : Operator} {first right : Element} {tail : List Element}

/-- Chains that join, by the first two operands and the rest. -/
theorem joins_iff :
    Joins (op :: (links tail).map Prod.fst) (first.unwrap :: right.unwrap :: (links tail).map fun l => l.2.unwrap) ↔
      (first.unwrap.kind = .string ∨ first.unwrap.kind = .number) ∧
        (first.unwrap.kind = .string ∨ right.unwrap.kind = .string) ∧
          JoinsNext (op, right) ∧ ∀ l ∈ links tail, JoinsNext l := by
  constructor
  · rintro ⟨hops, hscalars, hstring⟩
    simp only [List.forall_mem_cons, List.forall_mem_map] at hops hscalars
    exact ⟨hscalars.1, by simpa using hstring, ⟨hops.1, hscalars.2.1⟩, fun l hl => ⟨hops.2 l hl, hscalars.2.2 l hl⟩⟩
  · rintro ⟨hfirst, hstring, hright, htail⟩
    constructor
    · exact List.forall_mem_cons.mpr ⟨hright.1, List.forall_mem_map.mpr fun l hl => (htail l hl).1⟩
    · exact List.forall_mem_cons.mpr
        ⟨hfirst, List.forall_mem_cons.mpr ⟨hright.2, List.forall_mem_map.mpr fun l hl => (htail l hl).2⟩⟩
    · simpa using hstring

/-- A string or a number is an operand of its own kind. -/
theorem ofElement_kind_scalar {e : Element} (h : e.unwrap.kind = .string ∨ e.unwrap.kind = .number) :
    (Operand.ofElement e).kind = e.unwrap.kind := by
  apply ofElement_kind_eq
  rcases h with h | h <;> simp [h]

/-- The first step joins a string. -/
theorem folded_joined {a b : String} (hlinked : linked tail = true)
    (hresult : op.result? (Operand.ofElement first).kind (Operand.ofElement right).kind = some .string)
    (ha : (Operand.ofElement first).scalar? = some a) (hb : (Operand.ofElement right).scalar? = some b)
    (h : foldChain settings i (.ofLeaf i (.string (a ++ b) '"')) tail = some (.ok o)) :
    Folded i (op :: (links tail).map Prod.fst)
      (first.unwrap :: right.unwrap :: (links tail).map fun l => l.2.unwrap) o := by
  obtain ⟨hfirst, rfl⟩ := scalar_of_some ha
  obtain ⟨hright, rfl⟩ := scalar_of_some hb
  obtain ⟨rfl, hstring⟩ := result?_eq_string hresult
  rw [ofElement_kind_scalar hfirst, ofElement_kind_scalar hright] at hstring
  rcases foldChain_string hlinked h with ⟨hall, hvalue⟩ | ⟨⟨l, hl, hbad⟩, hvalue⟩
  · refine .joined (joins_iff.mpr ⟨hfirst, hstring, ⟨rfl, hright⟩, hall⟩) ?_
    simp [hvalue, String.join_cons, String.append_assoc, Function.comp_def]
  · refine .text (fun hjoins => hbad ((joins_iff.mp hjoins).2.2.2 l hl)) (fun _ _ _ hcompares => ?_) hvalue
    simpa using hcompares.operator.1

/-- The first step compares two containers. -/
theorem folded_compared {a b : Element} (hlinked : linked tail = true) (hop : op = .equal ∨ op = .unequal)
    (hsame : (Operand.ofElement first).kind = (Operand.ofElement right).kind)
    (hkind : (Operand.ofElement first).kind.IsCollection) (ha : (Operand.ofElement first).value = some a)
    (hb : (Operand.ofElement right).value = some b)
    (h : foldChain settings i (.ofLeaf i (.boolean (comparison op (Operand.ofElement first).kind a b))) tail =
      some (.ok o)) :
    Folded i (op :: (links tail).map Prod.fst)
      (first.unwrap :: right.unwrap :: (links tail).map fun l => l.2.unwrap) o := by
  obtain ⟨hfirst, rfl⟩ := literal_of_some ha
  obtain ⟨hright, rfl⟩ := literal_of_some hb
  rw [ofElement_kind_eq (kind_of_isLiteral hfirst)] at hsame hkind h
  rw [ofElement_kind_eq (kind_of_isLiteral hright)] at hsame
  by_cases hone : tail = []
  · subst hone
    cases h
    exact .compared ⟨rfl, rfl, hop, ⟨hfirst, hright⟩, hkind, hsame⟩ rfl
  · have hinert : (Operand.ofLeaf i (.boolean (comparison op first.unwrap.kind first.unwrap right.unwrap))).Inert :=
      ⟨rfl, by simp [Kind.IsCollection, Operand.ofLeaf, Leaf.kind]⟩
    refine .text (fun hjoins => ?_) (fun _ _ _ hcompares => ?_) (foldChain_inert hinert hone h)
    · obtain rfl : op = .add := (joins_iff.mp hjoins).2.2.1.1
      simp at hop
    · exact links_ne_nil hlinked hone (List.map_eq_nil_iff.mp hcompares.operator.2)

/-- The first step gives a text. -/
theorem folded_computed {kind : Kind} (hvalue : o.value = none)
    (hresult : op.result? (Operand.ofElement first).kind (Operand.ofElement right).kind = some kind)
    (hjoin : kind = .string → (Operand.ofElement first).scalar? = none ∨ (Operand.ofElement right).scalar? = none)
    (hcompare : op = .equal ∨ op = .unequal → (Operand.ofElement first).kind.IsCollection →
      (Operand.ofElement first).value = none ∨ (Operand.ofElement right).value = none) :
    Folded i (op :: (links tail).map Prod.fst)
      (first.unwrap :: right.unwrap :: (links tail).map fun l => l.2.unwrap) o := by
  refine .text (fun hjoins => ?_) (fun _ _ _ hcompares => ?_) hvalue
  · obtain ⟨hfirst, hstring, ⟨hop, hright⟩, -⟩ := joins_iff.mp hjoins
    dsimp only at hop hright
    rw [← ofElement_kind_scalar hfirst, ← ofElement_kind_scalar hright] at hstring
    rw [hop] at hresult
    rcases hjoin (result?_add hresult hstring) with hnone | hnone
    · rw [scalar?_ofElement, if_pos hfirst] at hnone
      cases hnone
    · rw [scalar?_ofElement, if_pos hright] at hnone
      cases hnone
  · obtain ⟨hoperators, hoperands, hop, ⟨hfirst, hright⟩, hkind, -⟩ := hcompares
    simp only [List.cons.injEq, List.map_eq_nil_iff] at hoperators hoperands
    obtain ⟨rfl, rfl, -⟩ := hoperands
    obtain ⟨rfl, -⟩ := hoperators
    rw [← ofElement_kind_eq (kind_of_isLiteral hfirst)] at hkind
    rcases hcompare hop hkind with hnone | hnone
    · rw [ofElement_value, if_pos hfirst] at hnone
      cases hnone
    · rw [ofElement_value, if_pos hright] at hnone
      cases hnone

/-- **What a chain with an operator comes to.** -/
theorem foldChain_folded (hlinked : linked tail = true)
    (h : foldChain settings i (.ofElement first) (.leaf j (.operator op) :: right :: tail) = some (.ok o)) :
    Folded i (op :: (links tail).map Prod.fst)
      (first.unwrap :: right.unwrap :: (links tail).map fun l => l.2.unwrap) o := by
  rw [foldChain] at h
  cases hcombine : combine settings i (.ofElement first) op (.ofElement right) with
  | error p => rw [hcombine] at h; cases h
  | ok next =>
    rw [hcombine] at h
    cases combines_of_eq hcombine with
    | joined hresult ha hb => exact folded_joined hlinked hresult ha hb h
    | compared hop hsame hkind ha hb => exact folded_compared hlinked hop hsame hkind ha hb h
    | computed hresult hjoin hcompare =>
      exact folded_computed (foldChain_value_none rfl h) hresult hjoin hcompare

/-- What an evaluated expression comes to if nothing is wrong with it. -/
theorem resolveChain_folded {first : Element} {rest : List Element} (hlinked : linked rest = true) (hne : rest ≠ [])
    (hclean : (resolveChain settings i (first :: rest)).hasErrors = false) :
    ∃ o : Operand, Folded i ((links rest).map Prod.fst) (first.unwrap :: (links rest).map fun l => l.2.unwrap) o ∧
      resolveChain settings i (first :: rest) =
        o.value.getD (.expression i (first :: rest) (some ⟨o.kind, o.text, o.operator⟩)) := by
  unfold resolveChain at hclean ⊢
  cases herrors : anyErrors (first :: rest) with
  | true =>
    rw [if_pos herrors, Element.hasErrors, herrors, Bool.or_true] at hclean
    cases hclean
  | false =>
    rw [herrors, if_neg Bool.false_ne_true] at hclean
    rw [if_neg Bool.false_ne_true]
    cases hfold : foldChain settings i (.ofElement first) rest with
    | none => exact absurd hfold (foldChain_ne_none hlinked)
    | some outcome =>
      cases outcome with
      | error p => simp [hfold, Element.hasErrors] at hclean
      | ok o =>
        refine ⟨o, ?_, by simp only [hfold]⟩
        unfold linked at hlinked
        split at hlinked
        · exact absurd rfl hne
        · exact foldChain_folded hlinked hfold
        · cases hlinked

end Chains

/-! ## Parsed expressions -/

/-- A parsed expression has an operator. -/
theorem Parsed.operated {e : Element} (h : Parsed e) : e.Operated := (h.yields operated_ensured fun _ => trivial).here

/-- A parsed expression comes to what its operators and operands say. -/
theorem evaluate_folded (settings : Settings) {e : Element} (hparsed : Parsed e) (hkind : e.kind = .expression)
    (herrors : e.hasErrors = false) (hvariable : e.hasVariable = false)
    (hclean : (e.evaluate settings).hasErrors = false) :
    ∃ o : Operand, Folded e.info e.operators (e.operands settings) o ∧ e.evaluate settings =
      o.value.getD (.expression e.info (e.children.map (·.evaluate settings)) (some ⟨o.kind, o.text, o.operator⟩)) := by
  have hread := hparsed.asRead.here
  have hoperated := hparsed.operated
  have hsigns : ∀ i op, (Element.leaf i (.operator op)).evaluate settings = .leaf i (.operator op) :=
    fun i op => evaluate_leaf i _
  obtain ⟨i, parts, rfl⟩ := pending_expression hkind hread.toRaw
  obtain ⟨hne, hlinked⟩ := hread.regular (Element.problem_eq_none herrors)
  cases parts with
  | nil => exact absurd rfl hne
  | cons first rest =>
    have heq := evaluate_chain settings herrors hvariable
    have hrest : rest ≠ [] := hoperated
    rw [heq, List.map_cons] at hclean
    obtain ⟨o, hfolded, hresult⟩ := resolveChain_folded (linked_map hsigns hlinked) (by simpa using hrest) hclean
    refine ⟨o, ?_, heq.trans hresult⟩
    rw [links_map hsigns hlinked, List.map_map, List.map_map] at hfolded
    rw [Element.operands, List.map_append, List.map_map]
    exact hfolded

/-- **What evaluation settles.** Let a parsed expression have no mistake and no variable, and let evaluation find no
mistake in it. It is settled if and only if it joins strings and numbers, or compares two containers that are written
out. In the first case it is the string of all operands one after the other, in the second the truth value of the
comparison, and in all other cases it stays an expression whose outcome is a text. -/
theorem evaluate_folds (settings : Settings) {e : Element} (hparsed : Parsed e) (hkind : e.kind = .expression)
    (herrors : e.hasErrors = false) (hvariable : e.hasVariable = false)
    (hclean : (e.evaluate settings).hasErrors = false) :
    ((e.evaluate settings).isLiteral = true ↔
        Joins e.operators (e.operands settings) ∨ ∃ op a b, Compares e.operators (e.operands settings) op a b) ∧
      (Joins e.operators (e.operands settings) → e.evaluate settings =
        .leaf e.info (.string (String.join ((e.operands settings).map Element.stringValue)) '"')) ∧
      (∀ op a b, Compares e.operators (e.operands settings) op a b →
        e.evaluate settings = .leaf e.info (.boolean (comparison op a.kind a b))) ∧
      ((e.evaluate settings).isLiteral = false →
        ∃ r, e.evaluate settings = .expression e.info (e.children.map (·.evaluate settings)) (some r)) := by
  obtain ⟨o, hfolded, hresult⟩ := evaluate_folded settings hparsed hkind herrors hvariable hclean
  rw [hresult]
  cases hfolded with
  | joined h hvalue =>
    rw [hvalue, Option.getD_some]
    exact ⟨iff_of_true rfl (Or.inl h), fun _ => rfl, fun op a b hcompares => absurd hcompares h.not_compares, nofun⟩
  | @compared op a b h hvalue =>
    rw [hvalue, Option.getD_some]
    refine ⟨iff_of_true rfl (Or.inr ⟨op, a, b, h⟩), fun hjoins => absurd h hjoins.not_compares, ?_, nofun⟩
    intro op' a' b' h'
    obtain ⟨rfl, rfl, rfl⟩ := h.unique h'
    rfl
  | text hjoins hcompares hvalue =>
    rw [hvalue, Option.getD_none]
    refine ⟨iff_of_false nofun ?_, fun h => absurd h hjoins, fun op a b h => absurd h (hcompares op a b),
      fun _ => ⟨_, rfl⟩⟩
    rintro (h | ⟨op, a, b, h⟩)
    · exact hjoins h
    · exact hcompares op a b h

/-- Strings and numbers with groups around them. -/
def joinedText : String := "'a' + ((1)) + (\"b\" + 2.50) + (-3)"

theorem evaluate_folds_joined :
    Joins (Element.parse joinedText).operators ((Element.parse joinedText).operands {}) ∧
      (Element.parse joinedText).evaluate {} = .leaf (Element.parse joinedText).info (.string "a1b2.50-3" '"') := by
  have hjoins : Joins (Element.parse joinedText).operators ((Element.parse joinedText).operands {}) :=
    ⟨by decide +kernel, by decide +kernel, by decide +kernel⟩
  have hvalue : String.join (((Element.parse joinedText).operands {}).map Element.stringValue) = "a1b2.50-3" := by
    decide +kernel
  obtain ⟨-, hstring, -, -⟩ := evaluate_folds {} (e := Element.parse joinedText) (Or.inl ⟨_, .self _⟩)
    (by decide +kernel) (by decide +kernel) (by decide +kernel) (by decide +kernel)
  rw [hvalue] at hstring
  exact ⟨hjoins, hstring hjoins⟩

end UiScript
