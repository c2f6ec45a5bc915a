import UiScript.Evaluation

/-!
# One step of a chain

A table says which kinds an operator takes and which kind it gives (`Operator.result?`). One step of a chain follows the
table, and gives one of four things: a refusal, a string that is joined, the outcome of a comparison, or a text
(`combine_combines`). What is proved of chains goes by these four.
-/

namespace UiScript

/-! ## The table -/

/-- The kind that an operator gives for operands of two kinds, if it takes them. -/
def Operator.result? (op : Operator) (left right : Kind) : Option Kind :=
  match op with
  | .add =>
    if left = .number ∧ right = .number then some .number
    else if (left = .number ∨ left = .string) ∧ (right = .number ∨ right = .string) then some .string
    else none
  | .sub | .mul | .div => if left = .number ∧ right = .number then some .number else none
  | .less | .lessEqual | .greater | .greaterEqual => if left = .number ∧ right = .number then some .boolean else none
  | .and | .or => if left = .boolean ∧ right = .boolean then some .boolean else none
  | .equal | .unequal => if left = right then some .boolean else none

/-- Only strings that are joined make a string. -/
theorem result?_eq_string {op : Operator} {k k' : Kind} (h : op.result? k k' = some .string) :
    op = .add ∧ (k = .string ∨ k' = .string) := by
  cases op <;> simp only [Operator.result?] at h <;> grind

/-- What is joined with a string is a string. -/
theorem result?_add {k k' kind : Kind} (h : Operator.add.result? k k' = some kind) (hs : k = .string ∨ k' = .string) :
    kind = .string := by
  simp only [Operator.result?] at h
  grind

/-! ## Steps -/

/-- The kinds that are compared part by part. -/
def Kind.IsCollection (kind : Kind) : Prop := kind = .tuple ∨ kind = .array ∨ kind = .json

/-- The outcome of a comparison of two containers that are written out. -/
def comparison (op : Operator) (kind : Kind) (a b : Element) : Bool :=
  (if kind = .json then a.looseEq b else a.strictEq b) != (op == .unequal)

/-- What one step of a chain gives: a refusal, a string that is joined, the outcome of a comparison, or a text. -/
inductive Combines (i : Info) (left : Operand) (op : Operator) (right : Operand) : Except Problem Operand → Prop where
  | refused {p : Problem} (h : op.result? left.kind right.kind = none) : Combines i left op right (.error p)
  | joined {a b : String} (h : op.result? left.kind right.kind = some .string) (ha : left.scalar? = some a)
      (hb : right.scalar? = some b) : Combines i left op right (.ok (.ofLeaf i (.string (a ++ b) '"')))
  | compared {a b : Element} (hop : op = .equal ∨ op = .unequal) (hsame : left.kind = right.kind)
      (hkind : left.kind.IsCollection) (ha : left.value = some a) (hb : right.value = some b) :
      Combines i left op right (.ok (.ofLeaf i (.boolean (comparison op left.kind a b))))
  | computed {kind : Kind} {text : String} {last : Option Operator} (h : op.result? left.kind right.kind = some kind)
      (hjoin : kind = .string → left.scalar? = none ∨ right.scalar? = none)
      (hcompare : op = .equal ∨ op = .unequal → left.kind.IsCollection → left.value = none ∨ right.value = none) :
      Combines i left op right (.ok (.computed kind text last))

theorem admits_numbers {kind : Kind} : Allowed.numbers.admits kind = true ↔ kind = .number := by
  cases kind <;> simp [Allowed.admits]

theorem admits_booleans {kind : Kind} : Allowed.booleans.admits kind = true ↔ kind = .boolean := by
  cases kind <;> simp [Allowed.admits]

theorem admits_numbersAndStrings {kind : Kind} :
    Allowed.numbersAndStrings.admits kind = true ↔ kind = .number ∨ kind = .string := by
  cases kind <;> simp [Allowed.admits]

section Steps

variable {i : Info} {left right : Operand} {op : Operator}

/-- An operator is applied as text if and only if both operands are of a kind that is allowed. -/
theorem textual_cases (op : Operator) (left right : Operand) (allowed : Allowed) (kind : Kind) :
    ((allowed.admits left.kind = true ∧ allowed.admits right.kind = true) ∧
        ∃ text, textual op left right allowed kind = .ok (.computed kind text (some op))) ∨
      (¬(allowed.admits left.kind = true ∧ allowed.admits right.kind = true) ∧
        ∃ p, textual op left right allowed kind = .error p) := by
  unfold textual badOperand?
  by_cases hleft : allowed.admits left.kind = true
  · by_cases hright : allowed.admits right.kind = true
    · exact Or.inl ⟨⟨hleft, hright⟩, _, by simp only [List.find?, hleft, hright]; rfl⟩
    · exact Or.inr ⟨fun h => hright h.2, _, by simp only [List.find?, hleft, hright]; rfl⟩
  · exact Or.inr ⟨fun h => hleft h.1, _, by simp only [List.find?, hleft]; rfl⟩

/-- An operator that is applied as text follows the table if it takes the kinds that are allowed. -/
theorem textual_combines {allowed : Allowed} {kind : Kind}
    (hresult : op.result? left.kind right.kind =
      if allowed.admits left.kind = true ∧ allowed.admits right.kind = true then some kind else none)
    (hjoin : kind = .string → left.scalar? = none ∨ right.scalar? = none) (hop : ¬(op = .equal ∨ op = .unequal)) :
    Combines i left op right (textual op left right allowed kind) := by
  rcases textual_cases op left right allowed kind with ⟨hadmits, text, heq⟩ | ⟨hadmits, p, heq⟩
  · rw [heq]
    exact .computed (hresult.trans (if_pos hadmits)) hjoin fun h => absurd h hop
  · rw [heq]
    exact .refused (hresult.trans (if_neg hadmits))

/-- Numbers are added, and strings are joined where both operands are written out. -/
theorem combine_add_combines (settings : Settings) :
    Combines i left .add right (combine settings i left .add right) := by
  rw [combine]
  by_cases hnumbers : left.kind = .number ∧ right.kind = .number
  · rw [if_pos hnumbers]
    exact textual_combines (by simp [Operator.result?, hnumbers, Allowed.admits]) (by simp) (by simp)
  · rw [if_neg hnumbers]
    have hresult : Operator.add.result? left.kind right.kind =
        if Allowed.numbersAndStrings.admits left.kind = true ∧ Allowed.numbersAndStrings.admits right.kind = true
          then some .string else none := by
      simp [Operator.result?, hnumbers, admits_numbersAndStrings]
    rcases textual_cases .add left right .numbersAndStrings .string with ⟨hadmits, text, heq⟩ | ⟨hadmits, p, heq⟩
    · rw [heq]
      cases ha : left.scalar? with
      | some a =>
        cases hb : right.scalar? with
        | some b => exact .joined (hresult.trans (if_pos hadmits)) ha hb
        | none => exact .computed (hresult.trans (if_pos hadmits)) (fun _ => Or.inr hb) (by simp)
      | none => exact .computed (hresult.trans (if_pos hadmits)) (fun _ => Or.inl ha) (by simp)
    · rw [heq]
      exact .refused (hresult.trans (if_neg hadmits))

/-- Two operands of one kind are compared, and containers at once where both are written out. -/
theorem compareOperands_combines (settings : Settings) (hop : op = .equal ∨ op = .unequal) :
    Combines i left op right (compareOperands settings i op left right) := by
  have hresult : op.result? left.kind right.kind = if left.kind = right.kind then some .boolean else none := by
    rcases hop with rfl | rfl <;> rfl
  unfold compareOperands
  by_cases hsame : left.kind = right.kind
  · rw [if_neg (not_not_intro hsame)]
    rw [if_pos hsame] at hresult
    split
    case h_4 htuple harray hjson =>
      refine .computed hresult (by simp) fun _ hkind => ?_
      rcases hkind with h | h | h
      · exact absurd h htuple
      · exact absurd h harray
      · exact absurd h hjson
    -- the three kinds of containers are compared in the same way
    all_goals
      rename_i hkind
      have hcontainer : left.kind.IsCollection := by simp [Kind.IsCollection, hkind]
      cases ha : left.value with
      | none => exact .computed hresult (by simp) fun _ _ => Or.inl ha
      | some a =>
        cases hb : right.value with
        | none => exact .computed hresult (by simp) fun _ _ => Or.inr hb
        | some b => exact .compared hop hsame hcontainer ha hb
  · rw [if_pos hsame]
    exact .refused (hresult.trans (if_neg hsame))

/-- **What one step of a chain gives.** -/
theorem combine_combines (settings : Settings) :
    Combines i left op right (combine settings i left op right) := by
  cases op with
  | add => exact combine_add_combines settings
  | equal => exact compareOperands_combines settings (Or.inl rfl)
  | unequal => exact compareOperands_combines settings (Or.inr rfl)
  | and | or => exact textual_combines (by simp [Operator.result?, admits_booleans]) (by simp) (by simp)
  | _ => exact textual_combines (by simp [Operator.result?, admits_numbers]) (by simp) (by simp)

theorem combines_of_eq {settings : Settings} {outcome : Except Problem Operand}
    (h : combine settings i left op right = outcome) : Combines i left op right outcome :=
  h ▸ combine_combines settings

/-- A step goes through if and only if the table has an entry for it, and gives the kind of that entry. -/
theorem Combines.kind {outcome : Except Problem Operand} (h : Combines i left op right outcome) :
    op.result? left.kind right.kind = outcome.toOption.map Operand.kind := by
  cases h with
  | compared hop hsame hkind ha hb => rcases hop with rfl | rfl <;> exact if_pos hsame
  | refused h | joined h ha hb | computed h hjoin hcompare => exact h

end Steps

end UiScript
