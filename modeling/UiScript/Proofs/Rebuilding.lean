import UiScript.Proofs.Evaluation
import UiScript.Proofs.Grammar.Written
import UiScript.Proofs.Precedence
import UiScript.Proofs.Reading.Regular

/-!
# Rebuilt texts keep the order

A chain of operators is folded strictly from left to right, whatever its operators are (`Element.leftTree?`). The text
that evaluation makes of it has few parentheses, but enough: a reader that knows precedence reads that very tree from
the text (`evaluate_keeps_order`). An operand of a chain shows a tree (`Shows`): it is a leaf, or a text with an
operator on top, which keeps the tree at the level of that operator. One step of a chain shows the joined trees
(`combine_shows`), a whole chain the tree of the fold (`foldChain_shows`), and an element its tree unless it has a
problem (`evaluate_shows`).
-/

namespace UiScript

open Grammar Precedence Reading

/-! ## Trees from left to right -/

/-- A string joined to a string or a number; two numbers are added, not joined. -/
def Leaf.concat? : Leaf → Leaf → Option String
  | .string a _, .string b _ => some (a ++ b)
  | .string a _, .number digits negative _ => some (a ++ numberText digits negative)
  | .number digits negative _, .string b _ => some (numberText digits negative ++ b)
  | _, _ => none

/-- Two trees with an operator between them: a node, or one leaf if strings are joined. -/
def Precedence.Tree.join (left : Tree) (op : Operator) (right : Tree) : Tree :=
  match op, left, right with
  | .add, .leaf a, .leaf b =>
    match a.concat? b with
    | some value => .leaf (.string value '"')
    | none => .node .add (.leaf a) (.leaf b)
  | op, left, right => .node op left right

mutual

/-- The tree of an element whose chains are folded from left to right. A group is the tree of its only item. -/
def Element.leftTree? : Element → Option Tree
  | .leaf _ l => some (.leaf l)
  | .tuple _ items false => onlyTree? items
  | .expression _ parts _ => chainTree? parts
  | _ => none

/-- The tree of the only item of a list. -/
def onlyTree? : List Element → Option Tree
  | e :: es => if es.isEmpty then e.leftTree? else none
  | [] => none

/-- The tree of a chain. -/
def chainTree? : List Element → Option Tree
  | first :: rest => first.leftTree?.bind (foldTree? · rest)
  | [] => none

/-- The tree of what was folded so far and the rest of the chain. -/
def foldTree? : Tree → List Element → Option Tree
  | tree, [] => some tree
  | tree, .leaf _ (.operator op) :: right :: rest => right.leftTree?.bind fun r => foldTree? (tree.join op r) rest
  | _, _ => none

end

mutual

/-- A number, a string, a truth value, a name, a group of such an element, or a chain of such operands. -/
def Element.isPlain : Element → Bool
  | .leaf _ (.number ..) | .leaf _ (.string ..) | .leaf _ (.boolean _) | .leaf _ (.ident _) => true
  | .tuple _ items false => isPlainOnly items
  | .expression _ parts none => isPlainChain parts
  | _ => false

/-- Whether a list has one item, which is plain. -/
def isPlainOnly : List Element → Bool
  | e :: es => e.isPlain && es.isEmpty
  | [] => false

/-- Whether all operands of a chain are plain. -/
def isPlainChain : List Element → Bool
  | first :: rest => first.isPlain && isPlainTail rest
  | [] => true

/-- Whether all operands after the first are plain. -/
def isPlainTail : List Element → Bool
  | _ :: right :: rest => right.isPlain && isPlainTail rest
  | _ => true

end

/-! ## Operands -/

/-- A leaf whose text is scanned as that leaf. -/
def Leaf.Legible : Leaf → Prop
  | .number digits _ float =>
    IsNumber digits.toList ∧ float = decide (0 < digits.toList.count '.') ∧ digits.toList.count '.' ≤ 1
  | .string _ quote => quote = '"' ∨ quote = '\''
  | .boolean _ => True
  | .ident name => IsWord name.toList ∧ wordKind name.toList = .word
  | _ => False

/-- The text keeps the tree at the level, wherever it stands. -/
def KeepsText (text : String) (tree : Tree) (level : Nat) : Prop :=
  ∀ whole, Writes whole text.toList fun ms => Keeps (ms.map Prod.fst) tree level

/-- The operand is a leaf, or a text with the topmost operator of the tree. -/
inductive Shows : Operand → Tree → Prop where
  | leaf (i : Info) {l : Leaf} (h : l.Legible) : Shows (.ofElement (.leaf i l)) (.leaf l)
  | node {kind : Kind} {text : String} {op : Operator} {l r : Tree} (hkind : kind.isContainer = false)
      (h : KeepsText text (.node op l r) op.precedence) : Shows (.computed kind text (some op)) (.node op l r)

theorem keepsText_leaf (i : Info) {l : Leaf} (h : l.Legible) : KeepsText (l.text i.source) (.leaf l) highest := by
  intro whole
  cases l with
  | number digits negative float =>
    obtain ⟨hw, hfloat, hcount⟩ := h
    cases negative with
    | false =>
      refine writes_number hw hfloat hcount fun t k hk htext _ => ?_
      refine Keeps.token fun stack => ?_
      simp [step, hk, htext, Leaf.text, numberText]
    | true =>
      have htext : (Leaf.text i.source (.number digits true float)).toList = '-' :: digits.toList := by
        simp [Leaf.text, numberText]
      rw [htext]
      refine writes_negative hw hfloat hcount fun sign number hsign hnumber htext _ hnext => ?_
      rw [← htext]
      exact Keeps.negative hsign hnumber hnext
  | string value quote =>
    refine writes_string h fun t k hk _ => ?_
    refine Keeps.token fun stack => ?_
    simp [step, hk]
  | boolean b =>
    obtain ⟨hw, hkind⟩ := isWord_boolText b
    refine writes_word hw fun t k hk _ => ?_
    refine Keeps.token fun stack => ?_
    simp [step, hk.trans hkind]
  | ident name =>
    obtain ⟨hw, hkind⟩ := h
    refine writes_word hw fun t k hk htext => ?_
    refine Keeps.token fun stack => ?_
    simp [step, hk.trans hkind, htext, Leaf.text]
  | _ => exact h.elim

/-- The level at which the text of an operand keeps its tree. -/
def Operand.level (o : Operand) : Nat :=
  match o.operator with
  | some op => op.precedence
  | none => highest

section Shows

variable {o left right : Operand} {tree l r : Tree}

theorem Shows.keepsText (h : Shows o tree) : KeepsText o.text tree o.level := by
  cases h with
  | leaf i h => exact keepsText_leaf i h
  | node _ h => exact h

theorem Shows.kind (h : Shows o tree) : o.kind.isContainer = false := by
  cases h with
  | @leaf i l h => cases l <;> rfl
  | node h _ => exact h

/-- Parentheses around a text. -/
theorem KeepsText.paren {text : String} {level : Nat} (h : KeepsText text tree level) :
    KeepsText ("(" ++ text ++ ")") tree highest := by
  intro whole
  have htext : ("(" ++ text ++ ")").toList = '(' :: (text.toList ++ [')']) := by simp
  rw [htext]
  refine ((h whole).bracket (b := .round) ⟨by decide, rfl⟩ ⟨by decide, rfl⟩ (by decide)).mono fun ms hms => ?_
  obtain ⟨opener, body, closer, rfl, hopener, hcloser, hbody⟩ := hms
  rw [List.map_cons, List.map_append, List.map_singleton]
  exact Keeps.paren hopener hcloser hbody

/-- As a left operand, the text binds no less tightly than the operator. -/
theorem Shows.asLeft (h : Shows o tree) (op : Operator) :
    ∃ level, op.precedence ≤ level ∧ KeepsText (o.asLeft op) tree level := by
  have htext := h.keepsText
  unfold Operand.level at htext
  unfold Operand.asLeft
  cases ho : o.operator with
  | none =>
    rw [ho] at htext
    exact ⟨highest, Nat.le_of_lt (precedence_lt_highest op), htext⟩
  | some inner =>
    rw [ho] at htext
    by_cases hlt : inner.precedence < op.precedence
    · simp only [if_pos hlt]
      exact ⟨highest, Nat.le_of_lt (precedence_lt_highest op), htext.paren⟩
    · simp only [if_neg hlt]
      exact ⟨inner.precedence, by omega, htext⟩

/-- As a right operand, the text binds more tightly than the operator. -/
theorem Shows.asRight (h : Shows o tree) (op : Operator) :
    ∃ level, op.precedence < level ∧ KeepsText (o.asRight op) tree level := by
  have htext := h.keepsText
  unfold Operand.level at htext
  unfold Operand.asRight
  cases ho : o.operator with
  | none =>
    rw [ho] at htext
    exact ⟨highest, precedence_lt_highest op, htext⟩
  | some inner =>
    rw [ho] at htext
    by_cases hle : inner.precedence ≤ op.precedence
    · simp only [if_pos hle]
      exact ⟨highest, precedence_lt_highest op, htext.paren⟩
    · simp only [if_neg hle]
      exact ⟨inner.precedence, by omega, htext⟩

/-- The operator applied as text. -/
theorem Shows.operator (hl : Shows left l) (hr : Shows right r) (op : Operator) {kind : Kind}
    (hkind : kind.isContainer = false) :
    Shows (.computed kind (left.asLeft op ++ " " ++ op.text ++ " " ++ right.asRight op) (some op)) (.node op l r) := by
  obtain ⟨lower, hlower, hleft⟩ := hl.asLeft op
  obtain ⟨upper, hupper, hright⟩ := hr.asRight op
  refine .node hkind fun whole => ?_
  have htext : (left.asLeft op ++ " " ++ op.text ++ " " ++ right.asRight op).toList =
      (left.asLeft op).toList ++ (' ' :: (op.text.toList ++ [' ']) ++ (right.asRight op).toList) := by
    simp
  rw [htext]
  refine ((hleft whole).append (separates_operator op) (hright whole)).mono fun ms hms => ?_
  obtain ⟨as, sign, bs, rfl, hsign, has, hbs⟩ := hms
  rw [List.map_append, List.map_cons]
  exact Keeps.node hsign has hlower hbs hupper

theorem Shows.textual {op : Operator} {allowed : Allowed} {kind : Kind} (hl : Shows left l) (hr : Shows right r)
    (hkind : kind.isContainer = false) (h : textual op left right allowed kind = .ok o) : Shows o (.node op l r) := by
  unfold UiScript.textual at h
  split at h
  · cases h
  · cases h
    exact hl.operator hr op hkind

/-- The string that a leaf is joined as. -/
def Leaf.scalar? : Leaf → Option String
  | .string value _ => some value
  | .number digits negative _ => some (numberText digits negative)
  | _ => none

theorem Leaf.concat?_eq (a b : Leaf) : a.concat? b =
    if a.kind = .number ∧ b.kind = .number then none
    else a.scalar?.bind fun x => b.scalar?.map fun y => x ++ y := by
  cases a <;> cases b <;> rfl

/-- A leaf has its kind, and is joined as what it is. -/
theorem Shows.leaf_inv {a : Leaf} (h : Shows o (.leaf a)) : o.kind = a.kind ∧ o.scalar? = a.scalar? := by
  cases h with
  | leaf i h =>
    refine ⟨rfl, ?_⟩
    cases a <;> rfl

theorem Shows.node_inv {op : Operator} (h : Shows o (.node op l r)) : o.scalar? = none := by
  cases h with
  | node _ _ => rfl

theorem join_of_ne {op : Operator} (h : op ≠ .add) (l r : Tree) : l.join op r = .node op l r := by
  cases op <;> first | rfl | exact absurd rfl h

/-- Two trees are joined into a node unless both are leaves that make one string. -/
theorem join_add (hl : Shows left l) (hr : Shows right r) :
    l.join .add r = if left.kind = .number ∧ right.kind = .number then .node .add l r
      else match left.scalar?, right.scalar? with
        | some x, some y => .leaf (.string (x ++ y) '"')
        | _, _ => .node .add l r := by
  cases l with
  | leaf a =>
    cases r with
    | leaf b =>
      rw [hl.leaf_inv.1, hl.leaf_inv.2, hr.leaf_inv.1, hr.leaf_inv.2]
      simp only [Tree.join, Leaf.concat?_eq]
      by_cases hnumbers : a.kind = .number ∧ b.kind = .number
      · simp only [if_pos hnumbers]
      · simp only [if_neg hnumbers]
        cases a.scalar? <;> cases b.scalar? <;> rfl
    | node op r₁ r₂ =>
      rw [hr.node_inv]
      cases left.scalar? <;> simp [Tree.join]
  | node op l₁ l₂ =>
    rw [hl.node_inv]
    simp [Tree.join]

/-- **One step of a chain shows the joined trees.** -/
theorem combine_shows {settings : Settings} {i : Info} {op : Operator} (hl : Shows left l) (hr : Shows right r)
    (h : combine settings i left op right = .ok o) : Shows o (l.join op r) := by
  cases op with
  | add =>
    rw [join_add hl hr]
    by_cases hnumbers : left.kind = .number ∧ right.kind = .number
    · simp only [combine, if_pos hnumbers] at h
      rw [if_pos hnumbers]
      exact hl.textual hr rfl h
    · simp only [combine, if_neg hnumbers] at h
      rw [if_neg hnumbers]
      split at h
      · rename_i hx hy
        rw [hx, hy]
        cases h
        exact Shows.leaf i (show (Leaf.string _ '"').Legible from Or.inl rfl)
      · rename_i hother
        have htextual := hl.textual hr rfl h
        split
        · rename_i x y hx hy
          exact absurd h (fun h => hother o x y h hx hy)
        · exact htextual
  | equal | unequal =>
    rw [join_of_ne (by decide)]
    simp only [combine, compareOperands] at h
    split at h
    · cases h
    · have hkind := hl.kind
      split at h
      · rename_i hk; rw [hk] at hkind; cases hkind
      · rename_i hk; rw [hk] at hkind; cases hkind
      · rename_i hk; rw [hk] at hkind; cases hkind
      · cases h
        exact hl.operator hr _ rfl
  | _ =>
    rw [join_of_ne (by decide)]
    exact hl.textual hr rfl h

end Shows

/-! ## Chains -/

section Chains

variable {settings : Settings}

/-- A number, a string, a truth value or a name without a problem is legible. -/
theorem legible_of_spelled {i : Info} {l : Leaf} (hplain : (Element.leaf i l).isPlain = true)
    (hspelled : (Element.leaf i l).Spelled) (hproblem : i.problem = none) : l.Legible := by
  cases l with
  | number digits negative float => exact ⟨hspelled.1, hspelled.2.1, hspelled.2.2 hproblem⟩
  | string value quote => exact hspelled
  | boolean b => trivial
  | ident name => exact hspelled
  | _ => simp [Element.isPlain] at hplain

/-- A plain group has one item, which is plain. -/
theorem isPlain_group {i : Info} {items : List Element} {trailing : Bool}
    (h : (Element.tuple i items trailing).isPlain = true) :
    trailing = false ∧ ∃ x, items = [x] ∧ x.isPlain = true := by
  cases trailing with
  | true => simp [Element.isPlain] at h
  | false =>
    rcases items with _ | ⟨x, _ | ⟨y, items⟩⟩
    · simp [Element.isPlain, isPlainOnly] at h
    · exact ⟨rfl, x, rfl, by simpa [Element.isPlain, isPlainOnly] using h⟩
    · simp [Element.isPlain, isPlainOnly] at h

/-- The parts of a chain after the first: operators, and plain operands. -/
theorem plain_or_operator {parts : List Element} (hlinked : linked parts = true) (hplain : isPlainTail parts = true) :
    ∀ p ∈ parts, p.isPlain = true ∨ ∃ i op, p = .leaf i (.operator op) := by
  fun_induction linked parts with
  | case1 => simp
  | case2 i op right rest ih =>
    simp only [isPlainTail, Bool.and_eq_true] at hplain
    rw [List.forall_mem_cons, List.forall_mem_cons]
    exact ⟨Or.inr ⟨i, op, rfl⟩, Or.inl hplain.1, ih hlinked hplain.2⟩
  | case3 => cases hlinked

/-- A plain chain that was read without a problem has a plain first part, and plain operands after it. -/
theorem isPlain_chain {i : Info} {parts : List Element} (hplain : (Element.expression i parts none).isPlain = true)
    (hread : (Element.expression i parts none).AsRead) (hproblem : i.problem = none) :
    ∃ first rest, parts = first :: rest ∧ first.isPlain = true ∧ isPlainTail rest = true ∧ linked rest = true := by
  obtain ⟨hne, hlinked⟩ := hread.regular hproblem
  cases parts with
  | nil => exact absurd rfl hne
  | cons first rest =>
    obtain ⟨hfirst, hrest⟩ : first.isPlain = true ∧ isPlainTail rest = true := by
      simpa [Element.isPlain, isPlainChain] using hplain
    exact ⟨first, rest, rfl, hfirst, hrest, hlinked⟩

/-- A plain element has no variable. -/
theorem isPlain_hasVariable (e : Element) : e.isPlain = true → e.Every false Element.AsRead → e.hasErrors = false →
    e.hasVariable = false := by
  induction e using Element.byChildren with
  | h e ih =>
    intro hplain hread herrors
    have hpart : ∀ c ∈ e.children, c.isPlain = true → c.hasVariable = false := fun c hc hplain =>
      ih c hc hplain (hread.child hc) (Element.hasErrors_child hc herrors)
    cases e with
    | leaf i l => cases l <;> first | rfl | simp [Element.isPlain] at hplain
    | tuple i items trailing =>
      obtain ⟨rfl, x, rfl, hx⟩ := isPlain_group hplain
      have hvariable := hpart x (List.mem_singleton_self x) hx
      simpa [Element.hasVariable] using hvariable
    | expression i parts resolved =>
      cases resolved with
      | some r => simp [Element.isPlain] at hplain
      | none =>
        obtain ⟨first, rest, rfl, hfirst, hrest, hlinked⟩ :=
          isPlain_chain hplain hread.here (Element.problem_eq_none herrors)
        refine Element.hasVariable_eq_false_iff.mpr ⟨by simp [Element.kind], fun p hp => ?_⟩
        rcases List.mem_cons.mp hp with rfl | hmem
        · exact hpart p hp hfirst
        · rcases plain_or_operator hlinked hrest p hmem with hplain | ⟨j, op, rfl⟩
          · exact hpart p hp hplain
          · rfl
    | _ => simp [Element.isPlain] at hplain

/-- An element fails if it is an open expression, or has one in it, with a problem. -/
def Fails (e : Element) : Prop := e.hasErrors = true ∧ e.outcome? = none

/-- What evaluation makes of the element shows its tree, unless it fails. -/
def Rebuilds (settings : Settings) (e : Element) : Prop :=
  Fails (e.evaluate settings) ∨ ∃ tree, e.leftTree? = some tree ∧ Shows (.ofElement (e.evaluate settings)) tree

/-- **A chain shows the tree of its fold.** -/
theorem foldChain_shows {i : Info} {acc : Operand} {tree : Tree} {rest : List Element} (hacc : Shows acc tree)
    (hlinked : linked rest = true) (hplain : isPlainTail rest = true)
    (hrest : ∀ p ∈ rest, p.isPlain = true →
      ∃ r, p.leftTree? = some r ∧ Shows (.ofElement (p.evaluate settings)) r) :
    ∃ outcome, foldChain settings i acc (rest.map (·.evaluate settings)) = some outcome ∧
      ∀ o, outcome = .ok o → ∃ result, foldTree? tree rest = some result ∧ Shows o result := by
  fun_induction linked rest generalizing acc tree with
  | case1 =>
    refine ⟨.ok acc, rfl, fun o ho => ⟨tree, by simp [foldTree?], ?_⟩⟩
    cases ho
    exact hacc
  | case2 j op right rest ih =>
    simp only [isPlainTail, Bool.and_eq_true] at hplain
    obtain ⟨r, hr, hshows⟩ := hrest right (by simp) hplain.1
    have hsign : (Element.leaf j (.operator op)).evaluate settings = .leaf j (.operator op) := by
      simp [Element.evaluate]
    rw [List.map_cons, List.map_cons, hsign, foldChain]
    cases hcombine : combine settings i acc op (.ofElement (right.evaluate settings)) with
    | error p => exact ⟨.error p, rfl, fun o ho => by cases ho⟩
    | ok next =>
      have hnext := combine_shows hacc hshows hcombine
      obtain ⟨outcome, hfold, hresult⟩ := ih hnext hlinked hplain.2 fun p hp => hrest p (by simp [hp])
      refine ⟨outcome, hfold, fun o ho => ?_⟩
      obtain ⟨result, htree, hshows⟩ := hresult o ho
      refine ⟨result, ?_, hshows⟩
      rw [foldTree?, hr]
      exact htree
  | case3 => cases hlinked

/-- What a chain comes to: the leaf that is left, or a text with its operator. -/
theorem Shows.outcome {o : Operand} {tree : Tree} (h : Shows o tree) (i : Info) (parts : List Element) :
    Shows (.ofElement (o.value.getD (.expression i parts (some ⟨o.kind, o.text, o.operator⟩)))) tree := by
  cases h with
  | @leaf j l h =>
    have hvalue : (Operand.ofElement (.leaf j l)).value = some (.leaf j l) := by
      cases l <;> first | rfl | exact h.elim
    rw [hvalue, Option.getD_some]
    exact .leaf j h
  | node hkind h => exact .node hkind h

/-- A chain shows its tree unless it fails, if its operands do. -/
theorem chain_rebuilds {i : Info} {first : Element} {rest : List Element} (hproblem : i.problem = none)
    (herrors : anyErrors (first :: rest) = false) (hvariable : anyVariable (first :: rest) = false)
    (hlinked : linked rest = true) (hfirst : first.isPlain = true) (hplain : isPlainTail rest = true)
    (hparts : ∀ p ∈ first :: rest, p.isPlain = true → Rebuilds settings p) :
    Rebuilds settings (.expression i (first :: rest) none) := by
  have hevaluate : (Element.expression i (first :: rest) none).evaluate settings =
      resolveChain settings i ((first :: rest).map (·.evaluate settings)) := by
    rw [Element.evaluate, hproblem, herrors, hvariable, evaluateAll_eq_map]
    rfl
  unfold Rebuilds
  rw [hevaluate]
  unfold resolveChain
  by_cases hbad : anyErrors ((first :: rest).map (·.evaluate settings)) = true
  · rw [if_pos hbad]
    exact Or.inl ⟨by simp only [Element.hasErrors, hbad, Bool.or_true], rfl⟩
  · rw [if_neg hbad]
    have hshows : ∀ p ∈ first :: rest, p.isPlain = true →
        ∃ r, p.leftTree? = some r ∧ Shows (.ofElement (p.evaluate settings)) r := by
      intro p hp hplain
      rcases hparts p hp hplain with ⟨hfails, -⟩ | h
      · refine absurd ?_ hbad
        rw [anyErrors_eq_any, List.any_map, List.any_eq_true]
        exact ⟨p, hp, hfails⟩
      · exact h
    obtain ⟨tree, htree, hacc⟩ := hshows first List.mem_cons_self hfirst
    obtain ⟨outcome, hfold, hresult⟩ := foldChain_shows (i := i) hacc hlinked hplain fun p hp =>
      hshows p (List.mem_cons_of_mem _ hp)
    simp only [List.map_cons, hfold]
    cases outcome with
    | error p => exact Or.inl ⟨by simp [Element.hasErrors], rfl⟩
    | ok o =>
      obtain ⟨result, hleft, ho⟩ := hresult o rfl
      exact Or.inr ⟨result, by simp [Element.leftTree?, chainTree?, htree, hleft], ho.outcome i _⟩

/-- **A plain element shows its tree unless it fails.** -/
theorem evaluate_shows (settings : Settings) (e : Element) : e.isPlain = true → e.Every false Element.AsRead →
    e.hasErrors = false → Rebuilds settings e := by
  induction e using Element.byChildren with
  | h e ih =>
    intro hplain hread herrors
    have hpart : ∀ c ∈ e.children, c.isPlain = true → Rebuilds settings c := fun c hc hplain =>
      ih c hc hplain (hread.child hc) (Element.hasErrors_child hc herrors)
    cases e with
    | leaf i l =>
      have hlegible := legible_of_spelled hplain hread.here.spelled (Element.problem_eq_none herrors)
      refine Or.inr ⟨.leaf l, by simp [Element.leftTree?], ?_⟩
      rw [Element.evaluate]
      exact .leaf i hlegible
    | tuple i items trailing =>
      obtain ⟨rfl, x, rfl, hx⟩ := isPlain_group hplain
      unfold Rebuilds
      rw [evaluate_group]
      rcases hpart x (List.mem_singleton_self x) hx with ⟨hfails, -⟩ | ⟨tree, htree, hshows⟩
      · exact Or.inl ⟨by simp [Element.hasErrors, hfails], rfl⟩
      · rw [ofElement_group]
        exact Or.inr ⟨tree, by simpa [Element.leftTree?, onlyTree?] using htree, hshows⟩
    | expression i parts resolved =>
      cases resolved with
      | some r => simp [Element.isPlain] at hplain
      | none =>
        have hproblem : i.problem = none := Element.problem_eq_none herrors
        have hvariable := isPlain_hasVariable _ hplain hread herrors
        obtain ⟨first, rest, rfl, hfirst, hrest, hlinked⟩ := isPlain_chain hplain hread.here hproblem
        rw [Element.hasErrors, Bool.or_eq_false_iff] at herrors
        rw [Element.hasVariable] at hvariable
        exact chain_rebuilds hproblem herrors.2 hvariable hlinked hfirst hrest hpart
    | _ => simp [Element.isPlain] at hplain

/-- What is evaluated to a text was an open chain without problems. -/
theorem hasErrors_of_outcome {e : Element} {r : Resolved} (hplain : e.isPlain = true)
    (h : (e.evaluate settings).outcome? = some r) : e.hasErrors = false := by
  cases e with
  | leaf i l => rw [Element.evaluate] at h; cases h
  | tuple i items trailing => rw [Element.evaluate] at h; split at h <;> cases h
  | expression i parts resolved =>
    cases resolved with
    | some r' => simp [Element.isPlain] at hplain
    | none =>
      rw [Element.evaluate] at h
      split at h
      · cases h
      · rename_i hclean
        simp only [Bool.not_eq_true, Bool.or_eq_false_iff] at hclean
        rw [Element.hasErrors, hclean.1.1, hclean.1.2]
        rfl
  | _ => simp [Element.isPlain] at hplain

end Chains

/-! ## Parsed expressions -/

/-- **Rebuilt texts keep the order.** If a chain of numbers, strings, truth values, names and groups of such is
evaluated to a text, a reader that knows precedence reads from that text the tree of the chain folded from left to
right. -/
theorem evaluate_keeps_order (settings : Settings) {e : Element} (hparsed : Parsed e) (hplain : e.isPlain = true)
    {r : Resolved} (h : (e.evaluate settings).outcome? = some r) :
    ∃ tree, e.leftTree? = some tree ∧ Precedence.parse r.text = some tree := by
  have herrors := hasErrors_of_outcome hplain h
  rcases evaluate_shows settings e hplain hparsed.asRead.shallow herrors with ⟨-, hfails⟩ | ⟨tree, htree, hshows⟩
  · rw [h] at hfails
    cases hfails
  · have htext : (Operand.ofElement (e.evaluate settings)).text = r.text := by
      cases he : e.evaluate settings with
      | expression i parts resolved =>
        rw [he] at h
        cases h
        rfl
      | _ => rw [he] at h; cases h
    have hkeeps := (hshows.keepsText r.text.toList)
    rw [htext] at hkeeps
    have hrun := hkeeps.scan
    rw [map_fst_marks] at hrun
    exact ⟨tree, htree, hrun.finish_run⟩

set_option maxRecDepth 10000 in
/-- A product of sums, which needs parentheses on both sides, and a string that is put together. -/
theorem evaluate_keeps_order_product :
    ∃ r, (Element.parse "1 + 2 * (3 + (-4)) + ('a' + 5)").isPlain = true ∧
      ((Element.parse "1 + 2 * (3 + (-4)) + ('a' + 5)").evaluate {}).outcome? = some r ∧
      r.text = "(1 + 2) * (3 + -4) + \"a5\"" ∧
      ∃ tree, (Element.parse "1 + 2 * (3 + (-4)) + ('a' + 5)").leftTree? = some tree ∧
        Precedence.parse r.text = some tree :=
  ⟨⟨.string, "(1 + 2) * (3 + -4) + \"a5\"", some .add⟩, by decide +kernel, by decide +kernel, rfl,
    evaluate_keeps_order {} (Or.inl ⟨_, .self _⟩) (by decide +kernel) (by decide +kernel)⟩

end UiScript
