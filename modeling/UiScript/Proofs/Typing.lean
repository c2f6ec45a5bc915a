import UiScript.Proofs.Evaluation

/-!
# The check of kinds is exact

What is left of an element when its values are forgotten is its outline: kinds, brackets and operators
(`Element.outline`). A table says which kinds an operator takes and what it gives (`Operator.result?`), and the kind of
an outline is computed from it (`Outline.kind?`). Evaluation accepts exactly the elements whose outline has a kind, and
gives them that kind (`evaluate_typed`). So no value, quote or setting has a say in it, and neither has what is settled
on the way: strings that are joined and containers that are compared take part in a chain as the kinds that they have.

One step of a chain is one of four things (`combine_combines`), a whole chain follows the table step by step
(`foldChain_kind`), and a tree is followed by its parts (`evaluate_checked`).
-/

namespace UiScript

/-! ## Outlines -/

/-- An element without its values. -/
inductive Outline where
  | single (kind : Kind)
  | operator (op : Operator)
  | group (item : Outline)
  | tuple (items : List Outline)
  | array (items : List Outline)
  | json (parts : List Outline)
  | chain (parts : List Outline)

mutual

/-- The kind of an outline, by itself or as an operand of a chain, if all of it is well-typed. -/
def Outline.kind? : (operand : Bool) → Outline → Option Kind
  | _, .single kind => some kind
  | _, .operator _ => some .operator
  | true, .group item => item.kind? true
  | false, .group item => (item.kind? false).map fun _ => .tuple
  | _, .tuple items => (kinds? items).map fun _ => .tuple
  | _, .array items => (kinds? items).bind fun ks => if ∀ a ∈ ks, ∀ b ∈ ks, a = b then some .array else none
  | _, .json parts => (kinds? parts).map fun _ => .json
  | _, .chain parts => chainKind? parts

/-- The kinds of several outlines, if all of them are well-typed. -/
def kinds? : List Outline → Option (List Kind)
  | [] => some []
  | o :: os => (o.kind? false).bind fun k => (kinds? os).map (k :: ·)

/-- The kind of a chain. -/
def chainKind? : List Outline → Option Kind
  | [] => none
  | first :: rest => (first.kind? true).bind (foldKinds? · rest)

/-- The kind of what was folded so far and the rest of a chain. -/
def foldKinds? : Kind → List Outline → Option Kind
  | acc, [] => some acc
  | acc, .operator op :: right :: rest =>
    (right.kind? true).bind fun k => (op.result? acc k).bind (foldKinds? · rest)
  | _, _ => none

end

/-- Items between parentheses: one item without a trailing comma is a group. -/
def Outline.parens : (trailing : Bool) → List Outline → Outline
  | false, [item] => .group item
  | _, items => .tuple items

mutual

/-- What is left of an element without its values. The commands of a block are not looked at. -/
def Element.outline : Element → Outline
  | .leaf _ (.operator op) => .operator op
  | .leaf _ l => .single l.kind
  | .tuple _ items trailing => .parens trailing (outlines items)
  | .array _ items => .array (outlines items)
  | .json _ entries => .json (entryOutlines entries)
  | .expression _ parts _ => .chain (outlines parts)
  | .block .. => .single .block

/-- The outlines of several elements. -/
def outlines : List Element → List Outline
  | [] => []
  | e :: es => e.outline :: outlines es

/-- The outlines of key and value. -/
def Entry.outlines : Entry → List Outline
  | .pair k v => [k.outline, v.outline]
  | .bare k => [k.outline]

/-- The outlines of the parts of several entries. -/
def entryOutlines : List Entry → List Outline
  | [] => []
  | e :: es => e.outlines ++ entryOutlines es

end

/-! ### Lists -/

@[simp] theorem outlines_eq_map (es : List Element) : outlines es = es.map Element.outline := by
  induction es with
  | nil => simp [outlines]
  | cons e es ih => simp [outlines, ih]

@[simp] theorem entryOutlines_eq_map (entries : List Entry) :
    entryOutlines entries = (entries.flatMap Entry.parts).map Element.outline := by
  induction entries with
  | nil => simp [entryOutlines]
  | cons p ps ih => cases p <;> simp [entryOutlines, Entry.outlines, Entry.parts, ih]

/-! ## Operands -/

/-- The kind of an element without mistakes, by itself or as an operand of a chain. -/
def Element.checked? (operand : Bool) (e : Element) : Option Kind :=
  if e.hasErrors then none else some (if operand then e.unwrap else e).valueKind

/-- What an operand is written out as has no mistake and is of the operand's kind. -/
def Operand.Faithful (o : Operand) : Prop := ∀ v ∈ o.value, ∀ operand, v.checked? operand = some o.kind

theorem ofElement_faithful {e : Element} (h : e.hasErrors = false) : (Operand.ofElement e).Faithful := by
  intro v hv operand
  rw [ofElement_value] at hv
  split at hv
  · cases hv
    have hinner : e.unwrap.hasErrors = false := (occurs_unwrap e).hasErrors h
    rw [Element.checked?, hinner, ofElement_kind, Element.unwrap_unwrap]
    cases operand <;> rfl
  · cases hv

section Chains

variable {settings : Settings} {i : Info}

theorem Combines.faithful {left right o : Operand} {op : Operator} (hproblem : i.problem = none)
    (h : Combines i left op right (.ok o)) : o.Faithful := by
  have hleaf : ∀ l : Leaf, (Operand.ofLeaf i l).Faithful := by
    rintro l v ⟨⟩ operand
    rw [Element.checked?, Element.hasErrors, hproblem]
    cases operand <;> rfl
  cases h with
  | joined h ha hb => exact hleaf _
  | compared hop hsame hkind ha hb => exact hleaf _
  | computed h hjoin hcompare => rintro v ⟨⟩

/-- **A chain follows the table step by step.** -/
theorem foldChain_kind (hproblem : i.problem = none) {acc : Operand} {rest : List Element}
    (hlinked : linked rest = true) (hacc : acc.Faithful)
    (hrest : ∀ p ∈ rest, p.outline.kind? true = some (p.evaluate settings).unwrap.valueKind) :
    ∃ outcome, foldChain settings i acc (rest.map (·.evaluate settings)) = some outcome ∧
      foldKinds? acc.kind (rest.map Element.outline) = outcome.toOption.map Operand.kind ∧
      ∀ o, outcome = .ok o → o.Faithful := by
  fun_induction linked rest generalizing acc with
  | case1 => exact ⟨.ok acc, rfl, by simp [foldKinds?, Except.toOption], by rintro o ⟨⟩; exact hacc⟩
  | case2 j op right rest ih =>
    have hright := hrest right (by simp)
    have hstep : Combines i acc op (.ofElement (right.evaluate settings)) _ := combine_combines settings
    have hkind := hstep.kind
    rw [ofElement_kind] at hkind
    rw [List.map_cons, List.map_cons, evaluate_leaf, foldChain, List.map_cons, List.map_cons, Element.outline,
      foldKinds?, hright, Option.bind_some, hkind]
    cases hcombine : combine settings i acc op (.ofElement (right.evaluate settings)) with
    | error p => exact ⟨.error p, rfl, rfl, by rintro o ⟨⟩⟩
    | ok next =>
      rw [hcombine] at hstep
      exact ih hlinked (hstep.faithful hproblem) fun p hp => hrest p (by simp [hp])
  | case3 => cases hlinked

/-- Where a part of a chain is ill-typed, so is the chain. -/
theorem foldKinds?_eq_none {rest : List Element} (hlinked : linked rest = true) (acc : Kind)
    (h : ∃ p ∈ rest, p.outline.kind? true = none) : foldKinds? acc (rest.map Element.outline) = none := by
  fun_induction linked rest generalizing acc with
  | case1 =>
    obtain ⟨p, hp, -⟩ := h
    cases hp
  | case2 j op right rest ih =>
    obtain ⟨p, hp, hnone⟩ := h
    rw [List.map_cons, List.map_cons, Element.outline, foldKinds?]
    rcases List.mem_cons.mp hp with rfl | hp
    · simp [Element.outline, Outline.kind?] at hnone
    rcases List.mem_cons.mp hp with rfl | hp
    · rw [hnone]
      rfl
    · simp [ih hlinked _ ⟨p, hp, hnone⟩]
  | case3 => cases hlinked

end Chains

/-! ## Trees -/

section Trees

variable {settings : Settings} {i : Info} {e : Element} {es : List Element}

/-- The kinds of several elements are the kinds of their outlines. -/
theorem kinds?_outlines (h : ∀ e ∈ es, (e.evaluate settings).checked? false = e.outline.kind? false) :
    kinds? (es.map Element.outline) =
      if anyErrors (es.map (·.evaluate settings)) then none
      else some ((es.map (·.evaluate settings)).map Element.valueKind) := by
  induction es with
  | nil => rfl
  | cons e es ih =>
    have hfirst := h e List.mem_cons_self
    rw [List.map_cons, kinds?, ← hfirst, ih fun x hx => h x (List.mem_cons_of_mem _ hx), List.map_cons, anyErrors,
      Element.checked?]
    cases (e.evaluate settings).hasErrors <;> cases anyErrors (es.map (·.evaluate settings)) <;> rfl

/-- Evaluation goes along with the outline: it finds a mistake where there is no kind, and gives that kind elsewhere. -/
def Checked (settings : Settings) (e : Element) : Prop :=
  ∀ operand, (e.evaluate settings).checked? operand = e.outline.kind? operand

theorem Checked.group (h : Checked settings e) (hproblem : i.problem = none) :
    Checked settings (.tuple i [e] false) := by
  intro operand
  have hinner := h operand
  have hkind : ((Element.tuple i [e] false).evaluate settings).checked? operand =
      if (e.evaluate settings).hasErrors then none
      else some (if operand then (e.evaluate settings).unwrap.valueKind else .tuple) := by
    rw [evaluate_group, Element.checked?]
    cases operand <;> simp [Element.hasErrors, hproblem, Element.unwrap, unwrapOnly, Element.valueKind, Element.kind]
  rw [hkind, Element.outline]
  simp only [outlines, Outline.parens]
  cases operand with
  | true => rw [Outline.kind?, ← hinner, Element.checked?]; rfl
  | false =>
    rw [Outline.kind?, ← hinner, Element.checked?]
    cases (e.evaluate settings).hasErrors <;> rfl

/-- Tuples and dictionaries ask no more than that their parts are well-typed. -/
theorem Checked.container (hparts : ∀ c ∈ e.children, Checked settings c) (hkind : e.kind = .tuple ∨ e.kind = .json)
    (hproblem : e.problem = none) (hunwrap : (e.evaluate settings).unwrap = e.evaluate settings)
    (houtline : ∀ operand,
      e.outline.kind? operand = (kinds? (e.children.map Element.outline)).map fun _ => e.kind) :
    Checked settings e := by
  intro operand
  have hne : e.kind ≠ .expression ∧ e.kind ≠ .block := by
    rcases hkind with h | h <;> simp [h]
  have hsame : (e.evaluate settings).problem = none := by
    cases e with
    | tuple i items trailing => rwa [evaluate_tuple]
    | json i entries => rw [Element.evaluate]; split <;> exact hproblem
    | leaf i l => cases l <;> simp [Element.kind, Leaf.kind] at hkind
    | _ => simp [Element.kind] at hkind
  have herrors : (e.evaluate settings).hasErrors = anyErrors (e.children.map (·.evaluate settings)) := by
    rw [Bool.eq_iff_iff, ← Decidable.not_iff_not, Bool.not_eq_true, Bool.not_eq_true,
      Element.hasErrors_eq_false_iff (by rw [kind_evaluate hne.1]; exact hne.2), children_evaluate hne.1, hsame]
    simp
  rw [houtline, kinds?_outlines fun c hc => hparts c hc false, Element.checked?, herrors, hunwrap, ite_self,
    valueKind_of_kind (by rw [kind_evaluate hne.1]; exact hne.1), kind_evaluate hne.1]
  cases anyErrors (e.children.map (·.evaluate settings)) <;> rfl

/-- Items between parentheses are a tuple unless they are a group. -/
theorem Checked.tuple {items : List Element} {trailing : Bool} (h : ∀ e ∈ items, Checked settings e)
    (hproblem : i.problem = none) (hgroup : ∀ x, items = [x] → trailing = true) :
    Checked settings (.tuple i items trailing) := by
  apply Checked.container (e := .tuple i items trailing) h (Or.inl rfl) hproblem
  · rw [evaluate_tuple]
    rcases items with _ | ⟨x, _ | ⟨y, items⟩⟩
    · cases trailing <;> rfl
    · cases hgroup x rfl
      rfl
    · cases trailing <;> rfl
  · intro operand
    have hparens : (Element.tuple i items trailing).outline = .tuple (items.map Element.outline) := by
      rw [Element.outline, outlines_eq_map]
      rcases items with _ | ⟨x, _ | ⟨y, items⟩⟩
      · cases trailing <;> rfl
      · cases hgroup x rfl
        rfl
      · cases trailing <;> rfl
    rw [hparens]
    cases operand <;> rw [Outline.kind?] <;> rfl

theorem Checked.json {entries : List Entry} (h : ∀ c ∈ entries.flatMap Entry.parts, Checked settings c)
    (hproblem : i.problem = none) : Checked settings (.json i entries) := by
  apply Checked.container (e := .json i entries) h (Or.inr rfl) hproblem
  · exact unwrap_of_kind (by rw [kind_evaluate (by simp [Element.kind])]; simp [Element.kind])
  · intro operand
    rw [Element.outline, entryOutlines_eq_map]
    cases operand <;> rw [Outline.kind?] <;> rfl

/-- An array asks that its items are of one kind as well. -/
theorem Checked.array {items : List Element} (h : ∀ e ∈ items, Checked settings e) (hproblem : i.problem = none)
    (hmixed : mixedKinds? items = none)
    (hdecided : ∀ e ∈ items, (e.evaluate settings).hasErrors = false → (e.evaluate settings).isDecided = true) :
    Checked settings (.array i items) := by
  intro operand
  have hkind : (Element.array i items).outline.kind? operand = (kinds? (items.map Element.outline)).bind fun ks =>
      if ∀ a ∈ ks, ∀ b ∈ ks, a = b then some .array else none := by
    rw [Element.outline, outlines_eq_map]
    cases operand <;> rw [Outline.kind?]
  have hvalue : ∀ j es, (if operand then (Element.array j es).unwrap else .array j es).valueKind = .array := by
    intro j es
    cases operand <;> rfl
  rw [hkind, kinds?_outlines fun e he => h e he false, evaluate_array hmixed, hproblem, Problem.note_none_left,
    Element.checked?, Element.hasErrors, hvalue]
  cases herrors : anyErrors (items.map (·.evaluate settings)) with
  | true => simp
  | false =>
    rw [anyErrors_eq_any, List.any_eq_false] at herrors
    have hsame : mixedKinds? (items.map (·.evaluate settings)) = none ↔
        ∀ a ∈ (items.map (·.evaluate settings)).map Element.valueKind,
          ∀ b ∈ (items.map (·.evaluate settings)).map Element.valueKind, a = b := by
      rw [mixedKinds?_eq_none_iff (List.forall_mem_map.mpr fun e he =>
        hdecided e he (by simpa using herrors _ (List.mem_map_of_mem he)))]
      simp only [List.forall_mem_map]
    rw [if_neg Bool.false_ne_true, Option.bind_some]
    cases hone : mixedKinds? (items.map (·.evaluate settings)) with
    | none => exact (if_pos (hsame.mp hone)).symm
    | some p =>
      rw [hone] at hsame
      exact (if_neg fun hall => nomatch hsame.mpr hall).symm

/-- What an operand is made into at the end of a chain has the kind of the operand. -/
theorem Operand.Faithful.checked? {o : Operand} {parts : List Element} (h : o.Faithful) (hproblem : i.problem = none)
    (herrors : anyErrors parts = false) (operand : Bool) :
    (o.value.getD (.expression i parts (some ⟨o.kind, o.text, o.operator⟩))).checked? operand = some o.kind := by
  cases hvalue : o.value with
  | some v => exact h v hvalue operand
  | none =>
    rw [Option.getD_none, Element.checked?, Element.hasErrors, hproblem, herrors]
    cases operand <;> rfl

/-- **A chain is checked as its operands are.** -/
theorem Checked.chain {first : Element} {rest : List Element} (hproblem : i.problem = none)
    (hevaluate : (Element.expression i (first :: rest) none).evaluate settings =
      resolveChain settings i ((first :: rest).map (·.evaluate settings)))
    (hlinked : linked rest = true) (hparts : ∀ p ∈ first :: rest, Checked settings p) :
    Checked settings (.expression i (first :: rest) none) := by
  intro operand
  have hkind : (Element.expression i (first :: rest) none).outline.kind? operand =
      (first.outline.kind? true).bind (foldKinds? · (rest.map Element.outline)) := by
    rw [Element.outline, outlines_eq_map]
    cases operand <;> rw [Outline.kind?, List.map_cons, chainKind?]
  rw [hevaluate, hkind]
  unfold resolveChain
  cases herrors : anyErrors ((first :: rest).map (·.evaluate settings)) with
  | true =>
    obtain ⟨p, hp, hbad⟩ : ∃ p ∈ first :: rest, p.outline.kind? true = none := by
      rw [anyErrors_eq_any, List.any_map, List.any_eq_true] at herrors
      obtain ⟨p, hp, hbad⟩ := herrors
      exact ⟨p, hp, by rw [← hparts p hp, Element.checked?]; exact if_pos hbad⟩
    rw [if_pos rfl, Element.checked?, Element.hasErrors, herrors, Bool.or_true, if_pos rfl]
    rcases List.mem_cons.mp hp with rfl | hp
    · rw [hbad]
      rfl
    · simp [foldKinds?_eq_none hlinked _ ⟨p, hp, hbad⟩]
  | false =>
    have hclean : ∀ p ∈ first :: rest, (p.evaluate settings).hasErrors = false := by
      rw [anyErrors_eq_any, List.any_map, List.any_eq_false] at herrors
      exact fun p hp => Bool.not_eq_true _ ▸ herrors p hp
    have hsome : ∀ p ∈ first :: rest, p.outline.kind? true = some (p.evaluate settings).unwrap.valueKind := by
      intro p hp
      rw [← hparts p hp, Element.checked?, hclean p hp]
      rfl
    obtain ⟨outcome, hfold, hkinds, hfaithful⟩ := foldChain_kind hproblem hlinked
      (ofElement_faithful (hclean first List.mem_cons_self)) fun p hp => hsome p (List.mem_cons_of_mem _ hp)
    rw [ofElement_kind] at hkinds
    rw [if_neg Bool.false_ne_true, hsome first List.mem_cons_self, Option.bind_some, hkinds]
    simp only [List.map_cons, hfold]
    cases outcome with
    | error p => rfl
    | ok o => exact (hfaithful o rfl).checked? hproblem herrors operand

/-- **The check goes along with the outline.** -/
theorem evaluate_checked (settings : Settings) (e : Element) : e.Every false Element.Raw → e.hasErrors = false →
    e.hasVariable = false → Checked settings e := by
  induction e using Element.byChildren with
  | h e ih =>
    intro hraw herrors hvariable
    have hproblem := Element.problem_eq_none herrors
    have hparts : ∀ c ∈ e.children, Checked settings c := fun c hc =>
      ih c hc (hraw.child hc) (Element.hasErrors_child hc herrors) (Element.hasVariable_child hc hvariable)
    cases e with
    | leaf i l =>
      intro operand
      rw [evaluate_leaf, Element.checked?, herrors]
      cases l <;> cases operand <;> rfl
    | tuple i items trailing =>
      by_cases hgroup : ∃ x, items = [x] ∧ trailing = false
      · obtain ⟨x, rfl, rfl⟩ := hgroup
        exact (hparts x (List.mem_singleton_self x)).group hproblem
      · exact .tuple hparts hproblem fun x hx => by simpa using fun h => hgroup ⟨x, hx, h⟩
    | array i items =>
      refine .array hparts hproblem (hraw.here.regular hproblem) fun x hx hclean => ?_
      have hx' : x ∈ (Element.array i items).children := hx
      obtain ⟨hvariable, hopen⟩ := evaluate_settled x (hraw.child hx') (Element.hasVariable_child hx' hvariable) hclean
      exact isDecided_of_settled (evaluate_regular x (hraw.child hx')).here hclean hvariable hopen
    | json i entries => exact .json hparts hproblem
    | expression i parts resolved =>
      obtain rfl : resolved = none := hraw.here.pending
      obtain ⟨hne, hlinked⟩ := hraw.here.regular hproblem
      cases parts with
      | nil => exact absurd rfl hne
      | cons first rest => exact .chain hproblem (evaluate_chain settings herrors hvariable) hlinked hparts
    | block i commands text =>
      intro operand
      rw [Element.evaluate, Element.checked?, herrors]
      cases operand <;> rfl

end Trees

/-- **The check of kinds is exact.** A parsed element without mistakes and variables is evaluated without a mistake if
and only if its outline has a kind, which is the kind of its value then. So elements of one outline are accepted or
refused together, with any values, quotes and settings, and have values of one kind. -/
theorem evaluate_typed (settings : Settings) {e : Element} (hparsed : Parsed e) (herrors : e.hasErrors = false)
    (hvariable : e.hasVariable = false) :
    ((e.evaluate settings).hasErrors = false ↔ (e.outline.kind? false).isSome = true) ∧
      (∀ kind, e.outline.kind? false = some kind → (e.evaluate settings).valueKind = kind) ∧
      ∀ (settings' : Settings) (e' : Element), Parsed e' → e'.hasErrors = false → e'.hasVariable = false →
        e'.outline = e.outline →
          (e'.evaluate settings').hasErrors = (e.evaluate settings).hasErrors ∧
            ((e.evaluate settings).hasErrors = false →
              (e'.evaluate settings').valueKind = (e.evaluate settings).valueKind) := by
  have hraw : ∀ {x : Element}, Parsed x → x.Every false Element.Raw := fun hx =>
    hx.asRead.shallow.mono fun _ h => h.toRaw
  have hchecked := evaluate_checked settings e (hraw hparsed) herrors hvariable false
  refine ⟨?_, ?_, ?_⟩
  · rw [← hchecked, Element.checked?]
    cases (e.evaluate settings).hasErrors <;> simp
  · intro kind hkind
    rw [← hchecked, Element.checked?] at hkind
    split at hkind
    · cases hkind
    · exact Option.some.inj hkind
  · intro settings' e' hparsed' herrors' hvariable' houtline
    have hsame := evaluate_checked settings' e' (hraw hparsed') herrors' hvariable' false
    rw [houtline, ← hchecked, Element.checked?, Element.checked?] at hsame
    cases hclean : (e.evaluate settings).hasErrors <;> cases hclean' : (e'.evaluate settings').hasErrors <;>
      simp_all

/-- A chain with groups, containers and strings that are joined on the way. -/
def typedText : String := "[((1 + 2)) * 3, 4] == [5] && (\"a\" + 1 + ('b') == \"c\")"

theorem evaluate_typed_nested :
    (Element.parse typedText).outline.kind? false = some .boolean ∧
      ((Element.parse typedText).evaluate {}).hasErrors = false ∧
      ((Element.parse typedText).evaluate {}).valueKind = .boolean := by
  have hkind : (Element.parse typedText).outline.kind? false = some .boolean := by decide +kernel
  obtain ⟨hiff, hvalue, -⟩ := evaluate_typed {} (e := Element.parse typedText) (Or.inl ⟨_, .self _⟩)
    (by decide +kernel) (by decide +kernel)
  exact ⟨hkind, hiff.mpr (by rw [hkind]; rfl), hvalue _ hkind⟩

end UiScript
