import UiScript.Proofs.Equality.Dictionaries
import UiScript.Proofs.Folding
import UiScript.Proofs.Grammar.Legible
import UiScript.Proofs.Reparsing

/-!
# Equations between containers

An equation between two containers that are written out can be written down, and evaluation replaces it by its truth
value (`Constant.decides`). The laws of the two equalities are so laws of what a script says. For tuples and arrays
they are the laws of an equivalence (`equations_equivalence`); for dictionaries they hold where no dictionary repeats a
key (`equations_dictionaries`), and not otherwise (`equation_repeated_key`).

A tuple of one item without a trailing comma is a group: as an operand it is what stands in its parentheses. So the
kind of a container is that of the element inside the parentheses around it (`Element.unwrap`), and an equation between
groups of other elements need not have a truth value (`equation_group`).
-/

namespace UiScript

open Grammar

/-- The equation between two elements, before it is evaluated. -/
def equation (a b : Element) : Element := .expression (.blank none) [a, literal (.operator .equal), b] none

/-- The equation can be written down, and wherever its parts stand, evaluation replaces it by a truth value. -/
structure Decides (settings : Settings) (a b : Element) (value : Bool) : Prop where
  written : (Element.parse (a.text ++ " == " ++ b.text)).erase = (equation a b).erase
  settled : ∀ e : Element, e.erase = (equation a b).erase → e.evaluate settings = .leaf e.info (.boolean value)

/-- A container that is read from a text without a mistake and written out in full, in parentheses or not. -/
structure Constant (kind : Kind) (e : Element) : Prop where
  read : ∃ text, e = Element.parse text
  clean : e.hasErrors = false
  literal : e.isLiteral = true
  kind : e.unwrap.kind = kind

/-! ## Other places -/

section Relabelling

variable {ρ : Relabel}

/-- Only a tuple of one item can be a group. -/
theorem unwrap_tuple {i : Info} {items : List Element} {trailing : Bool} (h : items.length ≠ 1) :
    (Element.tuple i items trailing).unwrap = .tuple i items trailing := by
  cases trailing with
  | true => rfl
  | false =>
    rcases items with _ | ⟨x, _ | ⟨y, items⟩⟩
    · rfl
    · exact absurd rfl h
    · rfl

/-- A group stays a group. -/
theorem Element.relabel_unwrap (e : Element) : (e.relabel ρ).unwrap = e.unwrap.relabel ρ := by
  induction e using Element.byChildren with
  | h e ih =>
    cases e with
    | tuple i items trailing =>
      by_cases hone : items.length = 1
      · obtain ⟨x, rfl⟩ := List.length_eq_one_iff.mp hone
        simp only [Element.relabel, relabelAll, List.length_singleton, ρ.comma_one]
        cases trailing with
        | true => simp only [Element.unwrap, Element.relabel, relabelAll, List.length_singleton, ρ.comma_one]
        | false => exact ih x (List.mem_singleton_self x)
      · rw [unwrap_tuple hone]
        simp only [Element.relabel]
        exact unwrap_tuple (by simpa using hone)
    | _ => rfl

end Relabelling

/-! ## Settling an equation -/

section Settling

variable {settings : Settings} {a b e : Element} {kind : Kind}

/-- Two containers of one kind that are written out are compared at once. -/
theorem combine_compared {i : Info} {left right : Operand} {op : Operator} (hop : op = .equal ∨ op = .unequal)
    (hsame : left.kind = right.kind) (hkind : left.kind.IsCollection) (ha : left.value = some a)
    (hb : right.value = some b) :
    combine settings i left op right = .ok (.ofLeaf i (.boolean (comparison op left.kind a b))) := by
  have hresult : op.result? left.kind right.kind = some .boolean := by
    rcases hop with rfl | rfl <;> exact if_pos hsame
  have hcombines := @combine_combines i left right op settings
  generalize combine settings i left op right = outcome at hcombines
  cases hcombines with
  | refused h => cases h.symm.trans hresult
  | joined h _ _ => cases h.symm.trans hresult
  | compared _ _ _ ha' hb' =>
    obtain rfl := Option.some.inj (ha'.symm.trans ha)
    obtain rfl := Option.some.inj (hb'.symm.trans hb)
    rfl
  | computed _ _ hcompare =>
    rcases hcompare hop hkind with hnone | hnone
    · cases hnone.symm.trans ha
    · cases hnone.symm.trans hb

/-- What has the erasure of an equation is that equation, somewhere. -/
theorem eq_equation_of_erase (h : e.erase = (equation a b).erase) :
    ∃ (i j : Info) (a' b' : Element), e = .expression i [a', .leaf j (.operator .equal), b'] none ∧
      a'.erase = a.erase ∧ b'.erase = b.erase := by
  cases e with
  | expression i parts resolved =>
    rw [Element.erase_expression, equation, Element.erase_expression] at h
    obtain ⟨-, hparts, rfl⟩ := Element.expression.inj h
    obtain ⟨a', rest, rfl, ha, hrest⟩ := List.map_eq_cons_iff.mp hparts
    obtain ⟨sign, rest, rfl, hsign, hrest⟩ := List.map_eq_cons_iff.mp hrest
    obtain ⟨b', rest, rfl, hb, hrest⟩ := List.map_eq_cons_iff.mp hrest
    obtain rfl := List.map_eq_nil_iff.mp hrest
    obtain ⟨j, rfl, -⟩ := eq_leaf_of_erase (l := .operator .equal) hsign
    exact ⟨i, j, a', b', rfl, ha, hb⟩
  | _ => cases h

theorem unwrap_isLiteral (h : e.isLiteral = true) : e.unwrap.isLiteral = true :=
  (occurs_unwrap e).keeps (fun hc h => isLiteral_child h hc) h

/-- The operand that an element is, read off the same element elsewhere. -/
theorem ofElement_of_erase (h : e.erase = a.erase) (ha : a.isLiteral = true) :
    e.isLiteral = true ∧ e.unwrap.erase = a.unwrap.erase ∧ (Operand.ofElement e).kind = a.unwrap.kind ∧
      (Operand.ofElement e).value = some e.unwrap := by
  have hliteral : e.isLiteral = a.isLiteral := by
    simpa only [Element.relabel_isLiteral] using congrArg Element.isLiteral h
  have hinner : e.unwrap.erase = a.unwrap.erase := by
    simpa only [Element.relabel_unwrap] using congrArg Element.unwrap h
  have hkind : e.unwrap.kind = a.unwrap.kind := by
    simpa only [Element.relabel_kind] using congrArg Element.kind hinner
  rw [ha] at hliteral
  refine ⟨hliteral, hinner, ?_, ?_⟩
  · rw [ofElement_kind_eq (kind_of_isLiteral (unwrap_isLiteral hliteral)), hkind]
  · rw [ofElement_value, if_pos (unwrap_isLiteral hliteral)]

/-- Places play no part in a comparison. -/
theorem comparison_congr {a' b' : Element} (op : Operator) (kind : Kind) (ha : a'.erase = a.erase)
    (hb : b'.erase = b.erase) : comparison op kind a' b' = comparison op kind a b := by
  rw [comparison, comparison, looseEq_congr ha hb,
    strictEq_congr (Element.content_eq_of_erase_eq ha) (Element.content_eq_of_erase_eq hb)]

theorem comparison_equal (kind : Kind) (a b : Element) :
    comparison .equal kind a b = if kind = .json then a.looseEq b else a.strictEq b := Bool.bne_false _

/-- **Evaluation settles an equation between containers that are written out.** -/
theorem evaluate_equation (ha : a.isLiteral = true) (hb : b.isLiteral = true) (hea : a.hasErrors = false)
    (heb : b.hasErrors = false) (hkind : a.unwrap.kind.IsCollection) (hsame : a.unwrap.kind = b.unwrap.kind)
    (he : e.erase = (equation a b).erase) :
    e.evaluate settings = .leaf e.info (.boolean (comparison .equal a.unwrap.kind a.unwrap b.unwrap)) := by
  have herrors : e.hasErrors = false := by
    rw [Element.hasErrors_eq_of_erase_eq he]
    simp [equation, Element.hasErrors, hea, heb, Info.blank, literal]
  obtain ⟨i, j, a', b', rfl, ha', hb'⟩ := eq_equation_of_erase he
  obtain ⟨hla, hinnera, hkinda, hvaluea⟩ := ofElement_of_erase ha' ha
  obtain ⟨hlb, hinnerb, hkindb, hvalueb⟩ := ofElement_of_erase hb' hb
  have hvariable : (Element.expression i [a', .leaf j (.operator .equal), b'] none).hasVariable = false := by
    simp [Element.hasVariable, (isLiteral_settled a' hla).1, (isLiteral_settled b' hlb).1]
  have hparts : anyErrors [a', .leaf j (.operator .equal), b'] = false := by
    rw [Element.hasErrors, Bool.or_eq_false_iff] at herrors
    exact herrors.2
  have hstep : combine settings i (.ofElement a') .equal (.ofElement b') =
      .ok (.ofLeaf i (.boolean (comparison .equal a.unwrap.kind a.unwrap b.unwrap))) := by
    rw [combine_compared (Or.inl rfl) (hkinda.trans (hsame.trans hkindb.symm)) (hkinda ▸ hkind) hvaluea hvalueb,
      hkinda, comparison_congr .equal _ hinnera hinnerb]
  rw [evaluate_chain settings herrors hvariable, List.map_cons, List.map_cons, List.map_cons, List.map_nil,
    evaluate_of_hasUnresolved (isLiteral_settled a' hla).2, evaluate_leaf,
    evaluate_of_hasUnresolved (isLiteral_settled b' hlb).2, resolveChain, hparts]
  simp only [foldChain, hstep]
  rfl

end Settling

/-! ## Writing an equation -/

section Writing

variable {settings : Settings} {a b : Element} {kind : Kind}

theorem equation_text (a b : Element) : (equation a b).text = a.text ++ " == " ++ b.text := by
  have hsign : " " ++ (Operator.equal.text ++ " ") = " == " := by decide
  rw [← hsign]
  simp [equation, literal, Element.text, Leaf.text, String.append_assoc]

/-- What is read from a text without a mistake is legible. -/
theorem parse_legible {text : String} (h : (Element.parse text).hasErrors = false) :
    Legible .element maxNesting (Element.parse text).erase := by
  have hderives := parse_sound (lawfulBlock_blockIn .any text.toList) (blocksSound_blockIn .any text.toList) h
  exact hderives.legible fun m hm => scan_valid _ _ (mem_of_mem_marks hm)

theorem Constant.first (h : Constant kind a) : Legible .first maxNesting a.erase := by
  obtain ⟨text, rfl⟩ := h.read
  refine (parse_legible h.clean).first_of_kind ?_
  rw [Element.relabel_kind]
  exact kind_of_isLiteral h.literal

theorem Constant.operand (hkind : kind.IsCollection) (h : Constant kind a) : Legible .operand maxNesting a.erase := by
  have hsign : a.isNegative = false := by
    have hnumber : a.kind ≠ .number := by
      intro hnumber
      have hinner := h.kind
      rw [unwrap_of_kind (by rw [hnumber]; decide), hnumber] at hinner
      subst hinner
      simp [Kind.IsCollection] at hkind
    cases a with
    | leaf i l => cases l <;> first | rfl | exact absurd rfl hnumber
    | _ => rfl
  obtain ⟨text, rfl⟩ := h.read
  refine (parse_legible h.clean).operand_of_kind ?_ ?_
  · rw [Element.relabel_kind]
    exact kind_of_isLiteral h.literal
  · rw [Element.relabel_isNegative, hsign]

/-- What can be computed of a constant: that it has no mistake, is written out in full and has the kind. -/
def Element.isConstant (kind : Kind) (e : Element) : Bool := !e.hasErrors && e.isLiteral && e.unwrap.kind == kind

theorem constant_parse {text : String} (h : (Element.parse text).isConstant kind = true) :
    Constant kind (Element.parse text) := by
  rw [Element.isConstant, Bool.and_eq_true, Bool.and_eq_true, Bool.not_eq_true', beq_iff_eq] at h
  exact ⟨⟨text, rfl⟩, h.1.1, h.1.2, h.2⟩

/-- What stands in the parentheses around a container was read from a text. -/
theorem Constant.parsed (h : Constant kind a) : Parsed a.unwrap := by
  obtain ⟨text, rfl⟩ := h.read
  exact Or.inl ⟨text, (occurs_unwrap _).deepen⟩

/-- **An equation between containers that are written out has a truth value.** -/
theorem Constant.decides {value : Bool} (hkind : kind.IsCollection) (ha : Constant kind a) (hb : Constant kind b)
    (hvalue : comparison .equal kind a.unwrap b.unwrap = value) : Decides settings a b value where
  written := by
    have hchain : (equation a b).erase =
        .expression (.blank none) (a.erase :: chained [(.equal, b.erase)]) none := rfl
    have hlegible : Legible .element maxNesting (equation a b).erase := by
      rw [hchain]
      exact legible_expression ha.first (List.cons_ne_nil _ _) (List.forall_mem_singleton.mpr (hb.operand hkind))
    have hparse := hlegible.parse
    rwa [Element.relabel_text, equation_text] at hparse
  settled e he := by
    have hcollection : a.unwrap.kind.IsCollection := by rw [ha.kind]; exact hkind
    rw [evaluate_equation ha.literal hb.literal ha.clean hb.clean hcollection (ha.kind.trans hb.kind.symm) he, ha.kind,
      hvalue]

/-- An equation has one truth value. -/
theorem Decides.unique {value value' : Bool} (h : Decides settings a b value) (h' : Decides settings a b value') :
    value = value' := by
  have hleaf := (h.settled _ rfl).symm.trans (h'.settled _ rfl)
  injection hleaf with _ hleaf
  injection hleaf

end Writing

/-! ## Dictionaries -/

/-- The names of the entries of a dictionary. -/
def Element.names : Element → List String
  | .json _ entries => entries.map Entry.name
  | _ => []

section Laws

variable {a b : Element}

/-- **Equations between dictionaries.** Let two dictionaries be read without a mistake and written out in full, and let
neither of them, nor a dictionary in their values, repeat a key. Each is equal to itself, the equation between them has
one truth value from both sides, and if they are equal they have the same keys. -/
theorem equations_dictionaries (settings : Settings) (ha : Constant .json a) (hb : Constant .json b)
    (hka : a.unwrap.wellKeyed = true) (hkb : b.unwrap.wellKeyed = true) :
    Decides settings a a true ∧
      ∃ value, Decides settings a b value ∧ Decides settings b a value ∧
        (value = true → ∀ name, name ∈ a.unwrap.names ↔ name ∈ b.unwrap.names) := by
  have hjson : Kind.json.IsCollection := Or.inr (Or.inr rfl)
  have hloose : ∀ x y, comparison .equal .json x y = x.looseEq y := fun x y => comparison_equal .json x y
  have hself : Decides settings a a true := ha.decides hjson ha ((hloose _ _).trans (looseEq_self _ hka))
  have hforth : Decides settings a b _ := ha.decides hjson hb (hloose _ _)
  have hback : Decides settings b a _ := hb.decides hjson ha ((hloose _ _).trans (looseEq_comm hkb hka))
  refine ⟨hself, _, hforth, hback, fun hequal name => ?_⟩
  obtain ⟨i, xs, hxs⟩ := exists_json ha.kind
  obtain ⟨j, ys, hys⟩ := exists_json hb.kind
  rw [hxs] at hka hequal ⊢
  rw [hys] at hkb hequal ⊢
  exact (names_perm_of_looseEq (wellKeyed_json_iff.mp hka).1 (wellKeyed_json_iff.mp hkb).1 hequal).mem_iff

/-- A dictionary with a dictionary in it, in one order. -/
def orderedText : String := "\x7b\"a\": [1], 'b': \x7b\"c\": x, \"d\": 2\x7d\x7d"

/-- The same dictionary in another order. -/
def reorderedText : String := "\x7b'b': \x7b'd': 2, 'c': x,\x7d, 'a': [1]\x7d"

theorem equations_dictionaries_reordered :
    Constant .json (Element.parse orderedText) ∧ Constant .json (Element.parse reorderedText) ∧
      (Element.parse orderedText).unwrap.wellKeyed = true ∧ (Element.parse reorderedText).unwrap.wellKeyed = true ∧
      Decides {} (Element.parse orderedText) (Element.parse orderedText) true ∧
      ∃ value, Decides {} (Element.parse orderedText) (Element.parse reorderedText) value ∧
        Decides {} (Element.parse reorderedText) (Element.parse orderedText) value ∧
        (value = true → ∀ name, name ∈ (Element.parse orderedText).unwrap.names ↔
          name ∈ (Element.parse reorderedText).unwrap.names) := by
  have ha : (Element.parse orderedText).isConstant .json = true ∧
      (Element.parse orderedText).unwrap.wellKeyed = true := by decide +kernel
  have hb : (Element.parse reorderedText).isConstant .json = true ∧
      (Element.parse reorderedText).unwrap.wellKeyed = true := by decide +kernel
  exact ⟨constant_parse ha.1, constant_parse hb.1, ha.2, hb.2,
    equations_dictionaries {} (constant_parse ha.1) (constant_parse hb.1) ha.2 hb.2⟩

/-- A dictionary of two entries, the first of them with the key `a` and the value `1`. -/
def pairText (key value : String) : String := "\x7b\"a\": 1, \"" ++ key ++ "\": " ++ value ++ "\x7d"

/-- Where a key is repeated, a dictionary need not be equal to itself, and dictionaries with different keys can be equal
from one side. -/
theorem equation_repeated_key :
    (Constant .json (Element.parse (pairText "a" "1")) ∧ Constant .json (Element.parse (pairText "a" "2")) ∧
      Constant .json (Element.parse (pairText "b" "1"))) ∧
      Decides {} (Element.parse (pairText "a" "2")) (Element.parse (pairText "a" "2")) false ∧
      Decides {} (Element.parse (pairText "a" "1")) (Element.parse (pairText "b" "1")) true ∧
      Decides {} (Element.parse (pairText "b" "1")) (Element.parse (pairText "a" "1")) false ∧
      "b" ∉ (Element.parse (pairText "a" "1")).names ∧ "b" ∈ (Element.parse (pairText "b" "1")).names := by
  have hself : (Element.parse (pairText "a" "2")).isConstant .json = true ∧
      comparison .equal .json (Element.parse (pairText "a" "2")).unwrap
        (Element.parse (pairText "a" "2")).unwrap = false := by decide +kernel
  have hother : ((Element.parse (pairText "a" "1")).isConstant .json = true ∧
      (Element.parse (pairText "b" "1")).isConstant .json = true) ∧
      comparison .equal .json (Element.parse (pairText "a" "1")).unwrap
        (Element.parse (pairText "b" "1")).unwrap = true ∧
      comparison .equal .json (Element.parse (pairText "b" "1")).unwrap
        (Element.parse (pairText "a" "1")).unwrap = false ∧
      "b" ∉ (Element.parse (pairText "a" "1")).names ∧ "b" ∈ (Element.parse (pairText "b" "1")).names := by
    decide +kernel
  obtain ⟨⟨ha, hb⟩, hforth, hback, hnames⟩ := hother
  have hjson : Kind.json.IsCollection := Or.inr (Or.inr rfl)
  exact ⟨⟨constant_parse ha, constant_parse hself.1, constant_parse hb⟩,
    (constant_parse hself.1).decides hjson (constant_parse hself.1) hself.2,
    (constant_parse ha).decides hjson (constant_parse hb) hforth,
    (constant_parse hb).decides hjson (constant_parse ha) hback, hnames⟩

/-! ## Tuples and arrays -/

/-- **Equations between tuples and between arrays.** Equality part by part is an equivalence of the elements without an
undefined number, and no text is read as such a number. So for tuples, and for arrays, that are read without a mistake
and written out in full, each is equal to itself, the equation between two of them has one truth value from both sides,
and what is equal to a third by way of a second is equal to it. -/
theorem equations_equivalence (settings : Settings) :
    ((∀ a : Element, Parsed a → a.content.defined = true) ∧
      (∀ a : Element, a.strictEq a = true ↔ a.content.defined = true) ∧
      (∀ a b : Element, a.strictEq b = b.strictEq a) ∧
      ∀ a b c : Element, a.strictEq b = true → b.strictEq c = true → a.strictEq c = true) ∧
      ∀ kind, kind = .tuple ∨ kind = .array → ∀ a b c, Constant kind a → Constant kind b → Constant kind c →
        Decides settings a a true ∧ (∃ value, Decides settings a b value ∧ Decides settings b a value) ∧
          (Decides settings a b true → Decides settings b c true → Decides settings a c true) := by
  refine ⟨⟨fun a ha => ha.content_defined, strictEq_self_iff, strictEq_comm, fun a b c => strictEq_trans⟩, ?_⟩
  intro kind hkind a b c ha hb hc
  have hcollection : kind.IsCollection := by
    rcases hkind with rfl | rfl
    · exact Or.inl rfl
    · exact Or.inr (Or.inl rfl)
  have hstrict : ∀ x y, comparison .equal kind x y = x.strictEq y := by
    intro x y
    rcases hkind with rfl | rfl <;> exact comparison_equal _ x y
  have hself : a.unwrap.strictEq a.unwrap = true := (strictEq_self_iff _).mpr ha.parsed.content_defined
  have hforth : Decides settings a b _ := ha.decides hcollection hb (hstrict _ _)
  have hnext : Decides settings b c _ := hb.decides hcollection hc (hstrict _ _)
  refine ⟨ha.decides hcollection ha ((hstrict _ _).trans hself), ⟨_, hforth, ?_⟩, fun hab hbc => ?_⟩
  · exact hb.decides hcollection ha ((hstrict _ _).trans (strictEq_comm _ _))
  · have htrans := strictEq_trans (hforth.unique hab) (hnext.unique hbc)
    exact ha.decides hcollection hc ((hstrict _ _).trans htrans)

/-- A tuple with numbers that can be written in several ways. -/
def spelledText (one zero : String) : String := "([" ++ one ++ ", 2], \x7b'k': " ++ zero ++ "\x7d)"

theorem equations_equivalence_spelled :
    (Constant .tuple (Element.parse (spelledText "1" "-0")) ∧ Constant .tuple (Element.parse (spelledText "1.0" "0")) ∧
      Constant .tuple (Element.parse (spelledText "01" "0.0"))) ∧
      (Parsed (Element.parse (spelledText "1" "-0")) ∧
        (Element.parse (spelledText "1" "-0")).content.defined = true) ∧
      Decides {} (Element.parse (spelledText "1" "-0")) (Element.parse (spelledText "1.0" "0")) true ∧
      Decides {} (Element.parse (spelledText "1.0" "0")) (Element.parse (spelledText "01" "0.0")) true ∧
      Decides {} (Element.parse (spelledText "1" "-0")) (Element.parse (spelledText "01" "0.0")) true := by
  have hchecks : ((Element.parse (spelledText "1" "-0")).isConstant .tuple = true ∧
      (Element.parse (spelledText "1.0" "0")).isConstant .tuple = true ∧
      (Element.parse (spelledText "01" "0.0")).isConstant .tuple = true) ∧
      comparison .equal .tuple (Element.parse (spelledText "1" "-0")).unwrap
        (Element.parse (spelledText "1.0" "0")).unwrap = true ∧
      comparison .equal .tuple (Element.parse (spelledText "1.0" "0")).unwrap
        (Element.parse (spelledText "01" "0.0")).unwrap = true := by decide +kernel
  obtain ⟨⟨ha, hb, hc⟩, hab, hbc⟩ := hchecks
  have htuple : Kind.tuple.IsCollection := Or.inl rfl
  have hforth : Decides {} _ _ true := (constant_parse ha).decides htuple (constant_parse hb) hab
  have hnext : Decides {} _ _ true := (constant_parse hb).decides htuple (constant_parse hc) hbc
  have hparsed : Parsed (Element.parse (spelledText "1" "-0")) := Or.inl ⟨_, .self _⟩
  obtain ⟨⟨hdefined, -, -, -⟩, hlaws⟩ := equations_equivalence {}
  obtain ⟨-, -, htrans⟩ := hlaws .tuple (Or.inl rfl) _ _ _ (constant_parse ha) (constant_parse hb) (constant_parse hc)
  exact ⟨⟨constant_parse ha, constant_parse hb, constant_parse hc⟩, ⟨hparsed, hdefined _ hparsed⟩, hforth, hnext,
    htrans hforth hnext⟩

/-- A group is no container: the equation between two groups of one number stays an expression. -/
theorem equation_group :
    (Element.parse "(1)").hasErrors = false ∧ (Element.parse "(1)").isLiteral = true ∧
      (Element.parse "(1)").kind = .tuple ∧ ((Element.parse "(1) == (1)").evaluate {}).kind = .expression ∧
      ∀ value, ¬Decides {} (Element.parse "(1)") (Element.parse "(1)") value := by
  have hgroup : ((Element.parse "(1)").hasErrors = false ∧ (Element.parse "(1)").isLiteral = true ∧
      (Element.parse "(1)").kind = .tuple) ∧ (Element.parse "(1)").text = "(1)" := by decide +kernel
  have hkind : ((Element.parse "(1) == (1)").evaluate {}).kind = .expression := by decide +kernel
  have hequation : "(1)" ++ " == " ++ "(1)" = "(1) == (1)" := by decide
  obtain ⟨⟨herrors, hliteral, htuple⟩, htext⟩ := hgroup
  refine ⟨herrors, hliteral, htuple, hkind, fun value h => ?_⟩
  have hwritten := h.written
  rw [htext, hequation] at hwritten
  rw [h.settled _ hwritten] at hkind
  cases hkind

end Laws

end UiScript
