import UiScript.Proofs.Element.Shape
import UiScript.Proofs.Numerals
import UiScript.Proofs.RoundTrip

/-!
# Trees whose text can be read

A tree without places is legible if its canonical text derives it wherever that text stands (`Legible`). Trees that
were read are legible (`Derives.legible`), but a tree can also be put together from other parts: each leaf that is
spelled like a token is legible, and each container of legible parts is, one level up. The text of a legible element is
read as that element (`Legible.parse`).
-/

namespace UiScript.Grammar

open Reading Text

/-- Wherever the text of the tree stands before a stop, it derives the tree. -/
def Legible (form : Form) (n : Nat) (e : Element) : Prop :=
  ∀ text : List Char, Writes text e.text.toList fun ms => Derives (BlockIn .any text) form n ms e

variable {form : Form} {n : Nat} {e : Element}

/-- What was read is legible. -/
theorem Derives.legible {original : List Char} {ms : List Mark} (h : Derives (BlockIn .any original) form n ms e)
    (hvalid : ∀ m ∈ ms, m.1.Valid) : Legible form n e := h.writes hvalid

namespace Legible

theorem derives (h : Legible form n e) :
    Derives (BlockIn .any e.text.toList) form n (marks 0 (scan e.text.toList)) e := (h _).scan

/-- **The text of a legible element is read as that element.** -/
theorem parse (h : Legible .element maxNesting e) : (Element.parse e.text).erase = e :=
  parse_complete (lawfulBlock_blockIn .any _) (blocksComplete_blockIn .any _) h.derives

/-! ## Forms -/

theorem first (h : Legible .operand n e) : Legible .first n e := fun text => (h text).mono fun _ => .operand

theorem element (h : Legible .first n e) : Legible .element n e := fun text => (h text).mono fun _ => .first

/-- An element without operators. -/
theorem first_of_kind (h : Legible .element n e) (hkind : e.kind ≠ .expression) : Legible .first n e := by
  refine fun text => (h text).mono fun ms hms => ?_
  cases hms with
  | first hms => exact hms
  | expression => exact absurd rfl hkind

/-- An element without operators and without a sign. -/
theorem operand_of_kind (h : Legible .element n e) (hkind : e.kind ≠ .expression) (hsign : e.isNegative = false) :
    Legible .operand n e := by
  refine fun text => (h.first_of_kind hkind text).mono fun ms hms => ?_
  cases hms with
  | operand hms => exact hms
  | negative => cases hsign

end Legible

/-! ## Leaves -/

theorem legible_string (value : String) {quote : Char} (hq : quote = '"' ∨ quote = '\'') :
    Legible .operand n (literal (.string value quote)) :=
  fun _ => writes_string hq fun _ _ hk herror => .string hk herror

theorem legible_boolean (b : Bool) : Legible .operand n (literal (.boolean b)) :=
  fun _ => writes_word (isWord_boolText b).1 fun _ _ hk _ => .boolean (hk.trans (isWord_boolText b).2)

theorem legible_ident {name : String} (hword : IsWord name.toList) (hkind : wordKind name.toList = .word) :
    Legible .operand n (literal (.ident name)) := by
  refine fun text => writes_word hword fun t k hk htext => ?_
  subst htext
  exact .ident (hk.trans hkind)

/-- A number is legible with its sign, but then it is no operand. -/
theorem legible_number {digits : String} {float : Bool} (hw : IsNumeral digits.toList)
    (hfloat : float = decide (0 < digits.toList.count '.')) (negative : Bool) :
    Legible .first n (literal (.number digits negative float)) := by
  intro text
  cases negative with
  | false =>
    refine writes_number hw.1 hfloat hw.2 fun t k hk htext herror => ?_
    subst htext
    exact .operand (.number hk herror)
  | true =>
    have htext : (literal (.number digits true float)).text.toList = '-' :: digits.toList := by
      simp [literal, Element.text, Leaf.text, numberText]
    rw [htext]
    refine writes_negative hw.1 hfloat hw.2 fun sign number hsign hk htext herror hnext => ?_
    subst htext
    exact .negative hsign hk herror hnext

/-! ## Containers -/

section Containers

variable {items : List Element}

/-- The tree alone of a piece. -/
def Piece.ofTree (e : Element) : Piece := ⟨[], e⟩

theorem map_tree_ofTree (items : List Element) : (items.map Piece.ofTree).map Piece.tree = items := by
  simp [Function.comp_def, Piece.ofTree]

theorem legible_tuple (trailing : Bool) (h : ∀ e ∈ items, Legible .element n e) :
    Legible .operand (n + 1) (.tuple (.blank none) items (trailing && items.length == 1)) := by
  intro text
  rw [← map_tree_ofTree items, List.length_map]
  exact writes_tuple (List.forall_mem_map.mpr fun e he => h e he text)

/-- Legible items are of one kind if no mistake is found among them. -/
theorem uniform_of_legible (h : ∀ e ∈ items, Legible .element n e) (hkinds : mixedKinds? items = none) :
    Uniform items :=
  (mixedKinds?_eq_none fun e he => (h e he).derives.isDecided_iff (lawfulBlock_blockIn .any _)).mp hkinds

theorem legible_array (h : ∀ e ∈ items, Legible .element n e) (hkinds : mixedKinds? items = none) :
    Legible .operand (n + 1) (.array (.blank none) items) := by
  intro text
  have huniform := uniform_of_legible h hkinds
  rw [← map_tree_ofTree items] at huniform ⊢
  exact writes_array huniform (List.forall_mem_map.mpr fun e he => h e he text)

/-- A dictionary, given by the keys and the values of its entries. -/
theorem legible_json {α : Type} {entries : List α} (key value : α → Element)
    (hkinds : ∀ a ∈ entries, (key a).kind = .string) (hkeys : ∀ a ∈ entries, Legible .element n (key a))
    (hvalues : ∀ a ∈ entries, Legible .element n (value a)) :
    Legible .operand (n + 1) (.json (.blank none) (entries.map fun a => .pair (key a) (value a))) := by
  intro text
  have hkeyed : (entries.map fun a => Entry.pair (key a) (value a)) =
      (entries.map fun a => (⟨.ofTree (key a), default, .ofTree (value a)⟩ : Keyed)).map Keyed.entry := by
    simp [Function.comp_def, Keyed.entry, Piece.ofTree]
  rw [hkeyed]
  refine writes_json (List.forall_mem_map.mpr fun a ha => Or.inl (hkinds a ha)) (List.forall_mem_map.mpr fun a ha => ?_)
    (List.forall_mem_map.mpr fun a ha => hvalues a ha text)
  refine (hkeys a ha text).mono fun ms hms => hms.operand_of_kind (Or.inl (hkinds a ha))

end Containers

/-! ## Chains -/

/-- The parts of a chain after the first operand: operators, each with the operand after it. -/
def chained (links : List (Operator × Element)) : List Element := links.flatMap fun l => [literal (.operator l.1), l.2]

theorem legible_expression {links : List (Operator × Element)} (hfirst : Legible .first n e) (hne : links ≠ [])
    (hrights : ∀ l ∈ links, Legible .operand n l.2) :
    Legible .element n (.expression (.blank none) (e :: chained links) none) := by
  intro text
  have hlinks : chained links = (links.map fun l => (⟨default, l.1, .ofTree l.2⟩ : Link)).flatMap Link.parts := by
    simp [chained, List.flatMap_map, Link.parts, Piece.ofTree]
  rw [hlinks]
  exact writes_expression (by simpa using hne) (hfirst text) (List.forall_mem_map.mpr fun l hl => hrights l hl text)

end UiScript.Grammar
