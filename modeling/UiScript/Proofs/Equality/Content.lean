import UiScript.Equality
import UiScript.Proofs.Combining
import UiScript.Proofs.Element.Relabel
import UiScript.Proofs.Reading.Regular

/-!
# What equality part by part sees

Equality part by part sees the kinds of an element's parts, the values of its numbers and the string values of all other
scalars: its content (`Element.content`). Two elements are equal if and only if they have one content and no number in
it is undefined (`strictEq_iff`). So the laws of equality hold of all elements, except that an undefined number is not
even equal to itself; where an element was read from a text, there is no such number (`Parsed.content_defined`).
-/

namespace UiScript

open Text

/-! ## Contents -/

namespace Binary64

/-- The value with both zeros taken as one. -/
def unifyZero : Binary64 → Binary64
  | finite _ 0 _ => finite false 0 0
  | x => x

theorem unifyZero_eq_nan {x : Binary64} : x.unifyZero = nan ↔ x = nan := by
  cases x with
  | finite s m e => cases m <;> simp [unifyZero]
  | _ => simp [unifyZero]

/-- Values are the same if they differ in the sign of zero at most and are defined. -/
theorem same_iff {x y : Binary64} : x.same y = true ↔ x.unifyZero = y.unifyZero ∧ x.unifyZero ≠ nan := by
  cases x with
  | nan => simp [same, unifyZero]
  | infinity s =>
    cases y with
    | finite s' m' e' => cases m' <;> simp [same, unifyZero]
    | _ => simp [same, unifyZero]
  | finite s m e =>
    cases y with
    | finite s' m' e' =>
      cases m with
      | zero => cases m' <;> simp [same, unifyZero]
      | succ m => cases m' <;> simp [same, unifyZero, and_assoc]
    | _ => cases m <;> simp [same, unifyZero]

end Binary64

mutual

/-- What is seen of an element. -/
inductive Content where
  | number (value : Option Binary64)
  | scalar (kind : Kind) (text : String)
  | tuple (items : List Content)
  | array (items : List Content)
  | json (entries : List EntryContent)

/-- What is seen of an entry. -/
inductive EntryContent where
  | pair (key value : Content)
  | bare (key : Content)

end

mutual

/-- The content of an element. -/
def Element.content : Element → Content
  | .leaf i (.number digits negative float) =>
    .number ((Element.leaf i (.number digits negative float)).numberValue?.map Binary64.unifyZero)
  | .tuple _ items _ => .tuple (contentsOf items)
  | .array _ items => .array (contentsOf items)
  | .json _ entries => .json (entryContents entries)
  | e => .scalar e.kind e.stringValue

/-- The contents of several elements. -/
def contentsOf : List Element → List Content
  | [] => []
  | e :: es => e.content :: contentsOf es

/-- The content of an entry. -/
def Entry.content : Entry → EntryContent
  | .pair k v => .pair k.content v.content
  | .bare k => .bare k.content

/-- The contents of several entries. -/
def entryContents : List Entry → List EntryContent
  | [] => []
  | p :: ps => p.content :: entryContents ps

end

mutual

/-- Whether all numbers are defined. -/
def Content.defined : Content → Bool
  | .number value => value != some .nan
  | .scalar .. => true
  | .tuple items => allDefined items
  | .array items => allDefined items
  | .json entries => allEntriesDefined entries

/-- Whether all numbers of several contents are defined. -/
def allDefined : List Content → Bool
  | [] => true
  | c :: cs => c.defined && allDefined cs

/-- Whether all numbers of an entry are defined. -/
def EntryContent.defined : EntryContent → Bool
  | .pair k v => k.defined && v.defined
  | .bare k => k.defined

/-- Whether all numbers of several entries are defined. -/
def allEntriesDefined : List EntryContent → Bool
  | [] => true
  | c :: cs => c.defined && allEntriesDefined cs

end

/-- The kind of elements that have a content. -/
def Content.kind : Content → Kind
  | .number _ => .number
  | .scalar kind _ => kind
  | .tuple _ => .tuple
  | .array _ => .array
  | .json _ => .json

theorem Element.content_kind (e : Element) : e.content.kind = e.kind := by
  cases e with
  | leaf i l => cases l <;> simp only [Element.content, Content.kind, Element.kind, Leaf.kind]
  | _ => simp only [Element.content, Content.kind, Element.kind]

/-! ## Lists -/

@[simp] theorem contentsOf_eq_map (es : List Element) : contentsOf es = es.map Element.content := by
  induction es with
  | nil => rfl
  | cons e es ih => rw [contentsOf, ih, List.map_cons]

@[simp] theorem entryContents_eq_map (es : List Entry) : entryContents es = es.map Entry.content := by
  induction es with
  | nil => rfl
  | cons e es ih => rw [entryContents, ih, List.map_cons]

@[simp] theorem allDefined_eq_all (cs : List Content) : allDefined cs = cs.all Content.defined := by
  induction cs with
  | nil => rfl
  | cons c cs ih => rw [allDefined, ih, List.all_cons]

@[simp] theorem allEntriesDefined_eq_all (cs : List EntryContent) :
    allEntriesDefined cs = cs.all EntryContent.defined := by
  induction cs with
  | nil => rfl
  | cons c cs ih => rw [allEntriesDefined, ih, List.all_cons]

/-! ## Equality by contents -/

section Contents

variable {a b : Element}

theorem strictEq_of_kind_ne (h : a.kind ≠ b.kind) : a.strictEq b = false := by
  unfold Element.strictEq
  split
  · exact absurd rfl h
  · exact absurd rfl h
  · exact absurd rfl h
  · exact absurd rfl h
  · rw [beq_eq_false_iff_ne.mpr h, Bool.false_and]

/-- Elements of different kinds have different contents, and are not equal. -/
theorem strictEq_iff_of_kind_ne (h : a.kind ≠ b.kind) :
    a.strictEq b = true ↔ a.content = b.content ∧ a.content.defined = true := by
  have hcontent : a.content ≠ b.content := fun heq => h (by rw [← a.content_kind, heq, b.content_kind])
  rw [strictEq_of_kind_ne h]
  exact iff_of_false Bool.false_ne_true fun hsame => hcontent hsame.1

/-- Scalars other than numbers are compared by their string values. -/
theorem strictEq_iff_of_scalar (ha : a.content = .scalar a.kind a.stringValue)
    (hb : b.content = .scalar b.kind b.stringValue)
    (h : a.strictEq b = (a.kind == b.kind && a.stringValue == b.stringValue)) :
    a.strictEq b = true ↔ a.content = b.content ∧ a.content.defined = true := by
  rw [h, ha, hb, Bool.and_eq_true, beq_iff_eq, beq_iff_eq, Content.scalar.injEq, Content.defined, and_iff_left rfl]

theorem sameNumber_iff {x y : Option Binary64} :
    sameNumber x y = true ↔
      x.map Binary64.unifyZero = y.map Binary64.unifyZero ∧ x.map Binary64.unifyZero ≠ some .nan := by
  cases x with
  | none => cases y <;> simp [sameNumber]
  | some x =>
    cases y with
    | none => simp [sameNumber]
    | some y => simp [sameNumber, Binary64.same_iff]

theorem strictEq_iff_of_leaf (i j : Info) (l l' : Leaf) :
    (Element.leaf i l).strictEq (.leaf j l') = true ↔
      (Element.leaf i l).content = (Element.leaf j l').content ∧ (Element.leaf i l).content.defined = true := by
  by_cases hk : l.kind = l'.kind
  · cases l with
    | number digits negative float =>
      cases l' with
      | number digits' negative' float' =>
        rw [Element.strictEq, sameNumber_iff, Element.content, Element.content, Content.number.injEq,
          Content.defined, bne_iff_ne]
      | _ => cases hk
    | _ =>
      cases l' with
      | number digits' negative' float' => cases hk
      | _ =>
        apply strictEq_iff_of_scalar
        · simp only [Element.content]
        · simp only [Element.content]
        · simp only [Element.strictEq]
  · exact strictEq_iff_of_kind_ne hk

mutual

/-- **Two elements are equal if and only if they have one content, whose numbers are all defined.** -/
theorem strictEq_iff : (a b : Element) →
    (a.strictEq b = true ↔ a.content = b.content ∧ a.content.defined = true)
  | .leaf i l, b => by
    cases b with
    | leaf j l' => exact strictEq_iff_of_leaf i j l l'
    | _ => exact strictEq_iff_of_kind_ne (by cases l <;> simp [Element.kind, Leaf.kind])
  | .tuple i xs t, b => by
    cases b with
    | tuple j ys t' =>
      rw [Element.strictEq, strictEqAll_iff xs ys, Element.content, Element.content, Content.tuple.injEq,
        Content.defined]
    | leaf j l => exact strictEq_iff_of_kind_ne (by cases l <;> simp [Element.kind, Leaf.kind])
    | _ => exact strictEq_iff_of_kind_ne (by simp [Element.kind])
  | .array i xs, b => by
    cases b with
    | array j ys =>
      rw [Element.strictEq, strictEqAll_iff xs ys, Element.content, Element.content, Content.array.injEq,
        Content.defined]
    | leaf j l => exact strictEq_iff_of_kind_ne (by cases l <;> simp [Element.kind, Leaf.kind])
    | _ => exact strictEq_iff_of_kind_ne (by simp [Element.kind])
  | .json i xs, b => by
    cases b with
    | json j ys =>
      rw [Element.strictEq, strictEqEntries_iff xs ys, Element.content, Element.content, Content.json.injEq,
        Content.defined]
    | leaf j l => exact strictEq_iff_of_kind_ne (by cases l <;> simp [Element.kind, Leaf.kind])
    | _ => exact strictEq_iff_of_kind_ne (by simp [Element.kind])
  | .expression i parts r, b => by
    cases b with
    | expression j parts' r' =>
      apply strictEq_iff_of_scalar
      · simp only [Element.content]
      · simp only [Element.content]
      · simp only [Element.strictEq]
    | leaf j l => exact strictEq_iff_of_kind_ne (by cases l <;> simp [Element.kind, Leaf.kind])
    | _ => exact strictEq_iff_of_kind_ne (by simp [Element.kind])
  | .block i commands text, b => by
    cases b with
    | block j commands' text' =>
      apply strictEq_iff_of_scalar
      · simp only [Element.content]
      · simp only [Element.content]
      · simp only [Element.strictEq]
    | leaf j l => exact strictEq_iff_of_kind_ne (by cases l <;> simp [Element.kind, Leaf.kind])
    | _ => exact strictEq_iff_of_kind_ne (by simp [Element.kind])

theorem strictEqAll_iff : (xs ys : List Element) →
    (strictEqAll xs ys = true ↔ contentsOf xs = contentsOf ys ∧ allDefined (contentsOf xs) = true)
  | [], [] => by simp [strictEqAll, contentsOf]
  | [], _ :: _ => by simp [strictEqAll, contentsOf]
  | _ :: _, [] => by simp [strictEqAll, contentsOf]
  | x :: xs, y :: ys => by
    rw [strictEqAll, Bool.and_eq_true, strictEq_iff x y, strictEqAll_iff xs ys, contentsOf, contentsOf, List.cons.injEq,
      allDefined, Bool.and_eq_true, and_and_and_comm]

theorem Entry.strictEq_iff : (x y : Entry) →
    (x.strictEq y = true ↔ x.content = y.content ∧ x.content.defined = true)
  | .pair k v, .pair k' v' => by
    rw [Entry.strictEq, Bool.and_eq_true, UiScript.strictEq_iff k k', UiScript.strictEq_iff v v', Entry.content,
      Entry.content, EntryContent.pair.injEq, EntryContent.defined, Bool.and_eq_true, and_and_and_comm]
  | .bare k, .bare k' => by
    rw [Entry.strictEq, UiScript.strictEq_iff k k', Entry.content, Entry.content, EntryContent.bare.injEq,
      EntryContent.defined]
  | .pair _ _, .bare _ => by simp [Entry.strictEq, Entry.content]
  | .bare _, .pair _ _ => by simp [Entry.strictEq, Entry.content]

theorem strictEqEntries_iff : (xs ys : List Entry) →
    (strictEqEntries xs ys = true ↔
      entryContents xs = entryContents ys ∧ allEntriesDefined (entryContents xs) = true)
  | [], [] => by simp [strictEqEntries, entryContents]
  | [], _ :: _ => by simp [strictEqEntries, entryContents]
  | _ :: _, [] => by simp [strictEqEntries, entryContents]
  | x :: xs, y :: ys => by
    rw [strictEqEntries, Bool.and_eq_true, Entry.strictEq_iff x y, strictEqEntries_iff xs ys, entryContents,
      entryContents, List.cons.injEq, allEntriesDefined, Bool.and_eq_true, and_and_and_comm]

end

/-- Elements with one content are equal to the same elements. -/
theorem strictEq_congr {a' b' : Element} (ha : a.content = a'.content) (hb : b.content = b'.content) :
    a.strictEq b = a'.strictEq b' := by
  rw [Bool.eq_iff_iff, strictEq_iff, strictEq_iff, ha, hb]

/-! ## The laws of equality -/

theorem strictEq_self_iff (a : Element) : a.strictEq a = true ↔ a.content.defined = true := by
  rw [strictEq_iff, and_iff_right rfl]

theorem strictEq_comm (a b : Element) : a.strictEq b = b.strictEq a := by
  have hsymm : ∀ x y : Element, x.strictEq y = true → y.strictEq x = true := by
    intro x y h
    obtain ⟨hsame, hdefined⟩ := (strictEq_iff x y).mp h
    exact (strictEq_iff y x).mpr ⟨hsame.symm, hsame ▸ hdefined⟩
  rw [Bool.eq_iff_iff]
  exact ⟨hsymm a b, hsymm b a⟩

theorem strictEq_trans {c : Element} (hab : a.strictEq b = true) (hbc : b.strictEq c = true) :
    a.strictEq c = true := by
  obtain ⟨hsame, hdefined⟩ := (strictEq_iff a b).mp hab
  obtain ⟨hsame', -⟩ := (strictEq_iff b c).mp hbc
  exact (strictEq_iff a c).mpr ⟨hsame.trans hsame', hdefined⟩

end Contents

/-! ## Contents do not depend on places -/

section Relabelling

variable {ρ : Relabel}

mutual

@[simp] theorem Element.relabel_content : (e : Element) → (e.relabel ρ).content = e.content
  | .leaf i l => by
    have hvalue := (Element.leaf i l).relabel_stringValue (ρ := ρ)
    cases l with
    | number digits negative float => rfl
    | _ => simp only [Element.relabel, Element.content, Element.kind] at hvalue ⊢; rw [hvalue]
  | .tuple _ items _ => by simp [Element.relabel, Element.content, relabel_contents items]
  | .array _ items => by simp [Element.relabel, Element.content, relabel_contents items]
  | .json _ entries => by simp [Element.relabel, Element.content, relabel_entryContents entries]
  | .expression i parts r => by
    have hvalue := (Element.expression i parts r).relabel_stringValue (ρ := ρ)
    simp only [Element.relabel, Element.content, Element.kind] at hvalue ⊢
    rw [hvalue]
  | .block i commands text => rfl

theorem relabel_contents : (es : List Element) →
    es.map (Element.content ∘ Element.relabel ρ) = es.map Element.content
  | [] => rfl
  | e :: es => by simp [relabel_contents es, Element.relabel_content e]

theorem Entry.relabel_content : (e : Entry) → (e.relabel ρ).content = e.content
  | .pair k v => by simp [Entry.relabel, Entry.content, Element.relabel_content k, Element.relabel_content v]
  | .bare k => by simp [Entry.relabel, Entry.content, Element.relabel_content k]

theorem relabel_entryContents : (es : List Entry) →
    es.map (Entry.content ∘ Entry.relabel ρ) = es.map Entry.content
  | [] => rfl
  | e :: es => by simp [relabel_entryContents es, Entry.relabel_content e]

end

/-- Elements that are the same up to their places have one content. -/
theorem Element.content_eq_of_erase_eq {e e' : Element} (h : e.erase = e'.erase) : e.content = e'.content := by
  simpa only [Element.relabel_content] using congrArg Element.content h

end Relabelling

/-! ## Numbers that were read -/

namespace Binary64

theorem ofRatio_ne_nan (negative : Bool) (num den : Nat) : ofRatio negative num den ≠ nan := by
  unfold ofRatio
  split
  · exact Binary64.noConfusion
  · extract_lets e m
    split
    split
    · exact Binary64.noConfusion
    · exact Binary64.noConfusion

end Binary64

theorem Decimal.toBinary64_ne_nan (d : Decimal) : d.toBinary64 ≠ .nan := by
  unfold Decimal.toBinary64
  dsimp only
  split
  · exact Binary64.noConfusion
  · split
    · exact Binary64.noConfusion
    · split
      · exact Binary64.ofRatio_ne_nan _ _ _
      · exact Binary64.ofRatio_ne_nan _ _ _

theorem lowerAscii_of_isDigit {c : Char} (h : isDigit c = true) : lowerAscii c = c := by
  rw [isDigit, Bool.and_eq_true, decide_eq_true_iff, decide_eq_true_iff] at h
  exact if_neg (by omega)

/-- What starts with a digit, after a minus sign or not, is no name of a special value. -/
theorem ofText?_numberText {digits : String} (negative : Bool) (h : IsNumber digits.toList) :
    Binary64.ofText? (numberText digits negative) =
      (readUnsigned? negative digits.toList).map Decimal.toBinary64 := by
  obtain ⟨c, tail, hdigits, hc, -⟩ := h
  have hne : ∀ d, isDigit d = false → c ≠ d := by
    rintro d hd rfl
    rw [hc] at hd
    cases hd
  have hplus := hne '+' (by decide)
  have hminus := hne '-' (by decide)
  have hi := hne 'i' (by decide)
  have hn := hne 'n' (by decide)
  cases negative with
  | true => simp [Binary64.ofText?, numberText, hdigits, lowerAscii_of_isDigit hc, hi, hn]
  | false => simp [Binary64.ofText?, numberText, hdigits, lowerAscii_of_isDigit hc, hi, hn, hplus, hminus]

theorem Element.AsRead.numberValue?_ne_nan {e : Element} (h : e.AsRead) : e.numberValue? ≠ some .nan := by
  cases e with
  | leaf i l =>
    cases l with
    | number digits negative float =>
      rw [Element.numberValue?, ofText?_numberText negative h.spelled.1, ne_eq, Option.map_eq_some_iff]
      rintro ⟨d, -, hnan⟩
      exact d.toBinary64_ne_nan hnan
    | _ => simp [Element.numberValue?]
  | _ => simp [Element.numberValue?]

/-- The content of an element is defined if the element is no undefined number and the contents of its parts are
defined. -/
theorem Element.content_defined_of_children {e : Element} (hnumber : e.numberValue? ≠ some .nan)
    (hparts : ∀ c ∈ e.children, c.content.defined = true) : e.content.defined = true := by
  cases e with
  | leaf i l =>
    cases l with
    | number digits negative float =>
      rw [Element.content, Content.defined, bne_iff_ne, ne_eq, Option.map_eq_some_iff]
      rintro ⟨x, hx, hnan⟩
      rw [Binary64.unifyZero_eq_nan] at hnan
      exact hnumber (hnan ▸ hx)
    | _ => rfl
  | tuple i items trailing => simpa [Element.content, Content.defined, Element.children] using hparts
  | array i items => simpa [Element.content, Content.defined, Element.children] using hparts
  | json i entries =>
    have hentry : ∀ p ∈ entries, p.content.defined = true := by
      intro p hp
      cases p with
      | pair k v =>
        have hk := hparts k (mem_children_json hp List.mem_cons_self)
        have hv := hparts v (mem_children_json hp (by simp [Entry.parts]))
        rw [Entry.content, EntryContent.defined, hk, hv, Bool.and_self]
      | bare k => exact hparts k (mem_children_json hp List.mem_cons_self)
    simpa [Element.content, Content.defined] using hentry
  | expression i parts r => rfl
  | block i commands text => rfl

/-- **In what is read from a text, all numbers are defined.** -/
theorem Parsed.content_defined {e : Element} (h : Parsed e) : e.content.defined = true := by
  have hread := h.asRead
  clear h
  induction e using Element.byChildren with
  | h e ih =>
    exact Element.content_defined_of_children hread.here.numberValue?_ne_nan fun c hc => ih c hc (hread.child hc)

end UiScript
