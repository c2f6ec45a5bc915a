import UiScript.Proofs.Reading.Everywhere
import UiScript.Proofs.Scan.Steps

/-!
# What reading makes sure of

Reading never fails, but whatever it cannot make sure of gets a problem. So every element that was read, with or
without mistakes around it, is regular as far as it has no problem of its own (`Element.AsRead`): the items of an
array are of one kind, the keys of a dictionary are strings or variables and have values, operators stand between
operands, and words and numbers are spelled like words and numbers. This holds of all that occurs in an element or a
script that was read from a text (`Parsed.asRead`).
-/

namespace UiScript

open Text Reading

/-! ## Regular elements -/

/-- What an element without a problem of its own makes sure of. -/
def Element.Regular : Element → Prop
  | .leaf i .unknown => i.problem ≠ none
  | .array i items => i.problem = none → mixedKinds? items = none
  | .json i entries => i.problem = none → ∀ p ∈ entries, p.Regular
  | .expression i parts none => i.problem = none → parts ≠ [] ∧ linked parts.tail = true
  | _ => True

/-- The outcome of an expression that was evaluated. -/
def Element.outcome? : Element → Option Resolved
  | .expression _ _ resolved => resolved
  | _ => none

/-- A regular element that was not evaluated yet. -/
structure Element.Raw (e : Element) : Prop where
  regular : e.Regular
  pending : e.outcome? = none

/-- The words, numbers and strings that tokens spell. -/
def Element.Spelled : Element → Prop
  | .leaf i (.number digits _ float) =>
    IsNumber digits.toList ∧ float = decide (0 < digits.toList.count '.') ∧
      (i.problem = none → digits.toList.count '.' ≤ 1)
  | .leaf _ (.string _ quote) => quote = '"' ∨ quote = '\''
  | .leaf _ (.ident name) => IsWord name.toList ∧ wordKind name.toList = .word
  | _ => True

/-- A raw element whose leaves are spelled by tokens. -/
structure Element.AsRead (e : Element) : Prop extends e.Raw where
  spelled : e.Spelled

section Noting

variable {e : Element} (p : Option Problem)

theorem Element.Regular.noting (h : e.Regular) : (e.noting p).Regular := by
  cases e with
  | leaf i l =>
    cases l with
    | unknown => exact fun hnone => h (Problem.note_eq_none.mp hnone).1
    | _ => trivial
  | array i items => exact fun hnone => h (Problem.note_eq_none.mp hnone).1
  | json i entries => exact fun hnone => h (Problem.note_eq_none.mp hnone).1
  | expression i parts resolved =>
    cases resolved with
    | none => exact fun hnone => h (Problem.note_eq_none.mp hnone).1
    | some r => trivial
  | _ => trivial

theorem Element.Spelled.noting (h : e.Spelled) : (e.noting p).Spelled := by
  cases e with
  | leaf i l =>
    cases l with
    | number digits negative float => exact ⟨h.1, h.2.1, fun hnone => h.2.2 (Problem.note_eq_none.mp hnone).1⟩
    | _ => exact h
  | _ => trivial

@[simp] theorem Element.outcome?_noting (e : Element) : (e.noting p).outcome? = e.outcome? := by
  cases e <;> rfl

theorem Element.AsRead.noting (h : e.AsRead) : (e.noting p).AsRead :=
  ⟨⟨h.regular.noting p, by rw [Element.outcome?_noting, h.pending]⟩, h.spelled.noting p⟩

end Noting

namespace Reading

/-! ## Leaves -/

/-- The tokens ahead are those of a text. -/
def Cursor.Valid (c : Cursor) : Prop := ∀ t ∈ c.rest, t.Valid

theorem Cursor.Valid.reaches {c c' : Cursor} (h : c.Valid) (hr : Reaches c c') : c'.Valid :=
  fun t ht => h t (hr.rest_suffix.mem ht)

theorem asRead_leaf {i : Info} {l : Leaf} (hl : l ≠ .unknown) (hs : (Element.leaf i l).Spelled) :
    (Element.leaf i l).AsRead := by
  refine ⟨⟨?_, rfl⟩, hs⟩
  cases l with
  | unknown => exact absurd rfl hl
  | _ => trivial

theorem asRead_unknown {i : Info} (h : i.problem ≠ none) : (Element.leaf i .unknown).AsRead := ⟨⟨h, rfl⟩, trivial⟩

/-- A number that a token spells. -/
theorem spelled_number {t : Token} {float : Bool} (h : t.Valid) (hk : t.kind = .number float) (place : Place)
    (negative : Bool) :
    (Element.leaf ⟨place, t.error.map Problem.lexical⟩ (.number t.text negative float)).Spelled := by
  rw [Token.Valid, hk] at h
  refine ⟨h.1, h.2.1, fun hnone => h.2.2.mp ?_⟩
  simpa using hnone

theorem missing_asRead (s : Source) (c : Cursor) (p : Problem) : (c.missing s p).AsRead :=
  asRead_unknown (by simp [Source.info])

theorem negative_asRead (s : Source) (t : Token) {c : Cursor} (hc : c.Valid) : (negative s t c).1.AsRead := by
  unfold negative
  split
  · exact asRead_leaf (by simp) trivial
  · rename_i u us h
    split
    · rename_i float hk
      split
      · exact asRead_leaf (by simp) (spelled_number (hc u (by simp [h])) hk _ _)
      · exact asRead_leaf (by simp) trivial
    · exact asRead_leaf (by simp) trivial

theorem reference_asRead (s : Source) (t : Token) (c : Cursor) : (reference s t c).1.AsRead := by
  unfold reference
  split
  · exact asRead_leaf (by simp) trivial
  · split
    · dsimp only
      split
      · exact asRead_leaf (by simp) trivial
      · split <;> exact asRead_leaf (by simp) trivial
    · exact asRead_leaf (by simp) trivial

theorem leaf_asRead (s : Source) {c : Cursor} (hc : c.Valid) : (leaf s c).1.AsRead := by
  cases h : c.rest with
  | nil =>
    simp only [leaf, h]
    exact missing_asRead s c _
  | cons t ts =>
    have ht : t.Valid := hc t (by simp [h])
    have hpast := hc.reaches (Reaches.past h)
    cases hk : t.kind with
    | string value quote =>
      simp only [leaf, h, hk]
      rw [Token.Valid, hk] at ht
      exact asRead_leaf (by simp) ht
    | number float =>
      simp only [leaf, h, hk]
      exact asRead_leaf (by simp) (spelled_number ht hk _ _)
    | word =>
      simp only [leaf, h, hk]
      rw [Token.Valid, hk] at ht
      exact asRead_leaf (by simp) ⟨ht.1, ht.2.1⟩
    | pipe =>
      simp only [leaf, h, hk]
      exact reference_asRead s t _
    | operator op =>
      cases op with
      | sub =>
        simp only [leaf, h, hk]
        exact negative_asRead s t hpast
      | _ =>
        simp only [leaf, h, hk]
        exact asRead_leaf (by simp) trivial
    | newline | comment =>
      simp only [leaf, h, hk]
      exact missing_asRead s c _
    | boolean | unknown | opening | closing | comma | colon =>
      simp only [leaf, h, hk]
      exact asRead_leaf (by simp) trivial

/-- **What is read is regular and spelled.** -/
theorem asRead_ensured (catalog : Catalog) : Ensures catalog (fun _ c => c.Valid) Element.AsRead where
  reaches hc hr := hc.reaches hr
  enters hc hrest _ := by
    intro t ht
    apply hc t
    rw [hrest]
    exact List.mem_cons_of_mem _ ((splitBlock_isPrefix 0 _).mem ht)
  leaf hc := leaf_asRead _ hc
  sign _ _ := asRead_leaf (by simp) trivial
  unknown h := asRead_unknown h
  tuple _ _ _ := ⟨⟨trivial, rfl⟩, trivial⟩
  array h := ⟨⟨h, rfl⟩, trivial⟩
  json h := ⟨⟨h, rfl⟩, trivial⟩
  expression _ h := ⟨⟨fun hproblem => ⟨by simp, h hproblem⟩, rfl⟩, trivial⟩
  noting _ h := h.noting _
  block _ _ _ hg := by
    obtain ⟨brace, us, hbrace, -⟩ := opens?_brace hg _
    obtain ⟨i, -, heq⟩ := block_inside hbrace
    rw [container, heq]
    exact ⟨⟨trivial, rfl⟩, trivial⟩

theorem scan_cursor_valid (cs : List Char) : Cursor.Valid ⟨scan cs, 0⟩ := by
  intro t ht
  rw [scan_eq] at ht
  exact scanFrom_valid _ _ _ _ t ht

end Reading

/-! ## Texts -/

/-- **Parsed elements are as read, all through.** -/
theorem Parsed.asRead {e : Element} (h : Parsed e) : e.Every true Element.AsRead :=
  h.yields asRead_ensured scan_cursor_valid

/-- The arguments of a script's commands are as read, all through. -/
theorem script_asRead (catalog : Catalog) (text : String) {c : Command} (hc : c ∈ (Script.parse catalog text).commands)
    {a : Element} (ha : c.argument? = some a) : a.Every true Element.AsRead :=
  Parsed.asRead (Or.inr ⟨catalog, text, c, hc, a, ha, .self a⟩)

end UiScript
