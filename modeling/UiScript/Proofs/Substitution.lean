import UiScript.Proofs.Reading.Regular
import UiScript.Substitution

/-!
# What substitution keeps

Putting in the values of variables keeps a tree raw (`substitute_raw`): what an array, a dictionary or a chain makes
sure of is made sure of again for the new parts, or there is a problem. After it a tree without mistakes has no
variable (`substitute_hasVariable`). Structured values are raw and have no variables (`Json.element_closed`).
-/

namespace UiScript

/-! ## Nothing to put in -/

/-- Where there is no variable, nothing is put in. -/
theorem substitute_of_hasVariable {scope : Scope} {forced : Bool} {e : Element} (h : e.hasVariable = false) :
    e.substitute scope forced = e := by
  cases e with
  | leaf i l =>
    cases l with
    | reference name => cases h
    | _ => simp [Element.substitute]
  | block i commands text => simp [Element.substitute]
  | _ =>
    simp only [Element.hasVariable] at h
    rw [Element.substitute, h]
    rfl

/-! ## Structured values -/

/-- A raw tree without variables. -/
def Element.Closed (e : Element) : Prop := e.Every false Element.Raw ∧ e.hasVariable = false

/-- A tree whose parts are closed is closed if it is raw and no variable itself. -/
theorem Element.closed_of_children {e : Element} (hraw : e.Raw) (hk : e.kind ≠ .reference)
    (h : ∀ c ∈ e.children, c.Closed) : e.Closed := by
  constructor
  · exact Element.every_of_children hraw (fun c hc => (h c hc).1) fun _ => rfl
  · exact Element.hasVariable_eq_false_iff.mpr ⟨hk, fun c hc => (h c hc).2⟩

theorem Element.raw_leaf {i : Info} {l : Leaf} (h : l ≠ .unknown) : (Element.leaf i l).Raw := by
  refine ⟨?_, rfl⟩
  cases l with
  | unknown => exact absurd rfl h
  | _ => trivial

theorem Element.closed_leaf {i : Info} {l : Leaf} (h : l ≠ .unknown) (hk : l.kind ≠ .reference) :
    (Element.leaf i l).Closed :=
  Element.closed_of_children (Element.raw_leaf h) hk (by simp [Element.children])

mutual

/-- **The element of a structured value is raw and has no variable.** -/
theorem Json.element_closed (place : Place) : (v : Json) → (v.element place).Closed
  | .null => by
    rw [Json.element]
    exact Element.closed_leaf (by simp) (by simp [Leaf.kind])
  | .bool b => by
    rw [Json.element]
    exact Element.closed_leaf (by simp) (by simp [Leaf.kind])
  | .integer n => by
    rw [Json.element]
    exact Element.closed_leaf (by simp [numberLeaf]) (by simp [numberLeaf, Leaf.kind])
  | .float x => by
    rw [Json.element]
    split
    · exact Element.closed_leaf (by simp [numberLeaf]) (by simp [numberLeaf, Leaf.kind])
    · exact Element.closed_leaf (by simp) (by simp [Leaf.kind])
  | .string s => by
    rw [Json.element]
    exact Element.closed_leaf (by simp) (by simp [Leaf.kind])
  | .array items => by
    rw [Json.element]
    apply Element.closed_of_children
    · exact ⟨fun h => h, rfl⟩
    · simp [Element.kind]
    · exact jsonElements_closed place items
  | .object members => by
    have hentries := jsonEntries_closed place members
    rw [Json.element]
    apply Element.closed_of_children
    · exact ⟨fun _ p hp => (hentries p hp).1, rfl⟩
    · simp [Element.kind]
    · intro e he
      obtain ⟨p, hp, he⟩ := List.mem_flatMap.mp he
      exact (hentries p hp).2 e he

theorem jsonElements_closed (place : Place) : (vs : List Json) → ∀ e ∈ jsonElements place vs, e.Closed
  | [] => by simp [jsonElements]
  | v :: vs => by
    rw [jsonElements]
    exact List.forall_mem_cons.mpr ⟨Json.element_closed place v, jsonElements_closed place vs⟩

theorem Member.entry_closed (place : Place) : (m : Member) →
    (m.entry place).Regular ∧ ∀ e ∈ (m.entry place).parts, e.Closed
  | .mk name value => by
    have hvalue := Json.element_closed place value
    rw [Member.entry]
    constructor
    · exact fun _ => Or.inl rfl
    · have hkey : (Element.leaf ⟨place, none⟩ (.string name '"')).Closed :=
        Element.closed_leaf (by simp) (by simp [Leaf.kind])
      exact List.forall_mem_cons.mpr ⟨hkey, List.forall_mem_singleton.mpr hvalue⟩

theorem jsonEntries_closed (place : Place) : (ms : List Member) →
    ∀ p ∈ jsonEntries place ms, p.Regular ∧ ∀ e ∈ p.parts, e.Closed
  | [] => by simp [jsonEntries]
  | m :: ms => by
    rw [jsonEntries]
    exact List.forall_mem_cons.mpr ⟨Member.entry_closed place m, jsonEntries_closed place ms⟩

end

@[simp] theorem Element.hasVariable_noting (e : Element) (p : Option Problem) :
    (e.noting p).hasVariable = e.hasVariable := by
  cases e with
  | leaf i l => cases l <;> rfl
  | _ => simp [Element.noting, Element.withInfo, Element.hasVariable]

theorem Element.Raw.noting {e : Element} (h : e.Raw) (p : Option Problem) : (e.noting p).Raw :=
  ⟨h.regular.noting p, by rw [Element.outcome?_noting, h.pending]⟩

/-! ## Variables -/

section Variables

variable {scope : Scope} {forced : Bool}

/-- What stands in the place of a variable: the variable with a problem, another leaf, or a structured value. -/
theorem resolveVariable_cases (scope : Scope) (forced : Bool) (i : Info) (name : String) :
    (∃ p : Problem, resolveVariable scope forced i name = .leaf { i with problem := some p } (.reference name)) ∨
      (∃ l : Leaf, l ≠ .unknown ∧ l.kind ≠ .reference ∧ (forced = true → l.kind = .string) ∧
        resolveVariable scope forced i name = .leaf i l) ∨
      forced = false ∧ ∃ v : Json, resolveVariable scope forced i name = (v.element i.toPlace).noting i.problem := by
  unfold resolveVariable
  cases scope.lookup name with
  | none =>
    cases hnote : Problem.note i.problem (some (.unboundVariable name)) with
    | none => cases (Problem.note_eq_none.mp hnote).2
    | some p => exact Or.inl ⟨p, rfl⟩
  | some value =>
    refine Or.inr ?_
    cases forced with
    | true => exact Or.inl ⟨.string value.asText '"', by simp, by simp [Leaf.kind], fun _ => rfl, by simp⟩
    | false =>
      cases value with
      | boolean b => exact Or.inl ⟨.boolean b, by simp, by simp [Leaf.kind], by simp, by simp⟩
      | number x =>
        by_cases hx : x.isFinite = true
        · exact Or.inl ⟨numberLeaf x, by simp [numberLeaf], by simp [numberLeaf, Leaf.kind], by simp, by simp [hx]⟩
        · exact Or.inl ⟨.string (Value.number x).asText '"', by simp, by simp [Leaf.kind], by simp, by simp [hx]⟩
      | text s => exact Or.inl ⟨.string (Value.text s).asText '"', by simp, by simp [Leaf.kind], by simp, by simp⟩
      | structured v => exact Or.inr ⟨rfl, v, by simp⟩

theorem resolveVariable_raw (i : Info) (name : String) :
    (resolveVariable scope forced i name).Every false Element.Raw := by
  rcases resolveVariable_cases scope forced i name with ⟨p, h⟩ | ⟨l, hl, -, -, h⟩ | ⟨-, v, h⟩
  · rw [h]
    exact Element.every_leaf (Element.raw_leaf (by simp))
  · rw [h]
    exact Element.every_leaf (Element.raw_leaf hl)
  · have hv := (Json.element_closed i.toPlace v).1
    rw [h]
    exact hv.noting (hv.here.noting _)

theorem resolveVariable_hasVariable (i : Info) (name : String)
    (h : (resolveVariable scope forced i name).hasErrors = false) :
    (resolveVariable scope forced i name).hasVariable = false := by
  rcases resolveVariable_cases scope forced i name with ⟨p, heq⟩ | ⟨l, hl, hk, -, heq⟩ | ⟨-, v, heq⟩
  · rw [heq] at h
    cases h
  · rw [heq]
    exact (Element.closed_leaf hl hk).2
  · rw [heq, Element.hasVariable_noting]
    exact (Json.element_closed i.toPlace v).2

/-- A variable with a problem keeps one. -/
theorem resolveVariable_problem (i : Info) (name : String) (h : (resolveVariable scope forced i name).problem = none) :
    i.problem = none := by
  rcases resolveVariable_cases scope forced i name with ⟨p, heq⟩ | ⟨l, -, -, -, heq⟩ | ⟨-, v, heq⟩
  · rw [heq] at h
    cases h
  · rw [heq] at h
    exact h
  · rw [heq, Element.problem_noting] at h
    exact (Problem.note_eq_none.mp h).2

end Variables

/-! ## Trees -/

section Trees

variable {scope : Scope}

/-- An element with a problem keeps one. -/
theorem substitute_problem {forced : Bool} {e : Element} (h : (e.substitute scope forced).problem = none) :
    e.problem = none := by
  cases e with
  | leaf i l =>
    cases l with
    | reference name =>
      rw [Element.substitute] at h
      exact resolveVariable_problem i name h
    | _ => simpa [Element.substitute] using h
  | array i items =>
    rw [Element.substitute] at h
    split at h
    · exact (Problem.note_eq_none.mp h).1
    · exact h
  | block i commands text => simpa [Element.substitute] using h
  | _ =>
    rw [Element.substitute] at h
    split at h <;> exact h

/-- A key without a problem is a string after substitution, or a variable without a value. -/
theorem substitute_key {k : Element} (hk : k.kind = .string ∨ k.kind = .reference) :
    (k.substitute scope true).kind = .string ∨ (k.substitute scope true).kind = .reference := by
  cases k with
  | leaf i l =>
    cases l with
    | string value quote =>
      rw [Element.substitute]
      · exact Or.inl rfl
      · simp
    | reference name =>
      rw [Element.substitute]
      rcases resolveVariable_cases scope true i name with ⟨p, h⟩ | ⟨l, -, -, hl, h⟩ | ⟨h, -⟩
      · rw [h]
        exact Or.inr rfl
      · rw [h]
        exact Or.inl (hl rfl)
      · cases h
    | _ => simp [Element.kind, Leaf.kind] at hk
  | _ => simp [Element.kind] at hk

theorem mem_parts_substitute {forced : Bool} {p : Entry} {c : Element} (h : c ∈ (p.substitute scope forced).parts) :
    ∃ f, ∃ b ∈ p.parts, c = b.substitute scope f := by
  cases p with
  | pair k v =>
    rw [Entry.substitute, Entry.parts] at h
    rcases List.mem_cons.mp h with rfl | h
    · exact ⟨true, k, by simp [Entry.parts], rfl⟩
    · exact ⟨forced, v, by simp [Entry.parts], List.mem_singleton.mp h⟩
  | bare k =>
    rw [Entry.substitute, Entry.parts] at h
    exact ⟨true, k, by simp [Entry.parts], List.mem_singleton.mp h⟩

/-- Values are put into all parts of what is not a variable itself. -/
theorem mem_children_substitute {forced : Bool} {e c : Element} (hk : e.kind ≠ .reference)
    (hc : c ∈ (e.substitute scope forced).children) : ∃ f, ∃ b ∈ e.children, c = b.substitute scope f := by
  by_cases hvariable : e.hasVariable = true
  · cases e with
    | leaf i l =>
      cases l with
      | reference name => exact absurd rfl hk
      | _ => cases hvariable
    | json i entries =>
      rw [Element.substitute, if_pos (by simpa [Element.hasVariable] using hvariable), substituteEntries_eq_map] at hc
      obtain ⟨q, hq, hc⟩ := List.mem_flatMap.mp hc
      obtain ⟨p, hp, rfl⟩ := List.mem_map.mp hq
      obtain ⟨f, b, hb, rfl⟩ := mem_parts_substitute hc
      exact ⟨f, b, mem_children_json hp hb, rfl⟩
    | block i commands text => cases hvariable
    | _ =>
      rw [Element.substitute, if_pos (by simpa [Element.hasVariable] using hvariable)] at hc
      simp only [Element.children, substituteAll_eq_map] at hc
      obtain ⟨b, hb, rfl⟩ := List.mem_map.mp hc
      exact ⟨forced, b, hb, rfl⟩
  · rw [Bool.not_eq_true] at hvariable
    rw [substitute_of_hasVariable hvariable] at hc
    exact ⟨forced, c, hc, (substitute_of_hasVariable (Element.hasVariable_child hc hvariable)).symm⟩

theorem kind_substitute {forced : Bool} {e : Element} (hk : e.kind ≠ .reference) :
    (e.substitute scope forced).kind = e.kind := by
  cases e with
  | leaf i l =>
    cases l with
    | reference name => exact absurd rfl hk
    | _ => simp [Element.substitute]
  | block i commands text => simp [Element.substitute]
  | _ =>
    rw [Element.substitute]
    split <;> rfl

/-- Only variables are of their kind. -/
theorem eq_reference {e : Element} (hk : e.kind = .reference) : ∃ i name, e = .leaf i (.reference name) := by
  cases e with
  | leaf i l =>
    cases l with
    | reference name => exact ⟨i, name, rfl⟩
    | _ => cases hk
  | _ => cases hk

theorem Entry.Regular.substitute {forced : Bool} {p : Entry} (h : p.Regular) : (p.substitute scope forced).Regular := by
  cases p with
  | pair k v =>
    rw [Entry.substitute]
    exact fun hproblem => substitute_key (h (substitute_problem hproblem))
  | bare k => exact h.elim

/-- What an element makes sure of is made sure of again. -/
theorem Element.Raw.substitute {forced : Bool} {e : Element} (hk : e.kind ≠ .reference) (h : e.Raw) :
    (e.substitute scope forced).Raw := by
  have hregular := h.regular
  cases e with
  | leaf i l =>
    cases l with
    | reference name => exact absurd rfl hk
    | _ => simpa [Element.substitute] using h
  | tuple i items trailing =>
    rw [Element.substitute]
    split
    · exact ⟨trivial, rfl⟩
    · exact h
  | array i items =>
    rw [Element.substitute]
    split
    · exact ⟨fun hproblem => (Problem.note_eq_none.mp hproblem).2, rfl⟩
    · exact h
  | json i entries =>
    rw [Element.substitute]
    split
    · rw [substituteEntries_eq_map]
      exact ⟨fun hproblem => List.forall_mem_map.mpr fun p hp => (hregular hproblem p hp).substitute, rfl⟩
    · exact h
  | expression i parts resolved =>
    have hpending : resolved = none := h.pending
    subst hpending
    rw [Element.substitute]
    split
    · rw [substituteAll_eq_map]
      refine ⟨fun hproblem => ?_, rfl⟩
      obtain ⟨hne, hlinked⟩ := hregular hproblem
      constructor
      · simpa using hne
      · rw [← List.map_tail]
        exact linked_map (fun j op => by simp [Element.substitute]) hlinked
    · exact h
  | block i commands text => simpa [Element.substitute] using h

/-- **Substitution keeps a tree raw.** -/
theorem substitute_raw (scope : Scope) (e : Element) :
    ∀ forced, e.Every false Element.Raw → (e.substitute scope forced).Every false Element.Raw := by
  induction e using Element.byChildren with
  | h e ih =>
    intro forced h
    by_cases hk : e.kind = .reference
    · obtain ⟨i, name, rfl⟩ := eq_reference hk
      rw [Element.substitute]
      exact resolveVariable_raw i name
    · apply Element.every_of_children
      · exact h.here.substitute hk
      · intro c hc
        obtain ⟨f, b, hb, rfl⟩ := mem_children_substitute hk hc
        exact ih b hb f (h.child hb)
      · exact fun _ => rfl

/-- **After substitution, a tree without mistakes has no variable.** -/
theorem substitute_hasVariable (e : Element) :
    ∀ forced, (e.substitute scope forced).hasErrors = false → (e.substitute scope forced).hasVariable = false := by
  induction e using Element.byChildren with
  | h e ih =>
    intro forced h
    by_cases hk : e.kind = .reference
    · obtain ⟨i, name, rfl⟩ := eq_reference hk
      rw [Element.substitute] at h ⊢
      exact resolveVariable_hasVariable i name h
    · rw [Element.hasVariable_eq_false_iff, kind_substitute hk]
      refine ⟨hk, fun c hc => ?_⟩
      have herrors := Element.hasErrors_child hc h
      obtain ⟨f, b, hb, rfl⟩ := mem_children_substitute hk hc
      exact ih b hb f herrors

end Trees

end UiScript
