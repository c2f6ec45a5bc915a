import UiScript.Proofs.Element.Occurrence
import UiScript.Proofs.Element.Relabel

/-!
# The shape of a tree

Two questions about whole trees on which their texts depend. `Element.depth` counts how many containers stand inside
each other, blocks and what they hold included. `Element.signsLead` asks whether a negative number stands after an
operator, where a text cannot show its sign.
-/

namespace UiScript

/-! ## Containers inside each other -/

mutual

/-- The greatest number of containers that stand inside each other. -/
def Element.depth : Element → Nat
  | .leaf .. => 0
  | .tuple _ items _ => depthOf items + 1
  | .array _ items => depthOf items + 1
  | .json _ entries => entryDepth entries + 1
  | .expression _ parts _ => depthOf parts
  | .block _ commands _ => commandDepth commands + 1

/-- The greatest depth of several elements. -/
def depthOf : List Element → Nat
  | [] => 0
  | e :: es => max e.depth (depthOf es)

/-- The depth of an entry. -/
def Entry.depth : Entry → Nat
  | .pair k v => max k.depth v.depth
  | .bare k => k.depth

/-- The greatest depth of several entries. -/
def entryDepth : List Entry → Nat
  | [] => 0
  | p :: ps => max p.depth (entryDepth ps)

/-- The depth of a command's argument. -/
def Command.depth : Command → Nat
  | .bare _ => 0
  | .given _ a => a.depth

/-- The greatest depth of several commands. -/
def commandDepth : List Command → Nat
  | [] => 0
  | c :: cs => max c.depth (commandDepth cs)

end

theorem depth_le_depthOf {e : Element} {es : List Element} (h : e ∈ es) : e.depth ≤ depthOf es := by
  induction es with
  | nil => cases h
  | cons a es ih =>
    rw [depthOf]
    rcases List.mem_cons.mp h with rfl | h
    · omega
    · have := ih h
      omega

theorem depth_le_entryDepth {p : Entry} {e : Element} {ps : List Entry} (hp : p ∈ ps) (he : e ∈ p.parts) :
    e.depth ≤ entryDepth ps := by
  have hentry : e.depth ≤ p.depth := by
    cases p with
    | pair k v =>
      rw [Entry.depth]
      rcases List.mem_cons.mp he with rfl | he
      · omega
      · obtain rfl := List.mem_singleton.mp he
        omega
    | bare k =>
      obtain rfl := List.mem_singleton.mp he
      exact Nat.le_refl _
  induction ps with
  | nil => cases hp
  | cons q ps ih =>
    rw [entryDepth]
    rcases List.mem_cons.mp hp with rfl | hp
    · omega
    · have := ih hp
      omega

section Parts

variable {e c : Element}

/-- A container is deeper than what it holds. -/
theorem Element.depth_child_lt (hc : c ∈ e.children) (he : e.kind ≠ .expression) : c.depth < e.depth := by
  cases e with
  | leaf i l => cases hc
  | block i commands text => cases hc
  | expression i parts resolved => exact absurd rfl he
  | json i entries =>
    obtain ⟨p, hp, hc⟩ := List.mem_flatMap.mp hc
    rw [Element.depth]
    exact Nat.lt_succ_of_le (depth_le_entryDepth hp hc)
  | tuple i items trailing | array i items =>
    rw [Element.depth]
    exact Nat.lt_succ_of_le (depth_le_depthOf hc)

/-- No part of a tree is deeper than the tree. -/
theorem Element.depth_child (hc : c ∈ e.children) : c.depth ≤ e.depth := by
  by_cases he : e.kind = .expression
  · cases e with
    | expression i parts resolved =>
      rw [Element.depth]
      exact depth_le_depthOf hc
    | leaf i l => cases hc
    | _ => cases he
  · exact Nat.le_of_lt (Element.depth_child_lt hc he)

end Parts

/-! ## Signs -/

/-- Whether the element is a number with a sign. -/
def Element.isNegative : Element → Bool
  | .leaf _ (.number _ negative _) => negative
  | _ => false

mutual

/-- Whether no operand that follows an operator has a sign, outside blocks. -/
def Element.signsLead : Element → Bool
  | .leaf .. => true
  | .tuple _ items _ => allSignsLead items
  | .array _ items => allSignsLead items
  | .json _ entries => allEntrySignsLead entries
  | .expression _ parts _ => parts.tail.all (!·.isNegative) && allSignsLead parts
  | .block .. => true

/-- Whether this is so in all of the elements. -/
def allSignsLead : List Element → Bool
  | [] => true
  | e :: es => e.signsLead && allSignsLead es

/-- Whether this is so in an entry. -/
def Entry.signsLead : Entry → Bool
  | .pair k v => k.signsLead && v.signsLead
  | .bare k => k.signsLead

/-- Whether this is so in all of the entries. -/
def allEntrySignsLead : List Entry → Bool
  | [] => true
  | p :: ps => p.signsLead && allEntrySignsLead ps

end

@[simp] theorem allSignsLead_eq_all (es : List Element) : allSignsLead es = es.all Element.signsLead := by
  induction es with
  | nil => simp [allSignsLead]
  | cons e es ih => simp [allSignsLead, ih]

@[simp] theorem allEntrySignsLead_eq_all (ps : List Entry) : allEntrySignsLead ps = ps.all Entry.signsLead := by
  induction ps with
  | nil => simp [allEntrySignsLead]
  | cons p ps ih => simp [allEntrySignsLead, ih]

theorem Entry.signsLead_iff {p : Entry} : p.signsLead = true ↔ ∀ c ∈ p.parts, c.signsLead = true := by
  cases p <;> simp [Entry.signsLead, Entry.parts]

theorem Element.signsLead_child {e c : Element} (hc : c ∈ e.children) (h : e.signsLead = true) :
    c.signsLead = true := by
  cases e with
  | leaf i l => cases hc
  | block i commands text => cases hc
  | json i entries =>
    obtain ⟨p, hp, hc⟩ := List.mem_flatMap.mp hc
    rw [Element.signsLead, allEntrySignsLead_eq_all, List.all_eq_true] at h
    exact Entry.signsLead_iff.mp (h p hp) c hc
  | expression i parts resolved =>
    rw [Element.signsLead, allSignsLead_eq_all, Bool.and_eq_true, List.all_eq_true (p := Element.signsLead)] at h
    exact h.2 c hc
  | tuple i items trailing | array i items =>
    rw [Element.signsLead, allSignsLead_eq_all, List.all_eq_true] at h
    exact h c hc

section Places

variable {ρ : Relabel}

@[simp] theorem Element.relabel_isNegative (e : Element) : (e.relabel ρ).isNegative = e.isNegative := by
  cases e with
  | leaf i l => cases l <;> rfl
  | _ => rfl

mutual

/-- Where the signs of a tree stand does not depend on its places. -/
@[simp] theorem Element.relabel_signsLead : (e : Element) → (e.relabel ρ).signsLead = e.signsLead
  | .leaf .. => rfl
  | .tuple _ items _ => by simp [Element.relabel, Element.signsLead, relabel_allSignsLead items]
  | .array _ items => by simp [Element.relabel, Element.signsLead, relabel_allSignsLead items]
  | .json _ entries => by simp [Element.relabel, Element.signsLead, relabel_allEntrySignsLead entries]
  | .expression _ parts _ => by
    have hsigns : (parts.tail.map (Element.relabel ρ)).all (!·.isNegative) = parts.tail.all (!·.isNegative) := by
      rw [List.all_map]
      simp [Function.comp_def]
    simp only [Element.relabel, Element.signsLead, allSignsLead_eq_all, relabelAll_eq_map, ← List.map_tail, hsigns,
      List.all_map, relabel_allSignsLead parts]
  | .block .. => rfl

theorem relabel_allSignsLead : (es : List Element) →
    es.all (Element.signsLead ∘ Element.relabel ρ) = es.all Element.signsLead
  | [] => rfl
  | e :: es => by simp [relabel_allSignsLead es, Element.relabel_signsLead e]

theorem Entry.relabel_signsLead : (p : Entry) → (p.relabel ρ).signsLead = p.signsLead
  | .pair k v => by simp [Entry.relabel, Entry.signsLead, Element.relabel_signsLead k, Element.relabel_signsLead v]
  | .bare k => by simp [Entry.relabel, Entry.signsLead, Element.relabel_signsLead k]

theorem relabel_allEntrySignsLead : (ps : List Entry) →
    ps.all (Entry.signsLead ∘ Entry.relabel ρ) = ps.all Entry.signsLead
  | [] => rfl
  | p :: ps => by simp [relabel_allEntrySignsLead ps, Entry.relabel_signsLead p]

end

end Places

end UiScript
