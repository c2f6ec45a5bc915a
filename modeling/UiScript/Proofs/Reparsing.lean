import Mathlib.Algebra.Group.Int.Defs
import UiScript.Proofs.Grammar.Legible
import UiScript.Proofs.Substitution

/-!
# Substituted texts are read back

After the values of variables are put into an element, its canonical text is read as the substituted element, whatever
the values are and wherever they stand, as long as no negative number follows an operator (`parse_substitute_text`).
There a minus sign is no sign: a negative number that takes the place of such an operand is written with its sign, and
the text has a mistake (`parse_substitute_negative`).

* **Values** (`Json.element_legible`, `resolveVariable_legible`): what stands in the place of a variable is legible if
  it has no mistakes and enough levels are left.
* **Trees** (`Derives.staysLegible`): so is a tree that was read, after its variables are replaced. The induction is on
  the derivation of the tree before: what substitution does not touch keeps its place, and so its levels.
-/

namespace UiScript

open Grammar

/-! ## Integers in range -/

mutual

/-- Whether the integers of a value fit a 64-bit word, with a sign or without one. -/
def Json.fits : Json → Bool
  | .integer n => decide (-(2 ^ 63) ≤ n ∧ n < 2 ^ 64)
  | .array items => allFit items
  | .object members => allMembersFit members
  | _ => true

/-- Whether this is so in all of the values. -/
def allFit : List Json → Bool
  | [] => true
  | v :: vs => v.fits && allFit vs

/-- Whether this is so in the value of a member. -/
def Member.fits : Member → Bool
  | .mk _ v => v.fits

/-- Whether this is so in all of the members. -/
def allMembersFit : List Member → Bool
  | [] => true
  | m :: ms => m.fits && allMembersFit ms

end

/-- All structured values in sight have integers that fit a 64-bit word. -/
def Scope.Fits (s : Scope) : Prop := ∀ name v, s.lookup name = some (.structured v) → v.fits = true

/-- A tree without mistakes that needs no more levels than there are, and that shows all of its signs. -/
structure Element.Writable (n : Nat) (e : Element) : Prop where
  errors : e.hasErrors = false
  depth : e.depth ≤ n
  signs : e.signsLead = true

namespace Element.Writable

variable {n : Nat} {e c : Element}

theorem child (h : e.Writable n) (hc : c ∈ e.children) : c.Writable n :=
  ⟨Element.hasErrors_child hc h.errors, Nat.le_trans (Element.depth_child hc) h.depth,
    Element.signsLead_child hc h.signs⟩

/-- What a container holds needs one level less. -/
theorem inside (h : e.Writable (n + 1)) (hc : c ∈ e.children) (he : e.kind ≠ .expression) : c.Writable n := by
  have hdepth := Element.depth_child_lt hc he
  have hbound := h.depth
  exact ⟨Element.hasErrors_child hc h.errors, by omega, Element.signsLead_child hc h.signs⟩

end Element.Writable

/-! ## Values -/

section Values

variable {n : Nat}

/-- The number of a finite value is legible, with its sign if it has one. -/
theorem legible_numberLeaf {x : Binary64} (h : x.isFinite = true) : Legible .first n (literal (numberLeaf x)) := by
  refine legible_number (isNumeral_formatNumber h) ?_ _
  rw [Bool.eq_iff_iff, List.contains_iff_mem, decide_eq_true_iff, List.count_pos_iff]

/-- The entry of a member, without its place. -/
theorem Member.entry_erase (place : Place) (m : Member) :
    (m.entry place).erase = .pair (literal (.string m.name '"')) (m.value.element place).erase := by
  cases m with
  | mk name v =>
    have hkey : (Element.leaf ⟨place, none⟩ (.string name '"')).erase = literal (.string name '"') :=
      erase_leaf rfl (by simp)
    exact congrArg (Entry.pair · (v.element place).erase) hkey

mutual

/-- **The element of a structured value is legible.** -/
theorem Json.element_legible (place : Place) : (v : Json) → v.fits = true → ∀ n, (v.element place).Writable n →
    Legible .element n (v.element place).erase
  | .null, _, n, _ => by
    rw [Json.element, erase_leaf rfl (by simp)]
    exact (legible_ident ⟨'n', "ull".toList, rfl, by decide, by decide⟩ rfl).first.element
  | .bool b, _, n, _ => by
    rw [Json.element, erase_leaf rfl (by simp)]
    exact (legible_boolean b).first.element
  | .integer k, hfits, n, _ => by
    rw [Json.fits, decide_eq_true_iff] at hfits
    rw [Json.element, erase_leaf rfl (by simp [numberLeaf])]
    exact (legible_numberLeaf (Binary64.isFinite_ofInt (by omega))).element
  | .float x, _, n, _ => by
    rw [Json.element]
    by_cases hx : x.isFinite = true
    · rw [if_pos hx, erase_leaf rfl (by simp [numberLeaf])]
      exact (legible_numberLeaf hx).element
    · rw [if_neg hx, erase_leaf rfl (by simp)]
      exact (legible_string _ (Or.inl rfl)).first.element
  | .string s, _, n, _ => by
    rw [Json.element, erase_leaf rfl (by simp)]
    exact (legible_string s (Or.inl rfl)).first.element
  | .array items, _, 0, h => by
    rw [Json.element] at h
    exact absurd h.depth (Nat.not_succ_le_zero _)
  | .array items, hfits, n + 1, h => by
    rw [Json.fits] at hfits
    rw [Json.element] at h ⊢
    have hkinds : mixedKinds? (jsonElements place items) = none := Element.problem_eq_none h.errors
    have hitems := jsonElements_legible place items hfits n fun e he => h.inside he (by simp [Element.kind])
    rw [Element.erase_array, hkinds]
    refine (legible_array (List.forall_mem_map.mpr hitems) ?_).first.element
    rw [mixedKinds?_relabel, hkinds]
  | .object members, _, 0, h => by
    rw [Json.element] at h
    exact absurd h.depth (Nat.not_succ_le_zero _)
  | .object members, hfits, n + 1, h => by
    rw [Json.fits] at hfits
    rw [Json.element] at h ⊢
    have hinside : ∀ m ∈ members, (m.value.element place).Writable n := by
      intro m hm
      refine h.inside (mem_children_json (p := m.entry place) ?_ ?_) (by simp [Element.kind])
      · rw [jsonEntries_eq_map]
        exact List.mem_map_of_mem hm
      · cases m with
        | mk name v => simp [Member.entry, Entry.parts, Member.value]
    have hvalues := members_legible place members hfits n hinside
    have hlegible := legible_json (fun m : Member => literal (.string m.name '"')) _ (fun _ _ => rfl)
      (fun m _ => (legible_string m.name (Or.inl rfl)).first.element) hvalues
    rw [Element.erase_json, jsonEntries_eq_map, List.map_map]
    simp only [Function.comp_def, Member.entry_erase]
    exact hlegible.first.element

theorem jsonElements_legible (place : Place) : (vs : List Json) → allFit vs = true → ∀ n,
    (∀ e ∈ jsonElements place vs, e.Writable n) → ∀ e ∈ jsonElements place vs, Legible .element n e.erase
  | [], _, _, _ => by simp [jsonElements]
  | v :: vs, hfits, n, h => by
    rw [allFit, Bool.and_eq_true] at hfits
    rw [jsonElements] at h ⊢
    obtain ⟨hv, hvs⟩ := List.forall_mem_cons.mp h
    exact List.forall_mem_cons.mpr
      ⟨Json.element_legible place v hfits.1 n hv, jsonElements_legible place vs hfits.2 n hvs⟩

theorem members_legible (place : Place) : (ms : List Member) → allMembersFit ms = true → ∀ n,
    (∀ m ∈ ms, (m.value.element place).Writable n) → ∀ m ∈ ms, Legible .element n (m.value.element place).erase
  | [], _, _, _ => by simp
  | .mk name v :: ms, hfits, n, h => by
    rw [allMembersFit, Member.fits, Bool.and_eq_true] at hfits
    obtain ⟨hv, hms⟩ := List.forall_mem_cons.mp h
    exact List.forall_mem_cons.mpr
      ⟨Json.element_legible place v hfits.1 n hv, members_legible place ms hfits.2 n hms⟩

end

/-- **What stands in the place of a variable is legible.** -/
theorem resolveVariable_legible {scope : Scope} (hfits : scope.Fits) {forced : Bool} {i : Info} {name : String}
    (hi : i.problem = none) (h : (resolveVariable scope forced i name).Writable n) :
    Legible .element n (resolveVariable scope forced i name).erase := by
  have hstring : ∀ value : String, Legible .element n (Element.leaf i (.string value '"')).erase := by
    intro value
    rw [erase_leaf hi (by simp)]
    exact (legible_string value (Or.inl rfl)).first.element
  unfold resolveVariable at h ⊢
  cases hlookup : scope.lookup name with
  | none =>
    rw [hlookup] at h
    have hproblem : Problem.note i.problem (some (.unboundVariable name)) = none := Element.problem_eq_none h.errors
    cases (Problem.note_eq_none.mp hproblem).2
  | some value =>
    rw [hlookup] at h
    cases forced with
    | true => exact hstring _
    | false =>
      cases value with
      | boolean b =>
        show Legible .element n (Element.leaf i (.boolean b)).erase
        rw [erase_leaf hi (by simp)]
        exact (legible_boolean b).first.element
      | text s => exact hstring _
      | number x =>
        show Legible .element n
          (if x.isFinite then Element.leaf i (numberLeaf x) else .leaf i (.string (Value.number x).asText '"')).erase
        split
        · rename_i hx
          rw [erase_leaf hi (by simp [numberLeaf])]
          exact (legible_numberLeaf hx).element
        · exact hstring _
      | structured v =>
        have hv : ((v.element i.toPlace).noting i.problem).Writable n := h
        rw [hi, noting_none] at hv
        show Legible .element n ((v.element i.toPlace).noting i.problem).erase
        rw [hi, noting_none]
        exact Json.element_legible i.toPlace v (hfits name v hlookup) n hv

theorem Json.element_kind (place : Place) (v : Json) : (v.element place).kind ≠ .expression := by
  cases v with
  | float x =>
    rw [Json.element]
    split <;> simp [Element.kind, Leaf.kind, numberLeaf]
  | _ => simp [Json.element, Element.kind, Leaf.kind, numberLeaf]

/-- Substitution makes no expression of anything else. -/
theorem substitute_kind_ne_expression {scope : Scope} {forced : Bool} {e : Element} (h : e.kind ≠ .expression) :
    (e.substitute scope forced).kind ≠ .expression := by
  by_cases hk : e.kind = .reference
  · obtain ⟨i, name, rfl⟩ := eq_reference hk
    rw [Element.substitute]
    rcases resolveVariable_cases scope forced i name with ⟨p, heq⟩ | ⟨l, -, -, -, heq⟩ | ⟨-, v, heq⟩
    · rw [heq]
      simp [Element.kind, Leaf.kind]
    · rw [heq]
      cases l <;> simp [Element.kind, Leaf.kind]
    · rw [heq, Element.kind_noting]
      exact Json.element_kind i.toPlace v
  · rw [kind_substitute hk]
    exact h

end Values

/-! ## Trees -/

section Trees

variable {scope : Scope} {forced : Bool} {i : Info}

/-- Where there is no variable among some elements, nothing is put in. -/
theorem map_substitute_of_anyVariable {items : List Element} (h : anyVariable items = false) :
    items.map (·.substitute scope forced) = items := by
  rw [anyVariable_eq_any, List.any_eq_false] at h
  calc items.map (·.substitute scope forced)
      = items.map id := List.map_congr_left fun e he => substitute_of_hasVariable (by simpa using h e he)
    _ = items := List.map_id items

theorem substitute_tuple (items : List Element) (trailing : Bool) :
    (Element.tuple i items trailing).substitute scope forced =
      .tuple i (items.map (·.substitute scope forced)) trailing := by
  rw [Element.substitute]
  split
  · rw [substituteAll_eq_map]
  · rename_i h
    rw [map_substitute_of_anyVariable (by simpa using h)]

theorem substitute_expression (parts : List Element) :
    (Element.expression i parts none).substitute scope forced =
      .expression i (parts.map (·.substitute scope forced)) none := by
  rw [Element.substitute]
  split
  · rw [substituteAll_eq_map]
  · rename_i h
    rw [map_substitute_of_anyVariable (by simpa using h)]

theorem Entry.substitute_of_hasVariable {p : Entry} (h : p.hasVariable = false) : p.substitute scope forced = p := by
  cases p with
  | pair k v =>
    rw [Entry.hasVariable, Bool.or_eq_false_iff] at h
    rw [Entry.substitute, UiScript.substitute_of_hasVariable h.1, UiScript.substitute_of_hasVariable h.2]
  | bare k => rw [Entry.substitute, UiScript.substitute_of_hasVariable h]

theorem substitute_json (entries : List Entry) :
    (Element.json i entries).substitute scope forced = .json i (entries.map (·.substitute scope forced)) := by
  rw [Element.substitute]
  split
  · rw [substituteEntries_eq_map]
  · rename_i h
    rw [anyEntryVariable_eq_any, Bool.not_eq_true, List.any_eq_false] at h
    have hmap : entries.map (·.substitute scope forced) = entries.map id :=
      List.map_congr_left fun p hp => Entry.substitute_of_hasVariable (by simpa using h p hp)
    rw [hmap, List.map_id]

/-- An array whose items are of one kind is asked again after its variables are replaced. -/
theorem substitute_array {items : List Element} (h : mixedKinds? items = none) :
    (Element.array i items).substitute scope forced =
      .array { i with problem := Problem.note i.problem (mixedKinds? (items.map (·.substitute scope forced))) }
        (items.map (·.substitute scope forced)) := by
  rw [Element.substitute]
  split
  · rw [substituteAll_eq_map]
  · rename_i hvariable
    rw [map_substitute_of_anyVariable (by simpa using hvariable), h, Problem.note_none_right]

end Trees

namespace Grammar

/-! ## Forms -/

/-- Whatever has this erasure is legible after its variables are replaced. -/
def StaysLegible (scope : Scope) (n : Nat) (e : Element) : Prop :=
  ∀ (x : Element) (forced : Bool), x.erase = e → (x.substitute scope forced).Writable n →
    Legible .element n (x.substitute scope forced).erase

section Forms

variable {scope : Scope} {n : Nat}

/-- What has the erasure of a leaf is that leaf, somewhere. -/
theorem eq_leaf_of_erase {x : Element} {l : Leaf} (hx : x.erase = literal l) :
    ∃ i : Info, x = .leaf i l ∧ i.problem = none := by
  cases x with
  | leaf i l' =>
    obtain ⟨hi, rfl⟩ := Element.leaf.inj hx
    exact ⟨i, rfl, congrArg Info.problem hi⟩
  | _ => cases hx

/-- A leaf other than a variable stays as it is. -/
theorem staysLegible_leaf {l : Leaf} (hl : l.kind ≠ .reference) (h : Legible .element n (literal l)) :
    StaysLegible scope n (literal l) := by
  intro x forced hx _
  have hvariable : x.hasVariable = false := by
    obtain ⟨i, rfl, -⟩ := eq_leaf_of_erase hx
    cases l <;> first | rfl | exact absurd rfl hl
  rw [substitute_of_hasVariable hvariable, hx]
  exact h

theorem staysLegible_reference (hfits : scope.Fits) (name : String) :
    StaysLegible scope n (literal (.reference name)) := by
  intro x forced hx hs
  obtain ⟨i, rfl, hi⟩ := eq_leaf_of_erase hx
  rw [Element.substitute] at hs ⊢
  exact resolveVariable_legible hfits hi hs

/-- A block waits until it is run. -/
theorem staysLegible_block {commands : List Command} {text : String}
    (h : Legible .element n (.block (.blank none) commands text)) :
    StaysLegible scope n (.block (.blank none) commands text) := by
  intro x forced hx _
  have hvariable : x.hasVariable = false := by
    cases x with
    | block i commands text => rfl
    | _ => cases hx
  rw [substitute_of_hasVariable hvariable, hx]
  exact h

/-- The items of a container, with their variables replaced. -/
theorem staysLegible_items {items xs : List Element} {forced : Bool} (hitems : ∀ e ∈ items, StaysLegible scope n e)
    (hxs : xs.map Element.erase = items) (hs : ∀ x ∈ xs, (x.substitute scope forced).Writable n) :
    ∀ e ∈ (xs.map (·.substitute scope forced)).map Element.erase, Legible .element n e := by
  refine List.forall_mem_map.mpr (List.forall_mem_map.mpr fun x hx => ?_)
  exact hitems x.erase (hxs ▸ List.mem_map_of_mem hx) x forced rfl (hs x hx)

theorem staysLegible_tuple {items : List Element} (trailing : Bool) (hitems : ∀ e ∈ items, StaysLegible scope n e) :
    StaysLegible scope (n + 1) (.tuple (.blank none) items trailing) := by
  intro x forced hx hs
  cases x with
  | tuple i xs t =>
    rw [Element.erase_tuple] at hx
    obtain ⟨hi, hxs, -⟩ := Element.tuple.inj hx
    rw [substitute_tuple] at hs ⊢
    have hlegible := legible_tuple t (staysLegible_items hitems hxs fun y hy =>
      hs.inside (List.mem_map_of_mem hy) (by simp [Element.kind]))
    rw [List.length_map] at hlegible
    rw [Element.erase_tuple, hi]
    exact hlegible.first.element
  | _ => cases hx

theorem staysLegible_array {items : List Element} (hkinds : mixedKinds? items = none)
    (hitems : ∀ e ∈ items, StaysLegible scope n e) : StaysLegible scope (n + 1) (.array (.blank none) items) := by
  intro x forced hx hs
  cases x with
  | array i xs =>
    rw [Element.erase_array] at hx
    obtain ⟨-, hxs⟩ := Element.array.inj hx
    rw [← hxs, mixedKinds?_relabel] at hkinds
    rw [substitute_array hkinds] at hs ⊢
    have hproblem : Problem.note i.problem (mixedKinds? (xs.map (·.substitute scope forced))) = none :=
      Element.problem_eq_none hs.errors
    have hlegible := staysLegible_items hitems hxs fun y hy =>
      hs.inside (List.mem_map_of_mem hy) (by simp [Element.kind])
    rw [Element.erase_array, hproblem]
    refine (legible_array hlegible ?_).first.element
    rw [mixedKinds?_relabel]
    exact (Problem.note_eq_none.mp hproblem).2
  | _ => cases hx

/-- A key without a mistake is a string after substitution. -/
theorem substitute_key_string {k : Element} (hk : k.kind = .string ∨ k.kind = .reference)
    (h : (k.substitute scope true).hasErrors = false) : (k.substitute scope true).kind = .string := by
  have hvariable := substitute_hasVariable k true h
  rcases substitute_key hk with hstring | hreference
  · exact hstring
  · exact absurd hreference (Element.hasVariable_eq_false_iff.mp hvariable).1

theorem staysLegible_json {entries : List Keyed}
    (hkinds : ∀ e ∈ entries, e.key.tree.kind = .string ∨ e.key.tree.kind = .reference)
    (hkeys : ∀ e ∈ entries, StaysLegible scope n e.key.tree)
    (hvalues : ∀ e ∈ entries, StaysLegible scope n e.value.tree) :
    StaysLegible scope (n + 1) (.json (.blank none) (entries.map Keyed.entry)) := by
  intro x forced hx hs
  cases x with
  | json i ps =>
    rw [Element.erase_json] at hx
    obtain ⟨hi, hps⟩ := Element.json.inj hx
    rw [substitute_json] at hs ⊢
    have hpairs : ∀ p ∈ ps, ∃ k v, p = .pair k v ∧ ∃ e ∈ entries, k.erase = e.key.tree ∧ v.erase = e.value.tree := by
      intro p hp
      obtain ⟨e, he, heq⟩ := List.mem_map.mp (hps ▸ List.mem_map_of_mem hp)
      cases p with
      | pair k v =>
        obtain ⟨hk, hv⟩ := Entry.pair.inj heq
        exact ⟨k, v, rfl, e, he, hk.symm, hv.symm⟩
      | bare k => cases heq
    have hparts : ∀ k v, Entry.pair k v ∈ ps →
        (k.substitute scope true).Writable n ∧ (v.substitute scope forced).Writable n := by
      intro k v hp
      have hmem : (Entry.pair k v).substitute scope forced ∈ ps.map (·.substitute scope forced) :=
        List.mem_map_of_mem hp
      rw [Entry.substitute] at hmem
      constructor
      · exact hs.inside (mem_children_json hmem (by simp [Entry.parts])) (by simp [Element.kind])
      · exact hs.inside (mem_children_json hmem (by simp [Entry.parts])) (by simp [Element.kind])
    have hmap : (ps.map (·.substitute scope forced)).map Entry.erase = ps.map fun p =>
        .pair (p.key.substitute scope true).erase ((p.value?.getD p.key).substitute scope forced).erase := by
      rw [List.map_map]
      refine List.map_congr_left fun p hp => ?_
      obtain ⟨k, v, rfl, -⟩ := hpairs p hp
      rfl
    rw [Element.erase_json, hi, hmap]
    refine (legible_json _ _ ?_ ?_ ?_).first.element
    · intro p hp
      obtain ⟨k, v, rfl, e, he, hk, -⟩ := hpairs p hp
      have hkind := hkinds e he
      rw [← hk, Element.relabel_kind] at hkind
      rw [Element.relabel_kind]
      exact substitute_key_string hkind (hparts k v hp).1.errors
    · intro p hp
      obtain ⟨k, v, rfl, e, he, hk, -⟩ := hpairs p hp
      exact hkeys e he k true hk (hparts k v hp).1
    · intro p hp
      obtain ⟨k, v, rfl, e, he, -, hv⟩ := hpairs p hp
      exact hvalues e he v forced hv (hparts k v hp).2
  | _ => cases hx

/-- The operators of a chain stay, and so do the places of its operands. -/
theorem chained_substitute {forced : Bool} {links : List (Operator × Element)} {xs : List Element}
    (hxs : xs.map Element.erase = chained links) (h : ∀ x ∈ xs, ∀ l ∈ links, x.erase = l.2 →
      Legible .operand n (x.substitute scope forced).erase) :
    ∃ replaced : List (Operator × Element),
      (xs.map (·.substitute scope forced)).map Element.erase = chained replaced ∧
        replaced.length = links.length ∧ ∀ l ∈ replaced, Legible .operand n l.2 := by
  induction links generalizing xs with
  | nil =>
    rw [List.map_eq_nil_iff.mp hxs]
    exact ⟨[], rfl, rfl, by simp⟩
  | cons l links ih =>
    rw [chained, List.flatMap_cons, List.cons_append, List.cons_append, List.nil_append] at hxs
    obtain ⟨sign, rest, rfl, hsign, hrest⟩ := List.map_eq_cons_iff.mp hxs
    obtain ⟨right, tail, rfl, hright, htail⟩ := List.map_eq_cons_iff.mp hrest
    obtain ⟨i, rfl, hi⟩ := eq_leaf_of_erase hsign
    obtain ⟨replaced, heq, hlength, hall⟩ := ih htail fun x hx l hl hxl =>
      h x (List.mem_cons_of_mem _ (List.mem_cons_of_mem _ hx)) l (List.mem_cons_of_mem _ hl) hxl
    refine ⟨(l.1, (right.substitute scope forced).erase) :: replaced, ?_, by simp [hlength],
      List.forall_mem_cons.mpr ⟨h right (by simp) l List.mem_cons_self hright, hall⟩⟩
    have hoperator : ((Element.leaf i (.operator l.1)).substitute scope forced).erase = literal (.operator l.1) := by
      rw [substitute_of_hasVariable rfl, erase_leaf hi (by simp)]
    rw [List.map_cons, List.map_cons, List.map_cons, List.map_cons, hoperator, heq]
    rfl

theorem staysLegible_expression {first : Element} {links : List (Operator × Element)} (hlinks : links ≠ [])
    (hfirst : StaysLegible scope n first) (hkind : first.kind ≠ .expression)
    (hrights : ∀ l ∈ links, StaysLegible scope n l.2) (hkinds : ∀ l ∈ links, l.2.kind ≠ .expression) :
    StaysLegible scope n (.expression (.blank none) (first :: chained links) none) := by
  intro x forced hx hs
  cases x with
  | expression i xs resolved =>
    rw [Element.erase_expression] at hx
    obtain ⟨hi, hxs, rfl⟩ := Element.expression.inj hx
    rw [substitute_expression] at hs ⊢
    obtain ⟨y, ys, rfl, hy, hys⟩ := List.map_eq_cons_iff.mp hxs
    have hparts : ∀ z ∈ y :: ys, (z.substitute scope forced).Writable n :=
      fun z hz => hs.child (List.mem_map_of_mem hz)
    have hsigns : ∀ z ∈ ys, (z.substitute scope forced).isNegative = false := by
      have hsigns := hs.signs
      rw [Element.signsLead, Bool.and_eq_true, List.map_cons, List.tail_cons, List.all_map, List.all_eq_true] at hsigns
      simpa using hsigns.1
    have hkept : ∀ {z e : Element}, z.erase = e → e.kind ≠ .expression →
        (z.substitute scope forced).erase.kind ≠ .expression := by
      rintro z e rfl hk
      rw [Element.relabel_kind] at hk ⊢
      exact substitute_kind_ne_expression hk
    obtain ⟨replaced, heq, hlength, hlegible⟩ := chained_substitute hys fun z hz l hl hzl => by
      have hz' := hrights l hl z forced hzl (hparts z (List.mem_cons_of_mem _ hz))
      exact hz'.operand_of_kind (hkept hzl (hkinds l hl)) (by rw [Element.relabel_isNegative, hsigns z hz])
    have hne : replaced ≠ [] := by
      rw [List.ne_nil_iff_length_pos, hlength]
      exact List.length_pos_iff.mpr hlinks
    rw [Element.erase_expression, hi, List.map_cons, List.map_cons, heq]
    have hleading := hfirst y forced hy (hparts y List.mem_cons_self)
    exact legible_expression (hleading.first_of_kind (hkept hy hkind)) hne hlegible
  | _ => cases hx

end Forms

/-! ## Derivations -/

section Derivations

variable {original : List Char} {form : Form} {n : Nat} {ms : List Mark} {e : Element} {scope : Scope}

theorem Legible.ofForm (h : Legible form n e) : Legible .element n e := by
  cases form with
  | operand => exact h.first.element
  | first => exact h.element
  | element => exact h

/-- Only whole elements are expressions. -/
theorem Derives.kind_ne_expression (h : Derives (BlockIn .any original) form n ms e) (hform : form ≠ .element) :
    e.kind ≠ .expression := by
  induction h with
  | block hblock =>
    obtain ⟨commands, text, rfl⟩ := (lawfulBlock_blockIn .any original).tree hblock
    simp [Element.kind]
  | operand _ ih => exact ih (by simp)
  | first _ _ => exact absurd rfl hform
  | expression _ _ _ _ _ _ => exact absurd rfl hform
  | _ => simp [Element.kind, Leaf.kind, literal]

/-- What is derived shows all of its signs: after an operator none is read. -/
theorem Derives.signsLead (h : Derives (BlockIn .any original) form n ms e) :
    e.signsLead = true ∧ (form = .operand → e.isNegative = false) := by
  induction h with
  | block hblock =>
    obtain ⟨commands, text, rfl⟩ := (lawfulBlock_blockIn .any original).tree hblock
    exact ⟨rfl, fun _ => rfl⟩
  | operand _ ih => exact ⟨ih.1, by simp⟩
  | first _ ih => exact ⟨ih.1, by simp⟩
  | negative => exact ⟨rfl, by simp⟩
  | tuple _ _ _ _ ih =>
    refine ⟨?_, fun _ => rfl⟩
    rw [Element.signsLead, allSignsLead_eq_all, List.all_map, List.all_eq_true]
    exact fun p hp => (ih p hp).1
  | array _ _ _ _ _ ih =>
    refine ⟨?_, fun _ => rfl⟩
    rw [Element.signsLead, allSignsLead_eq_all, List.all_map, List.all_eq_true]
    exact fun p hp => (ih p hp).1
  | json _ _ _ _ _ _ _ ihkeys ihvalues =>
    refine ⟨?_, fun _ => rfl⟩
    rw [Element.signsLead, allEntrySignsLead_eq_all, List.all_map, List.all_eq_true]
    intro k hk
    show (k.key.tree.signsLead && k.value.tree.signsLead) = true
    rw [(ihkeys k hk).1, (ihvalues k hk).1, Bool.and_self]
  | expression _ _ _ _ ihfirst ihrights =>
    refine ⟨?_, by simp⟩
    rw [Element.signsLead, allSignsLead_eq_all, List.tail_cons, Bool.and_eq_true, List.all_cons, Bool.and_eq_true,
      List.all_flatMap, List.all_flatMap, List.all_eq_true, List.all_eq_true]
    refine ⟨fun l hl => ?_, ihfirst.1, fun l hl => ?_⟩
    · have hoperator : (literal (.operator l.op)).isNegative = false := rfl
      simp [Link.parts, hoperator, (ihrights l hl).2 rfl]
    · have hoperator : (literal (.operator l.op)).signsLead = true := rfl
      simp [Link.parts, hoperator, (ihrights l hl).1]
  | _ => exact ⟨rfl, fun _ => rfl⟩

/-- **After substitution a tree that was read is legible.** -/
theorem Derives.staysLegible (h : Derives (BlockIn .any original) form n ms e) (hvalid : ∀ m ∈ ms, m.1.Valid)
    (hfits : scope.Fits) : StaysLegible scope n e := by
  -- what has no variable is legible as it was read
  have hself : Legible .element n e := (h.legible hvalid).ofForm
  induction h with
  | string | number | boolean | ident | negative => exact staysLegible_leaf (by simp [Leaf.kind]) hself
  | reference => exact staysLegible_reference hfits _
  | block hblock =>
    obtain ⟨commands, text, rfl⟩ := (lawfulBlock_blockIn .any original).tree hblock
    exact staysLegible_block hself
  | operand _ ih => exact ih hvalid hself
  | first _ ih => exact ih hvalid hself
  | @tuple n opener closer items body trailing hopener hcloser hbody hitems ih =>
    have hmarks : ∀ p ∈ items, ∀ m ∈ p.marks, m.1.Valid := fun p hp => hbody.valid hvalid _ (List.mem_map_of_mem hp)
    exact staysLegible_tuple _ (List.forall_mem_map.mpr fun p hp =>
      ih p hp (hmarks p hp) ((hitems p hp).legible (hmarks p hp)))
  | @array n opener closer items body trailing hopener hcloser hbody hitems huniform ih =>
    have hmarks : ∀ p ∈ items, ∀ m ∈ p.marks, m.1.Valid := fun p hp => hbody.valid hvalid _ (List.mem_map_of_mem hp)
    have hkinds : mixedKinds? (items.map Piece.tree) = none :=
      (mixedKinds?_eq_none (List.forall_mem_map.mpr fun p hp =>
        (hitems p hp).isDecided_iff (lawfulBlock_blockIn .any original))).mpr huniform
    exact staysLegible_array hkinds (List.forall_mem_map.mpr fun p hp =>
      ih p hp (hmarks p hp) ((hitems p hp).legible (hmarks p hp)))
  | @json n opener closer entries body trailing hopener hcloser hbody _ hkinds hkeys hvalues ihkeys ihvalues =>
    have hmarks := fun e he => hbody.valid hvalid _ (List.mem_map_of_mem (a := e) he)
    have hkey : ∀ e ∈ entries, ∀ m ∈ e.key.marks, m.1.Valid :=
      fun e he m hm => hmarks e he m (by simp [Keyed.marks, hm])
    have hvalue : ∀ e ∈ entries, ∀ m ∈ e.value.marks, m.1.Valid :=
      fun e he m hm => hmarks e he m (by simp [Keyed.marks, hm])
    exact staysLegible_json hkinds
      (fun e he => ihkeys e he (hkey e he) ((hkeys e he).legible (hkey e he)).ofForm)
      fun e he => ihvalues e he (hvalue e he) ((hvalues e he).legible (hvalue e he))
  | @expression n ms e links hfirst hlinks _ hrights ihfirst ihrights =>
    have hleading : ∀ m ∈ ms, m.1.Valid := fun m hm => hvalid m (List.mem_append_left _ hm)
    have hright : ∀ l ∈ links, ∀ m ∈ l.right.marks, m.1.Valid := fun l hl m hm =>
      hvalid m (List.mem_append_right _ (List.mem_flatMap.mpr ⟨l, hl, List.mem_cons_of_mem _ hm⟩))
    have hparts : links.flatMap Link.parts = chained (links.map fun l => (l.op, l.right.tree)) := by
      rw [chained, List.flatMap_map]
      rfl
    rw [hparts]
    refine staysLegible_expression (by simpa using hlinks)
      (ihfirst hleading (hfirst.legible hleading).ofForm) (hfirst.kind_ne_expression (by simp))
      (List.forall_mem_map.mpr fun l hl => ?_) (List.forall_mem_map.mpr fun l hl => ?_)
    · exact ihrights l hl (hright l hl) ((hrights l hl).legible (hright l hl)).ofForm
    · exact (hrights l hl).kind_ne_expression (by simp)

end Derivations

end Grammar

/-- **Substituted texts are read back.** Let `s` be an element that was read without a mistake and then had its
variables replaced. If `s` has no mistake, so that all its variables have values, and if its containers fit the levels
that there are, then the text of `s` is read without a mistake as `s`, up to places and the commas that are not written,
exactly if no operand after an operator is a negative number. -/
theorem parse_substitute_text (text : String) (scope : Scope) (hfits : scope.Fits)
    (h : (Element.parse text).hasErrors = false)
    (hs : ((Element.parse text).substitute scope false).hasErrors = false)
    (hdepth : ((Element.parse text).substitute scope false).depth ≤ maxNesting) :
    (Element.parse ((Element.parse text).substitute scope false).text).hasErrors = false ∧
        (Element.parse ((Element.parse text).substitute scope false).text).erase =
          ((Element.parse text).substitute scope false).erase ↔
      ((Element.parse text).substitute scope false).signsLead = true := by
  constructor
  · rintro ⟨herrors, heq⟩
    have hderives := parse_sound (lawfulBlock_blockIn .any _) (blocksSound_blockIn .any _) herrors
    rw [heq] at hderives
    rw [← Element.relabel_signsLead]
    exact hderives.signsLead.1
  · intro hsigns
    have hderives := parse_sound (lawfulBlock_blockIn .any text.toList) (blocksSound_blockIn .any text.toList) h
    have hvalid : ∀ m ∈ marks 0 (scan text.toList), m.1.Valid := fun m hm => scan_valid _ _ (mem_of_mem_marks hm)
    have heq := (hderives.staysLegible hvalid hfits (Element.parse text) false rfl ⟨hs, hdepth, hsigns⟩).parse
    rw [Element.relabel_text] at heq
    exact ⟨by rw [Element.hasErrors_eq_of_erase_eq heq, hs], heq⟩

/-- A negative number, a text with a line end in it, and a dictionary of numbers. -/
def mixedScope : Scope :=
  { globals := some ⟨[("a", .number (.ofInt (-2))), ("k", .text "x\n|y|"),
      ("v", .structured (.object [.mk "q" (.array [.integer (-1), .float (.finite false 1 (-1))])]))]⟩
    useEnvironment := false }

set_option maxRecDepth 10000 in
/-- A number with a sign in front of an operator, a key, and a dictionary inside an array. -/
theorem parse_substitute_text_mixed :
    ((Element.parse "(|a| + 1, \x7b|k|: [|v|]\x7d)").substitute mixedScope false).text =
        "(-2 + 1, \x7b\"x\\n|y|\": [\x7b\"q\": [-1, 0.5]\x7d]\x7d)" ∧
      (Element.parse ((Element.parse "(|a| + 1, \x7b|k|: [|v|]\x7d)").substitute mixedScope false).text).hasErrors =
        false ∧
      (Element.parse ((Element.parse "(|a| + 1, \x7b|k|: [|v|]\x7d)").substitute mixedScope false).text).erase =
        ((Element.parse "(|a| + 1, \x7b|k|: [|v|]\x7d)").substitute mixedScope false).erase := by
  have hfits : mixedScope.Fits := by
    intro name v hlookup
    simp only [Scope.lookup, mixedScope, Bindings.get?, List.lookup_cons, List.lookup_nil, Option.bind_none,
      Option.bind_some, Option.none_or, Bool.false_eq_true, if_false, Option.or_none] at hlookup
    repeat' split at hlookup
    all_goals cases hlookup
    decide +kernel
  exact ⟨by decide +kernel, (parse_substitute_text _ mixedScope hfits (by decide +kernel) (by decide +kernel)
    (by decide +kernel)).mpr (by decide +kernel)⟩

/-- One variable with a negative value. -/
def negativeScope : Scope := { globals := some ⟨[("x", .number (.ofInt (-1)))]⟩, useEnvironment := false }

set_option maxRecDepth 10000 in
/-- **A negative number after an operator is not read back**: its sign is taken for a second operator. -/
theorem parse_substitute_negative :
    (Element.parse "1 + |x|").hasErrors = false ∧
      ((Element.parse "1 + |x|").substitute negativeScope false).hasErrors = false ∧
      ((Element.parse "1 + |x|").substitute negativeScope false).depth ≤ maxNesting ∧
      ((Element.parse "1 + |x|").substitute negativeScope false).text = "1 + -1" ∧
      (Element.parse ((Element.parse "1 + |x|").substitute negativeScope false).text).hasErrors = true := by
  decide +kernel

end UiScript
