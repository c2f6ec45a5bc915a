import UiScript.Proofs.Preparation
import UiScript.Proofs.Reparsing

/-!
# Preparing twice is preparing once

A prepared command is left as it is when it is prepared again with the same values and settings
(`prepare_idempotent`), whatever is still wrong with it: variables without a value, operands of the wrong kind, arrays
of several kinds. Three facts make this up. Putting in values and evaluating are idempotent each
(`substitute_substitute`, `evaluate_evaluate`), and what all values were put into stays so when it is evaluated
(`substitute_evaluate`). An array is asked for the kinds of its items in every pass, but what the last pass found is on
record by then (`Problem.note_note`).
-/

namespace UiScript

/-- What changes no item of a list a second time does not change the list a second time. -/
theorem map_map_of_fixed {α : Type} {f : α → α} {xs : List α} (h : ∀ x ∈ xs, f (f x) = f x) :
    (xs.map f).map f = xs.map f := by
  rw [List.map_map]
  exact List.map_congr_left h

/-- The items of a list that is not changed are not changed. -/
theorem fixed_of_map {α : Type} {f : α → α} {xs : List α} (h : xs.map f = xs) : ∀ x ∈ xs, f x = x := by
  induction xs with
  | nil => simp
  | cons x xs ih =>
    obtain ⟨hx, hxs⟩ := List.cons.inj h
    exact List.forall_mem_cons.mpr ⟨hx, ih hxs⟩

/-! ## Arrays -/

/-- A problem that was noted is not noted again. -/
theorem Problem.note_note (p q : Option Problem) : Problem.note (Problem.note p q) q = Problem.note p q := by
  have hself : Problem.note q q = q := by
    cases q <;> simp [Problem.note]
  rw [Problem.note_assoc, hself]

/-- An array after a pass that asked for the kinds of its items. -/
def Element.askedArray (i : Info) (items : List Element) : Element :=
  .array { i with problem := Problem.note i.problem (mixedKinds? items) } items

section Arrays

variable {scope : Scope} {forced : Bool} {settings : Settings} {i : Info} {items : List Element}

theorem substitute_array_of_anyVariable (h : anyVariable items = true) :
    (Element.array i items).substitute scope forced = .askedArray i (items.map (·.substitute scope forced)) := by
  rw [Element.substitute, if_pos h, substituteAll_eq_map, Element.askedArray]

theorem evaluate_array_of_anyUnresolved (h : anyUnresolved items = true) :
    (Element.array i items).evaluate settings = .askedArray i (items.map (·.evaluate settings)) := by
  rw [Element.evaluate, if_pos h, evaluateAll_eq_map, Element.askedArray]

/-- An array that is asked again gives the answer that it has given. -/
theorem substitute_askedArray (h : items.map (·.substitute scope forced) = items) :
    (Element.askedArray i items).substitute scope forced = .askedArray i items := by
  rw [Element.askedArray, Element.substitute, substituteAll_eq_map, h]
  split
  · dsimp only
    rw [Problem.note_note]
  · rfl

theorem evaluate_askedArray (h : items.map (·.evaluate settings) = items) :
    (Element.askedArray i items).evaluate settings = .askedArray i items := by
  rw [Element.askedArray, Element.evaluate, evaluateAll_eq_map, h]
  split
  · dsimp only
    rw [Problem.note_note]
  · rfl

end Arrays

/-! ## Values -/

section Values

variable {scope : Scope}

/-- What stands in the place of a variable that has a value is no variable. -/
theorem resolveVariable_closed (forced : Bool) (i : Info) {name : String} {value : Value}
    (hvalue : scope.lookup name = some value) : (resolveVariable scope forced i name).hasVariable = false := by
  unfold resolveVariable
  rw [hvalue]
  dsimp only
  split
  · rfl
  · split
    · rfl
    · split <;> rfl
    · rename_i v
      rw [Element.hasVariable_noting]
      exact (Json.element_closed i.toPlace v).2
    · rfl

/-- A variable that has no value has none the next time, and has its problem already. -/
theorem substitute_resolveVariable (forced : Bool) (i : Info) (name : String) :
    (resolveVariable scope forced i name).substitute scope forced = resolveVariable scope forced i name := by
  cases hvalue : scope.lookup name with
  | some value => exact substitute_of_hasVariable (resolveVariable_closed forced i hvalue)
  | none =>
    have hstays : ∀ j : Info, resolveVariable scope forced j name =
        .leaf { j with problem := Problem.note j.problem (some (.unboundVariable name)) } (.reference name) := by
      intro j
      simp only [resolveVariable, hvalue]
    rw [hstays, Element.substitute, hstays]
    dsimp only
    rw [Problem.note_note]

/-- **Putting in values is idempotent.** -/
theorem substitute_substitute (e : Element) :
    ∀ forced, (e.substitute scope forced).substitute scope forced = e.substitute scope forced := by
  induction e using Element.byChildren with
  | h e ih =>
    intro forced
    have hmap : ∀ items : List Element, (∀ c ∈ items, c ∈ e.children) →
        (items.map (·.substitute scope forced)).map (·.substitute scope forced) =
          items.map (·.substitute scope forced) :=
      fun items hitems => map_map_of_fixed fun c hc => ih c (hitems c hc) forced
    cases e with
    | leaf i l =>
      cases l with
      | reference name =>
        rw [Element.substitute]
        exact substitute_resolveVariable forced i name
      | _ => simp [Element.substitute]
    | tuple i items trailing => rw [substitute_tuple, substitute_tuple, hmap items fun _ hc => hc]
    | array i items =>
      by_cases hvariable : anyVariable items = true
      · rw [substitute_array_of_anyVariable hvariable, substitute_askedArray (hmap items fun _ hc => hc)]
      · rw [Element.substitute, if_neg hvariable, Element.substitute, if_neg hvariable]
    | json i entries =>
      have hentries : ∀ p ∈ entries,
          (p.substitute scope forced).substitute scope forced = p.substitute scope forced := by
        intro p hp
        have hpart := fun c hc => ih c (mem_children_json hp hc)
        cases p with
        | pair k v => simp [Entry.substitute, hpart k (by simp [Entry.parts]), hpart v (by simp [Entry.parts])]
        | bare k => simp [Entry.substitute, hpart k (by simp [Entry.parts])]
      rw [substitute_json, substitute_json, map_map_of_fixed hentries]
    | expression i parts resolved =>
      by_cases hvariable : anyVariable parts = true
      · rw [Element.substitute, if_pos hvariable, substituteAll_eq_map, substitute_expression,
          hmap parts fun _ hc => hc]
      · rw [Element.substitute, if_neg hvariable, Element.substitute, if_neg hvariable]
    | block i commands text => simp [Element.substitute]

end Values

/-! ## Evaluation -/

section Evaluation

variable {settings : Settings}

/-- Evaluation goes into the entries of a dictionary. -/
theorem evaluate_json (i : Info) (entries : List Entry) :
    (Element.json i entries).evaluate settings = .json i (entries.map (·.evaluate settings)) := by
  rw [Element.evaluate]
  split
  · rw [evaluateEntries_eq_map]
  · rename_i h
    rw [anyEntryUnresolved_eq_any, Bool.not_eq_true, List.any_eq_false] at h
    have hentry : ∀ p ∈ entries, p.evaluate settings = p := by
      intro p hp
      have hopen := h p hp
      cases p with
      | pair k v =>
        rw [Entry.hasUnresolved, Bool.or_eq_true, not_or, Bool.not_eq_true, Bool.not_eq_true] at hopen
        rw [Entry.evaluate, evaluate_of_hasUnresolved hopen.1, evaluate_of_hasUnresolved hopen.2]
      | bare k =>
        rw [Entry.hasUnresolved, Bool.not_eq_true] at hopen
        rw [Entry.evaluate, evaluate_of_hasUnresolved hopen]
    rw [List.map_congr_left hentry, List.map_id']

/-- **Evaluation is idempotent.** -/
theorem evaluate_evaluate (e : Element) : (e.evaluate settings).evaluate settings = e.evaluate settings := by
  induction e using Element.byChildren with
  | h e ih =>
    have hmap : ∀ items : List Element, (∀ c ∈ items, c ∈ e.children) →
        (items.map (·.evaluate settings)).map (·.evaluate settings) = items.map (·.evaluate settings) :=
      fun items hitems => map_map_of_fixed fun c hc => ih c (hitems c hc)
    cases e with
    | leaf i l => rw [evaluate_leaf, evaluate_leaf]
    | tuple i items trailing => rw [evaluate_tuple, evaluate_tuple, hmap items fun _ hc => hc]
    | array i items =>
      by_cases hopen : anyUnresolved items = true
      · rw [evaluate_array_of_anyUnresolved hopen, evaluate_askedArray (hmap items fun _ hc => hc)]
      · rw [Element.evaluate, if_neg hopen, Element.evaluate, if_neg hopen]
    | json i entries =>
      have hentries : ∀ p ∈ entries, (p.evaluate settings).evaluate settings = p.evaluate settings := by
        intro p hp
        have hpart := fun c hc => ih c (mem_children_json hp hc)
        cases p with
        | pair k v => simp [Entry.evaluate, hpart k (by simp [Entry.parts]), hpart v (by simp [Entry.parts])]
        | bare k => simp [Entry.evaluate, hpart k (by simp [Entry.parts])]
      rw [evaluate_json, evaluate_json, map_map_of_fixed hentries]
    | expression i parts resolved =>
      cases resolved with
      | some r => simp only [Element.evaluate]
      | none =>
        rcases evaluate_expression settings i parts with ⟨heq, -⟩ | ⟨-, -, -, heq⟩
        · rw [heq, heq]
        · rw [heq]
          rcases @resolveChain_forms settings i (parts.map (·.evaluate settings)) with
            ⟨hform, -⟩ | ⟨p, hform⟩ | ⟨r, hform⟩ | ⟨hliteral, -⟩
          · -- a chain that stays open is folded again, to the same end
            rcases evaluate_expression settings i (parts.map (·.evaluate settings)) with ⟨heq', -⟩ | ⟨-, -, -, heq'⟩
            · rw [hform, heq']
            · rw [hform, heq', hmap parts fun _ hc => hc, hform]
          · rw [hform, Element.evaluate]
            rfl
          · rw [hform, Element.evaluate]
          · exact evaluate_of_hasUnresolved (isLiteral_settled _ hliteral).2
    | block i commands text => simp only [Element.evaluate]

/-- Evaluation brings in no variable. -/
theorem evaluate_hasVariable (e : Element) : e.hasVariable = false → (e.evaluate settings).hasVariable = false := by
  induction e using Element.byChildren with
  | h e ih =>
    intro h
    have hparts : ∀ c ∈ e.children.map (·.evaluate settings), c.hasVariable = false :=
      List.forall_mem_map.mpr fun c hc => ih c hc (Element.hasVariable_child hc h)
    by_cases hk : e.kind = .expression
    · cases e with
      | expression i parts resolved =>
        have hchain : ∀ r j, (Element.expression j (parts.map (·.evaluate settings)) r).hasVariable = false :=
          fun r j => Element.hasVariable_eq_false_iff.mpr ⟨by simp [Element.kind], hparts⟩
        cases resolved with
        | some r => rwa [Element.evaluate]
        | none =>
          rcases evaluate_expression settings i parts with ⟨heq, -⟩ | ⟨-, -, -, heq⟩
          · rwa [heq]
          · rw [heq]
            rcases @resolveChain_forms settings i (parts.map (·.evaluate settings)) with
              ⟨hform, -⟩ | ⟨p, hform⟩ | ⟨r, hform⟩ | ⟨hliteral, -⟩
            · rw [hform, hchain]
            · rw [hform, hchain]
            · rw [hform, hchain]
            · exact (isLiteral_settled _ hliteral).1
      | leaf i l => cases l <;> cases hk
      | _ => cases hk
    · rw [Element.hasVariable_eq_false_iff, kind_evaluate hk, children_evaluate hk]
      exact ⟨(Element.hasVariable_eq_false_iff.mp h).1, hparts⟩

end Evaluation

/-! ## Evaluation of what values were put into -/

section Both

variable {scope : Scope} {settings : Settings}

/-- Where an array is not changed, its items are not changed. -/
theorem fixed_of_array {forced : Bool} {i : Info} {items : List Element}
    (h : (Element.array i items).substitute scope forced = .array i items) :
    ∀ c ∈ items, c.substitute scope forced = c := by
  by_cases hvariable : anyVariable items = true
  · rw [substitute_array_of_anyVariable hvariable] at h
    exact fixed_of_map (Element.array.inj h).2
  · exact fixed_of_map (map_substitute_of_anyVariable (by simpa using hvariable))

/-- **What all values were put into stays so when it is evaluated.** -/
theorem substitute_evaluate (e : Element) : ∀ forced, e.substitute scope forced = e →
    (e.evaluate settings).substitute scope forced = e.evaluate settings := by
  induction e using Element.byChildren with
  | h e ih =>
    intro forced h
    have hmap : ∀ items : List Element, (∀ c ∈ items, c ∈ e.children) →
        (∀ c ∈ items, c.substitute scope forced = c) →
        (items.map (·.evaluate settings)).map (·.substitute scope forced) = items.map (·.evaluate settings) := by
      intro items hitems hfixed
      rw [List.map_map]
      exact List.map_congr_left fun c hc => ih c (hitems c hc) forced (hfixed c hc)
    cases e with
    | leaf i l => rwa [evaluate_leaf]
    | tuple i items trailing =>
      rw [substitute_tuple] at h
      rw [evaluate_tuple, substitute_tuple, hmap items (fun _ hc => hc) (fixed_of_map (Element.tuple.inj h).2.1)]
    | array i items =>
      by_cases hopen : anyUnresolved items = true
      · rw [evaluate_array_of_anyUnresolved hopen,
          substitute_askedArray (hmap items (fun _ hc => hc) (fixed_of_array h))]
      · rwa [Element.evaluate, if_neg hopen]
    | json i entries =>
      rw [substitute_json] at h
      have hfixed := fixed_of_map (Element.json.inj h).2
      have hentries : ∀ p ∈ entries, (p.evaluate settings).substitute scope forced = p.evaluate settings := by
        intro p hp
        have hpart := fun c hc => ih c (mem_children_json hp hc)
        have hp := hfixed p hp
        cases p with
        | pair k v =>
          rw [Entry.substitute] at hp
          obtain ⟨hk, hv⟩ := Entry.pair.inj hp
          simp [Entry.evaluate, Entry.substitute, hpart k (by simp [Entry.parts]) true hk,
            hpart v (by simp [Entry.parts]) forced hv]
        | bare k =>
          rw [Entry.substitute] at hp
          simp [Entry.evaluate, Entry.substitute, hpart k (by simp [Entry.parts]) true (Entry.bare.inj hp)]
      rw [evaluate_json, substitute_json, List.map_map]
      exact congrArg (Element.json i) (List.map_congr_left hentries)
    | expression i parts resolved =>
      cases resolved with
      | some r => rwa [Element.evaluate]
      | none =>
        rcases evaluate_expression settings i parts with ⟨heq, -⟩ | ⟨-, -, hvariable, -⟩
        · rwa [heq]
        · exact substitute_of_hasVariable (evaluate_hasVariable _ hvariable)
    | block i commands text => rwa [Element.evaluate]

end Both

/-! ## Commands -/

/-- **Preparing twice is preparing once.** A prepared command that is prepared again, with the same values and settings,
is the same command with the same diagnostics. So it is with each of the two steps: putting in values, as they are or
as strings, and evaluation. -/
theorem prepare_idempotent (scope : Scope) (settings : Settings) :
    (∀ c : Command, (c.prepare scope settings).command.prepare scope settings = c.prepare scope settings) ∧
      ∀ e : Element,
        (∀ forced, (e.substitute scope forced).substitute scope forced = e.substitute scope forced) ∧
          (e.evaluate settings).evaluate settings = e.evaluate settings := by
  refine ⟨fun c => ?_, fun e => ⟨substitute_substitute e, evaluate_evaluate e⟩⟩
  have hargument : ∀ a : Element,
      (((a.substitute scope false).evaluate settings).substitute scope false).evaluate settings =
        (a.substitute scope false).evaluate settings := by
    intro a
    rw [substitute_evaluate _ false (substitute_substitute a false), evaluate_evaluate]
  cases c with
  | bare h => rfl
  | given h a => simp only [Command.prepare, Command.withArgument, Command.argument?, Command.head, Command.make,
      Option.map_some, hargument]

end UiScript
