import UiScript.Preparation
import UiScript.Proofs.Element.Report
import UiScript.Proofs.Evaluation
import UiScript.Proofs.Substitution

/-!
# What is reported after preparation

Preparing a command hides no problem (`prepare_reports`). Each element has room for one problem, so the problem of a
variable may give way to another one when its value is put in; all other diagnostics (`Command.lastingDiagnostics`) are
reported again, word for word and in the same order. Without variables, these are all (`Element.lastingDiagnostics_eq`).

Putting in values (`Element.substitute_reported`) replaces the problems of variables by others that weigh no less, and
evaluation (`Element.diagnostics_evaluate`) only adds to what is reported.
-/

namespace UiScript

/-! ## Lasting diagnostics -/

mutual

/-- The reports of an element without those of its variables outside blocks. -/
def Element.lastingDiagnostics : Element → Diagnostics
  | .leaf _ (.reference _) => []
  | .leaf i _ => i.diagnostics
  | .tuple i items _ => i.diagnostics ++ lastingDiagnosticsOf items
  | .array i items => i.diagnostics ++ lastingDiagnosticsOf items
  | .json i entries => i.diagnostics ++ lastingEntryDiagnostics entries
  | .expression i parts _ => i.diagnostics ++ lastingDiagnosticsOf parts
  | .block i commands _ => i.diagnostics ++ commandDiagnostics commands

/-- The lasting reports of several elements. -/
def lastingDiagnosticsOf : List Element → Diagnostics
  | [] => []
  | e :: es => e.lastingDiagnostics ++ lastingDiagnosticsOf es

/-- The lasting reports of an entry. -/
def Entry.lastingDiagnostics : Entry → Diagnostics
  | .pair k v => k.lastingDiagnostics ++ v.lastingDiagnostics
  | .bare k => k.lastingDiagnostics

/-- The lasting reports of several entries. -/
def lastingEntryDiagnostics : List Entry → Diagnostics
  | [] => []
  | p :: ps => p.lastingDiagnostics ++ lastingEntryDiagnostics ps

end

/-- The reports of a command without those of its variables outside blocks. -/
def Command.lastingDiagnostics : Command → Diagnostics
  | .bare h => h.diagnostics
  | .given h a => h.diagnostics ++ a.lastingDiagnostics

mutual

/-- **Without variables, all reports last.** -/
theorem Element.lastingDiagnostics_eq : (e : Element) → e.hasVariable = false → e.lastingDiagnostics = e.diagnostics
  | .leaf i l, h => by
    cases l with
    | reference name => cases h
    | _ => rfl
  | .tuple i items _, h => by rw [Element.lastingDiagnostics, Element.diagnostics, lastingDiagnosticsOf_eq items h]
  | .array i items, h => by rw [Element.lastingDiagnostics, Element.diagnostics, lastingDiagnosticsOf_eq items h]
  | .json i entries, h => by
    rw [Element.lastingDiagnostics, Element.diagnostics, lastingEntryDiagnostics_eq entries h]
  | .expression i parts _, h => by
    rw [Element.lastingDiagnostics, Element.diagnostics, lastingDiagnosticsOf_eq parts h]
  | .block i commands _, _ => by rw [Element.lastingDiagnostics, Element.diagnostics]

theorem lastingDiagnosticsOf_eq : (es : List Element) → anyVariable es = false →
    lastingDiagnosticsOf es = diagnosticsOf es
  | [], _ => rfl
  | e :: es, h => by
    rw [anyVariable, Bool.or_eq_false_iff] at h
    rw [lastingDiagnosticsOf, diagnosticsOf, Element.lastingDiagnostics_eq e h.1, lastingDiagnosticsOf_eq es h.2]

theorem Entry.lastingDiagnostics_eq : (p : Entry) → p.hasVariable = false → p.lastingDiagnostics = p.diagnostics
  | .pair k v, h => by
    rw [Entry.hasVariable, Bool.or_eq_false_iff] at h
    rw [Entry.lastingDiagnostics, Entry.diagnostics, Element.lastingDiagnostics_eq k h.1,
      Element.lastingDiagnostics_eq v h.2]
  | .bare k, h => by rw [Entry.lastingDiagnostics, Entry.diagnostics, Element.lastingDiagnostics_eq k h]

theorem lastingEntryDiagnostics_eq : (ps : List Entry) → anyEntryVariable ps = false →
    lastingEntryDiagnostics ps = entryDiagnostics ps
  | [], _ => rfl
  | p :: ps, h => by
    rw [anyEntryVariable, Bool.or_eq_false_iff] at h
    rw [lastingEntryDiagnostics, entryDiagnostics, Entry.lastingDiagnostics_eq p h.1, lastingEntryDiagnostics_eq ps h.2]

end

/-! ## Reports that hide nothing -/

/-- The reports after a change hide nothing: they are not fewer than those before it, some are fatal if some were, and
the lasting ones are among them. -/
structure Reported (lasting before after : Diagnostics) : Prop where
  length : before.length ≤ after.length
  fatal : before.hasFatal = true → after.hasFatal = true
  lasting : lasting.Sublist after

theorem Diagnostics.hasFatal_of_sublist {ds es : Diagnostics} (hs : ds.Sublist es) (h : ds.hasFatal = true) :
    es.hasFatal = true := by
  obtain ⟨d, hd, hfatal⟩ := List.any_eq_true.mp h
  exact List.any_eq_true.mpr ⟨d, hs.subset hd, hfatal⟩

namespace Reported

variable {lasting before after : Diagnostics}

theorem refl (ds : Diagnostics) : Reported ds ds ds := ⟨Nat.le_refl _, id, .refl _⟩

theorem trans_sublist {more : Diagnostics} (h : Reported lasting before after) (hs : after.Sublist more) :
    Reported lasting before more where
  length := Nat.le_trans h.length hs.length_le
  fatal := fun hfatal => Diagnostics.hasFatal_of_sublist hs (h.fatal hfatal)
  lasting := h.lasting.trans hs

theorem append {lasting' before' after' : Diagnostics} (h : Reported lasting before after)
    (h' : Reported lasting' before' after') : Reported (lasting ++ lasting') (before ++ before') (after ++ after') where
  length := by
    rw [List.length_append, List.length_append]
    exact Nat.add_le_add h.length h'.length
  fatal := by
    rw [Diagnostics.hasFatal_append, Diagnostics.hasFatal_append, Bool.or_eq_true, Bool.or_eq_true]
    exact Or.imp h.fatal h'.fatal
  lasting := h.lasting.append h'.lasting

end Reported

/-- Where one of two problems is kept, enough is reported for each of them. -/
theorem reported_of_note {i : Info} {e : Element} {p q : Option Problem} (hnote : e.problem = Problem.note p q)
    (hi : i.problem = p ∨ i.problem = q) : Reported [] i.diagnostics e.diagnostics := by
  have hown : e.info.diagnostics.Sublist e.diagnostics := by
    cases e with
    | leaf j l => exact List.Sublist.refl _
    | _ =>
      rw [Element.diagnostics]
      exact List.sublist_append_left _ _
  have hnote : e.info.problem = Problem.note p q := hnote
  refine Reported.trans_sublist ⟨?_, ?_, List.nil_sublist _⟩ hown
  · cases he : e.info.problem with
    | none =>
      obtain ⟨hp, hq⟩ := Problem.note_eq_none.mp (hnote.symm.trans he)
      have hnone : i.problem = none := hi.elim (·.trans hp) (·.trans hq)
      simp [Info.diagnostics, hnone]
    | some r => cases hi : i.problem <;> simp [Info.diagnostics, hi, he]
  · rw [Info.diagnostics_hasFatal, Info.diagnostics_hasFatal, hnote, isFatalProblem_note, Bool.or_eq_true]
    intro hfatal
    rcases hi with rfl | rfl
    · exact Or.inl hfatal
    · exact Or.inr hfatal

/-- A problem that is not fatal takes the place of none. -/
theorem Info.diagnostics_note (i : Info) {p : Option Problem} (hp : isFatalProblem p = false) :
    i.diagnostics.Sublist { i with problem := Problem.note i.problem p : Info }.diagnostics := by
  cases hi : i.problem with
  | none => simp [Info.diagnostics, hi]
  | some q =>
    cases p with
    | none => simp [Info.diagnostics, hi]
    | some p =>
      have hmild : p.isFatal = false := hp
      simp [Info.diagnostics, hi, Problem.note, hmild]

theorem findOther_mild (expected : Kind) (position : Nat) (es : List Element) :
    isFatalProblem (findOther expected position es) = false := by
  fun_induction findOther expected position es with
  | case1 => rfl
  | case2 => rfl
  | case3 _ _ _ _ ih => exact ih

/-- That the items of an array are of different kinds is not fatal. -/
theorem mixedKinds?_mild (es : List Element) : isFatalProblem (mixedKinds? es) = false := by
  cases es with
  | nil => rfl
  | cons e es =>
    rw [mixedKinds?]
    split
    · exact findOther_mild _ _ _
    · rfl

/-! ## Values -/

section Values

variable (scope : Scope)

/-- What stands in the place of a variable reports enough for it. -/
theorem resolveVariable_reported (forced : Bool) (i : Info) (name : String) :
    Reported [] i.diagnostics (resolveVariable scope forced i name).diagnostics := by
  have hsame : ∀ l, Reported [] i.diagnostics (Element.leaf i l).diagnostics := fun l =>
    reported_of_note (Problem.note_none_right _).symm (Or.inl rfl)
  unfold resolveVariable
  split
  · exact reported_of_note rfl (Or.inl rfl)
  · dsimp only
    split
    · exact hsame _
    · split
      · exact hsame _
      · split <;> exact hsame _
      · exact reported_of_note (Element.problem_noting _ _) (Or.inr rfl)
      · exact hsame _

theorem substitute_reported_of_hasVariable {e : Element} (forced : Bool) (h : e.hasVariable = false) :
    Reported e.lastingDiagnostics e.diagnostics (e.substitute scope forced).diagnostics := by
  rw [substitute_of_hasVariable h, e.lastingDiagnostics_eq h]
  exact .refl _

mutual

/-- **Putting in values hides no problem** of an element. -/
theorem Element.substitute_reported : (e : Element) → (forced : Bool) →
    Reported e.lastingDiagnostics e.diagnostics (e.substitute scope forced).diagnostics
  | .leaf i l, forced => by
    cases l with
    | reference name =>
      rw [Element.substitute]
      exact resolveVariable_reported scope forced i name
    | _ => exact substitute_reported_of_hasVariable scope forced rfl
  | .tuple i items trailing, forced => by
    by_cases h : anyVariable items = true
    · rw [Element.substitute, if_pos h, Element.lastingDiagnostics, Element.diagnostics, Element.diagnostics]
      exact (Reported.refl _).append (substituteAll_reported items forced)
    · exact substitute_reported_of_hasVariable scope forced (Bool.eq_false_iff.mpr h)
  | .array i items, forced => by
    by_cases h : anyVariable items = true
    · rw [Element.substitute, if_pos h, Element.lastingDiagnostics, Element.diagnostics, Element.diagnostics]
      -- the items are compared again, but a problem that the array had before stays
      have hown := i.diagnostics_note (mixedKinds?_mild (substituteAll scope forced items))
      exact ((Reported.refl _).trans_sublist hown).append (substituteAll_reported items forced)
    · exact substitute_reported_of_hasVariable scope forced (Bool.eq_false_iff.mpr h)
  | .json i entries, forced => by
    by_cases h : anyEntryVariable entries = true
    · rw [Element.substitute, if_pos h, Element.lastingDiagnostics, Element.diagnostics, Element.diagnostics]
      exact (Reported.refl _).append (substituteEntries_reported entries forced)
    · exact substitute_reported_of_hasVariable scope forced (Bool.eq_false_iff.mpr h)
  | .expression i parts resolved, forced => by
    by_cases h : anyVariable parts = true
    · rw [Element.substitute, if_pos h, Element.lastingDiagnostics, Element.diagnostics, Element.diagnostics]
      exact (Reported.refl _).append (substituteAll_reported parts forced)
    · exact substitute_reported_of_hasVariable scope forced (Bool.eq_false_iff.mpr h)
  | .block i commands text, forced => substitute_reported_of_hasVariable scope forced rfl

theorem substituteAll_reported : (es : List Element) → (forced : Bool) →
    Reported (lastingDiagnosticsOf es) (diagnosticsOf es) (diagnosticsOf (substituteAll scope forced es))
  | [], _ => .refl _
  | e :: es, forced => by
    rw [substituteAll, lastingDiagnosticsOf, diagnosticsOf, diagnosticsOf]
    exact (Element.substitute_reported e forced).append (substituteAll_reported es forced)

theorem Entry.substitute_reported : (p : Entry) → (forced : Bool) →
    Reported p.lastingDiagnostics p.diagnostics (p.substitute scope forced).diagnostics
  | .pair k v, forced => by
    rw [Entry.substitute, Entry.lastingDiagnostics, Entry.diagnostics, Entry.diagnostics]
    exact (Element.substitute_reported k true).append (Element.substitute_reported v forced)
  | .bare k, forced => by
    rw [Entry.substitute, Entry.lastingDiagnostics, Entry.diagnostics, Entry.diagnostics]
    exact Element.substitute_reported k true

theorem substituteEntries_reported : (ps : List Entry) → (forced : Bool) →
    Reported (lastingEntryDiagnostics ps) (entryDiagnostics ps) (entryDiagnostics (substituteEntries scope forced ps))
  | [], _ => .refl _
  | p :: ps, forced => by
    rw [substituteEntries, lastingEntryDiagnostics, entryDiagnostics, entryDiagnostics]
    exact (Entry.substitute_reported p forced).append (substituteEntries_reported ps forced)

end

end Values

/-! ## Evaluation -/

section Evaluation

variable (settings : Settings)

mutual

/-- **Evaluation only adds to what is reported** of an element: where it goes into an expression, nothing was. -/
theorem Element.diagnostics_evaluate : (e : Element) → e.diagnostics.Sublist (e.evaluate settings).diagnostics
  | .leaf i l => by simp only [Element.evaluate, List.Sublist.refl]
  | .tuple i items trailing => by
    rw [Element.evaluate]
    split
    · simp only [Element.diagnostics]
      exact (diagnosticsOf_evaluate items).append_left _
    · exact .refl _
  | .array i items => by
    rw [Element.evaluate]
    split
    · simp only [Element.diagnostics]
      exact (i.diagnostics_note (mixedKinds?_mild _)).append (diagnosticsOf_evaluate items)
    · exact .refl _
  | .json i entries => by
    rw [Element.evaluate]
    split
    · simp only [Element.diagnostics]
      exact (entryDiagnostics_evaluate entries).append_left _
    · exact .refl _
  | .expression i parts none => by
    rcases evaluate_expression settings i parts with ⟨heq, -⟩ | ⟨hproblem, herrors, -, -⟩
    · simp only [heq, List.Sublist.refl]
    · -- only a chain without a mistake is folded, and what it comes to may be a single leaf
      have hnone : (Element.expression i parts none).diagnostics = [] := by
        rw [Element.diagnostics_eq_nil_iff, Element.hasErrors, hproblem, herrors]
        rfl
      rw [hnone]
      exact List.nil_sublist _
  | .expression i parts (some r) => by simp only [Element.evaluate, List.Sublist.refl]
  | .block i commands text => by simp only [Element.evaluate, List.Sublist.refl]

theorem diagnosticsOf_evaluate : (es : List Element) →
    (diagnosticsOf es).Sublist (diagnosticsOf (evaluateAll settings es))
  | [] => .refl _
  | e :: es => by
    rw [evaluateAll, diagnosticsOf, diagnosticsOf]
    exact (Element.diagnostics_evaluate e).append (diagnosticsOf_evaluate es)

theorem Entry.diagnostics_evaluate : (p : Entry) → p.diagnostics.Sublist (p.evaluate settings).diagnostics
  | .pair k v => by
    rw [Entry.evaluate, Entry.diagnostics, Entry.diagnostics]
    exact (Element.diagnostics_evaluate k).append (Element.diagnostics_evaluate v)
  | .bare k => by
    rw [Entry.evaluate, Entry.diagnostics, Entry.diagnostics]
    exact Element.diagnostics_evaluate k

theorem entryDiagnostics_evaluate : (ps : List Entry) →
    (entryDiagnostics ps).Sublist (entryDiagnostics (evaluateEntries settings ps))
  | [] => .refl _
  | p :: ps => by
    rw [evaluateEntries, entryDiagnostics, entryDiagnostics]
    exact (Entry.diagnostics_evaluate p).append (entryDiagnostics_evaluate ps)

end

end Evaluation

/-! ## Commands -/

section Commands

variable (scope : Scope) (settings : Settings)

theorem Command.prepare_reported (c : Command) :
    Reported c.lastingDiagnostics c.diagnostics (c.prepare scope settings).diagnostics := by
  cases c with
  | bare h => exact .refl _
  | given h a =>
    have hvalues := Element.substitute_reported scope a false
    have hevaluated := Element.diagnostics_evaluate settings (a.substitute scope false)
    exact (Reported.refl h.diagnostics).append (hvalues.trans_sublist hevaluated)

/-- **Preparing a command hides no problem.** A command with a mistake has one after it, one with a fatal problem has a
fatal problem, there are no fewer diagnostics, and those of the command itself are among them in their order, apart from
those of its variables outside blocks. -/
theorem prepare_reports (c : Command) :
    (c.hasErrors = true → (c.prepare scope settings).command.hasErrors = true) ∧
      (c.hasFatal = true → (c.prepare scope settings).command.hasFatal = true) ∧
      c.diagnostics.length ≤ (c.prepare scope settings).diagnostics.length ∧
      c.lastingDiagnostics.Sublist (c.prepare scope settings).diagnostics := by
  have hreported := c.prepare_reported scope settings
  have hsame : (c.prepare scope settings).diagnostics = (c.prepare scope settings).command.diagnostics := rfl
  refine ⟨fun herrors => ?_, fun hfatal => ?_, hreported.length, hreported.lasting⟩
  · cases hclean : (c.prepare scope settings).command.hasErrors with
    | true => rfl
    | false =>
      have hlength := hreported.length
      rw [hsame, (Command.diagnostics_eq_nil_iff _).mpr hclean, List.length_nil, Nat.le_zero,
        List.length_eq_zero_iff, Command.diagnostics_eq_nil_iff, herrors] at hlength
      cases hlength
  · rw [← Command.diagnostics_hasFatal] at hfatal ⊢
    exact hreported.fatal hfatal

end Commands

set_option maxRecDepth 10000 in
/-- A command with three mistakes, one of them that of a variable without its second bar: as the variable has no value,
only the other two are reported again. -/
theorem prepare_reports_unbound :
    (Script.parse .any "a: (|x, 1 +").commands.length = 1 ∧
      ∀ c ∈ (Script.parse .any "a: (|x, 1 +").commands,
        (c.hasErrors = true ∧ c.hasFatal = true ∧ c.diagnostics.length = 3 ∧
          c.lastingDiagnostics.map (·.message) = ["missing `)` to close tuple", "expected an element after `+`"]) ∧
        (c.prepare {} {}).command.hasErrors = true ∧ (c.prepare {} {}).command.hasFatal = true ∧
        3 ≤ (c.prepare {} {}).diagnostics.length ∧ c.lastingDiagnostics.Sublist (c.prepare {} {}).diagnostics := by
  have hread : ∀ c ∈ (Script.parse .any "a: (|x, 1 +").commands,
      c.hasErrors = true ∧ c.hasFatal = true ∧ c.diagnostics.length = 3 ∧
        c.lastingDiagnostics.map (·.message) = ["missing `)` to close tuple", "expected an element after `+`"] := by
    decide +kernel
  refine ⟨by decide +kernel, fun c hc => ⟨hread c hc, ?_⟩⟩
  obtain ⟨herrors, hfatal, hlength, hlasting⟩ := prepare_reports {} {} c
  rw [(hread c hc).2.2.1] at hlength
  exact ⟨herrors (hread c hc).1, hfatal (hread c hc).2.1, hlength, hlasting⟩

end UiScript
