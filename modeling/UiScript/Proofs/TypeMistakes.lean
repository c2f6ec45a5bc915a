import UiScript.Proofs.Checking
import UiScript.Proofs.Unbound

/-!
# What a check adds

A check reports everything that was found while reading, once and in the same order, and adds only that types do not
fit, which is never fatal (`check_supplements`). The relation between the two reports is `Supplemented`: it goes through
trees part by part (`Element.evaluate_supplemented`), and what evaluation adds at a chain is the refusal of one of its
operators (`resolveChain_mistakes`). Commands in blocks are reported on with the command around them, so that of their
own checks only the additions count (`Command.checkInside_mistakes`).
-/

namespace UiScript

/-! ## Type mistakes -/

/-- Whether the problem is that types do not fit. -/
def Problem.isTypeMistake : Problem → Bool
  | badOperand .. | incomparable .. | mixedArray .. => true
  | _ => false

theorem Problem.isFatal_of_isTypeMistake {p : Problem} (h : p.isTypeMistake = true) : p.isFatal = false := by
  cases p <;> first | rfl | cases h

/-- The report of an element whose types do not fit. -/
def Diagnostic.IsTypeMistake (d : Diagnostic) : Prop :=
  ∃ (p : Problem) (line : Nat), p.isTypeMistake = true ∧ d = .ofProblem p line none

theorem Diagnostic.IsTypeMistake.fatal {d : Diagnostic} (h : d.IsTypeMistake) : d.fatal = false := by
  obtain ⟨p, line, hp, rfl⟩ := h
  exact Problem.isFatal_of_isTypeMistake hp

/-- What is wrong with the kinds of the items of an array is a type mistake. -/
theorem findOther_isTypeMistake {expected : Kind} {position : Nat} {es : List Element} {p : Problem}
    (h : findOther expected position es = some p) : p.isTypeMistake = true := by
  fun_induction findOther expected position es with
  | case1 => cases h
  | case2 =>
    cases h
    rfl
  | case3 _ _ _ _ ih => exact ih h

theorem mixedKinds?_isTypeMistake {es : List Element} {p : Problem} (h : mixedKinds? es = some p) :
    p.isTypeMistake = true := by
  cases es with
  | nil => cases h
  | cons e es =>
    rw [mixedKinds?] at h
    split at h
    · exact findOther_isTypeMistake h
    · cases h

section Refusals

variable {settings : Settings} {i : Info} {left right : Operand} {op : Operator} {p : Problem}

theorem textual_isTypeMistake {allowed : Allowed} {kind : Kind} (h : textual op left right allowed kind = .error p) :
    p.isTypeMistake = true := by
  unfold textual badOperand? at h
  cases hbad : [left, right].find? fun o => !allowed.admits o.kind with
  | none => simp [hbad] at h
  | some o =>
    simp only [hbad, Option.map_some, Except.error.injEq] at h
    subst h
    rfl

theorem compareOperands_isTypeMistake (h : compareOperands settings i op left right = .error p) :
    p.isTypeMistake = true := by
  unfold compareOperands at h
  split at h
  · cases h
    rfl
  · split at h
    case h_4 => cases h
    all_goals
      dsimp only at h
      split at h <;> cases h

/-- **An operator that is refused is refused for the types of its operands.** -/
theorem combine_isTypeMistake (h : combine settings i left op right = .error p) : p.isTypeMistake = true := by
  cases op with
  | add =>
    rw [combine] at h
    split at h
    · exact textual_isTypeMistake h
    · split at h
      · cases h
      · exact textual_isTypeMistake h
  | equal | unequal => exact compareOperands_isTypeMistake h
  | _ => exact textual_isTypeMistake h

theorem foldChain_isTypeMistake {acc : Operand} {rest : List Element}
    (h : foldChain settings i acc rest = some (.error p)) : p.isTypeMistake = true := by
  fun_induction foldChain settings i acc rest with
  | case1 acc => cases h
  | case2 acc j op right rest next hcombine ih => exact ih h
  | case3 acc j op right rest q hcombine =>
    cases h
    exact combine_isTypeMistake hcombine
  | case4 => cases h

end Refusals

/-! ## Reports with type mistakes added -/

/-- The second report is the first one with type mistakes put in between. -/
inductive Supplemented : Diagnostics → Diagnostics → Prop where
  | nil : Supplemented [] []
  | keep (d : Diagnostic) {ds es : Diagnostics} (h : Supplemented ds es) : Supplemented (d :: ds) (d :: es)
  | add {d : Diagnostic} (hd : d.IsTypeMistake) {ds es : Diagnostics} (h : Supplemented ds es) :
      Supplemented ds (d :: es)

namespace Supplemented

variable {ds es ds' es' : Diagnostics}

theorem refl (ds : Diagnostics) : Supplemented ds ds := by
  induction ds with
  | nil => exact .nil
  | cons d ds ih => exact .keep d ih

theorem append (h : Supplemented ds es) (h' : Supplemented ds' es') : Supplemented (ds ++ ds') (es ++ es') := by
  induction h with
  | nil => exact h'
  | keep d _ ih => exact .keep d ih
  | add hd _ ih => exact .add hd ih

/-- Nothing but additions. -/
theorem nil_iff : Supplemented [] es ↔ ∀ d ∈ es, d.IsTypeMistake := by
  constructor
  · intro h
    generalize hnil : ([] : Diagnostics) = ds at h
    induction h with
    | nil => simp
    | keep => cases hnil
    | add hd _ ih => exact List.forall_mem_cons.mpr ⟨hd, ih hnil⟩
  · intro h
    induction es with
    | nil => exact .nil
    | cons d es ih => exact .add (h d List.mem_cons_self) (ih fun d hd => h d (List.mem_cons_of_mem _ hd))

theorem sublist (h : Supplemented ds es) : ds.Sublist es := by
  induction h with
  | nil => exact .slnil
  | keep d _ ih => exact ih.cons_cons d
  | add _ _ ih => exact ih.cons _

/-- What remains without the first report are type mistakes. -/
theorem perm (h : Supplemented ds es) :
    ∃ added : Diagnostics, es.Perm (ds ++ added) ∧ ∀ d ∈ added, d.IsTypeMistake := by
  induction h with
  | nil => exact ⟨[], .refl _, by simp⟩
  | keep d _ ih =>
    obtain ⟨added, hperm, hadded⟩ := ih
    exact ⟨added, hperm.cons d, hadded⟩
  | @add d hd ds es _ ih =>
    obtain ⟨added, hperm, hadded⟩ := ih
    exact ⟨d :: added, (hperm.cons d).trans List.perm_middle.symm, List.forall_mem_cons.mpr ⟨hd, hadded⟩⟩

/-- No addition is fatal. -/
theorem fatalCount (h : Supplemented ds es) : es.fatalCount = ds.fatalCount := by
  induction h with
  | nil => rfl
  | keep d _ ih => simp only [Diagnostics.fatalCount, List.countP_cons] at ih ⊢; rw [ih]
  | add hd _ ih => simpa [Diagnostics.fatalCount, List.countP_cons, hd.fatal] using ih

/-- Nothing is added to a report that does not get longer. -/
theorem eq_of_length_le (h : Supplemented ds es) (hlength : es.length ≤ ds.length) : es = ds :=
  (h.sublist.eq_of_length_le hlength).symm

/-- A problem that is noted takes the place of none, and is reported if it is a type mistake. -/
theorem note (i : Info) {p : Option Problem} (hp : ∀ q ∈ p, q.isTypeMistake = true) :
    Supplemented i.diagnostics { i with problem := Problem.note i.problem p : Info }.diagnostics := by
  cases p with
  | none =>
    rw [Problem.note_none_right]
    exact refl _
  | some p =>
    have hmistake := hp p rfl
    cases hi : i.problem with
    | none =>
      simp only [Info.diagnostics, hi, Option.map_none, Problem.note_none_left, Option.map_some, Option.toList]
      exact nil_iff.mpr (List.forall_mem_singleton.mpr ⟨p, i.line, hmistake, rfl⟩)
    | some q =>
      have hkept : Problem.note (some q) (some p) = some q := by
        simp [Problem.note, Problem.isFatal_of_isTypeMistake hmistake]
      rw [hkept, ← hi]
      exact refl _

end Supplemented

/-! ## Chains -/

section Chains

variable {settings : Settings} {i : Info}

/-- What is written out for a chain has no mistake, if nothing is wrong where the chain stands and with its first
operand. -/
theorem foldChain_value_hasErrors {acc o : Operand} {rest : List Element} (hi : i.problem = none)
    (hacc : ∀ v ∈ acc.value, v.hasErrors = false) (h : foldChain settings i acc rest = some (.ok o)) :
    ∀ v ∈ o.value, v.hasErrors = false := by
  have hleaf : ∀ l, ∀ v ∈ (Operand.ofLeaf i l).value, v.hasErrors = false := by
    rintro l v ⟨⟩
    rw [Element.hasErrors, hi]
    rfl
  fun_induction foldChain settings i acc rest with
  | case1 acc =>
    cases h
    exact hacc
  | case2 acc j op right rest next hcombine ih =>
    refine ih ?_ h
    cases combines_of_eq hcombine with
    | joined | compared => exact hleaf _
    | computed =>
      rintro v ⟨⟩
  | case3 acc j op right rest p hcombine => cases h
  | case4 => cases h

/-- **At a chain, nothing but type mistakes is reported**, if nothing else is reported of its parts. -/
theorem resolveChain_mistakes {parts : List Element} (hi : i.problem = none)
    (hparts : Supplemented [] (diagnosticsOf parts)) : Supplemented [] (resolveChain settings i parts).diagnostics := by
  have hstays : ∀ r, Supplemented [] (Element.expression i parts r).diagnostics := by
    intro r
    have hown : i.diagnostics = [] := by rw [Info.diagnostics, hi]; rfl
    rw [Element.diagnostics, hown]
    exact hparts
  unfold resolveChain
  split
  · exact hstays none
  · rename_i herrors
    split
    · exact hstays none
    · rename_i first rest
      split
      · exact hstays none
      · rename_i p hfold
        have hmistake := foldChain_isTypeMistake hfold
        rw [Element.diagnostics]
        exact (Supplemented.nil_iff.mpr (List.forall_mem_singleton.mpr ⟨p, i.line, hmistake, rfl⟩)).append hparts
      · rename_i o hfold
        cases hvalue : o.value with
        | none => exact hstays _
        | some v =>
          have hfirst : ∀ v ∈ (Operand.ofElement first).value, v.hasErrors = false := by
            intro v hv
            rw [anyErrors, Bool.or_eq_true, not_or, Bool.not_eq_true] at herrors
            obtain ⟨-, rfl⟩ := literal_of_some hv
            exact (occurs_unwrap first).hasErrors herrors.1
          have hclean := foldChain_value_hasErrors hi hfirst hfold v hvalue
          rw [Option.getD_some, (Element.diagnostics_eq_nil_iff v).mpr hclean]
          exact .nil

end Chains

/-! ## Trees -/

section Trees

variable (settings : Settings)

mutual

/-- **Evaluation adds only type mistakes to what is reported** of an element. -/
theorem Element.evaluate_supplemented : (e : Element) → Supplemented e.diagnostics (e.evaluate settings).diagnostics
  | .leaf i l => by rw [evaluate_leaf]; exact .refl _
  | .tuple i items trailing => by
    rw [Element.evaluate]
    split
    · rw [Element.diagnostics, Element.diagnostics]
      exact (Supplemented.refl _).append (evaluateAll_supplemented items)
    · exact .refl _
  | .array i items => by
    rw [Element.evaluate]
    split
    · rw [Element.diagnostics, Element.diagnostics]
      exact (Supplemented.note i fun _ => mixedKinds?_isTypeMistake).append (evaluateAll_supplemented items)
    · exact .refl _
  | .json i entries => by
    rw [Element.evaluate]
    split
    · rw [Element.diagnostics, Element.diagnostics]
      exact (Supplemented.refl _).append (evaluateEntries_supplemented entries)
    · exact .refl _
  | .expression i parts none => by
    rcases evaluate_expression settings i parts with ⟨heq, -⟩ | ⟨hproblem, herrors, -, heq⟩
    · rw [heq]
      exact .refl _
    · -- a chain is folded only where nothing was reported, so that all of its reports are additions
      have hbefore : (Element.expression i parts none).diagnostics = [] := by
        rw [Element.diagnostics_eq_nil_iff, Element.hasErrors, hproblem, herrors]
        rfl
      have hparts := evaluateAll_supplemented parts
      rw [Element.diagnostics, List.append_eq_nil_iff] at hbefore
      rw [hbefore.2, evaluateAll_eq_map] at hparts
      rw [heq, Element.diagnostics, hbefore.1, hbefore.2]
      exact resolveChain_mistakes hproblem hparts
  | .expression i parts (some r) => by rw [Element.evaluate]; exact .refl _
  | .block i commands text => by rw [Element.evaluate]; exact .refl _

theorem evaluateAll_supplemented : (es : List Element) →
    Supplemented (diagnosticsOf es) (diagnosticsOf (evaluateAll settings es))
  | [] => .refl _
  | e :: es => by
    rw [evaluateAll, diagnosticsOf, diagnosticsOf]
    exact (Element.evaluate_supplemented e).append (evaluateAll_supplemented es)

theorem Entry.evaluate_supplemented : (p : Entry) → Supplemented p.diagnostics (p.evaluate settings).diagnostics
  | .pair k v => by
    rw [Entry.evaluate, Entry.diagnostics, Entry.diagnostics]
    exact (Element.evaluate_supplemented k).append (Element.evaluate_supplemented v)
  | .bare k => by
    rw [Entry.evaluate, Entry.diagnostics, Entry.diagnostics]
    exact Element.evaluate_supplemented k

theorem evaluateEntries_supplemented : (ps : List Entry) →
    Supplemented (entryDiagnostics ps) (entryDiagnostics (evaluateEntries settings ps))
  | [] => .refl _
  | p :: ps => by
    rw [evaluateEntries, entryDiagnostics, entryDiagnostics]
    exact (Entry.evaluate_supplemented p).append (evaluateEntries_supplemented ps)

end

end Trees

/-! ## Commands -/

section Commands

variable {scope : Scope} {settings : Settings} {c : Command}

/-- A command without variables that is prepared reports type mistakes besides. -/
theorem Command.prepare_supplemented (h : c.hasVariable = false) :
    Supplemented c.diagnostics (c.prepare scope settings).diagnostics := by
  cases c with
  | bare head => exact .refl _
  | given head a =>
    have hvariable : a.hasVariable = false := h
    have hprepared : ((Command.given head a).prepare scope settings).diagnostics =
        head.diagnostics ++ (a.evaluate settings).diagnostics := by
      simp only [Command.prepare, Command.argument?, Option.map_some, substitute_of_hasVariable hvariable]
      rfl
    rw [hprepared]
    exact (Supplemented.refl _).append (a.evaluate_supplemented settings)

theorem Command.checkAlone_supplemented (c : Command) :
    Supplemented c.diagnostics (c.checkAlone scope settings) := by
  unfold Command.checkAlone
  cases hvariable : c.hasVariable with
  | true => exact .refl _
  | false => exact Command.prepare_supplemented hvariable

/-- In blocks, only additions are reported. -/
theorem Command.checkInside_mistakes (h : Supplemented c.diagnostics (c.check scope settings)) :
    Supplemented [] (c.checkInside scope settings) := by
  unfold Command.checkInside
  split
  · rename_i hsound
    rw [Bool.and_eq_true, Bool.not_eq_true', Bool.not_eq_true'] at hsound
    rwa [← (Command.diagnostics_eq_nil_iff c).mpr hsound.2]
  · exact .nil

/-- **A check adds only type mistakes to what is reported** of a command. -/
theorem Command.check_supplemented (c : Command) : Supplemented c.diagnostics (c.check scope settings) := by
  induction c using Command.byBlocks with
  | h c ih =>
    have hblocks : Supplemented [] (c.blockCommands.flatMap (·.checkInside scope settings)) := by
      rw [Supplemented.nil_iff]
      intro d hd
      obtain ⟨k, hk, hd⟩ := List.mem_flatMap.mp hd
      exact Supplemented.nil_iff.mp (Command.checkInside_mistakes (ih k hk)) d hd
    rw [Command.check_eq_append, ← List.append_nil c.diagnostics]
    exact (Command.checkAlone_supplemented c).append hblocks

/-- Where evaluation adds nothing to the commands without variables, the check adds nothing. -/
theorem Command.check_eq_diagnostics (c : Command) : (∀ d : Command, d.Within c → d.hasVariable = false →
    (d.prepare scope settings).diagnostics.length ≤ d.diagnostics.length) →
    c.check scope settings = c.diagnostics := by
  induction c using Command.byBlocks with
  | h c ih =>
    intro h
    have halone : c.checkAlone scope settings = c.diagnostics := by
      unfold Command.checkAlone
      cases hvariable : c.hasVariable with
      | true => rfl
      | false => exact (Command.prepare_supplemented hvariable).eq_of_length_le (h c (.self c) hvariable)
    have hblocks : c.blockCommands.flatMap (·.checkInside scope settings) = [] := by
      rw [List.flatMap_eq_nil_iff]
      intro k hk
      unfold Command.checkInside
      split
      · rename_i hsound
        rw [Bool.and_eq_true, Bool.not_eq_true', Bool.not_eq_true'] at hsound
        rw [ih k hk fun d hd => h d (.inside hk hd), Command.diagnostics_eq_nil_iff, hsound.2]
      · rfl
    rw [Command.check_eq_append, halone, hblocks, List.append_nil]

end Commands

/-- **A check reports what was found while reading, once, and adds only type mistakes.** The diagnostics of a command
are among those of its check, in the same order; the others are the reports of types that do not fit, so that as many
are fatal as before. If evaluation adds nothing to the commands without variables, be it the command itself or one in
its blocks at any depth, the check adds nothing. -/
theorem check_supplements (scope : Scope) (settings : Settings) (c : Command) :
    c.diagnostics.Sublist (c.check scope settings) ∧
      (∃ added : Diagnostics, (c.check scope settings).Perm (c.diagnostics ++ added) ∧
        ∀ d ∈ added, d.fatal = false ∧ d.IsTypeMistake) ∧
      (c.check scope settings).fatalCount = c.diagnostics.fatalCount ∧
      ((∀ d : Command, d.Within c → d.hasVariable = false →
          (d.prepare scope settings).diagnostics.length ≤ d.diagnostics.length) →
        c.check scope settings = c.diagnostics) := by
  have hcheck : Supplemented c.diagnostics (c.check scope settings) := c.check_supplemented
  obtain ⟨added, hperm, hadded⟩ := hcheck.perm
  exact ⟨hcheck.sublist, ⟨added, hperm, fun d hd => ⟨(hadded d hd).fatal, hadded d hd⟩⟩, hcheck.fatalCount,
    c.check_eq_diagnostics⟩

set_option maxRecDepth 10000 in
/-- A command with a mixed array in its block, which is reported once: no evaluation of the commands without variables
adds a report, and neither does the check. -/
theorem check_supplements_block :
    ∃ c ∈ (Script.parse .any "a: (1 + 2, block \x7b\nb: [1, true]\nc: |x| + true\nd: 3 < 4\n\x7d)").commands,
      c.blockCommands.map Command.name = ["b", "c", "d"] ∧ c.diagnostics.length = 1 ∧
        (∀ d : Command, d.Within c → d.hasVariable = false →
          (d.prepare {} {}).diagnostics.length ≤ d.diagnostics.length) ∧
        c.check {} {} = c.diagnostics := by
  have hshape : ((Script.parse .any
      "a: (1 + 2, block \x7b\nb: [1, true]\nc: |x| + true\nd: 3 < 4\n\x7d)").commands[0]?.any fun c =>
        c.blockCommands.map Command.name == ["b", "c", "d"] && c.diagnostics.length == 1 &&
          (c :: c.blockCommands).all (fun d => d.hasVariable ||
            decide ((d.prepare {} {}).diagnostics.length ≤ d.diagnostics.length)) &&
          c.blockCommands.all fun k => k.blockCommands.isEmpty) = true := by decide +kernel
  obtain ⟨c, hc, hshape⟩ := (Option.any_eq_true _ _).mp hshape
  simp only [Bool.and_eq_true, beq_iff_eq, List.all_eq_true, List.forall_mem_cons, Bool.or_eq_true,
    decide_eq_true_eq, List.isEmpty_iff] at hshape
  obtain ⟨⟨⟨hnames, hlength⟩, hself, hblocks⟩, hflat⟩ := hshape
  have hquiet : ∀ d : Command, d.Within c → d.hasVariable = false →
      (d.prepare {} {}).diagnostics.length ≤ d.diagnostics.length := by
    intro d hd hvariable
    cases hd with
    | self => exact hself.resolve_left (by simp [hvariable])
    | inside hk hd =>
      cases hd with
      | self => exact (hblocks d hk).resolve_left (by simp [hvariable])
      | inside hk' _ =>
        rw [hflat _ hk] at hk'
        cases hk'
  exact ⟨c, List.mem_of_getElem? hc, hnames, hlength, hquiet, (check_supplements {} {} c).2.2.2 hquiet⟩

end UiScript
