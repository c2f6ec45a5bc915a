import UiScript.Proofs.Grammar.Passing
import UiScript.Proofs.Reading.Depth
import UiScript.Proofs.Splicing
import UiScript.Proofs.Unbound

/-!
# The limit of nesting

Containers are read down to a limit of levels. A container below the limit is read as one element that is too deep,
and what follows it is read as if it were a leaf: the text of a literal tree is read as the tree itself, cut off below
the limit (`parse_capped`). Such a tree keeps its kinds and its parts down to the limit (`Element.Composed.keptTo`), and
what is reported of it is one fatal mistake for each container on the first level below (`Element.Composed.reports`).
-/

namespace UiScript

open Grammar Reading

/-! ## Literal trees -/

/-- A literal tree: scalars that were read without a mistake, tuples, arrays with items of one kind, and dictionaries
with strings as keys. It need not have been read itself. -/
inductive Element.Composed : Element → Prop where
  | scalar (i : Info) {j : Info} {l : Leaf} (hliteral : (Element.leaf i l).isLiteral = true)
      (hparsed : Parsed (.leaf j l)) (hproblem : j.problem = none) : Composed (.leaf i l)
  | tuple (i : Info) {items : List Element} (trailing : Bool) (hitems : ∀ e ∈ items, Composed e) :
      Composed (.tuple i items trailing)
  | array (i : Info) {items : List Element} (hkinds : ∀ a ∈ items, ∀ b ∈ items, a.kind = b.kind)
      (hitems : ∀ e ∈ items, Composed e) : Composed (.array i items)
  | json (i : Info) {members : List (Element × Element)} (hstrings : ∀ m ∈ members, m.1.kind = .string)
      (hkeys : ∀ m ∈ members, Composed m.1) (hvalues : ∀ m ∈ members, Composed m.2) :
      Composed (.json i (members.map fun m => .pair m.1 m.2))

/-- The tree without its places, cut off where more than `n` containers stand inside each other. -/
def Element.capped : Nat → Element → Element
  | _, .leaf _ l => literal l
  | n + 1, .tuple _ items trailing => .tuple (.blank none) (items.map (capped n)) (trailing && items.length == 1)
  | n + 1, .array _ items => .array (.blank none) (items.map (capped n))
  | n + 1, .json _ entries => .json (.blank none) (entries.map fun
    | .pair k v => .pair (capped n k) (capped n v)
    | .bare k => .bare (capped n k))
  | _, e => unread e.text

section Texts

variable {i j : Info} {l : Leaf} {e : Element} {n : Nat}

/-- A scalar that was read without a mistake is legible wherever it stands. -/
theorem legible_scalar (hliteral : (Element.leaf i l).isLiteral = true) (hparsed : Parsed (.leaf j l))
    (hproblem : j.problem = none) : Legible .first n (literal l) := by
  have hspelled := hparsed.asRead.here.spelled
  cases l with
  | ident name => exact (legible_ident hspelled.1 hspelled.2).first
  | boolean b => exact (legible_boolean b).first
  | number digits negative float => exact legible_number ⟨hspelled.1, hspelled.2.2 hproblem⟩ hspelled.2.1 negative
  | string value quote => exact (legible_string value hspelled).first
  | _ => cases hliteral

/-- Every bracket in the text of a literal tree is closed again. -/
theorem Element.Composed.passedOver (h : e.Composed) (text : List Char) : Writes text e.text.toList PassedOver := by
  induction h with
  | @scalar i j l hliteral hparsed hproblem =>
    have htext : (Element.leaf i l).text = (literal l).text := by cases l <;> first | rfl | cases hliteral
    rw [htext]
    exact (legible_scalar (n := 0) hliteral hparsed hproblem text).mono fun ms hms =>
      hms.passedOver (lawfulBlock_blockIn .any text)
  | tuple i trailing _ ih => exact (passable_tuple i trailing ih).mono fun ms hms => hms.passedOver
  | array i _ _ ih => exact (passable_array i ih).mono fun ms hms => hms.passedOver
  | json i _ _ _ ihkeys ihvalues => exact (passable_json i ihkeys ihvalues).mono fun ms hms => hms.passedOver

/-- Without a level left, the text of a container is read as one element with that text. -/
theorem rereads_unread (h : ∀ text, Passable text e) : Rereads 0 (unread e.text) := by
  refine fun text => (h text).mono fun ms hms => ?_
  have hreads : ∀ c more, Sees c (ms ++ more) → Stops .element more →
      Reads (chain (.whole text) true (operand .any 0 (.whole text) true)) c (unread e.text) more := by
    intro c more hs hstops
    have hread : Reads (operand .any 0 (.whole text) true) c (unread (String.ofList e.text.toList)) more :=
      reads_tooDeep hms hs
    rw [String.ofList_toList] at hread
    exact chain_reads_first hread hstops
  cases hms with
  | intro hopener => exact ⟨⟨_, _, rfl, by rw [hopener]; rfl⟩, fun c more _ hs hstops => hreads c more hs hstops⟩

end Texts

/-! ## Trees cut off -/

section Capped

variable {e : Element}

/-- What is cut off is still in the text. -/
theorem Element.Composed.capped_text (h : e.Composed) : ∀ n, (e.capped n).text = e.text := by
  induction h with
  | @scalar i j l hliteral =>
    intro n
    cases l <;> first | (cases n <;> rfl) | cases hliteral
  | @tuple i items trailing _ ih =>
    rintro (_ | n)
    · rfl
    · have hitems : items.map (fun e => (e.capped n).text) = items.map Element.text :=
        List.map_congr_left fun e he => ih e he n
      simp [Element.capped, Element.text, Function.comp_def, hitems]
  | @array i items _ _ ih =>
    rintro (_ | n)
    · rfl
    · have hitems : items.map (fun e => (e.capped n).text) = items.map Element.text :=
        List.map_congr_left fun e he => ih e he n
      simp [Element.capped, Element.text, Function.comp_def, hitems]
  | @json i members _ _ _ ihkeys ihvalues =>
    rintro (_ | n)
    · rfl
    · have hmembers : members.map (fun m => (m.1.capped n).text ++ ": " ++ (m.2.capped n).text) =
          members.map fun m => m.1.text ++ ": " ++ m.2.text :=
        List.map_congr_left fun m hm => by rw [ihkeys m hm n, ihvalues m hm n]
      simp [Element.capped, Element.text, Entry.text, Function.comp_def, hmembers]

/-- What is cut off has no settled kind, and all else has the kind that it had. -/
theorem Element.Composed.capped_decided (h : e.Composed) (n : Nat) (hdecided : (e.capped n).isDecided = true) :
    (e.capped n).valueKind = e.kind := by
  cases h with
  | scalar => cases n <;> rfl
  | tuple | array | json =>
    cases n with
    -- what stands for a container has a mistake, so that it does not count when an array is checked
    | zero => cases hdecided
    | succ n => rfl

/-- Items of one kind stay of one kind. -/
theorem mixedKinds?_capped {items : List Element} (h : ∀ e ∈ items, e.Composed)
    (hkinds : ∀ a ∈ items, ∀ b ∈ items, a.kind = b.kind) (n : Nat) :
    mixedKinds? (items.map (Element.capped n)) = none := by
  cases items with
  | nil => rfl
  | cons first items =>
    rw [List.map_cons, mixedKinds?]
    split
    · rename_i hdecided
      rw [findOther_eq_none, (h first List.mem_cons_self).capped_decided n hdecided]
      intro a ha hadecided
      obtain ⟨b, hb, rfl⟩ := List.mem_map.mp ha
      have hmem := List.mem_cons_of_mem first hb
      rw [(h b hmem).capped_decided n hadecided]
      exact hkinds b hmem first List.mem_cons_self
    · rfl

/-- A string is kept at every level. -/
theorem Element.Composed.capped_string (h : e.Composed) (hkind : e.kind = .string) (n : Nat) :
    (e.capped n).kind = .string ∧ (e.capped n).problem = none := by
  cases h with
  | scalar =>
    cases n <;> exact ⟨hkind, rfl⟩
  | tuple | array | json => cases hkind

/-- **The text of a literal tree is read as the tree that is cut off.** -/
theorem Element.Composed.rereads (h : e.Composed) : ∀ n, Rereads n (e.capped n) := by
  induction h with
  | scalar i hliteral hparsed hproblem =>
    intro n
    have hscalar := (legible_scalar (n := n) hliteral hparsed hproblem).element.rereads
    cases n <;> exact hscalar
  | @tuple i items trailing hitems ih =>
    rintro (_ | n)
    · exact rereads_unread fun text => passable_tuple i trailing fun e he => (hitems e he).passedOver text
    · have htuple := rereads_tuple trailing (List.forall_mem_map.mpr fun e he => ih e he n)
      rwa [List.length_map] at htuple
  | @array i items hkinds hitems ih =>
    rintro (_ | n)
    · exact rereads_unread fun text => passable_array i fun e he => (hitems e he).passedOver text
    · have harray := rereads_array (List.forall_mem_map.mpr fun e he => ih e he n)
      rwa [mixedKinds?_capped hitems hkinds] at harray
  | @json i members hstrings hkeys hvalues ihkeys ihvalues =>
    rintro (_ | n)
    · exact rereads_unread fun text => passable_json i (fun m hm => (hkeys m hm).passedOver text)
        fun m hm => (hvalues m hm).passedOver text
    · have hjson := rereads_json (fun m : Element × Element => m.1.capped n) (fun m => m.2.capped n)
        (fun m hm => (hkeys m hm).capped_string (hstrings m hm) n) (fun m hm => ihkeys m hm n)
        (fun m hm => ihvalues m hm n)
      simpa only [Element.capped, List.map_map, Function.comp_def] using hjson

/-- **A literal tree is read up to the limit of levels**, and cut off below it. -/
theorem parse_capped (h : e.Composed) : (Element.parse e.text).erase = e.capped maxNesting := by
  have hread := (h.rereads maxNesting).parse
  rwa [h.capped_text maxNesting] at hread

end Capped

/-! ## What is kept and what is reported -/

/-- On the first `n` levels of containers, the second tree has the kinds and the parts of the first, and no mistake. On
the level below, one element that could not be read stands for each container. -/
def Element.KeptTo : Nat → Element → Element → Prop
  | _, .leaf _ l, y => y.erase = literal l
  | 0, _, y => y.kind = .unknown ∧ y.problem = some .tooDeep
  | n + 1, x, y => y.kind = x.kind ∧ y.problem = none ∧ List.Forall₂ (KeptTo n) x.children y.children

/-- How many containers of the tree stand inside exactly `n` others. -/
def Element.containersAt : Nat → Element → Nat
  | 0, e => if e.kind.isContainer then 1 else 0
  | n + 1, e => (e.children.map (containersAt n)).sum

/-- The report that something is too deep, for any line. -/
def tooDeepReport : Diagnostic := { message := Problem.tooDeep.message, fatal := true }

section Kept

variable {e x y : Element} {n : Nat}

/-- The parts of a literal tree are literal trees. -/
theorem Element.Composed.child {c : Element} (h : e.Composed) (hc : c ∈ e.children) : c.Composed := by
  cases h with
  | scalar => cases hc
  | tuple i trailing hitems => exact hitems c hc
  | array i hkinds hitems => exact hitems c hc
  | json i hstrings hkeys hvalues =>
    obtain ⟨p, hp, hc⟩ := List.mem_flatMap.mp hc
    obtain ⟨m, hm, rfl⟩ := List.mem_map.mp hp
    rcases List.mem_cons.mp hc with rfl | hc
    · exact hkeys m hm
    · obtain rfl := List.mem_singleton.mp hc
      exact hvalues m hm

/-- A literal tree is a leaf, or a container of literal trees. -/
theorem Element.Composed.byParts {motive : (e : Element) → e.Composed → Prop} (leaf : ∀ i l h, motive (.leaf i l) h)
    (container : ∀ e (h : e.Composed), e.kind.IsCollection → (∀ c (hc : c ∈ e.children), motive c (h.child hc)) →
      motive e h) (h : e.Composed) : motive e h := by
  induction e using Element.byChildren with
  | h e ih =>
    have hparts := fun c hc => ih c hc (h.child hc)
    cases h with
    | scalar i => exact leaf i _ _
    | tuple => exact container _ _ (Or.inl rfl) hparts
    | array => exact container _ _ (Or.inr (Or.inl rfl)) hparts
    | json => exact container _ _ (Or.inr (Or.inr rfl)) hparts

theorem not_isCollection_leaf (i : Info) (l : Leaf) : ¬ (Element.leaf i l).kind.IsCollection := by
  cases l <;> simp [Element.kind, Leaf.kind, Kind.IsCollection]

/-- A container is a tuple, an array or a dictionary. -/
theorem collection_cases (h : e.kind.IsCollection) : (∃ i items trailing, e = .tuple i items trailing) ∨
    (∃ i items, e = .array i items) ∨ ∃ i entries, e = .json i entries := by
  cases e with
  | leaf i l => exact absurd h (not_isCollection_leaf i l)
  | tuple i items trailing => exact Or.inl ⟨i, items, trailing, rfl⟩
  | array i items => exact Or.inr (Or.inl ⟨i, items, rfl⟩)
  | json i entries => exact Or.inr (Or.inr ⟨i, entries, rfl⟩)
  | expression | block => simp [Element.kind, Kind.IsCollection] at h

theorem capped_zero (h : e.kind.IsCollection) : e.capped 0 = unread e.text := by
  rcases collection_cases h with ⟨i, items, trailing, rfl⟩ | ⟨i, items, rfl⟩ | ⟨i, entries, rfl⟩ <;> rfl

/-- A container that is not cut off keeps its kind and its parts. -/
theorem capped_succ (h : e.kind.IsCollection) (n : Nat) : (e.capped (n + 1)).kind = e.kind ∧
    (e.capped (n + 1)).problem = none ∧ (e.capped (n + 1)).children = e.children.map (Element.capped n) := by
  rcases collection_cases h with ⟨i, items, trailing, rfl⟩ | ⟨i, items, rfl⟩ | ⟨i, entries, rfl⟩
  · exact ⟨rfl, rfl, rfl⟩
  · exact ⟨rfl, rfl, rfl⟩
  · exact ⟨rfl, rfl, parts_map (fun p => by cases p <;> rfl) entries⟩

theorem keptTo_zero (h : x.kind.IsCollection) : x.KeptTo 0 y ↔ y.kind = .unknown ∧ y.problem = some .tooDeep := by
  rcases collection_cases h with ⟨i, items, trailing, rfl⟩ | ⟨i, items, rfl⟩ | ⟨i, entries, rfl⟩ <;> rfl

theorem keptTo_succ (h : x.kind.IsCollection) : x.KeptTo (n + 1) y ↔
    y.kind = x.kind ∧ y.problem = none ∧ List.Forall₂ (Element.KeptTo n) x.children y.children := by
  rcases collection_cases h with ⟨i, items, trailing, rfl⟩ | ⟨i, items, rfl⟩ | ⟨i, entries, rfl⟩ <;> rfl

/-- Items are kept, one by one, if each is. -/
theorem forall₂_keptTo {xs ys : List Element} (h : ys.map Element.erase = xs.map (Element.capped n))
    (hkept : ∀ x ∈ xs, ∀ y : Element, y.erase = x.capped n → x.KeptTo n y) :
    List.Forall₂ (Element.KeptTo n) xs ys := by
  induction xs generalizing ys with
  | nil =>
    obtain rfl := List.map_eq_nil_iff.mp h
    exact .nil
  | cons x xs ih =>
    obtain ⟨y, rest, rfl, hy, hrest⟩ := List.map_eq_cons_iff.mp h
    obtain ⟨hx, hxs⟩ := List.forall_mem_cons.mp hkept
    exact .cons (hx y hy) (ih hrest hxs)

/-- **What is read as the tree that is cut off keeps the tree up to there.** -/
theorem Element.Composed.keptTo (h : e.Composed) : ∀ n y, y.erase = e.capped n → e.KeptTo n y := by
  induction h using byParts with
  | leaf i l =>
    rintro (_ | n) y hy
    · exact hy
    · exact hy
  | container e _ hkind ih =>
    intro n y hy
    -- kind, problem and parts do not depend on places, so `y` has those of the tree that is cut off
    have hykind : y.erase.kind = y.kind := y.relabel_kind
    have hyproblem : y.erase.problem = y.problem := y.relabel_problem
    have hychildren : y.erase.children = y.children.map Element.erase := y.relabel_children
    rw [hy] at hykind hyproblem hychildren
    cases n with
    | zero =>
      rw [capped_zero hkind] at hykind hyproblem
      exact (keptTo_zero hkind).mpr ⟨hykind.symm, hyproblem.symm⟩
    | succ n =>
      obtain ⟨hk, hp, hc⟩ := capped_succ hkind n
      rw [hc] at hychildren
      exact (keptTo_succ hkind).mpr ⟨hykind.symm.trans hk, hyproblem.symm.trans hp,
        forall₂_keptTo hychildren.symm fun c hmem => ih c hmem n⟩

@[simp] theorem containersAt_leaf (i : Info) (l : Leaf) (n : Nat) : (Element.leaf i l).containersAt n = 0 := by
  cases n with
  | zero => cases l <;> rfl
  | succ n => rfl

theorem containersAt_zero (h : e.kind.IsCollection) : e.containersAt 0 = 1 := by
  rcases h with hk | hk | hk <;> rw [Element.containersAt, hk] <;> rfl

/-- The parts of a container are less deep than the container. -/
theorem Element.depth_le_succ_iff (h : e.kind.IsCollection) : e.depth ≤ n + 1 ↔ ∀ c ∈ e.children, c.depth ≤ n := by
  rcases collection_cases h with ⟨i, items, trailing, rfl⟩ | ⟨i, items, rfl⟩ | ⟨i, entries, rfl⟩
  · rw [Element.depth, Nat.succ_le_succ_iff, depthOf_le_iff, Element.children]
  · rw [Element.depth, Nat.succ_le_succ_iff, depthOf_le_iff, Element.children]
  · rw [Element.depth, Nat.succ_le_succ_iff, entryDepth_le_iff, Element.children, List.forall_mem_flatMap]
    refine forall₂_congr fun p _ => ?_
    cases p with
    | pair key value =>
      rw [Entry.depth, Nat.max_le]
      simp [Entry.parts]
    | bare key => simp [Entry.depth, Entry.parts]

theorem reports_of_forall₂ {xs ys : List Element} (h : List.Forall₂ (Element.KeptTo n) xs ys)
    (hreports : ∀ x ∈ xs, ∀ y, x.KeptTo n y →
      (y.diagnostics.map fun d => { d with line := none }) = List.replicate (x.containersAt n) tooDeepReport) :
    ((ys.flatMap Element.diagnostics).map fun d => { d with line := none }) =
      List.replicate (xs.map (Element.containersAt n)).sum tooDeepReport := by
  induction h with
  | nil => rfl
  | cons hxy _ ih =>
    obtain ⟨hx, hxs⟩ := List.forall_mem_cons.mp hreports
    rw [List.flatMap_cons, List.map_append, hx _ hxy, ih hxs, List.replicate_append_replicate, List.map_cons,
      List.sum_cons]

/-- **What is kept of a tree is reported once for each container below**, and not otherwise. -/
theorem Element.Composed.reports (h : e.Composed) : ∀ n y, e.KeptTo n y →
    (y.diagnostics.map fun d => { d with line := none }) = List.replicate (e.containersAt n) tooDeepReport := by
  induction h using byParts with
  | leaf i l =>
    intro n y hy
    have hleaf : y.erase = literal l := by cases n <;> exact hy
    obtain ⟨j, rfl, hj⟩ := eq_leaf_of_erase hleaf
    rw [containersAt_leaf, Element.diagnostics, Info.diagnostics, hj]
    rfl
  | container e _ hkind ih =>
    rintro (_ | n) y hy
    · obtain ⟨hykind, hyproblem⟩ := (keptTo_zero hkind).mp hy
      cases y with
      | leaf j l =>
        rw [containersAt_zero hkind, Element.diagnostics, Info.diagnostics,
          show j.problem = some .tooDeep from hyproblem]
        rfl
      | _ => cases hykind
    · obtain ⟨hykind, hyproblem, hychildren⟩ := (keptTo_succ hkind).mp hy
      have hblock : y.kind ≠ .block := by
        rw [hykind]
        rcases hkind with hk | hk | hk <;> simp [hk]
      rw [Element.diagnostics_eq_append hblock, Info.diagnostics, show y.info.problem = none from hyproblem]
      exact reports_of_forall₂ hychildren fun c hc => ih c hc n

/-- A literal tree is at most `n` levels deep if and only if no container stands inside `n` others. -/
theorem Element.Composed.containersAt_eq_zero_iff (h : e.Composed) : ∀ n, e.containersAt n = 0 ↔ e.depth ≤ n := by
  induction h using byParts with
  | leaf i l => simp [containersAt_leaf, Element.depth]
  | container e _ hkind ih =>
    rintro (_ | n)
    · rw [containersAt_zero hkind]
      rcases collection_cases hkind with ⟨i, items, trailing, rfl⟩ | ⟨i, items, rfl⟩ | ⟨i, entries, rfl⟩ <;>
        simp [Element.depth]
    · rw [Element.depth_le_succ_iff hkind, Element.containersAt, List.sum_eq_zero_iff_forall_eq_nat,
        List.forall_mem_map]
      exact forall₂_congr fun c hc => ih c hc n

end Kept

/-! ## The limit -/

/-- **The limit of nesting.** No more than `maxNesting` containers stand inside each other in any element or command
that is read from a text, blocks and their commands included. The text of a literal tree is read without a mistake if
and only if the tree keeps to this limit. All that is reported of it otherwise is one fatal mistake for each container
on the first level below the limit, for which one element stands; everything above has the kind and the parts that it
has in the tree. -/
theorem nesting_limit :
    (∀ text, (Element.parse text).depth ≤ maxNesting) ∧
    (∀ catalog text, commandDepth (Script.parse catalog text).commands ≤ maxNesting) ∧
    ∀ e : Element, e.Composed →
      ((Element.parse e.text).hasErrors = false ↔ e.depth ≤ maxNesting) ∧
      ((Element.parse e.text).diagnostics.map fun d => { d with line := none }) =
        List.replicate (e.containersAt maxNesting) tooDeepReport ∧
      e.KeptTo maxNesting (Element.parse e.text) := by
  refine ⟨parse_depth, fun catalog text => commandDepth_le_iff.mpr (script_depth catalog text), fun e h => ?_⟩
  have hkept := h.keptTo maxNesting _ (parse_capped h)
  have hreports := h.reports maxNesting _ hkept
  refine ⟨?_, hreports, hkept⟩
  rw [← Element.diagnostics_eq_nil_iff, ← List.map_eq_nil_iff, hreports, List.replicate_eq_nil_iff]
  exact h.containersAt_eq_zero_iff maxNesting

/-- The tree inside `n` arrays. -/
def Element.nest (n : Nat) (e : Element) : Element := (fun e => .array default [e])^[n] e

theorem Element.Composed.nest {e : Element} (h : e.Composed) (n : Nat) : (e.nest n).Composed := by
  induction n generalizing e with
  | zero => exact h
  | succ n ih => exact ih (.array default (by simp) (by simpa using h))

/-- A legible scalar is read without a mistake. -/
theorem Element.Composed.of_legible {i : Info} {l : Leaf} (hliteral : (Element.leaf i l).isLiteral = true)
    (h : Legible .first maxNesting (literal l)) : (Element.leaf i l).Composed := by
  obtain ⟨j, hread, hproblem⟩ := eq_leaf_of_erase h.element.parse
  have hparsed : Parsed (Element.parse (literal l).text) := Or.inl ⟨_, .self _⟩
  rw [hread] at hparsed
  exact .scalar i hliteral hparsed hproblem

/-- A dictionary at the limit that holds two containers, one of which holds another one. -/
def deepTree : Element :=
  let key := Element.leaf default (.string "k" '\'')
  let yes := Element.leaf default (.boolean true)
  let members := [(key, .array default [yes]), (key, .tuple default [yes, .array default []] true)]
  Element.nest 63 (.json default (members.map fun m => .pair m.1 m.2))

theorem deepTree_composed : deepTree.Composed := by
  have hkey : (Element.leaf default (.string "k" '\'')).Composed :=
    .of_legible rfl (legible_string "k" (Or.inr rfl)).first
  have hyes : (Element.leaf default (.boolean true)).Composed := .of_legible rfl (legible_boolean true).first
  have hempty : (Element.array default []).Composed := .array default (by simp) (by simp)
  refine Element.Composed.nest (.json default ?_ ?_ ?_) 63
  · simp [Element.kind, Leaf.kind]
  · simpa using hkey
  · exact List.forall_mem_cons.mpr ⟨.array default (by simp) (by simpa using hyes),
      List.forall_mem_singleton.mpr (.tuple default true (by simpa using ⟨hyes, hempty⟩))⟩

/-- The limit itself is kept, and two containers below it make two mistakes. -/
theorem nesting_limit_deepTree :
    (Element.parse ((Element.array default []).nest 63).text).hasErrors = false ∧
    (Element.parse deepTree.text).hasErrors = true ∧
      ((Element.parse deepTree.text).diagnostics.map fun d => { d with line := none }) =
        [tooDeepReport, tooDeepReport] ∧
      deepTree.KeptTo maxNesting (Element.parse deepTree.text) := by
  have hempty : (Element.array default []).Composed := .array default (by simp) (by simp)
  obtain ⟨hexact, -⟩ := nesting_limit.2.2 _ (hempty.nest 63)
  obtain ⟨hdeep, hreports, hkept⟩ := nesting_limit.2.2 deepTree deepTree_composed
  refine ⟨hexact.mpr (by decide +kernel), ?_, hreports, hkept⟩
  rw [← Bool.not_eq_false, hdeep]
  decide +kernel

end UiScript
