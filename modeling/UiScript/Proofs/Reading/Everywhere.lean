import UiScript.Proofs.Element.Occurrence
import UiScript.Proofs.Reading.Progress

/-!
# What holds of all that is read

To prove something of every element that occurs in a script, blocks included, it is enough to look at each reader once.
A property is ensured (`Ensures`) if the single elements that the readers make have it, where the cursor stands in a
range of a kind that reading does not leave. Then all that is read has it (`operand_yields`, `commands_yields`), and so
has every element that occurs in an element or a script that was read from a text (`Parsed.yields`).

Reading makes sure of three things, and notes a problem where it cannot: operators stand between operands (`linked`),
the items of an array are of one kind, and the entries of a dictionary are regular (`Entry.Regular`).
-/

namespace UiScript

/-- Operators, each with an operand after it. -/
def linked : List Element → Bool
  | [] => true
  | .leaf _ (.operator _) :: _ :: rest => linked rest
  | _ => false

/-- What leaves operators alone keeps the links. -/
theorem linked_map {f : Element → Element} (hf : ∀ i op, f (.leaf i (.operator op)) = .leaf i (.operator op))
    {parts : List Element} (h : linked parts = true) : linked (parts.map f) = true := by
  fun_induction linked parts with
  | case1 => rfl
  | case2 i op right rest ih =>
    rw [List.map_cons, List.map_cons, hf, linked]
    exact ih h
  | case3 => cases h

/-- The key of an entry is a string or a variable unless it has a problem, and the value is there. -/
def Entry.Regular : Entry → Prop
  | .pair k _ => k.problem = none → k.kind = .string ∨ k.kind = .reference
  | .bare _ => False

namespace Reading

/-- The property `P` is ensured of what is read in ranges of the kind `I`. -/
structure Ensures (catalog : Catalog) (I : Source → Cursor → Prop) (P : Element → Prop) : Prop where
  reaches : ∀ {s c c'}, I s c → Reaches c c' → I s c'
  enters : ∀ {s c brace ts}, I s c → c.rest = brace :: ts → brace.kind = .opening .curly →
    I (s.between brace ts) ⟨(splitBlock 0 ts).1, brace.span.stop⟩
  leaf : ∀ {s c}, I s c → P (leaf s c).1
  sign : ∀ i op, P (.leaf i (.operator op))
  unknown : ∀ {i : Info}, i.problem ≠ none → P (.leaf i .unknown)
  tuple : ∀ i items trailing, P (.tuple i items trailing)
  array : ∀ {i : Info} {items}, (i.problem = none → mixedKinds? items = none) → P (.array i items)
  json : ∀ {i : Info} {entries}, (i.problem = none → ∀ p ∈ entries, p.Regular) → P (.json i entries)
  expression : ∀ {i : Info} {first parts}, parts ≠ [] → (i.problem = none → linked parts = true) →
    P (.expression i (first :: parts) none)
  noting : ∀ {e p}, isFatalProblem p = false → P e → P (e.noting p)
  block : ∀ {levels s c t ts}, levels < maxNesting → I s c → c.rest = t :: ts → opens? (t :: ts) = some .block →
    P (container catalog levels s .block t (c.past t ts)).1

/-- All that the reader gives has the property. -/
def Yields (I : Source → Cursor → Prop) (P : Element → Prop) (s : Source) (read : Cursor → Element × Cursor) : Prop :=
  ∀ c, I s c → (read c).1.Every true P

section Parts

variable {catalog : Catalog} {I : Source → Cursor → Prop} {P : Element → Prop} {s : Source}
  {read : Cursor → Element × Cursor} {c : Cursor}

theorem leaf_yields (he : Ensures catalog I P) : Yields I P s (leaf s) := by
  intro c hc
  have hleaf := he.leaf hc
  obtain ⟨i, l, heq⟩ := leaf_eq s c
  rw [heq] at hleaf ⊢
  exact Element.every_leaf hleaf

theorem unknown_yields (he : Ensures catalog I P) (span : Span) (line : Nat) (p : Problem) :
    (Element.leaf (s.info span line (some p)) .unknown).Every true P :=
  Element.every_leaf (he.unknown (by simp [Source.info]))

/-! ## Chains and lists -/

/-- The parts of a chain, which are linked unless it has a problem. -/
theorem chainTail_yields (he : Ensures catalog I P) (hread : Yields I P s read) (ha : Advances read)
    (multiline : Bool) (c : Cursor) (hc : I s c) :
    (∀ e ∈ (chainTail multiline read c).parts, e.Every true P) ∧
      ((chainTail multiline read c).problem = none → linked (chainTail multiline read c).parts = true) := by
  have hsign : ∀ (t : Token) (op : Operator), (Element.leaf (tokenInfo t none) (.operator op)).Every true P :=
    fun t op => Element.every_leaf (he.sign _ op)
  fun_induction chainTail multiline read c with
  | case1 c _ => exact ⟨by simp, fun _ => rfl⟩
  | case2 c t ts h op hop sign doubled ahead hahead hstarts right after hright hlt tail ih =>
    have hvalid := he.reaches hc (operatorAhead_reaches h hahead)
    have hfirst := hread ahead hvalid
    have hafter := ha ahead
    rw [hright] at hfirst hafter
    obtain ⟨hparts, hlinked⟩ := ih (he.reaches hvalid hafter)
    constructor
    · exact List.forall_mem_cons.mpr ⟨hsign t op, List.forall_mem_cons.mpr ⟨hfirst, hparts⟩⟩
    · intro hproblem
      exact hlinked (Problem.note_eq_none.mp hproblem).2
  | case3 c t ts h op hop sign doubled ahead hahead hstarts right after hright hlt =>
    have hfirst := hread ahead (he.reaches hc (operatorAhead_reaches h hahead))
    rw [hright] at hfirst
    constructor
    · exact List.forall_mem_cons.mpr ⟨hsign t op, List.forall_mem_cons.mpr ⟨hfirst, by simp⟩⟩
    · exact fun _ => rfl
  | case4 c t ts h op hop sign doubled ahead hahead hstarts =>
    constructor
    · exact List.forall_mem_cons.mpr ⟨hsign t op, by simp⟩
    · intro hproblem
      cases (Problem.note_eq_none.mp hproblem).2
  | case5 c t ts h hop => exact ⟨by simp, fun _ => rfl⟩

theorem chain_yields (he : Ensures catalog I P) (multiline : Bool) (hread : Yields I P s read) (ha : Advances read) :
    Yields I P s (chain s multiline read) := by
  intro c hc
  obtain ⟨hparts, hlinked⟩ := chainTail_yields he hread ha multiline (read c).2 (he.reaches hc (ha c))
  unfold chain
  dsimp only
  split
  · exact hread c hc
  · rename_i hne
    apply Element.every_of_children
    · exact he.expression (by simpa using hne) hlinked
    · exact List.forall_mem_cons.mpr ⟨hread c hc, hparts⟩
    · intro hk
      cases hk

/-- The items of a list, each with the problem that it made for the list. -/
theorem listing_yields (he : Ensures catalog I P) {α : Type} (g : Group) (item : Cursor → Item α)
    (Q : α → Option Problem → Prop) (hitem : ∀ c, I s c → Q (item c).value (item c).problem)
    (ha : ∀ c, Reaches c (item c).cursor) (awaiting : Bool) (c : Cursor) (hc : I s c) :
    ∀ a ∈ (listing s g item awaiting c).items,
      ∃ p, Q a p ∧ ((listing s g item awaiting c).problem = none → p = none) := by
  fun_induction listing s g item awaiting c with
  | case1 awaiting c h => exact fun a h => by cases h
  | case2 awaiting c t ts h ahead _ _ => exact fun a h => by cases h
  | case3 awaiting c t ts h ahead _ _ _ ih =>
    intro a hmem
    obtain ⟨p, hp, hnone⟩ := ih (he.reaches hc (Reaches.past_skip h)) a hmem
    exact ⟨p, hp, fun hproblem => hnone (Problem.note_eq_none.mp hproblem).2⟩
  | case4 awaiting c t ts h ahead _ _ _ _ ih =>
    intro a hmem
    obtain ⟨p, hp, hnone⟩ := ih (he.reaches hc (Reaches.past_skip h)) a hmem
    exact ⟨p, hp, fun hproblem => hnone (Problem.note_eq_none.mp hproblem).2⟩
  | case5 awaiting c t ts h ahead _ _ _ _ read problem hlt ih =>
    have hahead := he.reaches hc (Reaches.skipTrivia c true)
    intro a hmem
    rcases List.mem_cons.mp hmem with rfl | hmem
    · exact ⟨_, hitem ahead hahead, fun hproblem =>
        (Problem.note_eq_none.mp (Problem.note_eq_none.mp hproblem).1).2⟩
    · obtain ⟨p, hp, hnone⟩ := ih (he.reaches hahead (ha ahead)) a hmem
      exact ⟨p, hp, fun hproblem => hnone (Problem.note_eq_none.mp hproblem).2⟩
  | case6 awaiting c t ts h ahead _ _ _ _ read problem hlt =>
    intro a hmem
    rw [List.mem_singleton.mp hmem]
    have hahead := he.reaches hc (Reaches.skipTrivia c true)
    exact ⟨_, hitem ahead hahead, fun hproblem => (Problem.note_eq_none.mp hproblem).2⟩

/-- That a key is of the wrong kind is not fatal. -/
theorem keyProblem?_mild (key : Element) : isFatalProblem (keyProblem? key) = false := by
  unfold keyProblem?
  split
  · rfl
  · split <;> rfl

/-- An entry is regular unless it makes a problem for the dictionary. -/
theorem entry_yields (he : Ensures catalog I P) (hread : Yields I P s read) (ha : Advances read) (c : Cursor)
    (hc : I s c) :
    (∀ x ∈ (entry read c).value.parts, x.Every true P) ∧
      ((entry read c).problem = none → (entry read c).value.Regular) := by
  have hfound := hread c hc
  have hkey : ((read c).1.noting (keyProblem? (read c).1)).Every true P :=
    hfound.noting (he.noting (keyProblem?_mild _) hfound.here)
  have hahead := he.reaches hc ((ha c).trans (Reaches.skipTrivia _ true))
  unfold entry
  dsimp only
  split
  · exact ⟨by simpa [Entry.parts] using hkey, fun h => by cases h⟩
  · rename_i t ts h
    split
    · split
      · exact ⟨by simpa [Entry.parts] using hkey, fun h => by cases h⟩
      · exact ⟨by simpa [Entry.parts] using hkey, fun h => by cases h⟩
      · exact ⟨by simpa [Entry.parts] using hkey, fun h => by cases h⟩
      · have hvalue := hread _ (he.reaches (he.reaches hahead (Reaches.past h)) (Reaches.skipTrivia _ true))
        constructor
        · simpa [Entry.parts] using ⟨hkey, hvalue⟩
        · intro _ hproblem
          obtain ⟨hnone, hkeyProblem⟩ := Problem.note_eq_none.mp ((Element.problem_noting _ _).symm.trans hproblem)
          rw [Element.kind_noting]
          exact keyProblem?_eq_none hnone hkeyProblem
    · exact ⟨by simpa [Entry.parts] using hkey, fun h => by cases h⟩

theorem tuple_yields (he : Ensures catalog I P) (hread : Yields I P s read) (ha : Advances read) (t : Token) :
    Yields I P s (tuple s read t) := by
  intro c hc
  have hitems := listing_yields he .tuple (elementItem read) (fun e _ => e.Every true P) hread
    (elementItem_reaches ha) true c hc
  apply Element.every_of_children
  · exact he.tuple _ _ _
  · intro e hmem
    obtain ⟨-, h, -⟩ := hitems e hmem
    exact h
  · intro hk
    cases hk

theorem array_yields (he : Ensures catalog I P) (hread : Yields I P s read) (ha : Advances read) (t : Token) :
    Yields I P s (array s read t) := by
  intro c hc
  have hitems := listing_yields he .array (elementItem read) (fun e _ => e.Every true P) hread
    (elementItem_reaches ha) true c hc
  apply Element.every_of_children
  · exact he.array fun hproblem => (Problem.note_eq_none.mp hproblem).2
  · intro e hmem
    obtain ⟨-, h, -⟩ := hitems e hmem
    exact h
  · intro hk
    cases hk

theorem json_yields (he : Ensures catalog I P) (hread : Yields I P s read) (ha : Advances read) (t : Token) :
    Yields I P s (json s read t) := by
  intro c hc
  have hentries := listing_yields he .json (entry read)
    (fun e p => (∀ x ∈ e.parts, x.Every true P) ∧ (p = none → e.Regular))
    (fun c hc => entry_yields he hread ha c hc) (entry_reaches ha) true c hc
  apply Element.every_of_children
  · apply he.json
    intro hproblem e hmem
    obtain ⟨p, ⟨-, hregular⟩, hnone⟩ := hentries e hmem
    exact hregular (hnone hproblem)
  · intro x hx
    obtain ⟨e, hmem, hx⟩ := List.mem_flatMap.mp hx
    obtain ⟨p, ⟨hparts, -⟩, -⟩ := hentries e hmem
    exact hparts x hx
  · intro hk
    cases hk

/-! ## Commands and blocks -/

theorem argument_yields (he : Ensures catalog I P) (hread : Yields I P s read) (hc : I s c) :
    ∀ a ∈ (argument read c).1, a.Every true P := by
  unfold argument
  split
  · simp
  · simp
  · rintro a ⟨⟩
    exact hread _ (he.reaches hc (Reaches.skipComments c))

theorem command_yields (he : Ensures catalog I P) (hread : Yields I P s read) (t : Token) (hc : I s c) :
    ∀ a ∈ (command catalog s read t c).1.argument?, a.Every true P := by
  have hbroken : ∀ name p c', ∀ a ∈ (brokenCommand s t name p c').1.argument?, a.Every true P := by
    simp [brokenCommand, Command.argument?]
  have hskip := he.reaches hc (Reaches.skipComments c)
  unfold command
  split
  · split
    · exact hbroken _ _ _
    · rename_i u us h
      split
      · dsimp only
        split
        · intro a hmem
          have hargument := argument_yields he hread (he.reaches hskip (Reaches.past h))
          cases harg : (argument read (c.skipComments.past u us)).1 with
          | none =>
            rw [harg] at hmem
            cases hmem
          | some b =>
            rw [harg] at hmem
            cases hmem
            exact hargument a harg
        · exact hbroken _ _ _
      · exact hbroken _ _ _
  · exact hbroken _ _ _

theorem commands_yields (he : Ensures catalog I P) (hread : Yields I P s read) (ha : Advances read) (c : Cursor)
    (hc : I s c) : ∀ k ∈ commands catalog s read c, ∀ a, k.argument? = some a → a.Every true P := by
  induction hn : c.rest.length using Nat.strongRecOn generalizing c with
  | ind n ih =>
    cases h : c.skipBlank.rest with
    | nil => simp [commands_nil h]
    | cons t ts =>
      have hpast := he.reaches hc (Reaches.past_blank h)
      rw [Cursor.past_eq (Cursor.skipBlank_head h)] at hpast
      rw [commands_cons ha h]
      refine List.forall_mem_cons.mpr ⟨command_yields he hread t hpast, ?_⟩
      split
      · simp
      · exact ih _ (hn ▸ command_lt ha h) _ (he.reaches hpast (command_reaches catalog s ha t _)) rfl

end Parts

section Levels

variable {catalog : Catalog} {I : Source → Cursor → Prop} {P : Element → Prop}

theorem block_yields (he : Ensures catalog I P) {levels : Nat} (hlt : levels < maxNesting) {s : Source} {c : Cursor}
    {t : Token} {ts : List Token} (hc : I s c) (hrest : c.rest = t :: ts) (hg : opens? (t :: ts) = some .block)
    (hread : ∀ inner, Yields I P inner (chain inner false (operand catalog levels inner false))) :
    (container catalog levels s .block t (c.past t ts)).1.Every true P := by
  have hblock := he.block hlt hc hrest hg
  obtain ⟨brace, us, hbrace, hk⟩ := opens?_brace hg c
  have hskip := he.reaches hc ((Reaches.past hrest).trans (Reaches.skipBlank _))
  obtain ⟨i, -, heq⟩ : ∃ i : Info, i.span.start = t.span.start ∧
      (container catalog levels s .block t (c.past t ts)).1 = .block i _ _ := block_inside hbrace
  rw [heq] at hblock ⊢
  refine Element.every_block hblock (commands_yields he (hread _) ?_ _ (he.enters hskip hbrace hk))
  exact chain_reaches _ false (operand_reaches catalog levels _ false)

/-- **All that an operand holds has the property.** -/
theorem operand_yields (he : Ensures catalog I P) {levels : Nat} (hle : levels ≤ maxNesting) (s : Source)
    (multiline : Bool) : Yields I P s (operand catalog levels s multiline) := by
  induction levels using Nat.strongRecOn generalizing s multiline with
  | ind levels ih =>
    intro c hc
    have hskip := he.reaches hc (Reaches.skipTrivia c multiline)
    rcases operand_cases catalog levels s multiline c with ⟨-, h⟩ | ⟨-, h⟩ | ⟨below, g, t, ts, rfl, hrest, hg, h⟩
    · rw [h]
      exact leaf_yields he _ hskip
    · rw [h]
      exact unknown_yields he _ _ _
    · have hpast := he.reaches hskip (Reaches.past hrest)
      have ha : ∀ inner deeper, Advances (chain inner deeper (operand catalog below inner deeper)) :=
        fun inner deeper => chain_reaches inner deeper (operand_reaches catalog below inner deeper)
      have hchain : ∀ inner deeper, Yields I P inner (chain inner deeper (operand catalog below inner deeper)) := by
        intro inner deeper
        apply chain_yields he
        · exact ih below (Nat.lt_succ_self _) (by omega) inner deeper
        · exact operand_reaches catalog below inner deeper
      rw [h]
      cases g with
      | tuple => exact tuple_yields he (hchain s true) (ha s true) t _ hpast
      | array => exact array_yields he (hchain s true) (ha s true) t _ hpast
      | json => exact json_yields he (hchain s true) (ha s true) t _ hpast
      | block =>
        have hlt : below < maxNesting := by omega
        exact block_yields he hlt hskip hrest hg fun inner => hchain inner false

theorem element_yields (he : Ensures catalog I P) (multiline : Bool) (s : Source) :
    Yields I P s (element catalog multiline s) := by
  apply chain_yields he
  · exact operand_yields he (Nat.le_refl _) s multiline
  · exact operand_reaches catalog maxNesting s multiline

/-- All that an element holds that is read from a text. -/
theorem parse_yields (he : Ensures .any I P) {text : String} (hI : I (.whole text.toList) ⟨scan text.toList, 0⟩) :
    (Element.parse text).Every true P := by
  have hstart := he.reaches hI (Reaches.skipTrivia _ true)
  have hread := element_yields he true (.whole text.toList) _ hstart
  have hmissing := unknown_yields (s := .whole text.toList) he
  simp only [Element.parse]
  split
  · split
    · exact hmissing _ _ _
    · exact hread
  · split
    · exact (hmissing _ _ _).noting (he.noting rfl (hmissing _ _ _).here)
    · exact hread.noting (he.noting rfl hread.here)

/-- All that the arguments of a script's commands hold. -/
theorem script_yields (he : Ensures catalog I P) {text : String} (hI : I (.whole text.toList) ⟨scan text.toList, 0⟩)
    {c : Command} (hc : c ∈ (Script.parse catalog text).commands) {a : Element} (ha : c.argument? = some a) :
    a.Every true P :=
  commands_yields he (element_yields he false _)
    (chain_reaches _ false (operand_reaches catalog maxNesting _ false)) _ hI c hc a ha

end Levels

end Reading

/-! ## Parsed elements -/

/-- The element occurs, at any depth, in an element that was read from a text, or in an argument of a script. -/
def Parsed (e : Element) : Prop :=
  (∃ text, Occurs true e (Element.parse text)) ∨
    ∃ catalog text, ∃ c ∈ (Script.parse catalog text).commands, ∃ a, c.argument? = some a ∧ Occurs true e a

/-- **Parsed elements have what reading ensures.** -/
theorem Parsed.yields {I : Reading.Source → Reading.Cursor → Prop} {P : Element → Prop}
    (he : ∀ catalog, Reading.Ensures catalog I P)
    (hI : ∀ text : List Char, I (.whole text) ⟨scan text, 0⟩) {e : Element} (h : Parsed e) : e.Every true P := by
  rcases h with ⟨text, hx⟩ | ⟨catalog, text, c, hc, a, ha, hx⟩
  · exact (Reading.parse_yields (he .any) (hI _)).of_occurs hx
  · exact (Reading.script_yields (he catalog) (hI _) hc ha).of_occurs hx

end UiScript
