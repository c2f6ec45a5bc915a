import UiScript.Proofs.Machine.Operands

/-!
# Reading by position goes forward and ends

From every state that stands among the tokens of a range an operand and an element are read without a failure. The
counters are afterwards what they were, and a token is read if one is ahead that does not end the line
(`operand_element_advance`). So every round of a loop reads a token, or ends the loop where nothing more is ahead, and
every loop ends (`Range.Proceeds`). What the machine reads of a whole text is what is read with a cursor
(`script_eq`, `single_eq`).
-/

namespace UiScript.Machine

open Text Reading

/-! ## From a state to a later one -/

/-- At least one more token is read, and none beyond the last one; the counters are the same. -/
structure Range.Advances (r : Range) (st st' : State) : Prop where
  position_lt : st.position < st'.position
  position_le : st'.position ≤ r.tokens.length
  depth_eq : st'.depth = st.depth
  nesting_eq : st'.nesting = st.nesting

/-- The next token that is not skipped is there, and it is no line end. -/
def Range.Starts (r : Range) (st : State) : Prop :=
  ∃ ahead t, r.skipTrivia st = Part.some ahead ∧ r.current ahead = some t ∧ t.kind ≠ .newline

/-- A round has a result. It reads at least one token, or it ends the loop where nothing more is ahead; and the loop
that starts with this round ends. The states before and after a round are read off what the loop works on and what it
gives. -/
def Range.Proceeds {α β : Type} (r : Range) (round : α → Part (β ⊕ α)) (before : α → State) (after : β → State)
    (more : State → Bool) (a : α) : Prop :=
  (∃ x, round a = Part.some x ∧
    (r.Advances (before a) (x.elim after before) ∨ ∃ b, x = .inl b ∧ more (after b) = false)) ∧
  ∃ b, loop round a = Part.some b

variable {catalog : Catalog} {calls : Nat} {r : Range} {depth nesting : Nat} {c c' : Cursor}

theorem Range.advances_state (h : r.Holds c) (hlt : c'.rest.length < c.rest.length) :
    r.Advances (r.state depth nesting c) (r.state depth nesting c') := by
  have hle := h.length_le
  constructor
  · simp only [state]
    omega
  · exact Nat.sub_le _ _
  · rfl
  · rfl

/-- Where a token starts an element, the cursor is before one that is neither a comment nor a line end. -/
theorem Range.Starts.exists_head (hstarts : r.Starts (r.state depth nesting c)) (h : r.Holds c) :
    ∃ t ts, (c.skipTrivia (decide (0 < depth))).rest = t :: ts ∧ t.kind.isTrivia = false := by
  obtain ⟨ahead, t, hskip, hcurrent, ht⟩ := hstarts
  rw [skipTrivia_state h] at hskip
  obtain rfl := Part.some_injective hskip
  rw [current_state (h.reaches (Reaches.skipTrivia c _))] at hcurrent
  obtain ⟨ts, hrest⟩ := List.head?_eq_some_iff.mp hcurrent
  refine ⟨t, ts, hrest, ?_⟩
  have hkept := Cursor.skip_head hrest
  revert hkept ht
  cases t.kind <;> simp [TokenKind.isTrivia]

/-! ## Readers -/

/-- Reading has a result, among the tokens of the range and not before where it started, and the counters are the same.
A token that starts an element is read. -/
def Range.ReadsOn (r : Range) (read : Reader Element) (st : State) : Prop :=
  ∃ e st', read st = Part.some (e, st') ∧ st.position ≤ st'.position ∧ st'.position ≤ r.tokens.length ∧
    st'.depth = st.depth ∧ st'.nesting = st.nesting ∧ (r.Starts st → st.position < st'.position)

variable {read : Reader Element} {read' : Cursor → Element × Cursor}

/-- What it means for the states to follow a reader that passes over the token ahead. -/
theorem Follows.readsOn (hread : Follows r depth nesting read read') (ha : Advances read')
    (hc : Consumes (decide (0 < depth)) read') (h : r.Holds c) : r.ReadsOn read (r.state depth nesting c) := by
  have hle := (ha c).length_le
  refine ⟨_, _, hread c h, ?_, Nat.sub_le _ _, rfl, rfl, fun hstarts => ?_⟩
  · simp only [Range.state]
    omega
  · obtain ⟨t, ts, hrest, ht⟩ := hstarts.exists_head h
    exact (Range.advances_state h (hc.length_lt hrest ht)).position_lt

/-! ## Loops -/

/-- Lists between brackets. -/
theorem fill_proceeds {α : Type} {g : Group} {item : Reader (α × Option Problem)} {item' : Cursor → Reading.Item α}
    (hs : r.Scanned) (hitem : FollowsItem r (depth + 1) nesting item item') (ha : ConsumesItem item') (items : List α)
    (awaiting : Bool) (problem : Option Problem) (h : r.Holds c) :
    r.Proceeds (fillRound r g item) Filling.state (fun x => x.1.state) (fun st => (r.current st).isSome)
      ⟨items, awaiting, problem, r.state (depth + 1) nesting c⟩ := by
  refine ⟨?_, _, fill_loop hs hitem ha items awaiting problem h⟩
  have hskip := h.reaches (Reaches.skipTrivia c true)
  cases hrest : (c.skipTrivia true).rest with
  | nil => exact ⟨_, fillRound_nil items awaiting problem h hrest, Or.inr ⟨_, rfl, by simp [hskip, hrest]⟩⟩
  | cons t ts =>
    have hle := (Reaches.skipTrivia c true).length_le
    rw [hrest, List.length_cons] at hle
    have hpast : ((c.skipTrivia true).past t ts).rest.length < c.rest.length := hle
    have hread := (ha _ t ts hrest (Cursor.skipTrivia_head hrest)).length_le
    refine ⟨_, fillRound_cons hs hitem items awaiting problem h hrest, Or.inl ?_⟩
    split_ifs
    all_goals first
      | exact Range.advances_state h hpast
      | exact Range.advances_state h (Nat.lt_of_le_of_lt hread hpast)

/-- Chains of operators. -/
theorem link_proceeds (hread : Follows r depth nesting read read') (ha : Advances read') (parts : List Element)
    (problem : Option Problem) (h : r.Holds c) :
    r.Proceeds (linkRound r read) Linking.state Linking.state (operatorAhead r)
      ⟨parts, problem, r.state depth nesting c⟩ := by
  refine ⟨?_, _, link_state hread ha parts problem h⟩
  have hskip := h.reaches (Reaches.skipTrivia c (decide (0 < depth)))
  by_cases hop : ∃ t ts op, (c.skipTrivia (decide (0 < depth))).rest = t :: ts ∧ t.kind = .operator op
  · obtain ⟨t, ts, op, hrest, hop⟩ := hop
    obtain ⟨⟨doubled, ahead⟩, hahead⟩ : ∃ x, Reading.skipOperator op (decide (0 < depth))
        (((c.skipTrivia (decide (0 < depth))).past t ts).skipTrivia (decide (0 < depth))) = x := ⟨_, rfl⟩
    have hlt := operatorAhead_lt hrest hahead
    refine ⟨_, linkRound_operator hread parts problem h hrest hop hahead, Or.inl ?_⟩
    split_ifs
    · exact Range.advances_state h (Nat.lt_of_le_of_lt (ha ahead).length_le hlt)
    · exact Range.advances_state h hlt
  · have hend : ∀ t ∈ (c.skipTrivia (decide (0 < depth))).rest.head?, ∀ op, t.kind ≠ .operator op := by
      intro t ht op hk
      obtain ⟨ts, hrest⟩ := List.head?_eq_some_iff.mp ht
      exact hop ⟨t, ts, op, hrest, hk⟩
    refine ⟨_, linkRound_end parts problem h hend, Or.inr ⟨_, rfl, ?_⟩⟩
    simp only [operatorAhead, Range.currentKind_state hskip]
    split
    · rename_i op hk
      obtain ⟨t, ts, hrest, hk⟩ := exists_of_kind? hk
      exact absurd ⟨t, ts, op, hrest, hk⟩ hop
    · rfl

/-- Commands. -/
theorem commands_proceeds (catalog : Catalog) (hs : r.Scanned) (hread : Follows r depth nesting read read')
    (ha : Advances read') (found : List Command) (h : r.Holds c) :
    r.Proceeds (commandsRound catalog r read) Listed.state Listed.state (fun st => (r.current st).isSome)
      ⟨found, r.state depth nesting c⟩ := by
  obtain ⟨after, hloop⟩ := commands_loop catalog hs hread ha found h
  refine ⟨?_, _, hloop⟩
  have hskip := h.reaches (Reaches.skipBlank c)
  cases hrest : c.skipBlank.rest with
  | nil => exact ⟨_, commandsRound_nil found h hrest, Or.inr ⟨_, rfl, by simp [hskip, hrest]⟩⟩
  | cons t ts =>
    refine ⟨_, commandsRound_cons catalog hs hread ha found h hrest, Or.inl ?_⟩
    split_ifs
    · exact Range.advances_state h (command_lt ha hrest)
    · exact Range.advances_state h (command_lt ha hrest)

/-! ## Whole texts -/

/-- The range of a whole text. -/
theorem ofText_whole (text : List Char) :
    Range.ofText text 0 (width text) 1 = Part.some ⟨text, scan text, width text, 1⟩ := by
  have h : Range.ofText text (width []) (width text) 1 = _ :=
    Range.ofText_part (show text = [] ++ text ++ [] from (List.append_nil text).symm) (by simp)
  simpa [scan_eq] using h

/-- **Scripts.** -/
theorem script_eq (catalog : Catalog) (hcalls : maxNesting < calls) (text : String) :
    script catalog calls text = Part.some (Script.parse catalog text).commands := by
  have hs := Range.scanned_of_ofText (ofText_whole text.toList)
  have helement := element_follows catalog (show maxNesting - 0 < calls from hcalls) hs 0
  have hcommands := commands_state catalog hs helement (chain_reaches _ _ (operand_reaches _ _ _ _)) 0
  rw [script, ofText_whole, Part.bind_eq_bind, Part.bind_some, hcommands]
  rfl

theorem trailing_state (hs : r.Scanned) (h : r.Holds c) (found : Element) :
    trailing r found (r.state 1 nesting c) =
      Part.some (match (c.skipTrivia true).rest with
        | [] => found
        | t :: _ => found.noting (some (.afterElement t.describe))) := by
  have hskip := h.reaches (Reaches.skipTrivia c true)
  have hclose : ∀ c', (r.state 1 nesting c').closeBracket = Part.some (r.state 0 nesting c') := fun _ => rfl
  cases hrest : (c.skipTrivia true).rest with
  | nil => simp [trailing, h, hskip, hclose, hrest]
  | cons t ts => simp [trailing, h, hskip, hclose, hrest, hs.describe_token (hskip.mem hrest)]

/-- **Single elements.** -/
theorem single_eq (hcalls : maxNesting < calls) (text : String) :
    single calls text = Part.some (Element.parse text) := by
  obtain ⟨r, hr⟩ : ∃ r : Range, r = ⟨text.toList, scan text.toList, width text.toList, 1⟩ := ⟨_, rfl⟩
  obtain ⟨ahead, hahead⟩ : ∃ ahead, ahead = Cursor.skipTrivia ⟨r.tokens, 0⟩ true := ⟨_, rfl⟩
  have hs : r.Scanned := hr ▸ Range.scanned_of_ofText (ofText_whole text.toList)
  have hstart : r.Holds ⟨r.tokens, 0⟩ := Range.Holds.start r 0
  have hskip : r.Holds ahead := hahead ▸ hstart.reaches (Reaches.skipTrivia _ true)
  have hopen : r.skipTrivia (State.openBracket ⟨0, 0, 0⟩) = Part.some (r.state 1 0 ahead) := by
    have hstate : State.openBracket ⟨0, 0, 0⟩ = r.state 1 0 ⟨r.tokens, 0⟩ := by
      simp only [State.openBracket, Range.state, Nat.sub_self]
    rw [hstate, Range.skipTrivia_state hstart, hahead]
    rfl
  simp only [single, ofText_whole, Part.bind_eq_bind, Part.bind_some, ← hr, hopen, Range.current_state hskip]
  cases hrest : ahead.rest with
  | nil =>
    simp only [List.head?_nil, Range.missing_state hskip, trailing_state hs hskip]
    subst hahead hr
    simp only [Element.parse, hrest, List.isEmpty_nil, if_true]
    rfl
  | cons t ts =>
    have helement : element .any calls r (r.state 1 0 ahead) = Part.some ((Reading.element .any true r.source ahead).1,
      r.state 1 0 (Reading.element .any true r.source ahead).2) :=
      element_follows .any (show maxNesting - 0 < calls from hcalls) hs 1 _ hskip
    have hafter : r.Holds (Reading.element .any true r.source ahead).2 :=
      hskip.reaches (chain_reaches r.source true (operand_reaches .any maxNesting r.source true) _)
    simp only [List.head?_cons, helement, Part.bind_some, trailing_state hs hafter]
    subst hahead hr
    simp only [Element.parse, hrest, List.isEmpty_cons, Bool.false_eq_true, if_false]
    rfl

/-! ## Every state -/

/-- **Reading goes forward, restores its counters, and ends.** Take a range of a text, a state that stands among its
tokens or at their end, with any number of open brackets and containers, and room for one more open operand than there
are levels left. From there an operand and an element are read: no position and no cut is out of range, no counter falls
below zero, the brackets and containers are afterwards as many as before, and where a token other than a line end is
ahead, it is read. Every round of a loop, over the items of a list or the entries of a dictionary (between brackets),
over operators, or over commands, reads a token or ends the loop where nothing more is ahead, and every loop ends. So
every text is read to its end, and what is read is what the cursor reads. -/
theorem reading_proceeds (catalog : Catalog) {text : List Char} {start stop line calls : Nat} {r : Range} {st : State}
    (hr : Range.ofText text start stop line = Part.some r) (hst : st.position ≤ r.tokens.length)
    (hcalls : maxNesting - st.nesting < calls) :
    r.ReadsOn (operand catalog calls r) st ∧ r.ReadsOn (element catalog calls r) st ∧
    (0 < st.depth → ∀ awaiting problem,
      (∀ g items, r.Proceeds (fillRound r g (elementItem (element catalog calls r))) Filling.state (fun x => x.1.state)
        (fun st' => (r.current st').isSome) ⟨items, awaiting, problem, st⟩) ∧
      ∀ entries, r.Proceeds (fillRound r .json (entry r (element catalog calls r))) Filling.state (fun x => x.1.state)
        (fun st' => (r.current st').isSome) ⟨entries, awaiting, problem, st⟩) ∧
    (∀ parts problem, r.Proceeds (linkRound r (operand catalog calls r)) Linking.state Linking.state (operatorAhead r)
      ⟨parts, problem, st⟩) ∧
    (∀ found, r.Proceeds (commandsRound catalog r (element catalog calls r)) Listed.state Listed.state
      (fun st' => (r.current st').isSome) ⟨found, st⟩) ∧
    ∀ whole : String, maxNesting < calls →
      script catalog calls whole = Part.some (Script.parse catalog whole).commands ∧
        single calls whole = Part.some (Element.parse whole) := by
  have hs := Range.scanned_of_ofText hr
  obtain ⟨c, h, hstate⟩ := Range.exists_cursor hst
  obtain ⟨position, depth, nesting⟩ := st
  simp only at hstate hcalls
  rw [hstate]
  have hreach := fun multiline => operand_reaches catalog (maxNesting - nesting) r.source multiline
  have hoperand := operand_follows catalog calls hcalls hs
  have helement := element_follows catalog hcalls hs
  have hconsumes := fun multiline => chain_consumes r.source (hreach multiline)
    (operand_consumes catalog (maxNesting - nesting) r.source multiline)
  refine ⟨(hoperand depth).readsOn (hreach _) (operand_consumes _ _ _ _) h,
    (helement depth).readsOn (chain_reaches _ _ (hreach _)) (hconsumes _) h, fun hdepth awaiting problem => ?_,
    fun parts problem => link_proceeds (hoperand depth) (hreach _) parts problem h,
    fun found => commands_proceeds catalog hs (helement depth) (chain_reaches _ _ (hreach _)) found h,
    fun whole hwhole => ⟨script_eq catalog hwhole whole, single_eq hwhole whole⟩⟩
  -- inside a bracket
  obtain ⟨outside, rfl⟩ : ∃ outside, depth = outside + 1 := ⟨depth - 1, (Nat.sub_add_cancel hdepth).symm⟩
  have hinside := helement (outside + 1)
  simp only [Nat.zero_lt_succ, decide_true] at hinside
  have hadvances := chain_reaches r.source true (hreach true)
  exact ⟨fun g items => fill_proceeds hs (elementItem_follows hinside) (elementItem_consumes (hconsumes true)) items
      awaiting problem h,
    fun entries => fill_proceeds hs (entry_follows hinside hadvances) (entry_consumes hadvances (hconsumes true))
      entries awaiting problem h⟩

/-- A block in a tuple, neither of them closed. An array with two operators in a row stands in the block. -/
def unclosedTuple : List Char := "é (block \x7b // 'c\n a: [2 || -\n".toList

/-- The range from the tuple on. -/
def unclosedRange : Range := ⟨unclosedTuple, scanRange unclosedTuple 3 99 5, 30, 5⟩

/-- Reading at the block of that range, with one level left, and a list around it. -/
theorem reading_proceeds_block :
    Range.ofText unclosedTuple 3 99 5 = Part.some unclosedRange ∧ unclosedRange.tokens.length = 12 ∧
    (∃ e st, element .any 2 unclosedRange ⟨1, 1, 63⟩ = Part.some (e, st) ∧ 1 < st.position ∧ st.position ≤ 12 ∧
      st.depth = 1 ∧ st.nesting = 63) ∧
    ∃ filled, loop (fillRound unclosedRange .tuple (elementItem (element .any 2 unclosedRange)))
      ⟨[], true, none, ⟨1, 1, 63⟩⟩ = Part.some filled := by
  have hslice : slice? unclosedTuple 3 (min 99 (width unclosedTuple)) = some (unclosedTuple.drop 2) := by decide
  have hr : Range.ofText unclosedTuple 3 99 5 = Part.some unclosedRange := by
    rw [Range.ofText, hslice]
    exact Part.bind_some _ _
  have hlength : unclosedRange.tokens.length = 12 := by decide +kernel
  have hword : unclosedRange.current ⟨1, 1, 63⟩ = some ⟨.word, ⟨4, 9⟩, 5, "block", none⟩ := by decide +kernel
  have hstarts : unclosedRange.Starts ⟨1, 1, 63⟩ :=
    ⟨⟨1, 1, 63⟩, _, loop_stop (by simp [Range.skipRound, Range.currentKind, hword]), hword, by decide⟩
  have hposition : State.position ⟨1, 1, 63⟩ ≤ unclosedRange.tokens.length := by
    rw [hlength]
    decide
  have hcalls : maxNesting - State.nesting ⟨1, 1, 63⟩ < 2 := by decide
  obtain ⟨-, ⟨e, st, hread, -, hle, hdepth, hnesting, hlt⟩, hlists, -⟩ := reading_proceeds .any hr hposition hcalls
  exact ⟨hr, hlength, ⟨e, st, hread, hlt hstarts, hlength ▸ hle, hdepth, hnesting⟩,
    ((hlists Nat.one_pos true none).1 .tuple []).2⟩

end UiScript.Machine
