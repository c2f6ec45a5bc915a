import UiScript.Proofs.Machine.Ranges

/-!
# The machine follows the reader

From the state of a cursor the machine reads what the reader reads from this cursor, and it stops in the state of the
cursor that the reader leaves, with the counters of before (`Follows`).
-/

namespace UiScript.Machine

open Text Reading

/-- From every state with these counters the machine reads what the other reader reads, goes on to where that one goes,
and leaves the counters as they were. -/
def Follows (r : Range) (depth nesting : Nat) (read : Reader Element) (read' : Cursor → Element × Cursor) : Prop :=
  ∀ c, r.Holds c → read (r.state depth nesting c) = Part.some ((read' c).1, r.state depth nesting (read' c).2)

variable {r : Range} {depth nesting : Nat} {read : Reader Element} {read' : Cursor → Element × Cursor} {c : Cursor}
  {t : Token} {ts : List Token}

/-! ## Chains of operators -/

section Chains

theorem skipOperator_state (depth nesting : Nat) (op : Operator) (problem : Option Problem) (h : r.Holds c) :
    skipOperator r op problem (r.state depth nesting c) =
      Part.some (Problem.note problem (Reading.skipOperator op (decide (0 < depth)) c).1,
        r.state depth nesting (Reading.skipOperator op (decide (0 < depth)) c).2) := by
  cases hrest : c.rest with
  | nil => simp [skipOperator, Reading.skipOperator, h, Cursor.kind?, hrest]
  | cons t ts =>
    have hpast := h.past hrest
    cases hk : t.kind <;>
      simp [skipOperator, Reading.skipOperator, h, Cursor.kind?, hrest, hk, Range.next_state _ _ h hrest, hpast]

/-- The round of a chain that ends before anything but an operator. -/
theorem linkRound_end (parts : List Element) (problem : Option Problem) (h : r.Holds c)
    (hend : ∀ t ∈ (c.skipTrivia (decide (0 < depth))).rest.head?, ∀ op, t.kind ≠ .operator op) :
    linkRound r read ⟨parts, problem, r.state depth nesting c⟩ =
      Part.some (.inl ⟨parts, problem, r.state depth nesting (c.skipTrivia (decide (0 < depth)))⟩) := by
  have hskip := h.reaches (Reaches.skipTrivia c (decide (0 < depth)))
  cases hrest : (c.skipTrivia (decide (0 < depth))).rest with
  | nil => simp [linkRound, h, hskip, hrest]
  | cons t ts =>
    rw [hrest] at hend
    have ht := hend t rfl
    cases hk : t.kind with
    | operator op => exact absurd hk (ht op)
    | _ => simp [linkRound, h, hskip, hrest, hk]

/-- The round of a chain that reads an operator. -/
theorem linkRound_operator (hread : Follows r depth nesting read read') (parts : List Element)
    (problem : Option Problem) (h : r.Holds c) {op : Operator} {doubled : Option Problem} {ahead : Cursor}
    (hrest : (c.skipTrivia (decide (0 < depth))).rest = t :: ts) (hop : t.kind = .operator op)
    (hahead : Reading.skipOperator op (decide (0 < depth))
      (((c.skipTrivia (decide (0 < depth))).past t ts).skipTrivia (decide (0 < depth))) = (doubled, ahead)) :
    linkRound r read ⟨parts, problem, r.state depth nesting c⟩ = Part.some
      (if ahead.kind?.any TokenKind.startsOperand then
        .inr ⟨parts ++ [.leaf (tokenInfo t none) (.operator op), (read' ahead).1], Problem.note problem doubled,
          r.state depth nesting (read' ahead).2⟩
      else .inl ⟨parts ++ [.leaf (tokenInfo t none) (.operator op)],
        Problem.note (Problem.note problem doubled) (some (.operandMissing op)), r.state depth nesting ahead⟩) := by
  have hskip := h.reaches (Reaches.skipTrivia c (decide (0 < depth)))
  have hpast := hskip.past hrest
  have hinside := hpast.reaches (Reaches.skipTrivia _ (decide (0 < depth)))
  have hreach : r.Holds ahead := h.reaches (operatorAhead_reaches hrest hahead)
  have hnext := Range.next_state depth nesting hskip hrest
  have hdoubled := skipOperator_state depth nesting op problem hinside
  rw [hahead] at hdoubled
  by_cases hstarts : ahead.kind?.any TokenKind.startsOperand = true
  · simp [linkRound, h, hskip, hrest, hop, hnext, hpast, hdoubled, hreach, hstarts, hread ahead]
  · simp [linkRound, h, hskip, hrest, hop, hnext, hpast, hdoubled, hreach, hstarts]

/-- The loop of a chain. -/
theorem link_state (hread : Follows r depth nesting read read') (ha : Advances read') (parts : List Element)
    (problem : Option Problem) (h : r.Holds c) :
    loop (linkRound r read) ⟨parts, problem, r.state depth nesting c⟩ =
      Part.some ⟨parts ++ (chainTail (decide (0 < depth)) read' c).parts,
        Problem.note problem (chainTail (decide (0 < depth)) read' c).problem,
        r.state depth nesting (chainTail (decide (0 < depth)) read' c).cursor⟩ := by
  fun_induction chainTail (decide (0 < depth)) read' c generalizing parts problem with
  | case1 c hrest =>
    rw [loop_stop (linkRound_end parts problem h (by simp [hrest]))]
    simp
  | case2 c t ts hrest op hop sign doubled ahead hahead hstarts right after hright hlt tail ih =>
    have hafter : r.Holds after := by
      have := h.reaches ((operatorAhead_reaches hrest hahead).trans (ha ahead))
      rwa [hright] at this
    rw [loop_next (by rw [linkRound_operator hread parts problem h hrest hop hahead, if_pos hstarts]), hright,
      ih _ _ hafter]
    simp [sign, tail, Problem.note_assoc]
  | case3 c t ts hrest op hop sign doubled ahead hahead hstarts right after hright hlt =>
    have hshort := Nat.lt_of_le_of_lt (ha ahead).length_le (operatorAhead_lt hrest hahead)
    rw [hright] at hshort
    exact absurd hshort hlt
  | case4 c t ts hrest op hop sign doubled ahead hahead hstarts =>
    rw [loop_stop (by rw [linkRound_operator hread parts problem h hrest hop hahead, if_neg hstarts])]
    simp [sign, Problem.note_assoc]
  | case5 c t ts hrest hop =>
    rw [loop_stop (linkRound_end parts problem h (by simpa [hrest] using hop))]
    simp

/-- A chain that has an operator passes over it. -/
theorem chainTail_past {multiline : Bool} (ha : Advances read') {op : Operator}
    (hrest : (c.skipTrivia multiline).rest = t :: ts) (hop : t.kind = .operator op) :
    (chainTail multiline read' c).parts.isEmpty = false ∧
      Reaches ((c.skipTrivia multiline).past t ts) (chainTail multiline read' c).cursor := by
  have hahead := (Reaches.skipTrivia ((c.skipTrivia multiline).past t ts) multiline).trans
    (skipOperator_reaches op multiline (((c.skipTrivia multiline).past t ts).skipTrivia multiline))
  rw [chainTail, hrest]
  simp only [hop]
  split
  · split
    · exact ⟨rfl, hahead.trans ((ha _).trans (chainTail_reaches ha _ _))⟩
    · exact ⟨rfl, hahead.trans (ha _)⟩
  · exact ⟨rfl, hahead⟩

/-- **Elements.** -/
theorem chain_follows (hread : Follows r depth nesting read read') (ha : Advances read') :
    Follows r depth nesting (chain r read) (Reading.chain r.source (decide (0 < depth)) read') := by
  intro c h
  have hafter := h.reaches (ha c)
  have hskip := hafter.reaches (Reaches.skipTrivia (read' c).2 (decide (0 < depth)))
  -- the round of the loop skips again what is skipped before it
  have hlinked : loop (linkRound r read)
      ⟨[(read' c).1], none, r.state depth nesting ((read' c).2.skipTrivia (decide (0 < depth)))⟩ =
      loop (linkRound r read) ⟨[(read' c).1], none, r.state depth nesting (read' c).2⟩ := by
    refine loop_congr ?_
    simp only [linkRound, Range.skipTrivia_state hskip, Range.skipTrivia_state hafter, Range.skipTrivia_skipTrivia]
  cases hrest : ((read' c).2.skipTrivia (decide (0 < depth))).rest with
  | nil =>
    simp [chain, Reading.chain, hread c h, hafter, hskip, operatorAhead, Cursor.kind?, hrest, chainTail_nil hrest]
  | cons t ts =>
    by_cases hop : ∃ op, t.kind = .operator op
    · obtain ⟨op, hop⟩ := hop
      obtain ⟨hparts, hreach⟩ := chainTail_past ha hrest hop
      have hstop := Range.lastEnd_state depth nesting hskip hrest (by rw [hop]; rfl) hreach
      simp [chain, Reading.chain, hread c h, hafter, hskip, operatorAhead, Cursor.kind?, hrest, hop, hlinked,
        link_state hread ha _ _ hafter, hparts, hstop]
    · have hend : chainTail (decide (0 < depth)) read' (read' c).2 = _ := chainTail_end hrest fun op h => hop ⟨op, h⟩
      have hahead : operatorAhead r (r.state depth nesting ((read' c).2.skipTrivia (decide (0 < depth)))) = false := by
        rw [operatorAhead, Range.currentKind_state hskip, Cursor.kind?, hrest]
        cases hk : t.kind with
        | operator op => exact absurd ⟨op, hk⟩ hop
        | _ => simp [hk]
      simp [chain, Reading.chain, hread c h, hafter, hahead, hend]

end Chains

/-! ## Lists between brackets -/

section Lists

variable {α : Type} {g : Group} {item : Reader (α × Option Problem)} {item' : Cursor → Reading.Item α}

/-- Likewise for the items of a list. -/
def FollowsItem (r : Range) (depth nesting : Nat) (item : Reader (α × Option Problem))
    (item' : Cursor → Reading.Item α) : Prop :=
  ∀ c, r.Holds c → item (r.state depth nesting c) =
    Part.some (((item' c).value, (item' c).problem), r.state depth nesting (item' c).cursor)

/-- A reader of items that passes over the token ahead. -/
def ConsumesItem (item' : Cursor → Reading.Item α) : Prop :=
  ∀ c t ts, c.rest = t :: ts → t.kind.isTrivia = false → Reaches (c.past t ts) (item' c).cursor

/-- The round of a list at the end of the range. -/
theorem fillRound_nil (items : List α) (awaiting : Bool) (problem : Option Problem) (h : r.Holds c)
    (hrest : (c.skipTrivia true).rest = []) :
    fillRound r g item ⟨items, awaiting, problem, r.state (depth + 1) nesting c⟩ =
      Part.some (.inl (⟨items, awaiting, Problem.note problem (some (.unclosed g)),
        r.state (depth + 1) nesting (c.skipTrivia true)⟩, r.stop)) := by
  have hskip := h.reaches (Reaches.skipTrivia c true)
  simp [fillRound, h, hskip, hrest]

/-- The round of a list before a token. -/
theorem fillRound_cons (hs : r.Scanned) (hitem : FollowsItem r (depth + 1) nesting item item') (items : List α)
    (awaiting : Bool) (problem : Option Problem) (h : r.Holds c) (hrest : (c.skipTrivia true).rest = t :: ts) :
    fillRound r g item ⟨items, awaiting, problem, r.state (depth + 1) nesting c⟩ = Part.some
      (if t.kind = .closing g.bracket then
        .inl (⟨items, awaiting, problem, r.state (depth + 1) nesting ((c.skipTrivia true).past t ts)⟩, t.span.stop)
      else if t.kind = .comma then
        .inr ⟨items, true, Problem.note problem (if awaiting then some (.strayInside t.describe g) else none),
          r.state (depth + 1) nesting ((c.skipTrivia true).past t ts)⟩
      else if t.kind.isCloser || t.kind == .colon then
        .inr ⟨items, awaiting, Problem.note problem (some (.strayInside t.describe g)),
          r.state (depth + 1) nesting ((c.skipTrivia true).past t ts)⟩
      else
        .inr ⟨items ++ [(item' (c.skipTrivia true)).value], false,
          Problem.note (Problem.note problem (if awaiting then none else some (.separatorMissing g t.describe)))
            (item' (c.skipTrivia true)).problem,
          r.state (depth + 1) nesting (item' (c.skipTrivia true)).cursor⟩) := by
  have hskip := h.reaches (Reaches.skipTrivia c true)
  have hmem := hskip.mem hrest
  have hnext := Range.next_state (depth + 1) nesting hskip hrest
  by_cases hclose : t.kind = .closing g.bracket
  · simp [fillRound, h, hskip, hrest, hclose, hnext]
  by_cases hcomma : t.kind = .comma
  · simp [fillRound, h, hskip, hrest, hcomma, hnext, hs.describe_comma hmem hcomma]
  by_cases hmark : t.kind.isCloser = true ∨ t.kind = .colon
  · simp [fillRound, h, hskip, hrest, hclose, hcomma, hmark, hnext, hs.describe_token hmem]
  · have hseparator : separator r g awaiting t =
        Part.some (if awaiting then none else some (.separatorMissing g t.describe)) := by
      cases awaiting <;> simp [separator, hs.describe_token hmem]
    simp [fillRound, h, hskip, hrest, hclose, hcomma, hmark, hseparator, hitem _ hskip]

/-- The loop of a list. -/
theorem fill_loop (hs : r.Scanned) (hitem : FollowsItem r (depth + 1) nesting item item') (ha : ConsumesItem item')
    (items : List α) (awaiting : Bool) (problem : Option Problem) (h : r.Holds c) :
    loop (fillRound r g item) ⟨items, awaiting, problem, r.state (depth + 1) nesting c⟩ =
      Part.some (⟨items ++ (listing r.source g item' awaiting c).items, (listing r.source g item' awaiting c).awaiting,
        Problem.note problem (listing r.source g item' awaiting c).problem,
        r.state (depth + 1) nesting (listing r.source g item' awaiting c).cursor⟩,
        (listing r.source g item' awaiting c).stop) := by
  fun_induction listing r.source g item' awaiting c generalizing items problem with
  | case1 awaiting c hrest =>
    rw [loop_stop (fillRound_nil items awaiting problem h hrest)]
    simp [Range.source]
  | case2 awaiting c t ts hrest ahead _ hclose =>
    rw [loop_stop (by rw [fillRound_cons hs hitem items awaiting problem h hrest, if_pos hclose])]
    simp [ahead]
  | case3 awaiting c t ts hrest ahead _ hclose hcomma ih =>
    rw [loop_next (by rw [fillRound_cons hs hitem items awaiting problem h hrest, if_neg hclose, if_pos hcomma]),
      ih _ _ (h.reaches (Reaches.past_skip hrest))]
    simp [Listing.after, Problem.note_assoc, ahead]
  | case4 awaiting c t ts hrest ahead _ hclose hcomma hmark ih =>
    rw [loop_next (by
      rw [fillRound_cons hs hitem items awaiting problem h hrest, if_neg hclose, if_neg hcomma, if_pos hmark]),
      ih _ _ (h.reaches (Reaches.past_skip hrest))]
    simp [Listing.after, Problem.note_assoc, ahead]
  | case5 awaiting c t ts hrest ahead _ hclose hcomma hmark found missing hlt ih =>
    have hreach := ha ahead t ts hrest (Cursor.skipTrivia_head hrest)
    rw [loop_next (by
      rw [fillRound_cons hs hitem items awaiting problem h hrest, if_neg hclose, if_neg hcomma, if_neg hmark]),
      ih _ _ ((h.reaches (Reaches.past_skip hrest)).reaches hreach)]
    simp [Listing.after, Listing.cons, Problem.note_assoc, missing, found, ahead]
  | case6 awaiting c t ts hrest ahead _ hclose hcomma hmark found missing hlt =>
    have hreach : _ ≤ ts.length := (ha ahead t ts hrest (Cursor.skipTrivia_head hrest)).length_le
    have hskip := (Reaches.skipTrivia c true).length_le
    rw [hrest, List.length_cons] at hskip
    exact absurd (Nat.lt_of_le_of_lt hreach hskip) hlt

theorem opener_state (h : r.Holds c) (hrest : c.rest = t :: ts) :
    opener r (r.state depth nesting c) = (t.span.start, t.line, r.state depth nesting (c.past t ts)) := by
  simp only [opener, Range.current_state h, hrest, List.head?_cons, Range.next_state _ _ h hrest]

/-- A list, from its opening bracket on. -/
theorem fill_state (hs : r.Scanned) (hitem : FollowsItem r (depth + 1) nesting item item') (ha : ConsumesItem item')
    (h : r.Holds c) (hrest : c.rest = t :: ts) :
    fill r g item (r.state depth nesting c) =
      let l := listing r.source g item' true (c.past t ts)
      Part.some (⟨t.span.start, l.stop⟩, t.line, ⟨l.items, l.awaiting, l.problem, r.state depth nesting l.cursor⟩) := by
  have hloop := fill_loop (g := g) hs hitem ha [] true none (h.past hrest)
  have hopen : (r.state depth nesting (c.past t ts)).openBracket = r.state (depth + 1) nesting (c.past t ts) := rfl
  have hclose : ∀ c', (r.state (depth + 1) nesting c').closeBracket = Part.some (r.state depth nesting c') :=
    fun _ => rfl
  simp [fill, opener_state h hrest, hopen, hloop, hclose]

theorem elementItem_follows (hread : Follows r depth nesting read read') :
    FollowsItem r depth nesting (elementItem read) (Reading.elementItem read') := by
  intro c h
  simp [elementItem, Reading.elementItem, hread c h]

theorem elementItem_consumes (hread : Consumes true read') : ConsumesItem (Reading.elementItem read') := by
  intro c t ts hrest ht
  have hskip := skipTrivia_of_head true hrest ht
  have h := hread c t ts (by rwa [hskip]) ht
  rwa [hskip] at h

/-- The entries of a dictionary. -/
theorem entry_follows (hread : Follows r (depth + 1) nesting read read') (ha : Advances read') :
    FollowsItem r (depth + 1) nesting (entry r read) (Reading.entry read') := by
  intro c h
  have hkey := h.reaches (ha c)
  have hahead := hkey.reaches (Reaches.skipTrivia (read' c).2 true)
  cases hrest : ((read' c).2.skipTrivia true).rest with
  | nil => simp [entry, Reading.entry, hread c h, hkey, hahead, Cursor.kind?, hrest]
  | cons t ts =>
    by_cases hcolon : t.kind = .colon
    · have hpast := hahead.past hrest
      have hinside := hpast.reaches (Reaches.skipTrivia (((read' c).2.skipTrivia true).past t ts) true)
      have hkind : r.currentKind (r.state (depth + 1) nesting ((read' c).2.skipTrivia true)) = some .colon := by
        rw [Range.currentKind_state hahead, Cursor.kind?, hrest, ← hcolon]
        rfl
      simp only [entry, Reading.entry, hread c h, hkey, hkind, hrest, hcolon, Range.next_state _ _ hahead hrest, hpast,
        Part.bind_eq_bind, Part.bind_some, Range.skipTrivia_state, decide_true, Nat.zero_lt_succ, if_true,
        Range.currentKind_state hinside]
      split <;> simp_all [hread _ hinside]
    · simp [entry, Reading.entry, hread c h, hkey, hahead, Cursor.kind?, hrest, hcolon]

theorem entry_consumes (ha : Advances read') (hread : Consumes true read') : ConsumesItem (Reading.entry read') :=
  fun c t ts hrest ht => (elementItem_consumes hread c t ts hrest ht).trans (entry_after ha c)

end Lists

section Groups

variable (hs : r.Scanned) (hread : Follows r (depth + 1) nesting read read') (ha : Advances read')
  (hc : Consumes true read') (h : r.Holds c) (hrest : c.rest = t :: ts)
include hs hread hc h hrest

theorem tuple_state : tuple r read (r.state depth nesting c) =
    Part.some ((Reading.tuple r.source read' t (c.past t ts)).1,
      r.state depth nesting (Reading.tuple r.source read' t (c.past t ts)).2) := by
  simp [tuple, Reading.tuple, Listing.trailingComma,
    fill_state (g := .tuple) hs (elementItem_follows hread) (elementItem_consumes hc) h hrest]

theorem array_state : array r read (r.state depth nesting c) =
    Part.some ((Reading.array r.source read' t (c.past t ts)).1,
      r.state depth nesting (Reading.array r.source read' t (c.past t ts)).2) := by
  simp [array, Reading.array,
    fill_state (g := .array) hs (elementItem_follows hread) (elementItem_consumes hc) h hrest]

include ha in
theorem json_state : json r read (r.state depth nesting c) =
    Part.some ((Reading.json r.source read' t (c.past t ts)).1,
      r.state depth nesting (Reading.json r.source read' t (c.past t ts)).2) := by
  simp [json, Reading.json, fill_state (g := .json) hs (entry_follows hread ha) (entry_consumes ha hc) h hrest]

end Groups

end UiScript.Machine
