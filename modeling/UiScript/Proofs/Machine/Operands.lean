import UiScript.Proofs.Machine.Blocks

/-!
# Operands by position

An operand that the machine reads is the one that is read from the cursor (`operand_follows`). The proof goes by the
number of operands that may be open inside each other; that there are enough of them is what the levels that are left
give. A leaf takes none of them (`operand_closed`), a container takes one and a level (`operand_opens`), and beyond the
last level a container is passed over (`tooDeep_state`).
-/

namespace UiScript.Machine

open Text Reading

variable {catalog : Catalog} {calls : Nat} {r : Range} {depth nesting : Nat} {read : Reader Element}
  {c : Cursor} {t : Token} {ts : List Token} {g : Group}

/-! ## Containers beyond the last level -/

section TooDeep

variable {b : Bracket}

/-- The round of a container that is passed over, before a token. -/
theorem tooDeepRound_cons (depth nesting pending : Nat) (entered : Bool) (h : r.Holds c) (hrest : c.rest = t :: ts) :
    tooDeepRound r ⟨pending, entered, r.state depth nesting c⟩ =
      let (pending', entered') := Passing.count ⟨pending, entered, r.state depth nesting c⟩ t.kind
      Part.some (if entered' && pending' == 0 then .inl (r.state depth nesting (c.past t ts))
        else .inr ⟨pending', entered', r.state depth nesting (c.past t ts)⟩) := by
  simp only [tooDeepRound, Range.currentKind_state h, Cursor.kind?, hrest, List.head?_cons, Option.map_some,
    Range.next_state _ _ h hrest]
  split <;> rfl

/-- The loop of a container that is passed over, inside which brackets are open. -/
theorem tooDeep_inside (pending : Nat) (h : r.Holds c) :
    loop (tooDeepRound r) ⟨pending + 1, true, r.state depth nesting c⟩ =
      Part.some (r.state depth nesting (skipGroup (pending + 1) c.lastStop c.rest)) := by
  induction hrest : c.rest generalizing c pending with
  | nil =>
    rw [loop_stop (b := r.state depth nesting c) (by simp [tooDeepRound, h, Cursor.kind?, hrest])]
    exact congrArg Part.some (Range.state_congr (by rw [hrest, skipGroup]))
  | cons t ts ih =>
    have hround := tooDeepRound_cons depth nesting (pending + 1) true h hrest
    have hpast := h.past hrest
    rw [skipGroup]
    cases hk : t.kind with
    | opening b =>
      rw [hk] at hround
      rw [loop_next hround, ih (pending + 1) hpast rfl]
      simp [Cursor.past, hk]
    | closing b =>
      rw [hk] at hround
      cases pending with
      | zero =>
        rw [loop_stop hround]
        simp [Cursor.past, hk]
      | succ pending =>
        rw [loop_next hround, Nat.add_sub_cancel, ih pending hpast rfl]
        simp [Cursor.past, hk]
    | _ =>
      rw [hk] at hround
      rw [loop_next hround, ih pending hpast rfl]
      simp [Cursor.past, hk]

/-- The loop of a container that is passed over, before the bracket that opens it. -/
theorem tooDeep_before (h : r.Holds c) (hopen : (c.rest.find? (!·.kind.isTrivia)).any (·.kind == .opening b) = true) :
    loop (tooDeepRound r) ⟨0, false, r.state depth nesting c⟩ =
      Part.some (r.state depth nesting (skipGroup 0 c.lastStop c.rest)) := by
  induction hrest : c.rest generalizing c with
  | nil => simp [hrest] at hopen
  | cons t ts ih =>
    have hround := tooDeepRound_cons depth nesting 0 false h hrest
    have hpast := h.past hrest
    rw [hrest] at hopen
    rw [skipGroup]
    cases ht : t.kind.isTrivia with
    | true =>
      rw [List.find?_cons_of_neg (by simp [ht])] at hopen
      have hkind : t.kind = .newline ∨ t.kind = .comment := by
        revert ht
        cases t.kind <;> simp [TokenKind.isTrivia]
      rcases hkind with hk | hk
      all_goals
        rw [hk] at hround
        rw [loop_next hround, ih hpast hopen rfl]
        simp [Cursor.past, hk, TokenKind.isTrivia]
    | false =>
      rw [List.find?_cons_of_pos (by simp [ht])] at hopen
      have hk : t.kind = .opening b := by simpa using hopen
      rw [hk] at hround
      rw [loop_next hround, tooDeep_inside 0 hpast]
      simp [Cursor.past, hk, TokenKind.isTrivia]

theorem opens?_not_trivia (hg : opens? (t :: ts) = some g) : t.kind.isTrivia = false := by
  by_cases hblock : g = .block
  · rw [(opens?_block (hblock ▸ hg)).1]
    rfl
  · rw [opens?_bracket hg hblock]
    rfl

/-- **Containers beyond the last level.** -/
theorem tooDeep_state (h : r.Holds c) (hrest : c.rest = t :: ts) (hg : opens? (t :: ts) = some g) :
    tooDeep r (r.state depth nesting c) =
      Part.some ((Reading.tooDeep r.source c).1, r.state depth nesting (Reading.tooDeep r.source c).2) := by
  have hloop : loop (tooDeepRound r) ⟨0, false, r.state depth nesting c⟩ =
      Part.some (r.state depth nesting (skipGroup 0 c.lastStop c.rest)) := by
    by_cases hblock : g = .block
    · -- the word before the brace is passed over like a comment
      obtain ⟨hword, -, hbrace⟩ := opens?_block (hblock ▸ hg)
      have hround := tooDeepRound_cons depth nesting 0 false h hrest
      rw [hword] at hround
      rw [loop_next hround, tooDeep_before (h.past hrest) hbrace, hrest, skipGroup, hword]
      simp [Cursor.past, hword]
    · have hk := opens?_bracket hg hblock
      refine tooDeep_before (b := g.bracket) h ?_
      rw [hrest, List.find?_cons_of_pos (by rw [hk]; rfl)]
      simp [hk]
  have hstop := Range.lastEnd_state depth nesting h hrest (opens?_not_trivia hg)
    (tooDeep_consumes r.source hrest)
  simp only [Reading.tooDeep] at hstop
  simp [tooDeep, Reading.tooDeep, hloop, hstop, Range.offset_state h, Range.line_state h]

/-- A container with its level taken: it is read one level deeper, or passed over if there is none. -/
theorem nested_state (read' : Token → Cursor → Element × Cursor) (h : r.Holds c) (hrest : c.rest = t :: ts)
    (hg : opens? (t :: ts) = some g)
    (hread : nesting < maxNesting → read (r.state depth (nesting + 1) c) =
      Part.some ((read' t (c.past t ts)).1, r.state depth (nesting + 1) (read' t (c.past t ts)).2)) :
    nested r read (r.state depth nesting c) =
      let found := if nesting < maxNesting then read' t (c.past t ts) else Reading.tooDeep r.source c
      Part.some (found.1, r.state depth nesting found.2) := by
  have henter : (r.state depth nesting c).enter = r.state depth (nesting + 1) c := rfl
  have hleave : ∀ c', (r.state depth (nesting + 1) c').leave = Part.some (r.state depth nesting c') := fun _ => rfl
  by_cases hlt : nesting < maxNesting
  · simp [nested, Nat.not_le.mpr hlt, henter, hread hlt, hleave, hlt]
  · simp [nested, Nat.not_lt.mp hlt, tooDeep_state h hrest hg, hlt]

end TooDeep

/-! ## Leaves -/

section Leaves

theorem negative_state (hs : r.Scanned) (h : r.Holds c) (t : Token) :
    negative r t (r.state depth nesting c) =
      Part.some ((Reading.negative r.source t c).1, r.state depth nesting (Reading.negative r.source t c).2) := by
  cases hrest : c.rest with
  | nil => simp [negative, Reading.negative, h, hrest]
  | cons u us =>
    have hslice := hs.slice_token (h.mem hrest)
    have hnext := Range.next_state depth nesting h hrest
    by_cases hadjacent : u.span.start = t.span.stop
    · cases hk : u.kind <;> simp [negative, Reading.negative, h, hrest, hk, hadjacent, hslice, hnext]
    · cases hk : u.kind <;> simp [negative, Reading.negative, h, hrest, hk, hadjacent]

theorem reference_state (hs : r.Scanned) (h : r.Holds c) (t : Token) :
    reference r t (r.state depth nesting c) =
      Part.some ((Reading.reference r.source t c).1, r.state depth nesting (Reading.reference r.source t c).2) := by
  cases hrest : c.rest with
  | nil => simp [reference, Reading.reference, h, hrest]
  | cons n ns =>
    by_cases hname : isName n.kind = true
    · have hslice := hs.slice_token (h.mem hrest)
      have hnext := Range.next_state depth nesting h hrest
      have hpast := h.past hrest
      cases ns with
      | nil =>
        have hahead : (c.past n []).rest = [] := rfl
        simp [reference, Reading.reference, h, hrest, hname, hslice, hnext, hpast, hahead]
      | cons u us =>
        have hahead : (c.past n (u :: us)).rest = u :: us := rfl
        have hnext' := Range.next_state depth nesting hpast hahead
        by_cases hk : u.kind = .pipe
        · simp [reference, Reading.reference, h, hrest, hname, hslice, hnext, hpast, hahead, hk, hnext']
        · simp [reference, Reading.reference, h, hrest, hname, hslice, hnext, hpast, hahead, hk]
    · simp [reference, Reading.reference, h, hrest, hname]

/-- Whether a brace follows is what makes a block of the word `block`. -/
theorem blockFollows_state (depth nesting : Nat) (h : r.Holds c) (hrest : c.rest = t :: ts) :
    blockFollows r (r.state depth nesting c) =
      Part.some ((ts.find? (!·.kind.isTrivia)).any (·.kind == .opening .curly)) := by
  have hposition : (r.state depth nesting c).position + 1 = (r.state depth nesting (c.past t ts)).position :=
    congrArg State.position (Range.next_state depth nesting h hrest)
  have hle : (r.state depth nesting (c.past t ts)).position ≤ r.tokens.length := Nat.sub_le _ _
  have hdrop : r.tokens.drop (r.state depth nesting (c.past t ts)).position = ts := Range.drop_state (h.past hrest)
  rw [blockFollows, hposition, if_pos hle, hdrop]
  rfl

/-- A word is a block if it opens one. -/
theorem word_state (catalog : Catalog) (depth nesting : Nat) (hs : r.Scanned) (h : r.Holds c)
    (hrest : c.rest = t :: ts) (hword : t.kind = .word) (machine : Range → Reader Element) :
    word catalog r machine t (r.state depth nesting c) =
      match opens? (t :: ts) with
      | some _ => nested r (block catalog r machine) (r.state depth nesting c)
      | none => Part.some (ofToken t (.ident t.text), r.state depth nesting (c.past t ts)) := by
  have hslice := hs.slice_token (h.mem hrest)
  have hnext := Range.next_state depth nesting h hrest
  have hfollows := blockFollows_state depth nesting h hrest
  by_cases hname : t.text = "block"
  · cases hopens : (ts.find? (!·.kind.isTrivia)).any (·.kind == .opening .curly) with
    | true => simp [word, opens?, hword, hslice, hname, hfollows, hopens]
    | false => simp [word, opens?, hword, hslice, hname, hfollows, hopens, hnext]
  · simp [word, opens?, hword, hslice, hname, hnext]

end Leaves

/-! ## Operands -/

/-- An operand that opens no container is a leaf. -/
theorem operand_closed (hs : r.Scanned) (h : r.Holds c)
    (hg : opens? (c.skipTrivia (decide (0 < depth))).rest = none) :
    operand catalog (calls + 1) r (r.state depth nesting c) =
      Part.some ((leaf r.source (c.skipTrivia (decide (0 < depth)))).1,
        r.state depth nesting (leaf r.source (c.skipTrivia (decide (0 < depth)))).2) := by
  have hskip := h.reaches (Reaches.skipTrivia c (decide (0 < depth)))
  cases hrest : (c.skipTrivia (decide (0 < depth))).rest with
  | nil => simp [operand, leaf, h, hskip, hrest, Range.missing_state hskip]
  | cons t ts =>
    have hslice := hs.slice_token (hskip.mem hrest)
    have hnext := Range.next_state depth nesting hskip hrest
    have hpast := hskip.past hrest
    rw [hrest] at hg
    cases hk : t.kind with
    | word =>
      have hword := word_state catalog depth nesting hs hskip hrest hk
        (fun inner => chain inner (operand catalog calls inner))
      rw [hg] at hword
      simp [operand, leaf, h, hskip, hrest, hk, hword]
    | opening b => cases b <;> simp [opens?, hk] at hg
    | pipe => simp [operand, leaf, h, hskip, hrest, hk, hnext, reference_state hs hpast]
    | newline | comment => simp [operand, leaf, h, hskip, hrest, hk, Range.missing_state hskip]
    | operator op =>
      cases op <;> simp [operand, leaf, h, hskip, hrest, hk, hnext, negative_state hs hpast]
    | _ => simp [operand, leaf, h, hskip, hrest, hk, hnext, hslice]

/-- The container of a group, from its first token on. -/
def opened (catalog : Catalog) (calls : Nat) (r : Range) : Group → Reader Element
  | .tuple => tuple r (element catalog calls r)
  | .array => array r (element catalog calls r)
  | .json => json r (element catalog calls r)
  | .block => block catalog r (element catalog calls)

/-- An operand that opens a container is that container, one level deeper. -/
theorem operand_opens (hs : r.Scanned) (h : r.Holds c)
    (hrest : (c.skipTrivia (decide (0 < depth))).rest = t :: ts) (hg : opens? (t :: ts) = some g) :
    operand catalog (calls + 1) r (r.state depth nesting c) =
      nested r (opened catalog calls r g) (r.state depth nesting (c.skipTrivia (decide (0 < depth)))) := by
  have hskip := h.reaches (Reaches.skipTrivia c (decide (0 < depth)))
  cases g with
  | block =>
    obtain ⟨hk, -⟩ := opens?_block hg
    have hword := word_state catalog depth nesting hs hskip hrest hk
      (fun inner => chain inner (operand catalog calls inner))
    rw [hg] at hword
    simp only [operand, Range.skipTrivia_state h, Part.bind_eq_bind, Part.bind_some, Range.current_state hskip, hrest,
      List.head?_cons, hk, hword]
    rfl
  | tuple | array | json =>
    have hk := opens?_bracket hg (by simp)
    simp only [Group.bracket] at hk
    simp only [operand, Range.skipTrivia_state h, Part.bind_eq_bind, Part.bind_some, Range.current_state hskip, hrest,
      List.head?_cons, hk]
    rfl

/-- A container, whose parts the machine reads as the reader does. -/
theorem opened_state {levels : Nat} (hs : r.Scanned)
    (hread : ∀ inner : Range, inner.Scanned → ∀ depth, Follows inner depth nesting (operand catalog calls inner)
      (Reading.operand catalog levels inner.source (decide (0 < depth))))
    (h : r.Holds c) (hrest : c.rest = t :: ts) (hg : opens? (t :: ts) = some g) :
    opened catalog calls r g (r.state depth nesting c) =
      Part.some ((container catalog levels r.source g t (c.past t ts)).1,
        r.state depth nesting (container catalog levels r.source g t (c.past t ts)).2) := by
  have hreach := fun s multiline => operand_reaches catalog levels s multiline
  have helement : ∀ inner : Range, inner.Scanned → ∀ depth, Follows inner depth nesting (element catalog calls inner)
      (Reading.chain inner.source (decide (0 < depth))
        (Reading.operand catalog levels inner.source (decide (0 < depth)))) :=
    fun inner hinner depth => chain_follows (hread inner hinner depth) (hreach _ _)
  have hinside := helement r hs (depth + 1)
  have hadvances := chain_reaches r.source true (hreach r.source true)
  have hconsumes := chain_consumes r.source (hreach r.source true) (operand_consumes catalog levels r.source true)
  simp only [Nat.zero_lt_succ, decide_true] at hinside
  cases g with
  | tuple => exact tuple_state hs hinside hconsumes h hrest
  | array => exact array_state hs hinside hconsumes h hrest
  | json => exact json_state hs hinside hadvances hconsumes h hrest
  | block =>
    exact block_state catalog (fun s => Reading.chain s false (Reading.operand catalog levels s false)) hs
      (fun inner hinner => helement inner hinner 0) (fun s => chain_reaches s false (hreach s false)) h hrest hg

/-- **Operands.** The machine reads the operand that is read from the cursor with the levels that are left, if more
operands may be open inside each other than there are levels left. -/
theorem operand_follows (catalog : Catalog) (calls : Nat) {r : Range} {nesting : Nat}
    (hcalls : maxNesting - nesting < calls) (hs : r.Scanned) (depth : Nat) :
    Follows r depth nesting (operand catalog calls r)
      (Reading.operand catalog (maxNesting - nesting) r.source (decide (0 < depth))) := by
  induction calls generalizing r nesting depth with
  | zero => exact absurd hcalls (Nat.not_lt_zero _)
  | succ calls ih =>
    intro c h
    have hskip := h.reaches (Reaches.skipTrivia c (decide (0 < depth)))
    cases hg : opens? (c.skipTrivia (decide (0 < depth))).rest with
    | none => rw [operand_closed hs h hg, operand_leaf hg]
    | some g =>
      cases hrest : (c.skipTrivia (decide (0 < depth))).rest with
      | nil =>
        rw [hrest] at hg
        cases hg
      | cons t ts =>
        rw [hrest] at hg
        have hdeeper : nesting < maxNesting → opened catalog calls r g
            (r.state depth (nesting + 1) (c.skipTrivia (decide (0 < depth)))) =
            Part.some ((container catalog (maxNesting - (nesting + 1)) r.source g t
                ((c.skipTrivia (decide (0 < depth))).past t ts)).1,
              r.state depth (nesting + 1) (container catalog (maxNesting - (nesting + 1)) r.source g t
                ((c.skipTrivia (decide (0 < depth))).past t ts)).2) :=
          fun hlt => opened_state hs (fun inner hinner depth => ih (by omega) hinner depth) hskip hrest hg
        rw [operand_opens hs h hrest hg,
          nested_state (container catalog (maxNesting - (nesting + 1)) r.source g) hskip hrest hg hdeeper]
        by_cases hlt : nesting < maxNesting
        · have hlevels : maxNesting - nesting = maxNesting - (nesting + 1) + 1 := by omega
          simp only [if_pos hlt, hlevels, operand_container hrest hg]
        · have hlevels : maxNesting - nesting = 0 := by omega
          simp only [if_neg hlt, hlevels, operand_tooDeep (hrest ▸ hg)]

/-- **Elements** of operands like these. -/
theorem element_follows (catalog : Catalog) (hcalls : maxNesting - nesting < calls) (hs : r.Scanned) (depth : Nat) :
    Follows r depth nesting (element catalog calls r) (Reading.chain r.source (decide (0 < depth))
      (Reading.operand catalog (maxNesting - nesting) r.source (decide (0 < depth)))) :=
  chain_follows (operand_follows catalog calls hcalls hs depth) (operand_reaches _ _ _ _)

end UiScript.Machine
