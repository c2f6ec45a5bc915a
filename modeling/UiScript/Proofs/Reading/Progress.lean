import UiScript.Script

/-!
# Reading goes forward

Every reading function leaves the cursor at a later place of the same tokens: some of the tokens ahead are passed over,
and the last of these that is neither a comment nor a line end is the last token read (`Reaches`). The functions that
take a reader of parts reach on if that reader does; `operand_reaches` is the induction on the levels. Where a token
other than a line end or a comment is ahead, reading passes over it (`operand_consumes`).
-/

namespace UiScript.Reading

/-- The range of a whole text. -/
def Source.whole (text : List Char) : Source := ⟨text, Text.width text, lastLineOf 1 (scan text)⟩

/-! ## Ends of tokens -/

theorem lastStopOf_append (stop : Nat) (as bs : List Token) :
    lastStopOf stop (as ++ bs) = lastStopOf (lastStopOf stop as) bs := by
  induction as generalizing stop with
  | nil => rfl
  | cons t as ih => exact ih _

theorem lastStopOf_trivia (stop : Nat) {ts : List Token} (h : ∀ t ∈ ts, t.kind.isTrivia = true) :
    lastStopOf stop ts = stop := by
  induction ts with
  | nil => rfl
  | cons t ts ih =>
    obtain ⟨ht, hts⟩ := List.forall_mem_cons.mp h
    rw [lastStopOf, if_pos ht, ih hts]

/-- The end of the last token of a list is one of their ends, or the old one. -/
theorem lastStopOf_eq (stop : Nat) (ts : List Token) :
    lastStopOf stop ts = stop ∨ ∃ t ∈ ts, lastStopOf stop ts = t.span.stop := by
  induction ts generalizing stop with
  | nil => exact Or.inl rfl
  | cons t ts ih =>
    rw [lastStopOf]
    rcases ih (if t.kind.isTrivia then stop else t.span.stop) with h | ⟨u, hu, h⟩
    · rw [h]
      split
      · exact Or.inl rfl
      · exact Or.inr ⟨t, List.mem_cons_self, rfl⟩
    · exact Or.inr ⟨u, List.mem_cons_of_mem _ hu, h⟩

/-! ## Passing over tokens -/

/-- Only comments and line ends are skipped. -/
theorem isTrivia_of_skipped (multiline : Bool) (k : TokenKind)
    (h : (k == .comment || (multiline && k == .newline)) = true) : k.isTrivia = true := by
  cases k <;> first | rfl | simp at h

/-- The second cursor is one that the first can reach by passing over tokens. -/
def Reaches (c c' : Cursor) : Prop := ∃ ts, c.rest = ts ++ c'.rest ∧ c'.lastStop = lastStopOf c.lastStop ts

namespace Reaches

variable {c c' c'' : Cursor}

theorem rest_suffix (h : Reaches c c') : c'.rest <:+ c.rest := by
  obtain ⟨ts, hts, -⟩ := h
  exact ⟨ts, hts.symm⟩

theorem lastStop_eq (h : Reaches c c') : c'.lastStop = c.lastStop ∨ ∃ t ∈ c.rest, c'.lastStop = t.span.stop := by
  obtain ⟨ts, hts, hstop⟩ := h
  rw [hts, hstop]
  rcases lastStopOf_eq c.lastStop ts with h | ⟨t, ht, h⟩
  · exact Or.inl h
  · exact Or.inr ⟨t, List.mem_append_left _ ht, h⟩

theorem refl (c : Cursor) : Reaches c c := ⟨[], rfl, rfl⟩

theorem trans (h : Reaches c c') (h' : Reaches c' c'') : Reaches c c'' := by
  obtain ⟨ts, hts, hstop⟩ := h
  obtain ⟨ts', hts', hstop'⟩ := h'
  refine ⟨ts ++ ts', ?_, ?_⟩
  · rw [hts, hts', List.append_assoc]
  · rw [hstop', hstop, lastStopOf_append]

theorem past {t : Token} {ts : List Token} (h : c.rest = t :: ts) : Reaches c (c.past t ts) := ⟨[t], h, rfl⟩

/-- Comments and line ends that are skipped leave the last token read as it is. -/
theorem skip {p : TokenKind → Bool} (hp : ∀ k, p k = true → k.isTrivia = true) (c : Cursor) : Reaches c (c.skip p) := by
  refine ⟨c.rest.takeWhile (p ·.kind), (List.takeWhile_append_dropWhile).symm, (lastStopOf_trivia _ ?_).symm⟩
  intro t ht
  exact hp _ (List.all_eq_true.mp List.all_takeWhile t ht)

theorem skipTrivia (c : Cursor) (multiline : Bool) : Reaches c (c.skipTrivia multiline) :=
  skip (isTrivia_of_skipped multiline) c

theorem skipBlank (c : Cursor) : Reaches c c.skipBlank := skip (fun _ hk => hk) c

theorem skipComments (c : Cursor) : Reaches c c.skipComments := by
  refine skip (fun k hk => ?_) c
  cases k <;> first | rfl | simp at hk

/-- Passing over what the cursor skips to. -/
theorem past_skip {multiline : Bool} {t : Token} {ts : List Token} (h : (c.skipTrivia multiline).rest = t :: ts) :
    Reaches c ((c.skipTrivia multiline).past t ts) := (skipTrivia c multiline).trans (past h)

theorem past_blank {t : Token} {ts : List Token} (h : c.skipBlank.rest = t :: ts) :
    Reaches c (c.skipBlank.past t ts) := (skipBlank c).trans (past h)

theorem length_le (h : Reaches c c') : c'.rest.length ≤ c.rest.length := h.rest_suffix.length_le

theorem skipLine (c : Cursor) : Reaches c c.skipLine :=
  ⟨c.rest.takeWhile (·.kind != .newline), (List.takeWhile_append_dropWhile).symm, rfl⟩

end Reaches

section Skipping

variable {c : Cursor} {t : Token} {ts : List Token}

/-- What is skipped to is of no kind that is skipped. -/
theorem Cursor.skip_head {p : TokenKind → Bool} (h : (c.skip p).rest = t :: ts) : p t.kind = false := by
  have hhead := List.head?_dropWhile_not (fun t : Token => p t.kind) c.rest
  have hrest : c.rest.dropWhile (p ·.kind) = t :: ts := h
  rw [hrest] at hhead
  exact hhead

/-- Where an element may run over several lines, comments and line ends are skipped alike. -/
theorem skipTrivia_true (c : Cursor) : c.skipTrivia true = c.skipBlank := by
  have hp : (fun k : TokenKind => k == .comment || (true && k == .newline)) = TokenKind.isTrivia := by
    funext kind
    cases kind <;> rfl
  rw [Cursor.skipTrivia, hp, Cursor.skipBlank]

theorem Cursor.skipBlank_head (h : c.skipBlank.rest = t :: ts) : t.kind.isTrivia = false := Cursor.skip_head h

theorem Cursor.skipTrivia_head (h : (c.skipTrivia true).rest = t :: ts) : t.kind.isTrivia = false := by
  rw [skipTrivia_true] at h
  exact Cursor.skipBlank_head h

/-- After a token that is neither a comment nor a line end, that token is the last one read. -/
theorem Cursor.past_eq (ht : t.kind.isTrivia = false) : c.past t ts = ⟨ts, t.span.stop⟩ := by
  rw [Cursor.past, if_neg (by simp [ht])]

end Skipping

theorem skipGroup_reaches (depth stop : Nat) (ts : List Token) : Reaches ⟨ts, stop⟩ (skipGroup depth stop ts) := by
  induction ts generalizing depth stop with
  | nil => exact Reaches.refl _
  | cons t ts ih =>
    have hpast : Reaches ⟨t :: ts, stop⟩ ⟨ts, if t.kind.isTrivia then stop else t.span.stop⟩ :=
      Reaches.past (c := ⟨t :: ts, stop⟩) rfl
    rw [skipGroup]
    split
    · exact hpast.trans (ih _ _)
    · split
      · exact hpast
      · exact hpast.trans (ih _ _)
    · exact hpast.trans (ih _ _)

/-- A block and what follows it are the tokens ahead. -/
theorem splitBlock_append (depth : Nat) (ts : List Token) : ts = (splitBlock depth ts).1 ++
    match (splitBlock depth ts).2 with
    | some (u, us) => u :: us
    | none => [] := by
  fun_induction splitBlock depth ts with
  | case1 => rfl
  | case2 t ts h => rfl
  | case3 depth t ts h inside rest heq ih => rw [heq] at ih; simpa using ih
  | case4 depth t ts h inside rest heq ih => rw [heq] at ih; simpa using ih
  | case5 t ts depth inside rest heq _ _ _ ih => rw [heq] at ih; simpa using ih

theorem splitBlock_isPrefix (depth : Nat) (ts : List Token) : (splitBlock depth ts).1 <+: ts :=
  ⟨_, (splitBlock_append depth ts).symm⟩

/-- A block is closed by a brace. -/
theorem splitBlock_closer {depth : Nat} {ts inside us : List Token} {u : Token}
    (h : splitBlock depth ts = (inside, some (u, us))) : u.kind = .closing .curly := by
  fun_induction splitBlock depth ts generalizing inside with
  | case1 => cases h
  | case2 t ts hk =>
    cases h
    exact hk
  | case3 depth t ts hk inside' rest heq ih =>
    obtain ⟨rfl, rfl⟩ := Prod.mk.inj h
    exact ih heq
  | case4 depth t ts hk inside' rest heq ih =>
    obtain ⟨rfl, rfl⟩ := Prod.mk.inj h
    exact ih heq
  | case5 t ts depth inside' rest heq _ _ _ ih =>
    obtain ⟨rfl, rfl⟩ := Prod.mk.inj h
    exact ih heq

/-! ## Parts -/

/-- A reader that goes forward. -/
def Advances (read : Cursor → Element × Cursor) : Prop := ∀ c, Reaches c (read c).2

section Parts

variable {read : Cursor → Element × Cursor}

theorem skipOperator_reaches (op : Operator) (multiline : Bool) (c : Cursor) :
    Reaches c (skipOperator op multiline c).2 := by
  unfold skipOperator
  split
  · rename_i t ts h
    split
    · exact (Reaches.past h).trans (Reaches.skipTrivia _ _)
    · exact Reaches.refl c
  · exact Reaches.refl c

/-- The cursor before the operand that follows an operator. -/
theorem operatorAhead_reaches {multiline : Bool} {c ahead : Cursor} {t : Token} {ts : List Token} {op : Operator}
    {doubled : Option Problem} (h : (c.skipTrivia multiline).rest = t :: ts)
    (hahead : skipOperator op multiline (((c.skipTrivia multiline).past t ts).skipTrivia multiline) =
      (doubled, ahead)) :
    Reaches c ahead := by
  have h₁ := (Reaches.past_skip h).trans (Reaches.skipTrivia ((c.skipTrivia multiline).past t ts) multiline)
  have h₂ := skipOperator_reaches op multiline (((c.skipTrivia multiline).past t ts).skipTrivia multiline)
  rw [hahead] at h₂
  exact h₁.trans h₂

/-- The operator itself is behind that cursor. -/
theorem operatorAhead_lt {multiline : Bool} {c ahead : Cursor} {t : Token} {ts : List Token} {op : Operator}
    {doubled : Option Problem} (h : (c.skipTrivia multiline).rest = t :: ts)
    (hahead : skipOperator op multiline (((c.skipTrivia multiline).past t ts).skipTrivia multiline) =
      (doubled, ahead)) :
    ahead.rest.length < c.rest.length := by
  have h₁ := (Reaches.skipTrivia c multiline).length_le
  have h₂ := (Reaches.skipTrivia ((c.skipTrivia multiline).past t ts) multiline).trans
    (skipOperator_reaches op multiline (((c.skipTrivia multiline).past t ts).skipTrivia multiline))
  rw [hahead] at h₂
  have h₃ : ahead.rest.length ≤ ts.length := h₂.length_le
  rw [h, List.length_cons] at h₁
  omega

section Tails

variable {multiline : Bool} {c : Cursor} {t : Token} {ts : List Token}

theorem chainTail_nil (h : (c.skipTrivia multiline).rest = []) :
    chainTail multiline read c = ⟨[], none, c.skipTrivia multiline⟩ := by
  rw [chainTail, h]

theorem chainTail_end (h : (c.skipTrivia multiline).rest = t :: ts) (ht : ∀ op, t.kind ≠ .operator op) :
    chainTail multiline read c = ⟨[], none, c.skipTrivia multiline⟩ := by
  rw [chainTail, h]
  cases hk : t.kind with
  | operator op => exact absurd hk (ht op)
  | _ => simp only [hk]

/-- An operator with its operand, and what follows them. -/
theorem chainTail_link {op : Operator} {ahead : Cursor} (hread : Advances read)
    (h : (c.skipTrivia multiline).rest = t :: ts) (hop : t.kind = .operator op)
    (hahead : skipOperator op multiline (((c.skipTrivia multiline).past t ts).skipTrivia multiline) = (none, ahead))
    (hstarts : ahead.kind?.any TokenKind.startsOperand = true) :
    chainTail multiline read c =
      ⟨.leaf (tokenInfo t none) (.operator op) :: (read ahead).1 :: (chainTail multiline read (read ahead).2).parts,
        (chainTail multiline read (read ahead).2).problem, (chainTail multiline read (read ahead).2).cursor⟩ := by
  have hlt : (read ahead).2.rest.length < c.rest.length :=
    Nat.lt_of_le_of_lt (hread ahead).length_le (operatorAhead_lt h hahead)
  rw [chainTail, h]
  simp only [hop, hahead, hstarts, if_true, hlt, Problem.note_none_left]

end Tails

theorem chainTail_reaches (hread : Advances read) (multiline : Bool) (c : Cursor) :
    Reaches c (chainTail multiline read c).cursor := by
  fun_induction chainTail multiline read c with
  | case1 c _ => exact Reaches.skipTrivia _ _
  | case2 c t ts h op hop sign doubled ahead hahead hstarts right after hright hlt tail ih =>
    have hread := hread ahead
    rw [hright] at hread
    exact (operatorAhead_reaches h hahead).trans (hread.trans ih)
  | case3 c t ts h op hop sign doubled ahead hahead hstarts right after hright hlt =>
    have hread := hread ahead
    rw [hright] at hread
    exact (operatorAhead_reaches h hahead).trans hread
  | case4 c t ts h op hop sign doubled ahead hahead hstarts => exact operatorAhead_reaches h hahead
  | case5 c t ts h hop => exact Reaches.skipTrivia _ _

theorem chain_reaches (s : Source) (multiline : Bool) (hread : Advances read) : Advances (chain s multiline read) := by
  intro c
  have h := (hread c).trans (chainTail_reaches hread multiline (read c).2)
  unfold chain
  dsimp only
  split
  · exact h
  · exact h

/-! ## The steps of a list -/

section Listing

variable {α : Type} {s : Source} {g : Group} {item : Cursor → Item α} {awaiting : Bool} {c : Cursor} {t : Token}
  {ts : List Token}

theorem listing_nil (h : (c.skipTrivia true).rest = []) :
    listing s g item awaiting c = ⟨[], awaiting, some (.unclosed g), s.stop, c.skipTrivia true⟩ := by
  rw [listing]
  split
  · rfl
  · rename_i h'
    rw [h] at h'
    cases h'

theorem listing_cons (h : (c.skipTrivia true).rest = t :: ts) :
    listing s g item awaiting c =
      if t.kind = .closing g.bracket then ⟨[], awaiting, none, t.span.stop, (c.skipTrivia true).past t ts⟩
      else if t.kind = .comma then
        (listing s g item true ((c.skipTrivia true).past t ts)).after
          (if awaiting then some (.strayInside t.describe g) else none)
      else if t.kind.isCloser || t.kind == .colon then
        (listing s g item awaiting ((c.skipTrivia true).past t ts)).after (some (.strayInside t.describe g))
      else if (item (c.skipTrivia true)).cursor.rest.length < c.rest.length then
        ((listing s g item false (item (c.skipTrivia true)).cursor).cons (item (c.skipTrivia true)).value).after
          (Problem.note (if awaiting then none else some (.separatorMissing g t.describe))
            (item (c.skipTrivia true)).problem)
      else ⟨[(item (c.skipTrivia true)).value], false,
        Problem.note (if awaiting then none else some (.separatorMissing g t.describe))
          (item (c.skipTrivia true)).problem, s.stop, (item (c.skipTrivia true)).cursor⟩ := by
  rw [listing]
  split
  · rename_i h'
    rw [h] at h'
    cases h'
  · rename_i u us h'
    rw [h] at h'
    obtain ⟨rfl, rfl⟩ := List.cons.inj h'
    rfl

end Listing

theorem listing_reaches {α : Type} (s : Source) (g : Group) {item : Cursor → Item α}
    (hitem : ∀ c, Reaches c (item c).cursor) (awaiting : Bool) (c : Cursor) :
    Reaches c (listing s g item awaiting c).cursor := by
  fun_induction listing s g item awaiting c with
  | case1 awaiting c h => exact Reaches.skipTrivia _ _
  | case2 awaiting c t ts h ahead _ _ => exact Reaches.past_skip h
  | case3 awaiting c t ts h ahead _ _ _ ih => exact (Reaches.past_skip h).trans ih
  | case4 awaiting c t ts h ahead _ _ _ _ ih => exact (Reaches.past_skip h).trans ih
  | case5 awaiting c t ts h ahead _ _ _ _ read problem _ ih =>
    exact (Reaches.skipTrivia c true).trans ((hitem _).trans ih)
  | case6 awaiting c t ts h ahead _ _ _ _ read problem _ => exact (Reaches.skipTrivia c true).trans (hitem _)

theorem elementItem_reaches (hread : Advances read) (c : Cursor) : Reaches c (elementItem read c).cursor := hread c

/-- A key without a problem is a string or a variable. -/
theorem keyProblem?_eq_none {key : Element} (hproblem : key.problem = none) (h : keyProblem? key = none) :
    key.kind = .string ∨ key.kind = .reference := by
  unfold keyProblem? at h
  rw [hproblem] at h
  cases hkind : key.kind <;> simp [hkind] at h ⊢

/-- An entry is read on from its key. -/
theorem entry_after (hread : Advances read) (c : Cursor) : Reaches (read c).2 (entry read c).cursor := by
  have hahead := Reaches.skipTrivia (read c).2 true
  unfold entry
  dsimp only
  split
  · exact hahead
  · rename_i t ts h
    split
    · have hcolon := (Reaches.past_skip h).trans (Reaches.skipTrivia _ true)
      split
      · exact hcolon
      · exact hcolon
      · exact hcolon
      · exact hcolon.trans (hread _)
    · exact hahead

theorem entry_reaches (hread : Advances read) (c : Cursor) : Reaches c (entry read c).cursor :=
  (hread c).trans (entry_after hread c)

theorem tuple_reaches (s : Source) (hread : Advances read) (t : Token) : Advances (tuple s read t) :=
  fun c => listing_reaches s .tuple (elementItem_reaches hread) true c

theorem array_reaches (s : Source) (hread : Advances read) (t : Token) : Advances (array s read t) :=
  fun c => listing_reaches s .array (elementItem_reaches hread) true c

theorem json_reaches (s : Source) (hread : Advances read) (t : Token) : Advances (json s read t) :=
  fun c => listing_reaches s .json (entry_reaches hread) true c

end Parts

/-! ## Operands -/

theorem negative_reaches (s : Source) (t : Token) : Advances (negative s t) := by
  intro c
  unfold negative
  split
  · exact Reaches.refl c
  · rename_i u us h
    split
    · split
      · exact Reaches.past h
      · exact Reaches.refl c
    · exact Reaches.refl c

theorem reference_reaches (s : Source) (t : Token) : Advances (reference s t) := by
  intro c
  unfold reference
  split
  · exact Reaches.refl c
  · rename_i n ns h
    split
    · dsimp only
      split
      · exact Reaches.past h
      · split
        · exact (Reaches.past h).trans (Reaches.past rfl)
        · exact Reaches.past h
    · exact Reaches.refl c

theorem leaf_reaches (s : Source) : Advances (leaf s) := by
  intro c
  unfold leaf
  split
  · exact Reaches.refl c
  · rename_i t ts h
    have hpast := Reaches.past h
    dsimp only
    split
    all_goals first
      | exact hpast
      | exact Reaches.refl c
      | exact hpast.trans (reference_reaches s t _)
      | exact hpast.trans (negative_reaches s t _)

/-- What is read as a leaf is one. -/
theorem leaf_eq (s : Source) (c : Cursor) : ∃ i l, (leaf s c).1 = .leaf i l := by
  have hnegative : ∀ t c', ∃ i l, (negative s t c').1 = .leaf i l := by
    intro t c'
    unfold negative
    split
    · exact ⟨_, _, rfl⟩
    · split
      · split <;> exact ⟨_, _, rfl⟩
      · exact ⟨_, _, rfl⟩
  have hreference : ∀ t c', ∃ i l, (reference s t c').1 = .leaf i l := by
    intro t c'
    unfold reference
    split
    · exact ⟨_, _, rfl⟩
    · split
      · dsimp only
        split
        · exact ⟨_, _, rfl⟩
        · split <;> exact ⟨_, _, rfl⟩
      · exact ⟨_, _, rfl⟩
  unfold leaf
  split
  · exact ⟨_, _, rfl⟩
  · dsimp only
    split
    all_goals first
      | exact ⟨_, _, rfl⟩
      | exact hreference _ _
      | exact hnegative _ _

theorem tooDeep_reaches (s : Source) : Advances (tooDeep s) := fun c => skipGroup_reaches 0 c.lastStop c.rest

section Block

variable {catalog : Catalog} {s : Source} {element : Source → Cursor → Element × Cursor} {t brace : Token} {c : Cursor}
  {ts inside : List Token}

/-- The commands that the tokens between two braces hold, of which the second stands at `stop`. -/
def blockInside (catalog : Catalog) (text : List Char) (element : Source → Cursor → Element × Cursor) (brace : Token)
    (inside : List Token) (stop : Nat) : List Command :=
  commands catalog ⟨text, stop, lastLineOf brace.line inside⟩ (element ⟨text, stop, lastLineOf brace.line inside⟩)
    ⟨inside, brace.span.stop⟩

theorem block_closed (h : c.skipBlank.rest = brace :: ts) {u : Token} {us : List Token}
    (hclose : splitBlock 0 ts = (inside, some (u, us))) :
    block catalog s element t c =
      (.block (s.info ⟨t.span.start, u.span.stop⟩ t.line none)
        (blockInside catalog s.text element brace inside u.span.start) (s.slice ⟨brace.span.stop, u.span.start⟩),
        ⟨us, u.span.stop⟩) := by
  simp only [block, h, hclose]
  rfl

theorem block_unclosed (h : c.skipBlank.rest = brace :: ts) (hclose : splitBlock 0 ts = (inside, none)) :
    block catalog s element t c =
      (.block (s.info ⟨t.span.start, s.stop⟩ t.line (some (.unclosed .block)))
        (blockInside catalog s.text element brace inside s.stop) (s.slice ⟨brace.span.stop, s.stop⟩),
        ⟨[], lastStopOf brace.span.stop ts⟩) := by
  simp only [block, h, hclose]
  rfl

theorem block_nil (h : c.skipBlank.rest = []) : block catalog s element t c = (c.missing s .elementMissing, c) := by
  simp only [block, h]

/-- The range of the block that a brace opens, which the tokens `ts` follow. -/
def Source.between (s : Source) (brace : Token) (ts : List Token) : Source :=
  match splitBlock 0 ts with
  | (inside, some (u, _)) => ⟨s.text, u.span.start, lastLineOf brace.line inside⟩
  | (inside, none) => ⟨s.text, s.stop, lastLineOf brace.line inside⟩

/-- A block, closed or not, has the commands of its range. -/
theorem block_inside (h : c.skipBlank.rest = brace :: ts) :
    ∃ i : Info, i.span.start = t.span.start ∧ (block catalog s element t c).1 =
      .block i (commands catalog (s.between brace ts) (element (s.between brace ts))
        ⟨(splitBlock 0 ts).1, brace.span.stop⟩) (s.slice ⟨brace.span.stop, (s.between brace ts).stop⟩) := by
  rcases hclose : splitBlock 0 ts with ⟨inside, _ | ⟨u, us⟩⟩
  · rw [block_unclosed h hclose, Source.between, hclose]
    exact ⟨_, rfl, rfl⟩
  · rw [block_closed h hclose, Source.between, hclose]
    exact ⟨_, rfl, rfl⟩

/-- The tokens before and after the brace that closes a block. -/
theorem splitBlock_closed {u : Token} {us : List Token} (hclose : splitBlock 0 ts = (inside, some (u, us))) :
    ts = inside ++ u :: us := by
  have h := splitBlock_append 0 ts
  rw [hclose] at h
  exact h

theorem splitBlock_unclosed (hclose : splitBlock 0 ts = (inside, none)) : inside = ts := by
  have h := splitBlock_append 0 ts
  rw [hclose, List.append_nil] at h
  exact h.symm

theorem block_reaches (catalog : Catalog) (s : Source) (element : Source → Cursor → Element × Cursor) (t : Token) :
    Advances (block catalog s element t) := by
  intro c
  cases h : c.skipBlank.rest with
  | nil =>
    rw [block_nil h]
    exact Reaches.refl c
  | cons brace ts =>
    have hpast := Reaches.past_blank h
    rw [Cursor.past_eq (Cursor.skipBlank_head h)] at hpast
    rcases hclose : splitBlock 0 ts with ⟨inside, _ | ⟨u, us⟩⟩
    · rw [block_unclosed h hclose]
      exact hpast.trans ⟨ts, (List.append_nil ts).symm, rfl⟩
    · rw [block_closed h hclose]
      refine hpast.trans ⟨inside ++ [u], ?_, ?_⟩
      · rw [List.append_assoc]
        exact splitBlock_closed hclose
      · rw [lastStopOf_append, lastStopOf, splitBlock_closer hclose]
        rfl

end Block

/-- Reads the container of a group, inside which that many levels are left, after its first token. -/
def container (catalog : Catalog) (levels : Nat) (s : Source) : Group → Token → Cursor → Element × Cursor
  | .tuple => tuple s (chain s true (operand catalog levels s true))
  | .array => array s (chain s true (operand catalog levels s true))
  | .json => json s (chain s true (operand catalog levels s true))
  | .block => block catalog s fun inner => chain inner false (operand catalog levels inner false)

/-- Except for a block, a group is opened by its bracket. -/
theorem opens?_bracket {t : Token} {ts : List Token} {g : Group} (h : opens? (t :: ts) = some g) (hg : g ≠ .block) :
    t.kind = .opening g.bracket := by
  simp only [opens?] at h
  split at h
  · rename_i hk; cases h; exact hk
  · rename_i hk; cases h; exact hk
  · rename_i hk; cases h; exact hk
  · split at h
    · cases h; exact absurd rfl hg
    · cases h
  · cases h

/-- A block is opened by the word `block` before a brace. -/
theorem opens?_block {t : Token} {ts : List Token} (h : opens? (t :: ts) = some .block) :
    t.kind = .word ∧ t.text = "block" ∧ (ts.find? (!·.kind.isTrivia)).any (·.kind == .opening .curly) = true := by
  cases hk : t.kind with
  | word =>
    simp only [opens?, hk] at h
    split at h
    · rename_i hblock
      exact ⟨rfl, hblock⟩
    · cases h
  | opening b => cases b <;> simp [opens?, hk] at h
  | _ => simp [opens?, hk] at h

/-- The first token that is not skipped. -/
theorem head?_skipBlank (ts : List Token) :
    (ts.dropWhile (·.kind.isTrivia)).head? = ts.find? (!·.kind.isTrivia) := by
  induction ts with
  | nil => rfl
  | cons t ts ih => cases h : t.kind.isTrivia <;> simp [h, ih]

/-- After the word that opens a block comes its brace. -/
theorem opens?_brace {t : Token} {ts : List Token} (h : opens? (t :: ts) = some .block) (c : Cursor) :
    ∃ brace us, (c.past t ts).skipBlank.rest = brace :: us ∧ brace.kind = .opening .curly := by
  obtain ⟨-, -, hfind⟩ := opens?_block h
  rw [← head?_skipBlank] at hfind
  have hskip : (c.past t ts).skipBlank.rest = ts.dropWhile (·.kind.isTrivia) := rfl
  rw [hskip]
  cases hrest : ts.dropWhile (·.kind.isTrivia) with
  | nil =>
    rw [hrest] at hfind
    cases hfind
  | cons brace us =>
    rw [hrest] at hfind
    exact ⟨brace, us, rfl, by simpa using hfind⟩

section Operand

variable {catalog : Catalog} {levels : Nat} {s : Source} {multiline : Bool} {c : Cursor}

theorem operand_leaf (h : opens? (c.skipTrivia multiline).rest = none) :
    operand catalog levels s multiline c = leaf s (c.skipTrivia multiline) := by
  cases levels <;> simp only [operand, h]

theorem operand_tooDeep {g : Group} (h : opens? (c.skipTrivia multiline).rest = some g) :
    operand catalog 0 s multiline c = tooDeep s (c.skipTrivia multiline) := by
  simp only [operand, h]

theorem operand_container {g : Group} {t : Token} {ts : List Token} (h : (c.skipTrivia multiline).rest = t :: ts)
    (hg : opens? (t :: ts) = some g) :
    operand catalog (levels + 1) s multiline c =
      container catalog levels s g t ((c.skipTrivia multiline).past t ts) := by
  simp only [operand, h, hg]
  cases g <;> rfl

/-- The three ways in which an operand is read. -/
theorem operand_cases (catalog : Catalog) (levels : Nat) (s : Source) (multiline : Bool) (c : Cursor) :
    (opens? (c.skipTrivia multiline).rest = none ∧
      operand catalog levels s multiline c = leaf s (c.skipTrivia multiline)) ∨
    (levels = 0 ∧ operand catalog levels s multiline c = tooDeep s (c.skipTrivia multiline)) ∨
    ∃ below g t ts, levels = below + 1 ∧ (c.skipTrivia multiline).rest = t :: ts ∧ opens? (t :: ts) = some g ∧
      operand catalog levels s multiline c = container catalog below s g t ((c.skipTrivia multiline).past t ts) := by
  cases hg : opens? (c.skipTrivia multiline).rest with
  | none => exact Or.inl ⟨rfl, operand_leaf hg⟩
  | some g =>
    cases levels with
    | zero => exact Or.inr (Or.inl ⟨rfl, operand_tooDeep hg⟩)
    | succ below =>
      cases h : (c.skipTrivia multiline).rest with
      | nil => rw [h] at hg; cases hg
      | cons t ts =>
        rw [h] at hg
        exact Or.inr (Or.inr ⟨below, g, t, ts, rfl, rfl, hg, operand_container h hg⟩)

end Operand

theorem container_reaches {catalog : Catalog} {levels : Nat} {s : Source}
    (h : Advances (operand catalog levels s true)) (g : Group) (t : Token) :
    Advances (container catalog levels s g t) := by
  have hinside := chain_reaches s true h
  cases g with
  | tuple => exact tuple_reaches s hinside t
  | array => exact array_reaches s hinside t
  | json => exact json_reaches s hinside t
  | block => exact block_reaches catalog s _ t

/-- **Operands reach on.** -/
theorem operand_reaches (catalog : Catalog) (levels : Nat) (s : Source) (multiline : Bool) :
    Advances (operand catalog levels s multiline) := by
  induction levels using Nat.strongRecOn generalizing s multiline with
  | ind levels ih =>
    intro c
    have hskip := Reaches.skipTrivia c multiline
    rcases operand_cases catalog levels s multiline c with ⟨-, h⟩ | ⟨-, h⟩ | ⟨below, g, t, ts, rfl, hrest, -, h⟩
    · rw [h]
      exact hskip.trans (leaf_reaches s _)
    · rw [h]
      exact hskip.trans (tooDeep_reaches s _)
    · rw [h]
      exact (hskip.trans (Reaches.past hrest)).trans (container_reaches (ih below (Nat.lt_succ_self _) s true) g t _)

/-! ## Passing over the token ahead -/

/-- A reader that passes over the token ahead, unless that is a comment or a line end. -/
def Consumes (multiline : Bool) (read : Cursor → Element × Cursor) : Prop :=
  ∀ c t ts, (c.skipTrivia multiline).rest = t :: ts → t.kind.isTrivia = false →
    Reaches ((c.skipTrivia multiline).past t ts) (read c).2

section Consuming

variable {multiline : Bool} {c : Cursor} {t : Token} {ts : List Token}

theorem Consumes.length_lt {read : Cursor → Element × Cursor} (hread : Consumes multiline read)
    (h : (c.skipTrivia multiline).rest = t :: ts) (ht : t.kind.isTrivia = false) :
    (read c).2.rest.length < c.rest.length := by
  have hskip : ts.length + 1 ≤ c.rest.length := by
    have hle := (Reaches.skipTrivia c multiline).length_le
    rwa [h] at hle
  have hpast : (read c).2.rest.length ≤ ts.length := (hread c t ts h ht).length_le
  omega

theorem leaf_consumes (s : Source) (h : c.rest = t :: ts) (ht : t.kind.isTrivia = false) :
    Reaches (c.past t ts) (leaf s c).2 := by
  cases hk : t.kind with
  | newline | comment =>
    rw [hk] at ht
    cases ht
  | pipe =>
    simp only [leaf, h, hk]
    exact reference_reaches s t _
  | operator op =>
    cases op with
    | sub =>
      simp only [leaf, h, hk]
      exact negative_reaches s t _
    | _ =>
      simp only [leaf, h, hk]
      exact Reaches.refl _
  | _ =>
    simp only [leaf, h, hk]
    exact Reaches.refl _

theorem tooDeep_consumes (s : Source) (h : c.rest = t :: ts) : Reaches (c.past t ts) (tooDeep s c).2 := by
  simp only [tooDeep, h, skipGroup]
  split
  · exact skipGroup_reaches _ _ _
  · exact Reaches.refl _
  · exact skipGroup_reaches _ _ _

theorem chain_consumes (s : Source) {read : Cursor → Element × Cursor} (ha : Advances read)
    (hread : Consumes multiline read) : Consumes multiline (chain s multiline read) := by
  intro c t ts h ht
  have hafter := (hread c t ts h ht).trans (chainTail_reaches ha multiline (read c).2)
  unfold chain
  dsimp only
  split
  · exact hafter
  · exact hafter

end Consuming

/-- **Operands pass over the token ahead.** -/
theorem operand_consumes (catalog : Catalog) (levels : Nat) (s : Source) (multiline : Bool) :
    Consumes multiline (operand catalog levels s multiline) := by
  intro c t ts h ht
  rcases operand_cases catalog levels s multiline c with ⟨-, heq⟩ | ⟨-, heq⟩ | ⟨below, g, u, us, -, hrest, -, heq⟩
  · rw [heq]
    exact leaf_consumes s h ht
  · rw [heq]
    exact tooDeep_consumes s h
  · rw [h] at hrest
    cases hrest
    rw [heq]
    exact container_reaches (operand_reaches catalog below s true) g t _

/-! ## Commands -/

theorem argument_reaches {read : Cursor → Element × Cursor} (hread : Advances read) (c : Cursor) :
    Reaches c (argument read c).2 := by
  have hskip := Reaches.skipComments c
  unfold argument
  split
  · exact hskip
  · exact hskip
  · exact hskip.trans (hread _)

theorem lineEnd_reaches (c : Cursor) : Reaches c (lineEnd c).2 := by
  have hskip := Reaches.skipComments c
  unfold lineEnd
  split
  · exact hskip
  · split
    · exact hskip
    · exact hskip.trans (Reaches.skipLine _)

theorem command_reaches (catalog : Catalog) (s : Source) {read : Cursor → Element × Cursor} (hread : Advances read)
    (t : Token) (c : Cursor) : Reaches c (command catalog s read t c).2 := by
  have hskip := Reaches.skipComments c
  unfold command
  split
  · split
    · exact hskip.trans (Reaches.skipLine _)
    · rename_i u us h
      have hpast := hskip.trans (Reaches.past h)
      split
      · dsimp only
        split
        · exact hpast.trans ((argument_reaches hread _).trans (lineEnd_reaches _))
        · exact hpast.trans (Reaches.skipLine _)
      · exact hskip.trans (Reaches.skipLine _)
  · exact Reaches.skipLine c

/-- The line is at its end: nothing is ahead, or a line end. -/
def LineEnds (ts : List Token) : Prop := ∀ t ∈ ts.head?, t.kind = .newline

theorem skipLine_lineEnd (c : Cursor) : LineEnds c.skipLine.rest := by
  intro t ht
  have hhead := List.head?_dropWhile_not (fun u : Token => u.kind != .newline) c.rest
  have hrest : (c.rest.dropWhile (·.kind != .newline)).head? = some t := ht
  rw [hrest] at hhead
  simpa using hhead

theorem lineEnd_lineEnd (c : Cursor) : LineEnds (lineEnd c).2.rest := by
  unfold lineEnd
  split
  · rename_i h
    rw [h]
    intro t ht
    cases ht
  · rename_i t ts h
    split
    · rename_i hk
      rw [h]
      rintro u ⟨⟩
      exact hk
    · exact skipLine_lineEnd _

/-- A command is read up to the end of a line. -/
theorem command_lineEnd (catalog : Catalog) (s : Source) (read : Cursor → Element × Cursor) (t : Token) (c : Cursor) :
    LineEnds (command catalog s read t c).2.rest := by
  unfold command
  split
  · split
    · exact skipLine_lineEnd _
    · split
      · dsimp only
        split
        · exact lineEnd_lineEnd _
        · exact skipLine_lineEnd _
      · exact skipLine_lineEnd _
  · exact skipLine_lineEnd _

section Commands

variable {catalog : Catalog} {s : Source} {read : Cursor → Element × Cursor} {c : Cursor}

theorem commands_nil (h : c.skipBlank.rest = []) : commands catalog s read c = [] := by
  rw [commands, h]

/-- A command takes at least one token. -/
theorem command_lt (ha : Advances read) {t : Token} {ts : List Token} (h : c.skipBlank.rest = t :: ts) :
    (command catalog s read t ⟨ts, t.span.stop⟩).2.rest.length < c.rest.length := by
  have hblank : ts.length + 1 ≤ c.rest.length := by
    have hle := (Reaches.skipBlank c).length_le
    rwa [h] at hle
  have hcommand : _ ≤ ts.length := (command_reaches catalog s ha t ⟨ts, t.span.stop⟩).length_le
  omega

/-- The first command, and those after it unless it has a fatal problem. -/
theorem commands_cons (ha : Advances read) {t : Token} {ts : List Token} (h : c.skipBlank.rest = t :: ts) :
    commands catalog s read c =
      (command catalog s read t ⟨ts, t.span.stop⟩).1 ::
        if (command catalog s read t ⟨ts, t.span.stop⟩).1.hasFatal then []
        else commands catalog s read (command catalog s read t ⟨ts, t.span.stop⟩).2 := by
  have hlt : (command catalog s read t ⟨ts, t.span.stop⟩).2.rest.length < c.rest.length := command_lt ha h
  rw [commands, h]
  simp only [Cursor.past_eq (Cursor.skipBlank_head h), hlt, if_true]
  split
  · rfl
  · rfl

end Commands

end UiScript.Reading
