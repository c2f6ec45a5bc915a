import UiScript.Proofs.Coverage
import UiScript.Proofs.Element.Places
import UiScript.Proofs.Reading.Everywhere

/-!
# Reading places what it reads

While a text is read, the cursor stays aligned with it (`Aligned`): ahead are tokens of the text, and the last token
read ends before them. An element starts with the token ahead of it and ends, unless something fatal is wrong, no later
than the last token read (`Placement`); what is read one after the other stands in a row (`InRow`).

Each reader is looked at once, and `operand_places` is the induction on the levels. The commands of a range follow each
other in it (`commands_placed`).
-/

namespace UiScript

open Text

namespace Reading

/-! ## The cursor in the text -/

/-- The range ends at a boundary of the text. Ahead are tokens of the text that lie in the range and behind the last
token read. -/
structure Aligned (text : List Char) (s : Source) (c : Cursor) : Prop where
  text_eq : s.text = text
  tokens : c.rest <:+: scan text
  stop : Boundary text s.stop
  lastStop : Boundary text c.lastStop
  ahead : ∀ t ∈ c.rest, c.lastStop ≤ t.span.start ∧ t.span.stop ≤ s.stop
  lastStop_le : c.lastStop ≤ s.stop

section Aligned

variable {text : List Char} {s : Source} {c c' : Cursor} {t brace : Token} {ts : List Token}

theorem aligned_scan (text : List Char) : Aligned text (.whole text) ⟨scan text, 0⟩ := by
  have hbounds := scanFrom_bounds 0 1 .outside text
  rw [← scan_eq, Nat.zero_add] at hbounds
  exact ⟨rfl, List.infix_refl _, ⟨text, [], by simp, rfl⟩, ⟨[], text, by simp, rfl⟩,
    fun t ht => ⟨(hbounds t ht).1, (hbounds t ht).2.2⟩, Nat.zero_le _⟩

theorem Aligned.exact (h : Aligned text s c) (ht : t ∈ c.rest) : t.place.Exact text := scan_exact (h.tokens.mem ht)

theorem Aligned.inOrder (h : Aligned text s c) : InOrder c.rest := (inOrder_scan text).sublist h.tokens.sublist

/-- Reading on keeps the alignment. -/
theorem Aligned.reaches (h : Aligned text s c) (hr : Reaches c c') : Aligned text s c' := by
  have hmem : ∀ t ∈ c'.rest, t ∈ c.rest := fun t ht => hr.rest_suffix.mem ht
  refine ⟨h.text_eq, hr.rest_suffix.isInfix.trans h.tokens, h.stop, ?_, fun t ht => ?_, ?_⟩
  · rcases hr.lastStop_eq with heq | ⟨t, ht, heq⟩
    · exact heq ▸ h.lastStop
    · exact heq ▸ (h.exact ht).stop
  · refine ⟨?_, (h.ahead t (hmem t ht)).2⟩
    obtain ⟨us, hus, hstop⟩ := hr
    rw [hstop]
    rcases lastStopOf_eq c.lastStop us with heq | ⟨u, hu, heq⟩
    · rw [heq]
      exact (h.ahead t (hmem t ht)).1
    · have hsorted := h.inOrder.sorted
      rw [hus] at hsorted
      exact heq ▸ (List.pairwise_append.mp hsorted).2.2 u hu t ht
  · rcases hr.lastStop_eq with heq | ⟨t, ht, heq⟩
    · exact heq ▸ h.lastStop_le
    · exact heq ▸ (h.ahead t ht).2

/-- The last token read moves on only. -/
theorem Aligned.lastStop_mono (h : Aligned text s c) (hr : Reaches c c') : c.lastStop ≤ c'.lastStop := by
  obtain ⟨us, hus, hstop⟩ := hr
  have hmem : ∀ u ∈ us, u ∈ c.rest := fun u hu => hus ▸ List.mem_append_left _ hu
  have hsorted := h.inOrder.sorted
  rw [hus] at hsorted
  rw [hstop]
  exact (le_lastStopOf c.lastStop (List.pairwise_append.mp hsorted).1 fun u hu =>
    ⟨(h.ahead u (hmem u hu)).1, h.inOrder.nonempty u (hmem u hu)⟩).1

/-- After the token ahead. -/
theorem Aligned.past (h : Aligned text s c) (hrest : c.rest = t :: ts) (ht : t.kind.isTrivia = false) :
    Aligned text s ⟨ts, t.span.stop⟩ := by
  have hpast := h.reaches (Reaches.past hrest)
  rwa [Cursor.past_eq ht] at hpast

/-- In a block, reading goes on between its braces. -/
theorem Aligned.enters (h : Aligned text s c) (hrest : c.rest = brace :: ts) :
    Aligned text (s.between brace ts) ⟨(splitBlock 0 ts).1, brace.span.stop⟩ := by
  have hmem : ∀ t ∈ ts, t ∈ c.rest := fun t ht => hrest ▸ List.mem_cons_of_mem _ ht
  have hbrace : brace ∈ c.rest := hrest ▸ List.mem_cons_self
  have hsorted := h.inOrder.sorted
  rw [hrest, List.pairwise_cons] at hsorted
  have htokens : (splitBlock 0 ts).1 <:+: scan text := by
    refine ((splitBlock_isPrefix 0 ts).isInfix.trans ?_).trans h.tokens
    exact hrest ▸ (List.suffix_cons brace ts).isInfix
  rcases hclose : splitBlock 0 ts with ⟨inside, _ | ⟨u, us⟩⟩
  · obtain rfl := splitBlock_unclosed hclose
    rw [hclose] at htokens
    rw [Source.between, hclose]
    exact ⟨h.text_eq, htokens, h.stop, (h.exact hbrace).stop,
      fun t ht => ⟨hsorted.1 t ht, (h.ahead t (hmem t ht)).2⟩, (h.ahead brace hbrace).2⟩
  · rw [hclose] at htokens
    obtain rfl := splitBlock_closed hclose
    rw [Source.between, hclose]
    exact ⟨h.text_eq, htokens, (h.exact (hmem u (by simp))).start, (h.exact hbrace).stop,
      fun t ht => ⟨hsorted.1 t (by simp [ht]), (List.pairwise_append.mp hsorted.2).2.2 t ht u (by simp)⟩,
      hsorted.1 u (by simp)⟩

end Aligned

/-! ## Parts in a row -/

/-- All that the elements hold is placed and, unless something fatal is wrong with one of them, they are laid out
between two offsets. -/
structure InRow (text : List Char) (start stop : Nat) (es : List Element) : Prop where
  every : ∀ e ∈ es, e.Every true (Element.Placed text)
  laid : (∀ e ∈ es, e.hasFatal = false) → Laid start stop (es.map (·.place.span))

/-- The element that was read starts with the token `t`, all that it holds is placed, and unless something fatal is
wrong it ends no later than the last token read. -/
structure Placement (text : List Char) (t : Token) (r : Element × Cursor) : Prop where
  every : r.1.Every true (Element.Placed text)
  start : r.1.place.span.start = t.span.start
  line : r.1.place.line = t.line
  stop : r.1.hasFatal = false → r.1.place.span.stop ≤ r.2.lastStop

/-- A reader that places what it reads, provided that the token ahead is neither a comment nor a line end. -/
def Places (text : List Char) (s : Source) (multiline : Bool) (read : Cursor → Element × Cursor) : Prop :=
  ∀ {c t ts}, Aligned text s c → (c.skipTrivia multiline).rest = t :: ts → t.kind.isTrivia = false →
    Placement text t (read c)

section Rows

variable {text : List Char} {start middle stop : Nat} {es fs : List Element} {e : Element} {t : Token} {c : Cursor}
  {r : Element × Cursor}

theorem InRow.nil (text : List Char) (start stop : Nat) : InRow text start stop [] := ⟨by simp, fun _ => Laid.nil _ _⟩

theorem InRow.mono (h : InRow text middle stop es) (hle : start ≤ middle) {stop' : Nat} (hstop : stop ≤ stop') :
    InRow text start stop' es := ⟨h.every, fun hfatal => (h.laid hfatal).mono hle hstop⟩

theorem InRow.append (h : InRow text start middle es) (h' : InRow text middle stop fs) (hle : start ≤ middle)
    (hle' : middle ≤ stop) : InRow text start stop (es ++ fs) := by
  refine ⟨fun e he => ?_, fun hfatal => ?_⟩
  · rcases List.mem_append.mp he with he | he
    · exact h.every e he
    · exact h'.every e he
  · rw [List.forall_mem_append] at hfatal
    rw [List.map_append]
    exact (h.laid hfatal.1).append (h'.laid hfatal.2) hle hle'

theorem Placement.inRow (h : Placement text t r) (hle : start ≤ t.span.start) :
    InRow text start r.2.lastStop [r.1] := by
  refine ⟨by simpa using h.every, fun hfatal => ?_⟩
  exact Laid.singleton (h.start ▸ hle) (h.stop (by simpa using hfatal))

/-- An element that is not a block, from its first token to a boundary that its parts do not pass. -/
theorem placement_of_inRow (ht : t.place.Exact text) (hplace : e.place = .within text ⟨t.span.start, stop⟩ t.line)
    (hblock : e.kind ≠ .block) (hparts : InRow text t.span.start stop e.children) (hstop : Boundary text stop)
    (hle : t.span.start ≤ stop) (hlast : e.hasFatal = false → stop ≤ c.lastStop) : Placement text t (e, c) := by
  have hspan : e.place.span = ⟨t.span.start, stop⟩ := by rw [hplace]; rfl
  refine ⟨?_, by rw [hspan], by rw [hplace]; rfl, fun hfatal => by rw [hspan]; exact hlast hfatal⟩
  refine Element.every_of_children (Element.placed_of_children ?_ hblock fun hfatal => ?_) hparts.every
    fun hk => absurd hk hblock
  · rw [hplace]
    exact ht.upTo hstop hle
  · rw [hspan]
    exact hparts.laid fun x hx => Element.hasFatal_child hx hfatal

end Rows

/-! ## Leaves -/

section Leaves

variable {text : List Char} {s : Source} {c : Cursor} {t : Token} {ts : List Token}

theorem token_placement (ht : t.place.Exact text) (hlast : t.span.stop ≤ c.lastStop) (p : Option Problem) (l : Leaf) :
    Placement text t (.leaf (tokenInfo t p) l, c) :=
  ⟨Element.placed_leaf ht l, rfl, rfl, fun _ => hlast⟩

/-- A leaf of several tokens, of which `u` is the last one. -/
theorem tokens_placement (h : Aligned text s c) (ht : t.place.Exact text) (hlast : t.span.stop ≤ c.lastStop) {u : Token}
    (hu : u ∈ c.rest) {c' : Cursor} (hlast' : u.span.stop ≤ c'.lastStop) (p : Option Problem) (l : Leaf) :
    Placement text t (.leaf (s.info (t.span.merge u.span) t.line p) l, c') := by
  have hle := ht.le
  have hahead := (h.ahead u hu).1
  have hu' := (h.exact hu).le
  have hmerge : t.span.merge u.span = ⟨t.span.start, u.span.stop⟩ := by
    simp only [Token.place] at hle hu'
    simp only [Span.merge, Span.mk.injEq]
    omega
  rw [hmerge, Source.info, h.text_eq]
  refine ⟨Element.placed_leaf (ht.upTo (h.exact hu).stop ?_) l, rfl, rfl, fun _ => hlast'⟩
  simp only [Token.place] at hle hu' ⊢
  omega

theorem stop_le_past (ht : t.kind.isTrivia = false) : t.span.stop ≤ (c.past t ts).lastStop :=
  Nat.le_of_eq (congrArg Cursor.lastStop (Cursor.past_eq ht)).symm

theorem negative_placement (h : Aligned text s c) (ht : t.place.Exact text) (hlast : t.span.stop ≤ c.lastStop) :
    Placement text t (negative s t c) := by
  unfold negative
  split
  · exact token_placement ht hlast _ _
  · rename_i u us hrest
    split
    · rename_i float hk
      split
      · exact tokens_placement h ht hlast (hrest ▸ List.mem_cons_self) (stop_le_past (by rw [hk]; rfl)) _ _
      · exact token_placement ht hlast _ _
    · exact token_placement ht hlast _ _

theorem reference_placement (h : Aligned text s c) (ht : t.place.Exact text) (hlast : t.span.stop ≤ c.lastStop) :
    Placement text t (reference s t c) := by
  unfold reference
  split
  · exact token_placement ht hlast _ _
  · rename_i n ns hrest
    split
    · rename_i hname
      have hn : n.kind.isTrivia = false := by
        revert hname
        cases n.kind <;> simp [isName, TokenKind.isTrivia]
      have hunclosed : ∀ p l, Placement text t (.leaf (s.info (t.span.merge n.span) t.line p) l, c.past n ns) :=
        tokens_placement h ht hlast (hrest ▸ List.mem_cons_self) (stop_le_past hn)
      dsimp only
      split
      · exact hunclosed _ _
      · rename_i u us
        split
        · rename_i hpipe
          exact tokens_placement h ht hlast (hrest ▸ List.mem_cons_of_mem _ List.mem_cons_self)
            (stop_le_past (by rw [hpipe]; rfl)) _ _
        · exact hunclosed _ _
    · exact token_placement ht hlast _ _

theorem leaf_placement (h : Aligned text s c) (hrest : c.rest = t :: ts) (ht : t.kind.isTrivia = false) :
    Placement text t (leaf s c) := by
  have hexact := h.exact (hrest ▸ List.mem_cons_self)
  have hpast := h.past hrest ht
  have htoken : ∀ p l, Placement text t (.leaf (tokenInfo t p) l, ⟨ts, t.span.stop⟩) :=
    token_placement hexact (Nat.le_refl _)
  rw [leaf, hrest]
  simp only [Cursor.past_eq ht]
  split
  all_goals first
    | exact htoken _ _
    | exact reference_placement hpast hexact (Nat.le_refl _)
    | exact negative_placement hpast hexact (Nat.le_refl _)
    | (rename_i hk; rw [hk] at ht; cases ht)

theorem tooDeep_placement (h : Aligned text s c) (hrest : c.rest = t :: ts) (ht : t.kind.isTrivia = false) :
    Placement text t (tooDeep s c) := by
  have hexact := h.exact (hrest ▸ List.mem_cons_self)
  have hreach := tooDeep_consumes s hrest
  rw [Cursor.past_eq ht] at hreach
  have hlast := (h.past hrest ht).lastStop_mono hreach
  have hle := hexact.le
  have hposition : c.position s = t.span.start ∧ c.line s = t.line := by
    simp [Cursor.position, Cursor.line, hrest]
  have hafter := (h.reaches (tooDeep_reaches s c)).lastStop
  simp only [tooDeep, hposition] at hlast hafter ⊢
  rw [Source.info, h.text_eq]
  exact ⟨Element.placed_leaf (hexact.upTo hafter (Nat.le_trans hle hlast)) _, rfl, rfl, fun _ => Nat.le_refl _⟩

end Leaves

/-! ## Chains -/

section Chains

variable {text : List Char} {s : Source} {multiline : Bool} {read : Cursor → Element × Cursor} {c : Cursor} {t : Token}
  {ts : List Token}

/-- Nothing is skipped where the token ahead is neither a comment nor a line end. -/
theorem skipTrivia_of_head (multiline : Bool) (hrest : c.rest = t :: ts) (ht : t.kind.isTrivia = false) :
    c.skipTrivia multiline = c := by
  have hkept : (t.kind == .comment || (multiline && t.kind == .newline)) = false := by
    rw [Bool.eq_false_iff]
    intro hskipped
    rw [isTrivia_of_skipped multiline t.kind hskipped] at ht
    cases ht
  rw [Cursor.skipTrivia, Cursor.skip, hrest, List.dropWhile_cons_of_neg (by rw [hkept]; decide), ← hrest]

/-- What is read where the token ahead is neither a comment nor a line end. -/
theorem Places.inRow (hread : Places text s multiline read) (h : Aligned text s c) (hrest : c.rest = t :: ts)
    (ht : t.kind.isTrivia = false) : InRow text c.lastStop (read c).2.lastStop [(read c).1] :=
  (hread h (by rw [skipTrivia_of_head multiline hrest ht, hrest]) ht).inRow (h.ahead t (hrest ▸ List.mem_cons_self)).1

theorem exists_of_kind? {k : TokenKind} (h : c.kind? = some k) : ∃ t ts, c.rest = t :: ts ∧ t.kind = k := by
  cases hrest : c.rest with
  | nil => simp [Cursor.kind?, hrest] at h
  | cons t ts => exact ⟨t, ts, rfl, by simpa [Cursor.kind?, hrest] using h⟩

theorem exists_of_startsOperand (h : c.kind?.any TokenKind.startsOperand = true) :
    ∃ t ts, c.rest = t :: ts ∧ t.kind.isTrivia = false := by
  obtain ⟨k, hk, hstarts⟩ := (Option.any_eq_true _ _).mp h
  obtain ⟨t, ts, hrest, rfl⟩ := exists_of_kind? hk
  refine ⟨t, ts, hrest, ?_⟩
  revert hstarts
  cases t.kind <;> simp [TokenKind.startsOperand, TokenKind.isTrivia]

/-- An operator before the operand ahead. -/
theorem operator_inRow {ahead : Cursor} {op : Operator} {doubled : Option Problem} (h : Aligned text s c)
    (hrest : (c.skipTrivia multiline).rest = t :: ts) (hop : t.kind = .operator op)
    (hahead : skipOperator op multiline (((c.skipTrivia multiline).past t ts).skipTrivia multiline) =
      (doubled, ahead)) :
    InRow text c.lastStop ahead.lastStop [.leaf (tokenInfo t none) (.operator op)] := by
  have hskip := h.reaches (Reaches.skipTrivia c multiline)
  have hmem : t ∈ (c.skipTrivia multiline).rest := hrest ▸ List.mem_cons_self
  have hreach := (Reaches.skipTrivia ((c.skipTrivia multiline).past t ts) multiline).trans
    (skipOperator_reaches op multiline _)
  rw [hahead, Cursor.past_eq (by rw [hop]; rfl)] at hreach
  have hlast := (hskip.past hrest (by rw [hop]; rfl)).lastStop_mono hreach
  exact (token_placement (hskip.exact hmem) hlast none _).inRow (hskip.ahead t hmem).1

/-- **The operators and operands of a chain follow each other.** -/
theorem chainTail_inRow (hread : Places text s multiline read) (ha : Advances read) (c : Cursor)
    (h : Aligned text s c) :
    InRow text c.lastStop (chainTail multiline read c).cursor.lastStop (chainTail multiline read c).parts := by
  fun_induction chainTail multiline read c with
  | case1 c _ => exact InRow.nil _ _ _
  | case2 c t ts hrest op hop sign doubled ahead hahead hstarts right after hright hlt tail ih =>
    obtain ⟨u, us, hu, hk⟩ := exists_of_startsOperand hstarts
    have hreach := operatorAhead_reaches hrest hahead
    have hahead' := h.reaches hreach
    have hoperand := hread.inRow hahead' hu hk
    have hafter := ha ahead
    rw [hright] at hoperand hafter
    have htail := chainTail_reaches ha multiline after
    have hrow := hoperand.append (ih (hahead'.reaches hafter)) (hahead'.lastStop_mono hafter)
      ((hahead'.reaches hafter).lastStop_mono htail)
    exact (operator_inRow h hrest hop hahead).append hrow (h.lastStop_mono hreach)
      (hahead'.lastStop_mono (hafter.trans htail))
  | case3 c t ts hrest op hop sign doubled ahead hahead hstarts right after hright hlt =>
    have hafter := ha ahead
    rw [hright] at hafter
    exact absurd (Nat.lt_of_le_of_lt hafter.length_le (operatorAhead_lt hrest hahead)) hlt
  | case4 c t ts hrest op hop sign doubled ahead hahead hstarts => exact operator_inRow h hrest hop hahead
  | case5 c t ts hrest hop => exact InRow.nil _ _ _

/-- The token ahead is behind what is read. -/
theorem Consumes.stop_le (hc : Consumes multiline read) (h : Aligned text s c)
    (hrest : (c.skipTrivia multiline).rest = t :: ts) (ht : t.kind.isTrivia = false) :
    t.span.stop ≤ (read c).2.lastStop := by
  have hreach := hc c t ts hrest ht
  rw [Cursor.past_eq ht] at hreach
  exact ((h.reaches (Reaches.skipTrivia c multiline)).past hrest ht).lastStop_mono hreach

theorem chain_places (hread : Places text s multiline read) (ha : Advances read) (hc : Consumes multiline read) :
    Places text s multiline (chain s multiline read) := by
  intro c t ts h hrest ht
  have hfirst := hread h hrest ht
  have hafter := h.reaches (ha c)
  have hexact := (h.reaches (Reaches.skipTrivia c multiline)).exact (hrest ▸ List.mem_cons_self)
  have htail := chainTail_inRow hread ha (read c).2 hafter
  have hreach := chainTail_reaches ha multiline (read c).2
  have hmono := hafter.lastStop_mono hreach
  have hle : t.span.start ≤ (read c).2.lastStop := Nat.le_trans hexact.le (hc.stop_le h hrest ht)
  unfold chain
  dsimp only
  split
  · exact ⟨hfirst.every, hfirst.start, hfirst.line, fun hfatal => Nat.le_trans (hfirst.stop hfatal) hmono⟩
  · refine placement_of_inRow hexact ?_ (fun hk => by cases hk)
      ((hfirst.inRow (Nat.le_refl _)).append htail hle hmono) (hafter.reaches hreach).lastStop
      (Nat.le_trans hle hmono) fun _ => Nat.le_refl _
    rw [← hfirst.start, ← hfirst.line, ← h.text_eq]
    rfl

end Chains

/-! ## Lists -/

section Lists

variable {text : List Char} {s : Source} {read : Cursor → Element × Cursor} {α : Type} {parts : α → List Element}
  {c : Cursor} {t : Token} {ts : List Token} {start middle : Nat} {l : Listing α}

/-- The items of a list are in a row before its end, which is the end of the last token read unless the list has a
fatal problem. -/
structure ListingPlaced (text : List Char) (parts : α → List Element) (start : Nat) (l : Listing α) : Prop where
  row : InRow text start l.stop (l.items.flatMap parts)
  boundary : Boundary text l.stop
  le : start ≤ l.stop
  stop : isFatalProblem l.problem = false → l.stop ≤ l.cursor.lastStop

theorem ListingPlaced.mono (h : ListingPlaced text parts middle l) (hle : start ≤ middle) :
    ListingPlaced text parts start l :=
  ⟨h.row.mono hle (Nat.le_refl _), h.boundary, Nat.le_trans hle h.le, h.stop⟩

theorem ListingPlaced.after (h : ListingPlaced text parts start l) (p : Option Problem) :
    ListingPlaced text parts start (l.after p) := by
  refine ⟨h.row, h.boundary, h.le, fun hfatal => h.stop ?_⟩
  rw [Listing.after, isFatalProblem_note, Bool.or_eq_false_iff] at hfatal
  exact hfatal.2

theorem ListingPlaced.cons {a : α} (ha : InRow text start middle (parts a)) (h : ListingPlaced text parts middle l)
    (hle : start ≤ middle) : ListingPlaced text parts start (l.cons a) :=
  ⟨ha.append h.row hle h.le, h.boundary, Nat.le_trans hle h.le, h.stop⟩

/-- A reader of items whose parts are in a row, and which passes over the token ahead. -/
def PlacesItems (text : List Char) (s : Source) (parts : α → List Element) (item : Cursor → Item α) : Prop :=
  ∀ {c t ts}, Aligned text s c → c.rest = t :: ts → t.kind.isTrivia = false →
    InRow text c.lastStop (item c).cursor.lastStop (parts (item c).value) ∧ Reaches (c.past t ts) (item c).cursor

/-- **The items of a list follow each other.** -/
theorem listing_placed {item : Cursor → Item α} (hitem : PlacesItems text s parts item) (g : Group) (awaiting : Bool)
    (c : Cursor) (h : Aligned text s c) :
    ListingPlaced text parts c.lastStop (listing s g item awaiting c) := by
  fun_induction listing s g item awaiting c with
  | case1 awaiting c hrest => exact ⟨InRow.nil _ _ _, h.stop, h.lastStop_le, fun hfatal => by cases hfatal⟩
  | case2 awaiting c t ts hrest ahead _ hclose =>
    have hskip := h.reaches (Reaches.skipTrivia c true)
    have hmem : t ∈ (c.skipTrivia true).rest := hrest ▸ List.mem_cons_self
    refine ⟨InRow.nil _ _ _, (hskip.exact hmem).stop, ?_, fun _ => stop_le_past (Cursor.skipTrivia_head hrest)⟩
    exact Nat.le_trans (hskip.ahead t hmem).1 (hskip.exact hmem).le
  | case3 awaiting c t ts hrest ahead _ _ _ ih =>
    have hreach := Reaches.past_skip hrest
    exact ((ih (h.reaches hreach)).mono (h.lastStop_mono hreach)).after _
  | case4 awaiting c t ts hrest ahead _ _ _ _ ih =>
    have hreach := Reaches.past_skip hrest
    exact ((ih (h.reaches hreach)).mono (h.lastStop_mono hreach)).after _
  | case5 awaiting c t ts hrest ahead _ _ _ _ read problem hlt ih =>
    have hskip := h.reaches (Reaches.skipTrivia c true)
    obtain ⟨hrow, hreach⟩ := hitem hskip hrest (Cursor.skipTrivia_head hrest)
    have hreach := (Reaches.past hrest).trans hreach
    exact (ListingPlaced.cons hrow (ih (hskip.reaches hreach)) (hskip.lastStop_mono hreach)).after _
  | case6 awaiting c t ts hrest ahead _ _ _ _ read problem hlt =>
    have hskip := h.reaches (Reaches.skipTrivia c true)
    have hle : read.cursor.rest.length ≤ ts.length :=
      (hitem hskip hrest (Cursor.skipTrivia_head hrest)).2.length_le
    have hlength := (Reaches.skipTrivia c true).length_le
    rw [hrest, List.length_cons] at hlength
    omega

theorem elementItem_places (hread : Places text s true read) (hc : Consumes true read) :
    PlacesItems text s (fun e => [e]) (elementItem read) := by
  intro c t ts h hrest ht
  have hskip := skipTrivia_of_head true hrest ht
  have hreach := hc c t ts (by rw [hskip, hrest]) ht
  rw [hskip] at hreach
  exact ⟨hread.inRow h hrest ht, hreach⟩

/-- A problem that is not fatal leaves the element where it is. -/
theorem Placement.noting {e : Element} (h : Placement text t (e, c)) {p : Option Problem}
    (hp : isFatalProblem p = false) : Placement text t (e.noting p, c) := by
  refine ⟨h.every.noting (h.every.here.noting hp), by simpa using h.start, by simpa using h.line, fun hfatal => ?_⟩
  rw [Element.hasFatal_noting, hp, Bool.or_false] at hfatal
  simpa using h.stop hfatal

/-- A key and its value follow each other. -/
theorem entry_inRow (hread : Places text s true read) (ha : Advances read) (h : Aligned text s c)
    (hrest : c.rest = t :: ts) (ht : t.kind.isTrivia = false) :
    InRow text c.lastStop (entry read c).cursor.lastStop (entry read c).value.parts := by
  have hfound := hread h (by rw [skipTrivia_of_head true hrest ht, hrest]) ht
  have hkey := (hfound.noting (keyProblem?_mild (read c).1)).inRow (h.ahead t (hrest ▸ List.mem_cons_self)).1
  have hafter := h.reaches (ha c)
  have hahead := hafter.reaches (Reaches.skipTrivia _ true)
  unfold entry
  dsimp only
  split
  · exact hkey
  · rename_i u us hu
    split
    · have hcolon := (Reaches.past hu).trans (Reaches.skipTrivia _ true)
      have hinside := hahead.reaches hcolon
      have hmono := hahead.lastStop_mono hcolon
      split
      · exact hkey.mono (Nat.le_refl _) hmono
      · exact hkey.mono (Nat.le_refl _) hmono
      · exact hkey.mono (Nat.le_refl _) hmono
      · rename_i hkind
        obtain ⟨v, vs, hv, -⟩ := exists_of_kind? hkind
        have hvalue := hread.inRow hinside hv (Cursor.skipTrivia_head hv)
        exact (hkey.mono (Nat.le_refl _) hmono).append hvalue
          (Nat.le_trans (h.lastStop_mono (ha c)) hmono) (hinside.lastStop_mono (ha _))
    · exact hkey

theorem entry_places (hread : Places text s true read) (ha : Advances read) (hc : Consumes true read) :
    PlacesItems text s Entry.parts (entry read) := by
  intro c t ts h hrest ht
  have hskip := skipTrivia_of_head true hrest ht
  have hreach := hc c t ts (by rw [hskip, hrest]) ht
  rw [hskip] at hreach
  exact ⟨entry_inRow hread ha h hrest ht, hreach.trans (entry_after ha c)⟩

/-- A list between brackets, of which the first is the token `t`. -/
theorem group_placement (h : Aligned text s c) (ht : t.place.Exact text) (hlast : t.span.stop ≤ c.lastStop)
    (hl : ListingPlaced text parts c.lastStop l) {e : Element}
    (hplace : e.place = .within s.text ⟨t.span.start, l.stop⟩ t.line) (hblock : e.kind ≠ .block)
    (hchildren : e.children = l.items.flatMap parts) (hfatal : e.hasFatal = false → isFatalProblem l.problem = false) :
    Placement text t (e, l.cursor) := by
  have hle : t.span.start ≤ c.lastStop := Nat.le_trans ht.le hlast
  refine placement_of_inRow ht (h.text_eq ▸ hplace) hblock ?_ hl.boundary (Nat.le_trans hle hl.le)
    fun hf => hl.stop (hfatal hf)
  rw [hchildren]
  exact hl.row.mono hle (Nat.le_refl _)

variable (hread : Places text s true read) (ha : Advances read) (hc : Consumes true read) (h : Aligned text s c)
  (ht : t.place.Exact text) (hlast : t.span.stop ≤ c.lastStop)
include hread ha hc h ht hlast

omit ha in
theorem tuple_placement : Placement text t (tuple s read t c) := by
  refine group_placement h ht hlast (listing_placed (elementItem_places hread hc) .tuple true c h) rfl
    (fun hk => by cases hk) (List.flatMap_singleton' _).symm fun hfatal => ?_
  rw [Element.hasFatal, Bool.or_eq_false_iff] at hfatal
  exact hfatal.1

omit ha in
theorem array_placement : Placement text t (array s read t c) := by
  refine group_placement h ht hlast (listing_placed (elementItem_places hread hc) .array true c h) rfl
    (fun hk => by cases hk) (List.flatMap_singleton' _).symm fun hfatal => ?_
  rw [Element.hasFatal, Bool.or_eq_false_iff] at hfatal
  have hnote := hfatal.1
  simp only [Source.info, isFatalProblem_note, Bool.or_eq_false_iff] at hnote
  exact hnote.1

theorem json_placement : Placement text t (json s read t c) := by
  refine group_placement h ht hlast (listing_placed (entry_places hread ha hc) .json true c h) rfl
    (fun hk => by cases hk) rfl fun hfatal => ?_
  rw [Element.hasFatal, Bool.or_eq_false_iff] at hfatal
  exact hfatal.1

end Lists

/-! ## Commands -/

section Commands

variable {text : List Char} {s : Source} {read : Cursor → Element × Cursor} {c : Cursor} {t : Token}

theorem argument_inRow (hread : Places text s false read) (h : Aligned text s c) :
    InRow text c.lastStop (argument read c).2.lastStop (argument read c).1.toList := by
  have hskip := h.reaches (Reaches.skipComments c)
  unfold argument
  split
  · exact InRow.nil _ _ _
  · exact InRow.nil _ _ _
  · rename_i k hnewline hkind
    obtain ⟨u, us, hu, rfl⟩ := exists_of_kind? hkind
    have hcomment : (u.kind == .comment) = false := Cursor.skip_head hu
    refine hread.inRow hskip hu ?_
    cases hk : u.kind with
    | newline => exact absurd hk hnewline
    | comment =>
      rw [hk] at hcomment
      cases hcomment
    | _ => rfl

/-- The command is placed, and so is all that its argument holds. -/
structure CommandPlaced (text : List Char) (k : Command) : Prop where
  command : k.Placed text
  argument : ∀ a, k.argument? = some a → a.Every true (Element.Placed text)

/-- The commands in the blocks of a command are placed if that command is. -/
theorem CommandPlaced.inside {c k : Command} (hk : k ∈ c.blockCommands)
    (h : CommandPlaced text c) : CommandPlaced text k := by
  obtain ⟨a, i, commands, raw, ha, hblock, hk⟩ := Command.mem_blockCommands hk
  have hplaced := h.argument a ha
  refine ⟨(hplaced _ hblock.deepen).commands i commands raw rfl k hk, fun b hb => hplaced.of_occurs ?_⟩
  exact (Occurs.command rfl hk hb (.self b)).trans hblock.deepen

/-- A command with the argument that was read for it. -/
theorem commandPlaced_of_inRow {k : Command} (ht : t.place.Exact text) {stop middle : Nat}
    (hplace : k.place = .within text ⟨t.span.start, stop⟩ t.line) (hstop : Boundary text stop)
    (hmiddle : t.span.start ≤ middle) (hle : middle ≤ stop)
    (hrow : InRow text middle stop k.argument?.toList) : CommandPlaced text k := by
  have hspan : k.place.span = ⟨t.span.start, stop⟩ := by rw [hplace]; rfl
  refine ⟨⟨?_, fun hfatal a ha => ?_⟩, fun a ha => hrow.every a (by simp [ha])⟩
  · rw [hplace]
    exact ht.upTo hstop (Nat.le_trans hmiddle hle)
  · have hlaid := hrow.laid (by simpa [ha] using Command.hasFatal_argument ha hfatal)
    obtain ⟨hstart, hend⟩ := hlaid.inside a.place.span (by simp [ha])
    rw [hspan]
    exact ⟨Nat.le_trans hmiddle hstart, hend⟩

theorem command_placed (catalog : Catalog) (hread : Places text s false read) (ha : Advances read)
    (ht : t.place.Exact text) (h : Aligned text s c) (hlast : t.span.stop ≤ c.lastStop) :
    CommandPlaced text (command catalog s read t c).1 := by
  have hreach := command_reaches catalog s ha t c
  have hplace := command_place catalog s read t c
  rw [h.text_eq] at hplace
  refine commandPlaced_of_inRow ht hplace (h.reaches hreach).lastStop (Nat.le_trans ht.le hlast)
    (h.lastStop_mono hreach) ?_
  unfold command
  split
  · split
    · exact InRow.nil _ _ _
    · rename_i u us hu
      split
      · dsimp only
        split
        · have hcolon := (Reaches.skipComments c).trans (Reaches.past hu)
          have hafter := h.reaches hcolon
          have hargument := argument_inRow hread hafter
          have hend := (hafter.reaches (argument_reaches ha _)).lastStop_mono (lineEnd_reaches _)
          rw [Command.argument?_make]
          exact hargument.mono (h.lastStop_mono hcolon) hend
        · exact InRow.nil _ _ _
      · exact InRow.nil _ _ _
  · exact InRow.nil _ _ _

/-- **The commands of a range follow each other in it.** -/
theorem commands_placed (catalog : Catalog) (hread : Places text s false read) (ha : Advances read) (c : Cursor)
    (h : Aligned text s c) :
    (∀ k ∈ commands catalog s read c, CommandPlaced text k) ∧
      Laid c.lastStop s.stop ((commands catalog s read c).map (·.place.span)) := by
  induction hn : c.rest.length using Nat.strongRecOn generalizing c with
  | ind n ih =>
    cases hrest : c.skipBlank.rest with
    | nil =>
      rw [commands_nil hrest]
      exact ⟨by simp, Laid.nil _ _⟩
    | cons t ts =>
      have hskip := h.reaches (Reaches.skipBlank c)
      have hmem : t ∈ c.skipBlank.rest := hrest ▸ List.mem_cons_self
      have hpast := hskip.past hrest (Cursor.skipBlank_head hrest)
      have hcommand := command_placed catalog hread ha (hskip.exact hmem) hpast (Nat.le_refl _)
      have hreach := command_reaches catalog s ha t ⟨ts, t.span.stop⟩
      have hafter := hpast.reaches hreach
      have hspan : (command catalog s read t ⟨ts, t.span.stop⟩).1.place.span =
          ⟨t.span.start, (command catalog s read t ⟨ts, t.span.stop⟩).2.lastStop⟩ := by
        rw [command_place]
        rfl
      have hstart : c.lastStop ≤ t.span.start := (hskip.ahead t hmem).1
      have hmono : t.span.start ≤ (command catalog s read t ⟨ts, t.span.stop⟩).2.lastStop :=
        Nat.le_trans (hskip.exact hmem).le (hpast.lastStop_mono hreach)
      rw [commands_cons ha hrest, List.forall_mem_cons, List.map_cons, hspan]
      split
      · exact ⟨⟨hcommand, by simp⟩, Laid.singleton hstart hafter.lastStop_le⟩
      · obtain ⟨hcommands, hlaid⟩ := ih _ (hn ▸ command_lt ha hrest) _ hafter rfl
        exact ⟨⟨hcommand, hcommands⟩, .cons hstart (Nat.le_refl _) hlaid (Nat.le_trans hstart hmono) hafter.lastStop_le⟩

end Commands

/-! ## Blocks and operands -/

section Blocks

variable {text : List Char} {catalog : Catalog} {s : Source} {c : Cursor} {t : Token}

/-- A block with its commands, from its first token on. -/
theorem placement_of_commands (ht : t.place.Exact text) {i : Info} {raw : String} {ks : List Command}
    {start middle stop : Nat} (hplace : i.toPlace = .within text ⟨t.span.start, stop⟩ t.line)
    (hstop : Boundary text stop) (hks : ∀ k ∈ ks, CommandPlaced text k)
    (hlaid : Laid start middle (ks.map (·.place.span))) (hle : t.span.start ≤ start) (hle' : start ≤ middle)
    (hle'' : middle ≤ stop) (hlast : (Element.block i ks raw).hasFatal = false → stop ≤ c.lastStop) :
    Placement text t (.block i ks raw, c) := by
  have hspan : i.span = ⟨t.span.start, stop⟩ := congrArg Place.span hplace
  have hexact : i.toPlace.Exact text := by
    rw [hplace]
    exact ht.upTo hstop (Nat.le_trans hle (Nat.le_trans hle' hle''))
  have hplaced : (Element.block i ks raw).Placed text := by
    refine ⟨hexact, fun _ => ⟨Laid.nil _ _, ?_⟩, ?_⟩
    · rintro i' ks' raw' ⟨⟩
      show Laid i.span.start i.span.stop _
      rw [hspan]
      exact hlaid.mono hle hle''
    · rintro i' ks' raw' ⟨⟩
      exact fun k hk => (hks k hk).command
  refine ⟨Element.every_block hplaced fun k hk => (hks k hk).argument, ?_, ?_, ?_⟩
  · show i.span.start = t.span.start
    rw [hspan]
  · exact congrArg Place.line hplace
  · intro hfatal
    show i.span.stop ≤ c.lastStop
    rw [hspan]
    exact hlast hfatal

theorem block_placement {element : Source → Cursor → Element × Cursor}
    (hread : ∀ inner, Places text inner false (element inner)) (ha : ∀ inner, Advances (element inner))
    (ht : t.place.Exact text) (h : Aligned text s c) (hlast : t.span.stop ≤ c.lastStop) {brace : Token}
    {ts : List Token} (hbrace : c.skipBlank.rest = brace :: ts) : Placement text t (block catalog s element t c) := by
  have hskip := h.reaches (Reaches.skipBlank c)
  have hmem : brace ∈ c.skipBlank.rest := hbrace ▸ List.mem_cons_self
  have hinside := hskip.enters hbrace
  obtain ⟨hks, hlaid⟩ := commands_placed catalog (hread (s.between brace ts)) (ha _) _ hinside
  have hle : t.span.start ≤ brace.span.stop := by
    have h₁ := ht.le
    have h₂ : c.lastStop ≤ brace.span.start := (hskip.ahead brace hmem).1
    have h₃ := (hskip.exact hmem).le
    simp only [Token.place] at h₁ h₃
    omega
  rcases hclose : splitBlock 0 ts with ⟨inside, _ | ⟨u, us⟩⟩
  · rw [block_unclosed hbrace hclose]
    rw [Source.between, hclose] at hks hlaid hinside
    exact placement_of_commands ht (by rw [← h.text_eq]; rfl) h.stop hks hlaid hle hinside.lastStop_le (Nat.le_refl _)
      fun hfatal => by cases hfatal
  · have hu : u ∈ c.skipBlank.rest := by
      rw [hbrace, splitBlock_closed hclose]
      simp
    rw [block_closed hbrace hclose]
    rw [Source.between, hclose] at hks hlaid hinside
    exact placement_of_commands ht (by rw [← h.text_eq]; rfl) (hskip.exact hu).stop hks hlaid hle hinside.lastStop_le
      (hskip.exact hu).le fun _ => Nat.le_refl _

/-- **Operands are placed.** -/
theorem operand_places (text : List Char) (catalog : Catalog) (levels : Nat) (s : Source) (multiline : Bool) :
    Places text s multiline (operand catalog levels s multiline) := by
  induction levels using Nat.strongRecOn generalizing s multiline with
  | ind levels ih =>
    intro c t ts h hrest ht
    have hskip := h.reaches (Reaches.skipTrivia c multiline)
    have hexact := hskip.exact (hrest ▸ List.mem_cons_self)
    rcases operand_cases catalog levels s multiline c with ⟨-, heq⟩ | ⟨-, heq⟩ | ⟨below, g, u, us, rfl, hrest', hg, heq⟩
    · rw [heq]
      exact leaf_placement hskip hrest ht
    · rw [heq]
      exact tooDeep_placement hskip hrest ht
    · obtain ⟨rfl, rfl⟩ := List.cons.inj (hrest.symm.trans hrest')
      have ha : ∀ inner deeper, Advances (chain inner deeper (operand catalog below inner deeper)) :=
        fun inner deeper => chain_reaches inner deeper (operand_reaches catalog below inner deeper)
      have hchain : ∀ inner deeper,
          Places text inner deeper (chain inner deeper (operand catalog below inner deeper)) :=
        fun inner deeper => chain_places (ih below (Nat.lt_succ_self _) inner deeper)
          (operand_reaches catalog below inner deeper) (operand_consumes catalog below inner deeper)
      have hconsumes := chain_consumes s (operand_reaches catalog below s true) (operand_consumes catalog below s true)
      have hpast := hskip.reaches (Reaches.past hrest)
      have hlast : t.span.stop ≤ ((c.skipTrivia multiline).past t ts).lastStop := stop_le_past ht
      rw [heq]
      cases g with
      | tuple => exact tuple_placement (hchain s true) hconsumes hpast hexact hlast
      | array => exact array_placement (hchain s true) hconsumes hpast hexact hlast
      | json => exact json_placement (hchain s true) (ha s true) hconsumes hpast hexact hlast
      | block =>
        obtain ⟨brace, vs, hbrace, -⟩ := opens?_brace hg (c.skipTrivia multiline)
        exact block_placement (fun inner => hchain inner false) (fun inner => ha inner false) hexact hpast hlast hbrace

end Blocks

/-- The commands of a script are placed, one after the other. -/
theorem parse_placed (catalog : Catalog) (text : String) :
    (∀ k ∈ (Script.parse catalog text).commands, CommandPlaced text.toList k) ∧
      Laid 0 (width text.toList) ((Script.parse catalog text).commands.map (·.place.span)) :=
  commands_placed catalog
    (chain_places (operand_places _ catalog maxNesting _ false) (operand_reaches catalog maxNesting _ false)
      (operand_consumes catalog maxNesting _ false))
    (chain_reaches _ false (operand_reaches catalog maxNesting _ false)) _ (aligned_scan text.toList)

end Reading

end UiScript
