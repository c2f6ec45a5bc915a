import UiScript.Proofs.Reading.Progress
import UiScript.Proofs.Scan.Locality

/-!
# Reading does not depend on the place

Moving all tokens of a range by a number of bytes and lines moves what is read from it, and changes nothing else
(`operand_shift`, `commands_shift`). The two sources have to agree on the texts of the spans in the range (`Embeds`),
and the tokens have to lie in it (`Fits`). So a text has the same commands as a part of a larger text as it has alone.
-/

namespace UiScript.Reading

open Text

variable {bytes lines : Nat}

/-! ## Moved cursors -/

/-- The cursor moved by a number of bytes and lines. -/
def Cursor.shift (bytes lines : Nat) (c : Cursor) : Cursor :=
  ⟨c.rest.map (Token.shift bytes lines), c.lastStop + bytes⟩

/-- A reading result moved by a number of bytes and lines. -/
def shiftRead (bytes lines : Nat) (r : Element × Cursor) : Element × Cursor :=
  (r.1.shift bytes lines, r.2.shift bytes lines)

section Cursors

variable {c : Cursor} {t : Token} {ts : List Token}

theorem Cursor.shift_rest (h : c.rest = ts) : (c.shift bytes lines).rest = ts.map (Token.shift bytes lines) := by
  rw [← h]
  rfl

@[simp] theorem Cursor.shift_skip (p : TokenKind → Bool) (c : Cursor) :
    (c.shift bytes lines).skip p = (c.skip p).shift bytes lines := by
  simp only [Cursor.skip, Cursor.shift, List.dropWhile_map]
  rfl

@[simp] theorem Cursor.shift_skipTrivia (c : Cursor) (multiline : Bool) :
    (c.shift bytes lines).skipTrivia multiline = (c.skipTrivia multiline).shift bytes lines := Cursor.shift_skip _ c

@[simp] theorem Cursor.shift_skipBlank (c : Cursor) :
    (c.shift bytes lines).skipBlank = c.skipBlank.shift bytes lines := Cursor.shift_skip _ c

@[simp] theorem Cursor.shift_skipComments (c : Cursor) :
    (c.shift bytes lines).skipComments = c.skipComments.shift bytes lines := Cursor.shift_skip _ c

@[simp] theorem Cursor.shift_past (c : Cursor) (t : Token) (ts : List Token) :
    (c.shift bytes lines).past (t.shift bytes lines) (ts.map (Token.shift bytes lines)) =
      (c.past t ts).shift bytes lines := by
  unfold Cursor.past Cursor.shift
  rw [Token.shift_kind]
  split <;> rfl

@[simp] theorem Cursor.shift_kind? (c : Cursor) : (c.shift bytes lines).kind? = c.kind? := by
  simp only [Cursor.kind?, Cursor.shift, List.head?_map, Option.map_map]
  rfl

@[simp] theorem Cursor.shift_length (c : Cursor) : (c.shift bytes lines).rest.length = c.rest.length :=
  List.length_map _

theorem lastStopOf_shift (bytes lines stop : Nat) (ts : List Token) :
    lastStopOf (stop + bytes) (ts.map (Token.shift bytes lines)) = lastStopOf stop ts + bytes := by
  induction ts generalizing stop with
  | nil => rfl
  | cons t ts ih =>
    rw [List.map_cons, lastStopOf, lastStopOf, ← ih, Token.shift_kind]
    split <;> rfl

theorem lastLineOf_shift (line : Nat) (ts : List Token) :
    lastLineOf (line + lines) (ts.map (Token.shift bytes lines)) = lastLineOf line ts + lines := by
  unfold lastLineOf
  rw [List.getLast?_map]
  cases ts.getLast? <;> rfl

@[simp] theorem Cursor.shift_skipLine (c : Cursor) :
    (c.shift bytes lines).skipLine = c.skipLine.shift bytes lines := by
  simp only [Cursor.skipLine, Cursor.shift, List.dropWhile_map, List.takeWhile_map, lastStopOf_shift]
  rfl

@[simp] theorem skipGroup_shift (depth stop : Nat) (ts : List Token) :
    skipGroup depth (stop + bytes) (ts.map (Token.shift bytes lines)) =
      (skipGroup depth stop ts).shift bytes lines := by
  induction ts generalizing depth stop with
  | nil => rfl
  | cons t ts ih =>
    have hstop : (if t.kind.isTrivia then stop + bytes else (t.shift bytes lines).span.stop) =
        (if t.kind.isTrivia then stop else t.span.stop) + bytes := by
      split <;> rfl
    rw [List.map_cons, skipGroup, skipGroup, Token.shift_kind, hstop]
    split
    · exact ih _ _
    · split
      · rfl
      · exact ih _ _
    · exact ih _ _

theorem splitBlock_shift (bytes lines depth : Nat) (ts : List Token) :
    splitBlock depth (ts.map (Token.shift bytes lines)) =
      ((splitBlock depth ts).1.map (Token.shift bytes lines),
        (splitBlock depth ts).2.map fun p => (p.1.shift bytes lines, p.2.map (Token.shift bytes lines))) := by
  fun_induction splitBlock depth ts with
  | case1 => rfl
  | case2 t ts h => simp [splitBlock, h]
  | case3 t ts depth h inside rest heq ih => rw [heq] at ih; simp [splitBlock, h, ih]
  | case4 t ts depth h inside rest heq ih => rw [heq] at ih; simp [splitBlock, h, ih]
  | case5 t ts depth inside rest heq h₁ h₂ h₃ ih =>
    rw [heq] at ih
    rw [List.map_cons, splitBlock.eq_5, ih]
    · rfl
    · exact h₃
    · exact h₁
    · exact h₂

theorem opens?_shift (ts : List Token) : opens? (ts.map (Token.shift bytes lines)) = opens? ts := by
  cases ts with
  | nil => rfl
  | cons t ts =>
    simp only [List.map_cons, opens?, Token.shift_kind, Token.shift_text, List.find?_map, Option.any_map]
    rfl

end Cursors

/-! ## Ranges -/

/-- The range of the first source is a part of the second one, that many bytes and lines later. -/
structure Embeds (bytes lines : Nat) (s s' : Source) : Prop where
  stop_eq : s'.stop = s.stop + bytes
  lastLine_eq : s'.lastLine = s.lastLine + lines
  slice_eq : ∀ start stop, stop ≤ s.stop →
    Text.slice s'.text (start + bytes) (stop + bytes) = Text.slice s.text start stop

/-- The tokens ahead lie in the range, one after the other. -/
structure Fits (s : Source) (c : Cursor) : Prop where
  sorted : c.rest.Pairwise fun t u => t.span.stop ≤ u.span.start
  ordered : ∀ t ∈ c.rest, t.span.start ≤ t.span.stop
  inside : ∀ t ∈ c.rest, t.span.stop ≤ s.stop
  lastStop_le : c.lastStop ≤ s.stop

theorem Fits.reaches {s : Source} {c c' : Cursor} (h : Fits s c) (hr : Reaches c c') : Fits s c' := by
  have hmem : ∀ t ∈ c'.rest, t ∈ c.rest := fun t ht => hr.rest_suffix.mem ht
  refine ⟨h.sorted.sublist hr.rest_suffix.sublist, fun t ht => h.ordered t (hmem t ht),
    fun t ht => h.inside t (hmem t ht), ?_⟩
  rcases hr.lastStop_eq with he | ⟨t, ht, he⟩
  · rw [he]
    exact h.lastStop_le
  · rw [he]
    exact h.inside t ht

theorem Span.merge_shift (a b : Span) : (a.shift bytes).merge (b.shift bytes) = (a.merge b).shift bytes := by
  simp only [Span.merge, Span.shift, Span.mk.injEq]
  omega

section Places

variable {s s' : Source} {c : Cursor}

theorem Embeds.info (h : Embeds bytes lines s s') (span : Span) (hstop : span.stop ≤ s.stop) (line : Nat)
    (p : Option Problem) :
    s'.info (span.shift bytes) (line + lines) p = (s.info span line p).shift bytes lines := by
  simp only [Source.info, Place.within, Info.shift, Span.shift, h.slice_eq _ _ hstop]

theorem Embeds.slice (h : Embeds bytes lines s s') (span : Span) (hstop : span.stop ≤ s.stop) :
    s'.slice (span.shift bytes) = s.slice span := by
  simp only [Source.slice, Span.shift, h.slice_eq _ _ hstop]

theorem Embeds.position (h : Embeds bytes lines s s') (c : Cursor) :
    (c.shift bytes lines).position s' = c.position s + bytes := by
  unfold Cursor.position Cursor.shift
  rw [List.head?_map, h.stop_eq]
  cases c.rest.head? <;> rfl

theorem Embeds.line (h : Embeds bytes lines s s') (c : Cursor) :
    (c.shift bytes lines).line s' = c.line s + lines := by
  unfold Cursor.line Cursor.shift
  rw [List.head?_map, h.lastLine_eq]
  cases c.rest.head? <;> rfl

theorem Fits.position_le (h : Fits s c) : c.position s ≤ s.stop := by
  unfold Cursor.position
  cases hr : c.rest with
  | nil => exact Nat.le_refl _
  | cons t ts =>
    have ht : t ∈ c.rest := by rw [hr]; exact List.mem_cons_self
    exact Nat.le_trans (h.ordered t ht) (h.inside t ht)

theorem Embeds.missing (h : Embeds bytes lines s s') (hc : Fits s c) (p : Problem) :
    (c.shift bytes lines).missing s' p = (c.missing s p).shift bytes lines := by
  have hi := h.info ⟨c.position s, c.position s⟩ hc.position_le (c.line s) (some p)
  simp only [Cursor.missing, h.position, h.line]
  exact congrArg (Element.leaf · .unknown) hi

end Places

/-! ## Chains and lists -/

/-- The second reader gives on moved tokens what the first gives, moved. -/
def Follows (bytes lines : Nat) (s : Source) (read read' : Cursor → Element × Cursor) : Prop :=
  ∀ c, Fits s c → read' (c.shift bytes lines) = shiftRead bytes lines (read c)

section Parts

variable {s s' : Source} {read read' : Cursor → Element × Cursor}

theorem skipOperator_shift (op : Operator) (multiline : Bool) (c : Cursor) :
    skipOperator op multiline (c.shift bytes lines) =
      ((skipOperator op multiline c).1, (skipOperator op multiline c).2.shift bytes lines) := by
  cases h : c.rest with
  | nil => simp only [skipOperator, Cursor.shift_rest h, h, List.map_nil]
  | cons t ts =>
    simp only [skipOperator, Cursor.shift_rest h, h, List.map_cons, Token.shift_kind, Cursor.shift_past,
      Cursor.shift_skipTrivia]
    split <;> rfl

/-- The tail of a chain, moved. -/
def Tail.shift (bytes lines : Nat) (t : Tail) : Tail :=
  ⟨t.parts.map (Element.shift bytes lines), t.problem, t.cursor.shift bytes lines⟩

theorem chainTail_shift (hf : Follows bytes lines s read read') (ha : Advances read) (multiline : Bool) (c : Cursor)
    (hc : Fits s c) :
    chainTail multiline read' (c.shift bytes lines) = (chainTail multiline read c).shift bytes lines := by
  fun_induction chainTail multiline read c with
  | case1 c h =>
    rw [chainTail, Cursor.shift_skipTrivia, Cursor.shift_rest h]
    rfl
  | case2 c t ts h op hop sign doubled ahead hahead hstarts right after hright hlt tail ih =>
    have hr := operatorAhead_reaches h hahead
    have hread := hf ahead (hc.reaches hr)
    have hafter := ha ahead
    rw [hright] at hread hafter
    rw [chainTail, Cursor.shift_skipTrivia, Cursor.shift_rest h]
    simp only [List.map_cons, Token.shift_kind, hop, Cursor.shift_past, Cursor.shift_skipTrivia, skipOperator_shift,
      hahead, Cursor.shift_kind?, hstarts, if_true, hread, shiftRead, Cursor.shift_length, hlt,
      ih (hc.reaches (hr.trans hafter))]
    rfl
  | case3 c t ts h op hop sign doubled ahead hahead hstarts right after hright hlt =>
    have hr := operatorAhead_reaches h hahead
    have hread := hf ahead (hc.reaches hr)
    rw [hright] at hread
    rw [chainTail, Cursor.shift_skipTrivia, Cursor.shift_rest h]
    simp only [List.map_cons, Token.shift_kind, hop, Cursor.shift_past, Cursor.shift_skipTrivia, skipOperator_shift,
      hahead, Cursor.shift_kind?, hstarts, if_true, hread, shiftRead, Cursor.shift_length, hlt, if_false]
    rfl
  | case4 c t ts h op hop sign doubled ahead hahead hstarts =>
    rw [chainTail, Cursor.shift_skipTrivia, Cursor.shift_rest h]
    simp only [List.map_cons, Token.shift_kind, hop, Cursor.shift_past, Cursor.shift_skipTrivia, skipOperator_shift,
      hahead, Cursor.shift_kind?, hstarts]
    rfl
  | case5 c t ts h hop =>
    rw [chainTail, Cursor.shift_skipTrivia, Cursor.shift_rest h]
    simp only [List.map_cons, Token.shift_kind]
    rfl

theorem chain_shift (hs : Embeds bytes lines s s') (hf : Follows bytes lines s read read') (ha : Advances read)
    (multiline : Bool) : Follows bytes lines s (chain s multiline read) (chain s' multiline read') := by
  intro c hc
  have hafter := hc.reaches (ha c)
  have hstop := (hafter.reaches (chainTail_reaches ha multiline (read c).2)).lastStop_le
  have hi := hs.info ⟨(read c).1.info.span.start, (chainTail multiline read (read c).2).cursor.lastStop⟩
    hstop (read c).1.info.line (chainTail multiline read (read c).2).problem
  simp only [chain, hf c hc, shiftRead, chainTail_shift hf ha multiline _ hafter, Tail.shift, List.isEmpty_map,
    Element.shift_info]
  split
  · rfl
  · simp only [Element.relabel, relabelAll_eq_map, List.map_cons]
    exact congrArg (fun i => (Element.expression i _ none, _)) hi

/-- A listing, moved. -/
def Listing.shift {α : Type} (move : α → α) (bytes lines : Nat) (l : Listing α) : Listing α :=
  ⟨l.items.map move, l.awaiting, l.problem, l.stop + bytes, l.cursor.shift bytes lines⟩

/-- An item, moved. -/
def Item.shift {α : Type} (move : α → α) (bytes lines : Nat) (i : Item α) : Item α :=
  ⟨move i.value, i.problem, i.cursor.shift bytes lines⟩

theorem listing_shift {α : Type} (move : α → α) (hs : Embeds bytes lines s s') (g : Group)
    {item item' : Cursor → Item α} (ha : ∀ c, Reaches c (item c).cursor)
    (hf : ∀ c, Fits s c → item' (c.shift bytes lines) = (item c).shift move bytes lines) (awaiting : Bool) (c : Cursor)
    (hc : Fits s c) :
    listing s' g item' awaiting (c.shift bytes lines) = (listing s g item awaiting c).shift move bytes lines := by
  fun_induction listing s g item awaiting c with
  | case1 awaiting c h =>
    rw [listing_nil (by rw [Cursor.shift_skipTrivia, Cursor.shift_rest h]; rfl), Cursor.shift_skipTrivia, hs.stop_eq]
    rfl
  | case2 awaiting c t ts h ahead _ hk =>
    have h' : ((c.shift bytes lines).skipTrivia true).rest = (t :: ts).map (Token.shift bytes lines) := by
      rw [Cursor.shift_skipTrivia, Cursor.shift_rest h]
    rw [listing_cons h', Token.shift_kind, if_pos hk, Cursor.shift_skipTrivia, Cursor.shift_past]
    rfl
  | case3 awaiting c t ts h ahead _ hk hk' ih =>
    have h' : ((c.shift bytes lines).skipTrivia true).rest = (t :: ts).map (Token.shift bytes lines) := by
      rw [Cursor.shift_skipTrivia, Cursor.shift_rest h]
    rw [listing_cons h', Token.shift_kind, if_neg hk, if_pos hk', Cursor.shift_skipTrivia, Cursor.shift_past,
      ih (hc.reaches (Reaches.past_skip h))]
    rfl
  | case4 awaiting c t ts h ahead _ hk hk' hk'' ih =>
    have h' : ((c.shift bytes lines).skipTrivia true).rest = (t :: ts).map (Token.shift bytes lines) := by
      rw [Cursor.shift_skipTrivia, Cursor.shift_rest h]
    rw [listing_cons h', Token.shift_kind, if_neg hk, if_neg hk', if_pos hk'', Cursor.shift_skipTrivia,
      Cursor.shift_past, ih (hc.reaches (Reaches.past_skip h))]
    rfl
  | case5 awaiting c t ts h ahead _ hk hk' hk'' read problem hlt ih =>
    have h' : ((c.shift bytes lines).skipTrivia true).rest = (t :: ts).map (Token.shift bytes lines) := by
      rw [Cursor.shift_skipTrivia, Cursor.shift_rest h]
    have hskip := Reaches.skipTrivia c true
    rw [listing_cons h', Token.shift_kind, if_neg hk, if_neg hk', if_neg hk'', Cursor.shift_skipTrivia,
      hf _ (hc.reaches hskip), Item.shift, Cursor.shift_length, Cursor.shift_length, if_pos hlt,
      ih (hc.reaches (hskip.trans (ha _)))]
    rfl
  | case6 awaiting c t ts h ahead _ hk hk' hk'' read problem hlt =>
    have h' : ((c.shift bytes lines).skipTrivia true).rest = (t :: ts).map (Token.shift bytes lines) := by
      rw [Cursor.shift_skipTrivia, Cursor.shift_rest h]
    have hskip := Reaches.skipTrivia c true
    rw [listing_cons h', Token.shift_kind, if_neg hk, if_neg hk', if_neg hk'', Cursor.shift_skipTrivia,
      hf _ (hc.reaches hskip), Item.shift, Cursor.shift_length, Cursor.shift_length, if_neg hlt, hs.stop_eq]
    rfl

theorem elementItem_shift (hf : Follows bytes lines s read read') (c : Cursor) (hc : Fits s c) :
    elementItem read' (c.shift bytes lines) = (elementItem read c).shift (Element.shift bytes lines) bytes lines := by
  simp only [elementItem, hf c hc, shiftRead, Item.shift]

theorem keyProblem?_shift (key : Element) : keyProblem? (key.shift bytes lines) = keyProblem? key := by
  simp only [keyProblem?, Element.relabel_problem, Element.relabel_kind, Element.relabel_text]

theorem entry_shift (hf : Follows bytes lines s read read') (ha : Advances read) (c : Cursor) (hc : Fits s c) :
    entry read' (c.shift bytes lines) = (entry read c).shift (Entry.shift bytes lines) bytes lines := by
  have hkey : ∀ e : Element, (e.shift bytes lines).noting (keyProblem? e) =
      (e.noting (keyProblem? e)).shift bytes lines := fun e => (Element.relabel_noting e _).symm
  have hahead := (ha c).trans (Reaches.skipTrivia (read c).2 true)
  simp only [entry, hf c hc, shiftRead, keyProblem?_shift, hkey, Cursor.shift_skipTrivia]
  cases h : ((read c).2.skipTrivia true).rest with
  | nil => simp only [Cursor.shift_rest h, List.map_nil, Element.relabel_text, Item.shift, Entry.relabel]
  | cons t ts =>
    simp only [Cursor.shift_rest h, List.map_cons, Token.shift_kind, Cursor.shift_past, Cursor.shift_skipTrivia,
      Cursor.shift_kind?]
    split
    · have hinside := hahead.trans ((Reaches.past h).trans (Reaches.skipTrivia _ true))
      have hread := hf _ (hc.reaches hinside)
      split
      · simp only [Element.relabel_text, Item.shift, Entry.relabel]
      · simp only [Element.relabel_text, Item.shift, Entry.relabel]
      · simp only [Element.relabel_text, Item.shift, Entry.relabel]
      · simp only [hread, shiftRead, Item.shift, Entry.relabel]
    · simp only [Element.relabel_text, Item.shift, Entry.relabel]

/-- A list ends in its range. -/
theorem listing_stop_le {α : Type} {item : Cursor → Item α} (ha : ∀ c, Reaches c (item c).cursor) (g : Group)
    (awaiting : Bool) (c : Cursor) (hc : Fits s c) : (listing s g item awaiting c).stop ≤ s.stop := by
  fun_induction listing s g item awaiting c with
  | case1 awaiting c h => exact Nat.le_refl _
  | case2 awaiting c t ts h ahead _ hk =>
    refine hc.inside t ((Reaches.skipTrivia c true).rest_suffix.mem ?_)
    rw [h]
    exact List.mem_cons_self
  | case3 awaiting c t ts h ahead _ hk hk' ih => exact ih (hc.reaches (Reaches.past_skip h))
  | case4 awaiting c t ts h ahead _ hk hk' hk'' ih => exact ih (hc.reaches (Reaches.past_skip h))
  | case5 awaiting c t ts h ahead _ hk hk' hk'' read problem hlt ih =>
    exact ih (hc.reaches ((Reaches.skipTrivia c true).trans (ha _)))
  | case6 awaiting c t ts h ahead _ hk hk' hk'' read problem hlt => exact Nat.le_refl _

theorem tuple_shift (hs : Embeds bytes lines s s') (hf : Follows bytes lines s read read') (ha : Advances read)
    (t : Token) : Follows bytes lines s (tuple s read t) (tuple s' read' (t.shift bytes lines)) := by
  intro c hc
  have hl := listing_shift (Element.shift bytes lines) hs .tuple (elementItem_reaches ha) (elementItem_shift hf)
    true c hc
  have hi := hs.info ⟨t.span.start, (listing s .tuple (elementItem read) true c).stop⟩
    (listing_stop_le (elementItem_reaches ha) .tuple true c hc) t.line
    (listing s .tuple (elementItem read) true c).problem
  simp only [tuple, hl, Listing.shift, Listing.trailingComma, List.isEmpty_map, shiftRead, Element.relabel,
    relabelAll_eq_map]
  exact congrArg (fun i => (Element.tuple i _ _, _)) hi

theorem array_shift (hs : Embeds bytes lines s s') (hf : Follows bytes lines s read read') (ha : Advances read)
    (t : Token) : Follows bytes lines s (array s read t) (array s' read' (t.shift bytes lines)) := by
  intro c hc
  have hl := listing_shift (Element.shift bytes lines) hs .array (elementItem_reaches ha) (elementItem_shift hf)
    true c hc
  have hi := hs.info ⟨t.span.start, (listing s .array (elementItem read) true c).stop⟩
    (listing_stop_le (elementItem_reaches ha) .array true c hc) t.line
    (Problem.note (listing s .array (elementItem read) true c).problem
      (mixedKinds? (listing s .array (elementItem read) true c).items))
  simp only [array, hl, Listing.shift, mixedKinds?_relabel, shiftRead, Element.relabel, relabelAll_eq_map]
  exact congrArg (fun i => (Element.array i _, _)) hi

theorem json_shift (hs : Embeds bytes lines s s') (hf : Follows bytes lines s read read') (ha : Advances read)
    (t : Token) : Follows bytes lines s (json s read t) (json s' read' (t.shift bytes lines)) := by
  intro c hc
  have hl := listing_shift (Entry.shift bytes lines) hs .json (entry_reaches ha) (entry_shift hf ha) true c hc
  have hi := hs.info ⟨t.span.start, (listing s .json (entry read) true c).stop⟩
    (listing_stop_le (entry_reaches ha) .json true c hc) t.line (listing s .json (entry read) true c).problem
  simp only [json, hl, Listing.shift, shiftRead, Element.relabel, relabelEntries_eq_map]
  exact congrArg (fun i => (Element.json i _, _)) hi

end Parts

/-! ## Operands -/

section Operands

variable {s s' : Source}

theorem negative_shift (hs : Embeds bytes lines s s') {t : Token} (ht : t.span.stop ≤ s.stop) :
    Follows bytes lines s (negative s t) (negative s' (t.shift bytes lines)) := by
  intro c hc
  cases h : c.rest with
  | nil => simp only [negative, Cursor.shift_rest h, h, List.map_nil]; rfl
  | cons u us =>
    have hu : u.span.stop ≤ s.stop := hc.inside u (by rw [h]; exact List.mem_cons_self)
    have hstart : ((u.shift bytes lines).span.start = (t.shift bytes lines).span.stop) =
        (u.span.start = t.span.stop) := by
      simp only [Token.shift, Span.shift, Nat.add_right_cancel_iff]
    have hi := hs.info (t.span.merge u.span) (Nat.max_le.mpr ⟨ht, hu⟩) t.line (u.error.map Problem.lexical)
    simp only [negative, Cursor.shift_rest h, h, List.map_cons, Token.shift_kind, hstart, Cursor.shift_past,
      Token.shift_error, Token.shift_text]
    split
    · split
      · rw [← Span.merge_shift] at hi
        exact congrArg (fun i => (Element.leaf i _, _)) hi
      · rfl
    · rfl

theorem reference_shift (hs : Embeds bytes lines s s') {t : Token} (ht : t.span.stop ≤ s.stop) :
    Follows bytes lines s (reference s t) (reference s' (t.shift bytes lines)) := by
  intro c hc
  have hi : ∀ u ∈ c.rest, ∀ p, s'.info ((t.shift bytes lines).span.merge (u.shift bytes lines).span)
      (t.shift bytes lines).line p = (s.info (t.span.merge u.span) t.line p).shift bytes lines := by
    intro u hu p
    have hi := hs.info (t.span.merge u.span) (Nat.max_le.mpr ⟨ht, hc.inside u hu⟩) t.line p
    rw [← Span.merge_shift] at hi
    exact hi
  cases h : c.rest with
  | nil => simp only [reference, Cursor.shift_rest h, h, List.map_nil]; rfl
  | cons n ns =>
    have hn : n ∈ c.rest := by rw [h]; exact List.mem_cons_self
    have hpast : (c.shift bytes lines).past (n.shift bytes lines) (ns.map (Token.shift bytes lines)) = _ :=
      Cursor.shift_past c n ns
    cases ns with
    | nil =>
      rw [List.map_nil] at hpast
      simp only [reference, Cursor.shift_rest h, h, List.map_cons, List.map_nil, Token.shift_kind, Token.shift_text,
        hi n hn, hpast]
      split <;> rfl
    | cons u us =>
      have hu : u ∈ c.rest := by rw [h]; exact List.mem_cons_of_mem _ List.mem_cons_self
      rw [List.map_cons] at hpast
      simp only [reference, Cursor.shift_rest h, h, List.map_cons, Token.shift_kind, Token.shift_text, hi n hn, hi u hu,
        hpast, Cursor.shift_past]
      split
      · split <;> rfl
      · rfl

theorem leaf_shift (hs : Embeds bytes lines s s') : Follows bytes lines s (leaf s) (leaf s') := by
  intro c hc
  cases h : c.rest with
  | nil => simp only [leaf, Cursor.shift_rest h, h, List.map_nil, hs.missing hc]; rfl
  | cons t ts =>
    have ht : t.span.stop ≤ s.stop := hc.inside t (by rw [h]; exact List.mem_cons_self)
    have hpast := hc.reaches (Reaches.past h)
    simp only [leaf, Cursor.shift_rest h, h, List.map_cons, Token.shift_kind, Token.shift_text, Cursor.shift_past,
      hs.missing hc, reference_shift hs ht _ hpast, negative_shift hs ht _ hpast]
    split <;> rfl

theorem tooDeep_shift (hs : Embeds bytes lines s s') : Follows bytes lines s (tooDeep s) (tooDeep s') := by
  intro c hc
  have hstop := (hc.reaches (tooDeep_reaches s c)).lastStop_le
  have hi := hs.info ⟨c.position s, (tooDeep s c).2.lastStop⟩ hstop (c.line s) (some .tooDeep)
  have hskip : skipGroup 0 (c.shift bytes lines).lastStop (c.shift bytes lines).rest =
      (skipGroup 0 c.lastStop c.rest).shift bytes lines := skipGroup_shift 0 c.lastStop c.rest
  simp only [tooDeep, hskip, hs.position, hs.line]
  exact congrArg (fun i => (Element.leaf i _, _)) hi

end Operands

/-! ## Commands -/

section Commands

variable {s s' : Source} {read read' : Cursor → Element × Cursor}

/-- A command with the cursor after it, moved. -/
def shiftCommand (bytes lines : Nat) (r : Command × Cursor) : Command × Cursor :=
  (r.1.shift bytes lines, r.2.shift bytes lines)

theorem brokenCommand_shift (hs : Embeds bytes lines s s') (t : Token) (name : String) (p : Problem) {c : Cursor}
    (hc : Fits s c) :
    brokenCommand s' (t.shift bytes lines) name p (c.shift bytes lines) =
      shiftCommand bytes lines (brokenCommand s t name p c) := by
  have hstop := (hc.reaches (Reaches.skipLine c)).lastStop_le
  have hslice := hs.slice ⟨t.span.start, c.skipLine.lastStop⟩ hstop
  simp only [brokenCommand, Cursor.shift_skipLine]
  exact congrArg (fun text => (Command.bare ⟨name, t.line + lines, _, text, some p⟩, _)) hslice

theorem argument_shift (hf : Follows bytes lines s read read') {c : Cursor} (hc : Fits s c) :
    argument read' (c.shift bytes lines) =
      ((argument read c).1.map (Element.shift bytes lines), (argument read c).2.shift bytes lines) := by
  have hread := hf _ (hc.reaches (Reaches.skipComments c))
  simp only [argument, Cursor.shift_skipComments, Cursor.shift_kind?]
  split
  · rfl
  · rfl
  · simp only [hread, shiftRead, Option.map_some]

theorem lineEnd_shift (c : Cursor) :
    lineEnd (c.shift bytes lines) = ((lineEnd c).1, (lineEnd c).2.shift bytes lines) := by
  simp only [lineEnd, Cursor.shift_skipComments]
  cases h : c.skipComments.rest with
  | nil => simp only [Cursor.shift_rest h, List.map_nil]
  | cons t ts =>
    simp only [Cursor.shift_rest h, List.map_cons, Token.shift_kind, Token.shift_describe, Cursor.shift_skipLine]
    split <;> rfl

theorem Command.shift_make (h : Heading) (a : Option Element) :
    (Command.make h a).shift bytes lines =
      Command.make { h with span := h.span.shift bytes, line := h.line + lines }
        (a.map (Element.shift bytes lines)) := by
  cases a <;> rfl

theorem command_shift (hs : Embeds bytes lines s s') (hf : Follows bytes lines s read read') (ha : Advances read)
    (catalog : Catalog) (t : Token) {c : Cursor} (hc : Fits s c) :
    command catalog s' read' (t.shift bytes lines) (c.shift bytes lines) =
      shiftCommand bytes lines (command catalog s read t c) := by
  have hskip := hc.reaches (Reaches.skipComments c)
  simp only [command, Token.shift_kind, Token.shift_text, Token.shift_describe, Cursor.shift_skipComments]
  split
  · cases h : c.skipComments.rest with
    | nil => simp only [Cursor.shift_rest h, List.map_nil, brokenCommand_shift hs t _ _ hskip]
    | cons u us =>
      have hpast := hskip.reaches (Reaches.past h)
      simp only [Cursor.shift_rest h, List.map_cons, Token.shift_kind, Cursor.shift_past]
      split
      · split
        · have hlast := (hpast.reaches (argument_reaches ha _)).reaches (lineEnd_reaches _)
          have hslice := hs.slice
            ⟨t.span.start, (lineEnd (argument read (c.skipComments.past u us)).2).2.lastStop⟩ hlast.lastStop_le
          simp only [argument_shift hf hpast, lineEnd_shift, shiftCommand, Command.shift_make]
          exact congrArg (fun text => (Command.make ⟨t.text, t.line + lines, _, text, _⟩ _, _)) hslice
        · exact brokenCommand_shift hs t _ _ hpast
      · exact brokenCommand_shift hs t _ _ hskip
  · exact brokenCommand_shift hs t _ _ hc

theorem commands_shift (hs : Embeds bytes lines s s') (hf : Follows bytes lines s read read') (ha : Advances read)
    (catalog : Catalog) (c : Cursor) (hc : Fits s c) :
    commands catalog s' read' (c.shift bytes lines) =
      (commands catalog s read c).map (Command.shift bytes lines) := by
  fun_induction commands catalog s read c with
  | case1 c h =>
    rw [commands, Cursor.shift_skipBlank, Cursor.shift_rest h]
    rfl
  | case2 c t ts h found after hfound hfatal =>
    have hpast : Fits s (c.skipBlank.past t ts) := hc.reaches (Reaches.past_blank h)
    have hcommand := command_shift hs hf ha catalog t hpast
    rw [hfound] at hcommand
    rw [commands, Cursor.shift_skipBlank, Cursor.shift_rest h]
    simp only [List.map_cons, Cursor.shift_past, hcommand, shiftCommand, Command.relabel_hasFatal, hfatal, if_true,
      List.map_nil]
  | case3 c t ts h found after hfound hfatal hlt ih =>
    have hpast : Fits s (c.skipBlank.past t ts) := hc.reaches (Reaches.past_blank h)
    have hcommand := command_shift hs hf ha catalog t hpast
    have hafter := hpast.reaches (command_reaches catalog s ha t _)
    rw [hfound] at hcommand hafter
    rw [commands, Cursor.shift_skipBlank, Cursor.shift_rest h]
    simp only [List.map_cons, Cursor.shift_past, hcommand, shiftCommand, Command.relabel_hasFatal, hfatal,
      Cursor.shift_length, hlt, if_true, ih hafter]
    rfl
  | case4 c t ts h found after hfound hfatal hlt =>
    have hpast : Fits s (c.skipBlank.past t ts) := hc.reaches (Reaches.past_blank h)
    have hcommand := command_shift hs hf ha catalog t hpast
    rw [hfound] at hcommand
    rw [commands, Cursor.shift_skipBlank, Cursor.shift_rest h]
    simp only [List.map_cons, Cursor.shift_past, hcommand, shiftCommand, Command.relabel_hasFatal, hfatal,
      Cursor.shift_length, hlt, if_false, List.map_nil]
    rfl

end Commands

/-! ## Blocks and levels -/

section Levels

variable {s s' : Source}

theorem blockInside_shift (hs : Embeds bytes lines s s') {element : Source → Cursor → Element × Cursor}
    (hf : ∀ inner inner', Embeds bytes lines inner inner' → Follows bytes lines inner (element inner) (element inner'))
    (ha : ∀ inner, Advances (element inner)) (catalog : Catalog) {brace : Token} {inside : List Token} {stop : Nat}
    (hstop : stop ≤ s.stop)
    (hfits : Fits ⟨s.text, stop, lastLineOf brace.line inside⟩ ⟨inside, brace.span.stop⟩) :
    blockInside catalog s'.text element (brace.shift bytes lines) (inside.map (Token.shift bytes lines))
        (stop + bytes) =
      (blockInside catalog s.text element brace inside stop).map (Command.shift bytes lines) := by
  have hembeds : Embeds bytes lines ⟨s.text, stop, lastLineOf brace.line inside⟩
      ⟨s'.text, stop + bytes, lastLineOf (brace.line + lines) (inside.map (Token.shift bytes lines))⟩ :=
    ⟨rfl, lastLineOf_shift _ _, fun a b hb => hs.slice_eq a b (Nat.le_trans hb hstop)⟩
  exact commands_shift hembeds (hf _ _ hembeds) (ha _) catalog _ hfits

/-- The tokens between two braces lie in the range between them. -/
theorem Fits.inside_block {c : Cursor} {brace : Token} {ts inside rest : List Token} (hc : Fits s c)
    (h : c.rest = brace :: ts) (happend : ts = inside ++ rest) {text : List Char} {stop line : Nat}
    (hbrace : brace.span.stop ≤ stop) (hinside : ∀ t ∈ inside, t.span.stop ≤ stop) :
    Fits ⟨text, stop, line⟩ ⟨inside, brace.span.stop⟩ := by
  have hsorted := hc.sorted
  rw [h, List.pairwise_cons, happend] at hsorted
  refine ⟨hsorted.2.sublist (List.sublist_append_left _ _), fun t ht => hc.ordered t ?_, hinside, hbrace⟩
  rw [h, happend]
  exact List.mem_cons_of_mem _ (List.mem_append_left _ ht)

section Block

variable {element : Source → Cursor → Element × Cursor} {c : Cursor} {brace : Token} {ts inside : List Token}

theorem skipBlank_shift (h : c.skipBlank.rest = brace :: ts) :
    (c.shift bytes lines).skipBlank.rest = brace.shift bytes lines :: ts.map (Token.shift bytes lines) := by
  rw [Cursor.shift_skipBlank, Cursor.shift_rest h]
  rfl

theorem block_shift_unclosed (hs : Embeds bytes lines s s')
    (hf : ∀ inner inner', Embeds bytes lines inner inner' → Follows bytes lines inner (element inner) (element inner'))
    (ha : ∀ inner, Advances (element inner)) (catalog : Catalog) (t : Token) (hc : Fits s c)
    (h : c.skipBlank.rest = brace :: ts) (hclose : splitBlock 0 ts = (inside, none)) :
    block catalog s' element (t.shift bytes lines) (c.shift bytes lines) =
      shiftRead bytes lines (block catalog s element t c) := by
  have hblank := hc.reaches (Reaches.skipBlank c)
  have hin := splitBlock_unclosed hclose
  subst hin
  have hsplit := splitBlock_shift bytes lines 0 inside
  rw [hclose] at hsplit
  have hbound : ∀ u ∈ brace :: inside, u.span.stop ≤ s.stop := fun u hu => hblank.inside u (h ▸ hu)
  have hfits : Fits ⟨s.text, s.stop, lastLineOf brace.line inside⟩ ⟨inside, brace.span.stop⟩ :=
    hblank.inside_block h (List.append_nil _).symm (hbound _ List.mem_cons_self)
      fun u hu => hbound u (List.mem_cons_of_mem _ hu)
  have hi := hs.info ⟨t.span.start, s.stop⟩ (Nat.le_refl _) t.line (some (.unclosed .block))
  have hslice := hs.slice ⟨brace.span.stop, s.stop⟩ (Nat.le_refl _)
  have hread := blockInside_shift hs hf ha catalog (Nat.le_refl _) hfits
  have hlast := lastStopOf_shift bytes lines brace.span.stop inside
  rw [block_unclosed h hclose, block_unclosed (skipBlank_shift h) hsplit, hs.stop_eq]
  simp only [shiftRead, Element.relabel, relabelCommands_eq_map, ← hread, ← hslice]
  exact Prod.ext (congrArg (fun i => Element.block i _ _) hi) (congrArg (Cursor.mk []) hlast)

theorem block_shift_closed (hs : Embeds bytes lines s s')
    (hf : ∀ inner inner', Embeds bytes lines inner inner' → Follows bytes lines inner (element inner) (element inner'))
    (ha : ∀ inner, Advances (element inner)) (catalog : Catalog) (t : Token) (hc : Fits s c)
    (h : c.skipBlank.rest = brace :: ts) {u : Token} {us : List Token}
    (hclose : splitBlock 0 ts = (inside, some (u, us))) :
    block catalog s' element (t.shift bytes lines) (c.shift bytes lines) =
      shiftRead bytes lines (block catalog s element t c) := by
  have hblank := hc.reaches (Reaches.skipBlank c)
  have hsplit := splitBlock_shift bytes lines 0 ts
  rw [hclose] at hsplit
  have happend := splitBlock_closed hclose
  have hu : u ∈ c.skipBlank.rest := by simp [h, happend]
  have hbound : u.span.start ≤ s.stop := Nat.le_trans (hblank.ordered u hu) (hblank.inside u hu)
  have hsorted := hblank.sorted
  rw [h, happend, List.pairwise_cons] at hsorted
  have hinside : ∀ t ∈ inside, t.span.stop ≤ u.span.start := fun t ht =>
    (List.pairwise_append.mp hsorted.2).2.2 t ht u List.mem_cons_self
  have hfits : Fits ⟨s.text, u.span.start, lastLineOf brace.line inside⟩ ⟨inside, brace.span.stop⟩ :=
    hblank.inside_block h happend (hsorted.1 u (by simp)) hinside
  have hi := hs.info ⟨t.span.start, u.span.stop⟩ (hblank.inside u hu) t.line none
  have hslice := hs.slice ⟨brace.span.stop, u.span.start⟩ hbound
  have hread := blockInside_shift hs hf ha catalog hbound hfits
  rw [block_closed h hclose, block_closed (skipBlank_shift h) hsplit]
  simp only [shiftRead, Element.relabel, relabelCommands_eq_map, ← hread, ← hslice]
  exact congrArg (fun i => (Element.block i _ _, _)) hi

theorem block_shift (hs : Embeds bytes lines s s')
    (hf : ∀ inner inner', Embeds bytes lines inner inner' → Follows bytes lines inner (element inner) (element inner'))
    (ha : ∀ inner, Advances (element inner)) (catalog : Catalog) (t : Token) :
    Follows bytes lines s (block catalog s element t) (block catalog s' element (t.shift bytes lines)) := by
  intro c hc
  cases h : c.skipBlank.rest with
  | nil =>
    rw [block_nil h, block_nil (by rw [Cursor.shift_skipBlank, Cursor.shift_rest h]; rfl), hs.missing hc]
    rfl
  | cons brace ts =>
    rcases hclose : splitBlock 0 ts with ⟨inside, _ | ⟨u, us⟩⟩
    · exact block_shift_unclosed hs hf ha catalog t hc h hclose
    · exact block_shift_closed hs hf ha catalog t hc h hclose

end Block

/-- **An operand that stands later is the same operand, only later.** -/
theorem operand_shift (catalog : Catalog) (levels : Nat) {s s' : Source} (hs : Embeds bytes lines s s')
    (multiline : Bool) :
    Follows bytes lines s (operand catalog levels s multiline) (operand catalog levels s' multiline) := by
  induction levels using Nat.strongRecOn generalizing s s' multiline with
  | ind levels ih =>
    intro c hc
    have hahead := hc.reaches (Reaches.skipTrivia c multiline)
    have hopens : opens? ((c.shift bytes lines).skipTrivia multiline).rest = opens? (c.skipTrivia multiline).rest := by
      rw [Cursor.shift_skipTrivia]
      exact opens?_shift _
    cases hg : opens? (c.skipTrivia multiline).rest with
    | none =>
      rw [operand_leaf hg, operand_leaf (hopens.trans hg), Cursor.shift_skipTrivia]
      exact leaf_shift hs _ hahead
    | some g =>
      cases levels with
      | zero =>
        rw [operand_tooDeep hg, operand_tooDeep (hopens.trans hg), Cursor.shift_skipTrivia]
        exact tooDeep_shift hs _ hahead
      | succ below =>
        cases h : (c.skipTrivia multiline).rest with
        | nil => rw [h] at hg; cases hg
        | cons t ts =>
          have h' : ((c.shift bytes lines).skipTrivia multiline).rest =
              t.shift bytes lines :: ts.map (Token.shift bytes lines) := by
            rw [Cursor.shift_skipTrivia, Cursor.shift_rest h]
            rfl
          have hpast := hahead.reaches (Reaches.past h)
          have hreach := fun inner m => operand_reaches catalog below inner m
          have ha := chain_reaches s true (hreach s true)
          have hf := chain_shift hs (ih below (Nat.lt_succ_self _) hs true) (hreach s true) true
          rw [h] at hg hopens
          rw [h', hg] at hopens
          rw [operand_container h hg, operand_container h' hopens, Cursor.shift_skipTrivia, Cursor.shift_past]
          cases g with
          | tuple => exact tuple_shift hs hf ha t _ hpast
          | array => exact array_shift hs hf ha t _ hpast
          | json => exact json_shift hs hf ha t _ hpast
          | block =>
            have hlines := fun inner inner' (hi : Embeds bytes lines inner inner') =>
              chain_shift hi (ih below (Nat.lt_succ_self _) hi false) (hreach inner false) false
            exact block_shift hs hlines (fun inner => chain_reaches inner false (hreach inner false)) catalog t _ hpast

end Levels

end UiScript.Reading
