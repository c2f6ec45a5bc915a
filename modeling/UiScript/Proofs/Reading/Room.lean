import Mathlib.Data.List.TakeWhile
import UiScript.Proofs.Element.Occurrence
import UiScript.Proofs.Reading.Nested

/-!
# Reading with more room

What is read from some tokens stays the same when further lines follow them and when containers may nest deeper, as long
as the reading came to its own end (`Complete`): no container was too deep, and none was left open where lines follow.
The further tokens have to begin with a line end, and no brace may come first in them, since the word `block` looks for
one beyond its line (`Outside`).

There is one lemma for each reader of elements, with the readers of parts as parameters (`Kept`): chains
(`chain_extend`), lists (`listing_extend`), the three containers made of them, and leaves (`leaf_extend`).
-/

namespace UiScript.Reading

/-! ## Further tokens -/

/-- The cursor with further tokens behind those that are ahead. -/
def Cursor.extend (c : Cursor) (more : List Token) : Cursor := ⟨c.rest ++ more, c.lastStop⟩

/-- Tokens that do not take part in what is read before them. -/
structure Outside (more : List Token) : Prop where
  lineEnds : LineEnds more
  brace : (more.find? (!·.kind.isTrivia)).any (·.kind == .opening .curly) = false

theorem outside_nil : Outside [] := ⟨fun _ ht => (by cases ht), rfl⟩

/-- Something is still ahead, if further tokens follow. -/
def Ahead (more : List Token) (c : Cursor) : Prop := more = [] ∨ ∃ t ∈ c.rest, t.kind.isTrivia = false

section Cursors

variable {more : List Token} {c c' : Cursor} {t : Token} {ts : List Token}

@[simp] theorem Cursor.extend_nil (c : Cursor) : c.extend [] = c := by
  simp only [Cursor.extend, List.append_nil]

@[simp] theorem Cursor.extend_past (c : Cursor) (t : Token) (ts : List Token) :
    (c.extend more).past t (ts ++ more) = (c.past t ts).extend more := rfl

theorem Cursor.extend_rest (h : c.rest = ts) : (c.extend more).rest = ts ++ more := by
  rw [← h]
  rfl

/-- What is first ahead stays first. -/
theorem Cursor.extend_head (hc : c' = c.extend more) (h : c.rest = t :: ts) : c'.rest = t :: (ts ++ more) := by
  rw [hc, Cursor.extend_rest h]
  rfl

theorem Cursor.extend_length_lt : (c'.extend more).rest.length < (c.extend more).rest.length ↔
    c'.rest.length < c.rest.length := by
  simp only [Cursor.extend, List.length_append]
  omega

theorem Ahead.of_reaches (h : Ahead more c') (hr : Reaches c c') : Ahead more c := by
  rcases h with h | ⟨t, ht, hk⟩
  · exact Or.inl h
  · exact Or.inr ⟨t, hr.rest_suffix.mem ht, hk⟩

theorem Ahead.of_head (h : c.rest = t :: ts) (hk : t.kind.isTrivia = false) : Ahead more c :=
  Or.inr ⟨t, by rw [h]; exact List.mem_cons_self, hk⟩

theorem Ahead.of_skip (h : (c.skipTrivia true).rest = t :: ts) : Ahead more (c.skipTrivia true) :=
  Ahead.of_head h (Cursor.skipTrivia_head h)

theorem Ahead.of_startsOperand (h : c.kind?.any TokenKind.startsOperand = true) : Ahead more c := by
  cases hrest : c.rest with
  | nil => simp [Cursor.kind?, hrest] at h
  | cons t ts =>
    have ht : t.kind.startsOperand = true := by simpa [Cursor.kind?, hrest] using h
    refine Ahead.of_head hrest ?_
    cases hk : t.kind with
    | newline | comment =>
      rw [hk] at ht
      cases ht
    | _ => rfl

theorem Ahead.kind? (h : Ahead more c) : (c.extend more).kind? = c.kind? := by
  rcases h with rfl | ⟨t, ht, -⟩
  · rw [Cursor.extend_nil]
  · cases hrest : c.rest with
    | nil =>
      rw [hrest] at ht
      cases ht
    | cons u us => simp only [Cursor.kind?, Cursor.extend_rest hrest, hrest, List.cons_append, List.head?_cons]

/-- Where nothing is ahead there are no further tokens. -/
theorem Ahead.eq_nil (h : Ahead more c) (hrest : c.rest = []) : more = [] := by
  rcases h with h | ⟨t, ht, -⟩
  · exact h
  · rw [hrest] at ht
    cases ht

/-- What is ahead is not skipped. -/
theorem Ahead.skip {p : TokenKind → Bool} (hp : ∀ k, p k = true → k.isTrivia = true) (h : Ahead more c) :
    Ahead more (c.skip p) := by
  refine h.imp_right fun ⟨t, ht, hk⟩ => ⟨t, ?_, hk⟩
  rw [← List.takeWhile_append_dropWhile (p := fun t : Token => p t.kind) (l := c.rest), List.mem_append] at ht
  rcases ht with ht | ht
  · rw [hp _ (List.mem_takeWhile_imp (p := fun t : Token => p t.kind) ht)] at hk
    cases hk
  · exact ht

theorem Ahead.skipTrivia (h : Ahead more c) (multiline : Bool) : Ahead more (c.skipTrivia multiline) :=
  h.skip (isTrivia_of_skipped multiline)

theorem Ahead.skipBlank (h : Ahead more c) : Ahead more c.skipBlank := h.skip fun _ hk => hk

/-- What is skipped does not reach the further tokens if something is ahead, or if they begin with what is kept. -/
theorem Cursor.extend_skip {p : TokenKind → Bool}
    (h : (∃ t ∈ c.rest, p t.kind = false) ∨ ∀ t ∈ more.head?, p t.kind = false) :
    (c.extend more).skip p = (c.skip p).extend more := by
  simp only [Cursor.skip, Cursor.extend, Cursor.mk.injEq, and_true, List.dropWhile_append]
  split
  · rename_i hempty
    rw [List.isEmpty_iff] at hempty
    rw [hempty, List.nil_append]
    rcases h with ⟨t, ht, hk⟩ | h
    · rw [List.dropWhile_eq_nil_iff] at hempty
      rw [hempty t ht] at hk
      cases hk
    · cases more with
      | nil => rfl
      | cons u us => rw [List.dropWhile_cons_of_neg (by simp [h u rfl])]
  · rfl

theorem Cursor.extend_skipComments (ho : Outside more) (c : Cursor) :
    (c.extend more).skipComments = c.skipComments.extend more := by
  refine Cursor.extend_skip (Or.inr fun t ht => ?_)
  rw [ho.lineEnds t ht]
  rfl

theorem Cursor.extend_skipBlank (h : Ahead more c) : (c.extend more).skipBlank = c.skipBlank.extend more := by
  rcases h with rfl | h
  · rw [Cursor.extend_nil, Cursor.extend_nil]
  · exact Cursor.extend_skip (Or.inl h)

theorem Cursor.skipBlank_of_head (h : c.rest = t :: ts) (hk : t.kind.isTrivia = false) : c.skipBlank = c := by
  have hrest : c.rest.dropWhile (·.kind.isTrivia) = c.rest := by
    rw [h, List.dropWhile_cons_of_neg (by simp [hk])]
  rw [Cursor.skipBlank, Cursor.skip, hrest]

theorem Cursor.extend_skipTrivia (ho : Outside more) {multiline : Bool} (h : multiline = true → Ahead more c) :
    (c.extend more).skipTrivia multiline = (c.skipTrivia multiline).extend more := by
  cases multiline with
  | true => rw [skipTrivia_true, skipTrivia_true, Cursor.extend_skipBlank (h rfl)]
  | false =>
    refine Cursor.extend_skip (Or.inr fun t ht => ?_)
    rw [ho.lineEnds t ht]
    rfl

theorem Cursor.extend_skipLine (ho : Outside more) (c : Cursor) :
    (c.extend more).skipLine = c.skipLine.extend more := by
  have hmore : more.dropWhile (·.kind != .newline) = more ∧ more.takeWhile (·.kind != .newline) = [] := by
    cases more with
    | nil => exact ⟨rfl, rfl⟩
    | cons u us => simp [ho.lineEnds u rfl]
  simp only [Cursor.skipLine, Cursor.extend, List.dropWhile_append, List.takeWhile_append, hmore.1, hmore.2,
    List.append_nil]
  congr 1
  · split
    · rename_i hempty
      rw [List.isEmpty_iff.mp hempty, List.nil_append]
    · rfl
  · split
    · rename_i hlength
      rw [(List.takeWhile_sublist _).eq_of_length hlength]
    · rfl

end Cursors

/-! ## Elements that came to their end -/

/-- The element was not too deep and, if further tokens follow, it was not left open. -/
structure Complete (more : List Token) (e : Element) : Prop where
  shallow : e.problem ≠ some .tooDeep
  closed : more = [] ∨ ∀ g, e.problem ≠ some (.unclosed g)

/-- A range of the same text, which goes on only if further tokens follow. -/
structure Widens (more : List Token) (s s' : Source) : Prop where
  text : s'.text = s.text
  same : more = [] → s' = s

/-- A reading result before further tokens. -/
def extendRead (more : List Token) (r : Element × Cursor) : Element × Cursor := (r.1, r.2.extend more)

/-- The second reader gives before further tokens what the first gives without them. -/
def Kept (more : List Token) (multiline : Bool) (read read' : Cursor → Element × Cursor) : Prop :=
  ∀ c, Ahead more c → (read c).1.Every true (Complete more) → (multiline = true → Ahead more (read c).2) →
    read' (c.extend more) = extendRead more (read c)

section Parts

variable {more : List Token} {multiline : Bool} {s s' : Source} {read read' : Cursor → Element × Cursor}

theorem Widens.info (hs : Widens more s s') (span : Span) (line : Nat) (p : Option Problem) :
    s'.info span line p = s.info span line p := by
  simp only [Source.info, hs.text]

theorem Widens.slice (hs : Widens more s s') (span : Span) : s'.slice span = s.slice span := by
  simp only [Source.slice, hs.text]

/-! ## Chains -/

/-- No operand starts in the further tokens. -/
theorem Cursor.extend_startsOperand (ho : Outside more) (c : Cursor) :
    (c.extend more).kind?.any TokenKind.startsOperand = c.kind?.any TokenKind.startsOperand := by
  cases h : c.rest with
  | cons t ts => simp only [Cursor.kind?, Cursor.extend_rest h, h, List.cons_append, List.head?_cons]
  | nil =>
    cases more with
    | nil => rw [Cursor.extend_nil]
    | cons u us => simp [Cursor.kind?, Cursor.extend_rest h, h, ho.lineEnds u rfl, TokenKind.startsOperand]

theorem skipOperator_extend (ho : Outside more) (op : Operator) {c : Cursor}
    (h : multiline = true → Ahead more (skipOperator op multiline c).2) :
    skipOperator op multiline (c.extend more) =
      ((skipOperator op multiline c).1, (skipOperator op multiline c).2.extend more) := by
  cases hrest : c.rest with
  | nil =>
    cases more with
    | nil => rw [Cursor.extend_nil, Cursor.extend_nil]
    | cons u us => simp only [skipOperator, hrest, Cursor.extend_rest hrest, List.nil_append, ho.lineEnds u rfl]
  | cons t ts =>
    simp only [skipOperator, hrest, Cursor.extend_rest hrest, List.cons_append] at h ⊢
    split
    · rename_i next hnext
      rw [hnext] at h
      rw [Cursor.extend_past, Cursor.extend_skipTrivia ho fun hm => (h hm).of_reaches (Reaches.skipTrivia _ _)]
    · rfl

/-- The cursor before an operand, with further tokens. -/
theorem operatorAhead_extend (ho : Outside more) {c ahead : Cursor} {t : Token} {ts : List Token} {op : Operator}
    {doubled : Option Problem} (hahead :
      skipOperator op multiline (((c.skipTrivia multiline).past t ts).skipTrivia multiline) = (doubled, ahead))
    (h : multiline = true → Ahead more ahead) :
    skipOperator op multiline
        ((((c.skipTrivia multiline).extend more).past t (ts ++ more)).skipTrivia multiline) =
      (doubled, ahead.extend more) := by
  have hreach := skipOperator_reaches op multiline (((c.skipTrivia multiline).past t ts).skipTrivia multiline)
  rw [hahead] at hreach
  have hskip := Reaches.skipTrivia ((c.skipTrivia multiline).past t ts) multiline
  rw [Cursor.extend_past, Cursor.extend_skipTrivia ho fun hm => (h hm).of_reaches (hskip.trans hreach),
    skipOperator_extend ho op (by rw [hahead]; exact h), hahead]

/-- The tail of a chain before further tokens. -/
def Tail.extend (t : Tail) (more : List Token) : Tail := ⟨t.parts, t.problem, t.cursor.extend more⟩

theorem chainTail_extend (ho : Outside more) (hread : Kept more multiline read read') (ha : Advances read)
    (c : Cursor) (hparts : ∀ e ∈ (chainTail multiline read c).parts, e.Every true (Complete more))
    (hafter : multiline = true → Ahead more (chainTail multiline read c).cursor) :
    chainTail multiline read' (c.extend more) = (chainTail multiline read c).extend more := by
  have hreaches := chainTail_reaches ha multiline c
  have hskip : (c.extend more).skipTrivia multiline = (c.skipTrivia multiline).extend more :=
    Cursor.extend_skipTrivia ho fun hm => (hafter hm).of_reaches hreaches
  fun_induction chainTail multiline read c with
  | case1 c h =>
    -- nothing is ahead, and the further tokens begin with a line end
    have hrest : ((c.extend more).skipTrivia multiline).rest = more := by
      rw [hskip, Cursor.extend_rest h, List.nil_append]
    cases hmore : more with
    | nil =>
      rw [← hmore, chainTail_nil (hrest.trans hmore), hskip]
      rfl
    | cons u us =>
      have hu : ∀ op, u.kind ≠ .operator op := by
        intro op
        rw [ho.lineEnds u (by rw [hmore]; rfl)]
        exact TokenKind.noConfusion
      rw [← hmore, chainTail_end (hrest.trans hmore) hu, hskip]
      rfl
  | case2 c t ts h op hop sign doubled ahead hahead hstarts right after hright hlt tail ih =>
    have hadvance := ha ahead
    rw [hright] at hadvance
    have htail := chainTail_reaches ha multiline after
    have hlater : multiline = true → Ahead more after := fun hm => (hafter hm).of_reaches htail
    have hright' := hread ahead (Ahead.of_startsOperand hstarts) (by rw [hright]; exact hparts right (by simp))
      (by rw [hright]; exact hlater)
    rw [hright] at hright'
    have hih := ih (fun e he => hparts e (List.mem_cons_of_mem _ (List.mem_cons_of_mem _ he))) hafter htail
      (Cursor.extend_skipTrivia ho hlater)
    rw [chainTail, hskip, Cursor.extend_rest h]
    simp only [List.cons_append, hop, operatorAhead_extend ho hahead fun hm => (hlater hm).of_reaches hadvance,
      Cursor.extend_startsOperand ho, hstarts, if_true, hright', extendRead, Cursor.extend_length_lt, hlt, hih]
    rfl
  | case3 c t ts h op hop sign doubled ahead hahead hstarts right after hright hlt =>
    have hadvance := ha ahead
    rw [hright] at hadvance
    exact absurd (Nat.lt_of_le_of_lt hadvance.length_le (operatorAhead_lt h hahead)) hlt
  | case4 c t ts h op hop sign doubled ahead hahead hstarts =>
    rw [chainTail, hskip, Cursor.extend_rest h]
    simp only [List.cons_append, hop, operatorAhead_extend ho hahead hafter, Cursor.extend_startsOperand ho, hstarts]
    rfl
  | case5 c t ts h hop =>
    rw [chainTail_end (Cursor.extend_head hskip h) hop, hskip]
    rfl

/-- **Chains**, with further tokens behind them. -/
theorem chain_extend (ho : Outside more) (hs : Widens more s s') (hread : Kept more multiline read read')
    (ha : Advances read) : Kept more multiline (chain s multiline read) (chain s' multiline read') := by
  intro c hc hevery hafter
  have htail := chainTail_reaches ha multiline (read c).2
  have hcursor : (chain s multiline read c).2 = (chainTail multiline read (read c).2).cursor := by
    simp only [chain]
    split <;> rfl
  rw [hcursor] at hafter
  have hall : (read c).1.Every true (Complete more) ∧
      ∀ e ∈ (chainTail multiline read (read c).2).parts, e.Every true (Complete more) := by
    simp only [chain] at hevery
    split at hevery
    · rename_i hempty
      rw [List.isEmpty_iff.mp hempty]
      exact ⟨hevery, by simp⟩
    · exact ⟨hevery.child (by simp [Element.children]), fun e he => hevery.child (by simp [Element.children, he])⟩
  have hfirst := hread c hc hall.1 fun hm => (hafter hm).of_reaches htail
  have hrest := chainTail_extend ho hread ha (read c).2 hall.2 hafter
  simp only [chain, hfirst, extendRead, hrest, Tail.extend, hs.info]
  split
  · rfl
  · rfl

/-! ## Lists -/

section Listing

variable {α : Type} {Done : α → Prop} {g : Group} {item item' : Cursor → Item α}

/-- An item before further tokens. -/
def Item.extend (i : Item α) (more : List Token) : Item α := ⟨i.value, i.problem, i.cursor.extend more⟩

/-- A list before further tokens. -/
def Listing.extend (l : Listing α) (more : List Token) : Listing α := { l with cursor := l.cursor.extend more }

/-- The second reader of items gives before further tokens what the first gives without them. The problem that an item
makes for its list is not fatal, and an item takes at least one token. -/
structure KeptItem (more : List Token) (Done : α → Prop) (item item' : Cursor → Item α) : Prop where
  kept : ∀ c, Ahead more c → Done (item c).value → Ahead more (item c).cursor →
    item' (c.extend more) = (item c).extend more
  mild : ∀ c, isFatalProblem (item c).problem = false
  consumes : ∀ c t ts, c.rest = t :: ts → t.kind.isTrivia = false → (item c).cursor.rest.length < c.rest.length

theorem note_mild {p q : Option Problem} (hp : isFatalProblem p = false) (hq : isFatalProblem q = false) :
    isFatalProblem (Problem.note p q) = false := by
  rw [isFatalProblem_note, hp, hq]
  rfl

/-- A list that is left open says so, whatever else is wrong with it. -/
theorem note_unclosed {p : Option Problem} (hp : isFatalProblem p = false) :
    Problem.note p (some (.unclosed g)) = some (.unclosed g) := by
  cases p with
  | none => rfl
  | some p =>
    have hfatal : p.isFatal = false := hp
    rw [Problem.note, if_pos (by rw [hfatal]; rfl)]

theorem closed_of_after {l : Listing α} {p : Option Problem} (hp : isFatalProblem p = false)
    (h : more = [] ∨ (l.after p).problem ≠ some (.unclosed g)) : more = [] ∨ l.problem ≠ some (.unclosed g) := by
  refine h.imp_right fun hne heq => hne ?_
  rw [Listing.after, heq]
  exact note_unclosed hp

/-- A list that is closed has something ahead. -/
theorem listing_ahead {awaiting : Bool} {c : Cursor}
    (h : more = [] ∨ (listing s g item awaiting c).problem ≠ some (.unclosed g)) : Ahead more c := by
  rcases h with h | h
  · exact Or.inl h
  · cases hrest : (c.skipTrivia true).rest with
    | nil =>
      rw [listing_nil hrest] at h
      exact absurd rfl h
    | cons t ts => exact (Ahead.of_skip hrest).of_reaches (Reaches.skipTrivia c true)

/-- **Lists**, with further tokens behind them. -/
theorem listing_extend (ho : Outside more) (hs : Widens more s s') (hitem : KeptItem more Done item item')
    (awaiting : Bool) (c : Cursor) (hitems : ∀ a ∈ (listing s g item awaiting c).items, Done a)
    (hclosed : more = [] ∨ (listing s g item awaiting c).problem ≠ some (.unclosed g)) :
    listing s' g item' awaiting (c.extend more) = (listing s g item awaiting c).extend more := by
  have hskip : (c.extend more).skipTrivia true = (c.skipTrivia true).extend more :=
    Cursor.extend_skipTrivia ho fun _ => listing_ahead hclosed
  fun_induction listing s g item awaiting c with
  | case1 awaiting c h =>
    rcases hclosed with rfl | hclosed
    · rw [Cursor.extend_nil, hs.same rfl, listing_nil h]
      simp [Listing.extend]
    · exact absurd rfl hclosed
  | case2 awaiting c t ts h ahead _ hk =>
    have h' := Cursor.extend_head hskip h
    rw [listing_cons h', if_pos hk, hskip, Cursor.extend_past]
    rfl
  | case3 awaiting c t ts h ahead _ hk hk' ih =>
    have h' := Cursor.extend_head hskip h
    have hmild : isFatalProblem (if awaiting then some (.strayInside t.describe g) else none) = false := by
      split <;> rfl
    have hclosed' := closed_of_after hmild hclosed
    rw [listing_cons h', if_neg hk, if_pos hk', hskip, Cursor.extend_past,
      ih hitems hclosed' (Cursor.extend_skipTrivia ho fun _ => listing_ahead hclosed')]
    rfl
  | case4 awaiting c t ts h ahead _ hk hk' hk'' ih =>
    have h' := Cursor.extend_head hskip h
    have hclosed' := closed_of_after rfl hclosed
    rw [listing_cons h', if_neg hk, if_neg hk', if_pos hk'', hskip, Cursor.extend_past,
      ih hitems hclosed' (Cursor.extend_skipTrivia ho fun _ => listing_ahead hclosed')]
    rfl
  | case5 awaiting c t ts h ahead _ hk hk' hk'' read problem hlt ih =>
    have h' := Cursor.extend_head hskip h
    have hmild : isFatalProblem problem = false := by
      apply note_mild _ (hitem.mild ahead)
      split <;> rfl
    have hclosed' := closed_of_after (l := Listing.cons _ _) hmild hclosed
    obtain ⟨hdone, hitems'⟩ := List.forall_mem_cons.mp hitems
    have hread := hitem.kept ahead (Ahead.of_skip h) hdone (listing_ahead hclosed')
    rw [listing_cons h', if_neg hk, if_neg hk', if_neg hk'', hskip, hread, Item.extend,
      if_pos (Cursor.extend_length_lt.mpr hlt),
      ih hitems' hclosed' (Cursor.extend_skipTrivia ho fun _ => listing_ahead hclosed')]
    rfl
  | case6 awaiting c t ts h ahead _ hk hk' hk'' read problem hlt =>
    have hlt' := hitem.consumes ahead t ts h (Cursor.skipTrivia_head h)
    exact absurd (Nat.lt_of_lt_of_le hlt' (Reaches.skipTrivia c true).length_le) hlt

end Listing

theorem elementItem_kept (hread : Kept more true read read') (hconsumes : Consumes true read) :
    KeptItem more (Element.Every true (Complete more)) (elementItem read) (elementItem read') := by
  refine ⟨?_, fun _ => rfl, ?_⟩
  · intro c hc hdone hafter
    simp only [elementItem, hread c hc hdone fun _ => hafter]
    rfl
  · intro c t ts h hk
    exact hconsumes.length_lt (by rw [skipTrivia_true, Cursor.skipBlank_of_head h hk]; exact h) hk

/-- A key as it was read, before a problem was noted on it. -/
theorem every_of_key {key : Element} (h : (key.noting (keyProblem? key)).Every true (Complete more)) :
    key.Every true (Complete more) := by
  refine h.of_noting ?_
  have hhere := h.here
  cases hp : key.problem with
  | none => exact ⟨by simp [hp], Or.inr (by simp [hp])⟩
  | some p =>
    -- a key that has a problem keeps it
    have hkey : (key.noting (keyProblem? key)).problem = key.problem := by
      simp [keyProblem?, hp]
    exact ⟨hkey ▸ hhere.shallow, hkey ▸ hhere.closed⟩

theorem entry_key (read : Cursor → Element × Cursor) (c : Cursor) :
    (read c).1.noting (keyProblem? (read c).1) ∈ (entry read c).value.parts := by
  simp only [entry]
  split
  · exact List.mem_cons_self
  · split
    · split <;> exact List.mem_cons_self
    · exact List.mem_cons_self

/-- An entry, with further tokens behind it. -/
theorem entry_extend (ho : Outside more) (hread : Kept more true read read') (ha : Advances read) {c : Cursor}
    (hc : Ahead more c) (hdone : ∀ x ∈ (entry read c).value.parts, x.Every true (Complete more))
    (hafter : Ahead more (entry read c).cursor) : entry read' (c.extend more) = (entry read c).extend more := by
  have hfirst := hread c hc (every_of_key (hdone _ (entry_key read c))) fun _ => hafter.of_reaches (entry_after ha c)
  have hskip : ((read c).2.extend more).skipTrivia true = ((read c).2.skipTrivia true).extend more :=
    Cursor.extend_skipTrivia ho fun _ => hafter.of_reaches (entry_after ha c)
  simp only [entry, hfirst, extendRead, hskip] at hdone hafter ⊢
  cases h : ((read c).2.skipTrivia true).rest with
  | nil =>
    simp only [h] at hafter
    obtain rfl := hafter.eq_nil h
    simp [Item.extend, h]
  | cons t ts =>
    simp only [Cursor.extend_rest h, h, List.cons_append, Cursor.extend_past] at hdone hafter ⊢
    split
    · rename_i ht
      simp only [if_pos ht] at hdone hafter
      generalize hinside : (((read c).2.skipTrivia true).past t ts).skipTrivia true = inside at hdone hafter ⊢
      have hahead : Ahead more inside := by
        split at hafter
        · exact hafter
        · exact hafter
        · exact hafter
        · exact hafter.of_reaches (ha inside)
      have hcolon : ((((read c).2.skipTrivia true).past t ts).extend more).skipTrivia true = inside.extend more := by
        rw [← hinside] at hahead ⊢
        exact Cursor.extend_skipTrivia ho fun _ => hahead.of_reaches (Reaches.skipTrivia _ true)
      simp only [hcolon, hahead.kind?]
      split
      · rfl
      · rfl
      · rfl
      · rename_i hne₁ hne₂ hk
        simp only [hk] at hdone hafter
        have hvalue := hread inside hahead (hdone _ (by simp [Entry.parts])) fun _ => hafter
        simp only [hvalue, extendRead, Item.extend]
    · rfl

theorem entry_mild (read : Cursor → Element × Cursor) (c : Cursor) : isFatalProblem (entry read c).problem = false := by
  simp only [entry]
  split
  · rfl
  · split
    · split <;> rfl
    · rfl

theorem entry_kept (ho : Outside more) (hread : Kept more true read read') (ha : Advances read)
    (hconsumes : Consumes true read) :
    KeptItem more (fun p => ∀ x ∈ p.parts, x.Every true (Complete more)) (entry read) (entry read') where
  kept _ hc hdone hafter := entry_extend ho hread ha hc hdone hafter
  mild := entry_mild read
  consumes c t ts h hk := by
    have hkey := hconsumes.length_lt (by rw [skipTrivia_true, Cursor.skipBlank_of_head h hk]; exact h) hk
    exact Nat.lt_of_le_of_lt (entry_after ha c).length_le hkey

/-- The second reader of a container gives before further tokens what the first gives without them. -/
def KeptInside (more : List Token) (read read' : Cursor → Element × Cursor) : Prop :=
  ∀ c, (read c).1.Every true (Complete more) → read' (c.extend more) = extendRead more (read c)

theorem tuple_extend (ho : Outside more) (hs : Widens more s s') (hread : Kept more true read read')
    (hconsumes : Consumes true read) (t : Token) : KeptInside more (tuple s read t) (tuple s' read' t) := by
  intro c h
  have hlist := listing_extend ho hs (elementItem_kept hread hconsumes) true c (fun e he => h.child he)
    (h.here.closed.imp_right fun hne => hne .tuple)
  simp only [tuple, hlist, Listing.extend, hs.info]
  rfl

theorem array_extend (ho : Outside more) (hs : Widens more s s') (hread : Kept more true read read')
    (hconsumes : Consumes true read) (t : Token) : KeptInside more (array s read t) (array s' read' t) := by
  intro c h
  have hclosed : more = [] ∨ (listing s .array (elementItem read) true c).problem ≠ some (.unclosed .array) := by
    refine h.here.closed.imp_right fun hne heq => hne .array ?_
    show Problem.note _ _ = _
    rw [heq]
    cases mixedKinds? (listing s .array (elementItem read) true c).items <;> rfl
  have hlist := listing_extend ho hs (elementItem_kept hread hconsumes) true c (fun e he => h.child he) hclosed
  simp only [array, hlist, Listing.extend, hs.info]
  rfl

theorem json_extend (ho : Outside more) (hs : Widens more s s') (hread : Kept more true read read') (ha : Advances read)
    (hconsumes : Consumes true read) (t : Token) : KeptInside more (json s read t) (json s' read' t) := by
  intro c h
  have hlist := listing_extend ho hs (entry_kept ho hread ha hconsumes) true c
    (fun p hp x hx => h.child (mem_children_json hp hx)) (h.here.closed.imp_right fun hne => hne .json)
  simp only [json, hlist, Listing.extend, hs.info]
  rfl

end Parts

/-! ## Operands -/

section Operands

variable {more : List Token} {s s' : Source} {c : Cursor} {t : Token} {ts : List Token}

theorem negative_extend (ho : Outside more) (hs : Widens more s s') (t : Token) (c : Cursor) :
    negative s' t (c.extend more) = extendRead more (negative s t c) := by
  cases h : c.rest with
  | nil =>
    cases more with
    | nil =>
      rw [Cursor.extend_nil, hs.same rfl, extendRead, Cursor.extend_nil]
    | cons u us =>
      simp only [negative, Cursor.extend_rest h, h, List.nil_append, ho.lineEnds u rfl]
      rfl
  | cons u us =>
    simp only [negative, Cursor.extend_rest h, h, List.cons_append, hs.info, Cursor.extend_past]
    split
    · split <;> rfl
    · rfl

theorem reference_extend (ho : Outside more) (hs : Widens more s s') (t : Token) (c : Cursor) :
    reference s' t (c.extend more) = extendRead more (reference s t c) := by
  cases hmore : more with
  | nil =>
    subst hmore
    rw [Cursor.extend_nil, hs.same rfl, extendRead, Cursor.extend_nil]
  | cons u us =>
    have hu : u.kind = .newline := ho.lineEnds u (by rw [hmore]; rfl)
    rcases h : c.rest with _ | ⟨n, _ | ⟨v, vs⟩⟩
    · simp only [reference, Cursor.extend_rest h, h, List.nil_append, isName, hu]
      rfl
    · simp only [reference, Cursor.extend_rest h, h, List.cons_append, List.nil_append, hs.info, hu]
      split <;> rfl
    · simp only [reference, Cursor.extend_rest h, h, List.cons_append, hs.info]
      split
      · split <;> rfl
      · rfl

theorem missing_extend (hs : Widens more s s') (h : c.rest = t :: ts) (p : Problem) :
    (c.extend more).missing s' p = c.missing s p := by
  simp only [Cursor.missing, Cursor.position, Cursor.line, Cursor.extend_rest h, h, List.cons_append, List.head?_cons,
    Option.map_some, Option.getD_some, hs.info]

theorem leaf_extend (ho : Outside more) (hs : Widens more s s') (h : c.rest = t :: ts) :
    leaf s' (c.extend more) = extendRead more (leaf s c) := by
  simp only [leaf, Cursor.extend_rest h, h, List.cons_append, missing_extend hs h, Cursor.extend_past,
    negative_extend ho hs, reference_extend ho hs]
  split <;> rfl

/-- What opens a container is not among the further tokens. -/
theorem opens?_extend (ho : Outside more) : opens? (t :: ts ++ more) = opens? (t :: ts) := by
  have hfind : ((ts ++ more).find? (!·.kind.isTrivia)).any (·.kind == .opening .curly) =
      (ts.find? (!·.kind.isTrivia)).any (·.kind == .opening .curly) := by
    rw [List.find?_append]
    cases ts.find? (!·.kind.isTrivia) with
    | none => exact ho.brace
    | some u => rfl
  simp only [List.cons_append, opens?, hfind]

theorem splitBlock_extend {u : Token} {inside us : List Token} (h : splitBlock 0 ts = (inside, some (u, us))) :
    splitBlock 0 (ts ++ more) = (inside, some (u, us ++ more)) := by
  rw [splitBlock_closed h, List.append_assoc, List.cons_append]
  exact splitBlock_of_balanced (splitBlock_closer h) (balanced_of_splitBlock h)

end Operands

end UiScript.Reading
