import Mathlib.Data.List.Basic
import Mathlib.Data.List.TakeWhile
import UiScript.Proofs.Coverage
import UiScript.Proofs.Element.Report

/-!
# Strings that are left open

A quote that is not closed takes the rest of the text into its string, so that string is the last token
(`endsOpen_scan`). Whatever reads that token has to say that the text ended inside it.

* **Elements** (`operand_surfaces`): an element whose reading reaches the end of such a text has a fatal problem. Either
  the string is one of its leaves, or a bracket that was opened before the string is not closed. One lemma per form,
  with the readers of the parts as parameters; the induction is on the levels.
* **Commands** (`command_surfaces`): so does a command, unless what stands after its argument is passed over. The string
  is then passed over with it, and the problem of the command is not fatal.
* **Scripts** (`parse_hasFatal_of_open`): this is the only way in which a script that ends inside a string is read
  without a fatal problem, and `parse_open_recoverable` is such a script.
-/

namespace UiScript

open Text

/-! ## The last token -/

/-- Whether the token is a string that the text ends in. -/
def Token.IsOpen (t : Token) : Prop :=
  ∃ value quote, t.kind = .string value quote ∧ t.error = some (.unclosedString quote)

/-- The last of the tokens is a string that is left open. -/
def EndsOpen (ts : List Token) : Prop := ∃ t, ts.getLast? = some t ∧ t.IsOpen

/-- An open string takes all characters that are left. -/
theorem readBody_open (quote : Char) : ∀ (as : List Char) (taken : Nat),
    (readBody quote taken as).closed = false → (readBody quote taken as).length = as.length
  | [], _, _ => by simp [readBody]
  | _ :: as, taken + 1, h => by
    have ih := readBody_open quote as taken (by simpa [readBody, Body.past] using h)
    simp only [readBody, Body.past, List.length_cons, ih]
  | a :: as, 0, h => by
    by_cases ha : a = quote
    · rw [ha, readBody_quote] at h
      cases h
    · rw [readBody_cons ha] at h ⊢
      rw [Body.push_length, List.length_cons, readBody_open quote as _ h]

section Scan

variable {r : Reference} {c quote : Char} {cs : List Char} {x : Lexeme}

/-- Only a quote starts a token that can be left open. -/
theorem lexeme?_open (h : lexeme? r c cs = some x) (hx : x.error = some (.unclosedString quote)) :
    x = stringLexeme c cs := by
  cases lexes_of_eq_some h with
  | string => rfl
  | number =>
    simp only [numberLexeme] at hx
    split at hx <;> cases hx
  | mark =>
    unfold markLexeme at hx
    split at hx <;> (try split at hx) <;> cases hx
  | newline | comment | word | or | pipe => cases hx

theorem stringLexeme_open (h : (stringLexeme c cs).error = some (.unclosedString quote)) :
    (stringLexeme c cs).error = some (.unclosedString c) ∧ (stringLexeme c cs).extra = cs.length := by
  simp only [stringLexeme] at h ⊢
  cases hclosed : (readBody c 0 cs).closed with
  | true =>
    rw [hclosed] at h
    cases h
  | false => exact ⟨by simp, readBody_open c cs 0 hclosed⟩

/-- **A string that is left open is the last token.** -/
theorem endsOpen_scan {t : Token} (ht : t ∈ scan cs) (herror : t.error = some (.unclosedString quote)) :
    EndsOpen (scan cs) := by
  rw [scan_eq] at ht ⊢
  obtain ⟨before, after, hsplit⟩ := List.append_of_mem ht
  obtain ⟨as, c, bs, r, x, -, hx, rfl, hafter⟩ := scanFrom_suffix _ _ _ _ before t after hsplit
  have hx' := lexeme?_open hx herror
  subst hx'
  obtain ⟨hopen, hextra⟩ := stringLexeme_open herror
  rw [hextra, List.drop_length, scanFrom_nil] at hafter
  rw [hsplit, hafter]
  exact ⟨_, List.getLast?_concat, _, c, rfl, hopen⟩

end Scan

namespace EndsOpen

variable {t : Token} {ts us : List Token}

theorem ne_nil (h : EndsOpen ts) : ts ≠ [] := by
  rintro rfl
  obtain ⟨t, ht, -⟩ := h
  cases ht

/-- What is still ahead ends in the same string. -/
theorem suffix (h : EndsOpen ts) (hs : us <:+ ts) (hne : us ≠ []) : EndsOpen us := by
  obtain ⟨t, ht, hopen⟩ := h
  obtain ⟨passed, rfl⟩ := hs
  rw [List.getLast?_append_of_ne_nil _ hne] at ht
  exact ⟨t, ht, hopen⟩

/-- Any other token can be passed over. -/
theorem tail (h : EndsOpen (t :: ts)) (ht : ∀ value quote, t.kind ≠ .string value quote) : EndsOpen ts := by
  refine h.suffix (List.suffix_cons t ts) ?_
  rintro rfl
  obtain ⟨u, hu, value, quote, hk, -⟩ := h
  cases hu
  exact ht value quote hk

/-- A string that is alone ahead is the open one. -/
theorem singleton (h : EndsOpen [t]) : t.IsOpen := by
  obtain ⟨u, hu, hopen⟩ := h
  cases hu
  exact hopen

theorem dropWhile (h : EndsOpen ts) {p : TokenKind → Bool} (hp : ∀ k, p k = true → k.isTrivia = true) :
    EndsOpen (ts.dropWhile (p ·.kind)) := by
  refine h.suffix (List.dropWhile_suffix _) ?_
  intro hnil
  obtain ⟨t, ht, value, quote, hk, -⟩ := h
  have htrivia := hp _ (List.dropWhile_eq_nil_iff.mp hnil t (List.mem_of_getLast? ht))
  rw [hk] at htrivia
  cases htrivia

/-! Cursors before an open string stay so over comments, line ends and operators. -/

section Cursors

open Reading

variable {c c' : Cursor} {u : Token}

theorem skipTrivia (h : EndsOpen c.rest) (multiline : Bool) : EndsOpen (c.skipTrivia multiline).rest :=
  h.dropWhile (isTrivia_of_skipped multiline)

theorem skipComments (h : EndsOpen c.rest) : EndsOpen c.skipComments.rest := by
  have hp : ∀ k : TokenKind, (k == .comment) = true → k.isTrivia = true := by
    intro k hk
    cases k <;> first | rfl | simp at hk
  exact h.dropWhile hp

theorem skipOperator (h : EndsOpen c.rest) (op : Operator) (multiline : Bool) :
    EndsOpen (skipOperator op multiline c).2.rest := by
  unfold Reading.skipOperator
  split
  · rename_i t ts hrest
    split
    · rename_i hk
      rw [hrest] at h
      exact skipTrivia (c := c.past t ts) (h.tail (by simp [hk])) multiline
    · exact h
  · exact h

/-- A reader that stops before the end stops before the open string. -/
theorem reaches (h : EndsOpen c.rest) (hreach : Reaches c c') (hne : c'.rest ≠ []) : EndsOpen c'.rest :=
  h.suffix hreach.rest_suffix hne

end Cursors

end EndsOpen

namespace Reading

/-! ## Elements -/

/-- An element that is read up to the end of a text has a fatal problem if the text ends inside a string. -/
def Surfaces (read : Cursor → Element × Cursor) : Prop :=
  ∀ c : Cursor, EndsOpen c.rest → (read c).2.rest = [] → (read c).1.hasFatal = true

section Parts

variable {read : Cursor → Element × Cursor}

/-- The operand after an operator stands before the open string too. -/
theorem endsOpen_operatorAhead {multiline : Bool} {c ahead : Cursor} {t : Token} {ts : List Token} {op : Operator}
    {doubled : Option Problem} (h : EndsOpen c.rest) (hrest : (c.skipTrivia multiline).rest = t :: ts)
    (hop : t.kind = .operator op)
    (hahead : skipOperator op multiline (((c.skipTrivia multiline).past t ts).skipTrivia multiline) =
      (doubled, ahead)) :
    EndsOpen ahead.rest := by
  have hskip := h.skipTrivia multiline
  rw [hrest] at hskip
  have hts : EndsOpen ((c.skipTrivia multiline).past t ts).rest := hskip.tail (by simp [hop])
  have hoperand := (hts.skipTrivia multiline).skipOperator op multiline
  rw [hahead] at hoperand
  exact hoperand

theorem chainTail_surfaces (ha : Advances read) (hread : Surfaces read) (multiline : Bool) (c : Cursor)
    (h : EndsOpen c.rest) (hend : (chainTail multiline read c).cursor.rest = []) :
    ∃ e ∈ (chainTail multiline read c).parts, e.hasFatal = true := by
  fun_induction chainTail multiline read c with
  | case1 c hrest => exact absurd hend (h.skipTrivia multiline).ne_nil
  | case2 c t ts hrest op hop sign doubled ahead hahead hstarts right after hright hlt tail ih =>
    have hopen := endsOpen_operatorAhead h hrest hop hahead
    have hfatal := hread ahead hopen
    have hreach := ha ahead
    rw [hright] at hfatal hreach
    by_cases hafter : after.rest = []
    · exact ⟨right, by simp, hfatal hafter⟩
    · obtain ⟨e, he, hefatal⟩ := ih (hopen.reaches hreach hafter) hend
      exact ⟨e, by simp [he, tail], hefatal⟩
  | case3 c t ts hrest op hop sign doubled ahead hahead hstarts right after hright hlt =>
    have hfatal := hread ahead (endsOpen_operatorAhead h hrest hop hahead)
    rw [hright] at hfatal
    exact ⟨right, by simp, hfatal hend⟩
  | case4 c t ts hrest op hop sign doubled ahead hahead hstarts =>
    exact absurd hend (endsOpen_operatorAhead h hrest hop hahead).ne_nil
  | case5 c t ts hrest hop => exact absurd hend (h.skipTrivia multiline).ne_nil

theorem chain_surfaces (s : Source) (multiline : Bool) (ha : Advances read) (hread : Surfaces read) :
    Surfaces (chain s multiline read) := by
  intro c h hend
  have htail : (chainTail multiline read (read c).2).cursor.rest = [] := by
    unfold chain at hend
    dsimp only at hend
    split at hend
    · exact hend
    · exact hend
  have hfatal : (read c).1.hasFatal = true ∨ ∃ e ∈ (chainTail multiline read (read c).2).parts, e.hasFatal = true := by
    by_cases hafter : (read c).2.rest = []
    · exact Or.inl (hread c h hafter)
    · exact Or.inr (chainTail_surfaces ha hread multiline _ (h.reaches (ha c) hafter) htail)
  unfold chain
  dsimp only
  split
  · rename_i hnone
    rcases hfatal with hfirst | ⟨e, he, -⟩
    · exact hfirst
    · rw [List.isEmpty_iff.mp hnone] at he
      cases he
  · rw [Element.hasFatal, anyFatal_eq_any, Bool.or_eq_true, List.any_eq_true]
    rcases hfatal with hfirst | ⟨e, he, hefatal⟩
    · exact Or.inr ⟨_, List.mem_cons_self, hfirst⟩
    · exact Or.inr ⟨e, List.mem_cons_of_mem _ he, hefatal⟩

/-- A list that is read up to the end is not closed, or one of its items holds the open string. -/
theorem listing_surfaces {α : Type} (s : Source) (g : Group) {item : Cursor → Item α} {fatal : α → Bool}
    (ha : ∀ c, Reaches c (item c).cursor)
    (hitem : ∀ c, EndsOpen c.rest → (item c).cursor.rest = [] → fatal (item c).value = true) (awaiting : Bool)
    (c : Cursor) (h : EndsOpen c.rest) (hend : (listing s g item awaiting c).cursor.rest = []) :
    isFatalProblem (listing s g item awaiting c).problem = true ∨
      ∃ a ∈ (listing s g item awaiting c).items, fatal a = true := by
  have hskipped : ∀ {c : Cursor} {t : Token} {ts : List Token}, EndsOpen c.rest → (c.skipTrivia true).rest = t :: ts →
      (∀ value quote, t.kind ≠ .string value quote) → EndsOpen ts := by
    intro c t ts h hrest ht
    have hskip := h.skipTrivia true
    rw [hrest] at hskip
    exact hskip.tail ht
  fun_induction listing s g item awaiting c with
  | case1 awaiting c hrest => exact Or.inl rfl
  | case2 awaiting c t ts hrest ahead _ hk => exact absurd hend (hskipped h hrest (by simp [hk])).ne_nil
  | case3 awaiting c t ts hrest ahead _ _ hk ih =>
    rw [Listing.after, isFatalProblem_note, Bool.or_eq_true]
    exact (ih (hskipped h hrest (by simp [hk])) hend).imp_left Or.inr
  | case4 awaiting c t ts hrest ahead _ _ _ hk ih =>
    have hstring : ∀ value quote, t.kind ≠ .string value quote := by
      intro value quote hstring
      rw [hstring] at hk
      simp [TokenKind.isCloser] at hk
    rw [Listing.after, isFatalProblem_note, Bool.or_eq_true]
    exact (ih (hskipped h hrest hstring) hend).imp_left Or.inr
  | case5 awaiting c t ts hrest ahead _ _ _ _ found problem _ ih =>
    have hopen := h.skipTrivia true
    by_cases hafter : found.cursor.rest = []
    · exact Or.inr ⟨found.value, List.mem_cons_self, hitem _ hopen hafter⟩
    · rw [Listing.after, isFatalProblem_note, Bool.or_eq_true]
      rcases ih (hopen.reaches (ha _) hafter) hend with hfatal | ⟨a, hmem, hfatal⟩
      · exact Or.inl (Or.inr hfatal)
      · exact Or.inr ⟨a, List.mem_cons_of_mem _ hmem, hfatal⟩
  | case6 awaiting c t ts hrest ahead _ _ _ _ found problem _ =>
    exact Or.inr ⟨found.value, List.mem_cons_self, hitem _ (h.skipTrivia true) hend⟩

/-- The string is in the key, or else behind the colon in the value. -/
theorem entry_surfaces (ha : Advances read) (hread : Surfaces read) (c : Cursor) (h : EndsOpen c.rest) :
    (entry read c).cursor.rest = [] → (entry read c).value.hasFatal = true := by
  by_cases hafter : (read c).2.rest = []
  · intro _
    have hvalue : (entry read c).value = .bare ((read c).1.noting (keyProblem? (read c).1)) := by
      simp [entry, Cursor.skipTrivia, Cursor.skip, hafter]
    rw [hvalue, Entry.hasFatal, Element.hasFatal_noting, hread c h hafter, Bool.true_or]
  · have hahead := (h.reaches (ha c) hafter).skipTrivia true
    unfold entry
    dsimp only
    split
    · rename_i hrest
      exact absurd hrest hahead.ne_nil
    · rename_i t ts hrest
      split
      · rename_i hcolon
        rw [hrest] at hahead
        have hinside := EndsOpen.skipTrivia (c := ((read c).2.skipTrivia true).past t ts)
          (hahead.tail (by simp [hcolon])) true
        split
        · exact fun hend => absurd hend hinside.ne_nil
        · exact fun hend => absurd hend hinside.ne_nil
        · exact fun hend => absurd hend hinside.ne_nil
        · intro hend
          rw [Entry.hasFatal, hread _ hinside hend, Bool.or_true]
      · exact fun hend => absurd hend hahead.ne_nil

theorem tuple_surfaces (s : Source) (ha : Advances read) (hread : Surfaces read) (t : Token) :
    Surfaces (tuple s read t) := by
  intro c h hend
  rw [tuple, Element.hasFatal, anyFatal_eq_any, Bool.or_eq_true, List.any_eq_true]
  exact listing_surfaces s .tuple (elementItem_reaches ha) hread true c h hend

theorem array_surfaces (s : Source) (ha : Advances read) (hread : Surfaces read) (t : Token) :
    Surfaces (array s read t) := by
  intro c h hend
  rw [array, Element.hasFatal, anyFatal_eq_any, Bool.or_eq_true, List.any_eq_true]
  refine (listing_surfaces s .array (elementItem_reaches ha) hread true c h hend).imp_left fun hfatal => ?_
  simp only [Source.info, isFatalProblem_note, hfatal, Bool.true_or]

theorem json_surfaces (s : Source) (ha : Advances read) (hread : Surfaces read) (t : Token) :
    Surfaces (json s read t) := by
  intro c h hend
  rw [json, Element.hasFatal, anyEntryFatal_eq_any, Bool.or_eq_true, List.any_eq_true]
  exact listing_surfaces s .json (entry_reaches ha) (entry_surfaces ha hread) true c h hend

end Parts

theorem negative_endsOpen (s : Source) (t : Token) {c : Cursor} (h : EndsOpen c.rest) :
    EndsOpen (negative s t c).2.rest := by
  unfold negative
  split
  · exact h
  · rename_i u us hrest
    rw [hrest] at h
    split
    · rename_i hk
      split
      · exact h.tail (by simp [hk])
      · rwa [hrest]
    · rwa [hrest]

theorem reference_endsOpen (s : Source) (t : Token) {c : Cursor} (h : EndsOpen c.rest) :
    EndsOpen (reference s t c).2.rest := by
  unfold reference
  split
  · exact h
  · rename_i n ns hrest
    rw [hrest] at h
    split
    · rename_i hname
      have hns : EndsOpen ns := h.tail (by rintro value quote hk; rw [hk] at hname; cases hname)
      dsimp only
      split
      · exact hns
      · split
        · rename_i hpipe
          exact hns.tail (by simp [hpipe])
        · exact hns
    · rwa [hrest]

/-- The string itself is the only leaf that takes the last token. -/
theorem leaf_surfaces (s : Source) : Surfaces (leaf s) := by
  intro c h hend
  cases hrest : c.rest with
  | nil => exact absurd hrest h.ne_nil
  | cons t ts =>
    rw [hrest] at h
    cases hk : t.kind with
    | string value quote =>
      simp only [leaf, hrest, hk] at hend ⊢
      have hts : ts = [] := hend
      subst hts
      obtain ⟨value, quote, -, herror⟩ := h.singleton
      simp [ofToken, tokenInfo, Element.hasFatal, herror, isFatalProblem, Problem.isFatal, LexicalError.isFatal]
    | newline | comment =>
      simp only [leaf, hrest, hk] at hend
      cases hend
    | pipe =>
      simp only [leaf, hrest, hk] at hend
      exact absurd hend (reference_endsOpen s t (c := c.past t ts) (h.tail (by simp [hk]))).ne_nil
    | operator op =>
      have hts : EndsOpen ts := h.tail (by simp [hk])
      cases op with
      | sub =>
        simp only [leaf, hrest, hk] at hend
        exact absurd hend (negative_endsOpen s t (c := c.past t ts) hts).ne_nil
      | _ =>
        simp only [leaf, hrest, hk] at hend
        exact absurd hend hts.ne_nil
    | _ =>
      simp only [leaf, hrest, hk] at hend
      exact absurd hend (h.tail (by simp [hk])).ne_nil

/-- A block that is closed ends before the open string, and one that is not is fatal. -/
theorem block_surfaces (catalog : Catalog) (s : Source) (element : Source → Cursor → Element × Cursor) {t : Token}
    {ts : List Token} (hopens : opens? (t :: ts) = some .block) {c : Cursor} (h : EndsOpen ts)
    (hend : (block catalog s element t (c.past t ts)).2.rest = []) :
    (block catalog s element t (c.past t ts)).1.hasFatal = true := by
  obtain ⟨brace, us, hbrace, hk⟩ := opens?_brace hopens c
  rcases hclose : splitBlock 0 us with ⟨inside, _ | ⟨u, after⟩⟩
  · rw [block_unclosed hbrace hclose]
    rfl
  · rw [block_closed hbrace hclose] at hend
    have hus : (brace :: (inside ++ u :: after)) <:+ ts := by
      rw [← splitBlock_closed hclose, ← hbrace]
      exact List.dropWhile_suffix _
    have hu : u :: after <:+ ts :=
      ((List.suffix_append inside (u :: after)).trans (List.suffix_cons _ _)).trans hus
    have hafter := (h.suffix hu (List.cons_ne_nil _ _)).tail (by simp [splitBlock_closer hclose])
    exact absurd hend hafter.ne_nil

theorem container_surfaces {catalog : Catalog} {levels : Nat} {s : Source}
    (h : Surfaces (operand catalog levels s true)) {g : Group} {t : Token} {ts : List Token}
    (hopens : opens? (t :: ts) = some g) {c : Cursor} (hopen : EndsOpen ts)
    (hend : (container catalog levels s g t (c.past t ts)).2.rest = []) :
    (container catalog levels s g t (c.past t ts)).1.hasFatal = true := by
  have ha := operand_reaches catalog levels s true
  have hinside := chain_surfaces s true ha h
  have hreaches := chain_reaches s true ha
  cases g with
  | tuple => exact tuple_surfaces s hreaches hinside t _ hopen hend
  | array => exact array_surfaces s hreaches hinside t _ hopen hend
  | json => exact json_surfaces s hreaches hinside t _ hopen hend
  | block => exact block_surfaces catalog s _ hopens hopen hend

/-- **An operand that is read up to the end of a text that ends inside a string has a fatal problem.** -/
theorem operand_surfaces (catalog : Catalog) (levels : Nat) (s : Source) (multiline : Bool) :
    Surfaces (operand catalog levels s multiline) := by
  induction levels using Nat.strongRecOn generalizing s multiline with
  | ind levels ih =>
    intro c h hend
    have hskip := h.skipTrivia multiline
    rcases operand_cases catalog levels s multiline c with ⟨-, heq⟩ | ⟨-, heq⟩ | ⟨below, g, t, ts, rfl, hrest, hg, heq⟩
    · rw [heq] at hend ⊢
      exact leaf_surfaces s _ hskip hend
    · rw [heq]
      rfl
    · rw [heq] at hend ⊢
      rw [hrest] at hskip
      have hstring : ∀ value quote, t.kind ≠ .string value quote := by
        intro value quote hk
        simp [opens?, hk] at hg
      exact container_surfaces (ih below (Nat.lt_succ_self _) s true) hg (hskip.tail hstring) hend

end Reading

/-! ## Commands -/

/-- Whether a command passes over something that stands after its argument. -/
def Command.passes (c : Command) : Bool :=
  match c.head.problem with
  | some (.afterArgument _) => true
  | _ => false

/-- A command that passes over something is fatal by its argument only. -/
theorem Command.hasFatal_of_passes {c : Command} (h : c.passes = true) :
    c.hasFatal = c.argument?.any Element.hasFatal := by
  have hproblem : isFatalProblem c.head.problem = false := by
    unfold Command.passes at h
    split at h
    · rename_i hp
      rw [hp]
      rfl
    · cases h
  cases c with
  | bare head => exact hproblem
  | given head a =>
    rw [Command.hasFatal, show isFatalProblem head.problem = false from hproblem, Bool.false_or]
    rfl

namespace Reading

section Commands

variable {read : Cursor → Element × Cursor} {c : Cursor}

theorem argument_surfaces (hread : Surfaces read) (h : EndsOpen c.rest) :
    (argument read c).2.rest = [] → (argument read c).1.any Element.hasFatal = true := by
  have hskip := h.skipComments
  unfold argument
  split
  · exact fun hend => absurd hend hskip.ne_nil
  · exact fun hend => absurd hend hskip.ne_nil
  · exact fun hend => hread _ hskip hend

/-- At the end of the line the open string is passed over. -/
theorem lineEnd_surfaces (h : EndsOpen c.rest) :
    (lineEnd c).2.rest = [] → ∃ found, (lineEnd c).1 = some (.afterArgument found) := by
  have hskip := h.skipComments
  unfold lineEnd
  split
  · rename_i hrest
    exact absurd hrest hskip.ne_nil
  · split
    · exact fun hend => absurd hend hskip.ne_nil
    · exact fun _ => ⟨_, rfl⟩

theorem brokenCommand_hasFatal (s : Source) (t : Token) (name : String) {problem : Problem}
    (h : problem.isFatal = true) (c : Cursor) : (brokenCommand s t name problem c).1.hasFatal = true := h

/-- **A command that is read up to the end of a text that ends inside a string** has a fatal problem or passes over
something after its argument. -/
theorem command_surfaces (catalog : Catalog) (s : Source) (ha : Advances read) (hread : Surfaces read) (t : Token)
    (h : EndsOpen c.rest) :
    (command catalog s read t c).2.rest = [] →
      (command catalog s read t c).1.hasFatal = true ∨ (command catalog s read t c).1.passes = true := by
  have hskip := h.skipComments
  unfold command
  split
  · split
    · exact fun _ => Or.inl (brokenCommand_hasFatal s t _ rfl _)
    · rename_i u us hrest
      split
      · rename_i hcolon
        dsimp only
        split
        · intro hend
          rw [hrest] at hskip
          have hopen : EndsOpen (c.skipComments.past u us).rest := hskip.tail (by simp [hcolon])
          by_cases hafter : (argument read (c.skipComments.past u us)).2.rest = []
          · obtain ⟨a, hargument, ha⟩ := (Option.any_eq_true _ _).mp (argument_surfaces hread hopen hafter)
            left
            rw [hargument, Command.make, Command.hasFatal, ha, Bool.or_true]
          · obtain ⟨found, hfound⟩ := lineEnd_surfaces (hopen.reaches (argument_reaches ha _) hafter) hend
            right
            rw [Command.passes, Command.head_make, hfound]
        · exact fun _ => Or.inl (brokenCommand_hasFatal s t _ rfl _)
      · exact fun _ => Or.inl (brokenCommand_hasFatal s t _ rfl _)
  · exact fun _ => Or.inl (brokenCommand_hasFatal s t _ rfl _)

theorem command_hasFatal_of_not_word (catalog : Catalog) (s : Source) {t : Token} (ht : t.kind ≠ .word) :
    (command catalog s read t c).1.hasFatal = true := by
  rw [command, if_neg ht]
  exact brokenCommand_hasFatal s t _ rfl _

end Commands

/-- **The last command of a text that ends inside a string** has a fatal problem or passes over something. -/
theorem commands_surface (catalog : Catalog) (s : Source) {read : Cursor → Element × Cursor} (ha : Advances read)
    (hread : Surfaces read) (c : Cursor) (h : EndsOpen c.rest) :
    ∃ last, (commands catalog s read c).getLast? = some last ∧ (last.hasFatal = true ∨ last.passes = true) := by
  induction hn : c.rest.length using Nat.strongRecOn generalizing c with
  | ind n ih =>
    have hblank : EndsOpen c.skipBlank.rest := h.dropWhile fun _ hk => hk
    cases hrest : c.skipBlank.rest with
    | nil => exact absurd hrest hblank.ne_nil
    | cons t ts =>
      rw [hrest] at hblank
      rw [commands_cons ha hrest]
      split
      · rename_i hfatal
        exact ⟨_, rfl, Or.inl hfatal⟩
      · rename_i hfatal
        have hword : t.kind = .word := Decidable.byContradiction fun ht =>
          hfatal (command_hasFatal_of_not_word catalog s ht)
        have hts : EndsOpen (Cursor.mk ts t.span.stop).rest := hblank.tail (by simp [hword])
        by_cases hafter : (command catalog s read t ⟨ts, t.span.stop⟩).2.rest = []
        · have hnone : commands catalog s read (command catalog s read t ⟨ts, t.span.stop⟩).2 = [] :=
            commands_nil (by simp [Cursor.skipBlank, Cursor.skip, hafter])
          rw [hnone]
          exact ⟨_, rfl, command_surfaces catalog s ha hread t hts hafter⟩
        · have hopen := hts.reaches (command_reaches catalog s ha t _) hafter
          obtain ⟨last, hlast, hcases⟩ := ih _ (hn ▸ command_lt ha hrest) _ hopen rfl
          exact ⟨last, by rw [List.getLast?_cons, hlast]; rfl, hcases⟩

end Reading

/-- The last command of a script that is read decides whether the script has a fatal problem. -/
theorem parse_hasFatal_last {catalog : Catalog} {text : String} {last : Command}
    (h : (Script.parse catalog text).commands.getLast? = some last) :
    (Script.parse catalog text).hasFatal = last.hasFatal := by
  rw [Script.hasFatal_eq_any]
  have hearlier := (Reading.parse_tiles catalog text).fatal_last
  obtain ⟨before, hbefore⟩ := List.getLast?_eq_some_iff.mp h
  rw [hbefore, List.dropLast_concat] at hearlier
  rw [hbefore, List.any_append, List.any_eq_false.mpr (by simpa using hearlier), Bool.false_or, List.any_cons,
    List.any_nil, Bool.or_false]

/-- **A script that ends inside a string is read without a fatal problem** exactly if its last command passes over
something after its argument, and that argument has no fatal problem. -/
theorem parse_hasFatal_of_open (catalog : Catalog) (text : String)
    (h : ∃ t ∈ scan text.toList, ∃ quote, t.error = some (.unclosedString quote)) :
    (Script.parse catalog text).hasFatal = true ↔
      ¬ ∃ last, (Script.parse catalog text).commands.getLast? = some last ∧ last.passes = true ∧
        last.argument?.any Element.hasFatal = false := by
  obtain ⟨t, ht, quote, herror⟩ := h
  have hreach := Reading.operand_reaches catalog maxNesting
  obtain ⟨last, hlast, hcases⟩ : ∃ last, (Script.parse catalog text).commands.getLast? = some last ∧
      (last.hasFatal = true ∨ last.passes = true) :=
    Reading.commands_surface catalog _ (Reading.chain_reaches _ false (hreach _ false))
      (Reading.chain_surfaces _ false (hreach _ false) (Reading.operand_surfaces catalog maxNesting _ false))
      ⟨scan text.toList, 0⟩ (endsOpen_scan ht herror)
  rw [parse_hasFatal_last hlast]
  constructor
  · rintro hfatal ⟨last', hlast', hpasses, hargument⟩
    rw [hlast] at hlast'
    cases hlast'
    rw [Command.hasFatal_of_passes hpasses, hargument] at hfatal
    cases hfatal
  · intro hnone
    rcases hcases with hfatal | hpasses
    · exact hfatal
    · rw [Command.hasFatal_of_passes hpasses]
      apply eq_true_of_ne_false
      intro hargument
      exact hnone ⟨last, hlast, hpasses, hargument⟩

set_option maxRecDepth 10000 in
/-- A string that is left open in a list is fatal, whatever stands after the argument of the command before it. -/
theorem parse_hasFatal_of_open_list :
    (∃ t ∈ scan "click: 1 2\ntype: [1, 'a]\nreload:".toList, ∃ quote, t.error = some (.unclosedString quote)) ∧
      (Script.parse .any "click: 1 2\ntype: [1, 'a]\nreload:").hasFatal = true := by
  have hopen : ∃ t ∈ scan "click: 1 2\ntype: [1, 'a]\nreload:".toList, t.error = some (.unclosedString '\'') := by
    decide +kernel
  obtain ⟨t, ht, herror⟩ := hopen
  refine ⟨⟨t, ht, _, herror⟩, (parse_hasFatal_of_open .any _ ⟨t, ht, _, herror⟩).mpr ?_⟩
  rintro ⟨last, hlast, hpasses, -⟩
  have hlist :
      (Script.parse .any "click: 1 2\ntype: [1, 'a]\nreload:").commands.getLast?.any Command.passes = false := by
    decide +kernel
  rw [hlast, Option.any_some, hpasses] at hlist
  cases hlist

set_option maxRecDepth 10000 in
/-- **An open string that is passed over is no fatal problem**: here it takes the next line with it. -/
theorem parse_open_recoverable :
    (∃ t ∈ scan "click: 1 \"a\nreload:".toList, t.error = some (.unclosedString '"')) ∧
      (Script.parse .any "click: 1 \"a\nreload:").hasFatal = false := by
  decide +kernel

end UiScript
