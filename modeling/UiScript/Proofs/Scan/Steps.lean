import UiScript.Element.Text
import UiScript.Token.Scan

/-!
# The scan, token by token

`scanFrom` goes through a text character by character. Seen from one token to the next it has three cases (`scanSteps`):
the text is at its end, a blank is passed over, or a token is cut off together with all of its characters.

`Lexes` says what starts a token, with one constructor for each sort of token; `lexeme?` computes it
(`lexeme?_eq_some_iff`).

* **Places** (`scanFrom_bounds`, `scanFrom_sorted`): the spans of the tokens are not empty, lie in the text, and follow
  each other.
* **Spelling** (`scanFrom_valid`): the text of a token is one that its kind allows, and only strings and numbers have
  mistakes.
* **Suffixes** (`scanFrom_suffix`): the tokens from one of them on are the scan of what the text still holds.
-/

namespace UiScript

open Text

variable {r : Reference} {c : Char} {cs : List Char} {x : Lexeme} {offset line : Nat}

/-! ## What starts a token -/

/-- The blanks beyond ASCII. -/
def wideBlanks : List Nat :=
  [0x85, 0xa0, 0x1680, 0x2000, 0x2001, 0x2002, 0x2003, 0x2004, 0x2005, 0x2006, 0x2007, 0x2008, 0x2009, 0x200a, 0x2028,
    0x2029, 0x202f, 0x205f, 0x3000]

theorem wideBlanks_not_alphabetic : ∀ n ∈ wideBlanks, inRanges alphabeticRanges n = false := by decide +kernel

theorem mem_wideBlanks (h : isBlank c = true) (hwide : ¬ c.toNat < 0x80) : c.toNat ∈ wideBlanks := by
  simp only [isBlank, if_neg hwide, Bool.or_eq_true, beq_iff_eq, Bool.and_eq_true, decide_eq_true_eq] at h
  simp only [wideBlanks, List.mem_cons, List.not_mem_nil, or_false]
  omega

/-- No letter is a blank. -/
theorem isBlank_of_isLetter (h : isLetter c = true) : isBlank c = false := by
  rw [Bool.eq_false_iff]
  intro hb
  by_cases hn : c.toNat < 0x80
  · simp only [isBlank, isLetter, if_pos hn, Bool.or_eq_true, beq_iff_eq, Bool.and_eq_true, decide_eq_true_eq] at h hb
    omega
  · have hwide := wideBlanks_not_alphabetic _ (mem_wideBlanks hb hn)
    simp only [isLetter, if_neg hn, hwide] at h
    cases h

theorem isDigit_of_isLetter (h : isLetter c = true) : isDigit c = false := by
  rw [Bool.eq_false_iff]
  intro hd
  simp only [isDigit, Bool.and_eq_true, decide_eq_true_eq] at hd
  simp only [isLetter, if_pos (show c.toNat < 0x80 by omega), Bool.or_eq_true, Bool.and_eq_true, decide_eq_true_eq] at h
  omega

/-- What starts a word. -/
theorem wordStart (h : (isLetter c || c == '_') = true) :
    c ≠ '\n' ∧ isBlank c = false ∧ c ≠ '/' ∧ ¬ (c = '"' ∨ c = '\'') ∧ isDigit c = false := by
  by_cases hl : isLetter c = true
  · refine ⟨?_, isBlank_of_isLetter hl, ?_, ?_, isDigit_of_isLetter hl⟩
    · rintro rfl; revert hl; decide
    · rintro rfl; revert hl; decide
    · rintro (rfl | rfl) <;> (revert hl; decide)
  · have hc : c = '_' := by simpa [hl] using h
    subst hc
    decide

/-- What starts a number. -/
theorem digitStart (h : isDigit c = true) : c ≠ '\n' ∧ isBlank c = false ∧ c ≠ '/' ∧ ¬ (c = '"' ∨ c = '\'') := by
  have hn : 0x30 ≤ c.toNat ∧ c.toNat ≤ 0x39 := by simpa [isDigit] using h
  refine ⟨?_, ?_, ?_, ?_⟩
  · rintro rfl; revert h; decide
  · rw [Bool.eq_false_iff]
    intro hb
    simp only [isBlank, if_pos (show c.toNat < 0x80 by omega), Bool.or_eq_true, beq_iff_eq, Bool.and_eq_true,
      decide_eq_true_eq] at hb
    omega
  · rintro rfl; revert h; decide
  · rintro (rfl | rfl) <;> (revert h; decide)

/-- Whether a character starts a mark: it is no blank, and starts no string, number, name or reference. -/
def isMark (c : Char) : Bool :=
  !isBlank c && !(['"', '\'', '_', '|'].contains c) && !isDigit c && !isLetter c

/-- The token that starts with a character, one sort of tokens after the other. A blank starts none. -/
inductive Lexes (r : Reference) (c : Char) (cs : List Char) : Lexeme → Prop where
  | newline (hc : c = '\n') : Lexes r c cs ⟨.newline, 0, none⟩
  | comment (hc : c = '/') (hnext : cs.head? = some '/') :
      Lexes r c cs ⟨.comment, (cs.takeWhile (· != '\n')).length, none⟩
  | string (hc : c = '"' ∨ c = '\'') : Lexes r c cs (stringLexeme c cs)
  | number (hc : isDigit c = true) : Lexes r c cs (numberLexeme cs)
  | word (hc : (isLetter c || c == '_') = true) :
      Lexes r c cs ⟨wordKind (c :: cs.take (wordLength cs)), wordLength cs, none⟩
  | or (hc : c = '|') (hnext : cs.head? = some '|') (hr : r ≠ .named) : Lexes r c cs ⟨.operator .or, 1, none⟩
  | pipe (hc : c = '|') (hnext : ¬ (cs.head? = some '|' ∧ r ≠ .named)) : Lexes r c cs ⟨.pipe, 0, none⟩
  | mark (hc : isMark c = true) (hnext : ¬ (c = '/' ∧ cs.head? = some '/')) : Lexes r c cs (markLexeme c cs.head?)

/-- A token is of the first sort that its character starts. -/
theorem lexes_of_eq_some (h : lexeme? r c cs = some x) : Lexes r c cs x := by
  unfold lexeme? at h
  split at h
  · rename_i hc
    cases h
    exact .newline hc
  split at h
  · cases h
  rename_i hblank
  split at h
  · rename_i hcomment
    cases h
    exact .comment hcomment.1 hcomment.2
  rename_i hcomment
  split at h
  · rename_i hquote
    cases h
    exact .string hquote
  rename_i hquote
  split at h
  · rename_i hdigit
    cases h
    exact .number hdigit
  rename_i hdigit
  split at h
  · rename_i hword
    cases h
    exact .word hword
  rename_i hword
  split at h
  · rename_i hbar
    split at h
    · rename_i hor
      cases h
      exact .or hbar hor.1 hor.2
    · rename_i hpipe
      cases h
      exact .pipe hbar hpipe
  · rename_i hbar
    cases h
    exact .mark (by simp_all [isMark]) hcomment

/-- **The token that starts with a character**, by its sort. -/
theorem lexeme?_eq_some_iff : lexeme? r c cs = some x ↔ Lexes r c cs x := by
  refine ⟨lexes_of_eq_some, fun h => ?_⟩
  cases h with
  | newline hc => simp [lexeme?, hc]
  | comment hc hnext => simp [lexeme?, hc, hnext, isBlank]
  | string hc => rcases hc with rfl | rfl <;> simp [lexeme?, isBlank]
  | number hc =>
    obtain ⟨hnewline, hblank, hslash, hquote⟩ := digitStart hc
    simp [lexeme?, hnewline, hblank, hslash, hquote, hc]
  | word hc =>
    obtain ⟨hnewline, hblank, hslash, hquote, hdigit⟩ := wordStart hc
    simp [lexeme?, hnewline, hblank, hslash, hquote, hdigit, hc]
  | or hc hnext hr => simp [lexeme?, hc, hnext, hr, isBlank, isDigit, isLetter]
  | pipe hc hnext => simp [lexeme?, hc, hnext, isBlank, isDigit, isLetter]
  | mark hc hnext =>
    have hnewline : c ≠ '\n' := by rintro rfl; cases hc
    simp only [isMark, Bool.and_eq_true, Bool.not_eq_true', List.contains_eq_mem, decide_eq_false_iff_not, List.mem_cons,
      not_or, List.not_mem_nil, not_false_eq_true, and_true] at hc
    obtain ⟨⟨⟨hblank, hquote, hquote', hunderscore, hbar⟩, hdigit⟩, hletter⟩ := hc
    simp [lexeme?, hnewline, hblank, hnext, hquote, hquote', hunderscore, hbar, hdigit, hletter]

/-- Only blanks other than line ends start no token. -/
theorem lexeme?_eq_none_iff : lexeme? r c cs = none ↔ c ≠ '\n' ∧ isBlank c = true := by
  unfold lexeme?
  split
  · rename_i hc
    exact ⟨fun h => (by cases h), fun h => absurd hc h.1⟩
  · rename_i hc
    split
    · rename_i hb
      exact ⟨fun _ => ⟨hc, hb⟩, fun _ => rfl⟩
    · rename_i hb
      refine ⟨fun h => ?_, fun h => absurd h.2 hb⟩
      repeat' split at h
      all_goals cases h

/-- A blank starts no token, whatever follows it. -/
theorem lexeme?_blank (h : lexeme? r c cs = none) (cs' : List Char) : lexeme? r c cs' = none :=
  lexeme?_eq_none_iff.mpr (lexeme?_eq_none_iff.mp h)

/-- The brackets, the comma and the colon. -/
def punctuation : List Char := ['(', ')', '[', ']', '\x7b', '\x7d', ',', ':']

theorem lexeme?_punctuation (h : c ∈ punctuation) (r : Reference) (cs : List Char) :
    lexeme? r c cs = some ⟨(markLexeme c none).kind, 0, none⟩ ∧
      ∀ r : Reference, r.next (markLexeme c none).kind = .outside := by
  simp only [punctuation, List.mem_cons, List.not_mem_nil, or_false] at h
  rcases h with rfl | rfl | rfl | rfl | rfl | rfl | rfl | rfl <;>
    exact ⟨lexeme?_eq_some_iff.mpr (.mark (by decide) (by simp)), fun _ => rfl⟩

theorem wordKind_cases (w : List Char) : wordKind w = .word ∨ ∃ b, wordKind w = .boolean b := by
  unfold wordKind
  split
  · exact Or.inr ⟨true, rfl⟩
  · split
    · exact Or.inr ⟨false, rfl⟩
    · exact Or.inl rfl

/-- The kind of a mark of punctuation says which character it is. -/
theorem markLexeme_of_punctuation {d : Char} (hd : d ∈ punctuation) (following : Option Char)
    (hx : (markLexeme c following).kind = (markLexeme d none).kind) :
    c = d ∧ markLexeme c following = ⟨(markLexeme d none).kind, 0, none⟩ := by
  simp only [punctuation, List.mem_cons, List.not_mem_nil, or_false] at hd
  rw [markLexeme.eq_def] at hx
  split at hx <;> (try split at hx) <;> rcases hd with rfl | rfl | rfl | rfl | rfl | rfl | rfl | rfl <;>
    first | exact ⟨rfl, rfl⟩ | cases hx

theorem lexeme?_of_punctuation {d : Char} (hd : d ∈ punctuation) (h : lexeme? r c cs = some x)
    (hx : x.kind = (markLexeme d none).kind) : c = d ∧ x = ⟨(markLexeme d none).kind, 0, none⟩ := by
  cases lexes_of_eq_some h with
  | mark => exact markLexeme_of_punctuation hd cs.head? hx
  | word =>
    simp only [punctuation, List.mem_cons, List.not_mem_nil, or_false] at hd
    rcases wordKind_cases (c :: cs.take (wordLength cs)) with hk | ⟨b, hk⟩ <;> rw [hk] at hx <;>
      rcases hd with rfl | rfl | rfl | rfl | rfl | rfl | rfl | rfl <;> cases hx
  | newline | comment | string | number | or | pipe =>
    simp only [punctuation, List.mem_cons, List.not_mem_nil, or_false] at hd
    rcases hd with rfl | rfl | rfl | rfl | rfl | rfl | rfl | rfl <;> cases hx

/-! ## One step -/

theorem newlines_cons (c : Char) (cs : List Char) : newlines (c :: cs) = newlines [c] + newlines cs := by
  simp [newlines]

/-- The characters of the last token are passed over. -/
theorem scanFrom_taken (r : Reference) : ∀ (cs : List Char) (taken offset line : Nat),
    scanFrom offset line r taken cs =
      scanFrom (offset + width (cs.take taken)) (line + newlines (cs.take taken)) r 0 (cs.drop taken)
  | [], _, _, _ => by simp [scanFrom]
  | _ :: _, 0, _, _ => by simp [newlines]
  | c :: cs, taken + 1, offset, line => by
    rw [scanFrom, scanFrom_taken r cs taken]
    simp only [List.take_succ_cons, List.drop_succ_cons, width_cons, newlines_cons c (cs.take taken), Nat.add_assoc]

/-- The token of a lexeme that has the characters `w` and stands at the given place. -/
def Lexeme.token (x : Lexeme) (offset line : Nat) (w : List Char) : Token :=
  ⟨x.kind, ⟨offset, offset + width w⟩, line, String.ofList w, x.error⟩

theorem scanFrom_nil (offset line : Nat) (r : Reference) (taken : Nat) : scanFrom offset line r taken [] = [] := by
  cases taken <;> rfl

theorem scanFrom_blank (h : lexeme? r c cs = none) :
    scanFrom offset line r 0 (c :: cs) = scanFrom (offset + c.utf8Size) (line + newlines [c]) r 0 cs := by
  rw [scanFrom, h]

theorem scanFrom_token (h : lexeme? r c cs = some x) :
    scanFrom offset line r 0 (c :: cs) =
      x.token offset line (c :: cs.take x.extra) ::
        scanFrom (offset + width (c :: cs.take x.extra)) (line + newlines (c :: cs.take x.extra)) (r.next x.kind) 0
          (cs.drop x.extra) := by
  rw [scanFrom, h]
  simp only [Lexeme.token]
  rw [scanFrom_taken, width_cons, newlines_cons c (cs.take x.extra), Nat.add_assoc, Nat.add_assoc]

/-- A token whose characters are known. -/
theorem scanFrom_piece {w rest : List Char} (h : lexeme? r c (w ++ rest) = some x) (hx : x.extra = w.length) :
    scanFrom offset line r 0 (c :: (w ++ rest)) = x.token offset line (c :: w) ::
      scanFrom (offset + width (c :: w)) (line + newlines (c :: w)) (r.next x.kind) 0 rest := by
  rw [scanFrom_token h, hx, List.take_left, List.drop_left]

/-- Induction along a scan. -/
@[elab_as_elim]
theorem scanSteps {motive : Nat → Nat → Reference → List Char → Prop}
    (nil : ∀ offset line r, motive offset line r [])
    (blank : ∀ offset line r c cs, lexeme? r c cs = none →
      motive (offset + c.utf8Size) (line + newlines [c]) r cs → motive offset line r (c :: cs))
    (token : ∀ offset line r c cs x, lexeme? r c cs = some x →
      motive (offset + width (c :: cs.take x.extra)) (line + newlines (c :: cs.take x.extra)) (r.next x.kind)
        (cs.drop x.extra) → motive offset line r (c :: cs))
    (offset line : Nat) (r : Reference) (cs : List Char) : motive offset line r cs := by
  induction h : cs.length using Nat.strongRecOn generalizing offset line r cs with
  | ind n ih =>
    cases cs with
    | nil => exact nil offset line r
    | cons c cs =>
      cases hx : lexeme? r c cs with
      | none => exact blank offset line r c cs hx (ih cs.length (by simp at h; omega) _ _ _ _ rfl)
      | some x =>
        have hlt : (cs.drop x.extra).length < n := by
          simp only [List.length_drop, List.length_cons] at h ⊢
          omega
        exact token offset line r c cs x hx (ih _ hlt _ _ _ _ rfl)

theorem slice_all (cs : List Char) : slice cs 0 (width cs) = cs := by
  have h := slice?_append [] cs []
  simp only [List.nil_append, List.append_nil, width_nil, Nat.zero_add] at h
  rw [slice, h, Option.getD_some]

/-- The scan of a text starts at its first character and on line one. -/
theorem scan_eq (cs : List Char) : scan cs = scanFrom 0 1 .outside 0 cs := by
  rw [scan, scanRange, Nat.min_self, slice_all]

/-! ## Places -/

theorem width_take_add_drop (cs : List Char) (n : Nat) : width (cs.take n) + width (cs.drop n) = width cs := by
  rw [← width_append, List.take_append_drop]

/-- Every token has a span that is not empty and lies in the text. -/
theorem scanFrom_bounds (offset line : Nat) (r : Reference) (cs : List Char) :
    ∀ t ∈ scanFrom offset line r 0 cs,
      offset ≤ t.span.start ∧ t.span.start < t.span.stop ∧ t.span.stop ≤ offset + width cs := by
  induction offset, line, r, cs using scanSteps with
  | nil offset line r =>
    intro t ht
    rw [scanFrom_nil] at ht
    cases ht
  | blank offset line r c cs h ih =>
    intro t ht
    rw [scanFrom_blank h] at ht
    obtain ⟨h₁, h₂, h₃⟩ := ih t ht
    rw [width_cons]
    exact ⟨by omega, h₂, by omega⟩
  | token offset line r c cs x h ih =>
    intro t ht
    rw [scanFrom_token h] at ht
    have hpos : 0 < c.utf8Size := c.utf8Size_pos
    have hw := width_take_add_drop cs x.extra
    simp only [width_cons] at ih ⊢
    rcases List.mem_cons.mp ht with rfl | ht
    · simp only [Lexeme.token, width_cons]
      exact ⟨by omega, by omega, by omega⟩
    · rw [width_cons] at ht
      obtain ⟨h₁, h₂, h₃⟩ := ih t ht
      exact ⟨by omega, h₂, by omega⟩

/-- The tokens follow each other in the text. -/
theorem scanFrom_sorted (offset line : Nat) (r : Reference) (cs : List Char) :
    (scanFrom offset line r 0 cs).Pairwise fun t u => t.span.stop ≤ u.span.start := by
  induction offset, line, r, cs using scanSteps with
  | nil offset line r =>
    rw [scanFrom_nil]
    exact List.Pairwise.nil
  | blank offset line r c cs h ih =>
    rw [scanFrom_blank h]
    exact ih
  | token offset line r c cs x h ih =>
    rw [scanFrom_token h]
    exact List.pairwise_cons.mpr ⟨fun u hu => (scanFrom_bounds _ _ _ _ u hu).1, ih⟩

/-! ## Spelling -/

/-- The characters of a name: a letter or `_`, then what continues a name. -/
def IsWord (w : List Char) : Prop :=
  ∃ c tail, w = c :: tail ∧ (isLetter c || c == '_') = true ∧ wordLength tail = tail.length

/-- Whether a character can stand in a number. -/
def isNumberChar (c : Char) : Bool := isDigit c || c == '.'

/-- The characters of a number: a digit, then digits and points. -/
def IsNumber (w : List Char) : Prop := ∃ c tail, w = c :: tail ∧ isDigit c = true ∧ tail.all isNumberChar = true

/-- What the kind of a token says about its text and its mistake. -/
def Token.Valid (t : Token) : Prop :=
  match t.kind with
  | .string _ quote => quote = '"' ∨ quote = '\''
  | .number float =>
    IsNumber t.text.toList ∧ float = decide (0 < t.text.toList.count '.') ∧
      (t.error = none ↔ t.text.toList.count '.' ≤ 1)
  | .word => IsWord t.text.toList ∧ wordKind t.text.toList = .word ∧ t.error = none
  | .boolean b => t.text = boolText b ∧ t.error = none
  | _ => t.error = none

theorem wordLength_le : ∀ cs : List Char, wordLength cs ≤ cs.length
  | [] => Nat.le_refl _
  | c :: cs => by
    have ih := wordLength_le cs
    rw [wordLength]
    split <;> simp only [List.length_cons] <;> omega

/-- The characters that continue a name do so without what follows them. -/
theorem wordLength_take : ∀ cs : List Char, wordLength (cs.take (wordLength cs)) = wordLength cs
  | [] => rfl
  | c :: cs => by
    have ih := wordLength_take cs
    rw [wordLength]
    split
    · rename_i h
      rw [List.take_succ_cons, wordLength, ih, if_pos]
      simp only [Bool.or_eq_true, Bool.and_eq_true] at h ⊢
      rcases h with h | ⟨hc, hl⟩
      · exact Or.inl h
      · refine Or.inr ⟨hc, ?_⟩
        -- the letter after the hyphen continues the name itself, so it is kept
        cases cs with
        | nil => cases hl
        | cons d ds =>
          have hd : isLetter d = true := hl
          rw [wordLength, if_pos (by simp [isAlphanumeric, hd])]
          exact hd
    · rfl

theorem isWord_take (cs : List Char) (hc : (isLetter c || c == '_') = true) :
    IsWord (c :: cs.take (wordLength cs)) := by
  refine ⟨c, _, rfl, hc, ?_⟩
  rw [wordLength_take, List.length_take, Nat.min_eq_left (wordLength_le cs)]

theorem takeWhile_eq_take {p : Char → Bool} : ∀ cs : List Char, cs.take (cs.takeWhile p).length = cs.takeWhile p
  | [] => rfl
  | c :: cs => by
    rw [List.takeWhile_cons]
    split
    · rw [List.length_cons, List.take_succ_cons, takeWhile_eq_take cs]
    · rfl

theorem isDigit_ne_point (h : isDigit c = true) : c ≠ '.' := by
  rintro rfl
  revert h
  decide

theorem numberLexeme_valid (hc : isDigit c = true) :
    ((numberLexeme cs).token offset line (c :: cs.take (numberLexeme cs).extra)).Valid := by
  have hcount : ∀ w : List Char, (c :: w).count '.' = w.count '.' := fun w => by
    simp [isDigit_ne_point hc]
  have htake : cs.take (numberLexeme cs).extra = cs.takeWhile isNumberChar := takeWhile_eq_take cs
  simp only [Token.Valid, Lexeme.token, htake, String.toList_ofList, hcount]
  refine ⟨⟨c, _, rfl, hc, ?_⟩, rfl, ?_⟩
  · exact List.all_takeWhile
  · change (if 1 < (cs.takeWhile isNumberChar).count '.' then some LexicalError.extraPoint else none) = none ↔ _
    split
    · exact ⟨fun h => (by cases h), fun h => by omega⟩
    · exact ⟨fun _ => by omega, fun _ => rfl⟩

theorem wordLexeme_valid (hc : (isLetter c || c == '_') = true) :
    ((⟨wordKind (c :: cs.take (wordLength cs)), wordLength cs, none⟩ : Lexeme).token offset line
      (c :: cs.take (wordLength cs))).Valid := by
  simp only [Token.Valid, Lexeme.token, String.toList_ofList]
  have hword := isWord_take cs hc
  generalize c :: cs.take (wordLength cs) = w at hword ⊢
  by_cases ht : w = "true".toList
  · subst ht
    exact ⟨rfl, trivial⟩
  · by_cases hf : w = "false".toList
    · subst hf
      exact ⟨rfl, trivial⟩
    · have hk : wordKind w = .word := by rw [wordKind, if_neg ht, if_neg hf]
      rw [hk]
      exact ⟨hword, rfl, trivial⟩

theorem markLexeme_valid (following : Option Char) (w : List Char) :
    ((markLexeme c following).token offset line w).Valid := by
  unfold markLexeme
  split <;> (try split) <;> rfl

/-- The text of a token is one that its kind allows. -/
theorem lexeme?_valid (h : lexeme? r c cs = some x) : (x.token offset line (c :: cs.take x.extra)).Valid := by
  cases lexes_of_eq_some h with
  | string hquote => exact hquote
  | number hdigit => exact numberLexeme_valid hdigit
  | word hletter => exact wordLexeme_valid hletter
  | mark => exact markLexeme_valid _ _
  | newline | comment | or | pipe => rfl

theorem scanFrom_valid (offset line : Nat) (r : Reference) (cs : List Char) :
    ∀ t ∈ scanFrom offset line r 0 cs, t.Valid := by
  induction offset, line, r, cs using scanSteps with
  | nil offset line r =>
    intro t ht
    rw [scanFrom_nil] at ht
    cases ht
  | blank offset line r c cs h ih =>
    intro t ht
    rw [scanFrom_blank h] at ht
    exact ih t ht
  | token offset line r c cs x h ih =>
    intro t ht
    rw [scanFrom_token h] at ht
    rcases List.mem_cons.mp ht with rfl | ht
    · exact lexeme?_valid h
    · exact ih t ht

/-- Only strings and numbers have mistakes. -/
theorem Token.Valid.error_eq_none {t : Token} (h : t.Valid) (hs : ∀ v q, t.kind ≠ .string v q)
    (hn : ∀ f, t.kind ≠ .number f) : t.error = none := by
  unfold Token.Valid at h
  cases hk : t.kind with
  | string v q => exact absurd hk (hs v q)
  | number f => exact absurd hk (hn f)
  | word => rw [hk] at h; exact h.2.2
  | boolean b => rw [hk] at h; exact h.2
  | opening | closing | comma | colon | pipe | operator | newline | comment | unknown => rw [hk] at h; exact h

/-! ## Suffixes -/

/-- The tokens from a token on are the scan of the text from the start of that token on. -/
theorem scanFrom_suffix (offset line : Nat) (r : Reference) (cs : List Char) :
    ∀ ts₁ u ts₂, scanFrom offset line r 0 cs = ts₁ ++ u :: ts₂ →
      ∃ as c bs r' x, cs = as ++ c :: bs ∧ lexeme? r' c bs = some x ∧
        u = x.token (offset + width as) (line + newlines as) (c :: bs.take x.extra) ∧
        ts₂ = scanFrom u.span.stop (u.line + newlines u.text.toList) (r'.next u.kind) 0 (bs.drop x.extra) := by
  induction offset, line, r, cs using scanSteps with
  | nil offset line r =>
    intro ts₁ u ts₂ h
    rw [scanFrom_nil] at h
    cases ts₁ <;> cases h
  | blank offset line r c cs h ih =>
    intro ts₁ u ts₂ heq
    rw [scanFrom_blank h] at heq
    obtain ⟨as, d, bs, r', x, rfl, hx, hu, hts⟩ := ih ts₁ u ts₂ heq
    refine ⟨c :: as, d, bs, r', x, rfl, hx, ?_, hts⟩
    rw [hu, width_cons, newlines_cons c as, Nat.add_assoc, Nat.add_assoc]
  | token offset line r c cs x h ih =>
    intro ts₁ u ts₂ heq
    rw [scanFrom_token h] at heq
    cases ts₁ with
    | nil =>
      obtain ⟨rfl, rfl⟩ := List.cons.inj heq
      exact ⟨[], c, cs, r, x, rfl, h, by simp [newlines], by simp [Lexeme.token]⟩
    | cons t ts₁ =>
      obtain ⟨-, heq⟩ := List.cons.inj heq
      obtain ⟨as, d, bs, r', y, hcs, hy, hu, hts⟩ := ih ts₁ u ts₂ heq
      refine ⟨c :: (cs.take x.extra ++ as), d, bs, r', y, ?_, hy, ?_, hts⟩
      · rw [List.cons_append, List.append_assoc, ← hcs, List.take_append_drop]
      · rw [hu, ← List.cons_append, width_append, newlines_append, Nat.add_assoc, Nat.add_assoc]

end UiScript
