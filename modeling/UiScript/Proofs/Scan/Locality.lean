import UiScript.Proofs.Element.Relabel
import UiScript.Proofs.Scan.Steps

/-!
# Scanning is local

A scan does not depend on where its text stands (`scanFrom_shift`), and a token does not depend on what follows the
character after it (`lexeme?_resume`). Hence a text between two braces has the same tokens in its place as it has alone
(`scanFrom_cut`), and it keeps them in any other place (`Closes`).
-/

namespace UiScript

open Text

variable {r : Reference} {c d : Char} {cs as bs ys : List Char} {x : Lexeme} {offset line : Nat}

/-! ## Moved tokens -/

/-- The token moved by a number of bytes and lines. -/
def Token.shift (bytes lines : Nat) (t : Token) : Token :=
  { t with span := t.span.shift bytes, line := t.line + lines }

@[simp] theorem Token.shift_kind (bytes lines : Nat) (t : Token) : (t.shift bytes lines).kind = t.kind := rfl

@[simp] theorem Token.shift_text (bytes lines : Nat) (t : Token) : (t.shift bytes lines).text = t.text := rfl

@[simp] theorem Token.shift_error (bytes lines : Nat) (t : Token) : (t.shift bytes lines).error = t.error := rfl

@[simp] theorem Token.shift_describe (bytes lines : Nat) (t : Token) :
    (t.shift bytes lines).describe = t.describe := rfl

/-- A text that starts later has the same tokens, only later. -/
theorem scanFrom_shift (bytes lines : Nat) : ∀ (cs : List Char) (offset line : Nat) (r : Reference) (taken : Nat),
    scanFrom (offset + bytes) (line + lines) r taken cs =
      (scanFrom offset line r taken cs).map (Token.shift bytes lines)
  | [], _, _, _, _ => by simp [scanFrom_nil]
  | c :: cs, offset, line, r, taken + 1 => by
    rw [scanFrom, scanFrom, ← scanFrom_shift bytes lines cs]
    congr 1 <;> omega
  | c :: cs, offset, line, r, 0 => by
    have h₁ : offset + bytes + c.utf8Size = offset + c.utf8Size + bytes := by omega
    have h₂ : line + lines + newlines [c] = line + newlines [c] + lines := by omega
    rw [scanFrom, scanFrom, h₁, h₂]
    split
    · rw [scanFrom_shift bytes lines cs]
    · rename_i x _
      rw [scanFrom_shift bytes lines cs, List.map_cons]
      congr 1
      simp only [Token.shift, Span.shift, Token.mk.injEq, Span.mk.injEq, true_and, and_true]
      omega

/-! ## What a token can see -/

/-- A character that ends every token before it but a string or a comment. -/
def isStop (d : Char) : Bool :=
  !isAlphanumeric d && !isNumberChar d && (hexValue? d).isNone && !(['_', '-', '/', '|', '=', '&'].contains d)

/-- The text is at its end, or goes on with the given character. -/
def Resumes (d : Char) (ys : List Char) : Prop := ys = [] ∨ ∃ bs, ys = d :: bs

theorem isStop_letter (h : isStop d = true) : isLetter d = false := by
  simp only [isStop, isAlphanumeric, Bool.and_eq_true, Bool.not_eq_true', Bool.or_eq_false_iff] at h
  exact h.1.1.1.1

theorem isStop_number (h : isStop d = true) : isNumberChar d = false := by
  simp only [isStop, Bool.and_eq_true, Bool.not_eq_true'] at h
  exact h.1.1.2

theorem isStop_hex (h : isStop d = true) : hexValue? d = none := by
  simp only [isStop, Bool.and_eq_true, Option.isNone_iff_eq_none] at h
  exact h.1.2

theorem isStop_ne (h : isStop d = true) {e : Char} (he : e ∈ ['_', '-', '/', '|', '=', '&']) : d ≠ e := by
  rintro rfl
  simp only [isStop, Bool.and_eq_true, Bool.not_eq_true', List.contains_eq_mem, decide_eq_false_iff_not] at h
  exact h.2 he

/-- A stop does not continue a name. -/
theorem wordLength_stop (h : isStop d = true) : wordLength (d :: bs) = 0 := by
  have ha : isAlphanumeric d = false := by
    simp only [isStop, Bool.and_eq_true, Bool.not_eq_true'] at h
    exact h.1.1.1
  have hu : d ≠ '_' := isStop_ne h (by decide)
  have hm : d ≠ '-' := isStop_ne h (by decide)
  rw [wordLength, if_neg]
  simp [ha, hu, hm]

theorem wordLength_resume (h : isStop d = true) (hy : Resumes d ys) :
    ∀ as : List Char, wordLength (as ++ ys) = wordLength as
  | [] => by
    rcases hy with rfl | ⟨bs, rfl⟩
    · rfl
    · exact wordLength_stop h
  | a :: as => by
    have ih := wordLength_resume h hy as
    rw [List.cons_append, wordLength, wordLength, ih]
    -- only a hyphen looks at the next character, and a stop is no letter
    have hhead : ((as ++ ys).head?.any isLetter) = as.head?.any isLetter := by
      cases as with
      | cons b as => rfl
      | nil =>
        rcases hy with rfl | ⟨bs, rfl⟩
        · rfl
        · simp [isStop_letter h]
    rw [hhead]

theorem takeWhile_resume {p : Char → Bool} (hy : Resumes d ys) : ∀ as : List Char,
    ((as ++ d :: bs).takeWhile p).length ≤ as.length → (as ++ ys).takeWhile p = (as ++ d :: bs).takeWhile p
  | [], h => by
    have hd : p d = false := by
      cases hp : p d with
      | false => rfl
      | true => rw [List.nil_append, List.takeWhile_cons, hp] at h; simp at h
    rcases hy with rfl | ⟨bs', rfl⟩
    · simp [hd]
    · simp [hd]
  | a :: as, h => by
    simp only [List.cons_append, List.takeWhile_cons] at h ⊢
    split
    · rename_i ha
      rw [if_pos ha, List.length_cons, List.length_cons] at h
      rw [takeWhile_resume hy as (by omega)]
    · rfl

theorem charOfHex?_eq_none {h₁ h₂ h₃ h₄ : Char}
    (h : hexValue? h₁ = none ∨ hexValue? h₂ = none ∨ hexValue? h₃ = none ∨ hexValue? h₄ = none) :
    charOfHex? h₁ h₂ h₃ h₄ = none := by
  unfold charOfHex?
  rcases h with h | h | h | h <;> rw [h] <;>
    cases hexValue? h₁ <;> cases hexValue? h₂ <;> cases hexValue? h₃ <;> rfl

/-- Four hexadecimal digits do not run over a stop. -/
theorem unescape?_stop (hd : isStop d = true) (quote : Char) {as : List Char} (h : as.length < 4) (bs : List Char) :
    unescape? quote ('u' :: as ++ d :: bs) = unescape? quote ('u' :: as) := by
  have hhex := isStop_hex hd
  rcases as with _ | ⟨b₁, _ | ⟨b₂, _ | ⟨b₃, _ | ⟨b₄, as⟩⟩⟩⟩
  · rcases bs with _ | ⟨c₁, _ | ⟨c₂, _ | ⟨c₃, bs⟩⟩⟩ <;> simp [unescape?, charOfHex?_eq_none, hhex]
  · rcases bs with _ | ⟨c₁, _ | ⟨c₂, bs⟩⟩ <;> simp [unescape?, charOfHex?_eq_none, hhex]
  · rcases bs with _ | ⟨c₁, bs⟩ <;> simp [unescape?, charOfHex?_eq_none, hhex]
  · simp [unescape?, charOfHex?_eq_none, hhex]
  · simp only [List.length_cons] at h
    omega

/-- An escape does not see beyond a stop. -/
theorem unescape?_resume (hd : isStop d = true) (hy : Resumes d ys) (quote a : Char) (as : List Char) :
    unescape? quote (a :: as ++ ys) = unescape? quote (a :: as) := by
  rcases hy with rfl | ⟨bs, rfl⟩
  · rw [List.append_nil]
  · by_cases ha : a = 'u'
    · subst ha
      by_cases hlen : as.length < 4
      · exact unescape?_stop hd quote hlen bs
      · obtain ⟨b₁, b₂, b₃, b₄, as, rfl⟩ : ∃ b₁ b₂ b₃ b₄ tail, as = b₁ :: b₂ :: b₃ :: b₄ :: tail := by
          rcases as with _ | ⟨b₁, _ | ⟨b₂, _ | ⟨b₃, _ | ⟨b₄, as⟩⟩⟩⟩
          all_goals first | exact ⟨_, _, _, _, _, rfl⟩ | exact absurd (by simp) hlen
        rfl
    · simp only [List.cons_append, unescape?, if_neg ha]

@[simp] theorem Text.Body.push_length (c : Char) (b : Body) : (b.push c).length = b.length + 1 := rfl

@[simp] theorem Text.Body.push_closed (c : Char) (b : Body) : (b.push c).closed = b.closed := rfl

/-- The character that a character of a string is read as, given what follows it, and how many of the characters after
it an escape takes. -/
def charRead (quote c : Char) (cs : List Char) : Char × Nat :=
  if c = '\\' then (unescape? quote cs).getD (c, 0) else (c, 0)

/-- One character of a string that does not close it. -/
theorem readBody_cons {quote : Char} (hc : c ≠ quote) (cs : List Char) :
    readBody quote 0 (c :: cs) = (readBody quote (charRead quote c cs).2 cs).push (charRead quote c cs).1 := by
  rw [readBody, if_neg hc, charRead]
  split
  · cases unescape? quote cs <;> rfl
  · rfl

theorem readBody_quote (quote : Char) (cs : List Char) : readBody quote 0 (quote :: cs) = ⟨[], 1, true⟩ := by
  rw [readBody, if_pos rfl]

theorem charRead_resume (hd : isStop d = true) (hy : Resumes d ys) (quote c a : Char) (as : List Char) :
    charRead quote c (a :: as ++ ys) = charRead quote c (a :: as) := by
  rw [charRead, charRead, unescape?_resume hd hy]

theorem readBody_length_pos (quote : Char) (taken : Nat) (c : Char) (cs : List Char) :
    0 < (readBody quote taken (c :: cs)).length := by
  cases taken with
  | succ taken => exact Nat.succ_pos _
  | zero =>
    by_cases hc : c = quote
    · rw [hc, readBody_quote]
      exact Nat.one_pos
    · rw [readBody_cons hc]
      exact Nat.succ_pos _

/-- A string that is closed before a stop is read without it. -/
theorem readBody_resume (hd : isStop d = true) (hy : Resumes d ys) (quote : Char) : ∀ (as : List Char) (taken : Nat),
    (readBody quote taken (as ++ d :: bs)).length ≤ as.length →
      readBody quote taken (as ++ ys) = readBody quote taken (as ++ d :: bs)
  | [], taken, h => by
    have hpos := readBody_length_pos quote taken d bs
    simp only [List.nil_append, List.length_nil] at h
    omega
  | a :: as, taken + 1, h => by
    simp only [List.cons_append, readBody, Body.past, List.length_cons] at h ⊢
    rw [readBody_resume hd hy quote as taken (by omega)]
  | a :: as, 0, h => by
    by_cases ha : a = quote
    · rw [ha, List.cons_append, List.cons_append, readBody_quote, readBody_quote]
    rw [List.cons_append, readBody_cons ha, Body.push_length, List.length_cons, Nat.add_le_add_iff_right] at h
    rw [List.cons_append, List.cons_append, readBody_cons ha, readBody_cons ha]
    cases as with
    | nil =>
      -- the string would go on with the stop
      have hpos := readBody_length_pos quote (charRead quote a ([] ++ d :: bs)).2 d bs
      exact absurd hpos (Nat.not_lt.mpr h)
    | cons b as =>
      rw [charRead_resume hd (Or.inr ⟨bs, rfl⟩)] at h ⊢
      rw [charRead_resume hd hy, readBody_resume hd hy quote (b :: as) _ h]

/-- A mark looks at one more character, and a stop is none that it looks for. -/
theorem markLexeme_stop (hd : isStop d = true) (c : Char) : markLexeme c (some d) = markLexeme c none := by
  have he : d ≠ '=' := isStop_ne hd (by decide)
  have ha : d ≠ '&' := isStop_ne hd (by decide)
  unfold markLexeme
  split <;> simp [he, ha]

theorem head?_resume (hy : Resumes d ys) (as : List Char) {e : Char} (he : d ≠ e) :
    (as ++ ys).head? = some e ↔ as.head? = some e := by
  cases as with
  | cons a as => rfl
  | nil =>
    rcases hy with rfl | ⟨bs, rfl⟩
    · rfl
    · simp [he]

theorem markLexeme_resume (hd : isStop d = true) (hy : Resumes d ys) (c : Char) (as : List Char) :
    markLexeme c (as ++ ys).head? = markLexeme c as.head? := by
  cases as with
  | cons a as => rfl
  | nil =>
    rcases hy with rfl | ⟨bs, rfl⟩
    · rfl
    · exact markLexeme_stop hd c

/-- **A token sees no further than the stop after it.** -/
theorem lexeme?_resume (hd : isStop d = true) (hy : Resumes d ys) (bs : List Char)
    (h : lexeme? r c (as ++ d :: bs) = some x) (hx : x.extra ≤ as.length) : lexeme? r c (as ++ ys) = some x := by
  have hd' : Resumes d (d :: bs) := Or.inr ⟨bs, rfl⟩
  have hhead : ∀ e, d ≠ e → ((as ++ d :: bs).head? = some e ↔ (as ++ ys).head? = some e) := fun e he =>
    (head?_resume hd' as he).trans (head?_resume hy as he).symm
  have hslash := hhead '/' (isStop_ne hd (by decide))
  have hbar := hhead '|' (isStop_ne hd (by decide))
  rw [lexeme?_eq_some_iff]
  cases lexes_of_eq_some h with
  | newline hc => exact .newline hc
  | comment hc hnext =>
    rw [← takeWhile_resume hy as hx]
    exact .comment hc (hslash.mp hnext)
  | string hc =>
    rw [stringLexeme, ← readBody_resume hd hy c as 0 hx]
    exact .string hc
  | number hc =>
    rw [numberLexeme, ← takeWhile_resume hy as hx]
    exact .number hc
  | word hc =>
    have hword : ∀ zs, Resumes d zs →
        (as ++ zs).take (wordLength (as ++ zs)) = as.take (wordLength as) ∧ wordLength (as ++ zs) = wordLength as := by
      intro zs hz
      rw [wordLength_resume hd hz, List.take_append_of_le_length (wordLength_le as)]
      exact ⟨rfl, rfl⟩
    rw [(hword _ hd').1, (hword _ hd').2, ← (hword ys hy).1, ← (hword ys hy).2]
    exact .word hc
  | or hc hnext hr => exact .or hc (hbar.mp hnext) hr
  | pipe hc hnext => exact .pipe hc fun h => hnext ⟨hbar.mpr h.1, h.2⟩
  | mark hc hnext =>
    rw [markLexeme_resume hd hd', ← markLexeme_resume hd hy]
    exact .mark hc fun h => hnext ⟨h.1, hslash.mpr h.2⟩

/-- A token that ends before a stop is cut off in the same way before the stop and anything after it. -/
theorem scanFrom_resume {w : List Char} (hd : isStop d = true) (h : lexeme? r c (w ++ as ++ d :: bs) = some x)
    (hx : x.extra = w.length) (hy : Resumes d ys) (offset line : Nat) :
    scanFrom offset line r 0 (c :: (w ++ as ++ ys)) = x.token offset line (c :: w) ::
      scanFrom (offset + width (c :: w)) (line + newlines (c :: w)) (r.next x.kind) 0 (as ++ ys) := by
  have hlex := lexeme?_resume hd hy bs h (by rw [List.length_append]; omega)
  rw [List.append_assoc] at hlex ⊢
  exact scanFrom_piece hlex hx

/-! ## A text between braces -/

/-- Whether a brace after a text is a token of its own, and the text before it is scanned as if it stood alone. -/
def Closes (r : Reference) (as : List Char) : Prop :=
  ∃ r', ∀ offset line bs, scanFrom offset line r 0 (as ++ '\x7d' :: bs) =
    scanFrom offset line r 0 as ++ scanFrom (offset + width as) (line + newlines as) r' 0 ('\x7d' :: bs)

theorem isStop_brace : isStop '\x7d' = true := by decide

theorem lexeme?_brace (r : Reference) (bs : List Char) :
    lexeme? r '\x7d' bs = some ⟨.closing .curly, 0, none⟩ :=
  (lexeme?_punctuation (by decide) r bs).1

theorem Closes.nil (r : Reference) : Closes r [] := ⟨r, fun _ _ _ => by simp [scanFrom_nil, newlines]⟩

theorem Closes.blank (h : lexeme? r c cs = none) (hcloses : Closes r as) : Closes r (c :: as) := by
  obtain ⟨r', hr'⟩ := hcloses
  refine ⟨r', fun offset line bs => ?_⟩
  rw [List.cons_append, scanFrom_blank (lexeme?_blank h _), scanFrom_blank (lexeme?_blank h as), hr', width_cons,
    newlines_cons c as, Nat.add_assoc, Nat.add_assoc]

theorem Closes.token {w : List Char} (h : lexeme? r c (w ++ as ++ '\x7d' :: bs) = some x) (hx : x.extra = w.length)
    (hcloses : Closes (r.next x.kind) as) : Closes r (c :: (w ++ as)) := by
  obtain ⟨r', hr'⟩ := hcloses
  refine ⟨r', fun offset line bs' => ?_⟩
  have hend := scanFrom_resume isStop_brace h hx (Or.inl rfl) offset line
  rw [List.append_nil, List.append_nil] at hend
  have hcut := scanFrom_resume isStop_brace h hx (Or.inr ⟨bs', rfl⟩) offset line
  have hw : c :: (w ++ as) = c :: w ++ as := rfl
  rw [List.cons_append, hcut, hend, hr', hw, width_append, newlines_append, Nat.add_assoc, Nat.add_assoc,
    List.cons_append]

/-- **The tokens before a closing brace** are those of the text before it, here and in any other place. -/
theorem scanFrom_cut (offset line : Nat) (r : Reference) (cs : List Char) :
    ∀ ts₁ u ts₂, scanFrom offset line r 0 cs = ts₁ ++ u :: ts₂ → u.kind = .closing .curly →
      ∃ as bs, cs = as ++ '\x7d' :: bs ∧ ts₁ = scanFrom offset line r 0 as ∧ Closes r as ∧
        u.span = ⟨offset + width as, offset + width as + 1⟩ := by
  induction offset, line, r, cs using scanSteps with
  | nil offset line r =>
    intro ts₁ u ts₂ h
    rw [scanFrom_nil] at h
    cases ts₁ <;> cases h
  | blank offset line r c cs h ih =>
    intro ts₁ u ts₂ heq hu
    rw [scanFrom_blank h] at heq
    obtain ⟨as, bs, rfl, hts, hcloses, hspan⟩ := ih ts₁ u ts₂ heq hu
    refine ⟨c :: as, bs, rfl, ?_, hcloses.blank h, ?_⟩
    · rw [scanFrom_blank (lexeme?_blank h as)]
      exact hts
    · rw [hspan, width_cons, Nat.add_assoc]
  | token offset line r c cs x h ih =>
    intro ts₁ u ts₂ heq hu
    rw [scanFrom_token h] at heq
    cases ts₁ with
    | nil =>
      obtain ⟨rfl, -⟩ := List.cons.inj heq
      obtain ⟨rfl, rfl⟩ := lexeme?_of_punctuation (d := '\x7d') (by decide) h hu
      exact ⟨[], cs, rfl, (scanFrom_nil _ _ _ _).symm, Closes.nil r, rfl⟩
    | cons t ts₁ =>
      obtain ⟨rfl, hrest⟩ := List.cons.inj heq
      obtain ⟨as, bs, hcs, hts, hcloses, hspan⟩ := ih ts₁ u ts₂ hrest hu
      -- the token ends before the brace, so it is the same without what follows the brace
      have hlt : ¬ cs.length ≤ x.extra := fun hle => by simp [List.drop_eq_nil_of_le hle] at hcs
      have hlen : x.extra = (cs.take x.extra).length := (List.length_take_of_le (by omega)).symm
      have hsplit : cs = cs.take x.extra ++ as ++ '\x7d' :: bs := by
        rw [List.append_assoc, ← hcs, List.take_append_drop]
      clear ih hrest heq hcs hlt
      generalize cs.take x.extra = w at *
      subst hsplit
      have hend := scanFrom_resume isStop_brace h hlen (Or.inl rfl) offset line
      rw [List.append_nil, List.append_nil] at hend
      refine ⟨c :: (w ++ as), bs, rfl, ?_, hcloses.token h hlen, ?_⟩
      · rw [hend, hts]
      · rw [hspan, ← List.cons_append, width_append, Nat.add_assoc]

end UiScript
