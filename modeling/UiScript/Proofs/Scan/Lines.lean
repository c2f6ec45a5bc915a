import UiScript.Proofs.Scan.Locality

/-!
# Scanning line by line

A line end is a token of its own unless it stands in a string, and it ends every token before it. So a text whose
strings are all closed has the same tokens alone as it has before a line end, and what follows that line end is scanned
as a text of its own (`scanFrom_line`, `scan_line`). From one token to the next the lines never decrease, and after a
line end they increase (`scanFrom_lines`).
-/

namespace UiScript

open Text

variable {r : Reference} {c d : Char} {cs as bs : List Char} {x : Lexeme} {offset line : Nat}

/-! ## Strings that are closed -/

theorem readBody_length_le (quote : Char) : ∀ (as : List Char) (taken : Nat),
    (readBody quote taken as).length ≤ as.length
  | [], _ => by simp [readBody]
  | _ :: as, taken + 1 => by
    have ih := readBody_length_le quote as taken
    simp only [readBody, Body.past, List.length_cons]
    omega
  | a :: as, 0 => by
    by_cases ha : a = quote
    · rw [ha, readBody_quote, List.length_cons]
      exact Nat.succ_pos _
    · have ih := readBody_length_le quote as (charRead quote a as).2
      rw [readBody_cons ha, Body.push_length, List.length_cons]
      exact Nat.succ_le_succ ih

/-- A string that is closed before a stop does not see it. -/
theorem readBody_closed (hd : isStop d = true) (quote : Char) : ∀ (as : List Char) (taken : Nat),
    (readBody quote taken as).closed = true → readBody quote taken (as ++ d :: bs) = readBody quote taken as
  | [], _, h => by simp [readBody] at h
  | a :: as, taken + 1, h => by
    simp only [List.cons_append, readBody] at h ⊢
    rw [readBody_closed hd quote as taken h]
  | a :: as, 0, h => by
    by_cases ha : a = quote
    · rw [ha, List.cons_append, readBody_quote, readBody_quote]
    rw [readBody_cons ha] at h
    rw [List.cons_append, readBody_cons ha, readBody_cons ha]
    cases as with
    | nil =>
      -- at the end of the text the string is still open
      simp [readBody] at h
    | cons b as =>
      rw [charRead_resume hd (Or.inr ⟨bs, rfl⟩), readBody_closed hd quote (b :: as) _ h]

/-! ## Tokens before a line end -/

theorem isStop_newline : isStop '\n' = true := by decide

theorem lexeme?_quote (h : c = '"' ∨ c = '\'') : lexeme? r c cs = some (stringLexeme c cs) :=
  lexeme?_eq_some_iff.mpr (.string h)

theorem length_takeWhile_le {p : Char → Bool} (h : p d = false) (as bs : List Char) :
    ((as ++ d :: bs).takeWhile p).length ≤ as.length := by
  induction as with
  | nil => simp [h]
  | cons a as ih =>
    rw [List.cons_append, List.takeWhile_cons]
    split
    · simp only [List.length_cons]
      omega
    · simp

/-- A mark has a second character only where the text goes on. -/
theorem markLexeme_extra_le (hd : isStop d = true) (c : Char) (as bs : List Char) :
    (markLexeme c (as ++ d :: bs).head?).extra ≤ as.length := by
  cases as with
  | nil =>
    rw [List.nil_append, List.head?_cons, markLexeme_stop hd]
    unfold markLexeme
    split <;> simp
  | cons a as =>
    have hone : (markLexeme c (a :: as ++ d :: bs).head?).extra ≤ 1 := by
      unfold markLexeme
      split <;> (try split) <;> simp
    simp only [List.length_cons]
    omega

/-- Only a string runs over a line end. -/
theorem lexeme?_extra_le (hq : ¬ (c = '"' ∨ c = '\'')) (h : lexeme? r c (as ++ '\n' :: bs) = some x) :
    x.extra ≤ as.length := by
  cases lexes_of_eq_some h with
  | newline | pipe => exact Nat.zero_le _
  | comment => exact length_takeWhile_le (by simp) as bs
  | string hc => exact absurd hc hq
  | number => exact length_takeWhile_le (isStop_number isStop_newline) as bs
  | word =>
    simp only [wordLength_resume isStop_newline (Or.inr ⟨bs, rfl⟩)]
    exact wordLength_le as
  | or hc hnext =>
    cases as with
    | nil => simp at hnext
    | cons a as => simp
  | mark => exact markLexeme_extra_le isStop_newline c as bs

/-- **A token before a line end** is the same as at the end of the text, unless it is a string that is not closed. -/
theorem lexeme?_line (h : lexeme? r c as = some x) (hx : ∀ quote, x.error ≠ some (.unclosedString quote))
    (bs : List Char) : lexeme? r c (as ++ '\n' :: bs) = some x ∧ x.extra ≤ as.length := by
  by_cases hq : c = '"' ∨ c = '\''
  · rw [lexeme?_quote hq] at h ⊢
    cases h
    have hclosed : (readBody c 0 as).closed = true := by
      cases hb : (readBody c 0 as).closed with
      | true => rfl
      | false => exact absurd (by simp [stringLexeme, hb]) (hx c)
    refine ⟨?_, readBody_length_le c as 0⟩
    simp only [stringLexeme, readBody_closed isStop_newline c as 0 hclosed]
  · cases hy : lexeme? r c (as ++ '\n' :: bs) with
    | none =>
      rw [lexeme?_blank hy as] at h
      cases h
    | some y =>
      have hle := lexeme?_extra_le hq hy
      have hresume := lexeme?_resume isStop_newline (Or.inl rfl) bs hy hle
      rw [List.append_nil, h] at hresume
      cases hresume
      exact ⟨rfl, hle⟩

/-- Whether no string among the tokens is left open. -/
def StringsClosed (ts : List Token) : Prop := ∀ t ∈ ts, ∀ quote, t.error ≠ some (.unclosedString quote)

instance (ts : List Token) : Decidable (StringsClosed ts) :=
  decidable_of_iff (∀ t ∈ ts, t.error.any LexicalError.isFatal = false) (by
    refine forall₂_congr fun t _ => ?_
    rcases t.error with _ | _ | _ <;> simp [LexicalError.isFatal])

/-- **The tokens around a line end** are those of the text before it and those of the text from it on. -/
theorem scanFrom_line (offset line : Nat) (r : Reference) (as : List Char) :
    StringsClosed (scanFrom offset line r 0 as) →
      ∃ r', ∀ bs, scanFrom offset line r 0 (as ++ '\n' :: bs) =
        scanFrom offset line r 0 as ++ scanFrom (offset + width as) (line + newlines as) r' 0 ('\n' :: bs) := by
  induction offset, line, r, as using scanSteps with
  | nil offset line r => exact fun _ => ⟨r, fun bs => by simp [scanFrom_nil, newlines]⟩
  | blank offset line r c cs h ih =>
    intro hclosed
    rw [scanFrom_blank h] at hclosed ⊢
    obtain ⟨r', hr'⟩ := ih hclosed
    refine ⟨r', fun bs => ?_⟩
    rw [List.cons_append, scanFrom_blank (lexeme?_blank h _), hr', width_cons, newlines_cons c cs, Nat.add_assoc,
      Nat.add_assoc]
  | token offset line r c cs x h ih =>
    intro hclosed
    rw [scanFrom_token h] at hclosed ⊢
    obtain ⟨hx, hrest⟩ := List.forall_mem_cons.mp hclosed
    obtain ⟨r', hr'⟩ := ih hrest
    refine ⟨r', fun bs => ?_⟩
    obtain ⟨hline, hle⟩ := lexeme?_line h hx bs
    have hsplit : c :: cs = c :: cs.take x.extra ++ cs.drop x.extra := by
      rw [List.cons_append, List.take_append_drop]
    rw [List.cons_append, scanFrom_token hline, List.take_append_of_le_length hle, List.drop_append_of_le_length hle,
      hr', hsplit, width_append, newlines_append, Nat.add_assoc, Nat.add_assoc, List.cons_append]

theorem lexeme?_newline (r : Reference) (bs : List Char) : lexeme? r '\n' bs = some ⟨.newline, 0, none⟩ := by
  simp [lexeme?]

/-- The token of the line end after a text. -/
def newlineAfter (as : List Char) : Token :=
  ⟨.newline, ⟨width as, width as + 1⟩, 1 + newlines as, "\n", none⟩

/-- **The tokens of two texts with a line end between them.** -/
theorem scan_line (h : StringsClosed (scan as)) (bs : List Char) :
    scan (as ++ '\n' :: bs) =
      scan as ++ newlineAfter as :: (scan bs).map (Token.shift (width as + 1) (newlines as + 1)) := by
  rw [scan_eq] at h
  obtain ⟨r', hr'⟩ := scanFrom_line 0 1 .outside as h
  rw [scan_eq, hr', scanFrom_token (lexeme?_newline r' bs), scan_eq as, scan_eq bs, ← scanFrom_shift]
  have hnewlines : newlines ['\n'] = 1 := rfl
  simp only [Lexeme.token, newlineAfter, List.take_zero, List.drop_zero, width_cons, width_nil, hnewlines,
    Nat.zero_add, Nat.add_assoc]
  rfl

/-! ## Lines -/

theorem scanFrom_line_le (offset line : Nat) (r : Reference) (cs : List Char) :
    ∀ t ∈ scanFrom offset line r 0 cs, line ≤ t.line := by
  induction offset, line, r, cs using scanSteps with
  | nil offset line r =>
    intro t ht
    rw [scanFrom_nil] at ht
    cases ht
  | blank offset line r c cs h ih =>
    intro t ht
    rw [scanFrom_blank h] at ht
    have := ih t ht
    omega
  | token offset line r c cs x h ih =>
    intro t ht
    rw [scanFrom_token h] at ht
    rcases List.mem_cons.mp ht with rfl | ht
    · exact Nat.le_refl _
    · have := ih t ht
      omega

/-- Only a line end is a token of that kind. -/
theorem lexeme?_kind_newline (h : lexeme? r c cs = some x) (hx : x.kind = .newline) : c = '\n' := by
  cases lexes_of_eq_some h with
  | newline hc => exact hc
  | word => rcases wordKind_cases (c :: cs.take (wordLength cs)) with hw | ⟨b, hw⟩ <;> simp [hw] at hx
  | mark =>
    unfold markLexeme at hx
    split at hx <;> (try split at hx) <;> cases hx
  | comment | string | number | or | pipe => cases hx

/-- **The lines of tokens** never decrease, and they increase after a line end. -/
theorem scanFrom_lines (offset line : Nat) (r : Reference) (cs : List Char) :
    (scanFrom offset line r 0 cs).Pairwise fun t u => t.line ≤ u.line ∧ (t.kind = .newline → t.line < u.line) := by
  induction offset, line, r, cs using scanSteps with
  | nil offset line r =>
    rw [scanFrom_nil]
    exact List.Pairwise.nil
  | blank offset line r c cs h ih =>
    rw [scanFrom_blank h]
    exact ih
  | token offset line r c cs x h ih =>
    rw [scanFrom_token h]
    refine List.pairwise_cons.mpr ⟨fun u hu => ?_, ih⟩
    have hle := scanFrom_line_le _ _ _ _ u hu
    constructor
    · show line ≤ u.line
      omega
    · intro hk
      obtain rfl := lexeme?_kind_newline h hk
      have hnewlines : newlines ('\n' :: cs.take x.extra) = 1 + newlines (cs.take x.extra) := rfl
      show line < u.line
      omega

end UiScript
