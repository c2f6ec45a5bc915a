import Mathlib.Tactic.SplitIfs
import UiScript.Proofs.Scan.Locality

/-!
# Written tokens are scanned again

The text of a token, followed by a character that cannot continue it, is scanned as that token. `Cut` says that a
piece of a text is scanned into some tokens and that the scan goes on behind it; pieces are put together by
`Cut.append`. A stop (`isStop`) ends words, numbers and marks; a string ends by itself, whatever its value
(`readBody_escape`), so it is scanned back before any text (`scan_quoteText`).
-/

namespace UiScript

open Text

variable {r r' r'' : Reference} {c : Char} {cs before after : List Char} {x : Lexeme} {line line' line'' : Nat}

/-! ## Pieces of a text -/

/-- The piece after `before` is scanned into the tokens, and the scan goes on behind it. -/
def Cut (before piece after : List Char) (line line' : Nat) (r r' : Reference) (ts : List Token) : Prop :=
  scanFrom (width before) line r 0 (piece ++ after) = ts ++ scanFrom (width (before ++ piece)) line' r' 0 after

theorem Cut.append {p q : List Char} {ts us : List Token} (hp : Cut before p (q ++ after) line line' r r' ts)
    (hq : Cut (before ++ p) q after line' line'' r' r'' us) :
    Cut before (p ++ q) after line line'' r r'' (ts ++ us) := by
  unfold Cut at *
  rw [List.append_assoc, hp, hq, List.append_assoc, List.append_assoc]

theorem Cut.nil : Cut before [] after line line r r [] := by
  rw [Cut, List.append_nil]
  rfl

/-- A token and its characters. -/
theorem Cut.token (before : List Char) (line : Nat) (h : lexeme? r c (cs ++ after) = some x)
    (hx : x.extra = cs.length) :
    Cut before (c :: cs) after line (line + newlines (c :: cs)) r (r.next x.kind)
      [x.token (width before) line (c :: cs)] := by
  rw [Cut, List.cons_append, scanFrom_piece h hx, width_append]
  rfl

/-- A single blank. -/
theorem Cut.space (before after : List Char) (line : Nat) (r : Reference) :
    Cut before [' '] after line line r r [] := by
  have h : lexeme? r ' ' after = none := by simp [lexeme?, isBlank]
  rw [Cut, List.cons_append, List.nil_append, scanFrom_blank h, width_append]
  rfl

/-- The text is at its end, or goes on with a stop. -/
def Stopped (after : List Char) : Prop := ∀ d ∈ after.head?, isStop d = true

theorem stopped_nil : Stopped [] := fun _ h => by cases h

theorem stopped_cons {d : Char} (h : isStop d = true) (cs : List Char) : Stopped (d :: cs) := by
  rintro _ ⟨⟩
  exact h

/-! ## Words -/

/-- Characters that continue a name to their end do so before any text. -/
theorem wordLength_append (h : wordLength cs = cs.length) (after : List Char) :
    wordLength (cs ++ after) = cs.length + wordLength after := by
  induction cs with
  | nil => simp
  | cons c cs ih =>
    rw [wordLength] at h
    split at h
    · rename_i hc
      have hcs : wordLength cs = cs.length := Nat.succ.inj h
      have hc' : (isAlphanumeric c || c == '_' || (c == '-' && (cs ++ after).head?.any isLetter)) = true := by
        cases cs with
        | nil => revert hc; simp +contextual
        | cons d cs => exact hc
      rw [List.cons_append, wordLength, if_pos hc', ih hcs, List.length_cons]
      omega
    · cases h

theorem Stopped.wordLength (h : Stopped after) : wordLength after = 0 := by
  cases after with
  | nil => rfl
  | cons d bs => exact wordLength_stop (h d rfl)

/-- A word before what does not continue it. -/
theorem Cut.word {w : List Char} (hw : IsWord w) (h : wordLength after = 0) (before : List Char) (line : Nat)
    (r : Reference) :
    Cut before w after line (line + newlines w) r (r.next (wordKind w))
      [⟨wordKind w, ⟨width before, width before + width w⟩, line, String.ofList w, none⟩] := by
  obtain ⟨c, tail, rfl, hc, htail⟩ := hw
  have hlex : lexeme? r c (tail ++ after) = some ⟨wordKind (c :: tail), tail.length, none⟩ := by
    rw [lexeme?_eq_some_iff.mpr (.word hc)]
    simp only [wordLength_append htail, h, Nat.add_zero, List.take_left]
  exact Cut.token before line hlex rfl

/-! ## Numbers -/

theorem takeWhile_stopped {p : Char → Bool} (hp : ∀ d, isStop d = true → p d = false) (h : Stopped after)
    (hall : cs.all p = true) : (cs ++ after).takeWhile p = cs := by
  rw [List.takeWhile_append_of_pos (by simpa using hall)]
  cases after with
  | nil => simp
  | cons d bs => simp [hp d (h d rfl)]

/-- A number before a stop. -/
theorem Cut.number {w : List Char} (hw : IsNumber w) (hcount : w.count '.' ≤ 1) (h : Stopped after) (before : List Char)
    (line : Nat) (r : Reference) :
    Cut before w after line (line + newlines w) r .outside
      [⟨.number (decide (0 < w.count '.')), ⟨width before, width before + width w⟩, line, String.ofList w, none⟩] := by
  obtain ⟨c, tail, rfl, hc, htail⟩ := hw
  have hpoints : (c :: tail).count '.' = tail.count '.' := by simp [isDigit_ne_point hc]
  have hnumber : numberLexeme (tail ++ after) = ⟨.number (decide (0 < tail.count '.')), tail.length, none⟩ := by
    have htake : (tail ++ after).takeWhile (fun c => isDigit c || c == '.') = tail :=
      takeWhile_stopped (fun d hd => isStop_number hd) h htail
    rw [hpoints] at hcount
    simp only [numberLexeme, htake, if_neg (show ¬ 1 < tail.count '.' by omega)]
  have hlex : lexeme? r c (tail ++ after) = some ⟨.number (decide (0 < tail.count '.')), tail.length, none⟩ := by
    rw [lexeme?_eq_some_iff.mpr (.number hc), hnumber]
  rw [hpoints]
  exact Cut.token before line hlex rfl

/-! ## Strings -/

theorem charOfHex?_hexDigits : ∀ n < 160, charOfHex? (hexDigit (n / 16 / 16 / 16 % 16)) (hexDigit (n / 16 / 16 % 16))
    (hexDigit (n / 16 % 16)) (hexDigit (n % 16)) = some (Char.ofNat n) := by decide +kernel

/-- The characters that an escape has taken are passed over. -/
theorem readBody_taken (quote : Char) (ds cs : List Char) :
    readBody quote ds.length (ds ++ cs) =
      ⟨(readBody quote 0 cs).value, ds.length + (readBody quote 0 cs).length, (readBody quote 0 cs).closed⟩ := by
  induction ds with
  | nil => simp
  | cons d ds ih =>
    rw [List.length_cons, List.cons_append, readBody, ih]
    simp only [Body.past]
    congr 1
    omega

/-- An escape is read as the character that it stands for. -/
theorem readBody_unescape {quote : Char} (hq : quote = '"' ∨ quote = '\'') (d e : Char) (ds : List Char)
    (h : unescape? quote (d :: ds ++ cs) = some (e, ds.length + 1)) :
    readBody quote 0 ('\\' :: d :: ds ++ cs) =
      ⟨e :: (readBody quote 0 cs).value, ('\\' :: d :: ds).length + (readBody quote 0 cs).length,
        (readBody quote 0 cs).closed⟩ := by
  have hslash : '\\' ≠ quote := by rcases hq with rfl | rfl <;> decide
  have hread : charRead quote '\\' (d :: ds ++ cs) = (e, (d :: ds).length) := by
    rw [charRead, if_pos rfl, h, Option.getD_some, List.length_cons]
  rw [List.cons_append, readBody_cons hslash, hread, readBody_taken]
  simp only [Body.push, List.length_cons]
  congr 1
  omega

/-- An escaped character is read as that character. -/
theorem readBody_escapeChar {quote : Char} (hq : quote = '"' ∨ quote = '\'') (c : Char) (cs : List Char) :
    readBody quote 0 (escapeChar quote c ++ cs) =
      ⟨c :: (readBody quote 0 cs).value, (escapeChar quote c).length + (readBody quote 0 cs).length,
        (readBody quote 0 cs).closed⟩ := by
  unfold escapeChar
  split_ifs with hnewline htab hreturn hcontrol hquote
  · subst hnewline
    exact readBody_unescape hq 'n' '\n' [] (by rcases hq with rfl | rfl <;> rfl)
  · subst htab
    exact readBody_unescape hq 't' '\t' [] (by rcases hq with rfl | rfl <;> rfl)
  · subst hreturn
    exact readBody_unescape hq 'r' '\r' [] (by rcases hq with rfl | rfl <;> rfl)
  · have hn : c.toNat < 160 := by
      simp only [isControl, Bool.or_eq_true, Bool.and_eq_true, decide_eq_true_eq] at hcontrol
      omega
    have hhex := charOfHex?_hexDigits c.toNat hn
    rw [Char.ofNat_toNat] at hhex
    have hu : 'u' ≠ quote := by rcases hq with rfl | rfl <;> decide
    exact readBody_unescape hq 'u' c (hexDigits 4 c.toNat) (by simp [unescape?, hu, hexDigits, hhex])
  · exact readBody_unescape hq c c [] (by simp [unescape?, hquote.symm])
  · rw [not_or] at hquote
    rw [List.singleton_append, readBody_cons hquote.2, charRead, if_neg hquote.1, Body.push, List.length_singleton,
      Nat.add_comm]

/-- **A written string is read back.** -/
theorem readBody_escape {quote : Char} (hq : quote = '"' ∨ quote = '\'') (value after : List Char) :
    readBody quote 0 (value.flatMap (escapeChar quote) ++ quote :: after) =
      ⟨value, (value.flatMap (escapeChar quote)).length + 1, true⟩ := by
  induction value with
  | nil => simp [readBody]
  | cons c value ih =>
    rw [List.flatMap_cons, List.append_assoc, readBody_escapeChar hq, ih, List.length_append, Nat.add_assoc]

/-- A string. -/
theorem Cut.string {quote : Char} (hq : quote = '"' ∨ quote = '\'') (value before after : List Char) (line : Nat)
    (r : Reference) :
    Cut before (escape value quote) after line (line + newlines (escape value quote)) r .outside
      [⟨.string (String.ofList value) quote, ⟨width before, width before + width (escape value quote)⟩, line,
        String.ofList (escape value quote), none⟩] := by
  have hread : stringLexeme quote (value.flatMap (escapeChar quote) ++ [quote] ++ after) =
      ⟨.string (String.ofList value) quote, (value.flatMap (escapeChar quote) ++ [quote]).length, none⟩ := by
    rw [List.append_assoc, stringLexeme]
    simp only [List.singleton_append, readBody_escape hq, if_true, List.length_append, List.length_singleton]
  have hlex : lexeme? r quote (value.flatMap (escapeChar quote) ++ [quote] ++ after) =
      some ⟨.string (String.ofList value) quote, (value.flatMap (escapeChar quote) ++ [quote]).length, none⟩ := by
    rw [lexeme?_eq_some_iff.mpr (.string hq), hread]
  exact Cut.token before line hlex rfl

theorem newlines_eq_zero {cs : List Char} (h : '\n' ∉ cs) : newlines cs = 0 := by
  induction cs with
  | nil => rfl
  | cons c cs ih =>
    rw [List.mem_cons, not_or] at h
    rw [newlines, if_neg (Ne.symm h.1), ih h.2]

theorem hexDigit_ne_newline : ∀ n < 16, hexDigit n ≠ '\n' := by decide

/-- A string is written on one line. -/
theorem newlines_escape {quote : Char} (hq : quote = '"' ∨ quote = '\'') (value : List Char) :
    newlines (escape value quote) = 0 := by
  have hquote : '\n' ≠ quote := by rcases hq with rfl | rfl <;> decide
  have hchar : ∀ c, '\n' ∉ escapeChar quote c := by
    intro c
    unfold escapeChar
    split_ifs with hnewline htab hreturn hcontrol hquote
    · decide
    · decide
    · decide
    · have hdigit : ∀ n, '\n' ≠ hexDigit (n % 16) := fun n =>
        (hexDigit_ne_newline _ (Nat.mod_lt n (by decide))).symm
      simp [hexDigits, hdigit]
    · simp [Ne.symm hnewline]
    · simp [Ne.symm hnewline]
  refine newlines_eq_zero ?_
  simp [escape, hquote, hchar]

/-- **A written string is scanned back, whatever follows it**: it is one token with that value and that quote, without a
mistake, and what follows is scanned as it would be alone. -/
theorem scan_quoteText {quote : Char} (hq : quote = '"' ∨ quote = '\'') (value after : String) :
    scan (quoteText value quote ++ after).toList =
      ⟨.string value quote, ⟨0, width (quoteText value quote).toList⟩, 1, quoteText value quote, none⟩ ::
        (scan after.toList).map (Token.shift (width (quoteText value quote).toList) 0) := by
  have hcut := Cut.string hq value.toList [] after.toList 1 .outside
  rw [Cut, newlines_escape hq, List.nil_append, width_nil, Nat.zero_add] at hcut
  have hrest := scanFrom_shift (width (escape value.toList quote)) 0 after.toList 0 1 .outside 0
  rw [Nat.zero_add] at hrest
  rw [String.toList_append, scan_eq, scan_eq, quoteText, String.toList_ofList, hcut, hrest, String.ofList_toList]
  rfl

/-- A backslash before `n`, a control character before a digit and the other quote, followed by a quote and a bar. -/
theorem scan_quoteText_control :
    quoteText "\\n\x857'" '"' = "\"\\\\n\\u00857'\"" ∧
      scan (quoteText "\\n\x857'" '"' ++ "\"|").toList =
        ⟨.string "\\n\x857'" '"', ⟨0, width (quoteText "\\n\x857'" '"').toList⟩, 1, quoteText "\\n\x857'" '"', none⟩ ::
          (scan "\"|".toList).map (Token.shift (width (quoteText "\\n\x857'" '"').toList) 0) :=
  ⟨by decide +kernel, scan_quoteText (Or.inl rfl) _ _⟩

/-! ## Marks -/

/-- A bracket, a comma or a colon before anything, with its span. -/
theorem Cut.mark (h : c ∈ punctuation) (before after : List Char) (line : Nat) (r : Reference) :
    ∃ t line', t.kind = (markLexeme c none).kind ∧ t.span = ⟨width before, width before + width [c]⟩ ∧
      Cut before [c] after line line' r .outside [t] := by
  obtain ⟨hlex, hnext⟩ := lexeme?_punctuation h r after
  have hcut : Cut before [c] after line _ r _ _ := Cut.token before line hlex rfl
  rw [hnext r] at hcut
  exact ⟨_, _, rfl, rfl, hcut⟩

theorem Cut.punctuation (h : c ∈ punctuation) (before after : List Char) (line : Nat) (r : Reference) :
    ∃ t line', t.kind = (markLexeme c none).kind ∧ Cut before [c] after line line' r .outside [t] := by
  obtain ⟨t, line', hkind, -, hcut⟩ := Cut.mark h before after line r
  exact ⟨t, line', hkind, hcut⟩

/-- The first character of an operator, and the second if there is one. -/
def Operator.chars : Operator → Char × List Char
  | .add => ('+', [])
  | .sub => ('-', [])
  | .mul => ('*', [])
  | .div => ('/', [])
  | .equal => ('=', ['='])
  | .unequal => ('!', ['='])
  | .less => ('<', [])
  | .lessEqual => ('<', ['='])
  | .greater => ('>', [])
  | .greaterEqual => ('>', ['='])
  | .and => ('&', ['&'])
  | .or => ('|', ['|'])

theorem Operator.toList_text (op : Operator) : op.text.toList = op.chars.1 :: op.chars.2 := by
  cases op <;> rfl

theorem lexeme?_operator (op : Operator) (after : List Char) (hr : r ≠ .named) :
    lexeme? r op.chars.1 (op.chars.2 ++ ' ' :: after) = some ⟨.operator op, op.chars.2.length, none⟩ := by
  cases op <;> simp [lexeme?, isBlank, isDigit, isLetter, markLexeme, Operator.chars, hr]

/-- An operator before a blank. -/
theorem Cut.operator (op : Operator) (before after : List Char) (line : Nat) (hr : r ≠ .named) :
    ∃ t line', t.kind = .operator op ∧ Cut before op.text.toList (' ' :: after) line line' r .outside [t] := by
  rw [op.toList_text]
  exact ⟨_, _, rfl, Cut.token before line (lexeme?_operator op after hr) rfl⟩

end UiScript
