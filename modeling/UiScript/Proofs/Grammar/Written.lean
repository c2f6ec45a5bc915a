import UiScript.Proofs.Grammar
import UiScript.Proofs.Scan.Spelling

/-!
# Written pieces

A text that is put together from pieces is scanned piece by piece, because what stands between two pieces ends the
first and begins nothing else. `Writes` says of a piece which marks it has wherever it stands; separators, brackets
and leaves are written here, and what the marks mean is left to the predicate.
-/

namespace UiScript.Grammar

open Reading Text

variable {text : List Char}

/-! ## Written pieces -/

/-- Wherever the piece stands in the text before a stop, it is scanned into marks of which `P` holds. -/
def Writes (text piece : List Char) (P : List Mark → Prop) : Prop :=
  ∀ before after line, text = before ++ piece ++ after → Stopped after →
    ∃ ts line' r', r' ≠ .named ∧ Cut before piece after line line' .outside r' ts ∧ ∀ k, P (marks k ts)

theorem Writes.mono {piece : List Char} {P Q : List Mark → Prop} (h : Writes text piece P) (hPQ : ∀ ms, P ms → Q ms) :
    Writes text piece Q := by
  intro before after line htext hstop
  obtain ⟨ts, line', r', hr, hcut, hP⟩ := h before after line htext hstop
  exact ⟨ts, line', r', hr, hcut, fun k => hPQ _ (hP k)⟩

/-- A piece that is the whole text. -/
theorem Writes.scan {P : List Mark → Prop} (h : Writes text text P) : P (marks 0 (scan text)) := by
  obtain ⟨ts, line, r, -, hcut, hP⟩ := h [] [] 1 (by simp) stopped_nil
  have hscan : UiScript.scan text = ts := by
    rw [Cut, List.append_nil] at hcut
    rw [scan_eq]
    simpa [scanFrom_nil] using hcut
  rw [hscan]
  exact hP 0

theorem writes_nil : Writes text [] (· = []) := by
  intro before after line _ _
  exact ⟨[], line, .outside, by simp, Cut.nil, fun _ => rfl⟩

/-- A text between two pieces: one token, which ends whatever stands before it. -/
structure Separates (sep : List Char) (kind : TokenKind) : Prop where
  stopped : ∀ after, Stopped (sep ++ after)
  isTrivia : kind.isTrivia = false
  cut : ∀ before after line r, r ≠ .named → ∃ t line', t.kind = kind ∧ Cut before sep after line line' r .outside [t]

theorem marks_one {t : Token} (h : t.kind.isTrivia = false) (k : Nat) : marks k [t] = [(t, k)] := marks_cons h

/-- Two pieces and what separates them. -/
theorem Writes.append {p sep q : List Char} {kind : TokenKind} {P Q : List Mark → Prop} (hp : Writes text p P)
    (hsep : Separates sep kind) (hq : Writes text q Q) :
    Writes text (p ++ (sep ++ q)) fun ms => ∃ a m b, ms = a ++ m :: b ∧ m.1.kind = kind ∧ P a ∧ Q b := by
  intro before after line htext hstop
  obtain ⟨ts, line₁, r₁, hr₁, hcut₁, hP⟩ := hp before (sep ++ (q ++ after)) line (by rw [htext]; simp) (hsep.stopped _)
  obtain ⟨t, line₂, ht, hcut₂⟩ := hsep.cut (before ++ p) (q ++ after) line₁ r₁ hr₁
  obtain ⟨us, line₃, r₃, hr₃, hcut₃, hQ⟩ := hq (before ++ p ++ sep) after line₂ (by rw [htext]; simp) hstop
  have hcut := Cut.append (by rw [List.append_assoc]; exact hcut₁) (Cut.append hcut₂ hcut₃)
  refine ⟨_, line₃, r₃, hr₃, hcut, fun k => ?_⟩
  refine ⟨marks k ts, (t, k + ts.length), marks (k + ts.length + 1) us, ?_, ht, hP k, hQ _⟩
  rw [marks_append, List.singleton_append, marks_cons (by rw [ht]; exact hsep.isTrivia)]

/-- The part stands in the text between the two offsets. -/
def StandsAt (text part : List Char) (start stop : Nat) : Prop :=
  ∃ before after, text = before ++ part ++ after ∧ start = width before ∧ stop = width before + width part

/-- A piece between brackets, which stands where its brackets do. -/
theorem Writes.enclosed {piece : List Char} {P : List Mark → Prop} {b : Bracket} {o c : Char}
    (ho : o ∈ punctuation ∧ (markLexeme o none).kind = .opening b)
    (hc : c ∈ punctuation ∧ (markLexeme c none).kind = .closing b) (hstop : isStop c = true) (h : Writes text piece P) :
    Writes text (o :: (piece ++ [c])) fun ms => ∃ opener body closer, ms = opener :: (body ++ [closer]) ∧
      opener.1.kind = .opening b ∧ closer.1.kind = .closing b ∧ P body ∧
      StandsAt text (o :: (piece ++ [c])) opener.1.span.start closer.1.span.stop := by
  intro before after line htext _
  obtain ⟨t, line₁, ht, htspan, hcut₁⟩ := Cut.mark ho.1 before (piece ++ [c] ++ after) line .outside
  obtain ⟨ts, line₂, r₂, hr₂, hcut₂, hP⟩ :=
    h (before ++ [o]) ([c] ++ after) line₁ (by rw [htext]; simp) (stopped_cons hstop _)
  obtain ⟨u, line₃, hu, huspan, hcut₃⟩ := Cut.mark hc.1 (before ++ [o] ++ piece) after line₂ r₂
  have hcut := Cut.append hcut₁ (Cut.append hcut₂ hcut₃)
  rw [ho.2] at ht
  rw [hc.2] at hu
  refine ⟨_, line₃, .outside, by simp, hcut, fun k => ?_⟩
  refine ⟨(t, k), marks (k + 1) ts, (u, k + 1 + ts.length), ?_, ht, hu, hP _, before, after, htext, ?_, ?_⟩
  · rw [List.singleton_append, marks_cons (by rw [ht]; rfl), marks_append, marks_one (by rw [hu]; rfl)]
  · rw [htspan]
  · simp only [huspan, width_append, width_cons, width_nil]
    omega

/-- A piece between brackets. -/
theorem Writes.bracket {piece : List Char} {P : List Mark → Prop} {b : Bracket} {o c : Char}
    (ho : o ∈ punctuation ∧ (markLexeme o none).kind = .opening b)
    (hc : c ∈ punctuation ∧ (markLexeme c none).kind = .closing b) (hstop : isStop c = true) (h : Writes text piece P) :
    Writes text (o :: (piece ++ [c])) fun ms => ∃ opener body closer, ms = opener :: (body ++ [closer]) ∧
      opener.1.kind = .opening b ∧ closer.1.kind = .closing b ∧ P body := by
  refine (h.enclosed ho hc hstop).mono fun ms hms => ?_
  obtain ⟨opener, body, closer, heq, hopener, hcloser, hbody, -⟩ := hms
  exact ⟨opener, body, closer, heq, hopener, hcloser, hbody⟩

theorem separates_comma : Separates [',', ' '] .comma := by
  refine ⟨fun after => stopped_cons (by decide) _, rfl, fun before after line r _ => ?_⟩
  obtain ⟨t, line', ht, hcut⟩ := Cut.punctuation (c := ',') (by decide) before (' ' :: after) line r
  exact ⟨t, line', ht, Cut.append hcut (Cut.space _ _ _ _)⟩

theorem separates_colon : Separates [':', ' '] .colon := by
  refine ⟨fun after => stopped_cons (by decide) _, rfl, fun before after line r _ => ?_⟩
  obtain ⟨t, line', ht, hcut⟩ := Cut.punctuation (c := ':') (by decide) before (' ' :: after) line r
  exact ⟨t, line', ht, Cut.append hcut (Cut.space _ _ _ _)⟩

theorem separates_operator (op : Operator) : Separates (' ' :: (op.text.toList ++ [' '])) (.operator op) := by
  refine ⟨fun after => stopped_cons (by decide) _, rfl, fun before after line r hr => ?_⟩
  obtain ⟨t, line', ht, hcut⟩ := Cut.operator op (before ++ [' ']) after line hr
  exact ⟨t, line', ht, Cut.append (p := [' ']) (Cut.space _ _ _ _) (Cut.append hcut (Cut.space _ _ _ _))⟩

/-! ## Leaves -/

section Leaves

variable {P : List Mark → Prop}

/-- A piece that is one token. -/
theorem writes_token {piece : List Char} {t : Nat → Nat → Token}
    (htrivia : ∀ o l, (t o l).kind.isTrivia = false)
    (hcut : ∀ before after line, Stopped after →
      Cut before piece after line (line + newlines piece) .outside .outside [t (width before) line])
    (hP : ∀ o l k, P [(t o l, k)]) : Writes text piece P := by
  intro before after line _ hstop
  refine ⟨_, _, .outside, by simp, hcut before after line hstop, fun k => ?_⟩
  rw [marks_one (htrivia _ _)]
  exact hP _ _ _

theorem writes_string {value : String} {quote : Char} (hq : quote = '"' ∨ quote = '\'')
    (hP : ∀ (t : Token) (k : Nat), t.kind = .string value quote → t.error = none → P [(t, k)]) :
    Writes text (quoteText value quote).toList P := by
  rw [quoteText, String.toList_ofList]
  refine writes_token (t := fun o l => ⟨.string value quote, ⟨o, o + width (escape value.toList quote)⟩, l,
    String.ofList (escape value.toList quote), none⟩) (fun _ _ => rfl) ?_ fun o l k => hP _ k rfl rfl
  intro before after line _
  have h := Cut.string hq value.toList before after line .outside
  rwa [String.ofList_toList] at h

theorem writes_number {digits : String} {float : Bool} (hw : IsNumber digits.toList)
    (hfloat : float = decide (0 < digits.toList.count '.')) (hcount : digits.toList.count '.' ≤ 1)
    (hP : ∀ (t : Token) (k : Nat), t.kind = .number float → t.text = digits → t.error = none → P [(t, k)]) :
    Writes text digits.toList P := by
  refine writes_token (t := fun o l => ⟨.number float, ⟨o, o + width digits.toList⟩, l, digits, none⟩)
    (fun _ _ => rfl) ?_ fun o l k => hP _ k rfl rfl rfl
  intro before after line hstop
  have h := Cut.number hw hcount hstop before line .outside
  rwa [String.ofList_toList, ← hfloat] at h

/-- A number with its sign. -/
theorem writes_negative {digits : String} {float : Bool} (hw : IsNumber digits.toList)
    (hfloat : float = decide (0 < digits.toList.count '.')) (hcount : digits.toList.count '.' ≤ 1)
    (hP : ∀ sign number : Mark, sign.1.kind = .operator .sub → number.1.kind = .number float → number.1.text = digits →
      number.1.error = none → number.1.span.start = sign.1.span.stop → P [sign, number]) :
    Writes text ('-' :: digits.toList) P := by
  intro before after line _ hstop
  have hlex : lexeme? .outside '-' ([] ++ (digits.toList ++ after)) = some ⟨.operator .sub, 0, none⟩ := by
    simp [lexeme?, isBlank, isDigit, isLetter, markLexeme]
  have hsign := Cut.token before line hlex rfl
  have hnumber := Cut.number hw hcount hstop (before ++ ['-']) (line + newlines ['-']) .outside
  rw [String.ofList_toList, ← hfloat] at hnumber
  refine ⟨_, _, .outside, by simp, Cut.append hsign hnumber, fun k => ?_⟩
  rw [List.singleton_append, marks_cons rfl, marks_one rfl]
  refine hP _ _ rfl rfl rfl rfl ?_
  simp [Lexeme.token]

theorem isName_wordKind (w : List Char) : isName (wordKind w) = true := by
  rcases wordKind_cases w with h | ⟨b, h⟩ <;> rw [h] <;> rfl

theorem isWord_boolText (b : Bool) : IsWord (boolText b).toList ∧ wordKind (boolText b).toList = .boolean b := by
  cases b
  · exact ⟨⟨'f', "alse".toList, rfl, by decide, by decide⟩, rfl⟩
  · exact ⟨⟨'t', "rue".toList, rfl, by decide, by decide⟩, rfl⟩

/-- The text of a name is spelled as a word, and is of the kind of its token. -/
theorem isWord_of_valid {t : Token} (h : t.Valid) (hname : isName t.kind = true) :
    IsWord t.text.toList ∧ wordKind t.text.toList = t.kind := by
  cases hk : t.kind with
  | word =>
    rw [Token.Valid, hk] at h
    exact ⟨h.1, h.2.1⟩
  | boolean b =>
    rw [Token.Valid, hk] at h
    rw [h.1]
    exact isWord_boolText b
  | _ => rw [hk] at hname; cases hname

theorem writes_word {name : String} (hw : IsWord name.toList)
    (hP : ∀ (t : Token) (k : Nat), t.kind = wordKind name.toList → t.text = name → P [(t, k)]) :
    Writes text name.toList P := by
  have hnext : Reference.next .outside (wordKind name.toList) = .outside := by
    rcases wordKind_cases name.toList with hk | ⟨b, hk⟩ <;> rw [hk] <;> rfl
  refine writes_token (t := fun o l => ⟨wordKind name.toList, ⟨o, o + width name.toList⟩, l, name, none⟩)
    (fun _ _ => isTrivia_of_isName (isName_wordKind _)) ?_ fun o l k => hP _ k rfl rfl
  intro before after line hstop
  have hcut := Cut.word hw hstop.wordLength before line .outside
  rwa [String.ofList_toList, hnext] at hcut

/-- A name between bars. -/
theorem writes_reference {name : String} (hw : IsWord name.toList)
    (hP : ∀ bar word close : Mark, bar.1.kind = .pipe → isName word.1.kind = true → word.1.text = name →
      close.1.kind = .pipe → word.2 = bar.2 + 1 → close.2 = word.2 + 1 → P [bar, word, close]) :
    Writes text ('|' :: (name.toList ++ ['|'])) P := by
  intro before after line _ hstop
  obtain ⟨c, tail, hc, hletter, -⟩ := id hw
  have hopen : lexeme? .outside '|' ([] ++ (name.toList ++ ['|'] ++ after)) = some ⟨.pipe, 0, none⟩ := by
    have hbar : c ≠ '|' := by rintro rfl; revert hletter; decide
    exact lexeme?_eq_some_iff.mpr (.pipe rfl (by simp [hc, hbar]))
  have hclose : ∀ r, lexeme? r '|' ([] ++ after) = some ⟨.pipe, 0, none⟩ := by
    intro r
    have hbar : after.head? ≠ some '|' := fun h => by
      have := hstop '|' h
      revert this
      decide
    exact lexeme?_eq_some_iff.mpr (.pipe rfl fun h => hbar h.1)
  have hcut₁ := Cut.token before line hopen rfl
  have hbar : wordLength (['|'] ++ after) = 0 := rfl
  have hcut₂ := Cut.word hw hbar (before ++ ['|']) (line + newlines ['|']) .opened
  have hcut₃ := Cut.token (before ++ ['|'] ++ name.toList) (line + newlines ['|'] + newlines name.toList)
    (hclose (Reference.next .opened (wordKind name.toList))) rfl
  rw [String.ofList_toList] at hcut₂
  refine ⟨_, _, _, ?_, Cut.append hcut₁ (Cut.append hcut₂ hcut₃), fun k => ?_⟩
  · simp [Reference.next]
  · rw [List.singleton_append, List.singleton_append, marks_cons rfl,
      marks_cons (isTrivia_of_isName (isName_wordKind _)), marks_one rfl]
    exact hP _ _ _ rfl (isName_wordKind _) rfl rfl rfl rfl

end Leaves

end UiScript.Grammar
