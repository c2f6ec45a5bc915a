import UiScript.Proofs.Scan.Spelling
import UiScript.Proofs.Scan.Tiling
import UiScript.Reading.Operand

/-!
# Variable references

A name between two bars is scanned as a bar, a word and a bar, whatever follows it, and read as a variable
(`scan_reference`): after a bar and a plain name the second bar closes the reference, even right before an operator `||`.
The scan knows plain names only, while the reader takes `true` and `false` as names too. After one of these a bar that
is followed by a third one is taken for an operator (`scan_reference_true`).
-/

namespace UiScript

open Text

variable {r : Reference} {cs : List Char} {n : String}

/-- The word can be the name in a variable reference: it is a token of its own that a reference takes for its name. -/
def IsVariableName (n : String) : Prop := ∃ t ∈ scan n.toList, t.text = n ∧ Reading.isName t.kind = true

/-- A name in a reference is a word, and it stands on one line. -/
theorem IsVariableName.word (h : IsVariableName n) : IsWord n.toList ∧ newlines n.toList = 0 := by
  obtain ⟨t, ht, rfl, hname⟩ := h
  rw [scan_eq] at ht
  have hvalid := scanFrom_valid _ _ _ _ t ht
  obtain ⟨before, part, after, -, -, hplace, hnewline⟩ := scanFrom_stands _ _ _ _ t ht
  have hpart : t.text.toList = part := by
    rw [show t.text = String.ofList part from congrArg Place.source hplace, String.toList_ofList]
  rw [← hpart] at hnewline
  unfold Token.Valid at hvalid
  cases hk : t.kind with
  | word =>
    rw [hk] at hvalid hnewline
    exact ⟨hvalid.1, newlines_eq_zero fun hmem => by cases hnewline hmem⟩
  | boolean b =>
    rw [hk] at hvalid hnewline
    refine ⟨?_, newlines_eq_zero fun hmem => by cases hnewline hmem⟩
    rw [hvalid.1]
    cases b
    · exact ⟨'f', "alse".toList, rfl, by decide, by decide⟩
    · exact ⟨'t', "rue".toList, rfl, by decide, by decide⟩
  | _ =>
    rw [hk] at hname
    cases hname

/-- A bar is an operator with the bar after it, unless it closes a variable reference. -/
theorem lexeme?_bar (r : Reference) (cs : List Char) :
    lexeme? r '|' cs =
      some (if cs.head? = some '|' ∧ r ≠ .named then ⟨.operator .or, 1, none⟩ else ⟨.pipe, 0, none⟩) := by
  rw [lexeme?_eq_some_iff]
  split
  · rename_i hor
    exact .or rfl hor.1 hor.2
  · rename_i hpipe
    exact .pipe rfl hpipe

/-- A bar does not continue a name. -/
theorem wordLength_bar (cs : List Char) : wordLength ('|' :: cs) = 0 := by
  rw [wordLength, if_neg]
  simp [isAlphanumeric, isLetter, isDigit]

/-- The tokens of a variable reference at the start of a text. -/
def referenceTokens (n : String) : List Token :=
  [⟨.pipe, ⟨0, 1⟩, 1, "|", none⟩,
    ⟨wordKind n.toList, ⟨1, 1 + width n.toList⟩, 1, n, none⟩,
    ⟨.pipe, ⟨1 + width n.toList, 2 + width n.toList⟩, 1, "|", none⟩]

/-- The first bar and the name are tokens before anything; what the second bar is depends on the kind of the name. -/
theorem scan_opened (h : IsVariableName n) (w : String) :
    scan ("|" ++ n ++ "|" ++ w).toList =
      (referenceTokens n).take 2 ++
        scanFrom (1 + width n.toList) 1 (Reference.opened.next (wordKind n.toList)) 0 ('|' :: w.toList) := by
  obtain ⟨hword, hline⟩ := h.word
  obtain ⟨c, tail, hn, hc, -⟩ := hword
  have hbar : ¬ ((n.toList ++ '|' :: w.toList).head? = some '|' ∧ Reference.outside ≠ .named) := by
    rw [hn]
    rintro ⟨hhead, -⟩
    cases hhead
    revert hc
    decide
  have hopen : lexeme? .outside '|' ([] ++ (n.toList ++ '|' :: w.toList)) = some ⟨.pipe, 0, none⟩ := by
    rw [List.nil_append, lexeme?_bar, if_neg hbar]
  have hfirst := Cut.token [] 1 hopen rfl
  have hname := Cut.word h.word.1 (wordLength_bar w.toList) ['|'] 1 .opened
  have hcut := hfirst.append hname
  rw [Cut, hline] at hcut
  have htext : ("|" ++ n ++ "|" ++ w).toList = ['|'] ++ n.toList ++ '|' :: w.toList := by simp
  rw [htext, scan_eq]
  refine hcut.trans ?_
  simp only [referenceTokens, Lexeme.token, width_append, List.nil_append, String.ofList_toList]
  rfl

/-- The reader takes these tokens for a variable. -/
theorem operand_reference (catalog : Catalog) (levels : Nat) (s : Reading.Source) (multiline : Bool)
    (hn : Reading.isName (wordKind n.toList) = true) (ts : List Token) :
    Reading.operand catalog levels s multiline ⟨referenceTokens n ++ ts, 0⟩ =
      (.leaf (s.info ⟨0, 2 + width n.toList⟩ 1 none) (.reference n), ⟨ts, 2 + width n.toList⟩) := by
  have hskip : Reading.Cursor.skipTrivia ⟨referenceTokens n ++ ts, 0⟩ multiline = ⟨referenceTokens n ++ ts, 0⟩ := by
    cases multiline <;> rfl
  have hread : Reading.leaf s ⟨referenceTokens n ++ ts, 0⟩ =
      (.leaf (s.info ⟨0, 2 + width n.toList⟩ 1 none) (.reference n), ⟨ts, 2 + width n.toList⟩) := by
    have hstop : max 1 (2 + width n.toList) = 2 + width n.toList := by omega
    simp [Reading.leaf, Reading.reference, referenceTokens, hn, Reading.Cursor.past, TokenKind.isTrivia, Span.merge,
      hstop]
  cases levels <;> simp only [Reading.operand, hskip] <;> exact hread

/-- After a bar the scan passes over a truth value without taking it for a name. -/
theorem next_ne_named_iff (n : String) :
    Reference.opened.next (wordKind n.toList) ≠ .named ↔ n = "true" ∨ n = "false" := by
  have htext : ∀ b : String, n.toList = b.toList ↔ n = b := fun b => String.toList_inj
  unfold wordKind
  simp only [htext]
  split
  · simp [Reference.next, *]
  · split <;> simp [Reference.next, *]

/-- The second bar of a reference: it closes the reference, unless the name is a truth value and a bar follows. -/
theorem scan_closed (h : IsVariableName n) (w : String) :
    if (n = "true" ∨ n = "false") ∧ w.toList.head? = some '|' then
      ∃ t ts, t.kind = .operator .or ∧
        scan ("|" ++ n ++ "|" ++ w).toList = (referenceTokens n).take 2 ++ t :: ts
    else
      scan ("|" ++ n ++ "|" ++ w).toList =
        referenceTokens n ++ scanFrom (2 + width n.toList) 1 .opened 0 w.toList := by
  rw [scan_opened h]
  split
  · rename_i htruth
    have hlex := lexeme?_bar (Reference.opened.next (wordKind n.toList)) w.toList
    rw [if_pos ⟨htruth.2, (next_ne_named_iff n).mpr htruth.1⟩] at hlex
    exact ⟨_, _, rfl, by rw [scanFrom_token hlex]⟩
  · rename_i hplain
    have hlex := lexeme?_bar (Reference.opened.next (wordKind n.toList)) w.toList
    rw [if_neg fun hbar => hplain ⟨(next_ne_named_iff n).mp hbar.2, hbar.1⟩] at hlex
    rw [scanFrom_token hlex]
    have hoffset : 1 + width n.toList + width ['|'] = 2 + width n.toList := by
      rw [show width ['|'] = 1 from rfl]
      omega
    simp only [Lexeme.token, List.take_zero, List.drop_zero, hoffset]
    rfl

/-- **A variable reference is scanned the same whatever follows it**, unless its name is a truth value and a bar follows.
The first three tokens are then a bar, the name and a bar, with their spans, and the reader takes them for a variable.
Where the name is plain and `||` follows, the fourth token is this operator. -/
theorem scan_reference (h : IsVariableName n) (w : String) :
    (referenceTokens n <+: scan ("|" ++ n ++ "|" ++ w).toList ↔
      ((n = "true" ∨ n = "false") → w.toList.head? ≠ some '|')) ∧
    (referenceTokens n <+: scan ("|" ++ n ++ "|" ++ w).toList →
      ∀ catalog levels s multiline,
        Reading.operand catalog levels s multiline ⟨scan ("|" ++ n ++ "|" ++ w).toList, 0⟩ =
          (.leaf (s.info ⟨0, 2 + width n.toList⟩ 1 none) (.reference n),
            ⟨(scan ("|" ++ n ++ "|" ++ w).toList).drop 3, 2 + width n.toList⟩)) ∧
    (n ≠ "true" → n ≠ "false" → ∀ v, w = "||" ++ v →
      referenceTokens n ++ [⟨.operator .or, ⟨2 + width n.toList, 4 + width n.toList⟩, 1, "||", none⟩] <+:
        scan ("|" ++ n ++ "|" ++ w).toList) := by
  have hclosed := scan_closed h w
  have hname : Reading.isName (wordKind n.toList) = true := by
    rcases wordKind_cases n.toList with hk | ⟨b, hk⟩ <;> rw [hk] <;> rfl
  refine ⟨?_, ?_, ?_⟩
  · split at hclosed
    · rename_i htruth
      obtain ⟨t, ts, hor, hscan⟩ := hclosed
      refine ⟨fun ⟨rest, hprefix⟩ => ?_, fun hnot => absurd htruth.2 (hnot htruth.1)⟩
      rw [hscan] at hprefix
      have hthird := congrArg (fun ts => ts[2]?.map Token.kind) hprefix
      simp [referenceTokens, hor] at hthird
    · rename_i hplain
      exact ⟨fun _ htruth hbar => hplain ⟨htruth, hbar⟩, fun _ => hclosed ▸ List.prefix_append _ _⟩
  · rintro ⟨rest, hscan⟩ catalog levels s multiline
    rw [← hscan, operand_reference catalog levels s multiline hname]
    rfl
  · rintro htrue hfalse v rfl
    rw [if_neg (by simp [htrue, hfalse])] at hclosed
    have hlex := lexeme?_bar .opened ('|' :: v.toList)
    rw [if_pos ⟨rfl, by decide⟩] at hlex
    have htext : ("||" ++ v).toList = '|' :: '|' :: v.toList := by simp
    rw [htext, scanFrom_token hlex] at hclosed
    have hoffset : 2 + width n.toList + width ['|', '|'] = 4 + width n.toList := by
      rw [show width ['|', '|'] = 2 from rfl]
      omega
    rw [hclosed, List.prefix_append_right_inj]
    refine List.cons_prefix_cons.mpr ⟨?_, List.nil_prefix⟩
    simp only [Lexeme.token, List.take_succ_cons, List.take_zero, hoffset]

/-- A name with a hyphen and a letter of two bytes, right before the operator. -/
theorem scan_reference_or :
    IsVariableName "é-x" ∧
      referenceTokens "é-x" ++ [⟨.operator .or, ⟨6, 8⟩, 1, "||", none⟩] <+: scan "|é-x|||y|".toList := by
  have hname : IsVariableName "é-x" := by
    refine ⟨⟨.word, ⟨0, 4⟩, 1, "é-x", none⟩, ?_, rfl, rfl⟩
    decide +kernel
  have htokens := (scan_reference hname "||y|").2.2 (by decide) (by decide) "y|" rfl
  rw [show width "é-x".toList = 4 by decide] at htokens
  exact ⟨hname, htokens⟩

/-- After `|true` the two bars are taken for an operator, so that the reference is not closed. -/
theorem scan_reference_true :
    IsVariableName "true" ∧ ¬ referenceTokens "true" <+: scan "|true||".toList ∧
      (scan "|true||".toList).map (fun t => (t.kind, t.span)) =
        [(.pipe, ⟨0, 1⟩), (.boolean true, ⟨1, 5⟩), (.operator .or, ⟨5, 7⟩)] ∧
      ¬ ∀ n w, IsVariableName n → referenceTokens n <+: scan ("|" ++ n ++ "|" ++ w).toList := by
  have hname : IsVariableName "true" := by
    refine ⟨⟨.boolean true, ⟨0, 4⟩, 1, "true", none⟩, ?_, rfl, rfl⟩
    decide +kernel
  have hnot : ¬ referenceTokens "true" <+: scan "|true||".toList := by decide +kernel
  exact ⟨hname, hnot, by decide +kernel, fun hall => hnot (hall "true" "|" hname)⟩

end UiScript
