import UiScript.Proofs.Element.Places
import UiScript.Proofs.Scan.Lines

/-!
# Tokens tile their range

The tokens of a range lie in it one after the other, and what they leave out are blanks (`scanRange_tiles`). Each of
them is the part of the text that its span says, on the line that this part starts on (`Token.Stands`), and only strings
and line ends hold a line end.

The two steps are about one lexeme (`lexeme?_newline_mem`) and about one scan (`scanFrom_gaps`, `scanFrom_stands`).
-/

namespace UiScript

open Text

variable {r : Reference} {c : Char} {cs before part after text : List Char} {x : Lexeme} {offset line : Nat} {t : Token}

/-! ## One scan -/

/-- The kinds of tokens that can hold a line end. -/
def TokenKind.holdsNewline : TokenKind → Bool
  | .string .. | .newline => true
  | _ => false

/-- A line end stands in a string or alone. -/
theorem lexeme?_newline_mem (h : lexeme? r c cs = some x) (hmem : '\n' ∈ c :: cs.take x.extra) :
    x.kind.holdsNewline = true := by
  by_cases hquote : c = '"' ∨ c = '\''
  · rw [lexeme?_quote hquote] at h
    cases h
    rfl
  rcases List.mem_cons.mp hmem with rfl | hmem
  · rw [lexeme?_newline] at h
    cases h
    rfl
  · -- a token that is no string ends before the first line end after it
    obtain ⟨as, bs, htake⟩ := List.append_of_mem hmem
    have hsplit : cs = as ++ '\n' :: (bs ++ cs.drop x.extra) := by
      rw [← List.cons_append, ← List.append_assoc, ← htake, List.take_append_drop]
    have hle : x.extra ≤ as.length := lexeme?_extra_le hquote (hsplit ▸ h)
    have hlength := congrArg List.length htake
    simp only [List.length_take, List.length_append, List.length_cons] at hlength
    omega

/-- The token is the part of the text that its span says: it is not empty, its line is that of the part, counted from
the start of the text on, and a line end stands in it only if its kind holds one. -/
def Token.Stands (text : List Char) (offset line : Nat) (t : Token) : Prop :=
  ∃ before part after, text = before ++ part ++ after ∧ part ≠ [] ∧
    t.place = ⟨⟨offset + width before, offset + width before + width part⟩, line + newlines before,
      String.ofList part⟩ ∧
    ('\n' ∈ part → t.kind.holdsNewline = true)

theorem scanFrom_stands (offset line : Nat) (r : Reference) (cs : List Char) :
    ∀ t ∈ scanFrom offset line r 0 cs, t.Stands cs offset line := by
  intro t ht
  obtain ⟨ts₁, ts₂, heq⟩ := List.append_of_mem ht
  obtain ⟨as, c, bs, r', x, rfl, hx, rfl, -⟩ := scanFrom_suffix offset line r cs ts₁ t ts₂ heq
  exact ⟨as, c :: bs.take x.extra, bs.drop x.extra, by simp, List.cons_ne_nil _ _, rfl, lexeme?_newline_mem hx⟩

/-- **What no token holds** are blanks other than line ends. -/
theorem scanFrom_gaps (offset line : Nat) (r : Reference) (cs : List Char) : ∀ before d after, cs = before ++ d :: after →
    (∀ t ∈ scanFrom offset line r 0 cs,
      ¬ (t.span.start ≤ offset + width before ∧ offset + width before < t.span.stop)) →
    isBlank d = true ∧ d ≠ '\n' := by
  induction offset, line, r, cs using scanSteps with
  | nil offset line r =>
    intro before d after h
    cases before <;> cases h
  | blank offset line r c cs h ih =>
    intro before d after hsplit hfree
    rw [scanFrom_blank h] at hfree
    cases before with
    | nil =>
      obtain ⟨rfl, -⟩ := List.cons.inj hsplit
      exact (lexeme?_eq_none_iff.mp h).symm
    | cons b before =>
      obtain ⟨rfl, hrest⟩ := List.cons.inj hsplit
      refine ih before d after hrest fun t ht => ?_
      rw [Nat.add_assoc, ← width_cons]
      exact hfree t ht
  | token offset line r c cs x h ih =>
    intro before d after hsplit hfree
    rw [scanFrom_token h] at hfree
    obtain ⟨hfirst, hrest⟩ := List.forall_mem_cons.mp hfree
    have htoken : width (c :: cs.take x.extra) ≤ width before := by
      simp only [Lexeme.token] at hfirst
      omega
    have hcut : c :: cs.take x.extra ++ cs.drop x.extra = before ++ d :: after := by
      rw [List.cons_append, List.take_append_drop, hsplit]
    obtain ⟨part, rfl⟩ := exists_between hcut htoken
    rw [List.append_assoc] at hcut
    refine ih part d after (List.append_cancel_left hcut) fun t ht => ?_
    rw [Nat.add_assoc, ← width_append]
    exact hrest t ht

/-! ## Ranges of a text -/

/-- A range between two boundaries is a part of the text. -/
theorem exists_part {start stop : Nat} (hstart : Boundary text start) (hstop : Boundary text stop)
    (hle : start ≤ stop) :
    ∃ before part after, text = before ++ part ++ after ∧ start = width before ∧ stop = width before + width part := by
  obtain ⟨before, rest, htext, rfl⟩ := hstart
  obtain ⟨before', after, htext', rfl⟩ := hstop
  obtain ⟨part, rfl⟩ := exists_between (htext.symm.trans htext') hle
  exact ⟨before, part, after, htext', rfl, width_append before part⟩

theorem slice_part_eq (htext : text = before ++ part ++ after) :
    slice text (width before) (width before + width part) = part := by
  rw [slice, htext, slice?_append, Option.getD_some]

/-- A token that stands in a part of a text, seen from the whole text. -/
theorem Token.Stands.inside (h : t.Stands part (width before) line) (htext : text = before ++ part ++ after) :
    (width before ≤ t.span.start ∧ t.span.start < t.span.stop ∧ t.span.stop ≤ width before + width part) ∧
      Boundary text t.span.start ∧ Boundary text t.span.stop ∧
      t.text.toList = slice text t.span.start t.span.stop ∧
      t.line = line + newlines (slice text (width before) t.span.start) ∧
      ('\n' ∈ t.text.toList → t.kind.holdsNewline = true) := by
  obtain ⟨as, w, bs, rfl, hne, hplace, hnewline⟩ := h
  obtain ⟨hspan, hline, hsource⟩ : t.span = ⟨width before + width as, width before + width as + width w⟩ ∧
      t.line = line + newlines as ∧ t.text = String.ofList w := by
    simpa [Token.place] using hplace
  have hpos : 0 < width w := Nat.pos_of_ne_zero fun h => hne (eq_nil_of_width h)
  have hword : text = before ++ as ++ w ++ (bs ++ after) := by simp [htext]
  have hahead : text = before ++ as ++ (w ++ bs ++ after) := by simp [htext]
  have hsource' : slice text (width (before ++ as)) (width (before ++ as) + width w) = w := slice_part_eq hword
  have hahead' : slice text (width before) (width before + width as) = as := slice_part_eq hahead
  rw [width_append] at hsource'
  have hinside : width before ≤ width before + width as ∧
      width before + width as < width before + width as + width w ∧
      width before + width as + width w ≤ width before + width (as ++ w ++ bs) := by
    simp only [width_append]
    omega
  rw [hspan, hline, hsource, String.toList_ofList, hsource', hahead']
  exact ⟨hinside, ⟨before ++ as, _, hahead, (width_append _ _).symm⟩,
    ⟨before ++ as ++ w, _, hword, by simp only [width_append]⟩, rfl, rfl, hnewline⟩

/-- **Tokens tile their range.** Take a range between two boundaries of a text; an end beyond the text is the text's
end. Its tokens lie in the range one after the other, each not empty, between two boundaries, and with the text of its
span. The line of a token is the first line and the line ends before it in the range. Every character of the range that
no token holds is a blank other than a line end, and only strings and line ends hold a line end. -/
theorem scanRange_tiles (text : List Char) (start stop line : Nat) (hstart : Boundary text start)
    (hstop : Boundary text (min stop (width text))) (hle : start ≤ stop) :
    (∀ t ∈ scanRange text start stop line,
      (start ≤ t.span.start ∧ t.span.start < t.span.stop ∧ t.span.stop ≤ min stop (width text)) ∧
        Boundary text t.span.start ∧ Boundary text t.span.stop ∧
        t.text.toList = slice text t.span.start t.span.stop ∧
        t.line = line + newlines (slice text start t.span.start) ∧
        ('\n' ∈ t.text.toList → t.kind.holdsNewline = true)) ∧
    (scanRange text start stop line).Pairwise (fun t u => t.span.stop ≤ u.span.start) ∧
    ∀ before c after, text = before ++ c :: after → start ≤ width before → width before < min stop (width text) →
      (∀ t ∈ scanRange text start stop line, ¬ (t.span.start ≤ width before ∧ width before < t.span.stop)) →
      isBlank c = true ∧ c ≠ '\n' := by
  have hinside : start ≤ min stop (width text) := by
    obtain ⟨before, after, rfl, rfl⟩ := hstart
    exact Nat.le_min.mpr ⟨hle, by rw [width_append]; omega⟩
  obtain ⟨first, part, last, htext, rfl, hend⟩ := exists_part hstart hstop hinside
  have hrange : scanRange text (width first) stop line = scanFrom (width first) line .outside 0 part := by
    rw [scanRange, hend, slice_part_eq htext]
  rw [hrange, hend]
  refine ⟨fun t ht => (scanFrom_stands _ _ _ _ t ht).inside htext, scanFrom_sorted _ _ _ _, ?_⟩
  intro before c after hsplit hlow hhigh hfree
  -- the character lies in the part, after the same number of bytes as in the text
  rw [htext, List.append_assoc] at hsplit
  obtain ⟨as, rfl⟩ := exists_between hsplit hlow
  rw [List.append_assoc] at hsplit
  have hpart := List.append_cancel_left hsplit
  rw [width_append] at hhigh hfree
  obtain ⟨rest, hrest⟩ : ∃ rest, part = as ++ rest := exists_between hpart.symm (by omega)
  obtain _ | ⟨d, rest⟩ := rest
  · rw [hrest, List.append_nil] at hhigh
    omega
  · rw [hrest, List.append_assoc] at hpart
    obtain ⟨rfl, -⟩ := List.cons.inj (List.append_cancel_left hpart)
    exact scanFrom_gaps _ _ _ _ as d rest hrest hfree

/-- A string over two lines with an escape, a comment that starts with a letter of two bytes, and a number, scanned from
the second line on with an end beyond the text. -/
def twoLineString : List Char := "é \n'a\\'\nü' //é\n12.5 |x||".toList

/-- The tokens of that text from its second line on, called line 7. -/
theorem scanRange_tiles_string :
    Boundary twoLineString 4 ∧ Boundary twoLineString (min 99 (width twoLineString)) ∧
      (scanRange twoLineString 4 99 7).map (fun t => (t.span, t.line)) =
        [(⟨4, 12⟩, 7), (⟨13, 17⟩, 8), (⟨17, 18⟩, 8), (⟨18, 22⟩, 9), (⟨23, 24⟩, 9), (⟨24, 25⟩, 9), (⟨25, 26⟩, 9),
          (⟨26, 27⟩, 9)] ∧
      ∀ t ∈ scanRange twoLineString 4 99 7, t.line = 7 + newlines (slice twoLineString 4 t.span.start) := by
  have hstart : Boundary twoLineString 4 := ⟨"é \n".toList, "'a\\'\nü' //é\n12.5 |x||".toList, by decide, by decide⟩
  have hstop : Boundary twoLineString (min 99 (width twoLineString)) := ⟨twoLineString, [], by decide, by decide⟩
  refine ⟨hstart, hstop, by decide +kernel, fun t ht => ?_⟩
  exact ((scanRange_tiles twoLineString 4 99 7 hstart hstop (by decide)).1 t ht).2.2.2.2.1

end UiScript
