import Mathlib.Data.List.DropRight
import UiScript.Proofs.Machine
import UiScript.Proofs.Reading.Placement
import UiScript.Proofs.Scan.Seams

/-!
# Positions and cursors

A position in the tokens of a range and a cursor say the same: what is ahead, and where the last token that was read
ends. The state of a cursor (`Range.state`) is the one that stands before the tokens which the cursor has ahead. What
the machine sees and passes over from this state is what the cursor sees and passes over; this holds for the cursors
that come from the first token of the range (`Range.Holds`).

In a range that was scanned (`Range.Scanned`) every cut that reading makes lies between two boundaries of characters,
and so does every block, whose own range is scanned again.
-/

namespace UiScript.Machine

open Text Reading

/-! ## Loops -/

section Loops

variable {α β : Type} {round : α → Part (β ⊕ α)} {a a' : α} {b : β}

/-- A loop ends with the result of its last round. -/
theorem loop_stop (h : round a = Part.some (.inl b)) : loop round a = Part.some b := by
  rw [Part.eq_some_iff]
  exact PFun.fix_stop (h ▸ Part.mem_some _)

/-- A loop goes on from where its first round ends. -/
theorem loop_next (h : round a = Part.some (.inr a')) : loop round a = loop round a' :=
  PFun.fix_fwd_eq (h ▸ Part.mem_some _)

/-- Loops whose first rounds are the same are the same. -/
theorem loop_congr (h : round a = round a') : loop round a = loop round a' := by
  refine Part.ext fun b => PFun.mem_fix_iff.trans ?_
  rw [h]
  exact PFun.mem_fix_iff.symm

end Loops

namespace Range

/-- The state before the tokens that a cursor has ahead. -/
def state (r : Range) (depth nesting : Nat) (c : Cursor) : State := ⟨r.tokens.length - c.rest.length, depth, nesting⟩

/-- The cursor comes from the first token of the range. -/
def Holds (r : Range) (c : Cursor) : Prop := ∃ first, Reaches ⟨r.tokens, first⟩ c

variable {r : Range} {c c' : Cursor} {depth nesting : Nat} {t : Token} {ts : List Token}

theorem Holds.reaches (h : r.Holds c) (hr : Reaches c c') : r.Holds c' := by
  obtain ⟨first, h⟩ := h
  exact ⟨first, h.trans hr⟩

theorem Holds.start (r : Range) (first : Nat) : r.Holds ⟨r.tokens, first⟩ := ⟨first, Reaches.refl _⟩

theorem Holds.past (h : r.Holds c) (hrest : c.rest = t :: ts) : r.Holds (c.past t ts) := h.reaches (Reaches.past hrest)

theorem Holds.suffix (h : r.Holds c) : c.rest <:+ r.tokens := by
  obtain ⟨first, h⟩ := h
  exact h.rest_suffix

theorem Holds.length_le (h : r.Holds c) : c.rest.length ≤ r.tokens.length := h.suffix.length_le

theorem Holds.mem (h : r.Holds c) (hrest : c.rest = t :: ts) : t ∈ r.tokens :=
  h.suffix.mem (hrest ▸ List.mem_cons_self)

/-- Every position up to the end of the range is that of a cursor. -/
theorem exists_cursor {st : State} (h : st.position ≤ r.tokens.length) :
    ∃ c, r.Holds c ∧ st = r.state st.depth st.nesting c := by
  refine ⟨⟨r.tokens.drop st.position, lastStopOf 0 (r.tokens.take st.position)⟩,
    ⟨0, r.tokens.take st.position, (List.take_append_drop _ _).symm, rfl⟩, ?_⟩
  have hposition : r.tokens.length - (r.tokens.drop st.position).length = st.position := by
    rw [List.length_drop]
    omega
  simp only [state, hposition]

@[simp] theorem state_nesting : (r.state depth nesting c).nesting = nesting := rfl

@[simp] theorem source_text : r.source.text = r.text := rfl

@[simp] theorem source_stop : r.source.stop = r.stop := rfl

/-! ## What is ahead -/

theorem state_congr (h : c.rest = c'.rest) : r.state depth nesting c = r.state depth nesting c' := by
  rw [state, state, h]

theorem drop_state (h : r.Holds c) : r.tokens.drop (r.state depth nesting c).position = c.rest := by
  obtain ⟨ts, hts⟩ := h.suffix
  have hposition : (r.state depth nesting c).position = ts.length := by
    simp only [state, ← hts, List.length_append]
    omega
  rw [hposition, ← hts, List.drop_left]

@[simp] theorem current_state (h : r.Holds c) : r.current (r.state depth nesting c) = c.rest.head? := by
  rw [current, ← drop_state h, List.head?_drop]

@[simp] theorem currentKind_state (h : r.Holds c) : r.currentKind (r.state depth nesting c) = c.kind? := by
  rw [currentKind, current_state h, Cursor.kind?]

/-- Passing over the token ahead. -/
theorem next_state (depth nesting : Nat) (h : r.Holds c) (hrest : c.rest = t :: ts) :
    (r.state depth nesting c).next = r.state depth nesting (c.past t ts) := by
  have hle := h.length_le
  rw [hrest, List.length_cons] at hle
  have hposition : r.tokens.length - (ts.length + 1) + 1 = r.tokens.length - ts.length := by omega
  simp only [State.next, State.moveTo, state, hrest, List.length_cons, Cursor.past, hposition]

theorem line_state (h : r.Holds c) : r.line (r.state depth nesting c) = c.line r.source := by
  rw [line, current_state h, Cursor.line]
  cases c.rest.head? <;> rfl

theorem offset_state (h : r.Holds c) : r.offset (r.state depth nesting c) = c.position r.source := by
  rw [offset, current_state h]
  rfl

theorem missing_state (h : r.Holds c) (problem : Problem) :
    r.missing (r.state depth nesting c) problem = c.missing r.source problem := by
  rw [missing, offset_state h, line_state h, Cursor.missing]

/-- The search for the last token that is neither a comment nor a line end, from the end and from the start. -/
theorem find?_reverse (stop : Nat) (ts : List Token) :
    ((ts.reverse.find? (!·.kind.isTrivia)).map (·.span.stop)).getD stop = lastStopOf stop ts := by
  induction ts generalizing stop with
  | nil => rfl
  | cons t ts ih =>
    rw [lastStopOf, ← ih, List.reverse_cons, List.find?_append]
    cases hfind : ts.reverse.find? (!·.kind.isTrivia) with
    | some u => rfl
    | none => cases ht : t.kind.isTrivia <;> simp [ht]

/-- **The end of the last token** is that of the cursor, as soon as one other than comments and line ends is read. -/
theorem lastEnd_state (depth nesting : Nat) (h : r.Holds c) (hrest : c.rest = t :: ts) (ht : t.kind.isTrivia = false)
    (hr : Reaches (c.past t ts) c') (fallback : Nat) :
    r.lastEnd (r.state depth nesting c') fallback = Part.some c'.lastStop := by
  have hc' := (h.past hrest).reaches hr
  obtain ⟨us, hus⟩ := h.suffix
  obtain ⟨vs, hvs, hstop⟩ := hr
  have htokens : r.tokens = us ++ t :: vs ++ c'.rest := by
    rw [← hus, hrest, List.append_assoc, List.cons_append, ← hvs]
    rfl
  have htake : r.tokens.take (r.state depth nesting c').position = us ++ t :: vs := by
    have hposition : (r.state depth nesting c').position = (us ++ t :: vs).length := by
      simp only [state, htokens, List.length_append]
      omega
    rw [hposition, htokens, List.take_left]
  rw [lastEnd, if_pos (by simp only [state]; omega), htake, find?_reverse, lastStopOf_append, lastStopOf,
    if_neg (by simp [ht]), hstop, Cursor.past_eq ht]
  rfl

/-! ## Passing over tokens -/

theorem skipTrivia_skipTrivia (c : Cursor) (multiline : Bool) :
    (c.skipTrivia multiline).skipTrivia multiline = c.skipTrivia multiline := by
  simp only [Cursor.skipTrivia, Cursor.skip, List.dropWhile_idempotent]

/-- The round of a skip before a token. -/
theorem skipRound_cons (depth nesting : Nat) (h : r.Holds c) (p : TokenKind → Bool) (hrest : c.rest = t :: ts) :
    r.skipRound p (r.state depth nesting c) = Part.some
      (if p t.kind then .inr (r.state depth nesting (c.past t ts)) else .inl (r.state depth nesting c)) := by
  simp only [skipRound, currentKind_state h, Cursor.kind?, hrest, List.head?_cons, Option.map_some,
    next_state depth nesting h hrest]
  split <;> rfl

/-- The loop of a skip. -/
theorem skip_state (h : r.Holds c) (p : TokenKind → Bool) :
    r.skip p (r.state depth nesting c) = Part.some (r.state depth nesting (c.skip p)) := by
  induction hrest : c.rest generalizing c with
  | nil =>
    have hround : r.skipRound p (r.state depth nesting c) = Part.some (.inl (r.state depth nesting c)) := by
      simp [skipRound, h, Cursor.kind?, hrest]
    rw [skip, loop_stop hround]
    exact congrArg Part.some (state_congr (by simp [Cursor.skip, hrest]))
  | cons t ts ih =>
    have hround := skipRound_cons depth nesting h p hrest
    cases hp : p t.kind with
    | false =>
      rw [hp, if_neg Bool.false_ne_true] at hround
      rw [skip, loop_stop hround]
      exact congrArg Part.some (state_congr (by simp [Cursor.skip, hrest, hp]))
    | true =>
      rw [hp, if_pos rfl] at hround
      rw [skip, loop_next hround, ← skip, ih (h.past hrest) rfl]
      exact congrArg Part.some (state_congr (by simp [Cursor.skip, Cursor.past, hrest, hp]))

@[simp] theorem skipTrivia_state (h : r.Holds c) :
    r.skipTrivia (r.state depth nesting c) =
      Part.some (r.state depth nesting (c.skipTrivia (decide (0 < depth)))) :=
  skip_state h _

@[simp] theorem skipBlank_state (h : r.Holds c) :
    r.skipBlank (r.state depth nesting c) = Part.some (r.state depth nesting c.skipBlank) :=
  skip_state h _

@[simp] theorem skipComments_state (h : r.Holds c) :
    r.skipComments (r.state depth nesting c) = Part.some (r.state depth nesting c.skipComments) :=
  skip_state h _

@[simp] theorem skipLine_state (h : r.Holds c) :
    r.skipLine (r.state depth nesting c) = Part.some (r.state depth nesting c.skipLine) :=
  skip_state h _

/-! ## Ranges that were scanned -/

/-- The tokens of the range are those of a part of its text. -/
def Scanned (r : Range) : Prop :=
  ∃ before part after, r.text = before ++ part ++ after ∧ r.stop = width before + width part ∧
    r.tokens = scanFrom (width before) r.firstLine .outside 0 part

section Scanned

variable {text before part after : List Char} {start stop line : Nat} {brace : Token}

theorem ofText_part (htext : text = before ++ part ++ after)
    (hstop : min stop (width text) = width before + width part) :
    ofText text (width before) stop line =
      Part.some ⟨text, scanFrom (width before) line .outside 0 part, width before + width part, line⟩ := by
  have hslice : slice? text (width before) (width before + width part) = some part := by rw [htext, slice?_append]
  rw [ofText, hstop, hslice, scanRange_part htext hstop]
  exact Part.bind_some _ _

theorem scanned_of_ofText (h : ofText text start stop line = Part.some r) : r.Scanned := by
  cases hslice : slice? text start (min stop (width text)) with
  | none =>
    rw [ofText, hslice] at h
    exact absurd ((Part.bind_none _).symm.trans h) (Part.none_ne_some _)
  | some part =>
    obtain ⟨before, after, htext, rfl, hstop⟩ := exists_of_slice? hslice
    rw [ofText_part htext hstop] at h
    obtain rfl := Part.some_injective h
    exact ⟨before, part, after, htext, rfl, rfl⟩

theorem Scanned.stop_boundary (h : r.Scanned) : Boundary r.text r.stop := by
  obtain ⟨before, part, after, htext, hstop, -⟩ := h
  exact ⟨before ++ part, after, htext, by rw [hstop, width_append]⟩

/-- Where a token of the range stands. -/
theorem Scanned.token (h : r.Scanned) (ht : t ∈ r.tokens) :
    (t.span.start < t.span.stop ∧ t.span.stop ≤ r.stop) ∧ Boundary r.text t.span.start ∧ Boundary r.text t.span.stop ∧
      t.text.toList = Text.slice r.text t.span.start t.span.stop := by
  obtain ⟨before, part, after, htext, hstop, htokens⟩ := h
  obtain ⟨⟨-, hlt, hle⟩, hfirst, hlast, hpart, -⟩ := (scanFrom_stands _ _ _ _ t (htokens ▸ ht)).inside htext
  exact ⟨⟨hlt, hstop ▸ hle⟩, hfirst, hlast, hpart⟩

theorem Scanned.sorted (h : r.Scanned) : r.tokens.Pairwise fun t u => t.span.stop ≤ u.span.start := by
  obtain ⟨before, part, after, -, -, htokens⟩ := h
  exact htokens ▸ scanFrom_sorted _ _ _ _

/-- A cut between two boundaries gives something. -/
theorem slice_eq (hstart : Boundary r.text start) (hstop : Boundary r.text stop) (hle : start ≤ stop) :
    r.slice ⟨start, stop⟩ = Part.some (r.source.slice ⟨start, stop⟩) := by
  obtain ⟨before, part, after, htext, rfl, rfl⟩ := exists_part hstart hstop hle
  rw [slice, Source.slice, source, Text.slice, htext, slice?_append]
  rfl

/-- The text of a token is cut out. -/
theorem Scanned.slice_token (h : r.Scanned) (ht : t ∈ r.tokens) : r.slice t.span = Part.some t.text := by
  obtain ⟨⟨hlt, -⟩, hfirst, hlast, hpart⟩ := h.token ht
  rw [slice_eq hfirst hlast hlt.le, Source.slice, source, ← hpart, String.ofList_toList]

theorem Scanned.describe_token (h : r.Scanned) (ht : t ∈ r.tokens) : r.describe t = Part.some t.describe := by
  rw [describe, Token.describe, h.slice_token ht]
  split <;> rfl

/-- A token that is a comma is named like one. -/
theorem Scanned.describe_comma (h : r.Scanned) (ht : t ∈ r.tokens) (hk : t.kind = .comma) : t.describe = "," := by
  obtain ⟨before, part, after, -, -, htokens⟩ := h
  obtain ⟨ts₁, ts₂, heq⟩ := List.append_of_mem (htokens ▸ ht)
  obtain ⟨as, c, bs, r', x, rfl, hx, rfl, -⟩ := scanFrom_suffix _ _ _ _ ts₁ t ts₂ heq
  obtain ⟨rfl, rfl⟩ := lexeme?_of_punctuation (d := ',') (by decide) hx hk
  rfl

/-- What is read from a token on is cut out. -/
theorem Scanned.slice_from (h : r.Scanned) (hc : r.Holds c) (hrest : c.rest = t :: ts) (ht : t.kind.isTrivia = false)
    (hr : Reaches (c.past t ts) c') :
    r.slice ⟨t.span.start, c'.lastStop⟩ = Part.some (r.source.slice ⟨t.span.start, c'.lastStop⟩) := by
  have hsuffix : t :: ts <:+ r.tokens := hrest ▸ hc.suffix
  obtain ⟨⟨hlt, -⟩, hfirst, hlast, -⟩ := h.token (hc.mem hrest)
  rcases hr.lastStop_eq with hstop | ⟨u, hu, hstop⟩
  · rw [Cursor.past_eq ht] at hstop
    rw [hstop]
    exact slice_eq hfirst hlast hlt.le
  · have hafter : t.span.stop ≤ u.span.start :=
      List.rel_of_pairwise_cons (h.sorted.sublist hsuffix.sublist) hu
    obtain ⟨⟨hlt', -⟩, -, hlast', -⟩ := h.token (hsuffix.mem (List.mem_cons_of_mem _ hu))
    rw [hstop]
    exact slice_eq hfirst hlast' (by omega)

/-- The range of the block that a brace opens, which the tokens `ts` follow. -/
def between (r : Range) (brace : Token) (ts : List Token) : Range :=
  ⟨r.text, (splitBlock 0 ts).1, (r.source.between brace ts).stop, brace.line⟩

theorem source_between (r : Range) (brace : Token) (ts : List Token) :
    (r.between brace ts).source = r.source.between brace ts := by
  simp only [between, source, Source.between]
  cases splitBlock 0 ts with
  | mk inside close => cases close <;> rfl

/-- A block ends where its brace ends, or later. -/
theorem Scanned.between_stop (h : r.Scanned) (hsuffix : brace :: ts <:+ r.tokens) :
    Boundary r.text (r.source.between brace ts).stop ∧ brace.span.stop ≤ (r.source.between brace ts).stop := by
  obtain ⟨⟨-, hle⟩, -⟩ := h.token (hsuffix.mem List.mem_cons_self)
  rcases hclose : splitBlock 0 ts with ⟨inside, _ | ⟨u, us⟩⟩
  · rw [Source.between, hclose]
    exact ⟨h.stop_boundary, hle⟩
  · have hu : u ∈ ts := splitBlock_closed hclose ▸ by simp
    obtain ⟨-, hfirst, -⟩ := h.token (hsuffix.mem (List.mem_cons_of_mem _ hu))
    rw [Source.between, hclose]
    exact ⟨hfirst, List.rel_of_pairwise_cons (h.sorted.sublist hsuffix.sublist) hu⟩

/-- **The range of a block** is scanned again with the tokens that stand in it, and its text is cut out. -/
theorem Scanned.between (h : r.Scanned) (hsuffix : brace :: ts <:+ r.tokens) (hbrace : brace.kind = .opening .curly) :
    ofText r.text brace.span.stop (r.source.between brace ts).stop brace.line = Part.some (r.between brace ts) ∧
      r.slice ⟨brace.span.stop, (r.source.between brace ts).stop⟩ =
        Part.some (r.source.slice ⟨brace.span.stop, (r.source.between brace ts).stop⟩) := by
  obtain ⟨-, -, hlast, -⟩ := h.token (hsuffix.mem List.mem_cons_self)
  obtain ⟨hend, hle⟩ := h.between_stop hsuffix
  refine ⟨?_, slice_eq hlast hend hle⟩
  obtain ⟨before, part, after, htext, hstart, hstop⟩ := exists_part hlast hend hle
  have hmin : min (r.source.between brace ts).stop (width r.text) = width before + width part := by
    rw [hstop, htext]
    simp only [width_append]
    omega
  -- the outer scan, to which the new one is compared
  obtain ⟨before', part', after', htext', hstop', htokens⟩ := h
  have houter : min r.stop (width r.text) = width before' + width part' := by
    rw [hstop', htext']
    simp only [width_append]
    omega
  rw [htokens, ← scanRange_part htext' houter] at hsuffix
  have hinside := splitBlock_scanRange (s := r.source) (hstop'.trans houter.symm) hsuffix hbrace
  rw [hstart, scanRange_part htext hmin] at hinside
  rw [hstart, ofText_part htext hmin, ← hinside, ← hstop]
  rfl

end Scanned

end Range

end UiScript.Machine
