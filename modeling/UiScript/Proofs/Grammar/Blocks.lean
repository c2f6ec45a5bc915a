import UiScript.Proofs.Grammar.Completeness
import UiScript.Proofs.Grammar.Soundness
import UiScript.Proofs.Reading.Nested

/-!
# Blocks in the grammar

The blocks of a text (`BlockIn`): the word `block`, and a part of the text between two braces, in which every brace
has its partner and nothing reaches over the closing brace. The commands of the block are those of that part as a
script of its own. With this notion of blocks the grammar is sound (`blocksSound_blockIn`) and complete
(`blocksComplete_blockIn`).
-/

namespace UiScript.Grammar

open Reading Text

/-- The marks are those of a block in the text, and the tree is that block. -/
def BlockIn (catalog : Catalog) (text : List Char) (n : Nat) (ms : List Mark) (e : Element) : Prop :=
  ∃ (word opener closer : Mark) (before part after : List Char),
    ms = word :: opener ::
      (marks (opener.2 + 1) (scanFrom opener.1.span.stop opener.1.line .outside 0 part) ++ [closer]) ∧
    word.1.kind = .word ∧ word.1.text = "block" ∧ opener.1.kind = .opening .curly ∧
    text = before ++ part ++ '\x7d' :: after ∧ opener.1.span.stop = width before ∧ Closes .outside part ∧
    balanced 0 ((scan part).map Token.kind) = true ∧
    e = .block (.blank none) ((script catalog n part).map Command.erase) (String.ofList part)

theorem lawfulBlock_blockIn (catalog : Catalog) (text : List Char) : LawfulBlock (BlockIn catalog text) := by
  refine ⟨?_, ?_⟩
  · rintro n ms e ⟨word, opener, closer, before, part, after, rfl, hword, -⟩
    exact ⟨word, _, rfl, hword⟩
  · rintro n ms e ⟨word, opener, closer, before, part, after, -, -, -, -, -, -, -, -, rfl⟩
    exact ⟨_, _, rfl⟩

theorem erase_shifted (bytes lines : Nat) (cs : List Command) :
    (cs.map (Command.shift bytes lines)).map Command.erase = cs.map Command.erase := by
  simp only [List.map_map, Function.comp_def, Command.erase_shift]

section Blocks

variable {catalog : Catalog} {text : List Char}

/-- The tokens of a part have the same kinds wherever it stands. -/
theorem kinds_scanFrom (offset lines : Nat) (part : List Char) :
    (scanFrom offset (1 + lines) .outside 0 part).map Token.kind = (scan part).map Token.kind := by
  rw [scanFrom_eq_shift, List.map_map]
  rfl

theorem slice_whole (before part after : List Char) :
    (Source.whole (before ++ part ++ after)).slice ⟨width before, width before + width part⟩ = String.ofList part := by
  rw [Source.slice, Source.whole, slice, slice?_append, Option.getD_some]

/-- A text is cut in one way after a number of bytes. -/
theorem append_inj_of_width {as bs cs ds : List Char} (h : as ++ bs = cs ++ ds) (hw : width as = width cs) :
    as = cs ∧ bs = ds := by
  have hdrop := dropBytes?_width as bs
  rw [h, hw, dropBytes?_width, Option.some.injEq] at hdrop
  subst hdrop
  exact ⟨List.append_cancel_right h, rfl⟩

/-- Reading a block whose text is known. -/
theorem block_eq {before part after : List Char} {c : Cursor} {opener : Token} {lines : Nat} (catalog : Catalog)
    (n : Nat) (t : Token)
    (h : c.skipBlank.rest = opener :: scanFrom opener.span.stop opener.line .outside 0 (part ++ '\x7d' :: after))
    (hstop : opener.span.stop = width before) (hline : opener.line = 1 + lines) (hcloses : Closes .outside part)
    (hbalanced : balanced 0 ((scan part).map Token.kind) = true) :
    ∃ u us i, scanFrom opener.span.stop opener.line .outside 0 (part ++ '\x7d' :: after) =
        scanFrom opener.span.stop opener.line .outside 0 part ++ u :: us ∧ u.kind = .closing .curly ∧ i.problem = none ∧
      container catalog n (.whole (before ++ part ++ '\x7d' :: after)) .block t c =
        (.block i ((script catalog n part).map (Command.shift (width before) lines)) (String.ofList part),
          ⟨us, u.span.stop⟩) := by
  obtain ⟨u, us, hscan, hu, hstart⟩ : ∃ u us,
      scanFrom opener.span.stop opener.line .outside 0 (part ++ '\x7d' :: after) =
        scanFrom opener.span.stop opener.line .outside 0 part ++ u :: us ∧ u.kind = .closing .curly ∧
      u.span.start = opener.span.stop + width part := by
    obtain ⟨r, hr⟩ := hcloses
    have hscan := hr opener.span.stop opener.line after
    rw [scanFrom_token (lexeme?_brace r after)] at hscan
    exact ⟨_, _, hscan, rfl, rfl⟩
  have hkinds : balanced 0 ((scanFrom opener.span.stop opener.line .outside 0 part).map Token.kind) = true := by
    rw [hline, kinds_scanFrom]
    exact hbalanced
  rw [hscan] at h
  refine ⟨u, us, (Source.whole (before ++ part ++ '\x7d' :: after)).info ⟨t.span.start, u.span.stop⟩ t.line none,
    hscan, hu, rfl, ?_⟩
  rw [container, block_closed h (splitBlock_of_balanced hu hkinds)]
  have hcommands := blockInside_eq catalog n before part ('\x7d' :: after) hstop hline
  have hslice := slice_whole before part ('\x7d' :: after)
  rw [← hstop, ← hstart] at hslice
  rw [← hstart] at hcommands
  rw [← hcommands, ← hslice]
  rfl

/-- **Blocks that are read without a mistake are blocks of the text.** -/
theorem blocksSound_blockIn (catalog : Catalog) (text : List Char) :
    BlocksSound (BlockIn catalog text) catalog (.whole text) (scan text) := by
  intro n c t ts hc hrest hopens herrors all hall
  obtain ⟨ht, htext, hfind⟩ := opens?_block hopens
  obtain ⟨k, rfl, hpast⟩ := hall.past hrest (by rw [ht]; rfl)
  cases hmarks : marks (k + 1) ts with
  | nil =>
    rw [find?_of_marks hmarks] at hfind
    simp at hfind
  | cons opener more =>
    have hopener : opener.1.kind = .opening .curly := by
      rw [find?_of_marks hmarks] at hfind
      simpa using hfind
    rw [hmarks] at hpast
    obtain ⟨us, hus, hmore, -⟩ := hpast.head
    rw [skipTrivia_true] at hus
    have hsuffix : opener.1 :: us <:+ scan text :=
      hus ▸ ((Reaches.past hrest).trans (Reaches.skipBlank _)).rest_suffix.trans hc
    obtain ⟨before, rest, lines, rfl, hstop, hline, rfl⟩ := scan_after_brace hsuffix hopener
    rcases hsplit : splitBlock 0 (scanFrom opener.1.span.stop opener.1.line .outside 0 rest) with ⟨inside, _ | ⟨u, us⟩⟩
    · rw [container, block_unclosed hus hsplit] at herrors
      simp [Element.hasErrors, Source.info] at herrors
    · have hbalanced := balanced_of_splitBlock hsplit
      have hu := splitBlock_closer hsplit
      obtain ⟨part, after, rfl, rfl, hcloses, -⟩ := scanFrom_cut _ _ _ _ inside u us (splitBlock_closed hsplit) hu
      rw [hline, kinds_scanFrom] at hbalanced
      obtain ⟨u', us', i, hscan, hu', hi, heq⟩ := block_eq catalog n t hus hstop hline hcloses hbalanced
      rw [← List.append_assoc] at herrors ⊢
      rw [heq, Element.erase_block, hi, erase_shifted]
      rw [hscan, marks_append, marks_cons (by rw [hu']; rfl)] at hmore
      generalize opener.2 + 1 + (scanFrom opener.1.span.stop opener.1.line .outside 0 part).length = j at hmore
      refine ⟨(t, k) :: opener :: (marks (opener.2 + 1) (scanFrom opener.1.span.stop opener.1.line .outside 0 part) ++
        [(u', j)]), marks (j + 1) us', ?_, ⟨j + 1, rfl⟩, (t, k), opener, (u', j), before, part, after, rfl, ht, htext,
        hopener, rfl, hstop, hcloses, hbalanced, rfl⟩
      rw [← hmore]
      simp

/-- **Blocks of the text are read.** -/
theorem blocksComplete_blockIn (catalog : Catalog) (text : List Char) :
    BlocksComplete (BlockIn catalog text) catalog (.whole text) (scan text) := by
  rintro n _ _ c more ⟨word, opener, closer, before, part, after, rfl, hword, htext, hopener, rfl, hstop, hcloses,
    hbalanced, rfl⟩ hc hs
  obtain ⟨us, hrest, hus, -⟩ := Sees.head hs
  have hpast : Sees ((c.skipTrivia true).past word.1 us) (opener :: (marks (opener.2 + 1)
      (scanFrom opener.1.span.stop opener.1.line .outside 0 part) ++ [closer]) ++ more) := ⟨_, hus⟩
  obtain ⟨vs, hvs, hmore, -⟩ := Sees.head hpast
  have hopens : opens? (word.1 :: us) = some .block := by
    have hfind := find?_of_marks hus
    simp only [opens?, hword, hfind]
    simp [htext, hopener]
  have hsuffix : opener.1 :: vs <:+ scan (before ++ part ++ '\x7d' :: after) :=
    hvs ▸ ((Reaches.past_skip hrest).trans (Reaches.skipTrivia _ true)).rest_suffix.trans hc
  obtain ⟨before', rest, lines, heq, hstop', hline, rfl⟩ := scan_after_brace hsuffix hopener
  obtain ⟨rfl, rfl⟩ := append_inj_of_width (List.append_assoc _ _ _ ▸ heq) (hstop.symm.trans hstop')
  rw [skipTrivia_true] at hvs
  obtain ⟨u, us', i, hscan, hu, hi, hread⟩ := block_eq catalog n word.1 hvs hstop hline hcloses hbalanced
  rw [Reads, operand_container hrest hopens, hread, Element.erase_block, hi, erase_shifted]
  refine ⟨rfl, ?_⟩
  rw [hscan, marks_append, marks_cons (by rw [hu]; rfl)] at hmore
  have hcut := hmore.trans (List.append_assoc _ _ _)
  exact ⟨_, (List.cons.inj (List.append_cancel_left hcut)).2⟩

end Blocks

end UiScript.Grammar
