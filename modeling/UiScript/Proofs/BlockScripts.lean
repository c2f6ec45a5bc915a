import UiScript.Proofs.Element.Report
import UiScript.Proofs.Reading.Everywhere
import UiScript.Proofs.Reading.Levels

/-!
# Blocks read as scripts

A block is read from the tokens between its braces, with the levels that are left where it stands. It has the same
commands as its text has as a script of its own, moved to where the block stands, unless a container in it is too deep
(`parse_block_alone`). This is true of every block, closed or not, however deep it stands in other blocks.

Reading always goes through the tokens of a part of the text (`Ranged`), and entering a block goes to the part between
its braces (`Ranged.opens`).
-/

namespace UiScript

open Text Reading

namespace Reading

/-! ## Ranges of a text -/

/-- The range is a part of the text, and what is ahead are tokens of that part, which are tokens of the text. -/
def Ranged (text : List Char) (s : Source) (c : Cursor) : Prop :=
  s.text = text ∧ ∃ before part after, text = before ++ part ++ after ∧ s.stop = width before + width part ∧
    c.rest <:+ scanFrom (width before) (1 + newlines before) .outside 0 part ∧
    scanFrom (width before) (1 + newlines before) .outside 0 part <:+: scan text

section Ranged

variable {text : List Char} {s : Source} {c c' : Cursor} {brace : Token} {ts : List Token}

theorem ranged_whole (text : List Char) : Ranged text (.whole text) ⟨scan text, 0⟩ := by
  refine ⟨rfl, [], text, [], by simp, by simp [Source.whole], ?_, ?_⟩
  · rw [scan_eq]
    exact List.suffix_refl _
  · rw [scan_eq]
    exact List.infix_refl _

theorem Ranged.reaches (h : Ranged text s c) (hr : Reaches c c') : Ranged text s c' := by
  obtain ⟨htext, before, part, after, heq, hstop, hsuffix, hscan⟩ := h
  exact ⟨htext, before, part, after, heq, hstop, hr.rest_suffix.trans hsuffix, hscan⟩

theorem Ranged.tokens (h : Ranged text s c) : c.rest <:+: scan text := by
  obtain ⟨-, before, part, after, -, -, hsuffix, hscan⟩ := h
  exact hsuffix.isInfix.trans hscan

/-- The part of the text between the braces of a block, or from its brace to the end of the range. -/
theorem Ranged.opens (h : Ranged text s c) (hrest : c.rest = brace :: ts) (hk : brace.kind = .opening .curly) :
    ∃ before part after, text = before ++ part ++ after ∧ brace.span.stop = width before ∧
      brace.line = 1 + newlines before ∧
      (splitBlock 0 ts).1 = scanFrom (width before) (1 + newlines before) .outside 0 part ∧
      s.between brace ts = ⟨text, width before + width part, lastLineOf brace.line (splitBlock 0 ts).1⟩ := by
  obtain ⟨htext, before, part, after, heq, hstop, hsuffix, -⟩ := h
  rw [hrest] at hsuffix
  obtain ⟨as, bs, rfl, hbrace, hline, hts⟩ := scanFrom_after_brace hsuffix hk
  have hwidth : brace.span.stop = width (before ++ as ++ ['\x7b']) := by
    rw [hbrace, width_append, width_append]
    rfl
  have hlines : brace.line = 1 + newlines (before ++ as ++ ['\x7b']) := by
    rw [hline, newlines_append, newlines_append, Nat.add_assoc]
    rfl
  rw [hwidth, hlines] at hts
  rcases hclose : splitBlock 0 ts with ⟨inside, _ | ⟨u, us⟩⟩
  · obtain rfl := splitBlock_unclosed hclose
    refine ⟨before ++ as ++ ['\x7b'], bs, after, by simp [heq], hwidth, hlines, hts, ?_⟩
    rw [Source.between, hclose, htext, hstop]
    simp only [Source.mk.injEq, true_and, and_true, width_append, width_cons, width_nil]
    omega
  · obtain ⟨part, rest, rfl, hinside, -, hspan⟩ := scanFrom_cut _ _ _ _ inside u us
      (hts.symm.trans (splitBlock_closed hclose)) (splitBlock_closer hclose)
    refine ⟨before ++ as ++ ['\x7b'], part, '\x7d' :: rest ++ after, by simp [heq], hwidth, hlines, hinside, ?_⟩
    simp only [Source.between, hclose, htext, hspan]

theorem Ranged.enters (h : Ranged text s c) (hrest : c.rest = brace :: ts) (hk : brace.kind = .opening .curly) :
    Ranged text (s.between brace ts) ⟨(splitBlock 0 ts).1, brace.span.stop⟩ := by
  obtain ⟨before, part, after, heq, -, -, hinside, hbetween⟩ := h.opens hrest hk
  have htokens : (splitBlock 0 ts).1 <:+: c.rest := by
    rw [hrest]
    exact (splitBlock_isPrefix 0 ts).isInfix.trans (List.suffix_cons brace ts).isInfix
  refine ⟨by rw [hbetween], before, part, after, heq, by rw [hbetween], ?_, ?_⟩
  · exact hinside ▸ List.suffix_refl _
  · rw [← hinside]
    exact htokens.trans h.tokens

end Ranged

/-! ## Blocks -/

/-- The brace opens the block at the given place of the text: the word `block` stands where the block starts, and only
comments and line ends stand between the word and the brace. -/
def OpensBlock (text : List Char) (i : Info) (brace : Token) : Prop :=
  brace.kind = .opening .curly ∧ ∃ word gap, word :: gap ++ [brace] <:+: scan text ∧ word.kind = .word ∧
    word.text = "block" ∧ word.span.start = i.span.start ∧ ∀ u ∈ gap, u.kind.isTrivia = true

/-- A block in which nothing is too deep has the commands of its text alone, moved to behind its brace. -/
def ReadAlone (catalog : Catalog) (text : List Char) : Element → Prop
  | .block i commands raw =>
    (Element.block i commands raw).Every true (·.problem ≠ some .tooDeep) →
      ∃ brace, OpensBlock text i brace ∧
        slice text brace.span.stop (brace.span.stop + width raw.toList) = raw.toList ∧
        commands = (script catalog maxNesting raw.toList).map (Command.shift brace.span.stop (brace.line - 1))
  | _ => True

section Blocks

variable {catalog : Catalog} {text : List Char} {levels : Nat} {s : Source} {c : Cursor} {t : Token} {ts : List Token}

theorem block_readAlone (hlt : levels < maxNesting) (h : Ranged text s c) (hrest : c.rest = t :: ts)
    (hg : opens? (t :: ts) = some .block) :
    ReadAlone catalog text (container catalog levels s .block t (c.past t ts)).1 := by
  obtain ⟨brace, us, hbrace, hk⟩ := opens?_brace hg c
  obtain ⟨hword, hblock, -⟩ := opens?_block hg
  have hskip := h.reaches ((Reaches.past hrest).trans (Reaches.skipBlank _))
  obtain ⟨before, part, after, heq, hstop, hline, hinside, hbetween⟩ := hskip.opens hbrace hk
  obtain ⟨i, hi, hread⟩ : ∃ i : Info, i.span.start = t.span.start ∧
      (container catalog levels s .block t (c.past t ts)).1 = .block i _ _ := block_inside hbrace
  have hgap : ts = ts.takeWhile (·.kind.isTrivia) ++ brace :: us := by
    rw [← hbrace]
    exact List.takeWhile_append_dropWhile.symm
  have hraw : s.slice ⟨brace.span.stop, (s.between brace us).stop⟩ = String.ofList part := by
    rw [Source.slice, hbetween, h.1, hstop, heq, slice, slice?_append, Option.getD_some]
  rw [hread, hraw]
  intro hdeep
  refine ⟨brace, ⟨hk, t, ts.takeWhile (·.kind.isTrivia), ?_, hword, hblock, hi.symm, ?_⟩, ?_, ?_⟩
  · refine List.IsInfix.trans ?_ h.tokens
    rw [hrest]
    exact ⟨[], us, by simp [← hgap]⟩
  · exact fun u hu => List.all_eq_true.mp List.all_takeWhile u hu
  · rw [String.toList_ofList, hstop, heq, slice, slice?_append, Option.getD_some]
  · have hlift := commandsIn_levels (Nat.le_of_lt hlt) fun k hk a ha =>
      (hdeep.of_occurs (.command rfl hk ha (.self a))).mono fun x hx => ⟨hx, Or.inl rfl⟩
    rw [scanFrom_eq_shift] at hinside
    have hlast : (s.between brace us).lastLine = lastLineOf 1 (scan part) + newlines before := by
      rw [hbetween, hline, hinside]
      exact lastLineOf_shift 1 (scan part)
    have hpart := commandsIn_part catalog maxNesting before part after (newlines before)
      (s := s.between brace us) (by rw [hbetween, heq]) (by rw [hbetween]) hlast
    have hlines : brace.line - 1 = newlines before := by omega
    rw [← hinside, ← hstop, hlift] at hpart
    rw [String.toList_ofList, hlines, ← hpart]
    rfl

theorem ReadAlone.noting {e : Element} (h : ReadAlone catalog text e) (p : Option Problem) :
    ReadAlone catalog text (e.noting p) := by
  cases e with
  | block i commands raw =>
    intro hdeep
    have hhere : (Element.block i commands raw).problem ≠ some .tooDeep := by
      intro hproblem
      refine hdeep.here ?_
      -- a block that is too deep stays so, whatever is noted on it
      show Problem.note i.problem p = _
      rw [show i.problem = some .tooDeep from hproblem]
      cases p <;> rfl
    exact h (hdeep.of_noting hhere)
  | _ => trivial

/-- **Every block that is read has the commands of its text alone.** -/
theorem readAlone_ensured (catalog : Catalog) (text : List Char) :
    Ensures catalog (Ranged text) (ReadAlone catalog text) where
  reaches h hr := h.reaches hr
  enters h hrest hk := h.enters hrest hk
  leaf _ := by
    obtain ⟨i, l, heq⟩ := leaf_eq _ _
    rw [heq]
    trivial
  sign _ _ := trivial
  unknown _ := trivial
  tuple _ _ _ := trivial
  array _ := trivial
  json _ := trivial
  expression _ _ := trivial
  noting _ h := h.noting _
  block hlt h hrest hg := block_readAlone hlt h hrest hg

end Blocks

end Reading

/-- **A block is read as its text is read alone.** For every block of a script in which nothing is too deep, closed or
not and at any depth, the commands of the block are those of its text as a script of its own, moved to behind the brace
that opens the block. -/
theorem parse_block_alone (catalog : Catalog) (text : String) {k : Command}
    (hk : k ∈ (Script.parse catalog text).commands) {a : Element} (ha : k.argument? = some a) {i : Info}
    {commands : List Command} {raw : String} (hblock : Occurs true (.block i commands raw) a)
    (hdeep : (Element.block i commands raw).Every true (·.problem ≠ some .tooDeep)) :
    ∃ brace, OpensBlock text.toList i brace ∧
      slice text.toList brace.span.stop (brace.span.stop + width raw.toList) = raw.toList ∧
      commands = (Script.parse catalog raw).commands.map (Command.shift brace.span.stop (brace.line - 1)) := by
  have hensured := readAlone_ensured catalog text.toList
  have hread := commands_yields hensured (element_yields hensured false _)
    (chain_reaches _ false (operand_reaches catalog maxNesting _ false)) _ (ranged_whole text.toList) k hk a ha
  exact hread _ hblock hdeep

/-- The block that is the argument of the only command of a block. -/
def Element.innerBlock? : Element → Option (Info × List Command × String)
  | .block _ [.given _ (.block i commands raw)] _ => some (i, commands, raw)
  | _ => none

theorem Element.occurs_innerBlock {a : Element} {i : Info} {commands : List Command} {raw : String}
    (h : a.innerBlock? = some (i, commands, raw)) : Occurs true (.block i commands raw) a := by
  unfold Element.innerBlock? at h
  split at h
  · cases h
    exact .command rfl List.mem_cons_self rfl (.self _)
  · cases h

set_option maxRecDepth 10000 in
/-- A block with a mistake, in a block: its commands are those of its text, behind the second brace of the script. -/
theorem parse_block_alone_nested :
    ∃ k ∈ (Script.parse .any "a: block \x7b\n  b: block \x7b c: (1 2) \x7d\n\x7d").commands,
      ∃ a i commands, k.argument? = some a ∧ Occurs true (.block i commands " c: (1 2) ") a ∧ i.span.start = 16 ∧
        ∃ brace, OpensBlock "a: block \x7b\n  b: block \x7b c: (1 2) \x7d\n\x7d".toList i brace ∧
          commands =
            (Script.parse .any " c: (1 2) ").commands.map (Command.shift brace.span.stop (brace.line - 1)) := by
  have hshape : ((Script.parse .any "a: block \x7b\n  b: block \x7b c: (1 2) \x7d\n\x7d").commands[0]?.any fun k =>
      !k.hasFatal && k.argument?.any fun a => a.innerBlock?.any fun b =>
        b.1.span.start == 16 && b.2.2 == " c: (1 2) ") = true := by decide +kernel
  obtain ⟨k, hk, hshape⟩ := (Option.any_eq_true _ _).mp hshape
  rw [Bool.and_eq_true, Bool.not_eq_true'] at hshape
  obtain ⟨hfatal, hshape⟩ := hshape
  obtain ⟨a, ha, hshape⟩ := (Option.any_eq_true _ _).mp hshape
  obtain ⟨⟨i, commands, raw⟩, hblock, hshape⟩ := (Option.any_eq_true _ _).mp hshape
  rw [Bool.and_eq_true, beq_iff_eq, beq_iff_eq] at hshape
  obtain ⟨hstart, rfl⟩ := hshape
  have hinside := Element.occurs_innerBlock hblock
  have hmild := (Element.every_of_hasFatal (Command.hasFatal_argument ha hfatal)).of_occurs hinside
  have hmem := List.mem_of_getElem? hk
  obtain ⟨brace, hbrace, -, hcommands⟩ := parse_block_alone .any _ hmem ha hinside (hmild.mono (by
    intro x hx hp
    rw [hp] at hx
    cases hx))
  exact ⟨k, hmem, a, i, commands, ha, hinside, hstart, brace, hbrace, hcommands⟩

end UiScript
