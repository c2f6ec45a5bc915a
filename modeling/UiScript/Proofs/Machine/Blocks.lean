import UiScript.Proofs.Machine.Following

/-!
# Commands and blocks by position

The commands of a range (`commands_state`), and the block that a brace opens (`block_state`): its range is scanned
again, its commands are read from the first token of that range on, and the machine goes on behind its closing brace.
-/

namespace UiScript.Machine

open Text Reading

variable {catalog : Catalog} {r : Range} {depth nesting : Nat} {read : Reader Element}
  {read' : Cursor → Element × Cursor} {c c' : Cursor} {t : Token} {ts : List Token}

/-! ## Commands -/

section Command

/-- A command that cannot be read, of which the token `t` is the first. -/
theorem brokenCommand_state (hs : r.Scanned) (h : r.Holds c) (hrest : c.rest = t :: ts) (ht : t.kind.isTrivia = false)
    (hr : Reaches (c.past t ts) c') (name : String) (problem : Problem) :
    brokenCommand r t name problem (r.state depth nesting c') =
      Part.some ((Reading.brokenCommand r.source t name problem c').1,
        r.state depth nesting (Reading.brokenCommand r.source t name problem c').2) := by
  have hreach := hr.trans (Reaches.skipLine c')
  have hc' := (h.past hrest).reaches hr
  simp [brokenCommand, Reading.brokenCommand, hc', Range.lastEnd_state _ _ h hrest ht hreach,
    hs.slice_from h hrest ht hreach]

theorem argument_state (hread : Follows r depth nesting read read') (h : r.Holds c) :
    argument r read (r.state depth nesting c) =
      Part.some ((Reading.argument read' c).1, r.state depth nesting (Reading.argument read' c).2) := by
  have hskip := h.reaches (Reaches.skipComments c)
  simp only [argument, Reading.argument, Range.skipComments_state h, Part.bind_eq_bind, Part.bind_some,
    Range.currentKind_state hskip]
  split <;> simp_all [hread _ hskip]

theorem lineEnd_state (hs : r.Scanned) (h : r.Holds c) :
    lineEnd r (r.state depth nesting c) =
      Part.some ((Reading.lineEnd c).1, r.state depth nesting (Reading.lineEnd c).2) := by
  have hskip := h.reaches (Reaches.skipComments c)
  cases hrest : c.skipComments.rest with
  | nil => simp [lineEnd, Reading.lineEnd, h, hskip, hrest]
  | cons t ts =>
    by_cases hk : t.kind = .newline
    · simp [lineEnd, Reading.lineEnd, h, hskip, hrest, hk]
    · simp [lineEnd, Reading.lineEnd, h, hskip, hrest, hk, hs.describe_token (hskip.mem hrest)]

/-- A command, of which the token `t` is the first. -/
theorem command_state (catalog : Catalog) (hs : r.Scanned) (hread : Follows r depth nesting read read')
    (ha : Advances read') (h : r.Holds c) (hrest : c.rest = t :: ts) (ht : t.kind.isTrivia = false) :
    command catalog r read t (r.state depth nesting (c.past t ts)) =
      Part.some ((Reading.command catalog r.source read' t (c.past t ts)).1,
        r.state depth nesting (Reading.command catalog r.source read' t (c.past t ts)).2) := by
  have hpast := h.past hrest
  have hskip := hpast.reaches (Reaches.skipComments (c.past t ts))
  have hmem := h.mem hrest
  have hbroken : ∀ {c'}, Reaches (c.past t ts) c' → ∀ name problem,
      brokenCommand r t name problem (r.state depth nesting c') =
        Part.some ((Reading.brokenCommand r.source t name problem c').1,
          r.state depth nesting (Reading.brokenCommand r.source t name problem c').2) :=
    fun hr => brokenCommand_state hs h hrest ht hr
  have hcomments := hbroken (Reaches.skipComments (c.past t ts))
  by_cases hword : t.kind = .word
  · cases hahead : (c.past t ts).skipComments.rest with
    | nil =>
      simp [command, Reading.command, hword, hs.slice_token hmem, hpast, hskip, Cursor.kind?, hahead, hcomments]
    | cons u us =>
      by_cases hcolon : u.kind = .colon
      · have hreach := (Reaches.skipComments (c.past t ts)).trans (Reaches.past hahead)
        have hinside := hskip.past hahead
        by_cases hknown : catalog.contains t.text = true
        · -- the argument, what follows it, and the text of both
          have harg := argument_reaches ha ((c.past t ts).skipComments.past u us)
          have hend := lineEnd_reaches (Reading.argument read' ((c.past t ts).skipComments.past u us)).2
          have hlast := hreach.trans (harg.trans hend)
          simp [command, Reading.command, hword, hs.slice_token hmem, hpast, hskip, Cursor.kind?, hahead, hcolon,
            hknown, Range.next_state _ _ hskip hahead, argument_state hread hinside,
            lineEnd_state hs (hinside.reaches harg), Range.lastEnd_state _ _ h hrest ht hlast,
            hs.slice_from h hrest ht hlast]
        · simp [command, Reading.command, hword, hs.slice_token hmem, hpast, hskip, Cursor.kind?, hahead, hcolon,
            hknown, Range.next_state _ _ hskip hahead, hbroken hreach]
      · simp [command, Reading.command, hword, hs.slice_token hmem, hpast, hskip, Cursor.kind?, hahead, hcolon,
          hcomments]
  · simp [command, Reading.command, hword, hs.describe_token hmem, hbroken (Reaches.refl _)]

/-- The round of the commands at the end of the range. -/
theorem commandsRound_nil (found : List Command) (h : r.Holds c) (hrest : c.skipBlank.rest = []) :
    commandsRound catalog r read ⟨found, r.state depth nesting c⟩ =
      Part.some (.inl ⟨found, r.state depth nesting c.skipBlank⟩) := by
  have hskip := h.reaches (Reaches.skipBlank c)
  simp [commandsRound, h, hskip, hrest]

/-- The round of the commands that reads one. -/
theorem commandsRound_cons (catalog : Catalog) (hs : r.Scanned) (hread : Follows r depth nesting read read')
    (ha : Advances read') (found : List Command) (h : r.Holds c) (hrest : c.skipBlank.rest = t :: ts) :
    commandsRound catalog r read ⟨found, r.state depth nesting c⟩ = Part.some
      (if (Reading.command catalog r.source read' t ⟨ts, t.span.stop⟩).1.hasFatal then
        .inl ⟨found ++ [(Reading.command catalog r.source read' t ⟨ts, t.span.stop⟩).1],
          r.state depth nesting (Reading.command catalog r.source read' t ⟨ts, t.span.stop⟩).2⟩
      else
        .inr ⟨found ++ [(Reading.command catalog r.source read' t ⟨ts, t.span.stop⟩).1],
          r.state depth nesting (Reading.command catalog r.source read' t ⟨ts, t.span.stop⟩).2⟩) := by
  have hskip := h.reaches (Reaches.skipBlank c)
  have hcommand := command_state catalog hs hread ha hskip hrest (Cursor.skipBlank_head hrest)
  rw [← show c.skipBlank.past t ts = ⟨ts, t.span.stop⟩ from Cursor.past_eq (Cursor.skipBlank_head hrest)]
  by_cases hfatal : (Reading.command catalog r.source read' t (c.skipBlank.past t ts)).1.hasFatal = true
  · simp [commandsRound, h, hskip, hrest, Range.next_state _ _ hskip hrest, hcommand, hfatal]
  · simp [commandsRound, h, hskip, hrest, Range.next_state _ _ hskip hrest, hcommand, hfatal]

/-- The loop of the commands. -/
theorem commands_loop (catalog : Catalog) (hs : r.Scanned) (hread : Follows r depth nesting read read')
    (ha : Advances read') (found : List Command) (h : r.Holds c) :
    ∃ after, loop (commandsRound catalog r read) ⟨found, r.state depth nesting c⟩ =
      Part.some ⟨found ++ Reading.commands catalog r.source read' c, after⟩ := by
  induction hn : c.rest.length using Nat.strongRecOn generalizing c found with
  | ind n ih =>
    subst hn
    cases hrest : c.skipBlank.rest with
    | nil => exact ⟨_, by rw [loop_stop (commandsRound_nil found h hrest), commands_nil hrest, List.append_nil]⟩
    | cons t ts =>
      have hround := commandsRound_cons catalog hs hread ha found h hrest
      have hafter := (h.reaches (Reaches.past_blank hrest)).reaches (command_reaches catalog r.source ha t _)
      rw [Cursor.past_eq (Cursor.skipBlank_head hrest)] at hafter
      rw [commands_cons ha hrest]
      split
      · rename_i hfatal
        rw [if_pos hfatal] at hround
        exact ⟨_, loop_stop hround⟩
      · rename_i hfatal
        rw [if_neg hfatal] at hround
        obtain ⟨after, hloop⟩ := ih _ (command_lt ha hrest)
          (found ++ [(Reading.command catalog r.source read' t ⟨ts, t.span.stop⟩).1]) hafter rfl
        exact ⟨after, by rw [loop_next hround, hloop, List.append_assoc, List.singleton_append]⟩

/-- **Commands.** The machine starts at the first token of the range. -/
theorem commands_state (catalog : Catalog) (hs : r.Scanned) (hread : Follows r depth nesting read read')
    (ha : Advances read') (first : Nat) :
    commands catalog r read ⟨0, depth, nesting⟩ =
      Part.some (Reading.commands catalog r.source read' ⟨r.tokens, first⟩) := by
  have hstate : (⟨0, depth, nesting⟩ : State) = r.state depth nesting ⟨r.tokens, first⟩ := by
    simp only [Range.state, Nat.sub_self]
  obtain ⟨after, hloop⟩ := commands_loop catalog hs hread ha [] (Range.Holds.start r first)
  rw [commands, hstate, hloop, List.nil_append]
  exact Part.bind_some _ _

end Command

/-! ## Blocks -/

/-- The closing brace that the search finds is the one at which the block is split off. -/
theorem closing?_eq (pending position : Nat) (ts : List Token) :
    closing? pending position ts =
      (splitBlock pending ts).2.map fun _ => position + (splitBlock pending ts).1.length := by
  fun_induction splitBlock pending ts generalizing position with
  | case1 => rfl
  | case2 t ts hk => simp [closing?, hk]
  | case3 t ts pending hk inside rest hsplit ih =>
    rw [hsplit] at ih
    simp only [closing?, hk, ih, List.length_cons, Nat.add_assoc, Nat.add_comm 1]
  | case4 t ts pending hk inside rest hsplit ih =>
    rw [hsplit] at ih
    simp only [closing?, hk, ih, List.length_cons, Nat.add_assoc, Nat.add_comm 1]
  | case5 t ts pending inside rest hsplit _ _ _ ih =>
    rw [hsplit] at ih
    simp_all only [closing?, List.length_cons, Nat.add_assoc, Nat.add_comm 1]

section Block

variable {machine : Range → Reader Element} {reader : Source → Cursor → Element × Cursor} {brace : Token}
  {us : List Token}

/-- The commands of a block are read from the first token of its range on. -/
theorem between_state (catalog : Catalog) (hs : r.Scanned) (hsuffix : brace :: us <:+ r.tokens)
    (hbrace : brace.kind = .opening .curly)
    (hread : ∀ inner : Range, inner.Scanned → Follows inner 0 nesting (machine inner) (reader inner.source))
    (ha : ∀ s, Advances (reader s)) :
    commands catalog (r.between brace us) (machine (r.between brace us)) ⟨0, 0, nesting⟩ =
      Part.some (Reading.commands catalog (r.source.between brace us) (reader (r.source.between brace us))
        ⟨(splitBlock 0 us).1, brace.span.stop⟩) := by
  have hinner : (r.between brace us).Scanned := Range.scanned_of_ofText (hs.between hsuffix hbrace).1
  rw [← Range.source_between]
  exact commands_state catalog hinner (hread _ hinner) (ha _) brace.span.stop

/-- **Blocks.** -/
theorem block_state (catalog : Catalog) (reader : Source → Cursor → Element × Cursor) (hs : r.Scanned)
    (hread : ∀ inner : Range, inner.Scanned → Follows inner 0 nesting (machine inner) (reader inner.source))
    (ha : ∀ s, Advances (reader s)) (h : r.Holds c) (hrest : c.rest = t :: ts)
    (hopens : opens? (t :: ts) = some .block) :
    block catalog r machine (r.state depth nesting c) =
      Part.some ((Reading.block catalog r.source reader t (c.past t ts)).1,
        r.state depth nesting (Reading.block catalog r.source reader t (c.past t ts)).2) := by
  obtain ⟨brace, us, hskip, hbrace⟩ := opens?_brace hopens c
  have hblank := (h.past hrest).reaches (Reaches.skipBlank (c.past t ts))
  have hpast := hblank.past hskip
  have hsuffix : brace :: us <:+ r.tokens := hskip ▸ hblank.suffix
  obtain ⟨hrange, htext⟩ := hs.between hsuffix hbrace
  have hcommands := between_state catalog hs hsuffix hbrace hread ha
  -- the search for the closing brace starts behind the opening one
  have hposition : (r.state depth nesting (c.past t ts).skipBlank).position + 1 =
      (r.state depth nesting ((c.past t ts).skipBlank.past brace us)).position :=
    congrArg State.position (Range.next_state _ _ hblank hskip)
  have hdrop : r.tokens.drop (r.state depth nesting ((c.past t ts).skipBlank.past brace us)).position = us :=
    Range.drop_state hpast
  rcases hclose : splitBlock 0 us with ⟨inside, _ | ⟨u, vs⟩⟩
  · have hbetween : r.source.between brace us = ⟨r.text, r.stop, lastLineOf brace.line inside⟩ := by
      rw [Source.between, hclose]
      rfl
    have hend : (r.state depth nesting (c.past t ts).skipBlank).moveTo r.tokens.length =
        r.state depth nesting ⟨[], lastStopOf brace.span.stop us⟩ := rfl
    rw [hbetween] at hrange htext hcommands
    simp [block, block_unclosed hskip hclose, opener_state h hrest, h.past hrest, hblank, hskip, hposition, hdrop,
      closing?_eq, hclose, hrange, hcommands, htext, hend, blockInside]
  · have hbetween : r.source.between brace us = ⟨r.text, u.span.start, lastLineOf brace.line inside⟩ := by
      rw [Source.between, hclose]
      rfl
    have hus := splitBlock_closed hclose
    have hcloser : r.tokens[(r.state depth nesting ((c.past t ts).skipBlank.past brace us)).position +
        inside.length]? = some u := by
      rw [← List.getElem?_drop, hdrop, hus, List.getElem?_append_right (Nat.le_refl _), Nat.sub_self]
      rfl
    have hend : (r.state depth nesting (c.past t ts).skipBlank).moveTo
        ((r.state depth nesting ((c.past t ts).skipBlank.past brace us)).position + inside.length + 1) =
        r.state depth nesting ⟨vs, u.span.stop⟩ := by
      have hle := hpast.length_le
      simp only [Cursor.past, hus, List.length_append, List.length_cons] at hle
      simp only [State.moveTo, Range.state, Cursor.past, hus, List.length_append, List.length_cons]
      congr 1
      omega
    rw [hbetween] at hrange htext hcommands
    simp [block, block_closed hskip hclose, opener_state h hrest, h.past hrest, hblank, hskip, hposition, hdrop,
      closing?_eq, hclose, hcloser, hrange, hcommands, htext, hend, blockInside]

end Block

end UiScript.Machine
