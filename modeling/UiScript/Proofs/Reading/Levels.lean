import UiScript.Proofs.Reading.Room

/-!
# Commands and levels with more room

Commands whose arguments came to their end are the same when further lines follow them: the commands of those lines come
after them (`command_extend`, `commands_extend`). The commands of a block have nothing behind them but its brace, so an
operand, with all the blocks in it, is the same before further lines and with more levels. This is `operand_extend`, by
induction on the levels; `commandsIn_extend` and `commandsIn_levels` say it of the commands of a range.
-/

namespace UiScript.Reading

/-! ## Commands -/

section Commands

variable {more : List Token} {catalog : Catalog} {s s' : Source} {read read' : Cursor → Element × Cursor} {c : Cursor}

theorem brokenCommand_extend (ho : Outside more) (hs : Widens more s s') (t : Token) (name : String) (p : Problem)
    (c : Cursor) :
    brokenCommand s' t name p (c.extend more) =
      ((brokenCommand s t name p c).1, (brokenCommand s t name p c).2.extend more) := by
  simp only [brokenCommand, Cursor.extend_skipLine ho, hs.slice]
  rfl

theorem argument_none (h : LineEnds c.skipComments.rest) : argument read c = (none, c.skipComments) := by
  cases hrest : c.skipComments.rest with
  | nil => simp only [argument, Cursor.kind?, hrest, List.head?_nil, Option.map_none]
  | cons t ts =>
    rw [hrest] at h
    simp only [argument, Cursor.kind?, hrest, List.head?_cons, Option.map_some, h t rfl]

theorem argument_some {t : Token} {ts : List Token} (h : c.skipComments.rest = t :: ts) (ht : t.kind ≠ .newline) :
    argument read c = (some (read c.skipComments).1, (read c.skipComments).2) := by
  cases hk : t.kind with
  | newline => exact absurd hk ht
  | _ => simp only [argument, Cursor.kind?, h, List.head?_cons, Option.map_some, hk]

theorem argument_extend (ho : Outside more) (hread : Kept more false read read')
    (h : ∀ a ∈ (argument read c).1, a.Every true (Complete more)) :
    argument read' (c.extend more) = ((argument read c).1, (argument read c).2.extend more) := by
  have hskip := Cursor.extend_skipComments ho c
  cases hrest : c.skipComments.rest with
  | nil =>
    have hend : LineEnds c.skipComments.rest := by
      rw [hrest]
      exact outside_nil.lineEnds
    have hend' : LineEnds (c.extend more).skipComments.rest := by
      rw [hskip, Cursor.extend_rest hrest]
      exact ho.lineEnds
    rw [argument_none hend, argument_none hend', hskip]
  | cons t ts =>
    have hrest' := Cursor.extend_head hskip hrest
    by_cases ht : t.kind = .newline
    · have hend : ∀ us, LineEnds (t :: us) := by
        rintro us u ⟨⟩
        exact ht
      have hnone : argument read c = (none, c.skipComments) := argument_none (hrest ▸ hend ts)
      rw [hnone, argument_none (hrest' ▸ hend _), hskip]
    · have hk : t.kind.isTrivia = false := by
        have hcomment : (t.kind == .comment) = false := Cursor.skip_head hrest
        cases hk : t.kind with
        | newline => exact absurd hk ht
        | comment =>
          rw [hk] at hcomment
          cases hcomment
        | _ => rfl
      rw [argument_some hrest ht] at h
      have hargument := hread c.skipComments (Ahead.of_head hrest hk) (h _ rfl) (by intro hm; cases hm)
      rw [argument_some hrest ht, argument_some hrest' ht, hskip, hargument]
      rfl

theorem lineEnd_extend (ho : Outside more) (c : Cursor) :
    lineEnd (c.extend more) = ((lineEnd c).1, (lineEnd c).2.extend more) := by
  simp only [lineEnd, Cursor.extend_skipComments ho]
  cases h : c.skipComments.rest with
  | nil =>
    simp only [Cursor.extend_rest h, List.nil_append]
    cases more with
    | nil => rfl
    | cons u us => simp only [ho.lineEnds u rfl, if_true]
  | cons t ts =>
    simp only [Cursor.extend_rest h, List.cons_append, Cursor.extend_skipLine ho]
    split <;> rfl

theorem command_extend (ho : Outside more) (hs : Widens more s s') (hread : Kept more false read read') (t : Token)
    (h : ∀ a ∈ (command catalog s read t c).1.argument?, a.Every true (Complete more)) :
    command catalog s' read' t (c.extend more) =
      ((command catalog s read t c).1, (command catalog s read t c).2.extend more) := by
  simp only [command, Cursor.extend_skipComments ho, brokenCommand_extend ho hs] at h ⊢
  by_cases hword : t.kind = .word
  · simp only [if_pos hword] at h ⊢
    cases hrest : c.skipComments.rest with
    | nil =>
      simp only [Cursor.extend_rest hrest, List.nil_append]
      cases more with
      | nil => rfl
      | cons u us => simp [ho.lineEnds u rfl]
    | cons u us =>
      simp only [hrest] at h
      simp only [Cursor.extend_rest hrest, List.cons_append, Cursor.extend_past]
      by_cases hcolon : u.kind = .colon
      · simp only [if_pos hcolon] at h ⊢
        by_cases hknown : catalog.contains t.text = true
        · simp only [if_pos hknown] at h ⊢
          have hargument := argument_extend ho hread (c := c.skipComments.past u us) (by
            intro a ha
            apply h
            rw [Option.mem_def.mp ha]
            rfl)
          simp only [hargument, lineEnd_extend ho, hs.slice]
          rfl
        · simp only [if_neg hknown, brokenCommand_extend ho hs]
      · simp only [if_neg hcolon]
  · simp only [if_neg hword]

/-- Commands depend only on what follows comments and line ends. -/
theorem commands_congr {c' : Cursor} (ha : Advances read) (h : c.skipBlank.rest = c'.skipBlank.rest) :
    commands catalog s read c = commands catalog s read c' := by
  cases hrest : c.skipBlank.rest with
  | nil => exact (commands_nil hrest).trans (commands_nil (h ▸ hrest)).symm
  | cons t ts => exact (commands_cons ha hrest).trans (commands_cons ha (h ▸ hrest)).symm

/-- **The commands of a range come before those of the further tokens.** -/
theorem commands_extend (ho : Outside more) (hs : Widens more s s') (hread : Kept more false read read')
    (ha : Advances read) (ha' : Advances read') (c : Cursor)
    (harguments : ∀ k ∈ commands catalog s read c, ∀ a ∈ k.argument?, a.Every true (Complete more))
    (hfatal : more = [] ∨ ∀ k ∈ commands catalog s read c, k.hasFatal = false) :
    commands catalog s' read' (c.extend more) =
      commands catalog s read c ++ commands catalog s' read' ⟨more, 0⟩ := by
  induction hn : c.rest.length using Nat.strongRecOn generalizing c with
  | ind n ih =>
    cases h : c.skipBlank.rest with
    | nil =>
      have hblank : ∀ u ∈ c.rest, u.kind.isTrivia = true := List.dropWhile_eq_nil_iff.mp h
      rw [commands_nil h, List.nil_append]
      apply commands_congr ha'
      show (c.rest ++ more).dropWhile _ = more.dropWhile _
      rw [List.dropWhile_append_of_pos hblank]
    | cons t ts =>
      have hahead : Ahead more c := (Ahead.of_head h (Cursor.skipBlank_head h)).of_reaches (Reaches.skipBlank c)
      have h' := Cursor.extend_head (Cursor.extend_skipBlank hahead) h
      rw [commands_cons ha h] at harguments hfatal ⊢
      obtain ⟨hargument, hrest⟩ := List.forall_mem_cons.mp harguments
      have hcommand := command_extend ho hs hread t hargument
      have hcursor : (⟨ts ++ more, t.span.stop⟩ : Cursor) = Cursor.extend ⟨ts, t.span.stop⟩ more := rfl
      rw [commands_cons ha' h', hcursor, hcommand, List.cons_append]
      congr 1
      split
      · rename_i hf
        -- after a fatal problem nothing is read, so there may be no further tokens
        obtain rfl : more = [] := by
          rcases hfatal with hmore | hfatal
          · exact hmore
          · rw [hfatal _ List.mem_cons_self] at hf
            cases hf
        rw [List.nil_append, commands_nil rfl]
      · rename_i hf
        rw [if_neg hf] at hrest hfatal
        exact ih _ (hn ▸ command_lt ha h) _ hrest
          (hfatal.imp_right fun hall k hk => hall k (List.mem_cons_of_mem _ hk)) rfl

end Commands

/-! ## Blocks and levels -/

section Levels

variable {catalog : Catalog} {more : List Token} {s s' : Source}

theorem block_extend (hs : Widens more s s') {element element' : Source → Cursor → Element × Cursor}
    (hinside : ∀ inner c,
      (∀ k ∈ commands catalog inner (element inner) c, ∀ a ∈ k.argument?, a.Every true (Complete [])) →
        commands catalog inner (element' inner) c = commands catalog inner (element inner) c)
    (t : Token) {c : Cursor} (hc : Ahead more c) (h : (block catalog s element t c).1.Every true (Complete more)) :
    block catalog s' element' t (c.extend more) = extendRead more (block catalog s element t c) := by
  cases hrest : c.skipBlank.rest with
  | nil =>
    obtain rfl := hc.skipBlank.eq_nil hrest
    rw [Cursor.extend_nil, hs.same rfl, block_nil hrest, block_nil hrest]
    simp [extendRead]
  | cons brace ts =>
    have hrest' := Cursor.extend_head (Cursor.extend_skipBlank hc) hrest
    have hcommands : ∀ {i inside stop text}, (Element.block i (blockInside catalog s.text element brace inside stop)
        text).Every true (Complete more) → blockInside catalog s.text element' brace inside stop =
          blockInside catalog s.text element brace inside stop := by
      intro i inside stop text hevery
      apply hinside
      intro k hk a ha
      have hargument := hevery.of_occurs (.command rfl hk ha (.self a))
      exact hargument.mono fun x hx => ⟨hx.shallow, Or.inl rfl⟩
    rcases hclose : splitBlock 0 ts with ⟨inside, _ | ⟨u, us⟩⟩
    · rw [block_unclosed hrest hclose] at h ⊢
      obtain rfl : more = [] := by
        rcases h.here.closed with hmore | hne
        · exact hmore
        · exact absurd rfl (hne .block)
      rw [Cursor.extend_nil, hs.same rfl, block_unclosed hrest hclose, hcommands h]
      simp [extendRead]
    · rw [block_closed hrest hclose] at h ⊢
      rw [block_closed hrest' (splitBlock_extend hclose), hs.text, hs.info, hs.slice, hcommands h]
      rfl

/-- A brace follows the word that opens a block. -/
theorem Ahead.of_block {t : Token} {ts : List Token} (h : opens? (t :: ts) = some .block) (c : Cursor) :
    Ahead more (c.past t ts) := by
  obtain ⟨brace, us, hrest, hk⟩ := opens?_brace h c
  exact (Ahead.of_head hrest (by rw [hk]; rfl)).of_reaches (Reaches.skipBlank _)

theorem Widens.refl (s : Source) : Widens [] s s := ⟨rfl, fun _ => rfl⟩

section Ranges

variable {levels levels' : Nat} {c : Cursor}

/-- The commands of a range depend only on what follows comments and line ends. -/
theorem commandsIn_congr {c' : Cursor} (h : c.skipBlank.rest = c'.skipBlank.rest) :
    commandsIn catalog levels s c = commandsIn catalog levels s c' :=
  commands_congr (chain_reaches s false (operand_reaches catalog levels s false)) h

/-- The commands of a range come before those of the further tokens, if operands are kept. -/
theorem commandsIn_kept (ho : Outside more) (hs : Widens more s s')
    (hread : Kept more false (operand catalog levels s false) (operand catalog levels' s' false))
    (harguments : ∀ k ∈ commandsIn catalog levels s c, ∀ a ∈ k.argument?, a.Every true (Complete more))
    (hfatal : more = [] ∨ ∀ k ∈ commandsIn catalog levels s c, k.hasFatal = false) :
    commandsIn catalog levels' s' (c.extend more) =
      commandsIn catalog levels s c ++ commandsIn catalog levels' s' ⟨more, 0⟩ := by
  have ha := operand_reaches catalog levels s false
  have ha' := operand_reaches catalog levels' s' false
  exact commands_extend ho hs (chain_extend ho hs hread ha) (chain_reaches s false ha) (chain_reaches s' false ha') c
    harguments hfatal

/-- Commands whose arguments came to their end are the same with more levels, if operands are kept. -/
theorem commandsIn_lift (hread : Kept [] false (operand catalog levels s false) (operand catalog levels' s false))
    (harguments : ∀ k ∈ commandsIn catalog levels s c, ∀ a ∈ k.argument?, a.Every true (Complete [])) :
    commandsIn catalog levels' s c = commandsIn catalog levels s c := by
  have hcommands := commandsIn_kept outside_nil (Widens.refl s) hread harguments (Or.inl rfl)
  have hnone : commandsIn catalog levels' s ⟨[], 0⟩ = [] := commands_nil rfl
  rwa [Cursor.extend_nil, hnone, List.append_nil] at hcommands

end Ranges

/-- **An operand that came to its end** is the same before further tokens and with more levels. -/
theorem operand_extend (catalog : Catalog) {levels levels' : Nat} (hle : levels ≤ levels') (ho : Outside more)
    (hs : Widens more s s') (multiline : Bool) :
    Kept more multiline (operand catalog levels s multiline) (operand catalog levels' s' multiline) := by
  induction levels using Nat.strongRecOn generalizing levels' more s s' multiline with
  | ind levels ih =>
    intro c hc hevery hafter
    have hskip : (c.extend more).skipTrivia multiline = (c.skipTrivia multiline).extend more :=
      Cursor.extend_skipTrivia ho fun _ => hc
    cases hrest : (c.skipTrivia multiline).rest with
    | nil =>
      obtain rfl := (hc.skipTrivia multiline).eq_nil hrest
      have hg : opens? (c.skipTrivia multiline).rest = none := by
        rw [hrest]
        rfl
      rw [Cursor.extend_nil, hs.same rfl, operand_leaf hg, operand_leaf hg]
      simp [extendRead]
    | cons t ts =>
      have hrest' := Cursor.extend_head hskip hrest
      have hopens : opens? (t :: (ts ++ more)) = opens? (t :: ts) := opens?_extend ho
      cases hg : opens? (t :: ts) with
      | none =>
        rw [operand_leaf (by rw [hrest', hopens, hg]), operand_leaf (by rw [hrest, hg]), hskip]
        exact leaf_extend ho hs hrest
      | some g =>
        cases levels with
        | zero =>
          rw [operand_tooDeep (by rw [hrest, hg])] at hevery
          exact absurd rfl hevery.here.shallow
        | succ below =>
          obtain ⟨below', rfl⟩ : ∃ below', levels' = below' + 1 := ⟨levels' - 1, by omega⟩
          have hbelow : below ≤ below' := by omega
          have ha := operand_reaches catalog below
          have hconsumes := chain_consumes s (ha s true) (operand_consumes catalog below s true)
          have hinside := chain_extend ho hs (ih below (Nat.lt_succ_self _) hbelow ho hs true) (ha s true)
          rw [operand_container hrest hg] at hevery ⊢
          rw [operand_container hrest' (hopens.trans hg), hskip, Cursor.extend_past]
          cases g with
          | tuple => exact tuple_extend ho hs hinside hconsumes t _ hevery
          | array => exact array_extend ho hs hinside hconsumes t _ hevery
          | json => exact json_extend ho hs hinside (chain_reaches s true (ha s true)) hconsumes t _ hevery
          | block =>
            have hlines := fun inner (c' : Cursor) =>
              commandsIn_lift (c := c') (ih below (Nat.lt_succ_self _) hbelow outside_nil (Widens.refl inner) false)
            exact block_extend hs hlines t (Ahead.of_block hg _) hevery

section Ranges

variable {levels levels' : Nat} {c : Cursor}

/-- **The commands of a range come before those of the further tokens.** -/
theorem commandsIn_extend (ho : Outside more) (hs : Widens more s s')
    (harguments : ∀ k ∈ commandsIn catalog levels s c, ∀ a ∈ k.argument?, a.Every true (Complete more))
    (hfatal : more = [] ∨ ∀ k ∈ commandsIn catalog levels s c, k.hasFatal = false) :
    commandsIn catalog levels s' (c.extend more) =
      commandsIn catalog levels s c ++ commandsIn catalog levels s' ⟨more, 0⟩ :=
  commandsIn_kept ho hs (operand_extend catalog (Nat.le_refl _) ho hs false) harguments hfatal

/-- **The commands of a range are the same with more levels**, if no container in them was too deep. -/
theorem commandsIn_levels (hle : levels ≤ levels')
    (harguments : ∀ k ∈ commandsIn catalog levels s c, ∀ a ∈ k.argument?, a.Every true (Complete [])) :
    commandsIn catalog levels' s c = commandsIn catalog levels s c :=
  commandsIn_lift (operand_extend catalog hle outside_nil (Widens.refl s) false) harguments

end Ranges

end Levels

end UiScript.Reading
