import UiScript.Proofs.Element.Nodes
import UiScript.Proofs.Reading.Placement

/-!
# Nodes are read in order

The nodes of what is read start one after the other in the text, whatever is wrong with them (`Sequenced`). Ends can lie
beyond what was read where something fatal is wrong, but starts cannot: every element starts with the token ahead of it,
and the tokens that are read for it are behind the cursor afterwards.

Each reader is looked at once, and `operand_sequences` is the induction on the levels. The nodes of a range start in it,
up to its last token (`commands_sequenced`).
-/

namespace UiScript

open Text

/-- Where a node starts, as a span of no width. -/
def Node.point (n : Node) : Span := ⟨n.place.span.start, n.place.span.start⟩

/-- The nodes start between two offsets, and none of them before the one in front of it. -/
def Sequenced (start stop : Nat) (ns : List Node) : Prop := Laid start stop (ns.map Node.point)

section Sequenced

variable {start middle stop : Nat} {ns ms : List Node} {n : Node} {e : Element}

theorem Sequenced.append (h : Sequenced start middle ns) (h' : Sequenced middle stop ms) (hle : start ≤ middle)
    (hle' : middle ≤ stop) : Sequenced start stop (ns ++ ms) := by
  rw [Sequenced, List.map_append]
  exact Laid.append h h' hle hle'

theorem Sequenced.mono (h : Sequenced middle stop ns) (hle : start ≤ middle) {stop' : Nat} (hstop : stop ≤ stop') :
    Sequenced start stop' ns := Laid.mono h hle hstop

/-- A node in front of those that it holds. -/
theorem Sequenced.cons (hstart : n.place.span.start = start) (h : Sequenced middle stop ns) (hle : start ≤ middle)
    (hle' : middle ≤ stop) : Sequenced start stop (n :: ns) :=
  Laid.cons (Nat.le_of_eq hstart.symm) (Nat.le_trans (Nat.le_of_eq hstart) hle) h hle hle'

/-- An element that is not a block, with its parts. -/
theorem sequenced_of_children (hblock : e.kind ≠ .block) (hstart : e.place.span.start = start)
    (h : Sequenced middle stop (e.children.flatMap Element.nodes)) (hle : start ≤ middle) (hle' : middle ≤ stop) :
    Sequenced start stop e.nodes := by
  rw [Element.nodes_eq hblock]
  exact h.cons hstart hle hle'

theorem sequenced_leaf {i : Info} {l : Leaf} (hstart : i.span.start = start) (hle : start ≤ stop) :
    Sequenced start stop (Element.leaf i l).nodes :=
  sequenced_of_children l.kind_ne_block hstart (Laid.nil start stop) (Nat.le_refl _) hle

/-- A problem that is noted on an element leaves its nodes where they are. -/
theorem Sequenced.noting (h : Sequenced start stop e.nodes) (p : Option Problem) :
    Sequenced start stop (e.noting p).nodes := by
  have hpoints : (e.noting p).nodes.map Node.point = e.nodes.map Node.point := by
    cases e <;> rfl
  rw [Sequenced, hpoints]
  exact h

end Sequenced

namespace Reading

/-! ## Leaves and chains -/

/-- A reader whose nodes start in order, from the token ahead up to the last token read, provided that the token ahead
is neither a comment nor a line end. -/
def Sequences (text : List Char) (s : Source) (multiline : Bool) (read : Cursor → Element × Cursor) : Prop :=
  ∀ {c t ts}, Aligned text s c → (c.skipTrivia multiline).rest = t :: ts → t.kind.isTrivia = false →
    Sequenced t.span.start (read c).2.lastStop (read c).1.nodes

section Chains

variable {text : List Char} {s : Source} {multiline : Bool} {read : Cursor → Element × Cursor} {c : Cursor} {t : Token}
  {ts : List Token}

/-- A token that is read is behind the cursor afterwards. -/
theorem Aligned.start_le (h : Aligned text s c) (hrest : c.rest = t :: ts) {c' : Cursor} (ht : t.kind.isTrivia = false)
    (hr : Reaches (c.past t ts) c') : t.span.start ≤ c'.lastStop := by
  rw [Cursor.past_eq ht] at hr
  exact Nat.le_trans (h.exact (hrest ▸ List.mem_cons_self)).le ((h.past hrest ht).lastStop_mono hr)

theorem leaf_sequenced (h : Aligned text s c) (hrest : c.rest = t :: ts) (ht : t.kind.isTrivia = false) :
    Sequenced t.span.start (leaf s c).2.lastStop (leaf s c).1.nodes := by
  obtain ⟨i, l, hleaf⟩ := leaf_eq s c
  have hstart := (leaf_placement h hrest ht).start
  rw [hleaf] at hstart ⊢
  exact sequenced_leaf hstart (h.start_le hrest ht (leaf_consumes s hrest ht))

theorem tooDeep_sequenced (h : Aligned text s c) (hrest : c.rest = t :: ts) (ht : t.kind.isTrivia = false) :
    Sequenced t.span.start (tooDeep s c).2.lastStop (tooDeep s c).1.nodes :=
  sequenced_leaf (tooDeep_placement h hrest ht).start (h.start_le hrest ht (tooDeep_consumes s hrest))

/-- What is read where the token ahead is neither a comment nor a line end. -/
theorem Sequences.sequenced (hread : Sequences text s multiline read) (h : Aligned text s c) (hrest : c.rest = t :: ts)
    (ht : t.kind.isTrivia = false) : Sequenced c.lastStop (read c).2.lastStop (read c).1.nodes :=
  (hread h (by rw [skipTrivia_of_head multiline hrest ht, hrest]) ht).mono
    (h.ahead t (hrest ▸ List.mem_cons_self)).1 (Nat.le_refl _)

/-- An operator before the operand ahead. -/
theorem operator_sequenced {ahead : Cursor} {op : Operator} {doubled : Option Problem} (h : Aligned text s c)
    (hrest : (c.skipTrivia multiline).rest = t :: ts) (hop : t.kind = .operator op)
    (hahead : skipOperator op multiline (((c.skipTrivia multiline).past t ts).skipTrivia multiline) =
      (doubled, ahead)) :
    Sequenced c.lastStop ahead.lastStop (Element.leaf (tokenInfo t none) (.operator op)).nodes := by
  have hskip := h.reaches (Reaches.skipTrivia c multiline)
  have hreach := (Reaches.skipTrivia ((c.skipTrivia multiline).past t ts) multiline).trans
    (skipOperator_reaches op multiline _)
  rw [hahead] at hreach
  have hsign : Sequenced t.span.start ahead.lastStop (Element.leaf (tokenInfo t none) (.operator op)).nodes :=
    sequenced_leaf rfl (hskip.start_le hrest (by rw [hop]; rfl) hreach)
  exact hsign.mono (hskip.ahead t (hrest ▸ List.mem_cons_self)).1 (Nat.le_refl _)

/-- **The operators and operands of a chain start in order.** -/
theorem chainTail_sequenced (hread : Sequences text s multiline read) (ha : Advances read) (c : Cursor)
    (h : Aligned text s c) :
    Sequenced c.lastStop (chainTail multiline read c).cursor.lastStop
      ((chainTail multiline read c).parts.flatMap Element.nodes) := by
  fun_induction chainTail multiline read c with
  | case1 c _ => exact Laid.nil _ _
  | case2 c t ts hrest op hop sign doubled ahead hahead hstarts right after hright hlt tail ih =>
    obtain ⟨u, us, hu, hk⟩ := exists_of_startsOperand hstarts
    have hreach := operatorAhead_reaches hrest hahead
    have hahead' := h.reaches hreach
    have hoperand := hread.sequenced hahead' hu hk
    have hafter := ha ahead
    rw [hright] at hoperand hafter
    have htail := chainTail_reaches ha multiline after
    have hrow := hoperand.append (ih (hahead'.reaches hafter)) (hahead'.lastStop_mono hafter)
      ((hahead'.reaches hafter).lastStop_mono htail)
    exact (operator_sequenced h hrest hop hahead).append hrow (h.lastStop_mono hreach)
      (hahead'.lastStop_mono (hafter.trans htail))
  | case3 c t ts hrest op hop sign doubled ahead hahead hstarts right after hright hlt =>
    have hafter := ha ahead
    rw [hright] at hafter
    exact absurd (Nat.lt_of_le_of_lt hafter.length_le (operatorAhead_lt hrest hahead)) hlt
  | case4 c t ts hrest op hop sign doubled ahead hahead hstarts =>
    rw [List.flatMap_singleton]
    exact operator_sequenced h hrest hop hahead
  | case5 c t ts hrest hop => exact Laid.nil _ _

theorem chain_sequences (hplaces : Places text s multiline read) (hread : Sequences text s multiline read)
    (ha : Advances read) (hc : Consumes multiline read) : Sequences text s multiline (chain s multiline read) := by
  intro c t ts h hrest ht
  have hfirst := hread h hrest ht
  have hafter := h.reaches (ha c)
  have htail := chainTail_sequenced hread ha (read c).2 hafter
  have hmono := hafter.lastStop_mono (chainTail_reaches ha multiline (read c).2)
  have hle : t.span.start ≤ (read c).2.lastStop :=
    (h.reaches (Reaches.skipTrivia c multiline)).start_le hrest ht (hc c t ts hrest ht)
  unfold chain
  dsimp only
  split
  · exact hfirst.mono (Nat.le_refl _) hmono
  · refine sequenced_of_children (fun hk => by cases hk) (hplaces h hrest ht).start ?_ (Nat.le_refl _)
      (Nat.le_trans hle hmono)
    rw [Element.children, List.flatMap_cons]
    exact hfirst.append htail hle hmono

end Chains

/-! ## Lists -/

section Lists

variable {text : List Char} {s : Source} {read : Cursor → Element × Cursor} {α : Type} {parts : α → List Element}
  {c : Cursor} {t : Token} {ts : List Token} {l : Listing α}

/-- A reader of items whose nodes start in order. -/
def SequencesItems (text : List Char) (s : Source) (parts : α → List Element) (item : Cursor → Item α) : Prop :=
  ∀ {c t ts}, Aligned text s c → c.rest = t :: ts → t.kind.isTrivia = false →
    Sequenced c.lastStop (item c).cursor.lastStop ((parts (item c).value).flatMap Element.nodes)

/-- **The items of a list start in order.** -/
theorem listing_sequenced {item : Cursor → Item α} (hitem : SequencesItems text s parts item)
    (ha : ∀ c, Reaches c (item c).cursor) (g : Group) (awaiting : Bool) (c : Cursor) (h : Aligned text s c) :
    Sequenced c.lastStop (listing s g item awaiting c).cursor.lastStop
      (((listing s g item awaiting c).items.flatMap parts).flatMap Element.nodes) := by
  fun_induction listing s g item awaiting c with
  | case1 awaiting c hrest => exact Laid.nil _ _
  | case2 awaiting c t ts hrest ahead _ hclose => exact Laid.nil _ _
  | case3 awaiting c t ts hrest ahead _ _ _ ih =>
    have hreach := Reaches.past_skip hrest
    exact (ih (h.reaches hreach)).mono (h.lastStop_mono hreach) (Nat.le_refl _)
  | case4 awaiting c t ts hrest ahead _ _ _ _ ih =>
    have hreach := Reaches.past_skip hrest
    exact (ih (h.reaches hreach)).mono (h.lastStop_mono hreach) (Nat.le_refl _)
  | case5 awaiting c t ts hrest ahead _ _ _ _ read problem hlt ih =>
    have hskip := h.reaches (Reaches.skipTrivia c true)
    have hafter := hskip.reaches (ha ahead)
    have hlist := listing_reaches s g ha false read.cursor
    have hrow := (hitem hskip hrest (Cursor.skipTrivia_head hrest)).append (ih hafter) (hskip.lastStop_mono (ha ahead))
      (hafter.lastStop_mono hlist)
    rwa [← List.flatMap_append] at hrow
  | case6 awaiting c t ts hrest ahead _ _ _ _ read problem hlt =>
    have hskip := h.reaches (Reaches.skipTrivia c true)
    have hrow := hitem hskip hrest (Cursor.skipTrivia_head hrest)
    rwa [← List.flatMap_singleton parts read.value] at hrow

theorem elementItem_sequences (hread : Sequences text s true read) :
    SequencesItems text s (fun e => [e]) (elementItem read) := by
  intro c t ts h hrest ht
  rw [List.flatMap_singleton]
  exact hread.sequenced h hrest ht

/-- A key starts before its value. -/
theorem entry_sequences (hread : Sequences text s true read) (ha : Advances read) :
    SequencesItems text s Entry.parts (entry read) := by
  intro c t ts h hrest ht
  have hkey := (hread.sequenced h hrest ht).noting (keyProblem? (read c).1)
  have hbare : Sequenced c.lastStop (read c).2.lastStop
      ((Entry.bare ((read c).1.noting (keyProblem? (read c).1))).parts.flatMap Element.nodes) := by
    rwa [Entry.parts, List.flatMap_singleton]
  have hahead := h.reaches ((ha c).trans (Reaches.skipTrivia _ true))
  unfold entry
  dsimp only
  split
  · exact hbare
  · rename_i u us hu
    split
    · have hcolon := (Reaches.past hu).trans (Reaches.skipTrivia _ true)
      have hinside := hahead.reaches hcolon
      have hmono := hahead.lastStop_mono hcolon
      split
      · exact hbare.mono (Nat.le_refl _) hmono
      · exact hbare.mono (Nat.le_refl _) hmono
      · exact hbare.mono (Nat.le_refl _) hmono
      · rename_i hkind
        obtain ⟨v, vs, hv, -⟩ := exists_of_kind? hkind
        have hvalue := hread.sequenced hinside hv (Cursor.skipTrivia_head hv)
        rw [Entry.parts, List.flatMap_cons, List.flatMap_singleton]
        exact (hkey.mono (Nat.le_refl _) hmono).append hvalue
          (Nat.le_trans (h.lastStop_mono (ha c)) hmono) (hinside.lastStop_mono (ha _))
    · exact hbare

/-- A list between brackets, of which the first is the token `t`. -/
theorem group_sequenced (h : Aligned text s c) (hle : t.span.start ≤ c.lastStop) (hreach : Reaches c l.cursor)
    (hl : Sequenced c.lastStop l.cursor.lastStop ((l.items.flatMap parts).flatMap Element.nodes)) {e : Element}
    (hblock : e.kind ≠ .block) (hstart : e.place.span.start = t.span.start)
    (hchildren : e.children = l.items.flatMap parts) : Sequenced t.span.start l.cursor.lastStop e.nodes := by
  rw [← hchildren] at hl
  exact sequenced_of_children hblock hstart hl hle (h.lastStop_mono hreach)

variable (hread : Sequences text s true read) (ha : Advances read) (h : Aligned text s c)
  (hle : t.span.start ≤ c.lastStop)
include hread ha h hle

theorem tuple_sequenced : Sequenced t.span.start (tuple s read t c).2.lastStop (tuple s read t c).1.nodes :=
  group_sequenced h hle (tuple_reaches s ha t c)
    (listing_sequenced (elementItem_sequences hread) (elementItem_reaches ha) .tuple true c h)
    (fun hk => by cases hk) rfl (List.flatMap_singleton' _).symm

theorem array_sequenced : Sequenced t.span.start (array s read t c).2.lastStop (array s read t c).1.nodes :=
  group_sequenced h hle (array_reaches s ha t c)
    (listing_sequenced (elementItem_sequences hread) (elementItem_reaches ha) .array true c h)
    (fun hk => by cases hk) rfl (List.flatMap_singleton' _).symm

theorem json_sequenced : Sequenced t.span.start (json s read t c).2.lastStop (json s read t c).1.nodes :=
  group_sequenced h hle (json_reaches s ha t c)
    (listing_sequenced (entry_sequences hread ha) (entry_reaches ha) .json true c h) (fun hk => by cases hk) rfl rfl

end Lists

/-! ## Commands -/

/-- All tokens ahead can be read. -/
theorem Reaches.all (c : Cursor) : Reaches c ⟨[], lastStopOf c.lastStop c.rest⟩ := ⟨c.rest, (List.append_nil _).symm, rfl⟩

/-- Wherever reading has got to, the last token is the same. -/
theorem Reaches.lastStopOf_eq {c c' : Cursor} (h : Reaches c c') :
    lastStopOf c'.lastStop c'.rest = lastStopOf c.lastStop c.rest := by
  obtain ⟨us, hrest, hstop⟩ := h
  rw [hrest, hstop, lastStopOf_append]

section Commands

variable {text : List Char} {s : Source} {read : Cursor → Element × Cursor} {c : Cursor} {t : Token}

theorem argument_sequenced (hread : Sequences text s false read) (h : Aligned text s c) :
    Sequenced c.lastStop (argument read c).2.lastStop ((argument read c).1.toList.flatMap Element.nodes) := by
  have hskip := h.reaches (Reaches.skipComments c)
  unfold argument
  split
  · exact Laid.nil _ _
  · exact Laid.nil _ _
  · rename_i k hnewline hkind
    obtain ⟨u, us, hu, rfl⟩ := exists_of_kind? hkind
    have hcomment : (u.kind == .comment) = false := Cursor.skip_head hu
    rw [Option.toList_some, List.flatMap_singleton]
    refine hread.sequenced hskip hu ?_
    cases hk : u.kind with
    | newline => exact absurd hk hnewline
    | comment =>
      rw [hk] at hcomment
      cases hcomment
    | _ => rfl

theorem command_sequenced (catalog : Catalog) (hread : Sequences text s false read) (ha : Advances read)
    (h : Aligned text s c) (hle : t.span.start ≤ c.lastStop) :
    Sequenced t.span.start (command catalog s read t c).2.lastStop (command catalog s read t c).1.nodes := by
  have hplace := command_place catalog s read t c
  have hstart : (command catalog s read t c).1.place.span.start = t.span.start := by
    rw [hplace]
    rfl
  rw [Command.nodes_eq]
  refine Sequenced.cons hstart ?_ hle (h.lastStop_mono (command_reaches catalog s ha t c))
  unfold command
  split
  · split
    · exact Laid.nil _ _
    · rename_i u us hu
      split
      · dsimp only
        split
        · have hcolon := (Reaches.skipComments c).trans (Reaches.past hu)
          have hafter := h.reaches hcolon
          have hend := (hafter.reaches (argument_reaches ha _)).lastStop_mono (lineEnd_reaches _)
          rw [Command.argument?_make]
          exact (argument_sequenced hread hafter).mono (h.lastStop_mono hcolon) hend
        · exact Laid.nil _ _
      · exact Laid.nil _ _
  · exact Laid.nil _ _

/-- **The nodes of a range start in order**, up to its last token. -/
theorem commands_sequenced (catalog : Catalog) (hread : Sequences text s false read) (ha : Advances read) (c : Cursor)
    (h : Aligned text s c) :
    Sequenced c.lastStop (lastStopOf c.lastStop c.rest) ((commands catalog s read c).flatMap Command.nodes) := by
  induction hn : c.rest.length using Nat.strongRecOn generalizing c with
  | ind n ih =>
    cases hrest : c.skipBlank.rest with
    | nil =>
      rw [commands_nil hrest]
      exact Laid.nil _ _
    | cons t ts =>
      have hskip := h.reaches (Reaches.skipBlank c)
      have ht := Cursor.skipBlank_head hrest
      have hpast := hskip.past hrest ht
      have hstart : c.lastStop ≤ t.span.start := (hskip.ahead t (hrest ▸ List.mem_cons_self)).1
      have hle : t.span.start ≤ t.span.stop := (hskip.exact (hrest ▸ List.mem_cons_self)).le
      have hcommand := command_sequenced catalog hread ha hpast hle
      have hreach := command_reaches catalog s ha t ⟨ts, t.span.stop⟩
      have hafter := hpast.reaches hreach
      have hmono := Nat.le_trans hle (hpast.lastStop_mono hreach)
      have hall : Reaches c (command catalog s read t ⟨ts, t.span.stop⟩).2 := by
        have hblank := Reaches.past_blank hrest
        rw [Cursor.past_eq ht] at hblank
        exact hblank.trans hreach
      have hlast := hafter.lastStop_mono (Reaches.all _)
      dsimp only at hlast
      rw [hall.lastStopOf_eq] at hlast
      rw [commands_cons ha hrest, List.flatMap_cons]
      split
      · rw [List.flatMap_nil, List.append_nil]
        exact hcommand.mono hstart hlast
      · have hrow := ih _ (hn ▸ command_lt ha hrest) _ hafter rfl
        rw [hall.lastStopOf_eq] at hrow
        exact (hcommand.mono hstart (Nat.le_refl _)).append hrow (Nat.le_trans hstart hmono) hlast

end Commands

/-! ## Blocks and operands -/

section Blocks

variable {text : List Char} {catalog : Catalog} {s : Source} {c : Cursor} {t : Token}

theorem block_sequenced {element : Source → Cursor → Element × Cursor}
    (hread : ∀ inner, Sequences text inner false (element inner)) (ha : ∀ inner, Advances (element inner))
    (h : Aligned text s c) (hle : t.span.start ≤ c.lastStop) {brace : Token} {ts : List Token}
    (hbrace : c.skipBlank.rest = brace :: ts) :
    Sequenced t.span.start (block catalog s element t c).2.lastStop (block catalog s element t c).1.nodes := by
  have hskip := h.reaches (Reaches.skipBlank c)
  have hinside := hskip.enters hbrace
  have hcommands := commands_sequenced catalog (hread (s.between brace ts)) (ha _) _ hinside
  have hall := Reaches.all ⟨(splitBlock 0 ts).1, brace.span.stop⟩
  have hstart : t.span.start ≤ brace.span.stop := by
    have hahead : c.lastStop ≤ brace.span.start := (hskip.ahead brace (hbrace ▸ List.mem_cons_self)).1
    exact Nat.le_trans hle (Nat.le_trans hahead (hskip.exact (hbrace ▸ List.mem_cons_self)).le)
  -- the last token between the braces is behind the cursor, whether the block is closed or not
  have hend : lastStopOf brace.span.stop (splitBlock 0 ts).1 ≤ (block catalog s element t c).2.lastStop := by
    rcases hclose : splitBlock 0 ts with ⟨inside, _ | ⟨u, us⟩⟩
    · refine Nat.le_of_eq ?_
      rw [block_unclosed hbrace hclose, splitBlock_unclosed hclose]
    · have hu : u ∈ c.skipBlank.rest := by
        rw [hbrace, splitBlock_closed hclose]
        simp
      have hlast := (hinside.reaches hall).lastStop_le
      rw [Source.between, hclose] at hlast
      rw [block_closed hbrace hclose]
      exact Nat.le_trans hlast (hskip.exact hu).le
  obtain ⟨i, hi, heq⟩ : ∃ i : Info, i.span.start = t.span.start ∧ (block catalog s element t c).1 = .block i _ _ :=
    block_inside hbrace
  rw [heq, Element.nodes_block]
  exact (hcommands.mono (Nat.le_refl _) hend).cons hi hstart (Nat.le_trans (hinside.lastStop_mono hall) hend)

/-- **The nodes of operands start in order.** -/
theorem operand_sequences (text : List Char) (catalog : Catalog) (levels : Nat) (s : Source) (multiline : Bool) :
    Sequences text s multiline (operand catalog levels s multiline) := by
  induction levels using Nat.strongRecOn generalizing s multiline with
  | ind levels ih =>
    intro c t ts h hrest ht
    have hskip := h.reaches (Reaches.skipTrivia c multiline)
    rcases operand_cases catalog levels s multiline c with ⟨-, heq⟩ | ⟨-, heq⟩ | ⟨below, g, u, us, rfl, hrest', hg, heq⟩
    · rw [heq]
      exact leaf_sequenced hskip hrest ht
    · rw [heq]
      exact tooDeep_sequenced hskip hrest ht
    · obtain ⟨rfl, rfl⟩ := List.cons.inj (hrest.symm.trans hrest')
      have ha : ∀ inner deeper, Advances (chain inner deeper (operand catalog below inner deeper)) :=
        fun inner deeper => chain_reaches inner deeper (operand_reaches catalog below inner deeper)
      have hchain : ∀ inner deeper,
          Sequences text inner deeper (chain inner deeper (operand catalog below inner deeper)) :=
        fun inner deeper => chain_sequences (operand_places text catalog below inner deeper)
          (ih below (Nat.lt_succ_self _) inner deeper) (operand_reaches catalog below inner deeper)
          (operand_consumes catalog below inner deeper)
      have hpast := hskip.reaches (Reaches.past hrest)
      have hle := hskip.start_le hrest ht (Reaches.refl _)
      rw [heq]
      cases g with
      | tuple => exact tuple_sequenced (hchain s true) (ha s true) hpast hle
      | array => exact array_sequenced (hchain s true) (ha s true) hpast hle
      | json => exact json_sequenced (hchain s true) (ha s true) hpast hle
      | block =>
        obtain ⟨brace, vs, hbrace, -⟩ := opens?_brace hg (c.skipTrivia multiline)
        exact block_sequenced (fun inner => hchain inner false) (fun inner => ha inner false) hpast hle hbrace

end Blocks

/-- **The nodes of a script start in order.** -/
theorem parse_sequenced (catalog : Catalog) (text : String) :
    (Script.parse catalog text).nodes.Pairwise fun m n => m.place.span.start ≤ n.place.span.start := by
  have hsequenced : Sequenced 0 _ (Script.parse catalog text).nodes := commands_sequenced catalog
    (chain_sequences (operand_places _ catalog maxNesting _ false) (operand_sequences _ catalog maxNesting _ false)
      (operand_reaches catalog maxNesting _ false) (operand_consumes catalog maxNesting _ false))
    (chain_reaches _ false (operand_reaches catalog maxNesting _ false)) _ (aligned_scan text.toList)
  have hapart := List.pairwise_map.mp hsequenced.apart
  exact hapart

end Reading

end UiScript
