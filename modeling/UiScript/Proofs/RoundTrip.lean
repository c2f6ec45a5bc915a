import UiScript.Proofs.Grammar.Acceptance
import UiScript.Proofs.Grammar.Blocks
import UiScript.Proofs.Grammar.Written

/-!
# Canonical texts are read back

The canonical text of an element that was read without a mistake is read as the same element (`parse_text`). The marks
of the written text derive the tree that is written (`Derives.writes`): each piece of the text is scanned into its own
tokens, because what stands between two pieces ends the first and begins nothing else. Completeness of the grammar
does the rest.
-/

namespace UiScript.Grammar

open Reading Text

variable {text : List Char}

/-! ## Lists and chains -/

/-- Items with commas between them. -/
theorem writes_list {α β : Type} {textOf : β → List Char} (marksOf : β → List Mark) (treeOf : β → α) (Q : β → Prop)
    {items : List β}
    (h : ∀ b ∈ items, Writes text (textOf b) fun ms => ∃ p : β, ms = marksOf p ∧ treeOf p = treeOf b ∧ Q p) :
    Writes text ([',', ' '].intercalate (items.map textOf)) fun ms =>
      ∃ ps : List β, Separated (ps.map marksOf) ms false ∧ ps.map treeOf = items.map treeOf ∧ ∀ p ∈ ps, Q p := by
  induction items with
  | nil => exact writes_nil.mono fun ms hms => ⟨[], by rw [hms]; exact .nil, rfl, by simp⟩
  | cons b items ih =>
    obtain ⟨hb, hitems⟩ := List.forall_mem_cons.mp h
    cases items with
    | nil =>
      rw [List.map_cons, List.map_nil, List.intercalate_singleton]
      refine hb.mono fun ms hms => ?_
      obtain ⟨p, rfl, htree, hp⟩ := hms
      exact ⟨[p], .last _, by simp [htree], by simpa using hp⟩
    | cons b' items =>
      rw [List.map_cons, List.map_cons, List.intercalate_cons_cons, List.append_assoc]
      refine (hb.append separates_comma (ih hitems)).mono fun ms hms => ?_
      obtain ⟨_, m, c, rfl, hm, ⟨p, rfl, htree, hp⟩, ps, hps, htrees, hQ⟩ := hms
      have hne : (ps.map marksOf).isEmpty = false := by
        cases ps with
        | nil => cases htrees
        | cons p' ps => rfl
      refine ⟨p :: ps, ?_, ?_, List.forall_mem_cons.mpr ⟨hp, hQ⟩⟩
      · have hcons := Separated.cons (marksOf p) hm hps
        rwa [hne, Bool.or_false] at hcons
      · rw [List.map_cons, htree, htrees, List.map_cons]
        rfl

/-- An item and the comma after it. -/
theorem Writes.trailing {piece : List Char} {P : List Mark → Prop} (h : Writes text piece P) :
    Writes text (piece ++ [',']) fun ms => ∃ a m, ms = a ++ [m] ∧ m.1.kind = .comma ∧ P a := by
  intro before after line htext _
  obtain ⟨ts, line₁, r₁, hr₁, hcut₁, hP⟩ :=
    h before (',' :: after) line (by rw [htext]; simp) (stopped_cons (by decide) _)
  obtain ⟨t, line₂, ht, hcut₂⟩ := Cut.punctuation (c := ',') (by decide) (before ++ piece) after line₁ r₁
  have hcomma : t.kind = .comma := ht
  refine ⟨_, line₂, .outside, by simp, Cut.append hcut₁ hcut₂, fun k => ?_⟩
  refine ⟨marks k ts, (t, k + ts.length), ?_, hcomma, hP k⟩
  rw [marks_append, marks_one (by rw [hcomma]; rfl)]

/-- An operator between blanks, and the operand after it. -/
def Link.written (l : Link) : List Char := ' ' :: (l.op.text.toList ++ [' ']) ++ l.right.tree.text.toList

section Links

variable {Block : Nat → List Mark → Element → Prop} {n : Nat}

theorem writes_links {links : List Link}
    (hrights : ∀ l ∈ links, Writes text l.right.tree.text.toList fun ms => Derives Block .operand n ms l.right.tree)
    {first : List Char} {P : List Mark → Prop} (h : Writes text first P) :
    Writes text (first ++ links.flatMap Link.written) fun ms =>
      ∃ a rest, ms = a ++ rest ∧ P a ∧ Chained Block n rest (links.flatMap Link.parts) := by
  induction links generalizing first P with
  | nil =>
    rw [List.flatMap_nil, List.append_nil]
    exact h.mono fun ms hms => ⟨ms, [], (List.append_nil ms).symm, hms, [], rfl, rfl, by simp, by simp⟩
  | cons l links ih =>
    obtain ⟨hright, hrights⟩ := List.forall_mem_cons.mp hrights
    rw [List.flatMap_cons, Link.written, List.append_assoc]
    refine (h.append (separates_operator l.op) (ih hrights hright)).mono fun ms hms => ?_
    obtain ⟨a, m, _, rfl, hm, ha, b, rest, rfl, hb, hrest⟩ := hms
    exact ⟨a, m :: (b ++ rest), rfl, ha, hrest.cons (l := ⟨m, l.op, ⟨b, l.right.tree⟩⟩) hm hb⟩

/-- The text of an expression. -/
theorem intercalate_parts (first : List Char) (links : List Link) :
    [' '].intercalate (first :: (links.flatMap Link.parts).map fun e => e.text.toList) =
      first ++ links.flatMap Link.written := by
  induction links generalizing first with
  | nil => simp
  | cons l links ih =>
    simp only [List.flatMap_cons, Link.parts, List.cons_append, List.nil_append, List.map_cons,
      List.intercalate_cons_cons, ih, Link.written]
    simp [literal, Element.text, Leaf.text]

/-- An operand with operators after it. -/
theorem writes_expression {e : Element} {links : List Link} (hlinks : links ≠ [])
    (hfirst : Writes text e.text.toList fun ms => Derives Block .first n ms e)
    (hrights : ∀ l ∈ links, Writes text l.right.tree.text.toList fun ms => Derives Block .operand n ms l.right.tree) :
    Writes text (Element.expression (.blank none) (e :: links.flatMap Link.parts) none).text.toList fun ms =>
      Derives Block .element n ms (.expression (.blank none) (e :: links.flatMap Link.parts) none) := by
  have htext : (Element.expression (.blank none) (e :: links.flatMap Link.parts) none).text.toList =
      e.text.toList ++ links.flatMap Link.written := by
    rw [← intercalate_parts]
    simp [Element.text, Function.comp_def]
  rw [htext]
  refine (writes_links hrights hfirst).mono fun ms hms => ?_
  obtain ⟨a, _, rfl, ha, links', rfl, hparts, hsigns, hderives⟩ := hms
  rw [hparts]
  refine .expression ha ?_ hsigns hderives
  rintro rfl
  cases links with
  | nil => exact hlinks rfl
  | cons l links => cases hparts

end Links

/-! ## Containers -/

section Containers

variable {Block : Nat → List Mark → Element → Prop} {n : Nat}

theorem writes_tuple {items : List Piece} {trailing : Bool}
    (h : ∀ p ∈ items, Writes text p.tree.text.toList fun ms => Derives Block .element n ms p.tree) :
    Writes text
      (Element.tuple (.blank none) (items.map Piece.tree) (trailing && items.length == 1)).text.toList fun ms =>
        Derives Block .operand (n + 1) ms
          (.tuple (.blank none) (items.map Piece.tree) (trailing && items.length == 1)) := by
  have hlist := writes_list Piece.marks Piece.tree (fun p => Derives Block .element n p.marks p.tree) fun p hp =>
    (h p hp).mono fun ms hms => ⟨⟨ms, p.tree⟩, rfl, rfl, hms⟩
  by_cases htrailing : (trailing && items.length == 1) = true
  · -- the comma after the only item is written, so that the tuple is no group
    rw [htrailing]
    simp only [Bool.and_eq_true, beq_iff_eq] at htrailing
    obtain ⟨p, rfl⟩ := List.length_eq_one_iff.mp htrailing.2
    have htext : (Element.tuple (.blank none) ([p].map Piece.tree) true).text.toList =
        '(' :: (p.tree.text.toList ++ [','] ++ [')']) := by
      simp [Element.text]
    rw [htext]
    refine ((h p List.mem_cons_self).trailing.bracket (b := .round) ⟨by decide, rfl⟩ ⟨by decide, rfl⟩ (by decide)).mono
      fun ms hms => ?_
    obtain ⟨opener, _, closer, rfl, hopener, hcloser, a, m, rfl, hm, ha⟩ := hms
    have hone : Separated ([(⟨a, p.tree⟩ : Piece)].map Piece.marks) (a ++ [m]) true := .cons a hm .nil
    exact .tuple hopener hcloser hone (by simpa using ha)
  · have htext : (Element.tuple (.blank none) (items.map Piece.tree) (trailing && items.length == 1)).text.toList =
        '(' :: ([',', ' '].intercalate (items.map fun p => p.tree.text.toList) ++ [')']) := by
      simp [Element.text, htrailing, Function.comp_def]
    rw [htext]
    refine (hlist.bracket (b := .round) ⟨by decide, rfl⟩ ⟨by decide, rfl⟩ (by decide)).mono fun ms hms => ?_
    obtain ⟨opener, body, closer, rfl, hopener, hcloser, ps, hps, htrees, hQ⟩ := hms
    have hderives := Derives.tuple hopener hcloser hps hQ
    rw [htrees] at hderives
    simpa [htrailing] using hderives

theorem writes_array {items : List Piece} (huniform : Uniform (items.map Piece.tree))
    (h : ∀ p ∈ items, Writes text p.tree.text.toList fun ms => Derives Block .element n ms p.tree) :
    Writes text (Element.array (.blank none) (items.map Piece.tree)).text.toList fun ms =>
      Derives Block .operand (n + 1) ms (.array (.blank none) (items.map Piece.tree)) := by
  have hlist := writes_list Piece.marks Piece.tree (fun p => Derives Block .element n p.marks p.tree) fun p hp =>
    (h p hp).mono fun ms hms => ⟨⟨ms, p.tree⟩, rfl, rfl, hms⟩
  have htext : (Element.array (.blank none) (items.map Piece.tree)).text.toList =
      '[' :: ([',', ' '].intercalate (items.map fun p => p.tree.text.toList) ++ [']']) := by
    simp [Element.text, Function.comp_def]
  rw [htext]
  refine (hlist.bracket (b := .square) ⟨by decide, rfl⟩ ⟨by decide, rfl⟩ (by decide)).mono fun ms hms => ?_
  obtain ⟨opener, body, closer, rfl, hopener, hcloser, ps, hps, htrees, hQ⟩ := hms
  have hderives := Derives.array hopener hcloser hps hQ (by rw [htrees]; exact huniform)
  rwa [htrees] at hderives

theorem writes_json {entries : List Keyed}
    (hkinds : ∀ e ∈ entries, e.key.tree.kind = .string ∨ e.key.tree.kind = .reference)
    (hkeys : ∀ e ∈ entries, Writes text e.key.tree.text.toList fun ms => Derives Block .operand n ms e.key.tree)
    (hvalues : ∀ e ∈ entries, Writes text e.value.tree.text.toList fun ms => Derives Block .element n ms e.value.tree) :
    Writes text (Element.json (.blank none) (entries.map Keyed.entry)).text.toList fun ms =>
      Derives Block .operand (n + 1) ms (.json (.blank none) (entries.map Keyed.entry)) := by
  have hentries : ∀ e ∈ entries,
      Writes text (e.key.tree.text.toList ++ ([':', ' '] ++ e.value.tree.text.toList)) fun ms =>
        ∃ k : Keyed, ms = k.marks ∧ k.entry = e.entry ∧ k.colon.1.kind = .colon ∧
          (k.key.tree.kind = .string ∨ k.key.tree.kind = .reference) ∧ Derives Block .operand n k.key.marks k.key.tree ∧
          Derives Block .element n k.value.marks k.value.tree := by
    intro e he
    refine ((hkeys e he).append separates_colon (hvalues e he)).mono fun ms hms => ?_
    obtain ⟨a, m, b, rfl, hm, ha, hb⟩ := hms
    exact ⟨⟨⟨a, e.key.tree⟩, m, ⟨b, e.value.tree⟩⟩, rfl, rfl, hm, hkinds e he, ha, hb⟩
  have htext : (Element.json (.blank none) (entries.map Keyed.entry)).text.toList =
      '\x7b' :: ([',', ' '].intercalate
        (entries.map fun e => e.key.tree.text.toList ++ ([':', ' '] ++ e.value.tree.text.toList)) ++ ['\x7d']) := by
    simp [Element.text, Function.comp_def, Keyed.entry, Entry.text]
  rw [htext]
  refine ((writes_list Keyed.marks Keyed.entry _ hentries).bracket (b := .curly) ⟨by decide, rfl⟩ ⟨by decide, rfl⟩
    (by decide)).mono fun ms hms => ?_
  obtain ⟨opener, body, closer, rfl, hopener, hcloser, es, hes, htrees, hQ⟩ := hms
  rw [← htrees]
  exact .json hopener hcloser hes (fun e he => (hQ e he).1) (fun e he => (hQ e he).2.1) (fun e he => (hQ e he).2.2.1)
    fun e he => (hQ e he).2.2.2

end Containers

/-- A block. -/
theorem writes_block {catalog : Catalog} {n : Nat} {part : List Char} (hcloses : Closes .outside part)
    (hbalanced : balanced 0 ((scan part).map Token.kind) = true) :
    Writes text
      (Element.block (.blank none) ((script catalog n part).map Command.erase) (String.ofList part)).text.toList
      fun ms => BlockIn catalog text n ms
        (.block (.blank none) ((script catalog n part).map Command.erase) (String.ofList part)) := by
  have htext :
      (Element.block (.blank none) ((script catalog n part).map Command.erase) (String.ofList part)).text.toList =
        "block".toList ++ ([' '] ++ (['\x7b'] ++ (part ++ ['\x7d']))) := by
    simp [Element.text]
  rw [htext]
  intro before after line hbefore _
  have hword : IsWord "block".toList := ⟨'b', "lock".toList, rfl, by decide, by decide⟩
  obtain ⟨r', hr'⟩ := hcloses
  have hafter : wordLength ([' '] ++ (['\x7b'] ++ (part ++ ['\x7d'])) ++ after) = 0 := rfl
  have hcut₁ := Cut.word hword hafter before line .outside
  have hcut₂ := Cut.space (before ++ "block".toList) (['\x7b'] ++ (part ++ ['\x7d']) ++ after) line .outside
  have hcut₃ := Cut.token (before ++ "block".toList ++ [' ']) line
    (lexeme?_punctuation (c := '\x7b') (by decide) .outside ([] ++ (part ++ ['\x7d'] ++ after))).1 rfl
  have hcut₄ : Cut (before ++ "block".toList ++ [' '] ++ ['\x7b']) part (['\x7d'] ++ after) line (line + newlines part)
      .outside r' (scanFrom (width (before ++ "block".toList ++ [' '] ++ ['\x7b'])) line .outside 0 part) := by
    rw [Cut, width_append _ part]
    exact hr' _ _ _
  obtain ⟨u, line₅, hu, hcut₅⟩ := Cut.punctuation (c := '\x7d') (by decide)
    (before ++ "block".toList ++ [' '] ++ ['\x7b'] ++ part) after (line + newlines part) r'
  have hcut := Cut.append hcut₁ (Cut.append hcut₂ (Cut.append hcut₃ (Cut.append hcut₄ hcut₅)))
  refine ⟨_, _, _, by simp, hcut, fun k => ?_⟩
  have hkind : wordKind "block".toList = .word := rfl
  have hclose : u.kind = .closing .curly := hu
  have hstop : (Lexeme.token ⟨(markLexeme '\x7b' none).kind, 0, none⟩ (width (before ++ "block".toList ++ [' '])) line
      ['\x7b']).span.stop = width (before ++ "block".toList ++ [' '] ++ ['\x7b']) := (width_append _ _).symm
  rw [List.singleton_append, List.nil_append, List.singleton_append, marks_cons (by rw [hkind]; rfl), marks_cons rfl,
    marks_append, marks_one (by rw [hclose]; rfl), ← hstop]
  refine ⟨_, _, _, before ++ "block".toList ++ [' '] ++ ['\x7b'], part, after, rfl, hkind, rfl, rfl, ?_, hstop,
    ⟨r', hr'⟩, hbalanced, rfl⟩
  rw [hbefore]
  simp

/-! ## Derivations -/

theorem Separated.subset {items : List (List Mark)} {body : List Mark} {trailing : Bool}
    (h : Separated items body trailing) : ∀ item ∈ items, item ⊆ body := by
  induction h with
  | nil => simp
  | last item => simp
  | cons item _ _ ih =>
    refine List.forall_mem_cons.mpr ⟨List.subset_append_left _ _, fun other hother => ?_⟩
    exact List.Subset.trans (ih other hother)
      (List.Subset.trans (List.subset_cons_self _ _) (List.subset_append_right _ _))

/-- The marks of an item are marks of the container. -/
theorem Separated.valid {items : List (List Mark)} {body : List Mark} {trailing : Bool} {opener closer : Mark}
    (h : Separated items body trailing) (hvalid : ∀ m ∈ opener :: (body ++ [closer]), m.1.Valid) :
    ∀ item ∈ items, ∀ m ∈ item, m.1.Valid := by
  intro item hitem m hm
  exact hvalid m (List.mem_cons_of_mem _ (List.mem_append_left _ (h.subset item hitem hm)))

/-- **The text of a derived tree derives that tree.** -/
theorem Derives.writes {catalog : Catalog} {original : List Char} {form : Form} {n : Nat} {ms : List Mark} {e : Element}
    (h : Derives (BlockIn catalog original) form n ms e) (hvalid : ∀ m ∈ ms, m.1.Valid) (text : List Char) :
    Writes text e.text.toList fun ms => Derives (BlockIn catalog text) form n ms e := by
  induction h with
  | @string n m value quote hkind _ =>
    have hm := hvalid m List.mem_cons_self
    rw [Token.Valid, hkind] at hm
    exact writes_string hm fun t k hk herror => .string hk herror
  | @number n m float hkind herror =>
    have hm := hvalid m List.mem_cons_self
    rw [Token.Valid, hkind] at hm
    refine writes_number hm.1 hm.2.1 (hm.2.2.mp herror) fun t k hk htext herror => ?_
    have hderives : Derives (BlockIn catalog text) .operand n [(t, k)] (literal (.number t.text false float)) :=
      .number hk herror
    rwa [htext] at hderives
  | @boolean n m value hkind =>
    have hm := isWord_of_valid (hvalid m List.mem_cons_self) (by rw [hkind]; rfl)
    have htext := hvalid m List.mem_cons_self
    rw [Token.Valid, hkind] at htext
    rw [hkind, htext.1] at hm
    exact writes_word hm.1 fun t k ht _ => .boolean (ht.trans hm.2)
  | @ident n m hkind =>
    have hm := isWord_of_valid (hvalid m List.mem_cons_self) (by rw [hkind]; rfl)
    refine writes_word hm.1 fun t k ht htext => ?_
    have hderives : Derives (BlockIn catalog text) .operand n [(t, k)] (literal (.ident t.text)) :=
      .ident ((ht.trans hm.2).trans hkind)
    rwa [htext] at hderives
  | @reference n bar name close _ hname _ _ _ =>
    have hm := isWord_of_valid (hvalid name (by simp)) hname
    have htext : (literal (.reference name.1.text)).text.toList = '|' :: (name.1.text.toList ++ ['|']) := by
      simp [literal, Element.text, Leaf.text]
    rw [htext]
    refine writes_reference hm.1 fun bar word close hbar hword htext hclose hnext hlast => ?_
    rw [← htext]
    exact .reference hbar hword hclose hnext hlast
  | tuple hopener hcloser hbody _ ih =>
    exact writes_tuple fun p hp => ih p hp (hbody.valid hvalid _ (List.mem_map_of_mem hp))
  | array hopener hcloser hbody _ huniform ih =>
    exact writes_array huniform fun p hp => ih p hp (hbody.valid hvalid _ (List.mem_map_of_mem hp))
  | json hopener hcloser hbody _ hkinds _ _ ihkeys ihvalues =>
    have hentry := fun e he => hbody.valid hvalid _ (List.mem_map_of_mem (a := e) he)
    exact writes_json hkinds (fun e he => ihkeys e he fun m hm => hentry e he m (List.mem_append_left _ hm))
      fun e he => ihvalues e he fun m hm => hentry e he m (List.mem_append_right _ (List.mem_cons_of_mem _ hm))
  | block hblock =>
    obtain ⟨-, -, -, -, part, -, -, -, -, -, -, -, hcloses, hbalanced, rfl⟩ := hblock
    exact (writes_block hcloses hbalanced).mono fun ms hms => .block hms
  | operand _ ih => exact (ih hvalid).mono fun ms hms => .operand hms
  | @negative n sign number float _ hkind herror _ =>
    have hm := hvalid number (by simp)
    rw [Token.Valid, hkind] at hm
    have htext : (literal (.number number.1.text true float)).text.toList = '-' :: number.1.text.toList := by
      simp [literal, Element.text, Leaf.text, numberText]
    rw [htext]
    refine writes_negative hm.1 hm.2.1 (hm.2.2.mp herror) fun sign number hsign hk htext herror hnext => ?_
    rw [← htext]
    exact .negative hsign hk herror hnext
  | first _ ih => exact (ih hvalid).mono fun ms hms => .first hms
  | @expression n ms e links hfirst hlinks _ _ ihfirst ihrights =>
    have hright : ∀ l ∈ links, ∀ m ∈ l.right.marks, m.1.Valid := fun l hl m hm =>
      hvalid m (List.mem_append_right _ (List.mem_flatMap.mpr ⟨l, hl, List.mem_cons_of_mem _ hm⟩))
    exact writes_expression hlinks (ihfirst fun m hm => hvalid m (List.mem_append_left _ hm))
      fun l hl => ihrights l hl (hright l hl)

/-- **Canonical texts are read back.** The text of an element that was read without a mistake is read without a
mistake, as the same tree up to places and the commas that are not written, and its text is the same text again. -/
theorem parse_text (text : String) (h : (Element.parse text).hasErrors = false) :
    (Element.parse (Element.parse text).text).hasErrors = false ∧
      (Element.parse (Element.parse text).text).erase = (Element.parse text).erase ∧
      (Element.parse (Element.parse text).text).text = (Element.parse text).text := by
  have hderives := parse_sound (lawfulBlock_blockIn .any text.toList) (blocksSound_blockIn .any text.toList) h
  generalize hwritten : (Element.parse text).text = written
  have hvalid : ∀ m ∈ marks 0 (scan text.toList), m.1.Valid := fun m hm =>
    scan_valid _ _ (mem_of_mem_marks hm)
  have hwrites := hderives.writes hvalid written.toList
  rw [Element.relabel_text, hwritten] at hwrites
  have heq : (Element.parse written).erase = (Element.parse text).erase :=
    parse_complete (lawfulBlock_blockIn .any written.toList) (blocksComplete_blockIn .any written.toList) hwrites.scan
  refine ⟨?_, heq, ?_⟩
  · rw [Element.hasErrors_eq_of_erase_eq heq, h]
  · rw [Element.text_eq_of_erase_eq heq, hwritten]

set_option maxRecDepth 10000 in
/-- A tuple of a block, a tuple of one item with a tab in it, and an expression that starts with a sign. -/
theorem parse_text_tuple :
    (Element.parse "(block \x7b a: 1 \x7d,('\\t' ,),-1 +|x|,)").text = "(block \x7b a: 1 \x7d, ('\\t',), -1 + |x|)" ∧
    (Element.parse "(block \x7b a: 1 \x7d,('\\t' ,),-1 +|x|,)").hasErrors = false ∧
    (Element.parse (Element.parse "(block \x7b a: 1 \x7d,('\\t' ,),-1 +|x|,)").text).hasErrors = false ∧
    (Element.parse (Element.parse "(block \x7b a: 1 \x7d,('\\t' ,),-1 +|x|,)").text).erase =
      (Element.parse "(block \x7b a: 1 \x7d,('\\t' ,),-1 +|x|,)").erase ∧
    (Element.parse (Element.parse "(block \x7b a: 1 \x7d,('\\t' ,),-1 +|x|,)").text).text =
      (Element.parse "(block \x7b a: 1 \x7d,('\\t' ,),-1 +|x|,)").text :=
  ⟨by decide +kernel, by decide +kernel, parse_text _ (by decide +kernel)⟩

end UiScript.Grammar
