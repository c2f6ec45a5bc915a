import Mathlib.Data.List.TakeWhile
import UiScript.Proofs.Grammar
import UiScript.Proofs.Scan.Steps

/-!
# What is derived is read without a mistake

Where the marks ahead derive a tree, and what follows them cannot belong to it, reading gives that tree and stops right
after those marks (`Derives.read`). The tokens have to be well spelled and in order. As before, blocks are left
to a hypothesis.
-/

namespace UiScript.Grammar

open Reading

variable {Block : Nat → List Mark → Element → Prop}

/-! ## Seeing marks -/

section Marks

variable {k : Nat} {m : Mark} {ms : List Mark} {c : Cursor} {ts : List Token}

theorem le_of_mem_marks (h : m ∈ marks k ts) : k ≤ m.2 :=
  List.le_snd_of_mem_zipIdx (List.mem_filter.mp h).1

/-- A mark with the number of the first token is that token. -/
theorem marks_eq_cons_of_index (h : marks k ts = m :: ms) (hm : m.2 = k) :
    ∃ us, ts = m.1 :: us ∧ marks (k + 1) us = ms := by
  cases ts with
  | nil => cases h
  | cons t us =>
    cases ht : t.kind.isTrivia with
    | true =>
      rw [marks_trivia ht] at h
      have hmem : m ∈ marks (k + 1) us := by rw [h]; exact List.mem_cons_self
      have hle := le_of_mem_marks hmem
      omega
    | false =>
      rw [marks_cons ht] at h
      obtain ⟨rfl, rfl⟩ := List.cons.inj h
      exact ⟨us, rfl, rfl⟩

/-- Past comments and line ends stands the token of the first mark. -/
theorem Sees.head (h : Sees c (m :: ms)) :
    ∃ us, (c.skipTrivia true).rest = m.1 :: us ∧ marks (m.2 + 1) us = ms ∧ m.1.kind.isTrivia = false := by
  obtain ⟨k, hk⟩ := h
  rw [skipTrivia_true]
  have hskip : ∀ (ts : List Token) (k : Nat), marks k ts = m :: ms →
      ∃ us, ts.dropWhile (·.kind.isTrivia) = m.1 :: us ∧ marks (m.2 + 1) us = ms ∧ m.1.kind.isTrivia = false := by
    intro ts
    induction ts with
    | nil => intro k hk; cases hk
    | cons t ts ih =>
      intro k hk
      cases ht : t.kind.isTrivia with
      | true =>
        rw [marks_trivia ht] at hk
        rw [List.dropWhile_cons, if_pos ht]
        exact ih (k + 1) hk
      | false =>
        rw [marks_cons ht] at hk
        obtain ⟨rfl, rfl⟩ := List.cons.inj hk
        rw [List.dropWhile_cons, if_neg (by simp [ht])]
        exact ⟨ts, rfl, rfl, ht⟩
  exact hskip c.rest k hk

theorem Sees.mem {tokens : List Token} (h : Sees c (m :: ms)) (hc : c.rest <:+ tokens) : m.1 ∈ tokens := by
  obtain ⟨k, hk⟩ := h
  exact hc.mem (mem_of_mem_marks (k := k) (by rw [hk]; exact List.mem_cons_self))

theorem Sees.nil (h : Sees c []) : (c.skipTrivia true).rest = [] := by
  obtain ⟨k, hk⟩ := h
  rw [skipTrivia_true]
  refine List.dropWhile_eq_nil_iff.mpr fun t ht => ?_
  have hcount := congrArg List.length hk
  rw [length_marks, List.length_nil, List.countP_eq_zero] at hcount
  simpa using hcount t ht

end Marks

/-! ## Leaves -/

/-- What can follow an operand. -/
def endsOperand : TokenKind → Bool
  | .operator _ | .comma | .colon | .closing _ => true
  | _ => false

/-- What can follow an element. -/
def endsElement : TokenKind → Bool
  | .comma | .colon | .closing _ => true
  | _ => false

/-- What can follow a form. -/
def Form.ends : Form → TokenKind → Bool
  | .element => endsElement
  | _ => endsOperand

/-- The marks that follow something of a form cannot belong to it. -/
def Stops (form : Form) (more : List Mark) : Prop := ∀ m ∈ more.head?, form.ends m.1.kind = true

/-- Reading gives a tree, and stops before the given marks. -/
def Reads (read : Cursor → Element × Cursor) (c : Cursor) (e : Element) (more : List Mark) : Prop :=
  (read c).1.erase = e ∧ Sees (read c).2 more

/-- The tokens are well spelled, and follow each other in the text. -/
structure Orderly (tokens : List Token) : Prop where
  valid : ∀ t ∈ tokens, t.Valid
  sorted : tokens.Pairwise fun t u => t.span.stop ≤ u.span.start
  nonempty : ∀ t ∈ tokens, t.span.start < t.span.stop

section Leaves

variable {catalog : Catalog} {levels : Nat} {s : Source} {tokens : List Token} {c : Cursor} {m : Mark}
  {more : List Mark}

/-- The first token that is neither a comment nor a line end is that of the first mark. -/
theorem find?_of_marks {k : Nat} {ts : List Token} {ms : List Mark} (h : marks k ts = ms) :
    ts.find? (!·.kind.isTrivia) = ms.head?.map Prod.fst := by
  induction ts generalizing k with
  | nil => subst h; rfl
  | cons t ts ih =>
    cases ht : t.kind.isTrivia with
    | true =>
      rw [marks_trivia ht] at h
      rw [List.find?_cons_of_neg (by simp [ht]), ih h]
    | false =>
      rw [marks_cons ht] at h
      subst h
      rw [List.find?_cons_of_pos (by simp [ht])]
      rfl

/-- Leaves of one token. -/
theorem reads_token {l : Leaf} (hs : Sees c (m :: more)) (herror : m.1.error = none) (hl : l ≠ .unknown)
    (hopens : ∀ us, marks (m.2 + 1) us = more → opens? (m.1 :: us) = none)
    (hleaf : ∀ c : Cursor, ∀ us, c.rest = m.1 :: us → leaf s c = (ofToken m.1 l, c.past m.1 us)) :
    Reads (operand catalog levels s true) c (literal l) more := by
  obtain ⟨us, hrest, hmore, -⟩ := hs.head
  have hnone := hopens us hmore
  rw [← hrest] at hnone
  rw [Reads, operand_leaf hnone, hleaf _ us hrest]
  refine ⟨?_, _, hmore⟩
  rw [ofToken, tokenInfo, herror]
  exact erase_leaf rfl hl

theorem opens?_of_kind {t : Token} (us : List Token) (hword : t.kind ≠ .word) (hopening : ∀ b, t.kind ≠ .opening b) :
    opens? (t :: us) = none := by
  cases hk : t.kind with
  | word => exact absurd hk hword
  | opening b => exact absurd hk (hopening b)
  | _ => simp only [opens?, hk]

/-- A word before what can follow an operand opens nothing. -/
theorem opens?_of_stops {k : Nat} {t : Token} {us : List Token} (ht : t.kind = .word) (hmore : marks k us = more)
    (hstops : Stops .operand more) : opens? (t :: us) = none := by
  have hfind := find?_of_marks hmore
  simp only [opens?, ht, hfind]
  refine if_neg fun hblock => ?_
  cases more with
  | nil => simp at hblock
  | cons m more =>
    have hm := hstops m rfl
    simp only [List.head?_cons, Option.map_some, Option.any_some, beq_iff_eq] at hblock
    rw [hblock.2] at hm
    cases hm

theorem reads_reference {bar name close : Mark} {n : Nat} (hbar : bar.1.kind = .pipe)
    (hname : isName name.1.kind = true) (hclose : close.1.kind = .pipe) (hnext : name.2 = bar.2 + 1)
    (hlast : close.2 = name.2 + 1) (hs : Sees c ([bar, name, close] ++ more)) :
    Reads (operand catalog n s true) c (literal (.reference name.1.text)) more := by
  obtain ⟨us, hrest, hus, -⟩ := hs.head
  obtain ⟨vs, rfl, hvs⟩ := marks_eq_cons_of_index hus hnext
  obtain ⟨ws, rfl, hmore⟩ := marks_eq_cons_of_index hvs (by omega)
  have hnone : opens? (c.skipTrivia true).rest = none := by
    rw [hrest]
    exact opens?_of_kind _ (by simp [hbar]) (by simp [hbar])
  rw [Reads, operand_leaf hnone]
  simp only [leaf, hrest, hbar, reference, Cursor.past, hname, hclose, if_true]
  exact ⟨erase_leaf rfl (by simp), _, hmore⟩

theorem reads_negative {sign number : Mark} {float : Bool} {n : Nat} (ho : Orderly tokens) (hc : c.rest <:+ tokens)
    (hsign : sign.1.kind = .operator .sub) (hnumber : number.1.kind = .number float)
    (herror : number.1.error = none) (hnext : number.1.span.start = sign.1.span.stop)
    (hs : Sees c ([sign, number] ++ more)) :
    Reads (operand catalog n s true) c (literal (.number number.1.text true float)) more := by
  obtain ⟨us, hrest, hus, -⟩ := hs.head
  have hsuffix : sign.1 :: us <:+ tokens := hrest ▸ (Reaches.skipTrivia c true).rest_suffix.trans hc
  have hsorted := List.pairwise_cons.mp (ho.sorted.sublist hsuffix.sublist)
  -- a token between the two would take room between them
  obtain ⟨vs, rfl, hmore⟩ : ∃ vs, us = number.1 :: vs ∧ marks (sign.2 + 1 + 1) vs = more := by
    cases us with
    | nil => cases hus
    | cons u vs =>
      cases hu : u.kind.isTrivia with
      | false =>
        rw [marks_cons hu] at hus
        obtain ⟨rfl, rfl⟩ := List.cons.inj hus
        exact ⟨vs, rfl, rfl⟩
      | true =>
        rw [marks_trivia hu] at hus
        have hmem : number.1 ∈ vs := mem_of_mem_marks (k := sign.2 + 1 + 1) (by rw [hus]; exact List.mem_cons_self)
        have h₁ := hsorted.1 u List.mem_cons_self
        have h₂ := ho.nonempty u (hsuffix.mem (by simp))
        have h₃ := (List.pairwise_cons.mp hsorted.2).1 _ hmem
        omega
  have hnone : opens? (c.skipTrivia true).rest = none := by
    rw [hrest]
    exact opens?_of_kind _ (by simp [hsign]) (by simp [hsign])
  rw [Reads, operand_leaf hnone]
  simp only [leaf, hrest, hsign, negative, Cursor.past, hnumber, hnext, if_true, herror]
  exact ⟨erase_leaf rfl (by simp), _, hmore⟩

end Leaves

/-! ## Chains -/

theorem Stops.operand {more : List Mark} (h : Stops .element more) : Stops .operand more := by
  intro m hm
  have hends := h m hm
  cases hk : m.1.kind <;> first | rfl | (rw [hk] at hends; cases hends)

theorem stops_cons {form : Form} {m : Mark} {more : List Mark} (h : form.ends m.1.kind = true) :
    Stops form (m :: more) := by
  intro m' hm
  cases hm
  exact h

section Chains

variable {tokens : List Token} {read : Cursor → Element × Cursor} {c : Cursor} {more : List Mark}

/-- Where an element can end, no operator follows. -/
theorem chainTail_stops (hs : Sees c more) (hstops : Stops .element more) :
    chainTail true read c = ⟨[], none, c.skipTrivia true⟩ := by
  cases more with
  | nil => exact chainTail_nil hs.nil
  | cons m more =>
    obtain ⟨us, hrest, -, -⟩ := hs.head
    have hm := hstops m rfl
    refine chainTail_end hrest fun op hop => ?_
    rw [hop] at hm
    cases hm

theorem chainTail_reads (ha : Advances read) {links : List Link} (hsigns : ∀ l ∈ links, l.sign.1.kind = .operator l.op)
    (hstarts : ∀ l ∈ links, ∃ m rest, l.right.marks = m :: rest ∧ m.1.kind.startsOperand = true)
    (hread : ∀ l ∈ links, ∀ c more, c.rest <:+ tokens → Sees c (l.right.marks ++ more) → Stops .operand more →
      Reads read c l.right.tree more)
    (hc : c.rest <:+ tokens) (hs : Sees c (links.flatMap Link.marks ++ more)) (hstops : Stops .element more) :
    (chainTail true read c).parts.map Element.erase = links.flatMap Link.parts ∧
      (chainTail true read c).problem = none ∧ Sees (chainTail true read c).cursor more := by
  induction links generalizing c with
  | nil =>
    rw [chainTail_stops hs hstops]
    exact ⟨rfl, rfl, Sees.skipTrivia hs true⟩
  | cons l links ih =>
    obtain ⟨hsign, hsigns⟩ := List.forall_mem_cons.mp hsigns
    obtain ⟨⟨m, rest, hm, hkind⟩, hstarts⟩ := List.forall_mem_cons.mp hstarts
    obtain ⟨hright, hread⟩ := List.forall_mem_cons.mp hread
    obtain ⟨us, hrest, hus, -⟩ := Sees.head hs
    have hpast : Sees ((c.skipTrivia true).past l.sign.1 us) (l.right.marks ++ (links.flatMap Link.marks ++ more)) :=
      ⟨_, by rw [← List.append_assoc]; exact hus⟩
    have hahead := hpast.skipTrivia true
    rw [hm] at hpast
    obtain ⟨vs, hvs, -, -⟩ := Sees.head hpast
    have hskip : skipOperator l.op true (((c.skipTrivia true).past l.sign.1 us).skipTrivia true) =
        (none, ((c.skipTrivia true).past l.sign.1 us).skipTrivia true) := by
      simp only [skipOperator, hvs]
      cases hk : m.1.kind with
      | operator op => rw [hk] at hkind; cases hkind
      | _ => rfl
    have hnext : Stops .operand (links.flatMap Link.marks ++ more) := by
      cases links with
      | nil => exact hstops.operand
      | cons l' links =>
        exact stops_cons (by rw [hsigns l' List.mem_cons_self]; rfl)
    have hreach := (operatorAhead_reaches hrest hskip).rest_suffix.trans hc
    obtain ⟨htree, hafter⟩ := hright _ _ hreach hahead hnext
    obtain ⟨hparts, hproblem, hcursor⟩ := ih hsigns hstarts hread ((ha _).rest_suffix.trans hreach) hafter
    rw [chainTail_link ha hrest hsign hskip (by simp [Cursor.kind?, hvs, hkind])]
    refine ⟨?_, hproblem, hcursor⟩
    rw [List.map_cons, List.map_cons, hparts, htree]
    rfl

theorem chain_reads_first {s : Source} {e : Element} (hread : Reads read c e more) (hstops : Stops .element more) :
    Reads (chain s true read) c e more := by
  obtain ⟨htree, hafter⟩ := hread
  simp only [Reads, chain, chainTail_stops hafter hstops, List.isEmpty_nil, if_true]
  exact ⟨htree, hafter.skipTrivia true⟩

theorem chain_reads_expression {s : Source} {e : Element} {links : List Link} {after : List Mark}
    (hread : Reads read c e after) (hlinks : links ≠ [])
    (htail : (chainTail true read (read c).2).parts.map Element.erase = links.flatMap Link.parts ∧
      (chainTail true read (read c).2).problem = none ∧ Sees (chainTail true read (read c).2).cursor more) :
    Reads (chain s true read) c (.expression (.blank none) (e :: links.flatMap Link.parts) none) more := by
  obtain ⟨hparts, hproblem, hcursor⟩ := htail
  have hne : (chainTail true read (read c).2).parts.isEmpty = false := by
    rw [List.isEmpty_eq_false_iff]
    intro hnil
    rw [hnil, List.map_nil] at hparts
    cases links with
    | nil => exact hlinks rfl
    | cons l links => cases hparts
  simp only [Reads, chain, hne, Bool.false_eq_true, if_false]
  refine ⟨?_, hcursor⟩
  simp only [Element.erase_expression, Source.info, hproblem, List.map_cons, hparts, hread.1]

end Chains

/-! ## Lists -/

section Lists

variable {α α' β : Type} {tokens : List Token} {s : Source} {g : Group} {item : Cursor → Reading.Item α}
  {marksOf : β → List Mark} {treeOf : β → α'} {erase : α → α'} {c : Cursor} {more : List Mark} {closer : Mark}

/-- An item that is derived is read as one. -/
def ItemReads (tokens : List Token) (g : Group) (item : Cursor → Reading.Item α) (erase : α → α') (ms : List Mark)
    (tree : α') : Prop :=
  ∀ c more, c.rest <:+ tokens → Sees c (ms ++ more) →
    (∀ m ∈ more.head?, m.1.kind = .comma ∨ m.1.kind = .closing g.bracket) →
    (item c).problem = none ∧ erase (item c).value = tree ∧ Sees (item c).cursor more

/-- A list that is read without a problem, with the given trees, up to the given marks. -/
def ListReads (l : Listing α) (erase : α → α') (trees : List α') (ends : Bool) (more : List Mark) : Prop :=
  l.problem = none ∧ l.items.map erase = trees ∧ l.awaiting = ends ∧ Sees l.cursor more

theorem listing_closer (awaiting : Bool) (hs : Sees c (closer :: more)) (hcloser : closer.1.kind = .closing g.bracket) :
    ListReads (listing s g item awaiting c) erase [] awaiting more := by
  obtain ⟨us, hrest, hmore, -⟩ := hs.head
  rw [listing_cons hrest, if_pos hcloser]
  exact ⟨rfl, rfl, rfl, _, hmore⟩

theorem listing_comma {comma : Mark} {trees : List α'} {ends : Bool} (hs : Sees c (comma :: more))
    (hcomma : comma.1.kind = .comma) {after : List Mark}
    (h : ∀ c', Reaches c c' → Sees c' more → ListReads (listing s g item true c') erase trees ends after) :
    ListReads (listing s g item false c) erase trees ends after := by
  obtain ⟨us, hrest, hmore, -⟩ := hs.head
  rw [listing_cons hrest, if_neg (by simp [hcomma]), if_pos hcomma]
  obtain ⟨hproblem, hitems, hends, hcursor⟩ := h _ (Reaches.past_skip hrest) ⟨_, hmore⟩
  refine ⟨?_, hitems, hends, hcursor⟩
  simp only [Listing.after, Bool.false_eq_true, if_false, Problem.note_none_left]
  exact hproblem

theorem listing_item {ms : List Mark} {tree : α'} {trees : List α'} {ends : Bool} {after : List Mark}
    (ha : ∀ c, Reaches c (item c).cursor) (hitem : ItemReads tokens g item erase ms tree)
    (hstart : ∃ m rest, ms = m :: rest ∧ Form.starts .element m.1.kind = true) (hc : c.rest <:+ tokens)
    (hs : Sees c (ms ++ more)) (hmore : ∀ m ∈ more.head?, m.1.kind = .comma ∨ m.1.kind = .closing g.bracket)
    (h : ∀ c', Reaches c c' → Sees c' more → ListReads (listing s g item false c') erase trees ends after) :
    ListReads (listing s g item true c) erase (tree :: trees) ends after := by
  obtain ⟨m, rest, rfl, hm⟩ := hstart
  obtain ⟨us, hrest, -, -⟩ := hs.head
  have hreach := Reaches.skipTrivia c true
  obtain ⟨hproblem, hvalue, hcursor⟩ := hitem _ _ (hreach.rest_suffix.trans hc) (Sees.skipTrivia hs true) hmore
  have hlt := Sees.length_lt hs hcursor (hreach.trans (ha _)) (List.cons_ne_nil _ _)
  have hkinds : m.1.kind ≠ .closing g.bracket ∧ m.1.kind ≠ .comma ∧
      ¬ (m.1.kind.isCloser || m.1.kind == .colon) = true := by
    revert hm
    cases m.1.kind <;> simp [Form.starts, TokenKind.startsOperand, TokenKind.isCloser]
  rw [listing_cons hrest, if_neg hkinds.1, if_neg hkinds.2.1, if_neg hkinds.2.2, if_pos hlt]
  obtain ⟨hproblem', hitems, hends, hcursor'⟩ := h _ (hreach.trans (ha _)) hcursor
  refine ⟨?_, ?_, hends, hcursor'⟩
  · simp only [Listing.after, Listing.cons, if_true, hproblem, hproblem', Problem.note_none_left]
  · exact List.cons_eq_cons.mpr ⟨hvalue, hitems⟩

/-- **Lists are read.** -/
theorem listing_reads (ha : ∀ c, Reaches c (item c).cursor) {pieces : List β} {body : List Mark} {trailing : Bool}
    (hbody : Separated (pieces.map marksOf) body trailing) (hcloser : closer.1.kind = .closing g.bracket)
    (hstarts : ∀ b ∈ pieces, ∃ m rest, marksOf b = m :: rest ∧ Form.starts .element m.1.kind = true)
    (hitems : ∀ b ∈ pieces, ItemReads tokens g item erase (marksOf b) (treeOf b)) (hc : c.rest <:+ tokens)
    (hs : Sees c (body ++ closer :: more)) :
    ListReads (listing s g item true c) erase (pieces.map treeOf) (trailing || pieces.isEmpty) more := by
  generalize hlist : pieces.map marksOf = lists at hbody
  induction hbody generalizing pieces c with
  | nil =>
    obtain rfl := List.map_eq_nil_iff.mp hlist
    exact listing_closer true hs hcloser
  | last ms =>
    obtain ⟨b, bs, rfl, rfl, hbs⟩ := List.map_eq_cons_iff.mp hlist
    obtain rfl := List.map_eq_nil_iff.mp hbs
    obtain ⟨hitem, -⟩ := List.forall_mem_cons.mp hitems
    obtain ⟨hstart, -⟩ := List.forall_mem_cons.mp hstarts
    refine listing_item ha hitem hstart hc hs ?_ fun c' _ hs' => listing_closer false hs' hcloser
    rintro m ⟨⟩
    exact Or.inr hcloser
  | @cons ms comma items rest trailing hcomma hrest ih =>
    obtain ⟨b, bs, rfl, rfl, hbs⟩ := List.map_eq_cons_iff.mp hlist
    obtain ⟨hitem, hitems⟩ := List.forall_mem_cons.mp hitems
    obtain ⟨hstart, hstarts⟩ := List.forall_mem_cons.mp hstarts
    rw [List.append_assoc] at hs
    have hempty : items.isEmpty = bs.isEmpty := by
      rw [← hbs, List.isEmpty_map]
    rw [hempty, List.isEmpty_cons, Bool.or_false]
    refine listing_item ha hitem hstart hc hs ?_ fun c' hr hs' => listing_comma hs' hcomma fun c'' hr' hs'' => ?_
    · rintro m ⟨⟩
      exact Or.inl hcomma
    · exact ih hstarts hitems ((hr.trans hr').rest_suffix.trans hc) hs'' hbs

end Lists

/-! ## Containers -/

section Containers

variable {catalog : Catalog} {s : Source} {tokens : List Token} {c : Cursor} {more : List Mark} {opener closer : Mark}
  {n : Nat} {body : List Mark} {trailing : Bool} {read : Cursor → Element × Cursor}

/-- A derived tree is read as an element. -/
def ElementReads (tokens : List Token) (read : Cursor → Element × Cursor) (ms : List Mark) (tree : Element) : Prop :=
  ∀ c more, c.rest <:+ tokens → Sees c (ms ++ more) → Stops .element more → Reads read c tree more

theorem stops_of_comma_or_closer {b : Bracket}
    (h : ∀ m ∈ more.head?, m.1.kind = .comma ∨ m.1.kind = .closing b) : Stops .element more := by
  intro m hm
  rcases h m hm with hk | hk <;> rw [hk] <;> rfl

theorem elementItem_reads {g : Group} {ms : List Mark} {tree : Element} (h : ElementReads tokens read ms tree) :
    ItemReads tokens g (elementItem read) Element.erase ms tree := by
  intro c more hc hs hmore
  obtain ⟨htree, hcursor⟩ := h c more hc hs (stops_of_comma_or_closer hmore)
  exact ⟨rfl, htree, hcursor⟩

/-- The opening bracket of a container, and the cursor inside. -/
theorem operand_opener (catalog : Catalog) (n : Nat) (s : Source) (g : Group)
    (hs : Sees c (opener :: (body ++ [closer]) ++ more)) (hopens : ∀ us, opens? (opener.1 :: us) = some g) :
    ∃ c', Reaches c c' ∧ Sees c' (body ++ closer :: more) ∧
      operand catalog (n + 1) s true c = container catalog n s g opener.1 c' := by
  obtain ⟨us, hrest, hus, -⟩ := Sees.head hs
  refine ⟨_, Reaches.past_skip hrest, ⟨_, hus.trans ?_⟩, operand_container hrest (hopens us)⟩
  simp

theorem tuple_reads {items : List Piece} (hopener : opener.1.kind = .opening .round)
    (hcloser : closer.1.kind = .closing .round) (hbody : Separated (items.map Piece.marks) body trailing)
    (hstarts : ∀ p ∈ items, ∃ m rest, p.marks = m :: rest ∧ Form.starts .element m.1.kind = true)
    (hitems : ∀ p ∈ items, ElementReads tokens (chain s true (operand catalog n s true)) p.marks p.tree)
    (hc : c.rest <:+ tokens) (hs : Sees c (opener :: (body ++ [closer]) ++ more)) :
    Reads (operand catalog (n + 1) s true) c
      (.tuple (.blank none) (items.map Piece.tree) (trailing && items.length == 1)) more := by
  obtain ⟨c', hreach, hs', heq⟩ := operand_opener catalog n s .tuple hs
    (fun us => by simp only [opens?, hopener])
  have ha := elementItem_reaches (chain_reaches s true (operand_reaches catalog n s true))
  obtain ⟨hproblem, htrees, hends, hcursor⟩ := listing_reads (s := s) (g := .tuple) ha hbody hcloser hstarts
    (fun p hp => elementItem_reads (hitems p hp)) (hreach.rest_suffix.trans hc) hs'
  rw [Reads, heq]
  refine ⟨?_, hcursor⟩
  have hcomma := trailingComma_eq htrees hends
  simp only [container, tuple, Element.erase_tuple, Source.info, hproblem, htrees, hcomma]

/-- The items of an array are compared when all of them are read. -/
theorem array_reads {items : List Piece} (hopener : opener.1.kind = .opening .square)
    (hcloser : closer.1.kind = .closing .square) (hbody : Separated (items.map Piece.marks) body trailing)
    (hstarts : ∀ p ∈ items, ∃ m rest, p.marks = m :: rest ∧ Form.starts .element m.1.kind = true)
    (hitems : ∀ p ∈ items, ElementReads tokens (chain s true (operand catalog n s true)) p.marks p.tree)
    (hc : c.rest <:+ tokens) (hs : Sees c (opener :: (body ++ [closer]) ++ more)) :
    Reads (operand catalog (n + 1) s true) c
      (.array (.blank (mixedKinds? (items.map Piece.tree))) (items.map Piece.tree)) more := by
  obtain ⟨c', hreach, hs', heq⟩ := operand_opener catalog n s .array hs
    (fun us => by simp only [opens?, hopener])
  have ha := elementItem_reaches (chain_reaches s true (operand_reaches catalog n s true))
  obtain ⟨hproblem, htrees, hends, hcursor⟩ := listing_reads (s := s) (g := .array) ha hbody hcloser hstarts
    (fun p hp => elementItem_reads (hitems p hp)) (hreach.rest_suffix.trans hc) hs'
  rw [Reads, heq]
  refine ⟨?_, hcursor⟩
  have hmixed := congrArg mixedKinds? htrees
  rw [mixedKinds?_relabel] at hmixed
  simp only [container, array, Element.erase_array, Source.info, hproblem, htrees, hmixed, Problem.note_none_left]

theorem entry_reads (ha : Advances read) {k : Keyed} (hcolon : k.colon.1.kind = .colon)
    (hkind : k.key.tree.kind = .string ∨ k.key.tree.kind = .reference) (hproblem : k.key.tree.problem = none)
    (hstart : ∃ m rest, k.value.marks = m :: rest ∧ Form.starts .element m.1.kind = true)
    (hkey : ElementReads tokens read k.key.marks k.key.tree)
    (hvalue : ElementReads tokens read k.value.marks k.value.tree) :
    ItemReads tokens .json (entry read) Entry.erase k.marks k.entry := by
  intro c more hc hs hmore
  rw [Keyed.marks, List.append_assoc] at hs
  obtain ⟨htree, hafter⟩ := hkey c _ hc hs (stops_cons (by rw [hcolon]; rfl))
  obtain ⟨us, hrest, hus, -⟩ := Sees.head hafter
  have hreach : Reaches c (((read c).2.skipTrivia true).past k.colon.1 us) := (ha c).trans (Reaches.past_skip hrest)
  have hpast : Sees (((read c).2.skipTrivia true).past k.colon.1 us) (k.value.marks ++ more) := ⟨_, hus⟩
  have hinside := hpast.skipTrivia true
  obtain ⟨m, rest, hm, hstarts⟩ := hstart
  rw [hm] at hpast
  obtain ⟨vs, hvs, -, -⟩ := Sees.head hpast
  have hsuffix := (hreach.trans (Reaches.skipTrivia _ true)).rest_suffix.trans hc
  obtain ⟨hvtree, hcursor⟩ := hvalue _ _ hsuffix hinside (stops_of_comma_or_closer hmore)
  have hnone : keyProblem? (read c).1 = none := by
    have hk : (read c).1.kind = k.key.tree.kind := by rw [← htree, Element.relabel_kind]
    have hp : (read c).1.problem = none := by rw [← hproblem, ← htree, Element.relabel_problem]
    unfold keyProblem?
    rw [hp, hk]
    rcases hkind with h | h <;> rw [h] <;> rfl
  have hentry : entry read c =
      ⟨.pair (read c).1 (read ((((read c).2.skipTrivia true).past k.colon.1 us).skipTrivia true)).1, none,
        (read ((((read c).2.skipTrivia true).past k.colon.1 us).skipTrivia true)).2⟩ := by
    simp only [entry, hrest, hcolon, if_true, hnone, noting_none, Cursor.kind?, hvs, List.head?_cons, Option.map_some]
    revert hstarts
    cases m.1.kind <;> simp [Form.starts, TokenKind.startsOperand]
  rw [hentry]
  refine ⟨rfl, ?_, hcursor⟩
  simp only [Entry.relabel, htree, hvtree]
  rfl

theorem json_reads {entries : List Keyed} (hopener : opener.1.kind = .opening .curly)
    (hcloser : closer.1.kind = .closing .curly) (hbody : Separated (entries.map Keyed.marks) body trailing)
    (hstarts : ∀ k ∈ entries, ∃ m rest, k.marks = m :: rest ∧ Form.starts .element m.1.kind = true)
    (hentries : ∀ k ∈ entries,
      ItemReads tokens .json (entry (chain s true (operand catalog n s true))) Entry.erase k.marks k.entry)
    (hc : c.rest <:+ tokens) (hs : Sees c (opener :: (body ++ [closer]) ++ more)) :
    Reads (operand catalog (n + 1) s true) c (.json (.blank none) (entries.map Keyed.entry)) more := by
  obtain ⟨c', hreach, hs', heq⟩ := operand_opener catalog n s .json hs
    (fun us => by simp only [opens?, hopener])
  have ha := entry_reaches (chain_reaches s true (operand_reaches catalog n s true))
  obtain ⟨hproblem, htrees, -, hcursor⟩ := listing_reads (s := s) (g := .json) ha hbody hcloser hstarts hentries
    (hreach.rest_suffix.trans hc) hs'
  rw [Reads, heq]
  refine ⟨?_, hcursor⟩
  simp only [container, json, Element.erase_json, Source.info, hproblem, htrees]

end Containers

/-! ## Derivations -/

/-- The reader of a form. -/
def Form.reader (catalog : Catalog) (s : Source) : Form → Nat → Cursor → Element × Cursor
  | .element, n => chain s true (Reading.operand catalog n s true)
  | _, n => Reading.operand catalog n s true

/-- A block of the given notion is read. -/
def BlocksComplete (Block : Nat → List Mark → Element → Prop) (catalog : Catalog) (s : Source) (tokens : List Token) :
    Prop :=
  ∀ n ms e c more, Block n ms e → c.rest <:+ tokens → Sees c (ms ++ more) →
    Reads (operand catalog (n + 1) s true) c e more

/-- **Derived trees are read.** -/
theorem Derives.read {catalog : Catalog} {s : Source} {tokens : List Token} (hBlock : LawfulBlock Block)
    (hblocks : BlocksComplete Block catalog s tokens) (ho : Orderly tokens) {form : Form} {n : Nat} {ms : List Mark}
    {e : Element} (h : Derives Block form n ms e) :
    ∀ c more, c.rest <:+ tokens → Sees c (ms ++ more) → Stops form more → Reads (form.reader catalog s n) c e more := by
  induction h with
  | string h herror =>
    intro c more hc hs _
    exact reads_token hs herror (by simp) (fun us _ => opens?_of_kind us (by simp [h]) (by simp [h]))
      fun c us hrest => by simp only [leaf, hrest, h]
  | number h herror =>
    intro c more hc hs _
    exact reads_token hs herror (by simp) (fun us _ => opens?_of_kind us (by simp [h]) (by simp [h]))
      fun c us hrest => by simp only [leaf, hrest, h]
  | boolean h =>
    intro c more hc hs _
    have herror := (ho.valid _ (hs.mem hc)).error_eq_none (by simp [h]) (by simp [h])
    exact reads_token hs herror (by simp) (fun us _ => opens?_of_kind us (by simp [h]) (by simp [h]))
      fun c us hrest => by simp only [leaf, hrest, h]
  | ident h =>
    intro c more hc hs hstops
    have herror := (ho.valid _ (hs.mem hc)).error_eq_none (by simp [h]) (by simp [h])
    exact reads_token hs herror (by simp) (fun us hus => opens?_of_stops h hus hstops)
      fun c us hrest => by simp only [leaf, hrest, h]
  | reference hbar hname hclose hnext hlast =>
    intro c more _ hs _
    exact reads_reference hbar hname hclose hnext hlast hs
  | tuple hopener hcloser hbody hitems ih =>
    intro c more hc hs _
    exact tuple_reads hopener hcloser hbody (fun p hp => (hitems p hp).head hBlock) ih hc hs
  | array hopener hcloser hbody hitems huniform ih =>
    intro c more hc hs _
    have hmixed := (mixedKinds?_eq_none ?_).mpr huniform
    · have hreads := array_reads hopener hcloser hbody (fun p hp => (hitems p hp).head hBlock) ih hc hs
      rwa [hmixed] at hreads
    · intro e he
      obtain ⟨p, hp, rfl⟩ := List.mem_map.mp he
      exact (hitems p hp).isDecided_iff hBlock
  | json hopener hcloser hbody hcolons hkinds hkeys hvalues ihkeys ihvalues =>
    intro c more hc hs _
    have ha := fun n => chain_reaches s true (operand_reaches catalog n s true)
    refine json_reads hopener hcloser hbody ?_ ?_ hc hs
    · intro k hk
      obtain ⟨m, rest, hm, hstart⟩ := (Derives.first (.operand (hkeys k hk))).head hBlock
      exact ⟨m, rest ++ k.colon :: k.value.marks, by rw [Keyed.marks, hm]; rfl, hstart⟩
    · intro k hk
      refine entry_reads (ha _) (hcolons k hk) (hkinds k hk) ((hkeys k hk).problem_eq_none hBlock)
        ((hvalues k hk).head hBlock) ?_ (ihvalues k hk)
      exact fun c more hc hs hstops => chain_reads_first (ihkeys k hk c more hc hs hstops.operand) hstops
  | block h =>
    intro c more hc hs _
    exact hblocks _ _ _ c more h hc hs
  | operand _ ih => exact ih
  | negative hsign hnumber herror hnext =>
    intro c more hc hs _
    exact reads_negative ho hc hsign hnumber herror hnext hs
  | first _ ih =>
    intro c more hc hs hstops
    exact chain_reads_first (ih c more hc hs hstops.operand) hstops
  | @expression n ms e links hfirst hlinks hsigns hrights ihfirst ihrights =>
    intro c more hc hs hstops
    rw [List.append_assoc] at hs
    have ha := operand_reaches catalog n s true
    have hnext : Stops .first (links.flatMap Link.marks ++ more) := by
      cases links with
      | nil => exact absurd rfl hlinks
      | cons l links => exact stops_cons (by rw [hsigns l List.mem_cons_self]; rfl)
    have hread := ihfirst c _ hc hs hnext
    refine chain_reads_expression hread hlinks ?_
    exact chainTail_reads ha hsigns (fun l hl => (hrights l hl).head hBlock) ihrights
      ((ha c).rest_suffix.trans hc) hread.2 hstops

end UiScript.Grammar
