import UiScript.Proofs.Element.Occurrence
import UiScript.Proofs.Grammar

/-!
# What is read without a mistake is derived

If reading finds no mistake, the marks between the cursor before and the cursor after derive the tree that was read
(`operand_sound`, `element_sound`). Each reader is sound if the reader of its parts is; blocks are left to a hypothesis.
-/

namespace UiScript.Grammar

open Reading

variable {Block : Nat → List Mark → Element → Prop}

/-- The marks between two cursors make something. -/
def Recognizes {α : Type} (P : List Mark → α → Prop) (c c' : Cursor) (a : α) : Prop :=
  ∀ all, Sees c all → ∃ ms more, all = ms ++ more ∧ Sees c' more ∧ P ms a

/-- What a reader reads without a mistake among the given tokens is made by the marks it passes. -/
def Sound (tokens : List Token) (P : List Mark → Element → Prop) (read : Cursor → Element × Cursor) : Prop :=
  ∀ c, c.rest <:+ tokens → (read c).1.hasErrors = false → Recognizes P c (read c).2 (read c).1.erase

theorem Recognizes.mono {α : Type} {P Q : List Mark → α → Prop} {c c' : Cursor} {a : α} (h : Recognizes P c c' a)
    (hPQ : ∀ ms, P ms a → Q ms a) : Recognizes Q c c' a := by
  intro all hall
  obtain ⟨ms, more, heq, hmore, hP⟩ := h all hall
  exact ⟨ms, more, heq, hmore, hPQ ms hP⟩

theorem Recognizes.skipTrivia {α : Type} {P : List Mark → α → Prop} {c c' : Cursor} {a : α} (multiline : Bool)
    (h : Recognizes P (c.skipTrivia multiline) c' a) : Recognizes P c c' a :=
  fun all hall => h all (hall.skipTrivia multiline)

/-! ## Leaves -/

section Leaves

variable {c : Cursor} {t : Token} {ts : List Token} {n : Nat}

/-- A single token. -/
theorem recognizes_token {P : List Mark → Element → Prop} {e : Element} (h : c.rest = t :: ts)
    (ht : t.kind.isTrivia = false) (hP : ∀ k, P [(t, k)] e) :
    Recognizes P c (c.past t ts) e := by
  intro all hall
  obtain ⟨k, rfl, hmore⟩ := hall.past h ht
  exact ⟨[(t, k)], _, rfl, hmore, hP k⟩

theorem ofToken_hasErrors (t : Token) (l : Leaf) : (ofToken t l).hasErrors = t.error.isSome := by
  simp only [ofToken, Element.hasErrors, tokenInfo, Option.isSome_map]

/-- A reference without a mistake is a name and a bar. -/
theorem reference_inv {s : Source} (h : (reference s t c).1.hasErrors = false) :
    ∃ name close rest i, c.rest = name :: close :: rest ∧ isName name.kind = true ∧ close.kind = .pipe ∧
      i.problem = none ∧
      reference s t c = (.leaf i (.reference name.text), (c.past name (close :: rest)).past close rest) := by
  cases hrest : c.rest with
  | nil => simp [reference, hrest, stray, Element.hasErrors, tokenInfo] at h
  | cons name ns =>
    by_cases hname : isName name.kind = true
    · cases ns with
      | nil => simp [reference, hrest, hname, Element.hasErrors, Source.info] at h
      | cons close rest =>
        by_cases hclose : close.kind = .pipe
        · refine ⟨name, close, rest, s.info (t.span.merge close.span) t.line none, rfl, hname, hclose, rfl, ?_⟩
          simp only [reference, hrest, hname, hclose, if_true]
        · simp [reference, hrest, hname, hclose, Element.hasErrors, Source.info] at h
    · simp [reference, hrest, hname, stray, Element.hasErrors, tokenInfo] at h

/-- A minus sign without a mistake stands right before a number. -/
theorem negative_inv {s : Source} (h : (negative s t c).1.hasErrors = false) :
    ∃ number rest float i, c.rest = number :: rest ∧ number.kind = .number float ∧ number.error = none ∧
      number.span.start = t.span.stop ∧ i.problem = none ∧
      negative s t c = (.leaf i (.number number.text true float), c.past number rest) := by
  cases hrest : c.rest with
  | nil => simp [negative, hrest, stray, Element.hasErrors, tokenInfo] at h
  | cons number rest =>
    cases hkind : number.kind with
    | number float =>
      by_cases hnext : number.span.start = t.span.stop
      · simp only [negative, hrest, hkind, if_pos hnext, Element.hasErrors, Source.info, Option.isSome_map] at h
        have herror : number.error = none := by simpa using h
        refine ⟨number, rest, float, s.info (t.span.merge number.span) t.line none, rfl, hkind, herror, hnext, rfl, ?_⟩
        simp only [negative, hrest, hkind, if_pos hnext, herror, Option.map_none]
      · simp [negative, hrest, hkind, hnext, stray, Element.hasErrors, tokenInfo] at h
    | _ => simp [negative, hrest, hkind, stray, Element.hasErrors, tokenInfo] at h

theorem reference_sound (s : Source) (h : c.rest = t :: ts) (ht : t.kind = .pipe)
    (herrors : (reference s t (c.past t ts)).1.hasErrors = false) :
    Recognizes (Derives Block .operand n) c (reference s t (c.past t ts)).2 (reference s t (c.past t ts)).1.erase := by
  obtain ⟨name, close, rest, i, hrest, hname, hclose, hi, heq⟩ := reference_inv herrors
  have hts : ts = name :: close :: rest := hrest
  subst hts
  have hmarks : ∀ k, marks k c.rest = (t, k) :: (name, k + 1) :: (close, k + 1 + 1) :: marks (k + 1 + 1 + 1) rest := by
    intro k
    rw [h, marks_cons (by rw [ht]; rfl), marks_cons (isTrivia_of_isName hname), marks_cons (by rw [hclose]; rfl)]
  rintro _ ⟨k, rfl⟩
  rw [heq, erase_leaf hi (by simp), hmarks]
  exact ⟨[(t, k), (name, k + 1), (close, k + 1 + 1)], _, rfl, ⟨_, rfl⟩, .reference ht hname hclose rfl rfl⟩

theorem negative_sound (s : Source) (h : c.rest = t :: ts) (ht : t.kind = .operator .sub)
    (herrors : (negative s t (c.past t ts)).1.hasErrors = false) :
    Recognizes (Derives Block .first n) c (negative s t (c.past t ts)).2 (negative s t (c.past t ts)).1.erase := by
  obtain ⟨number, rest, float, i, hrest, hkind, herror, hnext, hi, heq⟩ := negative_inv herrors
  have hts : ts = number :: rest := hrest
  subst hts
  rintro _ ⟨k, rfl⟩
  rw [heq, erase_leaf hi (by simp), h, marks_cons (by rw [ht]; rfl), marks_cons (by rw [hkind]; rfl)]
  exact ⟨[(t, k), (number, k + 1)], _, rfl, ⟨_, rfl⟩, .negative ht hkind herror hnext⟩

theorem leaf_sound (s : Source) (herrors : (leaf s c).1.hasErrors = false) :
    Recognizes (Derives Block .first n) c (leaf s c).2 (leaf s c).1.erase := by
  cases h : c.rest with
  | nil => simp [leaf, h, Cursor.missing, Element.hasErrors, Source.info] at herrors
  | cons t ts =>
    have hof : ∀ l, l ≠ Leaf.unknown → t.kind.isTrivia = false → (ofToken t l).hasErrors = false →
        (t.error = none → ∀ k, Derives Block .operand n [(t, k)] (literal l)) →
        Recognizes (Derives Block .first n) c (c.past t ts) (ofToken t l).erase := by
      intro l hl htrivia he hP
      have herror : t.error = none := by simpa [ofToken_hasErrors] using he
      rw [ofToken, erase_leaf (by simp [tokenInfo, herror]) hl]
      exact recognizes_token h htrivia fun k => .operand (hP herror k)
    cases hkind : t.kind with
    | string value quote =>
      simp only [leaf, h, hkind] at herrors ⊢
      exact hof _ (by simp) (by rw [hkind]; rfl) herrors fun herror k => .string hkind herror
    | number float =>
      simp only [leaf, h, hkind] at herrors ⊢
      exact hof _ (by simp) (by rw [hkind]; rfl) herrors fun herror k => .number hkind herror
    | boolean b =>
      simp only [leaf, h, hkind] at herrors ⊢
      exact hof _ (by simp) (by rw [hkind]; rfl) herrors fun _ k => .boolean hkind
    | word =>
      simp only [leaf, h, hkind] at herrors ⊢
      exact hof _ (by simp) (by rw [hkind]; rfl) herrors fun _ k => .ident hkind
    | pipe =>
      simp only [leaf, h, hkind] at herrors ⊢
      exact (reference_sound s h hkind herrors).mono fun _ => .operand
    | operator op =>
      cases op with
      | sub =>
        simp only [leaf, h, hkind] at herrors ⊢
        exact negative_sound s h hkind herrors
      | _ => simp [leaf, h, hkind, stray, Element.hasErrors, tokenInfo] at herrors
    | newline | comment => simp [leaf, h, hkind, Cursor.missing, Element.hasErrors, Source.info] at herrors
    | unknown | opening | closing | comma | colon =>
      simp [leaf, h, hkind, stray, Element.hasErrors, tokenInfo] at herrors

end Leaves

/-! ## Chains -/

/-- Where an operator cannot start, a negative number is not meant. -/
theorem Derives.operand_of_starts {n : Nat} {ms : List Mark} {e : Element} (h : Derives Block .first n ms e)
    (hstarts : ∀ m ∈ ms.head?, m.1.kind.startsOperand = true) : Derives Block .operand n ms e := by
  cases h with
  | operand h => exact h
  | negative hsign hnumber hnext =>
    have hm := hstarts _ rfl
    rw [hsign] at hm
    cases hm

/-- Operators, each with its operand. -/
def Chained (Block : Nat → List Mark → Element → Prop) (n : Nat) (ms : List Mark) (parts : List Element) : Prop :=
  ∃ links : List Link, ms = links.flatMap Link.marks ∧ parts = links.flatMap Link.parts ∧
    (∀ l ∈ links, l.sign.1.kind = .operator l.op) ∧
    ∀ l ∈ links, Derives Block .operand n l.right.marks l.right.tree

theorem Chained.cons {n : Nat} {ms : List Mark} {parts : List Element} (h : Chained Block n ms parts) {l : Link}
    (hsign : l.sign.1.kind = .operator l.op) (hright : Derives Block .operand n l.right.marks l.right.tree) :
    Chained Block n (l.marks ++ ms) (l.parts ++ parts) := by
  obtain ⟨links, rfl, rfl, hsigns, hrights⟩ := h
  exact ⟨l :: links, rfl, rfl, List.forall_mem_cons.mpr ⟨hsign, hsigns⟩, List.forall_mem_cons.mpr ⟨hright, hrights⟩⟩

section Chains

variable {tokens : List Token} {read : Cursor → Element × Cursor} {n : Nat}

theorem skipOperator_none {op : Operator} {multiline : Bool} {c ahead : Cursor}
    (h : skipOperator op multiline c = (none, ahead)) : ahead = c := by
  unfold skipOperator at h
  split at h
  · split at h
    · cases h
    · cases h; rfl
  · cases h; rfl

/-- What is read where an operand can start is an operand. -/
theorem Sound.operand (hread : Sound tokens (Derives Block .first n) read) {c : Cursor} (hc : c.rest <:+ tokens)
    (hstarts : c.kind?.any TokenKind.startsOperand = true) (herrors : (read c).1.hasErrors = false) :
    Recognizes (Derives Block .operand n) c (read c).2 (read c).1.erase := by
  intro all hall
  obtain ⟨ms, more, heq, hmore, hfirst⟩ := hread c hc herrors all hall
  refine ⟨ms, more, heq, hmore, hfirst.operand_of_starts fun m hm => ?_⟩
  cases hrest : c.rest with
  | nil => simp [Cursor.kind?, hrest] at hstarts
  | cons u us =>
    have hu : u.kind.startsOperand = true := by simpa [Cursor.kind?, hrest] using hstarts
    have htrivia : u.kind.isTrivia = false := by
      cases hk : u.kind <;> first | rfl | (rw [hk] at hu; cases hu)
    obtain ⟨k, hall', -⟩ := hall.past hrest htrivia
    cases ms with
    | nil => cases hm
    | cons m' ms =>
      rw [hall'] at heq
      obtain ⟨rfl, -⟩ := List.cons.inj heq
      cases hm
      exact hu

theorem chainTail_sound (hread : Sound tokens (Derives Block .first n) read) (ha : Advances read)
    (multiline : Bool) (c : Cursor) (hc : c.rest <:+ tokens) (hproblem : (chainTail multiline read c).problem = none)
    (hparts : ∀ p ∈ (chainTail multiline read c).parts, p.hasErrors = false) :
    Recognizes (Chained Block n) c (chainTail multiline read c).cursor
      ((chainTail multiline read c).parts.map Element.erase) := by
  fun_induction chainTail multiline read c with
  | case1 c h =>
    exact fun all hall =>
      ⟨[], all, rfl, hall.skipTrivia multiline, [], rfl, rfl, by simp, by simp⟩
  | case2 c t ts h op hop sign doubled ahead hahead hstarts right after hright hlt tail ih =>
    obtain ⟨rfl, htail⟩ := Problem.note_eq_none.mp hproblem
    obtain ⟨-, hr⟩ := List.forall_mem_cons.mp hparts
    obtain ⟨hrightErrors, hrest⟩ := List.forall_mem_cons.mp hr
    have hahead' := skipOperator_none hahead
    have hreach := operatorAhead_reaches h hahead
    have hsuffix := hreach.rest_suffix.trans hc
    have hafter := (ha ahead).rest_suffix.trans hsuffix
    have hrec := hread.operand hsuffix hstarts (by rw [hright]; exact hrightErrors)
    rw [hright] at hrec hafter
    intro all hall
    obtain ⟨k, rfl, hsees⟩ := (hall.skipTrivia multiline).past h (by rw [hop]; rfl)
    have hsees' := hsees.skipTrivia multiline
    rw [← hahead'] at hsees'
    obtain ⟨ms, more, heq, hmore, hoperand⟩ := hrec _ hsees'
    obtain ⟨ms', more', heq', hmore', hchained⟩ := ih hafter htail hrest more hmore
    refine ⟨(t, k) :: (ms ++ ms'), more', ?_, hmore', ?_⟩
    · rw [heq, heq', List.cons_append, List.append_assoc]
    · exact hchained.cons (l := ⟨(t, k), op, ⟨ms, right.erase⟩⟩) hop hoperand
  | case3 c t ts h op hop sign doubled ahead hahead hstarts right after hright hlt =>
    have hlen : after.rest.length ≤ ahead.rest.length := by
      have hlen := (ha ahead).length_le
      rw [hright] at hlen
      exact hlen
    have hless := operatorAhead_lt h hahead
    omega
  | case4 c t ts h op hop sign doubled ahead hahead hstarts => cases (Problem.note_eq_none.mp hproblem).2
  | case5 c t ts h hop =>
    exact fun all hall =>
      ⟨[], all, rfl, hall.skipTrivia multiline, [], rfl, rfl, by simp, by simp⟩

/-- Where no operator follows, only comments and line ends are passed over. -/
theorem chainTail_cursor {multiline : Bool} {c : Cursor} (h : (chainTail multiline read c).parts = []) :
    (chainTail multiline read c).cursor = c.skipTrivia multiline := by
  rw [chainTail] at h ⊢
  split at h
  · rfl
  · split at h
    · dsimp only at h
      split at h
      · split at h <;> cases h
      · cases h
    · rfl

theorem chain_sound (hread : Sound tokens (Derives Block .first n) read) (ha : Advances read)
    (s : Source) (multiline : Bool) :
    Sound tokens (Derives Block .element n) (chain s multiline read) := by
  intro c hc herrors all hall
  have hafter := (ha c).rest_suffix.trans hc
  have htail := chainTail_sound hread ha multiline (read c).2 hafter
  simp only [chain] at herrors ⊢
  split at herrors
  · rename_i hempty
    rw [if_pos hempty]
    have hparts : (chainTail multiline read (read c).2).parts = [] := List.isEmpty_iff.mp hempty
    obtain ⟨ms, more, rfl, hmore, hfirst⟩ := hread c hc herrors all hall
    rw [chainTail_cursor hparts]
    exact ⟨ms, more, rfl, hmore.skipTrivia multiline, .first hfirst⟩
  · rename_i hempty
    rw [if_neg hempty]
    simp only [Element.hasErrors, Source.info, anyErrors_eq_any, List.any_cons, Bool.or_eq_false_iff,
      Option.isSome_eq_false_iff, Option.isNone_iff_eq_none, List.any_eq_false, Bool.not_eq_true] at herrors
    obtain ⟨hproblem, hfirstErrors, hparts⟩ := herrors
    obtain ⟨ms, more, rfl, hmore, hfirst⟩ := hread c hc hfirstErrors all hall
    obtain ⟨ms', more', rfl, hmore', links, rfl, hlinks, hsigns, hrights⟩ :=
      htail hproblem hparts more hmore
    refine ⟨ms ++ links.flatMap Link.marks, more', (List.append_assoc _ _ _).symm, hmore', ?_⟩
    have hne : links ≠ [] := by
      rintro rfl
      exact hempty (List.isEmpty_iff.mpr (List.map_eq_nil_iff.mp hlinks))
    simp only [Element.erase_expression, List.map_cons, Source.info, hproblem, hlinks]
    exact .expression hfirst hne hsigns hrights

end Chains

/-! ## Lists -/

/-- What follows in a list, where an item may come next or not: whether an item may still come at its end. -/
def Following : Bool → List (List Mark) → List Mark → Bool → Prop
  | true, items, body, ends => ∃ trailing, Separated items body trailing ∧ ends = (trailing || items.isEmpty)
  | false, items, body, ends => (items = [] ∧ body = [] ∧ ends = false) ∨
    ∃ comma rest trailing, body = comma :: rest ∧ comma.1.kind = .comma ∧ Separated items rest trailing ∧
      ends = (trailing || items.isEmpty)

theorem Following.end (awaiting : Bool) : Following awaiting [] [] awaiting := by
  cases awaiting with
  | true => exact ⟨false, .nil, rfl⟩
  | false => exact Or.inl ⟨rfl, rfl, rfl⟩

theorem Following.comma {items : List (List Mark)} {body : List Mark} {ends : Bool} {comma : Mark}
    (hcomma : comma.1.kind = .comma) (h : Following true items body ends) :
    Following false items (comma :: body) ends := by
  obtain ⟨trailing, hseparated, hends⟩ := h
  exact Or.inr ⟨comma, body, trailing, rfl, hcomma, hseparated, hends⟩

theorem Following.item {items : List (List Mark)} {body : List Mark} {ends : Bool} (item : List Mark)
    (h : Following false items body ends) : Following true (item :: items) (item ++ body) ends := by
  rcases h with ⟨rfl, rfl, rfl⟩ | ⟨comma, rest, trailing, rfl, hcomma, hseparated, rfl⟩
  · exact ⟨false, by rw [List.append_nil]; exact .last item, rfl⟩
  · exact ⟨_, .cons item hcomma hseparated, by simp⟩

section Lists

variable {α α' β : Type} {tokens : List Token} {s : Source} {g : Group} {item : Cursor → Reading.Item α}
  {marksOf : β → List Mark} {treeOf : β → α'} {erase : α → α'} {sound : α → Prop} {Q : β → Prop}

/-- The marks of some pieces up to the closing bracket of a group, and the trees of these pieces. -/
def Listed (g : Group) (marksOf : β → List Mark) (treeOf : β → α') (Q : β → Prop) (awaiting ends : Bool)
    (ms : List Mark) (trees : List α') : Prop :=
  ∃ (pieces : List β) (body : List Mark) (closer : Mark), ms = body ++ [closer] ∧
    closer.1.kind = .closing g.bracket ∧ trees = pieces.map treeOf ∧ (∀ b ∈ pieces, Q b) ∧
    Following awaiting (pieces.map marksOf) body ends

theorem listing_sound
    (hitem : ∀ c, c.rest <:+ tokens → (item c).problem = none → sound (item c).value →
      Recognizes (fun ms a => ∃ b, ms = marksOf b ∧ a = treeOf b ∧ Q b) c (item c).cursor (erase (item c).value))
    (hne : ∀ b, Q b → marksOf b ≠ []) (ha : ∀ c, Reaches c (item c).cursor)
    (awaiting : Bool) (c : Cursor) (hc : c.rest <:+ tokens) (hproblem : (listing s g item awaiting c).problem = none)
    (hsound : ∀ a ∈ (listing s g item awaiting c).items, sound a) :
    Recognizes (Listed g marksOf treeOf Q awaiting (listing s g item awaiting c).awaiting) c
      (listing s g item awaiting c).cursor ((listing s g item awaiting c).items.map erase) := by
  fun_induction listing s g item awaiting c with
  | case1 awaiting c h => cases hproblem
  | case2 awaiting c t ts h ahead _ hk =>
    intro all hall
    obtain ⟨k, rfl, hmore⟩ := (hall.skipTrivia true).past h (by rw [hk]; rfl)
    exact ⟨[(t, k)], _, rfl, hmore, [], [], (t, k), rfl, hk, rfl, by simp, .end awaiting⟩
  | case3 awaiting c t ts h ahead _ hk hk' ih =>
    obtain ⟨hawaiting, hrest⟩ := Problem.note_eq_none.mp hproblem
    cases awaiting with
    | true => cases hawaiting
    | false =>
      intro all hall
      obtain ⟨k, rfl, hmore⟩ := (hall.skipTrivia true).past h (by rw [hk']; rfl)
      have hsuffix := (Reaches.past_skip h).rest_suffix.trans hc
      obtain ⟨_, more, heq, hmore', pieces, body, closer, rfl, hcloser, htrees, hQ, hfollowing⟩ :=
        ih hsuffix hrest hsound _ hmore
      exact ⟨(t, k) :: (body ++ [closer]), more, by rw [heq]; rfl, hmore', pieces, (t, k) :: body, closer, rfl,
        hcloser, htrees, hQ, hfollowing.comma hk'⟩
  | case4 awaiting c t ts h ahead _ hk hk' hk'' ih => cases (Problem.note_eq_none.mp hproblem).1
  | case5 awaiting c t ts h ahead _ hk hk' hk'' read problem hlt ih =>
    obtain ⟨hp, hrest⟩ := Problem.note_eq_none.mp hproblem
    obtain ⟨hawaiting, hread⟩ := Problem.note_eq_none.mp hp
    cases awaiting with
    | false => cases hawaiting
    | true =>
      intro all hall
      obtain ⟨ha', hsound'⟩ := List.forall_mem_cons.mp hsound
      have hskip := Reaches.skipTrivia c true
      have hsuffix := hskip.rest_suffix.trans hc
      obtain ⟨_, more, rfl, hmore, b, rfl, htree, hb⟩ :=
        hitem _ hsuffix hread ha' _ (hall.skipTrivia true)
      obtain ⟨_, more', rfl, hmore', pieces, body, closer, rfl, hcloser, htrees, hQ, hfollowing⟩ :=
        ih ((ha _).rest_suffix.trans hsuffix) hrest hsound' _ hmore
      refine ⟨marksOf b ++ body ++ [closer], more', by simp, hmore', b :: pieces, marksOf b ++ body, closer, rfl,
        hcloser, ?_, List.forall_mem_cons.mpr ⟨hb, hQ⟩, hfollowing.item _⟩
      exact List.cons_eq_cons.mpr ⟨htree, htrees⟩
  | case6 awaiting c t ts h ahead _ hk hk' hk'' read problem hlt =>
    -- an item without a mistake takes at least one token
    intro all hall
    obtain ⟨hawaiting, hread⟩ := Problem.note_eq_none.mp hproblem
    have hskip := Reaches.skipTrivia c true
    obtain ⟨_, more, rfl, hmore, b, rfl, -, hb⟩ := hitem _ (hskip.rest_suffix.trans hc) hread
      (hsound _ List.mem_cons_self) _ (hall.skipTrivia true)
    exact absurd (hall.length_lt hmore (hskip.trans (ha _)) (hne b hb)) hlt

end Lists

/-! ## Containers -/

section Containers

variable {tokens : List Token} {read : Cursor → Element × Cursor} {n : Nat} {c : Cursor} {t : Token} {ts : List Token}

/-- The opening bracket and the list after it. -/
theorem Recognizes.opening {α β : Type} {g : Group} {marksOf : β → List Mark} {treeOf : β → α} {Q : β → Prop}
    {ends : Bool} {c' : Cursor} {trees : List α} {P : List Mark → Element → Prop} {e : Element} (h : c.rest = t :: ts)
    (hkind : t.kind = .opening g.bracket)
    (hlist : Recognizes (Listed g marksOf treeOf Q true ends) (c.past t ts) c' trees)
    (hP : ∀ opener closer : Mark, ∀ (pieces : List β) body trailing, opener.1.kind = .opening g.bracket →
      closer.1.kind = .closing g.bracket → Separated (pieces.map marksOf) body trailing →
      ends = (trailing || pieces.isEmpty) → trees = pieces.map treeOf → (∀ b ∈ pieces, Q b) →
      P (opener :: (body ++ [closer])) e) : Recognizes P c c' e := by
  intro all hall
  obtain ⟨k, rfl, hmore⟩ := hall.past h (by rw [hkind]; rfl)
  obtain ⟨_, more, heq, hmore', pieces, body, closer, rfl, hcloser, htrees, hQ, trailing, hseparated, hends⟩ :=
    hlist _ hmore
  refine ⟨(t, k) :: (body ++ [closer]), more, by rw [heq]; rfl, hmore', ?_⟩
  exact hP _ closer pieces body trailing hkind hcloser hseparated (by simpa using hends) htrees hQ

theorem elementItem_sound (hread : Sound tokens (Derives Block .element n) read) (c : Cursor) (hc : c.rest <:+ tokens)
    (herrors : (elementItem read c).value.hasErrors = false) :
    Recognizes (fun ms a => ∃ p : Piece, ms = p.marks ∧ a = p.tree ∧ Derives Block .element n p.marks p.tree) c
      (elementItem read c).cursor (elementItem read c).value.erase :=
  (hread c hc herrors).mono fun ms h => ⟨⟨ms, _⟩, rfl, rfl, h⟩

theorem tuple_sound (hBlock : LawfulBlock Block) (hread : Sound tokens (Derives Block .element n) read)
    (ha : Advances read) (s : Source) (hc : c.rest <:+ tokens) (h : c.rest = t :: ts)
    (ht : t.kind = .opening .round) (herrors : (tuple s read t (c.past t ts)).1.hasErrors = false) :
    Recognizes (Derives Block .operand (n + 1)) c (tuple s read t (c.past t ts)).2
      (tuple s read t (c.past t ts)).1.erase := by
  have hpast := (Reaches.past h).rest_suffix.trans hc
  simp only [tuple, Element.hasErrors, Source.info, anyErrors_eq_any, Bool.or_eq_false_iff, Option.isSome_eq_false_iff,
    Option.isNone_iff_eq_none, List.any_eq_false, Bool.not_eq_true] at herrors
  have hlist := listing_sound (s := s) (g := .tuple) (fun c hc _ => elementItem_sound hread c hc)
    (fun p hp => hp.ne_nil hBlock) (elementItem_reaches ha) true _ hpast herrors.1 herrors.2
  refine hlist.opening (g := .tuple) h ht ?_
  intro opener closer pieces body trailing hopener hcloser hseparated hends htrees hQ
  have hcomma := trailingComma_eq htrees hends
  simp only [tuple, Element.erase_tuple, Source.info, herrors.1, htrees, hcomma]
  exact .tuple hopener hcloser hseparated hQ

theorem array_sound (hBlock : LawfulBlock Block) (hread : Sound tokens (Derives Block .element n) read)
    (ha : Advances read) (s : Source) (hc : c.rest <:+ tokens) (h : c.rest = t :: ts)
    (ht : t.kind = .opening .square) (herrors : (array s read t (c.past t ts)).1.hasErrors = false) :
    Recognizes (Derives Block .operand (n + 1)) c (array s read t (c.past t ts)).2
      (array s read t (c.past t ts)).1.erase := by
  have hpast := (Reaches.past h).rest_suffix.trans hc
  simp only [array, Element.hasErrors, Source.info, anyErrors_eq_any, Bool.or_eq_false_iff, Option.isSome_eq_false_iff,
    Option.isNone_iff_eq_none, List.any_eq_false, Bool.not_eq_true] at herrors
  obtain ⟨hproblem, hitems⟩ := herrors
  obtain ⟨hlisting, hmixed⟩ := Problem.note_eq_none.mp hproblem
  have hlist := listing_sound (s := s) (g := .array) (fun c hc _ => elementItem_sound hread c hc)
    (fun p hp => hp.ne_nil hBlock) (elementItem_reaches ha) true _ hpast hlisting hitems
  refine hlist.opening (g := .array) h ht ?_
  intro opener closer pieces body trailing hopener hcloser hseparated hends htrees hQ
  have huniform : Uniform (pieces.map Piece.tree) := by
    refine (mixedKinds?_eq_none ?_).mp ?_
    · intro e he
      obtain ⟨p, hp, rfl⟩ := List.mem_map.mp he
      exact (hQ p hp).isDecided_iff hBlock
    · rw [← htrees, mixedKinds?_relabel, hmixed]
  simp only [array, Element.erase_array, Source.info, hproblem, htrees]
  exact .array hopener hcloser hseparated hQ huniform

theorem hasErrors_noting {e : Element} {p : Option Problem} :
    (e.noting p).hasErrors = false ↔ e.hasErrors = false ∧ p = none := by
  cases e <;> simp [Element.noting, Element.withInfo, Element.info, Element.problem, Element.hasErrors,
    Problem.note_eq_none, and_comm, and_assoc]

/-- An entry without a problem has a colon and a value. -/
theorem entry_inv (h : (entry read c).problem = none) :
    ∃ colon rest, ((read c).2.skipTrivia true).rest = colon :: rest ∧ colon.kind = .colon ∧
      entry read c =
        ⟨.pair ((read c).1.noting (keyProblem? (read c).1))
          (read ((((read c).2.skipTrivia true).past colon rest).skipTrivia true)).1, none,
          (read ((((read c).2.skipTrivia true).past colon rest).skipTrivia true)).2⟩ := by
  cases hrest : ((read c).2.skipTrivia true).rest with
  | nil => simp [entry, hrest] at h
  | cons colon rest =>
    by_cases hcolon : colon.kind = .colon
    · refine ⟨colon, rest, rfl, hcolon, ?_⟩
      simp only [entry, hrest, hcolon, if_true] at h ⊢
      split at h
      · cases h
      · cases h
      · cases h
      · rfl
    · simp [entry, hrest, hcolon] at h

theorem entry_sound (hread : Sound tokens (Derives Block .element n) read) (ha : Advances read)
    (c : Cursor) (hc : c.rest <:+ tokens) (hproblem : (entry read c).problem = none)
    (herrors : (entry read c).value.hasErrors = false) :
    Recognizes (fun ms a => ∃ k : Keyed, ms = k.marks ∧ a = k.entry ∧ k.colon.1.kind = .colon ∧
        (k.key.tree.kind = .string ∨ k.key.tree.kind = .reference) ∧ Derives Block .operand n k.key.marks k.key.tree ∧
        Derives Block .element n k.value.marks k.value.tree)
      c (entry read c).cursor (entry read c).value.erase := by
  obtain ⟨colon, rest, hrest, hcolon, heq⟩ := entry_inv hproblem
  rw [heq] at herrors ⊢
  simp only [Entry.hasErrors, Bool.or_eq_false_iff, hasErrors_noting] at herrors
  obtain ⟨⟨hkeyErrors, hkeyProblem⟩, hvalueErrors⟩ := herrors
  have hkind := keyProblem?_eq_none (Element.problem_eq_none hkeyErrors) hkeyProblem
  have hafter := (ha c).rest_suffix.trans hc
  have hpast := (Reaches.past_skip hrest).rest_suffix.trans hafter
  have hinside := (Reaches.skipTrivia (((read c).2.skipTrivia true).past colon rest) true).rest_suffix.trans hpast
  intro all hall
  obtain ⟨ms, more, rfl, hmore, hkey⟩ := hread c hc hkeyErrors all hall
  obtain ⟨k, rfl, hinner⟩ := (hmore.skipTrivia true).past hrest (by rw [hcolon]; rfl)
  obtain ⟨ms', more', heq', hmore', hvalue⟩ := hread _ hinside hvalueErrors _ (hinner.skipTrivia true)
  refine ⟨ms ++ (colon, k) :: ms', more', by rw [heq']; simp, hmore',
    ⟨⟨ms, (read c).1.erase⟩, (colon, k), ⟨ms', _⟩⟩, rfl, ?_, hcolon, ?_, hkey.operand_of_kind ?_, hvalue⟩
  · rw [hkeyProblem, noting_none]
    rfl
  · simpa using hkind
  · simpa using hkind

theorem json_sound (hread : Sound tokens (Derives Block .element n) read)
    (ha : Advances read) (s : Source) (hc : c.rest <:+ tokens) (h : c.rest = t :: ts)
    (ht : t.kind = .opening .curly) (herrors : (json s read t (c.past t ts)).1.hasErrors = false) :
    Recognizes (Derives Block .operand (n + 1)) c (json s read t (c.past t ts)).2
      (json s read t (c.past t ts)).1.erase := by
  have hpast := (Reaches.past h).rest_suffix.trans hc
  simp only [json, Element.hasErrors, Source.info, anyEntryErrors_eq_any, Bool.or_eq_false_iff,
    Option.isSome_eq_false_iff, Option.isNone_iff_eq_none, List.any_eq_false, Bool.not_eq_true] at herrors
  have hlist := listing_sound (s := s) (g := .json) (fun c hc => entry_sound hread ha c hc)
    (fun k _ => List.append_ne_nil_of_right_ne_nil _ (List.cons_ne_nil _ _)) (entry_reaches ha) true _ hpast
    herrors.1 herrors.2
  refine hlist.opening (g := .json) h ht ?_
  intro opener closer pieces body trailing hopener hcloser hseparated hends htrees hQ
  simp only [json, Element.erase_json, Source.info, herrors.1, htrees]
  exact .json hopener hcloser hseparated (fun e he => (hQ e he).1) (fun e he => (hQ e he).2.1)
    (fun e he => (hQ e he).2.2.1) fun e he => (hQ e he).2.2.2

end Containers

/-! ## Operands and elements -/

/-- A block that is read without a mistake is one of the given notion. -/
def BlocksSound (Block : Nat → List Mark → Element → Prop) (catalog : Catalog) (s : Source) (tokens : List Token) :
    Prop :=
  ∀ n c t ts, c.rest <:+ tokens → c.rest = t :: ts → opens? (t :: ts) = some .block →
    (container catalog n s .block t (c.past t ts)).1.hasErrors = false →
      Recognizes (Block n) c (container catalog n s .block t (c.past t ts)).2
        (container catalog n s .block t (c.past t ts)).1.erase

section Levels

variable {tokens : List Token} {catalog : Catalog} {s : Source}

/-- **Operands are derived.** -/
theorem operand_sound (hBlock : LawfulBlock Block) (hblocks : BlocksSound Block catalog s tokens)
    (levels : Nat) (multiline : Bool) :
    Sound tokens (Derives Block .first levels) (operand catalog levels s multiline) := by
  induction levels using Nat.strongRecOn generalizing multiline with
  | ind levels ih =>
    intro c hc herrors
    have hskip := (Reaches.skipTrivia c multiline).rest_suffix.trans hc
    rcases operand_cases catalog levels s multiline c with ⟨-, h⟩ | ⟨-, h⟩ | ⟨below, g, t, ts, rfl, hrest, hg, h⟩
    · rw [h] at herrors ⊢
      exact (leaf_sound s herrors).skipTrivia
    · rw [h] at herrors
      simp [tooDeep, Element.hasErrors, Source.info] at herrors
    · have hreach := operand_reaches catalog below s true
      have ha := chain_reaches s true hreach
      have hread := chain_sound (ih below (Nat.lt_succ_self _) true) hreach s true
      rw [h] at herrors ⊢
      refine Recognizes.skipTrivia multiline ?_
      have hkind := opens?_bracket hg
      cases g with
      | tuple =>
        exact (tuple_sound hBlock hread ha s hskip hrest (hkind (by simp)) herrors).mono fun _ => .operand
      | array =>
        exact (array_sound hBlock hread ha s hskip hrest (hkind (by simp)) herrors).mono fun _ => .operand
      | json => exact (json_sound hread ha s hskip hrest (hkind (by simp)) herrors).mono fun _ => .operand
      | block => exact (hblocks below _ t ts hskip hrest hg herrors).mono fun _ hb => .operand (.block hb)

/-- **Elements are derived.** -/
theorem element_sound (hBlock : LawfulBlock Block) (hblocks : BlocksSound Block catalog s tokens)
    (levels : Nat) (multiline : Bool) :
    Sound tokens (Derives Block .element levels) (chain s multiline (operand catalog levels s multiline)) :=
  chain_sound (operand_sound hBlock hblocks levels multiline) (operand_reaches catalog levels s multiline) s multiline

end Levels

end UiScript.Grammar
