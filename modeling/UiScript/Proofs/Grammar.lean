import UiScript.Proofs.Element.Occurrence
import UiScript.Proofs.Element.Relabel
import UiScript.Proofs.Reading.Progress

/-!
# The grammar of literals

What an element is, without a reader. The grammar speaks about *marks*: the tokens that are neither comments nor line
ends, each with its number among all tokens of the text, so that a rule can ask for tokens with nothing between them.

* `element := first (OPERATOR operand)*`
* `first := operand | '-' NUMBER`, the sign right before the number
* `operand := STRING | NUMBER | BOOL | IDENT | reference | tuple | array | dictionary | block`
* `reference := '|' (IDENT | BOOL) '|'`, three tokens that follow each other directly

Tuples and arrays hold elements, dictionaries hold entries `key ':' element` with a string or a reference as key; all
are lists with commas between the items and perhaps one after the last (`Separated`). The strings and numbers of a
derivation have no lexical mistakes. A derivation counts the levels that are left for containers, and gives the tree
of what it derives, with empty places. What a block is, is a parameter.
-/

namespace UiScript.Grammar

open Reading

/-! ## Marks -/

/-- A token with its number. -/
abbrev Mark := Token × Nat

/-- The tokens that are neither comments nor line ends, with their numbers, of which the first token has the given
one. -/
def marks (first : Nat) (tokens : List Token) : List Mark := (tokens.zipIdx first).filter (!·.1.kind.isTrivia)

section Marks

variable {k : Nat} {t : Token} {ts : List Token}

theorem marks_trivia (h : t.kind.isTrivia = true) : marks k (t :: ts) = marks (k + 1) ts := by
  simp [marks, h]

theorem marks_cons (h : t.kind.isTrivia = false) : marks k (t :: ts) = (t, k) :: marks (k + 1) ts := by
  simp [marks, h]

theorem marks_append (k : Nat) (ts us : List Token) : marks k (ts ++ us) = marks k ts ++ marks (k + ts.length) us := by
  simp [marks, List.zipIdx_append]

theorem map_fst_marks (k : Nat) (ts : List Token) : (marks k ts).map Prod.fst = ts.filter (!·.kind.isTrivia) := by
  induction ts generalizing k with
  | nil => rfl
  | cons t ts ih =>
    cases h : t.kind.isTrivia with
    | true => rw [marks_trivia h, ih, List.filter_cons_of_neg (by simp [h])]
    | false => rw [marks_cons h, List.map_cons, ih, List.filter_cons_of_pos (by simp [h])]

theorem mem_of_mem_marks {m : Mark} (h : m ∈ marks k ts) : m.1 ∈ ts :=
  List.fst_mem_of_mem_zipIdx (List.mem_filter.mp h).1

end Marks

/-! ## Trees -/

/-- A leaf without a place. -/
def literal (l : Leaf) : Element := .leaf (.blank none) l

theorem erase_leaf {i : Info} {l : Leaf} (hi : i.problem = none) (hl : l ≠ .unknown) :
    (Element.leaf i l).erase = literal l := by
  simp only [Element.relabel, Relabel.erase, if_neg hl, hi]
  rfl

/-- Some marks and the tree that they make. -/
structure Piece where
  marks : List Mark
  tree : Element

/-- An operator and the operand after it. -/
structure Link where
  sign : Mark
  op : Operator
  right : Piece

/-- An entry of a dictionary. -/
structure Keyed where
  key : Piece
  colon : Mark
  value : Piece

/-- The marks of an operator and its right operand. -/
def Link.marks (l : Link) : List Mark := l.sign :: l.right.marks

/-- The parts of an expression that an operator and its right operand are. -/
def Link.parts (l : Link) : List Element := [literal (.operator l.op), l.right.tree]

/-- The marks of an entry. -/
def Keyed.marks (e : Keyed) : List Mark := e.key.marks ++ e.colon :: e.value.marks

/-- The entry of a dictionary. -/
def Keyed.entry (e : Keyed) : Entry := .pair e.key.tree e.value.tree

/-- An item whose kind is known before anything is put in or computed: neither a variable nor an expression. -/
def Settled (e : Element) : Prop := e.kind ≠ .reference ∧ e.kind ≠ .expression

/-- If the first item is settled, all settled items are of its kind. -/
def Uniform (items : List Element) : Prop :=
  ∀ a ∈ items.head?, Settled a → ∀ b ∈ items, Settled b → b.kind = a.kind

/-! ## Derivations -/

/-- Items with commas between them, and whether there is a comma after the last one. -/
inductive Separated : List (List Mark) → List Mark → Bool → Prop where
  | nil : Separated [] [] false
  | last (item : List Mark) : Separated [item] item false
  | cons (item : List Mark) {comma : Mark} {items : List (List Mark)} {rest : List Mark} {trailing : Bool}
      (hcomma : comma.1.kind = .comma) (hrest : Separated items rest trailing) :
      Separated (item :: items) (item ++ comma :: rest) (trailing || items.isEmpty)

/-- The forms of the grammar. -/
inductive Form where
  | operand | first | element
deriving DecidableEq, Repr

/-- The marks are of a form, with at most that many containers inside each other, and make that tree. -/
inductive Derives (Block : Nat → List Mark → Element → Prop) : Form → Nat → List Mark → Element → Prop where
  | string {n : Nat} {m : Mark} {value : String} {quote : Char} (h : m.1.kind = .string value quote)
      (herror : m.1.error = none) :
      Derives Block .operand n [m] (literal (.string value quote))
  | number {n : Nat} {m : Mark} {float : Bool} (h : m.1.kind = .number float) (herror : m.1.error = none) :
      Derives Block .operand n [m] (literal (.number m.1.text false float))
  | boolean {n : Nat} {m : Mark} {value : Bool} (h : m.1.kind = .boolean value) :
      Derives Block .operand n [m] (literal (.boolean value))
  | ident {n : Nat} {m : Mark} (h : m.1.kind = .word) : Derives Block .operand n [m] (literal (.ident m.1.text))
  | reference {n : Nat} {bar name close : Mark} (hbar : bar.1.kind = .pipe) (hname : isName name.1.kind = true)
      (hclose : close.1.kind = .pipe) (hnext : name.2 = bar.2 + 1) (hlast : close.2 = name.2 + 1) :
      Derives Block .operand n [bar, name, close] (literal (.reference name.1.text))
  | tuple {n : Nat} {opener closer : Mark} {items : List Piece} {body : List Mark} {trailing : Bool}
      (hopener : opener.1.kind = .opening .round) (hcloser : closer.1.kind = .closing .round)
      (hbody : Separated (items.map Piece.marks) body trailing)
      (hitems : ∀ p ∈ items, Derives Block .element n p.marks p.tree) :
      Derives Block .operand (n + 1) (opener :: (body ++ [closer]))
        (.tuple (.blank none) (items.map Piece.tree) (trailing && items.length == 1))
  | array {n : Nat} {opener closer : Mark} {items : List Piece} {body : List Mark} {trailing : Bool}
      (hopener : opener.1.kind = .opening .square) (hcloser : closer.1.kind = .closing .square)
      (hbody : Separated (items.map Piece.marks) body trailing)
      (hitems : ∀ p ∈ items, Derives Block .element n p.marks p.tree) (huniform : Uniform (items.map Piece.tree)) :
      Derives Block .operand (n + 1) (opener :: (body ++ [closer])) (.array (.blank none) (items.map Piece.tree))
  | json {n : Nat} {opener closer : Mark} {entries : List Keyed} {body : List Mark} {trailing : Bool}
      (hopener : opener.1.kind = .opening .curly) (hcloser : closer.1.kind = .closing .curly)
      (hbody : Separated (entries.map Keyed.marks) body trailing)
      (hcolons : ∀ e ∈ entries, e.colon.1.kind = .colon)
      (hkinds : ∀ e ∈ entries, e.key.tree.kind = .string ∨ e.key.tree.kind = .reference)
      (hkeys : ∀ e ∈ entries, Derives Block .operand n e.key.marks e.key.tree)
      (hvalues : ∀ e ∈ entries, Derives Block .element n e.value.marks e.value.tree) :
      Derives Block .operand (n + 1) (opener :: (body ++ [closer])) (.json (.blank none) (entries.map Keyed.entry))
  | block {n : Nat} {ms : List Mark} {e : Element} (h : Block n ms e) : Derives Block .operand (n + 1) ms e
  | operand {n : Nat} {ms : List Mark} {e : Element} (h : Derives Block .operand n ms e) : Derives Block .first n ms e
  | negative {n : Nat} {sign number : Mark} {float : Bool} (hsign : sign.1.kind = .operator .sub)
      (hnumber : number.1.kind = .number float) (herror : number.1.error = none)
      (hnext : number.1.span.start = sign.1.span.stop) :
      Derives Block .first n [sign, number] (literal (.number number.1.text true float))
  | first {n : Nat} {ms : List Mark} {e : Element} (h : Derives Block .first n ms e) : Derives Block .element n ms e
  | expression {n : Nat} {ms : List Mark} {e : Element} {links : List Link} (hfirst : Derives Block .first n ms e)
      (hlinks : links ≠ []) (hsigns : ∀ l ∈ links, l.sign.1.kind = .operator l.op)
      (hrights : ∀ l ∈ links, Derives Block .operand n l.right.marks l.right.tree) :
      Derives Block .element n (ms ++ links.flatMap Link.marks)
        (.expression (.blank none) (e :: links.flatMap Link.parts) none)

theorem isTrivia_of_isName {kind : TokenKind} (h : isName kind = true) : kind.isTrivia = false := by
  cases kind <;> first | rfl | cases h

/-! ## What a cursor sees -/

/-- The marks of the tokens ahead, for some number of the first token. -/
def Sees (c : Cursor) (ms : List Mark) : Prop := ∃ first, marks first c.rest = ms

section Sees

variable {c : Cursor} {ms : List Mark} {t : Token} {ts : List Token}

theorem marks_dropWhile {p : TokenKind → Bool} (hp : ∀ kind, p kind = true → kind.isTrivia = true) (k : Nat)
    (ts : List Token) : ∃ k', marks k' (ts.dropWhile (p ·.kind)) = marks k ts := by
  induction ts generalizing k with
  | nil => exact ⟨k, rfl⟩
  | cons t ts ih =>
    rw [List.dropWhile_cons]
    split
    · rename_i ht
      rw [marks_trivia (hp _ ht)]
      exact ih (k + 1)
    · exact ⟨k, rfl⟩

theorem Sees.skip {p : TokenKind → Bool} (hp : ∀ kind, p kind = true → kind.isTrivia = true) (h : Sees c ms) :
    Sees (c.skip p) ms := by
  obtain ⟨k, rfl⟩ := h
  exact marks_dropWhile hp k c.rest

theorem Sees.skipTrivia (h : Sees c ms) (multiline : Bool) : Sees (c.skipTrivia multiline) ms := by
  refine h.skip fun kind hk => ?_
  simp only [Bool.or_eq_true, Bool.and_eq_true, beq_iff_eq] at hk
  rcases hk with rfl | ⟨-, rfl⟩ <;> rfl

/-- A token that is neither a comment nor a line end is seen first. -/
theorem Sees.past (hs : Sees c ms) (h : c.rest = t :: ts) (ht : t.kind.isTrivia = false) :
    ∃ k, ms = (t, k) :: marks (k + 1) ts ∧ Sees (c.past t ts) (marks (k + 1) ts) := by
  obtain ⟨k, rfl⟩ := hs
  rw [h, marks_cons ht]
  exact ⟨k, rfl, k + 1, rfl⟩

theorem length_marks (k : Nat) (ts : List Token) : (marks k ts).length = ts.countP (!·.kind.isTrivia) := by
  induction ts generalizing k with
  | nil => rfl
  | cons t ts ih =>
    cases h : t.kind.isTrivia with
    | true => rw [marks_trivia h, ih, List.countP_cons_of_neg (by simp [h])]
    | false => rw [marks_cons h, List.length_cons, ih, List.countP_cons_of_pos (by simp [h])]

/-- A cursor that sees less has fewer tokens ahead. -/
theorem Sees.length_lt {c' : Cursor} {more : List Mark} (hs : Sees c (ms ++ more)) (hs' : Sees c' more)
    (hr : Reaches c c') (hms : ms ≠ []) : c'.rest.length < c.rest.length := by
  refine Nat.lt_of_le_of_ne hr.length_le fun hlen => ?_
  obtain ⟨k, hk⟩ := hs
  obtain ⟨k', hk'⟩ := hs'
  have h₁ := congrArg List.length hk
  have h₂ := congrArg List.length hk'
  rw [length_marks, List.length_append] at h₁
  rw [length_marks, hr.rest_suffix.eq_of_length hlen] at h₂
  have hpos := List.length_pos_iff.mpr hms
  omega

end Sees

/-! ## Trees of derivations -/

/-- A notion of blocks that start with a word and are blocks without a mistake of their own. -/
structure LawfulBlock (Block : Nat → List Mark → Element → Prop) : Prop where
  word : ∀ {n ms e}, Block n ms e → ∃ m rest, ms = m :: rest ∧ m.1.kind = .word
  tree : ∀ {n ms e}, Block n ms e → ∃ commands text, e = .block (.blank none) commands text

section Derivations

variable {Block : Nat → List Mark → Element → Prop} {form : Form} {n : Nat} {ms : List Mark} {e : Element}

/-- What a form starts with. -/
def Form.starts : Form → TokenKind → Bool
  | .operand, kind => kind.startsOperand
  | _, kind => kind.startsOperand || kind == .operator .sub

/-- Every derivation has a first mark, which is one that its form starts with. -/
theorem Derives.head (hBlock : LawfulBlock Block) (h : Derives Block form n ms e) :
    ∃ m rest, ms = m :: rest ∧ form.starts m.1.kind = true := by
  have hfirst : ∀ {kind : TokenKind}, Form.starts .operand kind = true → Form.starts .first kind = true := by
    intro kind hk
    exact Bool.or_eq_true_iff.mpr (Or.inl hk)
  induction h with
  | block h =>
    obtain ⟨m, rest, rfl, hm⟩ := hBlock.word h
    exact ⟨m, rest, rfl, by rw [hm]; rfl⟩
  | operand _ ih =>
    obtain ⟨m, rest, rfl, hm⟩ := ih
    exact ⟨m, rest, rfl, hfirst hm⟩
  | first _ ih => exact ih
  | expression _ _ _ _ ih =>
    obtain ⟨m, rest, rfl, hm⟩ := ih
    exact ⟨m, _, rfl, hm⟩
  | string h _ | number h _ | boolean h | ident h => exact ⟨_, _, rfl, by rw [h]; rfl⟩
  | reference h => exact ⟨_, _, rfl, by rw [h]; rfl⟩
  | tuple h | array h | json h => exact ⟨_, _, rfl, by rw [h]; rfl⟩
  | negative h => exact ⟨_, _, rfl, by rw [h]; rfl⟩

theorem Derives.ne_nil (hBlock : LawfulBlock Block) (h : Derives Block form n ms e) : ms ≠ [] := by
  obtain ⟨m, rest, rfl, -⟩ := h.head hBlock
  exact List.cons_ne_nil _ _

/-- A derived tree has no mistake of its own. -/
theorem Derives.problem_eq_none (hBlock : LawfulBlock Block) (h : Derives Block form n ms e) : e.problem = none := by
  induction h with
  | block h =>
    obtain ⟨commands, text, rfl⟩ := hBlock.tree h
    rfl
  | operand _ ih => exact ih
  | first _ ih => exact ih
  | _ => rfl

/-- A derived tree has no mistake at all if its blocks have none. -/
theorem Derives.hasErrors_eq_false (hBlock : ∀ {n ms e}, Block n ms e → e.hasErrors = false)
    (h : Derives Block form n ms e) : e.hasErrors = false := by
  induction h with
  | block h => exact hBlock h
  | operand _ ih => exact ih
  | first _ ih => exact ih
  | tuple _ _ _ _ ih => simpa [Element.hasErrors, Info.blank] using ih
  | array _ _ _ _ _ ih => simpa [Element.hasErrors, Info.blank] using ih
  | json _ _ _ _ _ _ _ ihkeys ihvalues =>
    simpa [Element.hasErrors, Info.blank, Keyed.entry, Entry.hasErrors] using fun k hk => ⟨ihkeys k hk, ihvalues k hk⟩
  | expression _ _ _ _ ihfirst ihrights =>
    simpa [Element.hasErrors, Info.blank, Link.parts, literal, ihfirst] using ihrights
  | _ => rfl

/-- The settled trees are those that count when an array is checked. -/
theorem Derives.isDecided_iff (hBlock : LawfulBlock Block) (h : Derives Block form n ms e) :
    (e.isDecided = true ↔ Settled e) ∧ e.valueKind = e.kind := by
  induction h with
  | block h =>
    obtain ⟨commands, text, rfl⟩ := hBlock.tree h
    simp [Element.isDecided, Settled, Element.kind, Element.problem, Element.info, Info.blank, Element.valueKind]
  | operand _ ih => exact ih
  | first _ ih => exact ih
  | _ =>
    simp [Element.isDecided, Settled, Element.kind, Leaf.kind, literal, Element.problem, Element.info, Info.blank,
      Element.valueKind]

/-- A string or a reference is an operand. -/
theorem Derives.operand_of_kind (h : Derives Block .element n ms e) (hkind : e.kind = .string ∨ e.kind = .reference) :
    Derives Block .operand n ms e := by
  cases h with
  | first h =>
    cases h with
    | operand h => exact h
    | negative => rcases hkind with hk | hk <;> cases hk
  | expression => rcases hkind with hk | hk <;> cases hk

end Derivations

/-- An array of derived items has no mistake of its own if and only if it is uniform. -/
theorem mixedKinds?_eq_none {es : List Element}
    (h : ∀ e ∈ es, (e.isDecided = true ↔ Settled e) ∧ e.valueKind = e.kind) : mixedKinds? es = none ↔ Uniform es := by
  cases es with
  | nil => simp [mixedKinds?, Uniform]
  | cons a es =>
    obtain ⟨ha, hes⟩ := List.forall_mem_cons.mp h
    simp only [mixedKinds?, Uniform, List.head?_cons, Option.mem_some_iff, forall_eq', List.forall_mem_cons]
    by_cases hs : Settled a
    · rw [if_pos (ha.1.mpr hs), findOther_eq_none, ha.2]
      refine ⟨fun hall _ => ⟨fun _ => trivial, fun b hb hsb => ?_⟩, fun hall b hb hd => ?_⟩
      · rw [← (hes b hb).2]
        exact hall b hb ((hes b hb).1.mpr hsb)
      · rw [(hes b hb).2]
        exact (hall hs).2 b hb ((hes b hb).1.mp hd)
    · rw [if_neg (fun hd => hs (ha.1.mp hd))]
      exact ⟨fun _ hs' => absurd hs' hs, fun _ => rfl⟩

theorem noting_none (e : Element) : e.noting none = e := by
  cases e <;> simp [Element.noting, Element.withInfo, Element.info, Element.problem]

/-- The comma that a tuple of one item shows. -/
theorem trailingComma_eq {l : Listing Element} {pieces : List Piece} {trailing : Bool}
    (htrees : l.items.map Element.erase = pieces.map Piece.tree) (hends : l.awaiting = (trailing || pieces.isEmpty)) :
    (l.trailingComma && l.items.length == 1) = (trailing && pieces.length == 1) := by
  have hlength := congrArg List.length htrees
  rw [List.length_map, List.length_map] at hlength
  rw [Listing.trailingComma, hends, hlength]
  cases pieces with
  | nil => simp
  | cons p ps =>
    have hne : l.items.isEmpty = false := by
      rw [List.isEmpty_eq_false_iff]
      intro hnil
      rw [hnil] at hlength
      cases hlength
    simp [hne]

/-- No blocks. -/
def noBlocks (_ : Nat) (_ : List Mark) (_ : Element) : Prop := False

theorem lawfulBlock_noBlocks : LawfulBlock noBlocks := ⟨False.elim, False.elim⟩

end UiScript.Grammar
