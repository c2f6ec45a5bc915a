import UiScript.Proofs.Grammar.Completeness
import UiScript.Proofs.Grammar.Soundness
import UiScript.Proofs.Reading.Nested
import UiScript.Script

/-!
# The texts that are read without a mistake

Reading a text as an element finds a mistake exactly where the grammar does not derive the marks of the text:

* **Soundness** (`parse_sound`): what is read without a mistake is derived.
* **Completeness** (`parse_complete`): a tree that is derived is the one that is read.
* **Acceptance** (`parse_hasErrors_eq_false_iff`): for texts in which no block is opened, the two together.
-/

namespace UiScript.Grammar

open Reading Text

variable {Block : Nat → List Mark → Element → Prop} {text : String}

/-- The cursor before a whole text. -/
def startOf (text : List Char) : Cursor := ⟨scan text, 0⟩

/-! ## The tokens of a text -/

theorem scan_valid (cs : List Char) : ∀ t ∈ scan cs, t.Valid := by
  rw [scan_eq]
  exact scanFrom_valid _ _ _ _

theorem scan_orderly (cs : List Char) : Orderly (scan cs) := by
  refine ⟨scan_valid cs, ?_, ?_⟩
  · rw [scan_eq]
    exact scanFrom_sorted _ _ _ _
  · intro t ht
    rw [scan_eq] at ht
    exact (scanFrom_bounds _ _ _ _ t ht).2.1

/-- A string or a number has no lexical mistake. -/
def Unmistaken (m : Mark) : Prop :=
  (∀ value quote, m.1.kind = .string value quote → m.1.error = none) ∧
    ∀ float, m.1.kind = .number float → m.1.error = none

theorem unmistaken_of_kind {m : Mark} (hs : ∀ value quote, m.1.kind ≠ .string value quote)
    (hn : ∀ float, m.1.kind ≠ .number float) : Unmistaken m :=
  ⟨fun v q h => absurd h (hs v q), fun f h => absurd h (hn f)⟩

/-- The marks of a list are those of its items, and commas. -/
theorem Separated.mem {items : List (List Mark)} {body : List Mark} {trailing : Bool}
    (h : Separated items body trailing) : ∀ m ∈ body, m.1.kind = .comma ∨ ∃ item ∈ items, m ∈ item := by
  induction h with
  | nil => simp
  | last item => exact fun m hm => Or.inr ⟨item, List.mem_cons_self, hm⟩
  | cons item hcomma _ ih =>
    intro m hm
    rcases List.mem_append.mp hm with hm | hm
    · exact Or.inr ⟨item, List.mem_cons_self, hm⟩
    · rcases List.mem_cons.mp hm with rfl | hm
      · exact Or.inl hcomma
      · obtain hk | ⟨item', hitem, hm⟩ := ih m hm
        · exact Or.inl hk
        · exact Or.inr ⟨item', List.mem_cons_of_mem _ hitem, hm⟩

theorem Separated.unmistaken {items : List (List Mark)} {body : List Mark} {trailing : Bool} {opener closer : Mark}
    {b : Bracket} (h : Separated items body trailing) (hopener : opener.1.kind = .opening b)
    (hcloser : closer.1.kind = .closing b) (hitems : ∀ item ∈ items, ∀ m ∈ item, Unmistaken m) :
    ∀ m ∈ opener :: (body ++ [closer]), Unmistaken m := by
  intro m hm
  simp only [List.mem_cons, List.mem_append, List.not_mem_nil, or_false] at hm
  rcases hm with rfl | hm | rfl
  · exact unmistaken_of_kind (by simp [hopener]) (by simp [hopener])
  · rcases h.mem m hm with hk | ⟨item, hitem, hm⟩
    · exact unmistaken_of_kind (by simp [hk]) (by simp [hk])
    · exact hitems item hitem m hm
  · exact unmistaken_of_kind (by simp [hcloser]) (by simp [hcloser])

/-- The strings and numbers of a derivation without blocks have no lexical mistakes. -/
theorem Derives.unmistaken {form : Form} {n : Nat} {ms : List Mark} {e : Element}
    (h : Derives noBlocks form n ms e) : ∀ m ∈ ms, Unmistaken m := by
  have hone : ∀ {m : Mark} {ns : List Mark}, Unmistaken m → (∀ n ∈ ns, Unmistaken n) → ∀ n ∈ m :: ns, Unmistaken n :=
    fun hm hns => List.forall_mem_cons.mpr ⟨hm, hns⟩
  induction h with
  | string _ herror => exact hone ⟨fun _ _ _ => herror, fun _ _ => herror⟩ (by simp)
  | number _ herror => exact hone ⟨fun _ _ _ => herror, fun _ _ => herror⟩ (by simp)
  | boolean h => exact hone (unmistaken_of_kind (by simp [h]) (by simp [h])) (by simp)
  | ident h => exact hone (unmistaken_of_kind (by simp [h]) (by simp [h])) (by simp)
  | reference hbar hname hclose _ _ =>
    refine hone (unmistaken_of_kind (by simp [hbar]) (by simp [hbar])) (hone (unmistaken_of_kind ?_ ?_)
      (hone (unmistaken_of_kind (by simp [hclose]) (by simp [hclose])) (by simp)))
    · intro v q hk; rw [hk] at hname; cases hname
    · intro f hk; rw [hk] at hname; cases hname
  | tuple hopener hcloser hbody _ ih =>
    refine hbody.unmistaken hopener hcloser ?_
    simpa using ih
  | array hopener hcloser hbody _ _ ih =>
    refine hbody.unmistaken hopener hcloser ?_
    simpa using ih
  | json hopener hcloser hbody hcolons _ _ _ ihkeys ihvalues =>
    refine hbody.unmistaken hopener hcloser ?_
    intro item hitem
    obtain ⟨k, hk, rfl⟩ := List.mem_map.mp hitem
    have hcolon := hcolons k hk
    exact List.forall_mem_append.mpr ⟨ihkeys k hk,
      hone (unmistaken_of_kind (by simp [hcolon]) (by simp [hcolon])) (ihvalues k hk)⟩
  | block h => exact h.elim
  | operand _ ih => exact ih
  | negative hsign _ herror _ =>
    exact hone (unmistaken_of_kind (by simp [hsign]) (by simp [hsign]))
      (hone ⟨fun _ _ _ => herror, fun _ _ => herror⟩ (by simp))
  | first _ ih => exact ih
  | expression _ _ hsigns _ ihfirst ihrights =>
    refine List.forall_mem_append.mpr ⟨ihfirst, fun m hm => ?_⟩
    obtain ⟨l, hl, hm⟩ := List.mem_flatMap.mp hm
    have hsign := hsigns l hl
    exact hone (unmistaken_of_kind (by simp [hsign]) (by simp [hsign])) (ihrights l hl) m hm

/-- Apart from strings and numbers, tokens have no lexical mistakes. -/
theorem error_eq_none_of_unmistaken {tokens : List Token} (hvalid : ∀ t ∈ tokens, t.Valid) {k : Nat}
    (h : ∀ m ∈ marks k tokens, Unmistaken m) : ∀ t ∈ tokens, t.error = none := by
  intro t ht
  by_cases hk : (∃ v q, t.kind = .string v q) ∨ ∃ f, t.kind = .number f
  · have htrivia : t.kind.isTrivia = false := by
      rcases hk with ⟨v, q, hk⟩ | ⟨f, hk⟩ <;> rw [hk] <;> rfl
    rw [← List.zipIdx_map_fst k tokens] at ht
    obtain ⟨m, hm, rfl⟩ := List.mem_map.mp ht
    have hm := h m (List.mem_filter.mpr ⟨hm, by simp [htrivia]⟩)
    rcases hk with ⟨v, q, hk⟩ | ⟨f, hk⟩
    · exact hm.1 v q hk
    · exact hm.2 f hk
  · exact (hvalid t ht).error_eq_none (fun v q he => hk (Or.inl ⟨v, q, he⟩)) fun f he => hk (Or.inr ⟨f, he⟩)

/-! ## Soundness and completeness -/

/-- The cursor before the first mark of a text. -/
def firstOf (text : List Char) : Cursor := (startOf text).skipTrivia true

/-- What is read from the first mark of a text on. -/
def readAll (text : List Char) : Element × Cursor := Reading.element .any true (.whole text) (firstOf text)

theorem firstOf_sees (text : List Char) : Sees (firstOf text) (marks 0 (scan text)) :=
  Sees.skipTrivia ⟨0, rfl⟩ true

theorem firstOf_suffix (text : List Char) : (firstOf text).rest <:+ scan text :=
  (Reaches.skipTrivia (startOf text) true).rest_suffix

/-- An element without a mistake is there, and nothing stands after it. -/
theorem parse_inv (h : (Element.parse text).hasErrors = false) :
    ((readAll text.toList).2.skipTrivia true).rest = [] ∧ Element.parse text = (readAll text.toList).1 := by
  simp only [Element.parse] at h ⊢
  split at h
  · rename_i hafter
    split at h
    · simp [Cursor.missing, Element.hasErrors, Source.info] at h
    · rename_i hstart
      rw [if_neg hstart] at hafter ⊢
      exact ⟨hafter, rfl⟩
  · rw [hasErrors_noting] at h
    cases h.2

theorem parse_eq (hne : (firstOf text.toList).rest ≠ [])
    (hafter : ((readAll text.toList).2.skipTrivia true).rest = []) : Element.parse text = (readAll text.toList).1 := by
  have hempty : ¬ (Cursor.skipTrivia ⟨scan text.toList, 0⟩ true).rest.isEmpty = true :=
    fun h => hne (List.isEmpty_iff.mp h)
  simp only [Element.parse, if_neg hempty]
  split
  · rfl
  · rename_i h
    cases h.symm.trans hafter

/-- **Soundness.** -/
theorem parse_sound (hBlock : LawfulBlock Block)
    (hblocks : BlocksSound Block .any (.whole text.toList) (scan text.toList))
    (h : (Element.parse text).hasErrors = false) :
    Derives Block .element maxNesting (marks 0 (scan text.toList)) (Element.parse text).erase := by
  obtain ⟨hafter, heq⟩ := parse_inv h
  rw [heq] at h ⊢
  obtain ⟨ms, more, hms, hmore, hderives⟩ :=
    element_sound hBlock hblocks maxNesting true _ (firstOf_suffix _) h _ (firstOf_sees _)
  have hnil : more = [] := by
    obtain ⟨k, rfl⟩ := hmore.skipTrivia true
    exact congrArg (marks k) hafter
  rw [hnil, List.append_nil] at hms
  rw [hms]
  exact hderives

/-- Marks that are read as an element, and that are all there are, make the element of the text. -/
theorem parse_reads {m : Mark} {rest : List Mark} (hm : marks 0 (scan text.toList) = m :: rest) {e : Element}
    (h : ElementReads (scan text.toList) (Reading.element .any true (.whole text.toList)) (marks 0 (scan text.toList))
      e) :
    (Element.parse text).erase = e := by
  have hs := firstOf_sees text.toList
  rw [← List.append_nil (marks 0 (scan text.toList))] at hs
  obtain ⟨htree, hafter⟩ := h _ _ (firstOf_suffix _) hs (by simp [Stops])
  rw [parse_eq ?_ hafter.nil]
  · exact htree
  · intro hnil
    obtain ⟨k, hk⟩ := firstOf_sees text.toList
    rw [hnil, hm] at hk
    cases hk

/-- **Completeness.** -/
theorem parse_complete (hBlock : LawfulBlock Block)
    (hblocks : BlocksComplete Block .any (.whole text.toList) (scan text.toList)) {e : Element}
    (h : Derives Block .element maxNesting (marks 0 (scan text.toList)) e) : (Element.parse text).erase = e := by
  obtain ⟨m, rest, hm, -⟩ := h.head hBlock
  exact parse_reads hm (h.read hBlock hblocks (scan_orderly _))

/-! ## Acceptance -/

/-- Whether the word `block` stands before a curly bracket. -/
def opensBlock : List Mark → Bool
  | m :: n :: rest =>
    (m.1.kind == .word && m.1.text == "block" && n.1.kind == .opening .curly) || opensBlock (n :: rest)
  | _ => false

theorem opensBlock_append {m n : Mark} (hm : m.1.kind = .word) (htext : m.1.text = "block")
    (hn : n.1.kind = .opening .curly) (before after : List Mark) :
    opensBlock (before ++ m :: n :: after) = true := by
  induction before with
  | nil => simp [opensBlock, hm, htext, hn]
  | cons b before ih =>
    cases before with
    | nil => simp only [List.cons_append, List.nil_append, opensBlock] at ih ⊢; simp [ih]
    | cons b' before => simp only [List.cons_append, opensBlock] at ih ⊢; simp [ih]

/-- Where the marks open no block, none is read. -/
theorem blocksSound_noBlocks {tokens : List Token} {catalog : Catalog} {s : Source}
    (h : opensBlock (marks 0 tokens) = false) : BlocksSound noBlocks catalog s tokens := by
  rintro n c t ts ⟨before, rfl⟩ hrest hopens
  exfalso
  obtain ⟨ht, htext, hfind⟩ := opens?_block hopens
  rw [hrest, marks_append, marks_cons (by rw [ht]; rfl)] at h
  cases hmore : marks (0 + before.length + 1) ts with
  | nil =>
    rw [find?_of_marks hmore] at hfind
    simp at hfind
  | cons m more =>
    rw [find?_of_marks hmore] at hfind
    rw [hmore, opensBlock_append ht htext (by simpa using hfind)] at h
    cases h

/-- **Acceptance.** A text in which no block is opened is read without a mistake if and only if no token of it has a
lexical mistake and its marks derive an element. -/
theorem parse_hasErrors_eq_false_iff (text : String) (h : opensBlock (marks 0 (scan text.toList)) = false) :
    (Element.parse text).hasErrors = false ↔
      (∀ t ∈ scan text.toList, t.error = none) ∧
        ∃ e, Derives noBlocks .element maxNesting (marks 0 (scan text.toList)) e := by
  constructor
  · intro herrors
    have hderives := parse_sound lawfulBlock_noBlocks (blocksSound_noBlocks h) herrors
    exact ⟨error_eq_none_of_unmistaken (scan_valid _) hderives.unmistaken, _, hderives⟩
  · rintro ⟨-, e, hderives⟩
    have heq := parse_complete lawfulBlock_noBlocks (fun _ _ _ _ _ hfalse => hfalse.elim) hderives
    have he : e.hasErrors = false := hderives.hasErrors_eq_false fun hfalse => hfalse.elim
    rwa [← heq, Element.relabel_hasErrors] at he

set_option maxRecDepth 10000 in
/-- A dictionary with an array, a tuple, a reference and an expression in it. -/
theorem parse_hasErrors_eq_false_iff_dictionary :
    opensBlock (marks 0 (scan "\x7b\"a\": [1, -2], |k|: (x, 3 + 4)\x7d".toList)) = false ∧
    ((Element.parse "\x7b\"a\": [1, -2], |k|: (x, 3 + 4)\x7d").hasErrors = false ↔
      (∀ t ∈ scan "\x7b\"a\": [1, -2], |k|: (x, 3 + 4)\x7d".toList, t.error = none) ∧
        ∃ e, Derives noBlocks .element maxNesting
          (marks 0 (scan "\x7b\"a\": [1, -2], |k|: (x, 3 + 4)\x7d".toList)) e) :=
  ⟨by decide +kernel, parse_hasErrors_eq_false_iff _ (by decide +kernel)⟩

end UiScript.Grammar
