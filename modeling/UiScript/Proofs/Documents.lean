import Mathlib.Data.List.Forall2
import UiScript.Json.Document
import UiScript.Json.Written

/-!
# Documents read back

A document that is written over several lines reads back as it was, whatever is in its strings. Each form of a value has
its lemma: truth values (`accepts_bool`), strings (`accepts_string`), lists (`accepts_array`) and objects
(`accepts_object`). They all say that a reader takes a text for a value (`Accepts`): blanks may stand before the text,
and whatever follows it is left.

Strings are written character by character. Each character is read as one piece (`piece`), and the pieces give the
string back (`decode?_pieces`).
-/

namespace UiScript.Document

open Text

/-! ## Strings -/

/-- The control characters that are written with a letter. -/
def lettered : List Char := ['\x08', '\x0c', '\n', '\r', '\t']

/-- The piece that is read from a character as it is written: a control character without a letter is given by its
digits. -/
def piece (c : Char) : Piece := if c.toNat < 0x20 ∧ c ∉ lettered then .unit c.toNat else .char c

theorem hexUnit?_hexDigits : ∀ n < 0x20, hexUnit? (hexDigit (n / 16 / 16 / 16 % 16)) (hexDigit (n / 16 / 16 % 16))
    (hexDigit (n / 16 % 16)) (hexDigit (n % 16)) = some n := by decide +kernel

section Characters

variable {c e : Char} {cs : List Char}

/-- One more piece in front. -/
def cons (p : Piece) (r : List Piece × List Char) : List Piece × List Char := (p :: r.1, r.2)

theorem readPieces?_letter (he : simpleEscape? e = some c) :
    readPieces? ('\\' :: e :: cs) = (readPieces? cs).map (cons (.char c)) := by
  have hu : e ≠ 'u' := by
    rintro rfl
    cases he
  rw [readPieces?.eq_3 e cs fun _ _ _ _ _ h _ => hu h, he]
  cases readPieces? cs <;> rfl

theorem readPieces?_plain (hquote : c ≠ '"') (hslash : c ≠ '\\') (hcontrol : ¬ c.toNat < 0x20) :
    readPieces? (c :: cs) = (readPieces? cs).map (cons (.char c)) := by
  rw [readPieces?.eq_4 c cs hquote (fun _ _ _ _ _ h _ => hslash h) fun _ _ h _ => hslash h,
    if_neg (not_or.mpr ⟨hcontrol, hslash⟩)]
  rfl

theorem readPieces?_digits (hcontrol : c.toNat < 0x20) :
    readPieces? ('\\' :: 'u' :: (hexDigits 4 c.toNat ++ cs)) = (readPieces? cs).map (cons (.unit c.toNat)) := by
  simp only [hexDigits, List.nil_append, List.cons_append]
  rw [readPieces?, hexUnit?_hexDigits c.toNat hcontrol]
  cases readPieces? cs <;> rfl

/-- **A character that is written is read as its piece.** -/
theorem readPieces?_jsonChar (c : Char) (cs : List Char) :
    readPieces? (jsonChar c ++ cs) = (readPieces? cs).map (cons (piece c)) := by
  by_cases hletter : c ∈ lettered
  · have hpiece : piece c = .char c := if_neg fun h => h.2 hletter
    rw [hpiece]
    simp only [lettered, List.mem_cons, List.not_mem_nil, or_false] at hletter
    rcases hletter with rfl | rfl | rfl | rfl | rfl <;> exact readPieces?_letter rfl
  · by_cases hcontrol : c.toNat < 0x20
    · have hpiece : piece c = .unit c.toNat := if_pos ⟨hcontrol, hletter⟩
      have hwritten : jsonChar c = '\\' :: 'u' :: hexDigits 4 c.toNat := by
        simp only [lettered, List.mem_cons, List.not_mem_nil, or_false, not_or] at hletter
        have hquote : c ≠ '"' := by rintro rfl; revert hcontrol; decide
        have hslash : c ≠ '\\' := by rintro rfl; revert hcontrol; decide
        simp [jsonChar, hquote, hslash, hletter, hcontrol]
      rw [hpiece, hwritten]
      exact readPieces?_digits hcontrol
    · have hpiece : piece c = .char c := if_neg fun h => hcontrol h.1
      rw [hpiece]
      by_cases hquote : c = '"'
      · subst hquote
        exact readPieces?_letter rfl
      · by_cases hslash : c = '\\'
        · subst hslash
          exact readPieces?_letter rfl
        · have hwritten : jsonChar c = [c] := by
            simp only [lettered, List.mem_cons, List.not_mem_nil, or_false, not_or] at hletter
            simp [jsonChar, hquote, hslash, hletter, hcontrol]
          rw [hwritten]
          exact readPieces?_plain hquote hslash hcontrol

theorem readPieces?_string (value rest : List Char) :
    readPieces? (value.flatMap jsonChar ++ '"' :: rest) = some (value.map piece, rest) := by
  induction value with
  | nil => rfl
  | cons c value ih =>
    rw [List.flatMap_cons, List.append_assoc, readPieces?_jsonChar, ih]
    rfl

theorem decode?_unit {n : Nat} (h : n < 0xd800) (ps : List Piece) :
    decode? (.unit n :: ps) = (decode? ps).map (Char.ofNat n :: ·) := by
  rw [decode?.eq_def]
  exact if_pos (Or.inl h)

/-- **The pieces of a string give it back.** -/
theorem decode?_pieces (value : List Char) : decode? (value.map piece) = some value := by
  induction value with
  | nil => rfl
  | cons c value ih =>
    rw [List.map_cons, piece]
    split
    · rename_i h
      rw [decode?_unit (by omega), ih, Char.ofNat_toNat]
      rfl
    · rw [decode?, ih]
      rfl

end Characters

/-! ## Texts between brackets -/

theorem skipSpace_append {blanks : List Char} (h : blanks.all isSpace = true) (cs : List Char) :
    skipSpace (blanks ++ cs) = skipSpace cs :=
  List.dropWhile_append_of_pos (List.all_eq_true.mp h)

theorem skipSpace_cons {c : Char} (h : isSpace c = false) (cs : List Char) : skipSpace (c :: cs) = c :: cs :=
  List.dropWhile_cons_of_neg (by simp [h])

theorem lineBreak_all (level : Nat) : (lineBreak level).toList.all isSpace = true := by
  simp [lineBreak, isSpace]

/-- The reader takes the text for the value, with blanks before it and whatever follows it. The text does not start like
a blank or like the end of a list. -/
structure Accepts {α : Type} (read : List Char → Option (α × List Char)) (text : List Char) (a : α) : Prop where
  starts : ∃ c cs, text = c :: cs ∧ isSpace c = false ∧ c ≠ ']' ∧ c ≠ '\x7d'
  reads : ∀ blanks rest, blanks.all isSpace = true → read (blanks ++ (text ++ rest)) = some (a, rest)

/-- Items with commas between them, each on a line of its own. -/
def lines (level : Nat) (texts : List (List Char)) : List Char := (',' :: (lineBreak level).toList).intercalate texts

theorem lines_cons_cons (level : Nat) (text next : List Char) (texts : List (List Char)) :
    lines level (text :: next :: texts) = text ++ ',' :: ((lineBreak level).toList ++ lines level (next :: texts)) := by
  simp [lines, List.intercalate_cons_cons]

theorem lines_cons (level : Nat) (text : List Char) (texts : List (List Char)) :
    ∃ rest, lines level (text :: texts) = text ++ rest := by
  cases texts with
  | nil => exact ⟨[], by simp [lines]⟩
  | cons next texts => exact ⟨_, lines_cons_cons level text next texts⟩

section Lists

variable {α : Type} {read : List Char → Option (α × List Char)} {texts : List (List Char)} {as : List α} {closer : Char}

theorem readItems?_lines (hcloser : isSpace closer = false ∧ closer ≠ ',') (level : Nat)
    (h : List.Forall₂ (Accepts read) texts as) (hne : texts ≠ []) {blanks last : List Char}
    (hblanks : blanks.all isSpace = true) (hlast : last.all isSpace = true) (rest : List Char) :
    readItems? read closer (blanks ++ (lines level texts ++ (last ++ closer :: rest))) = some (as, rest) := by
  induction h generalizing blanks with
  | nil => exact absurd rfl hne
  | @cons text a texts as hfirst hrest ih =>
    cases hrest with
    | nil =>
      rw [lines, List.intercalate_singleton, readItems?, hfirst.reads _ _ hblanks]
      simp only [skipSpace_append hlast, skipSpace_cons hcloser.1, if_true]
    | @cons next b texts as hnext hrest =>
      have hmore := ih (List.cons_ne_nil _ _) (lineBreak_all level)
      rw [lines_cons_cons, List.append_assoc, readItems?, hfirst.reads _ _ hblanks]
      have hcomma : isSpace ',' = false := by decide
      simp only [List.cons_append, skipSpace_cons hcomma, if_neg hcloser.2.symm, if_true, List.append_assoc]
      rw [hmore, if_pos (by simp; omega)]
      rfl

/-- What `onLines` writes after the opening bracket is read as the list of the items. -/
theorem readList?_onLines (hcloser : closer = ']' ∨ closer = '\x7d') (opener : String) (level : Nat)
    {written : List String} (h : List.Forall₂ (Accepts read) (written.map String.toList) as) :
    ∃ inside, (onLines opener (String.singleton closer) level written).toList = opener.toList ++ inside ∧
      ∀ rest, readList? read closer (inside ++ rest) = some (as, rest) := by
  have hmark : isSpace closer = false ∧ closer ≠ ',' := by rcases hcloser with rfl | rfl <;> decide
  cases written with
  | nil =>
    cases h
    refine ⟨[closer], by simp [onLines], fun rest => ?_⟩
    simp [readList?, skipSpace_cons hmark.1]
  | cons text written =>
    refine ⟨(lineBreak (level + 1)).toList ++ (lines (level + 1) ((text :: written).map String.toList) ++
      ((lineBreak level).toList ++ [closer])), ?_, fun rest => ?_⟩
    · simp [onLines, lines, String.toList_intercalate]
    · cases h with
      | @cons _ a _ as hfirst hrest =>
        have hitems := readItems?_lines hmark (level + 1) (hrest.cons hfirst) (by simp)
          (by simp : ([] : List Char).all isSpace = true) (lineBreak_all level) rest
        obtain ⟨c, cs, htext, hspace, hbracket, hbrace⟩ := hfirst.starts
        obtain ⟨others, hlines⟩ := lines_cons (level + 1) text.toList (written.map String.toList)
        have hclose : c ≠ closer := by rcases hcloser with rfl | rfl <;> assumption
        rw [List.nil_append, hlines, htext] at hitems
        rw [List.map_cons, hlines, htext, readList?]
        simp only [List.append_assoc, List.cons_append, List.nil_append] at hitems ⊢
        rw [skipSpace_append (lineBreak_all _), skipSpace_cons hspace]
        exact (if_neg hclose).trans hitems

end Lists

/-! ## Values -/

section Values

variable {levels : Nat}

/-- A value may have blanks before it. -/
theorem readValue?_blanks {blanks : List Char} (h : blanks.all isSpace = true) (cs : List Char) :
    readValue? levels (blanks ++ cs) = readValue? levels cs := by
  rw [readValue?.eq_def, readValue?.eq_def levels cs]
  simp only [skipSpace_append h]

theorem accepts_bool (b : Bool) : Accepts (readValue? levels) (if b then "true" else "false").toList (.bool b) := by
  cases b with
  | false =>
    refine ⟨⟨'f', _, rfl, by decide⟩, fun blanks rest hblanks => ?_⟩
    rw [readValue?_blanks hblanks, readValue?.eq_def]
    rfl
  | true =>
    refine ⟨⟨'t', _, rfl, by decide⟩, fun blanks rest hblanks => ?_⟩
    rw [readValue?_blanks hblanks, readValue?.eq_def]
    rfl

theorem readPieces?_jsonString (s : String) (rest : List Char) :
    ∃ inside, (jsonString s).toList = '"' :: inside ∧
      readPieces? (inside ++ rest) = some (s.toList.map piece, rest) := by
  refine ⟨s.toList.flatMap jsonChar ++ ['"'], by simp [jsonString], ?_⟩
  rw [List.append_assoc]
  exact readPieces?_string s.toList rest

theorem accepts_string (s : String) :
    Accepts (readValue? levels) (jsonString s).toList (.string (s.toList.map piece)) := by
  obtain ⟨inside, htext, -⟩ := readPieces?_jsonString s []
  refine ⟨⟨'"', inside, htext, by decide⟩, fun blanks rest hblanks => ?_⟩
  obtain ⟨inside, htext, hpieces⟩ := readPieces?_jsonString s rest
  rw [readValue?_blanks hblanks, htext, List.cons_append, readValue?.eq_def]
  show Option.map _ (readPieces? (inside ++ rest)) = _
  rw [hpieces]
  rfl

theorem accepts_array (level : Nat) {texts : List String} {items : List Document}
    (h : List.Forall₂ (Accepts (readValue? levels)) (texts.map String.toList) items) :
    Accepts (readValue? (levels + 1)) (onLines "[" "]" level texts).toList (.array items) := by
  obtain ⟨inside, htext, hreads⟩ := readList?_onLines (Or.inl rfl) "[" level h
  have hshape : (onLines "[" "]" level texts).toList = '[' :: inside := htext
  refine ⟨⟨'[', inside, hshape, by decide⟩, fun blanks rest hblanks => ?_⟩
  rw [readValue?_blanks hblanks, hshape, List.cons_append, readValue?.eq_def]
  show Option.map _ (readList? (readValue? levels) ']' (inside ++ rest)) = _
  rw [hreads rest]
  rfl

theorem accepts_member {d : Document} {text : String} (name : String) (h : Accepts (readValue? levels) text.toList d) :
    Accepts (readMember? (readValue? levels)) (jsonString name ++ ": " ++ text).toList
      (.mk (name.toList.map piece) d) := by
  obtain ⟨inside, hname, -⟩ := readPieces?_jsonString name []
  refine ⟨⟨'"', inside ++ (": ".toList ++ text.toList), by simp [hname], by decide⟩, fun blanks rest hblanks => ?_⟩
  obtain ⟨inside, hname, hpieces⟩ := readPieces?_jsonString name (':' :: ([' '] ++ (text.toList ++ rest)))
  have htext : (jsonString name ++ ": " ++ text).toList ++ rest =
      '"' :: (inside ++ ':' :: ([' '] ++ (text.toList ++ rest))) := by simp [hname]
  have hvalue := h.reads [' '] rest (by decide)
  rw [readMember?, skipSpace_append hblanks, htext, skipSpace_cons (by decide)]
  simp only [hpieces, Option.bind_eq_bind, Option.bind_some, skipSpace_cons (c := ':') (by decide), hvalue]
  rfl

theorem accepts_object (level : Nat) {texts : List String} {members : List DocumentMember}
    (h : List.Forall₂ (Accepts (readMember? (readValue? levels))) (texts.map String.toList) members) :
    Accepts (readValue? (levels + 1)) (onLines "\x7b" "\x7d" level texts).toList (.object members) := by
  obtain ⟨inside, htext, hreads⟩ := readList?_onLines (Or.inr rfl) "\x7b" level h
  have hshape : (onLines "\x7b" "\x7d" level texts).toList = '\x7b' :: inside := htext
  refine ⟨⟨'\x7b', inside, hshape, by decide⟩, fun blanks rest hblanks => ?_⟩
  rw [readValue?_blanks hblanks, hshape, List.cons_append, readValue?.eq_def]
  show Option.map _ (readList? (readMember? (readValue? levels)) '\x7d' (inside ++ rest)) = _
  rw [hreads rest]
  rfl

/-- **A text that is accepted as a value is that document.** -/
theorem parse?_of_accepts {text : String} {d : Document} (h : Accepts (readValue? text.toList.length) text.toList d) :
    parse? text = some d := by
  have hread := h.reads [] [] rfl
  rw [List.append_nil, List.nil_append] at hread
  simp only [parse?, hread]
  rfl

end Values

end UiScript.Document
