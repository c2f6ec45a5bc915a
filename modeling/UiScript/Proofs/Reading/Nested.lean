import UiScript.Proofs.Reading.Shift

/-!
# Blocks are scripts

The commands of a block are those of the text between its braces, read as a script of its own: moved to where the
block stands, and with one level less for containers (`blockInside_eq`). Where the block ends depends only on the
braces among the tokens in it (`balanced`).
-/

namespace UiScript.Reading

open Text

/-- The commands of a text, with that many levels for containers. -/
def script (catalog : Catalog) (levels : Nat) (text : List Char) : List Command :=
  commands catalog (.whole text) (chain (.whole text) false (operand catalog levels (.whole text) false)) ⟨scan text, 0⟩

/-- The commands of a range, with that many levels for containers. -/
def commandsIn (catalog : Catalog) (levels : Nat) (s : Source) (c : Cursor) : List Command :=
  commands catalog s (chain s false (operand catalog levels s false)) c

/-! ## Parts of a text -/

section Slices

theorem dropBytes?_append_left (as bs : List Char) (n : Nat) :
    dropBytes? (as ++ bs) (width as + n) = dropBytes? bs n := by
  induction as with
  | nil => simp
  | cons c as ih =>
    have hpos : 0 < c.utf8Size := c.utf8Size_pos
    obtain ⟨k, hk⟩ : ∃ k, width (c :: as) + n = k + 1 := ⟨width (c :: as) + n - 1, by rw [width_cons]; omega⟩
    rw [width_cons] at hk
    rw [width_cons, hk, List.cons_append, dropBytes?, if_pos (by omega)]
    have : k + 1 - c.utf8Size = width as + n := by omega
    rw [this, ih]

theorem dropBytes?_append_right (as bs : List Char) : ∀ n ≤ width as,
    dropBytes? (as ++ bs) n = (dropBytes? as n).map (· ++ bs) := by
  induction as with
  | nil =>
    intro n hn
    obtain rfl : n = 0 := by simpa using hn
    cases bs <;> rfl
  | cons c as ih =>
    intro n hn
    cases n with
    | zero => rfl
    | succ n =>
      rw [List.cons_append, dropBytes?, dropBytes?]
      split
      · rw [ih _ (by rw [width_cons] at hn; omega)]
      · rfl

theorem takeBytes?_append_right (as bs : List Char) : ∀ n ≤ width as, takeBytes? (as ++ bs) n = takeBytes? as n := by
  induction as with
  | nil =>
    intro n hn
    obtain rfl : n = 0 := by simpa using hn
    cases bs <;> rfl
  | cons c as ih =>
    intro n hn
    cases n with
    | zero => rfl
    | succ n =>
      rw [List.cons_append, takeBytes?, takeBytes?]
      split
      · rw [ih _ (by rw [width_cons] at hn; omega)]
      · rfl

theorem width_of_dropBytes? {cs rest : List Char} :
    ∀ {n : Nat}, dropBytes? cs n = some rest → width rest + n = width cs := by
  induction cs with
  | nil =>
    intro n h
    cases n with
    | zero => cases h; rfl
    | succ n => cases h
  | cons c cs ih =>
    intro n h
    cases n with
    | zero => cases h; rfl
    | succ n =>
      rw [dropBytes?] at h
      split at h
      · have := ih h
        rw [width_cons]
        omega
      · cases h

/-- A range inside a part of a text, seen from the text and from the part. -/
theorem slice_part (before part after : List Char) {start stop : Nat} (h : stop ≤ width part) :
    slice (before ++ part ++ after) (start + width before) (stop + width before) = slice part start stop := by
  unfold slice slice?
  by_cases hle : start ≤ stop
  · rw [if_pos hle, if_pos (by omega), List.append_assoc, Nat.add_comm start, dropBytes?_append_left,
      dropBytes?_append_right _ _ _ (by omega)]
    cases hd : dropBytes? part start with
    | none => rfl
    | some rest =>
      have hw := width_of_dropBytes? hd
      have hsub : stop + width before - (width before + start) = stop - start := by omega
      rw [Option.map_some, Option.bind_some, Option.bind_some, hsub, takeBytes?_append_right _ _ _ (by omega)]
  · rw [if_neg hle, if_neg (by omega)]

end Slices

/-! ## Braces -/

/-- Whether every brace among the tokens has its partner, where that many are open before. -/
def balanced : Nat → List TokenKind → Bool
  | depth, [] => depth == 0
  | depth, kind :: kinds =>
    if kind = .closing .curly then depth != 0 && balanced (depth - 1) kinds
    else if kind = .opening .curly then balanced (depth + 1) kinds
    else balanced depth kinds

theorem splitBlock_cons (depth : Nat) (t : Token) (ts : List Token) :
    splitBlock depth (t :: ts) =
      if t.kind = .closing .curly then
        if depth = 0 then ([], some (t, ts))
        else (t :: (splitBlock (depth - 1) ts).1, (splitBlock (depth - 1) ts).2)
      else if t.kind = .opening .curly then (t :: (splitBlock (depth + 1) ts).1, (splitBlock (depth + 1) ts).2)
      else (t :: (splitBlock depth ts).1, (splitBlock depth ts).2) := by
  cases hk : t.kind with
  | closing b => cases b <;> cases depth <;> simp [splitBlock, hk]
  | opening b => cases b <;> simp [splitBlock, hk]
  | _ => simp [splitBlock, hk]

section Braces

variable {inside us : List Token} {u : Token}

/-- A block ends at the first brace that has no partner in it. -/
theorem splitBlock_of_balanced (hu : u.kind = .closing .curly) {depth : Nat}
    (h : balanced depth (inside.map Token.kind) = true) :
    splitBlock depth (inside ++ u :: us) = (inside, some (u, us)) := by
  induction inside generalizing depth with
  | nil =>
    obtain rfl : depth = 0 := by simpa [balanced] using h
    rw [List.nil_append, splitBlock_cons, if_pos hu, if_pos rfl]
  | cons t inside ih =>
    rw [List.cons_append, splitBlock_cons]
    rw [List.map_cons, balanced] at h
    split
    · rename_i hk
      rw [if_pos hk, Bool.and_eq_true, bne_iff_ne] at h
      rw [if_neg h.1, ih h.2]
    · rename_i hk
      rw [if_neg hk] at h
      split
      · rename_i hk'
        rw [if_pos hk'] at h
        rw [ih h]
      · rename_i hk'
        rw [if_neg hk'] at h
        rw [ih h]

theorem balanced_of_splitBlock {ts : List Token} {depth : Nat} (h : splitBlock depth ts = (inside, some (u, us))) :
    balanced depth (inside.map Token.kind) = true := by
  induction ts generalizing depth inside with
  | nil => cases h
  | cons t ts ih =>
    have hrec : ∀ {depth' : Nat}, (t :: (splitBlock depth' ts).1, (splitBlock depth' ts).2) = (inside, some (u, us)) →
        ∃ rest, inside = t :: rest ∧ balanced depth' (rest.map Token.kind) = true := by
      intro depth' heq
      obtain ⟨rfl, hrest⟩ := Prod.mk.inj heq
      exact ⟨_, rfl, ih (Prod.ext rfl hrest)⟩
    rw [splitBlock_cons] at h
    split at h
    · rename_i hk
      split at h
      · rename_i hdepth
        cases h
        simp [balanced, hdepth]
      · rename_i hdepth
        obtain ⟨rest, rfl, hrest⟩ := hrec h
        rw [List.map_cons, balanced, if_pos hk, hrest, Bool.and_true, bne_iff_ne]
        exact hdepth
    · rename_i hk
      split at h
      · rename_i hk'
        obtain ⟨rest, rfl, hrest⟩ := hrec h
        rw [List.map_cons, balanced, if_neg hk, if_pos hk', hrest]
      · rename_i hk'
        obtain ⟨rest, rfl, hrest⟩ := hrec h
        rw [List.map_cons, balanced, if_neg hk, if_neg hk', hrest]

end Braces

/-! ## The text of a block -/

/-- The tokens of a text lie in it. -/
theorem fits_scan (text : List Char) : Fits (.whole text) ⟨scan text, 0⟩ := by
  have hbounds := scanFrom_bounds 0 1 .outside text
  rw [← scan_eq, Nat.zero_add] at hbounds
  refine ⟨?_, fun t ht => Nat.le_of_lt (hbounds t ht).2.1, fun t ht => (hbounds t ht).2.2, Nat.zero_le _⟩
  rw [scan_eq]
  exact scanFrom_sorted _ _ _ _

/-- The tokens of a part of a text are its own tokens, moved. -/
theorem scanFrom_eq_shift (offset lines : Nat) (part : List Char) :
    scanFrom offset (1 + lines) .outside 0 part = (scan part).map (Token.shift offset lines) := by
  rw [scan_eq, ← scanFrom_shift, Nat.zero_add]

/-- **The commands of a part of a text** are those of the part alone, moved to where it stands. -/
theorem commandsIn_part (catalog : Catalog) (levels : Nat) (before part after : List Char) (lines : Nat) {s : Source}
    (htext : s.text = before ++ part ++ after) (hstop : s.stop = width before + width part)
    (hlast : s.lastLine = lastLineOf 1 (scan part) + lines) :
    commandsIn catalog levels s ⟨(scan part).map (Token.shift (width before) lines), width before⟩ =
      (script catalog levels part).map (Command.shift (width before) lines) := by
  have hembeds : Embeds (width before) lines (.whole part) s := by
    refine ⟨hstop.trans (Nat.add_comm _ _), hlast, fun start stop h => ?_⟩
    rw [htext]
    exact slice_part before part after h
  have hreach := operand_reaches catalog levels (.whole part) false
  have hread := chain_shift hembeds (operand_shift catalog levels hembeds false) hreach false
  have h := commands_shift hembeds hread (chain_reaches _ false hreach) catalog ⟨scan part, 0⟩ (fits_scan part)
  rw [Cursor.shift, Nat.zero_add] at h
  exact h

/-- **The commands of a block** are those of its text. -/
theorem blockInside_eq (catalog : Catalog) (levels : Nat) (before part after : List Char) {brace : Token} {lines : Nat}
    (hstop : brace.span.stop = width before) (hline : brace.line = 1 + lines) :
    blockInside catalog (before ++ part ++ after) (fun inner => chain inner false (operand catalog levels inner false))
        brace (scanFrom brace.span.stop brace.line .outside 0 part) (brace.span.stop + width part) =
      (script catalog levels part).map (Command.shift (width before) lines) := by
  rw [hstop, hline, scanFrom_eq_shift]
  have h := commandsIn_part catalog levels before part after lines
    (s := ⟨before ++ part ++ after, width before + width part,
      lastLineOf brace.line ((scan part).map (Token.shift (width before) lines))⟩) rfl rfl
    (by rw [hline]; exact lastLineOf_shift 1 (scan part))
  rw [← hstop] at h ⊢
  exact h

/-- What follows an opening brace is scanned from the text after it. -/
theorem scanFrom_after_brace {offset line : Nat} {text : List Char} {brace : Token} {ts : List Token}
    (h : brace :: ts <:+ scanFrom offset line .outside 0 text) (hbrace : brace.kind = .opening .curly) :
    ∃ as bs, text = as ++ '\x7b' :: bs ∧ brace.span.stop = offset + width as + 1 ∧ brace.line = line + newlines as ∧
      ts = scanFrom brace.span.stop brace.line .outside 0 bs := by
  obtain ⟨ts₁, hts⟩ := h
  obtain ⟨as, c, bs, r, x, rfl, hx, hu, hrest⟩ := scanFrom_suffix offset line .outside text ts₁ brace ts hts.symm
  rw [hu] at hbrace
  obtain ⟨rfl, rfl⟩ := lexeme?_of_punctuation (d := '\x7b') (by decide) hx hbrace
  refine ⟨as, bs, rfl, ?_, ?_, ?_⟩
  · rw [hu]
    rfl
  · rw [hu]
    rfl
  · rw [hrest, hu]
    simp [Lexeme.token, markLexeme, Reference.next, newlines]

/-- What follows an opening brace of a whole text. -/
theorem scan_after_brace {text : List Char} {brace : Token} {ts : List Token} (h : brace :: ts <:+ scan text)
    (hbrace : brace.kind = .opening .curly) :
    ∃ before rest lines, text = before ++ rest ∧ brace.span.stop = width before ∧ brace.line = 1 + lines ∧
      ts = scanFrom brace.span.stop brace.line .outside 0 rest := by
  rw [scan_eq] at h
  obtain ⟨as, bs, rfl, hstop, hline, hts⟩ := scanFrom_after_brace h hbrace
  refine ⟨as ++ ['\x7b'], bs, newlines as, by simp, ?_, hline, hts⟩
  rw [hstop, width_append, Nat.zero_add]
  rfl

end UiScript.Reading
