import UiScript.Proofs.Reading.Nested
import UiScript.Proofs.Scan.Tiling

/-!
# Scanning between braces again

A scan can be cut at a brace. What follows an opening brace is what a new scan gives that starts behind the brace
(`scanRange_after_brace`), and what stands before a closing brace is what a scan gives that ends there
(`scanRange_before_brace`). Hence a scan of the range between two braces sees the tokens that the outer scan saw there,
and the tokens of a block are those of its own range (`scanRange_between_braces`).
-/

namespace UiScript

open Text Reading

variable {text before part after : List Char} {start stop line : Nat} {brace : Token} {ts ts₁ ts₂ : List Token}

/-! ## Ranges as parts of the text -/

theorem exists_of_dropBytes? {cs rest : List Char} :
    ∀ {n : Nat}, dropBytes? cs n = some rest → ∃ before, cs = before ++ rest ∧ n = width before := by
  induction cs with
  | nil =>
    intro n h
    cases n with
    | zero => cases h; exact ⟨[], rfl, rfl⟩
    | succ n => cases h
  | cons c cs ih =>
    intro n h
    cases n with
    | zero => cases h; exact ⟨[], rfl, rfl⟩
    | succ n =>
      rw [dropBytes?] at h
      split at h
      · obtain ⟨before, rfl, hn⟩ := ih h
        exact ⟨c :: before, rfl, by rw [width_cons]; omega⟩
      · cases h

theorem exists_of_takeBytes? {cs part : List Char} :
    ∀ {n : Nat}, takeBytes? cs n = some part → ∃ after, cs = part ++ after ∧ n = width part := by
  induction cs generalizing part with
  | nil =>
    intro n h
    cases n with
    | zero => cases h; exact ⟨[], rfl, rfl⟩
    | succ n => cases h
  | cons c cs ih =>
    intro n h
    cases n with
    | zero => cases h; exact ⟨c :: cs, rfl, rfl⟩
    | succ n =>
      rw [takeBytes?] at h
      split at h
      · obtain ⟨inner, hinner, rfl⟩ := Option.map_eq_some_iff.mp h
        obtain ⟨after, rfl, hn⟩ := ih hinner
        exact ⟨after, rfl, by rw [width_cons]; omega⟩
      · cases h

/-- What is cut out of a text is a part of it. -/
theorem exists_of_slice? (h : slice? text start stop = some part) :
    ∃ before after, text = before ++ part ++ after ∧ start = width before ∧ stop = width before + width part := by
  unfold slice? at h
  split at h
  · rename_i hle
    obtain ⟨rest, hdrop, htake⟩ := Option.bind_eq_some_iff.mp h
    obtain ⟨before, rfl, hstart⟩ := exists_of_dropBytes? hdrop
    obtain ⟨after, rfl, hwidth⟩ := exists_of_takeBytes? htake
    exact ⟨before, after, by rw [List.append_assoc], hstart, by omega⟩
  · cases h

/-- The range of a part of the text is scanned as this part. -/
theorem scanRange_part (htext : text = before ++ part ++ after)
    (hstop : min stop (width text) = width before + width part) :
    scanRange text (width before) stop line = scanFrom (width before) line .outside 0 part := by
  rw [scanRange, hstop, slice_part_eq htext]

/-- A range that holds a token is a part of the text. -/
theorem exists_part_of_mem {t : Token} (ht : t ∈ scanRange text start stop line) :
    ∃ before part after, text = before ++ part ++ after ∧ start = width before ∧
      min stop (width text) = width before + width part := by
  cases hslice : slice? text start (min stop (width text)) with
  | none =>
    rw [scanRange, slice, hslice, Option.getD_none, scanFrom_nil] at ht
    cases ht
  | some part =>
    obtain ⟨before, after, htext, hstart, hstop⟩ := exists_of_slice? hslice
    exact ⟨before, part, after, htext, hstart, hstop⟩

/-! ## The two seams -/

/-- **Behind an opening brace** a new scan sees what the old one saw: the brace closes no variable reference, and it has
no line end. -/
theorem scanRange_after_brace (h : brace :: ts <:+ scanRange text start stop line)
    (hbrace : brace.kind = .opening .curly) : ts = scanRange text brace.span.stop stop brace.line := by
  obtain ⟨before, part, after, htext, rfl, hstop⟩ := exists_part_of_mem (h.mem List.mem_cons_self)
  rw [scanRange_part htext hstop] at h
  obtain ⟨as, bs, rfl, hstart, -, hts⟩ := scanFrom_after_brace h hbrace
  have hwidth : brace.span.stop = width (before ++ as ++ ['\x7b']) := by
    rw [hstart, width_append, width_append]
    rfl
  have hcut : text = before ++ as ++ ['\x7b'] ++ bs ++ after := by simp [htext]
  have hend : min stop (width text) = width (before ++ as ++ ['\x7b']) + width bs := by
    rw [hstop]
    simp only [width_append, width_cons, width_nil]
    omega
  rw [hwidth] at hts ⊢
  rw [hts, scanRange_part hcut hend]

/-- **Before a closing brace** a scan that ends there sees what the longer one saw: the brace continues no token. -/
theorem scanRange_before_brace (h : scanRange text start stop line = ts₁ ++ brace :: ts₂)
    (hbrace : brace.kind = .closing .curly) : ts₁ = scanRange text start brace.span.start line := by
  have hmem : brace ∈ scanRange text start stop line := by simp [h]
  obtain ⟨before, part, after, htext, rfl, hstop⟩ := exists_part_of_mem hmem
  rw [scanRange_part htext hstop] at h
  obtain ⟨as, bs, rfl, hts, -, hspan⟩ := scanFrom_cut _ _ _ _ ts₁ brace ts₂ h hbrace
  have hcut : text = before ++ as ++ ('\x7d' :: bs ++ after) := by simp [htext]
  have hend : min brace.span.start (width text) = width before + width as := by
    rw [hspan, hcut]
    simp only [width_append]
    omega
  rw [hts, scanRange_part hcut hend]

/-- The tokens of a block are those of its range, whether a brace closes it or the outer range ends it. -/
theorem splitBlock_scanRange {s : Source} (hstop : s.stop = min stop (width text))
    (h : brace :: ts <:+ scanRange text start stop line) (hbrace : brace.kind = .opening .curly) :
    (splitBlock 0 ts).1 = scanRange text brace.span.stop (s.between brace ts).stop brace.line := by
  have hts := scanRange_after_brace h hbrace
  rcases hclose : splitBlock 0 ts with ⟨inside, _ | ⟨u, us⟩⟩
  · obtain rfl := splitBlock_unclosed hclose
    have hmin : min (min stop (width text)) (width text) = min stop (width text) := by omega
    rw [Source.between, hclose]
    simp only [hstop]
    rw [scanRange, hmin]
    exact hts
  · have hsplit := hts.symm.trans (splitBlock_closed hclose)
    rw [Source.between, hclose]
    exact scanRange_before_brace hsplit (splitBlock_closer hclose)

/-! ## Between two braces -/

theorem getElem?_append_cons {α : Type} {as : List α} {i : Nat} {a : α} (h : as[i]? = some a) :
    as = as.take i ++ a :: as.drop (i + 1) := by
  obtain ⟨hlt, rfl⟩ := List.getElem?_eq_some_iff.mp h
  rw [List.getElem_cons_drop hlt, List.take_append_drop]

/-- **Scanning between two braces again.** Take an opening brace among the tokens of a range. For every closing brace
after it, a new scan of the text between the two, from the line of the first, gives the tokens that stand between them.
So does a new scan of the block that the brace opens, up to the brace that closes the block or to the end of the range:
its tokens are those that reading the block goes through. -/
theorem scanRange_between_braces (text : List Char) (start stop line : Nat) {i : Nat} {brace : Token}
    (hi : (scanRange text start stop line)[i]? = some brace) (hbrace : brace.kind = .opening .curly) :
    (∀ j closer, i < j → (scanRange text start stop line)[j]? = some closer → closer.kind = .closing .curly →
      scanRange text brace.span.stop closer.span.start brace.line =
        ((scanRange text start stop line).take j).drop (i + 1)) ∧
    ∀ s : Source, s.stop = min stop (width text) →
      scanRange text brace.span.stop (s.between brace ((scanRange text start stop line).drop (i + 1))).stop brace.line =
        (splitBlock 0 ((scanRange text start stop line).drop (i + 1))).1 := by
  have hsuffix : brace :: (scanRange text start stop line).drop (i + 1) <:+ scanRange text start stop line :=
    ⟨_, (getElem?_append_cons hi).symm⟩
  refine ⟨fun j closer hlt hj hcloser => ?_, fun s hstop => ?_⟩
  · have hrest := scanRange_after_brace hsuffix hbrace
    -- the closing brace, counted from behind the opening one
    obtain ⟨k, rfl⟩ : ∃ k, j = i + 1 + k := ⟨j - (i + 1), by omega⟩
    rw [← List.getElem?_drop] at hj
    have hsplit := hrest.symm.trans (getElem?_append_cons hj)
    rw [List.drop_take, Nat.add_sub_cancel_left]
    exact (scanRange_before_brace hsplit hcloser).symm
  · exact (splitBlock_scanRange hstop hsuffix hbrace).symm

/-- A block over three lines that starts with an operator of two bars. It holds a string with a line end and a brace in
it, a name before a hyphen, a smaller block, and a comment with a brace. -/
def blockAfterBars : List Char := "é \x7b|| 'a\\u12\x7d\nü' b-\x7b1.\x7d//\x7d\n\x7d\x7d 2".toList

/-- The tokens between the first brace of that range and the tenth token after it, from line 5 on. -/
theorem scanRange_between_braces_bars :
    (scanRange blockAfterBars 3 99 5)[0]? = some ⟨.opening .curly, ⟨3, 4⟩, 5, "\x7b", none⟩ ∧
      (scanRange blockAfterBars 3 99 5)[10]? = some ⟨.closing .curly, ⟨29, 30⟩, 7, "\x7d", none⟩ ∧
      scanRange blockAfterBars 4 29 5 = ((scanRange blockAfterBars 3 99 5).take 10).drop 1 ∧
      (scanRange blockAfterBars 4 29 5).map (fun t => (t.span.start, t.line)) =
        [(4, 5), (7, 5), (19, 6), (20, 6), (21, 6), (22, 6), (24, 6), (25, 6), (28, 6)] := by
  have hopen : (scanRange blockAfterBars 3 99 5)[0]? = some ⟨.opening .curly, ⟨3, 4⟩, 5, "\x7b", none⟩ := by
    decide +kernel
  have hclose : (scanRange blockAfterBars 3 99 5)[10]? = some ⟨.closing .curly, ⟨29, 30⟩, 7, "\x7d", none⟩ := by
    decide +kernel
  have hbetween := (scanRange_between_braces blockAfterBars 3 99 5 hopen rfl).1 10 _ (by decide) hclose rfl
  exact ⟨hopen, hclose, hbetween, by decide +kernel⟩

end UiScript
