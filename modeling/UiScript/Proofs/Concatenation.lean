import UiScript.Proofs.Element.Report
import UiScript.Proofs.Reading.Levels
import UiScript.Proofs.Scan.Lines

/-!
# Scripts one after the other

Mistakes stay within their command. If nothing fatal is wrong with a script and its strings are closed, then a second
script that follows it on a new line is read as it is read alone: the commands and diagnostics of both are those of the
first, then those of the second, moved to where it stands (`parse_append_line`). The second script may not begin with a
brace, since a `block` at the end of the first would take it.
-/

namespace UiScript

open Text Reading

namespace Reading

/-- The commands of a script. -/
theorem parse_commands (catalog : Catalog) (text : String) :
    (Script.parse catalog text).commands = script catalog maxNesting text.toList := rfl

/-- An element without a fatal problem came to its end, whatever follows. -/
theorem complete_of_mild (more : List Token) {e : Element} (h : isFatalProblem e.problem = false) :
    Complete more e := by
  constructor
  · intro hp
    rw [hp] at h
    cases h
  · refine Or.inr fun g hp => ?_
    rw [hp] at h
    cases h

/-- The tokens of a second script, after the line end before it. -/
theorem outside_line (as : List Char) {bs : List Char} (bytes lines : Nat)
    (h : ∀ t ∈ (scan bs).find? (!·.kind.isTrivia), t.kind ≠ .opening .curly) :
    Outside (newlineAfter as :: (scan bs).map (Token.shift bytes lines)) := by
  constructor
  · rintro t ⟨⟩
    rfl
  · have hfind : (scan bs).find? ((!·.kind.isTrivia) ∘ Token.shift bytes lines) =
        (scan bs).find? (!·.kind.isTrivia) := rfl
    rw [List.find?_cons_of_neg (by simp [newlineAfter, TokenKind.isTrivia]), List.find?_map, hfind, Option.any_map]
    cases hfirst : (scan bs).find? (!·.kind.isTrivia) with
    | none => rfl
    | some t => simpa using h t hfirst

/-- The commands of the first of two scripts, as a part of both. -/
theorem script_first (catalog : Catalog) (as bs : List Char) :
    commandsIn catalog maxNesting ⟨as ++ bs, width as, lastLineOf 1 (scan as)⟩ ⟨scan as, 0⟩ =
      script catalog maxNesting as := by
  have h := commandsIn_part catalog maxNesting [] as bs 0 (s := ⟨as ++ bs, width as, lastLineOf 1 (scan as)⟩) rfl
    (by simp) rfl
  have hcommands : Command.shift 0 0 = id := funext Command.shift_zero
  have htokens : Token.shift 0 0 = id := rfl
  rwa [width_nil, hcommands, htokens, List.map_id, List.map_id] at h

/-- The commands of the second of two scripts, as a part of both. -/
theorem script_second (catalog : Catalog) {as : List Char} (bs : List Char) (h : StringsClosed (scan as)) :
    commandsIn catalog maxNesting (.whole (as ++ '\n' :: bs))
        ⟨newlineAfter as :: (scan bs).map (Token.shift (width as + 1) (newlines as + 1)), 0⟩ =
      (script catalog maxNesting bs).map (Command.shift (width as + 1) (newlines as + 1)) := by
  have hskip : commandsIn catalog maxNesting (.whole (as ++ '\n' :: bs))
        ⟨newlineAfter as :: (scan bs).map (Token.shift (width as + 1) (newlines as + 1)), 0⟩ =
      commandsIn catalog maxNesting (.whole (as ++ '\n' :: bs))
        ⟨(scan bs).map (Token.shift (width as + 1) (newlines as + 1)), width as + 1⟩ := commandsIn_congr rfl
  rw [hskip]
  cases hlast : (scan bs).getLast? with
  | none =>
    -- a script without tokens has no commands
    have hnil : scan bs = [] := List.getLast?_eq_none_iff.mp hlast
    have hnone : script catalog maxNesting bs = [] := commands_nil (by simp [hnil, Cursor.skipBlank, Cursor.skip])
    rw [hnone, hnil]
    exact commands_nil rfl
  | some t =>
    have hwidth : width (as ++ ['\n']) = width as + 1 := by
      rw [width_append]
      rfl
    have hstop : width (as ++ '\n' :: bs) = width (as ++ ['\n']) + width bs := by
      rw [← width_append, List.append_assoc]
      rfl
    have hline : lastLineOf 1 (scan (as ++ '\n' :: bs)) = lastLineOf 1 (scan bs) + (newlines as + 1) := by
      rw [scan_line h, lastLineOf, lastLineOf, List.getLast?_append, List.getLast?_cons, List.getLast?_map, hlast]
      rfl
    have hpart := commandsIn_part catalog maxNesting (as ++ ['\n']) bs [] (newlines as + 1)
      (s := .whole (as ++ '\n' :: bs)) (by simp [Source.whole]) hstop hline
    rwa [hwidth] at hpart

/-- **Scripts one after the other.** The commands of two scripts with a line end between them. -/
theorem script_append_line (catalog : Catalog) {as bs : List Char}
    (hfatal : ∀ k ∈ script catalog maxNesting as, k.hasFatal = false) (hstrings : StringsClosed (scan as))
    (hbrace : ∀ t ∈ (scan bs).find? (!·.kind.isTrivia), t.kind ≠ .opening .curly) :
    script catalog maxNesting (as ++ '\n' :: bs) = script catalog maxNesting as ++
      (script catalog maxNesting bs).map (Command.shift (width as + 1) (newlines as + 1)) := by
  have hfirst := script_first catalog as ('\n' :: bs)
  rw [← script_second catalog bs hstrings, ← hfirst]
  rw [← hfirst] at hfatal
  have hcursor : (⟨scan (as ++ '\n' :: bs), 0⟩ : Cursor) = Cursor.extend ⟨scan as, 0⟩
      (newlineAfter as :: (scan bs).map (Token.shift (width as + 1) (newlines as + 1))) := by
    rw [scan_line hstrings]
    rfl
  show commandsIn catalog maxNesting (.whole (as ++ '\n' :: bs)) ⟨scan (as ++ '\n' :: bs), 0⟩ = _
  rw [hcursor]
  apply commandsIn_extend (outside_line as _ _ hbrace)
  · exact ⟨rfl, fun h => by cases h⟩
  · intro k hk a ha
    have hmild := Element.every_of_hasFatal (Command.hasFatal_argument ha (hfatal k hk))
    exact hmild.mono fun x hx => complete_of_mild _ hx
  · exact Or.inr hfatal

end Reading

/-- **Scripts concatenate.** If nothing fatal is wrong with the first script and its strings are closed, and if the
second does not begin with a brace, then the two with a line end between them have the commands and diagnostics of the
first, then those of the second, moved to where it stands. -/
theorem parse_append_line (catalog : Catalog) (first second : String)
    (hfatal : (Script.parse catalog first).hasFatal = false) (hstrings : StringsClosed (scan first.toList))
    (hbrace : ∀ t ∈ (scan second.toList).find? (!·.kind.isTrivia), t.kind ≠ .opening .curly) :
    (Script.parse catalog (first ++ "\n" ++ second)).commands =
        (Script.parse catalog first).commands ++ (Script.parse catalog second).commands.map
          (Command.shift (width first.toList + 1) (newlines first.toList + 1)) ∧
      (Script.parse catalog (first ++ "\n" ++ second)).diagnostics =
        (Script.parse catalog first).diagnostics ++
          (Script.parse catalog second).diagnostics.map (Diagnostic.shift (newlines first.toList + 1)) := by
  have hcommands : (Script.parse catalog (first ++ "\n" ++ second)).commands =
      (Script.parse catalog first).commands ++ (Script.parse catalog second).commands.map
        (Command.shift (width first.toList + 1) (newlines first.toList + 1)) := by
    have htext : (first ++ "\n" ++ second).toList = first.toList ++ '\n' :: second.toList := by
      simp [String.toList_append]
    rw [parse_commands, htext]
    apply script_append_line catalog _ hstrings hbrace
    rw [Script.hasFatal_eq_any, List.any_eq_false] at hfatal
    intro k hk
    simpa using hfatal k hk
  refine ⟨hcommands, ?_⟩
  rw [Script.diagnostics, hcommands, List.flatMap_append, List.flatMap_map, Script.diagnostics, Script.diagnostics,
    List.map_flatMap]
  simp only [Command.diagnostics_shift]

set_option maxRecDepth 10000 in
/-- A script with a mistake in each command, before a script with a mistake in a block. -/
theorem parse_append_line_mistakes :
    (Script.parse .any ("a: (1 2) 3\nb: 4 + // c" ++ "\n" ++ "d: block \x7b e: [1, \"f\"] \x7d")).commands =
        (Script.parse .any "a: (1 2) 3\nb: 4 + // c").commands ++
          (Script.parse .any "d: block \x7b e: [1, \"f\"] \x7d").commands.map (Command.shift 23 2) ∧
      ((Script.parse .any ("a: (1 2) 3\nb: 4 + // c" ++ "\n" ++ "d: block \x7b e: [1, \"f\"] \x7d")).diagnostics.map
        Diagnostic.line) = [some 1, some 1, some 2, some 3] := by
  have h := parse_append_line .any "a: (1 2) 3\nb: 4 + // c" "d: block \x7b e: [1, \"f\"] \x7d" (by decide +kernel)
    (by decide +kernel) (by decide +kernel)
  exact ⟨h.1, by decide +kernel⟩

end UiScript
