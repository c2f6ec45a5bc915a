import UiScript.Proofs.Element.Places
import UiScript.Proofs.Reading.Progress
import UiScript.Proofs.Scan.Lines

/-!
# Every token belongs to one command

A command takes the tokens from its first one up to the end of a line. So the commands of a script divide its tokens
among them (`Tiles`): before each command stand only comments and line ends, and after it a new line begins. Where the
last command has a fatal problem, the tokens after it are left.

* **Step** (`command_span`, `command_lineEnd`): the span of a command ends with the last token read for it, and reading
  stops at a line end or at the end of the range.
* **Run** (`commands_tiles`): the commands that are read from a range tile its tokens, whatever is wrong with them.
* **Spans** (`Tiles.separated`, `Tiles.exists_holds`): commands that tile the tokens of a text follow each other on
  later and later lines, and each token other than a comment or a line end lies in one of them.
-/

namespace UiScript

open Text

/-- Whether the token lies in the span of the command. -/
def Command.holds (c : Command) (t : Token) : Bool :=
  decide (c.head.span.start ≤ t.span.start ∧ t.span.stop ≤ c.head.span.stop)

theorem Command.holds_iff {c : Command} {t : Token} :
    c.holds t = true ↔ c.head.span.start ≤ t.span.start ∧ t.span.stop ≤ c.head.span.stop := by
  rw [Command.holds, decide_eq_true_iff]

namespace Reading

/-! ## One command -/

/-- The place of a command goes from its first token to the last token that was read for it. -/
theorem command_place (catalog : Catalog) (s : Source) (read : Cursor → Element × Cursor) (t : Token) (c : Cursor) :
    (command catalog s read t c).1.place =
      .within s.text ⟨t.span.start, (command catalog s read t c).2.lastStop⟩ t.line := by
  unfold command
  split
  · split
    · rfl
    · split
      · dsimp only
        split
        · rw [Command.place, Command.head_make]
          rfl
        · rfl
      · rfl
  · rfl

/-- A command spans from its first token to the last token that was read for it. -/
theorem command_span (catalog : Catalog) (s : Source) (read : Cursor → Element × Cursor) (t : Token) (c : Cursor) :
    (command catalog s read t c).1.head.span = ⟨t.span.start, (command catalog s read t c).2.lastStop⟩ ∧
      (command catalog s read t c).1.line = t.line := by
  have hplace := command_place catalog s read t c
  exact ⟨congrArg Place.span hplace, congrArg Place.line hplace⟩

/-! ## All commands -/

/-- The command takes the token `t` and the tokens `body` after it. -/
structure Takes (t : Token) (body : List Token) (c : Command) : Prop where
  first : t.kind.isTrivia = false
  span : c.head.span = ⟨t.span.start, lastStopOf t.span.stop body⟩
  line : c.line = t.line

/-- The commands divide the tokens among them, each up to the end of a line. Nothing follows a command with a fatal
problem. -/
inductive Tiles : List Token → List Command → Prop where
  | blank {gap : List Token} (hgap : ∀ u ∈ gap, u.kind.isTrivia = true) : Tiles gap []
  | fatal {gap body rest : List Token} {t : Token} {c : Command} (hgap : ∀ u ∈ gap, u.kind.isTrivia = true)
      (htakes : Takes t body c) (hfatal : c.hasFatal = true) : Tiles (gap ++ t :: (body ++ rest)) [c]
  | next {gap body rest : List Token} {t : Token} {c : Command} {cs : List Command}
      (hgap : ∀ u ∈ gap, u.kind.isTrivia = true) (htakes : Takes t body c) (hfatal : c.hasFatal = false)
      (hend : LineEnds rest) (hrest : Tiles rest cs) : Tiles (gap ++ t :: (body ++ rest)) (c :: cs)

/-- **The commands of a range tile its tokens.** -/
theorem commands_tiles (catalog : Catalog) (s : Source) {read : Cursor → Element × Cursor} (ha : Advances read)
    (c : Cursor) : Tiles c.rest (commands catalog s read c) := by
  induction hn : c.rest.length using Nat.strongRecOn generalizing c with
  | ind n ih =>
    have hskip : c.rest = c.rest.takeWhile (·.kind.isTrivia) ++ c.skipBlank.rest :=
      List.takeWhile_append_dropWhile.symm
    have hgap : ∀ u ∈ c.rest.takeWhile (·.kind.isTrivia), u.kind.isTrivia = true :=
      fun u hu => List.all_eq_true.mp List.all_takeWhile u hu
    cases h : c.skipBlank.rest with
    | nil =>
      rw [commands_nil h, hskip, h, List.append_nil]
      exact .blank hgap
    | cons t ts =>
      obtain ⟨body, hbody, hlast⟩ := command_reaches catalog s ha t ⟨ts, t.span.stop⟩
      have htakes : Takes t body (command catalog s read t ⟨ts, t.span.stop⟩).1 := by
        obtain ⟨hspan, hline⟩ := command_span catalog s read t ⟨ts, t.span.stop⟩
        refine ⟨Cursor.skipBlank_head h, ?_, hline⟩
        rw [hspan, hlast]
      have hend := command_lineEnd catalog s read t ⟨ts, t.span.stop⟩
      have htokens : c.rest = c.rest.takeWhile (·.kind.isTrivia) ++
          t :: (body ++ (command catalog s read t ⟨ts, t.span.stop⟩).2.rest) := by
        rw [← show ts = body ++ _ from hbody, ← h]
        exact hskip
      rw [commands_cons ha h, htokens]
      split
      · rename_i hfatal
        exact .fatal hgap htakes hfatal
      · rename_i hfatal
        exact .next hgap htakes (by simpa using hfatal) hend (ih _ (hn ▸ command_lt ha h) _ rfl)

/-! ## Spans -/

/-- The last of some tokens that follow each other ends no earlier than any of them. -/
theorem le_lastStopOf (stop : Nat) {ts : List Token} (hsorted : ts.Pairwise fun t u => t.span.stop ≤ u.span.start)
    (hordered : ∀ t ∈ ts, stop ≤ t.span.start ∧ t.span.start < t.span.stop) :
    stop ≤ lastStopOf stop ts ∧ ∀ t ∈ ts, t.kind.isTrivia = false → t.span.stop ≤ lastStopOf stop ts := by
  induction ts generalizing stop with
  | nil => exact ⟨Nat.le_refl _, by simp⟩
  | cons t ts ih =>
    obtain ⟨hfirst, hsorted⟩ := List.pairwise_cons.mp hsorted
    obtain ⟨ht, hordered⟩ := List.forall_mem_cons.mp hordered
    rw [lastStopOf]
    by_cases hk : t.kind.isTrivia = true
    · rw [if_pos hk]
      obtain ⟨hle, hin⟩ := ih stop hsorted hordered
      refine ⟨hle, List.forall_mem_cons.mpr ⟨?_, hin⟩⟩
      intro hk'
      rw [hk] at hk'
      cases hk'
    · rw [if_neg hk]
      obtain ⟨hle, hin⟩ := ih t.span.stop hsorted fun u hu => ⟨hfirst u hu, (hordered u hu).2⟩
      refine ⟨by omega, List.forall_mem_cons.mpr ⟨fun _ => hle, hin⟩⟩

/-- Tokens of a text: they are not empty, follow each other, and stand on later lines after each line end. -/
structure InOrder (ts : List Token) : Prop where
  nonempty : ∀ t ∈ ts, t.span.start < t.span.stop
  sorted : ts.Pairwise fun t u => t.span.stop ≤ u.span.start
  lines : ts.Pairwise fun t u => t.line ≤ u.line ∧ (t.kind = .newline → t.line < u.line)

theorem InOrder.sublist {ts us : List Token} (h : InOrder ts) (hs : us.Sublist ts) : InOrder us :=
  ⟨fun t ht => h.nonempty t (hs.mem ht), h.sorted.sublist hs, h.lines.sublist hs⟩

theorem InOrder.after {gap ts : List Token} (h : InOrder (gap ++ ts)) : InOrder ts :=
  h.sublist (List.sublist_append_right gap ts)

theorem InOrder.rest {t : Token} {body rest : List Token} (h : InOrder (t :: (body ++ rest))) : InOrder rest :=
  h.sublist ((List.sublist_append_right body rest).trans (List.sublist_cons_self _ _))

theorem inOrder_scan (text : List Char) : InOrder (scan text) := by
  rw [scan_eq]
  exact ⟨fun t ht => (scanFrom_bounds _ _ _ _ t ht).2.1, scanFrom_sorted _ _ _ _, scanFrom_lines _ _ _ _⟩

/-- What a command takes lies in its span, and all that follows lies behind it. -/
theorem Takes.around {t : Token} {body rest : List Token} {c : Command} (h : Takes t body c)
    (ho : InOrder (t :: (body ++ rest))) :
    c.head.span.start < c.head.span.stop ∧ (∀ u ∈ t :: body, u.kind.isTrivia = false → c.holds u = true) ∧
      ∀ u ∈ rest, c.head.span.stop ≤ u.span.start := by
  obtain ⟨hfirst, hsorted⟩ := List.pairwise_cons.mp ho.sorted
  obtain ⟨hbody, -, hbefore⟩ := List.pairwise_append.mp hsorted
  have ht := ho.nonempty t List.mem_cons_self
  obtain ⟨hle, hin⟩ := le_lastStopOf t.span.stop hbody fun u hu =>
    ⟨hfirst u (by simp [hu]), ho.nonempty u (by simp [hu])⟩
  rw [h.span]
  refine ⟨Nat.lt_of_lt_of_le ht hle, ?_, ?_⟩
  · intro u hu hk
    rw [Command.holds_iff, h.span]
    rcases List.mem_cons.mp hu with rfl | hu
    · exact ⟨Nat.le_refl _, hle⟩
    · have hu' := hfirst u (by simp [hu])
      refine ⟨?_, hin u hu hk⟩
      show t.span.start ≤ u.span.start
      omega
  · intro u hu
    rcases lastStopOf_eq t.span.stop body with heq | ⟨v, hv, heq⟩
    · rw [heq]
      exact hfirst u (by simp [hu])
    · rw [heq]
      exact hbefore v hv u hu

namespace Tiles

variable {ts : List Token} {cs : List Command} {c : Command}

/-- Every command starts with one of the tokens. -/
theorem starts (h : Tiles ts cs) (hc : c ∈ cs) :
    ∃ t ∈ ts, t.kind.isTrivia = false ∧ c.head.span.start = t.span.start ∧ c.line = t.line := by
  induction h with
  | blank => cases hc
  | @fatal gap body rest t d hgap htakes hfatal =>
    obtain rfl := List.mem_singleton.mp hc
    exact ⟨t, by simp, htakes.first, by rw [htakes.span], htakes.line⟩
  | @next gap body rest t d cs hgap htakes hfatal hend hrest ih =>
    rcases List.mem_cons.mp hc with rfl | hc
    · exact ⟨t, by simp, htakes.first, by rw [htakes.span], htakes.line⟩
    · obtain ⟨u, hu, h⟩ := ih hc
      exact ⟨u, by simp [hu], h⟩

/-- Nothing but the last command has a fatal problem. -/
theorem fatal_last (h : Tiles ts cs) : ∀ c ∈ cs.dropLast, c.hasFatal = false := by
  induction h with
  | blank => simp
  | fatal => simp
  | @next gap body rest t d cs hgap htakes hfatal hend hrest ih =>
    cases cs with
    | nil => simp
    | cons c' cs =>
      rw [List.dropLast_cons_cons]
      exact List.forall_mem_cons.mpr ⟨hfatal, ih⟩

/-- The spans of commands are not empty. -/
theorem nonempty (h : Tiles ts cs) (ho : InOrder ts) : ∀ c ∈ cs, c.head.span.start < c.head.span.stop := by
  induction h with
  | blank => simp
  | @fatal gap body rest t d hgap htakes hfatal =>
    intro c hc
    obtain rfl := List.mem_singleton.mp hc
    exact (htakes.around ho.after).1
  | @next gap body rest t d cs hgap htakes hfatal hend hrest ih =>
    exact List.forall_mem_cons.mpr ⟨(htakes.around ho.after).1, ih ho.after.rest⟩

/-- **Commands follow each other**, and each one stands on a later line than those before it. -/
theorem separated (h : Tiles ts cs) (ho : InOrder ts) :
    cs.Pairwise fun a b => a.head.span.stop ≤ b.head.span.start ∧ a.line < b.line := by
  induction h with
  | blank => exact List.Pairwise.nil
  | fatal => exact List.pairwise_singleton _ _
  | @next gap body rest t c cs hgap htakes hfatal hend hrest ih =>
    have ho' := ho.after
    refine List.pairwise_cons.mpr ⟨?_, ih ho'.rest⟩
    intro b hb
    obtain ⟨u, hu, hk, hstart, hline⟩ := hrest.starts hb
    constructor
    · rw [hstart]
      exact (htakes.around ho').2.2 u hu
    · -- the line end after the command stands between it and the token `u`
      rw [htakes.line, hline]
      cases hrest' : rest with
      | nil =>
        rw [hrest'] at hu
        cases hu
      | cons n ns =>
        have hn : n.kind = .newline := hend n (by rw [hrest']; rfl)
        rw [hrest'] at hu ho'
        have hu' : u ∈ ns := by
          rcases List.mem_cons.mp hu with rfl | hu
          · rw [hn] at hk
            cases hk
          · exact hu
        obtain ⟨hfirst, hlines⟩ := List.pairwise_cons.mp ho'.lines
        have htn := (hfirst n (by simp)).1
        have hnu := ((List.pairwise_cons.mp (List.pairwise_append.mp hlines).2.1).1 u hu').2 hn
        omega

/-- **Every token lies in a command**, up to the end of a command with a fatal problem. -/
theorem exists_holds (h : Tiles ts cs) (ho : InOrder ts) {t : Token} (ht : t ∈ ts) (hk : t.kind.isTrivia = false)
    (hlast : ∀ c ∈ cs.getLast?, c.hasFatal = true → t.span.start < c.head.span.stop) : ∃ c ∈ cs, c.holds t = true := by
  have hgaps : ∀ {gap ts : List Token}, (∀ u ∈ gap, u.kind.isTrivia = true) → t ∈ gap ++ ts → t ∈ ts := by
    intro gap ts hgap ht
    rcases List.mem_append.mp ht with ht | ht
    · rw [hgap t ht] at hk
      cases hk
    · exact ht
  induction h with
  | @blank gap hgap =>
    rw [hgap t ht] at hk
    cases hk
  | @fatal gap body rest u c hgap htakes hfatal =>
    obtain ⟨-, hin, hafter⟩ := htakes.around ho.after
    have hmem : t ∈ (u :: body) ++ rest := hgaps hgap ht
    rcases List.mem_append.mp hmem with hmem | hmem
    · exact ⟨c, List.mem_singleton_self c, hin t hmem hk⟩
    · have hlt := hlast c rfl hfatal
      have hle := hafter t hmem
      omega
  | @next gap body rest u c cs hgap htakes hfatal hend hrest ih =>
    have hmem : t ∈ (u :: body) ++ rest := hgaps hgap ht
    rcases List.mem_append.mp hmem with hmem | hmem
    · exact ⟨c, List.mem_cons_self, (htakes.around ho.after).2.1 t hmem hk⟩
    · have hlater : ∀ d ∈ cs.getLast?, d.hasFatal = true → t.span.start < d.head.span.stop := by
        intro d hd
        apply hlast
        rw [List.getLast?_cons, Option.mem_def.mp hd]
        rfl
      obtain ⟨d, hd, hholds⟩ := ih ho.after.rest hmem hlater
      exact ⟨d, List.mem_cons_of_mem _ hd, hholds⟩

/-- **Every token lies in exactly one command**, up to the end of a command with a fatal problem. -/
theorem countP_holds (h : Tiles ts cs) (ho : InOrder ts) {t : Token} (ht : t ∈ ts) (hk : t.kind.isTrivia = false)
    (hlast : ∀ c ∈ cs.getLast?, c.hasFatal = true → t.span.start < c.head.span.stop) : cs.countP (·.holds t) = 1 := by
  obtain ⟨c, hc, hholds⟩ := h.exists_holds ho ht hk hlast
  obtain ⟨before, after, rfl⟩ := List.append_of_mem hc
  obtain ⟨-, hafter, hbefore⟩ := List.pairwise_append.mp (h.separated ho)
  have hlt := ho.nonempty t ht
  rw [Command.holds_iff] at hholds
  -- a command before or after `c` that holds the token too would overlap `c`
  have hnone : before.countP (·.holds t) = 0 ∧ after.countP (·.holds t) = 0 := by
    rw [List.countP_eq_zero, List.countP_eq_zero]
    constructor
    · intro d hd hdt
      have hdc := (hbefore d hd c List.mem_cons_self).1
      rw [Command.holds_iff] at hdt
      omega
    · intro d hd hdt
      have hcd := ((List.pairwise_cons.mp hafter).1 d hd).1
      rw [Command.holds_iff] at hdt
      omega
  rw [List.countP_append, List.countP_cons, hnone.1, hnone.2, if_pos (Command.holds_iff.mpr hholds)]

end Tiles

theorem parse_tiles (catalog : Catalog) (text : String) :
    Tiles (scan text.toList) (Script.parse catalog text).commands :=
  commands_tiles catalog _ (chain_reaches _ false (operand_reaches catalog maxNesting _ false)) ⟨scan text.toList, 0⟩

end Reading

/-- **No token of a script is lost, and none belongs to two commands.** The commands of a script follow each other and
stand on later and later lines. Only the last one can have a fatal problem. If it has none, every token other than a
comment or a line end lies in the span of exactly one command; if it has one, this is true of the tokens before the end
of that command. -/
theorem parse_covers (catalog : Catalog) (text : String) :
    (∀ c ∈ (Script.parse catalog text).commands, c.head.span.start < c.head.span.stop) ∧
      ((Script.parse catalog text).commands.Pairwise fun a b =>
        a.head.span.stop ≤ b.head.span.start ∧ a.line < b.line) ∧
      (∀ c ∈ (Script.parse catalog text).commands.dropLast, c.hasFatal = false) ∧
      ((∀ c ∈ (Script.parse catalog text).commands, c.hasFatal = false) →
        ∀ t ∈ scan text.toList, t.kind.isTrivia = false →
          (Script.parse catalog text).commands.countP (·.holds t) = 1) ∧
      ∀ last, (Script.parse catalog text).commands.getLast? = some last → last.hasFatal = true →
        ∀ t ∈ scan text.toList, t.kind.isTrivia = false → t.span.start < last.head.span.stop →
          (Script.parse catalog text).commands.countP (·.holds t) = 1 := by
  have htiles := Reading.parse_tiles catalog text
  have horder := Reading.inOrder_scan text.toList
  refine ⟨htiles.nonempty horder, htiles.separated horder, htiles.fatal_last, ?_, ?_⟩
  · intro hfatal t ht hk
    apply htiles.countP_holds horder ht hk
    intro c hc hc'
    rw [hfatal c (List.mem_of_getLast? hc)] at hc'
    cases hc'
  · intro last hlast hfatal t ht hk hlt
    apply htiles.countP_holds horder ht hk
    intro c hc _
    rw [hlast] at hc
    cases hc
    exact hlt

set_option maxRecDepth 10000 in
/-- In a script whose second command has no colon, every token up to the end of that command lies in one command. -/
theorem parse_covers_colon :
    (Script.parse .any "a: (1,\n2) 3\n// b\nb c\nd: 4").commands.map (fun c => (c.line, c.hasFatal, c.head.span.stop)) =
        [(1, false, 11), (4, true, 20)] ∧
      ∀ t ∈ scan "a: (1,\n2) 3\n// b\nb c\nd: 4".toList, t.kind.isTrivia = false → t.span.start < 20 →
        (Script.parse .any "a: (1,\n2) 3\n// b\nb c\nd: 4").commands.countP (·.holds t) = 1 := by
  obtain ⟨-, -, -, -, hlast⟩ := parse_covers .any "a: (1,\n2) 3\n// b\nb c\nd: 4"
  have hsecond : ((Script.parse .any "a: (1,\n2) 3\n// b\nb c\nd: 4").commands.getLast?.any fun c =>
      c.hasFatal && c.head.span.stop == 20) = true := by decide +kernel
  obtain ⟨c, hc, hfatal⟩ := (Option.any_eq_true _ _).mp hsecond
  rw [Bool.and_eq_true, beq_iff_eq] at hfatal
  refine ⟨by decide +kernel, fun t ht hk hlt => hlast c hc hfatal.1 t ht hk ?_⟩
  rw [hfatal.2]
  exact hlt

end UiScript
