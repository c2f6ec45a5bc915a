import UiScript.Proofs.Grammar.Blocks
import UiScript.Proofs.RoundTrip

/-!
# Containers that are passed over

Where no level is left, a container is passed over as a whole: one count of the open brackets of all three kinds says
where it ends. Marks in which every bracket is closed again leave that count as it was (`PassedOver`), so a container
of such marks is passed over up to its own closing bracket (`skipGroup_container`) and read as one element with the text
of the whole container (`reads_tooDeep`). The text of a container of such parts is written with such marks (`Passable`).
-/

namespace UiScript.Grammar

open Reading Text

/-! ## The count of brackets -/

/-- Passing over the marks leaves as many brackets open as before. -/
def PassedOver (ms : List Mark) : Prop :=
  ∀ (depth stop k : Nat) (ts : List Token) (more : List Mark), 0 < depth → marks k ts = ms ++ more →
    ∃ stop' k' us, skipGroup depth stop ts = skipGroup depth stop' us ∧ marks k' us = more

/-- Before the token of the first mark, comments and line ends are passed over. -/
theorem skipGroup_mark {k : Nat} {ts : List Token} {m : Mark} {more : List Mark} (h : marks k ts = m :: more)
    (depth stop : Nat) :
    ∃ k' us, skipGroup depth stop ts = skipGroup depth stop (m.1 :: us) ∧ marks k' us = more ∧
      m.1.kind.isTrivia = false := by
  induction ts generalizing k with
  | nil => cases h
  | cons t ts ih =>
    cases ht : t.kind.isTrivia with
    | true =>
      rw [marks_trivia ht] at h
      obtain ⟨k', us, heq, hus, hm⟩ := ih h
      refine ⟨k', us, ?_, hus, hm⟩
      rw [← heq, skipGroup, if_pos ht]
      cases hk : t.kind with
      | opening b | closing b => rw [hk] at ht; cases ht
      | _ => rfl
    | false =>
      rw [marks_cons ht] at h
      obtain ⟨rfl, rfl⟩ := List.cons.inj h
      exact ⟨k + 1, ts, rfl, rfl, ht⟩

namespace PassedOver

variable {as bs : List Mark} {m opener closer : Mark} {b b' : Bracket}

theorem nil : PassedOver [] := fun _ stop k ts _ _ h => ⟨stop, k, ts, rfl, h⟩

theorem append (ha : PassedOver as) (hb : PassedOver bs) : PassedOver (as ++ bs) := by
  intro depth stop k ts more hdepth h
  rw [List.append_assoc] at h
  obtain ⟨stop₁, k₁, us, heq, hus⟩ := ha depth stop k ts _ hdepth h
  obtain ⟨stop₂, k₂, vs, heq', hvs⟩ := hb depth stop₁ k₁ us _ hdepth hus
  exact ⟨stop₂, k₂, vs, heq.trans heq', hvs⟩

/-- A mark that is no bracket. -/
theorem cons (hopening : ∀ b, m.1.kind ≠ .opening b) (hclosing : ∀ b, m.1.kind ≠ .closing b) (h : PassedOver as) :
    PassedOver (m :: as) := by
  intro depth stop k ts more hdepth hts
  obtain ⟨k', us, heq, hus, hm⟩ := skipGroup_mark hts depth stop
  obtain ⟨stop', k'', vs, heq', hvs⟩ := h depth m.1.span.stop k' us more hdepth hus
  refine ⟨stop', k'', vs, ?_, hvs⟩
  rw [heq, ← heq', skipGroup, hm]
  cases hk : m.1.kind with
  | opening b => exact absurd hk (hopening b)
  | closing b => exact absurd hk (hclosing b)
  | _ => rfl

/-- Marks between brackets: the first one opens a bracket more, the last one closes it. -/
theorem bracket (hopener : opener.1.kind = .opening b) (hcloser : closer.1.kind = .closing b') (h : PassedOver as) :
    PassedOver (opener :: (as ++ [closer])) := by
  intro depth stop k ts more hdepth hts
  rw [List.cons_append, List.append_assoc] at hts
  obtain ⟨k₁, us, hopen, hus, htrivia⟩ := skipGroup_mark hts depth stop
  obtain ⟨stop₂, k₂, vs, hinside, hvs⟩ := h (depth + 1) opener.1.span.stop k₁ us _ (Nat.succ_pos _) hus
  obtain ⟨k₃, ws, hclose, hws, htrivia'⟩ := skipGroup_mark hvs (depth + 1) stop₂
  refine ⟨closer.1.span.stop, k₃, ws, ?_, hws⟩
  rw [hopen, skipGroup, htrivia]
  simp only [hopener, Bool.false_eq_true, if_false]
  rw [hinside, hclose, skipGroup, htrivia']
  simp only [hcloser, Bool.false_eq_true, if_false, Nat.add_sub_cancel, if_neg (show ¬ depth + 1 ≤ 1 by omega)]

end PassedOver

/-- **A container is passed over up to the bracket that closes it.** -/
theorem skipGroup_container {k : Nat} {ts : List Token} {opener closer : Mark} {body more : List Mark} {b b' : Bracket}
    (h : marks k ts = opener :: (body ++ [closer]) ++ more) (hopener : opener.1.kind = .opening b)
    (hcloser : closer.1.kind = .closing b') (hbody : PassedOver body) (stop : Nat) :
    ∃ k' us, skipGroup 0 stop ts = ⟨us, closer.1.span.stop⟩ ∧ marks k' us = more := by
  rw [List.cons_append, List.append_assoc] at h
  obtain ⟨k₁, us, hopen, hus, htrivia⟩ := skipGroup_mark h 0 stop
  obtain ⟨stop₂, k₂, vs, hinside, hvs⟩ := hbody 1 opener.1.span.stop k₁ us _ Nat.one_pos hus
  obtain ⟨k₃, ws, hclose, hws, htrivia'⟩ := skipGroup_mark hvs 1 stop₂
  refine ⟨k₃, ws, ?_, hws⟩
  rw [hopen, skipGroup, htrivia]
  simp only [hopener, Bool.false_eq_true, if_false, Nat.zero_add]
  rw [hinside, hclose, skipGroup, htrivia']
  simp only [hcloser, Bool.false_eq_true, if_false, Nat.le_refl, if_true]

/-! ## Reading -/

/-- The marks of a container that is written as the piece: inside its brackets, every bracket is closed again. -/
inductive Enclosed (text piece : List Char) : List Mark → Prop where
  | intro {opener closer : Mark} {body : List Mark} {b b' : Bracket} (hopener : opener.1.kind = .opening b)
      (hcloser : closer.1.kind = .closing b') (hbody : PassedOver body)
      (hstands : StandsAt text piece opener.1.span.start closer.1.span.stop) :
      Enclosed text piece (opener :: (body ++ [closer]))

theorem Enclosed.passedOver {text piece : List Char} {ms : List Mark} (h : Enclosed text piece ms) :
    PassedOver ms := by
  cases h with
  | intro hopener hcloser hbody => exact .bracket hopener hcloser hbody

/-- What stands for a container that was passed over: its text, and that it is too deep. -/
def unread (text : String) : Element := .leaf { Info.blank (some .tooDeep) with source := text } .unknown

theorem StandsAt.slice {text part : List Char} {start stop : Nat} (h : StandsAt text part start stop) :
    (Source.whole text).slice ⟨start, stop⟩ = String.ofList part := by
  obtain ⟨before, after, rfl, rfl, rfl⟩ := h
  exact slice_whole before part after

/-- Every bracket opens a container. -/
theorem opens?_opening {t : Token} {b : Bracket} (h : t.kind = .opening b) (ts : List Token) :
    ∃ g, opens? (t :: ts) = some g := by
  cases b with
  | round => exact ⟨.tuple, by simp only [opens?, h]⟩
  | square => exact ⟨.array, by simp only [opens?, h]⟩
  | curly => exact ⟨.json, by simp only [opens?, h]⟩

/-- **Without a level left, a container is read as one element with its text**, and nothing of what follows is lost. -/
theorem reads_tooDeep {catalog : Catalog} {text piece : List Char} {c : Cursor} {ms more : List Mark}
    (h : Enclosed text piece ms) (hs : Sees c (ms ++ more)) :
    Reads (operand catalog 0 (.whole text) true) c (unread (String.ofList piece)) more := by
  obtain @⟨opener, closer, body, b, b', hopener, hcloser, hbody, hstands⟩ := h
  obtain ⟨us, hrest, -, -⟩ := Sees.head hs
  obtain ⟨k, hmarks⟩ := hs.skipTrivia true
  obtain ⟨g, hg⟩ := opens?_opening hopener us
  obtain ⟨k', vs, hskip, hvs⟩ := skipGroup_container hmarks hopener hcloser hbody (c.skipTrivia true).lastStop
  rw [← hrest] at hg
  have hposition : (c.skipTrivia true).position (.whole text) = opener.1.span.start := by
    simp only [Cursor.position, hrest, List.head?_cons, Option.map_some, Option.getD_some]
  have hslice := hstands.slice
  rw [Source.slice] at hslice
  rw [Reads, operand_tooDeep hg]
  simp only [tooDeep, hskip, hposition]
  refine ⟨?_, k', hvs⟩
  simp only [Element.relabel, Relabel.erase, if_true, Source.info, Place.within, hslice, unread, Info.blank]

/-! ## Written pieces -/

section Written

variable {text : List Char}

/-- The marks of a leaf are no brackets. -/
theorem Derives.passedOver {Block : Nat → List Mark → Element → Prop} {n : Nat} {ms : List Mark} {l : Leaf}
    (hBlock : LawfulBlock Block) (h : Derives Block .first n ms (literal l)) : PassedOver ms := by
  generalize he : literal l = e at h
  cases h with
  | operand h =>
    cases h with
    | string hk | number hk | boolean hk | ident hk => exact .cons (by simp [hk]) (by simp [hk]) .nil
    | reference hbar hname hclose =>
      refine .cons (by simp [hbar]) (by simp [hbar]) (.cons ?_ ?_ (.cons (by simp [hclose]) (by simp [hclose]) .nil))
      · rintro b hb
        rw [hb] at hname
        cases hname
      · rintro b hb
        rw [hb] at hname
        cases hname
    | tuple | array | json => cases he
    | block h =>
      obtain ⟨commands, raw, rfl⟩ := hBlock.tree h
      cases he
  | negative hsign hnumber =>
    exact .cons (by simp [hsign]) (by simp [hsign]) (.cons (by simp [hnumber]) (by simp [hnumber]) .nil)

/-- Lists of pieces in which every bracket is closed. -/
theorem writes_passedOver_list {pieces : List (List Char)} (h : ∀ p ∈ pieces, Writes text p PassedOver) :
    Writes text ([',', ' '].intercalate pieces) PassedOver := by
  induction pieces with
  | nil => exact writes_nil.mono fun ms hms => hms ▸ .nil
  | cons p pieces ih =>
    obtain ⟨hp, hpieces⟩ := List.forall_mem_cons.mp h
    cases pieces with
    | nil => rwa [List.intercalate_singleton]
    | cons q pieces =>
      rw [List.intercalate_cons_cons, List.append_assoc]
      refine (hp.append separates_comma (ih hpieces)).mono fun ms hms => ?_
      obtain ⟨as, comma, bs, rfl, hcomma, has, hbs⟩ := hms
      exact has.append (hbs.cons (by simp [hcomma]) (by simp [hcomma]))

theorem writes_enclosed {inside : List Char} {b : Bracket} {o c : Char}
    (ho : o ∈ punctuation ∧ (markLexeme o none).kind = .opening b)
    (hc : c ∈ punctuation ∧ (markLexeme c none).kind = .closing b) (hstop : isStop c = true)
    (h : Writes text inside PassedOver) :
    Writes text (o :: (inside ++ [c])) (Enclosed text (o :: (inside ++ [c]))) := by
  refine (h.enclosed ho hc hstop).mono fun ms hms => ?_
  obtain ⟨opener, body, closer, rfl, hopener, hcloser, hbody, hstands⟩ := hms
  exact .intro hopener hcloser hbody hstands

/-- Wherever the text of the element stands, it has the marks of a container that can be passed over. -/
def Passable (text : List Char) (e : Element) : Prop := Writes text e.text.toList (Enclosed text e.text.toList)

section Containers

variable {items : List Element}

theorem passable_tuple (i : Info) (trailing : Bool) (h : ∀ e ∈ items, Writes text e.text.toList PassedOver) :
    Passable text (.tuple i items trailing) := by
  have hitems := writes_passedOver_list (List.forall_mem_map.mpr h)
  by_cases htrailing : (trailing && items.length == 1) = true
  · have htext : (Element.tuple i items trailing).text.toList =
        '(' :: ([',', ' '].intercalate (items.map fun e => e.text.toList) ++ [','] ++ [')']) := by
      simp [Element.text, htrailing, Function.comp_def]
    rw [Passable, htext]
    refine writes_enclosed (b := .round) ⟨by decide, rfl⟩ ⟨by decide, rfl⟩ (by decide) ?_
    refine hitems.trailing.mono fun ms hms => ?_
    obtain ⟨as, comma, rfl, hcomma, has⟩ := hms
    exact has.append (.cons (by simp [hcomma]) (by simp [hcomma]) .nil)
  · have htext : (Element.tuple i items trailing).text.toList =
        '(' :: ([',', ' '].intercalate (items.map fun e => e.text.toList) ++ [')']) := by
      simp [Element.text, htrailing, Function.comp_def]
    rw [Passable, htext]
    exact writes_enclosed (b := .round) ⟨by decide, rfl⟩ ⟨by decide, rfl⟩ (by decide) hitems

theorem passable_array (i : Info) (h : ∀ e ∈ items, Writes text e.text.toList PassedOver) :
    Passable text (.array i items) := by
  have htext : (Element.array i items).text.toList =
      '[' :: ([',', ' '].intercalate (items.map fun e => e.text.toList) ++ [']']) := by
    simp [Element.text, Function.comp_def]
  rw [Passable, htext]
  exact writes_enclosed (b := .square) ⟨by decide, rfl⟩ ⟨by decide, rfl⟩ (by decide)
    (writes_passedOver_list (List.forall_mem_map.mpr h))

/-- A dictionary, given by its keys and values. -/
theorem passable_json (i : Info) {members : List (Element × Element)}
    (hkeys : ∀ m ∈ members, Writes text m.1.text.toList PassedOver)
    (hvalues : ∀ m ∈ members, Writes text m.2.text.toList PassedOver) :
    Passable text (.json i (members.map fun m => .pair m.1 m.2)) := by
  have htext : (Element.json i (members.map fun m => .pair m.1 m.2)).text.toList =
      '{' :: ([',', ' '].intercalate (members.map fun m =>
        m.1.text.toList ++ ([':', ' '] ++ m.2.text.toList)) ++ ['}']) := by
    simp [Element.text, Entry.text, Function.comp_def]
  rw [Passable, htext]
  refine writes_enclosed (b := .curly) ⟨by decide, rfl⟩ ⟨by decide, rfl⟩ (by decide)
    (writes_passedOver_list (List.forall_mem_map.mpr fun m hm => ?_))
  refine ((hkeys m hm).append separates_colon (hvalues m hm)).mono fun ms hms => ?_
  obtain ⟨as, colon, bs, rfl, hcolon, has, hbs⟩ := hms
  exact has.append (hbs.cons (by simp [hcolon]) (by simp [hcolon]))

end Containers

end Written

end UiScript.Grammar
