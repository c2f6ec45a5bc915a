import UiScript.Proofs.Element.Report
import UiScript.Proofs.Scan.Steps

/-!
# Places in a text

The place of an element or a command is exact (`Place.Exact`) if its span is that of a part of the text, its line is the
line on which this part starts, and its source is this part. Spans are laid out between two offsets (`Laid`) if they lie
between them and follow each other. An element is placed (`Element.Placed`) if its place is exact and, unless something
fatal is wrong, its parts are laid out in it; so is a command with its argument (`Command.Placed`).

The tokens of a text are exact (`scan_exact`). From the start of an exact place to a later boundary between two
characters the place is exact again (`Place.Exact.upTo`), and this is how the readers make places.
-/

namespace UiScript

open Text

/-! ## Exact places -/

/-- The offset lies between two characters of the text, or at one of its ends. -/
def Boundary (text : List Char) (offset : Nat) : Prop := ∃ before after, text = before ++ after ∧ offset = width before

/-- The place is that of a part of the text: its span are the bytes of that part, its line is one more than the number
of line ends before the part, and its source is the part itself. -/
def Place.Exact (text : List Char) (p : Place) : Prop :=
  ∃ before part after, text = before ++ part ++ after ∧
    p = ⟨⟨width before, width before + width part⟩, 1 + newlines before, String.ofList part⟩

/-- The place of a token. -/
def Token.place (t : Token) : Place := ⟨t.span, t.line, t.text⟩

/-- The place of an element. -/
def Element.place (e : Element) : Place := e.info.toPlace

/-- The place of a command. -/
def Command.place (c : Command) : Place := ⟨c.head.span, c.head.line, c.head.text⟩

section Exact

variable {text : List Char} {p : Place} {t : Token}

theorem Place.Exact.start (h : p.Exact text) : Boundary text p.span.start := by
  obtain ⟨before, part, after, htext, rfl⟩ := h
  exact ⟨before, part ++ after, by rw [htext, List.append_assoc], rfl⟩

theorem Place.Exact.stop (h : p.Exact text) : Boundary text p.span.stop := by
  obtain ⟨before, part, after, htext, rfl⟩ := h
  exact ⟨before ++ part, after, htext, (width_append before part).symm⟩

theorem Place.Exact.le (h : p.Exact text) : p.span.start ≤ p.span.stop := by
  obtain ⟨before, part, after, -, rfl⟩ := h
  exact Nat.le_add_right _ _

theorem eq_nil_of_width {cs : List Char} (h : width cs = 0) : cs = [] := by
  cases cs with
  | nil => rfl
  | cons c cs =>
    have hpos := c.utf8Size_pos
    rw [width_cons] at h
    omega

/-- Of two cuts of a text, the one with fewer bytes before it comes first. -/
theorem exists_between {before rest before' rest' : List Char} (h : before ++ rest = before' ++ rest')
    (hle : width before ≤ width before') : ∃ part, before' = before ++ part := by
  rcases List.append_eq_append_iff.mp h with ⟨part, hpart, -⟩ | ⟨part, hpart, -⟩
  · exact ⟨part, hpart⟩
  · rw [hpart, width_append] at hle
    obtain rfl := eq_nil_of_width (by omega : width part = 0)
    exact ⟨[], by rw [hpart, List.append_nil, List.append_nil]⟩

/-- **From an exact place on**: from where it starts up to a later boundary the place is exact. -/
theorem Place.Exact.upTo (h : p.Exact text) {stop : Nat} (hstop : Boundary text stop) (hle : p.span.start ≤ stop) :
    (Place.within text ⟨p.span.start, stop⟩ p.line).Exact text := by
  obtain ⟨before, part, after, htext, rfl⟩ := h
  obtain ⟨before', after', htext', rfl⟩ := hstop
  rw [List.append_assoc] at htext
  obtain ⟨part', rfl⟩ := exists_between (htext.symm.trans htext') hle
  refine ⟨before, part', after', htext', ?_⟩
  have hslice := slice?_append before part' after'
  rw [← htext', ← width_append] at hslice
  simp only [Place.within, slice, width_append] at hslice ⊢
  rw [hslice]
  rfl

/-- The lines of a text are counted from one to one more than the number of its line ends. -/
theorem Place.Exact.line_le (h : p.Exact text) : 1 ≤ p.line ∧ p.line ≤ 1 + newlines text := by
  obtain ⟨before, part, after, rfl, rfl⟩ := h
  refine ⟨Nat.le_add_right _ _, Nat.add_le_add_left ?_ 1⟩
  rw [newlines_append, newlines_append, Nat.add_assoc]
  exact Nat.le_add_right _ _

/-- What starts later stands on no earlier line. -/
theorem Place.Exact.line_mono {q : Place} (hp : p.Exact text) (hq : q.Exact text) (hle : p.span.start ≤ q.span.start) :
    p.line ≤ q.line := by
  obtain ⟨before, part, after, htext, rfl⟩ := hp
  obtain ⟨before', part', after', htext', rfl⟩ := hq
  rw [htext, List.append_assoc, List.append_assoc] at htext'
  obtain ⟨between, rfl⟩ := exists_between htext' hle
  refine Nat.add_le_add_left ?_ 1
  rw [newlines_append]
  exact Nat.le_add_right _ _

theorem scanFrom_exact (offset line : Nat) (r : Reference) (cs : List Char) : ∀ t ∈ scanFrom offset line r 0 cs,
    ∃ before part after, cs = before ++ part ++ after ∧
      t.place = ⟨⟨offset + width before, offset + width before + width part⟩, line + newlines before,
        String.ofList part⟩ := by
  intro t ht
  obtain ⟨ts₁, ts₂, heq⟩ := List.append_of_mem ht
  obtain ⟨as, c, bs, r', x, rfl, -, rfl, -⟩ := scanFrom_suffix offset line r cs ts₁ t ts₂ heq
  exact ⟨as, c :: bs.take x.extra, bs.drop x.extra, by simp, rfl⟩

/-- **The places of tokens are exact.** -/
theorem scan_exact (ht : t ∈ scan text) : t.place.Exact text := by
  rw [scan_eq] at ht
  obtain ⟨before, part, after, htext, hplace⟩ := scanFrom_exact 0 1 .outside text t ht
  rw [Nat.zero_add] at hplace
  exact ⟨before, part, after, htext, hplace⟩

end Exact

/-! ## Spans one after the other -/

/-- The spans lie between two offsets, and each one ends before the next one starts. -/
structure Laid (start stop : Nat) (spans : List Span) : Prop where
  inside : ∀ s ∈ spans, start ≤ s.start ∧ s.stop ≤ stop
  apart : spans.Pairwise fun a b => a.stop ≤ b.start

namespace Laid

variable {start stop middle : Nat} {span : Span} {spans others : List Span}

theorem nil (start stop : Nat) : Laid start stop [] := ⟨by simp, .nil⟩

theorem mono (h : Laid middle stop spans) (hle : start ≤ middle) {stop' : Nat} (hstop : stop ≤ stop') :
    Laid start stop' spans := by
  refine ⟨fun s hs => ?_, h.apart⟩
  obtain ⟨h₁, h₂⟩ := h.inside s hs
  exact ⟨Nat.le_trans hle h₁, Nat.le_trans h₂ hstop⟩

/-- Spans that are laid out up to an offset, and others from there on. -/
theorem append (h : Laid start middle spans) (h' : Laid middle stop others) (hle : start ≤ middle)
    (hle' : middle ≤ stop) : Laid start stop (spans ++ others) := by
  refine ⟨fun s hs => ?_, List.pairwise_append.mpr ⟨h.apart, h'.apart, fun a ha b hb => ?_⟩⟩
  · rcases List.mem_append.mp hs with hs | hs
    · exact (h.mono (Nat.le_refl _) hle').inside s hs
    · exact (h'.mono hle (Nat.le_refl _)).inside s hs
  · exact Nat.le_trans (h.inside a ha).2 (h'.inside b hb).1

theorem singleton (hstart : start ≤ span.start) (hstop : span.stop ≤ stop) : Laid start stop [span] :=
  ⟨by simpa using ⟨hstart, hstop⟩, List.pairwise_singleton _ _⟩

/-- One more span in front, which ends before the others start. -/
theorem cons (hstart : start ≤ span.start) (hstop : span.stop ≤ middle) (h : Laid middle stop spans)
    (hle : start ≤ middle) (hle' : middle ≤ stop) : Laid start stop (span :: spans) :=
  (singleton hstart hstop).append h hle hle'

end Laid

/-! ## Trees -/

/-- The argument of a command lies in the command. -/
def Command.Encloses (c : Command) : Prop :=
  ∀ a, c.argument? = some a → c.place.span.start ≤ a.place.span.start ∧ a.place.span.stop ≤ c.place.span.stop

/-- The parts of an element, and the commands of a block, lie in it one after the other. -/
structure Element.Encloses (e : Element) : Prop where
  children : Laid e.place.span.start e.place.span.stop (e.children.map (·.place.span))
  commands : ∀ i commands raw, e = .block i commands raw →
    Laid e.place.span.start e.place.span.stop (commands.map (·.place.span))

/-- The place of the command is exact and, unless something fatal is wrong, its argument lies in it. -/
structure Command.Placed (text : List Char) (c : Command) : Prop where
  exact : c.place.Exact text
  encloses : c.hasFatal = false → c.Encloses

/-- The place of the element is exact and, unless something fatal is wrong, its parts and commands lie in it. The
commands of a block are placed themselves. -/
structure Element.Placed (text : List Char) (e : Element) : Prop where
  exact : e.place.Exact text
  encloses : e.hasFatal = false → e.Encloses
  commands : ∀ i commands raw, e = .block i commands raw → ∀ c ∈ commands, c.Placed text

section Placed

variable {text : List Char} {e : Element}

@[simp] theorem Element.place_noting (e : Element) (p : Option Problem) : (e.noting p).place = e.place := by
  cases e <;> rfl

theorem Element.ne_block_of_kind (h : e.kind ≠ .block) (i : Info) (commands : List Command) (raw : String) :
    e ≠ .block i commands raw := by
  rintro rfl
  exact h rfl

/-- A tree that is not a block is placed by its parts. -/
theorem Element.placed_of_children (hexact : e.place.Exact text) (hblock : e.kind ≠ .block)
    (hchildren : e.hasFatal = false →
      Laid e.place.span.start e.place.span.stop (e.children.map (·.place.span))) : e.Placed text where
  exact := hexact
  encloses hfatal := ⟨hchildren hfatal, fun i _ _ heq => absurd heq (Element.ne_block_of_kind hblock i _ _)⟩
  commands i _ _ heq := absurd heq (Element.ne_block_of_kind hblock i _ _)

theorem Element.placed_leaf {i : Info} (h : i.toPlace.Exact text) (l : Leaf) :
    (Element.leaf i l).Every true (Element.Placed text) :=
  Element.every_leaf (Element.placed_of_children h l.kind_ne_block fun _ => Laid.nil _ _)

/-- A problem that is not fatal leaves the tree placed. -/
theorem Element.Placed.noting (h : e.Placed text) {p : Option Problem} (hp : isFatalProblem p = false) :
    (e.noting p).Placed text := by
  have hblock : ∀ i commands raw, e.noting p = .block i commands raw → ∃ j, e = .block j commands raw := by
    intro i commands raw heq
    cases e <;> cases heq
    exact ⟨_, rfl⟩
  refine ⟨by simpa using h.exact, fun hfatal => ?_, fun i commands raw heq => ?_⟩
  · rw [Element.hasFatal_noting, hp, Bool.or_false] at hfatal
    obtain ⟨hchildren, hcommands⟩ := h.encloses hfatal
    refine ⟨by simpa using hchildren, fun i commands raw heq => ?_⟩
    obtain ⟨j, hj⟩ := hblock i commands raw heq
    simpa using hcommands j commands raw hj
  · obtain ⟨j, hj⟩ := hblock i commands raw heq
    exact h.commands j commands raw hj

end Placed

end UiScript
