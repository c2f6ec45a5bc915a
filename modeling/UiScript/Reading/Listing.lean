import UiScript.Element.Text
import UiScript.Reading.Chain

/-!
# Lists between brackets

Tuples, arrays and dictionaries share one form: items with commas between them, up to the closing bracket. A misplaced
mark is passed over and noted on the whole list; only the end of the text stops the reading early.
-/

namespace UiScript.Reading

/-- An item as read: its value, the problem that it makes for the list, and the cursor after it. -/
structure Item (α : Type) where
  value : α
  problem : Option Problem
  cursor : Cursor

/-- The rest of a list: its items, whether an item could still follow the last of them, its problem, its end, and the
cursor after it. -/
structure Listing (α : Type) where
  items : List α
  awaiting : Bool
  problem : Option Problem
  stop : Nat
  cursor : Cursor

/-- The list with a problem that was found before it. -/
def Listing.after {α : Type} (problem : Option Problem) (l : Listing α) : Listing α :=
  { l with problem := Problem.note problem l.problem }

/-- The list with one more item in front. -/
def Listing.cons {α : Type} (a : α) (l : Listing α) : Listing α := { l with items := a :: l.items }

/-- Whether a list ends with a comma after its last item. -/
def Listing.trailingComma {α : Type} (l : Listing α) : Bool := l.awaiting && !l.items.isEmpty

/-- Reads the items of a group up to its closing bracket. The flag says whether an item can come next without a comma
before it. -/
def listing {α : Type} (s : Source) (g : Group) (item : Cursor → Item α) (awaiting : Bool) (c : Cursor) : Listing α :=
  match h : (c.skipTrivia true).rest with
  | [] => ⟨[], awaiting, some (.unclosed g), s.stop, c.skipTrivia true⟩
  | t :: ts =>
    let ahead := c.skipTrivia true
    have hle : ts.length < c.rest.length := by
      have := c.length_rest_skip_le fun k => k == .comment || (true && k == .newline)
      have hlen : (c.skipTrivia true).rest.length = ts.length + 1 := by rw [h]; rfl
      unfold Cursor.skipTrivia at hlen
      omega
    if t.kind = .closing g.bracket then ⟨[], awaiting, none, t.span.stop, ahead.past t ts⟩
    else if t.kind = .comma then
      (listing s g item true (ahead.past t ts)).after (if awaiting then some (.strayInside t.describe g) else none)
    else if t.kind.isCloser || t.kind == .colon then
      (listing s g item awaiting (ahead.past t ts)).after (some (.strayInside t.describe g))
    else
      let read := item ahead
      let problem := Problem.note (if awaiting then none else some (.separatorMissing g t.describe)) read.problem
      if read.cursor.rest.length < c.rest.length then
        ((listing s g item false read.cursor).cons read.value).after problem
      else ⟨[read.value], false, problem, s.stop, read.cursor⟩
termination_by c.rest.length
decreasing_by all_goals assumption

/-! ## Tuples and arrays -/

/-- Reads an element as an item of a list. -/
def elementItem (element : Cursor → Element × Cursor) (c : Cursor) : Item Element :=
  let (e, after) := element c
  ⟨e, none, after⟩

/-- Reads the tuple that the token ahead opens. -/
def tuple (s : Source) (element : Cursor → Element × Cursor) (t : Token) (c : Cursor) : Element × Cursor :=
  let l := listing s .tuple (elementItem element) true c
  (.tuple (s.info ⟨t.span.start, l.stop⟩ t.line l.problem) l.items l.trailingComma, l.cursor)

/-- Reads the array that the token ahead opens. Its items have to be of one kind. -/
def array (s : Source) (element : Cursor → Element × Cursor) (t : Token) (c : Cursor) : Element × Cursor :=
  let l := listing s .array (elementItem element) true c
  let problem := Problem.note l.problem (mixedKinds? l.items)
  (.array (s.info ⟨t.span.start, l.stop⟩ t.line problem) l.items, l.cursor)

/-! ## Dictionaries -/

/-- The problem of a key that is neither a string nor a variable. A key that has a problem gets no other. -/
def keyProblem? (key : Element) : Option Problem :=
  if key.problem.isSome then none
  else
    match key.kind with
    | .string | .reference => none
    | kind => some (.keyKind kind key.text)

/-- Reads a key, a colon and a value. -/
def entry (element : Cursor → Element × Cursor) (c : Cursor) : Item Entry :=
  let (found, after) := element c
  let key := found.noting (keyProblem? found)
  let ahead := after.skipTrivia true
  match ahead.rest with
  | [] => ⟨.bare key, some (.colonMissing key.text), ahead⟩
  | t :: ts =>
    if t.kind = .colon then
      let inside := (ahead.past t ts).skipTrivia true
      match inside.kind? with
      | none | some .comma | some (.closing .curly) => ⟨.bare key, some (.valueMissing key.text), inside⟩
      | some _ =>
        let (value, rest) := element inside
        ⟨.pair key value, none, rest⟩
    else ⟨.bare key, some (.colonMissing key.text), ahead⟩

/-- Reads the dictionary that the token ahead opens. -/
def json (s : Source) (element : Cursor → Element × Cursor) (t : Token) (c : Cursor) : Element × Cursor :=
  let l := listing s .json (entry element) true c
  (.json (s.info ⟨t.span.start, l.stop⟩ t.line l.problem) l.items, l.cursor)

end UiScript.Reading
