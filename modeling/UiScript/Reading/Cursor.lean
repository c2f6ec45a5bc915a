import UiScript.Element

/-!
# The cursor

Reading goes through the tokens of a range of a script from left to right. The cursor holds the tokens ahead and where
the last token that was read ends, comments and line ends left out; a span that is being read ends there.
-/

namespace UiScript.Reading

open Text

/-- The range that is being read: the whole text it is part of, where the range ends, and the line of its last token. -/
structure Source where
  text : List Char
  stop : Nat
  lastLine : Nat

/-- The tokens ahead, and the end of the last token read that is neither a comment nor a line end. -/
structure Cursor where
  rest : List Token
  lastStop : Nat

namespace Source

/-- The place of a span of the text, with a problem. -/
def info (s : Source) (span : Span) (line : Nat) (problem : Option Problem) : Info :=
  ⟨.within s.text span line, problem⟩

/-- The text of a span. -/
def slice (s : Source) (span : Span) : String := String.ofList (Text.slice s.text span.start span.stop)

end Source

/-- The place of a token, with a problem. -/
def tokenInfo (t : Token) (problem : Option Problem) : Info := ⟨⟨t.span, t.line, t.text⟩, problem⟩

/-- The line of the last token, or the given line if there is none. -/
def lastLineOf (first : Nat) (tokens : List Token) : Nat := (tokens.getLast?.map Token.line).getD first

/-- The end of the last token that is neither a comment nor a line end, or the given offset if there is none. -/
def lastStopOf : Nat → List Token → Nat
  | stop, [] => stop
  | stop, t :: ts => lastStopOf (if t.kind.isTrivia then stop else t.span.stop) ts

namespace Cursor

/-- The kind of the token ahead. -/
def kind? (c : Cursor) : Option TokenKind := c.rest.head?.map Token.kind

/-- The cursor after a token, of which the tokens `rest` follow. -/
def past (c : Cursor) (t : Token) (rest : List Token) : Cursor :=
  ⟨rest, if t.kind.isTrivia then c.lastStop else t.span.stop⟩

/-- The cursor before the first token of another kind than those of `p`. Only comments and line ends are passed over in
this way, so the end of the last token stays. -/
def skip (p : TokenKind → Bool) (c : Cursor) : Cursor := { c with rest := c.rest.dropWhile (p ·.kind) }

/-- Passes over comments and, where an element may run over several lines, line ends. -/
def skipTrivia (c : Cursor) (multiline : Bool) : Cursor :=
  c.skip fun k => k == .comment || (multiline && k == .newline)

/-- Passes over comments and line ends. -/
def skipBlank (c : Cursor) : Cursor := c.skip TokenKind.isTrivia

/-- Passes over comments. -/
def skipComments (c : Cursor) : Cursor := c.skip (· == .comment)

/-- Goes to the end of the line. -/
def skipLine (c : Cursor) : Cursor :=
  ⟨c.rest.dropWhile (·.kind != .newline), lastStopOf c.lastStop (c.rest.takeWhile (·.kind != .newline))⟩

/-- Where the token ahead starts, or where the range ends. -/
def position (c : Cursor) (s : Source) : Nat := (c.rest.head?.map (·.span.start)).getD s.stop

/-- The line of the token ahead, or the last line of the range. -/
def line (c : Cursor) (s : Source) : Nat := (c.rest.head?.map Token.line).getD s.lastLine

/-- An element of no width for one that is not there. -/
def missing (c : Cursor) (s : Source) (problem : Problem) : Element :=
  .leaf (s.info ⟨c.position s, c.position s⟩ (c.line s) (some problem)) .unknown

end Cursor

end UiScript.Reading
