/-!
# Spans

A half-open range of byte offsets in a text.
-/

namespace UiScript

/-- The bytes from `start` up to, and without, `stop`. -/
structure Span where
  start : Nat
  stop : Nat
deriving DecidableEq, Repr, Inhabited

namespace Span

/-- The least span that holds both. -/
def merge (a b : Span) : Span := ⟨min a.start b.start, max a.stop b.stop⟩

/-- The number of bytes; none if the ends are out of order. -/
def length (s : Span) : Nat := s.stop - s.start

/-- Whether the span holds no byte. -/
def isEmpty (s : Span) : Bool := s.length == 0

end Span

end UiScript
