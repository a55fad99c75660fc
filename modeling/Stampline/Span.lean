/-!
# Spans

A span says where a piece of a program stands in its source text. Lines count from one and columns
are byte offsets from zero within their line, so a span is independent of how the text is decoded.
-/

namespace Stampline

/-- A stretch of source text, from the start of its first byte to the end of its last. -/
structure Span where
  /-- The line of the first byte, counted from one. -/
  line : Nat
  /-- The byte offset of the first byte in its line. -/
  col : Nat
  /-- The line in which the stretch ends. -/
  endLine : Nat
  /-- The byte offset just after the last byte, in its line. -/
  endCol : Nat
deriving DecidableEq, Repr, Inhabited

namespace Span

/-- The empty span at the very beginning of a text. It stands in wherever a node has no located
ancestor to take a span from. -/
def root : Span := ⟨1, 0, 1, 0⟩

/-- The stretch that begins where `a` begins and ends where `b` ends. -/
def through (a b : Span) : Span := ⟨a.line, a.col, b.endLine, b.endCol⟩

/-- How a position is written in a message: line and column of the start. -/
def text (s : Span) : String := s!"{s.line}:{s.col}"

/-- The stretch over two spans of which either may be missing. -/
def join : Option Span → Option Span → Option Span
  | some a, some b => some (a.through b)
  | some a, none => some a
  | none, b => b

end Span

end Stampline
