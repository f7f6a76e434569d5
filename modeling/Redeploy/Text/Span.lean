set_option autoImplicit false

/-! # Spans

Where a piece of a script stands: its byte range, and the lines and columns of its two ends. Lines
count from 1 and columns from 0, and columns count bytes. -/

namespace Redeploy

/-- A place in a script. -/
structure Span where
  /-- Byte offset of the first byte. -/
  startByte : Nat
  /-- Byte offset past the last byte. -/
  endByte : Nat
  /-- Line of the first byte. -/
  startLine : Nat
  /-- Column of the first byte. -/
  startCol : Nat
  /-- Line of the end. -/
  endLine : Nat
  /-- Column of the end. -/
  endCol : Nat
  deriving DecidableEq, Repr, Inhabited

namespace Span

/-- The span of nothing: every number is zero. It marks an expression with no place in a script. -/
def zero : Span := ⟨0, 0, 0, 0, 0, 0⟩

/-- The number of bytes; zero if the ends are inverted. -/
def size (s : Span) : Nat :=
  s.endByte - s.startByte

/-- Whether the span has no bytes. -/
def isEmpty (s : Span) : Bool :=
  s.size == 0

/-- Whether every byte of the second span is one of the first. -/
def contains (s t : Span) : Bool :=
  s.startByte ≤ t.startByte && t.endByte ≤ s.endByte

/-- Whether the spans share a byte. Spans that only touch share none. -/
def overlaps (s t : Span) : Bool :=
  s.startByte < t.endByte && t.startByte < s.endByte

/-- The span from the start of one span to the end of another. -/
def upTo (s t : Span) : Span :=
  { s with endByte := t.endByte, endLine := t.endLine, endCol := t.endCol }

end Span

end Redeploy
