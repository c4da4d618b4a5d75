/-!
# Source positions

A span is a stretch of query text in bytes. `merge` gives the smallest span that covers two
others. Offsets are 32-bit words, so an end past the last word wraps.
-/
namespace SqlResolution

/-- A stretch of query text: the byte it starts at and its length in bytes. -/
structure Span where
  offset : UInt32
  length : UInt32
  deriving DecidableEq, Repr, Inhabited

namespace Span

/-- The span of a node that has no position. -/
def none : Span := ⟨0, 0⟩

/-- The first byte after the span. -/
def stop (s : Span) : UInt32 := s.offset + s.length

def isEmpty (s : Span) : Bool := s.length == 0

/-- The smallest span that covers both. -/
def merge (s t : Span) : Span :=
  let start := min s.offset t.offset
  ⟨start, max s.stop t.stop - start⟩

/-- A message names a span by its offset alone. -/
def text (s : Span) : String := s.offset.toNat.repr

/-- Both ends of the span. -/
def rangeText (s : Span) : String := s.offset.toNat.repr ++ ".." ++ s.stop.toNat.repr

end Span
end SqlResolution
