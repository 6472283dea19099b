/-
# Spans

A span is a half-open range of byte offsets into a source text.
-/
import PieSyntax.Text.Offset

namespace PieSyntax

/-- The bytes from `start` up to, but not including, `stop`. -/
structure Span where
  start : Nat
  stop : Nat
deriving DecidableEq

namespace Span

/-- The empty span at `offset`. -/
def point (offset : Nat) : Span := ⟨offset, offset⟩

/-- The number of bytes covered. -/
def length (s : Span) : Nat := s.stop - s.start

/-- Whether no byte is covered. -/
def isEmpty (s : Span) : Bool := s.start == s.stop

/-- The smallest span that covers both. -/
def join (s t : Span) : Span := ⟨min s.start t.start, max s.stop t.stop⟩

/-- The same span `n` bytes further on. -/
def shift (s : Span) (n : Nat) : Span := ⟨s.start + n, s.stop + n⟩

/-- The text covered, if both ends are boundaries of `source`. -/
def slice? (s : Span) (source : List Char) : Option (List Char) :=
  Text.slice? source s.start s.stop

/-- The line and the column where the span begins, if that is a boundary of `source`. -/
def lineColumn? (s : Span) (source : List Char) : Option (Nat × Nat) :=
  Text.lineColumnAt? source s.start

/-- The two offsets with two dots between them. -/
def render (s : Span) : List Char :=
  Nat.toDigits 10 s.start ++ ['.', '.'] ++ Nat.toDigits 10 s.stop

end Span

end PieSyntax
