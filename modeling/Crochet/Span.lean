import Crochet.Text.Bytes

/-! Byte ranges of a text. -/
namespace Crochet
open Text

structure Span where
  start : Nat
  stop : Nat
  deriving DecidableEq, Repr

namespace Span

def length (s : Span) : Nat := s.stop - s.start

def isEmpty (s : Span) : Bool := s.start == s.stop

def merge (a b : Span) : Span := ⟨min a.start b.start, max a.stop b.stop⟩

/-- The spanned text, cut off at the end of `source`; empty where the span splits a character. -/
def snippet (s : Span) (source : List Char) : List Char :=
  let stop := min s.stop (byteLength source)
  (sliceBytes? Char.utf8Size (min s.start stop) stop source).getD []

/-- Line and column of the start, both counted from 1, columns in characters. -/
def lineColumn (s : Span) (source : List Char) : Nat × Nat :=
  let before := fitBytes Char.utf8Size s.start source
  let line := before.reverse.takeWhile (· != '\n')
  (before.count '\n' + 1, line.length + 1)

def display (s : Span) : String := s!"{s.start}..{s.stop}"

end Span
end Crochet
