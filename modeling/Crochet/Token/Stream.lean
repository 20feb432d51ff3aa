import Crochet.Token

/-! Tokens taken from a text one by one. The next one may be looked at before it is taken. -/
namespace Crochet.Token
open Text

/-- A place in a text. `ahead` is the token that has been looked at but not taken, or the end of the
text if that has been seen. -/
structure Stream where
  offset : Nat
  rest : List Char
  ahead : Option (Option Token) := none
  deriving DecidableEq, Repr

namespace Stream

def ofText (text : List Char) : Stream := ⟨0, text, none⟩

def pull (offset : Nat) (lead : List Char) : List Char → Option Token × Stream
  | [] => (none, ⟨offset, [], none⟩)
  | c :: cs =>
    if isSkipped c then pull (offset + c.utf8Size) (lead ++ [c]) cs
    else
      let (kind, n) := recognise c cs
      let lexeme := c :: cs.take n
      (some ⟨kind, lead, lexeme, offset⟩, ⟨offset + byteLength lexeme, cs.drop n, none⟩)

def next (s : Stream) : Option Token × Stream :=
  match s.ahead with
  | some token => (token, { s with ahead := none })
  | none => pull s.offset [] s.rest

def peek (s : Stream) : Option Token × Stream :=
  let (token, after) := s.next
  (token, { after with ahead := some token })

end Stream
end Crochet.Token
