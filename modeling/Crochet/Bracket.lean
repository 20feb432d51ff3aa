/-! The three pairs of brackets. -/
namespace Crochet

inductive Bracket where
  | square
  | round
  | curly
  deriving DecidableEq, Repr

def Bracket.opening : Bracket → Char
  | square => '['
  | round => '('
  | curly => '\x7b'

def Bracket.closing : Bracket → Char
  | square => ']'
  | round => ')'
  | curly => '\x7d'

def Bracket.opened? (c : Char) : Option Bracket :=
  if c = '[' then some square
  else if c = '(' then some round
  else if c = '\x7b' then some curly
  else none

def Bracket.closed? (c : Char) : Option Bracket :=
  if c = ']' then some square
  else if c = ')' then some round
  else if c = '\x7d' then some curly
  else none

def isOpening (c : Char) : Bool := (Bracket.opened? c).isSome

def isClosing (c : Char) : Bool := (Bracket.closed? c).isSome

end Crochet
