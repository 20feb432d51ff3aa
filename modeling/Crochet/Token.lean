import Crochet.Bracket
import Crochet.Text.Word
import Crochet.Decimal.Read
import Crochet.Span

/-! Tokens of expanded notation. The longest token wins; spaces, tabs and carriage returns between
tokens are skipped, but each token remembers those before it. -/
namespace Crochet
open Text

inductive Token.Kind where
  | number (value : Float)
  | name
  | color (key : Nat)
  | turn
  | opens (b : Bracket)
  | closes (b : Bracket)
  | comma
  | newline
  | dot
  | address
  | colon
  | semicolon
  | plus
  | minus
  | bang
  | caret
  | tilde
  | percent
  | star
  | slash
  | invalid
  deriving DecidableEq, Repr

/-- `start` is the byte offset of the lexeme, `lead` the blanks skipped before it. -/
structure Token where
  kind : Token.Kind
  lead : List Char
  lexeme : List Char
  start : Nat
  deriving DecidableEq, Repr

namespace Token

def Kind.symbol : Kind → String
  | number _ => "number"
  | name => "name"
  | color _ => "COLOR:"
  | turn => "turn"
  | opens b => String.singleton b.opening
  | closes b => String.singleton b.closing
  | comma => ","
  | newline => "newline"
  | dot => "."
  | address => "@"
  | colon => ":"
  | semicolon => ";"
  | plus => "+"
  | minus => "-"
  | bang => "!"
  | caret => "^"
  | tilde => "~"
  | percent => "%"
  | star => "*"
  | slash => "/"
  | invalid => "invalid character"

def Kind.isOpen : Kind → Bool
  | opens _ => true
  | _ => false

def Kind.isClose : Kind → Bool
  | closes _ => true
  | _ => false

def Kind.isSeparator : Kind → Bool
  | comma => true
  | newline => true
  | _ => false

def stop (t : Token) : Nat := t.start + byteLength t.lexeme

def span (t : Token) : Span := ⟨t.start, t.stop⟩

def symbol (t : Token) : String := t.kind.symbol

def text (t : Token) : String := String.ofList t.lexeme

def padded (t : Token) : List Char := t.lead ++ t.lexeme

def isSkipped (c : Char) : Bool := c == ' ' || c == '\t' || c == '\r'

def markKind (c : Char) : Kind :=
  match Bracket.opened? c, Bracket.closed? c with
  | some b, _ => .opens b
  | none, some b => .closes b
  | none, none =>
    if c = ',' then .comma
    else if c = '\n' then .newline
    else if c = '.' then .dot
    else if c = '@' then .address
    else if c = ':' then .colon
    else if c = ';' then .semicolon
    else if c = '+' then .plus
    else if c = '-' then .minus
    else if c = '!' then .bang
    else if c = '^' then .caret
    else if c = '~' then .tilde
    else if c = '%' then .percent
    else if c = '*' then .star
    else if c = '/' then .slash
    else .invalid

def numberKind (literal : List Char) : Kind :=
  match Decimal.realOf literal with
  | .ok x => .number x
  | .error _ => .invalid

def colorKind (digits : List Char) : Kind :=
  match Decimal.below? Decimal.wordLimit digits with
  | some key => .color key
  | none => .invalid

def numberTail (cs : List Char) : Nat :=
  let (digits, rest) := runOf Char.isDigit cs
  match rest with
  | '.' :: more =>
    let fraction := more.takeWhile Char.isDigit
    if fraction.isEmpty then digits.length else digits.length + 1 + fraction.length
  | _ => digits.length

def recognise (c : Char) (cs : List Char) : Kind × Nat :=
  if c.isDigit then
    let n := numberTail cs
    (numberKind (c :: cs.take n), n)
  else if isNameStart c then
    let (tail, rest) := runOf isNameChar cs
    let word := c :: tail
    if word = "turn".toList then (.turn, tail.length)
    else if word = "COLOR".toList then match rest with
      | ':' :: more =>
        let key := more.takeWhile Char.isDigit
        if key.isEmpty then (.name, tail.length)
        else (colorKind key, tail.length + 1 + key.length)
      | _ => (.name, tail.length)
    else (.name, tail.length)
  else (markKind c, 0)

def scan (offset : Nat) (lead : List Char) : List Char → List Token
  | [] => []
  | c :: cs =>
    if isSkipped c then scan (offset + c.utf8Size) (lead ++ [c]) cs
    else
      let (kind, n) := recognise c cs
      let lexeme := c :: cs.take n
      ⟨kind, lead, lexeme, offset⟩ :: scan (offset + byteLength lexeme) [] (cs.drop n)
termination_by cs => cs.length
decreasing_by all_goals simp; try omega

def tokens (text : List Char) : List Token := scan 0 [] text

end Token
end Crochet
