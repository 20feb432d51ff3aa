import Crochet.Decimal.Shortest

/-! Doubles as decimal text.

`plain` always writes positions, never an exponent, and nothing after the point of a whole number.
It is the form of lengths and weights in specs, node names and messages. -/
namespace Crochet.Decimal

structure Scientific where
  digits : List Char
  power : Int
  deriving DecidableEq, Repr

def Digits.scientific (d : Digits) : Scientific :=
  let digits := Nat.toDigits 10 d.digits
  ⟨digits, d.scale + digits.length - 1⟩

def zeros (n : Nat) : List Char := List.replicate n '0'

def Scientific.positional (s : Scientific) : List Char × List Char :=
  if s.power < 0 then (['0'], zeros (-s.power - 1).toNat ++ s.digits)
  else
    let whole := s.power.toNat + 1
    (s.digits.take whole ++ zeros (whole - s.digits.length), s.digits.drop whole)

structure Layout where
  tie : Tie
  finite : Scientific → List Char
  zero : List Char
  infinity : List Char
  nan : List Char
  signed : Bool

def Layout.chars (layout : Layout) (x : Float) : List Char :=
  let sign (negative : Bool) := if negative then ['-'] else []
  match binary x with
  | .nan => layout.nan
  | .infinite negative => (if layout.signed then sign negative else []) ++ layout.infinity
  | .finite negative 0 _ => sign negative ++ layout.zero
  | .finite negative mantissa exponent =>
    sign negative ++ layout.finite (shortest layout.tie mantissa exponent).scientific

def plainLayout : Layout where
  tie := .up
  finite s :=
    let (whole, fraction) := s.positional
    if fraction.isEmpty then whole else whole ++ '.' :: fraction
  zero := ['0']
  infinity := "inf".toList
  nan := "NaN".toList
  signed := true

def plain (x : Float) : String := String.ofList (plainLayout.chars x)

end Crochet.Decimal
