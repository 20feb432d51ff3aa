import Crochet.Decimal.Binary
import Crochet.Text.Split

/-! Reading numbers.

A real number is an optional sign and then `inf`, `infinity`, `nan` in any case, or digits with an
optional point and an optional exponent, at least one digit standing beside the point. -/
namespace Crochet.Decimal
open Crochet.Text

inductive RealFault where
  | empty
  | invalid
  deriving DecidableEq, Repr

def RealFault.message : RealFault → String
  | .empty => "cannot parse float from empty string"
  | .invalid => "invalid float literal"

def digitsValue (cs : List Char) : Nat := cs.foldl (fun n c => 10 * n + (c.toNat - 48)) 0

/-- `n · 10 ^ e` rounded to the nearest double. Powers far outside the range of doubles are
settled by the number of digits alone. -/
def scaled (digits : List Char) (e : Int) : Float :=
  let n := digitsValue digits
  if n = 0 then 0.0
  else
    let magnitude : Int := (Nat.toDigits 10 n).length + e
    if 310 < magnitude then 1.0 / 0.0
    else if magnitude < -330 then 0.0
    else if 0 ≤ e then Float.ofScientific n false e.toNat
    else Float.ofScientific n true (-e).toNat

def exponent? : List Char → Option Int
  | [] => some 0
  | mark :: cs =>
    if mark == 'e' || mark == 'E' then
      let (negative, digits) : Bool × List Char := match cs with
        | '+' :: ds => (false, ds)
        | '-' :: ds => (true, ds)
        | ds => (false, ds)
      if digits.isEmpty || !digits.all Char.isDigit then none
      else some (if negative then -(digitsValue digits : Int) else digitsValue digits)
    else none

def unsigned? (cs : List Char) : Option Float :=
  let (whole, rest) := runOf Char.isDigit cs
  let (fraction, rest) := match rest with
    | '.' :: more => runOf Char.isDigit more
    | more => ([], more)
  if whole.isEmpty && fraction.isEmpty then none
  else (exponent? rest).map fun e => scaled (whole ++ fraction) (e - fraction.length)

def realOf (cs : List Char) : Except RealFault Float :=
  let magnitude? (cs : List Char) : Option Float :=
    let word := cs.map Char.toLower
    if word = "inf".toList || word = "infinity".toList then some (1.0 / 0.0)
    else if word = "nan".toList then some (0.0 / 0.0)
    else unsigned? cs
  let signed : Option Float := match cs with
    | '-' :: rest => (magnitude? rest).map fun x => -x
    | '+' :: rest => magnitude? rest
    | rest => magnitude? rest
  if cs.isEmpty then .error .empty
  else match signed with
    | some x => .ok x
    | none => .error .invalid

def wordLimit : Nat := Nat.pow 2 64

def tooLarge : String := "number too large to fit in target type"

def below? (limit : Nat) (digits : List Char) : Option Nat :=
  let n := digitsValue digits
  if n < limit then some n else none

def integer? (cs : List Char) : Option Int :=
  let (negative, digits) : Bool × List Char := match cs with
    | '+' :: ds => (false, ds)
    | '-' :: ds => (true, ds)
    | ds => (false, ds)
  if digits.isEmpty || !digits.all Char.isDigit then none
  else
    let n : Int := if negative then -(digitsValue digits : Int) else digitsValue digits
    if leastWord ≤ n ∧ n ≤ greatestWord then some n else none

end Crochet.Decimal
