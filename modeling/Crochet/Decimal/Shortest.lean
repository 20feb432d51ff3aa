import Crochet.Decimal.Binary

/-! The fewest decimal digits that read back as a double.

A double stands for every real that rounds to it: an interval whose ends belong to it when its
mantissa is even. On the grid of decimals with one digit, then two, and so on, the two neighbours
of the value are tested; the first grid with a hit wins, of two hits the nearer. -/
namespace Crochet.Decimal

inductive Tie where
  | up
  | even
  deriving DecidableEq, Repr

structure Digits where
  digits : Nat
  scale : Int
  deriving DecidableEq, Repr

structure Ratio where
  numerator : Nat
  denominator : Nat

def Ratio.binary (n : Nat) (e : Int) : Ratio :=
  if 0 ≤ e then ⟨n * Nat.pow 2 e.toNat, 1⟩ else ⟨n, Nat.pow 2 (-e).toNat⟩

def Ratio.inUnits (r : Ratio) (scale : Int) : Ratio :=
  if 0 ≤ scale then ⟨r.numerator, r.denominator * Nat.pow 10 scale.toNat⟩
  else ⟨r.numerator * Nat.pow 10 (-scale).toNat, r.denominator⟩

/-- The reals that round to one double, in quarters of its last place. -/
structure Rounding where
  low : Nat
  value : Nat
  high : Nat
  exponent : Int
  closed : Bool

def rounding (mantissa : Nat) (exponent : Int) : Rounding :=
  { low := if mantissa = hiddenBit && leastExponent < exponent then 4 * mantissa - 1
      else 4 * mantissa - 2
    value := 4 * mantissa
    high := 4 * mantissa + 2
    exponent := exponent - 2
    closed := mantissa % 2 = 0 }

def Rounding.holds (r : Rounding) (n : Nat) (scale : Int) : Bool :=
  let low := (Ratio.binary r.low r.exponent).inUnits scale
  let high := (Ratio.binary r.high r.exponent).inUnits scale
  if r.closed then low.numerator ≤ n * low.denominator && n * high.denominator ≤ high.numerator
  else low.numerator < n * low.denominator && n * high.denominator < high.numerator

def Rounding.nearest (r : Rounding) (tie : Tie) (scale : Int) : Option Nat :=
  let value := (Ratio.binary r.value r.exponent).inUnits scale
  let below := value.numerator / value.denominator
  let above := below + 1
  match r.holds below scale, r.holds above scale with
  | false, false => none
  | true, false => some below
  | false, true => some above
  | true, true =>
    let gap := 2 * (value.numerator - below * value.denominator)
    if gap < value.denominator then some below
    else if value.denominator < gap then some above
    else match tie with
      | .up => some above
      | .even => some (if below % 2 = 0 then below else above)

def digitCount (n : Nat) : Nat := (Nat.toDigits 10 n).length

def Ratio.magnitude (r : Ratio) : Int :=
  let guess : Int := (digitCount r.numerator : Int) - digitCount r.denominator
  let scaled := r.inUnits guess
  if scaled.denominator ≤ scaled.numerator then guess else guess - 1

def Rounding.search (r : Rounding) (tie : Tie) (magnitude : Int) (count : Nat) : Nat → Digits
  | 0 => ⟨0, 0⟩
  | fuel + 1 =>
    let scale := magnitude + 1 - count
    match r.nearest tie scale with
    | some n => ⟨n, scale⟩
    | none => r.search tie magnitude (count + 1) fuel

def Digits.strip : Nat → Digits → Digits
  | 0, d => d
  | fuel + 1, d =>
    if d.digits ≠ 0 && d.digits % 10 = 0 then Digits.strip fuel ⟨d.digits / 10, d.scale + 1⟩ else d

/-- Shortest digits of the positive double `mantissa · 2 ^ exponent`; 17 digits always suffice. -/
def shortest (tie : Tie) (mantissa : Nat) (exponent : Int) : Digits :=
  let magnitude := (Ratio.binary mantissa exponent).magnitude
  ((rounding mantissa exponent).search tie magnitude 1 17).strip 20

end Crochet.Decimal
