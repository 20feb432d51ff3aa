/-! Double-precision numbers as exact values: a sign and `mantissa · 2 ^ exponent`. -/
namespace Crochet.Decimal

inductive Binary where
  | nan
  | infinite (negative : Bool)
  | finite (negative : Bool) (mantissa : Nat) (exponent : Int)
  deriving DecidableEq, Repr

def leastExponent : Int := -1074

def hiddenBit : Nat := Nat.pow 2 52

def binary (x : Float) : Binary :=
  let bits := x.toBits.toNat
  let negative := bits / Nat.pow 2 63 == 1
  let field := bits / hiddenBit % 2048
  let fraction := bits % hiddenBit
  if field = 2047 then
    if fraction = 0 then .infinite negative else .nan
  else if field = 0 then .finite negative fraction leastExponent
  else .finite negative (hiddenBit + fraction) (leastExponent + (field - 1 : Nat))

def Binary.whole? : Binary → Option Int
  | .finite negative mantissa exponent =>
    let magnitude? : Option Nat :=
      if 0 ≤ exponent then some (mantissa * Nat.pow 2 exponent.toNat)
      else
        let unit := Nat.pow 2 (-exponent).toNat
        if mantissa % unit = 0 then some (mantissa / unit) else none
    magnitude?.map fun n => if negative then -(n : Int) else n
  | _ => none

def leastWord : Int := -Int.pow 2 63
def greatestWord : Int := Int.pow 2 63 - 1

def clampWord (n : Int) : Int := max leastWord (min greatestWord n)

/-- A whole number kept within a signed 64-bit word; `none` for fractions, infinities and NaN. -/
def wholeWord? (x : Float) : Option Int := (binary x).whole?.map clampWord

end Crochet.Decimal
