import Crochet.Decimal.Read

/-! Numbers as JSON writes them. -/
namespace Crochet.Json
open Crochet.Text Crochet.Decimal

structure Numeral where
  negative : Bool := false
  whole : List Char
  fraction : List Char := []
  exponent : Option (Bool × List Char) := none
  deriving DecidableEq, Repr

namespace Numeral

/-- A minus sign apart, a number starts with a digit, and a zero stands alone before the point. -/
def whole? (cs : List Char) : Option (List Char × List Char) :=
  match cs.takeWhile Char.isDigit with
  | [] => none
  | ['0'] => some (['0'], cs.drop 1)
  | '0' :: _ => none
  | digits => some (digits, cs.dropWhile Char.isDigit)

def fraction? : List Char → Option (List Char × List Char)
  | '.' :: cs =>
    let digits := cs.takeWhile Char.isDigit
    if digits.isEmpty then none else some (digits, cs.dropWhile Char.isDigit)
  | cs => some ([], cs)

def signOf : List Char → Bool × List Char
  | '-' :: cs => (true, cs)
  | '+' :: cs => (false, cs)
  | cs => (false, cs)

def exponentPart? : List Char → Option (Option (Bool × List Char) × List Char)
  | mark :: cs =>
    if mark == 'e' || mark == 'E' then
      let (negative, cs) := signOf cs
      let digits := cs.takeWhile Char.isDigit
      if digits.isEmpty then none else some (some (negative, digits), cs.dropWhile Char.isDigit)
    else some (none, mark :: cs)
  | [] => some (none, [])

def read? (cs : List Char) : Option (Numeral × List Char) := do
  let (negative, cs) : Bool × List Char := match cs with
    | '-' :: rest => (true, rest)
    | rest => (false, rest)
  let (whole, cs) ← whole? cs
  let (fraction, cs) ← fraction? cs
  let (exponent, cs) ← exponentPart? cs
  return ({ negative, whole, fraction, exponent }, cs)

def isInteger (n : Numeral) : Bool := n.fraction.isEmpty && n.exponent.isNone

def natural? (n : Numeral) : Option Nat :=
  if n.isInteger && !n.negative then below? wordLimit n.whole else none

def gather : Nat → List Char → Nat × Nat
  | n, [] => (n, 0)
  | n, d :: ds =>
    let m := 10 * n + (d.toNat - 48)
    if m < wordLimit then gather m ds else (n, ds.length + 1)

def greatestPower : Nat := 308

def powerOfTen (k : Nat) : Float := Float.ofScientific 1 false k

def shrink (x : Float) (k : Nat) : Float :=
  if k ≤ greatestPower then x / powerOfTen k
  else if x == 0.0 then x
  else shrink (x / powerOfTen greatestPower) (k - greatestPower)
termination_by k
decreasing_by
  have := ‹¬k ≤ greatestPower›
  unfold greatestPower at *
  omega

def scale? (x : Float) (power : Int) : Option Float :=
  if power < 0 then some (shrink x power.natAbs)
  else if power.natAbs ≤ greatestPower then
    let y := x * powerOfTen power.natAbs
    if y.isInf then none else some y
  else if x == 0.0 then some x
  else none

def exponentLimit : Nat := Nat.pow 2 31

/-- The value: the leading digits as one word, scaled once. Digits past the word are dropped, and
those before the point count as a power of ten. -/
def real? (n : Numeral) : Option Float := do
  let (significand, skipped) := gather 0 n.whole
  let (significand, dropped) := gather significand n.fraction
  let start : Int := skipped - (n.fraction.length - dropped)
  let x := Float.ofNat significand
  let magnitude ← match n.exponent with
    | none => scale? x start
    | some (negative, digits) => match below? exponentLimit digits with
      | some e => scale? x (if negative then start - e else start + e)
      | none => if significand = 0 || negative then some 0.0 else none
  return if n.negative then -magnitude else magnitude

end Numeral

theorem lengthWhole {cs digits rest : List Char} (h : Numeral.whole? cs = some (digits, rest)) :
    rest.length < cs.length := by
  unfold Numeral.whole? at h
  split at h
  · cases h
  · rename_i run
    cases Option.some.inj h
    cases cs with
    | nil => simp at run
    | cons c cs => simp
  · cases h
  · rename_i noDigits _ _
    cases Option.some.inj h
    cases cs with
    | nil => simp at noDigits
    | cons c cs =>
      by_cases hc : c.isDigit = true
      · simp [hc]
        have := Crochet.Text.lengthDropWhile Char.isDigit cs
        omega
      · simp [hc] at noDigits

theorem lengthFraction {cs digits rest : List Char}
    (h : Numeral.fraction? cs = some (digits, rest)) : rest.length ≤ cs.length := by
  unfold Numeral.fraction? at h
  split at h
  · rename_i more
    dsimp only at h
    split at h
    · cases h
    · cases Option.some.inj h
      have := Crochet.Text.lengthDropWhile Char.isDigit more
      simp
      omega
  · cases Option.some.inj h
    exact Nat.le_refl _

theorem lengthSignOf (cs : List Char) : (Numeral.signOf cs).2.length ≤ cs.length := by
  unfold Numeral.signOf
  split <;> simp

theorem lengthExponent {cs rest : List Char} {e : Option (Bool × List Char)}
    (h : Numeral.exponentPart? cs = some (e, rest)) : rest.length ≤ cs.length := by
  unfold Numeral.exponentPart? at h
  split at h
  · rename_i mark more
    split at h
    · dsimp only at h
      split at h
      · cases h
      · cases Option.some.inj h
        have signed := lengthSignOf more
        have := Crochet.Text.lengthDropWhile Char.isDigit (Numeral.signOf more).2
        simp
        omega
    · cases Option.some.inj h
      exact Nat.le_refl _
  · cases Option.some.inj h
    exact Nat.le_refl _

theorem lengthNumeral {cs rest : List Char} {n : Numeral}
    (h : Numeral.read? cs = some (n, rest)) : rest.length < cs.length := by
  unfold Numeral.read? at h
  simp only [bind, Option.bind_eq_some_iff] at h
  obtain ⟨⟨digits, a⟩, hWhole, ⟨fraction, b⟩, hFraction, ⟨e, c⟩, hExponent, same⟩ := h
  cases Option.some.inj same
  have first := lengthWhole hWhole
  have second := lengthFraction hFraction
  have third := lengthExponent hExponent
  revert first
  dsimp only at *
  split <;> intro first <;> simp at * <;> omega

end Crochet.Json
