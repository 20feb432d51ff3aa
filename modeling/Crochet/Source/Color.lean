import Crochet.Fault.Basic
import Crochet.Source.Line

/-! Colour switches. A colour may be any text up to the next separator, so it is kept beside the
expression, which holds the key `COLOR:<key>`: the offset of the switch. -/
namespace Crochet.Source
open Text

/-- The value of a switch and the text after it; `depth` counts open parentheses. -/
def colorValue (depth : Nat) : MappedText → MappedText × MappedText
  | [] => ([], [])
  | g :: rest =>
    let ends := g.char = '\n' || (depth == 0 &&
      (g.char == ')' || g.char == ',' || g.char == ']' || g.char == '\x7d'))
    if ends then ([], g :: rest)
    else
      let depth := if g.char = '(' then depth + 1 else if g.char = ')' then depth - 1 else depth
      let (value, after) := colorValue depth rest
      (g :: value, after)

theorem colorValueParts (depth : Nat) (t : MappedText) :
    (colorValue depth t).1 ++ (colorValue depth t).2 = t := by
  induction t generalizing depth with
  | nil => rfl
  | cons g rest ih =>
    simp only [colorValue]
    split
    · rfl
    · simp [ih]

structure Colored where
  expression : MappedText
  colors : List (Nat × String)
  deriving DecidableEq, Repr

def takeColors (offset : Nat) (t : MappedText) : Outcome Colored :=
  match t with
  | [] => .ok ⟨[], []⟩
  | g :: rest => match _h : MappedText.after? colorMark (g :: rest) with
    | none => do
      let tail ← takeColors (offset + g.width) rest
      return { tail with expression := g :: tail.expression }
    | some after =>
      let mark := (g :: rest).take colorMark.length
      let value := (colorValue 0 after).1
      let color := trim (MappedText.chars value)
      if color.isEmpty then faultAt (.source .colorMissing) (MappedText.cover mark)
      else do
        let key := MappedText.madeText (MappedText.startOrigin after) (Nat.toDigits 10 offset)
        let tail ← takeColors (offset + MappedText.width mark + MappedText.width value)
          (colorValue 0 after).2
        return ⟨mark ++ key ++ tail.expression, (offset, String.ofList color) :: tail.colors⟩
termination_by t.length
decreasing_by
  · simp
  · have hl := MappedText.afterLength _h
    have hp := congrArg List.length (colorValueParts 0 after)
    simp at hp hl
    have marked : 0 < colorMark.length := by decide
    change (colorValue 0 after).2.length < rest.length + 1
    omega

end Crochet.Source
