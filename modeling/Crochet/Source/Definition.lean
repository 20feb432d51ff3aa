import Crochet.Registry
import Crochet.Source.Brackets
import Crochet.Source.Macro

/-! Definitions: `name=&spec` and `name=Copy(base, height, width)` define a stitch, anything else
is a text macro, put into the expression where it stands. -/
namespace Crochet.Source
open Text

structure Draft where
  expression : MappedText
  registry : Registry
  seen : List String := []
  deriving DecidableEq, Repr

def copyMark : List Char := "Copy(".toList

/-- A factor of a copy; one left out is -1. -/
def copyFactor : Option (List Char) → Option Float
  | none => some (-1.0)
  | some text => (Decimal.realOf text).toOption

def copyParts? (args : List Char) : Option (String × Float × Float) :=
  match (pieces (· == ',') args).map trim with
  | base :: factors =>
    if base.isEmpty || 2 < factors.length then none
    else match copyFactor factors[0]?, copyFactor factors[1]? with
      | some height, some width => some (String.ofList base, height, width)
      | _, _ => none
  | [] => none

def Draft.register (d : Draft) (span : Span) : Registry.Result × Registry → Outcome Draft
  | (.error fault, _) => faultAt (.source (.template fault)) span
  | (.ok _, registry) => .ok { d with registry }

def Draft.define (d : Draft) (definition : MappedText) : Outcome Draft := do
  let span := MappedText.cover definition
  match cutFirst (·.char == '=') definition with
  | none => faultAt (.source .definitionForm) span
  | some (left, right) =>
    let name := trim (MappedText.chars left)
    let body := trim (MappedText.chars right)
    let label := String.ofList name
    if !isName name then faultAt (.source (.stitchName label)) span
    else if d.seen.contains label then faultAt (.source (.definedTwice label)) span
    else
      let d := { d with seen := label :: d.seen }
      if Template.isSpec body then
        d.register span (d.registry.defineSpec label (String.ofList body))
      else match after? copyMark body with
        | some args => match before? [')'] args with
          | none => faultAt (.source .copyNeverClosed) span
          | some args => match copyParts? args with
            | none => faultAt (.source .copyForm) span
            | some (base, height, width) =>
              d.register span (d.registry.rescale base label height width)
        | none =>
          if d.registry.contains label then faultAt (.source (.macroNamesStitch label)) span
          else do
            checkBrackets right
            return { d with expression := substitute name body d.expression }

end Crochet.Source
