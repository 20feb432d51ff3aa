import Crochet.Index.Variables

/-! Indices worked out: variables first, then each component of an innermost `[...]` that is an
arithmetic expression with a whole value, so that `C[m-1,2*k]` becomes `C[0,4]`. -/
namespace Crochet.Index
open Text

/-- A component is what stands before `;` and after the last `:`. -/
def foldComponent (piece : MappedText) : MappedText :=
  let main := piece.takeWhile (·.char != ';')
  let expression := (main.reverse.takeWhile (·.char != ':')).reverse
  let lead := main.take (main.length - expression.length)
  let cs := MappedText.chars expression
  if Arith.hasOperator cs && !cs.contains '%' && !cs.contains '@' then
    match Arith.whole? cs with
    | some value =>
      lead ++ numberText (MappedText.startOrigin expression) value
        ++ piece.dropWhile (·.char != ';')
    | none => piece
  else piece

def isInside (g : Glyph) : Bool := g.char != '[' && g.char != ']'

def foldBrackets (t : MappedText) : MappedText :=
  match t with
  | [] => []
  | g :: rest =>
    if g.char = '[' then
      let inner := rest.takeWhile isInside
      let closed := (rest.dropWhile isInside).head?.map Glyph.char == some ']'
      g :: (if closed then mapPieces (·.char == ',') foldComponent inner else inner)
        ++ foldBrackets (rest.dropWhile isInside)
    else g :: foldBrackets rest
termination_by t.length
decreasing_by
  · have := lengthDropWhile isInside rest
    simp
    omega
  · simp

def evaluate (registry : Registry) (t : MappedText) : Outcome MappedText :=
  (evaluateFrom registry [] none t).map foldBrackets

end Crochet.Index
