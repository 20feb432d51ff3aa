import Crochet.Bracket
import Crochet.Fault.Basic
import Crochet.MappedText

/-! Balance of brackets and of variable blocks.

The first closing bracket without its partner is the fault; then the innermost bracket left open;
then a block left open. A `$` inside brackets counts like any other. -/
namespace Crochet.Source

/-- Scans on at byte `offset`; `stack` holds the open brackets with their offsets, innermost first,
`block` the `$` that is open. -/
def imbalanceFrom (offset : Nat) (stack : List (Bracket × Nat)) (block : Option Nat) :
    List Char → Option (SourceCause × Span)
  | [] => match stack, block with
    | (b, start) :: _, _ => some (.neverClosed b.opening, ⟨start, start + 1⟩)
    | [], some start => some (.blockNeverClosed, ⟨start, start + 1⟩)
    | [], none => none
  | c :: cs =>
    let next := offset + c.utf8Size
    match Bracket.opened? c, Bracket.closed? c with
    | some b, _ => imbalanceFrom next ((b, offset) :: stack) block cs
    | none, some b => match stack with
      | [] => some (.unmatched c, ⟨offset, next⟩)
      | (o, start) :: stack =>
        if o = b then imbalanceFrom next stack block cs
        else some (.mismatched o.opening c, ⟨start, next⟩)
    | none, none =>
      if c = '$' then
        imbalanceFrom next stack (if block.isSome then none else some offset) cs
      else imbalanceFrom next stack block cs

def imbalance? (cs : List Char) : Option (SourceCause × Span) := imbalanceFrom 0 [] none cs

def checkBrackets (t : MappedText) : Outcome Unit :=
  match imbalance? (MappedText.chars t) with
  | none => .ok ()
  | some (cause, range) => faultAt (.source cause) (MappedText.sourceSpan t range)

end Crochet.Source
