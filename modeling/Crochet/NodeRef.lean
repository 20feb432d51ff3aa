import Crochet.Decimal.Text

/-! What a bottom of a stitch is worked into. -/
namespace Crochet

inductive NodeRef where
  | top (id : Nat)
  /-- The inner node of the stitch that made the top `id`. -/
  | post (id : Nat) (node : String)
  /-- A point between two anchors, with the lengths pulling towards each. -/
  | between (near far : NodeRef) (nearPull farPull : Float)
  deriving DecidableEq, Repr

namespace NodeRef

def top? : NodeRef → Option Nat
  | top id => some id
  | _ => none

def anchor : NodeRef → Nat
  | top id => id
  | post id _ => id
  | between near _ _ _ => near.anchor

def ids : NodeRef → List Nat
  | top id => [id]
  | post id _ => [id]
  | between near far _ _ => near.ids ++ far.ids

def display : NodeRef → String
  | top id => toString id
  | post id node => s!"^{id}-{node}"
  | between near far nearPull farPull =>
    "(" ++ near.display ++ ":" ++ Decimal.plain nearPull ++ " | " ++ far.display ++ ":"
      ++ Decimal.plain farPull ++ ")"

end NodeRef
end Crochet
