import Crochet.NodeRef
import Crochet.Span
import Crochet.Template.Basic

/-! A stitch of the fabric: its template with the tops it makes and the nodes it is worked into. -/
namespace Crochet

/-- `tops` are ids in a row, one for each top of the template. -/
structure Stitch where
  uid : Nat
  name : String
  template : Template
  tops : List Nat
  bottoms : List NodeRef
  row : Nat
  color : String
  labels : List String
  attachment : String
  source : Span
  deriving DecidableEq, Repr

namespace Stitch

def topIndex? (s : Stitch) (id : Nat) : Option Nat :=
  match s.tops.head?, s.tops.getLast? with
  | some first, some last => if first ≤ id ∧ id ≤ last then some (id - first) else none
  | _, _ => none

def owns (s : Stitch) (id : Nat) : Bool := (s.topIndex? id).isSome

def topNode? (s : Stitch) (id : Nat) : Option TopNode := do
  let i ← s.topIndex? id
  s.template.tops[i]?

def topName? (s : Stitch) (id : Nat) : Option String := (s.topNode? id).map TopNode.name

def topTag? (s : Stitch) (id : Nat) : Option String := (s.topNode? id).map TopNode.tag

def hasLabel (s : Stitch) (key : String) : Bool := s.labels.contains key

def postConnections (s : Stitch) (top : String) : List Connection :=
  (s.template.connections.filter fun c =>
    c.head == .node top && !s.template.isTop c.tail && c.length.value?.isSome).mergeSort
      fun a b => decide (a.key ≤ b.key)

def pick? (xs : List α) (which : Int) : Option α :=
  if which < 0 then
    if which.natAbs ≤ xs.length then xs[xs.length - which.natAbs]? else none
  else xs[which.toNat]?

/-- The node reached around the post of top `id`: a bottom stands for what it is worked into. -/
def postTarget (s : Stitch) (id : Nat) (which : Int) : Option (NodeRef × Length) := do
  let top ← s.topName? id
  let connection ← pick? (s.postConnections top) which
  let name ← connection.tail.name?
  let target ← match s.template.bottomIndex? name with
    | some b => s.bottoms[b]?
    | none => some (.post id name)
  return (target, connection.length)

end Stitch
end Crochet
