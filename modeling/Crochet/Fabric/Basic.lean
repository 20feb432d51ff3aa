import Crochet.Fabric.Stitch
import Crochet.Fault.Basic

/-! The fabric: stitches in the order of work, the rows that end in a turn, and the labels. -/
namespace Crochet

structure Label where
  key : String
  ids : List Nat
  modifiers : Modifiers
  span : Span
  referenced : Bool := false
  deriving DecidableEq, Repr

/-- A stitch whose bottoms are still to be spread over a label. -/
structure LabelUse where
  stitch : Nat
  key : String
  group : Int
  reversed : Bool
  modifiers : Modifiers
  span : Span
  deriving DecidableEq, Repr

structure RowSummary where
  row : Nat
  counts : List (String × Nat)
  deriving DecidableEq, Repr

structure Fabric where
  stitches : List Stitch := []
  turns : List Bool := []
  labels : List Label := []
  uses : List LabelUse := []
  firstId : Nat := 1
  nextId : Nat := 1
  deriving DecidableEq, Repr

def isTurned (turns : List Bool) : Bool := turns.count true % 2 == 1

def sign (turned : Bool) : Int := if turned then -1 else 1

def tally (name : String) : List (String × Nat) → List (String × Nat)
  | [] => [(name, 1)]
  | (other, n) :: rest =>
    if name = other then (other, n + 1) :: rest
    else if name < other then (name, 1) :: (other, n) :: rest
    else (other, n) :: tally name rest

namespace Fabric

/-- The direction in which a row is worked over: -1 after an odd number of turns. -/
def direction (f : Fabric) (row : Nat) : Int := sign (isTurned (f.turns.drop row))

def turnedBetween (f : Fabric) (a b : Nat) : Bool :=
  isTurned ((f.turns.drop (min a b)).take (max a b - min a b))

def owner? (f : Fabric) (id : Nat) : Option Stitch := f.stitches.reverse.find? (·.owns id)

def inRow (f : Fabric) (row : Nat) : List Stitch := f.stitches.filter (·.row == row)

def rowIds (f : Fabric) (row : Nat) : List Nat := (f.inRow row).flatMap Stitch.tops

def producedBefore (f : Fabric) (id limit : Nat) : Bool :=
  (f.stitches.take limit).any (·.owns id)

def label? (f : Fabric) (key : String) : Option Label := f.labels.find? (·.key == key)

def below (f : Fabric) (node : NodeRef) : Option NodeRef := do
  let id ← node.top?
  let s ← f.owner? id
  let top ← s.topNode? id
  let bottom ← s.template.bottomIndex? (← top.attach)
  s.bottoms[bottom]?

def descendBy (f : Fabric) : Nat → NodeRef → Option NodeRef
  | 0, node => some node
  | n + 1, node => (f.below node).bind (f.descendBy n)

/-- The node `depth` rows down; depth 1 is the node itself. -/
def descend (f : Fabric) (node : NodeRef) (depth : Nat) : Option NodeRef :=
  f.descendBy (depth - 1) node

def summaries (f : Fabric) : List RowSummary :=
  (List.range f.turns.length).map fun row =>
    ⟨row, (f.inRow row).foldl (fun counts s => tally s.name counts) []⟩

def taggedIds (f : Fabric) (row : Nat) (tag : Option String) : List Nat :=
  (f.inRow row).flatMap fun s => (s.tops.zip s.template.tops).filterMap fun (id, top) =>
    if tag.isNone || tag == some top.tag then some id else none

/-- The position from which a relative one counts: the first top at or past `id`. -/
def relativeStart (ids : List Nat) (id : Nat) (direction : Int) : Int :=
  let reached (other : Nat) : Bool := if direction < 0 then other ≤ id else id ≤ other
  match ids.findIdx? reached with
  | some i => i
  | none => -1

/-- The top at a position of a row. With a tag only tops of that sub-type count; with a relative id
positions count from there in `direction`, in signed 64-bit words that wrap round, and a step onto
the next top of the sub-type is the first where the id itself is of another one. A negative position
counts from the end of the row. -/
def findByPosition (f : Fabric) (row : Nat) (position : Int) (relative : Option Nat)
    (direction : Int) (tag : Option String) : Outcome Nat :=
  let missing : Outcome Nat := .error { cause := .place (.noStitchAt row position tag) }
  let ids := f.taggedIds row tag
  let ids := if direction < 0 then ids.reverse else ids
  if ids.isEmpty then missing
  else
    let counted : Int := match relative with
      | none => position
      | some id =>
        let steps := match tag with
          | none => position
          | some tag =>
            let here := (f.owner? id).bind (·.topTag? id)
            if here != some tag && 0 < position then position - 1 else position
        let reached := (Int64.ofInt (steps + relativeStart ids id direction)).toInt
        if tag.isSome && reached < 0 then 0 else reached
    let index := if counted < 0 then ids.length + counted else counted
    if index < 0 then missing
    else match ids[index.toNat]? with
      | some id => .ok id
      | none => missing

end Fabric
end Crochet
