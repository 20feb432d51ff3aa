import Crochet.Fabric.Basic

/-! Passes over labels. Uses of one label with one group number form a pass; in a pass, uses that
alternate between `@A` and `@A~` form runs, and the runs of `~` are taken backwards.

A pass with as many bottoms as the label has tops goes one to one. Otherwise the bottoms are spread
evenly over the label, and one that falls between two tops hangs between them, its two pulls adding
up to the length that joins the tops. -/
namespace Crochet

structure Pass where
  key : String
  group : Int
  modifiers : Modifiers
  runs : List (Bool × List Nat)
  span : Span
  deriving DecidableEq, Repr

namespace Pass

def stitches (p : Pass) : List Nat :=
  p.runs.flatMap fun (reversed, run) => if reversed then run.reverse else run

def extendRuns (reversed : Bool) (stitch : Nat) : List (Bool × List Nat) → List (Bool × List Nat)
  | [] => [(reversed, [stitch])]
  | [(r, run)] =>
    if r = reversed then [(r, run ++ [stitch])] else [(r, run), (reversed, [stitch])]
  | run :: rest => run :: extendRuns reversed stitch rest

def join (p : Pass) (u : LabelUse) : Outcome Pass :=
  if p.modifiers ≠ u.modifiers then
    faultAt (.label (.markDispute p.key p.modifiers u.modifiers)) u.span
  else .ok { p with runs := extendRuns u.reversed u.stitch p.runs }

def ofUse (u : LabelUse) : Pass :=
  ⟨u.key, u.group, u.modifiers, [(u.reversed, [u.stitch])], u.span⟩

def addUse (passes : List Pass) (u : LabelUse) : Outcome (List Pass) :=
  match passes with
  | [] => .ok [ofUse u]
  | p :: rest =>
    if p.key = u.key ∧ p.group = u.group then (p.join u).map (· :: rest)
    else (addUse rest u).map (p :: ·)

def comesFirst (f : Fabric) (a b : Pass) : Bool :=
  let first (p : Pass) := (f.label? p.key).bind (·.ids.head?)
  match first a, first b with
  | none, none => decide (a.group ≤ b.group)
  | none, some _ => true
  | some _, none => false
  | some x, some y => decide (x < y) || (x == y && decide (a.group ≤ b.group))

end Pass

namespace Fabric

def passes (f : Fabric) : Outcome (List Pass) := do
  let all ← f.uses.foldlM Pass.addUse []
  return all.mergeSort (Pass.comesFirst f)

def distance (f : Fabric) (near far : NodeRef) (key : String) : Except LabelCause Float :=
  match near.top?, far.top? with
  | some a, some b =>
    let low := min a b
    let high := max a b
    match f.owner? high with
    | none => .error (.unowned high)
    | some above => match above.topName? high with
      | none => .error (.topless high)
      | some name =>
        let top := Endpoint.node name
        let joined : Option Float → Except LabelCause Float
          | some length => .ok length
          | none => .error (.unconnected low high key)
        if above.owns low then
          joined ((above.topName? low).bind fun low => above.template.lengthBetween (.node low) top)
        else match above.bottoms.idxOf? (.top low) with
          | some index => match above.template.bottoms[index]? with
            | none => .error (.unconnected low high key)
            | some bottom =>
              if bottom.depth ≠ 1 then .error (.rowsApart key)
              else joined ((above.template.topAbove bottom.name).bind fun t =>
                above.template.lengthBetween (.node bottom.name) (.node t.name))
          | none =>
            if high - low = 1 then joined (above.template.lengthBetween .previous top)
            else .error (.notAdjacent key low high)
  | _, _ => .error (.unmeasurable near far key)

def neighbour (f : Fabric) (p : Pass) (id : Option Nat) : Except LabelCause NodeRef :=
  match id.filter fun id => (f.owner? id).isSome with
  | none => .error (.pastEnds p.key)
  | some id =>
    if f.producedBefore id (p.stitches.min?.getD 0) then .ok (.top id)
    else .error (.lateNeighbour p.key id)

def widened (f : Fabric) (p : Pass) (ids : List Nat) (first last : Nat) :
    Except LabelCause (List NodeRef) := do
  let own := ids.map NodeRef.top
  let left ← match p.modifiers.extend with
    | some .both | some .left => do
      pure [← f.neighbour p (if first = 0 then none else some (first - 1))]
    | _ => pure []
  let right ← match p.modifiers.extend with
    | some .both | some .right => do pure [← f.neighbour p (some (last + 1))]
    | _ => pure []
  return left ++ own ++ right

def anchors (f : Fabric) (p : Pass) (ids : List Nat) (first last : Nat) :
    Except LabelCause (List NodeRef × Option Float) := do
  let anchors ← f.widened p ids first last
  match p.modifiers.post with
  | none => return (anchors, none)
  | some which =>
    let which := which.getD (-1)
    if p.modifiers.extend.isSome then throw (.postWithNeighbours p.key)
    else if anchors.length ≠ 1 then throw (.postOfSeveral p.key anchors.length)
    else match (f.owner? first).bind (·.postTarget first which) with
      | none => throw (.noPost first which)
      | some (target, length) =>
        return (target :: anchors, if target.top?.isSome then none else length.value?)

/-- How the bottoms of a pass are laid over its anchors: `total` slots, the first bottom in slot
`offset`. -/
structure Spread where
  anchors : List NodeRef
  length : Option Float
  total : Nat
  offset : Nat
  deriving DecidableEq, Repr

def bottomCount (f : Fabric) (stitch : Nat) : Nat :=
  match f.stitches[stitch]? with
  | some s => s.bottoms.length
  | none => 0

def slots (f : Fabric) (p : Pass) : List (Nat × Nat) :=
  p.stitches.flatMap fun stitch => (List.range (f.bottomCount stitch)).map (stitch, ·)

/-- Number of slots left empty, the first slot used, and whether a turn exchanges the ends. -/
def skipped : Option Skip → Nat × Nat × Bool
  | none => (0, 0, false)
  | some .both => (2, 1, false)
  | some .first => (1, 1, true)
  | some .last => (1, 0, true)

def spread (f : Fabric) (p : Pass) : Except LabelCause Spread :=
  match f.label? p.key with
  | none => .error (.undefined p.key)
  | some label => match label.ids.head?, label.ids.getLast? with
    | some first, some last => do
      let (anchors, length) ← f.anchors p label.ids first last
      let bottoms := (f.slots p).length
      let (empty, offset, oneSided) := skipped p.modifiers.skip
      let defined := match f.owner? first with
        | some s => s.row
        | none => 0
      let worked := match p.stitches.head?.bind (f.stitches[·]?) with
        | some s => s.row
        | none => defined
      if f.turnedBetween defined worked then
        return ⟨anchors.reverse, length, bottoms + empty, if oneSided then 1 - offset else offset⟩
      else return ⟨anchors, length, bottoms + empty, offset⟩
    | _, _ => .error (.empty p.key)

def anchorAt (key : String) (anchors : List NodeRef) (k : Nat) : Except LabelCause NodeRef :=
  match anchors[k]? with
  | some node => .ok node
  | none => .error (.noSlot key k)

def slotNode (f : Fabric) (key : String) (s : Spread) (k : Nat) : Except LabelCause NodeRef := do
  let n := s.anchors.length
  if n = s.total then anchorAt key s.anchors (k + s.offset)
  else
    let (share, parts) :=
      if 1 < s.total then ((k + s.offset) * (n - 1), s.total - 1) else (n - 1, 2)
    let near ← anchorAt key s.anchors (share / parts)
    if share % parts = 0 then return near
    else
      let far ← anchorAt key s.anchors (share / parts + 1)
      let length ← match s.length with
        | some length => pure length
        | none => f.distance near far key
      let pull := length * Float.ofNat (share % parts) / Float.ofNat parts
      return .between near far pull (length - pull)

def assignments (f : Fabric) (p : Pass) : Outcome (List ((Nat × Nat) × NodeRef)) :=
  let result : Except LabelCause (List ((Nat × Nat) × NodeRef)) := do
    let spread ← f.spread p
    (f.slots p).zipIdx.mapM fun (slot, k) => do return (slot, ← f.slotNode p.key spread k)
  result.mapError fun cause => { cause := .label cause, span := some p.span }

end Fabric
end Crochet
