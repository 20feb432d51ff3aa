import Crochet.Fabric.Basic
import Crochet.Graph.Basic
import Crochet.Options

/-! The graph of a fabric whose labels are worked out.

A top is named `row,position|uid`, positions counting from the first top of the row. An inner node
has its own name after the position, as in `2,4C|17`. -/
namespace Crochet.Graph

/-- The graph drawn so far. `tops` names the tops drawn, `primaries` the heads that have a primary
edge, `splits` the nodes that stand for bottoms of the stitch in hand. -/
structure Drawing where
  graph : Graph := {}
  tops : List (Nat × String) := []
  primaries : List String := []
  splits : List (Nat × String) := []
  lastTop : Option Nat := none
  deriving DecidableEq, Repr

/-- An end of a connection. `isTop` tells a top of the stitch or the one before it; `pull` belongs
to a bottom that goes into one loop of a top. -/
structure End where
  node : String
  isTop : Bool := false
  pull : Option Float := none
  deriving DecidableEq, Repr

abbrev Drawn := Except ExportCause

namespace Drawing

def addNode (d : Drawing) (node : GraphNode) : Drawing :=
  { d with graph := { d.graph with nodes := d.graph.nodes ++ [node] } }

def addHidden (d : Drawing) (id display color : String) : Drawing :=
  d.addNode { id, kind := .hidden, labels := [], display, color }

def addEdge (d : Drawing) (tail head : String) (length : Float) (color : String)
    (weight : WeightClass) : Drawing :=
  let edge : GraphEdge := { tail, head, length, color, visible := weight != .internal, weight }
  { d with graph := { d.graph with edges := d.graph.edges ++ [edge] } }

def top (d : Drawing) (id : Nat) : Drawn String :=
  match d.tops.lookup id with
  | some node => .ok node
  | none => .error (.neverEmitted id)

end Drawing

section
variable (f : Fabric)

def topName (s : Stitch) (id : Nat) : Drawn String :=
  match (f.rowIds s.row).head? with
  | some first => .ok s!"{s.row},{id - first}|{s.uid}"
  | none => .error (.toplessRow s.row)

def firstPlace? (s : Stitch) : Option (Nat × Nat) := do
  let id ← s.tops.head?
  let first ← (f.rowIds s.row).head?
  return (s.row, id - first)

/-- The place after which inner nodes of stitch number `i` are named: that of the stitch, or of the
last one before it that has tops. -/
def basePlace (i : Nat) (s : Stitch) : Nat × Nat :=
  let before := (f.stitches.take i).reverse.findSome? (firstPlace? f)
  ((firstPlace? f s).or before).getD (s.row, 0)

def innerName (base : Nat × Nat) (s : Stitch) (node : String) : String :=
  s!"{base.1},{base.2}{node}|{s.uid}"

def hiddenName (i : Nat) (s : Stitch) (node : String) : String :=
  innerName (basePlace f i s) s node

/-- The owner of a post has tops and so a place of its own. -/
def postName (s : Stitch) (node : String) : String :=
  innerName ((firstPlace? f s).getD (s.row, 0)) s node

def anchorName (d : Drawing) (node : NodeRef) : Drawn String :=
  match node with
  | .top id => d.top id
  | .post id name => match f.owner? id with
    | none => .error (.unownedPost node)
    | some s =>
      if s.template.role name = some .hidden then .ok (postName f s name)
      else .error (.visiblePost node)
  | .between _ _ _ _ => .error (.nestedBetween node)

def splitEnd (d : Drawing) (i : Nat) (s : Stitch) (b : Nat) (name : String) (near far : NodeRef)
    (nearPull farPull : Float) : Drawn (End × Drawing) :=
  match d.splits.lookup b with
  | some node => .ok ({ node }, d)
  | none => do
    let split := hiddenName f i s name
    let near ← anchorName f d near
    let far ← anchorName f d far
    let d := d.addHidden split "hidden" s.color
    let d := d.addEdge near split nearPull s.color .internal
    let d := d.addEdge split far farPull s.color .internal
    return ({ node := split }, { d with splits := (b, split) :: d.splits })

def bottomEnd (weight : Float) (d : Drawing) (i : Nat) (s : Stitch) (b : Nat)
    (bottom : BottomNode) : Drawn (End × Drawing) :=
  match s.bottoms[b]? with
  | none => .error (.missingBottom s.name bottom.name)
  | some node => match f.descend node bottom.depth with
    | none => .error (.tooDeep s.name bottom.depth node)
    | some (.top id) =>
      (d.top id).map fun node => ({ node, pull := bottom.loop.map (·.pull weight) }, d)
    | some (.post id name) => (anchorName f d (.post id name)).map fun node => ({ node }, d)
    | some (.between near far nearPull farPull) =>
      splitEnd f d i s b bottom.name near far nearPull farPull

def endOf (weight : Float) (previous : Option Nat) (i : Nat) (s : Stitch) (d : Drawing) :
    Endpoint → Drawn (Option End × Drawing)
  | .previous => match previous with
    | none => .ok (none, d)
    | some id => (d.top id).map fun node => (some { node, isTop := true }, d)
  | .node name =>
    let missing : Drawn (Option End × Drawing) := .error (.noSuchNode s.name name)
    match s.template.role name with
    | none => missing
    | some .top => match (s.template.topIndex? name).bind (s.tops[·]?) with
      | none => missing
      | some id => (d.top id).map fun node => (some { node, isTop := true }, d)
    | some .hidden => .ok (some { node := hiddenName f i s name }, d)
    | some .bottom => match s.template.bottomIndex? name with
      | none => missing
      | some b => match s.template.bottoms[b]? with
        | none => missing
        | some bottom => (bottomEnd f weight d i s b bottom).map fun (e, d) => (some e, d)

/-- A bottom in one loop of a top pulls through a node of its own, which takes its place. -/
def loopSide (d : Drawing) (color node other : String) (pull : Float) : End × Drawing :=
  let side := node ++ "a" ++ other ++ "_jacobian" ++ Decimal.plain pull
  let d := d.addHidden side "hidden" color
  ({ node := side }, d.addEdge node side pull.abs color .secondary)

def loopSides (d : Drawing) (color : String) (tail head : End) : End × End × Drawing :=
  match tail.pull, head.pull with
  | some pull, _ =>
    let (side, d) := loopSide d color tail.node head.node pull
    (side, head, d)
  | none, some pull =>
    let (side, d) := loopSide d color head.node tail.node pull
    (tail, side, d)
  | none, none => (tail, head, d)

def joinEnds (d : Drawing) (color : String) (length : Float) (soft : Bool) (tail head : End) :
    Drawing :=
  if soft then d.addEdge tail.node head.node length color .internal
  else
    let (tail, head, d) := loopSides d color tail head
    if tail.isTop && head.isTop && !d.primaries.contains head.node then
      let d := d.addEdge tail.node head.node length color .primary
      { d with primaries := head.node :: d.primaries }
    else d.addEdge tail.node head.node length color .secondary

def connect (weight : Float) (previous : Option Nat) (i : Nat) (s : Stitch) (d : Drawing)
    (c : Connection) : Drawn Drawing :=
  match c.length.value? with
  | none => .ok d
  | some length => do
    let (tail, d) ← endOf f weight previous i s d c.tail
    let (head, d) ← endOf f weight previous i s d c.head
    match tail, head with
    | some tail, some head => return joinEnds d s.color length c.soft tail head
    | _, _ => return d

def drawTop (s : Stitch) (d : Drawing) (entry : Nat × TopNode) : Drawn Drawing := do
  let (id, top) := entry
  let node ← topName f s id
  let d := d.addNode
    { id := node, kind := .top, labels := s.labels, display := top.tag, color := s.color }
  return { d with tops := (id, node) :: d.tops }

def drawHidden (i : Nat) (s : Stitch) (d : Drawing) (hidden : HiddenNode) : Drawing :=
  d.addHidden (hiddenName f i s hidden.name) hidden.display s.color

def drawStitch (weight : Float) (d : Drawing) (entry : Stitch × Nat) : Drawn Drawing := do
  let (s, i) := entry
  let previous := d.lastTop
  let d ← (s.tops.zip s.template.tops).foldlM (drawTop f s) { d with splits := [] }
  let d := s.template.hidden.foldl (drawHidden f i s) d
  let d ← s.template.connections.foldlM (connect f weight previous i s) d
  return { d with lastTop := s.tops.getLast?.or d.lastTop }

end

def ofFabric (f : Fabric) (options : Options) : Outcome Graph :=
  match f.stitches.zipIdx.foldlM (drawStitch f options.loopWeight) {} with
  | .ok d => .ok d.graph
  | .error cause => .error { cause := .graph cause }

end Crochet.Graph
