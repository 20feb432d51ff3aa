import Crochet.Fabric.Basic
import Crochet.Graph.Basic
import Crochet.Json.Basic

/-! A compiled pattern and its two written forms. -/
namespace Crochet

structure Pattern where
  graph : Graph
  metadata : List String
  transforms : List String
  background : Option String
  definitions : List String
  rows : List RowSummary
  deriving DecidableEq, Repr

namespace Pattern

def stitchCount (p : Pattern) : Nat :=
  (p.rows.flatMap RowSummary.counts).foldr (fun count n => count.2 + n) 0

def nodeLine (n : GraphNode) : String :=
  s!"\"{n.id}\" [{n.display} {n.color} {n.kind.display}]\n"

def edgeLine (e : GraphEdge) : String :=
  let length := Decimal.plain e.length
  let hidden := if e.visible then "" else " hidden"
  s!"\"{e.tail}\" -- \"{e.head}\" {length} [{e.weight.display}{hidden}]\n"

def toText (p : Pattern) : String :=
  let background := match p.background with
    | some color => [s!"BACKGROUND: {color}\n"]
    | none => []
  String.join (p.graph.nodes.map nodeLine ++ p.graph.edges.map edgeLine ++ background
    ++ p.metadata.map fun line => s!"DOT: {line}\n")

def nodeJson (n : GraphNode) : Json := .object [
  ("id", .string n.id), ("kind", .string n.kind.display),
  ("label_attachment_tags", .strings n.labels), ("displayType", .string n.display),
  ("color", .string n.color)]

def edgeJson (e : GraphEdge) : Json := .object [
  ("tail", .string e.tail), ("head", .string e.head), ("length", .real e.length),
  ("color", .string e.color), ("visible", .bool e.visible),
  ("weight_class", .string e.weight.display)]

def summaryJson (r : RowSummary) : Json := .object [
  ("row", .integer r.row),
  ("counts", .object (r.counts.map fun (name, n) => (name, .integer n)))]

def toJson (p : Pattern) : Json := .object [
  ("graph", .object [("nodes", .array (p.graph.nodes.map nodeJson)),
    ("edges", .array (p.graph.edges.map edgeJson))]),
  ("metadata", .strings p.metadata), ("transforms", .strings p.transforms),
  ("background", .option .string p.background), ("definitions", .strings p.definitions),
  ("rows", .array (p.rows.map summaryJson))]

end Pattern
end Crochet
