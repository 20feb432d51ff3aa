/-! The graph of a pattern: loops and inner nodes, joined by yarn. -/
namespace Crochet

inductive NodeKind where
  | top
  | hidden
  deriving DecidableEq, Repr

def NodeKind.display : NodeKind → String
  | top => "top"
  | hidden => "hidden"

inductive WeightClass where
  | primary
  | secondary
  | internal
  deriving DecidableEq, Repr

def WeightClass.display : WeightClass → String
  | primary => "primary"
  | secondary => "secondary"
  | internal => "internal"

structure GraphNode where
  id : String
  kind : NodeKind
  labels : List String
  display : String
  color : String
  deriving DecidableEq, Repr

structure GraphEdge where
  tail : String
  head : String
  length : Float
  color : String
  visible : Bool
  weight : WeightClass
  deriving DecidableEq, Repr

structure Graph where
  nodes : List GraphNode := []
  edges : List GraphEdge := []
  deriving DecidableEq, Repr

namespace Graph

def node? (g : Graph) (id : String) : Option GraphNode := g.nodes.find? (·.id == id)

def edgesInto (g : Graph) (head : String) : List GraphEdge := g.edges.filter (·.head == head)

def edgeBetween? (g : Graph) (a b : String) : Option GraphEdge :=
  g.edges.find? fun e => (e.tail == a && e.head == b) || (e.tail == b && e.head == a)

end Graph
end Crochet
