import Crochet.Decimal.Text

/-! Stitch templates: the loops a stitch makes, the loops it is worked into, its inner nodes and the
yarn lengths between them. -/
namespace Crochet

inductive LoopSide where
  | front
  | back
  deriving DecidableEq, Repr

/-- Which loop of the stitch below a bottom goes into, with an optional weight of its own. -/
structure LoopFlag where
  side : LoopSide
  weight : Option Float
  deriving DecidableEq, Repr

def LoopFlag.pull (flag : LoopFlag) (default : Float) : Float :=
  let weight := flag.weight.getD default
  match flag.side with
  | .front => -weight
  | .back => weight

/-- `attach` is the bottom the top sits above. -/
structure TopNode where
  name : String
  tag : String
  attach : Option String
  deriving DecidableEq, Repr

/-- `depth` counts rows down: 1 is the row below. -/
structure BottomNode where
  name : String
  depth : Nat
  loop : Option LoopFlag
  deriving DecidableEq, Repr

structure HiddenNode where
  name : String
  display : String
  deriving DecidableEq, Repr

/-- `previous` is the last top made before the stitch, written `!`. -/
inductive Endpoint where
  | previous
  | node (name : String)
  deriving DecidableEq, Repr

/-- `skip` joins two nodes without yarn between them. -/
inductive Length where
  | skip
  | value (length : Float)
  deriving DecidableEq, Repr

structure Connection where
  tail : Endpoint
  head : Endpoint
  length : Length
  soft : Bool
  deriving DecidableEq, Repr

structure Scale where
  height : Float := 1.0
  width : Float := 1.0
  deriving DecidableEq, Repr

inductive Role where
  | top
  | bottom
  | hidden
  deriving DecidableEq, Repr

structure Template where
  name : String
  description : String
  tops : List TopNode
  bottoms : List BottomNode
  hidden : List HiddenNode
  connections : List Connection
  scale : Scale
  deriving DecidableEq, Repr

namespace Endpoint

def name? : Endpoint → Option String
  | previous => none
  | node name => some name

def display : Endpoint → String
  | previous => "!"
  | node name => name

end Endpoint

namespace Length

def value? : Length → Option Float
  | skip => none
  | value length => some length

def display : Length → String
  | skip => "skip"
  | value length => Decimal.plain length

end Length

namespace Connection

def key (c : Connection) : String :=
  (if c.soft then "*" else "") ++ c.tail.display ++ "--" ++ c.head.display

def joins (c : Connection) (a b : Endpoint) : Bool :=
  (c.tail == a && c.head == b) || (c.tail == b && c.head == a)

end Connection

namespace Template

def role (t : Template) (name : String) : Option Role :=
  if t.tops.any (·.name == name) then some .top
  else if t.bottoms.any (·.name == name) then some .bottom
  else if t.hidden.any (·.name == name) then some .hidden
  else none

/-- The previous stitch's top counts as a top. -/
def isTop (t : Template) : Endpoint → Bool
  | .previous => true
  | .node name => t.role name == some .top

def isBottom (t : Template) : Endpoint → Bool
  | .previous => false
  | .node name => t.role name == some .bottom

def topIndex? (t : Template) (name : String) : Option Nat := t.tops.findIdx? (·.name == name)

def bottomIndex? (t : Template) (name : String) : Option Nat :=
  t.bottoms.findIdx? (·.name == name)

def lengthBetween (t : Template) (a b : Endpoint) : Option Float :=
  (t.connections.find? (·.joins a b)).bind (·.length.value?)

/-- The top that sits above a bottom; the first top where none claims it. -/
def topAbove (t : Template) (bottom : String) : Option TopNode :=
  (t.tops.find? (·.attach == some bottom)) <|> t.tops.head?

end Template
end Crochet
