import Crochet.Template.Basic
import Crochet.Template.Fault

/-! Stitches derived from others: several worked together, several worked into one loop, and copies
of another size. -/
namespace Crochet
open Text

inductive VariantKind where
  | together
  | increase
  deriving DecidableEq, Repr

/-- The parts of a name such as `dc3bobble2tog`. -/
structure VariantName where
  base : String
  count : Nat
  kind : VariantKind
  deriving DecidableEq, Repr

namespace VariantName

def parse? (name : String) : Option VariantName := do
  let cs := name.toList
  let (stem, kind) ← match before? "tog".toList cs with
    | some stem => some (stem, VariantKind.together)
    | none => (before? "inc".toList cs).map (·, VariantKind.increase)
  let (digits, base) := runOf Char.isDigit stem.reverse
  if base.isEmpty || digits.isEmpty then none
  else
    let count ← Decimal.below? Decimal.wordLimit digits.reverse
    some ⟨String.ofList base.reverse, count, kind⟩

end VariantName

namespace Template

def suffixed (name : String) (copy : Nat) : String := name ++ toString copy

def addNew (connections : List Connection) (c : Connection) : List Connection :=
  if connections.any fun d => d.tail == c.tail && d.head == c.head then connections
  else connections ++ [c]

def copies (count : Nat) (f : Nat → List α) : List α := (List.range count).flatMap f

def togetherEnd (top : Option String) (copy : Nat) : Endpoint → Endpoint
  | .previous => .previous
  | .node name => if some name = top then .node name else .node (suffixed name copy)

def together (base : Template) (name : String) (count : Nat) : Except TemplateFault Template :=
  if 1 < base.tops.length then
    .error (.underivable name (.severalTops base.name base.tops.length))
  else
    let end' := togetherEnd (base.tops.head?.map (·.name))
    let connections := copies count fun copy => base.connections.map fun c =>
      { c with tail := end' copy c.tail, head := end' copy c.head }
    .ok
      { name
        description := s!"{base.description} {count} together"
        tops := base.tops.map fun t => { t with attach := t.attach.map (suffixed · (count - 1)) }
        bottoms := copies count fun copy =>
          base.bottoms.map fun b => { b with name := suffixed b.name copy }
        hidden := copies count fun copy =>
          base.hidden.map fun h => { h with name := suffixed h.name copy }
        connections := connections.foldl addNew []
        scale := base.scale }

/-- In later copies `!` is the last top of the copy before. -/
def increaseEnd (bottom lastTop : Option String) (copy : Nat) : Endpoint → Endpoint
  | .previous => match lastTop with
    | some last => if 0 < copy then .node (suffixed last (copy - 1)) else .previous
    | none => .previous
  | .node name => if some name = bottom then .node name else .node (suffixed name copy)

def increase (base : Template) (name : String) (count : Nat) : Except TemplateFault Template :=
  if 1 < base.bottoms.length then
    .error (.underivable name (.severalBottoms base.name base.bottoms.length))
  else
    let end' := increaseEnd (base.bottoms.head?.map (·.name)) (base.tops.getLast?.map (·.name))
    let connections := copies count fun copy => base.connections.map fun c =>
      { c with tail := end' copy c.tail, head := end' copy c.head }
    .ok
      { name
        description := s!"{base.description} {count} in one"
        tops := copies count fun copy =>
          base.tops.map fun t => { t with name := suffixed t.name copy }
        bottoms := base.bottoms
        hidden := copies count fun copy =>
          base.hidden.map fun h => { h with name := suffixed h.name copy }
        connections := connections.foldl addNew []
        scale := base.scale }

def derive (base : Template) (name : String) (count : Nat) (kind : VariantKind) :
    Except TemplateFault Template :=
  if count = 0 then .error (.underivable name .countZero)
  else match kind with
    | .together => base.together name count
    | .increase => base.increase name count

/-- The factor for a connection: height from top to bottom, width from top to top. -/
def stretch? (t : Template) (height width : Float) (c : Connection) : Option Float :=
  let crosses := (t.isTop c.tail && t.isBottom c.head) || (t.isTop c.head && t.isBottom c.tail)
  if crosses then some height
  else if t.isTop c.tail && t.isTop c.head then some width
  else none

def stretched (length : Length) : Option Float → Length
  | none => length
  | some factor => match length with
    | .value x => if factor ≥ 0.0 then .value (x * factor) else .value x
    | .skip => .skip

/-- A copy of another size. A negative factor keeps that direction. -/
def rescale (base : Template) (name : String) (height width : Float) :
    Except TemplateFault Template :=
  if !base.hidden.isEmpty then .error (.underivable name (.hiddenNodes base.name))
  else
    let ratio (factor : Float) : Float := if factor < 0.0 then 1.0 else factor
    .ok
      { base with
        name
        tops := base.tops.map fun t => if t.tag = base.name then { t with tag := name } else t
        hidden := []
        connections := base.connections.map fun c =>
          { c with length := stretched c.length (base.stretch? height width c) }
        scale := ⟨base.scale.height * ratio height, base.scale.width * ratio width⟩ }

end Template
end Crochet
