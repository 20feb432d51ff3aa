import Crochet.Row.Lines

/-! Lines of items made into rows. A line end starts a new row only if the row has something, so
empty lines and lines with a colour switch alone count for nothing. Each item takes the colour in
force where it stands. -/
namespace Crochet.Row

structure Flat where
  done : Rows := []
  current : List Item := []
  color : String
  deriving DecidableEq, Repr

namespace Flat

def put (f : Flat) (kind : Kind) (labels : List LabelDef) (attached : Attached) (span : Span) :
    Flat :=
  let item : Item := { kind, labels, attached, row := f.done.length, color := f.color, span }
  { f with current := f.current ++ [item] }

def endLine (f : Flat) : Flat :=
  if f.current.isEmpty then f else { f with done := f.done ++ [f.current], current := [] }

def rows (f : Flat) : Rows := f.endLine.done

end Flat

structure Surround where
  labels : List LabelDef := []
  attached : Option Attached := none
  deriving DecidableEq, Repr

def Surround.add (s : Surround) (labels : List LabelDef) (attached : Option Attached) : Surround :=
  ⟨s.labels ++ labels, attached.or s.attached⟩

section
variable (colors : List (Nat × String))

mutual

def flattenNode (s : Surround) (f : Flat) : Node → Outcome Flat
  | .stitch name labels attached span =>
    let all := s.add labels attached
    .ok (f.put (.stitch name) all.labels (all.attached.getD {}) span)
  | .group lines labels attached _ => flattenLines (s.add labels attached) f lines
  | .turn span => .ok (f.put .turn [] {} span)
  | .seek attached span => .ok (f.put .seek [] attached span)
  | .color key span => match colors.lookup key with
    | some color => .ok { f with color }
    | none => faultAt (.row (.colorUnknown key)) span

def flattenLine (s : Surround) (f : Flat) : List Node → Outcome Flat
  | [] => .ok f
  | node :: rest => match flattenNode s f node with
    | .error fault => .error fault
    | .ok f => flattenLine s f rest

/-- A group starts on the line it stands in. -/
def flattenLines (s : Surround) (f : Flat) : List (List Node) → Outcome Flat
  | [] => .ok f
  | line :: rest => match flattenLine s f line with
    | .error fault => .error fault
    | .ok f => flattenMore s f rest

def flattenMore (s : Surround) (f : Flat) : List (List Node) → Outcome Flat
  | [] => .ok f
  | line :: rest => match flattenLine s f.endLine line with
    | .error fault => .error fault
    | .ok f => flattenMore s f rest

end

end

def earlyTurn? (rows : Rows) : Option Item :=
  rows.findSome? fun row => row.dropLast.find? (·.kind = .turn)

def parseRows (t : MappedText) (colors : List (Nat × String)) (color : String) : Outcome Rows := do
  let lines ← parseLines t
  let rows := (← flattenLines colors {} { color } lines).rows
  match earlyTurn? rows with
  | some turn => faultAt (.row .turnInside) turn.span
  | none => return rows

end Crochet.Row
