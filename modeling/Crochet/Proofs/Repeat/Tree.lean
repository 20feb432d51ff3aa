import Crochet.Proofs.Row.Phrase
import Crochet.Repeat.Expand

/-! Notation with repeats as a tree, and what it means without expanding any text: the stitches one
after another, each with the labels around it, and the line ends between them. -/
namespace Crochet.Repeat

inductive Break where
  | comma
  | line
  deriving DecidableEq, Repr

def Break.char : Break → Char
  | comma => ','
  | line => '\n'

inductive Place where
  | front
  | behind
  | last
  deriving DecidableEq, Repr

structure Attire where
  label : Option String := none
  count : Option (Place × List Char) := none
  deriving DecidableEq, Repr

mutual

inductive Piece where
  | blank
  | marker (marker : Marker)
  | stitch (name : String) (attire : Attire)
  | group (bracket : Bracket) (body : Chain) (attire : Attire)

inductive Chain where
  | last (piece : Piece)
  | link (piece : Piece) (ends : Break) (rest : Chain)

end

def starred (digits : List Char) : List Char := if digits.isEmpty then [] else '*' :: digits

def labelled (label : Option String) : List Char := (label.map fun l => '.' :: l.toList).getD []

namespace Attire

def digitsAt (a : Attire) (place : Place) : List Char :=
  match a.count with
  | some (other, digits) => if other = place then digits else []
  | none => []

def back (a : Attire) : List Char :=
  starred (a.digitsAt .behind) ++ (labelled a.label ++ starred (a.digitsAt .last))

def times (a : Attire) : Option Nat := a.count.map fun (_, digits) => Decimal.digitsValue digits

end Attire

mutual

def Piece.written : Piece → List Char
  | .blank => []
  | .marker m => [m.char]
  | .stitch name a => a.digitsAt .front ++ (name.toList ++ a.back)
  | .group b body a => a.digitsAt .front ++ (b.opening :: (body.written ++ b.closing :: a.back))

def Chain.written : Chain → List Char
  | .last piece => piece.written
  | .link piece ends rest => piece.written ++ ends.char :: rest.written

end

def Piece.marker? : Piece → Option Marker
  | .marker m => some m
  | _ => none

def Chain.pieces : Chain → List Piece
  | .last piece => [piece]
  | .link piece _ rest => piece :: rest.pieces

def Chain.marked (m : Marker) (chain : Chain) : Nat :=
  chain.pieces.countP (·.marker? == some m)

def Chain.marksWithin (limit : Nat) (chain : Chain) : Bool :=
  chain.marked .exit ≤ limit && chain.marked .entry ≤ limit

def isNameWord (w : List Char) : Bool := Text.isName w && w != "turn".toList

section
variable (fits : Nat → Bool)

def Attire.valid (a : Attire) : Bool :=
  a.label.all (isNameWord ·.toList) && a.count.all fun (_, digits) =>
    !digits.isEmpty && digits.all Char.isDigit && fits (Decimal.digitsValue digits)

mutual

/- Names are names, counts fit, and markers stand only in groups with a count, at most once each. -/
def Piece.valid : Piece → Bool
  | .blank => true
  | .marker _ => true
  | .stitch name a => isNameWord name.toList && a.valid fits
  | .group _ body a =>
    body.valid && a.valid fits && body.marksWithin (if a.count.isSome then 1 else 0)

def Chain.valid : Chain → Bool
  | .last piece => piece.valid
  | .link piece _ rest => piece.valid && rest.valid

end

end

def fitsWord (n : Nat) : Bool := n < Decimal.wordLimit

inductive Event where
  | stitch (name : String) (labels : List String)
  | line
  deriving DecidableEq, Repr

def Event.under (label : Option String) : Event → Event
  | .stitch name labels => .stitch name (label.toList ++ labels)
  | .line => .line

def Break.events : Break → List Event
  | .comma => []
  | .line => [.line]

structure Part where
  marker : Option Marker
  events : List Event
  deriving DecidableEq, Repr

def Part.is (m : Marker) (p : Part) : Bool := p.marker == some m

def untilExit (parts : List Part) : List Part := parts.takeWhile (!Part.is .exit ·)

/- What stands behind the entry of a whole chain, in a first part of it. -/
def sinceEntry (whole parts : List Part) : List Part :=
  if whole.any (Part.is .entry) then (parts.dropWhile (!Part.is .entry ·)).tail else parts

def rounds (parts : List Part) : Option Nat → List (List Part)
  | none => [parts]
  | some 0 => []
  | some 1 => [sinceEntry parts (untilExit parts)]
  | some (n + 2) =>
    sinceEntry parts parts :: (List.replicate n parts ++ [untilExit parts])

mutual

def Piece.unfold : Piece → List Event
  | .blank => []
  | .marker _ => []
  | .stitch name a => List.replicate (a.times.getD 1) (.stitch name a.label.toList)
  | .group _ body a =>
    (rounds body.parts a.times).flatMap fun round =>
      (round.flatMap Part.events).map (Event.under a.label)

def Chain.parts : Chain → List Part
  | .last piece => [⟨piece.marker?, piece.unfold⟩]
  | .link piece ends rest => ⟨piece.marker?, piece.unfold ++ ends.events⟩ :: rest.parts

end

def Chain.unfold (chain : Chain) : List Event := chain.parts.flatMap Part.events

def rowsFrom (current : List (Row.Kind × List String)) :
    List Event → List (List (Row.Kind × List String))
  | [] => if current.isEmpty then [] else [current]
  | .stitch name labels :: rest => rowsFrom (current ++ [(.stitch name, labels)]) rest
  | .line :: rest =>
    if current.isEmpty then rowsFrom [] rest else current :: rowsFrom [] rest

end Crochet.Repeat
