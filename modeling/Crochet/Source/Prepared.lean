import Crochet.Source.Color
import Crochet.Source.Definition

/-! A pattern made ready for expansion: one expression without comments, blanks, macros and colour
names, and what the other lines of the source say. -/
namespace Crochet.Source
open Text

structure Metadata where
  dot : List String := []
  transforms : List String := []
  background : Option String := none
  definitions : List String := []
  deriving DecidableEq, Repr

structure Sheet where
  metadata : Metadata := {}
  definitions : List MappedText := []
  expression : MappedText := []
  deriving DecidableEq, Repr

def trimmedText (t : MappedText) : String := String.ofList (trim (MappedText.chars t))

def Sheet.add (s : Sheet) (line : MappedText) : Outcome Sheet :=
  match Line.read line with
  | .definition body => .ok { s with
      definitions := s.definitions ++ [body]
      metadata := { s.metadata with
        definitions := s.metadata.definitions ++ [trimmedText body] } }
  | .dot value => .ok { s with
      metadata := { s.metadata with dot := s.metadata.dot ++ [trimmedText value] } }
  | .transform value => .ok { s with
      metadata := { s.metadata with transforms := s.metadata.transforms ++ [trimmedText value] } }
  | .background value =>
    if s.metadata.background.isSome then
      faultAt (.source .secondBackground) (MappedText.cover line)
    else .ok { s with
      metadata := { s.metadata with background := some (trimmedText value) } }
  | .stitches => .ok { s with
      expression := s.expression ++ line ++ [MappedText.made (MappedText.endOrigin line) '\n'] }
  | .blank => .ok s

def Sheet.read (source : List Char) : Outcome Sheet := (logicalLines source).foldlM Sheet.add {}

/-- `...` is a separator. -/
def commasForDots : MappedText → MappedText
  | a :: b :: c :: rest =>
    if a.char = '.' ∧ b.char = '.' ∧ c.char = '.' then
      MappedText.made a.origin ',' :: commasForDots rest
    else a :: commasForDots (b :: c :: rest)
  | rest => rest

def isFiller (c : Char) : Bool := c == ' ' || c == '\t' || c == '\r'

/-- Drops blanks and empty lines; `fresh` tells that the line has nothing so far. -/
def dropBlanks (fresh : Bool) : MappedText → MappedText
  | [] => []
  | g :: rest =>
    if isFiller g.char then dropBlanks fresh rest
    else if g.char = '\n' then
      if fresh then dropBlanks true rest else g :: dropBlanks true rest
    else g :: dropBlanks false rest

def dropLastNewline (t : MappedText) : MappedText :=
  match t.getLast? with
  | some g => if g.char = '\n' then t.dropLast else t
  | none => t

structure Prepared where
  expression : MappedText
  colors : List (Nat × String)
  metadata : Metadata
  deriving DecidableEq, Repr

def spaced (source : List Char) (registry : Registry) : Outcome (Prepared × Registry) := do
  let sheet ← Sheet.read source
  checkBrackets sheet.expression
  let draft ← sheet.definitions.foldlM Draft.define
    { expression := commasForDots sheet.expression, registry }
  let colored ← takeColors 0 draft.expression
  let stepped := replaceAll stepRule colored.expression
  return (⟨stepped, colored.colors, sheet.metadata⟩, draft.registry)

def prepare (source : List Char) (registry : Registry) : Outcome (Prepared × Registry) := do
  let (pattern, registry) ← spaced source registry
  let expression := dropLastNewline (dropBlanks true pattern.expression)
  return ({ pattern with expression }, registry)

end Crochet.Source
