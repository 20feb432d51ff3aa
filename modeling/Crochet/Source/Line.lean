import Crochet.MappedText
import Crochet.Text.Split

/-! Lines of a pattern as they are written: without comments, and joined where one ends in a
backslash. -/
namespace Crochet.Source
open Text

def colorMark : List Char := "COLOR:".toList
def backgroundMark : List Char := "BACKGROUND:".toList
def definitionMark : List Char := "DEF:".toList
def dotMark : List Char := "DOT:".toList
def transformMark : List Char := "TRANSFORM_OBJECT:".toList

/-- Whether a `#` after this text, given backwards, belongs to a colour. -/
def wantsColor (before : List Char) : Bool :=
  let before := before.dropWhile isBlank
  [colorMark, backgroundMark].any fun mark => (Text.after? mark.reverse before).isSome

/-- The line up to its comment; `before` is what precedes it, backwards. -/
def uncommentAfter (before : List Char) : MappedText → MappedText
  | [] => []
  | g :: rest =>
    if g.char = '#' && !wantsColor before then []
    else g :: uncommentAfter (g.char :: before) rest

def uncomment (line : MappedText) : MappedText := uncommentAfter [] line

def plainGlyph? (g : Glyph) : Option Glyph :=
  if g.char = '\r' then none
  else some (MappedText.made g.origin (if g.char = '\t' then ' ' else g.char))

def lineBody (raw : MappedText) : MappedText × Bool :=
  let content := MappedText.trimEnd (uncomment raw)
  match content.getLast? with
  | some g =>
    if g.char = '\\' then (content.dropLast.filterMap plainGlyph?, true)
    else (content.filterMap plainGlyph?, false)
  | none => ([], false)

/-- Joins physical lines, `current` being the start of a line that goes on. -/
def joinLines (current : MappedText) : List MappedText → List MappedText
  | [] => if current.isEmpty then [] else [current]
  | raw :: rest => match lineBody raw with
    | (body, true) => joinLines (current ++ body) rest
    | (body, false) => (current ++ body) :: joinLines [] rest

def logicalLines (source : List Char) : List MappedText :=
  joinLines [] (pieces (·.char == '\n') (MappedText.ofSource source))

inductive Line where
  | definition (body : MappedText)
  | dot (value : MappedText)
  | transform (value : MappedText)
  | background (value : MappedText)
  | stitches
  | blank
  deriving DecidableEq, Repr

def Line.read (line : MappedText) : Line :=
  let content := MappedText.trimStart line
  match MappedText.after? definitionMark content with
  | some body => .definition body
  | none => match MappedText.after? dotMark content with
    | some value => .dot value
    | none => match MappedText.after? transformMark content with
      | some value => .transform value
      | none => match MappedText.after? backgroundMark content with
        | some value => .background value
        | none => if content.isEmpty then .blank else .stitches

end Crochet.Source
