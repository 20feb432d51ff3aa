import Crochet.MappedText
import Crochet.Text.Word

/-! Replacing words of a mapped text from left to right.

A rule looks at what follows a place. Text put in stands for the place where the replaced text
began. Right after `.`, `@` or `:` a word is the name of something else and is passed over. -/
namespace Crochet.Source
open Text

/-- Given the character before a place and the text after it: how many characters are replaced,
and by what. -/
abbrev Rule := Option Char → List Char → Option (Nat × List Char)

def isWordAt : Option Char → Bool
  | none => false
  | some c => isWord c

def isEdge (before after : Option Char) : Bool := isWordAt before != isWordAt after

def isGuard : Option Char → Bool
  | none => false
  | some c => c == '.' || c == '@' || c == ':'

/-- What the rule finds after `before`. Where replaced text has just `ended`, nothing is put in
without replacing some more. -/
def findAt (rule : Rule) (before : Option Glyph) (ended : Bool) (rest : MappedText) :
    Option (Nat × List Char) :=
  match rule (before.map Glyph.char) (MappedText.chars rest) with
  | some (0, new) => if ended then none else some (0, new)
  | found => found

def replaceFrom (rule : Rule) (before : Option Glyph) (ended : Bool) : MappedText → MappedText
  | [] => match findAt rule before ended [] with
    | none => []
    | some (_, new) =>
      if isGuard (before.map Glyph.char) then []
      else MappedText.madeText (MappedText.endOrigin before.toList) new
  | g :: rest =>
    let kept := isGuard (before.map Glyph.char)
    match findAt rule before ended (g :: rest) with
    | none => g :: replaceFrom rule (some g) false rest
    | some (0, new) =>
      (if kept then [] else MappedText.madeText g.origin new)
        ++ g :: replaceFrom rule (some g) false rest
    | some (n + 1, new) =>
      let old := g :: rest.take n
      (if kept then old else MappedText.madeText g.origin new)
        ++ replaceFrom rule old.getLast? true (rest.drop n)
termination_by t => t.length
decreasing_by all_goals simp; try omega

def replaceAll (rule : Rule) (t : MappedText) : MappedText := replaceFrom rule none false t

end Crochet.Source
