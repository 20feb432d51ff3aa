/-! The marks `+`, `!` and `^` on a label. -/
namespace Crochet

inductive Extend where
  | both
  | left
  | right
  deriving DecidableEq, Repr

inductive Skip where
  | both
  | first
  | last
  deriving DecidableEq, Repr

/-- `post` is `some none` for a bare `^` and `some (some n)` for `^n`. -/
structure Modifiers where
  extend : Option Extend := none
  skip : Option Skip := none
  post : Option (Option Int) := none
  deriving DecidableEq, Repr

def Extend.display : Extend → String
  | .both => "+"
  | .left => "+0"
  | .right => "+1"

def Skip.display : Skip → String
  | .both => "!"
  | .first => "!0"
  | .last => "!1"

def displayPost : Option Int → String
  | none => "^"
  | some n => s!"^{n}"

namespace Modifiers

def isEmpty (m : Modifiers) : Bool := m.extend.isNone && m.skip.isNone && m.post.isNone

def merge (definition reference : Modifiers) : Modifiers where
  extend := definition.extend <|> reference.extend
  skip := definition.skip <|> reference.skip
  post := definition.post <|> reference.post

def display (m : Modifiers) : String :=
  (m.extend.map Extend.display).getD "" ++ (m.skip.map Skip.display).getD ""
    ++ (m.post.map displayPost).getD ""

end Modifiers
end Crochet
