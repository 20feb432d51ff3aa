import Crochet.Bracket
import Crochet.Fault.Basic
import Crochet.MappedText
import Crochet.Registry
import Crochet.Text.Word

/-! Index variables. Blocks `$...$` assign and step them; elsewhere a variable is replaced by its
value, and `k++` or `--k` changes it on the way. All goes strictly from left to right.

A word after `.` or `@` is a label and stays. -/
namespace Crochet.Index
open Text

abbrev Variables := List (String × Int)

/-- `up` tells the direction; with `early` the changed value is the one used. -/
structure Step where
  up : Bool
  early : Bool
  deriving DecidableEq, Repr

namespace Variables

def get? (vars : Variables) (name : String) : Option Int := vars.lookup name

def set (vars : Variables) (name : String) (value : Int) : Variables :=
  match vars with
  | [] => [(name, value)]
  | entry :: rest =>
    if entry.1 = name then (name, value) :: rest else entry :: set rest name value

def use (vars : Variables) (name : String) (step : Option Step) (span : Span) :
    Outcome (Int × Variables) :=
  match vars.get? name, step with
  | none, _ => faultAt (.index (.unset name)) span
  | some value, none => .ok (value, vars)
  | some value, some step =>
    let next := if step.up then value + 1 else value - 1
    if Decimal.leastWord ≤ next ∧ next ≤ Decimal.greatestWord then
      .ok (if step.early then next else value, vars.set name next)
    else faultAt (.index (.overflow name value)) span

end Variables

structure Use where
  name : String
  step : Option Step
  more : Nat
  origin : Nat
  deriving DecidableEq, Repr

def isNameGlyph (g : Glyph) : Bool := isNameChar g.char

def doubled? : MappedText → Option Bool
  | a :: b :: _ =>
    if a.char ≠ b.char then none
    else if a.char = '+' then some true
    else if a.char = '-' then some false
    else none
  | _ => none

def nameOf (word : MappedText) : String := String.ofList (MappedText.chars word)

def Variables.knows (vars : Variables) (word : MappedText) : Bool :=
  !word.isEmpty && (vars.get? (nameOf word)).isSome

def useAt? (vars : Variables) (before : Option Char) (t : MappedText) : Option Use :=
  match doubled? t with
  | some up =>
    let word := (t.drop 2).takeWhile isNameGlyph
    if vars.knows word then
      some ⟨nameOf word, some ⟨up, true⟩, word.length + 1, MappedText.startOrigin word⟩
    else none
  | none =>
    let word := t.takeWhile isNameGlyph
    if before == some '.' || before == some '@' then none
    else if vars.knows word then
      match doubled? (t.dropWhile isNameGlyph) with
      | some up =>
        some ⟨nameOf word, some ⟨up, false⟩, word.length + 1, MappedText.startOrigin word⟩
      | none => some ⟨nameOf word, none, word.length - 1, MappedText.startOrigin word⟩
    else none

def numberText (origin : Nat) (value : Int) : MappedText :=
  MappedText.madeText origin (toString value).toList

/-- Replaces the variables of a text without blocks; `before` is the character in front of it. -/
def substitute (vars : Variables) (before : Option Char) (t : MappedText) :
    Outcome (MappedText × Variables) :=
  match t with
  | [] => .ok ([], vars)
  | g :: rest => match useAt? vars before (g :: rest) with
    | some use => do
      let old := g :: rest.take use.more
      let (value, vars) ← vars.use use.name use.step (MappedText.cover old)
      let (tail, vars) ← substitute vars (old.getLast?.map Glyph.char) (rest.drop use.more)
      return (numberText use.origin value ++ tail, vars)
    | none => do
      let word := if isNameGlyph g then rest.takeWhile isNameGlyph else []
      let kept := g :: word
      let (tail, vars) ← substitute vars (kept.getLast?.map Glyph.char) (rest.drop word.length)
      return (kept ++ tail, vars)
termination_by t.length
decreasing_by all_goals simp only [List.length_drop, List.length_cons]; omega

/-- `name=expression`. Places of faults in the expression count from its own start. -/
def assign (registry : Registry) (vars : Variables) (name expression : List Char) (span : Span) :
    Outcome Variables := do
  let name := trim name
  let label := String.ofList name
  if !isName name then faultAt (.index (.variableName label)) span
  else if registry.contains label then faultAt (.index (.namesStitch label)) span
  else
    let (expanded, vars) ← substitute vars none (MappedText.ofSource expression)
    match Arith.evalWhole (MappedText.chars expanded) with
    | .error fault => faultAt (.index (.badValue label fault)) span
    | .ok none => faultAt (.index (.fractional label)) span
    | .ok (some value) => return vars.set label value

def stepped? (statement : List Char) : Option (List Char × Step) :=
  let plus := ['+', '+']
  let minus := ['-', '-']
  ((after? plus statement).map fun name => (name, ⟨true, true⟩)).or <|
  ((after? minus statement).map fun name => (name, ⟨false, true⟩)).or <|
  ((before? plus statement).map fun name => (name, ⟨true, false⟩)).or <|
  (before? minus statement).map fun name => (name, ⟨false, false⟩)

def runStatement (registry : Registry) (vars : Variables) (written : MappedText) :
    Outcome Variables :=
  let statement := trim (MappedText.chars written)
  let span := MappedText.cover written
  if statement.isEmpty then .ok vars
  else match cutFirst (· == '=') statement with
    | some (name, expression) => assign registry vars name expression span
    | none => match stepped? statement with
      | none => faultAt (.index (.unknownStatement (String.ofList statement))) span
      | some (name, step) =>
        (vars.use (String.ofList (trim name)) (some step) span).map Prod.snd

def isStatementEnd (g : Glyph) : Bool := g.char == ',' || g.char == ';'

def runBlock (registry : Registry) (vars : Variables) (block : MappedText) : Outcome Variables :=
  (pieces isStatementEnd block).foldlM (runStatement registry) vars

def isDangling : Option Char → Bool
  | none => true
  | some c => c == ',' || c == '\n' || isOpening c

def isDollar (g : Glyph) : Bool := g.char == '$'

/-- Runs the blocks of a text and replaces its variables; `last` is the last character of what has
been written so far. -/
def evaluateFrom (registry : Registry) (vars : Variables) (last : Option Char) (t : MappedText) :
    Outcome MappedText :=
  match _opened : cutFirst isDollar t with
  | none => (substitute vars none t).map Prod.fst
  | some (before, rest) => do
    let (out, vars) ← substitute vars none before
    match _closed : cutFirst isDollar rest with
    | none => faultAt (.index .blockNeverClosed) (MappedText.cover (t.drop before.length))
    | some (block, after) =>
      let vars ← runBlock registry vars block
      let last := (out.getLast?.map Glyph.char).or last
      let comma := if isDangling last && (after.head?.map Glyph.char) == some ',' then 1 else 0
      let tail ← evaluateFrom registry vars last (after.drop comma)
      return out ++ tail
termination_by t.length
decreasing_by
  have outer := cutFirstLength _opened
  have inner := cutFirstLength _closed
  simp
  omega

end Crochet.Index
