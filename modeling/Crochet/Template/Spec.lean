import Crochet.Text.Blank
import Crochet.Template.Basic
import Crochet.Template.Fault

/-! The written form of a template, `&description^Tops:Bottoms~Attachments:Hidden:Connections`.

Lists are separated by `;` and blank items count for nothing. `toSpec` writes what `parse` reads. -/
namespace Crochet
namespace Template
open Text

def defaultDisplay : String := "hidden"

def depthLimit : Nat := Nat.pow 2 32

def items (field : List Char) : List (List Char) :=
  ((pieces (· == ';') field).map trim).filter (!·.isEmpty)

def typed (item : List Char) : List Char × Option (List Char) :=
  match cutFirst (· == '(') item with
  | some (name, rest) =>
    let kind := (rest.reverse.dropWhile (· == ')')).reverse
    (trim name, some (trim kind))
  | none => (item, none)

def readTop (item : List Char) : Except SpecFault TopNode :=
  match typed item with
  | (name, some tag) => .ok ⟨String.ofList name, String.ofList tag, none⟩
  | (_, none) => .error (.untypedTop (String.ofList item))

def readLoop (item flag : List Char) : Except SpecFault LoopFlag := do
  let shown := String.ofList item
  let some flag := before? [']'] flag | .error (.openLoop shown)
  let (side, weight) ← match after? "front".toList flag, after? "back".toList flag with
    | some weight, _ => .ok (LoopSide.front, weight)
    | none, some weight => .ok (LoopSide.back, weight)
    | none, none => .error (.loopSide shown)
  if weight.isEmpty then return ⟨side, none⟩
  match Decimal.realOf weight with
  | .ok w => return ⟨side, some w⟩
  | .error fault => .error (.loopWeight shown fault)

def readDepth (item digits : List Char) : Except SpecFault Nat :=
  if digits.isEmpty then .ok 1
  else match Decimal.below? depthLimit digits with
    | none => .error (.depthTooLarge (String.ofList item))
    | some 0 => .error (.depthZero (String.ofList item))
    | some depth => .ok depth

def readBottom (item : List Char) : Except SpecFault BottomNode := do
  let (digits, rest) := runOf Char.isDigit item
  let depth ← readDepth item digits
  let (name, loop) ← match cutFirst (· == '[') rest with
    | none => pure (rest, none)
    | some (name, flag) => do
      let loop ← readLoop item flag
      pure (name, some loop)
  if name.isEmpty then .error (.unnamedBottom (String.ofList item))
  else .ok ⟨String.ofList name, depth, loop⟩

def readHidden (item : List Char) : HiddenNode :=
  let (name, kind) := typed item
  ⟨String.ofList name, (kind.map String.ofList).getD defaultDisplay⟩

def endpoint (name : List Char) : Endpoint :=
  if name = ['!'] then .previous else .node (String.ofList name)

def readLength (item text : List Char) : Except SpecFault Length :=
  if text = "skip".toList then .ok .skip
  else match Decimal.realOf text with
    | .error fault => .error (.connectionLength (String.ofList item) fault)
    | .ok x =>
      if x < 0.0 || !x.isFinite then .error (.connectionNegative (String.ofList item))
      else .ok (.value x)

def readConnection (item : List Char) : Except SpecFault Connection := do
  let (soft, body) := match item with
    | '*' :: body => (true, body)
    | body => (false, body)
  match pieces (· == '-') body with
  | [tail, length, head] =>
    let length ← readLength item length
    return ⟨endpoint tail, endpoint head, length, soft⟩
  | _ => .error (.connectionForm (String.ofList item))

def setAttach (top bottom : String) : List TopNode → List TopNode
  | [] => []
  | t :: ts =>
    if t.name = top then { t with attach := some bottom } :: ts else t :: setAttach top bottom ts

def addAttachment (t : Template) (pair : List Char) : Except SpecFault Template :=
  let shown := String.ofList pair
  match cutFirst (· == '-') pair with
  | none => .error (.attachmentForm shown)
  | some (top, bottom) =>
    let top := String.ofList top
    let bottom := String.ofList bottom
    if t.role bottom ≠ some .bottom then .error (.attachmentBottom shown bottom)
    else if t.tops.all (·.name != top) then .error (.attachmentTop shown top)
    else .ok { t with tops := setAttach top bottom t.tops }

def strayEnd? (t : Template) (c : Connection) : Option String :=
  [c.tail, c.head].findSome? fun
    | .previous => none
    | .node name => if (t.role name).isNone then some name else none

def addConnection (t : Template) (item : List Char) : Except SpecFault Template := do
  let c ← readConnection item
  match t.strayEnd? c with
  | some node => .error (.connectionNode (String.ofList item) node)
  | none => .ok { t with connections := t.connections ++ [c] }

def readSpec (name : String) (raw : List Char) : Except SpecFault Template := do
  let body ← match trim raw with
    | '&' :: body => pure body
    | _ => .error .noSentinel
  let some (description, rest) := cutFirst (· == '^') body | .error .noDescription
  let (topField, middle, hiddenField, connectionField) ← match pieces (· == ':') rest with
    | [a, b, c, d] => pure (a, b, c, d)
    | fields => .error (.sections fields.length)
  let (bottomField, attachField) := (cutFirst (· == '~') middle).getD (middle, [])
  let tops ← (items topField).mapM readTop
  let bottoms ← (items bottomField).mapM readBottom
  let bare : Template :=
    { name, description := String.ofList (trim description), tops, bottoms
      hidden := (items hiddenField).map readHidden, connections := [], scale := {} }
  let attached ← (items attachField).foldlM addAttachment bare
  (items connectionField).foldlM addConnection attached

def parse (name : String) (raw : String) : Except TemplateFault Template :=
  (readSpec name raw.toList).mapError (.malformed name)

def isSpec (text : List Char) : Bool := (trimStart text).head? == some '&'

end Template

def LoopFlag.toSpec (flag : LoopFlag) : String :=
  let side := match flag.side with
    | .front => "front"
    | .back => "back"
  "[" ++ side ++ (flag.weight.map Decimal.plain).getD "" ++ "]"

def TopNode.toSpec (t : TopNode) : String := s!"{t.name}({t.tag})"

def BottomNode.toSpec (b : BottomNode) : String :=
  (if 1 < b.depth then toString b.depth else "") ++ b.name ++ (b.loop.map LoopFlag.toSpec).getD ""

def HiddenNode.toSpec (h : HiddenNode) : String :=
  if h.display = Template.defaultDisplay then h.name else s!"{h.name}({h.display})"

def Connection.toSpec (c : Connection) : String :=
  (if c.soft then "*" else "") ++ s!"{c.tail.display}-{c.length.display}-{c.head.display}"

def Template.toSpec (t : Template) : String :=
  let list := String.intercalate ";"
  let attachments := t.tops.filterMap fun top => top.attach.map fun b => s!"{top.name}-{b}"
  s!"&{t.description}^" ++ list (t.tops.map TopNode.toSpec) ++ ":"
    ++ list (t.bottoms.map BottomNode.toSpec) ++ "~" ++ list attachments ++ ":"
    ++ list (t.hidden.map HiddenNode.toSpec) ++ ":" ++ list (t.connections.map Connection.toSpec)

end Crochet
