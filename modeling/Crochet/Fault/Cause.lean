import Crochet.Fault.Kind
import Crochet.Index.Arith
import Crochet.Modifiers
import Crochet.NodeRef
import Crochet.Template.Fault

/-! Why a pattern does not compile, stage by stage. A cause fixes the kind of the fault and its
wording. -/
namespace Crochet

inductive SourceCause where
  | secondBackground
  | mismatched (opening closing : Char)
  | unmatched (closing : Char)
  | neverClosed (opening : Char)
  | blockNeverClosed
  | definitionForm
  | stitchName (name : String)
  | definedTwice (name : String)
  | template (fault : TemplateFault)
  | copyNeverClosed
  | copyForm
  | macroNamesStitch (name : String)
  | colorMissing
  deriving DecidableEq, Repr

def SourceCause.kind : SourceCause → FaultKind
  | secondBackground => .duplicateDefinition
  | mismatched _ _ => .unbalancedBrackets
  | unmatched _ => .unbalancedBrackets
  | neverClosed _ => .unbalancedBrackets
  | blockNeverClosed => .unbalancedBrackets
  | definitionForm => .syntaxError
  | stitchName _ => .syntaxError
  | definedTwice _ => .duplicateDefinition
  | template (.unknown _) => .unknownStitchType
  | template (.duplicate _) => .duplicateDefinition
  | template (.malformed _ _) => .syntaxError
  | template (.underivable _ _) => .syntaxError
  | copyNeverClosed => .syntaxError
  | copyForm => .syntaxError
  | macroNamesStitch _ => .nameCollision
  | colorMissing => .syntaxError

def SourceCause.message : SourceCause → String
  | secondBackground => "BACKGROUND may be given only once"
  | mismatched opening closing => s!"'{opening}' closed by '{closing}'"
  | unmatched closing => s!"unmatched '{closing}'"
  | neverClosed opening => s!"'{opening}' is never closed"
  | blockNeverClosed => "variable block '$' is never closed"
  | definitionForm => "definition must look like DEF: name=..."
  | stitchName name => s!"invalid stitch name '{name}'"
  | definedTwice name => s!"'{name}' is defined twice"
  | template fault => fault.message
  | copyNeverClosed => "Copy( is never closed"
  | copyForm => "expected Copy(base, height[, width]) with numeric factors"
  | macroNamesStitch name => s!"macro '{name}' has the name of a stitch"
  | colorMissing => "COLOR: needs a color"

inductive RepeatCause where
  | strayMarker
  | uncountedMarker
  | dressedMarker
  | secondMarker (marker : Char)
  | countWithoutStitch
  | labelWithoutStitch
  | negativeCount
  | secondCount
  | countMissing
  | countTooLarge
  | secondLabel
  | secondAttachment
  | strayAfterItem (c : Char)
  | groupNeverClosed
  | blockNeverClosed
  deriving DecidableEq, Repr

def RepeatCause.kind : RepeatCause → FaultKind
  | strayMarker => .unsupportedNesting
  | uncountedMarker => .unsupportedNesting
  | dressedMarker => .syntaxError
  | secondMarker _ => .unsupportedNesting
  | countWithoutStitch => .multiplierParseError
  | labelWithoutStitch => .syntaxError
  | negativeCount => .multiplierParseError
  | secondCount => .multiplierParseError
  | countMissing => .multiplierParseError
  | countTooLarge => .multiplierParseError
  | secondLabel => .syntaxError
  | secondAttachment => .syntaxError
  | strayAfterItem _ => .syntaxError
  | groupNeverClosed => .unbalancedBrackets
  | blockNeverClosed => .unbalancedBrackets

def RepeatCause.message : RepeatCause → String
  | strayMarker => "'>' and '<' must sit directly inside a repeated group"
  | uncountedMarker => "'>' and '<' need a multiplier on the group that directly contains them"
  | dressedMarker => "'>' and '<' markers take no multiplier or suffix"
  | secondMarker marker => s!"a repeated group may hold only one '{marker}' marker"
  | countWithoutStitch => "multiplier without a stitch"
  | labelWithoutStitch => "label without a stitch"
  | negativeCount => "negative multiplier"
  | secondCount => "item has two multipliers"
  | countMissing => "'*' must be followed by a count"
  | countTooLarge => s!"bad multiplier: {Decimal.tooLarge}"
  | secondLabel => "only one label per item; wrap the item in parentheses to add another"
  | secondAttachment => "only one attachment per item"
  | strayAfterItem c => s!"unexpected '{c}' after the stitch"
  | groupNeverClosed => "group is never closed"
  | blockNeverClosed => "variable block '$' is never closed"

inductive IndexCause where
  | blockNeverClosed
  | unset (name : String)
  | overflow (name : String) (value : Int)
  | variableName (name : String)
  | namesStitch (name : String)
  | badValue (name : String) (fault : Arith.Fault)
  | fractional (name : String)
  | unknownStatement (statement : String)
  deriving DecidableEq, Repr

def IndexCause.kind : IndexCause → FaultKind
  | blockNeverClosed => .unbalancedBrackets
  | unset _ => .syntaxError
  | overflow _ _ => .syntaxError
  | variableName _ => .syntaxError
  | namesStitch _ => .nameCollision
  | badValue _ _ => .syntaxError
  | fractional _ => .syntaxError
  | unknownStatement _ => .syntaxError

def IndexCause.message : IndexCause → String
  | blockNeverClosed => "variable block '$' is never closed"
  | unset name => s!"variable '{name}' is used before it is set"
  | overflow name value => s!"variable '{name}' overflows at {value}"
  | variableName name => s!"'{name}' is not a variable name"
  | namesStitch name => s!"variable '{name}' has the same name as a stitch"
  | badValue name fault => s!"bad value for '{name}': {fault.message}"
  | fractional name => s!"'{name}' must be a whole number"
  | unknownStatement statement => s!"unknown statement '{statement}'"

inductive RowCause where
  | strayClose (symbol : String)
  | missingClose (symbol : String)
  | commaExpected (symbol : String)
  | unexpected (symbol : String)
  | dressedTurn
  | labelledSeek
  | labelWithoutStitch
  | bareNumber
  | secondAttachment
  | reversedLabel
  | numberedCursor
  | addressExpected
  | addressMark
  | passNumber (text : String)
  | indexNumber (text : String)
  | passExpected
  | secondMark (symbol : String)
  | fractionalPost
  | postExpected
  | boundaryDigit
  | addressPastLine
  | labelNameExpected (mark : Char) (found : Option String)
  | stitchType (text : String)
  | cursorOffset (text : String)
  | addressForm (text : String)
  | turnInside
  | colorUnknown (key : Nat)
  deriving DecidableEq, Repr

def RowCause.kind : RowCause → FaultKind
  | strayClose _ => .unbalancedBrackets
  | missingClose _ => .unbalancedBrackets
  | addressPastLine => .unbalancedBrackets
  | bareNumber => .multiplierParseError
  | turnInside => .turnNotAtRowEnd
  | colorUnknown _ => .internalInconsistency
  | _ => .syntaxError

def RowCause.message : RowCause → String
  | strayClose symbol => s!"unexpected '{symbol}'"
  | missingClose symbol => s!"missing '{symbol}'"
  | commaExpected symbol => s!"expected ',' before '{symbol}'"
  | unexpected symbol => s!"unexpected '{symbol}'"
  | dressedTurn => "turn takes no label or attachment"
  | labelledSeek => "a seek cannot carry a label"
  | labelWithoutStitch => "label without a stitch"
  | bareNumber => "a number must be followed by a stitch"
  | secondAttachment => "only one attachment per item"
  | reversedLabel => "'~' goes on references (@A~), not on label definitions"
  | numberedCursor => "numbered attachment cursors are not supported"
  | addressExpected => "expected an address after '@'"
  | addressMark => "only '^' may follow a bracketed address"
  | passNumber text => s!"group '{text}' is not a whole number"
  | indexNumber text => s!"index '{text}' is not a whole number"
  | passExpected => "';' must be followed by a group number"
  | secondMark symbol => s!"'{symbol}' given twice"
  | fractionalPost => "'^' takes a whole number"
  | postExpected => "'^-' needs a number"
  | boundaryDigit => "only 0 or 1 may follow '+' or '!'"
  | addressPastLine => "address runs past the end of the line"
  | labelNameExpected mark none => s!"expected a label name after '{mark}'"
  | labelNameExpected mark (some found) => s!"expected a label name after '{mark}', found '{found}'"
  | stitchType text => s!"'{text}' is not a stitch type"
  | cursorOffset text => s!"bad cursor offset '{text}'"
  | addressForm text => s!"expected [row,pos] or [type:@+k], found [{text}]"
  | turnInside => "'turn' must be the last item of its row"
  | colorUnknown key => s!"color switch {key} has no color"

inductive PlaceCause where
  | template (fault : TemplateFault)
  | seekAroundPost
  | noSuchStitch (stitch : String) (id : Int)
  | noPost (id : Nat) (which : Int)
  | redefinedLabel (key : String) (now before : Modifiers)
  | growingLabel (key : String)
  | noSuchRow (row : Int)
  | cursorOffStitch (position : Int)
  | noStitchAt (row : Nat) (position : Int) (tag : Option String)
  | unknownLabel (key : String)
  | toplessLabel (key : String)
  | unownedLabel (key : String) (id : Nat)
  | badAddress (text : String) (fault : Arith.Fault)
  | fractionalAddress (text : String)
  deriving DecidableEq, Repr

def PlaceCause.kind : PlaceCause → FaultKind
  | template fault => (SourceCause.template fault).kind
  | seekAroundPost => .syntaxError
  | noSuchStitch _ _ => .addressNotFound
  | noPost _ _ => .addressNotFound
  | redefinedLabel _ _ _ => .ambiguousLabelDefinition
  | growingLabel _ => .ambiguousLabelDefinition
  | noSuchRow _ => .addressNotFound
  | cursorOffStitch _ => .addressNotFound
  | noStitchAt _ _ _ => .addressNotFound
  | unknownLabel _ => .labelNotFound
  | toplessLabel _ => .labelNotFound
  | unownedLabel _ _ => .internalInconsistency
  | badAddress _ _ => .syntaxError
  | fractionalAddress _ => .syntaxError

def PlaceCause.message : PlaceCause → String
  | template fault => fault.message
  | seekAroundPost => "'^' needs a stitch to work around the post"
  | noSuchStitch stitch id => s!"'{stitch}' would be worked into stitch {id}, which does not exist"
  | noPost id which => s!"stitch {id} has no post connection {which}"
  | redefinedLabel key now before =>
    s!"label '{key}' is defined as '{key}{now.display}' here but as '{key}{before.display}' before"
  | growingLabel key => s!"label '{key}' gains stitches after something was worked into it"
  | noSuchRow row => s!"row {row} does not exist"
  | cursorOffStitch position => s!"the attachment cursor ({position}) is not on a stitch"
  | noStitchAt row position none => s!"no stitch at [row {row}, position {position}]"
  | noStitchAt row position (some tag) =>
    s!"no stitch at [row {row}, position {position}, type {tag}]"
  | unknownLabel key => s!"label '{key}' is not defined"
  | toplessLabel key => s!"label '{key}' is only on stitches without tops"
  | unownedLabel key id => s!"label '{key}' names unknown stitch {id}"
  | badAddress text fault => s!"bad address '{text}': {fault.message}"
  | fractionalAddress text => s!"address '{text}' is not a whole number"

inductive LabelCause where
  | markDispute (key : String) (first other : Modifiers)
  | undefined (key : String)
  | empty (key : String)
  | pastEnds (key : String)
  | lateNeighbour (key : String) (id : Nat)
  | postWithNeighbours (key : String)
  | postOfSeveral (key : String) (count : Nat)
  | noPost (id : Nat) (which : Int)
  | noSlot (key : String) (slot : Nat)
  | unmeasurable (near far : NodeRef) (key : String)
  | unowned (id : Nat)
  | topless (id : Nat)
  | rowsApart (key : String)
  | notAdjacent (key : String) (low high : Nat)
  | unconnected (low high : Nat) (key : String)
  | notEarlier (stitch : String) (node : NodeRef)
  | tooDeep (stitch : String) (depth : Nat) (node : NodeRef)
  deriving DecidableEq, Repr

def LabelCause.kind : LabelCause → FaultKind
  | markDispute _ _ _ => .ambiguousLabelDefinition
  | undefined _ => .internalInconsistency
  | empty _ => .labelNotFound
  | pastEnds _ => .addressNotFound
  | lateNeighbour _ _ => .addressNotFound
  | postWithNeighbours _ => .syntaxError
  | postOfSeveral _ _ => .syntaxError
  | noPost _ _ => .addressNotFound
  | noSlot _ _ => .internalInconsistency
  | unmeasurable _ _ _ => .ambiguousLabelDefinition
  | unowned _ => .internalInconsistency
  | topless _ => .internalInconsistency
  | rowsApart _ => .ambiguousLabelDefinition
  | notAdjacent _ _ _ => .ambiguousLabelDefinition
  | unconnected _ _ _ => .ambiguousLabelDefinition
  | notEarlier _ _ => .addressNotFound
  | tooDeep _ _ _ => .addressNotFound

def LabelCause.message : LabelCause → String
  | markDispute key first other =>
    s!"stitches worked into '{key}' disagree on its modifiers ('{first.display}' and "
      ++ s!"'{other.display}')"
  | undefined key => s!"label '{key}' has no definition"
  | empty key => s!"label '{key}' is empty"
  | pastEnds key => s!"'+' on label '{key}' reaches past the ends of the fabric"
  | lateNeighbour key id => s!"'+' on label '{key}' reaches {id}, which is not an earlier stitch"
  | postWithNeighbours key => s!"'^' and '+' cannot be combined on label '{key}'"
  | postOfSeveral key count => s!"'^' needs a label on a single stitch, '{key}' has {count}"
  | noPost id which => s!"stitch {id} has no post connection {which}"
  | noSlot key slot => s!"label '{key}' has no slot {slot}"
  | unmeasurable near far key =>
    s!"cannot measure between {near.display} and {far.display} in label '{key}'"
  | unowned id => s!"stitch {id} has no owner"
  | topless id => s!"stitch {id} has no top"
  | rowsApart key => s!"stitches sharing label '{key}' are more than one row apart"
  | notAdjacent key low high =>
    s!"label '{key}' joins stitches {low} and {high}, which are not adjacent; use separate labels"
  | unconnected low high key => s!"no connection joins stitches {low} and {high} in label '{key}'"
  | notEarlier stitch node =>
    s!"'{stitch}' is worked into {node.display}, which is not an earlier stitch"
  | tooDeep stitch depth node =>
    s!"'{stitch}' cannot reach {depth} rows down from {node.display}"

inductive ExportCause where
  | neverEmitted (id : Nat)
  | toplessRow (row : Nat)
  | noSuchNode (stitch node : String)
  | missingBottom (stitch bottom : String)
  | tooDeep (stitch : String) (depth : Nat) (node : NodeRef)
  | unownedPost (node : NodeRef)
  | visiblePost (node : NodeRef)
  | nestedBetween (node : NodeRef)
  deriving DecidableEq, Repr

def ExportCause.message : ExportCause → String
  | neverEmitted id => s!"top {id} was never emitted"
  | toplessRow row => s!"row {row} has no tops"
  | noSuchNode stitch node => s!"'{stitch}' has no node '{node}'"
  | missingBottom stitch bottom => s!"'{stitch}' is missing bottom '{bottom}'"
  | tooDeep stitch depth node => s!"'{stitch}' cannot reach {depth} rows down from {node.display}"
  | unownedPost node => s!"post anchor {node.display} has no owner"
  | visiblePost node => s!"post anchor {node.display} names no hidden node"
  | nestedBetween node => s!"nested interpolation {node.display}"

inductive Cause where
  | source (cause : SourceCause)
  | repeats (cause : RepeatCause)
  | index (cause : IndexCause)
  | row (cause : RowCause)
  | place (cause : PlaceCause)
  | label (cause : LabelCause)
  | graph (cause : ExportCause)
  deriving DecidableEq, Repr

def Cause.kind : Cause → FaultKind
  | source cause => cause.kind
  | repeats cause => cause.kind
  | index cause => cause.kind
  | row cause => cause.kind
  | place cause => cause.kind
  | label cause => cause.kind
  | graph _ => .internalInconsistency

def Cause.message : Cause → String
  | source cause => cause.message
  | repeats cause => cause.message
  | index cause => cause.message
  | row cause => cause.message
  | place cause => cause.message
  | label cause => cause.message
  | graph cause => cause.message

end Crochet
