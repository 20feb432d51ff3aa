/-! The kinds of fault a pattern can have. -/
namespace Crochet

inductive FaultKind where
  | unbalancedBrackets
  | unknownStitchType
  | duplicateDefinition
  | nameCollision
  | turnNotAtRowEnd
  | addressNotFound
  | labelNotFound
  | ambiguousLabelDefinition
  | multiplierParseError
  | unsupportedNesting
  | internalInconsistency
  | syntaxError
  deriving DecidableEq, Repr

def FaultKind.display : FaultKind → String
  | unbalancedBrackets => "unbalanced brackets"
  | unknownStitchType => "unknown stitch type"
  | duplicateDefinition => "duplicate definition"
  | nameCollision => "name collision"
  | turnNotAtRowEnd => "turn not at row end"
  | addressNotFound => "address not found"
  | labelNotFound => "label not found"
  | ambiguousLabelDefinition => "ambiguous label definition"
  | multiplierParseError => "bad multiplier"
  | unsupportedNesting => "unsupported nesting"
  | internalInconsistency => "internal inconsistency"
  | syntaxError => "syntax error"

end Crochet
