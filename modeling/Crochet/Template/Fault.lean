import Crochet.Decimal.Read

/-! Why a template cannot be read, derived or looked up. -/
namespace Crochet

inductive SpecFault where
  | noSentinel
  | noDescription
  | sections (found : Nat)
  | untypedTop (item : String)
  | depthTooLarge (item : String)
  | depthZero (item : String)
  | openLoop (item : String)
  | loopSide (item : String)
  | loopWeight (item : String) (fault : Decimal.RealFault)
  | unnamedBottom (item : String)
  | attachmentForm (item : String)
  | attachmentBottom (item bottom : String)
  | attachmentTop (item top : String)
  | connectionForm (item : String)
  | connectionLength (item : String) (fault : Decimal.RealFault)
  | connectionNegative (item : String)
  | connectionNode (item node : String)
  deriving DecidableEq, Repr

def SpecFault.message : SpecFault → String
  | noSentinel => "spec must start with '&'"
  | noDescription => "missing '^' after the description"
  | sections found => s!"expected 4 ':'-separated sections after '^', found {found}"
  | untypedTop item => s!"top node '{item}' needs a type, e.g. A(sc)"
  | depthTooLarge item => s!"bad depth in bottom node '{item}': {Decimal.tooLarge}"
  | depthZero item => s!"bottom node '{item}' has depth 0"
  | openLoop item => s!"unterminated loop flag in '{item}'"
  | loopSide item => s!"loop flag in '{item}' must be front or back"
  | loopWeight item fault => s!"bad loop weight in '{item}': {fault.message}"
  | unnamedBottom item => s!"bottom node '{item}' has no name"
  | attachmentForm item => s!"attachment '{item}' must look like Top-Bottom"
  | attachmentBottom item bottom => s!"attachment '{item}' names unknown bottom '{bottom}'"
  | attachmentTop item top => s!"attachment '{item}' names unknown top '{top}'"
  | connectionForm item => s!"connection '{item}' must look like from-length-to"
  | connectionLength item fault => s!"bad length in connection '{item}': {fault.message}"
  | connectionNegative item => s!"length in connection '{item}' must be a non-negative number"
  | connectionNode item node => s!"connection '{item}' names unknown node '{node}'"

inductive VariantFault where
  | countZero
  | severalTops (base : String) (count : Nat)
  | severalBottoms (base : String) (count : Nat)
  | hiddenNodes (base : String)
  deriving DecidableEq, Repr

def VariantFault.message : VariantFault → String
  | countZero => "the repeat count must be at least 1"
  | severalTops base count =>
    s!"'{base}' has {count} top nodes; only single-top stitches can be worked together"
  | severalBottoms base count =>
    s!"'{base}' has {count} bottom nodes; only single-bottom stitches can be increased"
  | hiddenNodes base => s!"'{base}' has hidden nodes and cannot be rescaled"

inductive TemplateFault where
  | unknown (name : String)
  | duplicate (name : String)
  | malformed (name : String) (reason : SpecFault)
  | underivable (name : String) (reason : VariantFault)
  deriving DecidableEq, Repr

def TemplateFault.message : TemplateFault → String
  | unknown name => s!"unknown stitch type '{name}'"
  | duplicate name => s!"stitch '{name}' is already defined"
  | malformed name reason => s!"malformed stitch template '{name}': {reason.message}"
  | underivable name reason => s!"cannot derive stitch '{name}': {reason.message}"

end Crochet
