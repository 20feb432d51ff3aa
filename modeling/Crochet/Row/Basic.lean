import Crochet.Modifiers
import Crochet.Span

/-! Rows of a pattern: the items of expanded notation as a tree, and flat as tokens. -/
namespace Crochet.Row

/-- A label put on a stitch. The key holds the selector too, as in `C[0,3]`. -/
structure LabelDef where
  key : String
  modifiers : Modifiers
  span : Span
  deriving DecidableEq, Repr

/-- A label worked into: `group` numbers the pass, `index` picks one stitch of the label. -/
structure LabelRef where
  key : String
  group : Int := 0
  reversed : Bool := false
  index : Option Int := none
  modifiers : Modifiers := {}
  deriving DecidableEq, Repr

/-- Where a stitch goes. Rows and positions are kept as written, `%` included. -/
inductive Target where
  | advance
  | absolute (row position : String) (kind : Option String)
  | relative (kind : Option String) (offset : Int)
  | label (ref : LabelRef)
  deriving DecidableEq, Repr

structure Attachment where
  target : Target := .advance
  post : Option (Option Int) := none
  deriving DecidableEq, Repr

structure Attached where
  attachment : Attachment := {}
  raw : String := ""
  deriving DecidableEq, Repr

inductive Node where
  | stitch (name : String) (labels : List LabelDef) (attached : Option Attached) (span : Span)
  | group (lines : List (List Node)) (labels : List LabelDef) (attached : Option Attached)
      (span : Span)
  | turn (span : Span)
  | color (key : Nat) (span : Span)
  | seek (attached : Attached) (span : Span)
  deriving Repr

inductive Kind where
  | stitch (name : String)
  | turn
  | seek
  deriving DecidableEq, Repr

def Kind.name? : Kind → Option String
  | stitch name => some name
  | _ => none

/-- An item of a row with all it takes from the groups around it. -/
structure Item where
  kind : Kind
  labels : List LabelDef
  attached : Attached
  row : Nat
  color : String
  span : Span
  deriving DecidableEq, Repr

end Crochet.Row

namespace Crochet

abbrev Rows := List (List Row.Item)

end Crochet
