import Crochet.Fault.Basic
import Crochet.Row.Basic
import Crochet.Text.Word

/-! The inside of a bracketed address: `row,position` or `@+offset`, either after `type:`. -/
namespace Crochet.Row
open Text

def wholeOf (text : List Char) : Option Int := Arith.whole? (trim text)

def addressKind (inner : List Char) (span : Span) : Outcome (Option String × List Char) :=
  match cutFirst (· == ':') inner with
  | none => .ok (none, trim inner)
  | some (kind, rest) =>
    let kind := trim kind
    if kind.isEmpty || !kind.all isNameChar then
      faultAt (.row (.stitchType (String.ofList kind))) span
    else .ok (some (String.ofList kind), trim rest)

def cursorTarget (kind : Option String) (offset : List Char) (span : Span) : Outcome Target :=
  match offset with
  | [] => .ok (.relative kind 0)
  | c :: _ =>
    if c.isDigit then faultAt (.row .numberedCursor) span
    else match wholeOf ('0' :: offset) with
      | some n => .ok (.relative kind n)
      | none => faultAt (.row (.cursorOffset (String.ofList offset))) span

def addressOf (inner : List Char) (span : Span) : Outcome Target := do
  let (kind, rest) ← addressKind inner span
  match after? ['@'] rest with
  | some offset => cursorTarget kind offset span
  | none =>
    let form := faultAt (.row (.addressForm (String.ofList inner))) span
    match (pieces (· == ',') rest).map trim with
    | [row, position] =>
      if row.isEmpty || position.isEmpty then form
      else return .absolute (String.ofList row) (String.ofList position) kind
    | _ => form

end Crochet.Row
