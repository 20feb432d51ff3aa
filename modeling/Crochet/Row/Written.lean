import Crochet.Row.Basic

/-! Rows written as flat notation: a line for each row, without repeats and variables.

A colour is named where it changes. Labels that came from groups become groups around the one
stitch, so that the text reads back as the same rows. -/
namespace Crochet.Row

def Attached.written (a : Attached) : String := if a.raw.isEmpty then "" else "@" ++ a.raw

def LabelDef.written (l : LabelDef) : String := s!".{l.key}{l.modifiers.display}"

def Item.written (item : Item) : String :=
  match item.kind with
  | .turn => "turn"
  | .seek => item.attached.written
  | .stitch name => match item.labels.reverse with
    | [] => name ++ item.attached.written
    | own :: around =>
      around.foldl (fun text label => s!"[{text}]{label.written}")
        (name ++ own.written ++ item.attached.written)

def rowWords (color : String) : List Item → List String × String
  | [] => ([], color)
  | item :: rest =>
    if item.kind ≠ .turn ∧ item.color ≠ color then
      let (words, color) := rowWords item.color rest
      (s!"COLOR:{item.color}" :: item.written :: words, color)
    else
      let (words, color) := rowWords color rest
      (item.written :: words, color)

def rowLines (color : String) : Rows → List String
  | [] => []
  | row :: rest =>
    let (words, color) := rowWords color row
    ",".intercalate words :: rowLines color rest

def written (rows : Rows) (color : String) : String := "\n".intercalate (rowLines color rows)

end Crochet.Row
