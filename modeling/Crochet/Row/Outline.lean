import Crochet.Outline
import Crochet.Row.Basic

/-! Rows as an outline. -/
namespace Crochet.Row
open Crochet (Outline)

def spanOutline (s : Span) : Outline :=
  .record "Span" [("start", .integer s.start), ("end", .integer s.stop)]

def postOutline (post : Option (Option Int)) : Outline := .option (.option .integer) post

def extendName : Extend → String
  | .both => "Both"
  | .left => "Left"
  | .right => "Right"

def skipName : Skip → String
  | .both => "Both"
  | .first => "First"
  | .last => "Last"

def modifiersOutline (m : Modifiers) : Outline := .record "LabelModifiers" [
  ("extend", .option (fun e => .word (extendName e)) m.extend),
  ("skip", .option (fun s => .word (skipName s)) m.skip), ("post", postOutline m.post)]

def LabelDef.outline (l : LabelDef) : Outline := .record "LabelDef" [
  ("key", .quoted l.key), ("modifiers", modifiersOutline l.modifiers), ("span", spanOutline l.span)]

def LabelRef.outline (r : LabelRef) : Outline := .record "LabelRef" [
  ("key", .quoted r.key), ("group", .integer r.group), ("reversed", .bool r.reversed),
  ("index", .option .integer r.index), ("modifiers", modifiersOutline r.modifiers)]

def Target.outline : Target → Outline
  | .advance => .word "Advance"
  | .absolute row position kind => .record "Absolute" [
    ("row", .quoted row), ("pos", .quoted position), ("stitch_type", .option .quoted kind)]
  | .relative kind offset => .record "Relative" [
    ("stitch_type", .option .quoted kind), ("offset", .integer offset)]
  | .label ref => .call "Label" ref.outline

def Attachment.outline (a : Attachment) : Outline :=
  .record "AttachSpec" [("target", a.target.outline), ("post", postOutline a.post)]

def Kind.outline : Kind → Outline
  | .stitch name => .call "Stitch" (.quoted name)
  | .turn => .word "Turn"
  | .seek => .word "Seek"

def Item.outline (t : Item) : Outline := .record "RowToken" [
  ("kind", t.kind.outline), ("labels", .list (t.labels.map LabelDef.outline)),
  ("attach", t.attached.attachment.outline), ("raw_attachment", .quoted t.attached.raw),
  ("row", .integer t.row), ("color", .quoted t.color), ("span", spanOutline t.span)]

def outline (rows : Rows) : Outline :=
  .record "Rows" [("rows", .list (rows.map fun row => .list (row.map Item.outline)))]

end Crochet.Row
