import Crochet.Json.Basic
import Crochet.Row.Outline

/-! Rows as JSON. -/
namespace Crochet.Row

def spanJson (s : Span) : Json := .object [("start", .integer s.start), ("end", .integer s.stop)]

def postJson (post : Option (Option Int)) : Json := .option (.option .integer) post

def modifiersJson (m : Modifiers) : Json := .object [
  ("extend", .option (fun e => .string (extendName e)) m.extend),
  ("skip", .option (fun s => .string (skipName s)) m.skip), ("post", postJson m.post)]

def LabelDef.json (l : LabelDef) : Json := .object [
  ("key", .string l.key), ("modifiers", modifiersJson l.modifiers), ("span", spanJson l.span)]

def LabelRef.json (r : LabelRef) : Json := .object [
  ("key", .string r.key), ("group", .integer r.group), ("reversed", .bool r.reversed),
  ("index", .option .integer r.index), ("modifiers", modifiersJson r.modifiers)]

def Target.json : Target → Json
  | .advance => .string "Advance"
  | .absolute row position kind => .object [("Absolute", .object [
    ("row", .string row), ("pos", .string position), ("stitch_type", .option .string kind)])]
  | .relative kind offset => .object [("Relative", .object [
    ("stitch_type", .option .string kind), ("offset", .integer offset)])]
  | .label ref => .object [("Label", ref.json)]

def Attachment.json (a : Attachment) : Json :=
  .object [("target", a.target.json), ("post", postJson a.post)]

def Kind.json : Kind → Json
  | .stitch name => .object [("Stitch", .string name)]
  | .turn => .string "Turn"
  | .seek => .string "Seek"

def Item.json (t : Item) : Json := .object [
  ("kind", t.kind.json), ("labels", .array (t.labels.map LabelDef.json)),
  ("attach", t.attached.attachment.json), ("raw_attachment", .string t.attached.raw),
  ("row", .integer t.row), ("color", .string t.color), ("span", spanJson t.span)]

def json (rows : Rows) : Json :=
  .object [("rows", .array (rows.map fun row => .array (row.map Item.json)))]

end Crochet.Row
