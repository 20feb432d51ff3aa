import Crochet.Fabric.Basic
import Crochet.Options
import Crochet.Registry
import Crochet.Row.Basic

/-! Placing stitches row by row.

A stitch without an address goes one step on from the attachment before it, in the direction of the
row it is worked into; that direction flips with every turn. Places are signed 64-bit words and wrap
round. A reference to a label on several stitches is noted for later. -/
namespace Crochet
open Text

structure Pending where
  key : String
  group : Int
  reversed : Bool
  modifiers : Modifiers
  deriving DecidableEq, Repr

/-- Where an item goes: the id of its first bottom, which may be no top at all. -/
structure Spot where
  first : Int64
  pending : Option Pending := none
  deriving DecidableEq, Repr

/-- The work so far. `position` is the last attachment, maybe one past either end of a row; `row` is
the row whose direction the next step follows. -/
structure Work where
  fabric : Fabric
  registry : Registry
  position : Int64
  row : Option Nat := none
  deriving DecidableEq, Repr

def signedId (id : Nat) : Int64 := Int64.ofNat id

def idOf? (n : Int) : Option Nat := if n < 0 then none else some n.toNat

def indexOf (text : String) (here : Nat) (span : Span) : Outcome Int :=
  let expression := text.toList.flatMap fun c => if c = '%' then Nat.toDigits 10 here else [c]
  match Arith.evalWhole expression with
  | .error fault => faultAt (.place (.badAddress (String.ofList expression) fault)) span
  | .ok none => faultAt (.place (.fractionalAddress (String.ofList expression))) span
  | .ok (some n) => .ok n

namespace Work

def start (registry : Registry) (options : Options) : Work where
  fabric := { firstId := options.firstId, nextId := options.firstId }
  registry := registry
  position := signedId options.firstId - 1

/-- A new row works back over the row before: from its first top, or from its last after a turn. -/
def startRow (w : Work) : Work :=
  match w.fabric.turns.length with
  | 0 => w
  | previous + 1 =>
    let ids := w.fabric.rowIds previous
    let position := match ids.head?, ids.getLast? with
      | some first, some last =>
        if w.fabric.turns[previous]?.getD false then signedId last + 1 else signedId first - 1
      | _, _ => w.position
    { w with position, row := some previous }

def step (w : Work) : Int64 :=
  match w.row with
  | none => 1
  | some row => Int64.ofInt (w.fabric.direction row)

def owner? (w : Work) (id : Int64) : Option Stitch := (idOf? id.toInt).bind w.fabric.owner?

/-- The label a reference names. `A[3]` means the stitch 3 of `A` where no label `A[3]` exists. -/
def labelKey? (w : Work) (ref : Row.LabelRef) : Option (String × Option Int) :=
  if (w.fabric.label? ref.key).isSome then some (ref.key, ref.index)
  else if ref.index.isSome then none
  else do
    let inside ← before? [']'] ref.key.toList
    let (name, selector) ← cutFirst (· == '[') inside
    let index ← Decimal.integer? (trim selector)
    let key := String.ofList name
    if (w.fabric.label? key).isSome then some (key, some index) else none

def refer (w : Work) (key : String) : Work :=
  let labels := w.fabric.labels.map fun l =>
    if l.key = key then { l with referenced := true } else l
  { w with fabric := { w.fabric with labels } }

def locateLabel (w : Work) (ref : Row.LabelRef) (span : Span) : Outcome (Spot × Work) :=
  match w.labelKey? ref with
  | none => faultAt (.place (.unknownLabel ref.key)) span
  | some (key, index) => match w.fabric.label? key with
    | none => faultAt (.place (.unknownLabel key)) span
    | some label => match label.ids.getLast? with
      | none => faultAt (.place (.toplessLabel key)) span
      | some lastId => match w.fabric.owner? lastId with
        | none => faultAt (.place (.unownedLabel key lastId)) span
        | some s =>
          let modifiers := label.modifiers.merge ref.modifiers
          let last := signedId lastId
          let n := Int64.ofNat label.ids.length
          let forward := 0 < w.fabric.direction s.row
          let w := { w.refer key with row := some s.row }
          match index with
          | some i =>
            let i := Int64.ofInt i
            .ok (⟨if forward then last + i - n + 1 else last - i, none⟩, w)
          | none =>
            let spread := 1 < label.ids.length || modifiers.extend.isSome || modifiers.post.isSome
            let pending : Pending := ⟨key, ref.group, ref.reversed, modifiers⟩
            .ok (⟨if forward then last else last - n + 1, if spread then some pending else none⟩, w)

def locateAbsolute (w : Work) (current : Nat) (row position : String) (kind : Option String)
    (span : Span) : Outcome (Spot × Work) := do
  let x ← indexOf row current span
  let y ← indexOf position (w.fabric.rowIds current).length span
  let x := if x < 0 then x + current else x
  match idOf? x with
  | none => faultAt (.place (.noSuchRow x)) span
  | some row =>
    let direction := if kind.isSome then w.fabric.direction row else 1
    let id ← (w.fabric.findByPosition row y none direction kind).mapError (·.orAt span)
    return (⟨signedId id, none⟩, { w with row := some row })

def locateRelative (w : Work) (kind : Option String) (offset : Int) (span : Span) :
    Outcome (Spot × Work) :=
  match w.owner? w.position with
  | none => faultAt (.place (.cursorOffStitch w.position.toInt)) span
  | some s => do
    let id ← (w.fabric.findByPosition s.row offset (idOf? w.position.toInt)
      (w.fabric.direction s.row) kind).mapError (·.orAt span)
    return (⟨signedId id, none⟩, { w with row := some s.row })

def locate (w : Work) (item : Row.Item) : Outcome (Spot × Work) :=
  match item.attached.attachment.target with
  | .advance => .ok (⟨w.position + w.step, none⟩, w)
  | .label ref => w.locateLabel ref item.span
  | .absolute row position kind => w.locateAbsolute item.row row position kind item.span
  | .relative kind offset => w.locateRelative kind offset item.span

def bottomStep (w : Work) (first : Int64) : Int64 :=
  match w.owner? first with
  | some s => Int64.ofInt (w.fabric.direction s.row)
  | none => Int64.ofInt (sign (isTurned w.fabric.turns))

/-- A bottom must be a top that exists, except that one on a pending label is a stand-in. -/
def bottomAt (f : Fabric) (stitch : String) (pending : Bool) (span : Span) (id : Int64) :
    Outcome NodeRef :=
  let n := id.toInt
  if 0 ≤ n ∧ f.firstId ≤ n.toNat ∧ n.toNat < f.nextId then .ok (.top n.toNat)
  else if pending then .ok (.top f.firstId)
  else faultAt (.place (.noSuchStitch stitch n)) span

def aroundPost (f : Fabric) (post : Option (Option Int)) (wanted : List Int64) (span : Span)
    (bottoms : List NodeRef) : Outcome (List NodeRef) :=
  match post, wanted with
  | some which, first :: _ =>
    let id := first.toUInt64.toNat
    let which := which.getD (-1)
    match (f.owner? id).bind (·.postTarget id which) with
    | some (target, _) => .ok (bottoms.set 0 target)
    | none => faultAt (.place (.noPost id which)) span
  | _, _ => .ok bottoms

end Work

def Label.grow (l : Label) (d : Row.LabelDef) (ids : List Nat) : Outcome Label :=
  if l.modifiers ≠ d.modifiers then
    faultAt (.place (.redefinedLabel d.key d.modifiers l.modifiers)) d.span
  else if l.referenced && !ids.isEmpty then faultAt (.place (.growingLabel d.key)) d.span
  else .ok { l with ids := l.ids ++ ids }

def defineLabel (ids : List Nat) (labels : List Label) (d : Row.LabelDef) : Outcome (List Label) :=
  match labels with
  | [] => .ok [{ key := d.key, ids, modifiers := d.modifiers, span := d.span }]
  | l :: rest =>
    if l.key = d.key then (l.grow d ids).map (· :: rest)
    else (defineLabel ids rest d).map (l :: ·)

namespace Work

def resolve (w : Work) (name : String) (span : Span) : Outcome (Template × Work) :=
  match w.registry.resolve name with
  | (.error fault, _) => faultAt (.place (.template fault)) span
  | (.ok template, registry) => .ok (template, { w with registry })

def place (w : Work) (name : String) (item : Row.Item) : Outcome Work := do
  let attachment := item.attached.attachment
  let (template, w) ← w.resolve name item.span
  let (spot, w) ← w.locate item
  let step := w.bottomStep spot.first
  let wanted := (List.range template.bottoms.length).map fun k =>
    spot.first + Int64.ofNat k * step
  let pending := if wanted.isEmpty then none else spot.pending
  let bottoms ← wanted.mapM (bottomAt w.fabric name pending.isSome item.span)
  let bottoms ← aroundPost w.fabric attachment.post wanted item.span bottoms
  let tops := (List.range template.tops.length).map (w.fabric.nextId + ·)
  let labels ← item.labels.foldlM (defineLabel tops) w.fabric.labels
  let uid := w.fabric.stitches.length
  let stitch : Stitch := {
    uid, name, template, tops, bottoms, row := item.row, color := item.color,
    labels := item.labels.map Row.LabelDef.key, attachment := item.attached.raw,
    source := item.span }
  let uses := match pending with
    | some p => [⟨uid, p.key, p.group, p.reversed, p.modifiers, item.span⟩]
    | none => []
  let position := match wanted.getLast? with
    | some last => last
    | none => if attachment.target = .advance then w.position else spot.first
  let fabric := { w.fabric with
    stitches := w.fabric.stitches ++ [stitch]
    labels := labels
    uses := w.fabric.uses ++ uses
    nextId := w.fabric.nextId + tops.length }
  return { w with fabric, position }

def seek (w : Work) (item : Row.Item) : Outcome Work := do
  let attachment := item.attached.attachment
  let labelPost := match attachment.target with
    | .label ref => ref.modifiers.post.isSome
    | _ => false
  if attachment.post.isSome || labelPost then faultAt (.place .seekAroundPost) item.span
  else
    let (spot, w) ← w.locate item
    return { w with position := spot.first }

def putItem (w : Work) (item : Row.Item) : Outcome Work :=
  match item.kind with
  | .turn => .ok w
  | .seek => w.seek item
  | .stitch name => w.place name item

def endsInTurn (row : List Row.Item) : Bool :=
  match row.getLast? with
  | some item => item.kind == .turn
  | none => false

def putRow (w : Work) (row : List Row.Item) : Outcome Work := do
  let w ← row.foldlM putItem w.startRow
  let turns := w.fabric.turns ++ [endsInTurn row]
  return { w with fabric := { w.fabric with turns } }

end Work

def Fabric.weave (rows : Rows) (registry : Registry) (options : Options) : Outcome Fabric :=
  (rows.foldlM Work.putRow (Work.start registry options)).map Work.fabric

end Crochet
