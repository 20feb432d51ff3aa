import Crochet.Repeat.Zone

/-! Repeats written out. An item with a count becomes that many copies joined by commas.

In a counted group a bare `>` ends the last copy there, and a bare `<` lets the first one start
there:

    [12sc,sc3inc,>,2sk]*3   is   [12sc,sc3inc,2sk],[12sc,sc3inc,2sk],[12sc,sc3inc]
    [ch,<,sc]*2             is   [sc],[ch,sc] -/
namespace Crochet.Repeat

def joined (origin : Nat) : List MappedText → MappedText
  | [] => []
  | [t] => t
  | t :: rest => t ++ MappedText.made origin ',' :: joined origin rest

def markerIndex (marker : Marker) (span : Span) (parts : List Item) : Outcome (Option Nat) :=
  match parts.zipIdx.filter fun (item, _) => marker.isText item.text with
  | [] => .ok none
  | [(_, k)] => .ok (some k)
  | _ => faultAt (.repeats (.secondMarker marker.char)) span

/-- What an item adds to a copy; a marker adds only a line end after it. -/
def Item.copied (item : Item) : MappedText :=
  if isMarker item.text then (item.separator.filter (·.char == '\n')).toList
  else item.text ++ item.separator.toList

def passage (parts : List Item) (start stop : Nat) : MappedText :=
  MappedText.trimCommas (((parts.take stop).drop start).flatMap Item.copied)

def copies (inner : MappedText) (count : Nat) (span : Span) : Outcome (List MappedText) := do
  let parts := items inner
  let exit ← markerIndex .exit span parts
  let entry ← markerIndex .entry span parts
  let all := parts.length
  let start := match entry with
    | some k => k + 1
    | none => 0
  let stop := exit.getD all
  return match count with
    | 0 => []
    | 1 => [passage parts start stop]
    | n + 2 => passage parts start all :: List.replicate n (passage parts 0 all)
        ++ [passage parts 0 stop]

def unfoldLiteral (item text : MappedText) (d : Dress) : Outcome MappedText :=
  if isMarker text && (d.count.isSome || !d.suffix.isEmpty) then
    faultAt (.repeats .dressedMarker) (MappedText.cover item)
  else
    .ok (joined (MappedText.startOrigin item)
      (List.replicate (d.count.getD 1) (text ++ d.suffix)))

def unfoldGroup (item : MappedText) (opening : Glyph) (inner : MappedText) (closing : Glyph)
    (d : Dress) : Outcome MappedText :=
  let wrap (content : MappedText) : MappedText := opening :: content ++ closing :: d.suffix
  match d.count with
  | none => match markerSpan? inner with
    | some span => faultAt (.repeats .uncountedMarker) span
    | none => .ok (wrap inner)
  | some count => do
    let copies ← copies inner count (MappedText.cover item)
    return joined (MappedText.startOrigin item) (copies.map wrap)

def unfoldBare (item : MappedText) (d : Dress) : Outcome MappedText :=
  if d.count.isSome then faultAt (.repeats .countWithoutStitch) (MappedText.cover item)
  else if d.attached then .ok d.suffix
  else faultAt (.repeats .labelWithoutStitch) (MappedText.cover item)

def expandItem (item : MappedText)
    (inside : (inner : MappedText) → inner.length < item.length → Outcome MappedText) :
    Outcome MappedText :=
  if item.isEmpty then .ok []
  else match read : headOf item with
    | .error fault => .error fault
    | .ok (head, rest) => do
      let dress ← dressFrom item { count := head.count } rest
      match body : head.body with
      | none => unfoldBare item dress
      | some (.literal text) => unfoldLiteral item text dress
      | some (.group opening inner closing) =>
        let inner ← inside inner (headInner read body)
        unfoldGroup item opening inner closing dress

def expandSequence (t : MappedText) : Outcome MappedText := do
  let parts ← (items t).attach.mapM fun ⟨item, _⟩ => do
    let text ← expandItem item.text fun inner _ => expandSequence inner
    return text ++ item.separator.toList
  return parts.flatten
termination_by t.length
decreasing_by
  rename_i member shorter
  exact Nat.lt_of_lt_of_le shorter (itemsLength member)

def expand (t : MappedText) : Outcome MappedText := do
  let out ← expandSequence t
  match markerSpan? out with
  | some span => faultAt (.repeats .strayMarker) span
  | none => return out

end Crochet.Repeat
