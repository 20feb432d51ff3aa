import Crochet.Row.Address
import Crochet.Row.Cursor

/-! What hangs on an item: labels `.A` and one attachment `@...`. -/
namespace Crochet.Row
open Text

section
variable (place : Span → Span)

def labelName (mark : Char) (c : Cursor) : Outcome (String × Cursor) :=
  match c.rest with
  | [] => faultAt (.row (.labelNameExpected mark none)) (place c.here)
  | t :: rest =>
    if t.kind = .name then .ok (t.text, ⟨t.stop, rest⟩)
    else faultAt (.row (.labelNameExpected mark (some t.symbol))) (place t.span)

def selector? (c : Cursor) : Outcome (Option (List Char × Token) × Cursor) :=
  match c.accept? (.opens .square) with
  | none => .ok (none, c)
  | some (opening, after) =>
    (bracketText place opening after).map fun (inner, closing, c) => (some (inner, closing), c)

/-- The key of a label: an empty selector is none. -/
def keyOf (name : String) (selector : List Char) : String :=
  if selector.isEmpty then name else s!"{name}[{String.ofList selector}]"

def labelDef (dot : Token) (c : Cursor) : Outcome (LabelDef × Cursor) := do
  let (name, c) ← labelName place '.' c
  let (selector, c) ← selector? place c
  let (marks, c) ← marksFrom place {} c
  let span := place ⟨dot.start, c.last⟩
  if marks.reversed then faultAt (.row .reversedLabel) span
  else return (⟨keyOf name ((selector.map Prod.fst).getD []), marks.modifiers, span⟩, c)

def passOf (inner : List Char) (closing : Token) : Outcome (List Char × Int) :=
  match cutFirst (· == ';') inner with
  | none => .ok (inner, 0)
  | some (selector, pass) => match wholeOf pass with
    | some group => .ok (selector, group)
    | none => faultAt (.row (.passNumber (String.ofList (trim pass)))) (place closing.span)

def indexOf (c : Cursor) : Outcome (Option Int × Cursor) := do
  match ← selector? place c with
  | (none, c) => return (none, c)
  | (some (inner, closing), c) => match wholeOf inner with
    | some index => return (some index, c)
    | none => faultAt (.row (.indexNumber (String.ofList inner))) (place closing.span)

def selection (name : String) (c : Cursor) : Outcome (LabelRef × Cursor) := do
  match ← selector? place c with
  | (none, c) => return ({ key := name }, c)
  | (some (inner, closing), c) =>
    let (selector, group) ← passOf place inner closing
    let (index, c) ← indexOf place c
    return ({ key := keyOf name selector, group, index }, c)

def trailingPass (ref : LabelRef) (c : Cursor) : Outcome (LabelRef × Cursor) :=
  match c.accept? .semicolon with
  | none => .ok (ref, c)
  | some (semicolon, after) =>
    match after.number? with
    | none => faultAt (.row .passExpected) (place semicolon.span)
    | some (x, _, c) => match Decimal.wholeWord? x with
      | some group => .ok ({ ref with group }, c)
      | none => faultAt (.row .passExpected) (place semicolon.span)

def labelRef (c : Cursor) : Outcome (LabelRef × Cursor) := do
  let (name, c) ← labelName place '@' c
  let (ref, c) ← selection place name c
  let (ref, c) ← trailingPass place ref c
  let (marks, c) ← marksFrom place {} c
  return ({ ref with reversed := marks.reversed, modifiers := marks.modifiers }, c)

def addressed (mark opening : Token) (c : Cursor) : Outcome (Attachment × Cursor) := do
  let (inner, closing, c) ← bracketText place opening c
  let target ← addressOf inner (place (mark.span.merge closing.span))
  let (marks, c) ← marksFrom place {} c
  if marks.reversed || marks.modifiers.extend.isSome || marks.modifiers.skip.isSome then
    faultAt (.row .addressMark) (place ⟨mark.start, c.last⟩)
  else return (⟨target, marks.modifiers.post⟩, c)

def attachmentAt (mark : Token) (c : Cursor) : Outcome (Attachment × Cursor) :=
  match c.rest with
  | [] => faultAt (.row .addressExpected) (place mark.span)
  | t :: rest => match t.kind with
    | .opens .square => addressed place mark t ⟨t.stop, rest⟩
    | .name => (labelRef place c).map fun (ref, c) => (⟨.label ref, none⟩, c)
    | .number _ => faultAt (.row .numberedCursor) (place t.span)
    | _ => faultAt (.row .addressExpected) (place mark.span)

def readText (before after : Cursor) : String :=
  String.ofList ((before.rest.take (before.size - after.size)).flatMap Token.padded)

def attached (mark : Token) (c : Cursor) : Outcome (Attached × Cursor) :=
  (attachmentAt place mark c).map fun (attachment, after) =>
    (⟨attachment, readText c after⟩, after)

structure Suffixes where
  labels : List LabelDef := []
  attached : Option Attached := none
  deriving DecidableEq, Repr

def suffixStep (s : Suffixes) (c : Cursor) : Outcome (Option (Suffixes × Cursor)) :=
  match c.rest with
  | [] => .ok none
  | t :: rest =>
    let after : Cursor := ⟨t.stop, rest⟩
    match t.kind with
    | .dot => (labelDef place t after).map fun (label, c) =>
        some ({ s with labels := s.labels ++ [label] }, c)
    | .address =>
      if s.attached.isSome then faultAt (.row .secondAttachment) (place t.span)
      else (attached place t after).map fun (a, c) => some ({ s with attached := some a }, c)
    | _ => .ok none

theorem labelNameSize {mark : Char} {c after : Cursor} {name : String}
    (h : labelName place mark c = .ok (name, after)) : after.size < c.size := by
  simp only [labelName, faultAt] at h
  repeat' split at h
  all_goals cases h
  simp_all [Cursor.size]

theorem selectorSize {c after : Cursor} {inner : Option (List Char × Token)}
    (h : selector? place c = .ok (inner, after)) : after.size ≤ c.size := by
  simp only [selector?] at h
  split at h
  · cases h; exact Nat.le_refl _
  · rename_i opened
    obtain ⟨⟨text, closing, d⟩, read, same⟩ := mapOk h
    cases same
    exact Nat.le_of_lt (Nat.lt_trans (bracketTextSize place read) (acceptSize opened))

theorem labelDefSize {dot : Token} {c after : Cursor} {label : LabelDef}
    (h : labelDef place dot c = .ok (label, after)) : after.size ≤ c.size := by
  unfold labelDef at h
  obtain ⟨⟨name, c₁⟩, named, h⟩ := bindOk h
  obtain ⟨⟨selector, c₂⟩, selected, h⟩ := bindOk h
  obtain ⟨⟨marks, c₃⟩, marked, h⟩ := bindOk h
  have first := labelNameSize place named
  have second := selectorSize place selected
  have third := marksSize place marked
  simp only [faultAt] at h
  split at h <;> cases h
  omega

theorem indexSize {c after : Cursor} {index : Option Int}
    (h : indexOf place c = .ok (index, after)) : after.size ≤ c.size := by
  unfold indexOf at h
  obtain ⟨⟨inner, d⟩, selected, h⟩ := bindOk h
  have shorter := selectorSize place selected
  simp only [faultAt] at h
  repeat' split at h
  all_goals cases h
  all_goals simp_all

theorem selectionSize {name : String} {c after : Cursor} {ref : LabelRef}
    (h : selection place name c = .ok (ref, after)) : after.size ≤ c.size := by
  unfold selection at h
  obtain ⟨⟨inner, d⟩, selected, h⟩ := bindOk h
  have shorter := selectorSize place selected
  cases inner with
  | none => cases h; exact shorter
  | some text =>
    obtain ⟨pass, _, h⟩ := bindOk h
    obtain ⟨⟨index, e⟩, indexed, h⟩ := bindOk h
    cases h
    exact Nat.le_trans (indexSize place indexed) shorter

theorem trailingPassSize {c after : Cursor} {ref found : LabelRef}
    (h : trailingPass place ref c = .ok (found, after)) : after.size ≤ c.size := by
  simp only [trailingPass, faultAt] at h
  split at h
  · cases h; exact Nat.le_refl _
  · rename_i opened
    have shorter := acceptSize opened
    repeat' split at h
    all_goals cases h
    exact Nat.le_of_lt (Nat.lt_trans (numberSize (by assumption)) shorter)

theorem labelRefSize {c after : Cursor} {ref : LabelRef}
    (h : labelRef place c = .ok (ref, after)) : after.size < c.size := by
  unfold labelRef at h
  obtain ⟨⟨name, c₁⟩, named, h⟩ := bindOk h
  obtain ⟨⟨first, c₂⟩, selected, h⟩ := bindOk h
  obtain ⟨⟨second, c₃⟩, passed, h⟩ := bindOk h
  obtain ⟨⟨marks, c₄⟩, marked, h⟩ := bindOk h
  cases h
  have := labelNameSize place named
  have := selectionSize place selected
  have := trailingPassSize place passed
  have := marksSize place marked
  omega

theorem addressedSize {mark opening : Token} {c after : Cursor} {a : Attachment}
    (h : addressed place mark opening c = .ok (a, after)) : after.size ≤ c.size := by
  unfold addressed at h
  obtain ⟨⟨inner, closing, c₁⟩, bracketed, h⟩ := bindOk h
  obtain ⟨target, _, h⟩ := bindOk h
  obtain ⟨⟨marks, c₂⟩, marked, h⟩ := bindOk h
  have := bracketTextSize place bracketed
  have := marksSize place marked
  simp only [faultAt] at h
  split at h <;> cases h
  omega

theorem attachedSize {mark : Token} {c after : Cursor} {a : Attached}
    (h : attached place mark c = .ok (a, after)) : after.size < c.size := by
  obtain ⟨⟨attachment, d⟩, read, same⟩ := mapOk h
  cases same
  obtain ⟨last, rest⟩ := c
  cases rest with
  | nil => cases read
  | cons t rest =>
    simp only [attachmentAt, faultAt] at read
    split at read
    · exact Nat.lt_of_le_of_lt (addressedSize place read) (by simp [Cursor.size])
    · obtain ⟨⟨ref, e⟩, found, same⟩ := mapOk read
      cases same
      exact labelRefSize place found
    · cases read
    · cases read

theorem suffixStepSize {s next : Suffixes} {c after : Cursor}
    (h : suffixStep place s c = .ok (some (next, after))) : after.size < c.size := by
  obtain ⟨last, rest⟩ := c
  cases rest with
  | nil => cases h
  | cons t rest =>
    have tail : (⟨t.stop, rest⟩ : Cursor).size < (⟨last, t :: rest⟩ : Cursor).size := by
      simp [Cursor.size]
    simp only [suffixStep, faultAt] at h
    repeat' split at h
    all_goals try cases h
    all_goals
      obtain ⟨⟨value, d⟩, read, same⟩ := mapOk h
      cases same
    · exact Nat.lt_of_le_of_lt (labelDefSize place read) tail
    · exact Nat.lt_trans (attachedSize place read) tail

def suffixesFrom (s : Suffixes) (c : Cursor) : Outcome (Suffixes × Cursor) :=
  match _step : suffixStep place s c with
  | .error fault => .error fault
  | .ok none => .ok (s, c)
  | .ok (some (next, after)) => suffixesFrom next after
termination_by c.size
decreasing_by exact suffixStepSize place _step

theorem suffixesSize {s found : Suffixes} {c after : Cursor}
    (h : suffixesFrom place s c = .ok (found, after)) : after.size ≤ c.size := by
  fun_induction suffixesFrom place s c with
  | case1 => cases h
  | case2 => cases h; exact Nat.le_refl _
  | case3 s c next middle step ih =>
    exact Nat.le_trans (ih h) (Nat.le_of_lt (suffixStepSize place step))

end
end Crochet.Row
