import Crochet.Fault.Basic
import Crochet.Repeat.Item

/-! The zones of an item: a count, a body, then labels, attachments and a count in any order.

    3*[sc,2dc].A@B
    [sc,dc]*3.A
    12sc -/
namespace Crochet.Repeat
open Text

inductive Body where
  | literal (text : MappedText)
  | group (opening : Glyph) (inner : MappedText) (closing : Glyph)
  deriving DecidableEq, Repr

structure Head where
  count : Option Nat
  body : Option Body
  deriving DecidableEq, Repr

structure Dress where
  count : Option Nat
  suffix : MappedText := []
  labelled : Bool := false
  attached : Bool := false
  deriving DecidableEq, Repr

def isStop (c : Char) : Bool := c == '.' || c == '@' || c == '*'

def untilStop (depth : Nat) : MappedText → MappedText × MappedText
  | [] => ([], [])
  | g :: rest =>
    let go (depth : Nat) : MappedText × MappedText :=
      let (text, after) := untilStop depth rest
      (g :: text, after)
    if isOpening g.char then go (depth + 1)
    else if isClosing g.char then go (depth - 1)
    else if isStop g.char && depth == 0 then ([], g :: rest)
    else go depth

theorem untilStopParts (depth : Nat) (t : MappedText) :
    (untilStop depth t).1 ++ (untilStop depth t).2 = t := by
  induction t generalizing depth with
  | nil => rfl
  | cons g rest ih =>
    simp only [untilStop]
    split
    · simp [ih]
    · split
      · simp [ih]
      · split <;> simp [ih]

theorem untilStopLength (depth : Nat) (t : MappedText) :
    (untilStop depth t).2.length ≤ t.length := by
  have parts := congrArg List.length (untilStopParts depth t)
  simp at parts
  omega

/-- The inside of a group just opened, its closing bracket and what follows. Brackets of all kinds
count alike. -/
def groupEnd (depth : Nat) : MappedText → Option (MappedText × Glyph × MappedText)
  | [] => none
  | g :: rest =>
    let go (depth : Nat) : Option (MappedText × Glyph × MappedText) :=
      (groupEnd depth rest).map fun (inner, closing, after) => (g :: inner, closing, after)
    if isOpening g.char then go (depth + 1)
    else if isClosing g.char then match depth with
      | 0 => some ([], g, rest)
      | depth + 1 => go depth
    else go depth

theorem groupEndParts {depth : Nat} {t inner after : MappedText} {closing : Glyph}
    (h : groupEnd depth t = some (inner, closing, after)) : t = inner ++ closing :: after := by
  induction t generalizing depth inner with
  | nil => simp [groupEnd] at h
  | cons g rest ih =>
    have step : ∀ {depth}, (groupEnd depth rest).map
        (fun (inner, closing, after) => (g :: inner, closing, after)) =
          some (inner, closing, after) → g :: rest = inner ++ closing :: after := by
      intro depth found
      obtain ⟨⟨i, c, a⟩, part, same⟩ := Option.map_eq_some_iff.mp found
      cases same
      simp [ih part]
    simp only [groupEnd] at h
    split at h
    · exact step h
    · split at h
      · split at h
        · cases h; rfl
        · exact step h
      · exact step h

def countOf (digits : MappedText) : Outcome Nat :=
  match Decimal.below? Decimal.wordLimit (MappedText.chars digits) with
  | some n => .ok n
  | none => faultAt (.repeats .countTooLarge) (MappedText.cover digits)

def isDigitGlyph (g : Glyph) : Bool := g.char.isDigit

def leadingCount (item : MappedText) : Outcome (Option Nat × MappedText) :=
  let digits := item.takeWhile isDigitGlyph
  let rest := item.dropWhile isDigitGlyph
  if digits.isEmpty then .ok (none, item)
  else do
    let count ← countOf digits
    let rest := (MappedText.after? ['*'] rest).getD rest
    if rest.isEmpty then faultAt (.repeats .countWithoutStitch) (MappedText.cover item)
    else return (some count, rest)

def bodyOf (item : MappedText) : MappedText → Outcome (Option Body × MappedText)
  | [] => .ok (none, [])
  | g :: rest =>
    let negative := match rest with
      | d :: _ => g.char = '-' && d.char.isDigit
      | [] => false
    if negative then faultAt (.repeats .negativeCount) (MappedText.cover item)
    else if isOpening g.char then match groupEnd 0 rest with
      | some (inner, closing, after) => .ok (some (.group g inner closing), after)
      | none => faultAt (.repeats .groupNeverClosed) ⟨g.origin, g.origin + 1⟩
    else if g.char = '$' then match cutFirst (·.char == '$') rest with
      | some (inner, after) =>
        .ok (some (.literal ((g :: rest).take (inner.length + 2))), after)
      | none => faultAt (.repeats .blockNeverClosed) (MappedText.cover (g :: rest))
    else if g.char = '.' || g.char = '@' then .ok (none, g :: rest)
    else
      let (text, after) := untilStop 0 (g :: rest)
      .ok (some (.literal text), after)

def headOf (item : MappedText) : Outcome (Head × MappedText) := do
  let (count, rest) ← leadingCount item
  let (body, rest) ← bodyOf item rest
  return (⟨count, body⟩, rest)

def dressFrom (item : MappedText) (d : Dress) (t : MappedText) : Outcome Dress :=
  match t with
  | [] => .ok d
  | g :: rest =>
    if g.char = '.' then
      if d.labelled then faultAt (.repeats .secondLabel) (MappedText.cover item)
      else
        dressFrom item { d with labelled := true, suffix := d.suffix ++ g :: (untilStop 0 rest).1 }
          (untilStop 0 rest).2
    else if g.char = '@' then
      if d.attached then faultAt (.repeats .secondAttachment) (MappedText.cover item)
      else
        dressFrom item { d with attached := true, suffix := d.suffix ++ g :: (untilStop 0 rest).1 }
          (untilStop 0 rest).2
    else if g.char = '*' then
      if d.count.isSome then faultAt (.repeats .secondCount) (MappedText.cover item)
      else
        let digits := rest.takeWhile isDigitGlyph
        if digits.isEmpty then faultAt (.repeats .countMissing) (MappedText.cover item)
        else do
          let count ← countOf digits
          dressFrom item { d with count := some count } (rest.dropWhile isDigitGlyph)
    else
      faultAt (.repeats (.strayAfterItem (Char.ofNat (leadByte g.char)))) ⟨g.origin, g.origin + 1⟩
termination_by t.length
decreasing_by
  · have := untilStopLength 0 rest
    simp
    omega
  · have := untilStopLength 0 rest
    simp
    omega
  · have := lengthDropWhile isDigitGlyph rest
    simp
    omega

theorem leadingCountLength {item rest : MappedText} {count : Option Nat}
    (h : leadingCount item = .ok (count, rest)) : rest.length ≤ item.length := by
  have run := lengthDropWhile isDigitGlyph item
  simp only [leadingCount] at h
  split at h
  · cases h
    exact Nat.le_refl _
  · obtain ⟨n, _, counted⟩ := bindOk h
    simp only [faultAt] at counted
    split at counted <;> cases counted
    cases starred : MappedText.after? ['*'] (item.dropWhile isDigitGlyph) with
    | none => simpa using run
    | some tail =>
      have := MappedText.afterLength starred
      simp at this ⊢
      omega

theorem bodyInner {item t after inner : MappedText} {opening closing : Glyph}
    (h : bodyOf item t = .ok (some (.group opening inner closing), after)) :
    inner.length < t.length := by
  cases t with
  | nil => simp [bodyOf] at h
  | cons g rest =>
    simp only [bodyOf, faultAt] at h
    repeat' split at h
    all_goals cases h
    all_goals
      rename_i found
      have parts := congrArg List.length (groupEndParts found)
      simp at parts
    simp
    omega

theorem headInner {item rest inner : MappedText} {head : Head} {opening closing : Glyph}
    (h : headOf item = .ok (head, rest)) (body : head.body = some (.group opening inner closing)) :
    inner.length < item.length := by
  unfold headOf at h
  obtain ⟨⟨count, after⟩, counted, h⟩ := bindOk h
  obtain ⟨⟨found, rest⟩, read, h⟩ := bindOk h
  cases h
  cases body
  exact Nat.lt_of_lt_of_le (bodyInner read) (leadingCountLength counted)

end Crochet.Repeat
