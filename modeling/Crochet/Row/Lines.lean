import Crochet.MappedText
import Crochet.Row.Suffix

/-! Lines of items, read from tokens. A group may hold lines of its own. -/
namespace Crochet.Row

/-- The lines read so far at one level of nesting; `line` is the last. -/
structure Level where
  lines : List (List Node) := []
  line : List Node := []
  deriving Repr

def Level.put (level : Level) (node : Node) : Level := { level with line := level.line ++ [node] }

def Level.endLine (level : Level) : Level := ⟨level.lines ++ [level.line], []⟩

def Level.done (level : Level) : List (List Node) := level.lines ++ [level.line]

structure Waiting where
  level : Level
  opening : Token
  bracket : Bracket
  deriving Repr

section
variable (place : Span → Span)

def itemFrom (first : Token) (c : Cursor) : Outcome (Node × Cursor) :=
  let span := place first.span
  match first.kind with
  | .name => (suffixesFrom place {} c).map fun (s, c) =>
      (.stitch first.text s.labels s.attached span, c)
  | .turn => match c.rest with
    | t :: _ =>
      if t.kind = .dot ∨ t.kind = .address then
        faultAt (.row .dressedTurn) (place (first.span.merge t.span))
      else .ok (.turn span, c)
    | [] => .ok (.turn span, c)
  | .color key => .ok (.color key span, c)
  | .address => do
    let (a, c) ← attached place first c
    match c.accept? .dot with
    | some (dot, _) => faultAt (.row .labelledSeek) (place dot.span)
    | none => return (.seek a (place ⟨first.start, c.last⟩), c)
  | .dot => faultAt (.row .labelWithoutStitch) span
  | .number _ => faultAt (.row .bareNumber) span
  | _ => faultAt (.row (.unexpected first.symbol)) span

theorem itemSize {first : Token} {c after : Cursor} {node : Node}
    (h : itemFrom place first c = .ok (node, after)) : after.size ≤ c.size := by
  simp only [itemFrom, faultAt] at h
  split at h
  · obtain ⟨⟨s, d⟩, read, same⟩ := mapOk h
    cases same
    exact suffixesSize place read
  · repeat' split at h
    all_goals cases h
    all_goals exact Nat.le_refl _
  · cases h; exact Nat.le_refl _
  · obtain ⟨⟨a, d⟩, read, h⟩ := bindOk h
    have shorter := attachedSize place read
    simp only at h
    split at h <;> cases h
    exact Nat.le_of_lt shorter
  all_goals cases h

def separated (c : Cursor) : Outcome Unit :=
  match c.rest with
  | [] => .ok ()
  | t :: _ =>
    if t.kind.isSeparator || t.kind.isClose then .ok ()
    else faultAt (.row (.commaExpected t.symbol)) (place t.span)

def linesFrom (outer : List Waiting) (level : Level) (c : Cursor) : Outcome (List (List Node)) :=
  match c with
  | ⟨last, []⟩ => match outer with
    | [] => .ok level.done
    | w :: _ => faultAt (.row (.missingClose (String.singleton w.bracket.closing)))
        (place ⟨last, last⟩)
  | ⟨_, t :: rest⟩ =>
    let stray : Outcome (List (List Node)) :=
      faultAt (.row (.strayClose t.symbol)) (place t.span)
    match t.kind with
    | .comma => linesFrom outer level ⟨t.stop, rest⟩
    | .newline => linesFrom outer level.endLine ⟨t.stop, rest⟩
    | .opens bracket => linesFrom (⟨level, t, bracket⟩ :: outer) {} ⟨t.stop, rest⟩
    | .closes bracket => match outer with
      | [] => stray
      | w :: outer =>
        if w.bracket = bracket then
          match _read : suffixesFrom place {} ⟨t.stop, rest⟩ with
          | .error fault => .error fault
          | .ok (s, after) => do
            let node := .group level.done s.labels s.attached
              (place (w.opening.span.merge t.span))
            separated place after
            linesFrom outer (w.level.put node) after
        else stray
    | _ => match _read : itemFrom place t ⟨t.stop, rest⟩ with
      | .error fault => .error fault
      | .ok (node, after) => do
        separated place after
        linesFrom outer (level.put node) after
termination_by c.size
decreasing_by
  all_goals simp only [Cursor.size, List.length_cons]
  · omega
  · omega
  · omega
  · have := suffixesSize place _read
    simp only [Cursor.size] at this
    omega
  · have := itemSize place _read
    simp only [Cursor.size] at this
    omega

end

def parseLines (t : MappedText) : Outcome (List (List Node)) :=
  let origins := MappedText.origins t
  linesFrom (MappedText.spanIn origins) [] {} (Cursor.ofText (MappedText.chars t))

end Crochet.Row
