import Crochet.Fault.Basic
import Crochet.Token

/-! A place among the tokens, and the small things read there: modifiers and bracketed text.

`place` takes a span of the token text to the source. -/
namespace Crochet.Row

/-- `last` is where the token before ends. -/
structure Cursor where
  last : Nat
  rest : List Token
  deriving DecidableEq, Repr

def Cursor.size (c : Cursor) : Nat := c.rest.length

def Cursor.ofText (text : List Char) : Cursor := ⟨0, Token.tokens text⟩

def Cursor.here (c : Cursor) : Span := ⟨c.last, c.last⟩

def Cursor.accept? (c : Cursor) (kind : Token.Kind) : Option (Token × Cursor) :=
  match c.rest with
  | [] => none
  | t :: rest => if t.kind = kind then some (t, ⟨t.stop, rest⟩) else none

def Cursor.number? (c : Cursor) : Option (Float × Token × Cursor) :=
  match c.rest with
  | [] => none
  | t :: rest => match t.kind with
    | .number x => some (x, t, ⟨t.stop, rest⟩)
    | _ => none

theorem acceptSize {c after : Cursor} {kind : Token.Kind} {t : Token}
    (h : c.accept? kind = some (t, after)) : after.size < c.size := by
  simp only [Cursor.accept?] at h
  repeat' split at h
  all_goals cases h
  simp_all [Cursor.size]

theorem numberSize {c after : Cursor} {x : Float} {t : Token}
    (h : c.number? = some (x, t, after)) : after.size < c.size := by
  simp only [Cursor.number?] at h
  repeat' split at h
  all_goals cases h
  simp_all [Cursor.size]

def bracketEnd (depth : Nat) : List Token → Except RowCause (List Char × Token × List Token)
  | [] => .error (.missingClose "]")
  | t :: rest =>
    let go (depth : Nat) : Except RowCause (List Char × Token × List Token) :=
      (bracketEnd depth rest).map fun (inner, closing, after) =>
        (t.padded ++ inner, closing, after)
    match t.kind with
    | .opens .square => go (depth + 1)
    | .closes .square => match depth with
      | 0 => .ok (t.lead, t, rest)
      | depth + 1 => go depth
    | .newline => .error .addressPastLine
    | _ => go depth

theorem bracketEndLength {depth : Nat} {ts after : List Token} {inner : List Char} {closing : Token}
    (h : bracketEnd depth ts = .ok (inner, closing, after)) : after.length < ts.length := by
  induction ts generalizing depth inner with
  | nil => cases h
  | cons t rest ih =>
    have step : ∀ {depth}, (bracketEnd depth rest).map
        (fun (inner, closing, after) => (t.padded ++ inner, closing, after)) =
          .ok (inner, closing, after) → after.length < (t :: rest).length := by
      intro depth found
      cases part : bracketEnd depth rest with
      | error cause => rw [part] at found; cases found
      | ok value =>
        obtain ⟨i, c, a⟩ := value
        rw [part] at found
        cases found
        exact Nat.lt_succ_of_lt (ih part)
    simp only [bracketEnd] at h
    repeat' split at h
    all_goals first
      | exact step h
      | (cases h; try simp)

section
variable (place : Span → Span)

def bracketText (opening : Token) (c : Cursor) : Outcome (List Char × Token × Cursor) :=
  match bracketEnd 0 c.rest with
  | .error cause => faultAt (.row cause) (place opening.span)
  | .ok (inner, closing, rest) => .ok (inner, closing, ⟨closing.stop, rest⟩)

def edgeDigit (mark : Token) (c : Cursor) : Outcome (Option Bool × Cursor) :=
  match c.number? with
  | none => .ok (none, c)
  | some (x, t, after) =>
    if x == 0.0 then .ok (some false, after)
    else if x == 1.0 then .ok (some true, after)
    else faultAt (.row .boundaryDigit) (place (mark.span.merge t.span))

def postNumber (caret : Token) (c : Cursor) : Outcome (Option Int × Cursor) :=
  match c.accept? .minus with
  | none => match c.number? with
    | none => .ok (none, c)
    | some (x, t, after) => match Decimal.wholeWord? x with
      | some n => .ok (some n, after)
      | none => faultAt (.row .fractionalPost) (place t.span)
  | some (_, c) => match c.number? with
    | none => faultAt (.row .postExpected) (place caret.span)
    | some (x, t, after) => match Decimal.wholeWord? x with
      | some n => .ok (some (-n), after)
      | none => faultAt (.row .fractionalPost) (place t.span)

theorem bracketTextSize {opening closing : Token} {c after : Cursor} {inner : List Char}
    (h : bracketText place opening c = .ok (inner, closing, after)) : after.size < c.size := by
  simp only [bracketText, faultAt] at h
  split at h
  · cases h
  · rename_i found
    cases h
    exact bracketEndLength found

theorem edgeDigitSize {mark : Token} {c after : Cursor} {digit : Option Bool}
    (h : edgeDigit place mark c = .ok (digit, after)) : after.size ≤ c.size := by
  simp only [edgeDigit, faultAt] at h
  repeat' split at h
  all_goals cases h
  · exact Nat.le_refl _
  all_goals exact Nat.le_of_lt (numberSize (by assumption))

theorem postNumberSize {caret : Token} {c after : Cursor} {which : Option Int}
    (h : postNumber place caret c = .ok (which, after)) : after.size ≤ c.size := by
  simp only [postNumber, faultAt] at h
  split at h
  · repeat' split at h
    all_goals cases h
    · exact Nat.le_refl _
    · exact Nat.le_of_lt (numberSize (by assumption))
  · rename_i signed
    have shorter := acceptSize signed
    repeat' split at h
    all_goals cases h
    exact Nat.le_of_lt (Nat.lt_trans (numberSize (by assumption)) shorter)

structure Marks where
  modifiers : Modifiers := {}
  reversed : Bool := false
  deriving DecidableEq, Repr

def Marks.extended (m : Marks) : Option Bool → Marks
  | none => { m with modifiers := { m.modifiers with extend := some .both } }
  | some false => { m with modifiers := { m.modifiers with extend := some .left } }
  | some true => { m with modifiers := { m.modifiers with extend := some .right } }

def Marks.skipping (m : Marks) : Option Bool → Marks
  | none => { m with modifiers := { m.modifiers with skip := some .both } }
  | some false => { m with modifiers := { m.modifiers with skip := some .first } }
  | some true => { m with modifiers := { m.modifiers with skip := some .last } }

def Marks.posted (m : Marks) (which : Option Int) : Marks :=
  { m with modifiers := { m.modifiers with post := some which } }

def markStep (m : Marks) (c : Cursor) : Outcome (Option (Marks × Cursor)) :=
  match c.rest with
  | [] => .ok none
  | t :: rest =>
    let after : Cursor := ⟨t.stop, rest⟩
    let twice : Outcome (Option (Marks × Cursor)) :=
      faultAt (.row (.secondMark t.symbol)) (place t.span)
    match t.kind with
    | .tilde => if m.reversed then twice else .ok (some ({ m with reversed := true }, after))
    | .plus =>
      if m.modifiers.extend.isSome then twice
      else (edgeDigit place t after).map fun (digit, c) => some (m.extended digit, c)
    | .bang =>
      if m.modifiers.skip.isSome then twice
      else (edgeDigit place t after).map fun (digit, c) => some (m.skipping digit, c)
    | .caret =>
      if m.modifiers.post.isSome then twice
      else (postNumber place t after).map fun (which, c) => some (m.posted which, c)
    | _ => .ok none

theorem markStepSize {m next : Marks} {c after : Cursor}
    (h : markStep place m c = .ok (some (next, after))) : after.size < c.size := by
  obtain ⟨last, rest⟩ := c
  cases rest with
  | nil => cases h
  | cons t rest =>
    have tail : (⟨t.stop, rest⟩ : Cursor).size < (⟨last, t :: rest⟩ : Cursor).size := by
      simp [Cursor.size]
    simp only [markStep, faultAt] at h
    repeat' split at h
    all_goals try cases h
    · exact tail
    all_goals
      obtain ⟨⟨value, d⟩, read, same⟩ := mapOk h
      cases same
    · exact Nat.lt_of_le_of_lt (edgeDigitSize place read) tail
    · exact Nat.lt_of_le_of_lt (edgeDigitSize place read) tail
    · exact Nat.lt_of_le_of_lt (postNumberSize place read) tail

def marksFrom (m : Marks) (c : Cursor) : Outcome (Marks × Cursor) :=
  match _step : markStep place m c with
  | .error fault => .error fault
  | .ok none => .ok (m, c)
  | .ok (some (next, after)) => marksFrom next after
termination_by c.size
decreasing_by exact markStepSize place _step

theorem marksSize {m found : Marks} {c after : Cursor}
    (h : marksFrom place m c = .ok (found, after)) : after.size ≤ c.size := by
  fun_induction marksFrom place m c with
  | case1 => cases h
  | case2 => cases h; exact Nat.le_refl _
  | case3 m c next middle step ih =>
    exact Nat.le_trans (ih h) (Nat.le_of_lt (markStepSize place step))

end
end Crochet.Row
