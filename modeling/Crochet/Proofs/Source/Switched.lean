import Crochet.Proofs.Provenance.Within
import Crochet.Source.Prepared

/-! What taking out colours does to a text, step by step from left to right: a character stays, or a
switch keeps its mark and has its offset for its colour. -/
namespace Crochet.Source
open MappedText Text

def Ended (t : MappedText) : Prop := ∀ g ∈ t.head?, Repeat.isEnding g.char = true

inductive Switched : Nat → MappedText → MappedText → List (Nat × String) → Prop where
  | nil {offset : Nat} : Switched offset [] [] []
  | keep {offset : Nat} {g : Glyph} {t out : MappedText} {colors : List (Nat × String)}
      (plain : MappedText.after? colorMark (g :: t) = none)
      (more : Switched (offset + g.width) t out colors) :
      Switched offset (g :: t) (g :: out) colors
  | switch {offset next : Nat} {color : String} {mark value t out : MappedText}
      {colors : List (Nat × String)} (marks : chars mark = colorMark) (some : value ≠ [])
      (line : ∀ g ∈ value, g.char ≠ '\n') (ended : Ended t) (more : Switched next t out colors) :
      Switched offset (mark ++ value ++ t)
        (mark ++ madeText (startOrigin value) (Nat.toDigits 10 offset) ++ out)
        ((offset, color) :: colors)

variable {offset : Nat} {t : MappedText}

theorem Switched.ofNil {out : MappedText} {colors : List (Nat × String)}
    (switched : Switched offset t out colors) (none : t = []) : out = [] := by
  cases switched with
  | nil => rfl
  | keep => cases none
  | switch _ some => simp [some] at none

theorem afterChars {start : List Char} {rest : MappedText}
    (found : MappedText.after? start t = some rest) :
    chars (t.take start.length) = start ∧ t.take start.length ++ rest = t := by
  induction start generalizing t with
  | nil =>
    cases found
    exact ⟨rfl, rfl⟩
  | cons c start ih =>
    cases t with
    | nil => cases found
    | cons g t =>
      unfold MappedText.after? at found
      split at found
      · rename_i same
        obtain ⟨marks, parts⟩ := ih found
        refine ⟨?_, by simp [parts]⟩
        simp only [List.length_cons, List.take_succ_cons, chars, List.map_cons] at marks ⊢
        rw [marks, same]
      · cases found

theorem valueLine (depth : Nat) (t : MappedText) : ∀ g ∈ (colorValue depth t).1, g.char ≠ '\n' := by
  induction t generalizing depth with
  | nil => simp [colorValue]
  | cons g rest ih =>
    unfold colorValue
    simp only
    split
    · simp
    · rename_i goes
      intro h member
      rcases List.mem_cons.mp member with rfl | inside
      · intro newline
        simp [newline] at goes
      · exact ih _ h inside

theorem valueEnded (depth : Nat) (t : MappedText) : Ended (colorValue depth t).2 := by
  induction t generalizing depth with
  | nil => simp [colorValue, Ended]
  | cons g rest ih =>
    unfold colorValue
    simp only
    split
    · rename_i ends
      intro h member
      cases Option.some.inj member
      simp only [Bool.or_eq_true, Bool.and_eq_true, beq_iff_eq, decide_eq_true_eq] at ends
      rcases ends with newline | ⟨_, ((close | comma) | square) | curly⟩
      all_goals simp [*, Repeat.isEnding, Repeat.isSeparator, isClosing, Bracket.closed?]
    · exact ih _

theorem takeSwitched {colored : Colored} (ok : takeColors offset t = .ok colored) :
    Switched offset t colored.expression colored.colors := by
  fun_induction takeColors offset t generalizing colored with
  | case1 offset =>
    cases ok
    exact .nil
  | case2 offset g rest plain ih =>
    obtain ⟨tail, more, ok⟩ := bindOk ok
    cases pureOk ok
    exact .keep plain (ih more)
  | case3 => cases ok
  | case4 offset g rest after found mark value color some key =>
    rename_i ih
    obtain ⟨tail, more, ok⟩ := bindOk ok
    cases pureOk ok
    obtain ⟨marks, parts⟩ := afterChars found
    have split : value ++ (colorValue 0 after).2 = after := colorValueParts 0 after
    have whole : g :: rest = mark ++ value ++ (colorValue 0 after).2 := by
      rw [List.append_assoc, split]
      exact parts.symm
    have filled : value ≠ [] := by
      intro none
      apply some
      simp only [color, none]
      rfl
    have origin : startOrigin after = startOrigin value := by
      obtain ⟨h, more, first⟩ := List.exists_cons_of_ne_nil filled
      rw [← split, first, List.cons_append, startOriginCons, startOriginCons]
    rw [whole]
    simp only [key, origin]
    exact .switch marks filled (valueLine 0 after) (valueEnded 0 after) (ih more)

section
variable {source : List Char} {registry after : Registry} {pattern : Prepared}

theorem spacedParts (ok : spaced source registry = .ok (pattern, after)) :
    ∃ sheet draft colored, Sheet.read source = .ok sheet ∧
      sheet.definitions.foldlM Draft.define
        { expression := commasForDots sheet.expression, registry } = .ok draft ∧
      takeColors 0 draft.expression = .ok colored ∧ pattern.colors = colored.colors ∧
      pattern.expression = replaceAll stepRule colored.expression := by
  obtain ⟨sheet, read, ok⟩ := bindOk ok
  obtain ⟨_, _, ok⟩ := bindOk ok
  obtain ⟨draft, defined, ok⟩ := bindOk ok
  obtain ⟨colored, taken, ok⟩ := bindOk ok
  cases pureOk ok
  exact ⟨sheet, draft, colored, read, defined, taken, rfl, rfl⟩

theorem preparedFrom {prepared : Prepared} (ok : prepare source registry = .ok (prepared, after)) :
    ∃ pattern, spaced source registry = .ok (pattern, after) ∧ prepared.colors = pattern.colors ∧
      prepared.expression = dropLastNewline (dropBlanks true pattern.expression) := by
  obtain ⟨⟨pattern, registry⟩, made, ok⟩ := bindOk ok
  cases pureOk ok
  exact ⟨pattern, made, rfl, rfl⟩

end

end Crochet.Source
