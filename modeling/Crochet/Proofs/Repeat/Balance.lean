import Crochet.Repeat.Expand

/-! Text in which every bracket has its partner. It opens and closes nothing for what stands around
it, so items are cut and groups end as if it were one long word. -/
namespace Crochet.Repeat
open MappedText

def isPlain (c : Char) : Bool := c != '$' && !isOpening c && !isClosing c

/- Balanced text with a condition on the characters outside all brackets. -/
inductive Balanced : (Char → Bool) → List Char → Prop where
  | nil {p : Char → Bool} : Balanced p []
  | char {p : Char → Bool} {c : Char} (plain : isPlain c = true) (holds : p c = true) : Balanced p [c]
  | append {p : Char → Bool} {text more : List Char} (first : Balanced p text)
      (second : Balanced p more) : Balanced p (text ++ more)
  | group {p : Char → Bool} (b : Bracket) {text : List Char} (inner : Balanced (fun _ => true) text) :
      Balanced p (b.opening :: (text ++ [b.closing]))

def Even (text : List Char) : Prop := Balanced (fun _ => true) text

def Solid (text : List Char) : Prop := Balanced (fun c => !isSeparator c) text

variable {text : List Char} {c : Char}
variable {p : Char → Bool} {t : MappedText}

theorem balancedAll (plain : ∀ c ∈ text, isPlain c = true ∧ p c = true) :
    Balanced p text := by
  induction text with
  | nil => exact .nil
  | cons c text ih =>
    obtain ⟨here, holds⟩ := plain c (List.mem_cons_self ..)
    exact .append (.char here holds) (ih fun d member => plain d (List.mem_cons_of_mem _ member))

theorem balancedEven (balanced : Balanced p text) :
    Even text := by
  induction balanced with
  | nil => exact .nil
  | char plain _ => exact .char plain rfl
  | append _ _ first second => exact .append first second
  | group b inner _ => exact .group b inner

theorem separatorPlain (separates : isSeparator c = true) : isPlain c = true := by
  rcases Bool.or_eq_true_iff.mp separates with comma | line
  · rw [beq_iff_eq.mp comma]
    rfl
  · rw [beq_iff_eq.mp line]
    rfl

theorem plainIff :
    isPlain c = true ↔ c ≠ '$' ∧ isOpening c = false ∧ isClosing c = false := by
  simp [isPlain, and_assoc]

theorem openingBracket (b : Bracket) :
    isOpening b.opening = true ∧ b.opening ≠ '$' ∧ isClosing b.opening = false := by
  cases b <;> decide

theorem closingBracket (b : Bracket) :
    isClosing b.closing = true ∧ b.closing ≠ '$' ∧ isOpening b.closing = false := by
  cases b <;> decide

def grown (t : MappedText) (parts : List Item) : List Item := t.foldr growFirst parts

theorem grownCons (t text : MappedText) (separator : Option Glyph) (more : List Item) :
    grown t (⟨text, separator⟩ :: more) = ⟨t ++ text, separator⟩ :: more := by
  induction t with
  | nil => rfl
  | cons g t ih =>
    show growFirst g (grown t _) = _
    rw [ih]
    rfl

section
variable {depth : Nat} {rest : MappedText} {g : Glyph}

theorem itemsOpening (b : Bracket) (opens : g.char = b.opening) :
    itemsFrom depth false (g :: rest) = growFirst g (itemsFrom (depth + 1) false rest) := by
  obtain ⟨opening, block, _⟩ := openingBracket b
  simp [itemsFrom, opens, opening, block]

theorem itemsClosing (b : Bracket) (closes : g.char = b.closing) :
    itemsFrom (depth + 1) false (g :: rest) = growFirst g (itemsFrom depth false rest) := by
  obtain ⟨closing, block, opening⟩ := closingBracket b
  simp [itemsFrom, closes, closing, block, opening]

theorem itemsPlain (plain : isPlain g.char = true)
    (inside : (isSeparator g.char && depth == 0) = false) :
    itemsFrom depth false (g :: rest) = growFirst g (itemsFrom depth false rest) := by
  obtain ⟨block, opening, closing⟩ := plainIff.mp plain
  simp only [itemsFrom, block, opening, closing, inside, if_false, Bool.false_eq_true]

theorem itemsSeparator (separates : isSeparator g.char = true) :
    itemsFrom 0 false (g :: rest) = ⟨[], some g⟩ :: itemsFrom 0 false rest := by
  obtain ⟨block, opening, closing⟩ := plainIff.mp (separatorPlain separates)
  simp [itemsFrom, block, opening, closing, separates]

end

theorem itemsBalanced (balanced : Balanced p text) {depth : Nat}
    (inside : ∀ c, p c = true → (isSeparator c && depth == 0) = false) (spelt : chars t = text)
    (rest : MappedText) :
    itemsFrom depth false (t ++ rest) = grown t (itemsFrom depth false rest) := by
  induction balanced generalizing depth t rest with
  | nil =>
    rw [List.map_eq_nil_iff.mp spelt]
    rfl
  | char plain holds =>
    obtain ⟨g, rfl, rfl⟩ := List.map_eq_singleton_iff.mp spelt
    exact itemsPlain plain (inside _ holds)
  | append _ _ first second =>
    obtain ⟨a, b, rfl, inA, inB⟩ := List.map_eq_append_iff.mp spelt
    rw [List.append_assoc, first inside inA, second inside inB, grown, grown, grown,
      List.foldr_append]
  | group bracket _ ih =>
    obtain ⟨opening, more, rfl, opens, spelt⟩ := List.map_eq_cons_iff.mp spelt
    obtain ⟨a, b, rfl, inA, inB⟩ := List.map_eq_append_iff.mp spelt
    obtain ⟨closing, rfl, closes⟩ := List.map_eq_singleton_iff.mp inB
    rw [List.cons_append, List.append_assoc, itemsOpening bracket opens, ih (by simp) inA]
    rw [List.singleton_append, itemsClosing bracket closes]
    simp only [grown, List.foldr_cons, List.foldr_append, List.foldr_nil]

section
variable (solid : Solid (chars t))
include solid

theorem itemsSolid (rest : MappedText) :
    itemsFrom 0 false (t ++ rest) = grown t (itemsFrom 0 false rest) :=
  itemsBalanced solid (fun c plain => by simpa using plain) rfl rest

theorem itemsLast : items t = [⟨t, none⟩] := by
  have cut := itemsSolid solid []
  rw [List.append_nil] at cut
  rw [items, cut, itemsFrom, grownCons, List.append_nil]

theorem itemsLink {g : Glyph} (separates : isSeparator g.char = true) (rest : MappedText) :
    items (t ++ g :: rest) = ⟨t, some g⟩ :: items rest := by
  rw [items, itemsSolid solid, itemsSeparator separates, grownCons, List.append_nil]
  rfl

end

theorem groupEndBalanced (balanced : Balanced p text) {depth : Nat} (spelt : chars t = text)
    (rest : MappedText) :
    groupEnd depth (t ++ rest) = (groupEnd depth rest).map fun (inner, closing, after) =>
      (t ++ inner, closing, after) := by
  induction balanced generalizing depth t rest with
  | nil =>
    rw [List.map_eq_nil_iff.mp spelt]
    exact Option.map_id'.symm
  | char plain _ =>
    obtain ⟨g, rfl, rfl⟩ := List.map_eq_singleton_iff.mp spelt
    obtain ⟨_, opening, closing⟩ := plainIff.mp plain
    simp [groupEnd, opening, closing]
  | append _ _ first second =>
    obtain ⟨a, b, rfl, inA, inB⟩ := List.map_eq_append_iff.mp spelt
    rw [List.append_assoc, first inA, second inB, Option.map_map]
    simp [Function.comp_def]
  | group bracket _ ih =>
    obtain ⟨opening, more, rfl, opens, spelt⟩ := List.map_eq_cons_iff.mp spelt
    obtain ⟨a, b, rfl, inA, inB⟩ := List.map_eq_append_iff.mp spelt
    obtain ⟨closing, rfl, closes⟩ := List.map_eq_singleton_iff.mp inB
    obtain ⟨closing', _, opening'⟩ := closingBracket bracket
    simp only [List.cons_append, List.append_assoc, groupEnd, opens, (openingBracket bracket).1,
      if_true, ih inA]
    simp [closes, closing', opening', Function.comp_def]

theorem groupEndClose {rest : MappedText} (even : Even (chars t)) {closing : Glyph} (b : Bracket)
    (closes : closing.char = b.closing) :
    groupEnd 0 (t ++ closing :: rest) = some (t, closing, rest) := by
  obtain ⟨closing', _, opening'⟩ := closingBracket b
  rw [groupEndBalanced even rfl, groupEnd]
  simp [closes, closing', opening']

theorem trimAppend (t more : MappedText) : trimCommas (t ++ more) =
    if trimCommas more = [] then trimCommas t else t ++ trimCommas more := by
  simp only [trimCommas, List.reverse_append, List.dropWhile_append, List.reverse_eq_nil_iff,
    List.isEmpty_iff]
  split <;> simp

theorem trimParts (t : MappedText) : ∃ commas, t = trimCommas t ++ commas ∧
    ∀ g ∈ commas, g.char = ',' := by
  refine ⟨(t.reverse.takeWhile (·.char == ',')).reverse, ?_, ?_⟩
  · rw [trimCommas, ← List.reverse_append, List.takeWhile_append_dropWhile, List.reverse_reverse]
  · intro g member
    exact beq_iff_eq.mp (List.all_eq_true.mp List.all_takeWhile g (List.mem_reverse.mp member))

theorem balancedLast (balanced : Balanced p text) (no : p ',' = false) :
    text.getLast? ≠ some ',' := by
  induction balanced with
  | nil => simp
  | @char p c _ holds =>
    intro last
    have same : c = ',' := Option.some.inj last
    rw [same, no] at holds
    cases holds
  | append _ _ first second =>
    rw [List.getLast?_append, ne_eq, Option.or_eq_some_iff, not_or, not_and]
    exact ⟨second no, fun _ => first no⟩
  | group b _ _ => cases b <;> simp [List.getLast?_cons, Bracket.closing]

theorem trimSolid (solid : Solid (chars t)) : trimCommas t = t := by
  have last := balancedLast solid rfl
  cases reversed : t.reverse with
  | nil =>
    rw [List.reverse_eq_nil_iff.mp reversed]
    rfl
  | cons g rest =>
    rw [chars, List.getLast?_map, List.getLast?_eq_head?_reverse, reversed] at last
    have no : (g.char == ',') = false := by simpa using last
    rw [trimCommas, reversed, List.dropWhile_cons_of_neg (by simp [no]), ← reversed,
      List.reverse_reverse]

end Crochet.Repeat
