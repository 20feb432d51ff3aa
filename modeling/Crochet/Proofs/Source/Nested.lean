import Crochet.Source.Brackets

/-! Which texts pass the check of brackets: those whose brackets are a nested word over the three
pairs and whose block marks come in twos. -/
namespace Crochet

variable {b : Bracket}

theorem Bracket.openedIff {c : Char} : opened? c = some b ↔ c = b.opening := by
  constructor
  · intro opens
    unfold opened? at opens
    repeat' split at opens
    all_goals cases opens
    all_goals assumption
  · rintro rfl
    cases b <;> rfl

theorem Bracket.closedIff {c : Char} : closed? c = some b ↔ c = b.closing := by
  constructor
  · intro closes
    unfold closed? at closes
    repeat' split at closes
    all_goals cases closes
    all_goals assumption
  · rintro rfl
    cases b <;> rfl

theorem Bracket.openingInj {d : Bracket} (same : b.opening = d.opening) : b = d :=
  Option.some.inj ((openedIff.mpr rfl).symm.trans (openedIff.mpr same))

theorem Bracket.closingInj {d : Bracket} (same : b.closing = d.closing) : b = d :=
  Option.some.inj ((closedIff.mpr rfl).symm.trans (closedIff.mpr same))

theorem Bracket.sidesApart (b d : Bracket) : b.opening ≠ d.closing := by
  cases b <;> cases d <;> decide

namespace Source

def isBracket (c : Char) : Bool := isOpening c || isClosing c

/- A word is empty, or a pair around a word with a word behind it. -/
inductive Nested : List Char → Prop where
  | nil : Nested []
  | pair (b : Bracket) {inner rest : List Char} (inside : Nested inner) (after : Nested rest) :
      Nested (b.opening :: (inner ++ b.closing :: rest))

/- What closes the brackets that are open, innermost first, and is nested otherwise. -/
def Closes : List Bracket → List Char → Prop
  | [], word => Nested word
  | b :: stack, word => ∃ inner rest, word = inner ++ b.closing :: rest ∧ Nested inner ∧
      Closes stack rest

variable {stack : List Bracket}

theorem closesNil : Closes stack [] ↔ stack = [] := by
  cases stack with
  | nil => exact ⟨fun _ => rfl, fun _ => .nil⟩
  | cons b stack => simp [Closes]

theorem closesOpening {b : Bracket} {word : List Char} :
    Closes stack (b.opening :: word) ↔ Closes (b :: stack) word := by
  cases stack with
  | nil =>
    constructor
    · intro nested
      generalize shown : b.opening :: word = whole at nested
      cases nested with
      | nil => cases shown
      | pair d inside after =>
        obtain ⟨first, rfl⟩ := List.cons.inj shown
        obtain rfl := Bracket.openingInj first
        exact ⟨_, _, rfl, inside, after⟩
    · rintro ⟨inner, rest, rfl, inside, after⟩
      exact .pair b inside after
  | cons outer stack =>
    constructor
    · rintro ⟨inner, rest, shown, nested, more⟩
      cases nested with
      | nil => exact absurd (List.cons.inj shown).1 (Bracket.sidesApart b outer)
      | @pair d within behind inside after =>
        obtain ⟨first, rfl⟩ := List.cons.inj shown
        obtain rfl := Bracket.openingInj first
        exact ⟨within, behind ++ outer.closing :: rest, by simp, inside, behind, rest, rfl, after, more⟩
    · rintro ⟨within, _, rfl, inside, behind, rest, rfl, after, more⟩
      exact ⟨b.opening :: (within ++ b.closing :: behind), rest, by simp, .pair b inside after, more⟩

theorem closesClosing {b : Bracket} {word : List Char} :
    Closes stack (b.closing :: word) ↔ ∃ rest, stack = b :: rest ∧ Closes rest word := by
  cases stack with
  | nil =>
    constructor
    · intro nested
      generalize shown : b.closing :: word = whole at nested
      cases nested with
      | nil => cases shown
      | pair d _ _ => exact absurd (List.cons.inj shown).1.symm (Bracket.sidesApart d b)
    · rintro ⟨_, none, _⟩
      cases none
  | cons outer stack =>
    constructor
    · rintro ⟨inner, rest, shown, nested, more⟩
      -- a nested word in front would begin with an opening bracket
      cases nested with
      | nil =>
        obtain ⟨first, rfl⟩ := List.cons.inj shown
        obtain rfl := Bracket.closingInj first
        exact ⟨stack, rfl, more⟩
      | pair d _ _ => exact absurd (List.cons.inj shown).1.symm (Bracket.sidesApart d b)
    · rintro ⟨_, same, more⟩
      obtain ⟨rfl, rfl⟩ := List.cons.inj same
      exact ⟨[], word, rfl, .nil, more⟩

def marks (block : Option Nat) (cs : List Char) : Nat := cs.count '$' + block.toList.length

theorem marksToggle (offset : Nat) (block : Option Nat) (cs : List Char) :
    marks (if block.isSome then none else some offset) cs % 2 = marks block ('$' :: cs) % 2 := by
  cases block with
  | none => simp [marks]
  | some start => simp [marks]; omega

theorem imbalanceNone {offset : Nat} {stack : List (Bracket × Nat)} {block : Option Nat}
    {cs : List Char} : imbalanceFrom offset stack block cs = none ↔
      Closes (stack.map Prod.fst) (cs.filter isBracket) ∧ marks block cs % 2 = 0 := by
  induction cs generalizing offset stack block with
  | nil =>
    rw [List.filter_nil, closesNil, List.map_eq_nil_iff]
    cases stack with
    | nil => cases block <;> simp [imbalanceFrom, marks]
    | cons top stack => simp [imbalanceFrom]
  | cons c cs ih =>
    simp only [imbalanceFrom]
    cases opened : Bracket.opened? c with
    | some b =>
      obtain rfl := Bracket.openedIff.mp opened
      have kept : isBracket b.opening = true := by cases b <;> rfl
      have count : marks block (b.opening :: cs) = marks block cs := by
        cases b <;> simp [marks, Bracket.opening]
      rw [List.filter_cons_of_pos kept, closesOpening, count]
      exact ih
    | none =>
      cases closed : Bracket.closed? c with
      | some b =>
        obtain rfl := Bracket.closedIff.mp closed
        have kept : isBracket b.closing = true := by cases b <;> rfl
        have count : marks block (b.closing :: cs) = marks block cs := by
          cases b <;> simp [marks, Bracket.closing]
        rw [List.filter_cons_of_pos kept, closesClosing, count]
        cases stack with
        | nil => simp
        | cons top stack =>
          obtain ⟨o, start⟩ := top
          by_cases same : o = b
          · simp [same, ih]
          · simp [same]
      | none =>
        have dropped : isBracket c = false := by
          simp [isBracket, isOpening, isClosing, opened, closed]
        rw [List.filter_cons_of_neg (by simp [dropped])]
        by_cases mark : c = '$'
        · subst mark
          rw [if_pos rfl, ih, marksToggle]
        · have count : marks block (c :: cs) = marks block cs := by simp [marks, mark]
          rw [if_neg mark, ih, count]

theorem imbalanceKind {offset : Nat} {stack : List (Bracket × Nat)} {block : Option Nat}
    {cs : List Char} {cause : SourceCause} {range : Span}
    (found : imbalanceFrom offset stack block cs = some (cause, range)) :
    cause.kind = .unbalancedBrackets := by
  induction cs generalizing offset stack block with
  | nil =>
    unfold imbalanceFrom at found
    split at found
    · cases found; rfl
    · cases found; rfl
    · cases found
  | cons c cs ih =>
    unfold imbalanceFrom at found
    simp only at found
    split at found
    · exact ih found
    · split at found
      · cases found; rfl
      · split at found
        · exact ih found
        · cases found; rfl
    · split at found
      · exact ih found
      · exact ih found

theorem bracketsNested (t : MappedText) :
    (checkBrackets t = .ok () ↔ Nested ((MappedText.chars t).filter isBracket) ∧
      (MappedText.chars t).count '$' % 2 = 0) ∧
    (¬ (Nested ((MappedText.chars t).filter isBracket) ∧ (MappedText.chars t).count '$' % 2 = 0) →
      ∃ fault, checkBrackets t = .error fault ∧ fault.kind = .unbalancedBrackets) := by
  have balance : imbalance? (MappedText.chars t) = none ↔ _ := @imbalanceNone 0 [] none _
  simp only [List.map_nil, Closes, marks, Option.toList_none, List.length_nil, Nat.add_zero] at balance
  rw [← balance]
  unfold checkBrackets
  cases found : imbalance? (MappedText.chars t) with
  | none => simp
  | some fault =>
    obtain ⟨cause, range⟩ := fault
    have kind := imbalanceKind found
    exact ⟨by simp [faultAt], fun _ => ⟨_, rfl, kind⟩⟩

end Source
end Crochet
