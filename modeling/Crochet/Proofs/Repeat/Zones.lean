import Crochet.Proofs.Repeat.Balance
import Crochet.Proofs.Repeat.Tree
import Crochet.Proofs.Text.Pieces

/-! The zones of a written piece. The count, the body and what hangs on it are found where they were
put, wherever the count stands. -/
namespace Crochet.Repeat
open MappedText Text
open Row (Heads NameWord headsAppend headsMono)

variable {c : Char} {w : List Char} {opening closing : Glyph}

theorem nameCharPlain (name : isNameChar c = true) :
    isPlain c = true ∧ isSeparator c = false ∧ isStop c = false := by
  have no : ∀ d, isNameChar d = false → c ≠ d := by
    rintro d other rfl
    rw [name] at other
    cases other
  simp [isPlain, isOpening, isClosing, Bracket.opened?, Bracket.closed?, isSeparator, isStop,
    no '$' rfl, no '[' rfl, no ']' rfl, no '(' rfl, no ')' rfl, no '\x7b' rfl, no '\x7d' rfl,
    no ',' rfl, no '\n' rfl, no '.' rfl, no '@' rfl, no '*' rfl]

theorem solidChars (chars : ∀ d ∈ w, isNameChar d = true) : Solid w :=
  balancedAll fun d member => by
    obtain ⟨plain, separator, _⟩ := nameCharPlain (chars d member)
    exact ⟨plain, by simp [separator]⟩

theorem stopNoDigit (stop : isStop c = true) : c.isDigit = false := by
  cases digit : c.isDigit with
  | false => rfl
  | true =>
    rw [(nameCharPlain (digitNameChar digit)).2.2] at stop
    cases stop

theorem startNoMarker (start : isNameStart c = true) (m : Marker) : c ≠ m.char := by
  rintro rfl
  cases m <;> cases start

variable {t : MappedText}

theorem unmarkedText {cs : List Char} (shown : chars t = c :: cs) (no : ∀ m : Marker, c ≠ m.char) :
    isMarker t = false := by
  simp [isMarker, Marker.isText, shown, no .exit, no .entry]

theorem nameWordIff : isNameWord w = true ↔ NameWord w := by
  simp [isNameWord, NameWord]

inductive Counts : List Char → Option Nat → Prop where
  | none : Counts [] none
  | some {digits : List Char} (nonempty : digits ≠ []) (all : ∀ d ∈ digits, d.isDigit = true)
      (below : Decimal.digitsValue digits < Decimal.wordLimit) :
      Counts digits (some (Decimal.digitsValue digits))

namespace Attire

def countAt (a : Attire) (place : Place) : Option Nat :=
  match a.count with
  | some (other, digits) => if other = place then some (Decimal.digitsValue digits) else none
  | none => none

theorem countApart (a : Attire) {place other : Place} (apart : other ≠ place)
    (found : (a.countAt place).isSome = true) : a.countAt other = none := by
  unfold countAt at found ⊢
  split at found
  · split at found
    · rename_i same
      simp [same, apart.symm]
    · cases found
  · cases found

theorem countPlaces (a : Attire) :
    (a.countAt .last).or ((a.countAt .behind).or (a.countAt .front)) = a.times := by
  unfold countAt times
  cases a.count with
  | none => rfl
  | some pair =>
    obtain ⟨place, digits⟩ := pair
    cases place <;> rfl

variable {a : Attire} (valid : a.valid fitsWord = true)
include valid

theorem counts (place : Place) : Counts (a.digitsAt place) (a.countAt place) := by
  have count := (Bool.and_eq_true_iff.mp valid).2
  unfold digitsAt countAt
  cases found : a.count with
  | none => exact .none
  | some pair =>
    obtain ⟨other, digits⟩ := pair
    simp only [found, Option.all_some, Bool.and_eq_true, Bool.not_eq_true', List.isEmpty_eq_false_iff,
      List.all_eq_true, fitsWord, decide_eq_true_eq] at count
    obtain ⟨⟨nonempty, all⟩, below⟩ := count
    by_cases here : other = place
    · simp only [here, if_true]
      exact .some nonempty all below
    · simp only [here, if_false]
      exact .none

theorem labelWord {label : String} (found : a.label = some label) : NameWord label.toList := by
  have labels := (Bool.and_eq_true_iff.mp valid).1
  rw [found] at labels
  exact nameWordIff.mp labels

end Attire

theorem countsSolid {digits : List Char} {count : Option Nat} (counts : Counts digits count) :
    Solid digits := by
  cases counts with
  | none => exact .nil
  | some _ all _ => exact solidChars fun d member => digitNameChar (all d member)

theorem starredHead (digits : List Char) : Heads isStop (starred digits) := by
  intro c first
  unfold starred at first
  split at first <;> cases first
  rfl

theorem labelledHead (label : Option String) : Heads isStop (labelled label) := by
  intro c first
  cases label <;> cases first
  rfl

section
variable {digits rest : MappedText} {count : Option Nat}

theorem digitRun (all : ∀ d ∈ chars digits, d.isDigit = true)
    (stops : Heads (!·.isDigit) (chars rest)) : (digits ++ rest).takeWhile isDigitGlyph = digits ∧
      (digits ++ rest).dropWhile isDigitGlyph = rest := by
  have run : runOf isDigitGlyph (digits ++ rest) = (digits, rest) := by
    refine Token.takeRun (fun g member => all _ (List.mem_map_of_mem member)) ?_
    intro g first
    have := stops g.char (by rw [chars, List.head?_map, first]; rfl)
    simpa [isDigitGlyph] using this
  exact Prod.mk.inj run

theorem countRead (below : Decimal.digitsValue (chars digits) < Decimal.wordLimit) :
    countOf digits = .ok (Decimal.digitsValue (chars digits)) := by
  simp [countOf, Decimal.below?, below]

theorem digitsPresent (nonempty : chars digits ≠ []) : digits.isEmpty = false := by
  rw [List.isEmpty_eq_false_iff]
  rintro rfl
  exact nonempty rfl

theorem leadingRead (counts : Counts (chars digits) count) (some : rest ≠ [])
    (head : Heads (fun c => !c.isDigit && c != '*') (chars rest)) :
    leadingCount (digits ++ rest) = .ok (count, rest) := by
  have stops : Heads (!·.isDigit) (chars rest) :=
    headsMono (fun c both => (Bool.and_eq_true_iff.mp both).1) head
  generalize shown : chars digits = ds at counts
  cases counts with
  | none =>
    obtain rfl := List.map_eq_nil_iff.mp shown
    obtain ⟨run, _⟩ := @digitRun [] rest (by simp [chars]) stops
    simp only [leadingCount, run, List.isEmpty_nil, if_true]
    rfl
  | some nonempty all below =>
    subst shown
    obtain ⟨run, left⟩ := digitRun all stops
    have noStar : after? ['*'] rest = none := by
      cases rest with
      | nil => rfl
      | cons g rest =>
        have plain := head g.char rfl
        simp only [Bool.and_eq_true, bne_iff_ne, ne_eq] at plain
        exact if_neg fun same => plain.2 same.symm
    simp only [leadingCount, run, left, digitsPresent nonempty, countRead below, noStar, Option.getD_none,
      List.isEmpty_iff, some, Bool.false_eq_true, if_false, bind, Except.bind]
    rfl

theorem untilStopRun (name : ∀ c ∈ chars t, isNameChar c = true) (stops : Heads isStop (chars rest)) :
    untilStop 0 (t ++ rest) = (t, rest) := by
  induction t with
  | nil =>
    cases rest with
    | nil => rfl
    | cons g rest =>
      have stop := stops g.char rfl
      have plain : isOpening g.char = false ∧ isClosing g.char = false := by
        simp only [isStop, Bool.or_eq_true, beq_iff_eq] at stop
        rcases stop with (dot | address) | star
        · rw [dot]; decide
        · rw [address]; decide
        · rw [star]; decide
      simp [untilStop, plain, stop]
  | cons g t ih =>
    obtain ⟨plain, _, stop⟩ := nameCharPlain (name g.char (List.mem_cons_self ..))
    obtain ⟨_, opening, closing⟩ := plainIff.mp plain
    have more := ih fun c member => name c (List.mem_cons_of_mem _ member)
    simp [untilStop, opening, closing, stop, more]

end

section
variable (item : MappedText) (d : Dress) {rest : MappedText}

theorem dressStar {digits : List Char} {count : Option Nat} (counts : Counts digits count)
    (spelt : chars t = starred digits) (free : count.isSome = true → d.count = none)
    (stops : Heads isStop (chars rest)) :
    dressFrom item d (t ++ rest) = dressFrom item { d with count := count.or d.count } rest := by
  cases counts with
  | none =>
    rw [List.map_eq_nil_iff.mp spelt]
    rfl
  | @some digits nonempty all below =>
    have shown : starred digits = '*' :: digits := by
      cases digits with
      | nil => exact absurd rfl nonempty
      | cons c cs => rfl
    rw [shown] at spelt
    obtain ⟨star, ds, rfl, mark, rfl⟩ := List.map_eq_cons_iff.mp spelt
    obtain ⟨run, left⟩ := digitRun all (headsMono (fun c stop => by simp [stopNoDigit stop]) stops)
    rw [List.cons_append, dressFrom]
    simp only [mark, run, left, digitsPresent nonempty, free rfl, countRead below, bind, Except.bind]
    rfl

theorem dressLabel {label : Option String} (word : ∀ l ∈ label, NameWord l.toList)
    (spelt : chars t = labelled label) (free : label.isSome = true → d.labelled = false)
    (stops : Heads isStop (chars rest)) :
    dressFrom item d (t ++ rest) = dressFrom item
      { d with labelled := label.isSome || d.labelled, suffix := d.suffix ++ t } rest := by
  cases label with
  | none =>
    rw [List.map_eq_nil_iff.mp spelt]
    simp
  | some l =>
    obtain ⟨dot, name, rfl, mark, same⟩ := List.map_eq_cons_iff.mp spelt
    obtain ⟨_, _, _, _, all⟩ := nameParts (word l rfl).1
    have cut := untilStopRun (t := name) (by rw [chars, same]; exact all) stops
    rw [List.cons_append, dressFrom]
    simp only [mark, cut, free rfl]
    rfl

end

structure Wears (a : Attire) (d : Dress) : Prop where
  count : d.count = a.times
  suffix : chars d.suffix = labelled a.label

theorem dressRead {a : Attire} (valid : a.valid fitsWord = true) (item : MappedText)
    (spelt : chars t = a.back) :
    ∃ d, dressFrom item { count := a.countAt .front } t = .ok d ∧ Wears a d := by
  obtain ⟨star, t, rfl, inStar, spelt⟩ := List.map_eq_append_iff.mp spelt
  obtain ⟨label, star', rfl, inLabel, inStar'⟩ := List.map_eq_append_iff.mp spelt
  have free : (a.countAt .last).isSome = true → (a.countAt .behind).or (a.countAt .front) = none := by
    intro found
    rw [a.countApart (by decide) found, a.countApart (by decide) found]
    rfl
  have stops : Heads isStop (chars star') := by
    rw [chars, inStar']
    exact starredHead _
  have stops' : Heads isStop (chars (label ++ star')) := by
    rw [chars, List.map_append, inLabel]
    exact headsAppend (labelledHead _) stops
  rw [dressStar item _ (a.counts valid .behind) inStar (a.countApart (by decide)) stops',
    dressLabel item _ (fun l found => a.labelWord valid found) inLabel (fun _ => rfl) stops,
    ← List.append_nil star',
    dressStar item _ (a.counts valid .last) inStar' free (by simp [Heads, chars]), dressFrom]
  exact ⟨_, rfl, a.countPlaces, inLabel⟩

section
variable (item : MappedText) {rest : MappedText}

theorem bodyName {name : MappedText} (word : isName (chars name) = true)
    (stops : Heads isStop (chars rest)) :
    bodyOf item (name ++ rest) = .ok (some (.literal name), rest) := by
  obtain ⟨c, cs, shown, start, all⟩ := nameParts word
  obtain ⟨g, name, rfl, rfl, _⟩ := List.map_eq_cons_iff.mp shown
  have cut := untilStopRun all stops
  obtain ⟨plain, _, stop⟩ := nameCharPlain (startNameChar start)
  obtain ⟨block, opening, _⟩ := plainIff.mp plain
  have sign : g.char ≠ '-' := by
    intro same
    rw [same] at start
    cases start
  have other : g.char ≠ '.' ∧ g.char ≠ '@' := by
    simp only [isStop, Bool.or_eq_false_iff, beq_eq_false_iff_ne] at stop
    exact stop.1
  rw [List.cons_append] at cut ⊢
  simp only [bodyOf, sign, opening, block, other, cut]
  cases name ++ rest <;> rfl

theorem bodyGroup {inner : MappedText} (b : Bracket) (opens : opening.char = b.opening)
    (closes : closing.char = b.closing) (even : Even (chars inner)) :
    bodyOf item (opening :: (inner ++ closing :: rest)) =
      .ok (some (.group opening inner closing), rest) := by
  have sign : opening.char ≠ '-' := by
    rw [opens]
    cases b <;> decide
  have isOpen : isOpening opening.char = true := opens ▸ (openingBracket b).1
  simp only [bodyOf, sign, isOpen, groupEndClose even b closes]
  cases inner <;> rfl

end

section
variable {item rest : MappedText} {n : Option Nat} {d : Dress}
  {inside : (inner : MappedText) → inner.length < item.length → Outcome MappedText}
  (present : item ≠ []) (dress : dressFrom item { count := n } rest = .ok d)
include present dress

theorem expandLiteral {text : MappedText} (read : headOf item = .ok (⟨n, some (.literal text)⟩, rest)) :
    expandItem item inside = unfoldLiteral item text d := by
  unfold expandItem
  rw [if_neg (by simpa using present)]
  split <;> rename_i found <;> cases read.symm.trans found
  rw [dress]
  rfl

theorem expandGroup {inner out : MappedText}
    (read : headOf item = .ok (⟨n, some (.group opening inner closing)⟩, rest))
    (made : ∀ shorter, inside inner shorter = .ok out) :
    expandItem item inside = unfoldGroup item opening out closing d := by
  unfold expandItem
  rw [if_neg (by simpa using present)]
  split <;> rename_i found <;> cases read.symm.trans found
  rw [dress]
  simp only [bind, Except.bind, made]

end

section
variable {a : Attire} (valid : a.valid fitsWord = true)
include valid

theorem headRead {front rest after : MappedText} {body : Body}
    (spelt : chars front = a.digitsAt .front) (present : rest ≠ [])
    (head : Heads (fun c => !c.isDigit && c != '*') (chars rest))
    (read : bodyOf (front ++ rest) rest = .ok (some body, after)) :
    headOf (front ++ rest) = .ok (⟨a.countAt .front, some body⟩, after) := by
  have counts := a.counts valid .front
  rw [← spelt] at counts
  simp only [headOf, leadingRead counts present head, bind, Except.bind, read]
  rfl

theorem literalExpands {name : String} (word : isName name.toList = true)
    (spelt : chars t = a.digitsAt .front ++ (name.toList ++ a.back)) :
    ∃ text d, chars text = name.toList ∧ Wears a d ∧
      ∀ inside, expandItem t inside = unfoldLiteral t text d := by
  obtain ⟨front, t, rfl, inFront, spelt⟩ := List.map_eq_append_iff.mp spelt
  obtain ⟨text, back, rfl, inText, inBack⟩ := List.map_eq_append_iff.mp spelt
  obtain ⟨d, dress, wears⟩ := dressRead valid (front ++ (text ++ back)) inBack
  obtain ⟨c, cs, shown, start, _⟩ := nameParts word
  obtain ⟨g, gs, rfl, first, _⟩ := List.map_eq_cons_iff.mp (inText.trans shown)
  have stops : Heads isStop (chars back) := by
    rw [chars, inBack]
    exact headsAppend (starredHead _) (headsAppend (labelledHead _) (starredHead _))
  have head : Heads (fun c => !c.isDigit && c != '*') (chars (g :: gs ++ back)) := by
    refine Row.headsCons ?_ _
    have star : g.char ≠ '*' := by
      intro same
      rw [← first, same] at start
      cases start
    simp [first ▸ Token.startNoDigit start, star]
  have read := headRead valid inFront (by simp) head
    (bodyName (front ++ (g :: gs ++ back)) (by rw [chars, inText]; exact word) stops)
  exact ⟨_, d, inText, wears, fun inside => expandLiteral (by simp) dress read⟩

omit valid in
theorem markerExpands {m : Marker} (spelt : chars t = [m.char])
    (inside : (inner : MappedText) → inner.length < t.length → Outcome MappedText) :
    expandItem t inside = .ok t := by
  obtain ⟨g, rfl, shown⟩ := List.map_eq_singleton_iff.mp spelt
  have read : headOf [g] = .ok (⟨none, some (.literal [g])⟩, []) := by
    cases m <;> simp [headOf, leadingCount, bodyOf, untilStop, isDigitGlyph, shown, Marker.char,
      isOpening, isClosing, Bracket.opened?, Bracket.closed?, isStop, bind, Except.bind] <;> rfl
  have dress : dressFrom [g] { count := none } [] = .ok { count := none } := by rw [dressFrom]
  rw [expandLiteral (by simp) dress read]
  simp [unfoldLiteral, joined]

theorem groupExpands {b : Bracket} {body : List Char} (even : Even body)
    (spelt : chars t = a.digitsAt .front ++ (b.opening :: (body ++ b.closing :: a.back))) :
    ∃ opening inner closing d, opening.char = b.opening ∧ chars inner = body ∧
      closing.char = b.closing ∧ Wears a d ∧ ∀ inside out,
        (∀ shorter, inside inner shorter = .ok out) →
          expandItem t inside = unfoldGroup t opening out closing d := by
  obtain ⟨front, t, rfl, inFront, spelt⟩ := List.map_eq_append_iff.mp spelt
  obtain ⟨opening, t, rfl, opens, spelt⟩ := List.map_eq_cons_iff.mp spelt
  obtain ⟨inner, t, rfl, inInner, spelt⟩ := List.map_eq_append_iff.mp spelt
  obtain ⟨closing, back, rfl, closes, inBack⟩ := List.map_eq_cons_iff.mp spelt
  obtain ⟨d, dress, wears⟩ :=
    dressRead valid (front ++ (opening :: (inner ++ closing :: back))) inBack
  have head : Heads (fun c => !c.isDigit && c != '*')
      (chars (opening :: (inner ++ closing :: back))) :=
    Row.headsCons (by rw [opens]; cases b <;> decide) _
  have read := headRead valid inFront (by simp) head
    (bodyGroup _ b opens closes (by rw [chars, inInner]; exact even))
  exact ⟨opening, inner, closing, d, opens, inInner, closes, wears, fun inside out made =>
    expandGroup (by simp) dress read made⟩

end

end Crochet.Repeat
