import Crochet.Proofs.Repeat.Tidy

/-! Zones that are read a second time. A body with what is left hanging on it once the count is gone
is read as that body and that suffix, on any item. -/
namespace Crochet.Repeat
open MappedText Text Opened

def numbered (t : MappedText) : Bool := t.head?.any isDigitGlyph

variable {c : Char} {d e : Dress} {g : Glyph} {rest item after : MappedText} {body : Option Body}
  {count : Option Nat}

theorem digitPlain (digit : c.isDigit = true) :
    isPlain c = true ∧ isSeparator c = false :=
  have name := nameCharPlain (digitNameChar digit)
  ⟨name.1, name.2.1⟩

variable {t : MappedText}

theorem digitsPlain (all : ∀ g ∈ t, isDigitGlyph g = true) :
    ∀ c ∈ chars t, isPlain c = true ∧ isSeparator c = false := by
  intro c among
  obtain ⟨g, member, rfl⟩ := List.mem_map.mp among
  exact digitPlain (all g member)

theorem digitRunAll (t : MappedText) : ∀ g ∈ t.takeWhile isDigitGlyph, isDigitGlyph g = true :=
  List.all_eq_true.mp List.all_takeWhile

theorem digitRunEnds (t : MappedText) : numbered (t.dropWhile isDigitGlyph) = false := by
  have first := List.head?_dropWhile_not isDigitGlyph t
  unfold numbered
  cases found : (t.dropWhile isDigitGlyph).head? with
  | none => rfl
  | some g =>
    rw [found] at first
    simpa using first

theorem stopSole (stop : isStop c = true) :
    isOpening c = false ∧ isClosing c = false := by
  simp only [isStop, Bool.or_eq_true, beq_iff_eq] at stop
  rcases stop with (rfl | rfl) | rfl <;> exact ⟨rfl, rfl⟩

theorem hangingUnnumbered (hangs : Hanging t) : numbered t = false := by
  cases t with
  | nil => rfl
  | cons g rest => exact stopNoDigit (hangs g rfl)

theorem untilStopNow (hangs : Hanging t) : untilStop 0 t = ([], t) := by
  cases t with
  | nil => rfl
  | cons g rest =>
    have stop := hangs g rfl
    simp [untilStop, stop, stopSole stop]

theorem untilStopStep (depth : Nat) (g : Glyph) :
    depth = 0 ∧ (∀ t, untilStop depth (g :: t) = ([], g :: t)) ∨
      ∃ next, ∀ t, untilStop depth (g :: t) = (g :: (untilStop next t).1, (untilStop next t).2) := by
  cases opening : isOpening g.char with
  | true => exact .inr ⟨depth + 1, fun t => by simp [untilStop, opening]⟩
  | false =>
    cases closing : isClosing g.char with
    | true => exact .inr ⟨depth - 1, fun t => by simp [untilStop, opening, closing]⟩
    | false =>
      cases stops : isStop g.char && depth == 0 with
      | true =>
        have zero := beq_iff_eq.mp (Bool.and_eq_true_iff.mp stops).2
        exact .inl ⟨zero, fun t => by simp only [untilStop, opening, closing, stops]; rfl⟩
      | false => exact .inr ⟨depth, fun t => by simp only [untilStop, opening, closing, stops]; rfl⟩

theorem untilStopAgain (depth : Nat) (t : MappedText) {more : MappedText} (hangs : Hanging more)
    (same : (untilStop depth t).2 = [] → more = []) :
    untilStop depth ((untilStop depth t).1 ++ more) = ((untilStop depth t).1, more) := by
  induction t generalizing depth with
  | nil =>
    cases same rfl
    rfl
  | cons g t ih =>
    rcases untilStopStep depth g with ⟨rfl, stops⟩ | ⟨next, goes⟩
    · rw [stops]
      exact untilStopNow hangs
    · rw [goes] at same ⊢
      rw [List.cons_append, goes, ih next same]

def Hung (t : MappedText) (labelled attached : Bool) : Prop :=
  ∀ item, dressFrom item { count := none } t = .ok ⟨none, t, labelled, attached⟩

structure Left (d e : Dress) (t hung : MappedText) : Prop where
  suffix : e.suffix = d.suffix ++ hung
  runs : ∀ one o, run one o (chars hung) = run one o (chars t)
  none : t = [] → hung = []
  again : ∀ item front, dressFrom item ⟨.none, front, d.labelled, d.attached⟩ hung =
    .ok ⟨.none, front ++ hung, e.labelled, e.attached⟩

theorem Left.hangs {hung : MappedText} (left : Left d e t hung) : Hanging hung :=
  dressHanging (left.again [] [])

theorem Left.runsBehind {hung : MappedText} (left : Left d e t hung) (front : MappedText)
    (one : Bool) (o : Opened) :
    run one o (chars (front ++ hung)) = run one o (chars (front ++ t)) := by
  have parts (more : MappedText) : chars (front ++ more) = chars front ++ chars more :=
    List.map_append
  rw [parts, parts, runAppend, runAppend]
  congr 1
  exact funext (left.runs one)

theorem Left.front {d' : Dress} {hung : MappedText} (left : Left d' e (untilStop 0 rest).2 hung)
    (suffix : d'.suffix = d.suffix ++ g :: (untilStop 0 rest).1)
    (reads : ∀ item front more, dressFrom item ⟨.none, front, d.labelled, d.attached⟩ (g :: more) =
      dressFrom item ⟨.none, front ++ g :: (untilStop 0 more).1, d'.labelled, d'.attached⟩
        (untilStop 0 more).2) :
    Left d e (g :: rest) (g :: (untilStop 0 rest).1 ++ hung) where
  suffix := by
    rw [left.suffix, suffix]
    simp
  runs one o := by
    rw [left.runsBehind, List.cons_append, untilStopParts]
  none := by simp
  again item front := by
    have again := left.again item (front ++ g :: (untilStop 0 rest).1)
    rw [List.cons_append, reads, untilStopAgain 0 rest left.hangs left.none]
    simpa using again

theorem dressAgain (ok : dressFrom item d t = .ok e) :
    ∃ hung, Left d e t hung := by
  fun_induction dressFrom item d t with
  | case1 d =>
    cases ok
    exact ⟨[], by simp, fun _ _ => rfl, fun _ => rfl, fun item front => by simp [dressFrom]⟩
  | case2 d g rest dot twice => cases ok
  | case3 d g rest dot first ih =>
    obtain ⟨hung, left⟩ := ih ok
    refine ⟨_, left.front rfl fun item front more => ?_⟩
    rw [dressFrom, if_pos dot, if_neg (by simpa using first)]
  | case4 d g rest dot address twice => cases ok
  | case5 d g rest dot address first ih =>
    obtain ⟨hung, left⟩ := ih ok
    refine ⟨_, left.front rfl fun item front more => ?_⟩
    rw [dressFrom, if_neg dot, if_pos address, if_neg (by simpa using first)]
  | case6 d g rest dot address star twice => cases ok
  | case7 d g rest dot address star first digits none => cases ok
  | case8 d g rest dot address star first digits some ih =>
    obtain ⟨count, _, ok⟩ := bindOk ok
    obtain ⟨hung, left⟩ := ih count ok
    refine ⟨hung, left.suffix, ?_, by simp, left.again⟩
    intro one o
    have whole : chars (g :: rest) =
        chars (g :: rest.takeWhile isDigitGlyph) ++ chars (rest.dropWhile isDigitGlyph) := by
      simp [chars, ← List.map_append]
    have plain : ∀ c ∈ chars (g :: rest.takeWhile isDigitGlyph),
        isPlain c = true ∧ isSeparator c = false := by
      intro c among
      rcases List.mem_cons.mp among with rfl | later
      · rw [star]
        exact ⟨rfl, rfl⟩
      · exact digitsPlain (digitRunAll rest) c later
    rw [left.runs, whole, runPlain plain]
  | case9 d g rest dot address star => cases ok

theorem dressGrows (ok : dressFrom item d t = .ok e) :
    (d.attached = true → e.attached = true) ∧ ∀ n, d.count = some n → e.count = some n := by
  fun_induction dressFrom item d t with
  | case1 d =>
    cases ok
    exact ⟨id, fun _ => id⟩
  | case2 d g rest dot twice => cases ok
  | case3 d g rest dot first ih => exact ih ok
  | case4 d g rest dot address twice => cases ok
  | case5 d g rest dot address first ih => exact ⟨fun _ => (ih ok).1 rfl, (ih ok).2⟩
  | case6 d g rest dot address star twice => cases ok
  | case7 d g rest dot address star first digits none => cases ok
  | case8 d g rest dot address star first digits some ih =>
    obtain ⟨count, _, ok⟩ := bindOk ok
    refine ⟨(ih count ok).1, fun n counted => ?_⟩
    simp [counted] at first
  | case9 d g rest dot address star => cases ok

def labelOnly : MappedText → Bool
  | [] => false
  | g :: rest => g.char == '.' && (untilStop 0 rest).2.isEmpty

theorem dressAlone (ok : dressFrom item d t = .ok e) (loose : e.attached = false)
    (counted : e.count = d.count) : t = [] ∨ labelOnly t = true := by
  have attaches {d : Dress} {t : MappedText} (more : dressFrom item d t = .ok e)
      (attached : d.attached = true) : False := by
    rw [(dressGrows more).1 attached] at loose
    cases loose
  fun_induction dressFrom item d t with
  | case1 d => exact .inl rfl
  | case2 d g rest dot twice => cases ok
  | case3 d g rest dot first ih =>
    -- a second label is refused, so nothing stands behind this one
    refine .inr ?_
    rcases ih ok counted with none | label
    · simp [labelOnly, dot, none]
    · exfalso
      generalize (untilStop 0 rest).2 = behind at ok label
      cases behind with
      | nil => cases label
      | cons h more =>
        have dotted : h.char = '.' := beq_iff_eq.mp (Bool.and_eq_true_iff.mp label).1
        rw [dressFrom, if_pos dotted, if_pos rfl] at ok
        cases ok
  | case4 d g rest dot address twice => cases ok
  | case5 d g rest dot address first ih => exact (attaches ok rfl).elim
  | case6 d g rest dot address star twice => cases ok
  | case7 d g rest dot address star first digits none => cases ok
  | case8 d g rest dot address star first digits some ih =>
    obtain ⟨count, _, ok⟩ := bindOk ok
    rw [← counted, (dressGrows ok).2 count rfl] at first
    cases first rfl
  | case9 d g rest dot address star => cases ok

inductive Bodied : MappedText → Option Body → MappedText → Prop where
  | nil : Bodied [] none []
  | group {g closing : Glyph} {rest inner after : MappedText} (opens : isOpening g.char = true)
      (found : groupEnd 0 rest = some (inner, closing, after)) :
      Bodied (g :: rest) (some (.group g inner closing)) after
  | block {g m : Glyph} {inner after : MappedText} (starts : g.char = '$') (ends : m.char = '$')
      (clean : ∀ x ∈ inner, (x.char == '$') = false) :
      Bodied (g :: inner ++ m :: after) (some (.literal (g :: inner ++ [m]))) after
  | bare {g : Glyph} {rest : MappedText} (hangs : g.char = '.' ∨ g.char = '@') :
      Bodied (g :: rest) none (g :: rest)
  | word {g : Glyph} {rest : MappedText} (opening : isOpening g.char = false)
      (other : g.char ≠ '$' ∧ g.char ≠ '.' ∧ g.char ≠ '@')
      (positive : g.char = '-' → numbered rest = false) :
      Bodied (g :: rest) (some (.literal (untilStop 0 (g :: rest)).1)) (untilStop 0 (g :: rest)).2

theorem bodyPositive {read : Option Body × MappedText} (ok : bodyOf item (g :: rest) = .ok read)
    (minus : g.char = '-') : numbered rest = false := by
  cases rest with
  | nil => rfl
  | cons d more =>
    cases digit : d.char.isDigit with
    | true => simp [bodyOf, minus, digit, faultAt] at ok
    | false => exact digit

theorem bodiedOf (ok : bodyOf item t = .ok (body, after)) :
    Bodied t body after := by
  cases t with
  | nil =>
    cases ok
    exact .nil
  | cons g rest =>
    have positive := bodyPositive ok
    simp only [bodyOf, faultAt] at ok
    -- the first split is on what follows a minus sign
    split at ok
    all_goals
      split at ok
      · cases ok
      split at ok
      · split at ok
        · cases ok
          exact .group ‹_› ‹_›
        · cases ok
      rename_i opening
      split at ok
      · rename_i starts
        split at ok
        · rename_i inner _ found
          obtain ⟨m, ends, parts, clean⟩ := cutFirstParts found
          cases ok
          rw [parts]
          have block : (g :: (inner ++ m :: after)).take (inner.length + 2) = g :: inner ++ [m] := by
            simp [List.take_append]
          rw [block]
          exact .block starts (beq_iff_eq.mp ends) clean
        · cases ok
      rename_i block
      split at ok
      · rename_i hangs
        cases ok
        exact .bare (by simpa using hangs)
      · rename_i hangs
        cases ok
        simp only [Bool.or_eq_true, decide_eq_true_eq, not_or] at hangs
        exact .word (by simpa using opening) ⟨block, hangs⟩ positive

theorem Bodied.reads (bodied : Bodied t body after) (item : MappedText) :
    bodyOf item t = .ok (body, after) := by
  cases bodied with
  | nil => rfl
  | @group g closing rest inner after opens found =>
    obtain ⟨b, bracket⟩ := openingCases opens
    have minus : g.char ≠ '-' := by
      rw [bracket]
      cases b <;> decide
    cases rest <;> simp [bodyOf, minus, opens, found]
  | @block g m inner after starts ends clean =>
    have cut : cutFirst (·.char == '$') (inner ++ m :: after) = some (inner, after) :=
      cutFirstAt clean (beq_iff_eq.mpr ends)
    have block : (g :: (inner ++ m :: after)).take (inner.length + 2) = g :: inner ++ [m] := by
      simp [List.take_append]
    rw [List.cons_append]
    generalize inner ++ m :: after = rest at cut block
    have opening : isOpening '$' = false := rfl
    cases rest <;> simp [bodyOf, starts, opening, cut, block]
  | @bare g rest hangs =>
    rcases hangs with dot | address
    · have opening : isOpening '.' = false := rfl
      cases rest <;> simp [bodyOf, dot, opening]
    · have opening : isOpening '@' = false := rfl
      cases rest <;> simp [bodyOf, address, opening]
  | @word g rest opening other positive =>
    cases rest with
    | nil => simp [bodyOf, opening, other]
    | cons d more =>
      have digit : g.char = '-' → d.char.isDigit = false := positive
      by_cases minus : g.char = '-'
      · simp [bodyOf, opening, other, digit minus]
      · simp [bodyOf, opening, other, minus]

theorem Bodied.again {text hung : MappedText} (bodied : Bodied t (some (.literal text)) after)
    (present : text ≠ []) (hangs : Hanging hung) (same : after = [] → hung = []) :
    Bodied (text ++ hung) (some (.literal text)) hung := by
  cases bodied with
  | @block g m inner after starts ends clean =>
    rw [List.append_assoc]
    exact .block starts ends clean
  | @word g rest opening other positive =>
    have cut := untilStopAgain 0 (g :: rest) hangs same
    rcases untilStopStep 0 g with ⟨_, stops⟩ | ⟨next, goes⟩
    · rw [stops] at present
      cases present rfl
    · rw [goes, List.cons_append] at cut ⊢
      have first : g.char = '-' → numbered ((untilStop next rest).1 ++ hung) = false := by
        intro minus
        have before := positive minus
        rw [← untilStopParts next rest] at before
        cases shown : (untilStop next rest).1 with
        | nil => exact hangingUnnumbered hangs
        | cons d more =>
          rw [shown] at before
          exact before
      have word := Bodied.word opening other first
      rw [cut] at word
      exact word

def starAt (t : MappedText) : Bool := t.head?.any (·.char == '*')

/- A count, a star and a digit: the count before the star is taken off, the other one stays. -/
def countTwice (t : MappedText) : Bool :=
  numbered t && starAt (t.dropWhile isDigitGlyph) && numbered (t.dropWhile isDigitGlyph).tail

def starLabel (t : MappedText) : Bool :=
  starAt t && numbered t.tail && labelOnly (t.tail.dropWhile isDigitGlyph)

theorem leadingNone (plain : numbered t = false) :
    leadingCount t = .ok (none, t) := by
  have empty : t.takeWhile isDigitGlyph = [] := by
    cases t with
    | nil => rfl
    | cons g rest => exact List.takeWhile_cons_of_neg (by simpa [numbered] using plain)
  simp [leadingCount, empty]

theorem leadingSome (digit : numbered t = true) (ok : leadingCount t = .ok (count, rest)) :
    count.isSome = true ∧ rest ≠ [] ∧
      (starAt (t.dropWhile isDigitGlyph) = false ∧ rest = t.dropWhile isDigitGlyph ∨
        ∃ star, star.char = '*' ∧ t.dropWhile isDigitGlyph = star :: rest) := by
  have present : (t.takeWhile isDigitGlyph).isEmpty = false := by
    cases t with
    | nil => cases digit
    | cons g more => simp [List.takeWhile_cons_of_pos (show isDigitGlyph g = true from digit)]
  simp only [leadingCount, present, Bool.false_eq_true, if_false] at ok
  obtain ⟨n, _, ok⟩ := bindOk ok
  simp only [faultAt] at ok
  split at ok
  · cases ok
  rename_i some
  cases ok
  refine ⟨rfl, by simpa using some, ?_⟩
  cases t.dropWhile isDigitGlyph with
  | nil => exact .inl ⟨rfl, rfl⟩
  | cons g more =>
    by_cases star : '*' = g.char
    · exact .inr ⟨g, star.symm, by simp [MappedText.after?, ← star]⟩
    · exact .inl ⟨by simpa [starAt] using Ne.symm star, by simp [MappedText.after?, star]⟩

theorem leadingRuns (ok : leadingCount t = .ok (count, rest)) (one : Bool) (o : Opened) :
    run one o (chars rest) = run one o (chars t) := by
  cases digit : numbered t with
  | false =>
    cases (leadingNone digit).symm.trans ok
    rfl
  | true =>
    obtain ⟨_, _, behind⟩ := leadingSome digit ok
    have whole : chars t =
        chars (t.takeWhile isDigitGlyph) ++ chars (t.dropWhile isDigitGlyph) := by
      simp [chars, ← List.map_append]
    rw [whole, runPlain (digitsPlain (digitRunAll t))]
    rcases behind with ⟨_, rfl⟩ | ⟨star, char, behind⟩
    · rfl
    · have plain : ∀ c ∈ [star.char], isPlain c = true ∧ isSeparator c = false := by
        rw [char]
        simpa using ⟨rfl, rfl⟩
      rw [behind]
      exact (runPlain plain one o (chars rest)).symm

theorem leadingTwice (ok : leadingCount t = .ok (count, rest)) (next : numbered rest = true) :
    countTwice t = true := by
  cases digit : numbered t with
  | false =>
    cases (leadingNone digit).symm.trans ok
    rw [digit] at next
    cases next
  | true =>
    obtain ⟨_, _, ⟨_, rfl⟩ | ⟨star, char, behind⟩⟩ := leadingSome digit ok
    · rw [digitRunEnds] at next
      cases next
    · simp [countTwice, digit, behind, starAt, char, next]

theorem leadingUncounted (ok : leadingCount t = .ok (none, rest)) :
    rest = t := by
  cases digit : numbered t with
  | false =>
    cases (leadingNone digit).symm.trans ok
    rfl
  | true => cases (leadingSome digit ok).1

theorem starRun (star : starAt (t.dropWhile isDigitGlyph) = true) :
    starAt (untilStop 0 t).2 = true := by
  induction t with
  | nil => cases star
  | cons g t ih =>
    cases digit : isDigitGlyph g with
    | true =>
      rw [List.dropWhile_cons_of_pos digit] at star
      have name := nameCharPlain (digitNameChar digit)
      obtain ⟨_, opening, closing⟩ := plainIff.mp name.1
      simpa [untilStop, opening, closing, name.2.2] using ih star
    | false =>
      rw [List.dropWhile_cons_of_neg (by simp [digit])] at star
      have stop : Hanging (g :: t) := by
        intro h first
        cases first
        simp only [isStop, beq_iff_eq.mp star]
        rfl
      rw [untilStopNow stop]
      exact star

section
variable {labelled attached : Bool} (hung : Hung t labelled attached)
include hung

theorem Hung.hangs : Hanging t := dressHanging (hung [])

theorem Hung.unstarred : starAt t = false := by
  cases t with
  | nil => rfl
  | cons g rest =>
    cases star : starAt (g :: rest) with
    | false => rfl
    | true =>
      have char : g.char = '*' := beq_iff_eq.mp star
      have ok := hung []
      rw [dressFrom, if_neg (by simp [char]), if_neg (by simp [char]), if_pos char] at ok
      simp only [faultAt] at ok
      split at ok
      · cases ok
      split at ok
      · cases ok
      obtain ⟨count, _, ok⟩ := bindOk ok
      cases (dressGrows ok).2 count rfl

theorem Hung.bodied : Bodied t none t := by
  have hangs := hung.hangs
  have unstarred := hung.unstarred
  cases t with
  | nil => exact .nil
  | cons g rest =>
    have stop := hangs g rfl
    have star : (g.char == '*') = false := unstarred
    simp only [isStop, star, Bool.or_false, Bool.or_eq_true, beq_iff_eq] at stop
    exact .bare stop

end

theorem Left.hung {hung : MappedText} (left : Left d e t hung)
    (fresh : d.labelled = false ∧ d.attached = false) : Hung hung e.labelled e.attached := by
  intro item
  have again := left.again item []
  rw [fresh.1, fresh.2] at again
  exact again

end Crochet.Repeat
