import Crochet.Proofs.Lists
import Crochet.Proofs.Source.Switched

/-! Colour switches that have their keys. Behind every mark of a switch stand the digits of a recorded
key, and then the item ends. -/
namespace Crochet.Color
open MappedText Text Source

def Closed (cs : List Char) : Prop := ∀ c ∈ cs.head?, Repeat.isEnding c = true

def Keyed (keys : List Nat) (cs : List Char) : Prop :=
  ∀ a b, cs = a ++ colorMark ++ b →
    ∃ key ∈ keys, ∃ rest, b = Nat.toDigits 10 key ++ rest ∧ Closed rest

theorem markCons : colorMark = 'C' :: "OLOR:".toList := rfl

variable {x y : List Char} {c : Char}

section
variable {keys : List Nat} {a b : List Char}

theorem keyedRest (keyed : Keyed keys (a ++ b)) : Keyed keys b := by
  intro x y whole
  exact keyed (a ++ x) y (by simp [whole])

theorem keyedShort (short : a.length < colorMark.length) : Keyed keys a := by
  intro x y whole
  have size := congrArg List.length whole
  simp only [List.length_append] at size
  omega

theorem markApart (apart : ∀ c ∈ b.head?, c ∉ colorMark) (whole : a ++ b = x ++ colorMark ++ y) :
    (∃ rest, a = x ++ colorMark ++ rest ∧ y = rest ++ b) ∨
      ∃ lead, b = lead ++ colorMark ++ y ∧ x = a ++ lead := by
  rw [List.append_assoc] at whole
  rcases List.append_eq_append_iff.mp whole with ⟨lead, front, behind⟩ | ⟨mid, front, behind⟩
  · exact .inr ⟨lead, by rw [behind, List.append_assoc], front⟩
  rcases List.append_eq_append_iff.mp behind with ⟨rest, mark, more⟩ | ⟨tail, mark, rest⟩
  · exact .inl ⟨rest, by rw [front, mark, List.append_assoc], more⟩
  · cases tail with
    | nil =>
      rw [List.append_nil] at mark
      exact .inl ⟨[], by rw [front, ← mark, List.append_nil], rest.symm⟩
    | cons c tail =>
      have inside : c ∈ colorMark := by
        rw [mark]
        simp
      exact absurd inside (apart c (by rw [rest]; rfl))

theorem markBehind (foreign : c ∉ colorMark) (whole : c :: a = x ++ colorMark ++ y) :
    ∃ lead, a = lead ++ colorMark ++ y := by
  cases x with
  | nil =>
    rw [List.nil_append, markCons] at whole
    exact absurd ((List.cons.inj whole).1 ▸ List.mem_cons_self) (markCons ▸ foreign)
  | cons d lead => exact ⟨lead, (List.cons.inj whole).2⟩

theorem digitsApart {key : Nat} {rest : List Char} (apart : ∀ c ∈ b.head?, c.isDigit = false)
    (whole : a ++ b = Nat.toDigits 10 key ++ rest) :
    ∃ more, a = Nat.toDigits 10 key ++ more ∧ rest = more ++ b := by
  rcases List.append_eq_append_iff.mp whole with ⟨tail, digits, behind⟩ | ⟨more, front, behind⟩
  · cases tail with
    | nil => exact ⟨[], by rw [digits]; simp, by simpa using behind.symm⟩
    | cons c tail =>
      have digit := keyDigits key c (by rw [digits]; simp)
      rw [apart c (by rw [behind]; rfl)] at digit
      cases digit
  · exact ⟨more, front, behind⟩

end

def isForeign (c : Char) : Bool := Repeat.isEnding c || isOpening c || Repeat.isStop c

theorem markOwn : ∀ c ∈ colorMark, isForeign c = false := by
  have all : colorMark.all (fun c => !isForeign c) = true := rfl
  intro c member
  simpa using List.all_eq_true.mp all c member

theorem foreignApart (foreign : isForeign c = true) : c ∉ colorMark := by
  intro member
  rw [markOwn c member] at foreign
  cases foreign

theorem stopPlain (stop : Repeat.isStop c = true) :
    c.isDigit = false ∧ Repeat.isEnding c = false := by
  simp only [Repeat.isStop, Bool.or_eq_true, beq_iff_eq] at stop
  rcases stop with (rfl | rfl) | rfl
  all_goals exact ⟨rfl, rfl⟩

theorem keyedStable (keys : List Nat) : Repeat.Stable (fun t => Keyed keys (chars t)) where
  nil := keyedShort (by decide)
  one := fun _ => keyedShort (Nat.lt_of_lt_of_eq (by decide : 1 < 6) rfl)
  comma := fun _ _ => keyedShort (Nat.lt_of_lt_of_eq (by decide : 1 < 6) rfl)
  rest := by
    intro a b keyed
    simp only [chars, List.map_append] at keyed ⊢
    exact keyedRest keyed
  front := by
    intro a b g plain keyed x y whole
    simp only [chars, List.map_append, List.map_cons] at keyed
    obtain ⟨key, member, rest, digits, closed⟩ := keyed x (y ++ g.char :: b.map Glyph.char)
      (by rw [← List.append_assoc, ← whole]; rfl)
    obtain ⟨more, own, behind⟩ := digitsApart (by simpa using plain) digits
    refine ⟨key, member, more, own, ?_⟩
    cases more with
    | nil => simp [Closed]
    | cons c more =>
      rw [behind] at closed
      exact closed
  join := by
    intro a b g ending first _ second x y whole
    simp only [chars, List.map_append, List.map_cons] at whole
    have foreign : g.char ∉ colorMark := foreignApart (by simp [isForeign, ending])
    rcases markApart (by simpa using foreign) whole with ⟨rest, own, rfl⟩ | ⟨lead, own, rfl⟩
    · obtain ⟨key, member, more, digits, closed⟩ := first x rest own
      refine ⟨key, member, more ++ g.char :: b.map Glyph.char, by rw [digits, List.append_assoc], ?_⟩
      cases more with
      | nil => simpa [Closed] using ending
      | cons c more => exact closed
    · obtain ⟨lead, own⟩ := markBehind foreign own
      exact second lead y own
  opened := by
    intro b g opening _ second x y whole
    have foreign : g.char ∉ colorMark := foreignApart (by simp [isForeign, opening])
    obtain ⟨lead, own⟩ := markBehind foreign whole
    exact second lead y own
  dress := by
    intro a b c hung hangs same both own x y whole
    simp only [chars, List.map_append] at whole both
    have foreign : ∀ d ∈ (c.map Glyph.char).head?, d ∉ colorMark := by
      intro d member
      rw [List.head?_map] at member
      obtain ⟨g, first, rfl⟩ := Option.mem_map.mp member
      exact foreignApart (by simp [isForeign, hangs g first])
    rcases markApart foreign whole with ⟨rest, front, rfl⟩ | ⟨lead, behind, rfl⟩
    · obtain ⟨key, member, more, digits, closed⟩ := both x (rest ++ b.map Glyph.char)
        (by rw [← List.append_assoc, ← front])
      cases b with
      | nil =>
        rw [same rfl]
        exact ⟨key, member, more, digits, closed⟩
      | cons g b =>
        obtain ⟨plain, open'⟩ := stopPlain (hung g rfl)
        obtain ⟨mid, own, behind⟩ := digitsApart (by simpa using plain) digits
        refine ⟨key, member, mid ++ c.map Glyph.char, by rw [own, List.append_assoc], ?_⟩
        cases mid with
        | nil =>
          have ending := closed g.char (by rw [behind]; rfl)
          rw [open'] at ending
          cases ending
        | cons d mid =>
          rw [behind] at closed
          exact closed
    · exact own lead y behind

theorem markLater {a b : List Char} (clean : 'C' ∉ a) (whole : a ++ b = x ++ colorMark ++ y) :
    ∃ lead, b = lead ++ colorMark ++ y := by
  rw [List.append_assoc] at whole
  rcases List.append_eq_append_iff.mp whole with ⟨lead, front, behind⟩ | ⟨mid, front, behind⟩
  · exact ⟨lead, by rw [behind, List.append_assoc]⟩
  · cases mid with
    | nil => exact ⟨[], behind.symm⟩
    | cons c mid =>
      rw [markCons] at behind
      have first : 'C' = c := (List.cons.inj behind).1
      exact absurd (by rw [front, ← first]; simp) clean

theorem afterNone {start : List Char} {t : MappedText} (none : MappedText.after? start t = none) :
    ¬ start <+: chars t := by
  induction start generalizing t with
  | nil => cases none
  | cons c start ih =>
    cases t with
    | nil => simp [chars]
    | cons g t =>
      rintro starts
      obtain ⟨same, more⟩ := List.cons_prefix_cons.mp starts
      rw [MappedText.after?, if_pos same] at none
      exact ih none more

section
variable {offset : Nat} {t out : MappedText} {colors : List (Nat × String)}

theorem switchedPrefix (switched : Switched offset t out colors) {p : List Char} (clean : 'C' ∉ p)
    (starts : p <+: chars out) : p <+: chars t := by
  induction switched generalizing p with
  | nil => exact starts
  | keep _ _ ih =>
    cases p with
    | nil => exact List.nil_prefix
    | cons c p =>
      obtain ⟨same, more⟩ := List.cons_prefix_cons.mp starts
      exact List.cons_prefix_cons.mpr ⟨same, ih (fun inside => clean (List.mem_cons_of_mem _ inside)) more⟩
  | switch marks =>
    cases p with
    | nil => exact List.nil_prefix
    | cons c p =>
      simp only [chars, List.map_append] at starts marks
      rw [marks, markCons] at starts
      cases (List.cons_prefix_cons.mp starts).1
      exact absurd List.mem_cons_self clean

theorem switchedClosed (switched : Switched offset t out colors) (ended : Ended t) :
    Closed (chars out) := by
  cases switched with
  | nil => simp [Closed, chars]
  | keep =>
    intro c member
    cases Option.some.inj member
    exact ended _ rfl
  | @switch _ _ _ mark _ _ _ _ marks =>
    cases mark with
    | nil => cases marks
    | cons g mark =>
      have letter : g.char = 'C' := (List.cons.inj (marks.trans markCons)).1
      have ending := ended g rfl
      rw [letter] at ending
      cases ending

theorem switchedKeyed (switched : Switched offset t out colors) :
    Keyed (colors.map Prod.fst) (chars out) := by
  induction switched with
  | nil => exact keyedShort (by decide)
  | @keep _ g t out _ plain more ih =>
    intro x y whole
    cases x with
    | nil =>
      -- A mark that begins here was there before.
      rw [List.nil_append, markCons] at whole
      obtain ⟨same, rest⟩ := List.cons.inj whole
      have later : "OLOR:".toList <+: chars t := switchedPrefix more (by decide) ⟨y, rest.symm⟩
      refine absurd ?_ (afterNone plain)
      rw [markCons]
      exact List.cons_prefix_cons.mpr ⟨same.symm, later⟩
    | cons c x => exact ih x y (List.cons.inj whole).2
  | @switch offset _ _ mark value t out _ marks _ _ ended more ih =>
    intro x y whole
    have text : chars (mark ++ madeText (startOrigin value) (Nat.toDigits 10 offset) ++ out) =
        'C' :: ("OLOR:".toList ++ Nat.toDigits 10 offset ++ chars out) := by
      simp only [chars, List.map_append, madeText, List.map_map] at marks ⊢
      rw [marks, markCons]
      simp [Function.comp_def, made]
    rw [text] at whole
    cases x with
    | nil =>
      rw [List.nil_append, markCons, List.cons_append] at whole
      have rest := List.append_cancel_left (List.append_assoc _ _ _ ▸ (List.cons.inj whole).2)
      exact ⟨offset, List.mem_cons_self, chars out, rest.symm, switchedClosed more ended⟩
    | cons c x =>
      have clean : 'C' ∉ "OLOR:".toList ++ Nat.toDigits 10 offset := by
        intro inside
        rcases List.mem_append.mp inside with letter | digit
        · revert letter
          decide
        · cases keyDigits offset _ digit
      obtain ⟨lead, own⟩ := markLater clean (List.cons.inj whole).2
      obtain ⟨key, member, found⟩ := ih lead y own
      exact ⟨key, List.mem_cons_of_mem _ member, found⟩

end

end Crochet.Color
