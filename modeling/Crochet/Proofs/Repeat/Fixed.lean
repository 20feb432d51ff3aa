import Crochet.Proofs.Repeat.Flat

/-! Writing out what is written out. The text stays as it is unless one of its items begins with a
digit or is a label alone, and such items come only from a count with a star in front of a digit and
from a count in front of a label. -/
namespace Crochet.Repeat
open MappedText Opened

def Multiplied (t : MappedText) : Prop :=
  ∃ head rest d, headOf t = .ok (head, rest) ∧ dressFrom t { count := head.count } rest = .ok d ∧
    d.count.isSome = true

/- No item, in no group, begins with a digit or is a label alone. -/
def Uncounted (t : MappedText) : Prop := ∀ x, ItemOf t x → numbered x = false ∧ labelOnly x = false

variable {t out u : MappedText} {labelled : Bool}

theorem literalUnlabelled {text after : MappedText} (bodied : Bodied t (some (.literal text)) after) :
    labelOnly t = false := by
  cases bodied with
  | block starts _ _ => simp [labelOnly, starts]
  | word _ other _ => simp [labelOnly, other]

theorem labelReads (alone : labelOnly t = true) : Hung t true false := by
  intro item
  cases t with
  | nil => cases alone
  | cons g rest =>
    obtain ⟨dot, none⟩ := Bool.and_eq_true_iff.mp alone
    have cut := untilStopParts 0 rest
    rw [List.isEmpty_iff.mp none, List.append_nil] at cut
    rw [dressFrom, if_pos (beq_iff_eq.mp dot), List.isEmpty_iff.mp none, cut, dressFrom]
    rfl

theorem attachedUnlabelled (reads : Hung t labelled true) :
    labelOnly t = false := by
  cases alone : labelOnly t with
  | false => rfl
  | true => cases (labelReads alone []).symm.trans (reads [])

structure Plainly (t : MappedText) : Prop where
  unnumbered : numbered t = false
  stitched : labelOnly t = false
  read : ∃ body rest labelled attached, headOf t = .ok (⟨none, body⟩, rest) ∧
    Hung rest labelled attached ∧ ∀ opening inner closing, body = some (.group opening inner closing) →
      ∀ item ∈ items inner, Flat False item.text

theorem flatPlainly (flat : Flat False t) : Plainly t := by
  cases flat with
  | empty =>
    have hung : Hung [] false false := fun item => by rw [dressFrom]
    exact ⟨rfl, rfl, none, [], _, _, rfl, hung, by simp⟩
  | bare reads =>
    have plain := hangingUnnumbered reads.hangs
    exact ⟨plain, attachedUnlabelled reads, none, _, _, _, headPlain plain reads.bodied, reads,
      by simp⟩
  | literal _ plain bodied reads _ =>
    exact ⟨plain, literalUnlabelled bodied, _, _, _, _, headPlain plain bodied, reads, by simp⟩
  | @group opening closing content hung _ _ opens closes tidy each _ reads =>
    have dot : opening.char ≠ '.' := by
      intro same
      rw [same] at opens
      cases opens
    refine ⟨groupUnnumbered opens _, by simp [labelOnly, dot], _, _, _, _,
      headGroup opens closes tidy hung, reads, ?_⟩
    intro _ _ _ same
    cases same
    exact each
  | counted impossible => exact impossible.elim
  | label impossible => exact impossible.elim

theorem flatUnmultiplied (flat : Flat False t) : ¬ Multiplied t := by
  rintro ⟨head, rest, d, read, dressed, counted⟩
  obtain ⟨body, after, labelled, attached, plain, reads, _⟩ := (flatPlainly flat).read
  cases plain.symm.trans read
  cases (reads t).symm.trans dressed
  cases counted

theorem flatItemOf {x : MappedText} (among : ItemOf t x)
    (flat : ∀ item ∈ items t, Flat False item.text) : Flat False x := by
  induction among with
  | here member => exact flat _ member
  | deeper member read body _ ih =>
    obtain ⟨_, _, _, _, plain, _, each⟩ := (flatPlainly (flat _ member)).read
    cases plain.symm.trans read
    exact ih (each _ _ _ body)

section
variable {odd : Prop}

theorem flatFine (flat : Flat odd t) (clean : numbered t = false ∧ labelOnly t = false)
    (within : ∀ head rest opening inner closing, headOf t = .ok (head, rest) →
      head.body = some (.group opening inner closing) → Uncounted inner) : Flat False t := by
  induction flat with
  | empty => exact .empty
  | bare reads => exact .bare reads
  | literal present plain bodied reads single => exact .literal present plain bodied reads single
  | @group opening closing content hung _ _ opens closes tidy _ unmarked reads ih =>
    have inside : Uncounted content := within _ _ _ _ _ (headGroup opens closes tidy hung) rfl
    refine .group opens closes tidy (fun item among => ?_) unmarked reads
    exact ih item among (inside _ (.here among)) fun _ _ _ _ _ read body x deep =>
      inside x (.deeper among read body deep)
  | counted _ digit _ =>
    rw [digit] at clean
    cases clean.1
  | label _ alone =>
    rw [alone] at clean
    cases clean.2

theorem itemsFine (flat : ∀ item ∈ items t, Flat odd item.text) (clean : Uncounted t) :
    ∀ item ∈ items t, Flat False item.text := by
  intro item among
  exact flatFine (flat item among) (clean _ (.here among)) fun _ _ _ _ _ read body x inside =>
    clean x (.deeper among read body inside)

end

theorem joinedUnnumbered (origin : Nat) {texts : List MappedText}
    (each : ∀ t ∈ texts, t ≠ [] ∧ numbered t = false) : numbered (joined origin texts) = false := by
  cases texts with
  | nil => rfl
  | cons text rest =>
    obtain ⟨present, plain⟩ := each text List.mem_cons_self
    cases text with
    | nil => exact absurd rfl present
    | cons g more => cases rest <;> exact plain

theorem countedChanges (digit : numbered t = true)
    (unstarred : starAt (t.dropWhile isDigitGlyph) = false) (ok : expandText t = .ok out) :
    numbered out = false := by
  have present : t ≠ [] := by
    rintro rfl
    cases digit
  obtain ⟨count, behind, body, rest, d, counted, bodied, _, dressed, unfolded⟩ :=
    expandCases present ok
  obtain ⟨some, _, cut⟩ := leadingSome digit counted
  have same : behind = t.dropWhile isDigitGlyph := by
    rcases cut with ⟨_, same⟩ | ⟨star, char, same⟩
    · exact same
    · simp [same, starAt, char] at unstarred
  rw [← same] at unstarred
  have plain : numbered behind = false := same ▸ digitRunEnds t
  obtain ⟨n, rfl⟩ := Option.isSome_iff_exists.mp some
  have kept := (dressGrows dressed).2 n rfl
  cases unfolded with
  | bare made => simp [unfoldBare, kept, faultAt] at made
  | @literal text _ made =>
    have parts := literalParts bodied
    have word : text ≠ [] := by
      intro empty
      obtain ⟨star, more, shown, _, char⟩ := emptyWord bodied empty (dressHanging dressed)
      simp [shown, starAt, char] at unstarred
    simp only [unfoldLiteral, faultAt] at made
    split at made
    · cases made
    cases made
    refine joinedUnnumbered _ fun copy among => ?_
    rw [List.eq_of_mem_replicate among]
    cases text with
    | nil => exact absurd rfl word
    | cons g more =>
      rw [parts] at plain
      exact ⟨by simp, plain⟩
  | group made wrapped =>
    have opens := (bodyParts (bodied.reads t)).2 _ _ _ rfl
    simp only [unfoldGroup, kept] at wrapped
    obtain ⟨copies, _, wrapped⟩ := bindOk wrapped
    cases wrapped
    refine joinedUnnumbered _ fun copy among => ?_
    obtain ⟨content, _, rfl⟩ := List.mem_map.mp among
    exact ⟨by simp, groupUnnumbered opens.1 _⟩

theorem labelRefused (alone : labelOnly t = true) : expandText t ≠ .ok out := by
  intro ok
  have reads := labelReads alone
  have present : t ≠ [] := by
    rintro rfl
    cases alone
  have read := headPlain (hangingUnnumbered reads.hangs) reads.bodied
  rw [expandText, expandBare present (reads t) read] at ok
  cases ok

theorem groupWritten {opening closing : Glyph} {content hung : MappedText} {attached : Bool}
    (opens : isOpening opening.char = true) (closes : isClosing closing.char = true)
    (tidy : Tidy (chars content)) (reads : Hung hung labelled attached)
    (ok : expandText (opening :: content ++ closing :: hung) = .ok out) :
    ∃ wide, expandSequence content = .ok wide ∧ out = opening :: wide ++ closing :: hung := by
  obtain ⟨count, behind, body, rest, d, _, _, read, dressed, unfolded⟩ := expandCases (by simp) ok
  cases (headGroup opens closes tidy hung).symm.trans read
  cases (reads _).symm.trans dressed
  cases unfolded with
  | @group _ _ _ wide _ made wrapped =>
    simp only [unfoldGroup, faultAt] at wrapped
    split at wrapped
    · cases wrapped
    · cases wrapped
      exact ⟨wide, made, rfl⟩

section
variable {odd : Prop}

theorem ropeSame {rope : List Item} {parts : List MappedText} {P : MappedText → Prop}
    (chained : Chained P rope) (made : rope.mapM expandPart = .ok parts)
    (same : chars parts.flatten = chars (ropeText rope))
    (each : ∀ item ∈ rope, ∀ out more rest, expandText item.text = .ok out →
      chars out ++ more = chars item.text ++ rest → more.head?.any Char.isDigit = false →
        Flat False item.text) : ∀ item ∈ rope, Flat False item.text := by
  induction chained generalizing parts with
  | @last text _ =>
    obtain ⟨one, none, written, more, rfl⟩ := mapMConsOk made
    cases pureOk more
    obtain ⟨new, wrote, shown⟩ := bindOk written
    cases shown
    intro item among
    rw [List.mem_singleton.mp among]
    exact each _ List.mem_cons_self new [] [] wrote (by simpa [ropeText] using same) rfl
  | @link text g rope separates _ _ ih =>
    obtain ⟨one, others, written, more, rfl⟩ := mapMConsOk made
    obtain ⟨new, wrote, shown⟩ := bindOk written
    cases shown
    have whole : chars new ++ (g.char :: chars others.flatten) =
        chars text ++ (g.char :: chars (ropeText rope)) := by
      simpa [ropeText, chars] using same
    have first : Flat False text := each _ List.mem_cons_self new _ _ wrote whole
      (endingNoDigit (separatorEnding separates))
    cases (flatExpands first).symm.trans wrote
    have later : chars others.flatten = chars (ropeText rope) := by simpa using whole
    have rest := ih more later fun item among => each item (List.mem_cons_of_mem _ among)
    intro item among
    rcases List.mem_cons.mp among with rfl | behind
    · exact first
    · exact rest item behind

theorem flatSame {more rest : List Char} (flat : Flat odd t) (ok : expandText t = .ok out)
    (same : chars out ++ more = chars t ++ rest) (next : more.head?.any Char.isDigit = false) :
    Flat False t := by
  induction flat generalizing out more rest with
  | empty => exact .empty
  | bare reads => exact .bare reads
  | literal present plain bodied reads single => exact .literal present plain bodied reads single
  | @group opening closing content hung _ _ opens closes tidy _ unmarked reads ih =>
    refine .group opens closes tidy ?_ unmarked reads
    obtain ⟨wide, made, shown⟩ := groupWritten opens closes tidy reads ok
    have kept : Tidy (chars wide) ∧ ∀ item ∈ items wide, Flat True item.text :=
      sequenceItems tidy made fun _ _ _ => trivial
    have lines : chars wide ++ closing.char :: (chars hung ++ more) =
        chars content ++ closing.char :: (chars hung ++ rest) := by
      simpa [shown, chars] using same
    have inside := tidyFront kept.1 tidy closes closes lines
    rw [expandItems] at made
    obtain ⟨parts, each, rfl⟩ := mapOk made
    refine ropeSame (itemsChained tidy) each (by rw [itemsWhole]; exact inside) ?_
    intro item among out more rest wrote
    exact ih item among wrote
  | @counted t _ digit unstarred =>
    have changed := countedChanges digit unstarred ok
    cases t with
    | nil => cases digit
    | cons g t =>
      exfalso
      cases out with
      | nil =>
        have first : more = g.char :: (chars t ++ rest) := same
        have again : more.head?.any Char.isDigit = true := by
          rw [first]
          exact digit
        rw [again] at next
        cases next
      | cons h out =>
        have first : h.char = g.char := (List.cons.inj same).1
        have again : numbered (h :: out) = true := by
          show h.char.isDigit = true
          rw [first]
          exact digit
        rw [again] at changed
        cases changed
  | label _ alone => exact absurd ok (labelRefused alone)

end

theorem expandOk : expand t = .ok u ↔
    expandSequence t = .ok u ∧ markerSpan? u = none := by
  constructor
  · intro ok
    unfold expand at ok
    obtain ⟨out, made, ok⟩ := bindOk ok
    simp only [faultAt] at ok
    split at ok
    · cases ok
    · rename_i unmarked
      cases ok
      exact ⟨made, unmarked⟩
  · rintro ⟨made, unmarked⟩
    simp only [expand, made, bind, Except.bind, unmarked]
    rfl

theorem flatFixed (flat : ∀ item ∈ items u, Flat False item.text) (unmarked : markerSpan? u = none) :
    expand u = .ok u :=
  expandOk.mpr ⟨sequenceSame fun item among => flatExpands (flat item among), unmarked⟩

theorem flatUncounted (flat : ∀ item ∈ items u, Flat False item.text) :
    Uncounted u := by
  intro x among
  have plainly := flatPlainly (flatItemOf among flat)
  exact ⟨plainly.unnumbered, plainly.stitched⟩

/- Tidy text that is written out is written out once more as it stands if and only if no item is
left that begins with a digit or is a label alone. -/
theorem expandedFixed {t u : MappedText} (tidy : Tidy (chars t)) (ok : expand t = .ok u) :
    ((∃ v, expand u = .ok v ∧ chars v = chars u) ↔ Uncounted u) ∧
      (Uncounted u → expand u = .ok u ∧ ∀ x, ItemOf u x → ¬ Multiplied x) ∧
        ((∀ x, ItemOf t x → countTwice x = false ∧ starLabel x = false) → Uncounted u) := by
  obtain ⟨made, unmarked⟩ := expandOk.mp ok
  obtain ⟨settled, flat⟩ : Tidy (chars u) ∧ ∀ item ∈ items u, Flat True item.text :=
    sequenceItems tidy made fun _ _ _ => trivial
  have fine (clean : Uncounted u) := flatFixed (itemsFine flat clean) unmarked
  refine ⟨⟨?_, fun clean => ⟨u, fine clean, rfl⟩⟩, fun clean => ⟨fine clean, ?_⟩, ?_⟩
  · rintro ⟨v, again, same⟩
    have written := (expandOk.mp again).1
    rw [expandItems] at written
    obtain ⟨parts, each, rfl⟩ := mapOk written
    refine flatUncounted (ropeSame (itemsChained settled) each (by rw [itemsWhole]; exact same) ?_)
    exact fun item among _ _ _ wrote shown next => flatSame (flat item among) wrote shown next
  · exact fun x among => flatUnmultiplied (flatItemOf among (itemsFine flat clean))
  · intro absent
    refine flatUncounted (sequenceItems tidy made fun x among bad => ?_).2
    rcases bad with twice | lone
    · cases (absent x among).1.symm.trans twice
    · cases (absent x among).2.symm.trans lone

theorem expandedFixedNested : ∃ u, expand (ofSource
      "3[ch.A,<\n2sc,(dc*0\nhdc.B*2).C,>,tr].D,*2@E,2$k=(1)$".toList) = .ok u ∧
    expand u = .ok u ∧ ∀ x, ItemOf u x → ¬ Multiplied x := by
  have runs : (expand (ofSource
      "3[ch.A,<\n2sc,(dc*0\nhdc.B*2).C,>,tr].D,*2@E,2$k=(1)$".toList)).toOption.any
        (fun u => (expand u).toOption.any (chars · == chars u)) = true := by
    decide +kernel
  obtain ⟨u, ok, again⟩ := testOk runs
  obtain ⟨v, made, same⟩ := testOk again
  obtain ⟨fixed, stays, _⟩ := expandedFixed (by decide +kernel) ok
  exact ⟨u, ok, stays (fixed.mp ⟨v, made, beq_iff_eq.mp same⟩)⟩

def Unsettled (source : String) : Prop := ∃ u, expand (ofSource source.toList) = .ok u ∧
  ¬ ∃ v, expand u = .ok v ∧ chars v = chars u

theorem unsettledOf {source : String} (runs : (expand (ofSource source.toList)).toOption.any
    (fun u => !(expand u).toOption.any (chars · == chars u)) = true) : Unsettled source := by
  obtain ⟨u, ok, differs⟩ := testOk runs
  refine ⟨u, ok, ?_⟩
  rintro ⟨v, made, same⟩
  simp [made, same, Except.toOption] at differs

/- A count that is the body of another one, and a label left without a stitch. The other two are not
tidy: a bracket that the first copy leaves open holds the comma behind it. -/
theorem expandedUnsettled : Unsettled "2*3sc" ∧ Unsettled "*3.A" ∧ Unsettled "2sc).A(" ∧
    Unsettled "2[sc$].A$" := by
  refine ⟨unsettledOf ?_, unsettledOf ?_, unsettledOf ?_, unsettledOf ?_⟩ <;> decide +kernel

end Crochet.Repeat
