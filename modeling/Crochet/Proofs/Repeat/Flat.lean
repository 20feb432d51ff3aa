import Crochet.Proofs.Repeat.Reread

/-! Items with nothing left to write out. Each is expanded to itself, and tidy text is expanded to a
rope of them, but for items that begin with a digit and labels that stand alone. -/
namespace Crochet.Repeat
open MappedText Opened

/- An item without a count. Where `odd` holds there may also be items that begin with a digit, and
labels without a stitch. -/
inductive Flat (odd : Prop) : MappedText → Prop where
  | empty : Flat odd []
  | bare {hung : MappedText} {labelled : Bool} (reads : Hung hung labelled true) : Flat odd hung
  | literal {text hung : MappedText} {labelled attached : Bool} (present : text ≠ [])
      (plain : numbered (text ++ hung) = false)
      (bodied : Bodied (text ++ hung) (some (.literal text)) hung)
      (reads : Hung hung labelled attached) (single : isMarker text = true → hung = []) :
      Flat odd (text ++ hung)
  | group {opening closing : Glyph} {content hung : MappedText} {labelled attached : Bool}
      (opens : isOpening opening.char = true) (closes : isClosing closing.char = true)
      (tidy : Tidy (chars content)) (each : ∀ item ∈ items content, Flat odd item.text)
      (unmarked : ∀ item ∈ items content, isMarker item.text = false)
      (reads : Hung hung labelled attached) : Flat odd (opening :: content ++ closing :: hung)
  | counted {t : MappedText} (holds : odd) (digit : numbered t = true)
      (unstarred : starAt (t.dropWhile isDigitGlyph) = false) : Flat odd t
  | label {t : MappedText} (holds : odd) (alone : labelOnly t = true) : Flat odd t

variable {t after out content text behind hung : MappedText} {n : Option Nat} {labelled : Bool}
  {opening closing : Glyph}

theorem headPlain {body : Option Body} (plain : numbered t = false) (bodied : Bodied t body after) :
    headOf t = .ok (⟨none, body⟩, after) := by
  simp only [headOf, leadingNone plain, bind, Except.bind, bodied.reads]
  rfl

variable {item : MappedText}

theorem expandBare {rest : MappedText}
    {inside : (inner : MappedText) → inner.length < item.length → Outcome MappedText} {d : Dress}
    (present : item ≠ []) (dress : dressFrom item { count := n } rest = .ok d)
    (read : headOf item = .ok (⟨n, none⟩, rest)) : expandItem item inside = unfoldBare item d := by
  unfold expandItem
  rw [if_neg (by simpa using present)]
  split <;> rename_i found <;> cases read.symm.trans found
  rw [dress]
  rfl

inductive Unfolded (item : MappedText) (d : Dress) : Option Body → MappedText → Prop where
  | bare {out : MappedText} (ok : unfoldBare item d = .ok out) : Unfolded item d none out
  | literal {text out : MappedText} (ok : unfoldLiteral item text d = .ok out) :
      Unfolded item d (some (.literal text)) out
  | group {opening closing : Glyph} {inner wide out : MappedText}
      (made : expandSequence inner = .ok wide)
      (ok : unfoldGroup item opening wide closing d = .ok out) :
      Unfolded item d (some (.group opening inner closing)) out

theorem expandCases (present : item ≠ []) (ok : expandText item = .ok out) :
    ∃ count behind body rest d, leadingCount item = .ok (count, behind) ∧ Bodied behind body rest ∧
      headOf item = .ok (⟨count, body⟩, rest) ∧ dressFrom item { count } rest = .ok d ∧
        Unfolded item d body out := by
  unfold expandText expandItem at ok
  rw [if_neg (by simpa using present)] at ok
  split at ok
  · cases ok
  rename_i head rest read
  obtain ⟨d, dressed, unfolded⟩ := bindOk ok
  have parts := read
  unfold headOf at parts
  obtain ⟨⟨count, behind⟩, counted, parts⟩ := bindOk parts
  obtain ⟨⟨body, after⟩, found, parts⟩ := bindOk parts
  cases parts
  refine ⟨count, behind, body, rest, d, counted, bodiedOf found, read, dressed, ?_⟩
  split at unfolded
  · rename_i bare
    cases bare
    exact .bare unfolded
  · rename_i literal
    cases literal
    exact .literal unfolded
  · rename_i group
    cases group
    obtain ⟨wide, made, wrapped⟩ := bindOk unfolded
    exact .group made wrapped

theorem sequenceSame (each : ∀ item ∈ items t, expandText item.text = .ok item.text) :
    expandSequence t = .ok t := by
  have parts : ∀ {rope : List Item}, (∀ item ∈ rope, expandText item.text = .ok item.text) →
      rope.mapM expandPart = .ok (rope.map Item.whole) := by
    intro rope same
    induction rope with
    | nil => rfl
    | cons item rope ih =>
      rw [List.mapM_cons, partExpands (same item List.mem_cons_self),
        ih fun other among => same other (List.mem_cons_of_mem _ among)]
      rfl
  rw [expandItems, parts each]
  exact congrArg _ (itemsWhole t)

theorem spanNone : markerSpan? t = none ↔
    ∀ item ∈ items t, isMarker item.text = false := by
  simp [markerSpan?]

theorem Hung.present (hung : Hung t labelled true) : t ≠ [] := by
  rintro rfl
  have none := hung []
  rw [dressFrom] at none
  cases none

theorem groupUnnumbered (opens : isOpening opening.char = true) (rest : MappedText) :
    numbered (opening :: rest) = false := by
  obtain ⟨b, bracket⟩ := openingCases opens
  show opening.char.isDigit = false
  rw [bracket]
  cases b <;> rfl

theorem headGroup (opens : isOpening opening.char = true) (closes : isClosing closing.char = true)
    (tidy : Tidy (chars content)) (hung : MappedText) :
    headOf (opening :: content ++ closing :: hung) =
      .ok (⟨none, some (.group opening content closing)⟩, hung) :=
  headPlain (groupUnnumbered opens _) (.group opens (groupEndAgain tidy closes hung))

theorem flatExpands (flat : Flat False t) : expandText t = .ok t := by
  induction flat with
  | empty => rfl
  | @bare hung labelled reads =>
    have read := headPlain (hangingUnnumbered reads.hangs) reads.bodied
    rw [expandText, expandBare reads.present (reads hung) read]
    rfl
  | @literal text hung labelled attached present plain bodied reads single =>
    have some : text ++ hung ≠ [] := by simp [present]
    rw [expandText, expandLiteral some (reads _) (headPlain plain bodied), unfoldLiteral, if_neg]
    · rfl
    · simpa using single
  | @group opening closing content hung labelled attached opens closes tidy _ unmarked reads ih =>
    have same : expandSequence content = .ok content := sequenceSame ih
    have read := headGroup opens closes tidy hung
    rw [expandText, expandGroup (by simp) (reads _) read fun _ => same]
    simp only [unfoldGroup, spanNone.mpr unmarked]
  | counted impossible => exact impossible.elim
  | label impossible => exact impossible.elim

def FlatItem (odd : Prop) (t : MappedText) : Prop := Single (chars t) ∧ Flat odd t

section
variable {odd : Prop} {d : Dress}

theorem flatBare (dressed : dressFrom item { count := none } t = .ok d)
    (attached : d.attached = true) (single : Single (chars t)) : FlatItem odd d.suffix := by
  obtain ⟨hung, left⟩ := dressAgain dressed
  have reads := left.hung ⟨rfl, rfl⟩
  rw [attached] at reads
  rw [show d.suffix = hung from left.suffix]
  exact ⟨(left.runs true clear).trans single, .bare reads⟩

theorem literalParts (bodied : Bodied t (some (.literal text)) after) :
    t = text ++ after := (bodyParts (bodied.reads [])).1

theorem literalCut (bodied : Bodied t (some (.literal text)) after) (digit : numbered t = true) :
    after = (untilStop 0 t).2 := by
  cases bodied with
  | @block g m inner after starts ends clean =>
    have zero : ('$' : Char).isDigit = true := starts ▸ digit
    cases zero
  | word _ _ _ => rfl

theorem emptyWord (bodied : Bodied t (some (.literal text)) after) (empty : text = [])
    (hangs : Hanging after) :
    ∃ star rest, t = star :: rest ∧ after = star :: rest ∧ star.char = '*' := by
  have parts := literalParts bodied
  rw [empty, List.nil_append] at parts
  cases bodied with
  | block starts ends clean => cases empty
  | @word g rest opening other positive =>
    rw [← parts] at hangs ⊢
    have stop := hangs g rfl
    have star : g.char = '*' := by simpa [isStop, other] using stop
    exact ⟨g, rest, rfl, rfl, star⟩

theorem starredItem (counted : leadingCount item = .ok (n, behind))
    (bodied : Bodied behind (some (.literal [])) after)
    (dressed : dressFrom item { count := n } after = .ok d) :
    ∃ star rest count, item = star :: rest ∧ star.char = '*' ∧ numbered rest = true ∧
      dressFrom item { count := some count } (rest.dropWhile isDigitGlyph) = .ok d := by
  obtain ⟨star, rest, rfl, rfl, char⟩ := emptyWord bodied rfl (dressHanging dressed)
  rw [dressFrom, if_neg (by simp [char]), if_neg (by simp [char]), if_pos char] at dressed
  simp only [faultAt] at dressed
  split at dressed
  · cases dressed
  rename_i first
  split at dressed
  · cases dressed
  rename_i digits
  obtain ⟨count, _, dressed⟩ := bindOk dressed
  have uncounted : n = none := by simpa using first
  subst uncounted
  have whole := leadingUncounted counted
  subst whole
  refine ⟨star, rest, count, rfl, char, ?_, dressed⟩
  cases rest with
  | nil => simp at digits
  | cons g more =>
    cases digit : isDigitGlyph g with
    | true => exact digit
    | false => simp [List.takeWhile_cons_of_neg, digit] at digits

theorem flatStarred (counted : leadingCount item = .ok (n, behind))
    (bodied : Bodied behind (some (.literal [])) after)
    (dressed : dressFrom item { count := n } after = .ok d) (lone : starLabel item = true → odd) :
    Flat odd d.suffix := by
  obtain ⟨star, rest, count, rfl, char, digit, dressed⟩ := starredItem counted bodied dressed
  obtain ⟨hung, left⟩ := dressAgain dressed
  have same : d.suffix = hung := left.suffix
  have reads := left.hung ⟨rfl, rfl⟩
  rw [same]
  cases attached : d.attached with
  | true =>
    rw [attached] at reads
    exact .bare reads
  | false =>
    rcases dressAlone (reads []) attached rfl with rfl | label
    · exact .empty
    · rcases dressAlone dressed attached ((dressGrows dressed).2 count rfl) with none | alone
      · rw [left.none none]
        exact .empty
      · exact .label (lone (by simp [starLabel, starAt, char, digit, alone])) label

theorem flatLiteral (single : Single (chars item)) (counted : leadingCount item = .ok (n, behind))
    (bodied : Bodied behind (some (.literal text)) after)
    (dressed : dressFrom item { count := n } after = .ok d)
    (marker : isMarker text = true → d.suffix = []) (twice : countTwice item = true → odd)
    (lone : starLabel item = true → odd) :
    FlatItem odd (text ++ d.suffix) := by
  obtain ⟨hung, left⟩ := dressAgain dressed
  have same : d.suffix = hung := left.suffix
  have reads := left.hung ⟨rfl, rfl⟩
  refine ⟨?_, ?_⟩
  · rw [same, Single, left.runsBehind, ← literalParts bodied]
    exact (leadingRuns counted true clear).trans single
  · by_cases present : text = []
    · subst present
      exact flatStarred counted bodied dressed lone
    · rw [same] at marker ⊢
      have again := bodied.again present left.hangs left.none
      cases digit : numbered (text ++ hung) with
      | false => exact .literal present digit again reads marker
      | true =>
        -- a digit is left in front only where a star was taken off
        have first : numbered behind = true := by
          rw [literalParts bodied]
          cases text with
          | nil => exact absurd rfl present
          | cons g more => exact digit
        refine .counted (twice (leadingTwice counted first)) digit ?_
        cases star : starAt ((text ++ hung).dropWhile isDigitGlyph) with
        | false => rfl
        | true =>
          have late := starRun star
          rw [← literalCut again digit, reads.unstarred] at late
          cases late

theorem groupParts {inner : MappedText}
    (bodied : Bodied t (some (.group opening inner closing)) after) (single : Single (chars t)) :
    isOpening opening.char = true ∧ isClosing closing.char = true ∧ Tidy (chars inner) ∧
      Single (chars after) := by
  cases bodied with
  | @group g closing rest inner after opens found =>
    obtain ⟨m, taken, more⟩ := runCons.mp single
    cases (stepIff.mpr taken).symm.trans (stepIff.mpr (.opening opens))
    obtain ⟨tidy, behind⟩ := groupEndTidy (o := clear) found more
    exact ⟨opens, groupEndClosing found, tidy, behind⟩

theorem wrapSingle (opens : isOpening opening.char = true) (closes : isClosing closing.char = true)
    (tidy : Tidy (chars content)) (behind : Single (chars hung)) :
    Single (chars (opening :: content ++ closing :: hung)) := by
  have inside : run true ⟨1, none⟩ (chars content) = some ⟨1, none⟩ :=
    runDeeper (d := 1) (fun _ => Nat.one_pos) tidy
  have whole : chars (opening :: content ++ closing :: hung) =
      opening.char :: (chars content ++ closing.char :: chars hung) := by simp [chars]
  rw [Single, whole]
  refine runCons.mpr ⟨_, .opening opens, runParts.mpr ⟨_, inside, ?_⟩⟩
  exact runCons.mpr ⟨_, .closing closes, behind⟩

theorem flatGroup {attached : Bool} {rope : List Item} (opens : isOpening opening.char = true)
    (closes : isClosing closing.char = true)
    (chained : Chained (fun t => FlatItem odd t ∧ isMarker t = false) rope)
    (behind : Single (chars hung)) (reads : Hung hung labelled attached) :
    FlatItem odd (opening :: ropeText rope ++ closing :: hung) := by
  have singles : Chained (Single ∘ chars) rope := chained.mono fun _ flat => flat.1.1
  have tidy := chainedTidy singles
  have same := chainedItems singles
  refine ⟨wrapSingle opens closes tidy behind, .group opens closes tidy ?_ ?_ reads⟩
  · rw [same]
    exact fun item among => (chained.each item among).1.2
  · rw [same]
    exact fun item among => (chained.each item among).2

end

theorem trimLink {g : Glyph} (t more : MappedText) (line : g.char ≠ ',') :
    trimCommas (t ++ g :: more) = t ++ g :: trimCommas more := by
  have behind : trimCommas (g :: more) = g :: trimCommas more := by
    have parts := trimAppend [g] more
    have alone : trimCommas [g] = [g] := by simp [trimCommas, line]
    rw [alone] at parts
    split at parts
    · rename_i none
      rw [none]
      exact parts
    · exact parts
  rw [trimAppend, behind, if_neg (by simp)]

theorem passageChained {P : MappedText → Prop} (nil : P []) (trims : ∀ t, P t → trimCommas t = t)
    {parts : List Item} (laid : Laid (fun _ => True) parts) (each : ∀ item ∈ parts, P item.text) :
    ∃ rope, trimCommas (parts.flatMap Item.copied) = ropeText rope ∧
      Chained (fun t => P t ∧ isMarker t = false) rope := by
  induction laid with
  | nil => exact ⟨[⟨[], none⟩], rfl, .last ⟨nil, rfl⟩⟩
  | @last text _ =>
    cases marked : isMarker text with
    | true =>
      exact ⟨[⟨[], none⟩], by simp [Item.copied, marked, ropeText, trimCommas], .last ⟨nil, rfl⟩⟩
    | false =>
      have own := each _ List.mem_cons_self
      exact ⟨[⟨text, none⟩], by simp [Item.copied, marked, ropeText, trims text own],
        .last ⟨own, marked⟩⟩
  | @next text g rest _ separates _ _ ih =>
    have own : P text := each _ List.mem_cons_self
    obtain ⟨rope, same, chained⟩ := ih fun item among => each item (List.mem_cons_of_mem _ among)
    have linked {front : MappedText} (holds : P front ∧ isMarker front = false)
        (whole : trimCommas (front ++ g :: rest.flatMap Item.copied) = front ++ g :: ropeText rope) :
        ∃ rope, trimCommas (front ++ g :: rest.flatMap Item.copied) = ropeText rope ∧
          Chained (fun t => P t ∧ isMarker t = false) rope :=
      ⟨⟨front, some g⟩ :: rope, by rw [whole]; simp [ropeText], .link separates holds chained⟩
    rw [List.flatMap_cons]
    rcases separatorCases separates with ⟨comma, _⟩ | ⟨line, _⟩
    · cases marked : isMarker text with
      | true =>
        have copied : (Item.mk text (some g)).copied = [] := by simp [Item.copied, marked, comma]
        rw [copied]
        exact ⟨rope, same, chained⟩
      | false =>
        have alone : trimCommas [g] = [] := by simp [trimCommas, comma]
        have behind := trimAppend [g] (rest.flatMap Item.copied)
        rw [copiedPlain marked, Option.toList_some, List.append_assoc, List.singleton_append]
        rw [alone, List.singleton_append, List.singleton_append, same] at behind
        -- the comma stays only if something is left of the items behind it
        split at behind
        · refine ⟨[⟨text, none⟩], ?_, .last ⟨own, marked⟩⟩
          rw [trimAppend, if_pos behind, trims text own]
          simp [ropeText]
        · refine linked ⟨own, marked⟩ ?_
          rw [trimAppend, behind, if_neg (by simp)]
    · have newline : g.char ≠ ',' := by simp [line]
      cases marked : isMarker text with
      | true =>
        have copied : (Item.mk text (some g)).copied = [g] := by simp [Item.copied, marked, line]
        rw [copied]
        have empty : P [] ∧ isMarker [] = false := ⟨nil, rfl⟩
        exact linked empty (by rw [trimLink _ _ newline, same])
      | false =>
        rw [copiedPlain marked, Option.toList_some, List.append_assoc, List.singleton_append]
        exact linked ⟨own, marked⟩ (by rw [trimLink _ _ newline, same])

theorem flatEmpty {odd : Prop} : FlatItem odd [] := ⟨rfl, .empty⟩

section
variable {odd : Prop} {rope : List Item}
  (chained : Chained (FlatItem odd) rope)
include chained

theorem passageFlat (start stop : Nat) :
    ∃ part, passage (items (ropeText rope)) start stop = ropeText part ∧
      Chained (fun t => FlatItem odd t ∧ isMarker t = false) part := by
  have singles : Chained (Single ∘ chars) rope := chained.mono fun _ flat => flat.1
  have laid := (itemsFromLaid 0 false (ropeText rope)).1
  refine passageChained flatEmpty (fun t flat => singleTrim flat.1) ((laid.take stop).drop start) ?_
  intro item among
  have member := List.mem_of_mem_take (List.mem_of_mem_drop among)
  exact chained.each item (chainedItems singles ▸ member)

theorem unfoldFlat {d : Dress} (opens : isOpening opening.char = true)
    (closes : isClosing closing.char = true) (behind : Single (chars after))
    (dressed : dressFrom item { count := n } after = .ok d)
    (ok : unfoldGroup item opening (ropeText rope) closing d = .ok out) :
    ∃ texts, out = joined (startOrigin item) texts ∧ ∀ t ∈ texts, FlatItem odd t := by
  obtain ⟨hung, left⟩ := dressAgain dressed
  have same : d.suffix = hung := left.suffix
  have reads := left.hung ⟨rfl, rfl⟩
  have single : Single (chars hung) := (left.runs true clear).trans behind
  simp only [unfoldGroup, faultAt, same] at ok
  split at ok
  · split at ok
    · cases ok
    · rename_i none
      cases ok
      have singles : Chained (Single ∘ chars) rope := chained.mono fun _ flat => flat.1
      have unmarked := spanNone.mp none
      rw [chainedItems singles] at unmarked
      refine ⟨[_], rfl, ?_⟩
      intro t among
      rw [List.mem_singleton.mp among]
      exact flatGroup opens closes
        (chained.of fun item inside => ⟨chained.each item inside, unmarked item inside⟩) single reads
  · obtain ⟨texts, made, ok⟩ := bindOk ok
    cases ok
    refine ⟨_, rfl, ?_⟩
    intro t among
    obtain ⟨content, member, rfl⟩ := List.mem_map.mp among
    obtain ⟨start, stop, rfl⟩ := copiesPassage made content member
    obtain ⟨part, whole, own⟩ := passageFlat chained start stop
    rw [whole]
    exact flatGroup opens closes own single reads

end

/- The items of a text and, in its groups, the items of these. -/
inductive ItemOf : MappedText → MappedText → Prop where
  | here {t : MappedText} {item : Item} (among : item ∈ items t) : ItemOf t item.text
  | deeper {t rest inner x : MappedText} {item : Item} {head : Head} {opening closing : Glyph}
      (among : item ∈ items t) (read : headOf item.text = .ok (head, rest))
      (body : head.body = some (.group opening inner closing)) (inside : ItemOf inner x) : ItemOf t x

section
variable {odd : Prop}

theorem itemFlat (single : Single (chars item)) (twice : countTwice item = true → odd)
    (lone : starLabel item = true → odd)
    (within : ∀ {head rest opening inner closing}, headOf item = .ok (head, rest) →
      head.body = some (.group opening inner closing) → Tidy (chars inner) →
        ∀ wide, expandSequence inner = .ok wide →
          ∃ rope, wide = ropeText rope ∧ Chained (FlatItem odd) rope)
    (ok : expandText item = .ok out) :
    ∃ texts, out = joined (startOrigin item) texts ∧ ∀ t ∈ texts, FlatItem odd t := by
  by_cases present : item = []
  · subst present
    cases ok
    exact ⟨[], rfl, by simp⟩
  obtain ⟨count, behind, body, rest, d, counted, bodied, read, dressed, unfolded⟩ :=
    expandCases present ok
  have shown : Single (chars behind) := (leadingRuns counted true clear).trans single
  cases unfolded with
  | bare made =>
    have whole : behind = rest := by simpa using (bodyParts (bodied.reads item)).1
    subst whole
    unfold unfoldBare at made
    simp only [faultAt] at made
    split at made
    · cases made
    rename_i uncounted
    split at made
    · rename_i attached
      cases made
      cases count with
      | some n => simp [(dressGrows dressed).2 n rfl] at uncounted
      | none =>
        refine ⟨[d.suffix], rfl, ?_⟩
        intro t among
        rw [List.mem_singleton.mp among]
        exact flatBare dressed attached shown
    · cases made
  | @literal text _ made =>
    unfold unfoldLiteral at made
    simp only [faultAt] at made
    split at made
    · cases made
    rename_i undressed
    cases made
    have marker : isMarker text = true → d.suffix = [] := by
      intro marked
      simp only [marked, Bool.true_and, Bool.or_eq_true, not_or] at undressed
      simpa using undressed.2
    refine ⟨_, rfl, ?_⟩
    intro t among
    rw [List.eq_of_mem_replicate among]
    exact flatLiteral single counted bodied dressed marker twice lone
  | group made wrapped =>
    obtain ⟨opens, closes, tidy, outer⟩ := groupParts bodied shown
    obtain ⟨rope, rfl, chained⟩ := within read rfl tidy _ made
    exact unfoldFlat chained opens closes outer dressed wrapped

theorem strungChained (origin : Nat) {texts : List MappedText} {separator : Option Glyph}
    {rope : List Item} (each : ∀ t ∈ texts, FlatItem odd t)
    (ends : ∀ t, FlatItem odd t → Chained (FlatItem odd) (⟨t, separator⟩ :: rope)) :
    Chained (FlatItem odd) (strung origin separator texts ++ rope) := by
  induction texts with
  | nil => exact ends [] flatEmpty
  | cons text more ih =>
    have own := each text List.mem_cons_self
    cases more with
    | nil => exact ends text own
    | cons next others =>
      exact .link rfl own (ih fun t among => each t (List.mem_cons_of_mem _ among))

theorem sequenceFlat (tidy : Tidy (chars t)) (ok : expandSequence t = .ok out)
    (allowed : ∀ x, ItemOf t x → countTwice x = true ∨ starLabel x = true → odd) :
    ∃ rope, out = ropeText rope ∧ Chained (FlatItem odd) rope := by
  induction size : t.length using Nat.strongRecOn generalizing t out with
  | ind n ih =>
    have chained := itemsChained tidy
    have each : ∀ item ∈ items t, ∀ new, expandText item.text = .ok new →
        ∃ texts, new = joined (startOrigin item.text) texts ∧ ∀ t ∈ texts, FlatItem odd t := by
      intro item among new wrote
      refine itemFlat (chained.each item among) (fun twice => allowed _ (.here among) (.inl twice))
        (fun lone => allowed _ (.here among) (.inr lone)) ?_ wrote
      intro head rest opening inner closing read body inside wide made
      have smaller : inner.length < n :=
        Nat.lt_of_lt_of_le (headInner read body) (size ▸ itemsLength among)
      exact ih inner.length smaller inside made
        (fun x within => allowed x (.deeper among read body within)) rfl
    rw [expandItems] at ok
    obtain ⟨texts, made, rfl⟩ := mapOk ok
    clear ok
    generalize items t = parts at chained each made
    induction chained generalizing texts with
    | @last text single =>
      obtain ⟨one, none, written, more, rfl⟩ := mapMConsOk made
      cases pureOk more
      obtain ⟨new, wrote, same⟩ := bindOk written
      cases same
      obtain ⟨copies, rfl, flat⟩ := each _ List.mem_cons_self new wrote
      refine ⟨_, ?_, strungChained (startOrigin text) flat fun _ own => .last own⟩
      rw [List.append_nil, strungText]
      simp
    | @link text g rope separates single _ later =>
      obtain ⟨one, others, written, more, rfl⟩ := mapMConsOk made
      obtain ⟨new, wrote, same⟩ := bindOk written
      cases same
      obtain ⟨copies, rfl, flat⟩ := each _ List.mem_cons_self new wrote
      obtain ⟨rest, same, chain⟩ :=
        later others (fun item among => each item (List.mem_cons_of_mem _ among)) more
      refine ⟨_, ?_, strungChained (startOrigin text) flat fun _ own => .link separates own chain⟩
      rw [ropeTextAppend, strungText, List.flatten_cons, same]

theorem sequenceItems (tidy : Tidy (chars t)) (ok : expandSequence t = .ok out)
    (allowed : ∀ x, ItemOf t x → countTwice x = true ∨ starLabel x = true → odd) :
    Tidy (chars out) ∧ ∀ item ∈ items out, Flat odd item.text := by
  obtain ⟨rope, rfl, chained⟩ := sequenceFlat tidy ok allowed
  have singles : Chained (Single ∘ chars) rope := chained.mono fun _ flat => flat.1
  refine ⟨chainedTidy singles, ?_⟩
  rw [chainedItems singles]
  exact fun item among => (chained.each item among).2

end

end Crochet.Repeat
