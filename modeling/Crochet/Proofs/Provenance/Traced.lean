import Crochet.Proofs.Index.InTurn
import Crochet.Proofs.Provenance.Within

/-! Where repeats and indices go wrong. A fault of either stands at the place of some of the text it was
met in, so it covers origins of that text. Only the value of an assignment is read as a text of its
own, and a fault in it has its place there. -/
namespace Crochet
open MappedText Text

def Span.Covers (Q : Nat → Prop) (s : Span) : Prop :=
  ∃ (os : List Nat) (range : Span), (∀ o ∈ os, Q o) ∧ s = spanIn os range

def Fault.At (good : Span → Prop) (fault : Fault) : Prop :=
  ∀ span, fault.span = some span → good span

abbrev Traced (Q : Nat → Prop) (m : Outcome α) : Prop := Faults (Fault.At (Span.Covers Q)) m

theorem faultsAt {good : Span → Prop} {cause : Cause} {span : Span} (own : good span) :
    Faults (Fault.At good) (faultAt cause span : Outcome α) := by
  refine Faults.error fun other same => ?_
  cases same
  exact own

variable {offset : Nat} {cs : List Char}

theorem copiedSplit {a b : MappedText} (whole : copied offset cs = a ++ b) :
    ∃ x y, cs = x ++ y ∧ a = copied offset x ∧
      b = copied (offset + byteLength x) y := by
  induction a generalizing offset cs with
  | nil => exact ⟨[], cs, rfl, rfl, whole.symm⟩
  | cons g a ih =>
    cases cs with
    | nil => cases whole
    | cons c cs =>
      obtain ⟨first, rest⟩ := List.cons.inj whole
      obtain ⟨x, y, rfl, front, behind⟩ := ih rest
      refine ⟨c :: x, y, rfl, by rw [copied, ← first, front], ?_⟩
      rw [behind, Nat.add_assoc]
      rfl

theorem copiedOrigins (offset : Nat) (cs : List Char) :
    origins (copied offset cs) = List.range' offset (byteLength cs) := by
  induction cs generalizing offset with
  | nil => rfl
  | cons c cs ih =>
    have own : (⟨c, ⟨offset, offset + c.utf8Size⟩⟩ : Glyph).origins =
        List.range' offset c.utf8Size := by
      rw [List.range'_eq_map_range]
      refine List.map_congr_left fun k inside => ?_
      have short : k < c.utf8Size := List.mem_range.mp inside
      simp only [Glyph.originAt]
      omega
    have more := ih (offset + c.utf8Size)
    rw [origins] at more ⊢
    rw [copied, List.flatMap_cons, own, more, List.range'_append_1]
    rfl

theorem copiedWidth (offset : Nat) (cs : List Char) : width (copied offset cs) = byteLength cs := by
  induction cs generalizing offset with
  | nil => rfl
  | cons c cs ih => exact congrArg (c.utf8Size + ·) (ih _)

theorem copiedCover (some : cs ≠ []) :
    cover (copied offset cs) = ⟨offset, offset + byteLength cs⟩ := by
  obtain ⟨c, rest, rfl⟩ := List.exists_cons_of_ne_nil some
  have size : 0 < byteLength (c :: rest) :=
    Nat.lt_of_lt_of_le c.utf8Size_pos (Nat.le_add_right _ _)
  rw [cover, sourceSpan, copiedWidth, copiedOrigins, spanIn]
  generalize byteLength (c :: rest) = n at size
  have all : ((List.range' offset n).drop 0).take (n - 0) = List.range' offset n := by
    simp
  have least : (List.range' offset n).min? = Option.some offset := by
    refine List.min?_eq_some_iff.mpr ⟨by simp [size], fun k inside => ?_⟩
    exact (List.mem_range'_1.mp inside).1
  have greatest : (List.range' offset n).max? = Option.some (offset + n - 1) := by
    refine List.max?_eq_some_iff.mpr ⟨List.mem_range'_1.mpr (by omega), fun k inside => ?_⟩
    have below := (List.mem_range'_1.mp inside).2
    omega
  simp only [all, least, greatest]
  rw [Nat.sub_add_cancel (by omega)]

section
variable {Q : Nat → Prop}

theorem coverCovers {t : MappedText} (within : Within Q t) : (cover t).Covers Q :=
  ⟨origins t, _, withinOrigins within, rfl⟩

theorem originCovers {g : Glyph} (within : g.Within Q) : Span.Covers Q ⟨g.origin, g.origin + 1⟩ := by
  refine ⟨[g.origin], ⟨0, 1⟩, fun o member => ?_, rfl⟩
  rw [List.mem_singleton.mp member]
  exact originWithin within

end

namespace Repeat
variable {Q : Nat → Prop}

theorem countTraced {digits : MappedText} (within : Within Q digits) : Traced Q (countOf digits) := by
  unfold countOf
  split
  · exact Faults.ok _
  · exact faultsAt (coverCovers within)

variable {item t : MappedText} {span : Span} {d : Dress}

theorem leadingTraced (within : Within Q item) : Traced Q (leadingCount item) := by
  have digits := within.mono (List.takeWhile_sublist isDigitGlyph).subset
  simp only [leadingCount]
  split
  · exact Faults.ok _
  · refine (countTraced digits).bind fun count _ => ?_
    split
    · exact faultsAt (coverCovers within)
    · exact Faults.ok _

theorem bodyTraced (whole : Within Q item) (within : Within Q t) :
    Traced Q (bodyOf item t) := by
  cases t with
  | nil => exact Faults.ok _
  | cons g rest =>
    simp only [bodyOf]
    -- the first split is on what follows a minus sign
    split
    all_goals
      split
      · exact faultsAt (coverCovers whole)
      split
      · split
        · exact Faults.ok _
        · exact faultsAt (originCovers (within g List.mem_cons_self))
      split
      · split
        · exact Faults.ok _
        · exact faultsAt (coverCovers within)
      split
      · exact Faults.ok _
      · exact Faults.ok _

theorem headTraced (within : Within Q item) : Traced Q (headOf item) := by
  refine (leadingTraced within).bind fun first counted => ?_
  refine (bodyTraced within (leadingKept (withinStable Q) within counted)).bind fun second _ => ?_
  exact Faults.ok _

theorem dressTraced (d : Dress) (whole : Within Q item) (within : Within Q t) :
    Traced Q (dressFrom item d t) := by
  have behind : ∀ rest : MappedText, Within Q rest → Within Q (untilStop 0 rest).2 := by
    intro rest own
    rw [← untilStopParts 0 rest] at own
    exact (withinAppend.mp own).2
  fun_induction dressFrom item d t with
  | case1 => exact Faults.ok _
  | case2 | case4 | case6 | case7 => exact faultsAt (coverCovers whole)
  | case3 d g rest dot first ih => exact ih (behind rest (withinCons.mp within).2)
  | case5 d g rest dot address first ih => exact ih (behind rest (withinCons.mp within).2)
  | case8 d g rest dot address star first digits some ih =>
    obtain ⟨_, more⟩ := withinCons.mp within
    refine (countTraced (more.mono (List.takeWhile_sublist isDigitGlyph).subset)).bind fun count _ => ?_
    exact ih count (more.mono (List.dropWhile_sublist isDigitGlyph).subset)
  | case9 d g rest => exact faultsAt (originCovers (within g List.mem_cons_self))

theorem itemWithin (within : Within Q t) {item : Item} (member : item ∈ items t) :
    Within Q item.text := by
  rw [← (itemsFromLaid 0 false t).2] at within
  refine within.mono fun g inside => ?_
  exact List.mem_flatMap.mpr ⟨item, member, List.mem_append_left _ inside⟩

theorem markerCovers (within : Within Q t) (found : markerSpan? t = some span) : span.Covers Q := by
  obtain ⟨item, first, rfl⟩ := Option.map_eq_some_iff.mp found
  exact coverCovers (itemWithin within (List.mem_of_find?_eq_some first))

theorem markerTraced {marker : Marker} {parts : List Item} (own : span.Covers Q) :
    Traced Q (markerIndex marker span parts) := by
  unfold markerIndex
  split
  · exact Faults.ok _
  · exact Faults.ok _
  · exact faultsAt own

theorem literalTraced {text : MappedText} (within : Within Q item) :
    Traced Q (unfoldLiteral item text d) := by
  unfold unfoldLiteral
  split
  · exact faultsAt (coverCovers within)
  · exact Faults.ok _

theorem bareTraced (within : Within Q item) :
    Traced Q (unfoldBare item d) := by
  unfold unfoldBare
  split
  · exact faultsAt (coverCovers within)
  split
  · exact Faults.ok _
  · exact faultsAt (coverCovers within)

theorem groupTraced {inner : MappedText} {opening closing : Glyph} (within : Within Q item)
    (inside : Within Q inner) :
    Traced Q (unfoldGroup item opening inner closing d) := by
  have place := coverCovers within
  simp only [unfoldGroup]
  split
  · split
    · rename_i found
      exact faultsAt (markerCovers inside found)
    · exact Faults.ok _
  · refine Faults.bind ?_ fun texts _ => Faults.ok _
    refine (markerTraced place).bind fun exit _ => ?_
    exact (markerTraced place).bind fun entry _ => Faults.ok _

theorem itemTraced {inside : (inner : MappedText) → inner.length < item.length → Outcome MappedText}
    (faults : ∀ inner shorter, Within Q inner → Traced Q (inside inner shorter))
    (keeps : ∀ inner shorter out, inside inner shorter = .ok out → Within Q inner → Within Q out)
    (within : Within Q item) : Traced Q (expandItem item inside) := by
  unfold expandItem
  split
  · exact Faults.ok _
  split
  · rename_i fault failed
    exact Faults.error (headTraced within fault failed)
  rename_i head rest read
  have parts := read
  unfold headOf at parts
  obtain ⟨⟨count, behind⟩, counted, parts⟩ := bindOk parts
  obtain ⟨⟨body, after⟩, found, parts⟩ := bindOk parts
  cases parts
  have shown : Within Q behind := leadingKept (withinStable Q) within counted
  rw [(bodyParts found).1] at shown
  obtain ⟨own, hung⟩ := withinAppend.mp shown
  refine (dressTraced _ within hung).bind fun dress _ => ?_
  split
  · exact bareTraced within
  · exact literalTraced within
  · rename_i opening inner closing group
    cases group
    have nested : Within Q inner := own.mono fun g member => by simp [Body.text, member]
    refine (faults inner _ nested).bind fun out made => ?_
    exact groupTraced within (keeps inner _ out made nested)

theorem sequenceTraced (within : Within Q t) : Traced Q (expandSequence t) := by
  induction size : t.length using Nat.strongRecOn generalizing t with
  | ind n ih =>
    rw [expandItems]
    refine Faults.map (Faults.mapM fun item member => ?_)
    have short : item.text.length ≤ n := size ▸ itemsLength member
    refine Faults.bind ?_ fun text _ => Faults.ok _
    refine itemTraced ?_ ?_ (itemWithin within member)
    · intro inner shorter own
      exact ih inner.length (Nat.lt_of_lt_of_le shorter short) own rfl
    · intro inner _ out made own
      exact sequenceKept (withinStable Q) own made

theorem expandTraced (within : Within Q t) : Traced Q (expand t) := by
  refine (sequenceTraced within).bind fun out made => ?_
  split
  · rename_i found
    exact faultsAt (markerCovers (sequenceKept (withinStable Q) within made) found)
  · exact Faults.ok _

end Repeat

namespace Index
variable {Q : Nat → Prop}
variable {vars : Variables} {name : String} {step : Option Step} {a b t written : MappedText}
  {fault : Fault} {before : Option Char} {registry : Registry}

def stepped (up : Bool) (value : Int) : Int := if up then value + 1 else value - 1

theorem useFaults {span : Span} :
    Faults (fun fault => fault.span = some span ∧ ((vars.get? name).isSome = true →
      ∃ (move : Step) (value : Int), step = some move ∧ ¬ (Decimal.leastWord ≤ stepped move.up value ∧
        stepped move.up value ≤ Decimal.greatestWord) ∧
        fault.cause = .index (.overflow name value))) (vars.use name step span) := by
  unfold Variables.use
  split
  · rename_i unset
    refine Faults.error ⟨rfl, fun known => ?_⟩
    rw [unset] at known
    cases known
  · exact Faults.ok _
  · rename_i value move _
    dsimp only
    change Faults _ (if Decimal.leastWord ≤ stepped move.up value ∧
      stepped move.up value ≤ Decimal.greatestWord then _ else _)
    split
    · exact Faults.ok _
    · rename_i past
      exact Faults.error ⟨rfl, fun _ => ⟨move, value, rfl, past, rfl⟩⟩

def On (t : MappedText) (fault : Fault) : Prop :=
  ∃ part, part <:+: t ∧ part ≠ [] ∧ fault.span = some (cover part)

theorem On.inside (inside : a <:+: b) (own : On a fault) :
    On b fault := by
  obtain ⟨part, within, some, place⟩ := own
  exact ⟨part, within.trans inside, some, place⟩

theorem On.at (own : On t fault) (within : Within Q t) :
    fault.At (Span.Covers Q) := by
  obtain ⟨part, inside, _, place⟩ := own
  intro span same
  cases place.symm.trans same
  exact coverCovers (within.mono inside.subset)

theorem faultsOn {cause : Cause} (some : t ≠ []) :
    Faults (On t) (faultAt cause (cover t) : Outcome α) :=
  Faults.error ⟨t, List.infix_refl t, some, rfl⟩

theorem useOn (some : t ≠ []) : Faults (On t) (vars.use name step (cover t)) :=
  useFaults.mono fun _ place => ⟨t, List.infix_refl t, some, place.1⟩

theorem substituteOn :
    Faults (On t) (substitute vars before t) := by
  fun_induction substitute vars before t with
  | case1 => exact Faults.ok _
  | case2 vars before g rest use found old ih =>
    have parts : old ++ rest.drop use.more = g :: rest := by
      rw [List.cons_append, List.take_append_drop]
    have here : old <:+: g :: rest := ⟨[], rest.drop use.more, parts⟩
    have later : rest.drop use.more <:+: g :: rest := ⟨old, [], by rw [List.append_nil, parts]⟩
    refine ((useOn (List.cons_ne_nil _ _)).mono fun _ => On.inside here).bind fun used _ => ?_
    exact ((ih used.2).mono fun _ => On.inside later).bind fun _ _ => Faults.ok _
  | case3 vars before g rest none word kept ih =>
    have later : rest.drop word.length <:+: g :: rest :=
      ((List.drop_suffix _ rest).trans (List.suffix_cons g rest)).isInfix
    exact (ih.mono fun _ => On.inside later).bind fun _ _ => Faults.ok _

def signs (up : Bool) : List Char := if up then ['+', '+'] else ['-', '-']

/- `used` steps a variable: its whole name, with a doubled sign in front of it or behind it. A name behind
a point or an at sign is that of a label. -/
structure StepsAt (name : String) (up : Bool) (before used after : List Char) : Prop where
  some : name.toList ≠ []
  word : ∀ c ∈ name.toList, isNameChar c = true
  spelt : (used = signs up ++ name.toList ∧ ∀ c ∈ after.head?, isNameChar c = false) ∨
    used = name.toList ++ signs up ∧
      ∀ c ∈ before.getLast?, isNameChar c = false ∧ c ≠ '.' ∧ c ≠ '@'

/- A step in the text `cs` takes a variable out of the signed words; the fault names the variable and the
value it has, and its place is the range of the step. -/
def Overflows (cs : List Char) (fault : Fault) : Prop :=
  ∃ (before used after : List Char) (name : String) (up : Bool) (value : Int),
    cs = before ++ (used ++ after) ∧ StepsAt name up before used after ∧
    ¬ (Decimal.leastWord ≤ stepped up value ∧ stepped up value ≤ Decimal.greatestWord) ∧
    fault.cause = .index (.overflow name value) ∧
    fault.span = some ⟨byteLength before, byteLength before + byteLength used⟩

theorem doubledSpelt {up : Bool} (found : doubled? t = some up) :
    ∃ a b rest, t = a :: b :: rest ∧ [a.char, b.char] = signs up := by
  unfold doubled? at found
  split at found
  · split at found
    · cases found
    rename_i same
    have equal := Classical.not_not.mp same
    split at found
    · rename_i plus
      cases found
      exact ⟨_, _, _, rfl, by rw [← equal, plus]; rfl⟩
    split at found
    · rename_i minus
      cases found
      exact ⟨_, _, _, rfl, by rw [← equal, minus]; rfl⟩
    · cases found
  · cases found

theorem nameWord (known : vars.knows (t.takeWhile isNameGlyph) = true) :
    (nameOf (t.takeWhile isNameGlyph)).toList ≠ [] ∧
      ∀ c ∈ (nameOf (t.takeWhile isNameGlyph)).toList, isNameChar c = true := by
  have some : t.takeWhile isNameGlyph ≠ [] := by simpa using (Bool.and_eq_true_iff.mp known).1
  rw [nameOf, String.toList_ofList]
  refine ⟨by simpa [chars] using some, ?_⟩
  intro c member
  obtain ⟨g, inside, rfl⟩ := List.mem_map.mp member
  exact List.mem_takeWhile_imp (p := isNameGlyph) inside

theorem droppedWord (t : MappedText) :
    t.drop (t.takeWhile isNameGlyph).length = t.dropWhile isNameGlyph := by
  have parts := List.takeWhile_append_dropWhile (p := isNameGlyph) (l := t)
  generalize t.takeWhile isNameGlyph = word, t.dropWhile isNameGlyph = tail at parts ⊢
  rw [← parts, List.drop_left]

theorem useSteps {use : Use} {move : Step} (found : useAt? vars before t = some use)
    (steps : use.step = some move) :
    (use.name.toList ≠ [] ∧ ∀ c ∈ use.name.toList, isNameChar c = true) ∧
      ((chars (t.take (use.more + 1)) = signs move.up ++ use.name.toList ∧
        ∀ g ∈ (t.drop (use.more + 1)).head?, isNameGlyph g = false) ∨
      chars (t.take (use.more + 1)) = use.name.toList ++ signs move.up ∧
        (∃ g ∈ t.head?, isNameGlyph g = true) ∧ before ≠ some '.' ∧ before ≠ some '@') := by
  unfold useAt? at found
  split at found
  · rename_i up doubled
    obtain ⟨a, b, rest, rfl, spelt⟩ := doubledSpelt doubled
    simp only [List.drop_succ_cons, List.drop_zero] at found
    obtain ⟨known, same⟩ := Option.ite_none_right_eq_some.mp found
    cases same
    cases steps
    refine ⟨nameWord known, .inl ⟨?_, ?_⟩⟩
    · simp only [List.take_succ_cons, takeWord, ← spelt, nameOf, String.toList_ofList]
      rfl
    · simp only [List.drop_succ_cons, droppedWord]
      exact wordEnds rest
  · dsimp only at found
    split at found
    · cases found
    rename_i unguarded
    obtain ⟨known, found⟩ := Option.ite_none_right_eq_some.mp found
    split at found <;> cases found
    · rename_i up doubled
      cases steps
      obtain ⟨a, b, rest, behind, spelt⟩ := doubledSpelt doubled
      have parts := List.takeWhile_append_dropWhile (p := isNameGlyph) (l := t)
      refine ⟨nameWord known, .inr ⟨?_, ?_, ?_⟩⟩
      · rw [behind] at parts
        have taken : t.take ((t.takeWhile isNameGlyph).length + 2) =
            t.takeWhile isNameGlyph ++ [a, b] := by
          generalize t.takeWhile isNameGlyph = word at parts ⊢
          rw [← parts, List.take_length_add_append]
          rfl
        rw [taken, charsAppend, ← spelt, nameOf, String.toList_ofList]
        rfl
      · have some : t.takeWhile isNameGlyph ≠ [] := by
          simpa using (Bool.and_eq_true_iff.mp known).1
        cases t with
        | nil => exact absurd rfl some
        | cons g rest =>
          refine ⟨g, rfl, ?_⟩
          cases name : isNameGlyph g with
          | true => rfl
          | false => exact absurd (List.takeWhile_cons_of_neg (by simp [name])) some
      · simpa using unguarded
    · cases steps

theorem useEnds {use : Use} {rest : MappedText} (found : useAt? vars before (g :: rest) = some use) :
    ∀ a ∈ (g :: rest.take use.more).getLast?, isNameGlyph a = true →
      ∀ b ∈ (rest.drop use.more).head?, isNameGlyph b = false := by
  obtain ⟨lead, word, tail, behind, parts, whole, signs, _, size⟩ := useCovers found
  have split : g :: rest = (lead ++ (word ++ tail)) ++ behind := by simp [parts]
  have front : g :: rest.take use.more = lead ++ (word ++ tail) := by
    rw [← List.take_succ_cons, split, size, List.take_left]
  have after : rest.drop use.more = behind := by
    rw [← List.drop_succ_cons (a := g), split, size, List.drop_left]
  rw [front, after]
  intro a final name
  rcases List.eq_nil_or_concat tail with rfl | ⟨more, sign, rfl⟩
  · exact whole.after
  · rw [List.concat_eq_append] at signs final
    rw [← List.append_assoc word, ← List.append_assoc lead, List.getLast?_concat] at final
    cases final
    rw [signs a (by simp)] at name
    cases name

theorem keptEnds (g : Glyph) (rest : MappedText) :
    ∀ a ∈ (g :: wordBehind g rest).getLast?, isNameGlyph a = true →
      ∀ b ∈ (rest.drop (wordBehind g rest).length).head?, isNameGlyph b = false := by
  unfold wordBehind
  split
  · rw [droppedWord]
    exact fun _ _ _ => wordEnds rest
  · rename_i plain
    intro a final name
    cases final
    exact absurd name plain

theorem headCopied (offset : Nat) (cs : List Char) :
    (copied offset cs).head?.map Glyph.char = cs.head? := by
  rw [← List.head?_map]
  exact congrArg List.head? (copiedChars offset cs)

section
variable {done cs x y : List Char} {old rest : MappedText}

/- What a scan has passed is `done` and then `x`; no name goes on from there into what is left. -/
theorem scanned (whole : copied (byteLength done) cs = old ++ rest) (some : old ≠ [])
    (ends : ∀ a ∈ old.getLast?, isNameGlyph a = true →
      ∀ b ∈ rest.head?, isNameGlyph b = false) :
    ∃ x y, cs = x ++ y ∧ x ≠ [] ∧ old = copied (byteLength done) x ∧
      rest = copied (byteLength (done ++ x)) y ∧
      (done ++ x).getLast? = old.getLast?.map Glyph.char ∧
      ∀ c ∈ (done ++ x).getLast?, isNameChar c = true → ∀ d ∈ y.head?, isNameChar d = false := by
  obtain ⟨x, y, rfl, here, later⟩ := copiedSplit whole
  rw [← byteLengthAppend] at later
  have nonempty : x ≠ [] := by
    rintro rfl
    exact some here
  have final : (done ++ x).getLast? = old.getLast?.map Glyph.char := by
    rw [List.getLast?_append_of_ne_nil done nonempty, ← copiedChars (byteLength done) x, ← here,
      chars, List.getLast?_map]
  refine ⟨x, y, rfl, nonempty, here, later, final, ?_⟩
  intro c last name d first
  rw [final] at last
  rw [← headCopied (byteLength (done ++ x)), ← later] at first
  obtain ⟨a, behind, rfl⟩ := Option.map_eq_some_iff.mp last
  obtain ⟨b, ahead, rfl⟩ := Option.map_eq_some_iff.mp first
  exact ends a behind name b ahead

theorem useOverflows {use : Use} (nonempty : x ≠ [])
    (found : useAt? vars done.getLast? (copied (byteLength done) (x ++ y)) = some use)
    (taken : (copied (byteLength done) (x ++ y)).take (use.more + 1) = copied (byteLength done) x)
    (left : (copied (byteLength done) (x ++ y)).drop (use.more + 1) =
      copied (byteLength (done ++ x)) y)
    (apart : ∀ c ∈ done.getLast?, isNameChar c = true →
      ∀ d ∈ (x ++ y).head?, isNameChar d = false) :
    Faults (Overflows (done ++ (x ++ y)))
      (vars.use use.name use.step (cover (copied (byteLength done) x))) := by
  refine useFaults.mono fun fault kind => ?_
  obtain ⟨move, value, steps, past, cause⟩ := kind.2 (useKnown found)
  obtain ⟨⟨named, word⟩, spelt⟩ := useSteps found steps
  rw [taken, copiedChars, left] at spelt
  refine ⟨done, x, y, use.name, move.up, value, rfl, ⟨named, word, spelt.imp ?_ ?_⟩, past, cause, ?_⟩
  · rintro ⟨same, ends⟩
    refine ⟨same, fun c first => ?_⟩
    rw [← headCopied (byteLength (done ++ x))] at first
    obtain ⟨b, behind, rfl⟩ := Option.map_eq_some_iff.mp first
    exact ends b behind
  · rintro ⟨same, ⟨h, first, name⟩, point, sign⟩
    have starts : h.char ∈ (x ++ y).head? := by
      rw [← headCopied (byteLength done)]
      exact Option.map_eq_some_iff.mpr ⟨h, first, rfl⟩
    refine ⟨same, fun c final => ⟨?_, ?_, ?_⟩⟩
    · refine Bool.eq_false_iff.mpr fun other => ?_
      rw [isNameGlyph, apart c final other h.char starts] at name
      cases name
    · rintro rfl
      exact point final
    · rintro rfl
      exact sign final
  · rw [kind.1, copiedCover nonempty]

theorem valueOverflows (apart : ∀ c ∈ done.getLast?, isNameChar c = true →
      ∀ d ∈ cs.head?, isNameChar d = false) :
    Faults (Overflows (done ++ cs))
      (substitute vars done.getLast? (copied (byteLength done) cs)) := by
  generalize text : copied (byteLength done) cs = t, last : done.getLast? = before
  -- the induction is on the scan; `done` is what it has passed
  fun_induction substitute vars before t generalizing done cs with
  | case1 => exact Faults.ok _
  | case2 vars before g rest use found old =>
    rename_i ih
    have whole : copied (byteLength done) cs = old ++ rest.drop use.more := by
      rw [text, List.cons_append, List.take_append_drop]
    obtain ⟨x, y, rfl, some, here, later, final, next⟩ :=
      scanned whole (List.cons_ne_nil _ _) (useEnds found)
    refine Faults.bind ?_ fun used _ => ?_
    · rw [here]
      rw [← text, ← last] at found
      exact useOverflows some found (text ▸ here) (text ▸ later) (last ▸ apart)
    · have faults : Faults (Overflows ((done ++ x) ++ y)) _ := ih used.2 next later.symm final
      rw [List.append_assoc] at faults
      exact faults.bind fun _ _ => Faults.ok _
  | case3 vars before g rest none word =>
    rename_i kept ih
    have front : rest.take word.length = word := keptWord g rest
    have whole : copied (byteLength done) cs = kept ++ rest.drop word.length := by
      have parts := List.take_append_drop word.length rest
      rw [front] at parts
      rw [text, List.cons_append, parts]
    obtain ⟨x, y, rfl, _, _, later, final, next⟩ :=
      scanned whole (List.cons_ne_nil _ _) (keptEnds g rest)
    have faults : Faults (Overflows ((done ++ x) ++ y)) _ := ih next later.symm final
    rw [List.append_assoc] at faults
    exact faults.bind fun _ _ => Faults.ok _

end

/- A statement of a block. Dollars open and close blocks in turn, so an even number of them stands in
front of one that opens a block. -/
def InBlock (t written : MappedText) : Prop :=
  ∃ (front : MappedText) (opening : Glyph) (block : MappedText) (closing : Glyph) (back : MappedText),
    t = front ++ opening :: (block ++ closing :: back) ∧ isDollar opening = true ∧
    isDollar closing = true ∧ (∀ g ∈ block, isDollar g = false) ∧
    front.countP isDollar % 2 = 0 ∧ written ∈ pieces isStatementEnd block

theorem InBlock.part (inBlock : InBlock t written) : written <:+: t := by
  obtain ⟨front, opening, block, closing, back, rfl, _, _, _, _, member⟩ := inBlock
  refine ((piecesParts isStatementEnd block).2 written member).trans ?_
  exact ⟨front ++ [opening], closing :: back, by simp⟩

theorem InBlock.behind (done : MappedText) (even : done.countP isDollar % 2 = 0)
    (inBlock : InBlock t written) :
    InBlock (done ++ t) written := by
  obtain ⟨front, opening, block, closing, back, rfl, opens, closes, clean, before, member⟩ := inBlock
  refine ⟨done ++ front, opening, block, closing, back, by simp, opens, closes, clean, ?_, member⟩
  rw [List.countP_append]
  omega

structure Assignment (t : MappedText) where
  lead : MappedText
  name : List Char
  value : MappedText
  trail : MappedText
  inBlock : InBlock t (lead ++ (value ++ trail))
  cut : cutFirst (· == '=') (trim (chars (lead ++ (value ++ trail)))) = some (name, chars value)

/- A variable overflows in the value of an assignment, and the place of the fault counts from where the
value starts, whatever the source of the value. -/
def Adrift (t : MappedText) (fault : Fault) : Prop :=
  ∃ assignment : Assignment t, Overflows (chars assignment.value) fault

theorem trimSurrounded (cs : List Char) : ∃ a b, cs = a ++ (trim cs ++ b) := by
  have front : cs.takeWhile isBlank ++ Text.trimStart cs = cs := List.takeWhile_append_dropWhile
  have behind : trim cs ++ ((Text.trimStart cs).reverse.takeWhile isBlank).reverse =
      Text.trimStart cs := by
    rw [trim, Text.trimEnd, ← List.reverse_append, List.takeWhile_append_dropWhile, List.reverse_reverse]
  exact ⟨_, _, by rw [behind, front]⟩

theorem assignmentOf {name value : List Char} (inBlock : InBlock t written)
    (cut : cutFirst (· == '=') (trim (chars written)) = some (name, value)) :
    ∃ assignment : Assignment t, chars assignment.value = value := by
  obtain ⟨a, b, surrounded⟩ := trimSurrounded (chars written)
  obtain ⟨m, _, parts, _⟩ := cutFirstParts cut
  have split : chars written = (a ++ (name ++ [m])) ++ (value ++ b) := by
    rw [surrounded, parts]
    simp
  obtain ⟨lead, rest, rfl, _, later⟩ := List.map_eq_append_iff.mp split
  obtain ⟨own, trail, rfl, rfl, _⟩ := List.map_eq_append_iff.mp later
  exact ⟨⟨lead, name, own, trail, inBlock, cut⟩, rfl⟩

theorem Adrift.behind (done : MappedText) (even : done.countP isDollar % 2 = 0)
    (adrift : Adrift t fault) : Adrift (done ++ t) fault := by
  obtain ⟨assignment, overflows⟩ := adrift
  exact ⟨⟨_, assignment.name, _, _, assignment.inBlock.behind done even, assignment.cut⟩, overflows⟩

/- A fault in the value of an assignment is the one kind that is not at a place of the text. -/
abbrev Located (t : MappedText) (m : Outcome α) : Prop :=
  Faults (fun fault => On t fault ∨ Adrift t fault) m

theorem located {m : Outcome α} (inside : a <:+: b) (own : Faults (On a) m) :
    Located b m := own.mono fun _ place => .inl (place.inside inside)

theorem Located.behind {m : Outcome α} (done : MappedText) (even : done.countP isDollar % 2 = 0)
    (faults : Located t m) : Located (done ++ t) m := by
  exact faults.mono fun fault kind =>
    kind.imp (On.inside (List.suffix_append done t).isInfix) (Adrift.behind done even)

theorem statementFaults (inBlock : InBlock t written) :
    Located t (runStatement registry vars written) := by
  have own {m : Outcome Variables} (faults : Faults (On written) m) : Located t m :=
    located inBlock.part faults
  simp only [runStatement]
  split
  · exact Faults.ok _
  rename_i said
  have some : written ≠ [] := by
    rintro rfl
    exact said rfl
  split
  · rename_i name value cut
    simp only [assign]
    split
    · exact own (faultsOn some)
    split
    · exact own (faultsOn some)
    · refine Faults.bind ?_ fun replaced _ => ?_
      · obtain ⟨assignment, spelt⟩ := assignmentOf inBlock cut
        have faults : Faults (Overflows ([] ++ value)) (substitute vars none (copied 0 value)) :=
          valueOverflows (by simp)
        exact faults.mono fun _ overflows => .inr ⟨assignment, by rw [spelt]; exact overflows⟩
      · split
        · exact own (faultsOn some)
        · exact own (faultsOn some)
        · exact Faults.ok _
  split
  · exact own (faultsOn some)
  · exact own (useOn some).map

theorem commaSkipped (last : Option Char) (t : MappedText) :
    (t.take (if isDangling last && t.head?.map Glyph.char == some ',' then 1 else 0)).countP
      isDollar = 0 := by
  split
  · rename_i drops
    rw [Bool.and_eq_true] at drops
    cases t with
    | nil => rfl
    | cons g more =>
      have isComma : g.char = ',' := by simpa using drops.2
      simp [isDollar, isComma]
  · rfl

theorem evaluateLocated {last : Option Char} : Located t (evaluateFrom registry vars last t) := by
  fun_induction evaluateFrom registry vars last t with
  | case1 vars last t uncut => exact located (List.infix_refl t) substituteOn.map
  | case2 vars last t before rest cut ih =>
    obtain ⟨a, opens, rfl, plain⟩ := cutFirstParts cut
    have front : before <:+: before ++ a :: rest := (List.prefix_append before _).isInfix
    refine (located front substituteOn).bind fun replaced _ => ?_
    obtain ⟨out, next⟩ := replaced
    dsimp only
    split
    · rw [List.drop_left]
      exact located (List.suffix_append before _).isInfix (faultsOn (List.cons_ne_nil _ _))
    rename_i block later closed
    obtain ⟨b, closes, rfl, clean⟩ := cutFirstParts closed
    have none : before.countP isDollar = 0 := List.countP_eq_zero.mpr (by simpa using plain)
    refine Faults.bind ?_ fun vars _ => ?_
    · refine Faults.fold (fun _ => True) (fun piece member vars _ => ?_) (fun _ _ _ _ _ _ => trivial)
        trivial
      have inBlock : InBlock (before ++ a :: (block ++ b :: later)) piece :=
        ⟨before, a, block, b, later, rfl, opens, closes, clean, by rw [none], member⟩
      exact statementFaults inBlock
    · refine Faults.bind ?_ fun tail _ => Faults.ok _
      have skipped := commaSkipped ((out.getLast?.map Glyph.char).or last) later
      set comma := if isDangling ((out.getLast?.map Glyph.char).or last) &&
        later.head?.map Glyph.char == some ',' then 1 else 0
      have parts : before ++ a :: (block ++ b :: later) =
          (before ++ a :: (block ++ b :: later.take comma)) ++ later.drop comma := by simp
      have empty : block.countP isDollar = 0 := List.countP_eq_zero.mpr (by simpa using clean)
      rw [parts]
      refine (ih out block later closed vars).behind _ ?_
      simp [none, opens, closes, empty, skipped]

theorem indexFollowed (within : Within Q t) :
    Faults (fun fault => fault.At (Span.Covers Q) ∨ Adrift t fault) (evaluate registry t) :=
  (evaluateLocated.mono fun _ kind => kind.imp_left fun own => own.at within).map

end Index
end Crochet
