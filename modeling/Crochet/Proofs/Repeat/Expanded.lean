import Crochet.Proofs.Repeat.Copies

/-! What a tree of repeats is written out as. A chain becomes a rope whose parts are those of the
chain, a counted piece being split into its copies. -/
namespace Crochet.Repeat
open MappedText
open Text (nameParts)
open Row (NameWord readsStitch readsGroup suffixReads)

def expandText (t : MappedText) : Outcome MappedText :=
  expandItem t fun inner _ => expandSequence inner

def expandPart (item : Item) : Outcome MappedText := do
  let text ← expandText item.text
  return text ++ item.separator.toList

theorem expandItems (t : MappedText) :
    expandSequence t = ((items t).mapM expandPart).map List.flatten := by
  rw [expandSequence, List.mapM_subtype (fun item _ => rfl), List.unattach_attach]
  rfl

variable {g : Glyph} {a : Attire} {text suffix : MappedText}

section
variable {t out : MappedText} (solid : Solid (chars t)) (made : expandText t = .ok out)
include made

theorem partExpands (separator : Option Glyph) :
    expandPart ⟨t, separator⟩ = .ok (out ++ separator.toList) := by
  simp only [expandPart, made]
  rfl

include solid

theorem expandLast : expandSequence t = .ok out := by
  rw [expandItems, itemsLast solid, List.mapM_cons, partExpands made]
  simp [Except.map, bind, Except.bind, pure, Except.pure]

theorem expandLink {rest more : MappedText} (separates : isSeparator g.char = true)
    (onward : expandSequence rest = .ok more) :
    expandSequence (t ++ g :: rest) = .ok (out ++ g :: more) := by
  rw [expandItems] at onward ⊢
  obtain ⟨parts, each, rfl⟩ := mapOk onward
  rw [itemsLink solid separates, List.mapM_cons, partExpands made, each]
  simp [Except.map, bind, Except.bind, pure, Except.pure]

end

theorem starredSolid {digits : List Char} {count : Option Nat} (counts : Counts digits count) :
    Solid (starred digits) := by
  unfold starred
  split
  · exact .nil
  · exact .append (.char (c := '*') rfl rfl) (countsSolid counts)

theorem labelledSolid {label : Option String} (word : ∀ l ∈ label, NameWord l.toList) :
    Solid (labelled label) := by
  cases label with
  | none => exact .nil
  | some l =>
    obtain ⟨_, _, _, _, all⟩ := nameParts (word l rfl).1
    exact .append (.char (c := '.') rfl rfl) (solidChars all)

theorem backSolid (valid : a.valid fitsWord = true) : Solid a.back :=
  .append (starredSolid (a.counts valid .behind))
    (.append (labelledSolid fun _ found => a.labelWord valid found)
      (starredSolid (a.counts valid .last)))

theorem groupSolid (b : Bracket) {text suffix : List Char} (inner : Even text) (after : Solid suffix) :
    Solid (b.opening :: (text ++ b.closing :: suffix)) := by
  have whole : Solid (b.opening :: (text ++ [b.closing]) ++ suffix) := .append (.group b inner) after
  simpa using whole

mutual

theorem pieceSolid (piece : Piece) (valid : piece.valid fitsWord = true) : Solid piece.written := by
  cases piece with
  | blank => exact .nil
  | marker m => cases m <;> exact .char rfl rfl
  | stitch name a =>
    obtain ⟨word, dressed⟩ := Bool.and_eq_true_iff.mp valid
    obtain ⟨_, _, _, _, all⟩ := nameParts (nameWordIff.mp word).1
    exact .append (countsSolid (a.counts dressed .front)) (.append (solidChars all) (backSolid dressed))
  | group b body a =>
    simp only [Piece.valid, Bool.and_eq_true] at valid
    exact .append (countsSolid (a.counts valid.1.2 .front))
      (groupSolid b (chainEven body valid.1.1) (backSolid valid.1.2))

theorem chainEven (chain : Chain) (valid : chain.valid fitsWord = true) : Even chain.written := by
  cases chain with
  | last piece => exact balancedEven (pieceSolid piece valid)
  | link piece ends rest =>
    obtain ⟨here, more⟩ := Bool.and_eq_true_iff.mp valid
    have mark : Even [ends.char] := by cases ends <;> exact .char rfl rfl
    exact .append (balancedEven (pieceSolid piece here)) (.append mark (chainEven rest more))

end

theorem underStep (s : Row.Surround) (label : Option String) (event : Event) :
    (event.under label).step s = event.step (s.add (label.toList.map bareLabel) none) := by
  cases event <;> simp [Event.step, Event.under, Row.Surround.add]

section
variable {label : Option String} (word : ∀ l ∈ label, NameWord l.toList)
include word

theorem bareSound : ∀ l, label.map bareLabel = some l → l.Sound := by
  intro l found
  obtain ⟨key, member, rfl⟩ := Option.map_eq_some_iff.mp found
  exact @Row.LabelDef.Sound.intro key [] {} _ (word key member) (fun some => absurd rfl some)
    (fun _ post => by cases post)

omit word in
theorem bareText : Row.labelText (label.map bareLabel) = labelled label := by
  cases label with
  | none => rfl
  | some l =>
    show (bareLabel l).written.toList = '.' :: l.toList
    rw [Row.labelShown]
    show '.' :: (l.toList ++ "".toList) = _
    simp

omit word in
theorem bareUnplaced : (label.map bareLabel).toList.map Row.LabelDef.unplaced =
    label.toList.map bareLabel := by
  cases label <;> rfl

theorem stitchPlain {name : String} (named : NameWord name.toList)
    (shown : chars text = name.toList) (hung : chars suffix = labelled label) :
    Plain (text ++ suffix) [.stitch name label.toList] := by
  obtain ⟨c, cs, first, start, all⟩ := nameParts named.1
  have solid : Solid (name.toList ++ labelled label) := .append (solidChars all) (labelledSolid word)
  have reads := @readsStitch name _ none named (bareSound word) (fun _ none => by cases none)
  rw [bareText, bareUnplaced, show Row.attachedText none = [] from rfl, List.append_nil] at reads
  have whole : chars (text ++ suffix) = name.toList ++ labelled label := by
    rw [← shown, ← hung]
    exact List.map_append
  rw [first, List.cons_append] at solid reads whole
  refine plainText whole (startNoMarker start) solid ?_
  simpa only [Row.nodeSteps, Row.Surround.add, Option.none_or, List.map_singleton, Event.step] using reads

theorem wrapPlain {opening closing : Glyph} {b : Bracket} {content : MappedText}
    {events : List Event} (opens : opening.char = b.opening) (closes : closing.char = b.closing)
    (hung : chars suffix = labelled label) (meant : Meant (chars content) events) :
    Plain (opening :: content ++ closing :: suffix) (events.map (Event.under label)) := by
  have whole : chars (opening :: content ++ closing :: suffix) =
      b.opening :: (chars content ++ b.closing :: labelled label) := by
    simp [chars, opens, closes, ← hung]
  have suffixes := @suffixReads _ none (bareSound word) (fun _ none => by cases none)
  rw [bareText, bareUnplaced, show Row.attachedText none = [] from rfl, List.append_nil] at suffixes
  have reads := readsGroup b meant.reads suffixes
  refine plainText whole (fun m => by cases b <;> cases m <;> decide)
    (groupSolid b meant.even (labelledSolid word)) ?_
  simpa only [List.map_map, Function.comp_def, underStep] using reads

end

def strung (origin : Nat) (separator : Option Glyph) : List MappedText → List Item
  | [] => [⟨[], separator⟩]
  | [text] => [⟨text, separator⟩]
  | text :: rest => ⟨text, some (made origin ',')⟩ :: strung origin separator rest

theorem ropeTextAppend (rope more : List Item) :
    ropeText (rope ++ more) = ropeText rope ++ ropeText more := List.flatMap_append

theorem strungText (origin : Nat) (separator : Option Glyph) (texts : List MappedText) :
    ropeText (strung origin separator texts) = joined origin texts ++ separator.toList := by
  induction texts with
  | nil => simp [strung, ropeText, joined]
  | cons text rest ih =>
    cases rest with
    | nil => simp [strung, ropeText, joined]
    | cons next rest =>
      simp only [ropeText] at ih
      simp [strung, ropeText, joined, ih]

inductive Onward : Option Glyph → List Item → List Part → Prop where
  | last : Onward none [] []
  | link {g : Glyph} {rope : List Item} {parts : List Part} (separates : isSeparator g.char = true)
      (rest : Roped rope parts) : Onward (some g) rope parts

section
variable {separator : Option Glyph} {rope : List Item} {parts : List Part}
  (onward : Onward separator rope parts)
include onward

theorem ropedCons {part : Part} (means : Means ⟨text, separator⟩ part) :
    Roped (⟨text, separator⟩ :: rope) (part :: parts) := by
  cases onward with
  | last => exact .last means
  | link separates rest => exact .link separates means rest

theorem strungRoped (origin : Nat) {texts : List MappedText} {events : List (List Event)}
    (plain : List.Forall₂ Plain texts events) : ∃ split : List Part,
      Roped (strung origin separator texts ++ rope) (split ++ parts) ∧
        (∀ p ∈ split, p.marker = none) ∧
        split.flatMap Part.events = events.flatten ++ endEvents separator := by
  have nothing : Plain [] [] := ⟨.nil, meantNil, rfl⟩
  induction plain with
  | nil =>
    exact ⟨[⟨none, endEvents separator⟩], ropedCons onward (.plain nothing), by simp, by simp⟩
  | @cons text here texts events one more ih =>
    cases more with
    | nil =>
      exact ⟨[⟨none, here ++ endEvents separator⟩], ropedCons onward (.plain one), by simp, by simp⟩
    | cons next more =>
      obtain ⟨split, roped, unmarked, same⟩ := ih
      have comma : Means ⟨text, some (made origin ',')⟩ ⟨none, here ++ []⟩ := .plain one
      refine ⟨⟨none, here ++ []⟩ :: split, .link rfl comma roped, ?_, ?_⟩
      · simpa using unmarked
      · simp only [List.flatMap_cons, same]
        simp

end

inductive Yields : Piece → MappedText → Prop where
  | marker {m : Marker} {out : MappedText} (shown : chars out = [m.char]) : Yields (.marker m) out
  | texts {piece : Piece} (unmarked : piece.marker? = none) (origin : Nat) {texts : List MappedText}
      {events : List (List Event)} (plain : List.Forall₂ Plain texts events)
      (same : events.flatten = piece.unfold) : Yields piece (joined origin texts)

variable {parts : List Part}

theorem yieldsRoped {piece : Piece} {out : MappedText} (yields : Yields piece out)
    {separator : Option Glyph} {rope : List Item} {coarse : List Part}
    (onward : Onward separator rope parts) (refines : Refines coarse parts) :
    ∃ whole fine, Roped whole fine ∧ ropeText whole = out ++ (separator.toList ++ ropeText rope) ∧
      Refines (⟨piece.marker?, piece.unfold ++ endEvents separator⟩ :: coarse) fine := by
  cases yields with
  | @marker m _ shown =>
    refine ⟨_, _, ropedCons onward (.marker m shown), by simp [ropeText], ?_⟩
    rw [Piece.unfold, List.nil_append]
    exact .marker m _ refines
  | texts unmarked origin plain same =>
    obtain ⟨split, roped, none, events⟩ := strungRoped onward origin plain
    refine ⟨_, _, roped, ?_, ?_⟩
    · rw [ropeTextAppend, strungText, List.append_assoc]
    · rw [unmarked, ← same, ← events]
      exact .plain none refines

theorem unmarkedParts (never : ∀ m, parts.countP (Part.is m) ≤ 0) :
    ∀ p ∈ parts, p.marker = none := by
  intro p member
  cases found : p.marker with
  | none => rfl
  | some m =>
    have other := List.countP_eq_zero.mp (Nat.le_zero.mp (never m)) p member
    simp [Part.is, found] at other

section
variable {rope : List Item} (roped : Roped rope parts) (unmarked : ∀ p ∈ parts, p.marker = none)
include roped unmarked

theorem unmarkedItems : ∀ item ∈ rope, isMarker item.text = false := by
  have means := strandMeans (ropedStrand roped)
  clear roped
  induction means with
  | nil => exact fun _ none => by cases none
  | cons one _ ih =>
    rw [List.forall_mem_cons] at unmarked ⊢
    refine ⟨?_, ih unmarked.2⟩
    rw [meansMarker one, unmarked.1]
    rfl

theorem unmarkedSpan : markerSpan? (ropeText rope) = none := by
  rw [markerSpan?, ropedItems roped, Option.map_eq_none_iff, List.find?_eq_none]
  intro item member
  simp [unmarkedItems roped unmarked item member]

theorem unmarkedMeant : Meant (chars (ropeText rope)) (parts.flatMap Part.events) := by
  have same : ropeText rope = rope.flatMap Item.copied := by
    rw [ropeText]
    exact List.flatMap_congr fun item member =>
      (copiedPlain (unmarkedItems roped unmarked item member)).symm
  rw [same]
  exact meantUntrimmed (strandMeant (ropedStrand roped))

end

theorem groupRounds {d : Dress} (wears : Wears a d) {rope : List Item} (roped : Roped rope parts)
    (marks : ∀ m, parts.countP (Part.is m) ≤ if a.count.isSome then 1 else 0) (item : MappedText)
    (opening closing : Glyph) :
    ∃ texts, unfoldGroup item opening (ropeText rope) closing d = .ok (joined (startOrigin item)
        (texts.map fun content => opening :: content ++ closing :: d.suffix)) ∧
      List.Forall₂ Copies texts (rounds parts a.times) := by
  have counted := wears.count
  unfold Attire.times at counted ⊢
  unfold unfoldGroup
  cases found : a.count with
  | none =>
    rw [found] at counted marks
    have unmarked := unmarkedParts marks
    refine ⟨[ropeText rope], ?_, .cons (unmarkedMeant roped unmarked) .nil⟩
    simp only [counted, Option.map_none, unmarkedSpan roped unmarked]
    rfl
  | some pair =>
    rw [found] at counted marks
    obtain ⟨texts, made, pairs⟩ :=
      copiesMeant roped marks (Decimal.digitsValue pair.2) (cover item)
    refine ⟨texts, ?_, pairs⟩
    simp only [counted, Option.map_some, made]
    rfl

theorem partsMarked (m : Marker) : (chain : Chain) → chain.parts.countP (Part.is m) = chain.marked m
  | .last piece => by simp [Chain.parts, Chain.marked, Chain.pieces, Part.is, List.countP_cons]
  | .link piece ends rest => by
    have more := partsMarked m rest
    simp only [Chain.marked] at more
    simp [Chain.parts, Chain.marked, Chain.pieces, Part.is, List.countP_cons, more]

theorem partsWithin {limit : Nat} {chain : Chain} (within : chain.marksWithin limit = true)
    (m : Marker) : chain.parts.countP (Part.is m) ≤ limit := by
  rw [partsMarked]
  simp only [Chain.marksWithin, Bool.and_eq_true, decide_eq_true_eq] at within
  cases m
  · exact within.1
  · exact within.2

theorem endBreak {ends : Break} (shown : g.char = ends.char) :
    isSeparator g.char = true ∧ endEvents (some g) = ends.events := by
  cases ends <;> simp [shown, Break.char, isSeparator, endEvents, Break.events]

mutual

theorem pieceExpands (piece : Piece) (valid : piece.valid fitsWord = true) {t : MappedText}
    (spelt : chars t = piece.written) : ∃ out, expandText t = .ok out ∧ Yields piece out := by
  cases piece with
  | blank =>
    rw [List.map_eq_nil_iff.mp spelt]
    exact ⟨[], rfl, .texts rfl 0 .nil rfl⟩
  | marker m => exact ⟨t, markerExpands spelt _, .marker spelt⟩
  | stitch name a =>
    obtain ⟨word, dressed⟩ := Bool.and_eq_true_iff.mp valid
    have named := nameWordIff.mp word
    obtain ⟨text, d, shown, wears, run⟩ := literalExpands dressed named.1 spelt
    have plain := stitchPlain (fun _ found => a.labelWord dressed found) named shown wears.suffix
    obtain ⟨c, cs, first, start, _⟩ := nameParts named.1
    have unmarked := unmarkedText (shown.trans first) (startNoMarker start)
    refine ⟨_, (run _).trans (if_neg (by simp [unmarked])),
      .texts rfl _ (replicatePairs plain _) ?_⟩
    rw [wears.count, List.flatten_replicate_singleton, Piece.unfold]
  | group b body a =>
    simp only [Piece.valid, Bool.and_eq_true] at valid
    obtain ⟨⟨inside, dressed⟩, within⟩ := valid
    obtain ⟨opening, inner, closing, d, opens, shown, closes, wears, run⟩ :=
      groupExpands dressed (chainEven body inside) spelt
    obtain ⟨rope, parts, made, roped, refines⟩ := chainExpands body inside shown
    obtain ⟨texts, unfolded, pairs⟩ := groupRounds wears roped
      (fun m => refinesCount refines m ▸ partsWithin within m) t opening closing
    have plain : List.Forall₂ Plain (texts.map fun content => opening :: content ++ closing :: d.suffix)
        ((rounds parts a.times).map fun round =>
          (round.flatMap Part.events).map (Event.under a.label)) := by
      rw [List.forall₂_map_left_iff, List.forall₂_map_right_iff]
      exact pairs.imp fun _ _ copies =>
        wrapPlain (fun _ found => a.labelWord dressed found) opens closes wears.suffix copies
    have same := congrArg (List.map (List.map (Event.under a.label))) (roundsEvents refines a.times)
    simp only [List.map_map, Function.comp_def] at same
    refine ⟨_, (run _ _ fun _ => made).trans unfolded, .texts rfl _ plain ?_⟩
    rw [Piece.unfold, List.flatMap, same]

theorem chainExpands (chain : Chain) (valid : chain.valid fitsWord = true) {t : MappedText}
    (spelt : chars t = chain.written) : ∃ rope parts, expandSequence t = .ok (ropeText rope) ∧
      Roped rope parts ∧ Refines chain.parts parts := by
  cases chain with
  | last piece =>
    obtain ⟨out, made, yields⟩ := pieceExpands piece valid spelt
    obtain ⟨rope, fine, roped, same, refines⟩ := yieldsRoped yields .last .nil
    refine ⟨rope, fine, ?_, roped, ?_⟩
    · have solid : Solid (chars t) := spelt ▸ pieceSolid piece valid
      rw [expandLast solid made, same]
      simp [ropeText]
    · simpa [Chain.parts, endEvents] using refines
  | link piece ends rest =>
    obtain ⟨here, more⟩ := Bool.and_eq_true_iff.mp valid
    obtain ⟨a, tail, rfl, inA, spelt⟩ := List.map_eq_append_iff.mp spelt
    obtain ⟨g, b, rfl, mark, inB⟩ := List.map_eq_cons_iff.mp spelt
    obtain ⟨separates, events⟩ := endBreak mark
    obtain ⟨out, made, yields⟩ := pieceExpands piece here inA
    obtain ⟨rope, parts, onward, roped, refines⟩ := chainExpands rest more inB
    obtain ⟨whole, fine, roped, same, refines⟩ := yieldsRoped yields (.link separates roped) refines
    refine ⟨whole, fine, ?_, roped, ?_⟩
    · have solid : Solid (chars a) := (show chars a = _ from inA) ▸ pieceSolid piece here
      rw [expandLink solid made separates onward, same]
      rfl
    · rw [Chain.parts, ← events]
      exact refines

end

end Crochet.Repeat
