import Crochet.Proofs.Repeat.Expanded

/-! What writing out repeats keeps. Text is cut at separators, brackets and the marks of what hangs on
an item, and it is put together again at such places only; whatever survives that survives the
expansion as a whole. -/
namespace Crochet.Repeat
open MappedText Text

def isEnding (c : Char) : Bool := isSeparator c || isClosing c

def Hanging (t : MappedText) : Prop := ∀ g, t.head? = some g → isStop g.char = true

structure Stable (P : MappedText → Prop) : Prop where
  nil : P []
  one : ∀ {a b g}, P (a ++ g :: b) → P [g]
  rest : ∀ {a b}, P (a ++ b) → P b
  front : ∀ {a b g}, g.char.isDigit = false → P (a ++ g :: b) → P a
  join : ∀ {a b g}, isEnding g.char = true → P a → P [g] → P b → P (a ++ g :: b)
  opened : ∀ {b g}, isOpening g.char = true → P [g] → P b → P (g :: b)
  dress : ∀ {a b c}, Hanging b → Hanging c → (b = [] → c = []) → P (a ++ b) → P c → P (a ++ c)
  comma : ∀ {item}, P item → item ≠ [] → P [made (startOrigin item) ',']

inductive Laid (P : MappedText → Prop) : List Item → Prop where
  | nil : Laid P []
  | last {text} (holds : P text) : Laid P [⟨text, none⟩]
  | next {text g rest} (holds : P text) (separates : isSeparator g.char = true) (own : P [g])
      (more : Laid P rest) : Laid P (⟨text, some g⟩ :: rest)

def Item.whole (item : Item) : MappedText := item.text ++ item.separator.toList

variable {c : Char} {parts : List Item} {t inner after item out : MappedText} {closing : Glyph}
  {d : Dress} {count : Nat} {span : Span} {texts : List MappedText}

theorem endingCases (ending : isEnding c = true) :
    c = ',' ∨ c = '\n' ∨ ∃ bracket : Bracket, c = bracket.closing := by
  simp only [isEnding, isSeparator, isClosing, Bracket.closed?, Bool.or_eq_true, beq_iff_eq] at ending
  rcases ending with (comma | newline) | closing
  · exact .inl comma
  · exact .inr (.inl newline)
  · split at closing
    · exact .inr (.inr ⟨.square, ‹_›⟩)
    split at closing
    · exact .inr (.inr ⟨.round, ‹_›⟩)
    split at closing
    · exact .inr (.inr ⟨.curly, ‹_›⟩)
    · cases closing

theorem endingNoDigit (ending : isEnding c = true) : c.isDigit = false := by
  rcases endingCases ending with rfl | rfl | ⟨bracket, rfl⟩
  · rfl
  · rfl
  · cases bracket <;> rfl

theorem separatorEnding (separates : isSeparator c = true) : isEnding c = true := by
  simp [isEnding, separates]

theorem growFirstWhole (g : Glyph) (parts : List Item) :
    (growFirst g parts).flatMap Item.whole = g :: parts.flatMap Item.whole := by
  cases parts with
  | nil => rfl
  | cons item more => simp [growFirst, Item.whole]

theorem growFirstLaid {g : Glyph} (laid : Laid (fun _ => True) parts) :
    Laid (fun _ => True) (growFirst g parts) := by
  cases laid with
  | nil => exact .last trivial
  | last _ => exact .last trivial
  | next _ separates own more => exact .next trivial separates own more

theorem itemsFromLaid (depth : Nat) (inBlock : Bool) (t : MappedText) :
    Laid (fun _ => True) (itemsFrom depth inBlock t) ∧
      (itemsFrom depth inBlock t).flatMap Item.whole = t := by
  induction t generalizing depth inBlock with
  | nil => exact ⟨.last trivial, rfl⟩
  | cons g rest ih =>
    have grown : ∀ depth inBlock, Laid (fun _ => True) (growFirst g (itemsFrom depth inBlock rest)) ∧
        (growFirst g (itemsFrom depth inBlock rest)).flatMap Item.whole = g :: rest := by
      intro depth inBlock
      exact ⟨growFirstLaid (ih depth inBlock).1, by rw [growFirstWhole, (ih depth inBlock).2]⟩
    unfold itemsFrom
    split
    · exact grown _ _
    split
    · exact grown _ _
    split
    · exact grown _ _
    split
    · exact grown _ _
    split
    · rename_i separates
      obtain ⟨laid, whole⟩ := ih depth inBlock
      refine ⟨.next trivial (Bool.and_eq_true_iff.mp separates).1 trivial laid, ?_⟩
      rw [List.flatMap_cons, whole]
      rfl
    · exact grown _ _

theorem Laid.take {P : MappedText → Prop} (laid : Laid P parts) (n : Nat) :
    Laid P (parts.take n) := by
  induction laid generalizing n with
  | nil => simpa using .nil
  | last holds =>
    cases n with
    | zero => exact .nil
    | succ n => simpa using .last holds
  | next holds separates own _ ih =>
    cases n with
    | zero => exact .nil
    | succ n => exact .next holds separates own (ih n)

theorem Laid.drop {P : MappedText → Prop} (laid : Laid P parts) (n : Nat) :
    Laid P (parts.drop n) := by
  induction laid generalizing n with
  | nil => simpa using .nil
  | last holds =>
    cases n with
    | zero => exact .last holds
    | succ n => simpa using .nil
  | next holds separates own more ih =>
    cases n with
    | zero => exact .next holds separates own more
    | succ n => exact ih n

def Body.text : Body → MappedText
  | .literal text => text
  | .group opening inner closing => opening :: inner ++ [closing]

theorem groupEndClosing {depth : Nat} (found : groupEnd depth t = some (inner, closing, after)) :
    isClosing closing.char = true := by
  induction t generalizing depth inner with
  | nil => cases found
  | cons g rest ih =>
    have step {depth : Nat} (more : (groupEnd depth rest).map (fun r => (g :: r.1, r.2)) =
        some (inner, closing, after)) : isClosing closing.char = true := by
      obtain ⟨⟨i, c, a⟩, part, same⟩ := Option.map_eq_some_iff.mp more
      cases same
      exact ih part
    simp only [groupEnd] at found
    split at found
    · exact step found
    split at found
    · rename_i closes
      split at found
      · cases found
        exact closes
      · exact step found
    · exact step found

theorem bodyParts {body : Option Body} (ok : bodyOf item t = .ok (body, after)) :
    t = (body.map Body.text).getD [] ++ after ∧ ∀ opening inner closing,
      body = some (.group opening inner closing) →
        isOpening opening.char = true ∧ isClosing closing.char = true := by
  cases t with
  | nil =>
    cases ok
    exact ⟨rfl, by simp⟩
  | cons g rest =>
    simp only [bodyOf, faultAt] at ok
    -- the first split is on what follows a minus sign
    split at ok
    all_goals
      split at ok
      · cases ok
      split at ok
      · rename_i opens
        split at ok
        · rename_i inner closing _ found
          cases ok
          have whole : (g :: inner ++ [closing]) ++ after = g :: (inner ++ closing :: after) := by simp
          refine ⟨(congrArg (g :: ·) (groupEndParts found)).trans whole.symm, ?_⟩
          intro _ _ _ same
          cases same
          exact ⟨opens, groupEndClosing found⟩
        · cases ok
      split at ok
      · split at ok
        · rename_i inner _ found
          cases ok
          obtain ⟨x, _, parts, _⟩ := cutFirstParts found
          have block : (inner ++ x :: after).take (inner.length + 1) = inner ++ [x] := by
            simp [List.take_append]
          refine ⟨?_, by simp⟩
          show g :: _ = g :: List.take (inner.length + 1) _ ++ after
          rw [parts, block, List.cons_append, List.append_assoc, List.singleton_append]
        · cases ok
      split at ok
      · cases ok
        exact ⟨rfl, by simp⟩
      · cases ok
        exact ⟨by simp [Body.text, untilStopParts], by simp⟩

theorem dressHanging {dress : Dress} (ok : dressFrom item d t = .ok dress) : Hanging t := by
  cases t with
  | nil => simp [Hanging]
  | cons g rest =>
    intro h first
    cases first
    unfold dressFrom at ok
    split at ok
    · rename_i dot
      rw [dot]
      rfl
    split at ok
    · rename_i address
      rw [address]
      rfl
    split at ok
    · rename_i star
      rw [star]
      rfl
    · cases ok

theorem copiesPassage (ok : copies inner count span = .ok texts) :
    ∀ t ∈ texts, ∃ start stop, t = passage (items inner) start stop := by
  unfold copies at ok
  obtain ⟨exit, _, ok⟩ := bindOk ok
  obtain ⟨entry, _, ok⟩ := bindOk ok
  cases ok
  intro t inside
  split at inside
  · cases inside
  · exact ⟨_, _, List.mem_singleton.mp inside⟩
  · rcases List.mem_append.mp inside with inside | last
    · rcases List.mem_cons.mp inside with first | between
      · exact ⟨_, _, first⟩
      · exact ⟨_, _, List.eq_of_mem_replicate between⟩
    · exact ⟨_, _, List.mem_singleton.mp last⟩

section
variable {P : MappedText → Prop} (stable : Stable P)
include stable

theorem Laid.of (laid : Laid (fun _ => True) parts) (holds : P (parts.flatMap Item.whole)) :
    Laid P parts := by
  induction laid with
  | nil => exact .nil
  | last _ => exact .last (by simpa [Item.whole] using holds)
  | @next text g rest _ separates _ _ ih =>
    have whole : P (text ++ g :: rest.flatMap Item.whole) := by simpa [Item.whole] using holds
    have more : P ((text ++ [g]) ++ rest.flatMap Item.whole) := by simpa using whole
    exact .next (stable.front (endingNoDigit (separatorEnding separates)) whole) separates
      (stable.one whole) (ih (stable.rest more))

theorem itemsLaid (holds : P t) : Laid P (items t) := by
  obtain ⟨laid, whole⟩ := itemsFromLaid 0 false t
  exact laid.of stable (whole.symm ▸ holds)

theorem Laid.copied (laid : Laid P parts) : P (parts.flatMap Item.copied) := by
  induction laid with
  | nil => exact stable.nil
  | @last text holds =>
    rw [List.flatMap_singleton, Item.copied]
    split
    · exact stable.nil
    · simpa using holds
  | @next text g rest holds separates own _ ih =>
    rw [List.flatMap_cons, Item.copied]
    split
    · rw [Option.filter]
      split
      · exact stable.join (separatorEnding separates) stable.nil own ih
      · exact ih
    · simpa using stable.join (separatorEnding separates) holds own ih

theorem trimKept (holds : P t) : P (trimCommas t) := by
  obtain ⟨commas, parts, all⟩ := trimParts t
  cases commas with
  | nil =>
    rw [List.append_nil] at parts
    exact parts ▸ holds
  | cons g more =>
    rw [parts] at holds
    have comma : g.char = ',' := all g List.mem_cons_self
    exact stable.front (by rw [comma]; rfl) holds

theorem passageKept (laid : Laid P parts) (start stop : Nat) :
    P (passage parts start stop) :=
  trimKept stable (((laid.take stop).drop start).copied stable)

theorem joinedKept (some : item ≠ []) (holds : P item) (each : ∀ t ∈ texts, P t) :
    P (joined (startOrigin item) texts) := by
  have comma := stable.comma holds some
  induction texts with
  | nil => exact stable.nil
  | cons t rest ih =>
    cases rest with
    | nil => exact each t List.mem_cons_self
    | cons next more =>
      have own := each t List.mem_cons_self
      have later := ih fun u inside => each u (List.mem_cons_of_mem _ inside)
      exact stable.join rfl own comma later

theorem leadingKept {rest : MappedText} {count : Option Nat} (holds : P item)
    (ok : leadingCount item = .ok (count, rest)) : P rest := by
  have split := List.takeWhile_append_dropWhile (p := isDigitGlyph) (l := item)
  simp only [leadingCount] at ok
  split at ok
  · cases ok
    exact holds
  obtain ⟨n, _, ok⟩ := bindOk ok
  simp only [faultAt] at ok
  split at ok
  · cases ok
  cases ok
  have behind : P (item.dropWhile isDigitGlyph) := stable.rest (split.symm ▸ holds)
  cases starred : MappedText.after? ['*'] (item.dropWhile isDigitGlyph) with
  | none => exact behind
  | some tail =>
    cases digits : item.dropWhile isDigitGlyph with
    | nil =>
      rw [digits] at starred
      cases starred
    | cons g more =>
      rw [digits] at starred behind
      simp only [MappedText.after?] at starred
      split at starred
      · cases starred
        exact stable.rest (a := [g]) behind
      · cases starred

theorem dressKept {a : MappedText} {dress : Dress} (ok : dressFrom item d t = .ok dress)
    (holds : P (a ++ (d.suffix ++ t))) :
    P (a ++ dress.suffix) := by
  fun_induction dressFrom item d t with
  | case1 d =>
    cases ok
    simpa using holds
  | case2 d g rest dot twice => cases ok
  | case3 d g rest dot first ih =>
    refine ih ok ?_
    simpa [untilStopParts] using holds
  | case4 d g rest dot address twice => cases ok
  | case5 d g rest dot address first ih =>
    refine ih ok ?_
    simpa [untilStopParts] using holds
  | case6 d g rest dot address star twice => cases ok
  | case7 d g rest dot address star first digits none => cases ok
  | case8 d g rest dot address star first digits some ih =>
    obtain ⟨count, _, ok⟩ := bindOk ok
    have whole : a ++ (d.suffix ++ g :: rest) =
        (a ++ (d.suffix ++ g :: rest.takeWhile isDigitGlyph)) ++ rest.dropWhile isDigitGlyph := by
      simp [List.takeWhile_append_dropWhile]
    have behind : P (rest.dropWhile isDigitGlyph) := stable.rest (whole ▸ holds)
    have hangs : Hanging (g :: rest) := by
      intro h first
      cases first
      rw [star]
      rfl
    have shorter := stable.dress hangs (dressHanging ok) (by simp)
      (by simpa using holds : P ((a ++ d.suffix) ++ g :: rest)) behind
    exact ih count ok (by simpa using shorter)
  | case9 d g rest dot address star => cases ok

theorem literalKept {text : MappedText} (some : item ≠ []) (holds : P item)
    (own : P (text ++ d.suffix)) (ok : unfoldLiteral item text d = .ok out) : P out := by
  unfold unfoldLiteral at ok
  split at ok
  · cases ok
  cases ok
  apply joinedKept stable some holds
  intro t inside
  rw [List.eq_of_mem_replicate inside]
  exact own

theorem copiesKept (holds : P inner) (ok : copies inner count span = .ok texts) :
    ∀ t ∈ texts, P t := by
  intro t inside
  obtain ⟨start, stop, rfl⟩ := copiesPassage ok t inside
  exact passageKept stable (itemsLaid stable holds) start stop

theorem groupKept {opening : Glyph} (some : item ≠ []) (holds : P item)
    (opens : isOpening opening.char = true) (closes : isClosing closing.char = true)
    (first : P [opening]) (last : P [closing]) (inside : P inner) (hung : P d.suffix)
    (ok : unfoldGroup item opening inner closing d = .ok out) : P out := by
  have wrapped {content : MappedText} (own : P content) :
      P (opening :: content ++ closing :: d.suffix) := by
    have ending : isEnding closing.char = true := by simp [isEnding, closes]
    exact stable.opened opens first (stable.join ending own last hung)
  unfold unfoldGroup at ok
  simp only [faultAt] at ok
  split at ok
  · split at ok
    · cases ok
    · cases ok
      exact wrapped inside
  · obtain ⟨texts, made, ok⟩ := bindOk ok
    cases ok
    apply joinedKept stable some holds
    intro t among
    obtain ⟨content, member, rfl⟩ := List.mem_map.mp among
    exact wrapped (copiesKept stable inside made content member)

theorem itemKept {inside : (inner : MappedText) → inner.length < item.length → Outcome MappedText}
    (keeps : ∀ inner shorter out, inside inner shorter = .ok out → P inner → P out) (holds : P item)
    (ok : expandItem item inside = .ok out) : P out := by
  unfold expandItem at ok
  split at ok
  · cases ok
    exact stable.nil
  rename_i some
  have solid : item ≠ [] := by simpa using some
  split at ok
  · cases ok
  rename_i head rest read
  obtain ⟨dress, dressed, unfolded⟩ := bindOk ok
  have kept := read
  unfold headOf at kept
  obtain ⟨⟨count, behind⟩, counted, kept⟩ := bindOk kept
  obtain ⟨⟨body, after⟩, found, kept⟩ := bindOk kept
  cases kept
  have shown : P behind := leadingKept stable holds counted
  obtain ⟨parts, brackets⟩ := bodyParts found
  rw [parts] at shown
  split at unfolded
  · rename_i bare
    cases bare
    have hung := dressKept stable (a := []) dressed shown
    unfold unfoldBare at unfolded
    simp only [faultAt] at unfolded
    split at unfolded
    · cases unfolded
    split at unfolded
    · cases unfolded
      exact hung
    · cases unfolded
  · rename_i text literal
    cases literal
    exact literalKept stable solid holds (dressKept stable dressed shown) unfolded
  · rename_i opening inner closing group
    cases group
    obtain ⟨opens, closes⟩ := brackets _ _ _ rfl
    obtain ⟨wide, made, wrapped⟩ := bindOk unfolded
    have whole : P (opening :: (inner ++ closing :: rest)) := by
      simpa [Body.text] using shown
    have within : P (inner ++ closing :: rest) := stable.rest (a := [opening]) whole
    have behind : P ((inner ++ [closing]) ++ rest) := by simpa using within
    have hung := dressKept stable (a := []) dressed (stable.rest behind)
    have ending : isEnding closing.char = true := by simp [isEnding, closes]
    have inside := keeps _ _ _ made (stable.front (endingNoDigit ending) within)
    exact groupKept stable solid holds opens closes (stable.one (a := []) whole) (stable.one within)
      inside hung wrapped

theorem sequenceKept (holds : P t) (ok : expandSequence t = .ok out) : P out := by
  induction size : t.length using Nat.strongRecOn generalizing t out with
  | ind n ih =>
    have laid := itemsLaid stable holds
    have length : ∀ item ∈ items t, item.text.length ≤ n := fun item among => size ▸ itemsLength among
    rw [expandItems] at ok
    obtain ⟨texts, made, rfl⟩ := mapOk ok
    -- item by item: each text is written out and keeps its separator
    have each {text new : MappedText} (short : text.length ≤ n) (own : P text)
        (wrote : expandText text = .ok new) : P new := by
      refine itemKept stable (fun inner shorter out opened kept => ?_) own wrote
      exact ih inner.length (Nat.lt_of_lt_of_le shorter short) kept opened rfl
    generalize items t = parts at laid length made
    clear holds ok size
    induction laid generalizing texts with
    | nil =>
      cases pureOk made
      exact stable.nil
    | last own =>
      obtain ⟨one, none, written, more, rfl⟩ := mapMConsOk made
      cases pureOk more
      obtain ⟨new, wrote, same⟩ := bindOk written
      cases same
      simpa using each (length _ List.mem_cons_self) own wrote
    | next own separates glyph _ later =>
      obtain ⟨one, others, written, more, rfl⟩ := mapMConsOk made
      obtain ⟨new, wrote, same⟩ := bindOk written
      cases same
      have first := each (length _ List.mem_cons_self) own wrote
      have rest := later others (fun item among => length item (List.mem_cons_of_mem _ among)) more
      simpa using stable.join (separatorEnding separates) first glyph rest

theorem expandKept (holds : P t) (ok : expand t = .ok out) : P out := by
  unfold expand at ok
  obtain ⟨made, written, ok⟩ := bindOk ok
  simp only [faultAt] at ok
  split at ok
  · cases ok
  · cases ok
    exact sequenceKept stable holds written

end
end Crochet.Repeat
