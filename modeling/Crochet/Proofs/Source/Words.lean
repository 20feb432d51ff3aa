import Crochet.Proofs.Provenance.Within
import Crochet.Source.Macro

/-! Macros put in word by word. A text falls into its words, which are the longest runs of word
characters, and the characters between them. A rule for whole words is found nowhere but at the start
of a word, and replaces that word or nothing; the rules for macros and for their variants are of this
kind. So a macro unfolds in every word that is its name, with a count in front or without, and leaves
all else. -/
namespace Crochet
open MappedText

namespace Text

def rangesInside (inner outer : List (Nat × Nat)) : Bool :=
  inner.all fun r => outer.any fun s => s.1.ble r.1 && r.2.ble s.2

def rangesApart (left right : List (Nat × Nat)) : Bool :=
  left.all fun r => right.all fun s => r.2.blt s.1 || s.2.blt r.1

variable {c : Char}

theorem inRangesIff {ranges : List (Nat × Nat)} :
    inRanges ranges c = true ↔ ∃ r ∈ ranges, r.1 ≤ c.toNat ∧ c.toNat ≤ r.2 := by
  simp [inRanges]

theorem inRangesInside {inner outer : List (Nat × Nat)} (inside : rangesInside inner outer = true)
    (hit : inRanges inner c = true) :
    inRanges outer c = true := by
  obtain ⟨r, member, above, below⟩ := inRangesIff.mp hit
  obtain ⟨s, other, wider⟩ := List.any_eq_true.mp (List.all_eq_true.mp inside r member)
  obtain ⟨lower, upper⟩ := Bool.and_eq_true_iff.mp wider
  have low := Nat.le_of_ble_eq_true lower
  have high := Nat.le_of_ble_eq_true upper
  exact inRangesIff.mpr ⟨s, other, by omega, by omega⟩

theorem inRangesApart {left right : List (Nat × Nat)} (separate : rangesApart left right = true)
    (hit : inRanges left c = true) :
    inRanges right c = false := by
  refine Bool.eq_false_iff.mpr fun other => ?_
  obtain ⟨r, first, above, below⟩ := inRangesIff.mp hit
  obtain ⟨s, second, higher, lower⟩ := inRangesIff.mp other
  have between := List.all_eq_true.mp (List.all_eq_true.mp separate r first) s second
  simp only [Bool.or_eq_true, Nat.blt_eq] at between
  omega

theorem startRanges (start : isNameStart c = true) :
    inRanges [(0x41, 0x5A), (0x5F, 0x5F), (0x61, 0x7A)] c = true := by
  rcases Bool.or_eq_true_iff.mp start with alpha | line
  · rcases alphaRange alpha with ⟨low, high⟩ | ⟨low, high⟩
    · exact inRangesIff.mpr ⟨(0x41, 0x5A), by simp, low, high⟩
    · exact inRangesIff.mpr ⟨(0x61, 0x7A), by simp, low, high⟩
  · rw [beq_iff_eq.mp line]
    rfl

theorem startPlain (start : isNameStart c = true) : isDecimalDigit c = false :=
  inRangesApart (by decide +kernel) (startRanges start)

theorem digitWord (digit : isDecimalDigit c = true) : isWord c = true := by
  have parts : digitRanges = (0x30, 0x39) :: digitRanges.tail := rfl
  rw [isDecimalDigit, parts, inRanges, List.any_cons, Bool.or_eq_true] at digit
  rcases digit with ascii | other
  · refine nameWord (digitNameChar ?_)
    simpa [Char.isDigit, UInt32.le_iff_toNat_le] using ascii
  · have wide : inRanges wideWordRanges c = true := inRangesInside (by decide +kernel) other
    have high : ¬ c.toNat < 0x80 := by
      intro low
      have ascii : inRanges [(0, 0x7F)] c = true := by
        simp [inRanges]
        omega
      have none : inRanges wideWordRanges c = false := inRangesApart (by decide +kernel) ascii
      rw [none] at wide
      cases wide
    rw [isWord, if_neg high]
    exact wide

end Text

namespace Source
open Text
open Token (Stops takeRun stopsAfter)

theorem spanParts (p : α → Bool) (xs : List α) : ∃ run tail, xs = run ++ tail ∧
    (∀ x ∈ run, p x = true) ∧ Stops p tail ∧ xs.takeWhile p = run ∧ xs.dropWhile p = tail :=
  ⟨xs.takeWhile p, xs.dropWhile p, List.takeWhile_append_dropWhile.symm,
    fun _ => List.mem_takeWhile_imp, stopsAfter p xs, rfl, rfl⟩

theorem afterWhole (cs : List Char) : after? cs cs = some [] := by
  simpa using afterStart cs []

theorem wordEmpty (cs : List Char) : (cs.takeWhile isWord).isEmpty = !isWordAt cs.head? := by
  cases cs with
  | nil => rfl
  | cons c cs => by_cases word : isWord c = true <;> simp [isWordAt, word]

def isWordGlyph (g : Glyph) : Bool := isWord g.char

/- A word right behind `.`, `@` or `:` is guarded. -/
inductive Chunk where
  | gap (g : Glyph)
  | word (guarded : Bool) (w : MappedText)
  deriving DecidableEq

def Chunk.text : Chunk → MappedText
  | gap g => [g]
  | word _ w => w

def chunks (guarded : Bool) (t : MappedText) : List Chunk :=
  match t with
  | [] => []
  | g :: rest =>
    if isWordGlyph g then
      .word guarded (g :: rest.takeWhile isWordGlyph) :: chunks false (rest.dropWhile isWordGlyph)
    else .gap g :: chunks (isGuard (some g.char)) rest
termination_by t.length
decreasing_by
  · have := lengthDropWhile isWordGlyph rest
    simp
    omega
  · simp

theorem chunksText (guarded : Bool) (t : MappedText) :
    (chunks guarded t).flatMap Chunk.text = t := by
  fun_induction chunks guarded t with
  | case1 => rfl
  | case2 guarded g rest word ih =>
    rw [List.flatMap_cons, ih]
    exact congrArg (g :: ·) List.takeWhile_append_dropWhile
  | case3 guarded g rest gap ih =>
    rw [List.flatMap_cons, ih]
    rfl

/- Words are runs of word characters that do not touch. A word is guarded if a guard is right in front
of it. -/
def Cut (guarded : Bool) : List Chunk → Prop
  | [] => True
  | .gap g :: more => isWordGlyph g = false ∧ Cut (isGuard (some g.char)) more
  | .word flag w :: more => flag = guarded ∧ w ≠ [] ∧ (∀ g ∈ w, isWordGlyph g = true) ∧
      Stops isWordGlyph (more.flatMap Chunk.text) ∧ Cut false more

theorem chunksCut (guarded : Bool) (t : MappedText) : Cut guarded (chunks guarded t) := by
  fun_induction chunks guarded t with
  | case1 => trivial
  | case2 guarded g rest word ih =>
    refine ⟨rfl, List.cons_ne_nil _ _, ?_, ?_, ih⟩
    · exact List.forall_mem_cons.mpr ⟨word, fun h member => List.mem_takeWhile_imp member⟩
    · rw [chunksText]
      exact stopsAfter isWordGlyph rest
  | case3 guarded g rest gap ih => exact ⟨Bool.eq_false_iff.mpr gap, ih⟩

def wordRule (f : List Char → Option (List Char)) : Rule := fun before rest =>
  if isWordAt before || !isWordAt rest.head? then none
  else (f (rest.takeWhile isWord)).map fun new => ((rest.takeWhile isWord).length, new)

def Chunk.reworded (f : List Char → Option (List Char)) : Chunk → MappedText
  | gap g => [g]
  | word true w => w
  | word false w => ((f (chars w)).map (madeText (startOrigin w))).getD w

variable {before : Option Char} {rest name : List Char}

theorem wordUnguarded (word : isWordAt before = true) :
    isGuard before = false := by
  cases before with
  | none => rfl
  | some c =>
    simp only [isGuard, Bool.or_eq_false_iff, beq_eq_false_iff_ne]
    refine ⟨⟨?_, ?_⟩, ?_⟩ <;> rintro rfl <;> cases word

variable {g : Glyph} {run tail : MappedText}

theorem lastWord (words : ∀ h ∈ g :: run, isWordGlyph h = true) :
    isWordAt ((g :: run).getLast?.map Glyph.char) = true := by
  rw [List.getLast?_eq_some_getLast (List.cons_ne_nil g run)]
  exact words _ (List.getLast_mem _)

theorem replaceKept {rule : Rule} {before : Option Glyph} {ended : Bool} {rest : MappedText}
    (none : rule (before.map Glyph.char) (chars (g :: rest)) = none) :
    replaceFrom rule before ended (g :: rest) = g :: replaceFrom rule (some g) false rest := by
  rw [replaceFrom]
  simp only [findAt, none]

section
variable {f : List Char → Option (List Char)} {before : Option Glyph} {ended : Bool}

theorem replaceRun (inside : isWordAt (before.map Glyph.char) = true)
    (words : ∀ g ∈ run, isWordGlyph g = true) :
    ∃ last ended', isWordAt (last.map Glyph.char) = true ∧
      replaceFrom (wordRule f) before ended (run ++ tail) =
        run ++ replaceFrom (wordRule f) last ended' tail := by
  induction run generalizing before ended with
  | nil => exact ⟨before, ended, inside, rfl⟩
  | cons g run ih =>
    have own : isWordAt ((some g).map Glyph.char) = true := words g List.mem_cons_self
    obtain ⟨last, ended', behind, more⟩ := @ih (some g) false own
      fun h member => words h (List.mem_cons_of_mem g member)
    have none : wordRule f (before.map Glyph.char) (chars (g :: (run ++ tail))) = none := by
      rw [wordRule, inside]
      rfl
    refine ⟨last, ended', behind, ?_⟩
    rw [List.cons_append, replaceKept none, more]
    rfl

theorem wordFound (word : isWordGlyph g = true) (words : ∀ h ∈ run, isWordGlyph h = true)
    (stops : Stops isWordGlyph tail) (outside : isWordAt (before.map Glyph.char) = false) :
    wordRule f (before.map Glyph.char) (chars (g :: (run ++ tail))) =
      (f (chars (g :: run))).map fun new => (run.length + 1, new) := by
  have whole : (chars (g :: (run ++ tail))).takeWhile isWord = chars (g :: run) := by
    have glyphs : (g :: (run ++ tail)).takeWhile isWordGlyph = g :: run := by
      rw [List.takeWhile_cons_of_pos word]
      exact congrArg (g :: ·) (congrArg Prod.fst (takeRun words stops))
    rw [chars, List.takeWhile_map]
    exact congrArg chars glyphs
  have first : isWordAt (chars (g :: (run ++ tail))).head? = true := word
  rw [wordRule, outside, first, whole]
  simp [chars]

theorem replaceWords {guarded : Bool} {t : MappedText}
    (guard : isGuard (before.map Glyph.char) = guarded)
    (apart : isWordAt (before.map Glyph.char) = true → Stops isWordGlyph t) :
    replaceFrom (wordRule f) before ended t = (chunks guarded t).flatMap (Chunk.reworded f) := by
  fun_induction chunks guarded t generalizing before ended with
  | case1 => simp [replaceFrom, findAt, wordRule, chars, isWordAt]
  | case2 guarded g rest word ih =>
    obtain ⟨run, tail, parts, words, stops, first, behind⟩ := spanParts isWordGlyph rest
    rw [behind] at ih
    rw [first, behind]
    subst parts
    have outside : isWordAt (before.map Glyph.char) = false := by
      refine Bool.eq_false_iff.mpr fun inside => ?_
      have none := apart inside g rfl
      rw [none] at word
      cases word
    have found := wordFound (f := f) word words stops outside
    rw [List.flatMap_cons]
    cases new : f (chars (g :: run)) with
    | none =>
      rw [new] at found
      have own : isWordAt ((some g).map Glyph.char) = true := word
      obtain ⟨last, ended', inside, passed⟩ := replaceRun (f := f) own words
      have same : (Chunk.word guarded (g :: run)).reworded f = g :: run := by
        cases guarded <;> simp [Chunk.reworded, new]
      rw [replaceKept found, passed, ih (wordUnguarded inside) fun _ => stops, same]
      rfl
    | some text =>
      rw [new] at found
      have inside := lastWord (List.forall_mem_cons.mpr ⟨word, words⟩)
      have later := @ih _ true (wordUnguarded inside) fun _ => stops
      rw [replaceFrom]
      simp only [findAt, found, Option.map_some, List.take_left, List.drop_left, guard, later]
      cases guarded <;> simp [Chunk.reworded, new, startOriginCons]
  | case3 guarded g rest gap ih =>
    have plain : isWord g.char = false := Bool.eq_false_iff.mpr gap
    have none : wordRule f (before.map Glyph.char) (chars (g :: rest)) = none := by
      simp [wordRule, chars, isWordAt, plain]
    have outside : ¬ isWordAt ((some g).map Glyph.char) = true := gap
    rw [replaceKept none, ih rfl fun inside => absurd inside outside]
    rfl

theorem wordsReplaced (t : MappedText) :
    replaceAll (wordRule f) t = (chunks false t).flatMap (Chunk.reworded f) :=
  replaceWords rfl fun inside => by cases inside

end

theorem nameBehind (named : isName name = true) {d : Char} (digit : isDecimalDigit d = true)
    (cs : List Char) : after? name (d :: cs) = none := by
  obtain ⟨c, more, rfl, start, _⟩ := nameParts named
  have differ : (c == d) = false := by
    refine beq_false_of_ne ?_
    rintro rfl
    rw [startPlain start] at digit
    cases digit
  simp [Text.after?, differ]

/- Only the whole count can stand in front of a name, which does not start with a digit. -/
theorem countFound (named : isName name = true) {g : Nat → Option β}
    (absent : ∀ n, after? name (rest.drop n) = none → g n = none) :
    (countLengths rest).findSome? g = g (rest.takeWhile isDecimalDigit).length := by
  have short : ∀ n < (rest.takeWhile isDecimalDigit).length, g n = none := by
    intro n less
    have digit : isDecimalDigit (rest.takeWhile isDecimalDigit)[n] = true :=
      List.mem_takeWhile_imp (List.getElem_mem less)
    have parts : rest.takeWhile isDecimalDigit ++ rest.dropWhile isDecimalDigit = rest :=
      List.takeWhile_append_dropWhile
    refine absent n ?_
    rw [← parts, List.drop_append_of_le_length (Nat.le_of_lt less), List.drop_eq_getElem_cons less]
    exact nameBehind named digit _
  rw [countLengths, List.range_succ, List.reverse_append, List.reverse_singleton,
    List.singleton_append, List.findSome?_cons]
  cases longest : g (rest.takeWhile isDecimalDigit).length with
  | some found => rfl
  | none =>
    refine List.findSome?_eq_none_iff.mpr fun n member => short n ?_
    simpa using member

theorem nameWords (named : isName name = true) : ∀ c ∈ name, isWord c = true := by
  obtain ⟨_, _, _, _, all⟩ := nameParts named
  exact fun c member => nameWord (all c member)

theorem countedWords (named : isName name = true) {count : List Char}
    (digits : ∀ c ∈ count, isDecimalDigit c = true) : ∀ c ∈ count ++ name, isWord c = true := by
  intro c member
  rcases List.mem_append.mp member with counted | own
  · exact digitWord (digits c counted)
  · exact nameWords named c own

theorem nameInWord (words : ∀ c ∈ name, isWord c = true) (cs : List Char) :
    after? name (cs.takeWhile isWord) = (after? name cs).map (·.takeWhile isWord) := by
  induction name generalizing cs with
  | nil => rfl
  | cons c name ih =>
    obtain ⟨word, more⟩ := List.forall_mem_cons.mp words
    cases cs with
    | nil => rfl
    | cons d cs =>
      by_cases same : c = d
      · subst same
        rw [List.takeWhile_cons_of_pos word]
        simpa [Text.after?] using ih more cs
      · have absent : after? (c :: name) (d :: cs) = none := by simp [Text.after?, same]
        rw [absent]
        by_cases other : isWord d = true
        · rw [List.takeWhile_cons_of_pos other]
          simp [Text.after?, same]
        · rw [List.takeWhile_cons_of_neg other]
          rfl

theorem countInWord (cs : List Char) :
    (cs.takeWhile isWord).takeWhile isDecimalDigit = cs.takeWhile isDecimalDigit ∧
    (cs.takeWhile isWord).dropWhile isDecimalDigit = (cs.dropWhile isDecimalDigit).takeWhile isWord := by
  induction cs with
  | nil => exact ⟨rfl, rfl⟩
  | cons c cs ih =>
    by_cases digit : isDecimalDigit c = true
    · simp [digit, digitWord digit, ih]
    · by_cases word : isWord c = true <;> simp [digit, word]

def namedWord (name : List Char) (ending : List Char → Bool)
    (make : List Char → List Char → List Char) (word : List Char) : Option (List Char) :=
  (after? name (word.dropWhile isDecimalDigit)).bind fun tail =>
    if ending tail then some (make (word.takeWhile isDecimalDigit) tail) else none

section
variable {ending : List Char → Bool} {make : List Char → List Char → List Char}

/- A search for the name behind every possible count is a rule for whole words, if it asks for the
ending up to the end of the word. -/
theorem namedWords (named : isName name = true) {g : Nat → Option (Nat × List Char)}
    (search : ∀ n, g n = (after? name (rest.drop n)).bind fun tail =>
      if ending (tail.takeWhile isWord) then
        some (n + name.length + (tail.takeWhile isWord).length,
          make (rest.take n) (tail.takeWhile isWord))
      else none) :
    (if isEdge before rest.head? then (countLengths rest).findSome? g else none) =
      wordRule (namedWord name ending make) before rest := by
  have words : ∀ c ∈ rest.takeWhile isDecimalDigit ++ name, isWord c = true :=
    countedWords named fun c member => List.mem_takeWhile_imp member
  have longest : (countLengths rest).findSome? g = g (rest.takeWhile isDecimalDigit).length := by
    refine countFound named fun n absent => ?_
    rw [search, absent]
    rfl
  obtain ⟨counted, behind⟩ := countInWord rest
  rw [longest, search, wordRule, namedWord, counted, behind,
    nameInWord fun c member => words c (List.mem_append_right _ member)]
  obtain ⟨count, others, parts, _, _, first, later⟩ := spanParts isDecimalDigit rest
  rw [first] at words
  rw [first, later]
  subst parts
  rw [List.take_left, List.drop_left]
  cases found : after? name others with
  | none => simp
  | some tail =>
    obtain rfl := afterParts found
    have whole : (count ++ (name ++ tail)).takeWhile isWord = count ++ name ++ tail.takeWhile isWord := by
      rw [← List.append_assoc, List.takeWhile_append_of_pos words]
    have first : isWordAt (count ++ (name ++ tail)).head? = true := by
      obtain ⟨c, more, own⟩ := List.exists_cons_of_ne_nil (l := count ++ name) (by
        rintro none
        obtain ⟨_, rfl⟩ := List.append_eq_nil_iff.mp none
        cases named)
      rw [← List.append_assoc, own]
      exact words c (own ▸ List.mem_cons_self)
    have edge : isEdge before (count ++ (name ++ tail)).head? = !isWordAt before := by
      rw [isEdge, first]
      cases isWordAt before <;> rfl
    rw [edge, first, whole, Option.map_some, Option.bind_some, Option.bind_some]
    cases isWordAt before with
    | true => rfl
    | false =>
      by_cases ends : ending (tail.takeWhile isWord) = true
      · simp [ends, Nat.add_assoc]
      · simp [ends]

end

def macroWord (name body word : List Char) : Option (List Char) :=
  if word.dropWhile isDecimalDigit = name then
    some (unfolded (word.takeWhile isDecimalDigit) body)
  else none

theorem macroNamed (name body : List Char) :
    namedWord name List.isEmpty (fun count _ => unfolded count body) = macroWord name body := by
  funext word
  rw [namedWord, macroWord]
  cases found : after? name (word.dropWhile isDecimalDigit) with
  | none =>
    rw [if_neg]
    · rfl
    · intro same
      rw [same, afterWhole] at found
      cases found
  | some tail =>
    rw [afterParts found, Option.bind_some]
    cases tail <;> simp

theorem macroWords (named : isName name = true) (body : List Char) :
    macroRule name body = wordRule (macroWord name body) := by
  funext before rest
  rw [← macroNamed, macroRule]
  refine namedWords named fun n => ?_
  cases found : after? name (rest.drop n) with
  | none => rfl
  | some tail =>
    have front : rest.take (n + name.length) = rest.take n ++ name := by
      rw [List.take_add, afterParts found, List.take_left]
    have last : isWordAt ((rest.take (n + name.length)).getLast?.or before) = true := by
      obtain ⟨_, _, rfl, _, all⟩ := nameParts named
      rw [front, List.getLast?_append, List.getLast?_eq_some_getLast (List.cons_ne_nil _ _)]
      exact nameWord (all _ (List.getLast_mem _))
    have stops := wordEmpty tail
    simp only [isEdge, last, Option.bind_some, stops]
    cases next : isWordAt tail.head? with
    | true => rfl
    | false =>
      rw [next] at stops
      rw [List.isEmpty_iff.mp stops]
      rfl

def isVariantEnding (cs : List Char) : Bool :=
  !(cs.takeWhile isDecimalDigit).isEmpty &&
    (cs.dropWhile isDecimalDigit == "tog".toList || cs.dropWhile isDecimalDigit == "inc".toList)

theorem kindWord {kind cs : List Char} (words : ∀ c ∈ kind, isWord c = true) :
    (cs.takeWhile isWord == kind) = (after? kind cs).any fun rest => !isWordAt rest.head? := by
  have inside := nameInWord words cs
  cases found : after? kind cs with
  | none =>
    rw [found] at inside
    refine beq_false_of_ne fun same => ?_
    rw [same, afterWhole] at inside
    cases inside
  | some rest =>
    rw [afterParts found, List.takeWhile_append_of_pos words, Option.any_some, ← wordEmpty]
    cases rest.takeWhile isWord <;> simp

theorem suffixWord (tail : List Char) : variantSuffix? tail =
    if isVariantEnding (tail.takeWhile isWord) then some (tail.takeWhile isWord) else none := by
  have togs : ∀ c ∈ "tog".toList, isWord c = true := nameWords rfl
  have incs : ∀ c ∈ "inc".toList, isWord c = true := nameWords rfl
  obtain ⟨counted, behind⟩ := countInWord tail
  obtain ⟨count, kind, parts, digits, _, first, later⟩ := spanParts isDecimalDigit tail
  have run : runOf isDecimalDigit tail = (count, kind) := by rw [runOf, first, later]
  rw [isVariantEnding, counted, behind, first, later, kindWord togs, kindWord incs, variantSuffix?, run]
  subst parts
  dsimp only
  -- where one of the two endings is there, the word must end behind it
  have one : ∀ e rest, e.length = 3 → (∀ c ∈ e, isWord c = true) → kind = e ++ rest →
      (if count.isEmpty || isWordAt rest.head? then none
        else some ((count ++ kind).take (count.length + 3))) =
      if !count.isEmpty && !isWordAt rest.head? then some ((count ++ kind).takeWhile isWord)
        else none := by
    intro e rest three words same
    have all : ∀ c ∈ count ++ e, isWord c = true := fun c member =>
      (List.mem_append.mp member).elim (fun own => digitWord (digits c own)) (words c)
    have long : count.length + 3 = (count ++ e).length := by rw [List.length_append, three]
    rw [same, ← List.append_assoc, List.takeWhile_append_of_pos all, long, List.take_left]
    have stops := wordEmpty rest
    cases count.isEmpty
    · cases ends : isWordAt rest.head?
      · rw [ends] at stops
        rw [List.isEmpty_iff.mp stops, List.append_nil]
        rfl
      · rfl
    · rfl
  cases tog : after? "tog".toList kind with
  | some rest =>
    have other : after? "inc".toList kind = none := by
      rw [afterParts tog]
      rfl
    rw [other, Option.any_some, Option.any_none, Bool.or_false]
    exact one _ rest rfl togs (afterParts tog)
  | none =>
    cases inc : after? "inc".toList kind with
    | some rest =>
      rw [Option.any_some, Option.any_none, Bool.false_or]
      exact one _ rest rfl incs (afterParts inc)
    | none => simp

theorem variantWords (named : isName name = true) (body : List Char) :
    variantRule name body =
      wordRule (namedWord name isVariantEnding fun count ending => count ++ body ++ ending) := by
  funext before rest
  rw [variantRule]
  refine namedWords named fun n => ?_
  cases found : after? name (rest.drop n) with
  | none => rfl
  | some tail =>
    rw [Option.bind_some, Option.bind_some, suffixWord]
    by_cases ends : isVariantEnding (tail.takeWhile isWord) = true <;> simp [ends]

theorem macroUnfoldsWords {name body : List Char} (named : isName name = true)
    (plain : isName body = false) (t : MappedText) :
    (chunks false t).flatMap Chunk.text = t ∧ Cut false (chunks false t) ∧
    substitute name body t = (chunks false t).flatMap (Chunk.reworded (macroWord name body)) ∧
    ((∀ w, .word false w ∈ chunks false t → (chars w).dropWhile isDecimalDigit ≠ name) →
      substitute name body t = t) := by
  have unfolds : substitute name body t =
      (chunks false t).flatMap (Chunk.reworded (macroWord name body)) := by
    rw [substitute, plain, macroWords named, wordsReplaced]
    rfl
  refine ⟨chunksText false t, chunksCut false t, unfolds, fun absent => ?_⟩
  have same : ∀ chunk ∈ chunks false t, chunk.reworded (macroWord name body) = chunk.text := by
    intro chunk member
    cases chunk with
    | gap g => rfl
    | word guarded w =>
      cases guarded with
      | true => rfl
      | false =>
        have other : macroWord name body (chars w) = none := if_neg (absent w member)
        simp [Chunk.reworded, Chunk.text, other]
  rw [unfolds, List.flatMap_congr same, chunksText]

def countedText : MappedText := ofSource "3a2,xa2.a2 a2,a2é".toList

theorem macroUnfoldsCounted : isName "a2".toList = true ∧ isName "sc,dc".toList = false ∧
    chars (substitute "a2".toList "sc,dc".toList countedText) =
      "(3(sc,dc)),xa2.a2 (sc,dc),a2é".toList ∧
    substitute "a2".toList "sc,dc".toList countedText =
      (chunks false countedText).flatMap (Chunk.reworded (macroWord "a2".toList "sc,dc".toList)) ∧
    substitute "b".toList "sc,dc".toList countedText = countedText := by
  have named : isName "a2".toList = true := by decide
  have other : isName "b".toList = true := by decide
  have plain : isName "sc,dc".toList = false := by decide
  refine ⟨named, plain, by decide +kernel, (macroUnfoldsWords named plain _).2.2.1,
    (macroUnfoldsWords other plain _).2.2.2 fun w member => ?_⟩
  have absent : (chunks false countedText).all
      (fun chunk => (chars chunk.text).dropWhile isDecimalDigit != "b".toList) = true := by
    decide +kernel
  exact bne_iff_ne.mp (List.all_eq_true.mp absent _ member)

end Source
end Crochet
