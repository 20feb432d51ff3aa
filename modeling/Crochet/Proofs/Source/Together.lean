import Crochet.Proofs.Provenance.Prepared
import Crochet.Proofs.Source.Uses

/-! Uses of a name in what follows the macros. A key of a colour is behind a guard, and a step moves the
name of its variable from behind a blank to behind a sign, so these passes bring in no use. Dropping
blanks may put a use together. -/
namespace Crochet.Source
open MappedText Text
open Token (Stops)

variable {t out w b : MappedText} {offset : Nat} {colors : List (Nat × String)} {c : Char}
  {g : Glyph} {fresh : Bool}

section
variable {name : List Char}

theorem endedStops (ended : Ended t) : Stops isWordGlyph t := by
  intro g first
  have ends := ended g first
  rw [isWordGlyph]
  generalize g.char = c at ends
  rcases Bool.or_eq_true_iff.mp ends with separator | closing
  · rcases Bool.or_eq_true_iff.mp separator with comma | line
    · rw [beq_iff_eq.mp comma]
      rfl
    · rw [beq_iff_eq.mp line]
      rfl
  · unfold isClosing Bracket.closed? at closing
    split_ifs at closing with square round curly
    · rw [square]
      rfl
    · rw [round]
      rfl
    · rw [curly]
      rfl
    · cases closing

theorem switchedStops (switched : Switched offset t out colors) (ended : Ended t) :
    Stops isWordGlyph out := by
  have stops := endedStops ended
  cases switched with
  | nil => exact stops
  | keep plain more =>
    intro g first
    cases first
    exact stops _ rfl
  | @switch _ _ _ mark _ _ _ _ marks =>
    obtain ⟨g, rest, rfl, first, _⟩ := List.map_eq_cons_iff.mp marks
    have plain := stops g rfl
    rw [isWordGlyph, first] at plain
    cases plain

theorem switchedUses (switched : Switched offset t out colors) (p : MappedText) (guarded : Bool)
    (used : UsedIn name guarded (p ++ out)) : UsedIn name guarded (p ++ t) := by
  induction switched generalizing p guarded with
  | nil => exact used
  | @keep _ g t out _ plain more ih =>
    have kept := ih (p ++ [g]) guarded (by simpa using used)
    simpa using kept
  | @switch offset _ _ mark value t out _ marks _ line ended more ih =>
    have spelt : mark.map Glyph.char = "COLOR".toList ++ [':'] := marks
    obtain ⟨m, c, rfl, _, last⟩ := List.map_eq_append_iff.mp spelt
    obtain ⟨colon, none, rfl, isColon, empty⟩ := List.map_eq_cons_iff.mp last
    obtain rfl := List.map_eq_nil_iff.mp empty
    have gap : isWordGlyph colon = false := by rw [isWordGlyph, isColon]; rfl
    have guard : isGuard (some colon.char) = true := by rw [isColon]; rfl
    have key : ∀ g ∈ madeText (startOrigin value) (Nat.toDigits 10 offset), isWordGlyph g = true :=
      List.forall_mem_map.mpr fun d member => nameWord (digitNameChar
        (Nat.isDigit_of_mem_toDigits (by decide) (by decide) member))
    have digits : madeText (startOrigin value) (Nat.toDigits 10 offset) ≠ [] := fun none =>
      Nat.toDigits_ne_nil (List.map_eq_nil_iff.mp none)
    have split (value t : MappedText) :
        p ++ (m ++ [colon] ++ value ++ t) = (p ++ m) ++ colon :: (value ++ t) := by simp
    rw [split, usedGap gap, guard] at used ⊢
    refine used.imp_right fun behind => ?_
    rcases (usedAppend (switchedStops more ended)).mp behind with keyed | later
    · cases ((usedWord digits key).mp keyed).1
    · exact (usedAppend (endedStops ended)).mpr (.inr (ih [] false later))

theorem blankPlain (blank : isBlank c = true) :
    isWord c = false ∧ isGuard (some c) = false := by
  constructor
  · unfold isWord
    split
    · refine Bool.eq_false_iff.mpr fun named => ?_
      obtain ⟨low, high⟩ := nameCharRange named
      have outside : inRanges [(48, 122)] c = false := inRangesApart (by decide +kernel) blank
      simp [inRanges, low, high] at outside
    · exact inRangesApart (by decide +kernel) blank
  · simp only [isGuard, Bool.or_eq_false_iff, beq_eq_false_iff_ne]
    refine ⟨⟨?_, ?_⟩, ?_⟩ <;> rintro rfl <;> cases blank

theorem movedUses {guarded : Bool} {p x word tail : MappedText} {s b : Glyph}
    (front : isWordAt (p.getLast?.map Glyph.char) = false)
    (signs : isWordGlyph s = false ∧ isGuard (some s.char) = false)
    (blanks : isWordGlyph b = false ∧ isGuard (some b.char) = false) (same : chars word = chars w)
    (later : UsedIn name false (w ++ out) → UsedIn name false (w ++ tail))
    (used : UsedIn name guarded (p ++ s :: ([] ++ s :: (word ++ out)))) :
    UsedIn name guarded (p ++ (x ++ b :: (w ++ tail))) := by
  rw [usedGap signs.1, signs.2, usedGap signs.1, signs.2] at used
  rw [← List.append_assoc, usedGap blanks.1, blanks.2]
  rcases used with before | none | behind
  · refine .inl ?_
    rcases List.eq_nil_or_concat p with rfl | ⟨q, h, rfl⟩
    · exact absurd before notUsed
    rw [List.concat_eq_append] at before front ⊢
    rw [List.getLast?_concat] at front
    have plain : isWordGlyph h = false := front
    rw [usedGap plain] at before
    rw [List.append_assoc, List.singleton_append, usedGap plain]
    exact .inl (before.resolve_right notUsed)
  · exact absurd none notUsed
  · have spelt : chars (word ++ out) = chars (w ++ out) := by
      rw [charsAppend, charsAppend, same]
    exact .inr (later (usesIff.mp (spelt ▸ usesIff.mpr behind)))

/- The name of a variable that is stepped stands behind a blank before, behind a sign after. -/
theorem stepsUses {before : Option Glyph} {ended : Bool} (p : MappedText) (guarded : Bool)
    (behind : before = p.getLast?)
    (used : UsedIn name guarded (p ++ replaceFrom stepRule before ended t)) :
    UsedIn name guarded (p ++ t) := by
  fun_induction replaceFrom stepRule before ended t generalizing p guarded with
  | case1 => exact used
  | case2 => exact used
  | case3 before ended count new hit =>
    obtain ⟨_, _, _, _, _, none, _⟩ := Color.stepFound (Color.findAtFound hit)
    cases none
  | case4 before ended g rest none ih =>
    have kept := ih (p ++ [g]) guarded (by simp) (by simpa using used)
    simpa using kept
  | case5 before ended g rest kept new hit ih =>
    obtain ⟨_, _, _, _, _, _, none, _⟩ := Color.stepFound (Color.findAtFound hit)
    omega
  | case6 before ended g rest kept k new hit old ih =>
    obtain ⟨c, lead, word, tail, sign, whole, size, rfl, first, plus, free, ⟨front, blank, rfl, spaced⟩,
      some⟩ := Color.stepFound (Color.findAtFound hit)
    have parts : g :: rest = old ++ rest.drop k := by simp [old]
    rw [parts]
    split at used
    · have kept := ih (p ++ old) guarded (List.getLast?_append_of_ne_nil p (List.cons_ne_nil _ _)).symm (by simpa using used)
      simpa using kept
    obtain ⟨spelt, _⟩ := Color.stepParts whole size
    have split : old.map Glyph.char = (c :: front) ++ ([blank] ++ word) := by
      rw [List.cons_append, ← List.append_assoc]
      exact spelt
    obtain ⟨x, others, sorted, _, split⟩ := List.map_eq_append_iff.mp split
    obtain ⟨b, w, rfl, blanked, rfl⟩ := List.map_eq_cons_iff.mp split
    have filled : w ≠ [] := by
      rintro rfl
      exact some rfl
    have last : old.getLast? = w.getLast? := by
      rw [sorted]
      exact (List.getLast?_append_of_ne_nil x (List.cons_ne_nil _ _)).trans (List.getLast?_append_of_ne_nil [b] filled)
    have signs : isWord sign = false ∧ isGuard (.some sign) = false := by
      rcases plus with rfl | rfl <;> exact ⟨rfl, rfl⟩
    have blanks : isWordGlyph b = false ∧ isGuard (.some b.char) = false := by
      rw [isWordGlyph, blanked]
      exact blankPlain spaced
    rw [sorted, List.append_assoc, List.cons_append]
    rw [behind] at free
    exact movedUses free (s := made g.origin sign) signs blanks (charsMade g.origin _)
      (ih w false last) used

end

def unspaced (cs : List Char) : List Char := cs.filter (!isFiller ·)

/- A use with blanks between its characters. -/
def PutTogether (name cs : List Char) : Prop :=
  ∃ before word after, cs = before ++ (word ++ after) ∧ word.any isFiller = true ∧
    isWordAt word.head? = true ∧ isWordAt word.getLast? = true ∧
    IsUse name (unspaced before) (unspaced word) (unspaced after)

theorem fillerPlain (filler : isFiller c = true) :
    isWord c = false ∧ isGuard (some c) = false := by
  simp only [isFiller, Bool.or_eq_true, beq_iff_eq] at filler
  rcases filler with (rfl | rfl) | rfl <;> exact ⟨rfl, rfl⟩

theorem wordShown (word : isWordGlyph g = true) :
    (g.char == '\n') = false ∧ isFiller g.char = false := by
  constructor
  · refine beq_false_of_ne fun newline => ?_
    rw [isWordGlyph, newline] at word
    cases word
  · refine Bool.eq_false_iff.mpr fun filler => ?_
    rw [isWordGlyph, (fillerPlain filler).1] at word
    cases word

theorem blankPlace {a : MappedText} (kept : dropBlanks fresh t = a ++ g :: b) :
    ∃ x y, t = x ++ g :: y ∧ dropBlanks fresh x = a ∧ dropBlanks (g.char == '\n') y = b := by
  fun_induction dropBlanks fresh t generalizing a with
  | case1 => simp at kept
  | case2 fresh h rest filler ih =>
    obtain ⟨x, y, rfl, front, back⟩ := ih kept
    exact ⟨h :: x, y, rfl, by rw [dropBlanks, if_pos filler, front], back⟩
  | case3 h rest filler newline ih =>
    obtain ⟨x, y, rfl, front, back⟩ := ih kept
    exact ⟨h :: x, y, rfl, by rw [dropBlanks, if_neg filler, if_pos newline, if_pos rfl, front], back⟩
  | case4 fresh h rest filler newline going ih =>
    rcases List.cons_eq_append_iff.mp kept with ⟨rfl, same⟩ | ⟨a, rfl, more⟩
    · cases same
      exact ⟨[], rest, rfl, rfl, by rw [newline]; rfl⟩
    · obtain ⟨x, y, rfl, front, back⟩ := ih more
      exact ⟨h :: x, y, rfl, by rw [dropBlanks, if_neg filler, if_pos newline, if_neg going, front], back⟩
  | case5 fresh h rest filler other ih =>
    rcases List.cons_eq_append_iff.mp kept with ⟨rfl, same⟩ | ⟨a, rfl, more⟩
    · cases same
      exact ⟨[], rest, rfl, rfl, by rw [beq_false_of_ne other]⟩
    · obtain ⟨x, y, rfl, front, back⟩ := ih more
      exact ⟨h :: x, y, rfl, by rw [dropBlanks, if_neg filler, if_neg other, front], back⟩

theorem noneShown (none : unspaced (chars t) = []) :
    dropBlanks fresh t = [] := by
  fun_induction dropBlanks fresh t with
  | case1 => rfl
  | case2 fresh h rest filler ih => exact ih (by simpa [unspaced, chars, filler] using none)
  | case3 h rest filler | case4 fresh h rest filler | case5 fresh h rest filler =>
    simp [unspaced, chars, filler] at none

theorem lineShown (none : dropBlanks false t = []) : unspaced (chars t) = [] := by
  induction t with
  | nil => rfl
  | cons h rest ih =>
    rw [dropBlanks] at none
    split at none
    · rename_i filler
      simpa [unspaced, chars, filler] using ih none
    split at none
    · cases none
    · cases none

theorem lastShown (last : (unspaced (chars t)).getLast? = some c) (other : c ≠ '\n') :
    (chars (dropBlanks fresh t)).getLast? = some c := by
  fun_induction dropBlanks fresh t with
  | case1 => exact last
  | case2 fresh h rest filler ih => exact ih (by simpa [unspaced, chars, filler] using last)
  | case3 h rest filler newline ih =>
    have parts : unspaced (chars (h :: rest)) = h.char :: unspaced (chars rest) := by
      simp [unspaced, chars, filler]
    rw [parts, lastCons] at last
    rcases last with ⟨_, same⟩ | later
    · exact absurd (same.symm.trans newline) other
    · exact ih later
  | case4 fresh h rest filler | case5 fresh h rest filler =>
    rename_i ih
    have parts : unspaced (chars (h :: rest)) = h.char :: unspaced (chars rest) := by
      simp [unspaced, chars, filler]
    rw [parts, lastCons] at last
    refine lastCons.mpr (last.imp (fun alone => ⟨?_, alone.2⟩) ih)
    rw [noneShown alone.1]
    rfl

theorem firstShown (first : (unspaced (chars t)).head? = some c) (other : c ≠ '\n') :
    (chars (dropBlanks fresh t)).head? = some c := by
  fun_induction dropBlanks fresh t with
  | case1 => exact first
  | case2 fresh h rest filler ih => exact ih (by simpa [unspaced, chars, filler] using first)
  | case3 h rest filler newline ih =>
    have same : h.char = c := by simpa [unspaced, chars, filler] using first
    exact absurd (same.symm.trans newline) other
  | case4 fresh h rest filler | case5 fresh h rest filler =>
    simpa [unspaced, chars, filler] using first

theorem edgeShown (front : isWordAt (chars (dropBlanks fresh t)).getLast? = false)
    (unguarded : isGuard (chars (dropBlanks fresh t)).getLast? = false) :
    (isWordAt (unspaced (chars t)).getLast? = false ∧ isGuard (unspaced (chars t)).getLast? = false) ∧
    isWordAt (chars t).getLast? = false ∧ isGuard (chars t).getLast? = false := by
  have shown : isWordAt (unspaced (chars t)).getLast? = false ∧
      isGuard (unspaced (chars t)).getLast? = false := by
    cases last : (unspaced (chars t)).getLast? with
    | none => exact ⟨rfl, rfl⟩
    | some c =>
      by_cases newline : c = '\n'
      · subst newline
        exact ⟨rfl, rfl⟩
      · rw [lastShown last newline] at front unguarded
        exact ⟨front, unguarded⟩
  refine ⟨shown, ?_⟩
  rcases List.eq_nil_or_concat t with rfl | ⟨s, g, rfl⟩
  · exact ⟨rfl, rfl⟩
  rw [List.concat_eq_append, charsAppend] at shown ⊢
  rw [show chars [g] = [g.char] from rfl, unspaced, List.filter_append] at shown
  rw [show chars [g] = [g.char] from rfl, List.getLast?_concat]
  by_cases filler : isFiller g.char = true
  · exact fillerPlain filler
  · rw [List.filter_cons_of_pos (by simpa using filler), List.filter_nil, List.getLast?_concat] at shown
    exact shown

theorem stopsShown (stops : Stops isWord (chars (dropBlanks fresh t))) :
    Stops isWord (unspaced (chars t)) ∧ Stops isWord (chars t) := by
  have shown : Stops isWord (unspaced (chars t)) := by
    intro c first
    by_cases newline : c = '\n'
    · rw [newline]
      rfl
    · exact stops c (firstShown first newline)
  refine ⟨shown, ?_⟩
  cases t with
  | nil => exact shown
  | cons g t =>
    intro c first
    cases first
    by_cases filler : isFiller g.char = true
    · exact (fillerPlain filler).1
    · exact shown g.char (by simp [unspaced, chars, filler])

theorem blankRun {y : MappedText} (words : ∀ g ∈ w, isWordGlyph g = true)
    (kept : dropBlanks false y = w ++ b) :
    ∃ v tail, y = v ++ tail ∧ dropBlanks false tail = b ∧ unspaced (chars v) = chars w ∧
      (∀ c ∈ (chars v).getLast?, isWord c = true) := by
  induction w generalizing y with
  | nil => exact ⟨[], y, rfl, kept, rfl, by simp [chars]⟩
  | cons g w ih =>
    obtain ⟨word, more⟩ := List.forall_mem_cons.mp words
    obtain ⟨x, z, rfl, front, back⟩ := blankPlace (a := []) kept
    obtain ⟨line, shown⟩ := wordShown word
    rw [line] at back
    obtain ⟨v, tail, rfl, after, same, last⟩ := ih more back
    refine ⟨x ++ g :: v, tail, by simp, after, ?_, ?_⟩
    · rw [charsAppend, unspaced, List.filter_append]
      have none : (chars x).filter (!isFiller ·) = [] := lineShown front
      rw [none, List.nil_append]
      simpa [chars, shown, unspaced] using same
    · have some : chars (g :: v) ≠ [] := List.cons_ne_nil _ _
      rw [charsAppend, List.getLast?_append_of_ne_nil _ some]
      intro c found
      rcases lastCons.mp found with ⟨_, rfl⟩ | later
      · exact word
      · exact last c later

theorem blanksUses {name : List Char} (used : Uses name (chars (dropBlanks fresh t))) :
    Uses name (chars t) ∨ PutTogether name (chars t) := by
  obtain ⟨before, word, after, parts, use⟩ := used
  obtain ⟨a, rest, split, rfl, later⟩ := List.map_eq_append_iff.mp parts
  obtain ⟨w, b, rfl, rfl, rfl⟩ := List.map_eq_append_iff.mp later
  obtain ⟨g, w, rfl⟩ := List.exists_cons_of_ne_nil fun none => use.some (congrArg chars none)
  obtain ⟨word, words⟩ : isWordGlyph g = true ∧ ∀ h ∈ w, isWordGlyph h = true :=
    List.forall_mem_cons.mp (List.forall_mem_map.mp use.whole)
  obtain ⟨line, shown⟩ := wordShown word
  obtain ⟨x, y, rfl, rfl, back⟩ := blankPlace split
  rw [line] at back
  obtain ⟨v, tail, rfl, rfl, same, last⟩ := blankRun words back
  obtain ⟨near, here⟩ := edgeShown use.front use.unguarded
  obtain ⟨far, stops⟩ := stopsShown use.back
  have spelt : unspaced (chars (g :: v)) = chars (g :: w) := by
    simpa [unspaced, chars, shown] using same
  have parts : chars (x ++ g :: (v ++ tail)) = chars x ++ (chars (g :: v) ++ chars tail) := by
    simp [chars]
  cases spaced : (chars (g :: v)).any isFiller with
  | true =>
    refine .inr ⟨chars x, chars (g :: v), chars tail, parts, spaced, word, ?_, ?_⟩
    · obtain ⟨c, found⟩ : ∃ c, (chars (g :: v)).getLast? = some c :=
        ⟨_, List.getLast?_eq_some_getLast (List.cons_ne_nil _ _)⟩
      rw [found]
      rcases lastCons.mp found with ⟨_, rfl⟩ | later
      · exact word
      · exact last c later
    · rw [spelt]
      exact { use with front := near.1, unguarded := near.2, back := far }
  | false =>
    have whole : unspaced (chars (g :: v)) = chars (g :: v) := by
      refine List.filter_eq_self.mpr fun c member => ?_
      simpa using List.any_eq_false.mp spaced c member
    refine .inl ⟨chars x, chars (g :: v), chars tail, parts, ?_⟩
    rw [← whole, spelt]
    exact { use with front := here.1, unguarded := here.2, back := stops }

theorem newlineUses {name : List Char} (used : Uses name (chars (dropLastNewline t))) :
    Uses name (chars t) := by
  rcases List.eq_nil_or_concat t with rfl | ⟨body, g, rfl⟩
  · exact used
  rw [List.concat_eq_append] at used ⊢
  unfold dropLastNewline at used
  rw [List.getLast?_concat] at used
  dsimp only at used
  split at used
  · rename_i newline
    rw [List.dropLast_concat] at used
    obtain ⟨before, word, after, parts, use⟩ := used
    refine ⟨before, word, after ++ ['\n'], ?_, { use with back := ?_ }⟩
    · rw [charsAppend, parts]
      simp [chars, newline]
    · intro c first
      cases after with
      | nil =>
        cases first
        rfl
      | cons d after => exact use.back c first
  · exact used

end Crochet.Source
