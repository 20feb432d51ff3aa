import Crochet.Proofs.Color.Edited
import Crochet.Source.Prepared

/-! The passes that edit a text with switches in it: words for steps, blanks, variables with their
blocks, and indices. Each is an edit from left to right. Dropping blanks or blocks may put a mark
together, and an index may begin with a key; these are the cases that have to be ruled out. -/
namespace Crochet.Color
open MappedText Text Source

theorem signForeign : '+' ∉ colorMark ∧ '-' ∉ colorMark := by decide

variable {c : Char} {w back out rest new u : List Char} {n : Nat} {t : MappedText}

theorem digitForeign (digit : c.isDigit = true) : c ∉ colorMark := by
  have all : colorMark.all (fun c => !c.isDigit) = true := rfl
  intro member
  have plain := List.all_eq_true.mp all c member
  rw [digit] at plain
  cases plain

theorem keptAll {t : List Char} (more : Edited id (w.reverse ++ back) t out) :
    Edited id back (w ++ t) (w ++ out) := by
  induction w generalizing back with
  | nil => exact more
  | cons c w ih => exact .keep rfl id (ih (by simpa using more))

theorem stepWordFound {word sign : List Char} (found : stepWord? word sign rest = some (n, new)) :
    ∃ blanks blank name tail, rest = word ++ (blanks ++ [blank] ++ (name ++ tail)) ∧
      n = (word ++ (blanks ++ [blank])).length + name.length ∧ new = sign ++ name ∧
      isBlank blank = true ∧ name ≠ [] := by
  unfold stepWord? at found
  split at found
  · cases found
  rename_i tail after
  simp only [runOf] at found
  split at found
  · cases found
  rename_i c cs behind
  obtain ⟨fits, same⟩ := Option.ite_none_left_eq_some.mp found
  cases same
  obtain ⟨spaced, _⟩ : ¬ tail.takeWhile isBlank = [] ∧ isNameStart c = true := by
    simpa using fits
  rcases List.eq_nil_or_concat (tail.takeWhile isBlank) with none | ⟨blanks, blank, last⟩
  · exact absurd none spaced
  rw [List.concat_eq_append] at last
  have parts : tail = blanks ++ [blank] ++ (c :: cs) := by
    rw [← last, ← behind, List.takeWhile_append_dropWhile]
  refine ⟨blanks, blank, c :: cs.takeWhile isWord, cs.dropWhile isWord, ?_, ?_, rfl, ?_,
    List.cons_ne_nil _ _⟩
  · rw [afterParts after, List.cons_append, List.takeWhile_append_dropWhile, parts]
  · rw [last, ← List.length_append]
  · exact List.mem_takeWhile_imp (l := tail) (last ▸ by simp)

theorem stepFound {before : Option Char} (found : stepRule before rest = some (n, new)) :
    ∃ c lead name tail sign, rest = c :: (lead ++ (name ++ tail)) ∧ n = lead.length + 1 + name.length ∧
      new = sign :: sign :: name ∧ (c = 'n' ∨ c = 'p') ∧ (sign = '+' ∨ sign = '-') ∧
      isWordAt before = false ∧ (∃ front blank, lead = front ++ [blank] ∧ isBlank blank = true) ∧
      name ≠ [] := by
  unfold stepRule at found
  split at found
  · rename_i edge
    have free : isWordAt rest.head? = true → isWordAt before = false := by
      intro word
      rw [isEdge, word] at edge
      simpa using edge
    rcases Option.or_eq_some_iff.mp found with next | ⟨_, prev⟩
    · obtain ⟨blanks, blank, name, tail, rfl, rfl, rfl, spaced, own⟩ := stepWordFound next
      exact ⟨'n', "ext".toList ++ blanks ++ [blank], name, tail, '+', by simp, by simp, rfl, .inl rfl,
        .inl rfl, free rfl, ⟨_, blank, rfl, spaced⟩, own⟩
    · obtain ⟨blanks, blank, name, tail, rfl, rfl, rfl, spaced, own⟩ := stepWordFound prev
      exact ⟨'p', "rev".toList ++ blanks ++ [blank], name, tail, '-', by simp, by simp, rfl, .inr rfl,
        .inr rfl, free rfl, ⟨_, blank, rfl, spaced⟩, own⟩
  · cases found

theorem findAtFound {rule : Rule} {before : Option Glyph} {ended : Bool} {found : Nat × List Char}
    (hit : findAt rule before ended t = some found) :
    rule (before.map Glyph.char) (chars t) = some found := by
  unfold findAt at hit
  split at hit
  · rename_i same
    split at hit
    · cases hit
    · rw [same, hit]
  · exact hit

theorem stepParts {g : Glyph} {rest : MappedText} {lead name tail : List Char} {k : Nat}
    (whole : chars (g :: rest) = c :: (lead ++ (name ++ tail)))
    (size : k + 1 = lead.length + 1 + name.length) :
    chars (g :: rest.take k) = c :: lead ++ name ∧ chars (rest.drop k) = tail := by
  have parts : chars (g :: rest) = chars (g :: rest.take k) ++ chars (rest.drop k) := by
    rw [← charsAppend]
    simp
  have length : (chars (g :: rest.take k)).length = (c :: lead ++ name).length := by
    have long := congrArg List.length whole
    simp only [chars, List.length_map, List.length_cons, List.length_append, List.length_take] at long ⊢
    omega
  rw [← List.append_assoc, ← List.cons_append] at whole
  exact List.append_inj (parts.symm.trans whole) length

theorem stepsEdited (before : Option Glyph) (ended : Bool) (t : MappedText) (back : List Char) :
    Edited id back (chars t) (chars (replaceFrom stepRule before ended t)) := by
  fun_induction replaceFrom stepRule before ended t generalizing back with
  | case1 => exact .done
  | case2 => exact .done
  | case3 before ended count new hit =>
    obtain ⟨_, _, _, _, _, none, _⟩ := stepFound (findAtFound hit)
    cases none
  | case4 before ended g rest none ih => exact .keep rfl id (ih _)
  | case5 before ended g rest kept new hit ih =>
    obtain ⟨_, _, _, _, _, _, none, _⟩ := stepFound (findAtFound hit)
    omega
  | case6 before ended g rest kept k new hit old ih =>
    obtain ⟨c, lead, name, tail, sign, whole, size, rfl, first, plus, _⟩ := stepFound (findAtFound hit)
    have parts : chars (g :: rest) = chars old ++ chars (rest.drop k) := by
      rw [← charsAppend]
      simp [old]
    split
    · rw [parts, charsAppend]
      exact keptAll (ih _)
    · obtain ⟨_, behind⟩ := stepParts whole size
      rw [← List.append_assoc, ← List.cons_append] at whole
      have apart : Apart back c := .inr (by rcases first with rfl | rfl <;> exact ⟨rfl, rfl⟩)
      have foreign : ∀ e ∈ [sign, sign], e ∉ colorMark := by
        rcases plus with rfl | rfl
        · simp [signForeign.1]
        · simp [signForeign.2]
      rw [whole, charsAppend, charsMade, ← behind, List.cons_append, List.append_assoc]
      exact .put lead [sign] apart foreign (keptAll (ih _))

def stays (flags : List (Char × Bool)) : List Char := (flags.filter Prod.snd).map Prod.fst

/- Whether each mark that is left once the others have gone was there before. -/
def unbroken : List (Char × Bool) → Bool
  | [] => true
  | f :: rest =>
    (!f.2 || !colorMark.isPrefixOf (stays (f :: rest)) ||
      colorMark.isPrefixOf ((f :: rest).map Prod.fst)) && unbroken rest

def blankFlags (cs : List Char) : List (Char × Bool) := cs.map fun c => (c, !isFiller c)

def blockFlags (inside : Bool) : List Char → List (Char × Bool)
  | [] => []
  | c :: cs => (c, !inside && c != '$') :: blockFlags (if c = '$' then !inside else inside) cs

theorem unbrokenHere {rest : List (Char × Bool)} (whole : unbroken ((c, true) :: rest) = true)
    (marked : colorMark <+: stays ((c, true) :: rest)) : colorMark <+: c :: rest.map Prod.fst := by
  have here := (Bool.and_eq_true_iff.mp whole).1
  rw [List.isPrefixOf_iff_prefix.mpr marked] at here
  exact List.isPrefixOf_iff_prefix.mp (by simpa using here)

theorem unbrokenRest {a b : List (Char × Bool)} (whole : unbroken (a ++ b) = true) : unbroken b = true := by
  induction a with
  | nil => exact whole
  | cons f a ih => exact ih (Bool.and_eq_true_iff.mp whole).2

theorem blankStays (cs : List Char) : stays (blankFlags cs) = cs.filter (!isFiller ·) := by
  induction cs with
  | nil => rfl
  | cons c cs ih =>
    cases filler : isFiller c <;> simp_all [stays, blankFlags]

theorem blankChars (cs : List Char) : (blankFlags cs).map Prod.fst = cs := by
  simp [blankFlags, Function.comp_def]

theorem unmarked (behind : ∀ e ∈ back.head?, e ≠ ':') :
    ¬ colorMark.reverse <+: back := by
  have reversed : colorMark.reverse = ':' :: "ROLOC".toList := rfl
  rw [reversed]
  cases back with
  | nil => simp
  | cons e back =>
    intro marked
    exact behind e rfl (List.cons_prefix_cons.mp marked).1.symm

theorem apartBehind (first : Char) (behind : ∀ e ∈ back.head?, e ∉ colorMark ∧ e.isDigit = false) :
    Apart back first := by
  refine .inl ⟨unmarked fun e member => ?_, fun e member => (behind e member).2⟩
  rintro rfl
  exact (behind _ member).1 (by decide)

theorem blanksEdited {fresh : Bool} (start : fresh = true → ∀ c ∈ back.head?, c = '\n')
    (whole : unbroken (blankFlags (chars t)) = true) :
    Edited (List.filter (!isFiller ·)) back (chars t) (chars (dropBlanks fresh t)) := by
  induction t generalizing fresh back with
  | nil => exact .done
  | cons g rest ih =>
    have later : unbroken (blankFlags (chars rest)) = true := unbrokenRest (a := [_]) whole
    unfold dropBlanks
    split
    · rename_i filler
      have plain : g.char.isDigit = false ∧ Repeat.isEnding g.char = false ∧ g.char ∉ colorMark := by
        simp only [isFiller, Bool.or_eq_true, beq_iff_eq] at filler
        rcases filler with (space | tab) | return'
        all_goals simp [*]; decide
      refine .drop [] (.inr ⟨plain.1, plain.2.1⟩) plain.2.2 (.inl ?_) (ih start later)
      rw [List.nil_append, List.filter_cons_of_neg (by simp [filler])]
    · rename_i visible
      have kept : ∀ {out : List Char}, Edited (List.filter (!isFiller ·)) (g.char :: back) (chars rest) out →
          Edited (List.filter (!isFiller ·)) back (chars (g :: rest)) (g.char :: out) := by
        intro out more
        change Edited _ back (g.char :: chars rest) (g.char :: out)
        refine .keep (List.filter_cons_of_pos (by simp [visible])) (fun marked => ?_) more
        have flags : blankFlags (g.char :: chars rest) = (g.char, true) :: blankFlags (chars rest) := by
          simp [blankFlags, visible]
        rw [← blankStays, flags] at marked
        have was := unbrokenHere (flags ▸ whole) marked
        rwa [blankChars] at was
      split
      · rename_i newline
        split
        · rename_i none
          have behind : ∀ e ∈ back.head?, e ∉ colorMark ∧ e.isDigit = false := by
            intro e member
            cases start none e member
            exact ⟨by decide, rfl⟩
          have foreign : g.char ∉ colorMark := by
            rw [newline]
            decide
          exact .drop [] (apartBehind _ behind) foreign (.inr fun e member => (behind e member).1)
            (ih (fun _ => start none) later)
        · exact kept (ih (by simp [newline]) later)
      · exact kept (ih (by simp) later)

theorem blockPlain (plain : ∀ c ∈ w, c ≠ '$') (t : List Char) :
    blockFlags false (w ++ t) = w.map (·, true) ++ blockFlags false t := by
  induction w with
  | nil => rfl
  | cons c w ih =>
    obtain ⟨first, rest⟩ := List.forall_mem_cons.mp plain
    simp [blockFlags, first, ih rest]

theorem blockGone {inner : List Char} (plain : ∀ c ∈ inner, c ≠ '$') (t : List Char) :
    blockFlags true (inner ++ '$' :: t) = inner.map (·, false) ++ ('$', false) :: blockFlags false t := by
  induction inner with
  | nil => simp [blockFlags]
  | cons c inner ih =>
    obtain ⟨first, rest⟩ := List.forall_mem_cons.mp plain
    simp [blockFlags, first, ih rest]

theorem blockChars (inside : Bool) (cs : List Char) : (blockFlags inside cs).map Prod.fst = cs := by
  induction cs generalizing inside with
  | nil => rfl
  | cons c cs ih => simp [blockFlags, ih]

theorem useStartPlain (starts : Index.isUseStart c = true) :
    c.isDigit = false ∧ Repeat.isEnding c = false := by
  constructor
  · simp only [Index.isUseStart, Bool.or_eq_true, beq_iff_eq] at starts
    rcases starts with (name | rfl) | rfl
    · exact Token.startNoDigit name
    · rfl
    · rfl
  · cases ending : Repeat.isEnding c with
    | false => rfl
    | true =>
      rcases Repeat.endingCases ending with rfl | rfl | ⟨bracket, rfl⟩
      · cases starts
      · cases starts
      · cases bracket <;> cases starts

theorem danglingForeign {e : Char} (alone : Index.isDangling (some e) = true) :
    e ∉ colorMark ∧ e.isDigit = false := by
  simp only [Index.isDangling, Bool.or_eq_true, beq_iff_eq] at alone
  rcases alone with (rfl | rfl) | opening
  · exact ⟨by decide, rfl⟩
  · exact ⟨by decide, rfl⟩
  · refine ⟨foreignApart (by simp [isForeign, opening]), ?_⟩
    simp only [isOpening, Bracket.opened?] at opening
    split at opening
    · rename_i square
      rw [square]
      rfl
    split at opening
    · rename_i round
      rw [round]
      rfl
    split at opening
    · rename_i curly
      rw [curly]
      rfl
    · cases opening

theorem numberForeign (origin : Nat) (value : Int) :
    ∃ d new, chars (Index.numberText origin value) = d :: new ∧ ∀ e ∈ d :: new, e ∉ colorMark := by
  obtain ⟨sign, plus, text⟩ := Index.numberChars value
  have all : ∀ e ∈ chars (Index.numberText origin value), e ∉ colorMark := by
    intro e member
    rw [Index.numberText, charsMade, text] at member
    rcases List.mem_append.mp member with front | digit
    · rcases plus with rfl | rfl
      · cases front
      · rw [List.mem_singleton.mp front]
        exact signForeign.2
    · exact digitForeign (keyDigits _ e digit)
  cases same : chars (Index.numberText origin value) with
  | nil =>
    rw [Index.numberText, charsMade, text] at same
    simp at same
  | cons d new =>
    rw [same] at all
    exact ⟨d, new, rfl, all⟩

theorem charsPlain (plain : ∀ g ∈ t, g.char ≠ '$') : ∀ c ∈ chars t, c ≠ '$' := by
  intro c member
  obtain ⟨g, inside, rfl⟩ := List.mem_map.mp member
  exact plain g inside

theorem workedEdited {last : Option Char} {out : MappedText} (worked : Index.Worked last t out)
    (behind : last = back.head? ∨ ∃ d, last = some d ∧ d.isDigit = true)
    (whole : unbroken (blockFlags false (chars t)) = true) :
    Edited (fun cs => stays (blockFlags false cs)) back (chars t) (chars out) := by
  induction worked generalizing back with
  | done => exact .done
  | @keep _ g t out plain _ ih =>
    have flags : blockFlags false (g.char :: chars t) = (g.char, true) :: blockFlags false (chars t) := by
      simp [blockFlags, plain]
    change unbroken (blockFlags false (g.char :: chars t)) = true at whole
    rw [flags] at whole
    change Edited _ back (g.char :: chars t) (g.char :: chars out)
    refine .keep (by simp [flags, stays]) (fun marked => ?_) (ih (.inl rfl) (unbrokenRest (a := [_]) whole))
    simp only [flags] at marked
    have was := unbrokenHere whole marked
    rwa [blockChars] at was
  | @number _ d g old word t out value starts plain _ digit _ ih =>
    have text : chars (g :: (old ++ t)) = g.char :: (chars old ++ chars t) := by simp [chars]
    have clean : ∀ c ∈ g.char :: chars old, c ≠ '$' := charsPlain plain
    have later : unbroken (blockFlags false (chars t)) = true := by
      rw [text, ← List.cons_append, blockPlain clean] at whole
      exact unbrokenRest whole
    obtain ⟨first, new, shown, foreign⟩ := numberForeign (startOrigin word) value
    rw [text, charsAppend, shown, List.cons_append]
    exact .put _ _ (.inr (useStartPlain starts)) foreign (ih (.inr ⟨d, rfl, digit⟩) later)
  | @block _ a b inner t out opens closes clean _ ih =>
    have text : chars (a :: (inner ++ b :: t)) = '$' :: ((chars inner ++ ['$']) ++ chars t) := by
      simp [chars, opens, closes]
    have plain := charsPlain clean
    have flags : blockFlags false ('$' :: ((chars inner ++ ['$']) ++ chars t)) =
        (('$', false) :: ((chars inner).map (·, false) ++ [('$', false)])) ++ blockFlags false (chars t) := by
      have opened : blockFlags false ('$' :: (chars inner ++ '$' :: chars t)) =
          ('$', false) :: blockFlags true (chars inner ++ '$' :: chars t) := rfl
      rw [List.append_assoc, List.singleton_append, opened, blockGone plain]
      simp
    rw [text, flags] at whole
    rw [text]
    refine .drop _ (.inr ⟨rfl, rfl⟩) (by decide) (.inl ?_) (ih behind (unbrokenRest whole))
    simp only [flags]
    simp [stays, List.filter_append, List.filter_map, Function.comp_def]
  | @comma last g t out is alone _ ih =>
    have front : ∀ e ∈ back.head?, e ∉ colorMark ∧ e.isDigit = false := by
      intro e member
      rcases behind with rfl | ⟨d, rfl, digit⟩
      · rw [member] at alone
        exact danglingForeign alone
      · rw [(danglingForeign alone).2] at digit
        cases digit
    have foreign : g.char ∉ colorMark := by
      rw [is]
      decide
    have later : unbroken (blockFlags false (chars t)) = true := by
      have plain : ∀ c ∈ [g.char], c ≠ '$' := by simp [is]
      have flags := blockPlain plain (chars t)
      exact unbrokenRest (flags ▸ whole)
    exact .drop [] (apartBehind _ front) foreign (.inr fun e member => (front e member).1)
      (ih behind later)

def componentLead (piece : MappedText) : MappedText :=
  ((piece.takeWhile (·.char != ';')).reverse.dropWhile (·.char != ':')).reverse

def components (t : MappedText) : List MappedText :=
  match t with
  | [] => []
  | g :: rest =>
    if g.char = '[' then
      let closed := (rest.dropWhile Index.isInside).head?.map Glyph.char == some ']'
      (if closed then pieces (·.char == ',') (rest.takeWhile Index.isInside) else []) ++
        components (rest.dropWhile Index.isInside)
    else components rest
termination_by t.length
decreasing_by
  · have := lengthDropWhile Index.isInside rest
    simp
    omega
  · simp

def KeyLeft (piece : MappedText) : Prop :=
  colorMark <:+ chars (componentLead piece) → Index.foldComponent piece = piece

instance (piece : MappedText) : Decidable (KeyLeft piece) :=
  inferInstanceAs (Decidable (_ → _))

theorem componentParts (piece : MappedText) : piece.takeWhile (·.char != ';') = componentLead piece ++
    ((piece.takeWhile (·.char != ';')).reverse.takeWhile (·.char != ':')).reverse := by
  rw [componentLead, ← List.reverse_append, List.takeWhile_append_dropWhile, List.reverse_reverse]

theorem componentCases (piece : MappedText) : Index.foldComponent piece = piece ∨
    ∃ e expression tail origin value, piece = componentLead piece ++ (e :: (expression ++ tail)) ∧
      Index.foldComponent piece = componentLead piece ++ (Index.numberText origin value ++ tail) := by
  have parts := componentParts piece
  have whole := List.takeWhile_append_dropWhile (p := fun g : Glyph => g.char != ';') (l := piece)
  unfold Index.foldComponent
  simp only
  generalize ((piece.takeWhile (·.char != ';')).reverse.takeWhile (·.char != ':')).reverse =
    expression at parts ⊢
  rw [parts] at whole ⊢
  split
  · rename_i operator
    split
    · rename_i value _
      cases expression with
      | nil => cases operator
      | cons e expression =>
        refine .inr ⟨e, expression, piece.dropWhile (·.char != ';'), startOrigin (e :: expression), value,
          ?_, ?_⟩
        · rw [← List.cons_append, ← List.append_assoc]
          exact whole.symm
        · rw [List.length_append, Nat.add_sub_cancel, List.take_left, List.append_assoc]
    · exact .inl rfl
  · exact .inl rfl

theorem leadEnd (piece : MappedText) : ∀ c ∈ (chars (componentLead piece)).reverse.head?, c = ':' := by
  intro c member
  rw [componentLead, chars, ← List.map_reverse, List.reverse_reverse, List.head?_map] at member
  obtain ⟨g, first, rfl⟩ := Option.mem_map.mp member
  have ends := List.head?_dropWhile_not (fun g : Glyph => g.char != ':')
    (piece.takeWhile (·.char != ';')).reverse
  rw [first] at ends
  simpa using ends

theorem prefixFront {p a b : List Char} (starts : p <+: a ++ b) (apart : ∀ c ∈ b.head?, c ∉ p) :
    p <+: a := by
  rcases List.prefix_or_prefix_of_prefix starts (List.prefix_append a b) with inside | ⟨tail, rfl⟩
  · exact inside
  · cases tail with
    | nil => simp
    | cons c tail =>
      have behind : c :: tail <+: b := (List.prefix_append_right_inj a).mp starts
      cases b with
      | nil => cases List.prefix_nil.mp behind
      | cons d b =>
        obtain ⟨rfl, _⟩ := List.cons_prefix_cons.mp behind
        exact absurd (by simp) (apart c rfl)

theorem componentEdited {piece : MappedText} (left : KeyLeft piece)
    (behind : ∀ e ∈ back.head?, e = '[' ∨ e = ',')
    (more : Edited id ((chars (Index.foldComponent piece)).reverse ++ back) u out) :
    Edited id back (chars piece ++ u) (chars (Index.foldComponent piece) ++ out) := by
  rcases componentCases piece with same | ⟨e, expression, tail, origin, value, whole, folded⟩
  · rw [same] at more ⊢
    exact keptAll more
  by_cases same : Index.foldComponent piece = piece
  · rw [same] at more ⊢
    exact keptAll more
  have first : ∀ c ∈ back.head?, c ∉ colorMark ∧ c.isDigit = false := by
    intro c member
    rcases behind c member with rfl | rfl
    · exact ⟨by decide, rfl⟩
    · exact ⟨by decide, rfl⟩
  have apart : Apart ((chars (componentLead piece)).reverse ++ back) e.char := by
    refine .inl ⟨fun marked => ?_, ?_⟩
    · have front := prefixFront marked fun c member inside =>
        (first c member).1 (List.mem_reverse.mp inside)
      exact same (left (List.reverse_prefix.mp front))
    · intro c member
      rw [List.head?_append] at member
      cases lead : (chars (componentLead piece)).reverse.head? with
      | none =>
        rw [lead] at member
        exact (first c member).2
      | some d =>
        rw [lead] at member
        cases Option.some.inj member
        cases leadEnd piece c lead
        rfl
  obtain ⟨d, new, shown, foreign⟩ := numberForeign origin value
  have read : chars piece ++ u =
      chars (componentLead piece) ++ (e.char :: (chars expression ++ (chars tail ++ u))) := by
    have own := congrArg chars whole
    rw [charsAppend] at own
    rw [own, List.append_assoc]
    simp [chars]
  have written : chars (Index.foldComponent piece) =
      chars (componentLead piece) ++ (d :: (new ++ chars tail)) := by
    rw [folded, charsAppend, charsAppend, shown, List.cons_append]
  rw [written] at more ⊢
  rw [read, List.append_assoc, List.cons_append, List.append_assoc]
  refine keptAll (.put _ _ apart foreign (keptAll ?_))
  simpa using more

theorem piecesEdited (left : ∀ piece ∈ pieces (·.char == ',') t, KeyLeft piece)
    (behind : ∀ e ∈ back.head?, e = '[' ∨ e = ',') (more : Edited id
      ((chars (mapPieces (·.char == ',') Index.foldComponent t)).reverse ++ back) u out) :
    Edited id back (chars t ++ u)
      (chars (mapPieces (·.char == ',') Index.foldComponent t) ++ out) := by
  induction t using cutInduction (fun g : Glyph => g.char == ',') generalizing back with
  | whole t clean =>
    rw [piecesWhole clean] at left
    rw [mapPiecesWhole clean] at more ⊢
    exact componentEdited (left t List.mem_cons_self) behind more
  | cut piece comma rest clean hit ih =>
    rw [piecesCut clean hit] at left
    obtain ⟨first, others⟩ := List.forall_mem_cons.mp left
    rw [mapPiecesCut clean hit, charsAppend] at more ⊢
    rw [charsAppend, List.append_assoc, List.append_assoc]
    refine componentEdited first behind (.keep rfl id (ih others ?_ ?_))
    · simp [beq_iff_eq.mp hit]
    · simpa [chars] using more

theorem foldsEdited (left : ∀ piece ∈ components t, KeyLeft piece) :
    Edited id back (chars t) (chars (Index.foldBrackets t)) := by
  fun_induction Index.foldBrackets t generalizing back with
  | case1 => exact .done
  | case2 g rest opens inner closed =>
    rename_i ih
    rw [components, if_pos opens] at left
    have later : ∀ piece ∈ components (rest.dropWhile Index.isInside), KeyLeft piece := fun piece member =>
      left piece (List.mem_append_right _ member)
    have text : chars (g :: rest) = g.char :: (chars inner ++ chars (rest.dropWhile Index.isInside)) := by
      rw [← charsAppend, List.takeWhile_append_dropWhile]
      rfl
    rw [text, charsAppend]
    refine .keep rfl id ?_
    cases ends : closed with
    | false => exact keptAll (ih later)
    | true =>
      refine piecesEdited (fun piece member => left piece (List.mem_append_left _ ?_)) (by simp [opens])
        (ih later)
      have same : ((rest.dropWhile Index.isInside).head?.map Glyph.char == some ']') = true := ends
      simp only [same, if_true]
      exact member
  | case3 g rest other ih =>
    rw [components, if_neg other] at left
    exact .keep rfl id (ih left)

end Crochet.Color
