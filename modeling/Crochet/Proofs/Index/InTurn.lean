import Mathlib.Data.List.Basic
import Crochet.Proofs.Index.Folded

/-! Variables from left to right. Where a text can be cut so that neither a word nor a step goes across
the cut, its parts are replaced in turn, the second one from the variables that the first one leaves. A
comma is such a cut. So items that each step a variable once see its values one after another. -/
namespace Crochet.Index
open MappedText Text

/- One text after the other. The first fault is the one that is met. -/
def inTurn (first : Outcome (MappedText × Variables))
    (second : Variables → Outcome (MappedText × Variables)) : Outcome (MappedText × Variables) :=
  first >>= fun a => (second a.2).map fun b => (a.1 ++ b.1, b.2)

variable {out t : MappedText} {last : Variables} {use : Use}

section
variable {first : Outcome (MappedText × Variables)}
  {second third : Variables → Outcome (MappedText × Variables)}

theorem inTurnAssoc : inTurn (inTurn first second) third =
    inTurn first fun vars => inTurn (second vars) third := by
  cases first with
  | error fault => rfl
  | ok a =>
    cases next : second a.2 with
    | error fault => simp [inTurn, bind, Except.bind, Except.map, next]
    | ok b =>
      cases last : third b.2 <;> simp [inTurn, bind, Except.bind, Except.map, next, last]

theorem inTurnNil (vars : Variables) : inTurn (.ok ([], vars)) second = second vars := by
  cases next : second vars <;> simp [inTurn, bind, Except.bind, Except.map, next]

theorem inTurnOk (t u : MappedText) (vars next : Variables) (found : second vars = .ok (u, next)) :
    inTurn (.ok (t, vars)) second = .ok (t ++ u, next) := by
  simp [inTurn, bind, Except.bind, Except.map, found]

theorem inTurnSame (same : ∀ out vars, first = .ok (out, vars) → second vars = third vars) :
    inTurn first second = inTurn first third := by
  cases first with
  | error fault => rfl
  | ok a => simp only [inTurn, bind, Except.bind, same a.1 a.2 rfl]

theorem inTurnParts (ok : inTurn first second = .ok (out, last)) :
    ∃ x y vars, first = .ok (x, vars) ∧ second vars = .ok (y, last) ∧ out = x ++ y := by
  obtain ⟨a, front, ok⟩ := bindOk ok
  obtain ⟨b, back, same⟩ := mapOk ok
  cases same
  exact ⟨a.1, b.1, a.2, front, back, rfl⟩

end

section
variable {vars : Variables} {before : Option Char} {g : Glyph} {rest : MappedText}

theorem substituteUse (found : useAt? vars before (g :: rest) = some use) :
    substitute vars before (g :: rest) =
      vars.use use.name use.step (cover (g :: rest.take use.more)) >>= fun used =>
        inTurn (.ok (numberText use.origin used.1, used.2)) fun vars =>
          substitute vars ((g :: rest.take use.more).getLast?.map Glyph.char) (rest.drop use.more) := by
  rw [substitute, found]
  rfl

def wordBehind (g : Glyph) (rest : MappedText) : MappedText :=
  if isNameGlyph g then rest.takeWhile isNameGlyph else []

theorem substituteKept (unused : useAt? vars before (g :: rest) = none) :
    substitute vars before (g :: rest) = inTurn (.ok (g :: wordBehind g rest, vars)) fun vars =>
      substitute vars ((g :: wordBehind g rest).getLast?.map Glyph.char)
        (rest.drop (wordBehind g rest).length) := by
  rw [substitute, unused]
  change (substitute vars ((g :: wordBehind g rest).getLast?.map Glyph.char)
    (rest.drop (wordBehind g rest).length) >>= fun a => .ok (g :: wordBehind g rest ++ a.1, a.2)) = _
  generalize wordBehind g rest = word
  rfl

end

def isSign (c : Char) : Bool := c == '+' || c == '-'

/- Neither a word nor a step goes across the cut. -/
structure Parted (x y : MappedText) : Prop where
  sign : ∀ h ∈ y.head?, isSign h.char = false
  word : ∀ g ∈ x.getLast?, isNameGlyph g = true → ∀ h ∈ y.head?, isNameGlyph h = false
  step : ∀ a b, [a, b] <:+ x → (doubled? [a, b]).isSome = true → ∀ h ∈ y.head?, isNameGlyph h = false

section
variable {x y z : MappedText}

theorem Parted.behind (parted : Parted (x ++ z) y) : Parted z y where
  sign := parted.sign
  word := fun g last => parted.word g (by simp [List.getLast?_append, Option.mem_def.mp last])
  step := fun a b pair => parted.step a b (pair.trans (List.suffix_append x z))

theorem doubledUnsigned (sign : ∀ h ∈ y.head?, isSign h.char = false) : doubled? y = none := by
  cases found : doubled? y with
  | none => rfl
  | some up =>
    obtain ⟨a, b, rest, rfl, either, _⟩ := doubledSigns found
    have plain := sign a rfl
    rcases either with plus | minus
    · simp [isSign, plus] at plain
    · simp [isSign, minus] at plain

theorem doubledParted (parted : Parted x y) : doubled? (x ++ y) = doubled? x := by
  cases x with
  | nil => exact doubledUnsigned parted.sign
  | cons a x =>
    cases x with
    | cons b x => rfl
    | nil =>
      cases y with
      | nil => rfl
      | cons h y =>
        have plain := parted.sign h rfl
        cases found : doubled? ([a] ++ h :: y) with
        | none => rfl
        | some up =>
          obtain ⟨_, _, _, same, either, second⟩ := doubledSigns found
          cases same
          rw [← second] at either
          rcases either with plus | minus
          · simp [isSign, plus] at plain
          · simp [isSign, minus] at plain

theorem Parted.stops (parted : Parted x y) (some : x ≠ []) (all : ∀ g ∈ x, isNameGlyph g = true) :
    ∀ h ∈ y.head?, isNameGlyph h = false :=
  parted.word (x.getLast some) (List.getLast?_eq_some_getLast some) (all _ (List.getLast_mem some))

theorem useParted (vars : Variables) (before : Option Char) (parted : Parted x y) (some : x ≠ []) :
    useAt? vars before (x ++ y) = useAt? vars before x := by
  obtain ⟨word, behind⟩ := runAcross (parted.stops some)
  unfold useAt?
  rw [doubledParted parted]
  cases signs : doubled? x with
  | none =>
    have rest : doubled? (x.dropWhile isNameGlyph ++ y) = doubled? (x.dropWhile isNameGlyph) := by
      refine doubledParted (Parted.behind (x := x.takeWhile isNameGlyph) ?_)
      rwa [List.takeWhile_append_dropWhile]
    simp only [word, behind, rest]
  | some up =>
    obtain ⟨a, b, rest, rfl, _, second⟩ := doubledSigns signs
    have inner : (rest ++ y).takeWhile isNameGlyph = rest.takeWhile isNameGlyph := by
      refine (runAcross fun all => ?_).1
      cases rest with
      | nil => exact parted.step a b (List.suffix_refl _) (by rw [signs]; rfl)
      | cons g rest => exact Parted.stops (x := g :: rest) (Parted.behind (x := [a, b]) parted) (by simp) all
    simp only [List.cons_append, List.drop_succ_cons, List.drop_zero, inner]

end

structure Whole (x word y : MappedText) : Prop where
  some : word ≠ []
  all : ∀ g ∈ word, isNameGlyph g = true
  before : ∀ g ∈ x.getLast?, isNameGlyph g = false
  after : ∀ g ∈ y.head?, isNameGlyph g = false

variable {g : Glyph} {vars : Variables} {rest : MappedText}

theorem signApart (sign : g.char = '+' ∨ g.char = '-') : isNameGlyph g = false := by
  rcases sign with plus | minus
  · rw [isNameGlyph, plus]
    rfl
  · rw [isNameGlyph, minus]
    rfl

theorem wordEnds (t : MappedText) : ∀ g ∈ (t.dropWhile isNameGlyph).head?, isNameGlyph g = false := by
  intro g first
  have stops := List.head?_dropWhile_not isNameGlyph t
  rw [Option.mem_def.mp first] at stops
  simpa using stops

theorem useCovers {before : Option Char} (found : useAt? vars before t = some use) :
    ∃ lead word tail rest, t = lead ++ (word ++ (tail ++ rest)) ∧ Whole lead word (tail ++ rest) ∧
      (∀ g ∈ tail, isNameGlyph g = false) ∧ use.name = nameOf word ∧
      use.more + 1 = (lead ++ (word ++ tail)).length := by
  unfold useAt? at found
  split at found
  · rename_i up signs
    obtain ⟨a, b, rest, rfl, sign, second⟩ := doubledSigns signs
    simp only [List.drop_succ_cons, List.drop_zero] at found
    obtain ⟨known, same⟩ := Option.ite_none_right_eq_some.mp found
    cases same
    have some : rest.takeWhile isNameGlyph ≠ [] := by simpa using (Bool.and_eq_true_iff.mp known).1
    refine ⟨[a, b], rest.takeWhile isNameGlyph, [], rest.dropWhile isNameGlyph, by simp,
      ⟨some, fun _ => List.mem_takeWhile_imp, ?_, wordEnds rest⟩, by simp, rfl, ?_⟩
    · simp [signApart (second ▸ sign)]
    · simp only [List.append_nil, List.length_append, List.length_cons, List.length_nil]
      omega
  · dsimp only at found
    split at found
    · cases found
    obtain ⟨known, found⟩ := Option.ite_none_right_eq_some.mp found
    have some : t.takeWhile isNameGlyph ≠ [] := by simpa using (Bool.and_eq_true_iff.mp known).1
    have size : 0 < (t.takeWhile isNameGlyph).length := List.length_pos_iff.mpr some
    have parts := List.takeWhile_append_dropWhile (p := isNameGlyph) (l := t)
    split at found
    · rename_i up signs
      cases found
      obtain ⟨a, b, rest, behind, sign, second⟩ := doubledSigns signs
      rw [behind] at parts
      refine ⟨[], t.takeWhile isNameGlyph, [a, b], rest, parts.symm,
        ⟨some, fun _ => List.mem_takeWhile_imp, by simp, ?_⟩, ?_, rfl, by simp⟩
      · simp [signApart sign]
      · simp [signApart sign, signApart (second ▸ sign)]
    · cases found
      refine ⟨[], t.takeWhile isNameGlyph, [], t.dropWhile isNameGlyph, parts.symm,
        ⟨some, fun _ => List.mem_takeWhile_imp, by simp, wordEnds t⟩, by simp, rfl, ?_⟩
      simp only [List.append_nil, List.nil_append]
      omega

theorem useLength {before : Option Char} (found : useAt? vars before (g :: rest) = some use) :
    use.more ≤ rest.length := by
  obtain ⟨lead, word, tail, later, whole, _, _, _, size⟩ := useCovers found
  have length := congrArg List.length whole
  simp only [List.length_cons, List.length_append] at length size
  omega

theorem lastBehind (g : Glyph) (a b : MappedText) (before : Option Char) :
    ((g :: a ++ b).getLast?.map Glyph.char).or before =
      (b.getLast?.map Glyph.char).or ((g :: a).getLast?.map Glyph.char) := by
  rw [lastAppend]
  cases final : (g :: a).getLast? with
  | none => simp at final
  | some h => rfl

theorem substituteParted {before : Option Char} {x y : MappedText} (parted : Parted x y) :
    substitute vars before (x ++ y) =
      inTurn (substitute vars before x) fun vars =>
        substitute vars ((x.getLast?.map Glyph.char).or before) y := by
  induction size : x.length using Nat.strong_induction_on generalizing vars before x with
  | _ n ih =>
    cases x with
    | nil =>
      rw [substitute, inTurnNil]
      rfl
    | cons g rest =>
      -- what is read first, of length `k + 1`, lies in `x`
      have shorter : ∀ k, (rest.drop k).length < n := by
        intro k
        simp only [List.length_drop, ← size, List.length_cons]
        omega
      have parts : ∀ k, g :: rest = g :: rest.take k ++ rest.drop k := by simp
      have later : ∀ k, Parted (rest.drop k) y := fun k => (parts k ▸ parted).behind
      cases found : useAt? vars before (g :: rest) with
      | some use =>
        have short := useLength found
        have again : useAt? vars before (g :: (rest ++ y)) = some use :=
          (useParted vars before parted (by simp)).trans found
        rw [List.cons_append, substituteUse again, substituteUse found, List.take_append_of_le_length short,
          List.drop_append_of_le_length short]
        cases vars.use use.name use.step (cover (g :: rest.take use.more)) with
        | error fault => rfl
        | ok used =>
          rw [okBind, okBind, inTurnAssoc, parts use.more, lastBehind]
          exact inTurnSame fun _ _ _ => ih _ (shorter use.more) (later use.more) rfl
      | none =>
        have again : useAt? vars before (g :: (rest ++ y)) = none :=
          (useParted vars before parted (by simp)).trans found
        have word : wordBehind g (rest ++ y) = wordBehind g rest := by
          unfold wordBehind
          split
          · rename_i name
            refine (runAcross fun all => ?_).1
            exact parted.stops (by simp) (List.forall_mem_cons.mpr ⟨name, all⟩)
          · rfl
        have front : rest.take (wordBehind g rest).length = wordBehind g rest := keptWord g rest
        have short : (wordBehind g rest).length ≤ rest.length := by
          rw [← front]
          exact List.length_take_le' _ _
        have whole := parts (wordBehind g rest).length
        rw [front] at whole
        rw [List.cons_append, substituteKept again, substituteKept found, word,
          List.drop_append_of_le_length short, inTurnAssoc, whole, lastBehind]
        exact inTurnSame fun _ _ _ => ih _ (shorter _) (later _) rfl

theorem substituteFresh {c : Char} (plain : (c == '.' || c == '@') = false) (vars : Variables)
    (t : MappedText) : substitute vars (some c) t = substitute vars none t := by
  cases t with
  | nil => rw [substitute, substitute]
  | cons g rest =>
    have same : useAt? vars (some c) (g :: rest) = useAt? vars none (g :: rest) := by
      simp only [Bool.or_eq_false_iff, beq_eq_false_iff_ne] at plain
      simp [useAt?, plain]
    cases found : useAt? vars none (g :: rest) with
    | some use => rw [substituteUse found, substituteUse (same.trans found)]
    | none => rw [substituteKept found, substituteKept (same.trans found)]

theorem substituteComma {comma : Glyph} (is : comma.char = ',') (vars : Variables)
    (before : Option Char) (a b : MappedText) : substitute vars before (a ++ comma :: b) =
      inTurn (substitute vars before a) fun vars => inTurn (.ok ([comma], vars)) fun vars =>
        substitute vars none b := by
  have name : isNameGlyph comma = false := by
    rw [isNameGlyph, is]
    rfl
  have parted : Parted a (comma :: b) := by
    refine ⟨?_, fun _ _ _ => ?_, fun _ _ _ _ => ?_⟩
    · simp [isSign, is]
    all_goals simp [name]
  rw [substituteParted parted]
  refine inTurnSame fun out vars _ => ?_
  have unused (before : Option Char) : useAt? vars before (comma :: b) = none := by
    have unsigned : doubled? (comma :: b) = none := doubledUnsigned (by simp [isSign, is])
    simp [useAt?, unsigned, name, Variables.knows]
  have alone : wordBehind comma b = [] := by simp [wordBehind, name]
  rw [substituteKept (unused _), alone]
  refine inTurnSame fun _ vars _ => ?_
  rw [List.getLast?_singleton, Option.map_some, is]
  exact substituteFresh rfl vars b

theorem getCons (key other : String) (held : Int) (rest : Variables) :
    Variables.get? ((key, held) :: rest) other = if other = key then some held else rest.get? other := by
  unfold Variables.get?
  by_cases same : other = key
  · simp [same]
  · simp [List.lookup_cons, same, beq_eq_false_iff_ne.mpr same]

theorem getSet (vars : Variables) (name other : String) (value : Int) :
    (vars.set name value).get? other = if other = name then some value else vars.get? other := by
  induction vars with
  | nil => exact getCons name other value []
  | cons entry rest ih =>
    obtain ⟨key, held⟩ := entry
    unfold Variables.set
    split
    · rename_i here
      have here : key = name := here
      rw [getCons, getCons, here]
      split <;> rfl
    · rename_i there
      have apart : ¬ key = name := there
      rw [getCons, getCons, ih]
      by_cases same : other = key
      · simp [same, apart]
      · simp [same]

def Avoids (name : String) (t : MappedText) : Prop :=
  ∀ x word y, t = x ++ (word ++ y) → Whole x word y → nameOf word ≠ name

section
variable {name : String} {before : Option Char}

theorem Avoids.behind {a b : MappedText} (avoids : Avoids name (a ++ b))
    (cut : ∀ g ∈ a.getLast?, isNameGlyph g = true → ∀ h ∈ b.head?, isNameGlyph h = false) :
    Avoids name b := by
  rintro x word y rfl whole
  refine avoids (a ++ x) word y (by simp) ⟨whole.some, whole.all, fun g last => ?_, whole.after⟩
  rw [List.getLast?_append] at last
  cases final : x.getLast? with
  | some h =>
    rw [final] at last
    exact whole.before g (final.trans last)
  | none =>
    rw [final] at last
    cases List.getLast?_eq_none_iff.mp final
    obtain ⟨h, more, rfl⟩ := List.exists_cons_of_ne_nil whole.some
    have own := whole.all h List.mem_cons_self
    by_contra is
    rw [cut g last (by simpa using is) h rfl] at own
    cases own

theorem useAvoids (avoids : Avoids name t) (found : useAt? vars before t = some use) :
    use.name ≠ name := by
  obtain ⟨lead, word, tail, rest, parts, whole, _, named, _⟩ := useCovers found
  rw [named]
  exact avoids lead word (tail ++ rest) parts whole

theorem avoidsUsed (avoids : Avoids name (g :: rest))
    (found : useAt? vars before (g :: rest) = some use) : Avoids name (rest.drop use.more) := by
  obtain ⟨lead, word, tail, later, parts, whole, plain, _, size⟩ := useCovers found
  have split : g :: rest = (lead ++ (word ++ tail)) ++ later := by simp [parts]
  have behind : rest.drop use.more = later := by
    have drop := congrArg (List.drop (use.more + 1)) split
    rwa [List.drop_succ_cons, size, List.drop_left] at drop
  rw [behind]
  rw [split] at avoids
  refine avoids.behind fun g last is => ?_
  -- the covered text ends in a sign, or in a word with its end behind it
  cases tail with
  | nil => exact whole.after
  | cons sign tail =>
    rw [← List.append_assoc, List.getLast?_append_of_ne_nil _ (by simp)] at last
    rw [plain g (List.mem_of_getLast? last)] at is
    cases is

theorem avoidsKept (avoids : Avoids name (g :: rest)) :
    Avoids name (rest.drop (wordBehind g rest).length) := by
  have front : rest.take (wordBehind g rest).length = wordBehind g rest := keptWord g rest
  have split : g :: rest = (g :: wordBehind g rest) ++ rest.drop (wordBehind g rest).length := by
    conv => lhs; rw [← List.take_append_drop (wordBehind g rest).length rest, front]
    rfl
  rw [split] at avoids
  refine avoids.behind fun h last is => ?_
  unfold wordBehind at last ⊢
  split
  · have behind : (rest.takeWhile isNameGlyph ++ rest.dropWhile isNameGlyph).drop
        (rest.takeWhile isNameGlyph).length = rest.dropWhile isNameGlyph := List.drop_left
    rw [List.takeWhile_append_dropWhile] at behind
    rw [behind]
    exact wordEnds rest
  · rename_i name
    rw [if_neg name] at last
    cases Option.some.inj last
    exact absurd is name

theorem substituteSpares {after : Variables} (avoids : Avoids name t)
    (ok : substitute vars before t = .ok (out, after)) : after.get? name = vars.get? name := by
  fun_induction substitute vars before t generalizing out after with
  | case1 vars before =>
    cases ok
    rfl
  | case2 vars before g rest use found old =>
    rename_i ih
    obtain ⟨⟨value, next⟩, used, ok⟩ := bindOk ok
    obtain ⟨⟨tail, final⟩, more, ok⟩ := bindOk ok
    cases ok
    rw [ih next (avoidsUsed avoids found) more]
    rcases useSets used with rfl | ⟨_, value, rfl⟩
    · rfl
    · rw [getSet, if_neg (useAvoids avoids found).symm]
  | case3 vars before g rest none word =>
    rename_i kept ih
    obtain ⟨⟨tail, final⟩, more, ok⟩ := bindOk ok
    cases ok
    exact ih (avoidsKept avoids) more

theorem substituteUntouched (avoids : ∀ name, (vars.get? name).isSome = true → Avoids name t) :
    substitute vars before t = .ok (t, vars) := by
  fun_induction substitute vars before t with
  | case1 => rfl
  | case2 vars before g rest use found old =>
    exact absurd rfl (useAvoids (avoids _ (useKnown found)) found)
  | case3 vars before g rest none word kept ih =>
    have front : rest.take word.length = word := keptWord g rest
    have split : kept ++ rest.drop word.length = g :: rest := by
      conv_rhs => rw [← List.take_append_drop word.length rest, front]
      rfl
    rw [ih fun name known => avoidsKept (avoids name known)]
    exact congrArg (fun t => Except.ok (t, vars)) split

end

/- A text with one `name++`, not behind a point, an at sign or another step, and no other use. -/
structure Counter (name : String) where
  front : MappedText
  word : MappedText
  signs : MappedText
  back : MappedText
  whole : Whole front word (signs ++ back)
  named : nameOf word = name
  plus : chars signs = ['+', '+']
  free : ∀ g ∈ front.getLast?, (g.char == '.' || g.char == '@') = false
  unsigned : doubled? (front.drop (front.length - 2)) = none
  before : Avoids name front
  after : Avoids name back

namespace Counter
variable {name : String}

def text (c : Counter name) : MappedText := c.front ++ (c.word ++ (c.signs ++ c.back))

def shown (c : Counter name) (value : Int) : MappedText :=
  c.front ++ (numberText (startOrigin c.word) value ++ c.back)

def seeing (c : Counter name) (value : Int) (vars : Variables) : Outcome (MappedText × Variables) :=
  inTurn (substitute vars none c.front) fun vars =>
    inTurn (.ok (numberText (startOrigin c.word) value, vars.set name (value + 1))) fun vars =>
      substitute vars (some '+') c.back

theorem parted (c : Counter name) : Parted c.front (c.word ++ (c.signs ++ c.back)) := by
  refine ⟨fun h first => ?_, fun g last is => ?_, fun a b pair twice => ?_⟩
  · obtain ⟨g, word, same⟩ := List.exists_cons_of_ne_nil c.whole.some
    rw [same] at first
    cases first
    have own := c.whole.all h (by simp [same])
    cases sign : isSign h.char with
    | false => rfl
    | true =>
      rw [signApart (by simpa [isSign] using sign)] at own
      cases own
  · rw [c.whole.before g last] at is
    cases is
  · have last : [a, b] = c.front.drop (c.front.length - 2) := List.suffix_iff_eq_drop.mp pair
    rw [last, c.unsigned] at twice
    cases twice

variable {value : Int}

theorem used (c : Counter name) {before : Option Char} (held : vars.get? name = some value)
    (free : (before == some '.' || before == some '@') = false) :
    useAt? vars before (c.word ++ (c.signs ++ c.back)) =
      some ⟨name, some ⟨true, false⟩, c.word.length + 1, startOrigin c.word⟩ := by
  have unsigned := doubledUnsigned c.parted.sign
  have doubled : doubled? (c.signs ++ c.back) = some true := by
    obtain ⟨p, signs, first, plus, rest⟩ := List.map_eq_cons_iff.mp c.plus
    obtain ⟨q, signs, second, again, none⟩ := List.map_eq_cons_iff.mp rest
    simp [first, second, doubled?, plus, again]
  obtain ⟨word, behind⟩ :=
    runAcross fun (_ : ∀ g ∈ c.word, isNameGlyph g = true) => c.whole.after
  rw [List.takeWhile_eq_self_iff.mpr c.whole.all] at word
  rw [List.dropWhile_eq_nil_iff.mpr c.whole.all, List.nil_append] at behind
  have known : vars.knows c.word = true := by simp [Variables.knows, c.whole.some, c.named, held]
  simp only [useAt?, unsigned, word, behind, free, known, doubled, c.named, Bool.false_eq_true, if_false,
    if_true]

theorem substituted (c : Counter name) (held : vars.get? name = some value)
    (least : Decimal.leastWord ≤ value) (most : value + 1 ≤ Decimal.greatestWord) :
    substitute vars none c.text = c.seeing value vars := by
  rw [text, substituteParted c.parted, seeing]
  refine inTurnSame fun out vars front => ?_
  have held : vars.get? name = some value := (substituteSpares c.before front).trans held
  have steps : ∀ span, vars.use name (some ⟨true, false⟩) span =
      .ok (value, vars.set name (value + 1)) := by
    intro span
    have range : Decimal.leastWord ≤ value + 1 ∧ value + 1 ≤ Decimal.greatestWord := ⟨by omega, most⟩
    simp [Variables.use, held, range]
  have found : useAt? vars ((c.front.getLast?.map Glyph.char).or none) (c.word ++ (c.signs ++ c.back)) =
      some ⟨name, some ⟨true, false⟩, c.word.length + 1, startOrigin c.word⟩ := by
    refine c.used held ?_
    cases last : c.front.getLast? with
    | none => rfl
    | some g => simpa using c.free g last
  obtain ⟨g, rest, word⟩ := List.exists_cons_of_ne_nil c.whole.some
  have size : (rest ++ c.signs).length = (g :: rest).length + 1 := by
    have two : c.signs.length = 2 := by simpa [chars] using congrArg List.length c.plus
    simp [two]
  have last : (g :: (rest ++ c.signs)).getLast?.map Glyph.char = some '+' := by
    have shown := congrArg List.getLast? c.plus
    rw [chars, List.getLast?_map] at shown
    have some : c.signs ≠ [] := by
      intro none
      simp [none] at shown
    rw [← List.cons_append, List.getLast?_append_of_ne_nil _ some]
    exact shown
  rw [word, List.cons_append] at found ⊢
  rw [substituteUse found, ← List.append_assoc, List.take_left' size, List.drop_left' size, steps, okBind,
    last]

theorem leaves (c : Counter name) {last : Variables} {out : MappedText}
    (ok : c.seeing value vars = .ok (out, last)) : last.get? name = some (value + 1) := by
  obtain ⟨_, _, _, _, ok, _⟩ := inTurnParts ok
  obtain ⟨_, _, _, stepped, back, _⟩ := inTurnParts ok
  cases stepped
  rw [substituteSpares c.after back, getSet, if_pos rfl]

end Counter

def textOf {name : String} (first : Counter name) (more : List (Glyph × Counter name)) : MappedText :=
  first.text ++ more.flatMap fun next => next.1 :: next.2.text

def seeingAll {name : String} (value : Int) (vars : Variables) (first : Counter name) :
    List (Glyph × Counter name) → Outcome (MappedText × Variables)
  | [] => first.seeing value vars
  | next :: more => inTurn (first.seeing value vars) fun vars =>
      inTurn (.ok ([next.1], vars)) fun vars => seeingAll (value + 1) vars next.2 more

def shownAll {name : String} (value : Int) (first : Counter name) :
    List (Glyph × Counter name) → MappedText
  | [] => first.shown value
  | next :: more => first.shown value ++ next.1 :: shownAll (value + 1) next.2 more

section
variable {name : String} {first : Counter name} {more : List (Glyph × Counter name)} {value : Int}

theorem countersSee (commas : ∀ next ∈ more, next.1.char = ',') (held : vars.get? name = some value)
    (least : Decimal.leastWord ≤ value) (most : value + (more.length + 1) ≤ Decimal.greatestWord) :
    substitute vars none (textOf first more) = seeingAll value vars first more := by
  induction more generalizing first vars value with
  | nil =>
    rw [textOf, List.flatMap_nil, List.append_nil]
    exact first.substituted held least (by simpa using most)
  | cons next more ih =>
    obtain ⟨comma, others⟩ := List.forall_mem_cons.mp commas
    simp only [List.length_cons] at most
    have text : textOf first (next :: more) = first.text ++ next.1 :: textOf next.2 more := by
      simp [textOf]
    rw [text, substituteComma comma, first.substituted held least (by omega), seeingAll]
    refine inTurnSame fun out vars ran => inTurnSame fun _ after kept => ?_
    cases kept
    exact ih others (first.leaves ran) (by omega) (by push_cast at most ⊢; omega)

theorem countersLeave (ok : seeingAll value vars first more = .ok (out, last)) :
    last.get? name = some (value + (more.length + 1)) := by
  induction more generalizing first vars value out with
  | nil => simpa using first.leaves ok
  | cons next more ih =>
    obtain ⟨_, _, _, _, ok, _⟩ := inTurnParts ok
    obtain ⟨_, _, _, _, ok, _⟩ := inTurnParts ok
    rw [ih ok, List.length_cons]
    push_cast
    congr 1
    omega

theorem setSet (vars : Variables) (name : String) (a b : Int) :
    (vars.set name a).set name b = vars.set name b := by
  induction vars with
  | nil => simp [Variables.set]
  | cons entry rest ih => by_cases here : entry.1 = name <;> simp [Variables.set, here, ih]

def Counter.Spares (c : Counter name) (other : String) : Prop :=
  Avoids other c.front ∧ Avoids other c.back

theorem Counter.alone (c : Counter name)
    (spares : ∀ other, other ≠ name → (vars.get? other).isSome = true → c.Spares other) :
    c.seeing value vars = .ok (c.shown value, vars.set name (value + 1)) := by
  have front : substitute vars none c.front = .ok (c.front, vars) := by
    refine substituteUntouched fun other known => ?_
    by_cases same : other = name
    · exact same ▸ c.before
    · exact (spares other same known).1
  have back : substitute (vars.set name (value + 1)) (some '+') c.back =
      .ok (c.back, vars.set name (value + 1)) := by
    refine substituteUntouched fun other known => ?_
    by_cases same : other = name
    · exact same ▸ c.after
    · rw [getSet, if_neg same] at known
      exact (spares other same known).2
  rw [seeing, front, inTurnOk _ _ _ _ (inTurnOk _ _ _ _ back)]
  rfl

theorem countersAlone (spares : ∀ other, other ≠ name → (vars.get? other).isSome = true →
      ∀ c ∈ first :: more.map Prod.snd, c.Spares other) :
    seeingAll value vars first more =
      .ok (shownAll value first more, vars.set name (value + (more.length + 1))) := by
  induction more generalizing first vars value with
  | nil => exact first.alone fun other apart known => spares other apart known first List.mem_cons_self
  | cons next more ih =>
    have here : first.seeing value vars = .ok (first.shown value, vars.set name (value + 1)) :=
      first.alone fun other apart known => spares other apart known first List.mem_cons_self
    have later : seeingAll (value + 1) (vars.set name (value + 1)) next.2 more =
        .ok (shownAll (value + 1) next.2 more, vars.set name (value + ((next :: more).length + 1))) := by
      rw [ih, setSet, List.length_cons]
      · push_cast
        congr 3
        omega
      · intro other apart known c member
        rw [getSet, if_neg apart] at known
        exact spares other apart known c (List.mem_cons_of_mem _ member)
    rw [seeingAll, here, inTurnOk _ _ _ _ (inTurnOk _ _ _ _ later)]
    rfl

end

theorem evaluatePlain (plain : ∀ g ∈ t, g.char ≠ '$') (registry : Registry) (vars : Variables)
    (last : Option Char) :
    evaluateFrom registry vars last t = (substitute vars none t).map Prod.fst := by
  have uncut : cutFirst isDollar t = none :=
    cutFirstNone fun g member => beq_eq_false_iff_ne.mpr (plain g member)
  unfold evaluateFrom
  split
  · rfl
  · rename_i cut
    cases uncut.symm.trans cut

theorem avoidsOf {name : String} (none : ¬ name.toList <:+: chars t) : Avoids name t := by
  rintro x word y rfl _ rfl
  refine none ⟨chars x, chars y, ?_⟩
  simp [nameOf, chars]

def labelCounter (offset : Nat) : Counter "k" where
  front := copied offset ['s', 'c', '.', 'A', '[']
  word := copied (offset + 5) ['k']
  signs := copied (offset + 6) ['+', '+']
  back := copied (offset + 8) [']']
  whole := ⟨by simp [copied], by simp [copied, isNameGlyph, isNameChar],
    by simp [copied, isNameGlyph, isNameChar], by simp [copied, isNameGlyph, isNameChar]⟩
  named := rfl
  plus := rfl
  free := by simp [copied]
  unsigned := rfl
  before := avoidsOf (show ¬ "k".toList <:+: ['s', 'c', '.', 'A', '['] by decide)
  after := avoidsOf (show ¬ "k".toList <:+: [']'] by decide)

def labelRow : List (Glyph × Counter "k") :=
  [(⟨',', ⟨9, 10⟩⟩, labelCounter 10), (⟨',', ⟨19, 20⟩⟩, labelCounter 20)]

end Crochet.Index
