import Crochet.Index.Evaluate
import Crochet.Proofs.Outcome
import Crochet.Proofs.Text.Pieces

/-! What working out variables does to a text, step by step from left to right: a character stays, a
use of a variable becomes its value, a block goes, and a comma goes where it would stand alone. -/
namespace Crochet.Index
open MappedText Text

def Named (vars : Variables) : Prop := ∀ entry ∈ vars, isName entry.1.toList = true

variable {vars after : Variables} {name : String} {value : Int} {t out : MappedText}
  {last before : Option Char} {g : Glyph} {use : Use} {registry : Registry}

theorem namedFound (named : Named vars) (found : (vars.get? name).isSome = true) :
    isName name.toList = true := by
  obtain ⟨value, entry⟩ := Option.isSome_iff_exists.mp found
  obtain ⟨before, after, rfl, _⟩ := List.lookup_eq_some_iff.mp entry
  exact named (name, value) (by simp)

theorem namedSet (named : Named vars) (word : isName name.toList = true) :
    Named (vars.set name value) := by
  induction vars with
  | nil =>
    intro entry member
    rw [List.mem_singleton.mp member]
    exact word
  | cons first rest ih =>
    have later := ih fun entry member => named entry (List.mem_cons_of_mem _ member)
    unfold Variables.set
    intro entry member
    split at member
    · rcases List.mem_cons.mp member with rfl | inside
      · exact word
      · exact named entry (List.mem_cons_of_mem _ inside)
    · rcases List.mem_cons.mp member with rfl | inside
      · exact named entry List.mem_cons_self
      · exact later entry inside

theorem useSets {step : Option Step} {span : Span} {value : Int}
    (ok : vars.use name step span = .ok (value, after)) :
    after = vars ∨ (vars.get? name).isSome = true ∧ ∃ next, after = vars.set name next := by
  cases found : vars.get? name with
  | none => simp [Variables.use, found, faultAt] at ok
  | some old =>
    cases step with
    | none =>
      simp only [Variables.use, found] at ok
      cases ok
      exact .inl rfl
    | some step =>
      simp only [Variables.use, found, faultAt] at ok
      generalize (if step.up = true then old + 1 else old - 1) = next at ok
      split at ok <;> cases ok
      exact .inr ⟨rfl, next, rfl⟩

theorem useNamed {step : Option Step} {span : Span} {value : Int} (named : Named vars)
    (ok : vars.use name step span = .ok (value, after)) : Named after := by
  rcases useSets ok with rfl | ⟨found, next, rfl⟩
  · exact named
  · exact namedSet named (namedFound named found)

def isUseStart (c : Char) : Bool := isNameStart c || c == '+' || c == '-'

inductive Worked : Option Char → MappedText → MappedText → Prop where
  | done {last : Option Char} : Worked last [] []
  | keep {last : Option Char} {g : Glyph} {t out : MappedText} (plain : g.char ≠ '$')
      (more : Worked (some g.char) t out) : Worked last (g :: t) (g :: out)
  | number {last : Option Char} {d : Char} {g : Glyph} {old word t out : MappedText} {value : Int}
      (starts : isUseStart g.char = true) (plain : ∀ h ∈ g :: old, h.char ≠ '$') (own : word ⊆ g :: old)
      (digit : d.isDigit = true) (more : Worked (some d) t out) :
      Worked last (g :: (old ++ t)) (numberText (startOrigin word) value ++ out)
  | block {last : Option Char} {a b : Glyph} {inner t out : MappedText} (opens : a.char = '$')
      (closes : b.char = '$') (clean : ∀ g ∈ inner, g.char ≠ '$') (more : Worked last t out) :
      Worked last (a :: (inner ++ b :: t)) out
  | comma {last : Option Char} {g : Glyph} {t out : MappedText} (is : g.char = ',')
      (alone : isDangling last = true) (more : Worked last t out) : Worked last (g :: t) out

theorem keepAll {kept : MappedText} (plain : ∀ g ∈ kept, g.char ≠ '$')
    (more : Worked ((kept.getLast?.map Glyph.char).or last) t out) :
    Worked last (kept ++ t) (kept ++ out) := by
  induction kept generalizing last with
  | nil => exact more
  | cons g rest ih =>
    refine .keep (plain g List.mem_cons_self)
      (ih (fun h inside => plain h (List.mem_cons_of_mem _ inside)) ?_)
    cases rest with
    | nil => simpa using more
    | cons h rest =>
      rw [List.getLast?_cons_cons] at more
      cases final : (h :: rest).getLast? with
      | none => simp at final
      | some z =>
        rw [final] at more
        exact more

theorem numberChars (value : Int) : ∃ sign, (sign = [] ∨ sign = ['-']) ∧
    (toString value).toList = sign ++ Nat.toDigits 10 value.natAbs := by
  cases value with
  | ofNat m => exact ⟨[], .inl rfl, by simp [toString, Int.repr, Nat.toList_repr]⟩
  | negSucc m => exact ⟨['-'], .inr rfl, by simp [toString, Int.repr, Nat.toList_repr]⟩

theorem numberLast (value : Int) :
    ∃ d, (toString value).toList.getLast? = some d ∧ d.isDigit = true := by
  obtain ⟨sign, _, text⟩ := numberChars value
  cases final : (Nat.toDigits 10 value.natAbs).getLast? with
  | none => simp at final
  | some d =>
    have member := List.mem_of_getLast? final
    refine ⟨d, ?_, Nat.isDigit_of_mem_toDigits (by decide) (by decide) member⟩
    rw [text, List.getLast?_append, final]
    rfl

theorem doubledSigns {up : Bool} (found : doubled? t = some up) :
    ∃ a b rest, t = a :: b :: rest ∧ (a.char = '+' ∨ a.char = '-') ∧ b.char = a.char := by
  unfold doubled? at found
  split at found
  · split at found
    · cases found
    rename_i same
    have equal := Classical.not_not.mp same
    split at found
    · rename_i plus
      exact ⟨_, _, _, rfl, .inl plus, equal.symm⟩
    split at found
    · rename_i minus
      exact ⟨_, _, _, rfl, .inr minus, equal.symm⟩
    · cases found
  · cases found

theorem namePlain (name : isNameGlyph g = true) : g.char ≠ '$' := by
  intro same
  rw [isNameGlyph, same] at name
  cases name

theorem wordPlain (t : MappedText) : ∀ g ∈ t.takeWhile isNameGlyph, g.char ≠ '$' := fun _ inside =>
  namePlain (List.mem_takeWhile_imp inside)

theorem signPlain (sign : g.char = '+' ∨ g.char = '-') : g.char ≠ '$' := by
  rcases sign with plus | minus
  · rw [plus]
    decide
  · rw [minus]
    decide

theorem takeWord (t : MappedText) :
    t.take (t.takeWhile isNameGlyph).length = t.takeWhile isNameGlyph :=
  (List.prefix_iff_eq_take.mp (List.takeWhile_prefix _)).symm

theorem keptWord (g : Glyph) (rest : MappedText) :
    rest.take (if isNameGlyph g then rest.takeWhile isNameGlyph else []).length =
      if isNameGlyph g then rest.takeWhile isNameGlyph else [] := by
  split
  · exact takeWord rest
  · rfl

theorem knownFound {word : MappedText} (known : vars.knows word = true) :
    (vars.get? (nameOf word)).isSome = true := (Bool.and_eq_true_iff.mp known).2

theorem useKnown (found : useAt? vars before t = some use) :
    (vars.get? use.name).isSome = true := by
  unfold useAt? at found
  split at found
  · obtain ⟨known, same⟩ := Option.ite_none_right_eq_some.mp found
    cases same
    exact knownFound known
  · dsimp only at found
    split at found
    · cases found
    obtain ⟨known, found⟩ := Option.ite_none_right_eq_some.mp found
    split at found <;> cases found
    · exact knownFound known
    · exact knownFound known

theorem wordStart (named : Named vars) (known : vars.knows (t.takeWhile isNameGlyph) = true) :
    ∃ g rest, t = g :: rest ∧ isNameStart g.char = true ∧
      t.takeWhile isNameGlyph = g :: rest.takeWhile isNameGlyph := by
  have word := namedFound named (knownFound known)
  rw [nameOf, String.toList_ofList] at word
  cases t with
  | nil => cases word
  | cons g rest =>
    cases name : isNameGlyph g with
    | false =>
      rw [List.takeWhile_cons_of_neg (by simp [name])] at word
      cases word
    | true =>
      rw [List.takeWhile_cons_of_pos name] at word ⊢
      exact ⟨g, rest, rfl, (Bool.and_eq_true_iff.mp word).1, rfl⟩

theorem lastAppend (a b : MappedText) (last : Option Char) :
    (((a ++ b).getLast?.map Glyph.char).or last) =
      (b.getLast?.map Glyph.char).or ((a.getLast?.map Glyph.char).or last) := by
  rw [List.getLast?_append]
  cases b.getLast? <;> rfl

theorem useText {rest : MappedText} (named : Named vars)
    (found : useAt? vars before (g :: rest) = some use) :
    isUseStart g.char = true ∧ (∀ h ∈ g :: rest.take use.more, h.char ≠ '$') ∧
      ∃ word, word ⊆ g :: rest.take use.more ∧ use.origin = startOrigin word := by
  unfold useAt? at found
  split at found
  · rename_i up signs
    obtain ⟨a, b, more, whole, sign, second⟩ := doubledSigns signs
    cases whole
    simp only [List.drop_succ_cons, List.drop_zero] at found
    split at found
    · cases found
      have old : (b :: more).take ((more.takeWhile isNameGlyph).length + 1) =
          b :: more.takeWhile isNameGlyph := by rw [List.take_succ_cons, takeWord]
      rw [old]
      refine ⟨?_, ?_, more.takeWhile isNameGlyph, by simp, rfl⟩
      · rcases sign with plus | minus
        · simp [isUseStart, plus]
        · simp [isUseStart, minus]
      · intro h inside
        rcases List.mem_cons.mp inside with rfl | inside
        · exact signPlain sign
        rcases List.mem_cons.mp inside with rfl | inside
        · exact signPlain (second ▸ sign)
        · exact wordPlain more h inside
    · cases found
  · simp only at found
    split at found
    · cases found
    split at found
    · rename_i known
      obtain ⟨_, _, whole, start, word⟩ := wordStart named known
      cases whole
      have starts : isUseStart g.char = true := by simp [isUseStart, start]
      have own : ∀ h ∈ g :: rest.takeWhile isNameGlyph, h.char ≠ '$' := word ▸ wordPlain (g :: rest)
      split at found
      · rename_i up signs
        cases found
        obtain ⟨a, b, more, behind, sign, second⟩ := doubledSigns signs
        rw [word]
        have old : g :: rest.take ((g :: rest.takeWhile isNameGlyph).length + 1) =
            (g :: rest.takeWhile isNameGlyph) ++ [a, b] := by
          have parts := List.takeWhile_append_dropWhile (p := isNameGlyph) (l := g :: rest)
          rw [← List.take_succ_cons, ← parts, behind, word, List.take_append]
          simp [List.take_of_length_le]
        rw [old]
        refine ⟨starts, ?_, g :: rest.takeWhile isNameGlyph, by simp, rfl⟩
        intro h inside
        rcases List.mem_append.mp inside with inside | inside
        · exact own h inside
        rcases List.mem_cons.mp inside with rfl | inside
        · exact signPlain sign
        · rw [List.mem_singleton.mp inside]
          exact signPlain (second ▸ sign)
      · cases found
        rw [word]
        have old : rest.take ((g :: rest.takeWhile isNameGlyph).length - 1) =
            rest.takeWhile isNameGlyph := takeWord rest
        rw [old]
        exact ⟨starts, own, _, fun _ inside => inside, rfl⟩
    · cases found

theorem substituteNamed (named : Named vars) (ok : substitute vars before t = .ok (out, after)) :
    Named after := by
  fun_induction substitute vars before t generalizing out after with
  | case1 vars before =>
    cases ok
    exact named
  | case2 vars before g rest use found old =>
    rename_i ih
    obtain ⟨⟨value, next⟩, used, ok⟩ := bindOk ok
    obtain ⟨⟨tail, final⟩, more, ok⟩ := bindOk ok
    cases ok
    exact ih next (useNamed named used) more
  | case3 vars before g rest none word =>
    rename_i kept ih
    obtain ⟨⟨tail, final⟩, more, ok⟩ := bindOk ok
    cases ok
    exact ih named more

theorem substituteWorked (named : Named vars) (plain : ∀ g ∈ t, g.char ≠ '$')
    (ok : substitute vars before t = .ok (out, after)) {onward made : MappedText}
    (worked : Worked ((out.getLast?.map Glyph.char).or last) onward made) :
    Worked last (t ++ onward) (out ++ made) := by
  fun_induction substitute vars before t generalizing out after last with
  | case1 vars before =>
    cases ok
    exact worked
  | case2 vars before g rest use found old =>
    rename_i ih
    obtain ⟨⟨value, next⟩, used, ok⟩ := bindOk ok
    obtain ⟨⟨tail, final⟩, more, ok⟩ := bindOk ok
    cases ok
    have later : ∀ h ∈ rest.drop use.more, h.char ≠ '$' := fun h inside =>
      plain h (List.mem_cons_of_mem _ (List.mem_of_mem_drop inside))
    obtain ⟨starts, clean, word, own, origin⟩ := useText named found
    obtain ⟨d, final, digit⟩ := numberLast value
    have shown : (numberText (startOrigin word) value).getLast?.map Glyph.char = some d := by
      rw [← final, numberText, madeText, List.getLast?_map, Option.map_map]
      cases (toString value).toList.getLast? <;> rfl
    have text : g :: rest ++ onward = g :: (rest.take use.more ++ (rest.drop use.more ++ onward)) := by
      rw [List.cons_append, ← List.append_assoc, List.take_append_drop]
    rw [origin, lastAppend, shown] at worked
    rw [text, List.append_assoc, origin]
    exact .number starts clean own digit (ih next (useNamed named used) later more worked)
  | case3 vars before g rest none word =>
    rename_i kept ih
    obtain ⟨⟨tail, final⟩, more, ok⟩ := bindOk ok
    cases ok
    have later : ∀ h ∈ rest.drop word.length, h.char ≠ '$' := fun h inside =>
      plain h (List.mem_cons_of_mem _ (List.mem_of_mem_drop inside))
    have front : rest.take word.length = word := keptWord g rest
    have text : g :: rest ++ onward = kept ++ (rest.drop word.length ++ onward) := by
      have whole : word ++ rest.drop word.length = rest := by
        have parts := List.take_append_drop word.length rest
        rwa [front] at parts
      show g :: rest ++ onward = g :: word ++ (rest.drop word.length ++ onward)
      rw [List.cons_append, List.cons_append, ← List.append_assoc, whole]
    have clean : ∀ h ∈ kept, h.char ≠ '$' := by
      intro h inside
      rcases List.mem_cons.mp inside with rfl | inside
      · exact plain h List.mem_cons_self
      · exact plain h (List.mem_cons_of_mem _ (List.mem_of_mem_take (front ▸ inside)))
    rw [lastAppend] at worked
    rw [text, List.append_assoc]
    exact keepAll clean (ih named later more worked)

theorem statementNamed {written : MappedText} (named : Named vars)
    (ok : runStatement registry vars written = .ok after) : Named after := by
  unfold runStatement at ok
  simp only [faultAt] at ok
  split at ok
  · cases ok
    exact named
  split at ok
  · unfold assign at ok
    simp only [faultAt] at ok
    split at ok
    · cases ok
    rename_i word
    split at ok
    · cases ok
    obtain ⟨⟨expanded, next⟩, replaced, ok⟩ := bindOk ok
    simp only at ok
    split at ok
    · cases ok
    · cases ok
    · cases ok
      exact namedSet (substituteNamed named replaced) (by simpa using word)
  split at ok
  · cases ok
  · obtain ⟨⟨value, next⟩, used, same⟩ := mapOk ok
    cases same
    exact useNamed named used

theorem blockNamed {block : MappedText} (named : Named vars)
    (ok : runBlock registry vars block = .ok after) : Named after :=
  foldKeeps Named (fun _ _ _ _ before one => statementNamed before one) named ok

theorem dollarFree (free : ∀ g ∈ t, isDollar g = false) : ∀ g ∈ t, g.char ≠ '$' :=
  fun g inside => beq_eq_false_iff_ne.mp (free g inside)

theorem evaluateWorked (named : Named vars) (ok : evaluateFrom registry vars last t = .ok out) :
    Worked last t out := by
  fun_induction evaluateFrom registry vars last t generalizing out with
  | case1 vars last t uncut =>
    obtain ⟨⟨text, next⟩, replaced, rfl⟩ := mapOk ok
    have worked : Worked last (t ++ []) (text ++ []) :=
      substituteWorked named (dollarFree (cutFirstClean uncut)) replaced .done
    simpa using worked
  | case2 vars last t before rest cut =>
    rename_i ih
    obtain ⟨⟨text, next⟩, replaced, ok⟩ := bindOk ok
    simp only at ok
    split at ok
    · cases ok
    rename_i block after closed
    obtain ⟨final, ran, ok⟩ := bindOk ok
    obtain ⟨tail, more, ok⟩ := bindOk ok
    cases ok
    obtain ⟨a, opens, rfl, clean⟩ := cutFirstParts cut
    obtain ⟨b, closes, rfl, inner⟩ := cutFirstParts closed
    have onward := ih text block after closed final (blockNamed (substituteNamed named replaced) ran) more
    refine substituteWorked named (dollarFree clean) replaced ?_
    refine .block (beq_iff_eq.mp opens) (beq_iff_eq.mp closes) (dollarFree inner) ?_
    generalize (text.getLast?.map Glyph.char).or last = behind at onward ⊢
    split at onward
    · rename_i alone
      obtain ⟨dangling, comma⟩ := Bool.and_eq_true_iff.mp alone
      cases after with
      | nil => simp at comma
      | cons g after =>
        have is : g.char = ',' := by simpa using comma
        exact .comma is dangling onward
    · exact onward

end Crochet.Index
