import Crochet.Proofs.Source.Switched
import Crochet.Source.Prepared

/-! Origins in the prepared text. Lines follow one another in the source, so the end of a line lies in
front of the next one; only the end of the last line may lie behind the whole source, and that one
line end is dropped. -/
namespace Crochet.Source
open MappedText Text

def Between (low high : Nat) (t : MappedText) : Prop := ∀ o ∈ origins t, low ≤ o ∧ o < high

inductive Stacked (n : Nat) : Nat → List MappedText → Prop where
  | nil {low : Nat} (inside : low ≤ n) : Stacked n low []
  | cons {low high : Nat} {t : MappedText} {rest : List MappedText} (rising : low ≤ high)
      (own : Between low high t) (more : Stacked n high rest) : Stacked n low (t :: rest)

variable {low high n m : Nat} {a b t definition : MappedText} {lines : List MappedText}
  {sheet : Sheet} {source name : List Char} {next draft : Draft} {rule : Rule}
  {before : Option Glyph} {registry after : Registry} {prepared : Prepared}

theorem betweenAppend :
    Between low high (a ++ b) ↔ Between low high a ∧ Between low high b := by
  simp only [Between, origins, List.flatMap_append, List.forall_mem_append]

theorem Between.wider {less more : Nat} (between : Between low high t) (below : less ≤ low)
    (above : high ≤ more) : Between less more t := by
  intro o member
  have own := between o member
  omega

theorem Between.sub (between : Between low high b) (inside : a ⊆ b) : Between low high a := by
  intro o member
  obtain ⟨g, own, origin⟩ := List.mem_flatMap.mp member
  exact between o (List.mem_flatMap.mpr ⟨g, inside own, origin⟩)

theorem Between.within (between : Between low high t) :
    Within (· < high) t := fun g member o own => (between o (List.mem_flatMap.mpr ⟨g, member, own⟩)).2

theorem piecesSome {α : Type} (mark : α → Bool) (xs : List α) : pieces mark xs ≠ [] := by
  induction xs with
  | nil => simp [pieces]
  | cons x xs ih =>
    unfold pieces
    split
    · simp
    · split <;> simp

theorem copiedStacked (offset : Nat) (cs : List Char) :
    Stacked (offset + byteLength cs) offset (pieces (·.char == '\n') (copied offset cs)) := by
  induction cs generalizing offset with
  | nil => exact .cons (Nat.le_refl _) (by simp [Between, origins]) (.nil (Nat.le_refl _))
  | cons c cs ih =>
    have size : offset + byteLength (c :: cs) = offset + c.utf8Size + byteLength cs :=
      (Nat.add_assoc _ _ _).symm
    have later := ih (offset + c.utf8Size)
    rw [size, copied, pieces]
    split
    · exact .cons (Nat.le_add_right _ _) (by simp [Between, origins]) later
    · cases parts : pieces (·.char == '\n') (copied (offset + c.utf8Size) cs) with
      | nil =>
        simp [piecesSome] at parts
      | cons piece more =>
        rw [parts] at later
        cases later with
        | cons rising own rest =>
          refine .cons (Nat.le_trans (Nat.le_add_right _ _) rising) ?_ rest
          intro o member
          simp only [origins, List.flatMap_cons, List.mem_append] at member
          rcases member with first | behind
          · obtain ⟨k, bound, rfl⟩ := List.mem_map.mp first
            have short : k < c.utf8Size := List.mem_range.mp bound
            simp only [Glyph.originAt]
            omega
          · have inside := own o behind
            omega

theorem uncommentSubset (before : List Char) (t : MappedText) : uncommentAfter before t ⊆ t := by
  induction t generalizing before with
  | nil => simp [uncommentAfter]
  | cons g rest ih =>
    unfold uncommentAfter
    split
    · simp
    · exact List.cons_subset_cons g (ih _)

theorem plainBetween (between : Between low high t) :
    Between low high (t.filterMap plainGlyph?) := by
  intro o member
  obtain ⟨g, inside, own⟩ := List.mem_flatMap.mp member
  obtain ⟨h, source, made⟩ := List.mem_filterMap.mp inside
  unfold plainGlyph? at made
  split at made
  · cases made
  cases made
  obtain ⟨k, _, rfl⟩ := List.mem_map.mp own
  obtain ⟨rest, first⟩ := glyphOrigin h
  have same : (MappedText.made h.origin (if h.char = '\t' then ' ' else h.char)).originAt k = h.origin := by
    simp only [Glyph.originAt, MappedText.made]
    omega
  rw [same]
  exact between _ (List.mem_flatMap.mpr ⟨h, source, first ▸ List.mem_cons_self⟩)

theorem bodyBetween {raw : MappedText} (between : Between low high raw) :
    Between low high (lineBody raw).1 := by
  have content : Between low high (MappedText.trimEnd (uncomment raw)) := by
    refine between.sub fun g member => ?_
    have kept := (List.dropWhile_sublist _).subset (List.mem_reverse.mp member)
    exact uncommentSubset [] raw (List.mem_reverse.mp kept)
  unfold lineBody
  simp only
  split
  · split
    · exact plainBetween (content.sub (List.dropLast_subset _))
    · exact plainBetween content
  · simp [Between, origins]

theorem joinedStacked {start : Nat} {current : MappedText} (stacked : Stacked n low lines)
    (rising : start ≤ low) (own : Between start low current) :
    Stacked n start (joinLines current lines) := by
  induction stacked generalizing start current with
  | @nil low inside =>
    unfold joinLines
    split
    · exact .nil (Nat.le_trans rising inside)
    · exact .cons rising own (.nil inside)
  | @cons low high raw rest above between more ih =>
    have body := bodyBetween between
    have whole : Between start high (current ++ (lineBody raw).1) :=
      betweenAppend.mpr ⟨own.wider (Nat.le_refl _) above, body.wider rising (Nat.le_refl _)⟩
    unfold joinLines
    split
    · rename_i text found
      rw [found] at whole
      exact ih (Nat.le_trans rising above) whole
    · rename_i text found
      rw [found] at whole
      exact .cons (Nat.le_trans rising above) whole (ih (Nat.le_refl _) (by simp [Between, origins]))

theorem linesStacked (source : List Char) : Stacked (byteLength source) 0 (logicalLines source) := by
  have raw := copiedStacked 0 source
  rw [Nat.zero_add] at raw
  exact joinedStacked raw (Nat.le_refl _) (by simp [Between, origins])

/- Text of which only a line end at its very end may have an origin that is not in `Q`. -/
def Bounded (Q : Nat → Prop) : MappedText → Prop
  | [] => True
  | g :: t => (g.Within Q ∨ g.char = '\n' ∧ t = []) ∧ Bounded Q t

section
variable {Q : Nat → Prop}

theorem boundedOf (within : Within Q a) (bounded : Bounded Q b) :
    Bounded Q (a ++ b) := by
  induction a with
  | nil => exact bounded
  | cons g a ih =>
    obtain ⟨own, more⟩ := withinCons.mp within
    exact ⟨.inl own, ih more⟩

theorem Bounded.rest (bounded : Bounded Q (a ++ b)) : Bounded Q b := by
  induction a with
  | nil => exact bounded
  | cons g a ih => exact ih bounded.2

theorem Bounded.swap {c : MappedText} (bounded : Bounded Q (a ++ b)) (ends : b = [] → c = [])
    (other : Bounded Q c) : Bounded Q (a ++ c) := by
  induction a with
  | nil => exact other
  | cons g a ih =>
    refine ⟨bounded.1.imp_right fun last => ⟨last.1, ?_⟩, ih bounded.2⟩
    obtain ⟨none, behind⟩ := List.append_eq_nil_iff.mp last.2
    rw [none, ends behind]
    rfl

theorem Bounded.plain (bounded : Bounded Q t) {g : Glyph} (member : g ∈ t) (other : g.char ≠ '\n') :
    g.Within Q := by
  induction t with
  | nil => cases member
  | cons h t ih =>
    rcases List.mem_cons.mp member with rfl | inside
    · exact bounded.1.resolve_right fun last => other last.1
    · exact ih bounded.2 inside

theorem Bounded.ended (bounded : Bounded Q t) : Within Q (dropLastNewline t) := by
  rcases List.eq_nil_or_concat t with rfl | ⟨body, g, rfl⟩
  · exact withinNil
  rw [List.concat_eq_append] at bounded ⊢
  have front : Within Q body := by
    induction body with
    | nil => exact withinNil
    | cons h body ih =>
      have own := bounded.1.resolve_right fun last => by simp at last
      exact withinCons.mpr ⟨own, ih bounded.2⟩
  unfold dropLastNewline
  rw [List.getLast?_concat]
  simp only
  split
  · rw [List.dropLast_concat]
    exact front
  · rename_i other
    have own := bounded.plain (List.mem_append_right body List.mem_cons_self) other
    exact withinAppend.mpr ⟨front, withinCons.mpr ⟨own, withinNil⟩⟩

end

theorem originInLe {os : List Nat} (below : ∀ o ∈ os, o < n) (i : Nat) :
    originIn os i ≤ n := by
  unfold originIn
  split
  · rename_i o found
    exact Nat.le_of_lt (below o (List.mem_of_getElem? found))
  · split
    · rename_i o found
      exact below o (List.mem_of_getLast? found)
    · exact Nat.zero_le n

/- The line end put behind a line may be as far as where the next line starts. -/
def Sealed (low : Nat) (t : MappedText) : Prop := Bounded (· < low) t ∧ Within (· < low + 1) t

theorem Within.wider (within : Within (· < n) t) (le : n ≤ m) :
    Within (· < m) t := fun g member o own => Nat.lt_of_lt_of_le (within g member o own) le

theorem Bounded.wider (bounded : Bounded (· < n) t) (le : n ≤ m) :
    Bounded (· < m) t := by
  induction t with
  | nil => exact bounded
  | cons g t ih =>
    exact ⟨bounded.1.imp_left fun own o member => Nat.lt_of_lt_of_le (own o member) le, ih bounded.2⟩

theorem Sealed.line {line : MappedText} (holds : Sealed low t) (own : Between low high line)
    (some : line ≠ []) :
    Sealed high (t ++ line ++ [made (endOrigin line) '\n']) := by
  have within : Within (· < high) line := own.within
  obtain ⟨g, rest, rfl⟩ := List.exists_cons_of_ne_nil some
  have first : g.origin ∈ origins (g :: rest) := by
    obtain ⟨others, same⟩ := glyphOrigin g
    exact List.mem_flatMap.mpr ⟨g, List.mem_cons_self, same ▸ List.mem_cons_self⟩
  have rising : low + 1 ≤ high := by
    have inside := own _ first
    omega
  have all : Within (· < high) (t ++ g :: rest) := withinAppend.mpr ⟨Within.wider holds.2 rising, within⟩
  have last : endOrigin (g :: rest) ≤ high := originInLe (withinOrigins within) _
  have newline := madeWithin (Q := (· < high + 1)) (Nat.lt_succ_of_le last) '\n'
  refine ⟨boundedOf all ⟨.inr ⟨rfl, rfl⟩, trivial⟩, ?_⟩
  exact withinAppend.mpr ⟨Within.wider all (Nat.le_succ high), withinCons.mpr ⟨newline, withinNil⟩⟩

theorem stitchesSome {line : MappedText} (stitches : Line.read line = .stitches) : line ≠ [] := by
  rintro rfl
  cases stitches

theorem addCases {line : MappedText} {next : Sheet} (ok : sheet.add line = .ok next) :
    (Line.read line = .stitches ∧
      next.expression = sheet.expression ++ line ++ [made (endOrigin line) '\n'] ∧
      next.definitions = sheet.definitions) ∨
    (next.expression = sheet.expression ∧ (next.definitions = sheet.definitions ∨
      ∃ body, Line.read line = .definition body ∧ next.definitions = sheet.definitions ++ [body])) := by
  unfold Sheet.add at ok
  split at ok
  case h_1 body read =>
    cases ok
    exact .inr ⟨rfl, .inr ⟨body, read, rfl⟩⟩
  case h_4 =>
    split at ok
    · cases ok
    · cases ok
      exact .inr ⟨rfl, .inl rfl⟩
  case h_5 stitches =>
    cases ok
    exact .inl ⟨stitches, rfl, rfl⟩
  all_goals
    cases ok
    exact .inr ⟨rfl, .inl rfl⟩

theorem addSealed {line : MappedText} {next : Sheet}
    (holds : ∃ low, Stacked n low (line :: lines) ∧ Sealed low sheet.expression)
    (ok : sheet.add line = .ok next) : ∃ low, Stacked n low lines ∧ Sealed low next.expression := by
  obtain ⟨low, stacked, sealed⟩ := holds
  cases stacked with
  | @cons _ high _ _ rising own more =>
    have kept : Sealed high sheet.expression :=
      ⟨sealed.1.wider rising, Within.wider sealed.2 (Nat.succ_le_succ rising)⟩
    rcases addCases ok with ⟨stitches, text, _⟩ | ⟨text, _⟩
    · exact ⟨high, more, text ▸ sealed.line own (stitchesSome stitches)⟩
    · exact ⟨high, more, text ▸ kept⟩

theorem readBounded (ok : Sheet.read source = .ok sheet) :
    Bounded (· < byteLength source) sheet.expression := by
  have start : ∃ low, Stacked (byteLength source) low (logicalLines source) ∧
      Sealed low (({} : Sheet)).expression := ⟨0, linesStacked source, trivial, withinNil⟩
  obtain ⟨low, stacked, sealed⟩ := foldRest
    (fun lines sheet => ∃ low, Stacked (byteLength source) low lines ∧ Sealed low sheet.expression)
    (fun _ _ _ _ => addSealed) start ok
  cases stacked with
  | nil inside => exact sealed.1.wider inside

def textMacro? (definition : MappedText) : Option (List Char × List Char) :=
  match cutFirst (·.char == '=') definition with
  | none => none
  | some (left, right) =>
    let body := trim (chars right)
    if Template.isSpec body || (Text.after? copyMark body).isSome then none
    else some (trim (chars left), body)

theorem registerExpression {d : Draft} {span : Span} {result : Registry.Result × Registry}
    (ok : d.register span result = .ok next) : next.expression = d.expression := by
  unfold Draft.register at ok
  split at ok <;> cases ok
  rfl

theorem defineCases (ok : draft.define definition = .ok next) :
    textMacro? definition = none ∧ next.expression = draft.expression ∨
    ∃ name body, textMacro? definition = some (name, body) ∧ isName name = true ∧
      next.expression = substitute name body draft.expression := by
  unfold Draft.define at ok
  simp only at ok
  split at ok
  · cases ok
  rename_i left right cut
  split at ok
  · cases ok
  rename_i named
  split at ok
  · cases ok
  split at ok
  · rename_i spec
    exact .inl ⟨by simp [textMacro?, cut, spec], by rw [registerExpression ok]⟩
  rename_i plain
  split at ok
  · rename_i args copy
    split at ok
    · cases ok
    split at ok
    · cases ok
    exact .inl ⟨by simp [textMacro?, cut, copy], by rw [registerExpression ok]⟩
  rename_i uncopied
  split at ok
  · cases ok
  obtain ⟨_, _, done⟩ := bindOk ok
  cases pureOk done
  exact .inr ⟨_, _, by simp [textMacro?, cut, plain, uncopied], by simpa using named, rfl⟩

section
variable {Q : Nat → Prop}

theorem dotsBounded (bounded : Bounded Q t) : Bounded Q (commasForDots t) := by
  fun_induction commasForDots t with
  | case1 a b c rest dots ih =>
    have own : a.Within Q := bounded.plain List.mem_cons_self (by rw [dots.1]; decide)
    exact ⟨.inl (madeWithin (originWithin own) ','), ih bounded.2.2.2⟩
  | case2 a b c rest other ih =>
    exact Bounded.swap (a := [a]) bounded (by simp) (ih bounded.2)
  | case3 t short => exact bounded

def Ends (rest : List Char) : Prop := ∀ c ∈ rest.head?, c = '\n'

def Rule.Quiet (rule : Rule) : Prop := ∀ before rest, Ends rest → rule before rest = none

theorem quietFound (quiet : rule.Quiet) {ended : Bool} {found : Nat × List Char}
    (hit : findAt rule before ended t = some found) :
    ¬ Ends (chars t) := by
  intro ends
  simp [findAt, quiet _ _ ends] at hit

theorem replacedNil (quiet : rule.Quiet) (before : Option Glyph) (ended : Bool) :
    replaceFrom rule before ended [] = [] := by
  have none := quiet (before.map Glyph.char) [] (by simp [Ends])
  simp [replaceFrom, findAt, chars, none]

theorem replacedBounded (quiet : rule.Quiet) {ended : Bool} (bounded : Bounded Q t) :
    Bounded Q (replaceFrom rule before ended t) := by
  -- What a rule puts in stands for the first character replaced, which is no line end.
  have first : ∀ {before ended g rest found}, findAt rule before ended (g :: rest) = some found →
      Bounded Q (g :: rest) → Q g.origin := by
    intro before ended g rest found hit bounded
    have other : g.char ≠ '\n' := by simpa [Ends, chars] using quietFound quiet hit
    exact originWithin (bounded.plain List.mem_cons_self other)
  fun_induction replaceFrom rule before ended t with
  | case1 => trivial
  | case2 => trivial
  | case3 before ended count new hit =>
    exact absurd (by simp [Ends, chars]) (quietFound quiet hit)
  | case4 before ended g rest none ih =>
    exact Bounded.swap (a := [g]) bounded (by rintro rfl; exact replacedNil quiet _ _) (ih bounded.2)
  | case5 before ended g rest kept new hit ih =>
    have behind : Bounded Q (g :: replaceFrom rule (some g) false rest) :=
      Bounded.swap (a := [g]) bounded (by rintro rfl; exact replacedNil quiet _ _) (ih bounded.2)
    refine boundedOf ?_ behind
    split
    · exact withinNil
    · exact madeTextWithin (first hit bounded) new
  | case6 before ended g rest kept k new hit old ih =>
    have parts : g :: rest = old ++ rest.drop k := by simp [old]
    have whole := bounded
    rw [parts] at whole
    split
    · exact whole.swap (by rintro none; rw [none]; exact replacedNil quiet _ _) (ih whole.rest)
    · exact boundedOf (madeTextWithin (first hit bounded) new) (ih whole.rest)

theorem nameAbsent {rest : List Char} (named : isName name = true) (ends : Ends rest) :
    ∀ k ∈ countLengths rest, Text.after? name (rest.drop k) = none := by
  have counts : countLengths rest = [0] := by
    cases rest with
    | nil => rfl
    | cons c rest =>
      cases ends c rfl
      have other : isDecimalDigit '\n' = false := by decide
      simp [countLengths, other]
  intro k member
  rw [counts] at member
  cases List.mem_singleton.mp member
  cases name with
  | nil => cases named
  | cons d name =>
    cases rest with
    | nil => rfl
    | cons c rest =>
      cases ends c rfl
      have start : isNameStart d = true := (Bool.and_eq_true_iff.mp named).1
      have differ : (d == '\n') = false := by
        refine beq_false_of_ne ?_
        rintro rfl
        cases start
      simp [Text.after?, differ]

theorem macroQuiet (named : isName name = true) (body : List Char) :
    (macroRule name body).Quiet := by
  intro before rest ends
  unfold macroRule
  split
  · refine List.findSome?_eq_none_iff.mpr fun k member => ?_
    rw [nameAbsent named ends k member]
  · rfl

theorem variantQuiet (named : isName name = true) (body : List Char) :
    (variantRule name body).Quiet := by
  intro before rest ends
  unfold variantRule
  split
  · refine List.findSome?_eq_none_iff.mpr fun k member => ?_
    rw [nameAbsent named ends k member]
    rfl
  · rfl

theorem stepQuiet : stepRule.Quiet := by
  intro before rest ends
  unfold stepRule
  split
  · cases rest with
    | nil => rfl
    | cons c rest =>
      cases ends c rfl
      rfl
  · rfl

theorem substituteBounded {body : List Char} (named : isName name = true) (bounded : Bounded Q t) :
    Bounded Q (substitute name body t) := by
  have words : Bounded Q (replaceAll (macroRule name body) t) :=
    replacedBounded (macroQuiet named body) bounded
  unfold substitute
  simp only
  split
  · exact replacedBounded (variantQuiet named body) words
  · exact words

theorem defineBounded (bounded : Bounded Q draft.expression)
    (ok : draft.define definition = .ok next) :
    Bounded Q next.expression := by
  rcases defineCases ok with ⟨_, same⟩ | ⟨name, body, _, named, same⟩
  · rw [same]
    exact bounded
  · rw [same]
    exact substituteBounded named bounded

theorem Switched.bounded {offset : Nat} {out : MappedText} {colors : List (Nat × String)}
    (switched : Switched offset t out colors) (bounded : Bounded Q t) : Bounded Q out := by
  induction switched with
  | nil => exact bounded
  | @keep _ g _ _ _ _ more ih => exact Bounded.swap (a := [g]) bounded more.ofNil (ih bounded.2)
  | @switch offset _ _ mark value t _ _ marks some line _ more ih =>
    have marked : Within Q mark := by
      intro g member
      refine bounded.plain (by simp [member]) fun newline => ?_
      have inside : '\n' ∈ colorMark := marks ▸ newline ▸ List.mem_map_of_mem member
      revert inside
      decide
    have valued : Within Q value := fun g member => bounded.plain (by simp [member]) (line g member)
    obtain ⟨g, rest, rfl⟩ := List.exists_cons_of_ne_nil some
    have key : Q (startOrigin (g :: rest)) := by
      rw [startOriginCons]
      exact originWithin (valued g List.mem_cons_self)
    exact boundedOf (withinAppend.mpr ⟨marked, madeTextWithin key _⟩) (ih bounded.rest)

theorem blanksBounded {fresh : Bool} (bounded : Bounded Q t) :
    Bounded Q (dropBlanks fresh t) := by
  induction t generalizing fresh with
  | nil => exact bounded
  | cons g rest ih =>
    have kept : ∀ fresh, Bounded Q (g :: dropBlanks fresh rest) := fun fresh =>
      Bounded.swap (a := [g]) bounded (by rintro rfl; rfl) (ih bounded.2)
    unfold dropBlanks
    split
    · exact ih bounded.2
    · split
      · split
        · exact ih bounded.2
        · exact kept true
      · exact kept false

end

theorem prepareBounded {Q : Nat → Prop}
    (lines : ∀ sheet, Sheet.read source = .ok sheet → Bounded Q sheet.expression)
    (ok : prepare source registry = .ok (prepared, after)) : Within Q prepared.expression := by
  obtain ⟨pattern, made, _, text⟩ := preparedFrom ok
  obtain ⟨sheet, draft, colored, read, defined, taken, _, stepped⟩ := spacedParts made
  have start := dotsBounded (lines sheet read)
  have drafted : Bounded Q draft.expression :=
    foldKeeps (fun d => Bounded Q d.expression) (fun _ _ _ _ => defineBounded) start defined
  have bounded : Bounded Q pattern.expression := by
    rw [stepped]
    exact replacedBounded stepQuiet ((takeSwitched taken).bounded drafted)
  rw [text]
  exact (blanksBounded bounded).ended

theorem prepareWithin (ok : prepare source registry = .ok (prepared, after)) :
    Within (· < byteLength source) prepared.expression :=
  prepareBounded (fun _ => readBounded) ok

end Crochet.Source
