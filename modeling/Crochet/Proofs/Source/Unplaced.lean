import Crochet.Proofs.Color.Passes
import Crochet.Proofs.Provenance.Prepared

/-! Preparing a pattern depends on what is written, never on where it stands: texts with the same
characters are prepared to texts with the same characters, with the same colours, metadata and
stitches, and where preparing one fails so does preparing the other, for the same cause. -/
namespace Crochet

/- An outcome seen through `view`; of a fault, its cause. -/
def viewed (view : α → β) (m : Outcome α) : Except Cause β := (m.map view).mapError Fault.cause

section
variable {α β γ δ : Type} {view : α → β} {shape : γ → δ} {m n : Outcome α}

theorem viewedFault {cause : Cause} {span other : Span} :
    viewed view (faultAt cause span) = viewed view (faultAt cause other) := rfl

theorem viewedOk {x y : α} (same : view x = view y) : viewed view (.ok x) = viewed view (.ok y) :=
  congrArg Except.ok same

theorem viewedBind {f g : α → Outcome γ} (same : viewed view m = viewed view n)
    (more : ∀ x y, view x = view y → viewed shape (f x) = viewed shape (g y)) :
    viewed shape (m >>= f) = viewed shape (n >>= g) := by
  cases m with
  | error fault =>
    cases n with
    | error other => exact congrArg Except.error (Except.error.inj same)
    | ok y => cases same
  | ok x =>
    cases n with
    | error other => cases same
    | ok y => exact more x y (Except.ok.inj same)

theorem viewedFold {step : γ → α → Outcome γ}
    (each : ∀ b c x y, shape b = shape c → view x = view y →
      viewed shape (step b x) = viewed shape (step c y))
    {xs ys : List α} (same : xs.map view = ys.map view) {b c : γ} (start : shape b = shape c) :
    viewed shape (xs.foldlM step b) = viewed shape (ys.foldlM step c) := by
  induction xs generalizing ys b c with
  | nil =>
    cases List.map_eq_nil_iff.mp same.symm
    exact viewedOk start
  | cons x xs ih =>
    obtain ⟨y, ys, rfl, first, rest⟩ := List.map_eq_cons_iff.mp same.symm
    rw [List.foldlM_cons, List.foldlM_cons]
    exact viewedBind (each b c x y start first.symm) fun _ _ next => ih rest.symm next

theorem viewedSucceeds (same : viewed view m = viewed view n) {x : α} (ok : m = .ok x) :
    ∃ y, n = .ok y ∧ view y = view x := by
  subst ok
  cases n with
  | error fault => cases same
  | ok y => exact ⟨y, rfl, (Except.ok.inj same).symm⟩

theorem viewedFails (same : viewed view m = viewed view n) {fault : Fault}
    (failed : m = .error fault) : ∃ other, n = .error other ∧ other.cause = fault.cause := by
  subst failed
  cases n with
  | error other => exact ⟨other, rfl, (Except.error.inj same).symm⟩
  | ok y => cases same

end

namespace Source
open MappedText Text

variable {g : Glyph} {line other : MappedText} {s r : Sheet} {rule : Rule}
  {before last : Option Glyph} {ended : Bool} {d e : Draft} {offset : Nat}
  {source edited : List Char}

section
variable {t u : MappedText}

theorem bothOrNeither {α β : Type} {f : α → β} {a b : Option α} (same : a.map f = b.map f) :
    a = none ∧ b = none ∨ ∃ x y, a = some x ∧ b = some y ∧ f x = f y := by
  cases a with
  | none => exact .inl ⟨rfl, Option.map_eq_none_iff.mp same.symm⟩
  | some x =>
    obtain ⟨y, found, equal⟩ := Option.map_eq_some_iff.mp same.symm
    exact .inr ⟨x, y, rfl, found, equal.symm⟩

theorem charsNil (same : chars [] = chars u) : u = [] := List.map_eq_nil_iff.mp same.symm

theorem charsCons (same : chars (g :: t) = chars u) :
    ∃ h v, u = h :: v ∧ g.char = h.char ∧ chars t = chars v := by
  cases u with
  | nil => cases same
  | cons h v =>
    obtain ⟨first, rest⟩ := List.cons.inj same
    exact ⟨h, v, rfl, first, rest⟩

theorem afterMapped (start : List Char) (t : MappedText) :
    (MappedText.after? start t).map chars = Text.after? start (chars t) := by
  induction start generalizing t with
  | nil => rfl
  | cons c start ih =>
    cases t with
    | nil => rfl
    | cons g t =>
      by_cases hit : c = g.char
      · simpa [MappedText.after?, Text.after?, chars, hit] using ih t
      · simp [MappedText.after?, Text.after?, chars, hit]

theorem afterAlike (start : List Char) (same : chars t = chars u) :
    MappedText.after? start t = none ∧ MappedText.after? start u = none ∨
      ∃ r s, MappedText.after? start t = some r ∧ MappedText.after? start u = some s ∧
        chars r = chars s :=
  bothOrNeither (by rw [afterMapped, same, afterMapped])

theorem cutMapped (c : Char) (t : MappedText) :
    (cutFirst (·.char == c) t).map (Prod.map chars chars) = cutFirst (· == c) (chars t) := by
  induction t with
  | nil => rfl
  | cons g t ih =>
    have whole : chars (g :: t) = g.char :: chars t := rfl
    rw [whole, cutFirst, cutFirst]
    split
    · rfl
    · rw [← ih]
      cases cutFirst (·.char == c) t <;> rfl

theorem cutAlike (same : chars t = chars u) :
    cutFirst (·.char == '=') t = none ∧ cutFirst (·.char == '=') u = none ∨
      ∃ p q, cutFirst (·.char == '=') t = some p ∧ cutFirst (·.char == '=') u = some q ∧
        Prod.map chars chars p = Prod.map chars chars q :=
  bothOrNeither (by rw [cutMapped, same, cutMapped])

theorem trimStartChars (t : MappedText) : chars (MappedText.trimStart t) = Text.trimStart (chars t) := by
  rw [Text.trimStart, chars, chars, List.dropWhile_map]
  rfl

theorem trimEndChars (t : MappedText) : chars (MappedText.trimEnd t) = Text.trimEnd (chars t) := by
  rw [Text.trimEnd, chars, chars, ← List.map_reverse, List.dropWhile_map, ← List.map_reverse]
  rfl

theorem trimmedAlike (same : chars t = chars u) : trimmedText t = trimmedText u := by
  rw [trimmedText, same, trimmedText]

end

inductive Line.Alike : Line → Line → Prop where
  | definition {a b : MappedText} (same : chars a = chars b) : Alike (.definition a) (.definition b)
  | dot {a b : MappedText} (same : chars a = chars b) : Alike (.dot a) (.dot b)
  | transform {a b : MappedText} (same : chars a = chars b) : Alike (.transform a) (.transform b)
  | background {a b : MappedText} (same : chars a = chars b) : Alike (.background a) (.background b)
  | stitches : Alike .stitches .stitches
  | blank : Alike .blank .blank

theorem readAlike (same : chars line = chars other) :
    Line.Alike (Line.read line) (Line.read other) := by
  have content : chars (MappedText.trimStart line) = chars (MappedText.trimStart other) := by
    rw [trimStartChars, same, trimStartChars]
  unfold Line.read
  simp only
  rcases afterAlike definitionMark content with ⟨left, right⟩ | ⟨r, s, left, right, rest⟩
  case inr => rw [left, right]; exact .definition rest
  rw [left, right]
  rcases afterAlike dotMark content with ⟨left, right⟩ | ⟨r, s, left, right, rest⟩
  case inr => rw [left, right]; exact .dot rest
  rw [left, right]
  rcases afterAlike transformMark content with ⟨left, right⟩ | ⟨r, s, left, right, rest⟩
  case inr => rw [left, right]; exact .transform rest
  rw [left, right]
  rcases afterAlike backgroundMark content with ⟨left, right⟩ | ⟨r, s, left, right, rest⟩
  case inr => rw [left, right]; exact .background rest
  rw [left, right]
  have length : (MappedText.trimStart line).isEmpty = (MappedText.trimStart other).isEmpty := by
    simpa [chars] using congrArg List.isEmpty content
  simp only [length]
  split
  · exact .blank
  · exact .stitches

def Sheet.content (s : Sheet) : Metadata × List (List Char) × List Char :=
  (s.metadata, s.definitions.map chars, chars s.expression)

theorem Sheet.contentParts (same : s.content = r.content) : s.metadata = r.metadata ∧
    s.definitions.map chars = r.definitions.map chars ∧ chars s.expression = chars r.expression := by
  simpa [Sheet.content] using same

theorem addAlike (start : s.content = r.content) (same : chars line = chars other) :
    viewed Sheet.content (s.add line) = viewed Sheet.content (r.add other) := by
  have read := readAlike same
  obtain ⟨metadata, definitions, expression⟩ := Sheet.contentParts start
  unfold Sheet.add
  rw [metadata]
  generalize Line.read line = purpose, Line.read other = second at read
  cases read with
  | definition body =>
    exact viewedOk (by simp [Sheet.content, definitions, expression, body, trimmedAlike body])
  | dot value => exact viewedOk (by simp [Sheet.content, definitions, expression, trimmedAlike value])
  | transform value => exact viewedOk (by simp [Sheet.content, definitions, expression, trimmedAlike value])
  | background value =>
    simp only
    split
    · exact viewedFault
    · exact viewedOk (by simp [Sheet.content, definitions, expression, trimmedAlike value])
  | stitches =>
    refine viewedOk ?_
    simp only [Sheet.content, charsAppend, definitions, expression, same]
    rfl
  | blank => exact viewedOk start

variable {t u : MappedText}

theorem commasAlike (same : chars t = chars u) :
    chars (commasForDots t) = chars (commasForDots u) := by
  fun_induction commasForDots t generalizing u with
  | case1 a b c rest dots ih =>
    obtain ⟨a', u, rfl, first, same⟩ := charsCons same
    obtain ⟨b', u, rfl, second, same⟩ := charsCons same
    obtain ⟨c', u, rfl, third, same⟩ := charsCons same
    rw [first, second, third] at dots
    rw [commasForDots, if_pos dots]
    exact congrArg (',' :: ·) (ih same)
  | case2 a b c rest plain ih =>
    obtain ⟨a', u, rfl, first, others⟩ := charsCons same
    obtain ⟨b', u, rfl, second, more⟩ := charsCons others
    obtain ⟨c', u, rfl, third, more⟩ := charsCons more
    rw [first, second, third] at plain
    rw [commasForDots, if_neg plain]
    exact congrArg₂ List.cons first (ih others)
  | case3 rest short =>
    have length : rest.length = u.length := by simpa [chars] using congrArg List.length same
    rw [commasForDots]
    · exact same
    · rintro a b c more rfl
      rcases rest with _ | ⟨a, _ | ⟨b, _ | ⟨c, rest⟩⟩⟩
      · cases length
      · cases length
      · cases length
      · exact short a b c rest rfl

theorem findAlike (behind : before.map Glyph.char = last.map Glyph.char) (same : chars t = chars u) :
    findAt rule before ended t = findAt rule last ended u := by
  rw [findAt, behind, same, findAt]

theorem replaceAlike (behind : before.map Glyph.char = last.map Glyph.char)
    (same : chars t = chars u) :
    chars (replaceFrom rule before ended t) = chars (replaceFrom rule last ended u) := by
  fun_induction replaceFrom rule before ended t generalizing last u with
  | case1 before ended none =>
    cases charsNil same
    rw [findAlike behind rfl] at none
    rw [replaceFrom, none]
  | case2 before ended count new found guarded =>
    cases charsNil same
    rw [findAlike behind rfl] at found
    rw [behind] at guarded
    rw [replaceFrom, found]
    simp [guarded]
  | case3 before ended count new found free =>
    cases charsNil same
    rw [findAlike behind rfl] at found
    rw [behind] at free
    rw [replaceFrom, found]
    simp [free, charsMade]
  | case4 before ended g rest none ih =>
    obtain ⟨h, u, rfl, first, more⟩ := charsCons same
    rw [findAlike behind same] at none
    rw [replaceFrom, none]
    exact congrArg₂ List.cons first (ih (congrArg some first) more)
  | case5 before ended g rest kept new found =>
    rename_i ih
    obtain ⟨h, u, rfl, first, more⟩ := charsCons same
    rw [findAlike behind same] at found
    have tail : chars (g :: replaceFrom rule (some g) false rest) =
        chars (h :: replaceFrom rule (some h) false u) :=
      congrArg₂ List.cons first (ih (congrArg some first) more)
    rw [replaceFrom, found]
    simp only [kept, behind]
    rw [charsAppend, charsAppend, tail]
    split
    · rfl
    · rw [charsMade, charsMade]
  | case6 before ended g rest kept k new found =>
    rename_i old ih
    obtain ⟨h, u, rfl, first, more⟩ := charsCons same
    rw [findAlike behind same] at found
    have taken : chars old = chars (h :: u.take k) := by
      simp only [old, chars, List.map_cons, List.map_take, first] at more ⊢
      rw [more]
    have dropped : chars (rest.drop k) = chars (u.drop k) := by
      simp only [chars, List.map_drop] at more ⊢
      rw [more]
    have final : old.getLast?.map Glyph.char = (h :: u.take k).getLast?.map Glyph.char := by
      rw [← List.getLast?_map, ← List.getLast?_map]
      exact congrArg List.getLast? taken
    rw [replaceFrom, found]
    simp only [kept, behind]
    rw [charsAppend, charsAppend, ih final dropped]
    split
    · rw [taken]
    · rw [charsMade, charsMade]

theorem substituteAlike {name body : List Char} (same : chars t = chars u) :
    chars (substitute name body t) = chars (substitute name body u) := by
  have once : chars (replaceAll (macroRule name body) t) = chars (replaceAll (macroRule name body) u) :=
    replaceAlike rfl same
  unfold substitute
  simp only
  split
  · exact replaceAlike rfl once
  · exact once

theorem bracketsAlike (same : chars t = chars u) :
    viewed id (checkBrackets t) = viewed id (checkBrackets u) := by
  unfold checkBrackets
  rw [same]
  split
  · rfl
  · exact viewedFault

def Draft.content (d : Draft) : Registry × List String × List Char :=
  (d.registry, d.seen, chars d.expression)

theorem Draft.contentParts (same : d.content = e.content) : d.registry = e.registry ∧
    d.seen = e.seen ∧ chars d.expression = chars e.expression := by
  simpa [Draft.content] using same

theorem registerAlike {span other : Span} {result : Registry.Result × Registry}
    (start : d.content = e.content) :
    viewed Draft.content (d.register span result) = viewed Draft.content (e.register other result) := by
  obtain ⟨result | fault, registry⟩ := result
  · exact viewedFault
  · exact viewedOk (by simpa [Draft.content] using (Prod.mk.inj start).2)

theorem defineAlike {definition : MappedText} (start : d.content = e.content)
    (same : chars definition = chars other) :
    viewed Draft.content (d.define definition) = viewed Draft.content (e.define other) := by
  obtain ⟨registry, seen, expression⟩ := Draft.contentParts start
  unfold Draft.define
  simp only
  rcases cutAlike same with ⟨left, right⟩ | ⟨⟨left, right⟩, ⟨front, back⟩, first, second, parts⟩
  · rw [left, right]
    exact viewedFault
  obtain ⟨name, body⟩ := Prod.mk.inj parts
  rw [first, second]
  simp only [name, body, seen, registry]
  split
  · exact viewedFault
  split
  · exact viewedFault
  split
  · exact registerAlike (by simp [Draft.content, expression])
  split
  · split
    · exact viewedFault
    · split
      · exact viewedFault
      · exact registerAlike (by simp [Draft.content, expression])
  · split
    · exact viewedFault
    · refine viewedBind (bracketsAlike body) fun _ _ _ => viewedOk ?_
      simp [Draft.content, substituteAlike expression]

theorem valueAlike (depth : Nat) (same : chars t = chars u) :
    chars (colorValue depth t).1 = chars (colorValue depth u).1 ∧
      chars (colorValue depth t).2 = chars (colorValue depth u).2 := by
  induction t generalizing depth u with
  | nil =>
    cases charsNil same
    exact ⟨rfl, rfl⟩
  | cons g t ih =>
    obtain ⟨h, u, rfl, first, more⟩ := charsCons same
    unfold colorValue
    simp only [first]
    split
    · exact ⟨rfl, same⟩
    · obtain ⟨value, after⟩ := ih _ more
      exact ⟨congrArg₂ List.cons first value, after⟩

theorem takeKeeps (plain : MappedText.after? colorMark (g :: t) = none) :
    takeColors offset (g :: t) = (do
      let tail ← takeColors (offset + g.width) t
      return { tail with expression := g :: tail.expression }) := by
  rw [takeColors]
  split
  · rfl
  · rename_i found
    rw [plain] at found
    cases found

theorem takeSwitches {after : MappedText}
    (marked : MappedText.after? colorMark (g :: t) = some after) :
    takeColors offset (g :: t) =
      if (trim (chars (colorValue 0 after).1)).isEmpty then
        faultAt (.source .colorMissing) (cover ((g :: t).take colorMark.length))
      else do
        let tail ← takeColors (offset + width ((g :: t).take colorMark.length) +
          width (colorValue 0 after).1) (colorValue 0 after).2
        return ⟨(g :: t).take colorMark.length ++
          madeText (startOrigin after) (Nat.toDigits 10 offset) ++ tail.expression,
          (offset, String.ofList (trim (chars (colorValue 0 after).1))) :: tail.colors⟩ := by
  rw [takeColors]
  split
  · rename_i found
    rw [marked] at found
    cases found
  · rename_i found
    cases Option.some.inj (marked.symm.trans found)
    rfl

def Colored.content (c : Colored) : List Char × List (Nat × String) := (chars c.expression, c.colors)

theorem widthAlike (same : chars t = chars u) : width t = width u := by
  rw [← charsWidth, same, charsWidth]

theorem takeAlike (same : chars t = chars u) :
    viewed Colored.content (takeColors offset t) = viewed Colored.content (takeColors offset u) := by
  fun_induction takeColors offset t generalizing u with
  | case1 offset =>
    cases charsNil same
    rw [takeColors]
  | case2 offset g rest plain ih =>
    obtain ⟨h, u, rfl, first, more⟩ := charsCons same
    obtain ⟨_, other⟩ | ⟨_, _, found, _⟩ := afterAlike colorMark same
    case inr => rw [plain] at found; cases found
    rw [takeKeeps other, show h.width = g.width from congrArg Char.utf8Size first.symm]
    refine viewedBind (ih more) fun x y tail => viewedOk ?_
    obtain ⟨expression, colors⟩ := Prod.mk.inj tail
    exact congrArg₂ Prod.mk (congrArg₂ List.cons first expression) colors
  | case3 offset g rest after marked mark value color =>
    rename_i missing
    obtain ⟨h, u, rfl, _⟩ := charsCons same
    obtain ⟨none, _⟩ | ⟨r, s, found, other, behind⟩ := afterAlike colorMark same
    · rw [marked] at none; cases none
    cases Option.some.inj (marked.symm.trans found)
    rw [takeSwitches other, ← (valueAlike 0 behind).1, if_pos missing]
    exact viewedFault
  | case4 offset g rest after marked mark value color some key =>
    rename_i ih
    obtain ⟨h, u, rfl, _⟩ := charsCons same
    obtain ⟨none, _⟩ | ⟨r, s, found, other, behind⟩ := afterAlike colorMark same
    · rw [marked] at none; cases none
    cases Option.some.inj (marked.symm.trans found)
    obtain ⟨own, later⟩ := valueAlike 0 behind
    have marks : chars mark = chars ((h :: u).take colorMark.length) :=
      (afterChars marked).1.trans (afterChars other).1.symm
    rw [takeSwitches other, ← own, if_neg some, ← widthAlike marks, ← widthAlike own]
    refine viewedBind (ih later) fun x y tail => viewedOk ?_
    obtain ⟨expression, colors⟩ := Prod.mk.inj tail
    simp only [Colored.content, charsAppend, marks, key, charsMade, expression, colors]
    rfl

theorem blanksAlike (fresh : Bool) (same : chars t = chars u) :
    chars (dropBlanks fresh t) = chars (dropBlanks fresh u) := by
  induction t generalizing fresh u with
  | nil =>
    cases charsNil same
    rfl
  | cons g t ih =>
    obtain ⟨h, u, rfl, first, more⟩ := charsCons same
    unfold dropBlanks
    rw [first]
    split
    · exact ih _ more
    split
    · split
      · exact ih _ more
      · exact congrArg₂ List.cons first (ih _ more)
    · exact congrArg₂ List.cons first (ih _ more)

theorem lastNewlineMapped (t : MappedText) : chars (dropLastNewline t) =
    if (chars t).getLast? = some '\n' then (chars t).dropLast else chars t := by
  unfold dropLastNewline
  rcases List.eq_nil_or_concat t with rfl | ⟨front, g, rfl⟩
  · rfl
  · simp only [List.concat_eq_append, List.getLast?_append_cons, List.getLast?_singleton,
      charsAppend, List.dropLast_concat, apply_ite chars]
    simp [chars]

def statements (source : List Char) : List (List Char) :=
  ((logicalLines source).map chars).filter (!·.isEmpty)

theorem emptyAdds (s : Sheet) : s.add [] = .ok s := rfl

theorem foldFilled (lines : List MappedText) (s : Sheet) :
    (lines.filter fun line => !(chars line).isEmpty).foldlM Sheet.add s = lines.foldlM Sheet.add s := by
  induction lines generalizing s with
  | nil => rfl
  | cons line lines ih =>
    cases line with
    | nil =>
      rw [List.foldlM_cons, emptyAdds, okBind, ← ih s]
      rfl
    | cons g line =>
      rw [List.foldlM_cons, List.filter_cons_of_pos rfl, List.foldlM_cons]
      exact bind_congr ih

theorem sheetAlike (same : statements source = statements edited) :
    viewed Sheet.content (Sheet.read source) = viewed Sheet.content (Sheet.read edited) := by
  rw [Sheet.read, Sheet.read, ← foldFilled, ← foldFilled (logicalLines edited)]
  rw [statements, statements, List.filter_map, List.filter_map] at same
  exact viewedFold (fun _ _ _ _ => addAlike) same rfl

def Prepared.content (p : Prepared) : List Char × List (Nat × String) × Metadata :=
  (chars p.expression, p.colors, p.metadata)

theorem spacedAlike (registry : Registry) (same : statements source = statements edited) :
    viewed (Prod.map Prepared.content id) (spaced source registry) =
      viewed (Prod.map Prepared.content id) (spaced edited registry) := by
  unfold spaced
  refine viewedBind (sheetAlike same) fun sheet other read => ?_
  obtain ⟨metadata, definitions, expression⟩ := Sheet.contentParts read
  refine viewedBind (bracketsAlike expression) fun _ _ _ => ?_
  refine viewedBind (viewedFold (fun _ _ _ _ => defineAlike) definitions ?_) fun draft second made => ?_
  · simp [Draft.content, commasAlike expression]
  obtain ⟨registered, _, text⟩ := Draft.contentParts made
  refine viewedBind (takeAlike text) fun colored again taken => viewedOk ?_
  obtain ⟨left, colors⟩ := Prod.mk.inj taken
  have stepped : chars (replaceAll stepRule colored.expression) =
      chars (replaceAll stepRule again.expression) := replaceAlike rfl left
  simp only [Prod.map, Prepared.content, id, metadata, registered, colors, stepped]

theorem prepareAlike (registry : Registry) (same : statements source = statements edited) :
    viewed (Prod.map Prepared.content id) (prepare source registry) =
      viewed (Prod.map Prepared.content id) (prepare edited registry) := by
  refine viewedBind (spacedAlike registry same) fun first second made => viewedOk ?_
  obtain ⟨content, registered⟩ := Prod.mk.inj made
  simp only [Prepared.content, Prod.mk.injEq] at content
  obtain ⟨text, colors, metadata⟩ := content
  simp only [Prod.map, Prepared.content, registered, colors, metadata, lastNewlineMapped,
    blanksAlike true text]

end Source
end Crochet
