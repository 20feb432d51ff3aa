import Crochet.Proofs.Row.ReadBack
import Crochet.Proofs.Source.Unplaced

/-! Comments and blank lines say nothing. What a line of the source adds is settled by what stands
before its comment, and a line with nothing there is one that no purpose is found for, unless the line
before it goes on. -/
namespace Crochet.Source
open MappedText hiding trimStart trimEnd after?
open Text

def spoken (line : List Char) : List Char := trimEnd (chars (uncomment (ofSource line)))

/- Whether the next line belongs to this one. -/
def Continues (line : List Char) : Prop := ['\\'] <:+ spoken line

def Silent (line : List Char) : Prop := ∀ c ∈ (trimStart line).head?, c = '#'

/- A source with one more comment, at the end of a line or on a line of its own. -/
inductive Annotated (source : List Char) : List Char → Prop where
  | comment {before after : List (List Char)} {line text : List Char}
      (lines : pieces (· == '\n') source = before ++ line :: after)
      (plain : ∀ mark ∈ [colorMark, backgroundMark], ¬ mark <:+ trimEnd line)
      (single : '\n' ∉ text) :
      Annotated source (['\n'].intercalate (before ++ (line ++ " # ".toList ++ text) :: after))
  | line {before after : List (List Char)} {line : List Char}
      (lines : pieces (· == '\n') source = before ++ after)
      (last : ∀ other ∈ before.getLast?, ¬ Continues other)
      (silent : Silent line) (single : '\n' ∉ line) :
      Annotated source (['\n'].intercalate (before ++ line :: after))

variable {t current : MappedText} {raws : List MappedText} {before : List (List Char)}

theorem uncommentAlike {u : MappedText} (before : List Char) (same : chars t = chars u) :
    chars (uncommentAfter before t) = chars (uncommentAfter before u) := by
  induction t generalizing before u with
  | nil =>
    cases charsNil same
    rfl
  | cons g t ih =>
    obtain ⟨h, u, rfl, first, more⟩ := charsCons same
    unfold uncommentAfter
    rw [first]
    split
    · rfl
    · exact congrArg₂ List.cons first (ih _ more)

theorem spokenChars (raw : MappedText) : trimEnd (chars (uncomment raw)) = spoken (chars raw) :=
  congrArg trimEnd (uncommentAlike [] (copiedChars 0 (chars raw)).symm)

theorem uncommentAppend (before : List Char) (t u : MappedText) :
    uncommentAfter before (t ++ u) = t ++ uncommentAfter ((chars t).reverse ++ before) u ∧
        uncommentAfter before t = t ∨
      uncommentAfter before (t ++ u) = uncommentAfter before t := by
  induction t generalizing before with
  | nil => exact .inl ⟨rfl, rfl⟩
  | cons g t ih =>
    rw [List.cons_append, uncommentAfter, uncommentAfter]
    split
    · exact .inr rfl
    · rcases ih (g.char :: before) with ⟨open', whole⟩ | hidden
      · refine .inl ⟨?_, by rw [whole]⟩
        simp [open', chars]
      · exact .inr (by rw [hidden])

theorem wantsColorIff (before : List Char) : wantsColor before = true ↔
    ∃ mark ∈ [colorMark, backgroundMark], mark <:+ trimEnd before.reverse := by
  have marked (mark : List Char) : (Text.after? mark.reverse (before.dropWhile isBlank)).isSome = true ↔
      mark <:+ trimEnd before.reverse := by
    rw [trimEnd, List.reverse_reverse, ← List.reverse_prefix, List.reverse_reverse]
    constructor
    · intro found
      obtain ⟨rest, found⟩ := Option.isSome_iff_exists.mp found
      exact ⟨rest, (afterParts found).symm⟩
    · rintro ⟨rest, whole⟩
      rw [← whole, afterStart]
      rfl
  simp only [wantsColor, List.any_cons, List.any_nil, Bool.or_eq_true, marked]
  simp

theorem trimEndBlank (cs : List Char) {c : Char} (blank : isBlank c = true) :
    trimEnd (cs ++ [c]) = trimEnd cs := by
  rw [trimEnd, List.reverse_append, List.reverse_singleton, List.singleton_append,
    List.dropWhile_cons_of_pos blank, trimEnd]

theorem spokenComment {line : List Char} (text : List Char)
    (plain : ∀ mark ∈ [colorMark, backgroundMark], ¬ mark <:+ trimEnd line) :
    spoken (line ++ " # ".toList ++ text) = spoken line := by
  have space : isBlank ' ' = true := rfl
  have free : wantsColor (' ' :: line.reverse) = false := by
    rw [Bool.eq_false_iff, Ne, wantsColorIff, List.reverse_cons, List.reverse_reverse,
      trimEndBlank line space]
    rintro ⟨mark, member, ends⟩
    exact plain mark member ends
  have parts : chars (ofSource (line ++ " # ".toList ++ text)) =
      chars (ofSource line ++ madeText 0 (" # ".toList ++ text)) := by
    rw [charsAppend, charsMade, ofSource, copiedChars, ofSource, copiedChars,
      List.append_assoc]
  rw [spoken, uncomment, uncommentAlike [] parts, spoken, uncomment]
  rcases uncommentAppend [] (ofSource line) (madeText 0 (" # ".toList ++ text)) with ⟨open', whole⟩ | hidden
  · have behind : uncommentAfter line.reverse (madeText 0 (" # ".toList ++ text)) = [made 0 ' '] := by
      simp [madeText, made, uncommentAfter, free]
    rw [open', whole, ofSource, copiedChars, List.append_nil, behind, charsAppend,
      copiedChars]
    exact trimEndBlank line space
  · rw [hidden]

theorem trimEndNone {cs : List Char} (blank : ∀ c ∈ cs, isBlank c = true) : trimEnd cs = [] := by
  rw [trimEnd, List.reverse_eq_nil_iff, List.dropWhile_eq_nil_iff]
  exact fun c member => blank c (List.mem_reverse.mp member)

theorem silentBlank {before : List Char} (behind : ∀ c ∈ before, isBlank c = true)
    (silent : Silent (chars t)) : ∀ c ∈ chars (uncommentAfter before t), isBlank c = true := by
  induction t generalizing before with
  | nil => simp [uncommentAfter, chars]
  | cons g t ih =>
    have whole : chars (g :: t) = g.char :: chars t := rfl
    rw [whole, Silent, trimStart] at silent
    rw [uncommentAfter]
    cases blank : isBlank g.char with
    | true =>
      rw [List.dropWhile_cons_of_pos blank] at silent
      split
      · simp [chars]
      · exact List.forall_mem_cons.mpr ⟨blank, ih (List.forall_mem_cons.mpr ⟨blank, behind⟩) silent⟩
    | false =>
      rw [List.dropWhile_cons_of_neg (by simp [blank])] at silent
      have mark : g.char = '#' := silent _ rfl
      have free : wantsColor before = false := by
        rw [wantsColor, List.dropWhile_eq_nil_iff.mpr behind]
        rfl
      simp [mark, free, chars]

theorem silentSpoken {line : List Char} (silent : Silent line) : spoken line = [] := by
  rw [← copiedChars 0 line] at silent
  exact trimEndNone (silentBlank (by simp) silent)

def plainChar? (c : Char) : Option Char :=
  if c = '\r' then none else some (if c = '\t' then ' ' else c)

def adds (content : List Char) : List Char × Bool :=
  if content.getLast? = some '\\' then (content.dropLast.filterMap plainChar?, true)
  else (content.filterMap plainChar?, false)

theorem plainChars (t : MappedText) : chars (t.filterMap plainGlyph?) = (chars t).filterMap plainChar? := by
  induction t with
  | nil => rfl
  | cons g t ih =>
    by_cases dropped : g.char = '\r'
    · simpa [plainGlyph?, plainChar?, chars, dropped] using ih
    · simpa [plainGlyph?, plainChar?, chars, dropped, made] using ih

theorem bodyAdds (raw : MappedText) :
    (chars (lineBody raw).1, (lineBody raw).2) = adds (spoken (chars raw)) := by
  rw [← spokenChars, ← trimEndChars]
  unfold lineBody adds
  rcases List.eq_nil_or_concat (MappedText.trimEnd (uncomment raw)) with none | ⟨front, g, last⟩
  · rw [none]
    rfl
  · rw [last, List.concat_eq_append]
    simp only [List.getLast?_append_cons, List.getLast?_singleton, charsAppend]
    have ends : (chars front ++ chars [g]).getLast? = some g.char := List.getLast?_concat
    simp only [ends, Option.some.injEq]
    split
    · rw [List.dropLast_concat, plainChars]
      exact congrArg (Prod.mk · true) (congrArg _ List.dropLast_concat.symm)
    · rw [plainChars, charsAppend]

theorem joinAlike {other : MappedText} {lines : List MappedText}
    (start : chars current = chars other)
    (same : raws.map (spoken <| chars ·) = lines.map (spoken <| chars ·)) :
    (joinLines current raws).map chars = (joinLines other lines).map chars := by
  induction raws generalizing current other lines with
  | nil =>
    cases List.map_eq_nil_iff.mp same.symm
    have size : current.isEmpty = other.isEmpty := by simpa [chars] using congrArg List.isEmpty start
    rw [joinLines, joinLines, size]
    split
    · rfl
    · simp [start]
  | cons raw raws ih =>
    obtain ⟨line, lines, rfl, first, rest⟩ := List.map_eq_cons_iff.mp same.symm
    have body := (bodyAdds raw).trans ((congrArg adds first.symm).trans (bodyAdds line).symm)
    obtain ⟨text, goes⟩ := Prod.mk.inj body
    have whole : chars (current ++ (lineBody raw).1) = chars (other ++ (lineBody line).1) := by
      rw [charsAppend, charsAppend, start, text]
    rw [joinLines, joinLines]
    generalize lineBody raw = own, lineBody line = second at goes whole
    obtain ⟨own, more⟩ := own
    obtain ⟨second, further⟩ := second
    cases goes
    cases more with
    | true => exact ih whole rest.symm
    | false => exact congrArg₂ List.cons whole (ih rfl rest.symm)

/- A line that does not go on ends what is joined before it. -/
theorem joinAppend (more : List MappedText) (fresh : raws = [] → current = [])
    (last : ∀ raw ∈ raws.getLast?, (lineBody raw).2 = false) :
    joinLines current (raws ++ more) = joinLines current raws ++ joinLines [] more := by
  induction raws generalizing current with
  | nil =>
    cases fresh rfl
    rfl
  | cons raw raws ih =>
    have later : ∀ other ∈ raws.getLast?, (lineBody other).2 = false := by
      intro other member
      refine last other ?_
      rw [List.getLast?_cons, member]
      rfl
    rw [List.cons_append, joinLines, joinLines]
    cases parts : lineBody raw with
    | mk body goes =>
      cases goes with
      | false => rw [ih (fun _ => rfl) later]; rfl
      | true =>
        refine ih (fun none => ?_) later
        subst none
        have stops := last raw rfl
        rw [parts] at stops
        cases stops

theorem piecesMapped (m : Char) (t : MappedText) :
    (pieces (·.char == m) t).map chars = pieces (· == m) (chars t) := by
  induction t with
  | nil => rfl
  | cons g t ih =>
    have whole : chars (g :: t) = g.char :: chars t := rfl
    rw [whole, pieces, pieces, ← ih]
    split
    · rfl
    · cases pieces (·.char == m) t <;> rfl

theorem piecesFree (m : Char) (cs : List Char) : ∀ piece ∈ pieces (· == m) cs, m ∉ piece := by
  induction cs with
  | nil => simp [pieces]
  | cons c cs ih =>
    rw [pieces]
    split
    · exact List.forall_mem_cons.mpr ⟨List.not_mem_nil, ih⟩
    · rename_i other
      have apart : m ≠ c := fun same => other (by simp [same])
      split
      · simpa using apart
      · rename_i piece rest found
        rw [found] at ih
        obtain ⟨first, more⟩ := List.forall_mem_cons.mp ih
        exact List.forall_mem_cons.mpr ⟨by simp [apart, first], more⟩

def joined (lines : List (List Char)) : List (List Char) :=
  (joinLines [] (lines.map ofSource)).map chars

theorem statementsJoined (source : List Char) :
    statements source = (joined (pieces (· == '\n') source)).filter (!·.isEmpty) := by
  have raws := congrArg (List.map spoken) (piecesMapped '\n' (ofSource source))
  rw [ofSource, copiedChars, List.map_map] at raws
  have same : (logicalLines source).map chars = joined (pieces (· == '\n') source) := by
    refine joinAlike rfl ?_
    rw [List.map_map]
    refine raws.trans (List.map_congr_left fun line _ => ?_)
    rw [Function.comp_apply, ofSource, copiedChars]
  rw [statements, same]

theorem statementsLines {lines : List (List Char)} (some : lines ≠ []) (free : ∀ line ∈ lines, '\n' ∉ line) :
    statements (['\n'].intercalate lines) = (joined lines).filter (!·.isEmpty) := by
  rw [statementsJoined, piecesJoined some free]

theorem joinedComment {after : List (List Char)} {line other : List Char}
    (same : spoken line = spoken other) :
    joined (before ++ line :: after) = joined (before ++ other :: after) := by
  refine joinAlike rfl ?_
  simp only [List.map_append, List.map_cons, List.map_map, ofSource, copiedChars, same]

theorem joinedAppend (after : List (List Char)) (last : ∀ line ∈ before.getLast?, ¬ Continues line) :
    joined (before ++ after) = joined before ++ joined after := by
  rw [joined, List.map_append, joinAppend _ (fun _ => rfl), List.map_append, joined, joined]
  intro raw member
  rw [List.getLast?_map] at member
  obtain ⟨line, final, rfl⟩ := Option.map_eq_some_iff.mp member
  have body := congrArg Prod.snd (bodyAdds (ofSource line))
  rw [body, ofSource, copiedChars, adds]
  split
  · rename_i ends
    obtain ⟨init, same⟩ := List.getLast?_eq_some_iff.mp ends
    exact absurd ⟨init, same.symm⟩ (last line final)
  · rfl

theorem joinedSilent {line : List Char} (after : List (List Char)) (silent : Silent line) :
    joined (line :: after) = [] :: joined after := by
  have body := bodyAdds (ofSource line)
  rw [ofSource, copiedChars, silentSpoken silent] at body
  obtain ⟨text, goes⟩ := Prod.mk.inj body
  have silence : lineBody (ofSource line) = ([], false) := Prod.ext (List.map_eq_nil_iff.mp text) goes
  rw [joined, List.map_cons, joinLines, silence]
  rfl

theorem annotatedStatements {source edited : List Char} (edit : Annotated source edited) :
    statements source = statements edited := by
  have free := piecesFree '\n' source
  rw [statementsJoined]
  cases edit with
  | @comment before after line text lines plain single =>
    rw [lines] at free ⊢
    rw [List.forall_mem_append, List.forall_mem_cons] at free
    rw [statementsLines (by simp), joinedComment (spokenComment text plain)]
    refine List.forall_mem_append.mpr ⟨free.1, List.forall_mem_cons.mpr ⟨?_, free.2.2⟩⟩
    simp [free.2.1, single]
  | @line before after line lines last silent single =>
    rw [lines] at free ⊢
    rw [List.forall_mem_append] at free
    rw [statementsLines (by simp), joinedAppend _ last, joinedAppend _ last, joinedSilent _ silent]
    · simp
    · exact List.forall_mem_append.mpr ⟨free.1, List.forall_mem_cons.mpr ⟨single, free.2⟩⟩

theorem commentsInert {source edited : List Char} (edit : Annotated source edited) (registry : Registry) :
    (∀ prepared after, prepare source registry = .ok (prepared, after) →
      ∃ again, prepare edited registry = .ok (again, after) ∧
        chars again.expression = chars prepared.expression ∧ again.colors = prepared.colors ∧
        again.metadata = prepared.metadata) ∧
    ∀ fault, prepare source registry = .error fault →
      ∃ other, prepare edited registry = .error other ∧ other.cause = fault.cause := by
  have same := prepareAlike registry (annotatedStatements edit)
  refine ⟨fun prepared after ok => ?_, fun fault failed => viewedFails same failed⟩
  obtain ⟨⟨again, further⟩, succeeds, content⟩ := viewedSucceeds same ok
  obtain ⟨parts, registered⟩ := Prod.mk.inj content
  cases registered
  obtain ⟨expression, parts⟩ := Prod.mk.inj parts
  obtain ⟨colors, metadata⟩ := Prod.mk.inj parts
  exact ⟨again, succeeds, expression, colors, metadata⟩

def swatch (lines : List String) : List Char := ['\n'].intercalate (lines.map String.toList)

def swatchPlain : List Char := swatch ["DEF: p=2sc", "ch,\\", " COLOR:#fff,p"]

theorem swatchNoted : Annotated swatchPlain (swatch ["DEF: p=2sc", "ch,\\ # go \\", " COLOR:#fff,p"]) :=
  @Annotated.comment _ ["DEF: p=2sc".toList] [" COLOR:#fff,p".toList] "ch,\\".toList "go \\".toList rfl
    (by decide) (by decide)

theorem swatchHeaded : Annotated swatchPlain
    (swatch ["DEF: p=2sc", "\t# COLOR:", "ch,\\", " COLOR:#fff,p"]) := by
  refine @Annotated.line _ ["DEF: p=2sc".toList] ["ch,\\".toList, " COLOR:#fff,p".toList]
    "\t# COLOR:".toList rfl ?_ ?_ (by decide)
  · rintro _ ⟨⟩
    unfold Continues
    decide
  · rintro _ ⟨⟩
    rfl

theorem commentsInertAtJoin : ∃ prepared after noted headed,
    prepare swatchPlain {} = .ok (prepared, after) ∧ prepared.colors = [(4, "#fff")] ∧
    prepare (swatch ["DEF: p=2sc", "ch,\\ # go \\", " COLOR:#fff,p"]) {} = .ok (noted, after) ∧
    noted.colors = prepared.colors ∧
    prepare (swatch ["DEF: p=2sc", "\t# COLOR:", "ch,\\", " COLOR:#fff,p"]) {} = .ok (headed, after) ∧
    headed.colors = prepared.colors := by
  have runs : (prepare swatchPlain {}).toOption.any (·.1.colors == [(4, "#fff")]) = true := by
    decide +kernel
  obtain ⟨⟨prepared, after⟩, ok, colors⟩ := testOk runs
  obtain ⟨noted, first, _, one, _⟩ := (commentsInert swatchNoted {}).1 prepared after ok
  obtain ⟨headed, second, _, two, _⟩ := (commentsInert swatchHeaded {}).1 prepared after ok
  exact ⟨prepared, after, noted, headed, ok, eq_of_beq colors, first, one, second, two⟩

end Crochet.Source
