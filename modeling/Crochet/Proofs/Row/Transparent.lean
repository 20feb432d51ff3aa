import Crochet.Proofs.Color.Passes
import Crochet.Proofs.Row.Passage
import Crochet.Proofs.Token.Enclosed

/-! Bare groups are transparent: brackets put around complete items, with nothing hung on them, leave
the rows as they are. What stands inside is read as it was on its own level, and a group without labels
and attachment adds the steps of what it holds. -/
namespace Crochet.Row
open Token Text
open MappedText (chars charsAppend origins spanIn)

variable {b : Bracket} {u : Token}

section
variable {place place' : Span → Span} {start c d : Cursor} {outer : List Waiting}
  {level final other inner : Level} {t : Token} {tail : List Token}

theorem bareAlike (span : Span) (adds : level.Adds final {} inner) (same : level.Alike other) :
    final.Alike (other.put (.group inner.done [] none span)) := by
  intro s r around
  obtain ⟨added, here, there⟩ := adds s r around
  have bare : r.add [] none = r := by simp [Surround.add]
  rw [emptySteps, List.map_nil, List.nil_append] at there
  rw [putSteps, nodeSteps, bare, List.map_append, here, same s r around]
  exact congrArg _ there.symm

theorem closeNoItem {node : Node} {after : Cursor} (closes : t.kind = .closes b) :
    itemFrom place t c ≠ .ok (node, after) := by
  intro read
  simp only [itemFrom, closes, faultAt] at read
  cases read

theorem Passage.begins (passage : Passage place level c final d) (taken : c.rest = t :: tail ++ d.rest)
    (plain : t.kind.isSeparator = false) : ¬ Ends c.rest ∧
      Passage place level ⟨c.last, { t with lead := [] } :: (tail ++ d.rest)⟩ final d := by
  have inside {kind : Token.Kind} (same : t.kind = kind) (closes : kind.isClose = false) :
      ¬ Ends (t :: (tail ++ d.rest)) := by
    intro ends
    have stops := ends t rfl
    rw [plain, same, closes] at stops
    cases stops
  cases passage with
  | stay =>
    have length := congrArg List.length taken
    simp only [List.length_append, List.length_cons] at length
    omega
  | comma kind =>
    cases taken
    rw [kind] at plain
    cases plain
  | newline kind =>
    cases taken
    rw [kind] at plain
    cases plain
  | item read ends more =>
    cases taken
    refine ⟨inside rfl ?_, .item read ends more⟩
    cases closes : t.kind with
    | closes b => exact absurd read (closeNoItem closes)
    | _ => rfl
  | group opens content closes read ends more =>
    cases taken
    exact ⟨inside opens rfl, .group opens content closes read ends more⟩

def Divided (ts rest : List Token) : Prop :=
  Ends rest ∨ ∃ front u, ts = front ++ u :: rest ∧ u.kind.isSeparator = true

theorem dividedBehind {used ts rest : List Token} (here : Divided (used ++ ts) ts)
    (later : ts = rest ∨ Divided ts rest) : Divided (used ++ ts) rest := by
  rcases later with rfl | ends | ⟨front, u, rfl, separates⟩
  · exact here
  · exact .inl ends
  · exact .inr ⟨used ++ front, u, by simp, separates⟩

theorem Passage.ends (passage : Passage place level c final d) :
    c.rest = d.rest ∨ Divided c.rest d.rest := by
  induction passage with
  | stay => exact .inl rfl
  | @comma _ _ _ t _ _ kind _ ih =>
    exact .inr (@dividedBehind [t] _ _ (.inr ⟨[], t, rfl, by rw [kind]; rfl⟩) ih)
  | @newline _ _ _ t _ _ kind _ ih =>
    exact .inr (@dividedBehind [t] _ _ (.inr ⟨[], t, rfl, by rw [kind]; rfl⟩) ih)
  | @item _ _ _ t rest _ after _ read ends _ ih =>
    obtain ⟨used, parts, _⟩ := itemFollows place place rfl rfl _ _ _ read
    have whole : t :: rest = t :: used ++ after.rest := congrArg (t :: ·) parts
    exact .inr (whole ▸ dividedBehind (.inl ends) ih)
  | @group _ _ _ _ _ t u rest later _ _ after _ opens content closes read ends _ _ ih =>
    obtain ⟨first, parts, _⟩ := content.follows
    obtain ⟨used, parts', _⟩ := suffixesFollow place place ⟨rfl, rfl⟩ _ _ _ read
    have whole : t :: rest = t :: (first ++ u :: used) ++ after.rest := by
      have front : rest = first ++ u :: later := parts
      have behind : later = used ++ after.rest := parts'
      simp [front, behind]
    exact .inr (whole ▸ dividedBehind (.inl ends) ih)

theorem Passage.finished (passage : Passage place level c final d)
    (taken : c.rest = t :: tail ++ d.rest) (last : (t :: tail).getLast? = some u)
    (plain : u.kind.isSeparator = false) : Ends d.rest := by
  rcases passage.ends with same | ends | ⟨front, v, parts, separates⟩
  · have length := congrArg List.length (same.symm.trans taken)
    simp only [List.length_append, List.length_cons] at length
    omega
  · exact ends
  · rw [taken, List.append_cons, List.append_cancel_right_eq] at parts
    rw [parts, List.getLast?_concat] at last
    cases last
    rw [plain] at separates
    cases separates

theorem enclosedReads {lines : List (List Node)} (arrives : Arrives place start outer level c)
    (passage : Passage place level c final d) (ok : linesFrom place [] {} start = .ok lines)
    (taken : c.rest = t :: tail ++ d.rest) (begins : t.kind.isSeparator = false)
    (last : (t :: tail).getLast? = some u) (ends : u.kind.isSeparator = false) :
    ∃ front, start.rest = front ++ c.rest ∧
      ∀ place' from' front' middle back opening closing, Token.Alike front front' →
        Token.Alike ({ t with lead := [] } :: tail) middle → Token.Alike d.rest back →
        opening.kind = .opens b → closing.kind = .closes b → ∃ lines',
          linesFrom place' [] {} ⟨from', front' ++ opening :: (middle ++ closing :: back)⟩ = .ok lines' ∧
            (linesSteps {} lines).map Step.unplaced = (linesSteps {} lines').map Step.unplaced := by
  obtain ⟨item, passage'⟩ := passage.begins taken begins
  have finished : Ends d.rest := passage.finished taken last ends
  have finishes : Finishes place outer final d lines := by
    refine linesFinish ?_
    rw [← passage.reads, ← arrives.reads, ok]
  obtain ⟨front, parts, run⟩ := arrives.follows
  obtain ⟨used, parts', inside⟩ := passage'.follows
  cases List.append_cancel_right ((List.cons_append).trans parts')
  refine ⟨front, parts, fun place' from' front' middle back opening closing fronts middles backs opens
    closes => ?_⟩
  obtain ⟨outer', level', behind, arrives', waiting, same⟩ :=
    run place' from' front' (opening :: (middle ++ closing :: back)) fronts fun here => absurd here item
  obtain ⟨inner, behind', content, adds⟩ :=
    inside place' {} opening.stop middle (closing :: back) middles fun _ => endsClosed closes
  have still : Ends (back ++ []) :=
    endsAppend backs (fun _ => by rintro _ ⟨⟩) (by rwa [List.append_nil] : Ends (d.rest ++ []))
  rw [List.append_nil] at still
  have group : Passage place' level' ⟨behind, opening :: (middle ++ closing :: back)⟩
      (level'.put (.group inner.done [] none (place' (opening.span.merge closing.span))))
      ⟨closing.stop, back⟩ :=
    .group opens content closes (suffixesEnd place' {} still) still .stay
  obtain ⟨lines', finishes', steps⟩ := finishes.follows waiting (bareAlike _ adds same) backs
  exact ⟨lines', by rw [arrives'.reads, group.reads, finishes'.reads], steps⟩

end

/- `mid` is a run of complete items of a text: read at one level of nesting, whatever groups are open
there, from the first token of an item to the last token of an item. -/
inductive ItemRun (pre mid post : MappedText) : Prop where
  | intro {outer : List Waiting} {level final : Level} {c d : Cursor} {middle : List Token}
      {first last : Token}
      (arrives : Arrives (spanIn (origins (pre ++ mid ++ post)))
        (Cursor.ofText (chars (pre ++ mid ++ post))) outer level c)
      (passage : Passage (spanIn (origins (pre ++ mid ++ post))) level c final d)
      (taken : c.rest = middle ++ d.rest) (head : middle.head? = some first)
      (begins : first.kind.isSeparator = false) (start : first.start = byteLength (chars pre))
      (tail : middle.getLast? = some last) (ends : last.kind.isSeparator = false)
      (stop : last.stop = byteLength (chars (pre ++ mid)))

theorem runForgets {colors : List (Nat × String)} {f flat : Flat} {steps : List Step}
    (ok : steps.foldlM (Flat.step colors) f = .ok flat) :
    (steps.map Step.unplaced).foldlM (Flat.step colors) f.unplaced = .ok flat.unplaced := by
  have one {f next : Flat} {step : Step} (ok : f.step colors step = .ok next) :
      f.unplaced.step colors step.unplaced = .ok next.unplaced := by
    cases step with
    | item kind labels attached span =>
      cases ok
      simp [Flat.step, Step.unplaced, Flat.put, Flat.unplaced, Item.unplaced]
    | color key span =>
      simp only [Flat.step, Step.unplaced] at ok ⊢
      cases found : colors.lookup key with
      | none => rw [found] at ok; cases ok
      | some color => rw [found] at ok; cases ok; rfl
    | endLine =>
      cases ok
      exact congrArg Except.ok (endLineUnplaced f).symm
  induction steps generalizing f with
  | nil => cases pureOk ok; rfl
  | cons step rest ih =>
    obtain ⟨next, first, more⟩ := foldConsOk ok
    rw [List.map_cons, List.foldlM_cons, one first]
    exact ih more

theorem bareGroupTransparent {pre mid post : MappedText} {opening closing : Glyph} {b : Bracket}
    {colors : List (Nat × String)} {color : String} {rows : Rows}
    (ok : parseRows (pre ++ mid ++ post) colors color = .ok rows) (items : ItemRun pre mid post)
    (opens : opening.char = b.opening) (closes : closing.char = b.closing) : ∃ again,
      parseRows (pre ++ opening :: (mid ++ closing :: post)) colors color = .ok again ∧
        again.map (List.map Item.unplaced) = rows.map (List.map Item.unplaced) := by
  obtain ⟨lines, flat, parsed, run, rfl, quiet⟩ := parseRowsIff.mp ok
  obtain @⟨outer, level, final, c, d, middle, first, last, arrives, passage, taken, head, begins, start,
    tail, ends, stop⟩ := items
  obtain ⟨behind, rfl⟩ := List.head?_eq_some_iff.mp head
  obtain ⟨front, parts, reads⟩ := enclosedReads (b := b) arrives passage parsed taken begins tail ends
  have scanned : tokens (chars pre ++ chars mid ++ chars post) = front ++ (first :: behind ++ d.rest) := by
    rw [← taken, ← parts, Cursor.ofText, charsAppend, charsAppend]
  rw [charsAppend] at stop
  obtain ⟨front', middle, back, o, e, text, fronts, middles, backs, open', close'⟩ :=
    enclosedTokens b scanned start tail stop
  obtain ⟨lines', parsed', steps⟩ := reads (spanIn (origins (pre ++ opening :: (mid ++ closing :: post)))) 0
    front' middle back o e fronts middles backs open' close'
  have whole : chars (pre ++ opening :: (mid ++ closing :: post)) =
      chars pre ++ b.opening :: (chars mid ++ b.closing :: chars post) := by
    simp [chars, opens, closes]
  have parsed'' : parseLines (pre ++ opening :: (mid ++ closing :: post)) = .ok lines' := by
    rw [parseLines, Cursor.ofText, whole, text]
    exact parsed'
  have forgets := runForgets run
  rw [steps] at forgets
  rw [rowsUnplaced]
  exact parsesAs parsed'' forgets (by rw [← rowsUnplaced]; exact earlyUnplaced.mpr quiet)

def turnedBefore : MappedText := MappedText.copied 0 "ch,(".toList
def turnedItems : MappedText := MappedText.copied 4 "sc\n[dc],turn".toList
def turnedAfter : MappedText := MappedText.copied 16 ")".toList

def plainToken (kind : Token.Kind) (lexeme : String) (start : Nat) : Token := ⟨kind, [], lexeme.toList, start⟩

def turnedTokens : List Token := [plainToken .name "sc" 4, plainToken .newline "\n" 6,
  plainToken (.opens .square) "[" 7, plainToken .name "dc" 8, plainToken (.closes .square) "]" 10,
  plainToken .comma "," 11, plainToken .turn "turn" 12]

theorem bareReads {place : Span → Span} {t : Token} {c : Cursor} (name : t.kind = .name)
    (ends : Ends c.rest) :
    itemFrom place t c = .ok (.stitch t.text [] none (place t.span), c) := by
  simp only [itemFrom, name, suffixesEnd place {} ends]
  rfl

theorem turnedRead (place : Span → Span) : ∃ outer level final,
    Arrives place (Cursor.ofText (chars (turnedBefore ++ turnedItems ++ turnedAfter))) outer level
      ⟨4, turnedTokens ++ [plainToken (.closes .round) ")" 16]⟩ ∧
    Passage place level ⟨4, turnedTokens ++ [plainToken (.closes .round) ")" 16]⟩ final
      ⟨16, [plainToken (.closes .round) ")" 16]⟩ := by
  have scanned : Cursor.ofText (chars (turnedBefore ++ turnedItems ++ turnedAfter)) =
      ⟨0, plainToken .name "ch" 0 :: plainToken .comma "," 2 :: plainToken (.opens .round) "(" 3 ::
        (turnedTokens ++ [plainToken (.closes .round) ")" 16])⟩ := by decide +kernel
  have ends {t : Token} {rest : List Token} (kind : (t.kind.isSeparator || t.kind.isClose) = true) :
      Ends (t :: rest) := by
    rintro _ ⟨⟩
    exact kind
  have bare : Unhung [plainToken (.closes .round) ")" 16] := by
    rintro _ ⟨⟩
    exact ⟨by decide, by decide⟩
  rw [scanned]
  exact ⟨_, _, _,
    .opens (.passage .start (.item (bareReads rfl (ends rfl)) (ends rfl) (.comma rfl .stay))) rfl,
    .item (bareReads rfl (ends rfl)) (ends rfl) (.newline rfl (.group rfl
      (.item (bareReads rfl (ends rfl)) (ends rfl) .stay) rfl (suffixesEnd place {} (ends rfl)) (ends rfl)
      (.comma rfl (.item (turnReads place rfl bare) (ends rfl) .stay))))⟩

theorem turnedRun : ItemRun turnedBefore turnedItems turnedAfter := by
  obtain ⟨outer, level, final, arrives, passage⟩ := turnedRead _
  exact .intro arrives passage rfl rfl rfl rfl rfl rfl rfl

theorem turnedEnclosed : ∃ rows again,
    parseRows (turnedBefore ++ turnedItems ++ turnedAfter) [] "red" = .ok rows ∧ rows.length = 2 ∧
    parseRows (turnedBefore ++ MappedText.made 4 '\x7b' ::
      (turnedItems ++ MappedText.made 15 '\x7d' :: turnedAfter)) [] "red" = .ok again ∧
    again.map (List.map Item.unplaced) = rows.map (List.map Item.unplaced) := by
  have runs : (parseRows (turnedBefore ++ turnedItems ++ turnedAfter) [] "red").toOption.any
      (·.length == 2) = true := by decide +kernel
  obtain ⟨rows, ok, length⟩ := testOk runs
  obtain ⟨again, parsed, same⟩ := @bareGroupTransparent _ _ _ (MappedText.made 4 '\x7b')
    (MappedText.made 15 '\x7d') .curly _ _ _ ok turnedRun rfl rfl
  exact ⟨rows, again, ok, eq_of_beq length, parsed, same⟩

end Crochet.Row
