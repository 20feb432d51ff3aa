import Crochet.Proofs.Row.Spelling
import Crochet.Proofs.Row.Steps
import Crochet.Row.Written

/-! Texts that are read as a known list of steps. What such a text is read as depends on nothing but
the text, as long as an item may end behind it, so texts are put together from parts that are each
read on their own: stitches, labels, groups, commas and line ends. -/
namespace Crochet.Row
open Token Text

def SelectorReads (selector : List Char) : Prop :=
  ∀ ts text, Spells ts (selector ++ ']' :: text) → ∃ closing rest,
    bracketEnd 0 ts = .ok (selector, closing, rest) ∧ Spells rest text

inductive LabelDef.Sound : LabelDef → Prop where
  | intro {name : String} {selector : List Char} {modifiers : Modifiers} {span : Span}
      (word : NameWord name.toList) (closes : selector ≠ [] → SelectorReads selector)
      (posts : ModifiersReread modifiers) :
      LabelDef.Sound ⟨keyOf name selector, modifiers, span⟩

def selectorText (selector : List Char) : List Char :=
  if selector.isEmpty then [] else '[' :: (selector ++ [']'])

theorem keyText (name : String) (selector : List Char) :
    (keyOf name selector).toList = name.toList ++ selectorText selector := by
  unfold keyOf selectorText
  split
  · simp
  · simp only [toString, String.toList_append, String.toList_ofList, List.append_assoc]
    rfl

theorem selectorApart (selector : List Char) : Heads isApart (selectorText selector) := by
  intro c first
  unfold selectorText at first
  split at first <;> cases first
  rfl

variable {c after : Cursor} {l : LabelDef} {s : Suffixes} {a : Attached} {last : Nat} {t : Token}
  {rest : List Token} {b : Bracket}
variable {text : List Char}

section
variable (place : Span → Span)

theorem selectorRead {selector : List Char} (closes : selector ≠ [] → SelectorReads selector)
    (tail : Heads isTail text) (spells : Spells c.rest (selectorText selector ++ text)) :
    ∃ found after, selector? place c = .ok (found, after) ∧
      (found.map Prod.fst).getD [] = selector ∧ Spells after.rest text := by
  cases selector with
  | nil =>
    have none : c.accept? (.opens .square) = none := by
      refine acceptNone fun t first opens => ?_
      obtain ⟨d, head, kind⟩ := spellsHead (headsMono (fun _ => tailApart) tail) spells first
      exact tailOpens (tail d head) (kind.symm.trans opens)
    exact ⟨_, c, by rw [selector?, none], rfl, spells⟩
  | cons d selector =>
    have shown : selectorText (d :: selector) ++ text = '[' :: (d :: selector ++ ']' :: text) := by
      simp [selectorText]
    rw [shown] at spells
    obtain ⟨opening, rest, same, kind, spells⟩ := spellsMark rfl spells
    obtain ⟨closing, rest', closed, spells⟩ := closes (by simp) _ _ spells
    have opened : c.accept? (.opens .square) = some (opening, ⟨opening.stop, rest⟩) := by
      simp only [Cursor.accept?, same]
      exact if_pos kind
    refine ⟨some (d :: selector, closing), ⟨closing.stop, rest'⟩, ?_, rfl, spells⟩
    simp only [selector?, opened, bracketText, closed]
    rfl

theorem labelReads (sound : l.Sound) (dot : Token) (behind : Heads isBehind text)
    (spells : Spells c.rest (l.key.toList ++ (l.modifiers.display.toList ++ text))) :
    ∃ found after, labelDef place dot c = .ok (found, after) ∧ found.unplaced = l.unplaced ∧
      Spells after.rest text := by
  obtain @⟨name, selector, modifiers, span, word, closes, posts⟩ := sound
  have tail : Heads isTail (modifiers.display.toList ++ text) :=
    headsAppend (displayTail modifiers) (headsMono (fun _ => behindTail) behind)
  have apart := headsAppend (selectorApart selector) (headsMono (fun _ => tailApart) tail)
  rw [keyText, List.append_assoc] at spells
  obtain ⟨t, rest, same, kind, lexeme, spells⟩ :=
    spellsName word (headsMono (fun _ => neutralWordEnd) (neutralOf apart)) spells
  have named : labelName place '.' c = .ok (name, ⟨t.stop, rest⟩) := by
    simp only [labelName, same, kind, if_true, Token.text, lexeme, String.ofList_toList]
  obtain ⟨found, c₁, selected, inner, spells⟩ :=
    selectorRead place closes (c := ⟨t.stop, rest⟩) tail spells
  obtain ⟨c₂, marked, spells⟩ := modifiersRead place posts behind spells
  refine ⟨⟨keyOf name selector, modifiers, place ⟨dot.start, c₂.last⟩⟩, c₂, ?_, rfl, spells⟩
  simp only [labelDef, named, selected, marked, bind, Except.bind, inner]
  rfl

structure Attached.ReadsBack (a : Attached) : Prop where
  some : a.raw ≠ ""
  reads : ∀ place mark c text, Heads isEnd text → Spells c.rest (a.raw.toList ++ text) →
    ∃ after, attached place mark c = .ok (a, after) ∧ Spells after.rest text

theorem suffixesMore {next : Suffixes} (step : suffixStep place s c = .ok (some (next, after))) :
    suffixesFrom place s c = suffixesFrom place next after := by
  rw [suffixesFrom]
  split <;> rename_i found <;> cases step.symm.trans found
  rfl

def Unhung (rest : List Token) : Prop :=
  ∀ t, rest.head? = some t → t.kind ≠ .dot ∧ t.kind ≠ .address

theorem endsUnhung {ts : List Token} (ends : Ends ts) : Unhung ts := by
  intro t first
  have kind := ends t first
  constructor <;> intro same <;> rw [same] at kind <;> cases kind

theorem suffixesStop (s : Suffixes) (unhung : Unhung c.rest) :
    suffixesFrom place s c = .ok (s, c) := by
  have step : suffixStep place s c = .ok none := by
    unfold suffixStep
    split
    · rfl
    · rename_i t rest same
      obtain ⟨dot, address⟩ := unhung t (by rw [same]; rfl)
      simp only
  rw [suffixesFrom]
  split <;> rename_i found <;> cases step.symm.trans found
  rfl

theorem suffixesEnd (s : Suffixes) (ends : Ends c.rest) :
    suffixesFrom place s c = .ok (s, c) :=
  suffixesStop place s (endsUnhung ends)

def SuffixReads (text : List Char) (labels : List LabelDef) (attached : Option Attached) : Prop :=
  ∀ place c more, Heads isEnd more → Spells c.rest (text ++ more) → ∃ s after,
    suffixesFrom place {} c = .ok (s, after) ∧ s.labels.map LabelDef.unplaced = labels ∧
      s.attached = attached ∧ Spells after.rest more

end

theorem labelShown (l : LabelDef) :
    l.written.toList = '.' :: (l.key.toList ++ l.modifiers.display.toList) := by
  simp only [LabelDef.written, toString, String.toList_append, List.append_assoc]
  rfl

theorem suffixLabel (sound : l.Sound) (place : Span → Span) (behind : Heads isBehind text)
    (spells : Spells c.rest (l.written.toList ++ text)) :
    ∃ found after,
      suffixesFrom place {} c = suffixesFrom place { labels := [found] } after ∧
        found.unplaced = l.unplaced ∧ Spells after.rest text := by
  rw [labelShown, List.cons_append, List.append_assoc] at spells
  obtain ⟨dot, rest, same, kind, spells⟩ := spellsMark rfl spells
  obtain ⟨found, after, read, placed, spells⟩ :=
    labelReads place sound dot (c := ⟨dot.stop, rest⟩) behind spells
  refine ⟨found, after, suffixesMore place ?_, placed, spells⟩
  simp only [suffixStep, same, kind]
  simp only [markKind, read]
  rfl

theorem Attached.ReadsBack.shown (back : a.ReadsBack) :
    a.written.toList = '@' :: a.raw.toList := by
  rw [Attached.written, if_neg (by simp [back.some]), String.toList_append]
  rfl

theorem suffixAttached (back : a.ReadsBack) (place : Span → Span) (s : Suffixes)
    (none : s.attached = none) (ends : Heads isEnd text)
    (spells : Spells c.rest (a.written.toList ++ text)) : ∃ after,
      suffixesFrom place s c = .ok ({ s with attached := some a }, after) ∧
        Spells after.rest text := by
  rw [back.shown, List.cons_append] at spells
  obtain ⟨mark, rest, same, kind, spells⟩ := spellsMark rfl spells
  obtain ⟨after, read, spells⟩ := back.reads place mark ⟨mark.stop, rest⟩ text ends spells
  refine ⟨after, ?_, spells⟩
  have step : suffixStep place s c = .ok (some ({ s with attached := some a }, after)) := by
    simp only [suffixStep, same, kind]
    simp only [markKind, none, read]
    rfl
  rw [suffixesMore place step, suffixesEnd place _ (spellsEnds ends spells)]

def labelText (own : Option LabelDef) : List Char := (own.map fun l => l.written.toList).getD []

def attachedText (attached : Option Attached) : List Char :=
  (attached.map fun a => a.written.toList).getD []

section
variable {own : Option LabelDef} {attached : Option Attached} (sound : ∀ l, own = some l → l.Sound)
  (back : ∀ a, attached = some a → a.ReadsBack)

theorem labelHead : Heads isWordEnd (labelText own) := by
  intro c first
  cases own with
  | none => cases first
  | some l =>
    rw [labelText, Option.map_some, Option.getD_some, labelShown] at first
    cases first
    rfl

include back

theorem attachedHead : Heads isBehind (attachedText attached) := by
  intro c first
  cases attached with
  | none => cases first
  | some a =>
    rw [attachedText, Option.map_some, Option.getD_some, (back a rfl).shown] at first
    cases first
    rfl

theorem suffixHead {more : List Char} (ends : Heads isEnd more) :
    Heads isWordEnd (labelText own ++ attachedText attached ++ more) :=
  headsAppend (headsAppend labelHead (headsMono (fun _ => behindWordEnd) (attachedHead back)))
    (headsMono (fun _ => endWordEnd) ends)

include sound

theorem suffixReads :
    SuffixReads (labelText own ++ attachedText attached) (own.toList.map LabelDef.unplaced) attached := by
  intro place c more ends spells
  have behind : Heads isBehind (attachedText attached ++ more) :=
    headsAppend (attachedHead back) (headsMono (fun c ends => by simp [isBehind, ends]) ends)
  have last (s : Suffixes) (none : s.attached = none) {d : Cursor}
      (spells : Spells d.rest (attachedText attached ++ more)) : ∃ after,
        suffixesFrom place s d = .ok ({ s with attached }, after) ∧ Spells after.rest more := by
    cases attached with
    | none =>
      refine ⟨d, ?_, spells⟩
      rw [← none]
      exact suffixesEnd place s (spellsEnds ends spells)
    | some a => exact suffixAttached (back a rfl) place s none ends spells
  rw [List.append_assoc] at spells
  cases own with
  | none =>
    obtain ⟨after, read, spells⟩ := last {} rfl spells
    exact ⟨_, after, read, rfl, rfl, spells⟩
  | some l =>
    obtain ⟨found, middle, first, placed, spells⟩ := suffixLabel (sound l rfl) place behind spells
    obtain ⟨after, read, spells⟩ := last { labels := [found] } rfl spells
    exact ⟨_, after, first.trans read, by simp [placed], rfl, spells⟩

end

section
variable (place : Span → Span) (outer : List Waiting) (level : Level)

theorem linesComma (kind : t.kind = .comma) :
    linesFrom place outer level ⟨last, t :: rest⟩ = linesFrom place outer level ⟨t.stop, rest⟩ := by
  rw [linesFrom]
  simp only [kind]

theorem linesNewline (kind : t.kind = .newline) :
    linesFrom place outer level ⟨last, t :: rest⟩ =
      linesFrom place outer level.endLine ⟨t.stop, rest⟩ := by
  rw [linesFrom]
  simp only [kind]

theorem linesOpens (kind : t.kind = .opens b) : linesFrom place outer level ⟨last, t :: rest⟩ =
      linesFrom place (⟨level, t, b⟩ :: outer) {} ⟨t.stop, rest⟩ := by
  rw [linesFrom]
  simp only [kind]

theorem separatedEnds (ends : Ends c.rest) : separated place c = .ok () := by
  unfold separated
  split
  · rfl
  · rename_i t rest same
    exact if_pos (ends t (by rw [same]; rfl))

theorem linesCloses {w : Waiting} (kind : t.kind = .closes b) (partner : w.bracket = b)
    (read : suffixesFrom place {} ⟨t.stop, rest⟩ = .ok (s, after)) (ends : Ends after.rest) :
    linesFrom place (w :: outer) level ⟨last, t :: rest⟩ = linesFrom place outer
      (w.level.put (.group level.done s.labels s.attached (place (w.opening.span.merge t.span)))) after := by
  rw [linesFrom]
  simp only [kind, partner, if_true]
  split
  · rename_i found
    cases read.symm.trans found
  · rename_i found
    cases read.symm.trans found
    simp only [separatedEnds place ends]
    rfl

theorem linesItem {node : Node} (read : itemFrom place t ⟨t.stop, rest⟩ = .ok (node, after))
    (ends : Ends after.rest) :
    linesFrom place outer level ⟨last, t :: rest⟩ = linesFrom place outer (level.put node) after := by
  rw [linesFrom]
  simp only
  split
  case h_5 =>
    split
    · rename_i found
      cases read.symm.trans found
    · rename_i found
      cases read.symm.trans found
      simp only [separatedEnds place ends]
      rfl
  all_goals
    rename_i kind
    simp only [itemFrom, kind, faultAt] at read
    cases read

end

def Reads (text : List Char) (steps : Surround → List Step) : Prop :=
  ∀ place outer level c more, Heads isEnd more → Spells c.rest (text ++ more) → ∃ level' c',
    linesFrom place outer level c = linesFrom place outer level' c' ∧ Spells c'.rest more ∧
      ∀ s, (level'.steps s).map Step.unplaced =
        (level.steps s).map Step.unplaced ++ steps s.unplaced

section
variable {more : List Char} {f g : Surround → List Step}

theorem readsNil : Reads [] fun _ => [] :=
  fun _ _ level c _ _ spells => ⟨level, c, rfl, spells, fun _ => (List.append_nil _).symm⟩

theorem readsComma (first : Reads text f) (second : Reads more g) :
    Reads (text ++ ',' :: more) fun s => f s ++ g s := by
  intro place outer level c rest ends spells
  rw [List.append_assoc, List.cons_append] at spells
  obtain ⟨level₁, ⟨last, ts⟩, run₁, spells, steps₁⟩ :=
    first place outer level c _ (headsCons rfl _) spells
  obtain ⟨t, ts, rfl, kind, spells⟩ := spellsMark rfl spells
  obtain ⟨level₂, c₂, run₂, spells, steps₂⟩ := second place outer level₁ ⟨t.stop, ts⟩ rest ends spells
  refine ⟨level₂, c₂, ?_, spells, fun s => by rw [steps₂, steps₁, List.append_assoc]⟩
  rw [run₁, linesComma place outer level₁ kind, run₂]

theorem readsNewline (first : Reads text f) (second : Reads more g) :
    Reads (text ++ '\n' :: more) fun s => f s ++ .endLine :: g s := by
  intro place outer level c rest ends spells
  rw [List.append_assoc, List.cons_append] at spells
  obtain ⟨level₁, ⟨last, ts⟩, run₁, spells, steps₁⟩ :=
    first place outer level c _ (headsCons rfl _) spells
  obtain ⟨t, ts, rfl, kind, spells⟩ := spellsMark rfl spells
  obtain ⟨level₂, c₂, run₂, spells, steps₂⟩ :=
    second place outer level₁.endLine ⟨t.stop, ts⟩ rest ends spells
  refine ⟨level₂, c₂, ?_, spells, fun s => ?_⟩
  · rw [run₁, linesNewline place outer level₁ kind, run₂]
  · rw [steps₂, endLineSteps, List.map_append, steps₁]
    simp [Step.unplaced]

theorem readsItem {steps : Surround → List Step} (read : ∀ place (c : Cursor) rest, Heads isEnd rest →
      Spells c.rest (text ++ rest) → ∃ t ts node after, c.rest = t :: ts ∧
        itemFrom place t ⟨t.stop, ts⟩ = .ok (node, after) ∧ Spells after.rest rest ∧
          ∀ s, (nodeSteps s node).map Step.unplaced = steps s.unplaced) : Reads text steps := by
  intro place outer level ⟨last, tokens⟩ rest ends spells
  obtain ⟨t, ts, node, after, rfl, item, spells, made⟩ := read place _ rest ends spells
  refine ⟨level.put node, after, linesItem place outer level item (spellsEnds ends spells), spells, ?_⟩
  intro s
  rw [putSteps, List.map_append, made]

theorem readsStitch {name : String} {own : Option LabelDef} {attached : Option Attached}
    (word : NameWord name.toList) (sound : ∀ l, own = some l → l.Sound)
    (back : ∀ a, attached = some a → a.ReadsBack) :
    Reads (name.toList ++ (labelText own ++ attachedText attached)) fun s =>
      nodeSteps s (.stitch name (own.toList.map LabelDef.unplaced) attached ⟨0, 0⟩) := by
  refine readsItem fun place c rest ends spells => ?_
  rw [List.append_assoc] at spells
  obtain ⟨t, ts, same, kind, lexeme, spells⟩ := spellsName word (suffixHead back ends) spells
  obtain ⟨found, after, read, labelled, hung, spells⟩ :=
    suffixReads sound back place ⟨t.stop, ts⟩ rest ends spells
  refine ⟨t, ts, .stitch name found.labels attached (place t.span), after, same, ?_, spells, ?_⟩
  · simp only [itemFrom, kind, read, Token.text, lexeme, String.ofList_toList, ← hung]
    rfl
  · intro s
    simp [nodeSteps, Surround.add, Step.unplaced, Surround.unplaced, labelled]

theorem readsTurn : Reads "turn".toList fun s => nodeSteps s (.turn ⟨0, 0⟩) := by
  refine readsItem fun place c rest ends spells => ?_
  obtain ⟨t, ts, same, kind, _, spells⟩ :=
    spellsWord (by decide) (headsMono (fun _ => endWordEnd) ends) spells
  refine ⟨t, ts, .turn (place t.span), ⟨t.stop, ts⟩, same, ?_, spells, fun _ => rfl⟩
  have plain := spellsEnds ends spells
  simp only [itemFrom, kind, if_true]
  cases ts with
  | nil => rfl
  | cons u ts =>
    refine if_neg ?_
    have kind := plain u rfl
    rintro (dot | address)
    · rw [dot] at kind; cases kind
    · rw [address] at kind; cases kind

theorem readsSeek (back : a.ReadsBack) :
    Reads a.written.toList fun s => nodeSteps s (.seek a ⟨0, 0⟩) := by
  refine readsItem fun place c rest ends spells => ?_
  rw [back.shown, List.cons_append] at spells
  obtain ⟨t, ts, same, kind, spells⟩ := spellsMark rfl spells
  obtain ⟨after, read, spells⟩ := back.reads place t ⟨t.stop, ts⟩ rest ends spells
  refine ⟨t, ts, .seek a (place ⟨t.start, after.last⟩), after, same, ?_, spells, fun _ => rfl⟩
  have plain : after.accept? .dot = none := by
    refine acceptNone fun u first dot => ?_
    have kind := spellsEnds ends spells u first
    rw [dot] at kind
    cases kind
  simp only [itemFrom, kind]
  simp only [markKind, read, bind, Except.bind, plain]
  rfl

theorem readsGroup {suffix : List Char} {labels : List LabelDef} {attached : Option Attached}
    (b : Bracket) (inner : Reads text f) (suffixes : SuffixReads suffix labels attached) :
    Reads (b.opening :: (text ++ b.closing :: suffix)) fun s => f (s.add labels attached) := by
  intro place outer level ⟨last, tokens⟩ rest ends spells
  rw [List.cons_append, List.append_assoc, List.cons_append] at spells
  obtain ⟨opening, ts, rfl, opens, spells⟩ := spellsMark (by cases b <;> rfl) spells
  obtain ⟨level', ⟨last', tokens⟩, run, spells, made⟩ := inner place (⟨level, opening, b⟩ :: outer) {}
    ⟨opening.stop, ts⟩ _ (headsCons (by cases b <;> rfl) _) spells
  obtain ⟨closing, ts, rfl, closes, spells⟩ := spellsMark (by cases b <;> rfl) spells
  obtain ⟨s', after, read, labelled, hung, spells⟩ :=
    suffixes place ⟨closing.stop, ts⟩ rest ends spells
  have opens : opening.kind = .opens b := opens.trans (by cases b <;> rfl)
  have closes : closing.kind = .closes b := closes.trans (by cases b <;> rfl)
  refine ⟨level.put (.group level'.done s'.labels s'.attached (place (opening.span.merge closing.span))),
    after, ?_, spells, ?_⟩
  · rw [linesOpens place outer level opens, run,
      linesCloses place outer level' closes rfl read (spellsEnds ends spells)]
  · intro s
    have content := made (s.add s'.labels s'.attached)
    rw [addUnplaced, labelled, emptySteps, List.map_nil, List.nil_append] at content
    rw [putSteps, List.map_append, nodeSteps, ← hung]
    exact congrArg _ content

theorem linesRead {t : MappedText} (reads : Reads (MappedText.chars t) f) :
    ∃ lines, parseLines t = .ok lines ∧ (linesSteps {} lines).map Step.unplaced = f {} := by
  have spells : Spells (Cursor.ofText (MappedText.chars t)).rest (MappedText.chars t ++ []) :=
    ⟨0, by rw [List.append_nil]; rfl⟩
  obtain ⟨level, ⟨last, ts⟩, run, spells, made⟩ :=
    reads (MappedText.spanIn (MappedText.origins t)) [] {} _ [] (fun _ none => by cases none) spells
  refine ⟨level.done, ?_, (made {}).trans ?_⟩
  · rw [parseLines, run, show ts = [] from spellsNil spells, linesFrom]
  · rw [emptySteps, List.map_nil, List.nil_append]
    rfl

end

end Crochet.Row
