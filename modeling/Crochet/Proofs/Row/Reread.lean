import Crochet.Proofs.Row.Phrase

/-! Whatever is read from a text can be read again. Names of stitches and labels are words, the text
of a selector or an attachment closes where it did, and a number behind `^` is one that its own
digits give. -/
namespace Crochet.Row
open Token Text

variable {x : Float} {c after : Cursor} {inner : List Char} {closing : Token} {m : Marks}
  {name : String} {s : Surround} {lines : List (List Node)} {span : Span} {node : Node}
  {level : Level}

section
variable {w rest : List Char}

theorem lexedName (lexed : Lexed w .name rest) : NameWord w := by
  generalize kind : Token.Kind.name = k at lexed
  cases lexed with
  | number first digits stops => unfold numberKind at kind; split at kind <;> cases kind
  | fraction first digits fraction some stops => unfold numberKind at kind; split at kind <;> cases kind
  | word start chars stops bare =>
    split at kind
    · cases kind
    · rename_i noTurn
      exact ⟨by simp only [isName, start, Bool.true_and, List.all_eq_true]; exact chars, noTurn⟩
  | color digits some stops => unfold colorKind at kind; split at kind <;> cases kind
  | @mark c _ noDigit noStart =>
    have plain := markNoWord c
    rw [← kind] at plain
    cases plain

theorem lexedNumber {c : Char} (lexed : Lexed (c :: w) (.number x) rest) :
    c.isDigit = true ∧ Decimal.realOf (c :: w) = .ok x := by
  have value {literal : List Char} (kind : Token.Kind.number x = numberKind literal) :
      Decimal.realOf literal = .ok x := by
    unfold numberKind at kind
    split at kind
    · rename_i found
      cases kind
      exact found
    · cases kind
  generalize kind : Token.Kind.number x = k at lexed
  cases lexed with
  | number first digits stops => exact ⟨first, value kind⟩
  | fraction first digits fraction some stops => exact ⟨first, value kind⟩
  | word start chars stops bare => split at kind <;> cases kind
  | color digits some stops => unfold colorKind at kind; split at kind <;> cases kind
  | @mark c _ noDigit noStart =>
    have plain := markNoWord c
    rw [← kind] at plain
    cases plain

end

section
variable {t : Token} {rest : List Token} (scanned : Scanned (t :: rest))
include scanned

theorem nameScanned (name : t.kind = .name) : NameWord t.lexeme := by
  obtain ⟨offset, cs, same⟩ := scanned
  obtain ⟨_, c, tail, more, _, _, _, _, _, lexeme, lexed, _⟩ := scanParts same.symm
  rw [lexeme]
  exact lexedName (name ▸ lexed)

theorem numberScanned (number : t.kind = .number x) {n : Int}
    (whole : Decimal.wholeWord? x = some n) : 0 ≤ n ∧ Decimal.Rereads n.toNat := by
  obtain ⟨offset, cs, same⟩ := scanned
  obtain ⟨_, _, _, _, _, _, _, _, _, _, lexed, _⟩ := scanParts same.symm
  obtain ⟨digit, value⟩ := lexedNumber (number ▸ lexed)
  refine Decimal.realRereads ?_ value whole
  rintro rfl
  cases digit

end

variable {t : Token}

theorem scannedTail {rest : List Token} (scanned : Scanned ([t] ++ rest)) : Scanned rest :=
  scanned.rest

theorem Follows.scanned {V : α → β → Prop} {r : Reader α} {s : Reader β} (follows : Follows V r s)
    {v : α} (ok : r c = .ok (v, after)) (scanned : Scanned c.rest) :
    Scanned after.rest := by
  obtain ⟨used, parts, _⟩ := follows c v after ok
  rw [parts] at scanned
  exact scanned.rest

theorem selectorScanned {ts after : List Token} (scanned : Scanned ts)
    (ok : bracketEnd 0 ts = .ok (inner, closing, after)) :
    SelectorReads inner := by
  obtain ⟨used, rfl, rfl, kind, inside⟩ := bracketEndParts ok
  obtain ⟨offset, cs, same⟩ := scanned.rest
  obtain ⟨blanks, _, _, _, _, _, blank, lead, _⟩ := scanParts same.symm
  rw [List.nil_append] at lead
  rintro ts text ⟨start, rfl⟩
  have neutral : Neutral (closing.lead ++ ']' :: text) := by
    refine headsAppend ?_ (headsCons rfl _)
    intro d first
    rw [lead] at first
    have skipped := blank d (List.mem_of_mem_head? first)
    cases neutral : isNeutral d with
    | true => rfl
    | false => rw [joinsVisible neutral] at skipped; cases skipped
  obtain ⟨again, after', alike, tokens⟩ := rescan scanned neutral start
  obtain ⟨skipped, blanks'⟩ := scanBlanks (lead ▸ blank) after' [] (']' :: text)
  have lexed : Lexed [']'] (.closes .square) text := .mark rfl rfl
  obtain ⟨behind, token⟩ := scanLexed rfl lexed skipped closing.lead
  refine ⟨⟨.closes .square, closing.lead, [']'], skipped⟩, scan behind [] text, ?_, behind, rfl⟩
  rw [List.singleton_append] at token
  rw [List.append_assoc, tokens, blanks', List.nil_append, token]
  exact inside again _ _ alike rfl

section
variable (place : Span → Span)

theorem readTextUsed {used : List Token} (parts : c.rest = used ++ after.rest) :
    readText c after = String.ofList (used.flatMap padded) := by
  simp [readText, Cursor.size, parts]

theorem attachedScanned {mark : Token} {a : Attached} (scanned : Scanned c.rest)
    (ok : attached place mark c = .ok (a, after)) : a.ReadsBack ∧ Scanned after.rest := by
  have shorter := attachedSize place ok
  obtain ⟨⟨attachment, d⟩, read, same⟩ := mapOk ok
  cases same
  have later := (attachmentFollows place place mark mark).scanned read scanned
  obtain ⟨used, parts, _⟩ := attachmentFollows place place mark mark c attachment after read
  have raw : readText c after = String.ofList (used.flatMap padded) := readTextUsed parts
  refine ⟨⟨?_, ?_⟩, later⟩
  · cases used with
    | nil =>
      rw [Cursor.size, Cursor.size, parts] at shorter
      simp at shorter
    | cons t used =>
      obtain ⟨offset, cs, same⟩ := parts ▸ scanned
      obtain ⟨_, first, tail, _, _, _, _, _, _, lexeme, _⟩ := scanParts same.symm
      rw [raw]
      simp [padded, lexeme]
  · rintro place' mark' ⟨last, _⟩ text ends ⟨offset, rfl⟩
    simp only [raw, String.toList_ofList]
    obtain ⟨used', parts', run⟩ := attachmentFollows place place' mark mark' c attachment after read
    cases List.append_cancel_right (parts.symm.trans parts')
    have neutral := neutralOf (headsMono (fun _ => endApart) ends)
    obtain ⟨again, next, alike, tokens⟩ := rescan (parts ▸ scanned) neutral offset
    obtain ⟨_, last', read', rfl⟩ :=
      run last again (scan next [] text) alike (.inr (spellsEnds ends ⟨next, rfl⟩))
    refine ⟨⟨last', scan next [] text⟩, ?_, next, rfl⟩
    rw [attached, tokens, read']
    simp only [Except.map]
    rw [readTextUsed rfl, alikePadded alike]

theorem numberTaken (ok : c.number? = some (x, t, after)) :
    c.rest = t :: after.rest ∧ t.kind = .number x := by
  unfold Cursor.number? at ok
  split at ok
  · cases ok
  · rename_i same
    split at ok
    · rename_i kind
      cases ok
      exact ⟨same, kind⟩
    · cases ok

theorem acceptTaken {kind : Token.Kind} (ok : c.accept? kind = some (t, after)) :
    c.rest = t :: after.rest := by
  unfold Cursor.accept? at ok
  split at ok
  · cases ok
  · rename_i same
    split at ok
    · cases ok
      exact same
    · cases ok

theorem postScanned {caret : Token} {which : Option Int} (scanned : Scanned c.rest)
    (ok : postNumber place caret c = .ok (which, after)) : PostRereads which := by
  have number {c after : Cursor} {x : Float} {t : Token} {n : Int} (scanned : Scanned c.rest)
      (read : c.number? = some (x, t, after)) (whole : Decimal.wholeWord? x = some n) :
      Decimal.Rereads n.natAbs := by
    obtain ⟨same, kind⟩ := numberTaken read
    rw [same] at scanned
    obtain ⟨natural, rereads⟩ := numberScanned scanned kind whole
    rwa [show n.natAbs = n.toNat by omega]
  unfold postNumber at ok
  split at ok
  · split at ok
    · cases ok
      exact fun _ none => by cases none
    · rename_i read
      split at ok
      · rename_i whole
        cases ok
        intro n same
        cases same
        exact number scanned read whole
      · cases ok
  · rename_i signed
    split at ok
    · cases ok
    · rename_i read
      split at ok
      · rename_i whole
        cases ok
        intro n same
        cases same
        rw [Int.natAbs_neg]
        refine number ?_ read whole
        rw [acceptTaken signed] at scanned
        exact scannedTail scanned
      · cases ok

theorem markScanned {next : Marks} (scanned : Scanned c.rest) (good : ModifiersReread m.modifiers)
    (ok : markValue place m t c = .ok (next, after)) :
    ModifiersReread next.modifiers := by
  unfold markValue at ok
  simp only [faultAt] at ok
  split at ok
  · split at ok
    · cases ok
    · cases ok
      exact good
  · split at ok
    · cases ok
    · obtain ⟨⟨digit, d⟩, _, same⟩ := mapOk ok
      cases same
      rcases digit with _ | _ | _ <;> exact good
  · split at ok
    · cases ok
    · obtain ⟨⟨digit, d⟩, _, same⟩ := mapOk ok
      cases same
      rcases digit with _ | _ | _ <;> exact good
  · split at ok
    · cases ok
    · obtain ⟨⟨which, d⟩, read, same⟩ := mapOk ok
      cases same
      intro _ posted
      cases posted
      exact postScanned place scanned read
  · cases ok

theorem marksScanned {found : Marks} (scanned : Scanned c.rest) (good : ModifiersReread m.modifiers)
    (ok : marksFrom place m c = .ok (found, after)) :
    ModifiersReread found.modifiers := by
  fun_induction marksFrom place m c with
  | case1 => cases ok
  | case2 => cases ok; exact good
  | case3 m c next middle step ih =>
    obtain ⟨t, rest, first, mark, read⟩ := markStepOk place step
    rw [first] at scanned
    have behind := scannedTail scanned
    exact ih ((markValueFollows place place m rfl).scanned read behind)
      (markScanned place (c := ⟨t.stop, rest⟩) behind good read) ok

theorem nameTaken {mark : Char} (scanned : Scanned c.rest)
    (ok : labelName place mark c = .ok (name, after)) : NameWord name.toList := by
  unfold labelName at ok
  split at ok
  · cases ok
  rename_i same
  rw [same] at scanned
  split at ok
  · rename_i kind
    cases ok
    rw [Token.text, String.toList_ofList]
    exact nameScanned scanned kind
  · cases ok

theorem selectorTaken (scanned : Scanned c.rest)
    (ok : selector? place c = .ok (some (inner, closing), after)) : SelectorReads inner := by
  unfold selector? at ok
  split at ok
  · cases ok
  · rename_i opened
    rw [acceptTaken opened] at scanned
    obtain ⟨⟨text, last, d⟩, read, same⟩ := mapOk ok
    cases same
    unfold bracketText at read
    split at read
    · cases read
    · rename_i found
      cases read
      exact selectorScanned (scannedTail scanned) found

theorem labelScanned {dot : Token} {l : LabelDef} (scanned : Scanned c.rest)
    (ok : labelDef place dot c = .ok (l, after)) : l.Sound ∧ Scanned after.rest := by
  unfold labelDef at ok
  obtain ⟨⟨name, c₁⟩, named, ok⟩ := bindOk ok
  obtain ⟨⟨selector, c₂⟩, selected, ok⟩ := bindOk ok
  obtain ⟨⟨marks, c₃⟩, marked, ok⟩ := bindOk ok
  have scanned₁ := (labelNameFollows place place '.').scanned named scanned
  have scanned₂ := (selectorFollows place place).scanned selected scanned₁
  have scanned₃ := (marksFollow place place {}).scanned marked scanned₂
  simp only [faultAt] at ok
  split at ok
  · cases ok
  · cases ok
    refine ⟨.intro ?_ ?_ (marksScanned place scanned₂ (fun _ none => by cases none) marked), scanned₃⟩
    · exact nameTaken place scanned named
    · intro some
      obtain ⟨inner, closing, rfl⟩ : ∃ inner closing, selector = Option.some (inner, closing) := by
        cases selector with
        | none => exact absurd rfl some
        | some found => exact ⟨found.1, found.2, rfl⟩
      exact selectorTaken place scanned₁ selected

structure Hangs (labels : List LabelDef) (attached : Option Attached) : Prop where
  labels : ∀ l ∈ labels, l.Sound
  attached : ∀ a, attached = some a → a.ReadsBack

theorem hangsNone : Hangs [] none := ⟨by simp, by simp⟩

theorem suffixScanned {s next : Suffixes} (scanned : Scanned c.rest)
    (hangs : Hangs s.labels s.attached) (ok : suffixStep place s c = .ok (some (next, after))) :
    Hangs next.labels next.attached ∧ Scanned after.rest := by
  unfold suffixStep at ok
  split at ok
  · cases ok
  rename_i t rest same
  rw [same] at scanned
  have behind := scannedTail scanned
  simp only [faultAt] at ok
  split at ok
  · obtain ⟨⟨l, d⟩, read, same⟩ := mapOk ok
    cases same
    obtain ⟨sound, later⟩ := labelScanned place (c := ⟨t.stop, rest⟩) behind read
    refine ⟨⟨?_, hangs.attached⟩, later⟩
    intro other member
    rcases List.mem_append.mp member with old | new
    · exact hangs.labels other old
    · rw [List.mem_singleton.mp new]
      exact sound
  · split at ok
    · cases ok
    · obtain ⟨⟨a, d⟩, read, same⟩ := mapOk ok
      cases same
      obtain ⟨back, later⟩ := attachedScanned place (c := ⟨t.stop, rest⟩) behind read
      refine ⟨⟨hangs.labels, ?_⟩, later⟩
      intro _ same
      cases same
      exact back
  · cases ok

theorem suffixesScanned {s found : Suffixes} (scanned : Scanned c.rest)
    (hangs : Hangs s.labels s.attached) (ok : suffixesFrom place s c = .ok (found, after)) :
    Hangs found.labels found.attached ∧ Scanned after.rest := by
  fun_induction suffixesFrom place s c with
  | case1 => cases ok
  | case2 => cases ok; exact ⟨hangs, scanned⟩
  | case3 s c next middle step ih =>
    obtain ⟨more, later⟩ := suffixScanned place scanned hangs step
    exact ih later more ok

end

inductive Writable : Kind → List LabelDef → Attached → Prop where
  | stitch {name : String} {labels : List LabelDef} {a : Attached} {attached : Option Attached}
      (word : NameWord name.toList) (hangs : Hangs labels attached) (worn : a = attached.getD {}) :
      Writable (.stitch name) labels a
  | turn : Writable .turn [] {}
  | seek {a : Attached} (back : a.ReadsBack) : Writable .seek [] a

def Step.Writable (step : Step) : Prop :=
  ∀ kind labels attached span, step = .item kind labels attached span →
    Row.Writable kind labels attached

def NodeWritable (node : Node) : Prop :=
  ∀ s : Surround, Hangs s.labels s.attached → ∀ step ∈ nodeSteps s node, step.Writable

def LinesWritable (lines : List (List Node)) : Prop := ∀ line ∈ lines, ∀ node ∈ line, NodeWritable node

theorem addHangs {labels : List LabelDef} {attached : Option Attached}
    (around : Hangs s.labels s.attached) (own : Hangs labels attached) :
    Hangs (s.add labels attached).labels (s.add labels attached).attached where
  labels := by
    intro l member
    rcases List.mem_append.mp member with old | new
    · exact around.labels l old
    · exact own.labels l new
  attached := by
    intro a same
    cases attached with
    | none => exact around.attached a same
    | some _ => exact own.attached a same

theorem lineWritable {line : List Node} (writable : ∀ node ∈ line, NodeWritable node)
    (hangs : Hangs s.labels s.attached) : ∀ step ∈ lineSteps s line, step.Writable := by
  induction line with
  | nil => simp [lineSteps]
  | cons node rest ih =>
    obtain ⟨first, more⟩ := List.forall_mem_cons.mp writable
    intro step member
    rw [lineSteps] at member
    rcases List.mem_append.mp member with here | there
    · exact first s hangs step here
    · exact ih more step there

theorem moreWritable (writable : LinesWritable lines) (hangs : Hangs s.labels s.attached) :
    ∀ step ∈ moreSteps s lines, step.Writable := by
  induction lines with
  | nil => simp [moreSteps]
  | cons line rest ih =>
    obtain ⟨first, more⟩ := List.forall_mem_cons.mp writable
    intro step member
    rw [moreSteps, List.cons_append] at member
    rcases List.mem_cons.mp member with rfl | member
    · exact fun _ _ _ _ none => by cases none
    rcases List.mem_append.mp member with here | there
    · exact lineWritable first hangs step here
    · exact ih more step there

theorem linesWritable (writable : LinesWritable lines) (hangs : Hangs s.labels s.attached) :
    ∀ step ∈ linesSteps s lines, step.Writable := by
  cases lines with
  | nil => simp [linesSteps]
  | cons line rest =>
    obtain ⟨first, more⟩ := List.forall_mem_cons.mp writable
    intro step member
    rw [linesSteps] at member
    rcases List.mem_append.mp member with here | there
    · exact lineWritable first hangs step here
    · exact moreWritable more hangs step there

theorem itemWritable {kind : Kind} {labels : List LabelDef} {attached : Attached}
    (writable : Writable kind labels attached) :
    (Step.item kind labels attached span).Writable := by
  intro _ _ _ _ same
  cases same
  exact writable

theorem stepWritable {step : Step} (only : ∀ s, nodeSteps s node = [step])
    (writable : step.Writable) : NodeWritable node := by
  intro s _ other member
  rw [only s] at member
  rw [List.mem_singleton.mp member]
  exact writable

theorem stitchWritable {labels : List LabelDef} {attached : Option Attached}
    (word : NameWord name.toList) (hangs : Hangs labels attached) :
    NodeWritable (.stitch name labels attached span) := by
  intro s around step member
  rw [nodeSteps] at member
  rw [List.mem_singleton.mp member]
  exact itemWritable (.stitch word (addHangs around hangs) rfl)

theorem groupWritable {labels : List LabelDef} {attached : Option Attached}
    (inner : LinesWritable lines) (hangs : Hangs labels attached) :
    NodeWritable (.group lines labels attached span) := by
  intro s around
  rw [nodeSteps]
  exact linesWritable inner (addHangs around hangs)

theorem putWritable (here : LinesWritable level.done) (new : NodeWritable node) :
    LinesWritable (level.put node).done := by
  obtain ⟨lines, line⟩ := level
  intro other member n inside
  rcases List.mem_append.mp member with old | last
  · exact here other (List.mem_append_left _ old) n inside
  · rw [List.mem_singleton.mp last] at inside
    rcases List.mem_append.mp inside with old | same
    · exact here line (List.mem_append_right _ List.mem_cons_self) n old
    · rw [List.mem_singleton.mp same]
      exact new

theorem endLineWritable (here : LinesWritable level.done) :
    LinesWritable level.endLine.done := by
  intro other member n inside
  rcases List.mem_append.mp member with old | last
  · exact here other old n inside
  · rw [List.mem_singleton.mp last] at inside
    cases inside

section
variable (place : Span → Span)

theorem itemScanned {first : Token} (scanned : Scanned (first :: c.rest))
    (ok : itemFrom place first c = .ok (node, after)) : NodeWritable node ∧ Scanned after.rest := by
  have behind := scannedTail scanned
  simp only [itemFrom, faultAt] at ok
  split at ok
  · rename_i kind
    obtain ⟨⟨s, d⟩, read, same⟩ := mapOk ok
    cases same
    obtain ⟨hangs, later⟩ := suffixesScanned place behind hangsNone read
    refine ⟨stitchWritable ?_ hangs, later⟩
    rw [Token.text, String.toList_ofList]
    exact nameScanned scanned kind
  · have plain : NodeWritable (.turn (place first.span)) :=
      stepWritable (fun _ => by rw [nodeSteps]) (itemWritable .turn)
    repeat' split at ok
    all_goals cases ok
    all_goals exact ⟨plain, behind⟩
  · cases ok
    exact ⟨stepWritable (fun _ => by rw [nodeSteps]) (fun _ _ _ _ none => by cases none), behind⟩
  · obtain ⟨⟨a, d⟩, read, ok⟩ := bindOk ok
    obtain ⟨back, later⟩ := attachedScanned place behind read
    simp only at ok
    split at ok
    · cases ok
    · cases ok
      exact ⟨stepWritable (fun _ => by rw [nodeSteps]) (itemWritable (.seek back)), later⟩
  all_goals cases ok

theorem linesScanned {outer : List Waiting} (scanned : Scanned c.rest)
    (waiting : ∀ w ∈ outer, LinesWritable w.level.done) (here : LinesWritable level.done)
    (ok : linesFrom place outer level c = .ok lines) :
    LinesWritable lines := by
  fun_induction linesFrom place outer level c with
  | case1 => cases ok; exact here
  | case2 => cases ok
  | case3 outer level last t rest comma ih => exact ih (scannedTail scanned) waiting here ok
  | case4 outer level last t rest newline ih =>
    exact ih (scannedTail scanned) waiting (endLineWritable here) ok
  | case5 outer level last t rest bracket opens ih =>
    refine ih (scannedTail scanned) (List.forall_mem_cons.mpr ⟨here, waiting⟩) ?_ ok
    intro line member node inside
    rw [List.mem_singleton.mp member] at inside
    cases inside
  | case6 level last t rest stray => exact absurd ok (by simp [stray, faultAt])
  | case7 => cases ok
  | case8 level last t rest w outer s after read node closes ih =>
    obtain ⟨_, _, ok⟩ := bindOk ok
    obtain ⟨first, more⟩ := List.forall_mem_cons.mp waiting
    obtain ⟨hangs, later⟩ :=
      suffixesScanned place (c := ⟨t.stop, rest⟩) (scannedTail scanned) hangsNone read
    exact ih later more (putWritable first (groupWritable here hangs)) ok
  | case9 level last t rest stray => exact absurd ok (by simp [stray, faultAt])
  | case10 => cases ok
  | case11 outer level last t rest node after read _ _ _ _ ih =>
    obtain ⟨_, _, ok⟩ := bindOk ok
    obtain ⟨writable, later⟩ := itemScanned place (c := ⟨t.stop, rest⟩) scanned read
    exact ih later waiting (putWritable here writable) ok

end

theorem parsedWritable {t : MappedText} (ok : parseLines t = .ok lines) :
    ∀ step ∈ linesSteps {} lines, step.Writable := by
  refine linesWritable (linesScanned _ ⟨0, _, rfl⟩ (by simp) ?_ ok) hangsNone
  intro line member node inside
  rw [List.mem_singleton.mp member] at inside
  cases inside

end Crochet.Row
