import Crochet.Proofs.Outcome
import Crochet.Row.Flatten

/-! Rows made step by step. The tree of items gives a list of steps, each of which puts an item into
the row, changes the colour or ends the line; the rows are what these steps leave behind. -/
namespace Crochet.Row

inductive Step where
  | item (kind : Kind) (labels : List LabelDef) (attached : Attached) (span : Span)
  | color (key : Nat) (span : Span)
  | endLine
  deriving DecidableEq, Repr

def Flat.step (colors : List (Nat × String)) (f : Flat) : Step → Outcome Flat
  | .item kind labels attached span => .ok (f.put kind labels attached span)
  | .color key span => match colors.lookup key with
    | some color => .ok { f with color }
    | none => faultAt (.row (.colorUnknown key)) span
  | .endLine => .ok f.endLine

mutual

def nodeSteps (s : Surround) : Node → List Step
  | .stitch name labels attached span =>
    let all := s.add labels attached
    [.item (.stitch name) all.labels (all.attached.getD {}) span]
  | .group lines labels attached _ => linesSteps (s.add labels attached) lines
  | .turn span => [.item .turn [] {} span]
  | .seek attached span => [.item .seek [] attached span]
  | .color key span => [.color key span]

def lineSteps (s : Surround) : List Node → List Step
  | [] => []
  | node :: rest => nodeSteps s node ++ lineSteps s rest

def linesSteps (s : Surround) : List (List Node) → List Step
  | [] => []
  | line :: rest => lineSteps s line ++ moreSteps s rest

def moreSteps (s : Surround) : List (List Node) → List Step
  | [] => []
  | line :: rest => .endLine :: lineSteps s line ++ moreSteps s rest

end

section
variable {colors : List (Nat × String)}

mutual

theorem nodeRun (s : Surround) (f : Flat) (node : Node) :
    flattenNode colors s f node = (nodeSteps s node).foldlM (Flat.step colors) f := by
  cases node with
  | stitch name labels attached span => simp [flattenNode, nodeSteps, Flat.step]
  | group lines labels attached span =>
    simp only [flattenNode, nodeSteps]
    exact linesRun (s.add labels attached) f lines
  | turn span => simp [flattenNode, nodeSteps, Flat.step]
  | seek attached span => simp [flattenNode, nodeSteps, Flat.step]
  | color key span =>
    cases found : colors.lookup key <;> simp [flattenNode, nodeSteps, Flat.step, found, faultAt]

theorem lineRun (s : Surround) (f : Flat) (line : List Node) :
    flattenLine colors s f line = (lineSteps s line).foldlM (Flat.step colors) f := by
  cases line with
  | nil => simp only [flattenLine, lineSteps]; rfl
  | cons node rest =>
    simp only [flattenLine, lineSteps, List.foldlM_append, nodeRun s f node]
    cases (nodeSteps s node).foldlM (Flat.step colors) f with
    | error fault => rfl
    | ok g => exact lineRun s g rest

theorem linesRun (s : Surround) (f : Flat) (lines : List (List Node)) :
    flattenLines colors s f lines = (linesSteps s lines).foldlM (Flat.step colors) f := by
  cases lines with
  | nil => simp only [flattenLines, linesSteps]; rfl
  | cons line rest =>
    simp only [flattenLines, linesSteps, List.foldlM_append, lineRun s f line]
    cases (lineSteps s line).foldlM (Flat.step colors) f with
    | error fault => rfl
    | ok g => exact moreRun s g rest

theorem moreRun (s : Surround) (f : Flat) (lines : List (List Node)) :
    flattenMore colors s f lines = (moreSteps s lines).foldlM (Flat.step colors) f := by
  cases lines with
  | nil => simp only [flattenMore, moreSteps]; rfl
  | cons line rest =>
    simp only [flattenMore, moreSteps, List.cons_append, List.foldlM_cons, List.foldlM_append,
      lineRun s f.endLine line]
    show _ = ((lineSteps s line).foldlM (Flat.step colors) f.endLine >>= _)
    cases (lineSteps s line).foldlM (Flat.step colors) f.endLine with
    | error fault => rfl
    | ok g => exact moreRun s g rest

end

end

variable {t : MappedText} {rows : Rows} {f flat : Flat}
variable {colors : List (Nat × String)}

theorem parseRowsIff {color : String} :
    parseRows t colors color = .ok rows ↔ ∃ lines flat, parseLines t = .ok lines ∧
      (linesSteps {} lines).foldlM (Flat.step colors) { color } = .ok flat ∧ flat.rows = rows ∧
      earlyTurn? rows = none := by
  unfold parseRows
  constructor
  · intro ok
    obtain ⟨lines, parsed, ok⟩ := bindOk ok
    obtain ⟨flat, flattened, ok⟩ := bindOk ok
    simp only at ok
    split at ok
    · cases ok
    · rename_i none
      cases pureOk ok
      exact ⟨lines, flat, parsed, linesRun {} _ lines ▸ flattened, rfl, none⟩
  · rintro ⟨lines, flat, parsed, flattened, rfl, none⟩
    rw [parsed]
    simp only [bind, Except.bind, linesRun, flattened, none]
    rfl

section
variable (s : Surround)

theorem lineStepsAppend (line more : List Node) :
    lineSteps s (line ++ more) = lineSteps s line ++ lineSteps s more := by
  induction line with
  | nil => rfl
  | cons node rest ih => simp [lineSteps, ih]

theorem moreStepsAppend (lines more : List (List Node)) :
    moreSteps s (lines ++ more) = moreSteps s lines ++ moreSteps s more := by
  induction lines with
  | nil => rfl
  | cons line rest ih => simp [moreSteps, ih]

def Level.steps (level : Level) : List Step := linesSteps s level.done

theorem emptySteps : ({} : Level).steps s = [] := rfl

theorem putSteps (level : Level) (node : Node) :
    (level.put node).steps s = level.steps s ++ nodeSteps s node := by
  obtain ⟨lines, line⟩ := level
  cases lines with
  | nil => simp [Level.steps, Level.done, Level.put, linesSteps, moreSteps, lineStepsAppend, lineSteps]
  | cons first lines =>
    simp [Level.steps, Level.done, Level.put, linesSteps, moreSteps, moreStepsAppend, lineStepsAppend,
      lineSteps]

theorem endLineSteps (level : Level) :
    level.endLine.steps s = level.steps s ++ [.endLine] := by
  obtain ⟨lines, line⟩ := level
  cases lines with
  | nil => simp [Level.steps, Level.done, Level.endLine, linesSteps, moreSteps, lineSteps]
  | cons first lines =>
    simp [Level.steps, Level.done, Level.endLine, linesSteps, moreSteps, moreStepsAppend, lineSteps]

end

def LabelDef.unplaced (l : LabelDef) : LabelDef := { l with span := ⟨0, 0⟩ }

def Item.unplaced (item : Item) : Item :=
  { item with labels := item.labels.map LabelDef.unplaced, span := ⟨0, 0⟩ }

def Surround.unplaced (s : Surround) : Surround :=
  { s with labels := s.labels.map LabelDef.unplaced }

def Flat.unplaced (f : Flat) : Flat :=
  { f with done := f.done.map (List.map Item.unplaced), current := f.current.map Item.unplaced }

def Step.unplaced : Step → Step
  | .item kind labels attached _ => .item kind (labels.map LabelDef.unplaced) attached ⟨0, 0⟩
  | .color key _ => .color key ⟨0, 0⟩
  | .endLine => .endLine

theorem addUnplaced (s : Surround) (labels : List LabelDef) (attached : Option Attached) :
    (s.add labels attached).unplaced = s.unplaced.add (labels.map LabelDef.unplaced) attached := by
  simp [Surround.add, Surround.unplaced]

theorem endLineUnplaced (f : Flat) : f.endLine.unplaced = f.unplaced.endLine := by
  obtain ⟨done, current, color⟩ := f
  cases current with
  | nil => rfl
  | cons item rest => simp [Flat.endLine, Flat.unplaced]

theorem stepUnplaced {step : Step} (ok : f.unplaced.step colors step.unplaced = .ok flat) :
    ∃ g, f.step colors step = .ok g ∧ g.unplaced = flat := by
  cases step with
  | item kind labels attached span =>
    cases ok
    exact ⟨_, rfl, by simp [Flat.put, Flat.unplaced, Item.unplaced]⟩
  | color key span =>
    simp only [Flat.step, Step.unplaced] at ok ⊢
    cases found : colors.lookup key with
    | none => rw [found] at ok; cases ok
    | some color =>
      rw [found] at ok
      cases ok
      exact ⟨_, rfl, rfl⟩
  | endLine =>
    cases ok
    exact ⟨_, rfl, endLineUnplaced f⟩

theorem runUnplaced {steps : List Step}
    (ok : (steps.map Step.unplaced).foldlM (Flat.step colors) f.unplaced = .ok flat) :
    ∃ g, steps.foldlM (Flat.step colors) f = .ok g ∧ g.unplaced = flat := by
  induction steps generalizing f with
  | nil => exact ⟨f, rfl, pureOk ok⟩
  | cons step rest ih =>
    obtain ⟨next, one, more⟩ := foldConsOk ok
    obtain ⟨g, one', rfl⟩ := stepUnplaced one
    obtain ⟨last, more', same⟩ := ih more
    exact ⟨last, by rw [List.foldlM_cons, one']; exact more', same⟩

theorem earlyUnplaced :
    earlyTurn? (rows.map (List.map Item.unplaced)) = none ↔ earlyTurn? rows = none := by
  simp only [earlyTurn?, List.findSome?_eq_none_iff, List.mem_map, List.find?_eq_none,
    forall_exists_index, and_imp, forall_apply_eq_imp_iff₂, ← List.map_dropLast]
  rfl

theorem rowsUnplaced (f : Flat) : f.rows.map (List.map Item.unplaced) = f.unplaced.rows := by
  rw [Flat.rows, Flat.rows, ← endLineUnplaced]
  rfl

theorem parsesAs {color : String} {lines : List (List Node)} (parsed : parseLines t = .ok lines)
    (run : ((linesSteps {} lines).map Step.unplaced).foldlM (Flat.step colors) { color } = .ok flat)
    (none : earlyTurn? flat.rows = none) :
    ∃ rows, parseRows t colors color = .ok rows ∧
      rows.map (List.map Item.unplaced) = flat.rows := by
  obtain ⟨g, made, rfl⟩ := runUnplaced (f := { color }) run
  rw [← rowsUnplaced] at none ⊢
  exact ⟨g.rows, parseRowsIff.mpr ⟨lines, g, parsed, made, rfl, earlyUnplaced.mp none⟩, rfl⟩

end Crochet.Row
