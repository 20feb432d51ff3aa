import Crochet.Compiler
import Crochet.Proofs.Color.Passes
import Crochet.Proofs.Row.Placed

/-! Colours of switches. The keys that switches have once their colours are taken out stay with them
through every later pass, unless a pass puts a mark together or works out an index that begins with a
key; then each switch that is read names a recorded colour. -/
namespace Crochet.Color
open MappedText Text Source Token

variable {keys : List Nat} {key : Nat} {colors : List (Nat × String)} {t : MappedText}
  {source : List Char} {registry after : Registry} {prepared : Prepared}

theorem lexedKnown {word rest : List Char} {kind : Kind} (keyed : Keyed keys (word ++ rest))
    (lexed : Lexed word kind rest) (color : kind = .color key) :
    key ∈ keys := by
  cases lexed with
  | number =>
    unfold numberKind at color
    split at color <;> cases color
  | fraction =>
    unfold numberKind at color
    split at color <;> cases color
  | word => split at color <;> cases color
  | @mark c =>
    have plain := Row.markNoWord c
    rw [color] at plain
    cases plain
  | @color digits _ all _ stops =>
    obtain ⟨own, member, later, same, closed⟩ := keyed [] (digits ++ rest) (by
      rw [List.nil_append, markCons]
      simp)
    have ends : Stops Char.isDigit later := fun c first => Repeat.endingNoDigit (closed c first)
    have run := (takeRun all stops).symm.trans ((congrArg _ same).trans (takeRun (keyDigits own) ends))
    have value : digits = Nat.toDigits 10 own := congrArg Prod.fst run
    rw [value, colorKind, Decimal.below?, Decimal.digitsBack] at color
    split at color
    · rename_i found
      obtain ⟨_, same⟩ := Option.ite_none_right_eq_some.mp found
      cases same
      cases color
      exact member
    · cases color

theorem scanKnown {offset : Nat} {lead cs : List Char} (keyed : Keyed keys cs) :
    ∀ t ∈ scan offset lead cs, ∀ key, t.kind = .color key → key ∈ keys := by
  fun_induction scan offset lead cs with
  | case1 => simp
  | case2 offset lead c cs skipped ih => exact ih (keyedRest (a := [c]) keyed)
  | case3 offset lead c cs visible kind n found lexeme =>
    rename_i ih
    intro t member key color
    rcases List.mem_cons.mp member with rfl | later
    · obtain ⟨tail, rest, other, rfl, lexed⟩ := lexedAt c cs
      rw [recognises lexed] at found
      cases found
      exact lexedKnown keyed lexed color
    · have behind : Keyed keys (cs.drop n) := keyedRest (a := lexeme) (by simpa [lexeme] using keyed)
      exact ih behind t later key color

theorem lookupKnown (member : key ∈ colors.map Prod.fst) :
    ∃ color, colors.lookup key = some color := by
  obtain ⟨entry, inside, rfl⟩ := List.mem_map.mp member
  cases found : colors.lookup entry.1 with
  | some color => exact ⟨color, rfl⟩
  | none =>
    have other := List.lookup_eq_none_iff.mp found entry inside
    simp at other

theorem stepsRun {good : Span → Prop} {steps : List Row.Step}
    (fine : ∀ step ∈ steps, step.Fine good (· ∈ colors.map Prod.fst)) (start : Row.Flat) :
    ∃ flat, steps.foldlM (Row.Flat.step colors) start = .ok flat := by
  have runs : ∀ step ∈ steps, ∀ f : Row.Flat, True → ∃ next, f.step colors step = .ok next ∧ True := by
    intro step member f _
    cases step with
    | item kind labels attached span => exact ⟨_, rfl, trivial⟩
    | endLine => exact ⟨_, rfl, trivial⟩
    | color key span =>
      obtain ⟨color, found⟩ := lookupKnown (fine _ member).1
      exact ⟨{ f with color }, by simp [Row.Flat.step, found], trivial⟩
  obtain ⟨flat, run, _⟩ := foldRuns (fun _ => True) runs trivial
  exact ⟨flat, run⟩

theorem rowsPlain {color : String} (keyed : Keyed (colors.map Prod.fst) (chars t)) :
    Faults (fun fault => fault.kind ≠ .internalInconsistency) (Row.parseRows t colors color) := by
  have read := Row.parsedFine (scanKnown keyed)
  refine Faults.bind (fun fault failed => (read.fault failed).1) fun lines parsed => ?_
  obtain ⟨flat, flattened⟩ := stepsRun (read.value parsed) { color }
  rw [Row.linesRun, flattened, okBind]
  dsimp only
  split
  · exact Faults.error (bne_iff_ne.mp rfl)
  · exact Faults.ok _

theorem newlineKeyed (keyed : Keyed keys (chars t)) :
    Keyed keys (chars (dropLastNewline t)) := by
  rcases List.eq_nil_or_concat t with rfl | ⟨body, g, rfl⟩
  · exact keyed
  rw [List.concat_eq_append] at keyed ⊢
  unfold dropLastNewline
  rw [List.getLast?_concat]
  simp only
  split
  · rename_i newline
    rw [List.dropLast_concat]
    exact (keyedStable keys).front (g := g) (by rw [newline]; rfl) keyed
  · exact keyed

theorem preparedKeyed (ready : prepare source registry = .ok (prepared, after))
    (blanks : ∀ pattern known, spaced source registry = .ok (pattern, known) →
      unbroken (blankFlags (chars pattern.expression)) = true) :
    Keyed (prepared.colors.map Prod.fst) (chars prepared.expression) := by
  obtain ⟨pattern, made, same, text⟩ := preparedFrom ready
  obtain ⟨_, _, colored, _, _, taken, colors, stepped⟩ := spacedParts made
  have thinned : Edited _ [] _ (chars (dropBlanks true _)) :=
    blanksEdited (by simp) (blanks _ _ made)
  rw [stepped] at text thinned
  rw [text, same, colors]
  have keyed := editedKeyed (stepsEdited none false colored.expression [])
    (switchedKeyed (takeSwitched taken))
  exact newlineKeyed (editedKeyed thinned keyed)

theorem switchesKnown {source : List Char} {registry after : Registry} {prepared : Prepared}
    {repeated text : MappedText} (ready : prepare source registry = .ok (prepared, after))
    (unrolled : Repeat.expand prepared.expression = .ok repeated)
    (evaluated : Index.evaluate after repeated = .ok text)
    (blanks : ∀ pattern known, spaced source registry = .ok (pattern, known) →
      unbroken (blankFlags (chars pattern.expression)) = true)
    (blocks : unbroken (blockFlags false (chars repeated)) = true)
    (indices : ∀ t, Index.evaluateFrom after [] none repeated = .ok t →
      ∀ piece ∈ components t, KeyLeft piece) :
    (∀ token ∈ tokens (chars text), ∀ key, token.kind = .color key →
      key ∈ prepared.colors.map Prod.fst) ∧
    ∀ color fault, Row.parseRows text prepared.colors color = .error fault →
      fault.kind ≠ .internalInconsistency := by
  have before := preparedKeyed ready blanks
  have between := Repeat.expandKept (keyedStable _) before unrolled
  obtain ⟨worked, run, rfl⟩ := mapOk evaluated
  have named : Index.Named [] := by simp [Index.Named]
  have edited : Edited _ [] _ _ := workedEdited (Index.evaluateWorked named run) (.inl rfl) blocks
  have folded : Edited _ [] _ _ := foldsEdited (indices worked run)
  have later := editedKeyed folded (editedKeyed edited between)
  exact ⟨scanKnown later, fun color => rowsPlain later⟩

def stripedPiece : List Char := "COLOR: red , 2ch.A,$k=1$\n2[COLOR:blue,sc@A[k+1]]".toList

theorem switchesKnownStriped : ∃ prepared after repeated text,
    prepare stripedPiece {} = .ok (prepared, after) ∧
    Repeat.expand prepared.expression = .ok repeated ∧ Index.evaluate after repeated = .ok text ∧
    (tokens (chars text)).any (·.kind == .color 27) = true ∧
    (∀ token ∈ tokens (chars text), ∀ key, token.kind = .color key →
      key ∈ prepared.colors.map Prod.fst) ∧
    ∀ color fault, Row.parseRows text prepared.colors color = .error fault →
      fault.kind ≠ .internalInconsistency := by
  have runs : (do
      let t ← spaced stripedPiece {}
      let found ← prepare stripedPiece {}
      let repeated ← Repeat.expand found.1.expression
      let worked ← Index.evaluateFrom found.2 [] none repeated
      return (t, found, repeated, worked) : Outcome _).toOption.any (fun found =>
        unbroken (blankFlags (chars found.1.1.expression)) && unbroken (blockFlags false (chars found.2.2.1)) &&
        (components found.2.2.2).all (fun piece => KeyLeft piece) &&
        (tokens (chars (Index.foldBrackets found.2.2.2))).any (·.kind == .color 27)) = true := by
    decide +kernel
  obtain ⟨last, run, good⟩ := testOk runs
  obtain ⟨t, text, run⟩ := bindOk run
  obtain ⟨⟨prepared, after⟩, ready, run⟩ := bindOk run
  obtain ⟨repeated, unrolled, run⟩ := bindOk run
  obtain ⟨worked, evaluated, run⟩ := bindOk run
  cases pureOk run
  simp only [Bool.and_eq_true, List.all_eq_true, decide_eq_true_eq] at good
  obtain ⟨⟨⟨blanks, blocks⟩, indices⟩, switched⟩ := good
  have indexed : Index.evaluate after repeated = .ok (Index.foldBrackets worked) := by
    rw [Index.evaluate, evaluated]
    rfl
  refine ⟨prepared, after, repeated, _, ready, unrolled, indexed, switched, ?_⟩
  refine switchesKnown ready unrolled indexed ?_ blocks ?_
  · intro pattern known same
    cases text.symm.trans same
    exact blanks
  · intro other same
    cases evaluated.symm.trans same
    exact indices

/- A text whose passes all succeed and leave a switch that has no colour. -/
def Stray (source : List Char) : Prop := ∃ prepared after repeated text fault,
  prepare source {} = .ok (prepared, after) ∧ Repeat.expand prepared.expression = .ok repeated ∧
  Index.evaluate after repeated = .ok text ∧
  Row.parseRows text prepared.colors "red" = .error fault ∧ fault.kind = .internalInconsistency

theorem strayOf (runs : (do
      let found ← prepare source {}
      let repeated ← Repeat.expand found.1.expression
      let text ← Index.evaluate found.2 repeated
      return (found, repeated, text) : Outcome _).toOption.any (fun found =>
        (faultOf? (Row.parseRows found.2.2 found.1.1.colors "red")).any
          (·.kind == .internalInconsistency)) = true) : Stray source := by
  obtain ⟨last, run, failed⟩ := testOk runs
  obtain ⟨⟨prepared, after⟩, ready, run⟩ := bindOk run
  obtain ⟨repeated, unrolled, run⟩ := bindOk run
  obtain ⟨text, evaluated, run⟩ := bindOk run
  cases pureOk run
  obtain ⟨fault, failure, kind⟩ := testFault failed
  exact ⟨prepared, after, repeated, text, fault, ready, unrolled, evaluated, failure,
    beq_iff_eq.mp kind⟩

/- Dropping a blank puts a mark together, so does dropping a block, and a key is worked out as an
index. -/
theorem switchUnknown : Stray "ch,COLOR :7".toList ∧ Stray "ch,CO$k=1$LOR:7".toList ∧
    Stray "ch,[COLOR:red\n+1]".toList :=
  ⟨strayOf (by decide +kernel), strayOf (by decide +kernel), strayOf (by decide +kernel)⟩

end Crochet.Color
