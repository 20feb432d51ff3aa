import Crochet.Compiler
import Crochet.Proofs.Provenance.Prepared
import Crochet.Proofs.Row.Placed

/-! Spans of a parsed pattern. Text on its way has origins inside the source at every stage, and what
is read from it covers some of it, so every item and every label stands for a part of the source. -/
namespace Crochet
open MappedText Text

theorem spanCases (os : List Nat) (range : Span) :
    (∃ low ∈ os, ∃ high ∈ os, low ≤ high ∧ spanIn os range = ⟨low, high + 1⟩) ∨
    (¬ range.Inside os.length ∧
      spanIn os range = ⟨originIn os range.start, originIn os range.start⟩) := by
  generalize same : (os.drop range.start).take (range.stop - range.start) = covered
  have own : covered ⊆ os := by
    rw [← same]
    exact fun o member => List.mem_of_mem_drop (List.mem_of_mem_take member)
  cases covered with
  | nil =>
    refine .inr ⟨?_, by simp [spanIn, same]⟩
    rintro ⟨rising, within⟩
    have size := congrArg List.length same
    rw [List.length_take, List.length_drop, List.length_nil] at size
    omega
  | cons o more =>
    have some : o :: more ≠ [] := List.cons_ne_nil o more
    obtain ⟨low, least⟩ := Option.isSome_iff_exists.mp (List.isSome_min?_of_ne_nil some)
    obtain ⟨high, greatest⟩ := Option.isSome_iff_exists.mp (List.isSome_max?_of_ne_nil some)
    have order : low ≤ high := (List.min?_eq_some_iff.mp least).2 high (List.max?_mem greatest)
    refine .inl ⟨low, own (List.min?_mem least), high, own (List.max?_mem greatest), order, ?_⟩
    simp only [spanIn, same, least, greatest]

theorem spanInside {os : List Nat} {n : Nat} (below : ∀ o ∈ os, o < n) {range : Span}
    (inside : range.Inside os.length) : (spanIn os range).Inside n := by
  rcases spanCases os range with ⟨low, _, high, member, order, same⟩ | ⟨outside, _⟩
  · rw [same]
    exact ⟨Nat.lt_succ_of_le order, below high member⟩
  · exact absurd inside outside

namespace Row

def Item.Sited (good : Span → Prop) (item : Item) : Prop :=
  good item.span ∧ ∀ l ∈ item.labels, good l.span

structure Flat.Sited (good : Span → Prop) (f : Flat) : Prop where
  done : ∀ row ∈ f.done, ∀ item ∈ row, item.Sited good
  current : ∀ item ∈ f.current, item.Sited good

variable {f : Flat} {colors : List (Nat × String)} {color : String} {t : MappedText} {rows : Rows}

section
variable {good : Span → Prop}

theorem Flat.Sited.endLine (sited : f.Sited good) : f.endLine.Sited good := by
  unfold Flat.endLine
  split
  · exact sited
  · refine ⟨?_, by simp⟩
    intro row member
    rcases List.mem_append.mp member with old | new
    · exact sited.done row old
    · rw [List.mem_singleton.mp new]
      exact sited.current

theorem sitedStep {next : Flat} {step : Step} {known : Nat → Prop} (sited : f.Sited good)
    (fine : step.Fine good known) (ok : f.step colors step = .ok next) : next.Sited good := by
  cases step with
  | item kind labels attached span =>
    cases ok
    refine ⟨sited.done, ?_⟩
    intro item member
    rcases List.mem_append.mp member with old | new
    · exact sited.current item old
    · rw [List.mem_singleton.mp new]
      exact fine
  | color key span =>
    simp only [Flat.step] at ok
    split at ok
    · cases ok
      exact ⟨sited.done, sited.current⟩
    · cases ok
  | endLine =>
    cases ok
    exact sited.endLine

theorem stepsSited {steps : List Step} {flat : Flat} {known : Nat → Prop}
    (fine : ∀ step ∈ steps, step.Fine good known)
    (ok : steps.foldlM (Flat.step colors) { color } = .ok flat) :
    ∀ row ∈ flat.rows, ∀ item ∈ row, item.Sited good := by
  have sited : flat.Sited good := foldKeeps (Flat.Sited good)
    (fun step member _ _ kept one => sitedStep kept (fine step member) one) ⟨by simp, by simp⟩ ok
  exact sited.endLine.done

theorem parsedSteps {lines : List (List Node)} (parsed : parseLines t = .ok lines)
    (placed : ∀ range : Span, range.Inside (byteLength (chars t)) → good (spanIn (origins t) range)) :
    ∀ step ∈ linesSteps {} lines, step.Fine good (fun _ => True) := by
  have fine := (parsedFine (t := t) fun _ _ _ _ => trivial).value parsed
  have placing : ∀ {span : Span}, Placed (spanIn (origins t)) (byteLength (chars t)) span →
      good span := by
    rintro _ ⟨range, inside, rfl⟩
    exact placed range inside
  intro step member
  have own := fine step member
  cases step with
  | item kind labels attached span => exact ⟨placing own.1, fun l inside => placing (own.2 l inside)⟩
  | color key span => exact ⟨trivial, placing own.2⟩
  | endLine => trivial

theorem rowsPlaced
    (placed : ∀ range : Span, range.Inside (byteLength (chars t)) → good (spanIn (origins t) range))
    (ok : parseRows t colors color = .ok rows) : ∀ row ∈ rows, ∀ item ∈ row, item.Sited good := by
  obtain ⟨lines, flat, parsed, flattened, rfl, _⟩ := parseRowsIff.mp ok
  exact stepsSited (parsedSteps parsed placed) flattened

end

theorem rowsSited {n : Nat} (within : Within (· < n) t) (ok : parseRows t colors color = .ok rows) :
    ∀ row ∈ rows, ∀ item ∈ row, item.Sited (Span.Inside n) := by
  refine rowsPlaced (fun range inside => ?_) ok
  rw [← originsLength] at inside
  exact spanInside (withinOrigins within) inside

end Row

theorem Compiler.rowsStages {c : Compiler} {source : List Char} {rows : Rows}
    (ok : c.rows source = .ok rows) :
    ∃ prepared registry repeated text, Source.prepare source c.registry = .ok (prepared, registry) ∧
      Repeat.expand prepared.expression = .ok repeated ∧ Index.evaluate registry repeated = .ok text ∧
      Row.parseRows text prepared.colors c.options.color = .ok rows := by
  obtain ⟨⟨e, found⟩, parsed, rfl⟩ := mapOk (mapErrorOk ok)
  obtain ⟨e', expanded, ok⟩ := bindOk parsed
  obtain ⟨rows, read, ok⟩ := bindOk ok
  cases pureOk ok
  obtain ⟨⟨prepared, registry⟩, first, ok⟩ := bindOk expanded
  obtain ⟨repeated, second, ok⟩ := bindOk ok
  obtain ⟨text, third, ok⟩ := bindOk ok
  cases pureOk ok
  exact ⟨prepared, registry, repeated, text, first, second, third, read⟩

theorem Compiler.originsInSource {c : Compiler} {source : List Char} {rows : Rows}
    (ok : c.rows source = .ok rows) :
    (∃ prepared registry repeated text, Source.prepare source c.registry = .ok (prepared, registry) ∧
      Repeat.expand prepared.expression = .ok repeated ∧ Index.evaluate registry repeated = .ok text ∧
      ∀ t ∈ [prepared.expression, repeated, text],
        (origins t).length = byteLength (chars t) ∧ ∀ o ∈ origins t, o < byteLength source) ∧
    ∀ row ∈ rows, ∀ item ∈ row, item.span.Inside (byteLength source) ∧
      ∀ l ∈ item.labels, l.span.Inside (byteLength source) := by
  obtain ⟨prepared, registry, repeated, text, first, second, third, read⟩ := rowsStages ok
  have before := Source.prepareWithin first
  have between := Repeat.expandKept (Repeat.withinStable _) before second
  have after := Index.evaluateWithin between (fun _ => Nat.zero_lt_of_lt) third
  refine ⟨⟨prepared, registry, repeated, text, first, second, third, ?_⟩, Row.rowsSited after read⟩
  intro t member
  refine ⟨originsLength t, withinOrigins ?_⟩
  simp only [List.mem_cons, List.not_mem_nil, or_false] at member
  rcases member with rfl | rfl | rfl
  · exact before
  · exact between
  · exact after

def ringPiece : List Char := "DEF: P=2dc.A # é\n$k=1$,3ch, # ring\n[P,ch.B[k++]\nsc@A]*2".toList

theorem Compiler.originsInSourceRing : ∃ rows : Rows,
    ({ registry := {} } : Compiler).rows ringPiece = .ok rows ∧
    rows.any (·.any fun item => !item.labels.isEmpty) = true ∧
    ∀ row ∈ rows, ∀ item ∈ row, item.span.Inside (byteLength ringPiece) ∧
      ∀ l ∈ item.labels, l.span.Inside (byteLength ringPiece) := by
  have works : (({ registry := {} } : Compiler).rows ringPiece).toOption.any
      (fun rows => rows.any (·.any fun item => !item.labels.isEmpty)) = true := by
    decide +kernel
  obtain ⟨rows, ok, labelled⟩ := testOk works
  exact ⟨rows, ok, labelled, (originsInSource ok).2⟩

end Crochet
