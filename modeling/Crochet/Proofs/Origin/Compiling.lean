import Crochet.Compiler
import Crochet.Proofs.Origin.Drawing
import Crochet.Proofs.Origin.Resolving
import Crochet.Proofs.Origin.Weaving

/-! The first id does not show in a compiled pattern, nor in the kind and the place of a fault, as
long as the ids of the piece are signed words. -/
namespace Crochet
namespace Compiler

def startingAt (c : Compiler) (firstId : Nat) : Compiler :=
  { c with options := { c.options with firstId } }

/- No id of the piece overflows, and neither does the place behind the last one. -/
def IdsFit (c : Compiler) (source : List Char) : Prop :=
  ∀ e rows, c.parsed source = .ok (e, rows) → Fabric.Within rows e.registry c.options

section
variable {k : Nat}

theorem resolvedMoved (f : Fabric) :
    InStep Fault.Like (Fabric.moved k) (resolved f) (resolved (f.moved k)) := by
  unfold resolved
  rcases (f.resolveMoved (k := k)).split with ⟨g, run, moved⟩ |
    ⟨g, fault, other, run, moved, like⟩
  · rw [run, moved]
    exact .ok g
  · rw [run, moved]
    exact .error like

variable (c : Compiler) (source : List Char)

theorem parsedApart {e : Expanded} {rows : Rows} (ok : c.parsed source = .ok (e, rows)) :
    ∀ row ∈ rows, ∀ item ∈ row, item.PostApart := by
  unfold parsed at ok
  obtain ⟨e', _, ok⟩ := bindOk ok
  obtain ⟨rows', read, ok⟩ := bindOk ok
  cases pureOk ok
  exact Row.parsedApart read

variable {c source}

theorem fabricMoved (fits : (c.startingAt (c.options.firstId + k)).IdsFit source) :
    InStep Fault.Like (Prod.map id (Fabric.moved k)) (c.fabric source)
      ((c.startingAt (c.options.firstId + k)).fabric source) := by
  have same : (c.startingAt (c.options.firstId + k)).parsed source = c.parsed source := rfl
  unfold fabric
  rw [same]
  cases read : c.parsed source with
  | error fault => exact .error (.refl fault)
  | ok found =>
    obtain ⟨e, rows⟩ := found
    have within := fits e rows (same.trans read)
    refine (Fabric.weaveMoved (c.parsedApart source read) within).bind ?_
    intro f _ _
    exact .ok (e, f)

theorem patternMoved (fits : (c.startingAt (c.options.firstId + k)).IdsFit source) :
    InStep Fault.Like id (c.pattern source)
      ((c.startingAt (c.options.firstId + k)).pattern source) := by
  unfold pattern
  refine (fabricMoved fits).bind ?_
  rintro ⟨e, f⟩ _ _
  refine (resolvedMoved f).bind ?_
  intro g _ _
  refine (Graph.ofFabricMoved g c.options _).bind ?_
  intro graph _ _
  refine .okAs ?_
  simp only [id, Fabric.movedSummaries]

theorem compileMoved (fits : (c.startingAt (c.options.firstId + k)).IdsFit source) :
    InStep Fault.Like id (c.compile source)
      ((c.startingAt (c.options.firstId + k)).compile source) := by
  refine (patternMoved fits).mapError ?_
  intro fault other like
  have quoted (fault : Fault) : (fault.withSource source).kind = fault.kind ∧
      (fault.withSource source).span = fault.span := by
    unfold Fault.withSource
    cases place : fault.span with
    | none => exact ⟨rfl, place⟩
    | some span => exact ⟨rfl, rfl⟩
  exact ⟨(quoted other).1.trans (like.kind.trans (quoted fault).1.symm),
    (quoted other).2.trans (like.span.trans (quoted fault).2.symm)⟩

end

theorem compileFrom {c : Compiler} {source : List Char} {a b : Nat} (order : a ≤ b)
    (fits : (c.startingAt b).IdsFit source) :
    InStep Fault.Like id ((c.startingAt a).compile source) ((c.startingAt b).compile source) := by
  obtain ⟨k, rfl⟩ := Nat.exists_eq_add_of_le order
  exact compileMoved (c := c.startingAt a) fits

theorem originUnseen (c : Compiler) (source : List Char) (a b : Nat)
    (fitsA : (c.startingAt a).IdsFit source) (fitsB : (c.startingAt b).IdsFit source) :
    (∃ p, (c.startingAt a).compile source = .ok p ∧ (c.startingAt b).compile source = .ok p) ∨
      ∃ fault other, (c.startingAt a).compile source = .error fault ∧
        (c.startingAt b).compile source = .error other ∧
        fault.kind = other.kind ∧ fault.span = other.span := by
  rcases Nat.le_total a b with order | order
  · exact inStepCases (compileFrom order fitsB)
  · rcases inStepCases (compileFrom order fitsA) with ⟨p, right, left⟩ |
      ⟨other, fault, right, left, kind, span⟩
    · exact .inl ⟨p, left, right⟩
    · exact .inr ⟨fault, other, left, right, kind.symm, span.symm⟩

def plain : Compiler := { registry := Registry.plain }

def smallPiece : List Char :=
  "ch,3ch.A,turn\nsc@A+0,sc2tog@A+0,turn\nsc@[1,0]^,sc@A[1]".toList

theorem smallFits : (plain.startingAt 0).IdsFit smallPiece ∧
    (plain.startingAt 1000).IdsFit smallPiece := by
  have runs : (plain.parsed smallPiece >>= fun found => do
      let f ← Fabric.weave found.2 found.1.registry (plain.startingAt 0).options
      let g ← Fabric.weave found.2 found.1.registry (plain.startingAt 1000).options
      pure (f, g)).toOption.any
        (fun found => found.1.nextId < 2 ^ 63 && found.2.nextId < 2 ^ 63) = true := by
    decide +kernel
  obtain ⟨last, run, small⟩ := testOk runs
  obtain ⟨⟨e, rows⟩, parsed, run⟩ := bindOk run
  obtain ⟨f, low, run⟩ := bindOk run
  obtain ⟨g, high, run⟩ := bindOk run
  cases pureOk run
  simp only [Bool.and_eq_true, decide_eq_true_eq] at small
  refine ⟨?_, ?_⟩
  · intro e' rows' again
    cases parsed.symm.trans again
    exact Fabric.withinWoven low small.1
  · intro e' rows' again
    cases parsed.symm.trans again
    exact Fabric.withinWoven high small.2

theorem originUnseenSmall : (plain.startingAt 0).IdsFit smallPiece ∧
    (plain.startingAt 1000).IdsFit smallPiece ∧
    ∃ p, (plain.startingAt 0).compile smallPiece = .ok p ∧
      (plain.startingAt 1000).compile smallPiece = .ok p := by
  have works : ((plain.startingAt 0).compile smallPiece).isOk = true := by decide +kernel
  refine ⟨smallFits.1, smallFits.2, ?_⟩
  rcases originUnseen plain smallPiece 0 1000 smallFits.1 smallFits.2 with both |
    ⟨fault, _, failed, _⟩
  · exact both
  · rw [failed] at works
    cases works

end Compiler
end Crochet
