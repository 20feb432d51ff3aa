import Crochet.Proofs.Outcome
import Crochet.Proofs.Row.Steps

/-! Every item of a parsed row carries the number of its row. -/
namespace Crochet.Row

def NumberedFrom (first : Nat) (rows : Rows) : Prop :=
  ∀ (k : Nat) (row : List Item), rows[k]? = some row → ∀ item ∈ row, item.row = first + k

theorem numberedRest {first : Nat} {row : List Item} {rest : Rows}
    (numbered : NumberedFrom first (row :: rest)) :
    (∀ item ∈ row, item.row = first) ∧ NumberedFrom (first + 1) rest := by
  constructor
  · exact numbered 0 row rfl
  · intro k other found item member
    have here := numbered (k + 1) other found item member
    omega

structure Flat.Numbered (f : Flat) : Prop where
  done : NumberedFrom 0 f.done
  current : ∀ item ∈ f.current, item.row = f.done.length

variable {f : Flat}

theorem numberedPut (numbered : f.Numbered) (kind : Kind) (labels : List LabelDef)
    (attached : Attached) (span : Span) : (f.put kind labels attached span).Numbered where
  done := numbered.done
  current := by
    intro item member
    rcases List.mem_append.mp member with old | new
    · exact numbered.current item old
    · rw [List.mem_singleton.mp new]
      rfl

theorem numberedEndLine (numbered : f.Numbered) : f.endLine.Numbered := by
  unfold Flat.endLine
  split
  · exact numbered
  refine ⟨?_, by simp⟩
  intro k row found item member
  rw [List.getElem?_append] at found
  split at found
  · exact numbered.done k row found item member
  · rename_i past
    obtain ⟨zero, same⟩ : k - f.done.length = 0 ∧ row = f.current := by
      cases rest : k - f.done.length with
      | zero => rw [rest] at found; exact ⟨rfl, (Option.some.inj found).symm⟩
      | succ n => rw [rest] at found; cases found
    subst same
    rw [numbered.current item member]
    omega

theorem numberedStep {colors : List (Nat × String)} {f g : Flat} {step : Step} (numbered : f.Numbered)
    (ok : f.step colors step = .ok g) : g.Numbered := by
  cases step with
  | item kind labels attached span =>
    cases ok
    exact numberedPut numbered _ _ _ _
  | color key span =>
    cases found : colors.lookup key with
    | none => simp [Flat.step, found, faultAt] at ok
    | some color =>
      simp only [Flat.step, found] at ok
      cases ok
      exact ⟨numbered.done, numbered.current⟩
  | endLine =>
    cases ok
    exact numberedEndLine numbered

theorem parseNumbered {t : MappedText} {colors : List (Nat × String)} {color : String} {rows : Rows}
    (ok : parseRows t colors color = .ok rows) : NumberedFrom 0 rows := by
  obtain ⟨lines, flat, _, run, rfl, _⟩ := parseRowsIff.mp ok
  have start : Flat.Numbered { color } := ⟨by simp [NumberedFrom], by simp⟩
  have numbered := foldKeeps Flat.Numbered (fun _ _ _ _ kept one => numberedStep kept one) start run
  exact (numberedEndLine numbered).done

end Crochet.Row
