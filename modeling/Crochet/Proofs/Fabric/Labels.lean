import Crochet.Fabric.Place
import Crochet.Proofs.Outcome

/-! Labels seen through their look-up. Work on a pattern only ever marks a label as referenced or
gives it more tops, and a label that is referenced gets no more tops. -/
namespace Crochet
namespace Label

def named? (key : String) (labels : List Label) : Option Label := labels.find? (·.key == key)

def marked (on : Bool) (l : Label) : Label := { l with referenced := l.referenced || on }

def Marks (labels after : List Label) : Prop :=
  ∀ key, ∃ on, named? key after = (named? key labels).map (marked on)

structure Grows (ids : List Nat) (labels after : List Label) : Prop where
  kept : ∀ key l, named? key labels = some l → ∃ l', named? key after = some l' ∧
    l'.modifiers = l.modifiers ∧ l'.referenced = l.referenced ∧
    (l.referenced = true → l'.ids = l.ids)
  source : ∀ key l', named? key after = some l' → ∀ id ∈ l'.ids,
    id ∈ ids ∨ ∃ l, named? key labels = some l ∧ id ∈ l.ids

variable {key : String} {labels after : List Label} {l : Label} {ids : List Nat} {d : Row.LabelDef}

theorem namedKey (found : named? key labels = some l) : l.key = key := by
  unfold named? at found
  simpa using List.find?_some found

theorem marksRefl (labels : List Label) : Marks labels labels := by
  intro key
  refine ⟨false, ?_⟩
  cases named? key labels with
  | none => rfl
  | some l => simp [marked]

theorem growsRefl (ids : List Nat) (labels : List Label) : Grows ids labels labels where
  kept := fun _ l found => ⟨l, found, rfl, rfl, fun _ => rfl⟩
  source := fun _ l found _ member => .inr ⟨l, found, member⟩

theorem Grows.trans {first second third : List Label} (before : Grows ids first second)
    (next : Grows ids second third) : Grows ids first third where
  kept := by
    intro key l found
    obtain ⟨m, middle, sameMarks, sameFlag, sameIds⟩ := before.kept key l found
    obtain ⟨n, last, marks, flag, frozen⟩ := next.kept key m middle
    refine ⟨n, last, marks.trans sameMarks, flag.trans sameFlag, ?_⟩
    intro referenced
    exact (frozen (sameFlag.trans referenced)).trans (sameIds referenced)
  source := by
    intro key n last id member
    rcases next.source key n last id member with new | ⟨m, middle, inside⟩
    · exact .inl new
    · exact before.source key m middle id inside

theorem growOk {after : Label} (ok : l.grow d ids = .ok after) :
    after = { l with ids := l.ids ++ ids } ∧ (l.referenced = true → ids = []) := by
  simp only [grow, faultAt] at ok
  split at ok
  · cases ok
  split at ok
  · cases ok
  · rename_i free
    cases ok
    refine ⟨rfl, ?_⟩
    intro referenced
    simpa [referenced] using free

theorem namedCons (key : String) (l : Label) (labels : List Label) :
    named? key (l :: labels) = if l.key = key then some l else named? key labels := by
  by_cases same : l.key = key
  · simp [named?, same]
  · simp [named?, same]

theorem namedMap {mark : Label → Label} (keeps : ∀ l, (mark l).key = l.key) (key : String)
    (labels : List Label) : named? key (labels.map mark) = (named? key labels).map mark := by
  induction labels with
  | nil => rfl
  | cons l rest ih =>
    rw [List.map_cons, namedCons, namedCons, keeps, ih]
    split <;> rfl

theorem growGrows {after : Label} {rest : List Label} (ok : l.grow d ids = .ok after) :
    Grows ids (l :: rest) (after :: rest) := by
  obtain ⟨rfl, free⟩ := growOk ok
  constructor
  · intro key m found
    rw [namedCons] at found ⊢
    split at found
    · rename_i same
      cases found
      rw [if_pos same]
      refine ⟨_, rfl, rfl, rfl, ?_⟩
      intro referenced
      simp [free referenced]
    · rename_i other
      rw [if_neg other]
      exact ⟨m, found, rfl, rfl, fun _ => rfl⟩
  · intro key m found id member
    rw [namedCons] at found
    split at found
    · rename_i same
      cases found
      rcases List.mem_append.mp member with old | new
      · exact .inr ⟨l, by rw [namedCons, if_pos same], old⟩
      · exact .inl new
    · rename_i other
      exact .inr ⟨m, by rw [namedCons, if_neg other]; exact found, member⟩

theorem growsCons (l : Label) (grows : Grows ids labels after) :
    Grows ids (l :: labels) (l :: after) := by
  constructor
  · intro key m found
    rw [namedCons] at found ⊢
    split at found
    · rename_i same
      rw [if_pos same]
      exact ⟨m, found, rfl, rfl, fun _ => rfl⟩
    · rename_i other
      rw [if_neg other]
      exact grows.kept key m found
  · intro key m found id member
    rw [namedCons] at found ⊢
    split at found
    · rename_i same
      rw [if_pos same]
      exact .inr ⟨m, found, member⟩
    · rename_i other
      rw [if_neg other]
      exact grows.source key m found id member

theorem defineGrows (ok : defineLabel ids labels d = .ok after) : Grows ids labels after := by
  induction labels generalizing after with
  | nil =>
    cases ok
    constructor
    · intro key l found
      cases found
    · intro key l found id member
      rw [namedCons] at found
      split at found
      · cases found; exact .inl member
      · cases found
  | cons l rest ih =>
    unfold defineLabel at ok
    split at ok
    · obtain ⟨grown, one, rfl⟩ := mapOk ok
      exact growGrows one
    · obtain ⟨more, one, rfl⟩ := mapOk ok
      exact growsCons l (ih one)

theorem definesGrow {defs : List Row.LabelDef}
    (ok : defs.foldlM (defineLabel ids) labels = .ok after) : Grows ids labels after :=
  foldKeeps (Grows ids labels) (fun _ _ _ _ before one => before.trans (defineGrows one))
    (growsRefl ids labels) ok

theorem referMarks (w : Work) (key : String) : Marks w.fabric.labels (w.refer key).fabric.labels := by
  intro other
  refine ⟨decide (other = key), ?_⟩
  have keeps : ∀ l : Label,
      (if l.key = key then { l with referenced := true } else l).key = l.key := by
    intro l
    split <;> rfl
  simp only [Work.refer]
  rw [namedMap keeps]
  cases found : named? other w.fabric.labels with
  | none => rfl
  | some l =>
    have same := namedKey found
    subst same
    by_cases here : l.key = key
    · simp [marked, here]
    · simp [marked, here]

theorem referNamed {w : Work} (found : w.fabric.label? key = some l) :
    (w.refer key).fabric.label? key = some { l with referenced := true } := by
  have keeps : ∀ l : Label,
      (if l.key = key then { l with referenced := true } else l).key = l.key := by
    intro l
    split <;> rfl
  change named? key (w.fabric.labels.map _) = _
  rw [namedMap keeps]
  change (w.fabric.label? key).map _ = _
  rw [found]
  simp [namedKey found]

end Label
end Crochet
