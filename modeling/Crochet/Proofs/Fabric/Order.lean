import Mathlib.Data.List.SplitBy
import Crochet.Proofs.Fabric.Passes

/-! The order of a pass. The uses of one label and one group are cut into runs where they change
between `@A` and `@A~`; a pass works the runs one after another, those of `~` backwards. -/
namespace Crochet
namespace LabelUse

def sameWay (u v : LabelUse) : Bool := u.reversed == v.reversed

def inGroup (key : String) (group : Int) (uses : List LabelUse) : List LabelUse :=
  uses.filter fun u => u.key = key ∧ u.group = group

def inOrder (uses : List LabelUse) : List LabelUse :=
  (uses.splitBy sameWay).flatMap fun run => if run.any reversed then run.reverse else run

variable {u : LabelUse}

theorem sameWayIff {v : LabelUse} : u.sameWay v = true ↔ u.reversed = v.reversed := by
  simp [sameWay]

theorem runAlike {uses run : List LabelUse} (member : run ∈ uses.splitBy sameWay) (inside : u ∈ run) :
    run.any reversed = u.reversed := by
  have steps : run.IsChain fun u v => u.reversed = v.reversed :=
    (List.isChain_of_mem_splitBy member).imp fun _ _ => sameWayIff.mp
  have : IsTrans LabelUse fun u v => u.reversed = v.reversed := ⟨fun _ _ _ => Eq.trans⟩
  have : Std.Symm fun u v : LabelUse => u.reversed = v.reversed := ⟨fun _ _ => Eq.symm⟩
  have pairs := List.isChain_iff_pairwise.mp steps
  have alike : ∀ v ∈ run, ∀ w ∈ run, v.reversed = w.reversed := by
    intro v first w second
    refine pairs.forall_of_forall ?_ first second
    exact fun _ _ => rfl
  rw [Bool.eq_iff_iff, List.any_eq_true]
  constructor
  · rintro ⟨v, other, back⟩
    exact (alike u inside v other).trans back
  · intro back
    exact ⟨u, inside, back⟩

theorem inGroupOne {key : String} {group : Int} {uses : List LabelUse} :
    inGroup key group (uses ++ [u]) =
      inGroup key group uses ++ if u.key = key ∧ u.group = group then [u] else [] := by
  rw [inGroup, List.filter_append, ← inGroup, List.filter_singleton]
  by_cases same : u.key = key ∧ u.group = group <;> simp [same]

end LabelUse

namespace Pass
open LabelUse (sameWay inGroup inOrder)

def runsOf (uses : List LabelUse) : List (Bool × List Nat) :=
  (uses.splitBy sameWay).map fun run => (run.any LabelUse.reversed, run.map LabelUse.stitch)

theorem runsOfStitches (uses : List LabelUse) :
    runStitches (runsOf uses) = (inOrder uses).map LabelUse.stitch := by
  simp only [runStitches, runsOf, inOrder, List.flatMap_map, List.map_flatMap]
  congr 1
  funext run
  split <;> simp

theorem extendRunsLast (way : Bool) (i : Nat) (runs : List (Bool × List Nat)) (last : Bool)
    (run : List Nat) : extendRuns way i (runs ++ [(last, run)]) =
      if last = way then runs ++ [(last, run ++ [i])] else runs ++ [(last, run), (way, [i])] := by
  induction runs with
  | nil => simp [extendRuns]
  | cons first rest ih =>
    have open' : extendRuns way i (first :: (rest ++ [(last, run)])) =
        first :: extendRuns way i (rest ++ [(last, run)]) := by
      cases rest <;> rfl
    rw [List.cons_append, open', ih]
    split <;> rfl

variable {u : LabelUse}

theorem splitLonger {uses run : List LabelUse} {runs : List (List LabelUse)}
    (split : uses.splitBy sameWay = runs ++ [run]) (same : run.any LabelUse.reversed = u.reversed) :
    (uses ++ [u]).splitBy sameWay = runs ++ [run ++ [u]] := by
  obtain ⟨whole, full, chains, cuts⟩ := List.splitBy_eq_iff.mp split
  have nonempty : run ≠ [] := fun empty => full (by simp [empty])
  have atEnd : run.getLast nonempty ∈ run := List.getLast_mem nonempty
  have member : run ∈ uses.splitBy sameWay := by simp [split]
  have joins := (LabelUse.runAlike member atEnd).symm.trans same
  refine List.splitBy_eq_iff.mpr ⟨by simp [whole], ?_, ?_, ?_⟩
  · simp only [List.mem_append, List.mem_singleton, not_or] at full ⊢
    exact ⟨full.1, by simp⟩
  · intro other inside
    rcases List.mem_append.mp inside with old | new
    · exact chains other (List.mem_append_left _ old)
    · rw [List.mem_singleton.mp new]
      refine (chains run (by simp)).append (.singleton u) ?_
      intro v last w head
      rw [List.getLast?_eq_getLast_of_ne_nil nonempty] at last
      cases last
      cases head
      exact LabelUse.sameWayIff.mpr joins
  · rw [List.isChain_append] at cuts ⊢
    refine ⟨cuts.1, .singleton _, ?_⟩
    intro before last after head
    cases head
    obtain ⟨some, _, cut⟩ := cuts.2.2 before last run rfl
    exact ⟨some, by simp, by rwa [List.head_append_of_ne_nil nonempty]⟩

theorem splitFresh {uses run : List LabelUse} {runs : List (List LabelUse)}
    (split : uses.splitBy sameWay = runs ++ [run]) (other : run.any LabelUse.reversed ≠ u.reversed) :
    (uses ++ [u]).splitBy sameWay = runs ++ [run, [u]] := by
  have member : run ∈ uses.splitBy sameWay := by simp [split]
  have nonempty := List.ne_nil_of_mem_splitBy member
  rw [List.splitBy_append, split]
  · exact List.append_assoc _ _ _
  · intro v last w head
    cases head
    have whole := List.flatten_splitBy sameWay uses
    rw [split] at whole
    have atEnd : v = run.getLast nonempty := by
      rw [← whole] at last
      simp [List.getLast?_append, List.getLast?_eq_getLast_of_ne_nil nonempty] at last
      exact last.symm
    rw [Bool.eq_false_iff, Ne, LabelUse.sameWayIff, atEnd,
      ← LabelUse.runAlike member (List.getLast_mem nonempty)]
    exact other

theorem runsOfOne (uses : List LabelUse) (u : LabelUse) :
    runsOf (uses ++ [u]) = extendRuns u.reversed u.stitch (runsOf uses) := by
  rcases List.eq_nil_or_concat (uses.splitBy sameWay) with empty | ⟨runs, run, split⟩
  · rw [List.splitBy_eq_nil.mp empty]
    change [([u].any LabelUse.reversed, [u.stitch])] = [(u.reversed, [u.stitch])]
    simp
  rw [List.concat_eq_append] at split
  simp only [runsOf, split, List.map_append, List.map_cons, List.map_nil, extendRunsLast]
  by_cases same : run.any LabelUse.reversed = u.reversed
  · simp [splitLonger split same, same]
  · simp [splitFresh split same, same]

structure Joined (passes after : List Pass) (u : LabelUse) (before rest : List Pass) (p : Pass) :
    Prop where
  split : passes = before ++ p :: rest
  same : p.key = u.key ∧ p.group = u.group
  marks : p.modifiers = u.modifiers
  result : after = before ++ { p with runs := extendRuns u.reversed u.stitch p.runs } :: rest

theorem addUseCases {passes after : List Pass} (ok : addUse passes u = .ok after) :
    (∃ before rest p, Joined passes after u before rest p) ∨
      (∀ p ∈ passes, ¬ (p.key = u.key ∧ p.group = u.group)) ∧ after = passes ++ [ofUse u] := by
  induction passes generalizing after with
  | nil =>
    cases ok
    exact .inr ⟨by simp, rfl⟩
  | cons first others ih =>
    unfold addUse at ok
    split at ok
    · rename_i same
      obtain ⟨q, joined, rfl⟩ := mapOk ok
      obtain ⟨rfl, marks⟩ := joinOk joined
      exact .inl ⟨[], others, first, rfl, same, marks, rfl⟩
    · rename_i different
      obtain ⟨more, added, rfl⟩ := mapOk ok
      rcases ih added with ⟨before, rest, p, joined⟩ | ⟨none, rfl⟩
      · exact .inl ⟨first :: before, rest, p, by rw [joined.split]; rfl, joined.same, joined.marks,
          by rw [joined.result]; rfl⟩
      · exact .inr ⟨List.forall_mem_cons.mpr ⟨different, none⟩, rfl⟩

structure Ordered (uses : List LabelUse) (passes : List Pass) : Prop where
  distinct : passes.Pairwise fun p q => ¬ (p.key = q.key ∧ p.group = q.group)
  runs : ∀ p ∈ passes, p.runs = runsOf (inGroup p.key p.group uses)
  covers : ∀ u ∈ uses, ∃ p ∈ passes, p.key = u.key ∧ p.group = u.group ∧ p.modifiers = u.modifiers

section
variable {uses : List LabelUse} {passes after : List Pass}

theorem runsKept (ordered : Ordered uses passes) {p : Pass} (member : p ∈ passes)
    (different : ¬ (p.key = u.key ∧ p.group = u.group)) :
    p.runs = runsOf (inGroup p.key p.group (uses ++ [u])) := by
  rw [ordered.runs p member, LabelUse.inGroupOne,
    if_neg fun same => different ⟨same.1.symm, same.2.symm⟩, List.append_nil]

theorem orderedJoin (ordered : Ordered uses passes) {before rest : List Pass} {p : Pass}
    (joined : Joined passes after u before rest p) : Ordered (uses ++ [u]) after := by
  obtain ⟨rfl, same, marks, rfl⟩ := joined
  have apart := List.pairwise_append.mp ordered.distinct
  have behind := List.pairwise_cons.mp apart.2.1
  refine ⟨?_, ?_, ?_⟩
  · refine List.pairwise_append.mpr ⟨apart.1, List.pairwise_cons.mpr behind, ?_⟩
    intro q inBefore r inRest
    rcases List.mem_cons.mp inRest with rfl | later
    · exact apart.2.2 q inBefore p List.mem_cons_self
    · exact apart.2.2 q inBefore r (List.mem_cons_of_mem _ later)
  · intro q member
    rcases List.mem_append.mp member with inBefore | inRest
    · have different := apart.2.2 q inBefore p List.mem_cons_self
      exact runsKept ordered (List.mem_append_left _ inBefore) (same.1 ▸ same.2 ▸ different)
    rcases List.mem_cons.mp inRest with rfl | later
    · simp only [LabelUse.inGroupOne, if_pos (And.intro same.1.symm same.2.symm), runsOfOne]
      rw [ordered.runs p (by simp)]
    · have different := behind.1 q later
      refine runsKept ordered (by simp [later]) ?_
      rw [← same.1, ← same.2]
      exact fun equal => different ⟨equal.1.symm, equal.2.symm⟩
  · intro v member
    rcases List.mem_append.mp member with old | new
    · obtain ⟨q, found, facts⟩ := ordered.covers v old
      rcases List.mem_append.mp found with inBefore | inRest
      · exact ⟨q, List.mem_append_left _ inBefore, facts⟩
      rcases List.mem_cons.mp inRest with rfl | later
      · exact ⟨_, List.mem_append_right _ List.mem_cons_self, facts⟩
      · exact ⟨q, by simp [later], facts⟩
    · rw [List.mem_singleton.mp new]
      exact ⟨_, List.mem_append_right _ List.mem_cons_self, same.1, same.2, marks⟩

theorem orderedFresh (ordered : Ordered uses passes)
    (none : ∀ p ∈ passes, ¬ (p.key = u.key ∧ p.group = u.group)) :
    Ordered (uses ++ [u]) (passes ++ [ofUse u]) where
  distinct := by
    refine List.pairwise_append.mpr ⟨ordered.distinct, List.pairwise_singleton _ _, ?_⟩
    intro p member q new
    rw [List.mem_singleton.mp new]
    exact none p member
  runs := by
    intro p member
    rcases List.mem_append.mp member with old | new
    · exact runsKept ordered old (none p old)
    · have first : inGroup u.key u.group uses = [] := by
        refine List.filter_eq_nil_iff.mpr ?_
        intro v used same
        obtain ⟨p, found, key, group, _⟩ := ordered.covers v used
        have same := of_decide_eq_true same
        exact none p found ⟨key.trans same.1, group.trans same.2⟩
      rw [List.mem_singleton.mp new]
      simp only [ofUse, LabelUse.inGroupOne, first, and_self, if_true]
      exact (runsOfOne [] u).symm
  covers := by
    intro v member
    rcases List.mem_append.mp member with old | new
    · obtain ⟨p, found, facts⟩ := ordered.covers v old
      exact ⟨p, List.mem_append_left _ found, facts⟩
    · rw [List.mem_singleton.mp new]
      exact ⟨ofUse u, by simp, rfl, rfl, rfl⟩

end
end Pass

namespace Fabric

def passOrder (f : Fabric) (key : String) (group : Int) : List Nat :=
  (LabelUse.inOrder (LabelUse.inGroup key group f.uses)).map LabelUse.stitch

theorem passesOrdered {f : Fabric} {passes : List Pass} (ok : f.passes = .ok passes) :
    Pass.Ordered f.uses passes := by
  refine passesKeep Pass.Ordered ⟨by simp, by simp, by simp⟩ ?_ ?_ ok
  · intro done passes u next ordered one
    rcases Pass.addUseCases one with ⟨before, rest, p, joined⟩ | ⟨none, rfl⟩
    · exact Pass.orderedJoin ordered joined
    · exact Pass.orderedFresh ordered none
  · intro done a b sorted ordered
    refine ⟨?_, fun p member => ordered.runs p (sorted.mem_iff.mp member), ?_⟩
    · refine ordered.distinct.perm sorted.symm ?_
      exact fun apart same => apart ⟨same.1.symm, same.2.symm⟩
    · intro u used
      obtain ⟨p, member, facts⟩ := ordered.covers u used
      exact ⟨p, sorted.mem_iff.mpr member, facts⟩

theorem passOf {f : Fabric} {passes : List Pass} (ok : f.passes = .ok passes) {u : LabelUse}
    (used : u ∈ f.uses) : ∃ p ∈ passes, p.key = u.key ∧ p.group = u.group ∧
      p.modifiers = u.modifiers ∧ p.stitches = f.passOrder u.key u.group := by
  have ordered := passesOrdered ok
  obtain ⟨p, member, key, group, marks⟩ := ordered.covers u used
  have runs := ordered.runs p member
  refine ⟨p, member, key, group, marks, ?_⟩
  calc p.stitches = Pass.runStitches p.runs := rfl
    _ = f.passOrder u.key u.group := by rw [runs, Pass.runsOfStitches, key, group]; rfl

end Fabric
end Crochet
