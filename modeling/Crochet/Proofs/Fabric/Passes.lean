import Crochet.Fabric.Resolve
import Crochet.Proofs.Outcome

/-! Passes collect the uses of labels: every use ends up in one pass, with others of the same key,
group and modifiers, and a pass has no stitches but those of its uses. -/
namespace Crochet
namespace Pass

structure Collects (uses : List LabelUse) (passes : List Pass) : Prop where
  perm : (passes.flatMap stitches).Perm (uses.map LabelUse.stitch)
  nonempty : ∀ p ∈ passes, p.stitches ≠ []
  source : ∀ p ∈ passes, ∀ i ∈ p.stitches, ∃ u ∈ uses, u.stitch = i ∧ u.key = p.key ∧
    u.group = p.group ∧ u.modifiers = p.modifiers

variable {uses : List LabelUse} {passes after : List Pass} {p q : Pass} {u : LabelUse}

theorem Collects.apart (collects : Collects uses passes) {i : Nat}
    (unused : i ∉ uses.map LabelUse.stitch) : ∀ p ∈ passes, i ∉ p.stitches := by
  intro p member inside
  obtain ⟨u, used, rfl, _⟩ := collects.source p member i inside
  exact unused (List.mem_map_of_mem used)

def runStitches (runs : List (Bool × List Nat)) : List Nat :=
  runs.flatMap fun (reversed, run) => if reversed then run.reverse else run

theorem extendRunsPerm (reversed : Bool) (i : Nat) (runs : List (Bool × List Nat)) :
    (runStitches (extendRuns reversed i runs)).Perm (i :: runStitches runs) := by
  fun_induction extendRuns reversed i runs with
  | case1 => cases reversed <;> simp [runStitches]
  | case2 run => cases reversed <;> simp [runStitches]
  | case3 r run other =>
    cases reversed <;> simp [runStitches]
  | case4 run rest _ ih =>
    simp only [runStitches, List.flatMap_cons] at ih ⊢
    exact (ih.append_left _).trans List.perm_middle

theorem joinOk (ok : p.join u = .ok q) :
    q = { p with runs := extendRuns u.reversed u.stitch p.runs } ∧ p.modifiers = u.modifiers := by
  unfold join at ok
  split at ok
  · cases ok
  · rename_i same
    cases ok
    exact ⟨rfl, Classical.not_not.mp same⟩

theorem joinPerm (ok : p.join u = .ok q) :
    q.stitches.Perm (u.stitch :: p.stitches) := by
  obtain ⟨rfl, _⟩ := joinOk ok
  exact extendRunsPerm u.reversed u.stitch p.runs

theorem ofUseStitches (u : LabelUse) : (ofUse u).stitches = [u.stitch] := by
  simp [ofUse, stitches]

theorem addUsePerm (ok : addUse passes u = .ok after) :
    (after.flatMap stitches).Perm (u.stitch :: passes.flatMap stitches) := by
  induction passes generalizing after with
  | nil =>
    cases ok
    simp [ofUseStitches]
  | cons p rest ih =>
    unfold addUse at ok
    split at ok
    · obtain ⟨q, joined, rfl⟩ := mapOk ok
      simpa using (joinPerm joined).append_right (rest.flatMap stitches)
    · obtain ⟨more, added, rfl⟩ := mapOk ok
      simp only [List.flatMap_cons]
      exact ((ih added).append_left _).trans List.perm_middle

theorem addUseSource (ok : addUse passes u = .ok after) (member : q ∈ after) :
    q ∈ passes ∨ (q.key = u.key ∧ q.group = u.group ∧ q.modifiers = u.modifiers ∧
      q.stitches ≠ [] ∧ ∀ i ∈ q.stitches, i = u.stitch ∨ ∃ p ∈ passes, i ∈ p.stitches ∧
        p.key = q.key ∧ p.group = q.group ∧ p.modifiers = q.modifiers) := by
  induction passes generalizing after with
  | nil =>
    cases ok
    rw [List.mem_singleton.mp member]
    refine .inr ⟨rfl, rfl, rfl, by simp [ofUseStitches], ?_⟩
    intro i inside
    exact .inl (by simpa [ofUseStitches] using inside)
  | cons p rest ih =>
    unfold addUse at ok
    split at ok
    · rename_i same
      obtain ⟨joined, one, rfl⟩ := mapOk ok
      rcases List.mem_cons.mp member with rfl | inside
      · have perm := joinPerm one
        obtain ⟨rfl, marks⟩ := joinOk one
        refine .inr ⟨same.1, same.2, marks, ?_, ?_⟩
        · intro empty
          rw [empty] at perm
          exact List.not_perm_nil_cons _ _ perm
        · intro i inside
          rcases List.mem_cons.mp (perm.mem_iff.mp inside) with new | old
          · exact .inl new
          · exact .inr ⟨p, List.mem_cons_self, old, rfl, rfl, rfl⟩
      · exact .inl (List.mem_cons_of_mem _ inside)
    · obtain ⟨more, one, rfl⟩ := mapOk ok
      rcases List.mem_cons.mp member with rfl | inside
      · exact .inl List.mem_cons_self
      · refine (ih one inside).imp (List.mem_cons_of_mem _) ?_
        rintro ⟨key, group, marks, some, each⟩
        refine ⟨key, group, marks, some, ?_⟩
        intro i inside
        rcases each i inside with new | ⟨p, found, old⟩
        · exact .inl new
        · exact .inr ⟨p, List.mem_cons_of_mem _ found, old⟩

theorem collectsAdd (collects : Collects uses passes) (ok : addUse passes u = .ok after) :
    Collects (uses ++ [u]) after where
  perm := by
    rw [List.map_append]
    exact (addUsePerm ok).trans ((collects.perm.cons _).trans (List.perm_append_singleton _ _).symm)
  nonempty := by
    intro q member
    rcases addUseSource ok member with old | ⟨_, _, _, some, _⟩
    · exact collects.nonempty q old
    · exact some
  source := by
    intro q member i inside
    have earlier : ∀ p ∈ passes, i ∈ p.stitches → ∃ v ∈ uses ++ [u], v.stitch = i ∧
        v.key = p.key ∧ v.group = p.group ∧ v.modifiers = p.modifiers := by
      intro p old inOld
      obtain ⟨v, found, facts⟩ := collects.source p old i inOld
      exact ⟨v, List.mem_append_left _ found, facts⟩
    rcases addUseSource ok member with old | ⟨key, group, marks, _, each⟩
    · exact earlier q old inside
    · rcases each i inside with rfl | ⟨p, old, inOld, sameKey, sameGroup, sameMarks⟩
      · exact ⟨u, by simp, rfl, key.symm, group.symm, marks.symm⟩
      · rw [← sameKey, ← sameGroup, ← sameMarks]
        exact earlier p old inOld

end Pass

namespace Fabric

theorem passesKeep {f : Fabric} {passes : List Pass} (Inv : List LabelUse → List Pass → Prop)
    (start : Inv [] []) (add : ∀ {done passes u next}, Inv done passes →
      Pass.addUse passes u = .ok next → Inv (done ++ [u]) next)
    (sorted : ∀ {done a b}, b.Perm a → Inv done a → Inv done b) (ok : f.passes = .ok passes) :
    Inv f.uses passes := by
  unfold Fabric.passes at ok
  obtain ⟨all, run, ok⟩ := bindOk ok
  cases pureOk ok
  have kept := foldRest (fun rest passes => ∃ done, f.uses = done ++ rest ∧ Inv done passes) ?_
    ⟨[], rfl, start⟩ run
  · obtain ⟨done, same, kept⟩ := kept
    rw [List.append_nil] at same
    exact sorted (List.mergeSort_perm all (Pass.comesFirst f)) (same ▸ kept)
  · rintro u rest passes next ⟨done, same, kept⟩ one
    exact ⟨done ++ [u], by simpa using same, add kept one⟩

theorem passesCollect {f : Fabric} {passes : List Pass} (ok : f.passes = .ok passes) :
    Pass.Collects f.uses passes := by
  refine passesKeep Pass.Collects ⟨by simp, by simp, by simp⟩ Pass.collectsAdd ?_ ok
  intro done a b sorted collects
  exact ⟨(sorted.flatMap_right _).trans collects.perm,
    fun p member => collects.nonempty p (sorted.mem_iff.mp member),
    fun p member => collects.source p (sorted.mem_iff.mp member)⟩

end Fabric
end Crochet
