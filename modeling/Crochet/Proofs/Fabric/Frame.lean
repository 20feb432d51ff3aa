import Mathlib.Data.List.Perm.Basic
import Crochet.Proofs.Fabric.Order
import Crochet.Proofs.Fabric.StandIns

/-! What working out the labels changes. Every use of a label is in one pass, a pass gives every bottom
of its stitches anew, and nothing else is touched. Where a pass fails, those before it stay done and
nothing of it is. -/
namespace Crochet

theorem LabelUse.inOrderPerm (uses : List LabelUse) : (inOrder uses).Perm uses := by
  have parts := List.flatten_splitBy sameWay uses
  conv => rhs; rw [← parts, ← List.flatMap_id]
  refine List.Perm.flatMap_left _ fun run _ => ?_
  split
  · exact run.reverse_perm
  · exact .refl run

namespace Pass

/- Every use is in exactly one of the passes, and a pass has the stitches of its uses. -/
structure Partition (uses : List LabelUse) (passes : List Pass) : Prop where
  distinct : passes.Pairwise fun p q => ¬ (p.key = q.key ∧ p.group = q.group)
  members : ∀ p ∈ passes,
    p.stitches.Perm ((LabelUse.inGroup p.key p.group uses).map LabelUse.stitch)
  each : ∀ u ∈ uses, ∃ before p after, passes = before ++ p :: after ∧ p.key = u.key ∧
    p.group = u.group ∧ p.modifiers = u.modifiers ∧ p.stitches.count u.stitch = 1 ∧
    ∀ q ∈ before ++ after, u.stitch ∉ q.stitches

variable {p : Pass}

theorem Ordered.members {uses : List LabelUse} {passes : List Pass} (ordered : Ordered uses passes)
    (member : p ∈ passes) :
    p.stitches.Perm ((LabelUse.inGroup p.key p.group uses).map LabelUse.stitch) := by
  have order : p.stitches = runStitches p.runs := rfl
  rw [order, ordered.runs p member, runsOfStitches]
  exact (LabelUse.inOrderPerm _).map _

theorem stitchAlone {before after : List Pass} {i : Nat}
    (once : ((before ++ p :: after).flatMap stitches).Nodup) (inside : i ∈ p.stitches) :
    p.stitches.count i = 1 ∧ ∀ q ∈ before ++ after, i ∉ q.stitches := by
  have front : (before ++ p :: after).Perm (p :: (before ++ after)) := List.perm_middle
  have split := (front.flatMap_right stitches).nodup_iff.mp once
  rw [List.flatMap_cons, List.nodup_append] at split
  refine ⟨List.count_eq_one_of_mem split.1 inside, ?_⟩
  intro q member there
  exact split.2.2 i inside i (List.mem_flatMap.mpr ⟨q, member, there⟩) rfl

end Pass

namespace Fabric

variable {passes : List Pass}

theorem passesPartition {f : Fabric} (labelled : f.Labelled) (collected : f.passes = .ok passes) :
    Pass.Partition f.uses passes := by
  have ordered := passesOrdered collected
  have once := stitchesOnce labelled (passesCollect collected)
  refine ⟨ordered.distinct, fun p member => ordered.members member, ?_⟩
  intro u used
  obtain ⟨p, member, key, group, marks⟩ := ordered.covers u used
  have inGroup : u ∈ LabelUse.inGroup p.key p.group f.uses := by
    simp [LabelUse.inGroup, used, key, group]
  have inside := (ordered.members member).mem_iff.mpr (List.mem_map_of_mem inGroup)
  obtain ⟨before, after, rfl⟩ := List.append_of_mem member
  exact ⟨before, p, after, rfl, key, group, marks, Pass.stitchAlone once inside⟩

def assigned (f : Fabric) : List Pass → List ((Nat × Nat) × NodeRef)
  | [] => []
  | p :: rest => match f.assignments p with
    | .error _ => []
    | .ok entries => entries ++ (entries.foldl assign f).assigned rest

section
variable (f : Fabric)

theorem runAssigned (passes : List Pass) :
    (f.runPasses passes).1 = (f.assigned passes).foldl assign f := by
  induction passes generalizing f with
  | nil => rfl
  | cons p rest ih =>
    unfold runPasses assigned
    cases f.assignments p with
    | error fault => rfl
    | ok entries =>
      simp only [List.foldl_append]
      exact ih (entries.foldl assign f)

structure StopsAt (passes done rest : List Pass) (p : Pass) (fault : Fault) : Prop where
  split : passes = done ++ p :: rest
  before : f.runPasses done = ((f.runPasses passes).1, .ok ())
  fails : (f.runPasses passes).1.assignments p = .error fault
  outcome : (f.runPasses passes).2 = .error fault
  nothing : f.assigned passes = f.assigned done

theorem runStops (passes : List Pass) : (f.runPasses passes).2 = .ok () ∨
    ∃ done rest p fault, f.StopsAt passes done rest p fault := by
  induction passes generalizing f with
  | nil => exact .inl rfl
  | cons p rest ih =>
    cases here : f.assignments p with
    | error fault =>
      have run : f.runPasses (p :: rest) = (f, .error fault) := by simp only [runPasses, here]
      refine .inr ⟨[], rest, p, fault, rfl, ?_, ?_, ?_, ?_⟩
      · rw [run]; rfl
      · rw [run]; exact here
      · rw [run]
      · simp only [assigned, here]
    | ok entries =>
      have run : ∀ passes,
          f.runPasses (p :: passes) = (entries.foldl assign f).runPasses passes := by
        intro passes
        simp only [runPasses, here]
      rcases ih (entries.foldl assign f) with done | ⟨done, after, q, fault, stops⟩
      · exact .inl (by rw [run]; exact done)
      · refine .inr ⟨p :: done, after, q, fault, by rw [stops.split]; rfl, ?_, ?_, ?_, ?_⟩
        · rw [run, run]; exact stops.before
        · rw [run]; exact stops.fails
        · rw [run]; exact stops.outcome
        · simp only [assigned, here, stops.nothing]

end

section
variable {f : Fabric}

theorem slotsJoined (passes : List Pass) :
    passes.flatMap f.slots = f.slotsOf (passes.flatMap Pass.stitches) :=
  List.flatMap_assoc.symm

theorem assignedSlots (done : (f.runPasses passes).2 = .ok ()) :
    (f.assigned passes).map Prod.fst = passes.flatMap f.slots := by
  induction passes generalizing f with
  | nil => rfl
  | cons p rest ih =>
    obtain ⟨entries, ok, more⟩ := runCons (Prod.ext rfl done)
    obtain ⟨s, assigns⟩ := assigns ok
    have reworked := assignReworked f entries
    simp only [assigned, ok, List.map_append, List.flatMap_cons, assigns.slots]
    rw [ih (congrArg Prod.snd more), funext reworked.slotsSame]

/- The passes have put each of these entries into a bottom of theirs, one into every bottom, and left
all others. -/
structure Replaced (f g : Fabric) (done : List Pass) (entries : List ((Nat × Nat) × NodeRef)) :
    Prop where
  result : g = entries.foldl assign f
  slots : entries.map Prod.fst = done.flatMap f.slots
  once : (entries.map Prod.fst).Nodup
  landed : ∀ i b node, ((i, b), node) ∈ entries → g.HasBottom i b node
  kept : ∀ i b node, (i, b) ∉ done.flatMap f.slots → f.HasBottom i b node → g.HasBottom i b node

theorem runReplaces {done : List Pass} (distinct : (done.flatMap Pass.stitches).Nodup)
    (ran : (f.runPasses done).2 = .ok ()) :
    Replaced f (f.runPasses done).1 done (f.assigned done) := by
  have slots := assignedSlots ran
  have once : ((f.assigned done).map Prod.fst).Nodup := by
    rw [slots, slotsJoined]
    exact slotsOnce distinct
  refine ⟨f.runAssigned done, slots, once, ?_, ?_⟩
  · intro i b node entry
    have slot : (i, b) ∈ done.flatMap f.slots := slots ▸ List.mem_map_of_mem entry
    obtain ⟨p, _, inside⟩ := List.mem_flatMap.mp slot
    rw [runAssigned]
    exact entryLands once (slotMember.mp inside).2 entry
  · intro i b node never has
    rw [runAssigned]
    exact entryLeaves (slots ▸ never) has

theorem resolveFabric (collected : f.passes = .ok passes) :
    f.resolve.1 = (f.runPasses passes).1 := by
  simp only [resolve, collected]
  split
  · rename_i failed
    rw [failed]
  · rename_i done
    rw [done]

theorem resolveStandsIn (f : Fabric) : StandsIn f f.resolve.1 := by
  cases collected : f.passes with
  | error fault =>
    have same : f.resolve.1 = f := by simp only [resolve, collected]
    rw [same]
    exact ⟨.refl f, fun _ _ _ _ here there => Option.some.inj (there.symm.trans here)⟩
  | ok passes =>
    have reworked := f.runReworked passes
    rw [resolveFabric collected]
    refine ⟨reworked, ?_⟩
    intro i s t unused here there
    have apart := (passesCollect collected).apart unused
    exact reworked.stitchSame here there fun b node bottom => bottomRuns apart ⟨s, here, bottom⟩

theorem resolutionFrame {rows : Rows} {registry : Registry} {options : Options}
    (ok : weave rows registry options = .ok f) :
    StandsIn f f.resolve.1 ∧
    (∀ fault, f.passes = .error fault → f.resolve = (f, .error fault)) ∧
    ∀ passes, f.passes = .ok passes → Pass.Partition f.uses passes ∧
      ((f.runPasses passes = (f.resolve.1, .ok ()) ∧ f.resolve.2 = f.resolve.1.checkBottoms ∧
          Replaced f f.resolve.1 passes (f.assigned passes) ∧
          ((f.assigned passes).map Prod.fst).Perm (f.slotsOf (f.uses.map LabelUse.stitch))) ∨
        ∃ done p rest fault, passes = done ++ p :: rest ∧
          f.runPasses done = (f.resolve.1, .ok ()) ∧ f.resolve.1.assignments p = .error fault ∧
          f.resolve.2 = .error fault ∧ Replaced f f.resolve.1 done (f.assigned passes)) := by
  have labelled := (weaveWoven ok).labelled
  refine ⟨resolveStandsIn f, fun fault failed => by simp only [resolve, failed], ?_⟩
  intro passes collected
  have collects := passesCollect collected
  have distinct := stitchesOnce labelled collects
  refine ⟨passesPartition labelled collected, ?_⟩
  rw [resolveFabric collected, resolveOutcome collected]
  rcases f.runStops passes with ran | ⟨done, rest, p, fault, stops⟩
  · have replaced := runReplaces distinct ran
    refine .inl ⟨Prod.ext rfl ran, by rw [ran]; rfl, replaced, ?_⟩
    rw [replaced.slots, slotsJoined]
    exact collects.perm.flatMap_right _
  · refine .inr ⟨done, p, rest, fault, stops.split, stops.before, stops.fails, ?_, ?_⟩
    · rw [stops.outcome]; rfl
    · have first : (done.flatMap Pass.stitches).Nodup := by
        rw [stops.split, List.flatMap_append] at distinct
        exact (List.nodup_append.mp distinct).1
      have replaced := runReplaces first (congrArg Prod.snd stops.before)
      rw [stops.before, ← stops.nothing] at replaced
      exact replaced

def stoppedPiece : MappedText :=
  MappedText.ofSource "ch.A,ch.A,ch.B,ch,ch.B\nsc@A,sc@A~,sc@A~,sc@A[;1],sc@B".toList

def stopsThird (f : Fabric) : List Pass → Bool
  | [a, b, c] => decide ([a, b, c].Pairwise fun p q => Pass.comesFirst f p q = true) &&
    decide (a.stitches = [5, 7, 6]) && decide (b.stitches = [8]) && decide (c.stitches = [9]) &&
    decide ((f.assigned [a, b, c]).map Prod.fst = [(5, 0), (7, 0), (6, 0), (8, 0)]) &&
    !(f.runPasses [a, b, c]).2.isOk
  | _ => false

theorem resolutionFrameStopped : ∃ rows f a b c fault,
    Row.parseRows stoppedPiece [] "red" = .ok rows ∧ weave rows Registry.plain {} = .ok f ∧
    f.passes = .ok [a, b, c] ∧ a.stitches = [5, 7, 6] ∧ b.stitches = [8] ∧ c.stitches = [9] ∧
    StandsIn f f.resolve.1 ∧ Pass.Partition f.uses [a, b, c] ∧ f.resolve.2 = .error fault ∧
    f.resolve.1.assignments c = .error fault ∧
    Replaced f f.resolve.1 [a, b] (f.assigned [a, b, c]) ∧
    (f.assigned [a, b, c]).map Prod.fst = [(5, 0), (7, 0), (6, 0), (8, 0)] := by
  obtain ⟨rows, f, all, parsed, ok, found, holds⟩ := foundPiece stoppedPiece stopsThird
    (by decide +kernel)
  unfold stopsThird at holds
  split at holds
  · rename_i a b c
    simp only [Bool.and_eq_true, decide_eq_true_eq, Bool.not_eq_true'] at holds
    obtain ⟨⟨⟨⟨⟨sorted, inA⟩, inB⟩, inC⟩, keys⟩, failed⟩ := holds
    have collected := passesFound found sorted
    obtain ⟨stands, _, frame⟩ := resolutionFrame ok
    obtain ⟨partition, ⟨ran, _⟩ | ⟨done, p, rest, fault, split, _, fails, outcome, replaced⟩⟩ :=
      frame _ collected
    · rw [ran] at failed
      cases failed
    refine ⟨rows, f, a, b, c, fault, parsed, ok, collected, inA, inB, inC, stands, partition,
      outcome, ?_⟩
    have last : (8, 0) ∈ done.flatMap f.slots := by simp [← replaced.slots, keys]
    rcases done with _ | ⟨x, _ | ⟨y, _ | ⟨z, more⟩⟩⟩
    · cases last
    · cases split
      simp [slotMember, inA] at last
    · cases split
      exact ⟨fails, replaced, keys⟩
    · have length := congrArg List.length split
      simp at length
  · cases holds

end
end Fabric
end Crochet
