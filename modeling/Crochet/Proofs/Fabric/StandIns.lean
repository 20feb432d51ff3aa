import Crochet.Proofs.Fabric.Posts

/-! Stand-ins for what a stitch on a label goes into. Passes come in the order of their labels, not of
what they need, so a pass may look at a stitch that a later one is still to work out: where it
measures along that stitch, or where a post ends in it. If no pass does, the stand-ins leave no trace,
neither in the finished fabric nor in what goes wrong. -/
namespace Crochet
namespace Fabric

def postRead? (f : Fabric) (p : Pass) : Option Stitch := do
  let which ← p.modifiers.post
  let l ← f.label? p.key
  let first ← l.ids.head?
  let s ← f.owner? first
  let _ ← s.postBottom? first (which.getD (-1))
  return s

def measured? (f : Fabric) (s : Spread) (k : Nat) : Option Stitch :=
  if s.length.isSome ∨ s.anchors.length = s.total ∨ (s.share k).1 % (s.share k).2 = 0 then none
  else do
    let a ← s.anchors[(s.share k).1 / (s.share k).2]?.bind NodeRef.top?
    let b ← s.anchors[(s.share k).1 / (s.share k).2 + 1]?.bind NodeRef.top?
    (f.owner? (max a b)).filter fun t => !t.owns (min a b)

def readBy (f : Fabric) (p : Pass) : List Stitch :=
  (f.postRead? p).toList ++ match f.spread p with
    | .ok s => (List.range (f.slots p).length).filterMap (f.measured? s)
    | .error _ => []

/- No pass looks at a stitch that it or a later one works out, as far as the passes go. -/
def readsSettled (f : Fabric) : List Pass → Bool
  | [] => true
  | p :: rest =>
    ((f.readBy p).all fun s => (p :: rest).all fun q => !q.stitches.contains s.uid) &&
      match f.assignments p with
      | .ok entries => (entries.foldl assign f).readsSettled rest
      | .error _ => true

/- Fabrics that agree but for what the stitches of the passes to come are worked into. -/
structure Agree (rest : List Pass) (f g : Fabric) : Prop where
  reworked : Reworked f g
  settled : ∀ (i : Nat) (s t : Stitch), (∀ q ∈ rest, i ∉ q.stitches) → f.stitches[i]? = some s →
    g.stitches[i]? = some t → t = s

namespace Reworked
variable {f g : Fabric} (reworked : Reworked f g)
include reworked

theorem passesSame : g.passes = f.passes := by
  rw [reworked.rest]
  rfl

theorem turnedSame (a b : Nat) : g.turnedBetween a b = f.turnedBetween a b := by
  rw [reworked.rest]
  rfl

theorem producedSame (id limit : Nat) : g.producedBefore id limit = f.producedBefore id limit := by
  rw [Bool.eq_iff_iff, producedBeforeIff, producedBeforeIff]
  exact ⟨reworked.symm.ownedBefore, reworked.ownedBefore⟩

theorem slotsSame (p : Pass) : g.slots p = f.slots p := by
  simp only [slots, reworked.bottomCountSame]

theorem rowSame (i : Nat) : g.stitches[i]?.map Stitch.row = f.stitches[i]?.map Stitch.row := by
  have rows (xs : List Stitch) :
      xs[i]?.map Stitch.row = (xs.map Stitch.outline)[i]?.map (·.1.row) := by
    rw [List.getElem?_map, Option.map_map]
    rfl
  rw [rows, reworked.stitches, ← rows]

theorem ownerCases (counted : f.Counted) (id : Nat) :
    (f.owner? id = none ∧ g.owner? id = none) ∨ ∃ (s t : Stitch), f.stitches[s.uid]? = some s ∧
      g.stitches[s.uid]? = some t ∧ f.owner? id = some s ∧ g.owner? id = some t ∧
      t.outline = s.outline := by
  cases owner : f.owner? id with
  | some s =>
    obtain ⟨⟨j, place⟩, top⟩ := counted.ownerTop owner
    obtain rfl := counted.uid j s place
    obtain ⟨t, there, same⟩ := reworked.symm.source place
    refine .inr ⟨s, t, place, there, rfl, ?_, same.symm⟩
    exact (reworked.counted counted).ownerOf there (Stitch.outlineTops same ▸ top)
  | none =>
    refine .inl ⟨rfl, ?_⟩
    cases other : g.owner? id with
    | none => rfl
    | some t =>
      obtain ⟨⟨j, place⟩, top⟩ := (reworked.counted counted).ownerTop other
      obtain ⟨s, there, same⟩ := reworked.source place
      have made := counted.ownerOf there (Stitch.outlineTops same ▸ top)
      cases owner.symm.trans made

theorem neighbourSame (counted : f.Counted) (p : Pass) (id : Option Nat) :
    g.neighbour p id = f.neighbour p id := by
  have present : ∀ id, (g.owner? id).isSome = (f.owner? id).isSome := by
    intro id
    rcases reworked.ownerCases counted id with ⟨here, there⟩ | ⟨_, _, _, _, here, there, _⟩
    · rw [here, there]
    · rw [here, there]; rfl
  simp only [neighbour, present, reworked.producedSame]

theorem widenedSame (counted : f.Counted) (p : Pass) (ids : List Nat) (first last : Nat) :
    g.widened p ids first last = f.widened p ids first last := by
  simp only [widened, reworked.neighbourSame counted]

end Reworked

theorem sameRow {x y : Option Stitch} {a b : Nat} :
    x.map Stitch.row = y.map Stitch.row → a = b →
      (match x with | some s => s.row | none => a) = match y with | some s => s.row | none => b := by
  rintro same rfl
  cases x <;> cases y
  · rfl
  · cases same
  · cases same
  · exact Option.some.inj same

variable {l : Label} {first k : Nat} {s : Spread} {passes : List Pass}

section
variable {f g : Fabric} {p : Pass} {rest : List Pass} (agree : Agree (p :: rest) f g)
  (counted : f.Counted) (unseen : ∀ s ∈ f.readBy p, ∀ q ∈ p :: rest, s.uid ∉ q.stitches)
include agree counted unseen

theorem postSame {which : Option Int} (label : f.label? p.key = some l)
    (head : l.ids.head? = some first) (written : p.modifiers.post = some which) :
    (g.owner? first).bind (·.postTarget first (which.getD (-1))) =
      (f.owner? first).bind (·.postTarget first (which.getD (-1))) := by
  rcases agree.reworked.ownerCases counted first with
    ⟨here, there⟩ | ⟨s, t, place, other, here, there, same⟩
  · rw [here, there]
  rw [here, there, Option.bind_some, Option.bind_some]
  cases ends : s.postBottom? first (which.getD (-1)) with
  | none => exact Stitch.postInside same ends
  | some b =>
    have read : f.postRead? p = some s := by
      simp [postRead?, written, label, head, here, ends]
    have settled := unseen s (by simp [readBy, read])
    rw [agree.settled s.uid s t settled place other]

theorem anchorsSame (label : f.label? p.key = some l) (head : l.ids.head? = some first) (last : Nat) :
    g.anchors p l.ids first last = f.anchors p l.ids first last := by
  simp only [anchors, agree.reworked.widenedSame counted]
  cases written : p.modifiers.post with
  | none => rfl
  | some which => simp only [postSame agree counted unseen label head written]

theorem spreadSame : g.spread p = f.spread p := by
  have reworked := agree.reworked
  have defined : ∀ id, (g.owner? id).map Stitch.row = (f.owner? id).map Stitch.row := by
    intro id
    rcases reworked.ownerCases counted id with ⟨here, there⟩ | ⟨_, _, _, _, here, there, same⟩
    · rw [here, there]
    · rw [here, there]
      exact congrArg (some ·.1.row) same
  have worked : (p.stitches.head?.bind (g.stitches[·]?)).map Stitch.row =
      (p.stitches.head?.bind (f.stitches[·]?)).map Stitch.row := by
    cases p.stitches.head? with
    | none => rfl
    | some i => exact reworked.rowSame i
  unfold spread
  rw [reworked.labelSame]
  cases label : f.label? p.key with
  | none => rfl
  | some l =>
    cases head : l.ids.head? with
    | none => simp only [head]
    | some first =>
      cases final : l.ids.getLast? with
      | none => simp only [head, final]
      | some last =>
        simp only [head, final, anchorsSame agree counted unseen label head, reworked.slotsSame,
          reworked.turnedSame]
        refine bind_congr fun found => if_congr (iff_of_eq (congrArg (· = true) ?_)) rfl rfl
        have start := sameRow (defined first) (Eq.refl 0)
        exact congrArg₂ f.turnedBetween start (sameRow worked start)

theorem distanceSame {near far : NodeRef} (spread : f.spread p = .ok s) (free : s.length = none)
    (slot : k < (f.slots p).length) (different : s.anchors.length ≠ s.total)
    (part : (s.share k).1 % (s.share k).2 ≠ 0)
    (left : s.anchors[(s.share k).1 / (s.share k).2]? = some near)
    (right : s.anchors[(s.share k).1 / (s.share k).2 + 1]? = some far) :
    g.distance near far p.key = f.distance near far p.key := by
  unfold distance
  cases near with
  | top a =>
    cases far with
    | top b =>
      simp only [NodeRef.top?]
      rcases agree.reworked.ownerCases counted (max a b) with
        ⟨here, there⟩ | ⟨t, u, place, other, here, there, same⟩
      · rw [here, there]
      rw [here, there]
      have owns : u.owns (min a b) = t.owns (min a b) := by
        simp only [Stitch.owns, Stitch.outlineTopIndex same]
      cases apart : t.owns (min a b) with
      | true => simp only [owns, apart, Stitch.outlineTopName same, Stitch.outlineTemplate same, if_true]
      | false =>
        have read : f.measured? s k = some t := by
          simp [measured?, free, different, part, left, right, NodeRef.top?, here, apart]
        have inside : t ∈ f.readBy p := by
          simp only [readBy, spread, List.mem_append, List.mem_filterMap, List.mem_range]
          exact .inr ⟨k, slot, read⟩
        rw [agree.settled t.uid t u (unseen t inside) place other]
    | _ => rfl
  | _ => rfl

theorem slotSame (spread : f.spread p = .ok s) (slot : k < (f.slots p).length) :
    g.slotNode p.key s k = f.slotNode p.key s k := by
  unfold slotNode
  simp only [← Spread.share.eq_def]
  split
  · rfl
  rename_i different
  cases left : s.anchors[(s.share k).1 / (s.share k).2]? with
  | none => simp only [anchorAt, left]; rfl
  | some near =>
    split
    · rfl
    rename_i part
    cases right : s.anchors[(s.share k).1 / (s.share k).2 + 1]? with
    | none => simp only [anchorAt, right]; rfl
    | some far =>
      simp only [anchorAt, left, right]
      cases free : s.length with
      | some length => rfl
      | none =>
        have same := distanceSame agree counted unseen spread free slot different part left right
        simp only [bind, Except.bind, same]

theorem assignmentsSame : g.assignments p = f.assignments p := by
  unfold assignments
  rw [spreadSame agree counted unseen, agree.reworked.slotsSame]
  cases spread : f.spread p with
  | error cause => rfl
  | ok s =>
    refine congrArg (Except.mapError _) (mapMSame fun entry member => ?_)
    simp only [slotSame agree counted unseen spread (List.snd_lt_of_mem_zipIdx member)]

end

variable {f g : Fabric}

/- After the pass its own stitches agree too: every bottom of theirs is given anew. -/
theorem agreeAssign {p : Pass} {rest : List Pass} (agree : Agree (p :: rest) f g)
    (once : p.stitches.Nodup) {entries : List ((Nat × Nat) × NodeRef)}
    (here : f.assignments p = .ok entries) (there : g.assignments p = .ok entries) :
    Agree rest (entries.foldl assign f) (entries.foldl assign g) := by
  have reworked : Reworked (entries.foldl assign f) (entries.foldl assign g) :=
    ((assignReworked f entries).symm.trans agree.reworked).trans (assignReworked g entries)
  refine ⟨reworked, ?_⟩
  intro i s t later place other
  refine reworked.stitchSame place other fun b node bottom => ?_
  rcases bottomAfter place bottom with entry | ⟨never, u, old, kept⟩
  · exact landed there once entry
  · obtain ⟨spread, assigns⟩ := assigns here
    have apart : i ∉ p.stitches := by
      intro inside
      rw [assigns.slots] at never
      exact never (slotMember.mpr ⟨inside, HasBottom.bound ⟨u, old, kept⟩⟩)
    obtain ⟨v, found, _⟩ := agree.reworked.symm.source old
    refine bottomKept there apart ⟨v, found, ?_⟩
    rw [agree.settled i u v (List.forall_mem_cons.mpr ⟨apart, later⟩) old found]
    exact kept

theorem agreeDone (agree : Agree [] f g) : g = f := by
  have stitches : g.stitches = f.stitches := by
    have length : g.stitches.length = f.stitches.length := by
      simpa using congrArg List.length agree.reworked.stitches
    refine List.ext_getElem length fun i inside bound => ?_
    exact agree.settled i _ _ (by simp) (List.getElem?_eq_getElem bound)
      (List.getElem?_eq_getElem inside)
  rw [agree.reworked.rest, stitches]

theorem runAgree (agree : Agree passes f g) (counted : f.Counted)
    (distinct : (passes.flatMap Pass.stitches).Nodup) (settled : f.readsSettled passes = true) :
    (g.runPasses passes).2 = (f.runPasses passes).2 ∧
      ((f.runPasses passes).2 = .ok () → (g.runPasses passes).1 = (f.runPasses passes).1) := by
  induction passes generalizing f g with
  | nil => exact ⟨rfl, fun _ => agreeDone agree⟩
  | cons p rest ih =>
    simp only [readsSettled, Bool.and_eq_true] at settled
    obtain ⟨unseen, more⟩ := settled
    have unseen : ∀ s ∈ f.readBy p, ∀ q ∈ p :: rest, s.uid ∉ q.stitches := by
      simpa using unseen
    rw [List.flatMap_cons, List.nodup_append] at distinct
    have same := assignmentsSame agree counted unseen
    cases here : f.assignments p with
    | error fault => simp [runPasses, same, here]
    | ok entries =>
      rw [here] at same more
      simp only [runPasses, same, here]
      exact ih (agreeAssign agree distinct.1 here same) ((assignReworked f entries).counted counted)
        distinct.2.1 more

/- Fabrics that differ at most in what stitches on a label are worked into for the time being. -/
structure StandsIn (f g : Fabric) : Prop where
  reworked : Reworked f g
  kept : ∀ (i : Nat) (s t : Stitch), i ∉ f.uses.map LabelUse.stitch → f.stitches[i]? = some s →
    g.stitches[i]? = some t → t = s

theorem standInsUnseen {rows : Rows} {registry : Registry} {options : Options} {f g : Fabric}
    (ok : weave rows registry options = .ok f) (stands : StandsIn f g)
    (settled : ∀ passes, f.passes = .ok passes → f.readsSettled passes = true) :
    g.resolve.2 = f.resolve.2 ∧ (f.resolve.2 = .ok () → g.resolve.1 = f.resolve.1) := by
  have woven := weaveWoven ok
  unfold resolve
  rw [stands.reworked.passesSame]
  cases collected : f.passes with
  | error fault => simp
  | ok passes =>
    have collects := passesCollect collected
    have agree : Agree passes f g := by
      refine ⟨stands.reworked, fun i s t apart => stands.kept i s t ?_⟩
      intro used
      obtain ⟨p, member, inside⟩ := List.mem_flatMap.mp (collects.perm.mem_iff.mpr used)
      exact apart p member inside
    have distinct : (passes.flatMap Pass.stitches).Nodup :=
      collects.perm.nodup_iff.mpr (woven.labelled.ordered.imp Nat.ne_of_lt)
    obtain ⟨same, done⟩ := runAgree agree woven.counted distinct (settled passes collected)
    obtain ⟨⟨h, outcome⟩, here⟩ : ∃ run, f.runPasses passes = run := ⟨_, rfl⟩
    obtain ⟨⟨h', outcome'⟩, there⟩ : ∃ run, g.runPasses passes = run := ⟨_, rfl⟩
    simp only [here, there] at same done ⊢
    cases same
    cases outcome with
    | error fault => simp
    | ok value =>
      cases done rfl
      simp

theorem setBottomStandsIn {i : Nat} (used : i ∈ f.uses.map LabelUse.stitch) (b : Nat)
    (node : NodeRef) : StandsIn f (f.setBottom i b node) where
  reworked := setBottomReworked f i b node
  kept := by
    intro j s t unused place other
    have apart : i ≠ j := fun same => unused (same ▸ used)
    simp only [setBottom, List.getElem?_modify_ne _ _ apart] at other
    exact Option.some.inj (other.symm.trans place)

def restedPiece : MappedText :=
  MappedText.ofSource "ch.A,ch.A\nsc.B@A,sc.B@A\nsc@B".toList

def latePiece : MappedText :=
  MappedText.ofSource "ch.A,ch.B,ch.B\nsc.A@B\nsc@A".toList

theorem passesSwapped {a b : Pass} (found : f.uses.foldlM Pass.addUse [] = .ok [a, b])
    (later : Pass.comesFirst f a b = false) : f.passes = .ok [b, a] := by
  simp only [Fabric.passes, found]
  refine congrArg Except.ok ?_
  simp [List.mergeSort, later]

theorem resolveOutcome (collected : f.passes = .ok passes) :
    f.resolve.2 = (f.runPasses passes).2 >>= fun _ => (f.runPasses passes).1.checkBottoms := by
  simp only [resolve, collected]
  split
  · rename_i failed
    simp only [failed]
    rfl
  · rename_i done
    simp only [done]
    rfl

theorem foundPiece (text : MappedText) (test : Fabric → List Pass → Bool)
    (runs : (Row.parseRows text [] "red" >>= fun rows => weave rows Registry.plain {} >>= fun f =>
      (f.uses.foldlM Pass.addUse []).map fun all => (f, all)).toOption.any
        (fun (f, all) => test f all) = true) :
    ∃ rows f all, Row.parseRows text [] "red" = .ok rows ∧ weave rows Registry.plain {} = .ok f ∧
      f.uses.foldlM Pass.addUse [] = .ok all ∧ test f all = true := by
  obtain ⟨last, run, holds⟩ := testOk runs
  obtain ⟨rows, parsed, run⟩ := bindOk run
  obtain ⟨f, ok, run⟩ := bindOk run
  obtain ⟨all, found, rfl⟩ := mapOk run
  exact ⟨rows, f, all, parsed, ok, found, holds⟩

theorem standInsUnseenRested : ∃ rows f g, Row.parseRows restedPiece [] "red" = .ok rows ∧
    weave rows Registry.plain {} = .ok f ∧ StandsIn f g ∧
    f.stitches[3]?.map Stitch.bottoms = some [.top 2] ∧
    g.stitches[3]?.map Stitch.bottoms = some [.top 1] ∧
    (∀ passes, f.passes = .ok passes → f.readsSettled passes = true) ∧
    g.resolve.2 = f.resolve.2 ∧ (f.resolve.2 = .ok () → g.resolve.1 = f.resolve.1) := by
  obtain ⟨rows, f, all, parsed, ok, found, holds⟩ := foundPiece restedPiece (fun f all =>
    decide (all.Pairwise fun a b => Pass.comesFirst f a b = true) && f.readsSettled all &&
      decide (3 ∈ f.uses.map LabelUse.stitch) &&
      decide (f.stitches[3]?.map Stitch.bottoms = some [.top 2]) &&
      decide ((f.setBottom 3 0 (.top 1)).stitches[3]?.map Stitch.bottoms = some [.top 1]))
    (by decide +kernel)
  simp only [Bool.and_eq_true, decide_eq_true_eq] at holds
  obtain ⟨⟨⟨⟨sorted, settled⟩, used⟩, before⟩, after⟩ := holds
  have stands := setBottomStandsIn used 0 (.top 1)
  have settled : ∀ passes, f.passes = .ok passes → f.readsSettled passes = true := by
    intro same collected
    cases (passesFound found sorted).symm.trans collected
    exact settled
  exact ⟨rows, f, _, parsed, ok, stands, before, after, settled, standInsUnseen ok stands settled⟩

def lateSwapped (f : Fabric) : List Pass → Bool
  | [a, b] => !Pass.comesFirst f a b && decide (3 ∈ f.uses.map LabelUse.stitch) &&
    f.producedBefore 1 3 && !(f.runPasses [b, a]).2.isOk &&
    ((f.setBottom 3 0 (.top 1)).runPasses [b, a]).2.isOk &&
    ((f.setBottom 3 0 (.top 1)).runPasses [b, a]).1.checkBottoms.isOk
  | _ => false

theorem standInSeen : ∃ rows f g, Row.parseRows latePiece [] "red" = .ok rows ∧
    weave rows Registry.plain {} = .ok f ∧ 3 ∈ f.uses.map LabelUse.stitch ∧ f.OwnedBefore 1 3 ∧
    g = f.setBottom 3 0 (.top 1) ∧ StandsIn f g ∧ f.resolve.2.isOk = false ∧
    g.resolve.2 = .ok () := by
  obtain ⟨rows, f, all, parsed, ok, found, holds⟩ := foundPiece latePiece lateSwapped (by decide +kernel)
  unfold lateSwapped at holds
  split at holds
  · rename_i a b
    simp only [Bool.and_eq_true, Bool.not_eq_true', decide_eq_true_eq] at holds
    obtain ⟨⟨⟨⟨⟨later, used⟩, earlier⟩, fails⟩, runs⟩, checks⟩ := holds
    have stands := setBottomStandsIn used 0 (.top 1)
    have here := passesSwapped found later
    have there := stands.reworked.passesSame.trans here
    obtain ⟨fault, fails⟩ := notOk fails
    obtain ⟨_, runs⟩ := someOk runs
    obtain ⟨_, checks⟩ := someOk checks
    refine ⟨rows, f, _, parsed, ok, used, producedBeforeIff.mp earlier, rfl, stands, ?_, ?_⟩
    · rw [resolveOutcome here, fails]
      rfl
    · rw [resolveOutcome there, runs]
      exact checks
  · cases holds

end Fabric
end Crochet
