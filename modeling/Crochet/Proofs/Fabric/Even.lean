import Mathlib.Algebra.Order.Field.Rat
import Mathlib.Tactic.FieldSimp
import Mathlib.Tactic.Linarith
import Mathlib.Tactic.Positivity
import Crochet.Proofs.Fabric.StandIns

/-! How a pass is laid over its label. The bottoms are on points of the line of anchors that are the
same distance apart, and no point is past its ends. So no slot is ever missing: what may fail is only
to measure the yarn between two neighbouring anchors. -/
namespace Crochet
namespace Fabric
namespace Spread

/- The point of the line of anchors where a slot is, the first anchor being at 0. -/
def point (s : Spread) (k : Nat) : ℚ :=
  if s.total = 1 then (s.anchors.length - 1) / 2
  else (k + s.offset) * (s.anchors.length - 1) / (s.total - 1)

def parts (s : Spread) : Nat := if 1 < s.total then s.total - 1 else 2

section
variable {s : Spread} {k : Nat}

theorem partsPos (s : Spread) : 0 < s.parts := by
  unfold parts
  split <;> omega

theorem shareParts (s : Spread) (k : Nat) : (s.share k).2 = s.parts := by
  unfold share parts
  split <;> rfl

theorem shareBound (fits : k + s.offset < s.total) :
    (s.share k).1 ≤ (s.anchors.length - 1) * s.parts := by
  unfold share parts
  split
  · rw [Nat.mul_comm]
    exact Nat.mul_le_mul_left _ (by omega)
  · simp only
    omega

theorem pointShare (some : 0 < s.anchors.length) (many : 0 < s.total) :
    s.point k = (s.share k).1 / s.parts := by
  unfold point share parts
  by_cases single : s.total = 1
  · rw [if_pos single, if_neg (by omega), if_neg (by omega)]
    push_cast [Nat.cast_pred some]
    rfl
  · have several : 1 < s.total := by omega
    rw [if_neg single, if_pos several, if_pos several]
    push_cast [Nat.cast_pred some, Nat.cast_pred many]
    rfl

theorem pointSplit (some : 0 < s.anchors.length) (many : 0 < s.total) :
    s.point k = ((s.share k).1 / s.parts : Nat) + ((s.share k).1 % s.parts : Nat) / s.parts := by
  have parts : (s.parts : ℚ) ≠ 0 := by exact_mod_cast (partsPos s).ne'
  have whole : ((s.share k).1 : ℚ) =
      s.parts * ((s.share k).1 / s.parts : Nat) + ((s.share k).1 % s.parts : Nat) := by
    exact_mod_cast (Nat.div_add_mod _ _).symm
  rw [pointShare some many, whole]
  field_simp

theorem pointRange (some : 0 < s.anchors.length) (fits : k + s.offset < s.total) :
    0 ≤ s.point k ∧ s.point k ≤ s.anchors.length - 1 := by
  have parts : (0 : ℚ) < s.parts := by exact_mod_cast partsPos s
  have bound : ((s.share k).1 : ℚ) ≤ (s.anchors.length - 1) * s.parts := by
    rw [← Nat.cast_pred some]
    exact_mod_cast shareBound fits
  rw [pointShare some (by omega)]
  exact ⟨by positivity, (div_le_iff₀ parts).mpr bound⟩

theorem pointAscends (several : 1 < s.anchors.length) (many : 1 < s.total) {j : Nat} (less : j < k) :
    s.point j < s.point k := by
  have anchors : (0 : ℚ) < s.anchors.length - 1 := by
    rw [sub_pos]
    exact_mod_cast several
  have total : (0 : ℚ) < s.total - 1 := by
    rw [sub_pos]
    exact_mod_cast many
  have less : (j : ℚ) < k := by exact_mod_cast less
  unfold point
  rw [if_neg (by omega), if_neg (by omega)]
  gcongr

theorem pointPaired (same : s.anchors.length = s.total) (fits : k + s.offset < s.total) :
    s.point k = (k + s.offset : Nat) := by
  unfold point
  rw [same]
  split
  · rename_i single
    have first : k + s.offset = 0 := by omega
    simp [single, first]
  · rename_i several
    have total : (s.total : ℚ) - 1 ≠ 0 := by
      rw [sub_ne_zero]
      exact_mod_cast several
    push_cast
    field_simp

theorem pointFirst (start : s.offset = 0) (many : 1 < s.total) : s.point 0 = (0 : Nat) := by
  unfold point
  rw [if_neg (by omega), start]
  simp

theorem pointLast (anchored : 0 < s.anchors.length) (many : 1 < s.total)
    (last : k + s.offset + 1 = s.total) : s.point k = (s.anchors.length - 1 : Nat) := by
  have total : (s.total : ℚ) - 1 = k + s.offset := by
    rw [← last]
    push_cast
    exact add_sub_cancel_right _ _
  have parts : (k : ℚ) + s.offset ≠ 0 := by
    rw [← Nat.cast_add, Nat.cast_ne_zero]
    omega
  unfold point
  rw [if_neg (by omega), total, Nat.cast_pred anchored]
  field_simp

end
end Spread

def yarnBetween (f : Fabric) (key : String) (s : Spread) (near far : NodeRef) :
    Except LabelCause Float :=
  match s.length with
  | some length => .ok length
  | none => f.distance near far key

/- What is on a point of the line: an anchor, or a place between two neighbours whose two pulls divide
the yarn as the point divides the way. -/
inductive LiesAt (f : Fabric) (key : String) (s : Spread) (x : ℚ) : NodeRef → Prop where
  | on {i : Nat} {node : NodeRef} (whole : x = i) (found : s.anchors[i]? = some node) :
      LiesAt f key s x node
  | between {i rem : Nat} {near far : NodeRef} {length : Float} (place : x = i + rem / s.parts)
      (past : 0 < rem) (part : rem < s.parts) (left : s.anchors[i]? = some near)
      (right : s.anchors[i + 1]? = some far) (yarn : f.yarnBetween key s near far = .ok length) :
      LiesAt f key s x (.between near far (length * Float.ofNat rem / Float.ofNat s.parts)
        (length - length * Float.ofNat rem / Float.ofNat s.parts))

section
variable {f : Fabric} {key : String} {s : Spread} {x : ℚ} {node : NodeRef}

theorem LiesAt.whole (lies : LiesAt f key s x node) {i : Nat} (whole : x = i) :
    s.anchors[i]? = some node := by
  cases lies with
  | @on j _ same found =>
    have same : j = i := by exact_mod_cast same.symm.trans whole
    exact same ▸ found
  | @between j rem _ _ _ place past part =>
    -- a whole number is not a proper part past another
    have parts : (0 : ℚ) < s.parts := by exact_mod_cast s.partsPos
    have same : (i * s.parts : ℚ) = j * s.parts + rem := by
      rw [← whole, place]
      field_simp
    have same : i * s.parts = j * s.parts + rem := by exact_mod_cast same
    have above : j < i := by
      by_contra below
      have := Nat.mul_le_mul_right s.parts (Nat.le_of_not_lt below)
      omega
    have := Nat.mul_le_mul_right s.parts (Nat.succ_le_of_lt above)
    rw [Nat.succ_mul] at this
    omega

theorem anchorAtSome (key : String) {k : Nat} (inside : k < s.anchors.length) :
    ∃ node, s.anchors[k]? = some node ∧ anchorAt key s.anchors k = .ok node := by
  have found : s.anchors[k]? = some s.anchors[k] := List.getElem?_eq_getElem inside
  exact ⟨s.anchors[k], found, by simp only [anchorAt, found]⟩

structure Unmeasured (f : Fabric) (key : String) (s : Spread) (cause : LabelCause) : Prop where
  neighbours : ∃ (i : Nat) (near far : NodeRef), s.anchors[i]? = some near ∧
    s.anchors[i + 1]? = some far ∧ s.length = none ∧ f.distance near far key = .error cause
  slotted : ∀ key k, cause ≠ .noSlot key k

theorem distanceSlotted (f : Fabric) (near far : NodeRef) (key : String) :
    Faults (fun cause => ∀ key k, cause ≠ .noSlot key k) (f.distance near far key) := by
  intro cause failed
  simp only [distance] at failed
  repeat' split at failed
  all_goals cases failed
  all_goals simp

theorem slotLies (f : Fabric) (key : String) {k : Nat} (anchored : 0 < s.anchors.length)
    (fits : k + s.offset < s.total) :
    (∃ node, f.slotNode key s k = .ok node ∧ LiesAt f key s (s.point k) node) ∨
      ∃ cause, f.slotNode key s k = .error cause ∧ Unmeasured f key s cause := by
  unfold slotNode
  simp only [← Spread.share.eq_def, Spread.shareParts]
  by_cases same : s.anchors.length = s.total
  · obtain ⟨node, found, here⟩ := anchorAtSome key (same ▸ fits)
    rw [if_pos same]
    exact .inl ⟨node, here, .on (Spread.pointPaired same fits) found⟩
  rw [if_neg same]
  have bound := Spread.shareBound fits
  have split := Spread.pointSplit (k := k) anchored (by omega)
  have parts := s.partsPos
  have whole := Nat.div_add_mod (s.share k).1 s.parts
  have inside : (s.share k).1 / s.parts < s.anchors.length := by
    have := Nat.div_le_of_le_mul (Nat.mul_comm _ _ ▸ bound)
    omega
  obtain ⟨near, left, here⟩ := anchorAtSome key inside
  simp only [here, okBind]
  by_cases rest : (s.share k).1 % s.parts = 0
  · rw [if_pos rest]
    refine .inl ⟨near, rfl, .on ?_ left⟩
    rw [split, rest]
    simp
  rw [if_neg rest]
  have further : (s.share k).1 / s.parts + 1 < s.anchors.length := by
    by_contra past
    have := Nat.mul_le_mul_left s.parts (show s.anchors.length - 1 ≤ (s.share k).1 / s.parts by omega)
    rw [Nat.mul_comm] at bound
    omega
  obtain ⟨far, right, there⟩ := anchorAtSome key further
  have lies {length : Float} (yarn : f.yarnBetween key s near far = .ok length) :=
    LiesAt.between split (Nat.pos_of_ne_zero rest) (Nat.mod_lt _ parts) left right yarn
  simp only [there, okBind]
  cases written : s.length with
  | some length => exact .inl ⟨_, rfl, lies (by rw [yarnBetween, written])⟩
  | none =>
    cases measured : f.distance near far key with
    | ok length => exact .inl ⟨_, rfl, lies (by rw [yarnBetween, written]; exact measured)⟩
    | error cause =>
      exact .inr ⟨cause, rfl, ⟨_, near, far, left, right, written, measured⟩,
        distanceSlotted f near far key cause measured⟩

end

variable {l : Label} {first last : Nat} {nodes : List NodeRef}

section
variable {f : Fabric} {p : Pass} {s : Spread}

theorem Spreads.someAnchor (spreads : Spreads f p l first last nodes s) : 0 < s.anchors.length := by
  have length : s.anchors.length = nodes.length := by
    rcases spreads.laid with same | same <;> simp [same]
  have some : 0 < l.ids.length := List.length_pos_of_mem (List.mem_of_head? spreads.head)
  rw [length]
  rcases anchorsCases spreads.anchored with ⟨_, wide, _⟩ | ⟨_, _, _, _, _, same, _⟩
  · obtain ⟨left, right, parts, _⟩ := wide.sides
    simp only [parts, List.length_append, List.length_map]
    omega
  · simp [same]

/- Bottoms laid over a line of anchors: all inside it, equally far apart. -/
structure SpreadsEvenly (f : Fabric) (p : Pass) (s : Spread) : Prop where
  worked : 0 < (f.slots p).length
  anchored : 0 < s.anchors.length
  total : s.total = (f.slots p).length + (skipped p.modifiers.skip).1
  fits : s.offset + (f.slots p).length ≤ s.total
  flips : (skipped p.modifiers.skip).2.1 ≤ 1
  divides : ∀ k, (s.share k).2 ≠ 0
  stops : ∀ fault, f.assignments p = .error fault →
    ∃ cause, fault = { cause := .label cause, span := some p.span } ∧ Unmeasured f p.key s cause
  lies : ∀ entries, f.assignments p = .ok entries → entries.map Prod.fst = f.slots p ∧
    ∀ (k : Nat) (slot : Nat × Nat) (node : NodeRef), entries[k]? = some (slot, node) →
      LiesAt f p.key s (s.point k) node
  inside : ∀ k < (f.slots p).length, 0 ≤ s.point k ∧ s.point k ≤ s.anchors.length - 1
  ascends : 1 < s.anchors.length → 1 < s.total → ∀ j k, j < k → s.point j < s.point k
  ends : p.modifiers.skip = none → 2 ≤ (f.slots p).length → ∀ entries,
    f.assignments p = .ok entries → entries.head?.map Prod.snd = s.anchors.head? ∧
      entries.getLast?.map Prod.snd = s.anchors.getLast?
  paired : s.anchors.length = s.total → ∀ k < (f.slots p).length, s.point k = (k + s.offset : Nat)

theorem assignmentsStop (spread : f.spread p = .ok s) (anchored : 0 < s.anchors.length)
    (fits : s.offset + (f.slots p).length ≤ s.total) :
    Faults (fun fault => ∃ cause, fault = { cause := .label cause, span := some p.span } ∧
      Unmeasured f p.key s cause) (f.assignments p) := by
  unfold assignments
  simp only [spread, okBind]
  refine Faults.mapError (E := Unmeasured f p.key s) (Faults.mapM ?_)
    fun cause stops => ⟨cause, rfl, stops⟩
  rintro ⟨slot, k⟩ member
  have inside := List.snd_lt_of_mem_zipIdx member
  refine Faults.bind ?_ fun node _ => Faults.ok (slot, node)
  intro cause failed
  rcases slotLies f p.key (k := k) anchored (by omega) with
    ⟨node, here, _⟩ | ⟨other, here, stops⟩
  · cases here.symm.trans failed
  · cases here.symm.trans failed
    exact stops

theorem assignmentsLie (spread : f.spread p = .ok s) (anchored : 0 < s.anchors.length)
    (fits : s.offset + (f.slots p).length ≤ s.total) {entries : List ((Nat × Nat) × NodeRef)}
    (ok : f.assignments p = .ok entries) : entries.map Prod.fst = f.slots p ∧
      ∀ (k : Nat) (slot : Nat × Nat) (node : NodeRef), entries[k]? = some (slot, node) →
        LiesAt f p.key s (s.point k) node := by
  obtain ⟨t, assigns⟩ := assigns ok
  cases spread.symm.trans assigns.spread
  refine ⟨assigns.slots, ?_⟩
  intro k slot node found
  have inside : k < (f.slots p).length := by
    rw [← assigns.slots, List.length_map]
    exact (List.getElem?_eq_some_iff.mp found).1
  have made := assigns.nodes k slot node found
  rcases slotLies f p.key (k := k) anchored (by omega) with
    ⟨other, here, lies⟩ | ⟨cause, here, _⟩
  · cases here.symm.trans made
    exact lies
  · cases here.symm.trans made

theorem spreadsEvenly (worked : 0 < (f.slots p).length) (spread : f.spread p = .ok s) :
    SpreadsEvenly f p s := by
  obtain ⟨l, first, last, nodes, spreads⟩ := spreads spread
  have anchored := spreads.someAnchor
  have fits := spreads.margins.2.1
  refine ⟨worked, anchored, spreads.total, fits, ?_, ?_, assignmentsStop spread anchored fits,
    fun entries ok => assignmentsLie spread anchored fits ok, ?_, ?_, ?_, ?_⟩
  · unfold skipped
    split <;> simp
  · intro k
    rw [Spread.shareParts]
    exact s.partsPos.ne'
  · intro k inside
    exact Spread.pointRange anchored (by omega)
  · intro several many j k less
    exact Spread.pointAscends several many less
  · intro whole two entries ok
    obtain ⟨slots, lies⟩ := assignmentsLie spread anchored fits ok
    have total := spreads.total
    have offset := spreads.offset
    simp only [whole, skipped, Bool.false_eq_true, false_and, or_false] at total offset
    have length : entries.length = (f.slots p).length := by rw [← slots, List.length_map]
    rw [List.head?_eq_getElem?, List.head?_eq_getElem?, List.getLast?_eq_getElem?,
      List.getLast?_eq_getElem?]
    have node : ∀ k < entries.length, ∀ i : Nat, s.point k = i →
        entries[k]?.map Prod.snd = s.anchors[i]? := by
      intro k inside i point
      have found : entries[k]? = some entries[k] := List.getElem?_eq_getElem inside
      rw [(lies k _ _ found).whole point, found]
      rfl
    refine ⟨node 0 (by omega) 0 (Spread.pointFirst offset (by omega)), ?_⟩
    exact node _ (by omega) _ (Spread.pointLast anchored (by omega) (by omega))
  · intro same k inside
    exact Spread.pointPaired same (by omega)

end

inductive MarksRefused : LabelCause → Prop where
  | pastEnds (key : String) : MarksRefused (.pastEnds key)
  | lateNeighbour (key : String) (id : Nat) : MarksRefused (.lateNeighbour key id)
  | postWithNeighbours (key : String) : MarksRefused (.postWithNeighbours key)
  | postOfSeveral (key : String) (count : Nat) : MarksRefused (.postOfSeveral key count)
  | noPost (id : Nat) (which : Int) : MarksRefused (.noPost id which)

section
variable (f : Fabric) (p : Pass)

theorem neighbourRefused (id : Option Nat) : Faults MarksRefused (f.neighbour p id) := by
  unfold neighbour
  split
  · exact .error (.pastEnds p.key)
  · rename_i id _
    split
    · exact .ok _
    · exact .error (.lateNeighbour p.key id)

theorem widenedRefused (ids : List Nat) (first last : Nat) :
    Faults MarksRefused (f.widened p ids first last) := by
  have side := f.neighbourRefused p
  simp only [widened]
  cases p.modifiers.extend with
  | none => exact .ok _
  | some ends =>
    cases ends with
    | both => exact (side _).bind fun near _ => (side _).bind fun far _ => .ok _
    | left => exact (side _).bind fun near _ => .ok _
    | right => exact (side _).bind fun far _ => .ok _

theorem anchorsRefused (ids : List Nat) (first last : Nat) :
    Faults MarksRefused (f.anchors p ids first last) := by
  unfold anchors
  refine (f.widenedRefused p ids first last).bind fun nodes _ => ?_
  split
  · exact .ok _
  simp only
  split
  · exact .error (.postWithNeighbours p.key)
  split
  · exact .error (.postOfSeveral p.key _)
  split
  · exact .error (.noPost _ _)
  · exact .ok _

theorem spreadRefused (label : f.label? p.key = some l) (some : l.ids ≠ []) :
    Faults MarksRefused (f.spread p) := by
  obtain ⟨first, head⟩ := Option.isSome_iff_exists.mp (List.isSome_head?.mpr some)
  obtain ⟨last, final⟩ := Option.isSome_iff_exists.mp (List.getLast?_isSome.mpr some)
  unfold spread
  simp only [label, head, final]
  refine (f.anchorsRefused p l.ids first last).bind fun found _ => ?_
  exact iteInduction (motive := Faults MarksRefused) (fun _ => .ok _) (fun _ => .ok _)

end

theorem passSpreadsEvenly {rows : Rows} {registry : Registry} {options : Options} {f : Fabric}
    {before after : List Pass} {p : Pass} (ok : weave rows registry options = .ok f)
    (collected : f.passes = .ok (before ++ p :: after)) :
    (∀ cause, (f.runPasses before).1.spread p = .error cause → MarksRefused cause) ∧
    ∀ s, (f.runPasses before).1.spread p = .ok s → SpreadsEvenly (f.runPasses before).1 p s := by
  have labelled := (weaveWoven ok).labelled
  have collects := passesCollect collected
  have member : p ∈ before ++ p :: after := by simp
  have reworked := runReworked f before
  constructor
  · obtain ⟨i, worked⟩ := List.exists_mem_of_ne_nil _ (collects.nonempty p member)
    obtain ⟨u, used, _, key, _⟩ := collects.source p member i worked
    obtain ⟨l, label, _, some, _⟩ := labelled.frozen u used
    rw [key, ← reworked.labelSame] at label
    exact spreadRefused _ p label some
  · intro s spread
    exact spreadsEvenly (workedSlots labelled collects member reworked) spread

def laidBackPiece : MappedText :=
  MappedText.ofSource "ch.A,ch.A,ch.A,turn\nsc@A!0,sc2tog@A!0,sc@A!0".toList

def laidBack (f : Fabric) : List Pass → Bool
  | [p] => (f.assignments p).isOk && decide (f.slots p = [(3, 0), (4, 0), (4, 1), (5, 0)]) &&
    (f.spread p).toOption.any fun s => decide (s.anchors = [.top 3, .top 2, .top 1]) &&
      decide (s.total = 5) && decide (s.offset = 0)
  | _ => false

theorem passSpreadsEvenlyBack : ∃ rows f p s entries node,
    Row.parseRows laidBackPiece [] "red" = .ok rows ∧ weave rows Registry.plain {} = .ok f ∧
    f.passes = .ok [p] ∧ f.spread p = .ok s ∧ s.anchors = [.top 3, .top 2, .top 1] ∧
    s.total = 5 ∧ s.offset = 0 ∧ f.assignments p = .ok entries ∧ SpreadsEvenly f p s ∧
    entries[1]? = some ((4, 0), node) ∧ LiesAt f p.key s (1 / 2) node ∧ s.point 0 < s.point 1 := by
  obtain ⟨rows, f, all, parsed, ok, found, holds⟩ := foundPiece laidBackPiece laidBack
    (by decide +kernel)
  unfold laidBack at holds
  split at holds
  · rename_i p
    simp only [Bool.and_eq_true, decide_eq_true_eq] at holds
    obtain ⟨⟨ran, inOrder⟩, laid⟩ := holds
    obtain ⟨entries, ran⟩ := someOk ran
    obtain ⟨s, spread, shape⟩ := testOk laid
    simp only [Bool.and_eq_true, decide_eq_true_eq] at shape
    obtain ⟨⟨anchors, total⟩, offset⟩ := shape
    have collected : f.passes = .ok [p] := passesFound found (List.pairwise_singleton _ p)
    have even : SpreadsEvenly f p s :=
      (passSpreadsEvenly ok (show f.passes = .ok ([] ++ p :: []) from collected)).2 s spread
    obtain ⟨slots, lies⟩ := even.lies entries ran
    have second : (entries.map Prod.fst)[1]? = some (4, 0) := by rw [slots, inOrder]; rfl
    rw [List.getElem?_map] at second
    obtain ⟨⟨slot, node⟩, entry, rfl⟩ := Option.map_eq_some_iff.mp second
    have point : s.point 1 = 1 / 2 := by norm_num [Spread.point, anchors, total, offset]
    exact ⟨rows, f, p, s, entries, node, parsed, ok, collected, spread, anchors, total, offset, ran,
      even, entry, point ▸ lies 1 _ node entry,
      even.ascends (by simp [anchors]) (by omega) 0 1 Nat.zero_lt_one⟩
  · cases holds

end Fabric
end Crochet
