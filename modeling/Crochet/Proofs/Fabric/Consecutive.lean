import Crochet.Proofs.Fabric.Sequence
import Crochet.Proofs.Fabric.Settled

/-! A row without addresses over the row before. Its stitches go into the tops of that row one after
the other, from the first top or, after a turn, from the last back, as long as the ids of these tops
are signed words. -/
namespace Crochet

def Row.Item.Implicit (item : Row.Item) : Prop :=
  item.kind ≠ .seek ∧ (item.kind = .turn ∨ item.attached.attachment = {})

instance (item : Row.Item) : Decidable item.Implicit := inferInstanceAs (Decidable (_ ∧ _))

def supply? (registry : Registry) (labels : List Label) (next : Nat) :
    List Row.Item → Option (List Template)
  | [] => some []
  | item :: rest => match item.kind with
    | .stitch name => match registry.resolve name with
      | (.error _, _) => none
      | (.ok template, registry) =>
        let tops := (List.range template.tops.length).map (next + ·)
        match item.labels.foldlM (defineLabel tops) labels with
        | .error _ => none
        | .ok labels => (supply? registry labels (next + template.tops.length) rest).map (template :: ·)
    | _ => supply? registry labels next rest

namespace Work

/- Some tops of a row as they are met when it is worked over from `entry`. -/
structure Ahead (f : Fabric) (row : Nat) (entry d : Int64) (n : Nat) : Prop where
  direction : Int64.ofInt (f.direction row) = d
  tops : ∀ j < n, ∃ (s : Stitch) (id : Nat), (entry + Int64.ofNat j * d).toInt = id ∧
    f.owner? id = some s ∧ s.row = row

structure Along (f : Fabric) (row : Nat) (entry d : Int64) (used : Nat) (v : Work) : Prop where
  woven : v.fabric.Woven
  below : v.row = some row
  turns : v.fabric.turns = f.turns
  position : v.position = entry - d + Int64.ofNat used * d
  made : ∃ made : List Stitch, v.fabric.stitches = f.stitches ++ made ∧
    (∀ s ∈ made, s.row = row + 1) ∧
    made.flatMap Stitch.bottoms = (List.range used).map fun j => topAt (entry + Int64.ofNat j * d)

variable {template : Template} {item : Row.Item}

section
variable {f : Fabric} {row n used : Nat} {entry d : Int64} {v : Work}

theorem Along.direction (along : Along f row entry d used v) (other : Nat) :
    v.fabric.direction other = f.direction other := by
  simp only [Fabric.direction, along.turns]

theorem Along.owner (along : Along f row entry d used v) {id : Nat} {s : Stitch}
    (owner : f.owner? id = some s) : v.fabric.owner? id = some s := by
  obtain ⟨made, stitches, _⟩ := along.made
  obtain ⟨⟨j, place⟩, owns⟩ := Fabric.ownerAt owner
  have there : v.fabric.stitches[j]? = some s := by
    rw [stitches, List.getElem?_append_left (List.getElem?_eq_some_iff.mp place).1]
    exact place
  have counted := along.woven.counted
  exact counted.ownerOf there ((counted.owns (List.mem_of_getElem? there)).mp owns)

theorem wantedNext (ahead : Ahead f row entry d n) (along : Along f row entry d used v)
    (enough : used + template.bottoms.length ≤ n) :
    v.wantedAt (entry + Int64.ofNat used * d) template =
      (List.range template.bottoms.length).map fun k => entry + Int64.ofNat (used + k) * d := by
  cases count : template.bottoms.length with
  | zero => simp [wantedAt, count]
  | succ more =>
    obtain ⟨s, id, place, owner, inRow⟩ := ahead.tops used (by omega)
    have step : v.bottomStep (entry + Int64.ofNat used * d) = d := by
      have found : v.owner? (entry + Int64.ofNat used * d) = some s := by
        rw [Work.owner?, place, idOfNat]
        exact along.owner owner
      rw [bottomStep, found]
      simp only [inRow, along.direction, ahead.direction]
    simp only [wantedAt, step, count]
    refine List.map_congr_left ?_
    intro k _
    rw [Int64.ofNat_add]
    grind

theorem landingNext (ahead : Ahead f row entry d n) (along : Along f row entry d used v)
    (plain : item.attached.attachment = {}) (enough : used + template.bottoms.length ≤ n) :
    v.landing item template ⟨entry + Int64.ofNat used * d, none⟩ =
      entry - d + Int64.ofNat (used + template.bottoms.length) * d := by
  simp only [landing, wantedNext ahead along enough, plain]
  cases template.bottoms.length with
  | zero => exact along.position
  | succ more =>
    simp only [List.range_succ, List.map_append, List.map_cons, List.map_nil, List.getLast?_concat]
    rw [← Nat.add_assoc, Int64.ofNat_add (used + more) 1]
    grind

theorem alongStitch (ahead : Ahead f row entry d n) (along : Along f row entry d used v)
    {name : String} {known : Registry} {labels : List Label} (kind : item.kind = .stitch name)
    (plain : item.attached.attachment = {}) (numbered : item.row = row + 1)
    (resolved : v.registry.resolve name = (.ok template, known))
    (accepted : item.labels.foldlM (defineLabel (v.freshTops template)) v.fabric.labels = .ok labels)
    (enough : used + template.bottoms.length ≤ n) :
    ∃ next, v.putItem item = .ok next ∧ Along f row entry d (used + template.bottoms.length) next ∧
      next.registry = known ∧ next.fabric.labels = labels ∧
      next.fabric.nextId = v.fabric.nextId + template.tops.length := by
  have read : v.resolve name item.span = .ok (template, { v with registry := known }) := by
    simp [resolve, resolved]
  have first : v.position + v.step = entry + Int64.ofNat used * d := by
    rw [along.position, step, along.below]
    simp only [along.direction, ahead.direction]
    grind
  have located : { v with registry := known }.locate item =
      .ok (⟨entry + Int64.ofNat used * d, none⟩, { v with registry := known }) := by
    rw [← first]
    simp only [locate, plain]
    rfl
  have here (known : Registry) : Along f row entry d used { v with registry := known } :=
    ⟨along.woven, along.below, along.turns, along.position, along.made⟩
  have wanted := wantedNext ahead (here known) enough
  have tops : ∀ x ∈ { v with registry := known }.wantedAt (entry + Int64.ofNat used * d) template,
      v.fabric.HasTop x.toInt := by
    intro x member
    rw [wanted] at member
    obtain ⟨k, inside, rfl⟩ := List.mem_map.mp member
    have bound := List.mem_range.mp inside
    obtain ⟨s, id, place, owner, _⟩ := ahead.tops (used + k) (by omega)
    rw [place]
    exact along.woven.counted.hasOwner.mpr ⟨s, along.owner owner⟩
  have post : item.attached.attachment.post = none := by rw [plain]
  have ok : v.putItem item = .ok ({ v with registry := known }.withStitch name item template
      ⟨entry + Int64.ofNat used * d, none⟩ (({ v with registry := known }.wantedAt
        (entry + Int64.ofNat used * d) template).map topAt) labels) := by
    simp only [putItem, kind, placeParts, read, okBind, located]
    exact (putAtSettled post).mpr ⟨tops, labels, accepted, rfl⟩
  obtain ⟨made, stitches, rows, bottoms⟩ := along.made
  refine ⟨_, ok, ⟨Fabric.wovenItem along.woven ok, along.below, along.turns, ?_, ?_⟩, rfl, rfl, ?_⟩
  · exact landingNext ahead (here known) plain enough
  · refine ⟨made ++ [_], by simp only [withStitch, stitches, List.append_assoc]; rfl, ?_, ?_⟩
    · intro s member
      rcases List.mem_append.mp member with old | new
      · exact rows s old
      · rw [List.mem_singleton.mp new]
        exact numbered
    · rw [List.flatMap_append, bottoms, List.flatMap_singleton, List.range_add, List.map_append,
        List.map_map]
      simp only [newStitch, wanted, List.map_map]
      rfl
  · simp [withStitch, freshTops]

theorem alongItems (ahead : Ahead f row entry d n) {items : List Row.Item}
    {templates : List Template} (along : Along f row entry d used v)
    (implicit : ∀ item ∈ items, item.Implicit) (numbered : ∀ item ∈ items, item.row = row + 1)
    (supplied : supply? v.registry v.fabric.labels v.fabric.nextId items = some templates)
    (enough : used + (templates.map fun t => t.bottoms.length).sum ≤ n) :
    ∃ last, items.foldlM putItem v = .ok last ∧
      Along f row entry d (used + (templates.map fun t => t.bottoms.length).sum) last := by
  induction items generalizing v used templates with
  | nil =>
    cases supplied
    exact ⟨v, rfl, along⟩
  | cons item rest ih =>
    have implicits := fun other member => implicit other (List.mem_cons_of_mem item member)
    have numbers := fun other member => numbered other (List.mem_cons_of_mem item member)
    obtain ⟨noSeek, plain⟩ := implicit item List.mem_cons_self
    cases kind : item.kind with
    | seek => exact absurd kind noSeek
    | turn =>
      simp only [supply?, kind] at supplied
      obtain ⟨last, run, done⟩ := ih along implicits numbers supplied enough
      refine ⟨last, ?_, done⟩
      rw [List.foldlM_cons, putItem, kind]
      exact run
    | stitch name =>
      replace plain : item.attached.attachment = {} := plain.resolve_left (by simp [kind])
      simp only [supply?, kind] at supplied
      split at supplied
      · cases supplied
      rename_i template known resolved
      split at supplied
      · cases supplied
      rename_i labels accepted
      obtain ⟨others, more, rfl⟩ := Option.map_eq_some_iff.mp supplied
      simp only [List.map_cons, List.sum_cons, ← Nat.add_assoc] at enough ⊢
      obtain ⟨next, one, moved, same, named, ids⟩ := alongStitch ahead along kind plain
        (numbered item List.mem_cons_self) resolved accepted (by omega)
      obtain ⟨last, run, done⟩ :=
        ih moved implicits numbers (by rw [same, named, ids]; exact more) enough
      refine ⟨last, ?_, done⟩
      rw [List.foldlM_cons, one]
      exact run

end
end Work

namespace Fabric

def worked (f : Fabric) (row : Nat) (turned : Bool) : List Nat :=
  if turned then (f.rowIds row).reverse else f.rowIds row

variable {row : Nat} {f : Fabric}

theorem lastRowSuffix {stitches : List Stitch} (ascend : (stitches.map Stitch.row).Pairwise (· ≤ ·))
    (below : ∀ s ∈ stitches, s.row < row + 1) :
    ∃ before, stitches = before ++ stitches.filter (·.row == row) := by
  induction stitches with
  | nil => exact ⟨[], rfl⟩
  | cons s rest ih =>
    obtain ⟨least, ascend⟩ := List.pairwise_cons.mp ascend
    obtain ⟨first, below⟩ := List.forall_mem_cons.mp below
    by_cases here : s.row = row
    · refine ⟨[], ?_⟩
      rw [List.nil_append, eq_comm, List.filter_eq_self]
      intro t member
      have upper : t.row ≤ row := by
        rcases List.mem_cons.mp member with rfl | later
        · omega
        · exact Nat.le_of_lt_succ (below t later)
      have lower : row ≤ t.row := by
        rcases List.mem_cons.mp member with rfl | later
        · omega
        · exact here ▸ least t.row (List.mem_map_of_mem later)
      exact beq_iff_eq.mpr (Nat.le_antisymm upper lower)
    · obtain ⟨before, split⟩ := ih ascend below
      refine ⟨s :: before, ?_⟩
      rw [List.filter_cons_of_neg (by simpa using here), List.cons_append, ← split]

theorem lastRowRun (counted : f.Counted) (rows : InRows f (row + 1)) :
    ∃ first, f.rowIds row = List.range' first (f.rowIds row).length := by
  obtain ⟨before, split⟩ := lastRowSuffix rows.ascend rows.below
  have ids := counted.ids
  rw [split, List.flatMap_append] at ids
  obtain ⟨k, _, _, rest⟩ := List.range'_eq_append_iff.mp ids.symm
  have whole : f.rowIds row = List.range' (f.firstId + k) (f.nextId - f.firstId - k) := by
    simpa [rowIds, inRow] using rest
  refine ⟨f.firstId + k, ?_⟩
  rw [whole, List.length_range']

theorem workedRun {first j : Nat} (turned : Bool)
    (run : f.rowIds row = List.range' first (f.rowIds row).length)
    (inside : j < (f.rowIds row).length) :
    (f.worked row turned)[j]? =
      some (if turned then first + ((f.rowIds row).length - 1 - j) else first + j) := by
  have at' {k : Nat} (bound : k < (f.rowIds row).length) : (f.rowIds row)[k]? = some (first + k) := by
    rw [run, List.getElem?_range' bound]
    simp
  cases turned with
  | false => exact at' inside
  | true =>
    rw [worked, if_pos rfl, List.getElem?_reverse inside]
    exact at' (by omega)

theorem workedOwner (counted : f.Counted) {turned : Bool} {id : Nat}
    (member : id ∈ f.worked row turned) : ∃ s, f.owner? id = some s ∧ s.row = row := by
  have inside : id ∈ f.rowIds row := by
    cases turned with
    | false => exact member
    | true => exact List.mem_reverse.mp member
  obtain ⟨s, here, top⟩ := List.mem_flatMap.mp inside
  obtain ⟨known, same⟩ := List.mem_filter.mp here
  obtain ⟨j, place⟩ := List.mem_iff_getElem?.mp known
  exact ⟨s, counted.ownerOf place top, eq_of_beq same⟩

end Fabric

namespace Work

structure RowDone (w : Work) (row : Nat) (turned : Bool) : Prop where
  woven : w.fabric.Woven
  rows : w.fabric.InRows (row + 1)
  turns : ∃ earlier : List Bool, earlier.length = row ∧ w.fabric.turns = earlier ++ [turned]

variable {init : Rows} {previous : List Row.Item} {w : Work} {turned : Bool}

theorem rowDone {text : MappedText} {colors : List (Nat × String)} {color : String} {later : Rows}
    {registry : Registry} {options : Options}
    (parsed : Row.parseRows text colors color = .ok (init ++ previous :: later))
    (run : (init ++ [previous]).foldlM putRow (start registry options) = .ok w) :
    w.RowDone init.length (endsInTurn previous) := by
  have numbered : Row.NumberedFrom 0 (init ++ [previous]) := by
    intro k row found
    refine Row.parseNumbered parsed k row ?_
    rw [← List.singleton_append, ← List.append_assoc,
      List.getElem?_append_left (List.getElem?_eq_some_iff.mp found).1]
    exact found
  have ok : Fabric.weave (init ++ [previous]) registry options = .ok w.fabric := by
    rw [Fabric.weave, run]
    rfl
  obtain ⟨rows, turns, _⟩ := Fabric.weaveInRows numbered ok
  rw [List.length_append, List.length_singleton] at turns
  refine ⟨Fabric.weaveWoven ok, turns ▸ rows, ?_⟩
  rw [List.foldlM_append] at run
  obtain ⟨u, _, run⟩ := bindOk run
  obtain ⟨w', one, run⟩ := foldConsOk run
  cases pureOk run
  obtain ⟨v, _, rfl⟩ := Fabric.putRowParts one
  refine ⟨v.fabric.turns, ?_, rfl⟩
  simpa using turns

variable {row : Nat}

theorem RowDone.direction (done : w.RowDone row turned) :
    w.fabric.direction row = sign turned := by
  obtain ⟨earlier, length, turns⟩ := done.turns
  rw [Fabric.direction, turns, ← length, List.drop_left]
  cases turned <;> rfl

theorem RowDone.startRow {first : Nat} (done : w.RowDone row turned)
    (some : w.fabric.rowIds row ≠ [])
    (run : w.fabric.rowIds row = List.range' first (w.fabric.rowIds row).length) :
    w.startRow = { w with
      position := if turned then signedId (first + ((w.fabric.rowIds row).length - 1)) + 1
        else signedId first - 1
      row := .some row } := by
  obtain ⟨earlier, length, turns⟩ := done.turns
  have count : w.fabric.turns.length = row + 1 := by
    rw [turns, List.length_append, length]
    rfl
  have long := List.length_pos_iff.mpr some
  have head : (w.fabric.rowIds row).head? = .some first := by
    rw [run, List.head?_range', if_neg (by omega)]
  have last : (w.fabric.rowIds row).getLast? =
      .some (first + ((w.fabric.rowIds row).length - 1)) := by
    rw [run, List.getLast?_range', if_neg (by omega), List.length_range']
    congr 1
    omega
  have ends : w.fabric.turns[row]?.getD false = turned := by
    rw [turns, ← length]
    simp
  simp only [Work.startRow, count, head, last, ends]

theorem RowDone.ahead {n : Nat} (done : w.RowDone row turned) (some : w.fabric.rowIds row ≠ [])
    (enough : n ≤ (w.fabric.rowIds row).length)
    (small : ∀ id ∈ (w.fabric.worked row turned).take n, id < 2 ^ 63) : ∃ entry,
      Ahead w.fabric row entry (Int64.ofInt (sign turned)) n ∧
      Along w.fabric row entry (Int64.ofInt (sign turned)) 0 w.startRow ∧
      ((w.fabric.worked row turned).take n).map NodeRef.top =
        (List.range n).map fun j => topAt (entry + Int64.ofNat j * Int64.ofInt (sign turned)) := by
  obtain ⟨first, run⟩ := Fabric.lastRowRun done.woven.counted done.rows
  have start := done.startRow some run
  have place (j : Nat) (inside : j < n) : ∃ id, (w.fabric.worked row turned)[j]? = .some id ∧
      (w.startRow.position + Int64.ofInt (sign turned) +
        Int64.ofNat j * Int64.ofInt (sign turned)).toInt = id := by
    have there := Fabric.workedRun turned run (show j < (w.fabric.rowIds row).length by omega)
    have word := small _ (List.mem_of_getElem? ((List.getElem?_take_of_lt inside).trans there))
    refine ⟨_, there, ?_⟩
    rw [start, ← signedSmall word]
    congr 1
    cases turned with
    | false =>
      simp only [Bool.false_eq_true, if_false, sign, signedAdd]
      grind [signedId]
    | true =>
      simp only [if_true, sign]
      rw [show first + ((w.fabric.rowIds row).length - 1) =
        first + ((w.fabric.rowIds row).length - 1 - j) + j by omega, signedAdd _ j]
      grind [signedId]
  refine ⟨w.startRow.position + Int64.ofInt (sign turned),
    ⟨by rw [done.direction], ?_⟩, ⟨?_, ?_, ?_, ?_, ?_⟩, ?_⟩
  · intro j inside
    obtain ⟨id, there, same⟩ := place j inside
    obtain ⟨s, owner, inRow⟩ := Fabric.workedOwner done.woven.counted (List.mem_of_getElem? there)
    exact ⟨s, id, same, owner, inRow⟩
  · rw [Fabric.startRowFabric]
    exact done.woven
  · rw [start]
  · rw [Fabric.startRowFabric]
  · simp
  · exact ⟨[], by simp [Fabric.startRowFabric], by simp, rfl⟩
  · refine List.ext_getElem? ?_
    intro j
    by_cases inside : j < n
    · obtain ⟨id, there, same⟩ := place j inside
      rw [List.getElem?_map, List.getElem?_take_of_lt inside, there, List.getElem?_map,
        List.getElem?_range inside, Option.map_some, Option.map_some, topAt, same]
      rfl
    · rw [List.getElem?_eq_none (by simp; omega), List.getElem?_eq_none (by simp; omega)]

def lastTwo? (rows : Rows) : Option (Rows × List Row.Item × List Row.Item) :=
  match rows.reverse with
  | row :: previous :: init => some (init.reverse, previous, row)
  | _ => none

theorem lastTwoOk {rows : Rows} {row : List Row.Item}
    (found : lastTwo? rows = some (init, previous, row)) : rows = init ++ [previous, row] := by
  unfold lastTwo? at found
  split at found
  · rename_i shape
    cases found
    rw [← List.reverse_reverse rows, shape]
    simp
  · cases found

def goesOver (options : Options) (test : Work → Nat → Bool → List Row.Item → Nat → Bool)
    (rows : Rows) : Bool :=
  (lastTwo? rows).any fun (init, previous, row) =>
    ((init ++ [previous]).foldlM putRow (start Registry.plain options)).toOption.any fun w =>
      row.all (fun item => decide item.Implicit) && !(w.fabric.rowIds init.length).isEmpty &&
      (supply? w.registry w.fabric.labels w.fabric.nextId row).any fun templates =>
        decide ((templates.map fun t => t.bottoms.length).sum ≤
          (w.fabric.rowIds init.length).length) &&
        test w init.length (endsInTurn previous) row (templates.map fun t => t.bottoms.length).sum

theorem goesOverOk (text : MappedText) (options : Options)
    (test : Work → Nat → Bool → List Row.Item → Nat → Bool)
    (runs : (Row.parseRows text [] "red").toOption.any (goesOver options test) = true) :
    ∃ init previous row w templates,
      Row.parseRows text [] "red" = .ok (init ++ previous :: row :: []) ∧
      (init ++ [previous]).foldlM putRow (start Registry.plain options) = .ok w ∧
      (∀ item ∈ row, item.Implicit) ∧ w.fabric.rowIds init.length ≠ [] ∧
      supply? w.registry w.fabric.labels w.fabric.nextId row = some templates ∧
      (templates.map fun t => t.bottoms.length).sum ≤ (w.fabric.rowIds init.length).length ∧
      test w init.length (endsInTurn previous) row (templates.map fun t => t.bottoms.length).sum =
        true := by
  obtain ⟨rows, parsed, goes⟩ := testOk runs
  obtain ⟨⟨init, previous, row⟩, shape, worked⟩ := (Option.any_eq_true _ _).mp goes
  obtain ⟨w, run, holds⟩ := testOk worked
  obtain ⟨plain, known⟩ := Bool.and_eq_true_iff.mp holds
  obtain ⟨implicit, some⟩ := Bool.and_eq_true_iff.mp plain
  obtain ⟨templates, supplied, fits⟩ := (Option.any_eq_true _ _).mp known
  obtain ⟨enough, tested⟩ := Bool.and_eq_true_iff.mp fits
  refine ⟨init, previous, row, w, templates, lastTwoOk shape ▸ parsed, run, ?_, ?_, supplied,
    of_decide_eq_true enough, tested⟩
  · intro item member
    exact of_decide_eq_true (List.all_eq_true.mp implicit item member)
  · intro none
    simp [none] at some

def turnedTwice : MappedText :=
  MappedText.ofSource "ch,ch,ch,ch,turn\nsc,sc,sc,sc,turn\nsc2inc,ch,sc2tog.B".toList

def oneOver : MappedText := MappedText.ofSource "ch\nsc".toList

end Work
end Crochet
