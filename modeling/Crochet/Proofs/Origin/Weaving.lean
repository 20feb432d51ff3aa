import Crochet.Proofs.Origin.Placing

/-! Weaving from another first id. The ids of a piece grow as it is woven, so what is asked is that
they stay signed words in every beginning of it, up to the item where the work stops. -/
namespace Crochet

def Fabric.Within (rows : Rows) (registry : Registry) (options : Options) : Prop :=
  ∀ done items more rest, rows = done ++ (items ++ more) :: rest →
    ∀ f, weave (done ++ [items]) registry options = .ok f → f.nextId < 2 ^ 63

namespace Work
variable {k : Nat}

structure ItemsWithin (k : Nat) (items : List Row.Item) (w : Work) : Prop where
  woven : w.fabric.Woven
  apart : ∀ item ∈ items, item.PostApart
  bound : ∀ init more, items = init ++ more → ∀ after, init.foldlM putItem (w.moved k) = .ok after →
    after.fabric.nextId < 2 ^ 63

variable {w after : Work} {item : Row.Item} {row : List Row.Item} {rest : Rows}

theorem ItemsWithin.fits {items : List Row.Item} (within : ItemsWithin k items w) :
    w.fabric.Fits k :=
  within.bound [] items rfl (w.moved k) rfl

theorem ItemsWithin.next {rest : List Row.Item} (within : ItemsWithin k (item :: rest) w)
    (ok : w.putItem item = .ok after) (moved : (w.moved k).putItem item = .ok (after.moved k)) :
    ItemsWithin k rest after where
  woven := Fabric.wovenItem within.woven ok
  apart := fun other member => within.apart other (List.mem_cons_of_mem _ member)
  bound := by
    intro init more same last run
    refine within.bound (item :: init) more (by rw [same]; rfl) last ?_
    rw [List.foldlM_cons, moved]
    exact run

theorem itemsMoved {items : List Row.Item} (within : ItemsWithin k items w) :
    InStep Fault.Like (Work.moved k) (items.foldlM putItem w) (items.foldlM putItem (w.moved k)) :=
  InStep.fold (ItemsWithin k) within
    (fun item _ _ within =>
      putItemMoved within.woven.counted within.fits item (within.apart item List.mem_cons_self))
    fun _ _ _ _ within => within.next

structure RowsWithin (k : Nat) (rows : Rows) (w : Work) : Prop where
  woven : w.fabric.Woven
  apart : ∀ row ∈ rows, ∀ item ∈ row, item.PostApart
  bound : ∀ done items more rest, rows = done ++ (items ++ more) :: rest → ∀ u after,
    done.foldlM putRow (w.moved k) = .ok u → items.foldlM putItem u.startRow = .ok after →
      after.fabric.nextId < 2 ^ 63

theorem RowsWithin.fits (within : RowsWithin k (row :: rest) w) : w.fabric.Fits k := by
  have bound := within.bound [] [] row rest rfl (w.moved k) (w.moved k).startRow rfl rfl
  rwa [Fabric.startRowFabric] at bound

theorem RowsWithin.items (within : RowsWithin k (row :: rest) w) :
    ItemsWithin k row w.startRow where
  woven := by
    rw [Fabric.startRowFabric]
    exact within.woven
  apart := within.apart row List.mem_cons_self
  bound := by
    intro init more same after run
    rw [← w.startRowMoved] at run
    exact within.bound [] init more rest (by rw [same]; rfl) (w.moved k) after rfl run

theorem putRowMoved (within : RowsWithin k (row :: rest) w) :
    InStep Fault.Like (Work.moved k) (w.putRow row) ((w.moved k).putRow row) := by
  unfold putRow
  rw [w.startRowMoved]
  refine (itemsMoved within.items).bind ?_
  intro after _ _
  exact .ok _

theorem RowsWithin.next (within : RowsWithin k (row :: rest) w) (ok : w.putRow row = .ok after)
    (moved : (w.moved k).putRow row = .ok (after.moved k)) : RowsWithin k rest after where
  woven := Fabric.wovenRow within.woven ok
  apart := fun other member => within.apart other (List.mem_cons_of_mem _ member)
  bound := by
    intro done items more later same u last run items
    refine within.bound (row :: done) _ more later (by rw [same]; rfl) u last ?_ items
    rw [List.foldlM_cons, moved]
    exact run

theorem rowsMoved {rows : Rows} (within : RowsWithin k rows w) :
    InStep Fault.Like (Work.moved k) (rows.foldlM putRow w) (rows.foldlM putRow (w.moved k)) :=
  InStep.fold (RowsWithin k) within (fun _ _ _ within => putRowMoved within)
    fun _ _ _ _ within => within.next

theorem itemGrows (ok : w.putItem item = .ok after) :
    w.fabric.nextId ≤ after.fabric.nextId := by
  rcases putItemCases ok with rfl | ⟨spot, v, located, rfl⟩ |
    ⟨name, template, spot, v, plain, bottoms, labels, placed⟩
  · exact Nat.le_refl _
  · have same : v.fabric.nextId = w.fabric.nextId := by rw [located.fabric]
    exact Nat.le_of_eq same.symm
  · have same : v.fabric.nextId = w.fabric.nextId := by rw [placed.located.fabric]
    rw [placed.fabric, ← same]
    exact Nat.le_add_right _ _

theorem itemsGrow {items : List Row.Item} (ok : items.foldlM putItem w = .ok after) :
    w.fabric.nextId ≤ after.fabric.nextId :=
  foldKeeps (fun v => w.fabric.nextId ≤ v.fabric.nextId)
    (fun _ _ _ _ grown one => Nat.le_trans grown (itemGrows one)) (Nat.le_refl _) ok

theorem rowsGrow {rows : Rows} (ok : rows.foldlM putRow w = .ok after) :
    w.fabric.nextId ≤ after.fabric.nextId := by
  refine foldKeeps (fun v => w.fabric.nextId ≤ v.fabric.nextId) ?_ (Nat.le_refl _) ok
  intro row _ v next grown one
  obtain ⟨last, run, rfl⟩ := Fabric.putRowParts one
  have more := itemsGrow run
  rw [Fabric.startRowFabric] at more
  exact Nat.le_trans grown more

end Work

namespace Fabric
variable {k : Nat} {rows : Rows} {registry : Registry} {options : Options}

theorem withinWoven {f : Fabric} (ok : weave rows registry options = .ok f)
    (small : f.nextId < 2 ^ 63) : Within rows registry options := by
  rintro done items more rest rfl g beginning
  obtain ⟨v, part, rfl⟩ := mapOk beginning
  rw [List.foldlM_append] at part
  obtain ⟨u, before, part⟩ := bindOk part
  obtain ⟨v', row, part⟩ := foldConsOk part
  cases pureOk part
  obtain ⟨last, some, rfl⟩ := putRowParts row
  obtain ⟨w, whole, rfl⟩ := mapOk ok
  rw [List.foldlM_append] at whole
  obtain ⟨u', before', whole⟩ := bindOk whole
  cases before.symm.trans before'
  obtain ⟨w', row', whole⟩ := foldConsOk whole
  obtain ⟨last', all, rfl⟩ := putRowParts row'
  rw [List.foldlM_append] at all
  obtain ⟨middle, some', all⟩ := bindOk all
  cases some.symm.trans some'
  have further := Work.itemsGrow all
  have later := Work.rowsGrow whole
  exact Nat.lt_of_le_of_lt (Nat.le_trans further later) small

theorem beginningWoven {done : Rows} {items : List Row.Item} {u after : Work}
    (run : done.foldlM Work.putRow (Work.start registry options) = .ok u)
    (row : items.foldlM Work.putItem u.startRow = .ok after) :
    ∃ f, weave (done ++ [items]) registry options = .ok f ∧ f.nextId = after.fabric.nextId := by
  have last : u.putRow items = .ok { after with fabric := { after.fabric with
      turns := after.fabric.turns ++ [Work.endsInTurn items] } } := by
    simp only [Work.putRow, row]
    rfl
  refine ⟨{ after.fabric with turns := after.fabric.turns ++ [Work.endsInTurn items] }, ?_, rfl⟩
  simp only [weave, List.foldlM_append, run, bind, Except.bind, List.foldlM_cons, last,
    List.foldlM_nil]
  rfl

theorem weaveMoved (apart : ∀ row ∈ rows, ∀ item ∈ row, item.PostApart)
    (within : Within rows registry { options with firstId := options.firstId + k }) :
    InStep Fault.Like (Fabric.moved k) (weave rows registry options)
      (weave rows registry { options with firstId := options.firstId + k }) := by
  cases rows with
  | nil => exact .ok _
  | cons row rest =>
    have start := Work.startMoved (k := k) registry options
    unfold weave
    rw [start]
    refine (Work.rowsMoved ⟨wovenStart registry options, apart, ?_⟩).map fun _ _ => rfl
    intro done items more later same u after run items
    rw [← start] at run
    obtain ⟨f, woven, next⟩ := beginningWoven run items
    rw [← next]
    exact within done _ more later same f woven

end Fabric
end Crochet
