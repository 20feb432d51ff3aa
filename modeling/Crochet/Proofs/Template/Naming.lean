import Mathlib.Data.List.Perm.Basic
import Crochet.Proofs.Lists
import Crochet.Proofs.Template.Builtin
import Crochet.Proofs.Token.Rescan

/-! Names of the nodes of a template. Names without digits stay apart when the number of a copy is
written behind them, so an increase of a stitch with such names has its copies side by side: nothing
of one is taken for something of another, and every connection of every copy is there. -/
namespace Crochet
namespace Template

def nodeNames (t : Template) : List String :=
  t.tops.map (·.name) ++ (t.bottoms.map (·.name) ++ t.hidden.map (·.name))

def WellNamed (t : Template) : Prop :=
  t.nodeNames.Nodup ∧ ∀ name ∈ t.nodeNames, Text.isName name.toList = true

instance (t : Template) : Decidable t.WellNamed := inferInstanceAs (Decidable (_ ∧ _))

theorem nameHead {name : List Char} (isName : Text.isName name = true) :
    ∃ c ∈ name, c.isDigit = false := by
  cases name with
  | nil => cases isName
  | cons c rest =>
    simp only [Text.isName, Bool.and_eq_true] at isName
    exact ⟨c, List.mem_cons_self, Token.startNoDigit isName.1⟩

variable {name other : String} {copy : Nat}

theorem namesListed {t : Template} : t.Names name ↔ name ∈ t.nodeNames := by
  simp [Names, nodeNames]

section
variable {t : Template}

theorem topRole {n : TopNode} (member : n ∈ t.tops) : t.role n.name = some .top := by
  have found : t.tops.any (·.name == n.name) = true :=
    List.any_eq_true.mpr ⟨n, member, beq_self_eq_true n.name⟩
  rw [role, if_pos found]

theorem notTop (distinct : t.nodeNames.Nodup)
    (other : name ∈ t.bottoms.map (·.name) ++ t.hidden.map (·.name)) :
    ¬ t.tops.any (·.name == name) = true := by
  rw [List.any_eq_true]
  rintro ⟨n, member, same⟩
  have apart := (List.nodup_append.mp distinct).2.2
  exact apart n.name (List.mem_map_of_mem member) name other (beq_iff_eq.mp same)

theorem bottomRole (distinct : t.nodeNames.Nodup) {n : BottomNode} (member : n ∈ t.bottoms) :
    t.role n.name = some .bottom := by
  have found : t.bottoms.any (·.name == n.name) = true :=
    List.any_eq_true.mpr ⟨n, member, beq_self_eq_true n.name⟩
  rw [role, if_neg (notTop distinct (List.mem_append_left _ (List.mem_map_of_mem member))),
    if_pos found]

theorem hiddenRole (distinct : t.nodeNames.Nodup) {n : HiddenNode} (member : n ∈ t.hidden) :
    t.role n.name = some .hidden := by
  have noBottom : ¬ t.bottoms.any (·.name == n.name) = true := by
    rw [List.any_eq_true]
    rintro ⟨b, bottom, same⟩
    have apart := (List.nodup_append.mp (List.nodup_append.mp distinct).2.1).2.2
    exact apart b.name (List.mem_map_of_mem bottom) n.name (List.mem_map_of_mem member)
      (beq_iff_eq.mp same)
  have found : t.hidden.any (·.name == n.name) = true :=
    List.any_eq_true.mpr ⟨n, member, beq_self_eq_true n.name⟩
  rw [role, if_neg (notTop distinct (List.mem_append_right _ (List.mem_map_of_mem member))),
    if_neg noBottom, if_pos found]

theorem WellNamed.bottomFound (named : t.WellNamed) {b : Nat} {bottom : BottomNode}
    (here : t.bottoms[b]? = some bottom) :
    t.role bottom.name = some .bottom ∧ t.bottomIndex? bottom.name = some b := by
  have distinct := (List.nodup_append.mp (List.nodup_append.mp named.1).2.1).1
  exact ⟨bottomRole named.1 (List.mem_of_getElem? here), indexOfKey distinct here⟩

end

/- What keeps copies of a stitch apart. A head of its own in every copy keeps their connections
apart. -/
structure Repeatable (t : Template) : Prop where
  named : t.WellNamed
  unnumbered : ∀ name ∈ t.nodeNames, name.toList.any Char.isDigit = false
  shallow : ∀ b ∈ t.bottoms, b.depth = 1
  once : (t.connections.map fun c => (c.tail, c.head)).Nodup
  heads : ∀ c ∈ t.connections, c.head ≠ .previous ∧ ∀ b ∈ t.bottoms, c.head ≠ .node b.name

instance (t : Template) : Decidable t.Repeatable :=
  decidable_of_iff (t.WellNamed ∧ (∀ name ∈ t.nodeNames, name.toList.any Char.isDigit = false) ∧
    (∀ b ∈ t.bottoms, b.depth = 1) ∧ (t.connections.map fun c => (c.tail, c.head)).Nodup ∧
    ∀ c ∈ t.connections, c.head ≠ .previous ∧ ∀ b ∈ t.bottoms, c.head ≠ .node b.name)
    ⟨fun ⟨named, unnumbered, shallow, once, heads⟩ => ⟨named, unnumbered, shallow, once, heads⟩,
      fun ⟨named, unnumbered, shallow, once, heads⟩ => ⟨named, unnumbered, shallow, once, heads⟩⟩

theorem suffixedInj {number : Nat} (left : name.toList.any Char.isDigit = false)
    (right : other.toList.any Char.isDigit = false)
    (same : suffixed name copy = suffixed other number) : name = other ∧ copy = number := by
  have texts : name.toList ++ Nat.toDigits 10 copy = other.toList ++ Nat.toDigits 10 number := by
    simpa [suffixed, toString, String.toList_append, Nat.toList_repr] using
      congrArg String.toList same
  have plain {cs : List Char} (clean : cs.any Char.isDigit = false) (n : Nat) :
      (cs ++ Nat.toDigits 10 n).filter Char.isDigit = Nat.toDigits 10 n := by
    have digits : ∀ c ∈ Nat.toDigits 10 n, c.isDigit = true := fun c inside =>
      Nat.isDigit_of_mem_toDigits (by decide) (by decide) inside
    rw [List.filter_append, List.filter_eq_nil_iff.mpr (List.any_eq_false.mp clean),
      List.filter_eq_self.mpr digits, List.nil_append]
  have digits := congrArg (List.filter Char.isDigit) texts
  rw [plain left, plain right] at digits
  rw [digits] at texts
  exact ⟨String.toList_inj.mp (List.append_cancel_right texts), digitsInj digits⟩

theorem suffixedNew (clean : other.toList.any Char.isDigit = false) (copy : Nat) :
    suffixed name copy ≠ other := by
  rintro rfl
  obtain ⟨c, inside⟩ := List.exists_mem_of_ne_nil _ (@Nat.toDigits_ne_nil copy 10)
  refine List.any_eq_false.mp clean c ?_ (Nat.isDigit_of_mem_toDigits (by decide) (by decide) inside)
  simp [suffixed, toString, String.toList_append, Nat.toList_repr, inside]

section
variable {base t : Template} {count : Nat} (parts : Increase base count t)
include parts

theorem increasedNames : t.nodeNames.Perm (base.bottoms.map (·.name) ++ (List.range count).flatMap
    fun copy => (base.tops.map (·.name) ++ base.hidden.map (·.name)).map (suffixed · copy)) := by
  have both := List.flatMap_append_perm (List.range count)
    (fun copy => (base.tops.map (·.name)).map (suffixed · copy))
    (fun copy => (base.hidden.map (·.name)).map (suffixed · copy))
  simp only [← List.map_append] at both
  refine List.Perm.trans ?_ (both.append_left _)
  rw [nodeNames, parts.tops, parts.bottoms, parts.hidden, ← List.append_assoc, ← List.append_assoc]
  simp only [copies, List.map_flatMap, List.map_map]
  exact List.perm_append_comm.append_right _

theorem increasedDistinct (repeatable : base.Repeatable) : t.nodeNames.Nodup := by
  obtain ⟨tops, rest, apart⟩ := List.nodup_append.mp repeatable.named.1
  obtain ⟨bottoms, hidden, apart'⟩ := List.nodup_append.mp rest
  have names : (base.tops.map (·.name) ++ base.hidden.map (·.name)).Nodup :=
    List.nodup_append.mpr ⟨tops, hidden, fun name top other inner =>
      apart name top other (List.mem_append_right _ inner)⟩
  have clean : ∀ name ∈ base.tops.map (·.name) ++ base.hidden.map (·.name),
      name.toList.any Char.isDigit = false := by
    intro name inside
    apply repeatable.unnumbered
    simp only [nodeNames, List.mem_append] at inside ⊢
    exact inside.imp_right .inr
  rw [(increasedNames parts).nodup_iff, List.nodup_append]
  refine ⟨bottoms, List.nodup_flatMap.mpr ⟨?_, ?_⟩, ?_⟩
  · intro copy _
    refine names.map_on fun name left other right same => ?_
    exact (suffixedInj (clean name left) (clean other right) same).1
  · refine List.Pairwise.imp_of_mem ?_ List.nodup_range
    intro copy number _ _ differ name left right
    obtain ⟨first, inLeft, rfl⟩ := List.mem_map.mp left
    obtain ⟨second, inRight, same⟩ := List.mem_map.mp right
    exact differ (suffixedInj (clean second inRight) (clean first inLeft) same).2.symm
  · intro name bottom other inside same
    obtain ⟨copy, _, copied⟩ := List.mem_flatMap.mp inside
    obtain ⟨inner, _, rfl⟩ := List.mem_map.mp copied
    refine suffixedNew (repeatable.unnumbered name ?_) copy same.symm
    exact List.mem_append_right _ (List.mem_append_left _ bottom)

end

theorem addNewAll {old new : List Connection}
    (once : ((old ++ new).map fun c => (c.tail, c.head)).Nodup) :
    new.foldl addNew old = old ++ new := by
  induction new generalizing old with
  | nil => simp
  | cons c rest ih =>
    have fresh : ¬ (old.any fun d => d.tail == c.tail && d.head == c.head) = true := by
      rw [List.any_eq_true]
      rintro ⟨d, member, same⟩
      simp only [Bool.and_eq_true, beq_iff_eq] at same
      rw [List.map_append, List.nodup_append] at once
      refine once.2.2 (d.tail, d.head) (List.mem_map_of_mem member) (c.tail, c.head) (by simp) ?_
      rw [same.1, same.2]
    rw [List.foldl_cons, addNew, if_neg fresh, ih (by simpa using once)]
    simp

def copiedEnd (base : Template) (copy : Nat) (e : Endpoint) : Endpoint :=
  increaseEnd (base.bottoms.head?.map (·.name)) (base.tops.getLast?.map (·.name)) copy e

def copiedConnection (base : Template) (copy : Nat) (c : Connection) : Connection :=
  { c with tail := copiedEnd base copy c.tail, head := copiedEnd base copy c.head }

section
variable {base : Template} {bottom : BottomNode} {last : TopNode}
  (one : base.bottoms = [bottom]) (ending : base.tops.getLast? = some last)

include one in
theorem copiedBottom (copy : Nat) : copiedEnd base copy (.node bottom.name) = .node bottom.name := by
  simp [copiedEnd, increaseEnd, one]

include one in
theorem copiedNode (copy : Nat) (other : name ≠ bottom.name) :
    copiedEnd base copy (.node name) = .node (suffixed name copy) := by
  simp [copiedEnd, increaseEnd, one, other]

include ending in
theorem copiedPrevious (copy : Nat) : copiedEnd base copy .previous =
    if 0 < copy then .node (suffixed last.name (copy - 1)) else .previous := by
  simp [copiedEnd, increaseEnd, ending]

variable (repeatable : base.Repeatable)

include one ending repeatable in
theorem copiedEndInj {e other : Endpoint} (left : base.HasEnd e) (right : base.HasEnd other)
    (same : copiedEnd base copy e = copiedEnd base copy other) :
    e = other := by
  have clean {name : String} (has : base.HasEnd (.node name)) :
      name.toList.any Char.isDigit = false := repeatable.unnumbered name (namesListed.mp has)
  have lastClean := repeatable.unnumbered last.name
    (namesListed.mp (.inl ⟨last, List.mem_of_getLast? ending, rfl⟩))
  -- the end before the stitch is named after the copy before, and no name has two numbers
  have previousApart {name : String} (has : base.HasEnd (.node name)) :
      copiedEnd base copy .previous ≠ copiedEnd base copy (.node name) := by
    intro same
    rw [copiedPrevious ending] at same
    by_cases bottomNamed : name = bottom.name
    · subst bottomNamed
      rw [copiedBottom one] at same
      split at same
      · exact suffixedNew (clean has) _ (Endpoint.node.inj same)
      · cases same
    · rw [copiedNode one copy bottomNamed] at same
      split at same
      · have numbers := (suffixedInj lastClean (clean has) (Endpoint.node.inj same)).2
        omega
      · cases same
  cases e with
  | previous =>
    cases other with
    | previous => rfl
    | node name => exact absurd same (previousApart right)
  | node name =>
    cases other with
    | previous => exact absurd same.symm (previousApart left)
    | node other =>
      by_cases first : name = bottom.name
      · by_cases second : other = bottom.name
        · rw [first, second]
        · rw [first, copiedBottom one, copiedNode one copy second] at same
          exact absurd (Endpoint.node.inj same).symm (suffixedNew (first ▸ clean left) copy)
      · by_cases second : other = bottom.name
        · rw [second, copiedBottom one, copiedNode one copy first] at same
          exact absurd (Endpoint.node.inj same) (suffixedNew (second ▸ clean right) copy)
        · rw [copiedNode one copy first, copiedNode one copy second] at same
          rw [(suffixedInj (clean left) (clean right) (Endpoint.node.inj same)).1]

include one repeatable in
theorem copiedHead (closed : base.Closed) {c : Connection} (member : c ∈ base.connections) :
    ∃ name, name.toList.any Char.isDigit = false ∧
      ∀ copy, copiedEnd base copy c.head = .node (suffixed name copy) := by
  obtain ⟨inside, notBottom⟩ := repeatable.heads c member
  have has := (closed.ends c member).2
  cases shape : c.head with
  | previous => exact absurd shape inside
  | node name =>
    rw [shape] at has notBottom
    refine ⟨name, repeatable.unnumbered name (namesListed.mp has), fun copy => ?_⟩
    refine copiedNode one copy fun same => ?_
    exact notBottom bottom (by simp [one]) (congrArg Endpoint.node same)

include one ending repeatable in
theorem increasedConnections {t : Template} {count : Nat} (parts : Increase base count t)
    (closed : base.Closed) :
    t.connections = copies count fun copy => base.connections.map (copiedConnection base copy) := by
  refine parts.connections.trans (addNewAll ?_)
  rw [List.nil_append, copies, List.map_flatMap]
  refine List.nodup_flatMap.mpr ⟨?_, ?_⟩
  · intro copy _
    rw [List.map_map]
    have pairs := List.nodup_map_iff_inj_on (List.Nodup.of_map _ repeatable.once) |>.mp repeatable.once
    refine (List.Nodup.of_map _ repeatable.once).map_on fun c left d right same => ?_
    have ends := Prod.mk.inj same
    refine pairs c left d right (Prod.ext ?_ ?_)
    · exact copiedEndInj one ending repeatable (closed.ends c left).1 (closed.ends d right).1 ends.1
    · exact copiedEndInj one ending repeatable (closed.ends c left).2 (closed.ends d right).2 ends.2
  · refine List.Pairwise.imp_of_mem ?_ List.nodup_range
    intro copy number _ _ differ pair left right
    simp only [List.map_map] at left right
    obtain ⟨c, inLeft, rfl⟩ := List.mem_map.mp left
    obtain ⟨d, inRight, same⟩ := List.mem_map.mp right
    obtain ⟨name, clean, head⟩ := copiedHead one repeatable closed inLeft
    obtain ⟨other, clean', head'⟩ := copiedHead one repeatable closed inRight
    have heads : copiedEnd base number d.head = copiedEnd base copy c.head := (Prod.mk.inj same).2
    rw [head, head'] at heads
    exact differ (suffixedInj clean' clean (Endpoint.node.inj heads)).2.symm

end

end Template

namespace Registry

def AllRepeatable (entries : List (String × String)) : Prop :=
  ∀ entry ∈ entries, ∀ t, Template.parse entry.1 entry.2 = .ok t → t.Repeatable

variable {name : String}

theorem repeatableCons {raw : String} {cs : List Char} {rest : List (String × String)}
    (written : String.ofList cs = raw)
    (read : ((Template.readSpec name cs).toOption.all fun t => decide t.Repeatable) = true)
    (more : AllRepeatable rest) : AllRepeatable ((name, raw) :: rest) := by
  refine List.forall_mem_cons.mpr ⟨?_, more⟩
  intro t parsed
  subst written
  simp only [Template.parse, String.toList_ofList] at parsed
  obtain ok := mapErrorOk parsed
  rw [ok] at read
  simpa [Except.toOption] using read

theorem dictionaryRepeatable : AllRepeatable stitchDictionary := by
  simp only [stitchDictionary]
  repeat
    apply repeatableCons
    case written =>
      repeat' apply writtenAppend
      all_goals rfl
    case read => decide +kernel
  exact List.forall_mem_nil _

theorem builtinRepeatable {start : Registry} (ok : builtin = .ok start) {t : Template}
    (found : start.find? name = some t) : t.Repeatable ∧ t.Closed := by
  rw [builtinFind ok] at found
  obtain ⟨raw, listed, parsed⟩ := Option.bind_eq_some_iff.mp found
  have read : Template.parse name raw = .ok t := by
    cases shape : Template.parse name raw with
    | error fault => rw [shape] at parsed; cases parsed
    | ok other => rw [shape] at parsed; cases parsed; rfl
  obtain ⟨before, after, same, _⟩ := List.lookup_eq_some_iff.mp listed
  have member : (name, raw) ∈ stitchDictionary := by
    rw [← List.mem_reverse, same]
    simp
  exact ⟨dictionaryRepeatable _ member t read, Template.closedParse read⟩

end Registry
end Crochet
