import Crochet.Proofs.Template.Naming

/-! When the nodes of a variant have names of their own. The number of a copy is written right behind a
name, so a numbered name may be the one of a node that keeps its name, and two names meet where one of
them is the other with a number behind it and there are copies enough. -/
namespace Crochet

theorem digitsFront {i j : Nat} {w : List Char} (some : w ≠ [])
    (same : Nat.toDigits 10 i = w ++ Nat.toDigits 10 j) :
    ∃ n, 0 < n ∧ 10 * n ≤ i ∧ w = Nat.toDigits 10 n := by
  have large : 10 ≤ i := by
    apply Nat.le_of_not_lt
    intro small
    have size := congrArg List.length same
    have front := List.length_pos_iff.mpr some
    have back := @Nat.length_toDigits_pos 10 j
    rw [Nat.toDigits_of_lt_base small, List.length_append, List.length_singleton] at size
    omega
  induction j using Nat.strongRecOn generalizing i with
  | ind j ih =>
    rw [Nat.toDigits_of_base_le (by decide) large] at same
    by_cases single : j < 10
    · rw [Nat.toDigits_of_lt_base single] at same
      exact ⟨i / 10, by omega, by omega, (List.append_inj' same rfl).1.symm⟩
    · have more : 10 ≤ j := Nat.le_of_not_lt single
      rw [Nat.toDigits_of_base_le (by decide) more, ← List.append_assoc] at same
      have shorter := (List.append_inj' same rfl).1
      have front := List.length_pos_iff.mpr some
      have back := @Nat.length_toDigits_pos 10 (j / 10)
      have large : 10 ≤ i / 10 := by
        apply Nat.le_of_not_lt
        intro small
        have size := congrArg List.length shorter
        rw [Nat.toDigits_of_lt_base small, List.length_append, List.length_singleton] at size
        omega
      obtain ⟨n, positive, below, shown⟩ := ih (j / 10) (by omega) shorter large
      exact ⟨n, positive, by omega, shown⟩

namespace Template

theorem suffixedText (name : String) (copy : Nat) :
    (suffixed name copy).toList = name.toList ++ Nat.toDigits 10 copy := by
  simp [suffixed, toString, String.toList_append, Nat.toList_repr]

variable {x y name : String} {i j : Nat} {t : Template}

/- Two numbered names are the same where one name goes on into the number of the other. -/
theorem suffixedMeet (same : suffixed x i = suffixed y j) :
    x = y ∧ i = j ∨ (∃ n, 0 < n ∧ 10 * n ≤ i ∧ suffixed x n = y) ∨
      ∃ n, 0 < n ∧ 10 * n ≤ j ∧ suffixed y n = x := by
  have longer {x y : String} {i j : Nat} {w : List Char} (text : y.toList = x.toList ++ w)
      (digits : Nat.toDigits 10 i = w ++ Nat.toDigits 10 j) :
      x = y ∧ i = j ∨ ∃ n, 0 < n ∧ 10 * n ≤ i ∧ suffixed x n = y := by
    by_cases none : w = []
    · subst none
      rw [List.append_nil] at text
      exact .inl ⟨String.toList_inj.mp text.symm, digitsInj digits⟩
    · obtain ⟨n, positive, below, rfl⟩ := digitsFront none digits
      refine .inr ⟨n, positive, below, String.toList_inj.mp ?_⟩
      rw [suffixedText, text]
  have texts := congrArg String.toList same
  rw [suffixedText, suffixedText] at texts
  rcases List.append_eq_append_iff.mp texts with ⟨w, text, digits⟩ | ⟨w, text, digits⟩
  · rcases longer text digits with equal | clash
    · exact .inl equal
    · exact .inr (.inl clash)
  · rcases longer text digits with ⟨rfl, rfl⟩ | clash
    · exact .inl ⟨rfl, rfl⟩
    · exact .inr (.inr clash)

theorem suffixedTen (x : String) {n : Nat} (positive : 0 < n) :
    suffixed x (10 * n) = suffixed (suffixed x n) 0 := by
  have digits := @Nat.toDigits_append_toDigits 10 n 0 (by decide) positive (by decide)
  rw [← String.toList_inj, suffixedText, suffixedText, suffixedText, List.append_assoc, digits,
    Nat.add_zero]

def spread (kept names : List String) (count : Nat) : List String :=
  kept ++ (List.range count).flatMap fun copy => names.map (suffixed · copy)

structure Apart (kept names : List String) (count : Nat) : Prop where
  kept : ∀ x ∈ names, ∀ copy < count, suffixed x copy ∉ kept
  numbered : ∀ x ∈ names, ∀ n, 0 < n → 10 * n < count → suffixed x n ∉ names

instance (kept names : List String) (count : Nat) : Decidable (Apart kept names count) :=
  decidable_of_iff ((∀ x ∈ names, ∀ copy < count, suffixed x copy ∉ kept) ∧
      ∀ x ∈ names, ∀ n < count, 0 < n → 10 * n < count → suffixed x n ∉ names)
    ⟨fun ⟨kept, numbered⟩ => ⟨kept, fun x member n positive few =>
        numbered x member n (by omega) positive few⟩,
      fun ⟨kept, numbered⟩ => ⟨kept, fun x member n _ => numbered x member n⟩⟩

section
variable {kept names : List String} {count : Nat}

theorem Apart.inj (apart : Apart kept names count) (left : x ∈ names) (right : y ∈ names)
    (first : i < count) (second : j < count) (same : suffixed x i = suffixed y j) :
    x = y ∧ i = j := by
  rcases suffixedMeet same with equal | ⟨n, positive, below, rfl⟩ | ⟨n, positive, below, rfl⟩
  · exact equal
  · exact absurd right (apart.numbered x left n positive (by omega))
  · exact absurd left (apart.numbered y right n positive (by omega))

theorem spreadMember {copy : Nat} (member : x ∈ names) (made : copy < count) :
    suffixed x copy ∈ (List.range count).flatMap fun copy => names.map (suffixed · copy) :=
  List.mem_flatMap.mpr ⟨copy, List.mem_range.mpr made, List.mem_map_of_mem member⟩

theorem copiesOnce
    (once : ((List.range count).flatMap fun copy => names.map (suffixed · copy)).Nodup)
    (left : x ∈ names) (right : y ∈ names) (later : i < j) (last : j < count) :
    suffixed y j ≠ suffixed x i := by
  intro same
  have pairs := List.pairwise_iff_getElem.mp (List.nodup_flatMap.mp once).2 i j (by simp; omega)
    (by simpa using last) later
  simp only [List.getElem_range] at pairs
  exact pairs (List.mem_map_of_mem left) (same ▸ List.mem_map_of_mem right)

theorem spreadNodup (distinct : (kept ++ names).Nodup) :
    (spread kept names count).Nodup ↔ Apart kept names count := by
  obtain ⟨own, others, _⟩ := List.nodup_append.mp distinct
  constructor
  · intro once
    obtain ⟨_, copied, clear⟩ := List.nodup_append.mp once
    constructor
    · intro x member copy made inside
      exact clear _ inside _ (spreadMember member made) rfl
    · -- ten times the number is the copy of the shorter name that meets the first of the longer
      intro x member n positive few inside
      exact copiesOnce copied inside member (by omega) few (suffixedTen x positive)
  · intro apart
    refine List.nodup_append.mpr ⟨own, List.nodup_flatMap.mpr ⟨?_, ?_⟩, ?_⟩
    · intro copy made
      have made := List.mem_range.mp made
      exact others.map_on fun x left y right same => (apart.inj left right made made same).1
    · refine List.Pairwise.imp_of_mem ?_ List.nodup_range
      intro i j first second differ name left right
      obtain ⟨x, inLeft, rfl⟩ := List.mem_map.mp left
      obtain ⟨y, inRight, same⟩ := List.mem_map.mp right
      exact differ (apart.inj inRight inLeft (List.mem_range.mp second) (List.mem_range.mp first)
        same).2.symm
    · rintro name inside _ copied rfl
      obtain ⟨copy, made, among⟩ := List.mem_flatMap.mp copied
      obtain ⟨x, member, rfl⟩ := List.mem_map.mp among
      exact apart.kept x member copy (List.mem_range.mp made) inside

end

def keptNames (t : Template) : VariantKind → List String
  | .together => t.tops.map (·.name)
  | .increase => t.bottoms.map (·.name)

def numberedNames (t : Template) : VariantKind → List String
  | .together => t.bottoms.map (·.name) ++ t.hidden.map (·.name)
  | .increase => t.tops.map (·.name) ++ t.hidden.map (·.name)

theorem namesParted (t : Template) (kind : VariantKind) :
    t.nodeNames.Perm (t.keptNames kind ++ t.numberedNames kind) := by
  cases kind with
  | together => exact .refl _
  | increase =>
    simp only [nodeNames, keptNames, numberedNames, ← List.append_assoc]
    exact List.perm_append_comm.append_right _

variable {count : Nat}

theorem togetherNames {base : Template} (parts : Together base count t) :
    t.nodeNames.Perm (spread (base.keptNames .together) (base.numberedNames .together) count) := by
  have both := List.flatMap_append_perm (List.range count)
    (fun copy => (base.bottoms.map (·.name)).map (suffixed · copy))
    (fun copy => (base.hidden.map (·.name)).map (suffixed · copy))
  simp only [← List.map_append] at both
  refine List.Perm.trans ?_ (both.append_left _)
  rw [nodeNames, parts.tops, parts.bottoms, parts.hidden]
  simp [copies, keptNames, List.map_flatMap, Function.comp_def]

def variantEnd (base : Template) : VariantKind → Nat → Endpoint → Endpoint
  | .together => togetherEnd (base.tops.head?.map (·.name))
  | .increase => increaseEnd (base.bottoms.head?.map (·.name)) (base.tops.getLast?.map (·.name))

structure Variant (base : Template) (kind : VariantKind) (count : Nat) (t : Template) : Prop where
  single : ¬ 1 < (base.keptNames kind).length
  names : t.nodeNames.Perm (spread (base.keptNames kind) (base.numberedNames kind) count)
  connections : t.connections = (copies count fun copy => base.connections.map fun c =>
    { c with
      tail := base.variantEnd kind copy c.tail
      head := base.variantEnd kind copy c.head }).foldl addNew []

theorem variantParts {base : Template} {kind : VariantKind}
    (made : base.derive name count kind = .ok t) : Variant base kind count t := by
  unfold derive at made
  split at made
  · cases made
  cases kind with
  | together =>
    have parts := togetherParts made
    exact ⟨by simpa [keptNames] using parts.oneTop, togetherNames parts, parts.connections⟩
  | increase =>
    have parts := increaseParts made
    exact ⟨by simpa [keptNames] using parts.oneBottom, increasedNames parts, parts.connections⟩

inductive VariantNode where
  | previous
  | kept (name : String)
  | numbered (name : String) (copy : Nat)
  deriving DecidableEq, Repr

namespace VariantNode

def endpoint : VariantNode → Endpoint
  | previous => .previous
  | kept name => .node name
  | numbered name copy => .node (suffixed name copy)

inductive Of (kept names : List String) (count : Nat) : VariantNode → Prop where
  | previous : Of kept names count .previous
  | kept {name : String} (member : name ∈ kept) : Of kept names count (.kept name)
  | numbered {name : String} {copy : Nat} (member : name ∈ names) (made : copy < count) :
      Of kept names count (.numbered name copy)

theorem endpointInj {kept names : List String} {count : Nat} (apart : Apart kept names count)
    {m n : VariantNode} (left : Of kept names count m) (right : Of kept names count n)
    (same : m.endpoint = n.endpoint) : m = n := by
  cases left with
  | previous => cases right <;> first | rfl | cases same
  | kept own =>
    cases right with
    | previous => cases same
    | kept _ => rw [Endpoint.node.inj same]
    | numbered member made => exact absurd (Endpoint.node.inj same ▸ own) (apart.kept _ member _ made)
  | numbered own copied =>
    cases right with
    | previous => cases same
    | kept member => exact absurd (Endpoint.node.inj same ▸ member) (apart.kept _ own _ copied)
    | numbered member made =>
      obtain ⟨rfl, rfl⟩ := apart.inj own member copied made (Endpoint.node.inj same)
      rfl

end VariantNode

def variantNode (base : Template) (kind : VariantKind) (copy : Nat) : Endpoint → VariantNode
  | .previous => match kind, base.tops.getLast?, copy with
    | .increase, some last, copy + 1 => .numbered last.name copy
    | _, _, _ => .previous
  | .node name => if name ∈ base.keptNames kind then .kept name else .numbered name copy

theorem onlyName {xs : List α} {key : α → String} (one : ¬ 1 < (xs.map key).length) (name : String) :
    some name = xs.head?.map key ↔ name ∈ xs.map key := by
  cases xs with
  | nil => simp
  | cons x rest =>
    cases rest with
    | nil => simp
    | cons y rest => simp at one

section
variable {base : Template} {kind : VariantKind} {copy : Nat}

theorem variantEndpoint (single : ¬ 1 < (base.keptNames kind).length) (e : Endpoint) :
    base.variantEnd kind copy e = (base.variantNode kind copy e).endpoint := by
  cases kind with
  | together =>
    cases e with
    | previous => rfl
    | node name =>
      have owner : some name = base.tops.head?.map (·.name) ↔ name ∈ base.keptNames .together :=
        onlyName single name
      by_cases own : name ∈ base.keptNames .together
      · simp only [variantEnd, togetherEnd, variantNode, owner, own, if_true]
        rfl
      · simp only [variantEnd, togetherEnd, variantNode, owner, own, if_false]
        rfl
  | increase =>
    cases e with
    | previous =>
      simp only [variantEnd, increaseEnd, variantNode]
      cases base.tops.getLast? with
      | none => rfl
      | some last => cases copy <;> rfl
    | node name =>
      have owner : some name = base.bottoms.head?.map (·.name) ↔ name ∈ base.keptNames .increase :=
        onlyName single name
      by_cases own : name ∈ base.keptNames .increase
      · simp only [variantEnd, increaseEnd, variantNode, owner, own, if_true]
        rfl
      · simp only [variantEnd, increaseEnd, variantNode, owner, own, if_false]
        rfl

theorem variantNodeOf (made : copy < count) {e : Endpoint} (has : base.HasEnd e) :
    (base.variantNode kind copy e).Of (base.keptNames kind) (base.numberedNames kind) count := by
  cases e with
  | previous =>
    unfold variantNode
    simp only
    split
    · rename_i last before found
      refine .numbered (List.mem_append_left _ ?_) (by omega)
      exact List.mem_map_of_mem (List.mem_of_getLast? found)
    · exact .previous
  | node name =>
    have listed := (namesParted base kind).mem_iff.mp (namesListed.mp has)
    simp only [variantNode]
    split
    · rename_i own
      exact .kept own
    · rename_i other
      exact .numbered ((List.mem_append.mp listed).resolve_left other) made

end

structure Identified (t : Template) : Prop where
  tops : ∀ k n, t.tops[k]? = some n → t.role n.name = some .top ∧ t.topIndex? n.name = some k
  bottoms : ∀ k n, t.bottoms[k]? = some n →
    t.role n.name = some .bottom ∧ t.bottomIndex? n.name = some k
  hidden : ∀ n ∈ t.hidden, t.role n.name = some .hidden

theorem identifiedOf (distinct : t.nodeNames.Nodup) : t.Identified := by
  obtain ⟨tops, rest, _⟩ := List.nodup_append.mp distinct
  have bottoms := (List.nodup_append.mp rest).1
  refine ⟨?_, ?_, fun n => hiddenRole distinct⟩
  · exact fun k n here => ⟨topRole (List.mem_of_getElem? here), indexOfKey tops here⟩
  · exact fun k n here => ⟨bottomRole distinct (List.mem_of_getElem? here), indexOfKey bottoms here⟩

/- What names of their own are for: a node is found by its name, and of two connections one is
dropped only where both run between the same nodes. -/
structure Faithful (base : Template) (kind : VariantKind) (count : Nat) (t : Template) : Prop where
  identified : t.Identified
  connections : t.connections = (copies count fun copy => base.connections.map fun c =>
    { c with
      tail := base.variantEnd kind copy c.tail
      head := base.variantEnd kind copy c.head }).foldl addNew []
  merged : ∀ i < count, ∀ j < count, ∀ e other, base.HasEnd e → base.HasEnd other →
    base.variantEnd kind i e = base.variantEnd kind j other →
      base.variantNode kind i e = base.variantNode kind j other

theorem variantNamesIff {base t : Template} {name : String} {count : Nat} {kind : VariantKind}
    (distinct : base.nodeNames.Nodup) (made : base.derive name count kind = .ok t) :
    (t.nodeNames.Nodup ↔ Apart (base.keptNames kind) (base.numberedNames kind) count) ∧
      (t.nodeNames.Nodup → Faithful base kind count t) := by
  have parts := variantParts made
  have apart : t.nodeNames.Nodup ↔ Apart (base.keptNames kind) (base.numberedNames kind) count :=
    parts.names.nodup_iff.trans (spreadNodup ((namesParted base kind).nodup_iff.mp distinct))
  refine ⟨apart, fun once => ⟨identifiedOf once, parts.connections, ?_⟩⟩
  intro i first j second e other left right same
  rw [variantEndpoint parts.single, variantEndpoint parts.single] at same
  exact VariantNode.endpointInj (apart.mp once) (variantNodeOf first left)
    (variantNodeOf second right) same

theorem variantNamesNumbered : ∃ base t,
    parse "x" "&x^A(x):B~A-B:B2:!-1-A;B-1-A;B2-2-A" = .ok base ∧ base.nodeNames.Nodup ∧
    base.derive "x20tog" 20 .together = .ok t ∧ t.nodeNames.Nodup ∧
    (t.nodeNames.Nodup ↔ Apart (base.keptNames .together) (base.numberedNames .together) 20) ∧
    (t.nodeNames.Nodup → Faithful base .together 20 t) := by
  have runs : (parse "x" "&x^A(x):B~A-B:B2:!-1-A;B-1-A;B2-2-A").toOption.any (fun base =>
      decide base.nodeNames.Nodup && decide (Apart (base.keptNames .together)
        (base.numberedNames .together) 20) && (base.derive "x20tog" 20 .together).isOk) = true := by
    decide +kernel
  obtain ⟨base, read, good⟩ := testOk runs
  simp only [Bool.and_eq_true, decide_eq_true_eq] at good
  obtain ⟨⟨distinct, apart⟩, ok⟩ := good
  obtain ⟨t, made⟩ := someOk ok
  have result := variantNamesIff distinct made
  exact ⟨base, t, read, distinct, made, result.1.mpr apart, result⟩

/- A spec with names of their own whose variant has a name twice. -/
def Meets (spec name : String) (count : Nat) (kind : VariantKind) : Prop := ∃ base t,
  parse "x" spec = .ok base ∧ base.nodeNames.Nodup ∧ base.derive name count kind = .ok t ∧
    ¬ t.nodeNames.Nodup

theorem meetsOf {spec : String} {kind : VariantKind} (runs : (do
      let base ← parse "x" spec
      let t ← base.derive name count kind
      return (base, t) : Except TemplateFault _).toOption.any (fun made =>
        decide made.1.nodeNames.Nodup && !decide made.2.nodeNames.Nodup) = true) :
    Meets spec name count kind := by
  obtain ⟨made, run, good⟩ := testOk runs
  obtain ⟨base, read, run⟩ := bindOk run
  obtain ⟨t, derived, run⟩ := bindOk run
  cases pureOk run
  simp only [Bool.and_eq_true, decide_eq_true_eq, Bool.not_eq_true', decide_eq_false_iff_not] at good
  exact ⟨base, t, read, good.1, derived, good.2⟩

/- A top named like the first copy of the bottom, and the other way round; a hidden node named like a
bottom with a number, and one copy more than can be. -/
theorem variantNamesMeet : Meets "&x^B0(x):B::!-1-B0;!-2-B" "x1tog" 1 .together ∧
    Meets "&x^A(x):A0~A-A0::!-1-A;A0-1-A" "x2inc" 2 .increase ∧
    Meets "&x^A(x):B~A-B:B2:!-1-A;B-1-A;B2-2-A" "x21tog" 21 .together :=
  ⟨meetsOf (by decide +kernel), meetsOf (by decide +kernel), meetsOf (by decide +kernel)⟩

end Template
end Crochet
