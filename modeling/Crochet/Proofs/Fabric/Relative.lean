import Crochet.Proofs.Fabric.Settled

/-! Addresses counted from the place of work. They stay on the side of it that they name unless they
overrun: without a sub-type a step back past the start of the row comes in again at its end, and with
a sub-type a step that has no top to go to on its side goes to one on the other, as does one so long
that the position is no signed word. -/
namespace Crochet
namespace Fabric

def line (f : Fabric) (row : Nat) (tag : Option String) : List Nat :=
  if f.direction row < 0 then (f.taggedIds row tag).reverse else f.taggedIds row tag

def Before (f : Fabric) (row a b : Nat) : Prop := if f.direction row < 0 then b < a else a < b

def counting? (tag : Option String) (top : Nat × TopNode) : Option Nat :=
  if tag.isNone || tag == some top.2.tag then some top.1 else none

theorem countingSublist (tag : Option String) (tops : List (Nat × TopNode)) :
    (tops.filterMap (counting? tag)).Sublist (tops.map Prod.fst) := by
  induction tops with
  | nil => exact .slnil
  | cons top rest ih =>
    unfold counting? at ih ⊢
    rw [List.filterMap_cons]
    split
    · exact ih.cons _
    · rename_i id found
      simp only [Option.ite_none_right_eq_some, Option.some.injEq] at found
      rw [← found.2]
      exact ih.cons_cons _

theorem taggedCounting (f : Fabric) (row : Nat) (tag : Option String) : f.taggedIds row tag =
    (f.inRow row).flatMap fun s => (s.tops.zip s.template.tops).filterMap (counting? tag) := rfl

variable {a b id i j : Nat} {tag : Option String} {s : Stitch}
variable {c : Nat} {f : Fabric}

section
variable {row : Nat}

theorem beforeAsymm (left : f.Before row a b) (right : f.Before row b a) : False := by
  by_cases back : f.direction row < 0
  all_goals
    simp only [Before, back, if_true, if_false] at left right
    omega

theorem beforeTrans (left : f.Before row a b) (right : f.Before row b c) :
    f.Before row a c := by
  by_cases back : f.direction row < 0
  all_goals
    simp only [Before, back, if_true, if_false] at left right ⊢
    omega

theorem notBefore : ¬ f.Before row a b ↔ a = b ∨ f.Before row b a := by
  by_cases back : f.direction row < 0
  all_goals
    simp only [Before, back, if_true, if_false]
    omega

theorem taggedInRow (counted : f.Counted) (tag : Option String) :
    (f.taggedIds row tag).Sublist (f.rowIds row) := by
  have inside (s : Stitch) (member : s ∈ f.inRow row) :
      ((s.tops.zip s.template.tops).filterMap (counting? tag)).Sublist s.tops := by
    have lengths := counted.tops s (List.mem_filter.mp member).1
    have firsts := countingSublist tag (s.tops.zip s.template.tops)
    rw [List.map_fst_zip (Nat.le_of_eq lengths)] at firsts
    exact firsts
  rw [taggedCounting]
  exact List.Sublist.flatMap_right _ inside

theorem taggedSublist (counted : f.Counted) (tag : Option String) :
    (f.taggedIds row tag).Sublist (f.stitches.flatMap Stitch.tops) :=
  (taggedInRow counted tag).trans (List.Sublist.flatMap List.filter_sublist _)

theorem lineShort (counted : f.Counted) (row : Nat) (tag : Option String) :
    (f.line row tag).length ≤ (f.rowIds row).length := by
  have same : (f.line row tag).length = (f.taggedIds row tag).length := by
    unfold line
    split
    · exact List.length_reverse
    · rfl
  rw [same]
  exact (taggedInRow counted tag).length_le

theorem lineAscends (counted : f.Counted) (tag : Option String) :
    (f.line row tag).Pairwise (f.Before row) := by
  have ascend : (f.taggedIds row tag).Pairwise (· < ·) := by
    refine List.Pairwise.sublist (taggedSublist counted tag) ?_
    rw [counted.ids]
    exact List.pairwise_lt_range'
  unfold line Before
  split
  · exact List.pairwise_reverse.mpr ascend
  · exact ascend

theorem memLine : id ∈ f.line row tag ↔ id ∈ f.taggedIds row tag := by
  unfold line
  split
  · exact List.mem_reverse
  · exact Iff.rfl

theorem lineOrder (counted : f.Counted) (before : i < j) (left : (f.line row tag)[i]? = some a)
    (right : (f.line row tag)[j]? = some b) :
    f.Before row a b := by
  obtain ⟨inLeft, rfl⟩ := List.getElem?_eq_some_iff.mp left
  obtain ⟨inRight, rfl⟩ := List.getElem?_eq_some_iff.mp right
  exact List.pairwise_iff_getElem.mp (lineAscends counted tag) i j inLeft inRight before

theorem tagMember {top : TopNode} (member : s ∈ f.stitches) (here : s.tops[i]? = some id)
    (node : s.template.tops[i]? = some top) (fits : tag = none ∨ tag = some top.tag) :
    id ∈ f.line s.row tag := by
  rw [memLine]
  refine List.mem_flatMap.mpr ⟨s, List.mem_filter.mpr ⟨member, by simp⟩, ?_⟩
  refine List.mem_filterMap.mpr ⟨(id, top), ?_, ?_⟩
  · exact List.mem_of_getElem? (List.getElem?_zip_eq_some.mpr ⟨here, node⟩)
  · rcases fits with rfl | rfl <;> simp

theorem startAt (counted : f.Counted) (row c : Nat) (tag : Option String) :
    (∃ p : Nat, relativeStart (f.line row tag) c (f.direction row) = p ∧ p < (f.line row tag).length ∧
      (∀ j id, p ≤ j → (f.line row tag)[j]? = some id → id = c ∨ f.Before row c id) ∧
      ∀ j id, j < p → (f.line row tag)[j]? = some id → f.Before row id c) ∨
    (relativeStart (f.line row tag) c (f.direction row) = -1 ∧
      ∀ id ∈ f.line row tag, f.Before row id c) := by
  have passed (other : Nat) :
      (if f.direction row < 0 then decide (other ≤ c) else decide (c ≤ other)) = false ↔
        f.Before row other c := by
    unfold Before
    split <;> simp
  unfold relativeStart
  simp only
  split
  · rename_i p found
    obtain ⟨bound, here, earlier⟩ := List.findIdx?_eq_some_iff_getElem.mp found
    have reached : (f.line row tag)[p] = c ∨ f.Before row c (f.line row tag)[p] := by
      rw [← notBefore, ← passed, here]
      simp
    refine .inl ⟨p, rfl, bound, ?_, ?_⟩
    · intro j id later there
      rcases Nat.eq_or_lt_of_le later with rfl | later
      · rw [List.getElem?_eq_getElem bound] at there
        cases there
        exact reached
      · have next := lineOrder counted later (List.getElem?_eq_getElem bound) there
        rcases reached with same | past
        · exact .inr (same ▸ next)
        · exact .inr (beforeTrans past next)
    · intro j id before there
      obtain ⟨inside, rfl⟩ := List.getElem?_eq_some_iff.mp there
      exact (passed _).mp (Bool.eq_false_iff.mpr (earlier j before))
  · rename_i none
    refine .inr ⟨rfl, ?_⟩
    intro id member
    exact (passed id).mp (List.findIdx?_eq_none_iff.mp none id member)

/- The position that an address counted from `c` comes to, before a negative one wraps. -/
def reckoned (f : Fabric) (row c : Nat) (tag : Option String) (offset : Int) : Int :=
  let steps := match tag with
    | none => offset
    | some tag =>
      if (f.owner? c).bind (·.topTag? c) != some tag && 0 < offset then offset - 1 else offset
  let reached := (Int64.ofInt (steps + relativeStart (f.line row tag) c (f.direction row))).toInt
  if tag.isSome && reached < 0 then 0 else reached

def wrapped (position : Int) (length : Nat) : Int :=
  if position < 0 then length + position else position

theorem findReckoned (c : Nat) (tag : Option String) (offset : Int) :
    f.findByPosition row offset (some c) (f.direction row) tag =
      if (f.line row tag).isEmpty then .error { cause := .place (.noStitchAt row offset tag) }
      else if wrapped (f.reckoned row c tag offset) (f.line row tag).length < 0 then
        .error { cause := .place (.noStitchAt row offset tag) }
      else match (f.line row tag)[(wrapped (f.reckoned row c tag offset)
          (f.line row tag).length).toNat]? with
        | some id => .ok id
        | none => .error { cause := .place (.noStitchAt row offset tag) } := rfl

theorem foundIff {offset : Int} :
    f.findByPosition row offset (some c) (f.direction row) tag = .ok id ↔
      ∃ j : Nat, (f.line row tag)[j]? = some id ∧
        wrapped (f.reckoned row c tag offset) (f.line row tag).length = j := by
  rw [findReckoned]
  generalize wrapped (f.reckoned row c tag offset) (f.line row tag).length = index
  constructor
  · intro found
    split at found
    · cases found
    split at found
    · cases found
    split at found
    · rename_i least _ id there
      cases found
      exact ⟨index.toNat, there, (Int.toNat_of_nonneg (Int.not_lt.mp least)).symm⟩
    · cases found
  · rintro ⟨j, there, rfl⟩
    have some : (f.line row tag).isEmpty = false := by
      rw [List.isEmpty_eq_false_iff]
      rintro none
      rw [none] at there
      cases there
    rw [some, if_neg Bool.false_ne_true, if_neg (by omega), Int.toNat_natCast, there]

theorem notFound {offset : Int} {fault : Fault}
    (failed : f.findByPosition row offset (some c) (f.direction row) tag = .error fault) :
    fault.kind = .addressNotFound := by
  rw [findReckoned] at failed
  split at failed
  · cases failed
    rfl
  split at failed
  · cases failed
    rfl
  split at failed
  · cases failed
  · cases failed
    rfl

end

structure Onward (f : Fabric) (row c : Nat) (tag : Option String) (offset : Int) (id : Nat) : Prop where
  member : id ∈ f.taggedIds row tag
  ahead : 0 ≤ offset → id = c ∨ f.Before row c id
  back : offset < 0 → id = c ∨ f.Before row id c
  away : tag = none → ∃ i j : Nat, (f.line row none)[i]? = some c ∧
    (f.line row none)[j]? = some id ∧ (j : Int) = i + offset

def WrapsRound (f : Fabric) (row c : Nat) (offset : Int) : Prop :=
  ∃ i : Nat, (f.line row none)[i]? = some c ∧ (i : Int) + offset < 0 ∧
    0 ≤ (f.line row none).length + (i + offset)

def stepsFrom (f : Fabric) (c : Nat) (tag : String) (offset : Int) : Int :=
  if (f.owner? c).bind (·.topTag? c) = some tag then offset else offset - 1

/- Of the tops of the sub-type the first `p` lie before the place of work and the next one does not,
and the position that many steps on is no signed word. -/
def Overflows (f : Fabric) (row c : Nat) (tag : String) (offset : Int) : Prop :=
  ∃ p id : Nat, (f.line row (some tag))[p]? = some id ∧ ¬ f.Before row id c ∧
    (∀ j other, j < p → (f.line row (some tag))[j]? = some other → f.Before row other c) ∧
    2 ^ 63 ≤ f.stepsFrom c tag offset + p

/- No top of the sub-type on the side asked for, or none that can be reached, and yet one is taken. -/
def TurnsBack (f : Fabric) (row c : Nat) (tag : String) (offset : Int) : Prop :=
  f.line row (some tag) ≠ [] ∧
    (0 ≤ offset ∧ offset < (f.line row (some tag)).length + 2 ∧
      (∀ id ∈ f.line row (some tag), f.Before row id c) ∨
    (offset < 0 ∧ ∀ id ∈ f.line row (some tag), f.Before row c id) ∨
    f.Overflows row c tag offset)

def Overruns (f : Fabric) (row c : Nat) (tag : Option String) (offset : Int) : Prop :=
  match tag with
  | none => f.WrapsRound row c offset
  | some tag => f.TurnsBack row c tag offset

section
variable {row : Nat} {offset : Int}

theorem wordCases (position : Int) (low : -2 ^ 64 ≤ position) (high : position < 2 ^ 64) :
    -2 ^ 63 ≤ position ∧ position < 2 ^ 63 ∧ (Int64.ofInt position).toInt = position ∨
    position < -2 ^ 63 ∧ (Int64.ofInt position).toInt = position + 2 ^ 64 ∨
    2 ^ 63 ≤ position ∧ (Int64.ofInt position).toInt = position - 2 ^ 64 := by
  have size : Int64.size = 2 ^ 64 := rfl
  rw [Int64.toInt_ofInt, size, Int.bmod_def]
  omega

theorem lineOnce (counted : f.Counted) (left : (f.line row tag)[i]? = some c)
    (right : (f.line row tag)[j]? = some c) : i = j := by
  rcases Nat.lt_trichotomy i j with before | same | after
  · have order := lineOrder counted before left right
    exact (beforeAsymm order order).elim
  · exact same
  · have order := lineOrder counted after right left
    exact (beforeAsymm order order).elim

theorem startIs (counted : f.Counted) {p : Nat} (there : (f.line row tag)[p]? = some id)
    (reached : ¬ f.Before row id c)
    (earlier : ∀ j other, j < p → (f.line row tag)[j]? = some other → f.Before row other c) :
    relativeStart (f.line row tag) c (f.direction row) = p := by
  rcases startAt counted row c tag with ⟨q, start, bound, later, before⟩ | ⟨_, all⟩
  · rcases Nat.lt_trichotomy q p with less | rfl | more
    · have place := List.getElem?_eq_getElem bound
      have order := earlier q _ less place
      rcases later q _ (Nat.le_refl q) place with same | past
      · rw [same] at order
        exact (beforeAsymm order order).elim
      · exact (beforeAsymm order past).elim
    · exact start
    · exact absurd (before p id more there) reached
  · exact absurd (all id (List.mem_of_getElem? there)) reached

theorem untypedReckoned (counted : f.Counted) (here : (f.line row none)[i]? = some c) :
    f.reckoned row c none offset = (Int64.ofInt (offset + i)).toInt := by
  have start : relativeStart (f.line row none) c (f.direction row) = i :=
    startIs counted here (fun order => beforeAsymm order order)
      fun _ _ before there => lineOrder counted before there here
  unfold reckoned
  simp only [start, Option.isSome_none, Bool.false_and, Bool.false_eq_true, if_false]

section
variable (counted : f.Counted) (short : (f.rowIds row).length < 2 ^ 60) (low : -2 ^ 63 ≤ offset)
  (high : offset < 2 ^ 63)
include counted short low high

theorem untypedOnward (here : (f.line row none)[i]? = some c) :
    (∀ id, f.findByPosition row offset (some c) (f.direction row) none = .ok id →
      f.Onward row c none offset id) ↔ ¬ f.WrapsRound row c offset := by
  have length := lineShort counted row none
  have place := (List.getElem?_eq_some_iff.mp here).1
  have word := wordCases (offset + i) (by omega) (by omega)
  simp only [foundIff, untypedReckoned counted here]
  constructor
  · rintro onward ⟨k, same, back, least⟩
    cases lineOnce counted here same
    have bound : ((f.line row none).length + (i + offset)).toNat < (f.line row none).length := by
      omega
    obtain ⟨k, j, start, there, distance⟩ := (onward _ ⟨_, List.getElem?_eq_getElem bound, by
      unfold wrapped
      split <;> omega⟩).away rfl
    cases lineOnce counted here start
    omega
  · rintro within id ⟨j, there, place⟩
    unfold wrapped at place
    have distance : (j : Int) = i + offset := by
      by_cases back : i + offset < 0
      · exact absurd ⟨i, here, back, by split at place <;> omega⟩ within
      · split at place <;> omega
    refine ⟨memLine.mp (List.mem_of_getElem? there), ?_, ?_, fun _ => ⟨i, j, here, there, distance⟩⟩
    · intro ahead
      rcases Nat.eq_or_lt_of_le (show i ≤ j by omega) with rfl | past
      · exact .inl (Option.some.inj (there.symm.trans here))
      · exact .inr (lineOrder counted past here there)
    · intro back
      exact .inr (lineOrder counted (show j < i by omega) there here)

end

theorem typedReckoned (f : Fabric) (row c : Nat) (tag : String) (offset : Int) : ∃ steps : Int,
    (steps = offset ∨ 0 < offset ∧ steps = offset - 1) ∧
    (0 < offset → steps = f.stepsFrom c tag offset) ∧
    wrapped (f.reckoned row c (some tag) offset) (f.line row (some tag)).length = max 0
      (Int64.ofInt (steps + relativeStart (f.line row (some tag)) c (f.direction row))).toInt := by
  have clamped (reached : Int) (length : Nat) :
      wrapped (if (some tag).isSome && reached < 0 then 0 else reached) length = max 0 reached := by
    by_cases low : reached < 0
    · simp [wrapped, low, Int.max_eq_left (Int.le_of_lt low)]
    · simp [wrapped, low, Int.max_eq_right (Int.not_lt.mp low)]
  refine ⟨_, ?_, ?_, clamped _ _⟩
  · simp only
    split
    · rename_i onward
      exact .inr ⟨of_decide_eq_true (Bool.and_eq_true_iff.mp onward).2, rfl⟩
    · exact .inl rfl
  · intro ahead
    simp [stepsFrom, ahead, ite_not]

theorem noneAhead (counted : f.Counted) (passed : ∀ id ∈ f.line row tag, f.Before row id c) :
    relativeStart (f.line row tag) c (f.direction row) = -1 := by
  rcases startAt counted row c tag with ⟨p, _, bound, later, _⟩ | ⟨start, _⟩
  · have there := List.getElem?_eq_getElem bound
    have before := passed _ (List.mem_of_getElem? there)
    rcases later p _ (Nat.le_refl p) there with same | past
    · rw [same] at before
      exact (beforeAsymm before before).elim
    · exact (beforeAsymm before past).elim
  · exact start

theorem noneBack (counted : f.Counted) (first : (f.line row tag)[0]? = some id)
    (past : f.Before row c id) :
    relativeStart (f.line row tag) c (f.direction row) = 0 :=
  startIs counted first (fun order => beforeAsymm past order)
    fun j _ none => absurd none (Nat.not_lt_zero j)

theorem stepsFromLe (f : Fabric) (c : Nat) (tag : String) (offset : Int) :
    f.stepsFrom c tag offset ≤ offset := by
  unfold stepsFrom
  split <;> omega

section
variable (counted : f.Counted) (short : (f.rowIds row).length < 2 ^ 60) (low : -2 ^ 63 ≤ offset)
  (high : offset < 2 ^ 63) {tag : String}
include counted short low high

theorem turnsBackTaken (tagged : (f.owner? c).bind (·.topTag? c) = some tag →
      c ∈ f.line row (some tag)) (turns : f.TurnsBack row c tag offset) :
    ∃ id, f.findByPosition row offset (some c) (f.direction row) (some tag) = .ok id ∧
      (0 ≤ offset ∧ f.Before row id c ∨ offset < 0 ∧ f.Before row c id) := by
  obtain ⟨steps, few, more, place⟩ := f.typedReckoned row c tag offset
  have length := lineShort counted row (some tag)
  simp only [foundIff, place]
  obtain ⟨some, ⟨ahead, near, passed⟩ | ⟨back, coming⟩ | ⟨p, id, there, reached, earlier, far⟩⟩ := turns
  · have apart : (f.owner? c).bind (·.topTag? c) ≠ .some tag := by
      intro same
      have order := passed c (tagged same)
      exact beforeAsymm order order
    have one : 0 < offset → steps = offset - 1 := fun onward => (more onward).trans (if_neg apart)
    have some := List.length_pos_iff.mpr some
    have bound : (max 0 (steps + -1)).toNat < (f.line row (.some tag)).length := by omega
    have there := List.getElem?_eq_getElem bound
    have word := wordCases (steps + -1) (by omega) (by omega)
    refine ⟨_, ⟨_, there, ?_⟩, .inl ⟨ahead, passed _ (List.mem_of_getElem? there)⟩⟩
    rw [noneAhead counted passed]
    omega
  · have there := List.getElem?_eq_getElem (List.length_pos_iff.mpr some)
    have order := coming _ (List.mem_of_getElem? there)
    have word := wordCases (steps + 0) (by omega) (by omega)
    refine ⟨_, ⟨0, there, ?_⟩, .inr ⟨back, order⟩⟩
    rw [noneBack counted there order]
    omega
  · have first := List.getElem?_eq_getElem (List.length_pos_iff.mpr some)
    have bound := (List.getElem?_eq_some_iff.mp there).1
    have least := f.stepsFromLe c tag offset
    have word := wordCases (steps + p) (by omega) (by omega)
    have same := more (by omega)
    refine ⟨_, ⟨0, first, ?_⟩, .inl ⟨by omega, earlier 0 _ (by omega) first⟩⟩
    rw [startIs counted there reached earlier]
    omega

theorem typedAhead (within : ¬ f.TurnsBack row c tag offset) (ahead : 0 ≤ offset)
    (found : f.findByPosition row offset (some c) (f.direction row) (some tag) = .ok id) :
    id = c ∨ f.Before row c id := by
  obtain ⟨steps, few, more, place⟩ := f.typedReckoned row c tag offset
  have length := lineShort counted row (some tag)
  rw [foundIff, place] at found
  obtain ⟨j, there, reached⟩ := found
  have inside := (List.getElem?_eq_some_iff.mp there).1
  have some := List.ne_nil_of_mem (List.mem_of_getElem? there)
  rcases startAt counted row c (.some tag) with ⟨p, start, bound, later, earlier⟩ | ⟨start, passed⟩
  · have word := wordCases (steps + p) (by omega) (by omega)
    have near : steps + p < 2 ^ 63 := by
      by_contra far
      have next := List.getElem?_eq_getElem bound
      refine within ⟨some, .inr (.inr ⟨p, _, next, ?_, earlier, ?_⟩)⟩
      · exact notBefore.mpr (later p _ (Nat.le_refl p) next)
      · rw [← more (by omega)]
        omega
    rw [start] at reached
    exact later j id (by omega) there
  · have word := wordCases (steps + -1) (by omega) (by omega)
    rw [start] at reached
    exact absurd ⟨some, .inl ⟨ahead, by omega, passed⟩⟩ within

theorem typedBack (within : ¬ f.TurnsBack row c tag offset) (back : offset < 0)
    (found : f.findByPosition row offset (some c) (f.direction row) (some tag) = .ok id) :
    id = c ∨ f.Before row id c := by
  obtain ⟨steps, few, _, place⟩ := f.typedReckoned row c tag offset
  have length := lineShort counted row (some tag)
  rw [foundIff, place] at found
  obtain ⟨j, there, reached⟩ := found
  have member := List.mem_of_getElem? there
  rcases startAt counted row c (.some tag) with ⟨p, start, _, later, earlier⟩ | ⟨_, passed⟩
  · by_cases before : j < p
    · exact .inr (earlier j id before there)
    rcases later j id (Nat.not_lt.mp before) there with same | past
    · exact .inl same
    -- the first top of the line is taken, and it lies past the place of work
    · have word := wordCases (steps + p) (by omega) (by omega)
      rw [start] at reached
      have first : j = 0 := by omega
      subst first
      refine absurd ⟨List.ne_nil_of_mem member, .inr (.inl ⟨back, ?_⟩)⟩ within
      intro next member
      obtain ⟨k, place⟩ := List.mem_iff_getElem?.mp member
      rcases Nat.eq_zero_or_pos k with rfl | later
      · cases there.symm.trans place
        exact past
      · exact beforeTrans past (lineOrder counted later there place)
  · exact .inr (passed id member)

theorem typedOnward (tagged : (f.owner? c).bind (·.topTag? c) = some tag →
      c ∈ f.line row (some tag)) :
    (∀ id, f.findByPosition row offset (some c) (f.direction row) (some tag) = .ok id →
      f.Onward row c (some tag) offset id) ↔ ¬ f.TurnsBack row c tag offset := by
  constructor
  · intro onward turns
    obtain ⟨id, found, side⟩ := turnsBackTaken counted short low high tagged turns
    have taken := onward id found
    rcases side with ⟨ahead, order⟩ | ⟨back, order⟩
    · rcases taken.ahead ahead with rfl | past
      · exact beforeAsymm order order
      · exact beforeAsymm order past
    · rcases taken.back back with rfl | before
      · exact beforeAsymm order order
      · exact beforeAsymm order before
  · intro within id found
    obtain ⟨_, there, _⟩ := foundIff.mp found
    exact ⟨memLine.mp (List.mem_of_getElem? there),
      fun ahead => typedAhead counted short low high within ahead found,
      fun back => typedBack counted short low high within back found,
      fun untyped => by cases untyped⟩

end
end

theorem ownerTagged (counted : f.Counted) (owner : f.owner? c = some s) :
    c ∈ f.line s.row none ∧ ∀ tag, s.topTag? c = some tag → c ∈ f.line s.row (some tag) := by
  obtain ⟨⟨j, place⟩, top⟩ := counted.ownerTop owner
  have member := List.mem_of_getElem? place
  constructor
  · obtain ⟨i, bound, here⟩ := List.mem_iff_getElem.mp top
    have lengths := counted.tops s member
    exact tagMember member (List.getElem?_eq_some_iff.mpr ⟨bound, here⟩)
      (List.getElem?_eq_getElem (lengths ▸ bound)) (.inl rfl)
  · intro tag named
    obtain ⟨node, found, rfl⟩ := Option.map_eq_some_iff.mp named
    obtain ⟨i, index, node⟩ := Option.bind_eq_some_iff.mp found
    exact tagMember member ((counted.run member).topIndex.mp index) node (.inr rfl)

theorem relativeOnward (counted : f.Counted) (owner : f.owner? c = some s) (tag : Option String)
    {offset : Int} (low : -2 ^ 63 ≤ offset) (high : offset < 2 ^ 63)
    (short : (f.rowIds s.row).length < 2 ^ 60) :
    (∀ id, f.findByPosition s.row offset (some c) (f.direction s.row) tag = .ok id →
      f.Onward s.row c tag offset id) ↔ ¬ f.Overruns s.row c tag offset := by
  obtain ⟨inRow, tagged⟩ := ownerTagged counted owner
  cases tag with
  | none =>
    obtain ⟨i, here⟩ := List.mem_iff_getElem?.mp inRow
    exact untypedOnward counted short low high here
  | some tag =>
    refine typedOnward counted short low high ?_
    rw [owner]
    exact tagged tag

theorem taggedBelow (counted : f.Counted) {row : Nat} (member : id ∈ f.taggedIds row tag) :
    id < f.nextId := by
  have inside := (taggedSublist counted tag).subset member
  rw [counted.ids, List.mem_range'_1] at inside
  have order := counted.firstLeNext
  omega

end Fabric

namespace Work

variable {w : Work} {item : Row.Item} {kind : Option String}

theorem locatesRelative {offset : Int} {c : Nat} {s : Stitch}
    (target : item.attached.attachment.target = .relative kind offset) (here : w.position.toInt = c)
    (owner : w.fabric.owner? c = some s) :
    w.locate item = ((w.fabric.findByPosition s.row offset (some c) (w.fabric.direction s.row)
      kind).mapError (·.orAt item.span)).map fun id =>
        (⟨signedId id, none⟩, { w with row := some s.row }) := by
  have place : idOf? w.position.toInt = some c := by rw [here, idOfNat]
  simp only [locate, target, locateRelative, owner?, place, Option.bind_some, owner]
  rfl

theorem relativeStaysIff {rows : Rows} {registry : Registry} {options : Options} {item : Row.Item}
    {w : Work} {kind : Option String} {k : Int64} {c : Nat} {s : Stitch}
    (comes : ComesUp rows registry options item w)
    (target : item.attached.attachment.target = .relative kind k.toInt)
    (here : w.position.toInt = c) (owner : w.fabric.owner? c = some s)
    (words : w.fabric.nextId ≤ 2 ^ 64) (short : (w.fabric.rowIds s.row).length < 2 ^ 60)
    (known : Registry) :
    ((∃ fault, { w with registry := known }.locate item = .error fault ∧
        fault.kind = .addressNotFound) ∨
      ∃ id v, { w with registry := known }.locate item = .ok (⟨signedId id, none⟩, v) ∧
        w.fabric.Onward s.row c kind k.toInt id) ↔
      ¬ w.fabric.Overruns s.row c kind k.toInt := by
  have counted := (Fabric.comesUpMade comes).counted
  rw [locatesRelative (w := { w with registry := known }) target here owner,
    ← Fabric.relativeOnward counted owner kind k.le_toInt k.toInt_lt short]
  cases found : w.fabric.findByPosition s.row k.toInt (some c) (w.fabric.direction s.row) kind with
  | error fault =>
    have kind := Fabric.notFound found
    refine iff_of_true (.inl ⟨_, rfl, kind⟩) ?_
    intro id other
    cases other
  | ok id =>
    have below := Fabric.taggedBelow counted (Fabric.foundTagged found)
    constructor
    · rintro (⟨fault, failed, _⟩ | ⟨other, v, located, onward⟩)
      · cases failed
      · have others := Fabric.taggedBelow counted onward.member
        have spot : signedId id = signedId other := (Spot.mk.inj (Prod.mk.inj (Except.ok.inj located)).1).1
        have same : id = other := signedOnce (by omega) (by omega) spot
        intro id only
        cases only
        exact same ▸ onward
    · intro onward
      exact .inr ⟨id, _, rfl, onward id rfl⟩

def leads (kind : Option String) (offset : Int) (c id : Nat) (test : Fabric → Nat → Bool)
    (up : Row.Item × Work) : Bool :=
  up.1.attached.attachment.target == .relative kind offset && up.2.position.toInt == c &&
    decide (up.2.fabric.nextId ≤ 2 ^ 64) && (up.2.fabric.owner? c).any (fun s =>
      decide ((up.2.fabric.rowIds s.row).length < 2 ^ 60) && test up.2.fabric s.row &&
        (up.2.locate up.1).toOption.any fun found => found.1 == ⟨signedId id, none⟩)

theorem leadsOk {offset : Int} {c id : Nat} {test : Fabric → Nat → Bool}
    (holds : leads kind offset c id test (item, w) = true) :
    item.attached.attachment.target = .relative kind offset ∧ w.position.toInt = c ∧
      w.fabric.nextId ≤ 2 ^ 64 ∧ ∃ s, w.fabric.owner? c = some s ∧
        (w.fabric.rowIds s.row).length < 2 ^ 60 ∧ test w.fabric s.row = true ∧
        ∃ v, w.locate item = .ok (⟨signedId id, none⟩, v) := by
  obtain ⟨placed, led⟩ := Bool.and_eq_true_iff.mp holds
  obtain ⟨counted, words⟩ := Bool.and_eq_true_iff.mp placed
  obtain ⟨target, here⟩ := Bool.and_eq_true_iff.mp counted
  obtain ⟨s, owner, led⟩ := (Option.any_eq_true _ _).mp led
  obtain ⟨tested, led⟩ := Bool.and_eq_true_iff.mp led
  obtain ⟨short, tested⟩ := Bool.and_eq_true_iff.mp tested
  obtain ⟨⟨spot, v⟩, located, same⟩ := testOk led
  cases eq_of_beq same
  exact ⟨eq_of_beq target, eq_of_beq here, of_decide_eq_true words, s, owner,
    of_decide_eq_true short, tested, v, located⟩

def mixedRow : MappedText :=
  MappedText.ofSource "ch,ch,ch\nsc,ch,sc,turn\nsc@[1,1],sc@[sc:@+1]".toList

def stepBack : MappedText :=
  MappedText.ofSource "ch,ch,ch,ch\nsc,sc@[@-1]".toList

theorem relativeStaysTyped : ∃ rows item w s v, Row.parseRows mixedRow [] "red" = .ok rows ∧
    ComesUp rows Registry.plain {} item w ∧
    item.attached.attachment.target = .relative (some "sc") (1 : Int64).toInt ∧
    w.position.toInt = (5 : Nat) ∧ w.fabric.owner? 5 = some s ∧ w.fabric.nextId ≤ 2 ^ 64 ∧
    (w.fabric.rowIds s.row).length < 2 ^ 60 ∧ w.locate item = .ok (⟨signedId 4, none⟩, v) ∧
    w.fabric.Onward s.row 5 (some "sc") (1 : Int64).toInt 4 := by
  obtain ⟨rows, item, w, parsed, comes, holds⟩ := lastRuns mixedRow Registry.plain {}
    (leads (some "sc") (1 : Int64).toInt 5 4 fun f row => decide (f.direction row < 0) &&
      (f.line row (some "sc")).contains 4) (by decide +kernel)
  obtain ⟨target, here, words, s, owner, short, tested, v, located⟩ := leadsOk holds
  obtain ⟨back, member⟩ := Bool.and_eq_true_iff.mp tested
  have one : (1 : Int64).toInt = 1 := rfl
  have within : ¬ w.fabric.Overruns s.row 5 (some "sc") (1 : Int64).toInt := by
    rintro ⟨_, ⟨_, _, passed⟩ | ⟨low, _⟩ | ⟨p, id, there, _, _, far⟩⟩
    · have order := passed 4 (by simpa using member)
      simp only [Fabric.Before, if_pos (of_decide_eq_true back)] at order
      omega
    · omega
    · have counted := (Fabric.comesUpMade comes).counted
      have bound := (List.getElem?_eq_some_iff.mp there).1
      have length := Fabric.lineShort counted s.row (some "sc")
      have least := w.fabric.stepsFromLe 5 "sc" (1 : Int64).toInt
      omega
  rcases (relativeStaysIff comes target here owner words short w.registry).mpr within with
    ⟨fault, failed, _⟩ | ⟨id, u, found, onward⟩
  · cases failed.symm.trans located
  · have spot : signedId 4 = signedId id :=
      (Spot.mk.inj (Prod.mk.inj (Except.ok.inj (located.symm.trans found))).1).1
    have below := Fabric.taggedBelow (Fabric.comesUpMade comes).counted onward.member
    have same : 4 = id := signedOnce (by omega) (by omega) spot
    exact ⟨rows, item, w, s, v, parsed, comes, target, here, owner, words, short, located,
      same ▸ onward⟩

theorem relativeWrapsRound : ∃ rows item w s v, Row.parseRows stepBack [] "red" = .ok rows ∧
    ComesUp rows Registry.plain {} item w ∧
    item.attached.attachment.target = .relative none (-1) ∧ w.position.toInt = (1 : Nat) ∧
    w.fabric.owner? 1 = some s ∧ w.fabric.nextId ≤ 2 ^ 64 ∧
    (w.fabric.rowIds s.row).length < 2 ^ 60 ∧ w.locate item = .ok (⟨signedId 4, none⟩, v) ∧
    w.fabric.Before s.row 1 4 := by
  obtain ⟨rows, item, w, parsed, comes, holds⟩ := lastRuns stepBack Registry.plain {}
    (leads none (-1) 1 4 fun f row => decide (0 ≤ f.direction row)) (by decide +kernel)
  obtain ⟨target, here, words, s, owner, short, tested, v, located⟩ := leadsOk holds
  refine ⟨rows, item, w, s, v, parsed, comes, target, here, owner, words, short, located, ?_⟩
  rw [Fabric.Before, if_neg (Int.not_lt.mpr (of_decide_eq_true tested))]
  omega

end Work
end Crochet
