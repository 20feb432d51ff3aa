import Mathlib.Data.List.Nodup

/-! Lists and decimal digits: what the other modules use of them that the library does not state. -/
namespace Crochet

theorem indexOfKey [BEq β] [LawfulBEq β] {xs : List α} {key : α → β}
    (distinct : (xs.map key).Nodup) {k : Nat} {x : α} (here : xs[k]? = some x) :
    xs.findIdx? (key · == key x) = some k := by
  obtain ⟨bound, rfl⟩ := List.getElem?_eq_some_iff.mp here
  refine List.findIdx?_eq_some_iff_getElem.mpr ⟨bound, beq_self_eq_true _, ?_⟩
  intro j before same
  have equal := List.inj_on_of_nodup_map distinct (List.getElem_mem (by omega))
    (List.getElem_mem bound) (beq_iff_eq.mp same)
  have index := (List.Nodup.getElem_inj_iff (List.Nodup.of_map _ distinct)).mp equal
  omega

theorem findIndexOf {xs : List α} {p : α → Bool} (present : xs.any p = true) :
    ∃ k x, xs.findIdx? p = some k ∧ xs[k]? = some x := by
  rw [← List.findIdx?_isSome] at present
  obtain ⟨k, found⟩ := Option.isSome_iff_exists.mp present
  obtain ⟨bound, _⟩ := List.findIdx?_eq_some_iff_getElem.mp found
  exact ⟨k, xs[k], found, List.getElem?_eq_getElem bound⟩

theorem lookupMember [BEq α] [LawfulBEq α] {entries : List (α × β)} {key : α} {value : β}
    (found : entries.lookup key = some value) : (key, value) ∈ entries := by
  obtain ⟨before, after, same, _⟩ := List.lookup_eq_some_iff.mp found
  rw [same]
  simp

theorem atEnd {xs : List α} {x y : α} {i : Nat} :
    (xs ++ [x])[i]? = some y ↔ xs[i]? = some y ∨ i = xs.length ∧ y = x := by
  rcases Nat.lt_trichotomy i xs.length with before | same | after
  · rw [List.getElem?_append_left before]
    simp [Nat.ne_of_lt before]
  · subst same
    simp [eq_comm]
  · rw [List.getElem?_eq_none (by simp; omega), List.getElem?_eq_none (by omega)]
    simp [Nat.ne_of_gt after]

theorem lastCons {a c : α} {l : List α} :
    (a :: l).getLast? = some c ↔ l = [] ∧ a = c ∨ l.getLast? = some c := by
  rcases List.eq_nil_or_concat l with rfl | ⟨l, d, rfl⟩
  · simp
  · rw [List.concat_eq_append, ← List.cons_append, List.getLast?_concat, List.getLast?_concat]
    simp

theorem firstSplit {x : α} {a b c d : List α} (left : x ∉ a) (right : x ∉ c)
    (same : a ++ x :: b = c ++ x :: d) : a = c ∧ b = d := by
  induction a generalizing c with
  | nil =>
    cases c with
    | nil => exact ⟨rfl, (List.cons.inj same).2⟩
    | cons y c => exact absurd (List.cons.inj same).1 fun eq => right (eq ▸ List.mem_cons_self)
  | cons y a ih =>
    cases c with
    | nil => exact absurd (List.cons.inj same).1 fun eq => left (eq ▸ List.mem_cons_self)
    | cons z c =>
      obtain ⟨rfl, rest⟩ := List.cons.inj same
      obtain ⟨rfl, tail⟩ := ih (fun inside => left (List.mem_cons_of_mem _ inside))
        (fun inside => right (List.mem_cons_of_mem _ inside)) rest
      exact ⟨rfl, tail⟩

theorem lastSplit {x : α} {a b c d : List α} (left : x ∉ b) (right : x ∉ d)
    (same : a ++ x :: b = c ++ x :: d) : a = c ∧ b = d := by
  have turned : b.reverse ++ x :: a.reverse = d.reverse ++ x :: c.reverse := by
    simpa using congrArg List.reverse same
  obtain ⟨tails, heads⟩ := firstSplit (by simpa using left) (by simpa using right) turned
  exact ⟨List.reverse_inj.mp heads, List.reverse_inj.mp tails⟩

theorem zipFlatMap (entries : List α) (left : α → List β) (right : α → List γ)
    (same : ∀ e ∈ entries, (left e).length = (right e).length) :
    (entries.flatMap left).zip (entries.flatMap right) =
      entries.flatMap fun e => (left e).zip (right e) := by
  induction entries with
  | nil => rfl
  | cons e rest ih =>
    rw [List.flatMap_cons, List.flatMap_cons, List.flatMap_cons,
      List.zip_append (same e List.mem_cons_self),
      ih fun other inside => same other (List.mem_cons_of_mem _ inside)]

theorem replicatePairs {R : α → β → Prop} {x : α} {y : β} (holds : R x y) (n : Nat) :
    List.Forall₂ R (List.replicate n x) (List.replicate n y) := by
  induction n with
  | zero => exact .nil
  | succ n ih => exact .cons holds ih

theorem keyDigits (key : Nat) : ∀ d ∈ Nat.toDigits 10 key, d.isDigit = true := fun _ member =>
  Nat.isDigit_of_mem_toDigits (by decide) (by decide) member

theorem digitsClean {x : Char} (other : x.isDigit = false) (n : Nat) : x ∉ Nat.toDigits 10 n := by
  intro inside
  rw [keyDigits n x inside] at other
  cases other

theorem digitsInj {m n : Nat} (same : Nat.toDigits 10 m = Nat.toDigits 10 n) : m = n := by
  rw [← @Nat.ofDigitChars_ten_toDigits m, same, Nat.ofDigitChars_ten_toDigits]

end Crochet
