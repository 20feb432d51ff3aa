import Crochet.Proofs.Source.Together

/-! Macros that are left over. Each definition is put into the expression once, in its turn, so a name
is gone for good if nothing brings it back: no macro from its turn on, neither by its body nor by
renaming a variant, and no blank that is dropped. Otherwise it may be left, though no macro reaches its
own name. -/
namespace Crochet.Source
open MappedText Text

def macrosOf (source : List Char) : List (List Char × List Char) :=
  match Sheet.read source with
  | .ok sheet => sheet.definitions.filterMap textMacro?
  | .error _ => []

variable {definition : MappedText} {draft next : Draft}

section
variable {name : List Char}

theorem defineUses (some : name ≠ []) (ok : draft.define definition = .ok next)
    (quiet : ∀ m ∈ textMacro? definition, ¬ Brings m.2 name)
    (unused : ¬ UsedIn name false draft.expression ∨ ∃ m ∈ textMacro? definition, m.1 = name) :
    ¬ UsedIn name false next.expression := by
  rcases defineCases ok with ⟨none, same⟩ | ⟨own, body, found, named, same⟩
  · rw [same]
    refine unused.resolve_right ?_
    rw [none]
    simp
  · rw [same]
    intro used
    rcases substituteUses named some used with ⟨other, before⟩ | brings
    · rcases unused with unused | ⟨m, member, rfl⟩
      · exact unused before
      · cases found.symm.trans member
        exact other rfl
    · exact quiet (own, body) found brings

theorem macroNames {m : List Char × List Char} (ok : draft.define definition = .ok next)
    (found : textMacro? definition = some m) : m.1 ≠ [] := by
  rcases defineCases ok with ⟨none, _⟩ | ⟨own, body, same, named, _⟩
  · rw [none] at found
    cases found
  · cases same.symm.trans found
    rintro rfl
    cases named

/- From its own turn on the name is not used. -/
theorem definitionsUses {body : List Char} {definitions : List MappedText} {last : Draft}
    {earlier later : List (List Char × List Char)}
    (macros : definitions.filterMap textMacro? = earlier ++ (name, body) :: later)
    (quiet : ∀ m ∈ (name, body) :: later, ¬ Brings m.2 name)
    (ok : definitions.foldlM Draft.define draft = .ok last) :
    ¬ UsedIn name false last.expression := by
  obtain ⟨front, rest, rfl, _, others⟩ := List.filterMap_eq_append_iff.mp macros
  obtain ⟨between, own, behind, rfl, _, found, rfl⟩ := List.filterMap_eq_cons_iff.mp others
  rw [List.foldlM_append] at ok
  obtain ⟨first, _, ok⟩ := bindOk ok
  rw [List.foldlM_append] at ok
  obtain ⟨second, _, ok⟩ := bindOk ok
  obtain ⟨third, defined, ok⟩ := foldConsOk ok
  have some := macroNames defined found
  refine foldKeeps (fun d : Draft => ¬ UsedIn name false d.expression) ?_ ?_ ok
  · intro definition member d next unused done
    refine defineUses some done (fun m own => quiet m ?_) (.inl unused)
    exact List.mem_cons_of_mem _ (List.mem_filterMap.mpr ⟨definition, member, own⟩)
  · refine defineUses some defined ?_ (.inr ⟨_, found, rfl⟩)
    intro m own
    cases found.symm.trans own
    exact quiet _ List.mem_cons_self

theorem macroGone {source body : List Char} {registry after : Registry} {prepared : Prepared}
    {earlier later : List (List Char × List Char)}
    (ready : prepare source registry = .ok (prepared, after))
    (macros : macrosOf source = earlier ++ (name, body) :: later)
    (quiet : ∀ m ∈ (name, body) :: later, ¬ Brings m.2 name)
    (apart : ∀ pattern known, spaced source registry = .ok (pattern, known) →
      ¬ PutTogether name (chars pattern.expression)) :
    ¬ Uses name (chars prepared.expression) := by
  obtain ⟨pattern, made, _, text⟩ := preparedFrom ready
  obtain ⟨sheet, draft, colored, read, defined, taken, _, replaced⟩ := spacedParts made
  rw [macrosOf, read] at macros
  have unused := definitionsUses macros quiet defined
  intro used
  rw [text] at used
  rcases blanksUses (newlineUses used) with here | joined
  · rw [replaced] at here
    have stepped := stepsUses [] false rfl (usesIff.mp here)
    exact unused (switchedUses (takeSwitched taken) [] false stepped)
  · exact apart _ _ made joined

end

theorem unspacedApart {name cs : List Char} (plain : cs.any isFiller = false) :
    ¬ PutTogether name cs := by
  rintro ⟨before, word, after, rfl, spaced, _⟩
  simp [spaced] at plain

def orderedPiece : List Char := "DEF: Q=P,dc\nDEF: P=sc\n3Q,2P.P".toList

theorem macroGoneOrdered : ∃ prepared after, prepare orderedPiece {} = .ok (prepared, after) ∧
    chars prepared.expression = "(3((sc),dc)),(2(sc)).P".toList ∧
    ¬ Uses "P".toList (chars prepared.expression) := by
  have runs : (prepare orderedPiece {}).toOption.any (fun made =>
      chars made.1.expression == "(3((sc),dc)),(2(sc)).P".toList) = true := by
    decide +kernel
  have macros : macrosOf orderedPiece =
      [("Q".toList, "P,dc".toList)] ++ ("P".toList, "sc".toList) :: [] := by
    decide +kernel
  have plain : (spaced orderedPiece {}).toOption.all (fun made =>
      !(chars made.1.expression).any isFiller) = true := by
    decide +kernel
  obtain ⟨⟨prepared, after⟩, ready, text⟩ := testOk runs
  refine ⟨prepared, after, ready, beq_iff_eq.mp text, macroGone ready macros ?_ ?_⟩
  · intro m member
    cases List.mem_singleton.mp member
    rintro (used | ⟨_, ending, _, same⟩)
    · exact absurd used (by decide +kernel)
    · cases same
  · intro pattern known made
    rw [made] at plain
    have none : (!(chars pattern.expression).any isFiller) = true := plain
    exact unspacedApart (by simpa using none)

def Mentions (macros : List (List Char × List Char)) (a b : List Char) : Prop :=
  ∃ body, (a, body) ∈ macros ∧ b ∈ macros.map Prod.fst ∧ Uses b body

theorem mentionsFall {macros : List (List Char × List Char)} (rank : List Char → Nat)
    (falls : ∀ m ∈ macros, ∀ d ∈ macros, Uses d.1 m.2 → rank d.1 < rank m.1) (name : List Char) :
    ¬ Relation.TransGen (Mentions macros) name name := by
  have steps : ∀ {a b}, Mentions macros a b → rank b < rank a := by
    rintro a b ⟨body, own, member, used⟩
    obtain ⟨d, other, rfl⟩ := List.mem_map.mp member
    exact falls (a, body) own d other used
  have runs : ∀ {a b}, Relation.TransGen (Mentions macros) a b → rank b < rank a := by
    intro a b reaches
    induction reaches with
    | single step => exact steps step
    | tail _ step ih => exact Nat.lt_trans (steps step) ih
  exact fun reaches => Nat.lt_irrefl _ (runs reaches)

/- No macro reaches its own name, and yet one is left. -/
def LeavesMacro (source : List Char) : Prop :=
  (∀ name, ¬ Relation.TransGen (Mentions (macrosOf source)) name name) ∧
  ∃ prepared after, prepare source {} = .ok (prepared, after) ∧
    ∃ m ∈ macrosOf source, Uses m.1 (chars prepared.expression)

theorem leavesOf {source : List Char}
    (falls : ((macrosOf source).all fun m => (macrosOf source).all fun d => !decide (Uses d.1 m.2) ||
      decide (((macrosOf source).map Prod.fst).idxOf d.1 <
        ((macrosOf source).map Prod.fst).idxOf m.1)) = true)
    (leaves : (prepare source {}).toOption.any (fun made =>
      (macrosOf source).any fun m => decide (Uses m.1 (chars made.1.expression))) = true) :
    LeavesMacro source := by
  constructor
  · refine mentionsFall (((macrosOf source).map Prod.fst).idxOf ·) fun m member d other used => ?_
    have order := List.all_eq_true.mp (List.all_eq_true.mp falls m member) d other
    simpa [used] using order
  · obtain ⟨⟨prepared, after⟩, ready, left⟩ := testOk leaves
    obtain ⟨m, member, used⟩ := List.any_eq_true.mp left
    exact ⟨prepared, after, ready, m, member, of_decide_eq_true used⟩

/- A body brings in a name whose turn has passed, a variant is renamed to such a name, and a name is put
together from two words. -/
theorem macrosLeft : LeavesMacro "DEF: P=sc\nDEF: Q=P,dc\nQ".toList ∧
    LeavesMacro "DEF: y2tog=ch\nDEF: x=y\nx2tog".toList ∧ LeavesMacro "DEF: xy=ch\nx y".toList :=
  ⟨leavesOf (by decide +kernel) (by decide +kernel), leavesOf (by decide +kernel) (by decide +kernel),
    leavesOf (by decide +kernel) (by decide +kernel)⟩

end Crochet.Source
