import Crochet.Proofs.Template.Variants

/-! What looking stitches up does to later look-ups. A variant is derived from the entry of its base
only, and a base that is a variant itself has an entry once it has been asked for. So a name can be
unknown before a look-up and known after it, and in no other way do look-ups bear on each other. -/
namespace Crochet
namespace Registry

def lookups (r : Registry) (names : List String) : Registry := r.history (names.map .resolve)

/- Entries stay as they are, and what is new is the variant that the entries of now give. -/
structure Filled (r after : Registry) : Prop where
  kept : ∀ name t, r.find? name = some t → after.find? name = some t
  made : ∀ name t, r.find? name = none → after.find? name = some t → after.variant name = .ok t

variable {r after : Registry} {name : String}

theorem variantKept (kept : ∀ name t, r.find? name = some t →
    after.find? name = some t) {t : Template} (made : r.variant name = .ok t) :
    after.variant name = .ok t := by
  cases splits : VariantName.parse? name with
  | none =>
    unfold variant at made
    rw [splits] at made
    cases made
  | some v =>
    obtain ⟨base, found, derived⟩ := variantParts splits made
    rw [variantMade splits (kept v.base base found), derived]

namespace Filled

theorem refl (r : Registry) : Filled r r where
  kept := fun _ _ found => found
  made := by
    intro name t absent found
    rw [absent] at found
    cases found

theorem trans {first second third : Registry} (before : Filled first second)
    (next : Filled second third) : Filled first third where
  kept := fun name t found => next.kept name t (before.kept name t found)
  made := by
    intro name t absent found
    cases between : second.find? name with
    | none => exact next.made name t between found
    | some u =>
      have same : u = t := Option.some.inj ((next.kept name u between).symm.trans found)
      subst same
      exact variantKept next.kept (before.made name u absent between)

end Filled

theorem resolveCases (r : Registry) (name : String) : (r.resolve name).2 = r ∨
    r.find? name = none ∧ ∃ t, r.variant name = .ok t ∧ (r.resolve name).2 = r.insert name t := by
  cases stored : r.find? name with
  | some t => exact .inl (by simp only [resolve, stored])
  | none =>
    cases derived : r.variant name with
    | error fault => exact .inl (by simp only [resolve, stored, synthesize, derived])
    | ok t => exact .inr ⟨rfl, t, rfl, by rw [resolveMade stored derived]⟩

theorem insertKept (absent : r.find? name = none) (t : Template) {other : String} {u : Template}
    (found : r.find? other = some u) :
    (r.insert name t).find? other = some u := by
  have apart : other ≠ name := by
    rintro rfl
    rw [absent] at found
    cases found
  rw [findInsert, if_neg apart]
  exact found

theorem resolveFilled (r : Registry) (name : String) : Filled r (r.resolve name).2 := by
  rcases resolveCases r name with same | ⟨absent, t, derived, same⟩
  · rw [same]
    exact .refl r
  rw [same]
  constructor
  · intro other u found
    exact insertKept absent t found
  · intro other u missing found
    rw [findInsert] at found
    split at found
    · rename_i here
      cases here
      cases found
      exact variantKept (fun _ _ found => insertKept absent t found) derived
    · rw [missing] at found
      cases found

theorem lookupsFilled (r : Registry) (names : List String) : Filled r (r.lookups names) := by
  induction names generalizing r with
  | nil => exact .refl r
  | cons name rest ih => exact (resolveFilled r name).trans (ih (r.resolve name).2)

theorem Filled.answer (filled : Filled r after) (absent : r.find? name = none) :
    (after.resolve name).1 = after.variant name := by
  cases stored : after.find? name with
  | none => exact resolveNew stored
  | some t => rw [resolveStored stored, filled.made name t absent stored]

theorem derivedKnown (base : Template) (name other : String) (count : Nat) (kind : VariantKind) :
    base.derive name count kind ≠ .error (.unknown other) := by
  unfold Template.derive Template.together Template.increase
  intro same
  split at same
  · cases same
  split at same
  · split at same <;> cases same
  · split at same <;> cases same

/- The base of `name` has come to have an entry, and `name` has had none. -/
structure Opens (r after : Registry) (name : String) (v : VariantName) (base : Template) :
    Prop where
  splits : VariantName.parse? name = some v
  absent : r.find? name = none
  baseless : r.find? v.base = none
  based : after.find? v.base = some base

theorem opensAnswers (filled : Filled r after) {v : VariantName} {base : Template}
    (opens : Opens r after name v base) :
    (r.resolve name).1 = .error (.unknown name) ∧
      (after.resolve name).1 = base.derive name v.count v.kind := by
  constructor
  · rw [resolveNew opens.absent]
    unfold variant
    rw [opens.splits]
    simp only [opens.baseless]
  · rw [filled.answer opens.absent, variantMade opens.splits opens.based]

theorem closedAnswers (filled : Filled r after) (closed : ¬ ∃ v base, Opens r after name v base) :
    (after.resolve name).1 = (r.resolve name).1 := by
  cases stored : r.find? name with
  | some t => rw [resolveStored stored, resolveStored (filled.kept name t stored)]
  | none =>
    rw [filled.answer stored, resolveNew stored]
    unfold variant
    cases splits : VariantName.parse? name with
    | none => rfl
    | some v =>
      cases before : r.find? v.base with
      | some base => simp only [before, filled.kept v.base base before]
      | none =>
        cases later : after.find? v.base with
        | none => simp only [before, later]
        | some base => exact absurd ⟨v, base, splits, stored, before, later⟩ closed

theorem resolveOpens {asked : String} :
    (∃ v base, Opens r (r.resolve asked).2 name v base) ↔
      ∃ v base, VariantName.parse? name = some v ∧ v.base = asked ∧ r.find? name = none ∧
        r.find? asked = none ∧ r.variant asked = .ok base := by
  constructor
  · rintro ⟨v, base, opens⟩
    have based := opens.based
    rcases resolveCases r asked with same | ⟨missing, t, derived, same⟩
    · rw [same, opens.baseless] at based
      cases based
    · rw [same, findInsert] at based
      split at based
      · rename_i here
        exact ⟨v, t, opens.splits, here, opens.absent, missing, derived⟩
      · rw [opens.baseless] at based
        cases based
  · rintro ⟨v, base, splits, rfl, absent, baseless, derived⟩
    refine ⟨v, base, splits, absent, baseless, ?_⟩
    rw [resolveMade baseless derived, findInsert, if_pos rfl]

theorem lookupsSeenIff (r : Registry) (name : String) :
    (∀ asked, ((r.lookups asked).resolve name).1 = (r.resolve name).1 ↔
      ¬ ∃ v base, Opens r (r.lookups asked) name v base) ∧
    (∀ asked v base, Opens r (r.lookups asked) name v base →
      (r.resolve name).1 = .error (.unknown name) ∧
        ((r.lookups asked).resolve name).1 = base.derive name v.count v.kind) ∧
    ∀ asked, ((r.resolve asked).2.resolve name).1 = (r.resolve name).1 ↔
      ¬ ∃ v base, VariantName.parse? name = some v ∧ v.base = asked ∧ r.find? name = none ∧
        r.find? asked = none ∧ r.variant asked = .ok base := by
  have answers : ∀ after, Filled r after → ((after.resolve name).1 = (r.resolve name).1 ↔
      ¬ ∃ v base, Opens r after name v base) := by
    intro after filled
    constructor
    · rintro same ⟨v, base, opens⟩
      obtain ⟨unknown, derived⟩ := opensAnswers filled opens
      rw [unknown, derived] at same
      exact derivedKnown base name name v.count v.kind same
    · exact closedAnswers filled
  refine ⟨?_, ?_, ?_⟩
  · intro asked
    exact answers _ (lookupsFilled r asked)
  · intro asked v base opens
    exact opensAnswers (lookupsFilled r asked) opens
  · intro asked
    rw [answers _ (resolveFilled r asked), resolveOpens]

theorem nestedOpens : ∃ start inner t, builtin = .ok start ∧
    Opens start (start.resolve "sc2tog").2 "sc2tog3tog" ⟨"sc2tog", 3, .together⟩ inner ∧
    inner.derive "sc2tog3tog" 3 .together = .ok t := by
  obtain ⟨start, ok⟩ := builtinMade
  have runs : (Template.parse "sc" "&sc^A(sc):B~A-B::!-1-A;B-1-A" >>= fun t =>
      t.derive "sc2tog" 2 .together >>= fun u => u.derive "sc2tog3tog" 3 .together).isOk = true := by
    decide +kernel
  obtain ⟨t, run⟩ := someOk runs
  obtain ⟨single, read, run⟩ := bindOk run
  obtain ⟨inner, derived, outer⟩ := bindOk run
  have listed : stitchDictionary.reverse.lookup "sc" = some "&sc^A(sc):B~A-B::!-1-A;B-1-A" := by
    decide +kernel
  have there : start.find? "sc" = some single := by
    rw [builtinFind ok, listed, Option.bind_some, read]
    rfl
  have splits : VariantName.parse? "sc2tog3tog" = some ⟨"sc2tog", 3, .together⟩ := by decide +kernel
  have foreign : "sc2tog3tog" ∉ stitchDictionary.map Prod.fst := by decide +kernel
  have baseless := builtinAbsent ok foreignName
  have based : (start.resolve "sc2tog").2.find? "sc2tog" = some inner := by
    rw [resolveMade baseless ((variantMade nameSplits there).trans derived), findInsert, if_pos rfl]
  exact ⟨start, inner, t, ok, ⟨splits, builtinAbsent ok foreign, baseless, based⟩, outer⟩

theorem lookupsSeenNested : ∃ start base, builtin = .ok start ∧
    Opens start (start.lookups ["sc2tog"]) "sc2tog3tog" ⟨"sc2tog", 3, .together⟩ base ∧
    (start.resolve "sc2tog3tog").1 = .error (.unknown "sc2tog3tog") ∧
    ((start.lookups ["sc2tog"]).resolve "sc2tog3tog").1 = base.derive "sc2tog3tog" 3 .together := by
  obtain ⟨start, inner, _, ok, opens, _⟩ := nestedOpens
  exact ⟨start, inner, ok, opens,
    (lookupsSeenIff start "sc2tog3tog").2.1 ["sc2tog"] ⟨"sc2tog", 3, .together⟩ inner opens⟩

/- A decrease of a decrease is unknown until the inner one has been looked up. -/
theorem lookupSeen : ∃ start t, builtin = .ok start ∧
    (start.resolve "sc2tog3tog").1 = .error (.unknown "sc2tog3tog") ∧
    ((start.resolve "sc2tog").2.resolve "sc2tog3tog").1 = .ok t := by
  obtain ⟨start, inner, t, ok, opens, outer⟩ := nestedOpens
  obtain ⟨unknown, known⟩ := opensAnswers (resolveFilled start "sc2tog") opens
  exact ⟨start, t, ok, unknown, known.trans outer⟩

end Registry
end Crochet
