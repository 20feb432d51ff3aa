import Crochet.Proofs.Template.Reached

/-! The built-in stitches. Every spec of the dictionary can be read, and the registry it comes to has
the stitches of the dictionary and no others. -/
namespace Crochet
namespace Registry

theorem lookupCons (key : String) (value : α) (rest : List (String × α)) (name : String) :
    ((key, value) :: rest).lookup name = if name = key then some value else rest.lookup name := by
  rw [List.lookup_cons]
  by_cases same : name = key
  · rw [if_pos same, beq_iff_eq.mpr same]
  · rw [if_neg same, beq_false_of_ne same]

theorem putLookup (name : String) (t : Template) (entries : List (String × Template))
    (other : String) :
    (put name t entries).lookup other = if other = name then some t else entries.lookup other := by
  induction entries with
  | nil => exact lookupCons name t [] other
  | cons entry rest ih =>
    obtain ⟨key, value⟩ := entry
    simp only [put]
    by_cases here : key = name
    · subst here
      rw [if_pos rfl, lookupCons, lookupCons]
      by_cases same : other = key
      · simp [same]
      · simp [same]
    · rw [if_neg here, lookupCons, lookupCons, ih]
      by_cases same : other = key
      · subst same
        simp [here]
      · simp [same]

theorem findInsert (r : Registry) (name : String) (t : Template) (other : String) :
    (r.insert name t).find? other = if other = name then some t else r.find? other :=
  putLookup name t r.templates other

def Readable (entries : List (String × String)) : Prop :=
  ∀ entry ∈ entries, (Template.parse entry.1 entry.2).isOk = true

variable {name : String} {start : Registry}

theorem readableCons {raw : String} {cs : List Char} {rest : List (String × String)}
    (written : String.ofList cs = raw) (read : (Template.readSpec name cs).isOk = true)
    (more : Readable rest) : Readable ((name, raw) :: rest) := by
  refine List.forall_mem_cons.mpr ⟨?_, more⟩
  obtain ⟨t, ok⟩ := someOk read
  subst written
  simp only [Template.parse, String.toList_ofList, ok]
  rfl

theorem writtenAppend {a b : String} {as bs : List Char} (left : String.ofList as = a)
    (right : String.ofList bs = b) : String.ofList (as ++ bs) = a ++ b := by
  rw [String.ofList_append, left, right]

theorem dictionaryReadable : Readable stitchDictionary := by
  simp only [stitchDictionary]
  repeat
    apply readableCons
    case written =>
      repeat' apply writtenAppend
      all_goals rfl
    case read => decide +kernel
  exact List.forall_mem_nil _

theorem builtinMade : ∃ start, builtin = .ok start := by
  have runs : ∀ entry ∈ stitchDictionary, ∀ r : Registry, True →
      ∃ next, r.seed entry = .ok next ∧ True := by
    rintro ⟨name, raw⟩ member r _
    obtain ⟨t, read⟩ := someOk (dictionaryReadable _ member)
    exact ⟨r.insert name t, by simp only [seed, read]; rfl, trivial⟩
  obtain ⟨start, ok, _⟩ := foldRuns (fun _ => True) runs trivial
  exact ⟨start, ok⟩

theorem seedsFind {entries : List (String × String)} {r after : Registry}
    (ok : entries.foldlM seed r = .ok after) (name : String) :
    after.find? name = match entries.reverse.lookup name with
      | some raw => (Template.parse name raw).toOption
      | none => r.find? name := by
  induction entries generalizing r with
  | nil => cases pureOk ok; rfl
  | cons entry rest ih =>
    obtain ⟨key, raw⟩ := entry
    obtain ⟨next, one, more⟩ := foldConsOk ok
    obtain ⟨t, read, one⟩ := bindOk one
    cases pureOk one
    rw [ih more, List.reverse_cons, List.lookup_append, lookupCons]
    cases rest.reverse.lookup name with
    | some later => rfl
    | none =>
      simp only [Option.none_or, findInsert]
      by_cases same : name = key
      · subst same
        simp [read, Except.toOption]
      · simp [same]

theorem builtinFind (ok : builtin = .ok start) (name : String) :
    start.find? name = (stitchDictionary.reverse.lookup name).bind fun raw =>
      (Template.parse name raw).toOption := by
  rw [seedsFind ok name]
  cases stitchDictionary.reverse.lookup name <;> rfl

theorem builtinUndefined (ok : builtin = .ok start) : start.defined = [] := by
  refine foldKeeps (fun r => r.defined = []) ?_ rfl ok
  rintro ⟨name, raw⟩ _ r next none one
  obtain ⟨t, _, one⟩ := bindOk one
  cases pureOk one
  exact none

theorem builtinAbsent (ok : builtin = .ok start) (other : name ∉ stitchDictionary.map Prod.fst) :
    start.find? name = none := by
  have absent : stitchDictionary.reverse.lookup name = none := by
    refine List.lookup_eq_none_iff.mpr ?_
    intro entry member
    have listed : entry.1 ∈ stitchDictionary.map Prod.fst :=
      List.mem_map_of_mem (List.mem_reverse.mp member)
    simpa using fun same : name = entry.1 => other (same ▸ listed)
  rw [builtinFind ok, absent]
  rfl

end Registry
end Crochet
