import Crochet.Proofs.Template.Builtin

/-! Variants over the history of a registry. A variant is derived when it is first asked for and kept
from then on, so it follows the base it had at that time: the one of now, unless the base has been
defined since. -/
namespace Crochet
namespace Registry

inductive Call where
  | defineSpec (name raw : String)
  | rescale (base name : String) (height width : Float)
  | resolve (name : String)
  deriving DecidableEq, Repr

def call (r : Registry) : Call → Registry
  | .defineSpec name raw => (r.defineSpec name raw).2
  | .rescale base name height width => (r.rescale base name height width).2
  | .resolve name => (r.resolve name).2

def history (start : Registry) (calls : List Call) : Registry := calls.foldl call start

structure Kept (r after : Registry) : Prop where
  defined : ∀ name ∈ r.defined, name ∈ after.defined
  found : ∀ name t, r.find? name = some t → after.find? name = some t ∨
    name ∉ r.defined ∧ name ∈ after.defined

namespace Kept

theorem refl (r : Registry) : Kept r r := ⟨fun _ member => member, fun _ _ found => .inl found⟩

theorem trans {first second third : Registry} (before : Kept first second)
    (next : Kept second third) : Kept first third where
  defined := fun name member => next.defined name (before.defined name member)
  found := by
    intro name t found
    rcases before.found name t found with kept | ⟨fresh, given⟩
    · rcases next.found name t kept with still | ⟨fresh, given⟩
      · exact .inl still
      · exact .inr ⟨fun member => fresh (before.defined name member), given⟩
    · exact .inr ⟨fresh, next.defined name given⟩

end Kept

/- A name comes into a registry by a definition or as a variant of what is there. -/
structure Grown (r after : Registry) : Prop where
  kept : Kept r after
  made : ∀ name t, r.find? name = none → after.find? name = some t →
    name ∈ after.defined ∨ r.variant name = .ok t

theorem grownRefl (r : Registry) : Grown r r where
  kept := .refl r
  made := by
    intro name t absent found
    rw [absent] at found
    cases found

variable {r start : Registry} {name : String} {t : Template} {v : VariantName}

theorem grownDefine {middle : Registry} (grown : Grown r middle) (name : String) (t : Template) :
    Grown r (middle.define name t).2 := by
  unfold define
  split
  · exact grown
  rename_i free
  have free : name ∉ middle.defined := by simpa using free
  constructor
  · refine grown.kept.trans ⟨fun _ member => List.mem_cons_of_mem _ member, ?_⟩
    intro other u found
    change (middle.insert name _).find? other = _ ∨ _
    rw [findInsert]
    by_cases same : other = name
    · subst same
      exact .inr ⟨free, List.mem_cons_self⟩
    · rw [if_neg same]
      exact .inl found
  · intro other u absent found
    change (middle.insert name _).find? other = _ at found
    rw [findInsert] at found
    by_cases same : other = name
    · subst same
      exact .inl List.mem_cons_self
    · rw [if_neg same] at found
      exact (grown.made other u absent found).imp_left (List.mem_cons_of_mem _)

theorem grownResolve (r : Registry) (name : String) : Grown r (r.resolve name).2 := by
  unfold resolve
  split
  · exact grownRefl r
  rename_i absent
  unfold synthesize
  split
  · exact grownRefl r
  rename_i t made
  constructor
  · refine ⟨fun _ member => member, ?_⟩
    intro other u found
    have apart : other ≠ name := by
      rintro rfl
      rw [absent] at found
      cases found
    rw [findInsert, if_neg apart]
    exact .inl found
  · intro other u before found
    rw [findInsert] at found
    by_cases same : other = name
    · subst same
      rw [if_pos rfl] at found
      cases found
      exact .inr made
    · rw [if_neg same, before] at found
      cases found

theorem grownCall (r : Registry) (c : Call) : Grown r (r.call c) := by
  cases c with
  | defineSpec name raw =>
    simp only [call, defineSpec]
    split
    · exact grownRefl r
    · exact grownDefine (grownRefl r) name _
  | rescale base name height width =>
    have grown := grownResolve r base
    simp only [call, rescale]
    split
    · rename_i same
      rw [same] at grown
      exact grown
    · rename_i same
      rw [same] at grown
      split
      · exact grown
      · exact grownDefine grown name _
  | resolve name => exact grownResolve r name

theorem historyKept (r : Registry) (calls : List Call) : Kept r (r.history calls) := by
  induction calls generalizing r with
  | nil => exact .refl r
  | cons c rest ih => exact (grownCall r c).kept.trans (ih (r.call c))

theorem historyAppend (r : Registry) (before later : List Call) :
    r.history (before ++ later) = (r.history before).history later := List.foldl_append

/- The calls up to the one that asks for `name` first; all calls where none does. -/
structure FirstAsked (start : Registry) (name : String) (calls before later : List Call) :
    Prop where
  split : calls = before ++ later
  absent : (start.history before).find? name = none
  present : ∀ done, done ≠ [] → done <+: later →
    ((start.history (before ++ done)).find? name).isSome = true

theorem storedVariant {calls : List Call} (absent : start.find? name = none)
    (undefined : name ∉ (start.history calls).defined)
    (found : (start.history calls).find? name = some t) :
    ∃ before later, FirstAsked start name calls before later ∧
      (start.history before).variant name = .ok t := by
  induction calls generalizing start with
  | nil =>
    change start.find? name = some t at found
    rw [absent] at found
    cases found
  | cons c rest ih =>
    cases next : (start.call c).find? name with
    | none =>
      obtain ⟨before, later, first, made⟩ := ih next undefined found
      refine ⟨c :: before, later, ⟨?_, first.absent, first.present⟩, made⟩
      rw [first.split, List.cons_append]
    | some u =>
      -- the entry is made by this call and stays, since the name is never defined
      have stays : ∀ done, done <+: rest → ((start.call c).history done).find? name = some u := by
        rintro done ⟨more, rfl⟩
        rcases (historyKept (start.call c) done).found name u next with same | ⟨_, given⟩
        · exact same
        · refine absurd ?_ undefined
          change name ∈ ((start.call c).history (done ++ more)).defined
          rw [historyAppend]
          exact (historyKept _ more).defined name given
      have same : u = t := Option.some.inj ((stays rest (List.prefix_refl rest)).symm.trans found)
      subst same
      refine ⟨[], c :: rest, ⟨rfl, absent, ?_⟩, ?_⟩
      · intro done nonempty initial
        cases done with
        | nil => exact absurd rfl nonempty
        | cons d done =>
          obtain ⟨rfl, within⟩ := List.cons_prefix_cons.mp initial
          exact Option.isSome_iff_exists.mpr ⟨u, stays done within⟩
      · rcases (grownCall start c).made name u absent next with given | made
        · exact absurd ((historyKept (start.call c) rest).defined name given) undefined
        · exact made

theorem variantParts (splits : VariantName.parse? name = some v) (made : r.variant name = .ok t) :
    ∃ base, r.find? v.base = some base ∧ base.derive name v.count v.kind = .ok t := by
  unfold variant at made
  rw [splits] at made
  simp only at made
  split at made
  · cases made
  · rename_i base found
    exact ⟨base, found, made⟩

theorem variantMade {base : Template} (splits : VariantName.parse? name = some v)
    (found : r.find? v.base = some base) :
    r.variant name = base.derive name v.count v.kind := by
  unfold variant
  rw [splits]
  simp only [found]

theorem resolveStored (found : r.find? name = some t) : (r.resolve name).1 = .ok t := by
  unfold resolve
  rw [found]

theorem resolveNew (absent : r.find? name = none) :
    (r.resolve name).1 = r.variant name := by
  unfold resolve
  rw [absent]
  simp only [synthesize]
  split <;> simp_all

theorem variantOfItsTime {start : Registry} {calls : List Call} {name : String} {v : VariantName}
    {base t : Template} (ok : builtin = .ok start) (own : name ∉ stitchDictionary.map Prod.fst)
    (undefined : name ∉ (start.history calls).defined) (splits : VariantName.parse? name = some v)
    (found : (start.history calls).find? v.base = some base)
    (derivable : base.derive name v.count v.kind = .ok t) :
    ∃ before later former u, FirstAsked start name calls before later ∧
      (start.history before).find? v.base = some former ∧
      former.derive name v.count v.kind = .ok u ∧ ((start.history calls).resolve name).1 = .ok u ∧
      (former = base ∨ v.base ∉ (start.history before).defined ∧
        v.base ∈ (start.history calls).defined) := by
  cases stored : (start.history calls).find? name with
  | none =>
    refine ⟨calls, [], base, t, ⟨by simp, stored, ?_⟩, found, derivable, ?_, .inl rfl⟩
    · intro done nonempty initial
      exact absurd (List.prefix_nil.mp initial) nonempty
    · rw [resolveNew stored, variantMade splits found, derivable]
  | some u =>
    obtain ⟨before, later, first, made⟩ := storedVariant (builtinAbsent ok own) undefined stored
    obtain ⟨former, there, derived⟩ := variantParts splits made
    refine ⟨before, later, former, u, first, there, derived, resolveStored stored, ?_⟩
    have kept := historyKept (start.history before) later
    rw [← historyAppend, ← first.split] at kept
    refine (kept.found v.base former there).imp_left fun same => ?_
    exact Option.some.inj (same.symm.trans found)

theorem resolveMade (absent : r.find? name = none) (made : r.variant name = .ok t) :
    r.resolve name = (.ok t, r.insert name t) := by
  simp only [resolve, absent, synthesize, made]

theorem defineSpecMade {raw : String} (free : name ∉ r.defined)
    (read : Template.parse name raw = .ok t) : (r.defineSpec name raw).2 =
      { r.insert name { t with name := name } with defined := name :: r.defined } := by
  simp [defineSpec, read, define, free]

def wideSpec : String := "&sc^A(sc):B;C~A-B::!-1-A;B-1-A;C-1-A"

def rebased : List Call := [.resolve "sc2tog", .defineSpec "sc" wideSpec]

theorem foreignName : "sc2tog" ∉ stitchDictionary.map Prod.fst := by decide +kernel

theorem nameSplits : VariantName.parse? "sc2tog" = some ⟨"sc", 2, .together⟩ := by decide +kernel

/- The variant has two bottoms, while its base has come to give it four. -/
structure Rebased (start : Registry) (base stored derived : Template) : Prop where
  undefined : "sc2tog" ∉ (start.history rebased).defined
  found : (start.history rebased).find? "sc" = some base
  kept : (start.history rebased).find? "sc2tog" = some stored
  derivable : base.derive "sc2tog" 2 .together = .ok derived
  apart : stored.bottoms.length = 2 ∧ derived.bottoms.length = 4

theorem rebasedRuns (ok : builtin = .ok start) :
    ∃ base stored derived, Rebased start base stored derived := by
  have narrow : (Template.parse "sc" "&sc^A(sc):B~A-B::!-1-A;B-1-A" >>= fun t =>
      t.derive "sc2tog" 2 .together).toOption.any (·.bottoms.length = 2) = true := by
    decide +kernel
  have wide : (Template.parse "sc" wideSpec >>= fun t =>
      { t with name := "sc" }.derive "sc2tog" 2 .together).toOption.any
        (·.bottoms.length = 4) = true := by
    decide +kernel
  obtain ⟨stored, run, two⟩ := testOk narrow
  obtain ⟨old, readOld, made⟩ := bindOk run
  obtain ⟨derived, run, four⟩ := testOk wide
  obtain ⟨new, readNew, derives⟩ := bindOk run
  have listed : stitchDictionary.reverse.lookup "sc" = some "&sc^A(sc):B~A-B::!-1-A;B-1-A" := by
    decide +kernel
  have there : start.find? "sc" = some old := by
    rw [builtinFind ok, listed, Option.bind_some, readOld]
    rfl
  have first : start.resolve "sc2tog" = (.ok stored, start.insert "sc2tog" stored) :=
    resolveMade (builtinAbsent ok foreignName) ((variantMade nameSplits there).trans made)
  have none : (start.insert "sc2tog" stored).defined = [] := by
    rw [← builtinUndefined ok]
    rfl
  have final : start.history rebased =
      { (start.insert "sc2tog" stored).insert "sc" { new with name := "sc" } with
        defined := ["sc"] } := by
    simp only [history, rebased, List.foldl_cons, List.foldl_nil, call, first]
    rw [defineSpecMade (by simp [none]) readNew, none]
  refine ⟨{ new with name := "sc" }, stored, derived, ?_, ?_, ?_, derives, by simpa using two,
    by simpa using four⟩
  · simp [final]
  · rw [final]
    exact (findInsert _ _ _ _).trans (if_pos rfl)
  · rw [final]
    refine (findInsert _ _ _ _).trans ((if_neg (by decide)).trans ?_)
    exact (findInsert _ _ _ _).trans (if_pos rfl)

theorem variantOfItsTimeRebased : ∃ start base derived, builtin = .ok start ∧
    "sc2tog" ∉ stitchDictionary.map Prod.fst ∧ "sc2tog" ∉ (start.history rebased).defined ∧
    VariantName.parse? "sc2tog" = some ⟨"sc", 2, .together⟩ ∧
    (start.history rebased).find? "sc" = some base ∧
    base.derive "sc2tog" 2 .together = .ok derived ∧
    ∃ before later former u, FirstAsked start "sc2tog" rebased before later ∧
      (start.history before).find? "sc" = some former ∧
      former.derive "sc2tog" 2 .together = .ok u ∧
      ((start.history rebased).resolve "sc2tog").1 = .ok u ∧
      (former = base ∨ "sc" ∉ (start.history before).defined ∧
        "sc" ∈ (start.history rebased).defined) := by
  obtain ⟨start, ok⟩ := builtinMade
  obtain ⟨base, stored, derived, facts⟩ := rebasedRuns ok
  exact ⟨start, base, derived, ok, foreignName, facts.undefined, nameSplits, facts.found,
    facts.derivable, variantOfItsTime ok foreignName facts.undefined nameSplits facts.found
      facts.derivable⟩

theorem variantOutlivesBase : ∃ start base derived, builtin = .ok start ∧
    "sc2tog" ∉ stitchDictionary.map Prod.fst ∧ "sc2tog" ∉ (start.history rebased).defined ∧
    VariantName.parse? "sc2tog" = some ⟨"sc", 2, .together⟩ ∧
    (start.history rebased).find? "sc" = some base ∧
    base.derive "sc2tog" 2 .together = .ok derived ∧
    ((start.history rebased).resolve "sc2tog").1 ≠ base.derive "sc2tog" 2 .together := by
  obtain ⟨start, ok⟩ := builtinMade
  obtain ⟨base, stored, derived, facts⟩ := rebasedRuns ok
  refine ⟨start, base, derived, ok, foreignName, facts.undefined, nameSplits, facts.found,
    facts.derivable, ?_⟩
  rw [resolveStored facts.kept, facts.derivable]
  intro same
  cases same
  have apart := facts.apart
  omega

end Registry
end Crochet
