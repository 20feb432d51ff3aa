import Crochet.Proofs.Template.Closed
import Crochet.Registry

/-! Registries that definitions and look-ups lead to, and what all their templates have in common. -/
namespace Crochet
namespace Registry

inductive After (start : Registry) : Registry → Prop where
  | start : After start start
  | defineSpec {r : Registry} (name raw : String) (before : After start r) :
      After start (r.defineSpec name raw).2
  | rescale {r : Registry} (base name : String) (height width : Float) (before : After start r) :
      After start (r.rescale base name height width).2
  | synthesize {r : Registry} (name : String) (before : After start r) :
      After start (r.synthesize name).2
  | resolve {r : Registry} (name : String) (before : After start r) :
      After start (r.resolve name).2

def Reached (r : Registry) : Prop :=
  After {} r ∨ ∃ start, builtin = .ok start ∧ After start r

theorem Reached.defineSpec {r : Registry} (reached : Reached r) (name raw : String) :
    Reached (r.defineSpec name raw).2 := by
  rcases reached with after | ⟨start, ok, after⟩
  · exact .inl (.defineSpec name raw after)
  · exact .inr ⟨start, ok, .defineSpec name raw after⟩

def Every (P : Template → Prop) (r : Registry) : Prop := ∀ entry ∈ r.templates, P entry.2

/- A property of templates that specs have and that the making of new stitches keeps. -/
structure Hereditary (P : Template → Prop) : Prop where
  parse : ∀ {name raw t}, Template.parse name raw = .ok t → P t
  rename : ∀ {t : Template} (name : String), P t → P { t with name := name }
  derive : ∀ {base t : Template} {name count kind}, P base → base.derive name count kind = .ok t → P t
  rescale : ∀ {base t : Template} {name height width}, P base →
    base.rescale name height width = .ok t → P t

variable {name : String} {t : Template}

theorem putMember {entries : List (String × Template)} {entry : String × Template}
    (member : entry ∈ put name t entries) :
    entry ∈ entries ∨ entry = (name, t) := by
  induction entries with
  | nil => exact .inr (by simpa [put] using member)
  | cons first rest ih =>
    unfold put at member
    split at member
    · rcases List.mem_cons.mp member with rfl | inside
      · exact .inr rfl
      · exact .inl (List.mem_cons_of_mem _ inside)
    · rcases List.mem_cons.mp member with rfl | inside
      · exact .inl List.mem_cons_self
      · exact (ih inside).imp_left (List.mem_cons_of_mem _)

theorem findMember {r : Registry} (found : r.find? name = some t) :
    (name, t) ∈ r.templates := by
  obtain ⟨before, after, same, _⟩ := List.lookup_eq_some_iff.mp found
  rw [same]
  simp

section
variable {P : Template → Prop} {r : Registry}

theorem everyFound (every : r.Every P) (found : r.find? name = some t) :
    P t := every _ (findMember found)

theorem everyInsert (every : r.Every P) (holds : P t) :
    (r.insert name t).Every P := by
  intro entry member
  rcases putMember member with old | rfl
  · exact every entry old
  · exact holds

variable (hereditary : Hereditary P)
include hereditary

theorem everyDefine (every : r.Every P) (holds : P t) :
    (r.define name t).2.Every P := by
  unfold define
  split
  · exact every
  · exact everyInsert every (hereditary.rename name holds)

theorem everyDefineSpec (every : r.Every P) (name raw : String) :
    (r.defineSpec name raw).2.Every P := by
  unfold defineSpec
  split
  · exact every
  · rename_i read
    exact everyDefine hereditary every (hereditary.parse read)

theorem variantHolds (every : r.Every P) (ok : r.variant name = .ok t) : P t := by
  unfold variant at ok
  split at ok
  · cases ok
  split at ok
  · cases ok
  · rename_i found
    exact hereditary.derive (everyFound every found) ok

theorem everySynthesize (every : r.Every P) (name : String) :
    (r.synthesize name).2.Every P := by
  unfold synthesize
  split
  · exact every
  · rename_i made
    exact everyInsert every (variantHolds hereditary every made)

theorem everyResolve (every : r.Every P) (name : String) : (r.resolve name).2.Every P := by
  unfold resolve
  split
  · exact every
  · exact everySynthesize hereditary every name

theorem resolvedHolds (every : r.Every P) {after : Registry} (ok : r.resolve name = (.ok t, after)) :
    P t := by
  unfold resolve at ok
  split at ok
  · rename_i found
    cases ok
    exact everyFound every found
  · unfold synthesize at ok
    split at ok
    · cases ok
    · rename_i made
      cases ok
      exact variantHolds hereditary every made

theorem everyRescale (every : r.Every P) (base name : String) (height width : Float) :
    (r.rescale base name height width).2.Every P := by
  have kept := everyResolve hereditary every base
  unfold rescale
  split
  · rename_i found
    rw [found] at kept
    exact kept
  · rename_i found
    rw [found] at kept
    split
    · exact kept
    · rename_i made
      exact everyDefine hereditary kept
        (hereditary.rescale (resolvedHolds hereditary every found) made)

theorem everyAfter {start : Registry} (every : start.Every P) (after : After start r) :
    r.Every P := by
  induction after with
  | start => exact every
  | defineSpec name raw _ ih => exact everyDefineSpec hereditary ih name raw
  | rescale base name height width _ ih => exact everyRescale hereditary ih base name height width
  | synthesize name _ ih => exact everySynthesize hereditary ih name
  | resolve name _ ih => exact everyResolve hereditary ih name

theorem everyBuiltin (ok : builtin = .ok r) : r.Every P := by
  refine foldKeeps (Every P) ?_ ?_ ok
  · rintro ⟨name, raw⟩ _ before next every one
    obtain ⟨t, read, one⟩ := bindOk one
    cases pureOk one
    exact everyInsert every (hereditary.parse read)
  · intro entry member
    cases member

theorem everyReached (reached : Reached r) : r.Every P := by
  rcases reached with after | ⟨start, ok, after⟩
  · refine everyAfter hereditary ?_ after
    intro entry member
    cases member
  · exact everyAfter hereditary (everyBuiltin hereditary ok) after

end

theorem closedHereditary : Hereditary Template.Closed where
  parse := Template.closedParse
  rename := fun name closed => Template.closedRenamed closed name
  derive := Template.closedDerive
  rescale := Template.closedRescale

def plain : Registry :=
  ((({} : Registry).defineSpec "ch" "&ch^A(ch):~::!-1-A").2.defineSpec
    "sc" "&sc^A(sc):B~A-B::!-1-A;B-1-A").2

theorem emptyReached : Reached {} := .inl .start

theorem plainReached : Reached plain :=
  (emptyReached.defineSpec _ _).defineSpec _ _

theorem templatesClosed :
    (∀ r, Reached r → ∀ entry ∈ r.templates, entry.2.Closed) ∧
    (∀ base t : Template, ∀ name count kind,
      base.Closed → base.derive name count kind = .ok t → t.Closed) ∧
    ∀ base t : Template, ∀ name height width,
      base.Closed → base.rescale name height width = .ok t → t.Closed := by
  refine ⟨?_, ?_, ?_⟩
  · intro r reached
    exact everyReached closedHereditary reached
  · intro base t name count kind closed ok
    exact Template.closedDerive closed ok
  · intro base t name height width closed ok
    exact Template.closedRescale closed ok

def tall : Registry := ((plain.rescale "sc2tog" "tall" 2.0 (-1.0)).2.synthesize "none3inc").2

theorem tallReached : Reached tall :=
  .inl (.synthesize _ (.rescale _ _ _ _ (.defineSpec _ _ (.defineSpec _ _ .start))))

theorem templatesClosedStacked : ∃ t u v, Reached tall ∧ ("tall", t) ∈ tall.templates ∧ t.Closed ∧
    t.derive "tall3tog" 3 .together = .ok u ∧ u.Closed ∧
    u.rescale "wide" (-1.0) 2.0 = .ok v ∧ v.Closed := by
  have stored : (tall.find? "tall").isSome = true := by decide +kernel
  obtain ⟨t, found⟩ := Option.isSome_iff_exists.mp stored
  have chain : ((tall.find? "tall").all fun t => (t.derive "tall3tog" 3 .together >>= fun u =>
      u.rescale "wide" (-1.0) 2.0).isOk) = true := by
    decide +kernel
  rw [found] at chain
  obtain ⟨v, run⟩ := someOk chain
  obtain ⟨u, derived, copied⟩ := bindOk run
  have closed : t.Closed := templatesClosed.1 tall tallReached _ (findMember found)
  have closedU : u.Closed := templatesClosed.2.1 t u _ _ _ closed derived
  exact ⟨t, u, v, tallReached, findMember found, closed, derived, closedU, copied,
    templatesClosed.2.2 u v _ _ _ closedU copied⟩

end Registry
end Crochet
