import Crochet.Proofs.Color.Keyed

/-! Text edited from left to right, switches aside. An edit puts other characters for some text or drops
it. It touches no switch: not its key, nor what ends it, and it puts no mark together. Then behind
every mark of the outcome stands a key, as before. -/
namespace Crochet.Color
open Text Source

def Apart (back : List Char) (first : Char) : Prop :=
  (¬ colorMark.reverse <+: back ∧ ∀ d ∈ back.head?, d.isDigit = false) ∨
    (first.isDigit = false ∧ Repeat.isEnding first = false)

/- `back` is what has been written so far, backwards, and `thin` what is left of a text once all that
goes has gone. -/
inductive Edited (thin : List Char → List Char) : List Char → List Char → List Char → Prop where
  | done {back : List Char} : Edited thin back [] []
  | keep {back t out : List Char} {c : Char} (thins : thin (c :: t) = c :: thin t)
      (whole : colorMark <+: thin (c :: t) → colorMark <+: c :: t)
      (more : Edited thin (c :: back) t out) : Edited thin back (c :: t) (c :: out)
  | put (old new : List Char) {back t out : List Char} {c d : Char} (apart : Apart back c)
      (foreign : ∀ e ∈ d :: new, e ∉ colorMark) (more : Edited thin ((d :: new).reverse ++ back) t out) :
      Edited thin back (c :: (old ++ t)) (d :: (new ++ out))
  | drop (old : List Char) {back t out : List Char} {c : Char} (apart : Apart back c)
      (foreign : c ∉ colorMark)
      (thins : thin (c :: (old ++ t)) = thin t ∨ ∀ e ∈ back.head?, e ∉ colorMark)
      (more : Edited thin back t out) : Edited thin back (c :: (old ++ t)) out

section
variable {thin : List Char → List Char} {back t out : List Char}

theorem editedPrefix (edited : Edited thin back t out) {p : List Char} (own : ∀ c ∈ p, c ∈ colorMark)
    (behind : ∃ e ∈ back.head?, e ∈ colorMark) (starts : p <+: out) : p <+: thin t := by
  induction edited generalizing p with
  | done =>
    rw [List.prefix_nil.mp starts]
    exact List.nil_prefix
  | keep thins _ _ ih =>
    cases p with
    | nil => exact List.nil_prefix
    | cons c p =>
      obtain ⟨rfl, more⟩ := List.cons_prefix_cons.mp starts
      obtain ⟨first, rest⟩ := List.forall_mem_cons.mp own
      rw [thins]
      exact List.cons_prefix_cons.mpr ⟨rfl, ih rest ⟨c, rfl, first⟩ more⟩
  | put _ _ _ foreign =>
    cases p with
    | nil => exact List.nil_prefix
    | cons c p =>
      obtain ⟨rfl, _⟩ := List.cons_prefix_cons.mp starts
      exact absurd (own c List.mem_cons_self) (foreign c List.mem_cons_self)
  | drop _ _ _ thins _ ih =>
    rcases thins with same | apart
    · rw [same]
      exact ih own behind starts
    · obtain ⟨e, first, inside⟩ := behind
      exact absurd inside (apart e first)

theorem editedAlong {p u : List Char} (edited : Edited thin back (p ++ u) out)
    (own : ∀ c ∈ p, c ∈ colorMark) (starts : p <+: out) :
    ∃ later, out = p ++ later ∧ Edited thin (p.reverse ++ back) u later := by
  induction p generalizing back out with
  | nil => exact ⟨out, rfl, edited⟩
  | cons q p ih =>
    obtain ⟨first, rest⟩ := List.forall_mem_cons.mp own
    generalize same : q :: p ++ u = whole at edited
    cases edited with
    | done => cases same
    | keep _ _ more =>
      cases same
      obtain ⟨later, rfl, edited⟩ := ih more rest (List.cons_prefix_cons.mp starts).2
      exact ⟨later, rfl, by simpa using edited⟩
    | put _ _ _ foreign =>
      obtain ⟨rfl, _⟩ := List.cons_prefix_cons.mp starts
      exact absurd first (foreign q List.mem_cons_self)
    | drop _ _ foreign =>
      cases (List.cons.inj same).1
      exact absurd first foreign

theorem editedClosed (edited : Edited thin back t out) (digit : ∃ d ∈ back.head?, d.isDigit = true)
    (closed : Closed t) : Closed out := by
  have untouched : ∀ {c : Char} {u : List Char}, Apart back c → ¬ Closed (c :: u) := by
    rintro c u (⟨_, plain⟩ | ⟨_, open'⟩) closed
    · obtain ⟨d, first, digit⟩ := digit
      rw [plain d first] at digit
      cases digit
    · rw [closed c rfl] at open'
      cases open'
  cases edited with
  | done => exact closed
  | keep => exact closed
  | put _ _ apart => exact absurd closed (untouched apart)
  | drop _ apart => exact absurd closed (untouched apart)

theorem editedKey {ds rest : List Char} (edited : Edited thin back (ds ++ rest) out)
    (digits : ∀ d ∈ ds, d.isDigit = true)
    (held : colorMark.reverse <+: back ∨ ∃ d ∈ back.head?, d.isDigit = true)
    (some : ds = [] → ∃ d ∈ back.head?, d.isDigit = true) (closed : Closed rest) :
    ∃ later, out = ds ++ later ∧ Closed later := by
  induction ds generalizing back out with
  | nil => exact ⟨out, rfl, editedClosed edited (some rfl) closed⟩
  | cons d ds ih =>
    obtain ⟨first, later⟩ := List.forall_mem_cons.mp digits
    have untouched : ¬ Apart back d := by
      rintro (⟨unmarked, plain⟩ | ⟨plain, _⟩)
      · rcases held with marked | ⟨e, behind, digit⟩
        · exact unmarked marked
        · rw [plain e behind] at digit
          cases digit
      · rw [first] at plain
        cases plain
    generalize same : d :: ds ++ rest = whole at edited
    cases edited with
    | done => cases same
    | keep _ _ more =>
      cases same
      have behind : ∃ e ∈ (d :: back).head?, e.isDigit = true := ⟨d, rfl, first⟩
      obtain ⟨end', rfl, closed⟩ := ih more later (.inr behind) fun _ => behind
      exact ⟨end', rfl, closed⟩
    | put _ _ apart =>
      cases (List.cons.inj same).1
      exact absurd apart untouched
    | drop _ apart =>
      cases (List.cons.inj same).1
      exact absurd apart untouched

theorem editedKeyed {keys : List Nat} (edited : Edited thin back t out) (keyed : Keyed keys t) :
    Keyed keys out := by
  induction edited with
  | done => exact keyed
  | @keep back t out c thins whole more ih =>
    intro x y marked
    cases x with
    | cons _ x => exact ih (keyedRest (a := [c]) keyed) x y (List.cons.inj marked).2
    | nil =>
      have letters : ∀ e ∈ "OLOR:".toList, e ∈ colorMark := fun e => by
        rw [markCons]
        exact List.mem_cons_of_mem _
      rw [List.nil_append, markCons] at marked
      obtain ⟨rfl, written⟩ := List.cons.inj marked
      -- The mark that is written was there before, and its key behind it.
      have starts : "OLOR:".toList <+: out := ⟨y, written.symm⟩
      have thinned := editedPrefix more letters ⟨'C', rfl, by decide⟩ starts
      obtain ⟨u, was⟩ : colorMark <+: 'C' :: t := by
        refine whole ?_
        rw [thins, markCons]
        exact List.cons_prefix_cons.mpr ⟨rfl, thinned⟩
      obtain ⟨key, member, rest, digits, closed⟩ := keyed [] u was.symm
      rw [markCons] at was
      rw [← (List.cons.inj was).2] at more
      obtain ⟨later, same, edited⟩ := editedAlong more letters starts
      cases List.append_cancel_left (same.symm.trans written)
      subst digits
      have held : colorMark.reverse <+: "OLOR:".toList.reverse ++ 'C' :: back := ⟨back, rfl⟩
      have some : Nat.toDigits 10 key = [] → False := by simp
      obtain ⟨end', same, closed⟩ :=
        editedKey edited (keyDigits key) (.inl held) (fun none => (some none).elim) closed
      exact ⟨key, member, end', same, closed⟩
  | @put _ new _ _ _ _ d _ foreign _ ih =>
    intro x y marked
    have clean : 'C' ∉ d :: new := fun inside => foreign _ inside (by decide)
    obtain ⟨lead, own⟩ := markLater clean marked
    exact ih (keyedRest (a := _ :: _) keyed) lead y own
  | @drop old _ _ _ c _ _ _ _ ih => exact ih (keyedRest (a := c :: old) keyed)

end
end Crochet.Color
