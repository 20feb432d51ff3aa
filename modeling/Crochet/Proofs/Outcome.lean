import Crochet.Fault.Basic

/-! Steps that may fail, one after another over a list. What one step keeps the whole run keeps. -/
namespace Crochet

variable {m : Except ε α} {value x : α} {step : β → α → Except ε β} {xs : List α} {start last : β}
  {f : α → Except ε β} {ys : List β}

theorem mapErrorOk {f : ε → δ} (ok : m.mapError f = .ok value) :
    m = .ok value := by
  cases m with
  | error fault => cases ok
  | ok x => cases ok; rfl

theorem pureOk (ok : (pure x : Except ε α) = .ok value) : x = value := by
  cases ok; rfl

theorem okBind (x : α) (f : α → Except ε β) : (.ok x >>= f) = f x := rfl

theorem iteOk {condition : Prop} [Decidable condition] {y : α}
    (ok : (if condition then pure x else pure y : Except ε α) = .ok value) :
    x = value ∨ y = value := by
  split at ok
  · exact .inl (pureOk ok)
  · exact .inr (pureOk ok)

theorem someOk (ok : m.isOk = true) : ∃ value, m = .ok value := by
  cases m with
  | error fault => cases ok
  | ok value => exact ⟨value, rfl⟩

theorem testOk {test : α → Bool} (ok : m.toOption.any test = true) :
    ∃ value, m = .ok value ∧ test value = true := by
  cases m with
  | error fault => cases ok
  | ok value => exact ⟨value, rfl, ok⟩

theorem notOk (failed : m.isOk = false) : ∃ fault, m = .error fault := by
  cases m with
  | error fault => exact ⟨fault, rfl⟩
  | ok value => cases failed

def faultOf? : Except ε α → Option ε
  | .error fault => some fault
  | .ok _ => none

theorem testFault {test : ε → Bool} (failed : (faultOf? m).any test = true) :
    ∃ fault, m = .error fault ∧ test fault = true := by
  cases m with
  | error fault => exact ⟨fault, rfl, failed⟩
  | ok value => cases failed

theorem foldConsOk (ok : (x :: xs).foldlM step start = .ok last) :
    ∃ next, step start x = .ok next ∧ xs.foldlM step next = .ok last := by
  rw [List.foldlM_cons] at ok
  exact bindOk ok

/- The invariant may speak of the items that are still to come. -/
theorem foldRest (Inv : List α → β → Prop)
    (keeps : ∀ x rest b next, Inv (x :: rest) b → step b x = .ok next → Inv rest next)
    (initial : Inv xs start) (ok : xs.foldlM step start = .ok last) : Inv [] last := by
  induction xs generalizing start with
  | nil => cases pureOk ok; exact initial
  | cons x rest ih =>
    obtain ⟨next, one, more⟩ := foldConsOk ok
    exact ih (keeps x rest start next initial one) more

theorem foldKeeps (Inv : β → Prop)
    (keeps : ∀ x ∈ xs, ∀ b next, Inv b → step b x = .ok next → Inv next) (initial : Inv start)
    (ok : xs.foldlM step start = .ok last) : Inv last := by
  induction xs generalizing start with
  | nil => cases pureOk ok; exact initial
  | cons x rest ih =>
    obtain ⟨next, one, more⟩ := foldConsOk ok
    exact ih (fun y member => keeps y (List.mem_cons_of_mem _ member))
      (keeps x List.mem_cons_self start next initial one) more

theorem foldRuns (Inv : β → Prop)
    (runs : ∀ x ∈ xs, ∀ b, Inv b → ∃ next, step b x = .ok next ∧ Inv next) (initial : Inv start) :
    ∃ last, xs.foldlM step start = .ok last ∧ Inv last := by
  induction xs generalizing start with
  | nil => exact ⟨start, rfl, initial⟩
  | cons x rest ih =>
    obtain ⟨next, one, kept⟩ := runs x List.mem_cons_self start initial
    obtain ⟨last, more, final⟩ :=
      ih (fun y member => runs y (List.mem_cons_of_mem _ member)) kept
    refine ⟨last, ?_, final⟩
    rw [List.foldlM_cons, one]
    exact more

theorem foldAt {i : Nat} (here : xs[i]? = some x) (ok : xs.foldlM step start = .ok last) :
    ∃ b next, (xs.take i).foldlM step start = .ok b ∧ step b x = .ok next ∧
      (xs.drop (i + 1)).foldlM step next = .ok last := by
  induction xs generalizing start i with
  | nil => cases here
  | cons y rest ih =>
    obtain ⟨next, one, more⟩ := foldConsOk ok
    cases i with
    | zero =>
      cases here
      exact ⟨start, next, rfl, one, more⟩
    | succ i =>
      obtain ⟨b, then', run, there, later⟩ := ih here more
      refine ⟨b, then', ?_, there, later⟩
      rw [List.take_succ_cons, List.foldlM_cons, one]
      exact run

theorem foldFirst (P : β → Prop) (initial : ¬ P start) (final : P last)
    (ok : xs.foldlM step start = .ok last) :
    ∃ before x after b next, xs = before ++ x :: after ∧ before.foldlM step start = .ok b ∧
      ¬ P b ∧ step b x = .ok next ∧ P next ∧ after.foldlM step next = .ok last := by
  induction xs generalizing start with
  | nil => cases pureOk ok; exact absurd final initial
  | cons x rest ih =>
    obtain ⟨next, one, more⟩ := foldConsOk ok
    by_cases holds : P next
    · exact ⟨[], x, rest, start, next, rfl, rfl, initial, one, holds, more⟩
    · obtain ⟨before, y, after, b, then', rfl, run, rest⟩ := ih holds more
      refine ⟨x :: before, y, after, b, then', rfl, ?_, rest⟩
      rw [List.foldlM_cons, one]
      exact run

theorem mapMConsOk (ok : (x :: xs).mapM f = .ok ys) :
    ∃ y rest, f x = .ok y ∧ xs.mapM f = .ok rest ∧ ys = y :: rest := by
  rw [List.mapM_cons] at ok
  obtain ⟨y, head, ok⟩ := bindOk ok
  obtain ⟨rest, tail, ok⟩ := bindOk ok
  exact ⟨y, rest, head, tail, (pureOk ok).symm⟩

theorem mapMSame {g : α → Except ε β} (same : ∀ x ∈ xs, g x = f x) :
    xs.mapM g = xs.mapM f := by
  induction xs with
  | nil => rfl
  | cons x rest ih =>
    rw [List.mapM_cons, List.mapM_cons, same x List.mem_cons_self,
      ih fun y member => same y (List.mem_cons_of_mem _ member)]

theorem mapMAt (ok : xs.mapM f = .ok ys) (n : Nat) :
    (∀ x, xs[n]? = some x → ∃ y, ys[n]? = some y ∧ f x = .ok y) ∧
      (∀ y, ys[n]? = some y → ∃ x, xs[n]? = some x ∧ f x = .ok y) := by
  induction xs generalizing ys n with
  | nil => cases pureOk ok; simp
  | cons x rest ih =>
    obtain ⟨y, tail, head, more, same⟩ := mapMConsOk ok
    subst same
    cases n with
    | zero => simp [head]
    | succ n => simpa using ih more n

theorem mapMLength (ok : xs.mapM f = .ok ys) :
    ys.length = xs.length := by
  induction xs generalizing ys with
  | nil => cases pureOk ok; rfl
  | cons x rest ih =>
    obtain ⟨y, tail, _, more, same⟩ := mapMConsOk ok
    subst same
    simp [ih more]

theorem mapMFrom (ok : xs.mapM f = .ok ys) {y : β} (member : y ∈ ys) : ∃ x ∈ xs, f x = .ok y := by
  obtain ⟨n, found⟩ := List.mem_iff_getElem?.mp member
  obtain ⟨x, source, made⟩ := (mapMAt ok n).2 y found
  exact ⟨x, List.mem_iff_getElem?.mpr ⟨n, source⟩, made⟩

theorem forMConsOk {f : α → Except ε Unit} (ok : (x :: xs).forM f = .ok ()) :
    f x = .ok () ∧ xs.forM f = .ok () := by
  obtain ⟨_, head, rest⟩ := bindOk (m := f x) ok
  exact ⟨head, rest⟩

theorem forMOk {f : α → Except ε Unit} (ok : xs.forM f = .ok ()) :
    ∀ x ∈ xs, f x = .ok () := by
  induction xs with
  | nil => simp
  | cons x rest ih =>
    obtain ⟨head, more⟩ := forMConsOk ok
    intro y member
    rcases List.mem_cons.mp member with rfl | inside
    · exact head
    · exact ih more y inside

theorem forMError {f : α → Except ε Unit} {fault : ε} (failed : xs.forM f = .error fault) :
    ∃ x ∈ xs, f x = .error fault := by
  induction xs with
  | nil => cases failed
  | cons x rest ih =>
    cases head : f x with
    | error other =>
      have same : (x :: rest).forM f = .error other := by
        simp only [List.forM, head]
        rfl
      cases same.symm.trans failed
      exact ⟨x, List.mem_cons_self, head⟩
    | ok _ =>
      have more : rest.forM f = .error fault := by
        simp only [List.forM, head] at failed
        exact failed
      obtain ⟨y, member, stops⟩ := ih more
      exact ⟨y, List.mem_cons_of_mem _ member, stops⟩

def Faults (E : ε → Prop) (m : Except ε α) : Prop := ∀ fault, m = .error fault → E fault

namespace Faults
variable {E F : ε → Prop}

theorem ok (x : α) : Faults E (.ok x) := by
  intro fault failed
  cases failed

theorem error {fault : ε} (holds : E fault) : Faults E (.error fault : Except ε α) := by
  intro other failed
  cases failed
  exact holds

theorem mono (faults : Faults E m) (wider : ∀ fault, E fault → F fault) : Faults F m :=
  fun fault failed => wider fault (faults fault failed)

theorem bind {f : α → Except ε β} (faults : Faults E m) (more : ∀ x, m = .ok x → Faults E (f x)) :
    Faults E (m >>= f) := by
  cases m with
  | error fault => exact error (faults fault rfl)
  | ok x => exact more x rfl

theorem map {f : α → β} (faults : Faults E m) : Faults E (m.map f) := by
  cases m with
  | error fault => exact error (faults fault rfl)
  | ok x => exact ok (f x)

theorem mapError {F : δ → Prop} {f : ε → δ} (faults : Faults E m)
    (becomes : ∀ fault, E fault → F (f fault)) : Faults F (m.mapError f) := by
  cases m with
  | error fault => exact error (becomes fault (faults fault rfl))
  | ok x => exact ok x

theorem fold {step : β → α → Except ε β} (Inv : β → Prop)
    (faults : ∀ x ∈ xs, ∀ b, Inv b → Faults E (step b x))
    (keeps : ∀ x ∈ xs, ∀ b next, Inv b → step b x = .ok next → Inv next) {start : β}
    (initial : Inv start) : Faults E (xs.foldlM step start) := by
  induction xs generalizing start with
  | nil => exact ok start
  | cons x rest ih =>
    rw [List.foldlM_cons]
    refine (faults x List.mem_cons_self start initial).bind fun next one => ?_
    exact ih (fun y member => faults y (List.mem_cons_of_mem _ member))
      (fun y member => keeps y (List.mem_cons_of_mem _ member))
      (keeps x List.mem_cons_self start next initial one)

theorem mapM {f : α → Except ε β} (faults : ∀ x ∈ xs, Faults E (f x)) :
    Faults E (xs.mapM f) := by
  induction xs with
  | nil => exact ok []
  | cons x rest ih =>
    rw [List.mapM_cons]
    refine (faults x List.mem_cons_self).bind fun y _ => ?_
    refine (ih fun z member => faults z (List.mem_cons_of_mem _ member)).bind fun ys _ => ?_
    exact ok (y :: ys)

theorem forM {f : α → Except ε Unit} (faults : ∀ x ∈ xs, Faults E (f x)) :
    Faults E (xs.forM f) := by
  intro fault failed
  obtain ⟨x, member, stops⟩ := forMError failed
  exact faults x member fault stops

end Faults
end Crochet
