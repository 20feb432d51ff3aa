import Crochet.Proofs.Outcome

/-! Two computations that go the same way: where one gives a result the other gives it moved, and
where one fails the other fails alike. -/
namespace Crochet

inductive InStep (like : ε → ε → Prop) (move : α → β) : Except ε α → Except ε β → Prop where
  | ok (x : α) : InStep like move (.ok x) (.ok (move x))
  | error {fault other : ε} (same : like fault other) :
    InStep like move (.error fault) (.error other)

structure Fault.Like (fault other : Fault) : Prop where
  kind : other.kind = fault.kind
  span : other.span = fault.span

namespace InStep
variable {like : ε → ε → Prop} {move : α → β} {m : Except ε α} {n : Except ε β}

theorem okAs {x : α} {y : β} (same : y = move x) : InStep like move (.ok x) (.ok y) := by
  subst same
  exact .ok x

variable {move' : γ → δ} {step : β → α → Except ε β} {step' : γ → α → Except ε γ}

theorem bind {j : α → Except ε γ} {k : β → Except ε δ} (first : InStep like move m n)
    (next : ∀ x, m = .ok x → n = .ok (move x) → InStep like move' (j x) (k (move x))) :
    InStep like move' (m >>= j) (n >>= k) := by
  cases first with
  | ok x => exact next x rfl rfl
  | error same => exact .error same

theorem map {j : α → γ} {k : β → δ} (first : InStep like move m n)
    (moved : ∀ x, m = .ok x → k (move x) = move' (j x)) :
    InStep like move' (m.map j) (n.map k) := by
  cases first with
  | ok x => exact okAs (moved x rfl)
  | error same => exact .error same

theorem mapError {like' : φ → φ → Prop} {j k : ε → φ} (first : InStep like move m n)
    (same : ∀ fault other, like fault other → like' (j fault) (k other)) :
    InStep like' move (m.mapError j) (n.mapError k) := by
  cases first with
  | ok x => exact .ok x
  | error fault => exact .error (same _ _ fault)

theorem either {condition : Prop} [Decidable condition] {m' : Except ε α} {n' : Except ε β}
    (left : InStep like move m n) (right : InStep like move m' n') :
    InStep like move (if condition then m else m') (if condition then n else n') := by
  split
  · exact left
  · exact right

variable {xs : List α}

theorem fold {move : β → γ} {start : β} (Inv : List α → β → Prop) (initial : Inv xs start)
    (goes : ∀ x rest b, Inv (x :: rest) b → InStep like move (step b x) (step' (move b) x))
    (keeps : ∀ x rest b next, Inv (x :: rest) b → step b x = .ok next →
      step' (move b) x = .ok (move next) → Inv rest next) :
    InStep like move (xs.foldlM step start) (xs.foldlM step' (move start)) := by
  induction xs generalizing start with
  | nil => exact .ok start
  | cons x rest ih =>
    rw [List.foldlM_cons, List.foldlM_cons]
    refine (goes x rest start initial).bind ?_
    intro next one other
    exact ih (keeps x rest start next initial one other)

theorem foldAll {move : β → γ} (goes : ∀ x b, InStep like move (step b x) (step' (move b) x))
    (xs : List α) (start : β) :
    InStep like move (xs.foldlM step start) (xs.foldlM step' (move start)) :=
  fold (fun _ _ => True) trivial (fun x _ b _ => goes x b) fun _ _ _ _ _ _ _ => trivial

theorem mapM {f : α → Except ε β} {f' : α → Except ε γ} {move : β → γ}
    (goes : ∀ x ∈ xs, InStep like move (f x) (f' x)) :
    InStep like (List.map move) (xs.mapM f) (xs.mapM f') := by
  induction xs with
  | nil => exact .ok []
  | cons x rest ih =>
    rw [List.mapM_cons, List.mapM_cons]
    refine (goes x List.mem_cons_self).bind fun y _ _ => ?_
    refine (ih fun z member => goes z (List.mem_cons_of_mem _ member)).bind fun ys _ _ => ?_
    exact .ok (y :: ys)

theorem forM {f : α → Except ε Unit} {f' : β → Except ε Unit}
    (goes : ∀ x ∈ xs, InStep like id (f x) (f' (move x))) :
    InStep like id (xs.forM f) ((xs.map move).forM f') := by
  induction xs with
  | nil => exact .ok ()
  | cons x rest ih =>
    refine (goes x List.mem_cons_self).bind fun _ _ _ => ?_
    exact ih fun y member => goes y (List.mem_cons_of_mem _ member)

end InStep

theorem Fault.Like.refl (fault : Fault) : fault.Like fault := ⟨rfl, rfl⟩

theorem inStepCases {m n : Outcome α} (inStep : InStep Fault.Like id m n) :
    (∃ x, m = .ok x ∧ n = .ok x) ∨ ∃ fault other, m = .error fault ∧ n = .error other ∧
      fault.kind = other.kind ∧ fault.span = other.span := by
  cases inStep with
  | ok x => exact .inl ⟨x, rfl, rfl⟩
  | error like => exact .inr ⟨_, _, rfl, rfl, like.kind.symm, like.span.symm⟩

theorem inStepFault {move : α → β} {cause other : Cause} (span : Span)
    (same : other.kind = cause.kind) :
    InStep Fault.Like move (faultAt cause span) (faultAt other span) :=
  .error ⟨same, rfl⟩

end Crochet
