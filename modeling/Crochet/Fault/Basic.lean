import Crochet.Fault.Cause
import Crochet.Span

/-! A fault: its cause, where in the pattern it is, and the text there. -/
namespace Crochet

/-- `snippet` is the source text under `span`, once the source is known. -/
structure Fault where
  cause : Cause
  span : Option Span := none
  snippet : Option String := none
  deriving DecidableEq, Repr

namespace Fault

def kind (f : Fault) : FaultKind := f.cause.kind

def message (f : Fault) : String := f.cause.message

def orAt (f : Fault) (span : Span) : Fault := { f with span := f.span <|> some span }

def withSource (f : Fault) (source : List Char) : Fault :=
  match f.span with
  | none => f
  | some span => { f with snippet := some (String.ofList (span.snippet source)) }

def display (f : Fault) : String :=
  let head := s!"{f.kind.display}: {f.message}"
  match f.span with
  | none => head
  | some span =>
    let shown := match f.snippet with
      | none => ""
      | some snippet => if snippet.isEmpty then "" else s!" ('{snippet}')"
    s!"{head} at {span.display}{shown}"

end Fault

abbrev Outcome := Except Fault

def faultAt (cause : Cause) (span : Span) : Outcome α := .error { cause, span := some span }

theorem bindOk {m : Except ε α} {k : α → Except ε β} {value : β} (h : (m >>= k) = .ok value) :
    ∃ x, m = .ok x ∧ k x = .ok value := by
  cases m with
  | error fault => cases h
  | ok x => exact ⟨x, rfl, h⟩

theorem mapOk {m : Except ε α} {f : α → β} {value : β} (h : m.map f = .ok value) :
    ∃ x, m = .ok x ∧ f x = value := by
  cases m with
  | error fault => cases h
  | ok x => cases h; exact ⟨x, rfl, rfl⟩

end Crochet
