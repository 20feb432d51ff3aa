import Crochet.Fault.Basic

/-! A fault as it is shown to the author of a pattern: its place, then the source line with the
offending text underlined. -/
namespace Crochet
open Text

structure Location where
  line : Nat
  column : Nat
  span : Span
  snippet : List Char
  deriving DecidableEq, Repr

structure Diagnostic where
  kind : FaultKind
  message : String
  location : Option Location
  deriving DecidableEq, Repr

/-- Lines of a text; each line's end, `\n` or `\r\n`, is dropped, and nothing follows the last. -/
def textLines (cs : List Char) : List (List Char) :=
  let all := pieces (· == '\n') cs
  let ended := all.dropLast.map fun line => (before? ['\r'] line).getD line
  match all.getLast? with
  | some (c :: line) => ended ++ [c :: line]
  | _ => ended

namespace Diagnostic

def ofFault (f : Fault) (source : List Char) : Diagnostic where
  kind := f.kind
  message := f.message
  location := f.span.map fun span =>
    let (line, column) := span.lineColumn source
    { line, column, span, snippet := span.snippet source }

def underline (l : Location) (line : List Char) : String :=
  let width := max 1 ((textLines l.snippet).headD []).length
  "\n  " ++ String.ofList line ++ "\n  "
    ++ String.ofList (List.replicate (l.column - 1) ' ' ++ List.replicate width '^')

def render (d : Diagnostic) (source : List Char) : String :=
  let headline := s!"{d.kind.display}: {d.message}"
  match d.location with
  | none => headline
  | some l =>
    let quoted := match (textLines source)[l.line - 1]? with
      | some line => underline l line
      | none => ""
    s!"{l.line}:{l.column}: {headline}{quoted}"

end Diagnostic
end Crochet
