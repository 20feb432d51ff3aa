import Crochet.Command.Basic
import Crochet.Compiler
import Crochet.Diagnostic
import Crochet.Options.Read
import Crochet.Row.Json
import Crochet.Row.Written

/-! Carrying out a command. Files and standard input are reached through a host. -/
namespace Crochet.Command

structure Host (m : Type → Type) where
  load : String → m (Option String)
  input : m (Option String)
  store : String → String → m Bool

def failed (reason : String) : Report := { code := 1, err := s!"Error: {reason}\n" }

def printed (text : String) : Report := { out := text ++ "\n" }

def faulty (source : List Char) (f : Fault) : Report :=
  let shown := (Diagnostic.ofFault f source).render source
  { code := 1, err := s!"✗ {shown}\n" }

def padded (width : Nat) (name : String) : String :=
  name ++ String.ofList (List.replicate (width - name.length) ' ')

def entryLines (all : Bool) (e : Registry.Entry) : List String :=
  if all then
    let name := padded 12 e.name
    let blank := padded 12 ""
    [s!"  {name} {e.tops} top(s), {e.bottoms} bottom(s)  {e.description}", s!"  {blank} {e.spec}"]
  else [s!"  {e.name}"]

def stitchList (all : Bool) (r : Registry) : String :=
  let entries := r.listing
  let lines := s!"{entries.length} stitch(es)\n" :: entries.flatMap (entryLines all)
  String.join (lines.map (· ++ "\n"))

def rowsText (format color : String) (rows : Rows) : String :=
  match format with
  | "json" => (Row.json rows).pretty
  | "notation" => Row.written rows color
  | _ => (Row.outline rows).text

def patternText (format : String) (p : Pattern) : String :=
  match format with
  | "text" => p.toText
  | _ => p.toJson.pretty

section
variable {m : Type → Type} [Monad m] (host : Host m)

def readOptions : Option String → m (Except String Options)
  | none => return .ok {}
  | some path => do
    match ← host.load path with
    | none => return .error s!"Failed to read config '{path}'"
    | some text => match (Json.Document.read? text.toList).bind Options.ofDocument? with
      | some options => return .ok options
      | none => return .error s!"Invalid config '{path}'"

def readPattern : Input → m (Except String String)
  | .pattern text => return .ok text
  | .file path => do
    match ← host.load path with
    | some text => return .ok text
    | none => return .error s!"Failed to read file '{path}'"
  | .standard => do
    match ← host.input with
    | some text => return .ok text
    | none => return .error "Failed to read pattern from stdin"

def onPattern (input : Input) (work : List Char → Outcome α) (done : α → m Report) : m Report := do
  match ← readPattern host input with
  | .error reason => return failed reason
  | .ok text => match work text.toList with
    | .error f => return faulty text.toList f
    | .ok result => done result

def act (c : Compiler) : Action → m Report
  | .validate input => onPattern host input c.compile fun p =>
    return printed s!"✓ Pattern is valid ({p.rows.length} rows, {p.stitchCount} stitches)"
  | .expand input => onPattern host input c.expand fun text => return printed text
  | .rows input format => onPattern host input c.rows fun rows =>
    return printed (rowsText format c.options.color rows)
  | .compile input format output => onPattern host input c.compile fun p => do
    let text := patternText format p
    match output with
    | none => return printed text
    | some path =>
      if ← host.store path text then return {} else return failed s!"Failed to write '{path}'"
  | .stitches all => return { out := stitchList all c.registry }

def run (i : Invocation) : m Report := do
  match ← readOptions host i.config with
  | .error reason => return failed reason
  | .ok options => match Compiler.builtin options with
    | .error _ => return failed "Failed to load the built-in stitches"
    | .ok c => act host c i.action

end
end Crochet.Command
