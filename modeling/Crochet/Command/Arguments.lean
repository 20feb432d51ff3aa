import Crochet.Command.Basic
import Crochet.Text.Split

/-! Reading of command line arguments.

Options may stand before or after the verb, those of the verb only after it. A value follows its
option, after `=` if the option is long, or directly after a short one; short switches may share one
dash. After `--` nothing is an option. No option may be given twice at one level. -/
namespace Crochet.Command
open Crochet.Text

inductive Verb where
  | validate
  | expand
  | rows
  | compile
  | stitches
  deriving DecidableEq, Repr

def Verb.named? : String → Option Verb
  | "validate" => some .validate
  | "expand" => some .expand
  | "rows" => some .rows
  | "compile" => some .compile
  | "stitches" => some .stitches
  | _ => none

def Verb.takesPattern : Verb → Bool
  | .stitches => false
  | _ => true

inductive Flag where
  | help
  | verbose
  | all
  | config
  | file
  | output
  | rowsFormat
  | graphFormat
  deriving DecidableEq, Repr

inductive Flag.Kind where
  | switch
  | path
  | text
  deriving DecidableEq, Repr

def Flag.kind : Flag → Flag.Kind
  | .help | .verbose | .all => .switch
  | .config | .file | .output => .path
  | .rowsFormat | .graphFormat => .text

structure FlagName where
  short : Option Char
  long : String
  flag : Flag
  deriving DecidableEq, Repr

def globalFlags : List FlagName :=
  [⟨some 'h', "help", .help⟩, ⟨some 'v', "verbose", .verbose⟩, ⟨some 'c', "config", .config⟩]

def fileFlag : FlagName := ⟨some 'f', "file", .file⟩

def Verb.flags : Verb → List FlagName
  | .validate | .expand => [fileFlag]
  | .rows => [fileFlag, ⟨some 'o', "output-format", .rowsFormat⟩]
  | .compile => [fileFlag, ⟨none, "format", .graphFormat⟩, ⟨some 'o', "output", .output⟩]
  | .stitches => [⟨some 'a', "all", .all⟩]

/-- What has been given at one level; `pending` waits for its value. -/
structure Given where
  switches : List Flag := []
  values : List (Flag × String) := []
  pattern : Option String := none
  pending : Option Flag := none
  literal : Bool := false
  deriving DecidableEq, Repr

namespace Given

def value? (g : Given) (flag : Flag) : Option String := g.values.lookup flag

def switch (g : Given) (flag : Flag) : Except Refusal Given :=
  if g.pending.isSome then .error .usage
  else if flag = .help then .error .help
  else if g.switches.contains flag then .error .usage
  else .ok { g with switches := flag :: g.switches }

def await (g : Given) (flag : Flag) : Except Refusal Given :=
  if g.pending.isSome then .error .usage else .ok { g with pending := some flag }

def setValue (g : Given) (flag : Flag) (value : String) : Except Refusal Given :=
  if g.pending.isSome || (g.value? flag).isSome then .error .usage
  else if flag.kind = .path && value.isEmpty then .error .usage
  else .ok { g with values := (flag, value) :: g.values }

def long (g : Given) (known : List FlagName) (name : List Char) (value : Option (List Char)) :
    Except Refusal Given :=
  match known.find? (·.long.toList = name) with
  | none => .error .usage
  | some n => match n.flag.kind, value with
    | .switch, none => g.switch n.flag
    | .switch, some _ => .error .usage
    | _, none => g.await n.flag
    | _, some value => g.setValue n.flag (String.ofList value)

/-- Options of one letter behind one dash; the first that takes a value takes the rest. -/
def short (known : List FlagName) : Given → List Char → Except Refusal Given
  | g, [] => .ok g
  | g, c :: rest =>
    match known.find? (·.short = some c) with
    | none => .error .usage
    | some n =>
      if n.flag.kind = .switch then do
        let g ← g.switch n.flag
        short known g rest
      else match rest with
        | [] => g.await n.flag
        | '=' :: value => g.setValue n.flag (String.ofList value)
        | value => g.setValue n.flag (String.ofList value)

end Given

inductive Level where
  | top
  | verb (v : Verb)
  | help (chosen : Bool)
  deriving DecidableEq, Repr

def Level.flags : Level → List FlagName
  | .verb v => globalFlags ++ v.flags
  | _ => globalFlags

structure Parsing where
  level : Level := .top
  outer : Given := {}
  given : Given := {}
  deriving DecidableEq, Repr

namespace Parsing

def positional (p : Parsing) (word : String) : Except Refusal Parsing :=
  match p.level with
  | .verb v =>
    if v.takesPattern && p.given.pattern.isNone && p.given.pending.isNone then
      .ok { p with given := { p.given with pattern := some word } }
    else .error .usage
  | .top =>
    if p.given.literal then .error .usage
    else match Verb.named? word with
      | some v => .ok { level := .verb v, outer := p.given, given := {} }
      | none => if word = "help" then .ok { p with level := .help false } else .error .usage
  | .help chosen =>
    if !chosen && (word = "help" || (Verb.named? word).isSome) then
      .ok { p with level := .help true }
    else .error .usage

def step (p : Parsing) (word : String) : Except Refusal Parsing :=
  let known := p.level.flags
  let put (g : Except Refusal Given) : Except Refusal Parsing := g.map fun given => { p with given }
  if p.given.literal || p.level matches .help _ then p.positional word
  else match word.toList with
    | ['-', '-'] => .ok { p with given := { p.given with literal := true } }
    | '-' :: '-' :: rest => put <| match cutFirst (· == '=') rest with
      | some (name, value) => p.given.long known name (some value)
      | none => p.given.long known rest none
    | '-' :: c :: rest => put (Given.short known p.given (c :: rest))
    | _ => match p.given.pending with
      | some flag => put ({ p.given with pending := none }.setValue flag word)
      | none => p.positional word

def input (g : Given) : Input :=
  match g.pattern, g.value? .file with
  | some text, _ => .pattern text
  | none, some path => .file path
  | none, none => .standard

def action (g : Given) : Verb → Action
  | .validate => .validate (input g)
  | .expand => .expand (input g)
  | .rows => .rows (input g) ((g.value? .rowsFormat).getD "debug")
  | .compile => .compile (input g) ((g.value? .graphFormat).getD "json") (g.value? .output)
  | .stitches => .stitches (g.switches.contains .all)

/-- A pattern and a file exclude each other. What the verb is given wins over what stands before. -/
def finish (p : Parsing) : Except Refusal Invocation :=
  match p.level with
  | .top => .error .usage
  | .help _ => .error .help
  | .verb v =>
    let g := p.given
    if g.pending.isSome || (g.pattern.isSome && (g.value? .file).isSome) then .error .usage
    else .ok {
      config := g.value? .config <|> p.outer.value? .config
      verbose := g.switches.contains .verbose || p.outer.switches.contains .verbose
      action := action g v }

end Parsing

def parse (words : List String) : Except Refusal Invocation := do
  let p ← words.foldlM Parsing.step {}
  p.finish

end Crochet.Command
