import Crochet.Fabric.Place
import Crochet.Fabric.Resolve
import Crochet.Graph.Draw
import Crochet.Index.Evaluate
import Crochet.Pattern
import Crochet.Repeat.Expand
import Crochet.Row.Flatten
import Crochet.Source.Prepared

/-! From the text of a pattern to its graph. Every pattern starts from the compiler's registry, so
stitches that one pattern defines are unknown to the next. -/
namespace Crochet

structure Compiler where
  options : Options := {}
  registry : Registry
  deriving DecidableEq, Repr

namespace Compiler

def builtin (options : Options) : Except TemplateFault Compiler :=
  Registry.builtin.map fun registry => { options, registry }

/-- A pattern on its way: `text` has its repeats and indices worked out, `registry` holds the
stitches it defines. -/
structure Expanded where
  prepared : Source.Prepared
  text : MappedText
  registry : Registry
  deriving DecidableEq, Repr

def expanded (c : Compiler) (source : List Char) : Outcome Expanded := do
  let (prepared, registry) ← Source.prepare source c.registry
  let repeated ← Repeat.expand prepared.expression
  let text ← Index.evaluate registry repeated
  return { prepared, text, registry }

def parsed (c : Compiler) (source : List Char) : Outcome (Expanded × Rows) := do
  let e ← c.expanded source
  let rows ← Row.parseRows e.text e.prepared.colors c.options.color
  return (e, rows)

def fabric (c : Compiler) (source : List Char) : Outcome (Expanded × Fabric) := do
  let (e, rows) ← c.parsed source
  let fabric ← Fabric.weave rows e.registry c.options
  return (e, fabric)

def resolved (f : Fabric) : Outcome Fabric :=
  match f.resolve with
  | (f, .ok ()) => .ok f
  | (_, .error fault) => .error fault

def pattern (c : Compiler) (source : List Char) : Outcome Pattern := do
  let (e, fabric) ← c.fabric source
  let fabric ← resolved fabric
  let graph ← Graph.ofFabric fabric c.options
  let metadata := e.prepared.metadata
  return {
    graph
    metadata := metadata.dot
    transforms := metadata.transforms
    background := metadata.background
    definitions := metadata.definitions
    rows := fabric.summaries }

def quoting (source : List Char) (result : Outcome α) : Outcome α :=
  result.mapError (·.withSource source)

def compile (c : Compiler) (source : List Char) : Outcome Pattern :=
  quoting source (c.pattern source)

def expand (c : Compiler) (source : List Char) : Outcome String :=
  quoting source ((c.expanded source).map fun e => MappedText.text e.text)

def rows (c : Compiler) (source : List Char) : Outcome Rows :=
  quoting source ((c.parsed source).map Prod.snd)

end Compiler
end Crochet
