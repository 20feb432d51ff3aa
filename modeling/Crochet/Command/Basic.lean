/-! What the command line asks for. -/
namespace Crochet.Command

inductive Input where
  | pattern (text : String)
  | file (path : String)
  | standard
  deriving DecidableEq, Repr

inductive Action where
  | validate (input : Input)
  | expand (input : Input)
  | rows (input : Input) (format : String)
  | compile (input : Input) (format : String) (output : Option String)
  | stitches (all : Bool)
  deriving DecidableEq, Repr

structure Invocation where
  config : Option String := none
  verbose : Bool := false
  action : Action
  deriving DecidableEq, Repr

inductive Refusal where
  | usage
  | help
  deriving DecidableEq, Repr

def Refusal.code : Refusal → Nat
  | .usage => 2
  | .help => 0

structure Report where
  code : Nat := 0
  out : String := ""
  err : String := ""
  deriving DecidableEq, Repr

end Crochet.Command
