import Crochet.Fabric.Pass

/-! Labels worked out pass by pass. Passes before one that fails stay done. -/
namespace Crochet.Fabric

def setBottom (f : Fabric) (stitch bottom : Nat) (node : NodeRef) : Fabric :=
  { f with stitches := f.stitches.modify stitch fun s =>
      { s with bottoms := s.bottoms.set bottom node } }

def assign (f : Fabric) (entry : (Nat × Nat) × NodeRef) : Fabric :=
  f.setBottom entry.1.1 entry.1.2 entry.2

def checkBottom (f : Fabric) (s : Stitch) (index : Nat) (b : BottomNode) (node : NodeRef) :
    Outcome Unit :=
  if !node.ids.all fun id => f.producedBefore id index then
    faultAt (.label (.notEarlier s.name node)) s.source
  else if (f.descend node b.depth).isNone then
    faultAt (.label (.tooDeep s.name b.depth node)) s.source
  else .ok ()

def checkBottoms (f : Fabric) : Outcome Unit :=
  f.stitches.zipIdx.forM fun (s, index) =>
    (s.template.bottoms.zip s.bottoms).forM fun (b, node) => f.checkBottom s index b node

def runPasses (f : Fabric) : List Pass → Fabric × Outcome Unit
  | [] => (f, .ok ())
  | p :: rest => match f.assignments p with
    | .error fault => (f, .error fault)
    | .ok entries => (entries.foldl assign f).runPasses rest

def resolve (f : Fabric) : Fabric × Outcome Unit :=
  match f.passes with
  | .error fault => (f, .error fault)
  | .ok passes => match f.runPasses passes with
    | (f, .error fault) => (f, .error fault)
    | (f, .ok ()) => (f, f.checkBottoms)

end Crochet.Fabric
