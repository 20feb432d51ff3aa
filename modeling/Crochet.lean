import Crochet.Main
import Crochet.Proofs.Repeat.Meaning
import Crochet.Proofs.Fabric.RoundTrip
import Crochet.Proofs.Origin.Compiling
import Crochet.Proofs.Template.Lookups
import Crochet.Proofs.Graph.Attached
import Crochet.Proofs.Graph.Increase
import Crochet.Proofs.Template.Written
import Crochet.Proofs.Fabric.Consecutive
import Crochet.Proofs.Fabric.Picked
import Crochet.Proofs.Fabric.Relative
import Crochet.Proofs.Provenance.Pointed
import Crochet.Proofs.Fabric.Listed
import Crochet.Proofs.Fabric.Even
import Crochet.Proofs.Fabric.Frame
import Crochet.Proofs.Graph.Primary
import Crochet.Proofs.Repeat.Fixed
import Crochet.Proofs.Template.Distinct
import Crochet.Proofs.Index.InTurn
import Crochet.Proofs.Color.Known
import Crochet.Proofs.Source.Leftover
import Crochet.Proofs.Index.Grammar
import Crochet.Proofs.Token.Tiling
import Crochet.Proofs.Row.Transparent
import Crochet.Proofs.Source.Silent
import Crochet.Proofs.Provenance.Inherited
import Crochet.Proofs.Repeat.Partners
import Crochet.Proofs.Fabric.Turns
import Crochet.Proofs.Provenance.Underlined
