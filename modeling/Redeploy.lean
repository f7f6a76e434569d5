import Redeploy.Block.CatalogFile
import Redeploy.Migration.Migrate
import Redeploy.Config.File
import Redeploy.Proofs.Text.Splice
import Redeploy.Proofs.Syntax.Parsed
import Redeploy.Proofs.Syntax.Edges
import Redeploy.Proofs.Syntax.Targets
import Redeploy.Proofs.Migration.Target
import Redeploy.Proofs.Migration.Walk
import Redeploy.Proofs.Script.Head
import Redeploy.Proofs.Migration.DeadImport
import Redeploy.Proofs.Migration.Edits
import Redeploy.Proofs.Syntax.Layout
import Redeploy.Proofs.Text.Pieces
import Redeploy.Proofs.Migration.DeadName
import Redeploy.Proofs.Syntax.Balance
import Redeploy.Proofs.Syntax.Rows
import Redeploy.Proofs.Syntax.Gaps
import Redeploy.Proofs.Migration.DeadStatement
import Redeploy.Proofs.Migration.Arrival
import Redeploy.Proofs.Migration.Rebinding
import Redeploy.Proofs.Migration.Helper
import Redeploy.Proofs.Syntax.Outcome
import Redeploy.Proofs.Syntax.Shapes
import Redeploy.Proofs.Migration.Outermost
import Redeploy.Proofs.Migration.Independence
import Redeploy.Proofs.Fallible
import Redeploy.Proofs.Call.NormalForm
import Redeploy.Proofs.Call.Replacement
import Redeploy.Proofs.Call.Readings
import Redeploy.Proofs.Block.LoadCall
import Redeploy.Proofs.Call.LoadedBlock
import Redeploy.Proofs.Binding.LastBinding
import Redeploy.Proofs.Call.Rewording
import Redeploy.Proofs.Call.Failures
import Redeploy.Proofs.Call.Notes
import Redeploy.Proofs.Block.Chain
import Redeploy.Proofs.Block.Alias
import Redeploy.Proofs.Block.SlugWords
import Redeploy.Proofs.Call.Receiver
import Redeploy.Proofs.Text.Weave
import Redeploy.Proofs.Script.SafePlace
import Redeploy.Proofs.Script.CodingLine
import Redeploy.Proofs.Migration.Requoted
import Redeploy.Proofs.Migration.Reference
import Redeploy.Proofs.Config.Usable
import Redeploy.Proofs.Migration.KeptImport
import Redeploy.Proofs.Config.RoundTrip
