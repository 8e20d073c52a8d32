import Bindery.BindingLanguage
import Bindery.CommandLine.Reader
import Bindery.Config
import Bindery.Host.FileTree
import Bindery.Logging
import Bindery.Main
import Bindery.Program.Run
import Bindery.Report
import Bindery.Contract.Check
import Bindery.Document.Encode
import Bindery.Document.Reader
import Bindery.Extraction
import Bindery.Gleam.Emission
import Bindery.Json.Comments
import Bindery.Json.Pointer
import Bindery.Proofs.Declaration.Recovered
import Bindery.Proofs.Declaration.Tiling
import Bindery.Proofs.Declaration.Lines
import Bindery.Proofs.Declaration.Layout
import Bindery.Proofs.Declaration.Methods
import Bindery.Proofs.Declaration.Types
import Bindery.Proofs.Declaration.Joined
import Bindery.Proofs.Declaration.Truncation
import Bindery.Proofs.Cursor.Safety
import Bindery.Proofs.Program.TwoSteps
import Bindery.Proofs.Gleam.Selection
import Bindery.Proofs.Lineage.Inherited
import Bindery.Proofs.Contract.SchemaReport
import Bindery.Proofs.Gleam.Upcasts
import Bindery.Proofs.Gleam.Handles
import Bindery.Proofs.Gleam.EntryPoints
import Bindery.Proofs.Gleam.Clashes
import Bindery.Proofs.Gleam.Functions
import Bindery.Proofs.Gleam.Parameters
import Bindery.Proofs.Gleam.Identifiers
import Bindery.Proofs.Extraction.Merged
import Bindery.Proofs.Declaration.MergeLaws
import Bindery.Proofs.Document.Straight
import Bindery.Proofs.Document.Checked
import Bindery.Proofs.Program.Gated
import Bindery.Proofs.Json.Decorated
import Bindery.Proofs.Contract.Pointing
import Bindery.Proofs.Contract.DocumentOrder
import Bindery.Proofs.Json.LineNumbers
import Bindery.Proofs.Config.Accepted
