import VisualProgram.Main
import VisualProgram.Proofs.Document.Loading
import VisualProgram.Proofs.Graph.Search
import VisualProgram.Proofs.Identifier.Stable
import VisualProgram.Proofs.Literal.RoundTrip
import VisualProgram.Proofs.Program.Identifiers
import VisualProgram.Proofs.Program.States
import VisualProgram.Proofs.Script.Faithful
import VisualProgram.Proofs.Script.Mentioned
import VisualProgram.Proofs.Script.Outline
import VisualProgram.Proofs.Script.Quoting
import VisualProgram.Proofs.Script.Signs
import VisualProgram.Proofs.Script.Synonyms
import VisualProgram.Proofs.Script.Unknown
import VisualProgram.Proofs.Script.Variables
import VisualProgram.Proofs.Workspace.Reconnecting
import VisualProgram.Proofs.Workspace.RoundTrip
import VisualProgram.Proofs.Decimal.Finite
import VisualProgram.Proofs.Definition.Descriptors
import VisualProgram.Proofs.Definition.Entries
import VisualProgram.Proofs.Definition.Message
import VisualProgram.Proofs.Definition.Warnings
import VisualProgram.Proofs.Text.Shown
import VisualProgram.Proofs.Definition.Stub
import VisualProgram.Proofs.Definition.Locals
import VisualProgram.Proofs.Program.Docstring
import VisualProgram.Proofs.Script.Once
import VisualProgram.Proofs.Decimal.Sign
import VisualProgram.Proofs.Script.Numbers
import VisualProgram.Proofs.Literal.Shifting
