import PulseTrain.Decimal.Style
import PulseTrain.Decimal.Numeral
import PulseTrain.Text.Word
import PulseTrain.Text.Split
import PulseTrain.Text.Integer
import PulseTrain.Text.Alphanumeric
import PulseTrain.Table
import PulseTrain.Unit
import PulseTrain.Duration
import PulseTrain.Samples
import PulseTrain.Variable
import PulseTrain.Pulse
import PulseTrain.Sequence
import PulseTrain.Expression
import PulseTrain.Logged
import PulseTrain.Script.Statement
import PulseTrain.Script.PulseLine
import PulseTrain.Script.Header
import PulseTrain.Script.Declaration
import PulseTrain.Preset.Basic
import PulseTrain.Script.Reader
import PulseTrain.Scan.Basic
import PulseTrain.Validation
import PulseTrain.Script.File
import PulseTrain.Json.Reader
import PulseTrain.Json.Timeline
import PulseTrain.Json.Settings
import PulseTrain.Proofs.Scan.Anchor
import PulseTrain.Proofs.Scan.TextualOrder
import PulseTrain.Proofs.Script.Legal
import PulseTrain.Proofs.Script.StartValue
import PulseTrain.Proofs.Script.IdleLines
import PulseTrain.Proofs.Scan.Requests
import PulseTrain.Proofs.Scan.ValueOrder
import PulseTrain.Proofs.Scan.Unrolling
import PulseTrain.Proofs.Script.FirstPoint
import PulseTrain.Proofs.Preset.Builtin
import PulseTrain.Proofs.Script.Appending
import PulseTrain.Proofs.Script.Naming
import PulseTrain.Proofs.Script.Accounting
import PulseTrain.Proofs.Script.DepthLimit
import PulseTrain.Proofs.Script.Validated
import PulseTrain.Proofs.Scan.Conflict
import PulseTrain.Proofs.Script.WellFormed
import PulseTrain.Proofs.Json.RoundTrip
import PulseTrain.Proofs.Scan.Quantization
import PulseTrain.Proofs.Preset.ReadBack
import PulseTrain.Proofs.Script.LatestEnd
import PulseTrain.Proofs.Expression.Agreement
import PulseTrain.Proofs.Script.BlockGrammar
import PulseTrain.Proofs.Script.Marking
import PulseTrain.Proofs.Expression.Grammar
import PulseTrain.Proofs.Preset.Resolution
import PulseTrain.Proofs.Preset.Timeline
import PulseTrain.Proofs.Script.HeaderPlace
import PulseTrain.Proofs.Validation.Inspection
import PulseTrain.Proofs.Variable
