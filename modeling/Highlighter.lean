import Highlighter.Text.Lower
import Highlighter.Text.Word
import Highlighter.Styled
import Highlighter.Session
import Highlighter.Buffer.Offset
import Highlighter.Buffer.Follower
import Highlighter.Refresh.Throttle
import Highlighter.Refresh.Queue
import Highlighter.Regex.Reader
import Highlighter.Regex.Matches
import Highlighter.Scheme.Draft
import Highlighter.Regions
import Highlighter.Labeling
import Highlighter.Json.Decode
import Highlighter.Definition.Json
import Highlighter.Settings
import Highlighter.Registry
import Highlighter.Brackets
import Highlighter.Brackets.Balance
import Highlighter.CommandLine
import Highlighter.Main
import Highlighter.Proofs.Buffer.Replay
import Highlighter.Proofs.Buffer.Deletion
import Highlighter.Proofs.Refresh.Windows
import Highlighter.Proofs.Document.Records
import Highlighter.Proofs.Document.Coherence
import Highlighter.Proofs.Document.Incremental
import Highlighter.Proofs.Document.Cascade
import Highlighter.Proofs.Document.Batch
import Highlighter.Proofs.Document.Structure
import Highlighter.Proofs.Document.Pacing
import Highlighter.Proofs.Coloring.Runs
import Highlighter.Proofs.Coloring.Required
import Highlighter.Proofs.Coloring.Embedded
import Highlighter.Proofs.Labels.Delimiters
import Highlighter.Proofs.Labels.Pairing
import Highlighter.Proofs.Labels.Placing
import Highlighter.Proofs.Labels.Handover
import Highlighter.Proofs.Labels.Nesting
import Highlighter.Proofs.Labels.Containers
import Highlighter.Proofs.Labels.Twins
import Highlighter.Proofs.Buffer.Insertion
import Highlighter.Proofs.Brackets.Account
import Highlighter.Proofs.Registry.Loading
import Highlighter.Proofs.Labels.Origins
import Highlighter.Proofs.Labels.LeftOpen
import Highlighter.Proofs.Labels.Embedding
import Highlighter.Proofs.Definition.RoundTrip
import Highlighter.Proofs.Document.Resumption
import Highlighter.Proofs.Labels.Shape
import Highlighter.Proofs.Scheme.Construction
import Highlighter.Proofs.Brackets.Masking
import Highlighter.Proofs.Coloring.Drawing
import Highlighter.Proofs.Labels.Tokens
import Highlighter.Proofs.Registry.Lookup
import Highlighter.Proofs.Definition.Inheritance
import Highlighter.Proofs.Refresh.Spacing
import Highlighter.Proofs.Scheme.WholeTokens
import Highlighter.Proofs.Theme.Colors
import Highlighter.Proofs.Theme.Roles
