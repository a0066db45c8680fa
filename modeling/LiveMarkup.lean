import LiveMarkup.Client.Dispatch
import LiveMarkup.Document.Write
import LiveMarkup.Proofs.Client.Hydration
import LiveMarkup.Proofs.QueueHistory
import LiveMarkup.Proofs.TemplateDirectives
import LiveMarkup.Reactive.Script
import LiveMarkup.Proofs.Client.KeyAgreement
import LiveMarkup.Proofs.Client.SetupData
import LiveMarkup.Proofs.Expr.Grammar
import LiveMarkup.Proofs.Expr.Reading
import LiveMarkup.Proofs.Expr.Soundness
import LiveMarkup.Proofs.Expr.Placed
import LiveMarkup.Proofs.Expr.Completeness
import LiveMarkup.Proofs.Render.Escaping
import LiveMarkup.Proofs.Render.FailureLines
import LiveMarkup.Proofs.Reactive.FailedWrites
import LiveMarkup.Proofs.Client.Fallback
import LiveMarkup.Proofs.Text.Occurrence
import LiveMarkup.Proofs.Scanning
import LiveMarkup.Proofs.Render.Tandem
import LiveMarkup.Proofs.Engine.Requests
import LiveMarkup.Proofs.Engine.Tandem
import LiveMarkup.Proofs.Engine.Caching
import LiveMarkup.Proofs.Engine.Checking
import LiveMarkup.Proofs.Reactive.Unwatched
import LiveMarkup.Proofs.Engine.Termination
import LiveMarkup.Proofs.Document.Arena
import LiveMarkup.Proofs.Render.NamedData
import LiveMarkup.Proofs.Render.Passages
import LiveMarkup.Proofs.Value.Script
import LiveMarkup.Proofs.Client.StableKeys
import LiveMarkup.Proofs.Document.EscapedText
import LiveMarkup.Proofs.Client.Keyed
import LiveMarkup.Proofs.Document.Outside
import LiveMarkup.Proofs.Client.Patching
import LiveMarkup.Proofs.Engine.RootElement
import LiveMarkup.Proofs.Render.Scopes
import LiveMarkup.Proofs.Client.Lifecycle
import LiveMarkup.Proofs.Client.Moments
import LiveMarkup.Proofs.Client.Frames
import LiveMarkup.Proofs.Document.RoundTrip
import LiveMarkup.Proofs.Reactive.Batches
import LiveMarkup.Proofs.Document.Differences
import LiveMarkup.Proofs.Document.ControlValues
import LiveMarkup.Proofs.Engine.MarkedProgram
import LiveMarkup.Proofs.Client.FreshKeys
import LiveMarkup.Proofs.Engine.Faults
import LiveMarkup.Proofs.Engine.BlockFiles
import LiveMarkup.Proofs.Render.Blame
import LiveMarkup.Proofs.Engine.ComponentLines
import LiveMarkup.Proofs.Document.MarkedTag
import LiveMarkup.Proofs.Engine.MarkedMarkup
import LiveMarkup.Proofs.KeySearch
import LiveMarkup.Proofs.Token.Literal
import LiveMarkup.Proofs.Value.Comparison
import LiveMarkup.Proofs.Source.LineTable
import LiveMarkup.Proofs.Render.References
import LiveMarkup.Proofs.Token.Slices
import LiveMarkup.Proofs.Expr.Nodes
import LiveMarkup.Proofs.Expr.Reparse
import LiveMarkup.Proofs.Token.Spelling
import LiveMarkup.Proofs.Expr.Lists
import LiveMarkup.Proofs.Render.Values
import LiveMarkup.Proofs.Client.Arguments
import LiveMarkup.Proofs.Document.BooleanProperties
import LiveMarkup.Proofs.Document.Trees
import LiveMarkup.Proofs.Client.Rehydration
import LiveMarkup.Proofs.Engine.AttributeText
import LiveMarkup.Proofs.Client.Nesting
