import CryptolEdit.Highlight
import CryptolEdit.Json.Named
import CryptolEdit.Outline
import CryptolEdit.Program
import CryptolEdit.Registration
import CryptolEdit.Settings.Document
import CryptolEdit.Proofs.Session.Polling
import CryptolEdit.Proofs.Session.Run
import CryptolEdit.Proofs.Session.Focus
import CryptolEdit.Proofs.Session.Naming
import CryptolEdit.Proofs.Session.Custody
import CryptolEdit.Proofs.Text.Tiling
import CryptolEdit.Proofs.Token.Grammar
import CryptolEdit.Proofs.Token.Munch
import CryptolEdit.Proofs.Text.Boundary
import CryptolEdit.Proofs.Text.Line
import CryptolEdit.Proofs.Token.Seam
import CryptolEdit.Proofs.Token.Part
import CryptolEdit.Proofs.Highlight.Piece
import CryptolEdit.Proofs.Highlight.Part
import CryptolEdit.Proofs.Highlight.Line
import CryptolEdit.Proofs.Highlight.Lossless
import CryptolEdit.Proofs.Text.Run
import CryptolEdit.Proofs.Token.Occurrence
import CryptolEdit.Proofs.Highlight.Meaning
import CryptolEdit.Proofs.Backend.History
import CryptolEdit.Proofs.Session.Backends
import CryptolEdit.Proofs.Session.Table
import CryptolEdit.Proofs.Session.Coherence
import CryptolEdit.Proofs.Session.Reuse
import CryptolEdit.Proofs.Outline.Grammar
import CryptolEdit.Proofs.Outline.Agreement
import CryptolEdit.Proofs.Outline.Concat
import CryptolEdit.Proofs.Outline.Position
import CryptolEdit.Proofs.Highlight.Literal
import CryptolEdit.Proofs.Json.Number
import CryptolEdit.Proofs.Json.Quoted
import CryptolEdit.Proofs.Json.Value
import CryptolEdit.Proofs.Settings.RoundTrip
import CryptolEdit.Proofs.Json.Grammar
import CryptolEdit.Proofs.Json.Skip
import CryptolEdit.Proofs.Settings.Override
import CryptolEdit.Proofs.Json.Truncation
import CryptolEdit.Proofs.Settings.Truncation
import CryptolEdit.Proofs.Session.Frame
import CryptolEdit.Proofs.Session.Refusal
import CryptolEdit.Proofs.Session.Pruning
import CryptolEdit.Proofs.Text.Separated
import CryptolEdit.Proofs.Backend.Listing
import CryptolEdit.Proofs.Backend.Joined
import CryptolEdit.Proofs.Mode.Selection
import CryptolEdit.Proofs.Token.Lookahead
import CryptolEdit.Proofs.Text.Offset
