import Scriptlet.CommandLine
import Scriptlet.Main
import Scriptlet.Proofs.Assignment.Augmented
import Scriptlet.Proofs.Attachment.Whole
import Scriptlet.Proofs.Caps.Estimates
import Scriptlet.Proofs.Composition
import Scriptlet.Proofs.Documents.Whole
import Scriptlet.Proofs.Echo
import Scriptlet.Proofs.Escape.Scripts
import Scriptlet.Proofs.Frame.Expressions
import Scriptlet.Proofs.Keys.Same
import Scriptlet.Proofs.Keys.Whole
import Scriptlet.Proofs.Kinds.Running
import Scriptlet.Proofs.Machine.Depth
import Scriptlet.Proofs.Malformed
import Scriptlet.Proofs.Members
import Scriptlet.Proofs.Naming
import Scriptlet.Proofs.Outcomes
import Scriptlet.Proofs.Output.Refusals
import Scriptlet.Proofs.Parse.Whole
import Scriptlet.Proofs.Powers
import Scriptlet.Proofs.Printing.Parsing
import Scriptlet.Proofs.Program.Rounds
import Scriptlet.Proofs.Progression
import Scriptlet.Proofs.ReadBack.Whole
import Scriptlet.Proofs.Registering
import Scriptlet.Proofs.Rendering.Templates
import Scriptlet.Proofs.Rounding
import Scriptlet.Proofs.SetOrder
import Scriptlet.Proofs.Spans.Whole
import Scriptlet.Proofs.Storing
import Scriptlet.Proofs.Switching.Starts
import Scriptlet.Proofs.Text.Hashing
import Scriptlet.Proofs.Tiling
import Scriptlet.Server
import Scriptlet.Session
import Scriptlet.Telemetry
import Scriptlet.Telemetry.Span
import Scriptlet.Tool
