import LspProxy.Bytes
import LspProxy.Channel.Connection
import LspProxy.Channel.Endpoint
import LspProxy.Channel.Fault
import LspProxy.Channel.Listener
import LspProxy.Disk.Basic
import LspProxy.Disk.Folder
import LspProxy.Disk.Path
import LspProxy.Disk.Walk
import LspProxy.Duration
import LspProxy.Failure
import LspProxy.Frame.Codec
import LspProxy.Frame.Header
import LspProxy.Frame.Reader
import LspProxy.Frame.Writer
import LspProxy.Json.Lexeme
import LspProxy.Json.Printer
import LspProxy.Json.Record
import LspProxy.Json.Value
import LspProxy.Log.Event
import LspProxy.Log.Line
import LspProxy.Main
import LspProxy.Message.DiagnosticRequest
import LspProxy.Message.Expansion
import LspProxy.Message.Identifier
import LspProxy.Message.Interceptor
import LspProxy.Message.Method
import LspProxy.Parent.Probe
import LspProxy.Parent.Watch
import LspProxy.Proofs.Bytes.Occurrence
import LspProxy.Proofs.Channel.Binding
import LspProxy.Proofs.Channel.Listening
import LspProxy.Proofs.Channel.Ownership
import LspProxy.Proofs.Channel.Succession
import LspProxy.Proofs.Disk.Edits
import LspProxy.Proofs.Disk.Extensions
import LspProxy.Proofs.Disk.Parents
import LspProxy.Proofs.Disk.Persistence
import LspProxy.Proofs.Disk.Places
import LspProxy.Proofs.Disk.Sockets
import LspProxy.Proofs.Disk.Writing
import LspProxy.Proofs.Frame.Answering
import LspProxy.Proofs.Frame.Calls
import LspProxy.Proofs.Frame.Decoding
import LspProxy.Proofs.Frame.Grammar
import LspProxy.Proofs.Frame.Header
import LspProxy.Proofs.Frame.Hearing
import LspProxy.Proofs.Frame.Malformed
import LspProxy.Proofs.Frame.Pieces
import LspProxy.Proofs.Frame.Reading
import LspProxy.Proofs.Frame.Transmission
import LspProxy.Proofs.Json.Grammar
import LspProxy.Proofs.Json.Lexemes
import LspProxy.Proofs.Json.Numbers
import LspProxy.Proofs.Json.Objects
import LspProxy.Proofs.Json.Passing
import LspProxy.Proofs.Json.Places
import LspProxy.Proofs.Json.Printed
import LspProxy.Proofs.Json.Readers
import LspProxy.Proofs.Json.Records
import LspProxy.Proofs.Json.Strings
import LspProxy.Proofs.Json.Variants
import LspProxy.Proofs.Json.Written
import LspProxy.Proofs.Message.Bootstrap
import LspProxy.Proofs.Message.Carrying
import LspProxy.Proofs.Message.Classification
import LspProxy.Proofs.Message.Coverage
import LspProxy.Proofs.Message.Documents
import LspProxy.Proofs.Message.Identifiers
import LspProxy.Proofs.Message.Methods
import LspProxy.Proofs.Message.Orders
import LspProxy.Proofs.Message.Requests
import LspProxy.Proofs.Message.RoundTrip
import LspProxy.Proofs.Message.Variants
import LspProxy.Proofs.Message.Widening
import LspProxy.Proofs.Parent.Watching
import LspProxy.Proofs.Relay.Batches
import LspProxy.Proofs.Relay.Closing
import LspProxy.Proofs.Relay.Copying
import LspProxy.Proofs.Relay.Delivery
import LspProxy.Proofs.Relay.Forwarding
import LspProxy.Proofs.Relay.Independence
import LspProxy.Proofs.Relay.Recording
import LspProxy.Proofs.Relay.Stalling
import LspProxy.Proofs.Relay.Stopping
import LspProxy.Proofs.Session.Cancellation
import LspProxy.Proofs.Session.Cleanup
import LspProxy.Proofs.Session.Confinement
import LspProxy.Proofs.Session.Outcomes
import LspProxy.Proofs.Session.Phases
import LspProxy.Proofs.Session.ServerInput
import LspProxy.Proofs.Session.ServerOutput
import LspProxy.Proofs.Session.Standstill
import LspProxy.Proofs.Session.Turns
import LspProxy.Proofs.Settings.LogFolder
import LspProxy.Proofs.Stream.Sink
import LspProxy.Proofs.Stream.Trace
import LspProxy.Proofs.Text.Lines
import LspProxy.Proofs.Text.Lossy
import LspProxy.Proofs.Text.Utf8
import LspProxy.Proofs.Uri.RoundTrip
import LspProxy.Proofs.Workspace.Discovery
import LspProxy.Proofs.Workspace.Opening
import LspProxy.Rehearsal.Action
import LspProxy.Rehearsal.Basic
import LspProxy.Rehearsal.Command
import LspProxy.Rehearsal.Contact
import LspProxy.Rehearsal.Peer
import LspProxy.Rehearsal.Performance
import LspProxy.Rehearsal.Program
import LspProxy.Rehearsal.Script
import LspProxy.Rehearsal.Stage
import LspProxy.Rehearsal.Word
import LspProxy.Relay.Client
import LspProxy.Relay.Copy
import LspProxy.Relay.MessageLog
import LspProxy.Session.ExitStatus
import LspProxy.Session.Launch
import LspProxy.Session.Outcome
import LspProxy.Session.Relays
import LspProxy.Session.Run
import LspProxy.Session.State
import LspProxy.Session.Step
import LspProxy.Settings.Basic
import LspProxy.Settings.CommandLine
import LspProxy.Stream.Pipe
import LspProxy.Stream.Sink
import LspProxy.Stream.Source
import LspProxy.Text.Blank
import LspProxy.Text.Decimal
import LspProxy.Text.Fields
import LspProxy.Text.Hexadecimal
import LspProxy.Text.LineMetrics
import LspProxy.Text.Quoted
import LspProxy.Text.Utf8
import LspProxy.Uri.Address
import LspProxy.Uri.Basic
import LspProxy.Uri.FilePath
import LspProxy.Uri.Host
import LspProxy.Uri.Percent
import LspProxy.Uri.Punycode
import LspProxy.Uri.Segments
import LspProxy.Workspace.Basic
import LspProxy.Workspace.Discovery
