import SecureStream.Frame.Framer
import SecureStream.Frame.Report
import SecureStream.Diagnostics.Collector
import SecureStream.Session.Journal
import SecureStream.Record
import SecureStream.Sizing
import SecureStream.Buffer.Error
import SecureStream.Buffer.Scratch
import SecureStream.Buffer.Backlog
import SecureStream.Engine.Basic
import SecureStream.Engine.Playback
import SecureStream.Engine.Masked
import SecureStream.Channel.Error
import SecureStream.Channel.Link
import SecureStream.Channel.Wrapping
import SecureStream.Channel.Handshake
import SecureStream.Channel.Closing
import SecureStream.Channel.Records
import SecureStream.Channel.Basic
import SecureStream.Endpoint
import SecureStream.Diagnostics.Json
import SecureStream.Sizing.Json
import SecureStream.Proofs.Frame.HeaderReading
import SecureStream.Proofs.Frame.Items
import SecureStream.Proofs.Frame.Schedule
import SecureStream.Proofs.Buffer.Room
import SecureStream.Proofs.Buffer.Refusals
import SecureStream.Proofs.Buffer.Queue
import SecureStream.Proofs.Buffer.Storage
import SecureStream.Proofs.Record.Items
import SecureStream.Proofs.Record.Opening
import SecureStream.Proofs.Standing.Basic
import SecureStream.Proofs.Standing.Laws
import SecureStream.Proofs.Standing.Output
import SecureStream.Proofs.Standing.Handshake
import SecureStream.Proofs.Standing.Records
import SecureStream.Proofs.Standing.Writing
import SecureStream.Proofs.Engine.Attempts
import SecureStream.Proofs.Endpoint.Standing
import SecureStream.Proofs.Endpoint.Pieces
import SecureStream.Proofs.Standing.Opening
import SecureStream.Proofs.Endpoint.Plain
import SecureStream.Proofs.Endpoint.Conversation
import SecureStream.Proofs.Endpoint.Agreement
import SecureStream.Proofs.Frame.Accepting
import SecureStream.Proofs.Frame.Draining
import SecureStream.Proofs.Frame.EndOfStream
import SecureStream.Proofs.Frame.RoundTrip
import SecureStream.Proofs.Pipeline
import SecureStream.Proofs.Channel.Course
import SecureStream.Proofs.Channel.Log
import SecureStream.Proofs.Channel.Intake
import SecureStream.Proofs.Channel.Rounds
import SecureStream.Proofs.Channel.Calls
import SecureStream.Proofs.Channel.Keeping
import SecureStream.Proofs.Channel.Gate
import SecureStream.Proofs.Channel.Opened
import SecureStream.Proofs.Channel.Marks
import SecureStream.Proofs.Endpoint.Reached
import SecureStream.Proofs.Endpoint.Sending
import SecureStream.Proofs.Endpoint.Receiving
import SecureStream.Proofs.Standing.Steadiness
import SecureStream.Proofs.Endpoint.Consistency
import SecureStream.Proofs.Endpoint.Closure
import SecureStream.Proofs.Channel.Outcomes
import SecureStream.Proofs.Channel.Limits
import SecureStream.Proofs.Channel.Likeness
import SecureStream.Proofs.Channel.Resizing
import SecureStream.Proofs.Channel.Transparency
import SecureStream.Proofs.Endpoint.Transparency
import SecureStream.Proofs.Channel.Hindsight
import SecureStream.Proofs.Diagnostics.Collecting
import SecureStream.Proofs.Diagnostics.Reporters
import SecureStream.Proofs.Diagnostics.Interference
import SecureStream.Proofs.Channel.Sending
import SecureStream.Proofs.Channel.Advancing
import SecureStream.Proofs.Channel.Passes
import SecureStream.Proofs.Channel.Shaking
import SecureStream.Proofs.Channel.Scripts
import SecureStream.Proofs.Channel.Playing
import SecureStream.Proofs.Channel.Answering
import SecureStream.Proofs.Channel.Making
import SecureStream.Proofs.Diagnostics.Flags
import SecureStream.Proofs.Diagnostics.FlagLists
import SecureStream.Proofs.Json.Tokens
import SecureStream.Proofs.Json.RoundTrip
import SecureStream.Proofs.Json.Fields
import SecureStream.Proofs.Sizing.Settings
import SecureStream.Proofs.Sizing.Records
import SecureStream.Proofs.Configurations
import SecureStream.Proofs.Diagnostics.Routing
import SecureStream.Proofs.Frame.Fields
